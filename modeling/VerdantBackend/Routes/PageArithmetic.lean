import VerdantBackend.Farmers.SearchPages

/-!
# Page arithmetic

The page of a request is bounded below only. The three list endpoints and the farmer
search compute the offset of a page alike; it is right as long as the product fits an
`i64`, and then a page after the last is empty.
-/

namespace VerdantBackend

open Paging (Sorter)

/-- The offset of the page fits an `i64`. -/
def OffsetFits (page pageSize : Int64) : Prop :=
  pageIndex page * clampedSize pageSize < 2 ^ 63

instance (page pageSize : Int64) : Decidable (OffsetFits page pageSize) :=
  inferInstanceAs (Decidable (_ < _))

/-- No operation of `(page - 1) * page_size` and of `(total + page_size - 1) / page_size`
overflows, and the offset is not negative. (A division by a positive number does not
overflow.) -/
structure ArithmeticSafe (page pageSize : Int64) (total : Nat) : Prop where
  pred : (normalizePage page - 1).toInt = (normalizePage page).toInt - 1
  offset : ((normalizePage page - 1) * normalizePageSize pageSize).toInt =
    ((normalizePage page).toInt - 1) * (normalizePageSize pageSize).toInt
  nonneg : 0 ≤ ((normalizePage page - 1) * normalizePageSize pageSize).toInt
  sum : (Int64.ofNat total + normalizePageSize pageSize).toInt =
    total + (normalizePageSize pageSize).toInt
  dividend : (Int64.ofNat total + normalizePageSize pageSize - 1).toInt =
    total + (normalizePageSize pageSize).toInt - 1

/-- Once some page is answered, those beyond its `totalPages` are answered, empty. -/
def EmptyBeyond {ρ : Type} (answer : Int64 → Except AppError (ListResponse ρ)) (page : Int64) :
    Prop :=
  ∀ seen r, answer seen = .ok r → r.pagination.totalPages < page →
    ∃ r', answer page = .ok r' ∧ r'.items = []

/-! ## One request -/

theorem toInt_ofNat_eq_iff {m : Nat} : (Int64.ofNat m).toInt = m ↔ m < 2 ^ 63 := by
  constructor
  · intro h
    have hlt := (Int64.ofNat m).toInt_lt
    omega
  · intro h
    exact Int64.toInt_ofNat_of_lt h

section
variable (page pageSize : Int64) (total : Nat)

/-- **Safe arithmetic**: the two products and sums have to fit. -/
theorem arithmeticSafe_iff :
    ArithmeticSafe page pageSize total ↔
      OffsetFits page pageSize ∧ total + clampedSize pageSize < 2 ^ 63 := by
  have hsize := clampedSize_le pageSize
  have hindex := pageIndex_lt page
  have hpage := Int64.toInt_ofNat_of_lt hindex
  have hsizeInt : (normalizePageSize pageSize).toInt = clampedSize pageSize := by
    rw [normalizePageSize_eq]
    exact Int64.toInt_ofNat_of_lt (by omega)
  -- what is computed, as numbers that may or may not fit
  have hoffset : (normalizePage page - 1) * normalizePageSize pageSize =
      .ofNat (pageIndex page * clampedSize pageSize) := by
    rw [normalizePage_eq, normalizePageSize_eq, i64_offset]
  have hproduct : ((normalizePage page).toInt - 1) * (normalizePageSize pageSize).toInt =
      (pageIndex page * clampedSize pageSize : Nat) := by
    rw [hsizeInt, normalizePage_eq, hpage, Int.natCast_mul]
    congr 1
    omega
  have hsum : Int64.ofNat total + normalizePageSize pageSize =
      .ofNat (total + clampedSize pageSize) := by
    rw [normalizePageSize_eq, ← Int64.ofNat_add]
  constructor
  · intro h
    refine ⟨?_, ?_⟩
    · have hfit := h.offset
      rw [hoffset, hproduct] at hfit
      exact toInt_ofNat_eq_iff.mp hfit
    · have hfit := h.sum
      rw [hsum, hsizeInt, ← Int.natCast_add] at hfit
      exact toInt_ofNat_eq_iff.mp hfit
  · intro h
    obtain ⟨hfits, htotal⟩ := h
    have hfit := Int64.toInt_ofNat_of_lt hfits
    refine ⟨?_, ?_, ?_, ?_, ?_⟩
    · rw [normalizePage_eq, i64_pred, hpage, Int64.toInt_ofNat_of_lt (by omega)]
      omega
    · rw [hoffset, hproduct, hfit]
    · rw [hoffset, hfit]
      exact Int.natCast_nonneg _
    · rw [hsum, hsizeInt, Int64.toInt_ofNat_of_lt htotal, Int.natCast_add]
    · obtain ⟨m, hm⟩ := Nat.exists_eq_add_one.mpr (clampedSize_pos pageSize)
      rw [hsum, hsizeInt, hm, ← Nat.add_assoc, i64_pred, Int64.toInt_ofNat_of_lt (by omega)]
      omega

end

/-! ## Pages beyond the last -/

section
variable {ρ : Type} {answer : Int64 → Except AppError (ListResponse ρ)} {page pageSize : Int64}
  {total : Nat}

/-- The page that a request for a page beyond `totalPages` reads. -/
theorem pageIndex_beyond (htotal : total < 2 ^ 48)
    (h : Int64.ofNat (Paging.pageCount (clampedSize pageSize) total) < page) :
    Paging.pageCount (clampedSize pageSize) total ≤ pageIndex page := by
  have hpos := Paging.pageCount_pos (clampedSize pageSize) total
  have hcount := pageCount_lt (clampedSize_pos pageSize) htotal
  rw [Int64.lt_iff_toInt_lt, Int64.toInt_ofNat_of_lt (by omega)] at h
  rw [pageIndex]
  omega

/-- What is made of the items of a page does not matter. -/
theorem EmptyBeyond.map {σ : Type} {f : ρ → σ} (h : EmptyBeyond answer page) :
    EmptyBeyond (fun page => (answer page).map fun r => ⟨r.items.map f, r.pagination⟩) page := by
  intro seen r hseen hbeyond
  cases hanswer : answer seen with
  | error e => simp [hanswer, Except.map] at hseen
  | ok r₀ =>
      simp only [hanswer, Except.map, Except.ok.injEq] at hseen
      subst hseen
      obtain ⟨r', hr', hitems⟩ := h seen r₀ hanswer hbeyond
      refine ⟨⟨r'.items.map f, r'.pagination⟩, ?_, ?_⟩
      · simp only [hr', Except.map]
      · exact List.map_eq_nil_iff.mpr hitems

end

section Lists
variable {ρ : Type} {id : ρ → String} {le : ρ → ρ → Prop} {table : ProjectionTable id}
  {binds : List (Option String)} {matching : ρ → Bool} {page pageSize : Int64}

/-- What an answer of a list handler tells: its filters are storable. -/
theorem listHandler_ok {sorter : Sorter le} {r : ListResponse ρ}
    (h : listHandler sorter table binds matching page pageSize = .ok r) :
    Storable binds ∧ r.pagination.totalPages =
      .ofNat (Paging.pageCount (clampedSize pageSize) (table.rows.filter matching).length) := by
  have hstorable : Storable binds := by
    by_contra hbinds
    rw [listHandler_refused hbinds] at h
    cases h
  have htotal := (List.length_filter_le matching table.rows).trans_lt table.length_lt
  refine ⟨hstorable, ?_⟩
  rw [listHandler, normalizePageSize_eq, selectCount, hstorable, if_neg Bool.false_ne_true] at h
  cases hselect : selectPage sorter table binds matching (.ofNat (clampedSize pageSize))
      ((normalizePage page - 1) * .ofNat (clampedSize pageSize)) with
  | error e =>
      rw [hselect] at h
      cases h
  | ok rows =>
      rw [hselect] at h
      cases h
      exact totalPages_eq (clampedSize_pos pageSize) (clampedSize_le pageSize) htotal

/-- **A list endpoint**: its page arithmetic is safe and pages beyond the last are empty
exactly when the offset fits. -/
theorem listHandler_safe_iff (sorters : Int64 → Sorter le) :
    ArithmeticSafe page pageSize (table.rows.filter matching).length ∧
      EmptyBeyond (fun page => listHandler (sorters page) table binds matching page pageSize)
        page ↔ OffsetFits page pageSize := by
  have htotal := (List.length_filter_le matching table.rows).trans_lt table.length_lt
  have hsize := clampedSize_le pageSize
  rw [arithmeticSafe_iff]
  constructor
  · intro h
    exact h.1.1
  · intro hfits
    refine ⟨⟨hfits, by omega⟩, ?_⟩
    intro seen r hseen hbeyond
    obtain ⟨hbinds, hcount⟩ := listHandler_ok hseen
    rw [hcount] at hbeyond
    have hle := pageIndex_beyond htotal hbeyond
    refine ⟨_, listHandler_eq hbinds hfits, ?_⟩
    refine Paging.page_of_pageCount_le (clampedSize_pos pageSize) ?_
    rwa [((sorters page).perm _).length_eq]

end Lists

/-- A search is a list. -/
theorem searchFarmers_safe_iff {text : SearchText} {table : FarmersTable} {q : Option String}
    {page pageSize : Int64} (sorters : Int64 → Sorter FarmerSearchRow.ListedBefore) :
    ArithmeticSafe page pageSize (matchingRows text table q).length ∧
      EmptyBeyond (fun page => searchFarmers text (sorters page) table q page pageSize) page ↔
      OffsetFits page pageSize := by
  have hlist := @listHandler_safe_iff _ _ _ table (searchBinds q) (text.selects q) page pageSize
    sorters
  constructor
  · intro h
    exact ((arithmeticSafe_iff ..).mp h.1).1
  · intro hfits
    obtain ⟨hsafe, hempty⟩ := hlist.mpr hfits
    simp only [searchFarmers_eq]
    exact ⟨hsafe, hempty.map⟩

/-- **Page arithmetic.** For every page, page size and total, it is safe exactly when the
offset and the sum for the number of pages fit; on the tables of the four endpoints the
sum does, and where the offset fits a page beyond the last is empty. -/
theorem page_arithmetic_safe_iff (collation : LinearOrder String) (text : SearchText)
    (page pageSize : Int64) :
    (∀ total : Nat, ArithmeticSafe page pageSize total ↔
      OffsetFits page pageSize ∧ total + clampedSize pageSize < 2 ^ 63) ∧
    (∀ (sorters : Int64 → Sorter (Verification.ListedBefore collation))
      (table : ProjectionTable Verification.id) (q : ListVerificationsQuery),
      ArithmeticSafe page pageSize (table.rows.filter q.matching).length ∧
        EmptyBeyond (fun page => listVerificationsHandler (sorters page) table
          { q with page, pageSize }) page ↔ OffsetFits page pageSize) ∧
    (∀ (sorters : Int64 → Sorter (Escrow.ListedBefore collation))
      (table : ProjectionTable Escrow.id) (q : ListEscrowsQuery),
      ArithmeticSafe page pageSize (table.rows.filter q.matching).length ∧
        EmptyBeyond (fun page => listEscrowsHandler (sorters page) table
          { q with page, pageSize }) page ↔ OffsetFits page pageSize) ∧
    (∀ (sorters : Int64 → Sorter (Financing.ListedBefore collation))
      (table : ProjectionTable Financing.id) (q : ListFinancingsQuery),
      ArithmeticSafe page pageSize (table.rows.filter q.matching).length ∧
        EmptyBeyond (fun page => listFinancingsHandler (sorters page) table
          { q with page, pageSize }) page ↔ OffsetFits page pageSize) ∧
    ∀ (sorters : Int64 → Sorter FarmerSearchRow.ListedBefore) (table : FarmersTable)
      (q : Option String),
      ArithmeticSafe page pageSize (matchingRows text table q).length ∧
        EmptyBeyond (fun page => searchFarmers text (sorters page) table q page pageSize) page ↔
      OffsetFits page pageSize := by
  refine ⟨arithmeticSafe_iff page pageSize, ?_, ?_, ?_, ?_⟩
  · intro sorters table q
    exact @listHandler_safe_iff _ _ _ table q.binds q.matching page pageSize sorters
  · intro sorters table q
    exact @listHandler_safe_iff _ _ _ table q.binds q.matching page pageSize sorters
  · intro sorters table q
    exact @listHandler_safe_iff _ _ _ table q.binds q.matching page pageSize sorters
  · intro sorters table q
    exact searchFarmers_safe_iff sorters

/-- The product wraps to the offset of the first page, or to a negative one. -/
theorem far_page_wraps :
    (listVerificationsHandler (byInsertion 1) twoVerifications
        { page := 4611686018427387905, pageSize := 100 }).map
          (fun r => (r.items, r.pagination)) =
      .ok (twoVerifications.rows, ⟨4611686018427387905, 100, 2, 1⟩) ∧
    (searchFarmers sampleSearchText (.insertion _) twoFarmers none 9223372036854775807 100).map
        (fun r => (r.items, r.pagination)) =
      .error (.database (.database "OFFSET must not be negative")) ∧
    ¬ ArithmeticSafe 4611686018427387905 100 2 ∧
    ¬ EmptyBeyond (fun page => listVerificationsHandler (byInsertion page) twoVerifications
        { page, pageSize := 100 }) 4611686018427387905 := by
  refine ⟨by decide, by decide, ?_, ?_⟩
  · rw [arithmeticSafe_iff]
    decide
  · intro h
    obtain ⟨r', hanswer, hitems⟩ := h 1 _ rfl (by decide)
    cases hanswer
    cases hitems

end VerdantBackend
