import Mathlib.Data.String.Basic
import VerdantBackend.Routes.Projections

/-!
# Pages of the projection lists

The order of each list ends with the primary key, so it is total on a table: whatever
way each query takes, the pages are parts of one list. Only a filter that holds
U+0000 gets no answer.
-/

namespace VerdantBackend

open Paging (Sorter DescNullsLast)

/-! ## `i64` -/

theorem i64_max_ofNat {a b : Nat} (ha : a < 2 ^ 63) (hb : b < 2 ^ 63) :
    max (Int64.ofNat a) (.ofNat b) = .ofNat (max a b) := by
  have hle : Int64.ofNat a ≤ .ofNat b ↔ a ≤ b := by
    rw [Int64.le_iff_toInt_le, Int64.toInt_ofNat_of_lt ha, Int64.toInt_ofNat_of_lt hb]
    omega
  show (if Int64.ofNat a ≤ .ofNat b then Int64.ofNat b else .ofNat a) = _
  rw [Nat.max_def]
  simp only [hle]
  split <;> rfl

/-- The page size that is used. -/
def clampedSize (pageSize : Int64) : Nat := (min (max pageSize.toInt 1) 100).toNat

theorem clampedSize_pos (pageSize : Int64) : 0 < clampedSize pageSize := by
  rw [clampedSize]
  omega

theorem clampedSize_le (pageSize : Int64) : clampedSize pageSize ≤ 100 := by
  rw [clampedSize]
  omega

theorem normalizePageSize_eq (pageSize : Int64) :
    normalizePageSize pageSize = .ofNat (clampedSize pageSize) := by
  have hone : (1 : Int64).toInt = 1 := rfl
  have hundred : (100 : Int64).toInt = 100 := rfl
  have hmax : (max pageSize 1).toInt = max pageSize.toInt 1 := by
    show (if pageSize ≤ 1 then (1 : Int64) else pageSize).toInt = _
    split
    · next h => rw [Int64.le_iff_toInt_le, hone] at h; omega
    · next h => rw [Int64.le_iff_toInt_le, hone] at h; omega
  have hmin : (normalizePageSize pageSize).toInt = min (max pageSize.toInt 1) 100 := by
    rw [normalizePageSize]
    show (if max pageSize 1 ≤ 100 then max pageSize 1 else (100 : Int64)).toInt = _
    split
    · next h => rw [Int64.le_iff_toInt_le, hmax, hundred] at h; omega
    · next h => rw [Int64.le_iff_toInt_le, hmax, hundred] at h; omega
  have hlt := clampedSize_le pageSize
  rw [← Int64.toInt_inj, hmin, Int64.toInt_ofNat_of_lt (by omega), clampedSize]
  omega

/-- The index of the page that is read, from 0. -/
def pageIndex (page : Int64) : Nat := (max page.toInt 1 - 1).toNat

theorem pageIndex_lt (page : Int64) : pageIndex page + 1 < 2 ^ 63 := by
  have hlt := page.toInt_lt
  rw [pageIndex]
  omega

theorem pageIndex_ofNat_succ {n : Nat} (h : n + 1 < 2 ^ 63) : pageIndex (.ofNat (n + 1)) = n := by
  rw [pageIndex, Int64.toInt_ofNat_of_lt h]
  omega

theorem normalizePage_eq (page : Int64) : normalizePage page = .ofNat (pageIndex page + 1) := by
  have hlt := pageIndex_lt page
  have hone : (1 : Int64).toInt = 1 := rfl
  rw [← Int64.toInt_inj, Int64.toInt_ofNat_of_lt hlt, pageIndex]
  show (if page ≤ 1 then (1 : Int64) else page).toInt = _
  split
  · next h =>
    rw [Int64.le_iff_toInt_le, hone] at h
    omega
  · next h =>
    rw [Int64.le_iff_toInt_le, hone] at h
    omega

theorem i64_ofNat_div {a b : Nat} (ha : a < 2 ^ 63) (hb : b < 2 ^ 63) :
    Int64.ofNat a / .ofNat b = .ofNat (a / b) := by
  have hdiv : a / b ≤ a := Nat.div_le_self a b
  rw [← Int64.toInt_inj, Int64.toInt_div, Int64.toInt_ofNat_of_lt ha, Int64.toInt_ofNat_of_lt hb,
    Int64.toInt_ofNat_of_lt (by omega), ← Int.ofNat_tdiv]
  generalize a / b = quotient at hdiv ⊢
  exact Int.bmod_eq_of_le (by omega) (by omega)

theorem i64_pred (n : Nat) : Int64.ofNat (n + 1) - 1 = .ofNat n := by
  rw [Int64.ofNat_add]
  exact Int64.add_sub_cancel _ _

theorem i64_offset (n size : Nat) :
    (Int64.ofNat (n + 1) - 1) * .ofNat size = .ofNat (n * size) := by
  rw [i64_pred, ← Int64.ofNat_mul]

/-- The number of pages as the handlers compute it. -/
theorem totalPages_eq {size total : Nat} (hsize : 0 < size) (hle : size ≤ 100)
    (htotal : total < 2 ^ 48) :
    max ((Int64.ofNat total + .ofNat size - 1) / .ofNat size) 1 =
      .ofNat (Paging.pageCount size total) := by
  have hdividend : Int64.ofNat total + .ofNat size - 1 = .ofNat (total + size - 1) := by
    obtain ⟨m, rfl⟩ := Nat.exists_eq_add_one.mpr hsize
    rw [← Int64.ofNat_add, ← Nat.add_assoc, i64_pred, Nat.add_sub_cancel]
  have hdiv : (total + size - 1) / size ≤ total + size - 1 := Nat.div_le_self _ _
  rw [hdividend, i64_ofNat_div (by omega) (by omega)]
  show max (Int64.ofNat _) (.ofNat 1) = _
  rw [i64_max_ofNat (by omega) (by decide), Paging.pageCount, Nat.ceilDiv_eq_add_pred_div,
    Nat.max_comm]

/-! ## One page -/

/-- No bind holds U+0000. -/
def Storable (binds : List (Option String)) : Prop :=
  (binds.any fun bind => bind.any hasNul) = false

section Pages
variable {ρ : Type} {id : ρ → String} {le : ρ → ρ → Prop}

/-- Page `n`, from 0, of the rows in order. -/
def pageResponse (size n : Nat) (sorted : List ρ) : ListResponse ρ where
  items := Paging.page size n sorted
  pagination := ⟨.ofNat (n + 1), .ofNat size, .ofNat sorted.length,
    .ofNat (Paging.pageCount size sorted.length)⟩

/-- The offset of a page that a table can have. -/
theorem offset_lt {n : Nat} (hn : n < 2 ^ 48) (pageSize : Int64) :
    n * clampedSize pageSize < 2 ^ 63 := by
  have hmul : n * clampedSize pageSize ≤ 2 ^ 48 * 100 :=
    Nat.mul_le_mul (Nat.le_of_lt hn) (clampedSize_le pageSize)
  omega

theorem selectPage_eq {sorter : Sorter le} {table : ProjectionTable id}
    {binds : List (Option String)} {matching : ρ → Bool} {size n : Nat} (hbinds : Storable binds)
    (hsize : size ≤ 100) (hoffset : n * size < 2 ^ 63) :
    selectPage sorter table binds matching (.ofNat size) (.ofNat (n * size)) =
      .ok (Paging.page size n (sorter.sort (table.rows.filter matching))) := by
  have hpos : ∀ {m : Nat}, m < 2 ^ 63 → ¬ Int64.ofNat m < 0 := by
    intro m hm hlt
    rw [Int64.lt_iff_toInt_lt, Int64.toInt_ofNat_of_lt hm] at hlt
    have hzero : (0 : Int64).toInt = 0 := rfl
    omega
  rw [selectPage, hbinds, if_neg Bool.false_ne_true, if_neg (hpos hoffset),
    if_neg (hpos (by omega)), Int64.toNatClampNeg_ofNat_of_lt hoffset,
    Int64.toNatClampNeg_ofNat_of_lt (by omega)]
  rfl

/-- **One page**: what a handler answers to a request whose offset fits. -/
theorem listHandler_eq {sorter : Sorter le} {table : ProjectionTable id}
    {binds : List (Option String)} {matching : ρ → Bool} {page pageSize : Int64}
    (hbinds : Storable binds) (hoffset : pageIndex page * clampedSize pageSize < 2 ^ 63) :
    listHandler sorter table binds matching page pageSize =
      .ok (pageResponse (clampedSize pageSize) (pageIndex page)
        (sorter.sort (table.rows.filter matching))) := by
  have hlen := (sorter.perm (table.rows.filter matching)).length_eq
  have htotal := (List.length_filter_le matching table.rows).trans_lt table.length_lt
  rw [listHandler, normalizePage_eq, normalizePageSize_eq, i64_offset,
    selectPage_eq hbinds (clampedSize_le pageSize) hoffset, selectCount, hbinds,
    if_neg Bool.false_ne_true, pageResponse, hlen]
  have htotalPages := totalPages_eq (clampedSize_pos pageSize) (clampedSize_le pageSize) htotal
  simp only [Except.mapError, Except.bind, Bind.bind, pure, Except.pure]
  rw [htotalPages]

/-- No page is answered under a filter that holds U+0000. -/
theorem listHandler_refused {sorter : Sorter le} {table : ProjectionTable id}
    {binds : List (Option String)} (hbinds : ¬ Storable binds) (matching : ρ → Bool)
    (page pageSize : Int64) :
    listHandler sorter table binds matching page pageSize = .error (.database nulByte) := by
  rw [Storable, Bool.not_eq_false] at hbinds
  rw [listHandler, selectPage, if_pos hbinds]
  rfl

/-! ## All pages -/

/-- The pages of a list: their items are the rows, each once and in order, and every
page before the last is full. -/
structure Partition (le : ρ → ρ → Prop) (rows : List ρ) (size : Nat)
    (pages : List (ListResponse ρ)) : Prop where
  items : (pages.flatMap ListResponse.items).Perm rows
  once : (pages.flatMap ListResponse.items).Nodup
  sorted : (pages.flatMap ListResponse.items).Pairwise le
  count : pages.length = max 1 (rows.length ⌈/⌉ size)
  total : ∀ p ∈ pages, p.pagination.total.toInt = rows.length
  totalPages : ∀ p ∈ pages, p.pagination.totalPages.toInt = pages.length
  full : ∀ p ∈ pages.dropLast, p.items.length = size

theorem Partition.ne_nil {rows : List ρ} {size : Nat} {pages : List (ListResponse ρ)}
    (h : Partition le rows size pages) : pages ≠ [] := by
  have hpos : 0 < pages.length := by
    rw [h.count]
    exact lt_max_of_lt_left Nat.one_pos
  exact List.ne_nil_of_length_pos hpos

/-- Pages 1 to `totalPages` are answered and are the pages of the list. -/
def Partitions (le : ρ → ρ → Prop) (rows : List ρ) (size : Nat)
    (answer : Int64 → Except AppError (ListResponse ρ)) : Prop :=
  ∃ pages, Partition le rows size pages ∧
    ∀ n (h : n < pages.length), answer (.ofNat (n + 1)) = .ok (pages.get ⟨n, h⟩)

theorem pageCount_lt {size total : Nat} (hsize : 0 < size) (htotal : total < 2 ^ 48) :
    Paging.pageCount size total < 2 ^ 48 + 1 := by
  have hdiv : (total + size - 1) / size ≤ total := by
    rw [Nat.div_le_iff_le_mul_add_pred hsize]
    have hmul : total ≤ size * total := Nat.le_mul_of_pos_left total hsize
    omega
  rw [Paging.pageCount, Nat.ceilDiv_eq_add_pred_div]
  omega

/-- The pages of rows in order are their parts. -/
theorem partition_of_sorted {size : Nat} {rows sorted : List ρ} (hsize : 0 < size)
    (hlen : rows.length < 2 ^ 48) (hperm : sorted.Perm rows) (hrows : rows.Nodup)
    (hsorted : sorted.Pairwise le) :
    Partition le rows size ((List.range (Paging.pageCount size sorted.length)).map fun n =>
      pageResponse size n sorted) := by
  have hitems : ((List.range (Paging.pageCount size sorted.length)).map fun n =>
      pageResponse size n sorted).flatMap ListResponse.items = sorted := by
    rw [List.flatMap_map]
    exact Paging.flatMap_page_pageCount hsize sorted
  have hcount := pageCount_lt hsize (hperm.length_eq ▸ hlen)
  refine ⟨?_, ?_, ?_, ?_, ?_, ?_, ?_⟩
  · rwa [hitems]
  · rw [hitems]
    exact hperm.nodup_iff.mpr hrows
  · rwa [hitems]
  · rw [List.length_map, List.length_range, ← hperm.length_eq]
    rfl
  · intro p hp
    obtain ⟨n, _, rfl⟩ := List.mem_map.mp hp
    rw [← hperm.length_eq]
    exact Int64.toInt_ofNat_of_lt (by rw [hperm.length_eq]; omega)
  · intro p hp
    obtain ⟨n, _, rfl⟩ := List.mem_map.mp hp
    rw [List.length_map, List.length_range]
    exact Int64.toInt_ofNat_of_lt (by omega)
  · intro p hp
    obtain ⟨k, hk⟩ := Nat.exists_eq_add_one.mpr (Paging.pageCount_pos size sorted.length)
    rw [hk, List.range_succ, List.map_append, List.map_singleton, List.dropLast_concat] at hp
    obtain ⟨n, hn, rfl⟩ := List.mem_map.mp hp
    rw [List.mem_range] at hn
    exact Paging.length_page_of_lt hsize (by omega)

/-- Rows are listed in a total order: no two have one id. -/
theorem listedBefore_antisymm {collation : LinearOrder String} {ledger : ρ → Option Int}
    {rows : List ρ} (hids : (rows.map id).Nodup) {a b : ρ} (ha : a ∈ rows) (hb : b ∈ rows)
    (hab : ListedBefore collation ledger id a b) (hba : ListedBefore collation ledger id b a) :
    a = b := by
  refine List.inj_on_of_nodup_map hids ha hb ?_
  rcases hab with hlt | ⟨heq, hle⟩
  · rcases hba with hlt' | ⟨heq', _⟩
    · exact absurd (hlt.trans hlt') (DescNullsLast.irrefl _)
    · exact absurd hlt (by rw [heq']; exact DescNullsLast.irrefl _)
  · rcases hba with hlt' | ⟨_, hle'⟩
    · exact absurd hlt' (by rw [heq]; exact DescNullsLast.irrefl _)
    · exact collation.le_antisymm _ _ hle hle'

/-- **One list handler**: whatever way each query takes, the pages are the pages of the
rows. -/
theorem listHandler_partitions {collation : LinearOrder String} {ledger : ρ → Option Int}
    {table : ProjectionTable id} {binds : List (Option String)} {matching : ρ → Bool}
    (sorters : Int64 → Sorter (ListedBefore collation ledger id)) (hbinds : Storable binds)
    (pageSize : Int64) :
    Partitions (ListedBefore collation ledger id) (table.rows.filter matching)
      (clampedSize pageSize)
      fun page => listHandler (sorters page) table binds matching page pageSize := by
  set rows := table.rows.filter matching with hrows
  have hsub : rows.Sublist table.rows := List.filter_sublist
  have hids : (rows.map id).Nodup := (hsub.map id).nodup table.ids
  have hlen : rows.length < 2 ^ 48 := hsub.length_le.trans_lt table.length_lt
  refine ⟨_, partition_of_sorted (clampedSize_pos pageSize) hlen ((sorters 0).perm rows)
    hids.of_map ((sorters 0).sorted rows), ?_⟩
  intro n hn
  rw [List.length_map, List.length_range] at hn
  have hcount := pageCount_lt (clampedSize_pos pageSize)
    (((sorters 0).perm rows).length_eq ▸ hlen)
  -- this query has its own way to sort, but there is one result
  have hsame : (sorters (.ofNat (n + 1))).sort rows = (sorters 0).sort rows :=
    Sorter.sort_eq _ _ fun a ha b hb => listedBefore_antisymm hids ha hb
  have hindex : pageIndex (.ofNat (n + 1)) = n := pageIndex_ofNat_succ (by omega)
  dsimp only
  rw [listHandler_eq hbinds (by rw [hindex]; exact offset_lt (by omega) pageSize), hindex, ← hrows,
    hsame]
  simp

end Pages

/-! ## The three lists -/

theorem nullOrEq_iff {β : Type} [DecidableEq β] {bind column : Option β} :
    nullOrEq bind column = true ↔ ∀ b ∈ bind, column = some b := by
  cases bind with
  | none => simp [nullOrEq]
  | some b => simp [nullOrEq, eq_comm]

/-- The row satisfies every filter that is given. -/
def ListVerificationsQuery.Selects (q : ListVerificationsQuery) (v : Verification) : Prop :=
  (∀ b ∈ q.batchId, v.batchId = b) ∧ (∀ s ∈ q.subject, v.subject = s) ∧
    (∀ i ∈ q.issuer, v.issuer = i) ∧ ∀ r ∈ q.revoked, v.revoked = r

def ListEscrowsQuery.Selects (q : ListEscrowsQuery) (e : Escrow) : Prop :=
  (∀ d ∈ q.depositor, e.depositor = d) ∧ (∀ b ∈ q.beneficiary, e.beneficiary = b) ∧
    (∀ b ∈ q.bookingRef, e.bookingRef = some b) ∧ ∀ s ∈ q.status, e.status = s

def ListFinancingsQuery.Selects (q : ListFinancingsQuery) (f : Financing) : Prop :=
  (∀ f' ∈ q.funder, f.funder = f') ∧ (∀ b ∈ q.beneficiary, f.beneficiary = b) ∧
    ∀ s ∈ q.status, f.status = s

instance (q : ListVerificationsQuery) : DecidablePred q.Selects := fun _ => by
  unfold ListVerificationsQuery.Selects
  infer_instance

instance (q : ListEscrowsQuery) : DecidablePred q.Selects := fun _ => by
  unfold ListEscrowsQuery.Selects
  infer_instance

instance (q : ListFinancingsQuery) : DecidablePred q.Selects := fun _ => by
  unfold ListFinancingsQuery.Selects
  infer_instance

theorem ListVerificationsQuery.matching_iff {q : ListVerificationsQuery} {v : Verification} :
    q.matching v = true ↔ q.Selects v := by
  simp only [matching, Selects, Bool.and_eq_true, nullOrEq_iff, Option.some.injEq, and_assoc]

theorem ListEscrowsQuery.matching_iff {q : ListEscrowsQuery} {e : Escrow} :
    q.matching e = true ↔ q.Selects e := by
  simp only [matching, Selects, Bool.and_eq_true, nullOrEq_iff, Option.some.injEq, and_assoc]

theorem ListFinancingsQuery.matching_iff {q : ListFinancingsQuery} {f : Financing} :
    q.matching f = true ↔ q.Selects f := by
  simp only [matching, Selects, Bool.and_eq_true, nullOrEq_iff, Option.some.injEq, and_assoc]

/-- **Projection pages**: for each list, whatever way each query takes, filters of texts
without U+0000 give pages 1 to `totalPages` that are the pages of the rows they select. -/
theorem projection_lists_partition (collation : LinearOrder String) :
    (∀ (sorters : Int64 → Sorter (Verification.ListedBefore collation))
      (table : ProjectionTable Verification.id) (q : ListVerificationsQuery), Storable q.binds →
      Partitions (Verification.ListedBefore collation) (table.rows.filter (q.Selects ·))
        (clampedSize q.pageSize)
        fun page => listVerificationsHandler (sorters page) table { q with page }) ∧
    (∀ (sorters : Int64 → Sorter (Escrow.ListedBefore collation))
      (table : ProjectionTable Escrow.id) (q : ListEscrowsQuery), Storable q.binds →
      Partitions (Escrow.ListedBefore collation) (table.rows.filter (q.Selects ·))
        (clampedSize q.pageSize)
        fun page => listEscrowsHandler (sorters page) table { q with page }) ∧
    (∀ (sorters : Int64 → Sorter (Financing.ListedBefore collation))
      (table : ProjectionTable Financing.id) (q : ListFinancingsQuery), Storable q.binds →
      Partitions (Financing.ListedBefore collation) (table.rows.filter (q.Selects ·))
        (clampedSize q.pageSize)
        fun page => listFinancingsHandler (sorters page) table { q with page }) := by
  refine ⟨?_, ?_, ?_⟩
  · intro sorters table q h
    simp only [← ListVerificationsQuery.matching_iff, Bool.decide_eq_true]
    exact listHandler_partitions sorters h q.pageSize
  · intro sorters table q h
    simp only [← ListEscrowsQuery.matching_iff, Bool.decide_eq_true]
    exact listHandler_partitions sorters h q.pageSize
  · intro sorters table q h
    simp only [← ListFinancingsQuery.matching_iff, Bool.decide_eq_true]
    exact listHandler_partitions sorters h q.pageSize

/-! Two verifications, and a filter that no text column can hold. -/

section Orders
variable {ρ : Type} (collation : LinearOrder String) (ledger : ρ → Option Int)
  (id : ρ → String)

instance : DecidableRel (ListedBefore collation ledger id) := fun a b =>
  let _ := collation.toDecidableLE (id a) (id b)
  inferInstanceAs (Decidable (DescNullsLast _ _ ∨ ledger a = ledger b ∧ _))

instance : Std.Total (ListedBefore collation ledger id) where
  total := by
    intro a b
    rcases DescNullsLast.trichotomy (ledger a) (ledger b) with h | h | h
    · exact .inl (.inl h)
    · exact (collation.le_total (id a) (id b)).imp (fun hle => .inr ⟨h, hle⟩)
        fun hle => .inr ⟨h.symm, hle⟩
    · exact .inr (.inl h)

instance : IsTrans ρ (ListedBefore collation ledger id) where
  trans := by
    intro a b c hab hbc
    rcases hab with hab | ⟨hab, hle⟩ <;> rcases hbc with hbc | ⟨hbc, hle'⟩
    · exact .inl (hab.trans hbc)
    · exact .inl (hbc ▸ hab)
    · exact .inl (hab ▸ hbc)
    · exact .inr ⟨hab.trans hbc, collation.le_trans _ _ _ hle hle'⟩

end Orders

/-- Collation `C`. -/
abbrev codePoints : LinearOrder String := inferInstance

def byInsertion : Int64 → Sorter (Verification.ListedBefore codePoints) :=
  fun _ => Sorter.insertion (ListedBefore _ _ _)

def verificationAt (id : String) (issuedLedger : Int) : Verification :=
  ⟨id, "CV", "va:batch:b", "GS", "aa", "GI", issuedLedger, false, none⟩

def twoVerifications : ProjectionTable Verification.id where
  rows := [verificationAt "va:verification:000000000042" 100,
    verificationAt "va:verification:000000000043" 100]
  ids := by decide
  length_lt := by decide

theorem twoVerifications_partition :
    Partitions (Verification.ListedBefore codePoints) twoVerifications.rows 1
      fun page => listVerificationsHandler (byInsertion page) twoVerifications
        { pageSize := 1, page } :=
  (projection_lists_partition codePoints).1 byInsertion twoVerifications { pageSize := 1 } rfl

/-- The filter is refused, on every page. -/
theorem nul_filter_refused :
    (∀ page, listVerificationsHandler (byInsertion page) twoVerifications
      { subject := some "\x00", page } = .error (.database nulByte)) ∧
    ¬ Partitions (Verification.ListedBefore codePoints)
      (twoVerifications.rows.filter fun v => v.subject = "\x00") 20
      fun page => listVerificationsHandler (byInsertion page) twoVerifications
        { subject := some "\x00", page } := by
  have hbinds : ¬ Storable ({ subject := some "\x00" } : ListVerificationsQuery).binds := by
    rw [Storable]
    decide
  have hrefused : ∀ page, listVerificationsHandler (byInsertion page) twoVerifications
      { subject := some "\x00", page } = .error (.database nulByte) :=
    fun page => listHandler_refused hbinds _ page _
  refine ⟨hrefused, ?_⟩
  intro h
  obtain ⟨pages, hpages, hanswer⟩ := h
  have hpos := List.length_pos_of_ne_nil hpages.ne_nil
  cases (hrefused _).symm.trans (hanswer 0 hpos)

end VerdantBackend
