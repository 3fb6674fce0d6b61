import VerdantBackend.Lib.Paging

/-!
# Ties at page boundaries

An order that does not tell all rows apart. The pages of a list, each sorted by a
query of its own, are the list whatever way the queries put ties exactly when all
rows that tie are on one page.
-/

namespace Paging

variable {α : Type} {le : α → α → Prop} [DecidableRel le]

/-- The rows that every query puts before `a`. -/
def before (le : α → α → Prop) [DecidableRel le] (l : List α) (a : α) : Nat :=
  l.countP fun b => ¬ le a b

/-- The rows that some query puts before `a`, and `a`. -/
def upTo (le : α → α → Prop) [DecidableRel le] (l : List α) (a : α) : Nat :=
  l.countP fun b => le b a

/-- Rows that tie are on one page. -/
def TiesOnOnePage (le : α → α → Prop) [DecidableRel le] (size : Nat) (l : List α) : Prop :=
  ∀ a ∈ l, before le l a / size = (upTo le l a - 1) / size

instance (size : Nat) (l : List α) : Decidable (TiesOnOnePage le size l) :=
  inferInstanceAs (Decidable (∀ a ∈ l, _))

/-! ## Positions -/

/-- What holds of a first part of a list holds up to the number of its elements. -/
theorem getElem_iff_lt_countP {p : α → Bool} {l : List α}
    (h : l.Pairwise fun a b => p b = true → p a = true) {i : Nat} (hi : i < l.length) :
    p l[i] = true ↔ i < l.countP p := by
  induction l generalizing i with
  | nil => exact absurd hi (Nat.not_lt_zero i)
  | cons a l ih =>
      obtain ⟨hhead, htail⟩ := List.pairwise_cons.mp h
      by_cases ha : p a = true
      · rw [List.countP_cons_of_pos ha]
        cases i with
        | zero => simpa using ha
        | succ i =>
            rw [List.getElem_cons_succ, ih htail, Nat.add_lt_add_iff_right]
      · have hnone : l.countP p = 0 := by
          rw [List.countP_eq_zero]
          intro b hb hpb
          exact ha (hhead b hb hpb)
        rw [List.countP_cons_of_neg ha, hnone]
        refine iff_of_false ?_ (Nat.not_lt_zero i)
        cases i with
        | zero => simpa using ha
        | succ i =>
            intro hp
            exact ha (hhead _ (List.getElem_mem (by simpa using hi)) hp)

section
variable [IsTrans α le] {l sorted : List α} {a : α} {i : Nat}

/-- The rows from position `before` on are those not before `a`. -/
theorem le_getElem_iff (hperm : sorted.Perm l) (hsorted : sorted.Pairwise le)
    (hi : i < sorted.length) : le a sorted[i] ↔ before le l a ≤ i := by
  have hpos := @getElem_iff_lt_countP α (fun b => ¬ le a b) sorted ?_ i hi
  · rw [hperm.countP_eq] at hpos
    rw [before, ← Nat.not_lt, ← hpos]
    simp
  · refine hsorted.imp fun hbc => ?_
    simp only [decide_eq_true_eq]
    intro hc hb
    exact hc (IsTrans.trans _ _ _ hb hbc)

/-- The rows up to position `upTo` are those not after `a`. -/
theorem getElem_le_iff (hperm : sorted.Perm l) (hsorted : sorted.Pairwise le)
    (hi : i < sorted.length) : le sorted[i] a ↔ i < upTo le l a := by
  have hpos := @getElem_iff_lt_countP α (fun b => le b a) sorted ?_ i hi
  · rw [hperm.countP_eq] at hpos
    rw [upTo, ← hpos, decide_eq_true_eq]
  · refine hsorted.imp fun hbc => ?_
    simp only [decide_eq_true_eq]
    intro hc
    exact IsTrans.trans _ _ _ hbc hc

end

/-! ## Ties on one page -/

/-- The rows of all pages, when each is cut by a query of its own. -/
def pagesOf (sorters : Nat → Sorter le) (size : Nat) (l : List α) : List α :=
  (List.range (pageCount size l.length)).flatMap fun n => page size n ((sorters n).sort l)

/-- Queries that agree. -/
theorem pagesOf_const_perm {le : α → α → Prop} (s : Sorter le) {size : Nat} (hsize : 0 < size)
    (l : List α) : (pagesOf (fun _ => s) size l).Perm l := by
  rw [pagesOf, ← (s.perm l).length_eq, flatMap_page_pageCount hsize]
  exact s.perm l

section
variable [Std.Total le] [IsTrans α le] {size : Nat} {l sorted : List α}

/-- If ties are on one page, the position of a row in a sorted list gives away its page. -/
theorem TiesOnOnePage.pageOf (h : TiesOnOnePage le size l) (hperm : sorted.Perm l)
    (hsorted : sorted.Pairwise le) {i : Nat} (hi : i < sorted.length) :
    before le l sorted[i] / size = i / size := by
  have hrefl : le sorted[i] sorted[i] := Std.Refl.refl _
  have hle := (le_getElem_iff hperm hsorted hi).mp hrefl
  have hlt := (getElem_le_iff hperm hsorted hi).mp hrefl
  have hties := h _ (hperm.mem_iff.mp (List.getElem_mem hi))
  have hdiv := Nat.div_le_div_right (c := size) hle
  have hdiv' : i / size ≤ (upTo le l sorted[i] - 1) / size := Nat.div_le_div_right (by omega)
  omega

/-- Then all queries agree on what is on a page. -/
theorem TiesOnOnePage.perm (h : TiesOnOnePage le size l) (hsize : 0 < size)
    (sorters : Nat → Sorter le) : (pagesOf sorters size l).Perm l := by
  -- a page is cut by a condition on the rows, not on their positions
  have hpage : ∀ n (s : Sorter le),
      page size n (s.sort l) = (s.sort l).filter fun a => before le l a / size = n := by
    intro n s
    exact page_eq_filter hsize (fun i hi => h.pageOf (s.perm l) (s.sorted l) hi) n
  have hall : (pagesOf sorters size l).Perm (pagesOf (fun _ => sorters 0) size l) := by
    refine List.Perm.flatMap_left _ fun n _ => ?_
    rw [hpage, hpage]
    exact (((sorters n).perm l).trans ((sorters 0).perm l).symm).filter _
  exact hall.trans (pagesOf_const_perm (sorters 0) hsize l)

/-! ## Ties across a boundary -/

/-- Where ties cross a boundary, two rows that tie stand on either side of it. -/
theorem exists_tie (hsize : 0 < size) (h : ¬ TiesOnOnePage le size l) (hperm : sorted.Perm l)
    (hsorted : sorted.Pairwise le) :
    ∃ m p q x y, sorted = p ++ x :: y :: q ∧ p.length + 1 = (m + 1) * size ∧ le y x := by
  simp only [TiesOnOnePage, not_forall] at h
  obtain ⟨a, ha, hne⟩ := h
  obtain ⟨i, hi, rfl⟩ := List.mem_iff_getElem.mp (hperm.mem_iff.mpr ha)
  have hrefl : le sorted[i] sorted[i] := Std.Refl.refl _
  have hle := (le_getElem_iff hperm hsorted hi).mp hrefl
  have hlt := (getElem_le_iff hperm hsorted hi).mp hrefl
  have hupTo : upTo le l sorted[i] ≤ sorted.length := by
    rw [hperm.length_eq]
    exact List.countP_le_length
  obtain ⟨m, j, hj, hbefore, hafter⟩ := exists_boundary hsize (by omega) hne
  have hj₀ : j < sorted.length := by omega
  have hj₁ : j + 1 < sorted.length := by omega
  have hx := (le_getElem_iff hperm hsorted hj₀).mpr hbefore
  have hy := (getElem_le_iff hperm hsorted hj₁).mpr (show j + 1 < upTo le l sorted[i] by omega)
  refine ⟨m, sorted.take j, sorted.drop (j + 2), sorted[j], sorted[j + 1], ?_, ?_,
    IsTrans.trans _ _ _ hy hx⟩
  · rw [← List.drop_eq_getElem_cons hj₁, ← List.drop_eq_getElem_cons hj₀, List.take_append_drop]
  · rw [List.length_take, Nat.min_eq_left (Nat.le_of_lt hj₀), hj]

/-- Then a query may put one of them on both pages. -/
theorem exists_repeated (hsize : 0 < size) (h : ¬ TiesOnOnePage le size l) :
    ∃ sorters : Nat → Sorter le, ¬ (pagesOf sorters size l).Nodup := by
  have s : Sorter le := Sorter.insertion le
  obtain ⟨m, p, q, x, y, hsorted, hboundary, hyx⟩ :=
    exists_tie hsize h (s.perm l) (s.sorted l)
  have hperm : (p ++ y :: x :: q).Perm l := by
    refine List.Perm.trans ?_ (s.perm l)
    rw [hsorted]
    exact (List.Perm.swap x y q).append_left p
  -- the query of the later page finds the two the other way round
  have hswapped := swap_sorted (hsorted ▸ s.sorted l) hyx
  refine ⟨fun n => if n = m + 1 then s.insteadOn hperm hswapped else s, ?_⟩
  intro hpages
  have hlast : x ∈ page size m (s.sort l) := by
    refine List.mem_of_getElem? (i := size - 1) ?_
    rw [getElem?_page (by omega), hsorted, show m * size + (size - 1) = p.length by
      rw [Nat.succ_mul] at hboundary; omega]
    simp
  have hfirst : x ∈ page size (m + 1) (p ++ y :: x :: q) := by
    refine List.mem_of_getElem? (i := 0) ?_
    rw [getElem?_page hsize, ← hboundary]
    simp
  have hcount : m + 1 < pageCount size l.length := by
    refine lt_pageCount hsize ?_
    rw [← hboundary, ← hperm.length_eq]
    simp
  have hdisjoint := (List.nodup_flatMap.mp hpages).2
  have hpair := List.pairwise_iff_getElem.mp hdisjoint m (m + 1)
    (by rw [List.length_range]; omega) (by rw [List.length_range]; omega) (Nat.lt_succ_self m)
  simp only [List.getElem_range, Function.onFun] at hpair
  refine @hpair x ?_ ?_
  · rwa [if_neg (by omega)]
  · rwa [if_pos trivial, Sorter.insteadOn_sort]

end

end Paging
