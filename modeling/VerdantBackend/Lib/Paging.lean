import Mathlib.Algebra.Order.Floor.Div
import Mathlib.Data.List.Sort

/-!
# Pages

`ORDER BY .. LIMIT .. OFFSET`. A query may put rows that its order does not tell
apart either way round, and the next query the other way round. Where the order is
total on the rows, the pages are the parts of one list.
-/

namespace Paging

variable {α : Type} {le : α → α → Prop}

/-! ## Orders of one query -/

/-- How one query puts rows in an order. -/
structure Sorter (le : α → α → Prop) where
  sort : List α → List α
  perm : ∀ l, (sort l).Perm l
  sorted : ∀ l, (sort l).Pairwise le

/-- A sorting function is one way. -/
def Sorter.insertion (le : α → α → Prop) [DecidableRel le] [Std.Total le] [IsTrans α le] :
    Sorter le where
  sort l := l.insertionSort le
  perm := List.perm_insertionSort le
  sorted l := List.pairwise_insertionSort le l

/-- A total order leaves no choice. -/
theorem Sorter.sort_eq (s s' : Sorter le) {l : List α}
    (htotal : ∀ a ∈ l, ∀ b ∈ l, le a b → le b a → a = b) : s.sort l = s'.sort l := by
  refine ((s.perm l).trans (s'.perm l).symm).eq_of_pairwise ?_ (s.sorted l) (s'.sorted l)
  intro a b ha hb hab hba
  exact htotal a ((s.perm l).mem_iff.mp ha) b ((s'.perm l).mem_iff.mp hb) hab hba

/-- One list is sorted another way. -/
noncomputable def Sorter.insteadOn (s : Sorter le) {l sorted : List α} (hperm : sorted.Perm l)
    (hsorted : sorted.Pairwise le) : Sorter le :=
  open Classical in
  { sort := fun l' => if l' = l then sorted else s.sort l'
    perm := by
      intro l'
      split
      · next h => exact h ▸ hperm
      · exact s.perm l'
    sorted := by
      intro l'
      split
      · exact hsorted
      · exact s.sorted l' }

@[simp] theorem Sorter.insteadOn_sort (s : Sorter le) {l sorted : List α}
    (hperm : sorted.Perm l) (hsorted : sorted.Pairwise le) :
    (s.insteadOn hperm hsorted).sort l = sorted := by
  simp [insteadOn]

/-- Two neighbours that tie, the other way round. -/
theorem swap_sorted {p q : List α} {x y : α} (h : (p ++ x :: y :: q).Pairwise le)
    (hyx : le y x) : (p ++ y :: x :: q).Pairwise le := by
  obtain ⟨hp, hxyq, hcross⟩ := List.pairwise_append.mp h
  obtain ⟨hx, hyq⟩ := List.pairwise_cons.mp hxyq
  obtain ⟨hy, hq⟩ := List.pairwise_cons.mp hyq
  refine List.pairwise_append.mpr ⟨hp, List.pairwise_cons.mpr ⟨?_, List.pairwise_cons.mpr
    ⟨fun b hb => hx b (List.mem_cons_of_mem _ hb), hq⟩⟩, ?_⟩
  · intro b hb
    rcases List.mem_cons.mp hb with rfl | hb
    · exact hyx
    · exact hy b hb
  · intro a ha b hb
    exact hcross a ha b ((List.Perm.swap x y q).mem_iff.mp hb)

/-! ## Nullable keys -/

section Nullable
variable {κ : Type}

/-- `DESC NULLS LAST`: `a` comes before `b`. -/
def DescNullsLast [LT κ] : Option κ → Option κ → Prop
  | some a, some b => b < a
  | some _, none => True
  | none, _ => False

instance [LT κ] [DecidableLT κ] : DecidableRel (@DescNullsLast κ _)
  | some a, some b => inferInstanceAs (Decidable (b < a))
  | some _, none => inferInstanceAs (Decidable True)
  | none, _ => inferInstanceAs (Decidable False)

variable [LinearOrder κ]

theorem DescNullsLast.irrefl (a : Option κ) : ¬ DescNullsLast a a := by
  cases a with
  | none => exact id
  | some n => exact lt_irrefl n

theorem DescNullsLast.trans {a b c : Option κ} (hab : DescNullsLast a b)
    (hbc : DescNullsLast b c) : DescNullsLast a c := by
  cases a <;> cases b <;> cases c <;> simp only [DescNullsLast] at hab hbc ⊢
  exact lt_trans hbc hab

theorem DescNullsLast.trichotomy (a b : Option κ) :
    DescNullsLast a b ∨ a = b ∨ DescNullsLast b a := by
  cases a with
  | none => cases b <;> simp [DescNullsLast]
  | some m =>
      cases b with
      | none => simp [DescNullsLast]
      | some n =>
          rw [DescNullsLast, DescNullsLast, Option.some.injEq]
          rcases lt_trichotomy m n with h | h | h
          · exact .inr (.inr h)
          · exact .inr (.inl h)
          · exact .inl h

end Nullable

/-! ## The parts of a list -/

/-- Page `n` of a list, the first being page 0. -/
def page (size n : Nat) (l : List α) : List α := (l.drop (n * size)).take size

/-- The number of pages, at least one. -/
def pageCount (size total : Nat) : Nat := max 1 (total ⌈/⌉ size)

theorem pageCount_pos (size total : Nat) : 0 < pageCount size total :=
  lt_max_of_lt_left Nat.one_pos

/-- The first pages are the first part of the list. -/
theorem flatMap_page (size n : Nat) (l : List α) :
    ((List.range n).flatMap fun i => page size i l) = l.take (n * size) := by
  induction n with
  | zero => simp
  | succ n ih =>
      rw [List.range_succ, List.flatMap_append, List.flatMap_singleton, ih, page, Nat.succ_mul,
        List.take_add]

theorem le_pageCount_mul {size : Nat} (hsize : 0 < size) (total : Nat) :
    total ≤ pageCount size total * size := by
  have hceil : total ≤ size * (total ⌈/⌉ size) := (ceilDiv_le_iff_le_mul hsize).mp le_rfl
  calc
    total ≤ size * (total ⌈/⌉ size) := hceil
    _ ≤ size * pageCount size total := Nat.mul_le_mul_left _ (le_max_right _ _)
    _ = pageCount size total * size := Nat.mul_comm _ _

/-- All pages are the whole list. -/
theorem flatMap_page_pageCount {size : Nat} (hsize : 0 < size) (l : List α) :
    ((List.range (pageCount size l.length)).flatMap fun i => page size i l) = l := by
  rw [flatMap_page, List.take_of_length_le (le_pageCount_mul hsize l.length)]

/-- A page before the last is full. -/
theorem length_page_of_lt {size n : Nat} (hsize : 0 < size) {l : List α}
    (h : n + 1 < pageCount size l.length) : (page size n l).length = size := by
  have hlt : n + 1 < l.length ⌈/⌉ size := (lt_max_iff.mp h).resolve_left (by omega)
  have hmul : ¬ l.length ≤ size * (n + 1) := fun hle =>
    absurd ((ceilDiv_le_iff_le_mul hsize).mpr hle) (not_le.mpr hlt)
  rw [page, List.length_take, List.length_drop]
  rw [Nat.mul_succ, Nat.mul_comm] at hmul
  omega

theorem getElem?_page {size n j : Nat} (hj : j < size) (l : List α) :
    (page size n l)[j]? = l[n * size + j]? := by
  rw [page, List.getElem?_take_of_lt hj, List.getElem?_drop]

theorem lt_pageCount {size n total : Nat} (hsize : 0 < size) (h : n * size < total) :
    n < pageCount size total :=
  Nat.lt_of_mul_lt_mul_right (h.trans_le (le_pageCount_mul hsize total))

/-- Between positions on different pages is a boundary. -/
theorem exists_boundary {size a b : Nat} (hsize : 0 < size) (hle : a ≤ b)
    (hne : a / size ≠ b / size) : ∃ m j, j + 1 = (m + 1) * size ∧ a ≤ j ∧ j + 1 ≤ b := by
  have hdiv := Nat.div_le_div_right (c := size) hle
  have hb : (a / size + 1) * size ≤ b := (Nat.le_div_iff_mul_le hsize).mp (by omega)
  have ha : a < (a / size + 1) * size := Nat.lt_mul_of_div_lt (Nat.lt_succ_self _) hsize
  obtain ⟨j, hj⟩ := Nat.exists_eq_add_one.mpr ((Nat.zero_le a).trans_lt ha)
  exact ⟨a / size, j, hj.symm, by omega, by omega⟩

/-- After the last page there is nothing. -/
theorem page_of_pageCount_le {size n : Nat} (hsize : 0 < size) {l : List α}
    (h : pageCount size l.length ≤ n) : page size n l = [] := by
  have hle : l.length ≤ n * size :=
    (le_pageCount_mul hsize l.length).trans (Nat.mul_le_mul_right size h)
  rw [page, List.drop_of_length_le hle, List.take_nil]

/-- A page by what is on it. -/
theorem page_eq_filter {size : Nat} (hsize : 0 < size) {l : List α} {pageOf : α → Nat}
    (h : ∀ i (hi : i < l.length), pageOf l[i] = i / size) (n : Nat) :
    page size n l = l.filter fun a => pageOf a = n := by
  have hcut : l = l.take (n * size) ++ (page size n l ++ l.drop ((n + 1) * size)) := by
    rw [page, Nat.succ_mul, ← List.drop_drop, List.take_append_drop, List.take_append_drop]
  have hinit : (l.take (n * size)).filter (fun a => pageOf a = n) = [] := by
    rw [List.filter_eq_nil_iff]
    intro a ha
    obtain ⟨i, hi, rfl⟩ := List.mem_iff_getElem.mp ha
    rw [List.length_take] at hi
    rw [List.getElem_take, h, decide_eq_true_eq]
    have hlt : i / size < n := (Nat.div_lt_iff_lt_mul hsize).mpr (by omega)
    omega
  have hrest : (l.drop ((n + 1) * size)).filter (fun a => pageOf a = n) = [] := by
    rw [List.filter_eq_nil_iff]
    intro a ha
    obtain ⟨i, hi, rfl⟩ := List.mem_iff_getElem.mp ha
    rw [List.length_drop] at hi
    rw [List.getElem_drop, h, decide_eq_true_eq]
    have hge : n + 1 ≤ ((n + 1) * size + i) / size :=
      (Nat.le_div_iff_mul_le hsize).mpr (Nat.le_add_right _ _)
    omega
  have hpage : (page size n l).filter (fun a => pageOf a = n) = page size n l := by
    rw [List.filter_eq_self]
    intro a ha
    obtain ⟨i, hi, rfl⟩ := List.mem_iff_getElem.mp ha
    simp only [page, List.length_take, List.length_drop] at hi
    simp only [page, List.getElem_take, List.getElem_drop, h, decide_eq_true_eq]
    rw [Nat.mul_comm, Nat.mul_add_div hsize, Nat.div_eq_of_lt (by omega), Nat.add_zero]
  conv_rhs => rw [hcut]
  rw [List.filter_append, List.filter_append, hinit, hrest, hpage, List.nil_append,
    List.append_nil]

/-- A cut of a filtered list is a cut of the list. -/
theorem filter_eq_append_cons {p : α → Bool} {l init rest : List α} {a : α}
    (h : l.filter p = init ++ a :: rest) :
    ∃ pre post, l = pre ++ a :: post ∧ (pre ++ [a]).filter p = init ++ [a] := by
  obtain ⟨l₁, l₂, rfl, hinit, htail⟩ := List.filter_eq_append_iff.mp h
  obtain ⟨m, post, rfl, hm, ha, _⟩ := List.filter_eq_cons_iff.mp htail
  refine ⟨l₁ ++ m, post, by simp, ?_⟩
  rw [List.append_assoc, List.filter_append, List.filter_append, hinit,
    List.filter_eq_nil_iff.mpr hm, List.filter_cons_of_pos ha, List.nil_append, List.filter_nil]

end Paging
