import Mathlib.Data.List.Sort
import Mathlib.Data.List.Nodup
import Mathlib.Data.List.Infix

/-!
# Position-ordered logs

An append-only log is a list whose positions strictly increase. A consumer
that has taken a prefix of the log and resumes strictly after a position
inside that prefix re-reads the tail of its prefix and then the new part; what
it holds after storing the first occurrences is again a prefix. The facts here
are the list side of that argument.
-/

namespace Log

variable {α κ : Type} [LinearOrder κ] {pos : α → κ}

/-- Positions strictly increase along the log. -/
def Ordered (pos : α → κ) (l : List α) : Prop := l.Pairwise fun a b => pos a < pos b

instance (pos : α → κ) (l : List α) : Decidable (Ordered pos l) := by
  unfold Ordered
  infer_instance

theorem Ordered.sublist {l l' : List α} (h : Ordered pos l) (hs : l'.Sublist l) :
    Ordered pos l' :=
  List.Pairwise.sublist hs h

theorem Ordered.filter {l : List α} (h : Ordered pos l) (p : α → Bool) :
    Ordered pos (l.filter p) :=
  h.sublist List.filter_sublist

theorem Ordered.nodup_map {l : List α} (h : Ordered pos l) : (l.map pos).Nodup := by
  rw [List.Nodup, List.pairwise_map]
  exact h.imp fun hab => ne_of_lt hab

theorem Ordered.nodup {l : List α} (h : Ordered pos l) : l.Nodup := h.nodup_map.of_map

/-- There is one order to a log. -/
theorem Ordered.eq_of_perm {l l' : List α} (h : Ordered pos l) (h' : Ordered pos l')
    (hp : l.Perm l') : l = l' :=
  hp.eq_of_pairwise (fun _ _ _ _ hab hba => absurd (lt_trans hab hba) (lt_irrefl _)) h h'

/-- Everything in the log stands at or before its last entry. -/
theorem Ordered.le_getLast {l : List α} (h : Ordered pos l) {a z : α} (ha : a ∈ l)
    (hz : l.getLast? = some z) : pos a ≤ pos z := by
  obtain ⟨l', rfl⟩ := List.getLast?_eq_some_iff.mp hz
  rcases List.mem_append.mp ha with ha | ha
  · exact le_of_lt ((List.pairwise_append.mp h).2.2 a ha z (by simp))
  · rw [List.mem_singleton.mp ha]

/-- Sorting an ordered log by position changes nothing. -/
theorem Ordered.insertionSort_eq {l : List α} (h : Ordered pos l) {r : α → α → Prop}
    [DecidableRel r] (hr : ∀ a b, pos a < pos b → r a b) : l.insertionSort r = l :=
  List.Pairwise.insertionSort_eq (List.Pairwise.imp (hr _ _) h)

/-! ## An ordered map

A log as a map from positions to entries, one entry at a position. -/

/-- `e` in its place, instead of what stood there. -/
def put (pos : α → κ) (e : α) : List α → List α
  | [] => [e]
  | a :: l =>
    if pos e < pos a then e :: a :: l
    else if pos e = pos a then e :: l
    else a :: put pos e l

theorem mem_put {l : List α} (h : Ordered pos l) {e x : α} :
    x ∈ put pos e l ↔ x = e ∨ x ∈ l ∧ pos x ≠ pos e := by
  induction l with
  | nil => simp [put]
  | cons a l ih =>
      obtain ⟨hlt, h⟩ := List.pairwise_cons.mp h
      rw [put]
      by_cases hea : pos e < pos a
      · have hne : ∀ y ∈ a :: l, pos y ≠ pos e := by
          intro y hy
          rcases List.mem_cons.mp hy with rfl | hy
          · exact ne_of_gt hea
          · exact ne_of_gt (lt_trans hea (hlt y hy))
        rw [if_pos hea, List.mem_cons]
        exact or_congr_right (iff_self_and.mpr fun hx => hne x hx)
      · rw [if_neg hea]
        by_cases heq : pos e = pos a
        · have hne : ∀ y ∈ l, pos y ≠ pos e := by
            intro y hy
            rw [heq]
            exact ne_of_gt (hlt y hy)
          rw [if_pos heq, List.mem_cons]
          apply or_congr_right
          constructor
          · intro hx
            exact ⟨List.mem_cons_of_mem _ hx, hne x hx⟩
          · intro hx
            rcases List.mem_cons.mp hx.1 with rfl | hl
            · exact absurd heq.symm hx.2
            · exact hl
        · rw [if_neg heq, List.mem_cons, ih h, List.mem_cons]
          constructor
          · rintro (rfl | rfl | ⟨hx, hne⟩)
            · exact .inr ⟨.inl rfl, Ne.symm heq⟩
            · exact .inl rfl
            · exact .inr ⟨.inr hx, hne⟩
          · rintro (rfl | ⟨rfl | hx, hne⟩)
            · exact .inr (.inl rfl)
            · exact .inl rfl
            · exact .inr (.inr ⟨hx, hne⟩)

theorem Ordered.put {l : List α} (h : Ordered pos l) (e : α) : Ordered pos (put pos e l) := by
  induction l with
  | nil => exact List.pairwise_singleton _ _
  | cons a l ih =>
      obtain ⟨hlt, hl⟩ := List.pairwise_cons.mp h
      rw [Log.put]
      by_cases hea : pos e < pos a
      · rw [if_pos hea]
        apply List.pairwise_cons.mpr ⟨_, h⟩
        intro y hy
        rcases List.mem_cons.mp hy with rfl | hy
        · exact hea
        · exact lt_trans hea (hlt y hy)
      · rw [if_neg hea]
        by_cases heq : pos e = pos a
        · rw [if_pos heq]
          apply List.pairwise_cons.mpr ⟨_, hl⟩
          intro y hy
          rw [heq]
          exact hlt y hy
        · rw [if_neg heq]
          apply List.pairwise_cons.mpr ⟨_, ih hl⟩
          intro y hy
          rcases (mem_put hl).mp hy with rfl | ⟨hy, _⟩
          · exact lt_of_le_of_ne (not_lt.mp hea) (Ne.symm heq)
          · exact hlt y hy

/-! ## Cuts -/

/-- `p` holds of a lower part of the log. -/
def LowerOn (pos : α → κ) (l : List α) (p : α → Bool) : Prop :=
  ∀ a ∈ l, ∀ b ∈ l, pos a < pos b → p b = true → p a = true

/-- **A cut splits the log**: the entries below the cut, then the rest. -/
theorem Ordered.filter_append_filter {l : List α} {p : α → Bool} (h : Ordered pos l)
    (hp : LowerOn pos l p) : l.filter p ++ l.filter (fun a => !p a) = l := by
  induction l with
  | nil => rfl
  | cons a l ih =>
      obtain ⟨hlt, h⟩ := List.pairwise_cons.mp h
      have hp' : LowerOn pos l p := fun x hx y hy =>
        hp x (List.mem_cons_of_mem _ hx) y (List.mem_cons_of_mem _ hy)
      cases ha : p a with
      | true => simpa [List.filter_cons, ha] using ih h hp'
      | false =>
          -- nothing after an entry above the cut is below it
          have hnil : l.filter p = [] := by
            rw [List.filter_eq_nil_iff]
            intro b hb hpb
            have := hp a List.mem_cons_self b (List.mem_cons_of_mem _ hb) (hlt b hb) hpb
            rw [ha] at this
            cases this
          have hall := ih h hp'
          rw [hnil, List.nil_append] at hall
          simp only [List.filter_cons, ha, Bool.false_eq_true, ite_false, Bool.not_false,
            ite_true, hnil, List.nil_append, hall]

theorem Ordered.filter_isPrefix {l : List α} {p : α → Bool} (h : Ordered pos l)
    (hp : LowerOn pos l p) : l.filter p <+: l :=
  ⟨_, h.filter_append_filter hp⟩

/-- A lower cut of a first part is a first part of a higher cut of the whole. -/
theorem Ordered.filter_isPrefix_filter {l l' : List α} {p q : α → Bool} (h : Ordered pos l)
    (hl : l' <+: l) (hp : LowerOn pos l p) (hpq : ∀ a, p a = true → q a = true) :
    l'.filter p <+: l.filter q := by
  have hsame : l.filter p = (l.filter q).filter p := by
    rw [List.filter_filter]
    apply List.filter_congr
    intro a _
    cases hpa : p a with
    | false => rfl
    | true => simp [hpq a hpa]
  have hlow : LowerOn pos (l.filter q) p := fun a ha b hb =>
    hp a (List.mem_filter.mp ha).1 b (List.mem_filter.mp hb).1
  refine (hl.filter p).trans ?_
  rw [hsame]
  exact (h.filter q).filter_isPrefix hlow

theorem lowerOn_le (l : List α) (cut : κ) : LowerOn pos l fun a => decide (pos a ≤ cut) := by
  intro a _ b _ hab hb
  simp only [decide_eq_true_eq] at hb ⊢
  exact le_of_lt (lt_of_lt_of_le hab hb)

/-- The log is the part up to the cut followed by the part after it. -/
theorem Ordered.upTo_append_after {l : List α} (h : Ordered pos l) (cut : κ) :
    l.filter (fun a => decide (pos a ≤ cut)) ++ l.filter (fun a => decide (cut < pos a))
      = l := by
  have hsplit := h.filter_append_filter (lowerOn_le l cut)
  convert hsplit using 2
  apply List.filter_congr
  intro a _
  by_cases hle : pos a ≤ cut
  · simp [hle, not_lt.mpr hle]
  · simp [hle, not_le.mp hle]

/-! ## Prefixes -/

/-- A prefix that covers everything up to the cut extends the cut. -/
theorem Ordered.upTo_isPrefix {l s : List α} (h : Ordered pos l) (hs : s <+: l) {cut : κ}
    (hcov : ∀ a ∈ l, pos a ≤ cut → a ∈ s) :
    l.filter (fun a => decide (pos a ≤ cut)) <+: s := by
  have hu := h.filter_isPrefix (lowerOn_le l cut)
  rcases List.prefix_or_prefix_of_prefix hu hs with hus | hsu
  · exact hus
  · have hsub : l.filter (fun a => decide (pos a ≤ cut)) ⊆ s := by
      intro a ha
      rw [List.mem_filter, decide_eq_true_eq] at ha
      exact hcov a ha.1 ha.2
    have hlen := (List.subperm_of_subset (h.filter _).nodup hsub).length_le
    rw [hsu.eq_of_length_le hlen]

/-- A prefix covers everything up to the position of any of its entries. -/
theorem Ordered.covers_of_isPrefix {l s : List α} (h : Ordered pos l) (hs : s <+: l) {z : α}
    (hz : z ∈ s) : ∀ a ∈ l, pos a ≤ pos z → a ∈ s := by
  intro a ha haz
  obtain ⟨t, rfl⟩ := hs
  rcases List.mem_append.mp ha with ha | ha
  · exact ha
  · exact absurd haz (not_le.mpr ((List.pairwise_append.mp h).2.2 z hz a ha))

theorem filter_missing_nil {β : Type} [DecidableEq β] {key : α → β} {ks : List β}
    {x : List α} (h : ∀ a ∈ x, key a ∈ ks) : x.filter (fun a => key a ∉ ks) = [] := by
  rw [List.filter_eq_nil_iff]
  intro a ha
  rw [decide_eq_true_eq]
  exact fun hn => hn (h a ha)

/-- The entries of `x` whose key `s` does not hold. -/
def missing {β : Type} [DecidableEq β] (key : α → β) (s x : List α) : List α :=
  x.filter fun a => key a ∉ s.map key

/-- **Resuming inside a stored prefix**: `s` is stored, `u` is the part of it
that is not re-read, `x` is what is read next. Appending the entries of `x`
that are not stored leaves the longer of the two prefixes. -/
theorem append_missing {β : Type} [DecidableEq β] {key : α → β} {l s u x : List α}
    (hl : (l.map key).Nodup) (hs : s <+: l) (hus : u <+: s) (hux : u ++ x <+: l) :
    (s ++ missing key s x = s ∧ u ++ x <+: s) ∨
    (s ++ missing key s x = u ++ x ∧ s <+: u ++ x) := by
  unfold missing
  rcases List.prefix_or_prefix_of_prefix hux hs with h | h
  · left
    refine ⟨?_, h⟩
    rw [filter_missing_nil, List.append_nil]
    exact fun a ha => List.mem_map_of_mem (h.subset (List.mem_append_right _ ha))
  · right
    refine ⟨?_, h⟩
    obtain ⟨z, rfl⟩ := hus
    obtain ⟨y, hy⟩ := h
    have hx : x = z ++ y := by
      rw [List.append_assoc, List.append_cancel_left_eq] at hy
      exact hy.symm
    subst hx
    have hnd := hl.sublist (hux.sublist.map key)
    rw [← List.append_assoc, List.map_append, List.nodup_append] at hnd
    have hz : z.filter (fun a => key a ∉ (u ++ z).map key) = [] :=
      filter_missing_nil fun a ha => List.mem_map_of_mem (List.mem_append_right _ ha)
    have hy' : y.filter (fun a => key a ∉ (u ++ z).map key) = y := by
      rw [List.filter_eq_self]
      intro a ha
      rw [decide_eq_true_eq]
      intro hmem
      exact hnd.2.2 _ hmem _ (List.mem_map_of_mem ha) rfl
    rw [List.filter_append, hz, hy', List.nil_append, List.append_assoc]

end Log
