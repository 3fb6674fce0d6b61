import Mathlib.Data.List.Infix
import VerdantBackend.Lib.RowChange

/-!
# Sweeps over a growing history

A history is swept again and again, each time from its start, and a sweep may
stop on the way. What a row shows between two entries of a sweep is what the
latest sweep that reached the row has applied to it: the sweeps before it are
overwritten as soon as one opens the row.
-/

/-- One sweep: what it has applied so far of what it is to apply. -/
structure Sweep (α : Type) where
  applied : List α
  due : List α

namespace Sweep

open RowChange (Names replay Opened Respects)

variable {κ ρ α β : Type} [DecidableEq κ] (pick : α → Option (RowChange κ ρ)) (k : κ)

/-- The entries of the history that name the row. -/
def ofRow (l : List α) : List α := l.filter fun a => Names pick k a

/-- The sweeps that reached the row. -/
def reached (sweeps : List (Sweep α)) : List (Sweep α) :=
  sweeps.filter fun x => ofRow pick k x.applied ≠ []

/-- What the latest of them applied to the row. -/
def seen (sweeps : List (Sweep α)) : List α :=
  (reached pick k sweeps).getLast?.elim [] fun x => ofRow pick k x.applied

/-- The latest of them applied all it has for the row. -/
def CaughtUp (sweeps : List (Sweep α)) : Prop :=
  ∀ x, (reached pick k sweeps).getLast? = some x →
    ofRow pick k x.applied = ofRow pick k x.due

/-- All that was applied, in order. -/
def appliedBy (sweeps : List (Sweep α)) : List α := sweeps.flatMap applied

variable {pick k}

variable (pick k) in
theorem ofRow_isPrefix {l l' : List α} (h : l <+: l') : ofRow pick k l <+: ofRow pick k l' :=
  h.filter _

theorem replay_ofRow (l : List α) (row : Option ρ) :
    replay pick k (ofRow pick k l) row = replay pick k l row :=
  RowChange.replay_filter_names l row

theorem not_names_of_ofRow {l : List α} (h : ofRow pick k l = []) :
    ∀ a ∈ l, ¬ Names pick k a := by
  simpa [ofRow, List.filter_eq_nil_iff] using h

theorem appliedBy_append (l₁ l₂ : List (Sweep α)) :
    appliedBy (l₁ ++ l₂) = appliedBy l₁ ++ appliedBy l₂ := List.flatMap_append

theorem reached_append (l₁ l₂ : List (Sweep α)) :
    reached pick k (l₁ ++ l₂) = reached pick k l₁ ++ reached pick k l₂ := List.filter_append ..

theorem reached_singleton_of_nil {x : Sweep α} (h : ofRow pick k x.applied = []) :
    reached pick k [x] = [] := by
  simp [reached, h]

theorem reached_singleton {x : Sweep α} (h : ofRow pick k x.applied ≠ []) :
    reached pick k [x] = [x] := by
  simp [reached, h]

theorem seen_append_of_nil {l l' : List (Sweep α)} (h : reached pick k l' = []) :
    seen pick k (l ++ l') = seen pick k l := by
  rw [seen, reached_append, h, List.append_nil, seen]

/-- The latest sweep, once it has reached the row, is what the row shows. -/
theorem seen_append_of_ofRow (l : List (Sweep α)) {x : Sweep α}
    (h : ofRow pick k x.applied ≠ []) : seen pick k (l ++ [x]) = ofRow pick k x.applied := by
  rw [seen, reached_append, reached_singleton h, List.getLast?_append]
  rfl

variable (pick k) in
theorem seen_eq_nil_or (sweeps : List (Sweep α)) :
    seen pick k sweeps = [] ∨ ∃ x ∈ sweeps, seen pick k sweeps = ofRow pick k x.applied := by
  rw [seen]
  cases hl : (reached pick k sweeps).getLast? with
  | none => exact .inl rfl
  | some x => exact .inr ⟨x, (List.mem_filter.mp (List.mem_of_getLast? hl)).1, rfl⟩

theorem seen_isPrefix {sweeps : List (Sweep α)} {history : List α}
    (h : ∀ x ∈ sweeps, x.applied <+: history) :
    seen pick k sweeps <+: ofRow pick k history := by
  rcases seen_eq_nil_or pick k sweeps with hnil | ⟨x, hx, hseen⟩
  · rw [hnil]
    exact List.nil_prefix
  · rw [hseen]
    exact ofRow_isPrefix pick k (h x hx)

/-! ## What a row shows -/

/-- **A row between two entries**: the part `f` of it that the first entry of the
row sets afresh is that of one application of what the row shows. -/
theorem replay_map_seen {f : ρ → β} {sweeps : List (Sweep α)} {history : List α}
    (hpre : ∀ x ∈ sweeps, x.applied <+: history) (hopen : Opened f pick k history)
    (hresp : ∀ a ∈ history, ∀ c, pick a = some c → c.key = k → c.Respects f) :
    (replay pick k (appliedBy sweeps) none).map f =
      (replay pick k (seen pick k sweeps) none).map f := by
  induction sweeps using List.reverseRecOn with
  | nil => rfl
  | append_singleton sweeps x ih =>
      have hx := hpre x (by simp)
      have ih := ih fun y hy => hpre y (by simp [hy])
      rw [appliedBy_append, RowChange.replay_append]
      by_cases hnil : ofRow pick k x.applied = []
      · rw [seen_append_of_nil (reached_singleton_of_nil hnil), ← ih]
        congr 1
        refine RowChange.replay_of_not_names ?_ _
        simpa [appliedBy] using not_names_of_ofRow hnil
      · obtain ⟨a, ha⟩ := List.exists_mem_of_ne_nil _ hnil
        obtain ⟨ha, hn⟩ := List.mem_filter.mp ha
        rw [seen_append_of_ofRow _ hnil, replay_ofRow, appliedBy, List.flatMap_singleton]
        exact (hopen.of_isPrefix hx).map_eq (fun b hb => hresp b (hx.subset hb)) ha
          (by simpa using hn) _

/-- While only one sweep has reached the row, all of it is. -/
theorem replay_eq_seen {sweeps : List (Sweep α)} (h : (reached pick k sweeps).length ≤ 1) :
    replay pick k (appliedBy sweeps) none = replay pick k (seen pick k sweeps) none := by
  induction sweeps using List.reverseRecOn with
  | nil => rfl
  | append_singleton sweeps x ih =>
      rw [reached_append, List.length_append] at h
      rw [appliedBy_append, RowChange.replay_append, ih (by omega)]
      by_cases hnil : ofRow pick k x.applied = []
      · rw [seen_append_of_nil (reached_singleton_of_nil hnil)]
        refine RowChange.replay_of_not_names ?_ _
        simpa [appliedBy] using not_names_of_ofRow hnil
      · rw [reached_singleton hnil, List.length_singleton] at h
        have hfirst : reached pick k sweeps = [] := List.eq_nil_of_length_eq_zero (by omega)
        have hseen : seen pick k sweeps = [] := by rw [seen, hfirst]; rfl
        rw [hseen, RowChange.replay_nil, seen_append_of_ofRow _ hnil, replay_ofRow, appliedBy,
          List.flatMap_singleton]

/-! ## One read after the other -/

/-- The second list of sweeps is the first one later on: its latest sweep has gone
on, and others may have followed. -/
def Later (xs ys : List (Sweep α)) : Prop :=
  ∃ l x y l', xs = l ++ [x] ∧ ys = l ++ y :: l' ∧ x.applied <+: y.applied

theorem reached_eq_nil_of_isPrefix {x y : Sweep α} (h : x.applied <+: y.applied)
    (hy : reached pick k [y] = []) : reached pick k [x] = [] := by
  by_cases hnil : ofRow pick k y.applied = []
  · have hx := ofRow_isPrefix pick k h
    rw [hnil, List.prefix_nil] at hx
    exact reached_singleton_of_nil hx
  · rw [reached_singleton hnil] at hy
    cases hy

/-- Nothing new has reached the row: the same sweep, further on. -/
theorem Later.seen_of_same {xs ys : List (Sweep α)} (h : Later xs ys)
    (hsame : (reached pick k xs).length = (reached pick k ys).length) :
    seen pick k xs <+: seen pick k ys := by
  obtain ⟨l, x, y, l', rfl, rfl, hxy⟩ := h
  rw [List.append_cons l y l'] at hsame ⊢
  simp only [reached_append, List.length_append] at hsame
  have hle : (reached pick k [x]).length ≤ (reached pick k [y]).length := by
    by_cases hy : reached pick k [y] = []
    · rw [hy, reached_eq_nil_of_isPrefix hxy hy]
    · have hpos := List.length_pos_of_ne_nil hy
      have hone : (reached pick k [x]).length ≤ 1 := List.length_filter_le _ _
      omega
  have hl' : reached pick k l' = [] := List.eq_nil_of_length_eq_zero (by omega)
  rw [seen_append_of_nil hl']
  by_cases hy : ofRow pick k y.applied = []
  · have hynil := reached_singleton_of_nil hy
    rw [seen_append_of_nil hynil, seen_append_of_nil (reached_eq_nil_of_isPrefix hxy hynil)]
  · rw [seen_append_of_ofRow _ hy]
    by_cases hx : ofRow pick k x.applied = []
    · rw [reached_singleton_of_nil hx, reached_singleton hy, hl'] at hsame
      simp at hsame
    · rw [seen_append_of_ofRow _ hx]
      exact ofRow_isPrefix pick k hxy

/-- The latest sweep to reach the row has applied all it has for it. -/
theorem Later.seen_of_caughtUp {xs ys : List (Sweep α)} (h : Later xs ys)
    (hgrow : ys.Pairwise fun x y => x.applied <+: y.due) (hown : ∀ y ∈ ys, y.applied <+: y.due)
    (hdone : CaughtUp pick k ys) : seen pick k xs <+: seen pick k ys := by
  by_cases hsame : (reached pick k xs).length = (reached pick k ys).length
  · exact h.seen_of_same hsame
  obtain ⟨l, x, y, l', rfl, rfl, hxy⟩ := h
  -- the latest to reach the row is `y` or one after it
  have hne : reached pick k (y :: l') ≠ [] := by
    intro hnil
    have hynil : reached pick k [y] = [] := by
      rw [← List.singleton_append, reached_append] at hnil
      exact (List.append_eq_nil_iff.mp hnil).1
    apply hsame
    rw [reached_append, reached_append, hnil, reached_eq_nil_of_isPrefix hxy hynil]
  obtain ⟨z, hz⟩ : ∃ z, (reached pick k (y :: l')).getLast? = some z :=
    ⟨_, List.getLast?_eq_some_getLast hne⟩
  have hlast : (reached pick k (l ++ y :: l')).getLast? = some z := by
    rw [reached_append, List.getLast?_append, hz]
    rfl
  have hzmem : z ∈ y :: l' := (List.mem_filter.mp (List.mem_of_getLast? hz)).1
  have hbelow : ∀ w ∈ l ++ [x], w.applied <+: z.due := by
    obtain ⟨_, htail, hcross⟩ := List.pairwise_append.mp hgrow
    intro w hw
    rcases List.mem_append.mp hw with hw | hw
    · exact hcross w hw z hzmem
    · obtain rfl := List.mem_singleton.mp hw
      refine hxy.trans ?_
      rcases List.mem_cons.mp hzmem with rfl | hzmem
      · exact hown z (by simp)
      · exact (List.pairwise_cons.mp htail).1 z hzmem
  have hseen : seen pick k (l ++ y :: l') = ofRow pick k z.due := by
    rw [seen, hlast, ← hdone z hlast]
    rfl
  rw [hseen]
  exact seen_isPrefix hbelow

end Sweep
