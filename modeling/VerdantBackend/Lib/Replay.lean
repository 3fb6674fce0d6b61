import Mathlib.Data.List.Basic
import Mathlib.Data.List.Induction
import Mathlib.Tactic.TypeStar

/-!
# Replaying a history

A view of a store is kept up to date by applying a history of changes, and the
whole history may be applied again over the result. Two facts carry the
replay arguments: what a fallible run of changes does to one view of the
store, and when two replays that start apart end together. A third settles what
holds after every first part of a history, step by step.
-/

namespace Replay

variable {σ α β ε : Type}

/-! ## One view of a fallible run -/

theorem foldlM_cons_ok {step : σ → α → Except ε σ} {a : α} {l : List α} {s s' : σ}
    (h : (a :: l).foldlM step s = .ok s') :
    ∃ s₁, step s a = .ok s₁ ∧ l.foldlM step s₁ = .ok s' := by
  rw [List.foldlM_cons] at h
  cases hs : step s a with
  | error e => simp [hs, Bind.bind, Except.bind] at h
  | ok s₁ => exact ⟨s₁, rfl, by simpa [hs, Bind.bind, Except.bind] using h⟩

theorem foldlM_append_ok {step : σ → α → Except ε σ} {l₁ l₂ : List α} {s s' : σ}
    (h : (l₁ ++ l₂).foldlM step s = .ok s') :
    ∃ s₁, l₁.foldlM step s = .ok s₁ ∧ l₂.foldlM step s₁ = .ok s' := by
  rw [List.foldlM_append] at h
  cases hs : l₁.foldlM step s with
  | error e => simp [hs, Bind.bind, Except.bind] at h
  | ok s₁ => exact ⟨s₁, rfl, by simpa [hs, Bind.bind, Except.bind] using h⟩

/-- What every accepted change preserves, an accepted run preserves. -/
theorem foldlM_invariant {step : σ → α → Except ε σ} {P : σ → Prop} {l : List α}
    (hstep : ∀ a ∈ l, ∀ s s', step s a = .ok s' → P s → P s') {s s' : σ}
    (h : l.foldlM step s = .ok s') (hs : P s) : P s' := by
  induction l generalizing s with
  | nil =>
      cases h
      exact hs
  | cons a l ih =>
      obtain ⟨s₁, h₁, h₂⟩ := foldlM_cons_ok h
      exact ih (fun b hb => hstep b (List.mem_cons_of_mem _ hb)) h₂
        (hstep a List.mem_cons_self s s₁ h₁ hs)

/-- **One view of a run**: if every accepted change acts on the view by
`vstep`, an accepted run acts on it by the fold of `vstep`. -/
theorem foldlM_view {step : σ → α → Except ε σ} {v : σ → β} {vstep : β → α → β}
    (hstep : ∀ a s s', step s a = .ok s' → v s' = vstep (v s) a) {l : List α}
    {s s' : σ} (h : l.foldlM step s = .ok s') : v s' = l.foldl vstep (v s) := by
  induction l generalizing s with
  | nil =>
      cases h
      rfl
  | cons a l ih =>
      obtain ⟨s₁, h₁, h₂⟩ := foldlM_cons_ok h
      rw [ih h₂, hstep a s s₁ h₁, List.foldl_cons]

/-! ## Folds -/

/-- Changes that leave the view alone can be dropped from the fold. -/
theorem foldl_filter {step : β → α → β} {p : α → Bool}
    (hidle : ∀ a b, p a = false → step b a = b) (l : List α) (b : β) :
    l.foldl step b = (l.filter p).foldl step b := by
  induction l generalizing b with
  | nil => rfl
  | cons a l ih =>
      cases ha : p a with
      | true => rw [List.filter_cons_of_pos ha, List.foldl_cons, List.foldl_cons, ih]
      | false =>
          rw [List.filter_cons_of_neg (by simp [ha]), List.foldl_cons, hidle a b ha, ih]

theorem foldl_invariant {step : β → α → β} {P : β → Prop} {l : List α}
    (hstep : ∀ a ∈ l, ∀ b, P b → P (step b a)) {b : β} (hb : P b) :
    P (l.foldl step b) := by
  induction l generalizing b with
  | nil => exact hb
  | cons a l ih =>
      exact ih (fun x hx => hstep x (List.mem_cons_of_mem _ hx))
        (hstep a List.mem_cons_self b hb)

/-- **Replays meet**: two folds of one history whose states stay related end
equal when the history holds a change that overwrites what the relation leaves
open, or when they start equal. -/
theorem foldl_eq_of_overwrite {step : β → α → β} {R : β → β → Prop} {W : α → Prop}
    {l : List α} (hR : ∀ a ∈ l, ∀ b b', R b b' → R (step b a) (step b' a))
    (hW : ∀ a ∈ l, ∀ b b', W a → R b b' → step b a = step b' a) {b b' : β} (h : R b b')
    (hl : (∃ a ∈ l, W a) ∨ b = b') : l.foldl step b = l.foldl step b' := by
  induction l generalizing b b' with
  | nil =>
      rcases hl with ⟨a, ha, _⟩ | rfl
      · cases ha
      · rfl
  | cons a l ih =>
      rw [List.foldl_cons, List.foldl_cons]
      refine ih (fun x hx => hR x (List.mem_cons_of_mem _ hx))
        (fun x hx => hW x (List.mem_cons_of_mem _ hx)) (hR a List.mem_cons_self b b' h) ?_
      rcases hl with ⟨x, hx, hWx⟩ | rfl
      · rcases List.mem_cons.mp hx with rfl | hx
        · exact .inr (hW x List.mem_cons_self b b' hWx h)
        · exact .inl ⟨x, hx, hWx⟩
      · exact .inr rfl

/-! ## First parts of a history -/

/-- **Step by step**: if a step keeps `P` exactly when it meets `C`, then `P` holds
of every first part of a history exactly when every step meets `C`. -/
theorem prefixes_iff {P : List α → Prop} {C : List α → α → Prop} {l : List α} (hnil : P [])
    (hstep : ∀ p a, p ++ [a] <+: l → P p → (P (p ++ [a]) ↔ C p a)) :
    (∀ p, p <+: l → P p) ↔ ∀ p a, p ++ [a] <+: l → C p a := by
  constructor
  · intro h p a hp
    have hprev : p <+: l := (List.prefix_append p [a]).trans hp
    exact (hstep p a hp (h p hprev)).mp (h (p ++ [a]) hp)
  · intro h p hp
    induction p using List.reverseRecOn with
    | nil => exact hnil
    | append_singleton p a ih =>
        have hprev : p <+: l := (List.prefix_append p [a]).trans hp
        exact (hstep p a hp (ih hprev)).mpr (h p a hp)

end Replay
