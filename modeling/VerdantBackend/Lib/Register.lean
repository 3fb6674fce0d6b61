import Mathlib.Algebra.BigOperators.Group.List.Basic
import Mathlib.Algebra.Order.Group.Defs
import Mathlib.Algebra.Order.Monoid.Unbundled.MinMax
import Mathlib.Data.List.DropRight
import Mathlib.Data.List.Induction

/-!
# Registers

What a sequence of writes leaves in one part of a state, read off the sequence
itself. A field holds the last value written to it. A counter that is set and
added to holds the last value set and what was added since. A counter that some
entries keep from falling below zero holds the greatest of the sums since the
points at which it may have stood at zero.
-/

namespace Register

variable {σ α β : Type}

/-- The last value that an entry writes. -/
def lastSet (set? : α → Option β) (l : List α) : Option β := (l.filterMap set?).getLast?

/-- What comes behind the last entry that writes. -/
def since (set? : α → Option β) (l : List α) : List α := l.rtakeWhile fun a => (set? a).isNone

@[simp] theorem lastSet_nil (set? : α → Option β) : lastSet set? [] = none := rfl

@[simp] theorem since_nil (set? : α → Option β) : since set? [] = [] := rfl

theorem lastSet_concat_some {set? : α → Option β} {a : α} {b : β} (h : set? a = some b)
    (l : List α) : lastSet set? (l ++ [a]) = some b := by
  simp [lastSet, h]

theorem lastSet_concat_none {set? : α → Option β} {a : α} (h : set? a = none) (l : List α) :
    lastSet set? (l ++ [a]) = lastSet set? l := by
  simp [lastSet, h]

theorem since_concat_some {set? : α → Option β} {a : α} {b : β} (h : set? a = some b)
    (l : List α) : since set? (l ++ [a]) = [] := by
  simp [since, h]

theorem since_concat_none {set? : α → Option β} {a : α} (h : set? a = none) (l : List α) :
    since set? (l ++ [a]) = since set? l ++ [a] := by
  simp [since, h]

variable {step : σ → α → σ}

/-- **The last write wins.** -/
theorem last_write {m : σ → β} {set? : α → Option β}
    (h : ∀ s a, m (step s a) = (set? a).getD (m s)) (l : List α) (s : σ) :
    m (l.foldl step s) = (lastSet set? l).getD (m s) := by
  induction l using List.reverseRecOn with
  | nil => rfl
  | append_singleton l a ih =>
      rw [List.foldl_concat, h]
      cases ha : set? a with
      | none => rw [lastSet_concat_none ha, Option.getD_none, ih]
      | some b => rw [lastSet_concat_some ha, Option.getD_some, Option.getD_some]

/-- **A counter**: the last value set and what was added since. -/
theorem set_counter [AddMonoid β] {m : σ → β} {set? : α → Option β} {inc : α → β}
    (h : ∀ s a, m (step s a) = (set? a).getD (m s + inc a)) (l : List α) (s : σ) :
    m (l.foldl step s) = (lastSet set? l).getD (m s) + ((since set? l).map inc).sum := by
  induction l using List.reverseRecOn with
  | nil => simp
  | append_singleton l a ih =>
      rw [List.foldl_concat, h]
      cases ha : set? a with
      | none => simp [lastSet_concat_none ha, since_concat_none ha, ih, add_assoc]
      | some b => simp [lastSet_concat_some ha, since_concat_some ha]

/-- From the last entry that writes `m` on, the run starts at what it wrote. -/
theorem foldl_since {m : σ → β} {set? : α → Option β}
    (h : ∀ s a b, set? a = some b → m (step s a) = b) (l : List α) (s : σ) :
    ∃ s', l.foldl step s = (since set? l).foldl step s' ∧ m s' = (lastSet set? l).getD (m s) := by
  induction l using List.reverseRecOn with
  | nil => exact ⟨s, rfl, rfl⟩
  | append_singleton l a ih =>
      obtain ⟨s', hfold, hm⟩ := ih
      rw [List.foldl_concat]
      cases ha : set? a with
      | none =>
          rw [since_concat_none ha, lastSet_concat_none ha, hfold]
          exact ⟨s', (List.foldl_concat ..).symm, hm⟩
      | some b =>
          rw [since_concat_some ha, lastSet_concat_some ha]
          exact ⟨_, rfl, h _ a b ha⟩

theorem eq_none_of_mem_since {set? : α → Option β} {l : List α} {a : α} (h : a ∈ since set? l) :
    set? a = none := by
  simpa using List.mem_rtakeWhile_imp h

theorem lastSet_map {γ : Type} (set? : α → Option β) (f : β → γ) (l : List α) :
    lastSet (fun a => (set? a).map f) l = (lastSet set? l).map f := by
  induction l using List.reverseRecOn with
  | nil => rfl
  | append_singleton l a ih =>
      cases ha : set? a with
      | none =>
          rw [lastSet_concat_none ha, ← ih]
          exact lastSet_concat_none (by rw [ha, Option.map_none]) l
      | some b =>
          rw [lastSet_concat_some ha]
          exact lastSet_concat_some (by rw [ha, Option.map_some]) l

/-! ## Counters that copy another

An entry that resets the counter makes it equal to `g`. -/

section Reset
variable (resets : α → Bool)

/-- The entries up to the last that resets. -/
def upToLast (l : List α) : List α := l.rdropWhile fun a => !resets a

/-- The entries behind it. -/
def behindLast (l : List α) : List α := l.rtakeWhile fun a => !resets a

variable {resets}

theorem upToLast_concat_of {a : α} (h : resets a = true) (l : List α) :
    upToLast resets (l ++ [a]) = l ++ [a] := by
  simp [upToLast, h]

theorem upToLast_concat_of_not {a : α} (h : resets a = false) (l : List α) :
    upToLast resets (l ++ [a]) = upToLast resets l := by
  simp [upToLast, h]

theorem behindLast_concat_of {a : α} (h : resets a = true) (l : List α) :
    behindLast resets (l ++ [a]) = [] := by
  simp [behindLast, h]

theorem behindLast_concat_of_not {a : α} (h : resets a = false) (l : List α) :
    behindLast resets (l ++ [a]) = behindLast resets l ++ [a] := by
  simp [behindLast, h]

/-- What only resets write is as the last of them left it. -/
theorem at_last {m : σ → β} (h : ∀ s a, resets a = false → m (step s a) = m s) (l : List α)
    (s : σ) : m (l.foldl step s) = m ((upToLast resets l).foldl step s) := by
  induction l using List.reverseRecOn with
  | nil => rfl
  | append_singleton l a ih =>
      cases ha : resets a with
      | true => rw [upToLast_concat_of ha]
      | false => rw [upToLast_concat_of_not ha, List.foldl_concat, h _ a ha, ih]

variable (resets) in
theorem upToLast_cases (l : List α) :
    upToLast resets l = [] ∨ ∃ l' a, upToLast resets l = l' ++ [a] ∧ resets a = true := by
  induction l using List.reverseRecOn with
  | nil => exact .inl rfl
  | append_singleton l a ih =>
      cases ha : resets a with
      | true => exact .inr ⟨l, a, upToLast_concat_of ha l, ha⟩
      | false =>
          rw [upToLast_concat_of_not ha]
          exact ih

/-- **A counter that is reset to `g`**: what `g` was at the last reset and what was
added since. -/
theorem reset_counter [AddMonoid β] {m g : σ → β} {inc : α → β}
    (h : ∀ s a, m (step s a) = if resets a then g (step s a) else m s + inc a) (l : List α)
    (s : σ) :
    m (l.foldl step s) =
      (if l.any resets then g ((upToLast resets l).foldl step s) else m s) +
        ((behindLast resets l).map inc).sum := by
  induction l using List.reverseRecOn with
  | nil => simp [behindLast]
  | append_singleton l a ih =>
      rw [List.foldl_concat, h, List.any_append]
      cases ha : resets a with
      | true =>
          rw [upToLast_concat_of ha, behindLast_concat_of ha, List.foldl_concat]
          simp [ha]
      | false =>
          rw [upToLast_concat_of_not ha, behindLast_concat_of_not ha, ih]
          simp [ha, add_assoc]

end Reset

/-! ## Counters that stop at zero -/

section Floor
variable [AddCommGroup β] (floors : α → Bool) (inc : α → β)

/-- The sums since each entry at which the counter may have stood at zero. -/
def restarts : List α → List β
  | [] => []
  | a :: l => if floors a then (l.map inc).sum :: restarts l else restarts l

variable {floors inc}

variable [LinearOrder β] [IsOrderedAddMonoid β]

/-- **A counter that stops at zero**: the greatest of what it would be without
stopping and of the sums since its restarts. -/
theorem floored {m : σ → β} {l : List α}
    (h : ∀ a ∈ l, ∀ s, m (step s a) = if floors a then max (m s + inc a) 0 else m s + inc a)
    (s : σ) :
    m (l.foldl step s) = (restarts floors inc l).foldl max (m s + (l.map inc).sum) := by
  induction l generalizing s with
  | nil => simp [restarts]
  | cons a l ih =>
      rw [List.forall_mem_cons] at h
      rw [List.foldl_cons, ih h.2, h.1, restarts, List.map_cons, List.sum_cons]
      by_cases ha : floors a = true
      · simp only [ha, if_true, List.foldl_cons]
        rw [← max_add_add_right, zero_add, add_assoc]
      · simp only [ha, if_false, Bool.false_eq_true, ← add_assoc]

end Floor

/-! ## Rows that are opened -/

section Opened
variable {ρ : Type} (opens : α → Option ρ) (on : ρ → α → ρ)

/-- A row that some entries open, and that every entry then changes. -/
def rowStep (row : Option ρ) (a : α) : Option ρ := row.elim (opens a) fun r => some (on r a)

/-- The entries from the first that opens the row. -/
def opened (l : List α) : List α := l.dropWhile fun a => (opens a).isNone

/-- The row as its first entry opens it, made by `f` into what the others leave. -/
def fromFirst (f : ρ → List α → ρ) (l : List α) : Option ρ :=
  match opened opens l with
  | [] => none
  | a :: rest => (opens a).map fun r => f r rest

variable {opens on}

theorem opened_cons_of_none {a : α} (h : opens a = none) (l : List α) :
    opened opens (a :: l) = opened opens l := by
  simp [opened, h]

theorem opened_cons_of_some {a : α} {r : ρ} (h : opens a = some r) (l : List α) :
    opened opens (a :: l) = a :: l := by
  simp [opened, h]

theorem foldl_rowStep_some (l : List α) (r : ρ) :
    l.foldl (rowStep opens on) (some r) = some (l.foldl on r) := by
  induction l generalizing r with
  | nil => rfl
  | cons a l ih => exact ih (on r a)

/-- **A row from its first entry on.** -/
theorem foldl_rowStep_none (l : List α) :
    l.foldl (rowStep opens on) none = fromFirst opens (fun r rest => rest.foldl on r) l := by
  induction l with
  | nil => rfl
  | cons a l ih =>
      rw [List.foldl_cons, fromFirst]
      cases ha : opens a with
      | none =>
          have hstep : rowStep opens on none a = none := ha
          rw [hstep, ih, opened_cons_of_none ha, fromFirst]
      | some r =>
          have hstep : rowStep opens on none a = some r := ha
          rw [hstep, foldl_rowStep_some, opened_cons_of_some ha]
          simp [ha]

end Opened

end Register
