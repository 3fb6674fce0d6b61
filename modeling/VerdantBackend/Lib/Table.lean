import Mathlib.Data.Finmap
import Mathlib.Data.List.Nodup

/-!
# Tables

Two shapes of relational table.

* `Table κ ρ`: rows under a primary key, unordered, a finite map. `upsert` is
  `INSERT .. ON CONFLICT (key) DO UPDATE`, `update` is `UPDATE .. WHERE key = k`
  with assignments that may be rejected (an arithmetic overflow).
* `UniqueRows key`: rows in insertion order under a unique constraint. `insert`
  is `INSERT .. ON CONFLICT DO NOTHING`, `deleteWhere` is `DELETE .. WHERE`.
-/

abbrev Table (κ ρ : Type) : Type := Finmap fun _ : κ => ρ

namespace Table

variable {κ ρ ε : Type} [DecidableEq κ]

/-- Whether some row satisfies `p`: the check behind a second unique column. -/
instance (t : Table κ ρ) (p : (_ : κ) × ρ → Prop) [DecidablePred p] :
    Decidable (∃ entry ∈ t.entries, p entry) :=
  Multiset.decidableExistsMultiset

/-- `INSERT .. ON CONFLICT (key) DO UPDATE`: `row` is the row of the `VALUES`
list, `onConflict` the `SET` list over the row already there. -/
def upsert (t : Table κ ρ) (k : κ) (row : ρ) (onConflict : ρ → ρ) : Table κ ρ :=
  t.insert k ((t.lookup k).elim row onConflict)

/-- `UPDATE .. SET .. WHERE key = k`: no row, no change. -/
def update (t : Table κ ρ) (k : κ) (set : ρ → Except ε ρ) : Except ε (Table κ ρ) :=
  match t.lookup k with
  | none => .ok t
  | some row => (set row).map (t.insert k ·)

@[simp] theorem lookup_upsert_self (t : Table κ ρ) (k : κ) (row : ρ)
    (onConflict : ρ → ρ) :
    (t.upsert k row onConflict).lookup k = some ((t.lookup k).elim row onConflict) :=
  Finmap.lookup_insert t

theorem lookup_upsert_ne (t : Table κ ρ) {k k' : κ} (row : ρ) (onConflict : ρ → ρ)
    (hne : k' ≠ k) : (t.upsert k row onConflict).lookup k' = t.lookup k' :=
  Finmap.lookup_insert_of_ne t hne

theorem lookup_upsert (t : Table κ ρ) (k k' : κ) (row : ρ) (onConflict : ρ → ρ) :
    (t.upsert k row onConflict).lookup k' =
      if k = k' then some ((t.lookup k').elim row onConflict) else t.lookup k' := by
  split
  · next h => subst h; simp
  · next h => exact lookup_upsert_ne t row onConflict (Ne.symm h)

/-- What an accepted `UPDATE` did, at every key. -/
theorem lookup_update {t t' : Table κ ρ} {k : κ} {set : ρ → Except ε ρ}
    (h : t.update k set = .ok t') (k' : κ) :
    if k = k' then
      (t.lookup k = none ∧ t'.lookup k = none) ∨
        ∃ row row', t.lookup k = some row ∧ set row = .ok row' ∧ t'.lookup k = some row'
    else t'.lookup k' = t.lookup k' := by
  rw [update] at h
  cases hl : t.lookup k with
  | none =>
      rw [hl] at h
      cases h
      split
      · exact .inl ⟨rfl, hl⟩
      · rfl
  | some row =>
      rw [hl] at h
      cases hs : set row with
      | error e => simp [hs, Except.map] at h
      | ok row' =>
          simp only [hs, Except.map, Except.ok.injEq] at h
          subst h
          split
          · exact .inr ⟨row, row', rfl, hs, Finmap.lookup_insert t⟩
          · next hne => exact Finmap.lookup_insert_of_ne t (Ne.symm hne)

theorem lookup_update_ne {t t' : Table κ ρ} {k k' : κ} {set : ρ → Except ε ρ}
    (h : t.update k set = .ok t') (hne : k ≠ k') : t'.lookup k' = t.lookup k' := by
  have := lookup_update h k'
  rwa [if_neg hne] at this

/-- A total reading of the update: when it is accepted, the row is `total`'s. -/
theorem lookup_update_of_total {t t' : Table κ ρ} {k : κ} {set : ρ → Except ε ρ}
    {total : ρ → ρ} (h : t.update k set = .ok t')
    (htotal : ∀ row row', set row = .ok row' → row' = total row) (k' : κ) :
    t'.lookup k' = if k = k' then (t.lookup k').map total else t.lookup k' := by
  have hl := lookup_update h k'
  split at hl
  · next hk =>
    subst hk
    rw [if_pos rfl]
    rcases hl with ⟨h₁, h₂⟩ | ⟨row, row', h₁, h₂, h₃⟩
    · rw [h₁, h₂, Option.map_none]
    · rw [h₁, h₃, Option.map_some, htotal row row' h₂]
  · next hk => rw [if_neg hk, hl]

/-- Writing a row changes nothing when it is there already. -/
theorem insert_eq_self_iff {t : Table κ ρ} {k : κ} {row : ρ} :
    t.insert k row = t ↔ t.lookup k = some row := by
  constructor
  · intro h
    rw [← h, Finmap.lookup_insert]
  · intro h
    apply Finmap.ext_lookup
    intro k'
    by_cases hk : k' = k
    · rw [hk, Finmap.lookup_insert, h]
    · rw [Finmap.lookup_insert_of_ne _ hk]

/-- Whether an `UPDATE` is accepted depends only on the row it finds. -/
theorem update_isOk_iff (t : Table κ ρ) (k : κ) (set : ρ → Except ε ρ) :
    (∃ t', t.update k set = .ok t') ↔
      ∀ row, t.lookup k = some row → ∃ row', set row = .ok row' := by
  rw [update]
  cases hl : t.lookup k with
  | none => simp
  | some row =>
      cases hs : set row with
      | error e => simp [Except.map, hs]
      | ok row' => simp [Except.map, hs]

/-- A rejected `UPDATE` is rejected wherever it finds the same row. -/
theorem update_error_congr {t t' : Table κ ρ} {k : κ} {set : ρ → Except ε ρ} {e : ε}
    (hl : t'.lookup k = t.lookup k) (h : t.update k set = .error e) :
    t'.update k set = .error e := by
  unfold update at h ⊢
  rw [hl]
  cases hrow : t.lookup k with
  | none => simp [hrow] at h
  | some row =>
      cases hs : set row with
      | error e' => simpa [hrow, hs, Except.map] using h
      | ok row' => simp [hrow, hs, Except.map] at h

end Table

/-! ## Rows under a unique constraint -/

structure UniqueRows {α κ : Type} (key : α → κ) where
  rows : List α
  unique : (rows.map key).Nodup

namespace UniqueRows

variable {α κ : Type} {key : α → κ}

def empty : UniqueRows key := ⟨[], List.nodup_nil⟩

@[simp] theorem empty_rows : (empty : UniqueRows key).rows = [] := rfl

/-- Two stored rows with one key are one row. -/
theorem eq_of_key (s : UniqueRows key) {a b : α} (ha : a ∈ s.rows) (hb : b ∈ s.rows)
    (h : key a = key b) : a = b :=
  List.inj_on_of_nodup_map s.unique ha hb h

theorem nodup (s : UniqueRows key) : s.rows.Nodup := s.unique.of_map

/-- A stored row is the only one with its key. -/
theorem filter_key_eq [DecidableEq κ] (s : UniqueRows key) {a : α} (ha : a ∈ s.rows) :
    s.rows.filter (fun b => key b = key a) = [a] := by
  obtain ⟨rows, unique⟩ := s
  simp only at ha ⊢
  induction rows with
  | nil => cases ha
  | cons b rows ih =>
      rw [List.map_cons, List.nodup_cons] at unique
      rcases List.mem_cons.mp ha with rfl | hmem
      · have hrest : rows.filter (fun b => key b = key a) = [] := by
          rw [List.filter_eq_nil_iff]
          intro x hx hk
          exact unique.1 (List.mem_map.mpr ⟨x, hx, by simpa using hk⟩)
        rw [List.filter_cons_of_pos (by simp), hrest]
      · have hne : key b ≠ key a := by
          intro hk
          exact unique.1 (List.mem_map.mpr ⟨a, hmem, hk.symm⟩)
        rw [List.filter_cons_of_neg (by simpa using hne)]
        exact ih unique.2 hmem

/-- `DELETE .. WHERE p`. -/
def deleteWhere (s : UniqueRows key) (p : α → Bool) : UniqueRows key where
  rows := s.rows.filter fun a => !p a
  unique := s.unique.sublist (List.filter_sublist.map key)

@[simp] theorem deleteWhere_rows (s : UniqueRows key) (p : α → Bool) :
    (s.deleteWhere p).rows = s.rows.filter fun a => !p a := rfl

variable [DecidableEq κ]

/-- `INSERT .. ON CONFLICT (key) DO NOTHING`. -/
def insert (s : UniqueRows key) (a : α) : UniqueRows key :=
  if h : key a ∈ s.rows.map key then s
  else ⟨s.rows ++ [a], by
    rw [List.map_append, List.nodup_append]
    refine ⟨s.unique, by simp, ?_⟩
    rintro x hx y hy rfl
    simp only [List.map_cons, List.map_nil, List.mem_singleton] at hy
    exact h (hy ▸ hx)⟩

theorem insert_rows_of_mem {s : UniqueRows key} {a : α} (h : key a ∈ s.rows.map key) :
    (s.insert a).rows = s.rows := by
  rw [insert, dif_pos h]

theorem insert_rows_of_not_mem {s : UniqueRows key} {a : α}
    (h : key a ∉ s.rows.map key) : (s.insert a).rows = s.rows ++ [a] := by
  rw [insert, dif_neg h]

def insertAll (s : UniqueRows key) (l : List α) : UniqueRows key := l.foldl insert s

@[simp] theorem insertAll_nil (s : UniqueRows key) : s.insertAll [] = s := rfl

theorem insertAll_cons (s : UniqueRows key) (a : α) (l : List α) :
    s.insertAll (a :: l) = (s.insert a).insertAll l := rfl

/-- **Bulk insert**: the rows whose key is new are appended, in order. -/
theorem insertAll_rows (s : UniqueRows key) (l : List α) (hl : (l.map key).Nodup) :
    (s.insertAll l).rows = s.rows ++ l.filter fun a => key a ∉ s.rows.map key := by
  induction l generalizing s with
  | nil => simp
  | cons a l ih =>
      rw [List.map_cons, List.nodup_cons] at hl
      rw [insertAll_cons, ih _ hl.2]
      by_cases h : key a ∈ s.rows.map key
      · rw [insert_rows_of_mem h, List.filter_cons_of_neg (by simpa using h)]
      · rw [insert_rows_of_not_mem h, List.filter_cons_of_pos (by simpa using h),
          List.append_assoc, List.singleton_append]
        congr 2
        apply List.filter_congr
        intro b hb
        have hne : key b ≠ key a := fun he => hl.1 (he ▸ List.mem_map_of_mem hb)
        simp [hne]

theorem mem_of_mem_insert {s : UniqueRows key} {a b : α} (h : b ∈ (s.insert a).rows) :
    b ∈ s.rows ∨ b = a := by
  by_cases ha : key a ∈ s.rows.map key
  · rw [insert_rows_of_mem ha] at h
    exact .inl h
  · rw [insert_rows_of_not_mem ha] at h
    simpa using h

theorem mem_of_mem_insertAll {s : UniqueRows key} {l : List α} {b : α}
    (h : b ∈ (s.insertAll l).rows) : b ∈ s.rows ∨ b ∈ l := by
  induction l generalizing s with
  | nil => exact .inl h
  | cons a l ih =>
      rcases ih h with h | h
      · rcases mem_of_mem_insert h with h | rfl
        · exact .inl h
        · exact .inr List.mem_cons_self
      · exact .inr (List.mem_cons_of_mem _ h)

/-- Rows that are stored already are inserted without effect. -/
theorem insertAll_of_subset {s : UniqueRows key} {l : List α} (h : ∀ a ∈ l, a ∈ s.rows) :
    s.insertAll l = s := by
  induction l with
  | nil => rfl
  | cons a l ih =>
      rw [List.forall_mem_cons] at h
      rw [insertAll_cons, insert, dif_pos (List.mem_map_of_mem h.1)]
      exact ih h.2

theorem mem_insertAll_left {s : UniqueRows key} {l : List α} {a : α}
    (h : a ∈ s.rows) : a ∈ (s.insertAll l).rows := by
  induction l generalizing s with
  | nil => exact h
  | cons b l ih =>
      apply ih
      by_cases hb : key b ∈ s.rows.map key
      · rwa [insert_rows_of_mem hb]
      · rw [insert_rows_of_not_mem hb]
        exact List.mem_append_left _ h

end UniqueRows
