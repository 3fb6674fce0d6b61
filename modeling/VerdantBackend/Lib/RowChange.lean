import VerdantBackend.Lib.Table
import VerdantBackend.Lib.Replay

/-!
# Changes of one row

A statement that writes the row under one key is described by the rows it
accepts and the row it leaves. Every row of a table then evolves on its own: a
history of such statements acts on the row under `k` by the changes that name
`k`, whatever the rest of the table holds.
-/

structure RowChange (κ ρ : Type) where
  key : κ
  Fits : Option ρ → Prop
  after : Option ρ → Option ρ

namespace RowChange

variable {κ ρ ε α : Type} [DecidableEq κ]

/-- The change seen from the row under `k`. -/
def on (c : RowChange κ ρ) (k : κ) (row : Option ρ) : Option ρ :=
  if c.key = k then c.after row else row

theorem on_ne (c : RowChange κ ρ) {k : κ} (h : c.key ≠ k) (row : Option ρ) :
    c.on k row = row :=
  if_neg h

/-- The statement `f` makes the change `c` and no other. -/
structure Describes (c : RowChange κ ρ) (f : Table κ ρ → Except ε (Table κ ρ)) : Prop where
  accepts : ∀ t, (∃ t', f t = .ok t') ↔ c.Fits (t.lookup c.key)
  lookup : ∀ {t t'}, f t = .ok t' → ∀ k, t'.lookup k = c.on k (t.lookup k)
  rejects : ∀ {t t' e}, t'.lookup c.key = t.lookup c.key → f t = .error e → f t' = .error e

theorem describes_upsert (k : κ) (row : ρ) (onConflict : ρ → ρ) :
    (⟨k, fun _ => True, fun old => some (old.elim row onConflict)⟩ : RowChange κ ρ).Describes
      (fun t => (.ok (t.upsert k row onConflict) : Except ε (Table κ ρ))) where
  accepts t := by simp
  lookup := by
    intro t t' h k'
    cases h
    rw [on, Table.lookup_upsert]
  rejects := by
    intro t t' e _ h
    cases h

theorem describes_update (k : κ) {set : ρ → Except ε ρ} {P : ρ → Prop} {total : ρ → ρ}
    (hset : ∀ row row', set row = .ok row' ↔ P row ∧ row' = total row) :
    (⟨k, fun old => ∀ row, old = some row → P row, Option.map total⟩ :
      RowChange κ ρ).Describes (·.update k set) where
  accepts t := by
    rw [Table.update_isOk_iff]
    simp only [hset, exists_and_left, exists_eq, and_true]
  lookup := by
    intro t t' h k'
    rw [on]
    exact Table.lookup_update_of_total h (fun row row' hs => ((hset row row').mp hs).2) k'
  rejects := Table.update_error_congr

/-- An update that no row refuses. -/
theorem describes_map (k : κ) {set : ρ → Except ε ρ} {total : ρ → ρ}
    (hset : ∀ row, set row = .ok (total row)) :
    (⟨k, fun _ => True, Option.map total⟩ : RowChange κ ρ).Describes (·.update k set) where
  accepts t := by
    rw [Table.update_isOk_iff]
    simp [hset]
  lookup := by
    intro t t' h k'
    rw [on]
    refine Table.lookup_update_of_total h (fun row row' hs => ?_) k'
    rw [hset] at hs
    exact (Except.ok.inj hs).symm
  rejects := Table.update_error_congr

/-- Whether the statement is accepted, and with which error it is not, depends
on the row alone. -/
theorem Describes.verdict_eq {c : RowChange κ ρ} {f : Table κ ρ → Except ε (Table κ ρ)}
    (h : c.Describes f) {t t' : Table κ ρ} (hl : t'.lookup c.key = t.lookup c.key) :
    (f t').map (fun _ => ()) = (f t).map fun _ => () := by
  cases hf : f t with
  | error e => rw [h.rejects hl hf]
  | ok t₁ =>
      have hfits := (h.accepts t).mp ⟨t₁, hf⟩
      rw [← hl] at hfits
      obtain ⟨t₂, hf'⟩ := (h.accepts t').mpr hfits
      rw [hf']
      rfl

/-! ## Histories -/

/-- One entry of a history, seen from the row under `k`. -/
def step (pick : α → Option (RowChange κ ρ)) (k : κ) (row : Option ρ) (a : α) : Option ρ :=
  (pick a).elim row fun c => c.on k row

/-- A history of entries, seen from the row under `k`. -/
def replay (pick : α → Option (RowChange κ ρ)) (k : κ) (l : List α) (row : Option ρ) :
    Option ρ :=
  l.foldl (step pick k) row

/-- The entry changes the row under `k`. -/
def Names (pick : α → Option (RowChange κ ρ)) (k : κ) (a : α) : Prop :=
  ∃ c, pick a = some c ∧ c.key = k

instance (pick : α → Option (RowChange κ ρ)) (k : κ) (a : α) : Decidable (Names pick k a) :=
  match h : pick a with
  | none => isFalse fun ⟨c, hc, _⟩ => by simp [h] at hc
  | some c => decidable_of_iff (c.key = k) <| by
      simp only [Names, h, Option.some.injEq, exists_eq_left']

variable {pick : α → Option (RowChange κ ρ)} {k : κ}

@[simp] theorem replay_nil (row : Option ρ) : replay pick k [] row = row := rfl

@[simp] theorem replay_cons (a : α) (l : List α) (row : Option ρ) :
    replay pick k (a :: l) row = replay pick k l (step pick k row a) := rfl

theorem replay_append (l₁ l₂ : List α) (row : Option ρ) :
    replay pick k (l₁ ++ l₂) row = replay pick k l₂ (replay pick k l₁ row) :=
  List.foldl_append ..

theorem step_of_names {a : α} {c : RowChange κ ρ} (hc : pick a = some c) (hk : c.key = k)
    (row : Option ρ) : step pick k row a = c.after row := by
  rw [step, hc, Option.elim_some, on, if_pos hk]

theorem step_of_not_names {a : α} (h : ¬ Names pick k a) (row : Option ρ) :
    step pick k row a = row := by
  rw [step]
  cases hc : pick a with
  | none => rfl
  | some c => exact on_ne c (fun hk => h ⟨c, hc, hk⟩) row

/-- Only the entries that name the row count. -/
theorem replay_filter_names (l : List α) (row : Option ρ) :
    replay pick k (l.filter (fun a => Names pick k a)) row = replay pick k l row := by
  refine (Replay.foldl_filter (p := fun a => decide (Names pick k a)) ?_ l row).symm
  intro a row h
  exact step_of_not_names (by simpa using h) row

theorem replay_of_not_names {l : List α} (h : ∀ a ∈ l, ¬ Names pick k a) (row : Option ρ) :
    replay pick k l row = row := by
  induction l generalizing row with
  | nil => rfl
  | cons a l ih =>
      rw [replay_cons, step_of_not_names (h a List.mem_cons_self)]
      exact ih (fun b hb => h b (List.mem_cons_of_mem _ hb)) row

/-- A replay is a fold over the changes that are the row's own. -/
theorem replay_eq_foldl {γ : Type} {own : α → Option γ} {change : γ → RowChange κ ρ}
    (hown : ∀ a v, own a = some v → pick a = some (change v) ∧ (change v).key = k)
    (hother : ∀ a, own a = none → ¬ Names pick k a) (l : List α) (row : Option ρ) :
    replay pick k l row = (l.filterMap own).foldl (fun row v => (change v).after row) row := by
  induction l generalizing row with
  | nil => rfl
  | cons a l ih =>
      rw [replay_cons, ih, List.filterMap_cons]
      cases ha : own a with
      | none => rw [step_of_not_names (hother a ha)]
      | some v => rw [step_of_names (hown a v ha).1 (hown a v ha).2, List.foldl_cons]

/-- **Row view of a run**: if every accepted entry changes the table as `pick`
says, an accepted run replays the history at every row. -/
theorem foldlM_lookup {σ : Type} {run : σ → α → Except ε σ} {view : σ → Table κ ρ}
    (hrun : ∀ a s s', run s a = .ok s' →
      (view s').lookup k = step pick k ((view s).lookup k) a) {l : List α} {s s' : σ}
    (h : l.foldlM run s = .ok s') :
    (view s').lookup k = replay pick k l ((view s).lookup k) :=
  Replay.foldlM_view (v := fun s => (view s).lookup k) hrun h

/-- Either nothing in the history names the row, or there is a first entry that
does. -/
theorem names_cases (pick : α → Option (RowChange κ ρ)) (k : κ) (l : List α) :
    (∀ a ∈ l, ¬ Names pick k a) ∨
      ∃ l₁ a l₂, l = l₁ ++ a :: l₂ ∧ (∀ x ∈ l₁, ¬ Names pick k x) ∧ Names pick k a := by
  induction l with
  | nil => exact .inl (by simp)
  | cons a l ih =>
      by_cases ha : Names pick k a
      · exact .inr ⟨[], a, l, rfl, by simp, ha⟩
      · rcases ih with h | ⟨l₁, b, l₂, rfl, h, hb⟩
        · refine .inl fun x hx => ?_
          rcases List.mem_cons.mp hx with rfl | hx
          · exact ha
          · exact h x hx
        · refine .inr ⟨a :: l₁, b, l₂, rfl, fun x hx => ?_, hb⟩
          rcases List.mem_cons.mp hx with rfl | hx
          · exact ha
          · exact h x hx

omit [DecidableEq κ] in
/-- Behind the first entry that names the row are all others that do. -/
theorem mem_behind_first {l₁ l₂ : List α} {a x : α} (hl₁ : ∀ x ∈ l₁, ¬ Names pick k x)
    (hx : x ∈ l₁ ++ a :: l₂) (hname : Names pick k x) (hne : x ≠ a) : x ∈ l₂ := by
  rcases List.mem_append.mp hx with hx | hx
  · exact absurd hname (hl₁ x hx)
  · exact (List.mem_cons.mp hx).resolve_left hne

omit [DecidableEq κ] in
/-- There is only one first entry. -/
theorem first_unique {l₁ l₂ l₃ l₄ : List α} {a b : α} (heq : l₁ ++ a :: l₂ = l₃ ++ b :: l₄)
    (hl₁ : ∀ x ∈ l₁, ¬ Names pick k x) (hl₃ : ∀ x ∈ l₃, ¬ Names pick k x)
    (ha : Names pick k a) (hb : Names pick k b) : l₁ = l₃ ∧ a = b := by
  rcases List.append_eq_append_iff.mp heq with ⟨m, hm, htail⟩ | ⟨m, hm, htail⟩
  · cases m with
    | nil =>
        obtain ⟨rfl, _⟩ := List.cons.inj htail
        exact ⟨by simpa using hm.symm, rfl⟩
    | cons z m =>
        obtain ⟨rfl, _⟩ := List.cons.inj htail
        exact absurd ha (hl₃ a (by rw [hm]; simp))
  · cases m with
    | nil =>
        obtain ⟨rfl, _⟩ := List.cons.inj htail
        exact ⟨by simpa using hm, rfl⟩
    | cons z m =>
        obtain ⟨rfl, _⟩ := List.cons.inj htail
        exact absurd hb (hl₁ b (by rw [hm]; simp))

/-! ## Replaying over rows already there

`f` is the part of a row that a change computes from. A change respects `f`
when rows that agree on it still do afterwards, and overwrites the rest when
they then agree altogether; it opens a row when it sets `f` afresh, whatever was
there. -/

section Agree
variable {β : Type} (f : ρ → β)

def Respects (c : RowChange κ ρ) : Prop :=
  ∀ r r', f r = f r' → (c.after (some r)).map f = (c.after (some r')).map f

def Overwrites (c : RowChange κ ρ) : Prop :=
  ∀ r r', f r = f r' → c.after (some r) = c.after (some r')

def Opens (c : RowChange κ ρ) : Prop :=
  ∀ row, (c.after row).map f = (c.after none).map f

variable {f}

theorem Respects.step {a : α} (h : ∀ c, pick a = some c → c.key = k → c.Respects f)
    {b b' : Option ρ} (hb : b.map f = b'.map f) :
    (step pick k b a).map f = (step pick k b' a).map f := by
  by_cases hn : Names pick k a
  · obtain ⟨c, hc, hk⟩ := hn
    rw [step_of_names hc hk, step_of_names hc hk]
    cases b with
    | none =>
        cases b' with
        | none => rfl
        | some r' => cases hb
    | some r =>
        cases b' with
        | none => cases hb
        | some r' => exact h c hc hk r r' (by simpa using hb)
  · rw [step_of_not_names hn, step_of_not_names hn]
    exact hb

/-- Rows that agree on `f` agree on it after any history that respects it. -/
theorem replay_map_eq {l : List α}
    (h : ∀ a ∈ l, ∀ c, pick a = some c → c.key = k → c.Respects f)
    {b b' : Option ρ} (hb : b.map f = b'.map f) :
    (replay pick k l b).map f = (replay pick k l b').map f := by
  induction l generalizing b b' with
  | nil => exact hb
  | cons a l ih =>
      exact ih (fun x hx => h x (List.mem_cons_of_mem _ hx))
        (Respects.step (h a List.mem_cons_self) hb)

/-- They agree altogether once an entry overwrites the rest. -/
theorem replay_eq_of_overwrites {l : List α}
    (h : ∀ a ∈ l, ∀ c, pick a = some c → c.key = k → c.Respects f)
    {b b' : Option ρ} (hb : b.map f = b'.map f)
    (hl : (∃ a ∈ l, ∃ c, pick a = some c ∧ c.key = k ∧ c.Overwrites f) ∨ b = b') :
    replay pick k l b = replay pick k l b' := by
  refine Replay.foldl_eq_of_overwrite (R := fun b b' => b.map f = b'.map f)
    (W := fun a => ∃ c, pick a = some c ∧ c.key = k ∧ c.Overwrites f)
    (fun a ha b b' => Respects.step (h a ha)) ?_ hb hl
  rintro a _ b b' ⟨c, hc, hk, hw⟩ hb
  rw [step_of_names hc hk, step_of_names hc hk]
  cases b with
  | none =>
      cases b' with
      | none => rfl
      | some r' => cases hb
  | some r =>
      cases b' with
      | none => cases hb
      | some r' => exact hw r r' (by simpa using hb)

end Agree

/-- The first entry that names the row opens it. -/
def Opened {β : Type} (f : ρ → β) (pick : α → Option (RowChange κ ρ)) (k : κ) (l : List α) :
    Prop :=
  ∀ l₁ a l₂ c, l = l₁ ++ a :: l₂ → (∀ x ∈ l₁, ¬ Names pick k x) →
    pick a = some c → c.key = k → c.Opens f

omit [DecidableEq κ] in
theorem Opened.of_isPrefix {β : Type} {f : ρ → β} {l l' : List α}
    (h : Opened f pick k l') (hl : l <+: l') : Opened f pick k l := by
  intro l₁ a l₂ c heq
  obtain ⟨t, rfl⟩ := hl
  exact h l₁ a (l₂ ++ t) c (by rw [heq]; simp)

/-- **A history that opens the row** leaves the same `f`, whatever was there
before. -/
theorem Opened.map_eq {β : Type} {f : ρ → β} {l : List α} (ho : Opened f pick k l)
    (h : ∀ a ∈ l, ∀ c, pick a = some c → c.key = k → c.Respects f) {a : α} (ha : a ∈ l)
    (hn : Names pick k a) (row : Option ρ) :
    (replay pick k l row).map f = (replay pick k l none).map f := by
  rcases names_cases pick k l with hnone | ⟨l₁, b, l₂, rfl, hl₁, ⟨c, hc, hk⟩⟩
  · exact absurd hn (hnone a ha)
  · rw [replay_append, replay_append, replay_of_not_names hl₁, replay_of_not_names hl₁,
      replay_cons, replay_cons, step_of_names hc hk, step_of_names hc hk]
    refine replay_map_eq (fun x hx => h x ?_) (ho l₁ b l₂ c rfl hl₁ hc hk row)
    exact List.mem_append_right _ (List.mem_cons_of_mem _ hx)

/-! ## Applying a growing history again and again -/

/-- What makes replays of one history meet at the row under `k`: its first entry
opens the row, `J` is what replays of its first parts leave of the row outside
`f`, and either that is what the first entry leaves anyway or a later entry
overwrites it. -/
structure Rebuilds {β : Type} (f : ρ → β) (J : ρ → Prop)
    (pick : α → Option (RowChange κ ρ)) (k : κ) (l : List α) : Prop where
  opened : Opened f pick k l
  respects : ∀ a ∈ l, ∀ c, pick a = some c → c.key = k → c.Respects f
  keeps : ∀ a ∈ l, ∀ c, pick a = some c → c.key = k → ∀ r, J r →
    ∃ r', c.after (some r) = some r' ∧ J r'
  starts : ∀ l₁ a l₂ c, l = l₁ ++ a :: l₂ → (∀ x ∈ l₁, ¬ Names pick k x) →
    pick a = some c → c.key = k → ∃ r, c.after none = some r ∧ J r
  settles : ∀ l₁ a l₂ c, l = l₁ ++ a :: l₂ → (∀ x ∈ l₁, ¬ Names pick k x) →
    pick a = some c → c.key = k →
    (∃ x ∈ l₂, ∃ d, pick x = some d ∧ d.key = k ∧ d.Overwrites f) ∨
      ∀ r, J r → c.after (some r) = c.after none

namespace Rebuilds

variable {β : Type} {f : ρ → β} {J : ρ → Prop} {l : List α}

/-- One more replay of a first part of the history keeps `J`. -/
theorem keeps_replay (h : Rebuilds f J pick k l) {p : List α} (hp : p <+: l) {row : Option ρ}
    (hrow : ∀ r, row = some r → J r) : ∀ r, replay pick k p row = some r → J r := by
  rcases names_cases pick k p with hnone | ⟨l₁, a, l₂, rfl, hl₁, ⟨c, hc, hk⟩⟩
  · rw [replay_of_not_names hnone]
    exact hrow
  obtain ⟨t, rfl⟩ := hp
  have hmem : ∀ x ∈ a :: l₂, x ∈ (l₁ ++ a :: l₂) ++ t := fun x hx =>
    List.mem_append_left _ (List.mem_append_right _ hx)
  have hfirst : ∃ r, c.after row = some r ∧ J r := by
    cases row with
    | none => exact h.starts l₁ a (l₂ ++ t) c (by simp) hl₁ hc hk
    | some r => exact h.keeps a (hmem a List.mem_cons_self) c hc hk r (hrow r rfl)
  have hrest : ∃ r, replay pick k l₂ (c.after row) = some r ∧ J r := by
    refine Replay.foldl_invariant (P := fun b => ∃ r, b = some r ∧ J r) ?_ hfirst
    intro x hx b h
    obtain ⟨r, hb, hr⟩ := h
    subst hb
    by_cases hn : Names pick k x
    · obtain ⟨d, hd, hdk⟩ := hn
      rw [step_of_names hd hdk]
      exact h.keeps x (hmem x (List.mem_cons_of_mem _ hx)) d hd hdk r hr
    · rw [step_of_not_names hn]
      exact ⟨r, rfl, hr⟩
  rw [replay_append, replay_of_not_names hl₁, replay_cons, step_of_names hc hk]
  intro r hr
  obtain ⟨r', hr', hJ⟩ := hrest
  rw [hr] at hr'
  cases hr'
  exact hJ

/-- **Replays meet**: after any replays of first parts of the history, one
replay of all of it leaves what a single replay leaves. -/
theorem replay_flatten (h : Rebuilds f J pick k l) {ps : List (List α)}
    (hps : ∀ p ∈ ps, p <+: l) :
    replay pick k (ps.flatten ++ l) none = replay pick k l none := by
  have hJ : ∀ r, replay pick k ps.flatten none = some r → J r := by
    induction ps using List.reverseRecOn with
    | nil => simp
    | append_singleton ps p ih =>
        rw [List.flatten_append, replay_append, List.flatten_singleton]
        exact h.keeps_replay (hps p (by simp)) (ih fun q hq => hps q (by simp [hq]))
  rw [replay_append]
  rcases names_cases pick k l with hnone | ⟨l₁, a, l₂, hl, hl₁, ⟨c, hc, hk⟩⟩
  · rw [replay_of_not_names hnone, replay_of_not_names hnone]
    apply replay_of_not_names
    intro x hx
    obtain ⟨p, hp, hxp⟩ := List.mem_flatten.mp hx
    exact hnone x ((hps p hp).subset hxp)
  · have hresp : ∀ x ∈ l₂, ∀ d, pick x = some d → d.key = k → d.Respects f := by
      intro x hx
      exact h.respects x (hl ▸ List.mem_append_right _ (List.mem_cons_of_mem _ hx))
    generalize replay pick k ps.flatten none = row at hJ
    have hopen := h.opened l₁ a l₂ c hl hl₁ hc hk row
    have hset := h.settles l₁ a l₂ c hl hl₁ hc hk
    rw [hl, replay_append, replay_append, replay_of_not_names hl₁, replay_of_not_names hl₁,
      replay_cons, replay_cons, step_of_names hc hk, step_of_names hc hk]
    refine replay_eq_of_overwrites hresp hopen (hset.imp_right fun heq => ?_)
    cases row with
    | none => rfl
    | some r => exact heq r (hJ r rfl)

end Rebuilds

end RowChange
