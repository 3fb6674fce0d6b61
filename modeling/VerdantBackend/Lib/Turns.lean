import VerdantBackend.Lib.RowChange

/-!
# Readers taking turns

Several readers go through one history, and each applies what it reads to the same
row, one entry at a time and in any order. A part `f` of the row can be followed
through the turns when every entry sets it afresh, keeps it, or comes from the
reader that set it last: it is then what this reader's own entries leave.
-/

namespace Turns

open RowChange

variable {ι α κ ρ β : Type} [DecidableEq ι] [DecidableEq κ]

/-- What the reader did, in order. -/
def doneBy (i : ι) (turns : List (ι × α)) : List α :=
  (turns.filter fun t => t.1 = i).map Prod.snd

/-- The reader of the last entry in `p`. -/
def lastBy (p : α → Prop) [DecidablePred p] (turns : List (ι × α)) : Option ι :=
  (turns.filter fun t => p t.2).getLast?.map Prod.fst

@[simp] theorem doneBy_nil (i : ι) : doneBy i ([] : List (ι × α)) = [] := rfl

@[simp] theorem doneBy_concat_self (i : ι) (turns : List (ι × α)) (a : α) :
    doneBy i (turns ++ [(i, a)]) = doneBy i turns ++ [a] := by
  simp [doneBy]

theorem doneBy_concat_ne {i j : ι} (h : j ≠ i) (turns : List (ι × α)) (a : α) :
    doneBy i (turns ++ [(j, a)]) = doneBy i turns := by
  simp [doneBy, h]

theorem doneBy_isPrefix_concat (i j : ι) (turns : List (ι × α)) (a : α) :
    doneBy i turns <+: doneBy i (turns ++ [(j, a)]) := by
  by_cases h : j = i
  · subst h
    rw [doneBy_concat_self]
    exact List.prefix_append _ _
  · rw [doneBy_concat_ne h]

omit [DecidableEq ι] in
theorem lastBy_concat (p : α → Prop) [DecidablePred p] (turns : List (ι × α)) (j : ι) (a : α) :
    lastBy p (turns ++ [(j, a)]) = if p a then some j else lastBy p turns := by
  by_cases h : p a <;> simp [lastBy, h]

section
variable (pick : α → Option (RowChange κ ρ)) (k : κ)

/-- The row after all turns. -/
def row (turns : List (ι × α)) : Option ρ := replay pick k (turns.map Prod.snd) none

/-- The row that the reader would have left alone. -/
def own (i : ι) (turns : List (ι × α)) : Option ρ := replay pick k (doneBy i turns) none

/-- The part `f` of the row is what the owner's entries leave of it. Without an
owner there is no row, and nobody has named it. -/
inductive Agrees (f : ρ → β) (turns : List (ι × α)) : Option ι → Prop where
  | fresh : row pick k turns = none → (∀ i, ∀ a ∈ doneBy i turns, ¬ Names pick k a) →
      Agrees f turns none
  | owned {i r r'} : row pick k turns = some r → own pick k i turns = some r' → f r = f r' →
      Agrees f turns (some i)

end

/-- The change sets `f` whatever row it finds. -/
def Writes (f : ρ → β) (c : RowChange κ ρ) : Prop :=
  ∀ r r', (c.after (some r)).map f = (c.after (some r')).map f

/-- The change leaves `f` of a row alone. -/
def Keeps (f : ρ → β) (c : RowChange κ ρ) : Prop :=
  ∀ r, (c.after (some r)).map f = some (f r)

/-- The change deletes no row. -/
def Total (c : RowChange κ ρ) : Prop := ∀ r, (c.after (some r)).isSome

variable {pick : α → Option (RowChange κ ρ)} {k : κ} {f : ρ → β} {turns : List (ι × α)}
  {i j : ι} {a : α} {c : RowChange κ ρ}

omit [DecidableEq ι] in
theorem row_concat : row pick k (turns ++ [(j, a)]) = step pick k (row pick k turns) a := by
  rw [row, List.map_append, replay_append]
  rfl

theorem own_concat_self :
    own pick k j (turns ++ [(j, a)]) = step pick k (own pick k j turns) a := by
  rw [own, doneBy_concat_self, replay_append]
  rfl

theorem own_concat_ne (h : j ≠ i) : own pick k i (turns ++ [(j, a)]) = own pick k i turns := by
  rw [own, doneBy_concat_ne h, own]

/-! ## One turn -/

theorem Agrees.start : Agrees pick k f ([] : List (ι × α)) none :=
  .fresh rfl fun _ _ h => absurd h List.not_mem_nil

/-- An entry about other rows. -/
theorem Agrees.idle {o : Option ι} (h : Agrees pick k f turns o) (ha : ¬ Names pick k a) :
    Agrees pick k f (turns ++ [(j, a)]) o := by
  have hrow : row pick k (turns ++ [(j, a)]) = row pick k turns := by
    rw [row_concat, step_of_not_names ha]
  cases h with
  | fresh hnone hnames =>
      refine .fresh (hrow.trans hnone) fun i x hx => ?_
      by_cases hji : j = i
      · subst hji
        rw [doneBy_concat_self] at hx
        rcases List.mem_append.mp hx with hx | hx
        · exact hnames j x hx
        · rw [List.mem_singleton.mp hx]
          exact ha
      · rw [doneBy_concat_ne hji] at hx
        exact hnames i x hx
  | @owned i r r' hr hown hf =>
      refine .owned (hrow.trans hr) ?_ hf
      by_cases hji : j = i
      · subst hji
        rw [own_concat_self, step_of_not_names ha, hown]
      · rw [own_concat_ne hji, hown]

/-- The entry leaves the same of a row as of the reader's own. -/
theorem Agrees.taken (hc : pick a = some c) (hk : c.key = k)
    (hrow : (c.after (row pick k turns)).isSome)
    (hsame : (c.after (row pick k turns)).map f = (c.after (own pick k j turns)).map f) :
    Agrees pick k f (turns ++ [(j, a)]) (some j) := by
  obtain ⟨r, hr⟩ := Option.isSome_iff_exists.mp hrow
  rw [hr, Option.map_some] at hsame
  obtain ⟨r', hr', hf⟩ := Option.map_eq_some_iff.mp hsame.symm
  have hlast : row pick k (turns ++ [(j, a)]) = some r := by
    rw [row_concat, step_of_names hc hk, hr]
  have hown : own pick k j (turns ++ [(j, a)]) = some r' := by
    rw [own_concat_self, step_of_names hc hk, hr']
  exact .owned hlast hown hf.symm

/-- The entry sets `f` afresh. -/
theorem Agrees.opens {o : Option ι} (_ : Agrees pick k f turns o) (hc : pick a = some c)
    (hk : c.key = k) (hsome : (c.after none).isSome) (hopens : c.Opens f) :
    Agrees pick k f (turns ++ [(j, a)]) (some j) := by
  refine .taken hc hk ?_ ((hopens _).trans (hopens _).symm)
  have h := congrArg Option.isSome (hopens (row pick k turns))
  rw [Option.isSome_map, Option.isSome_map] at h
  rw [h]
  exact hsome

/-- The first entry about the row. -/
theorem Agrees.first (h : Agrees pick k f turns none) (hc : pick a = some c) (hk : c.key = k)
    (hsome : (c.after none).isSome) : Agrees pick k f (turns ++ [(j, a)]) (some j) := by
  cases h with
  | fresh hnone hnames =>
      have hown : own pick k j turns = none := replay_of_not_names (hnames j) none
      refine .taken hc hk ?_ ?_
      · rw [hnone]
        exact hsome
      · rw [hnone, hown]

/-- The entry sets `f` of a row. -/
theorem Agrees.writes (h : Agrees pick k f turns (some i)) (hc : pick a = some c)
    (hk : c.key = k) (htotal : Total c) (hwrites : Writes f c)
    (hown : (own pick k j turns).isSome) : Agrees pick k f (turns ++ [(j, a)]) (some j) := by
  obtain ⟨r', hr'⟩ := Option.isSome_iff_exists.mp hown
  cases h with
  | owned hr _ _ =>
      refine .taken hc hk ?_ ?_
      · rw [hr]
        exact htotal _
      · rw [hr, hr']
        exact hwrites _ _

/-- The entry comes from the owner. -/
theorem Agrees.by_owner (h : Agrees pick k f turns (some j)) (hc : pick a = some c)
    (hk : c.key = k) (htotal : Total c) (hrespects : c.Respects f) :
    Agrees pick k f (turns ++ [(j, a)]) (some j) := by
  cases h with
  | owned hr hown hf =>
      refine .taken hc hk ?_ ?_
      · rw [hr]
        exact htotal _
      · rw [hr, hown]
        exact hrespects _ _ hf

/-- The entry leaves `f` of the row alone. -/
theorem Agrees.keeps (h : Agrees pick k f turns (some i)) (hc : pick a = some c)
    (hk : c.key = k) (hkeeps : Keeps f c) : Agrees pick k f (turns ++ [(j, a)]) (some i) := by
  cases h with
  | @owned _ r r' hr hown hf =>
      obtain ⟨x, hx, hfx⟩ := Option.map_eq_some_iff.mp (hkeeps r)
      have hrow : row pick k (turns ++ [(j, a)]) = some x := by
        rw [row_concat, step_of_names hc hk, hr, hx]
      by_cases hji : j = i
      · subst hji
        obtain ⟨x', hx', hfx'⟩ := Option.map_eq_some_iff.mp (hkeeps r')
        have hown' : own pick k j (turns ++ [(j, a)]) = some x' := by
          rw [own_concat_self, step_of_names hc hk, hown, hx']
        exact .owned hrow hown' (by rw [hfx, hfx', hf])
      · refine .owned hrow ?_ (hfx.trans hf)
        rw [own_concat_ne hji, hown]

/-! ## Readers of one history -/

omit [DecidableEq ι] in
/-- A row that was created is there. -/
theorem replay_isSome {l : List α}
    (hfirst : ∀ l₁ a l₂ c, l = l₁ ++ a :: l₂ → (∀ x ∈ l₁, ¬ Names pick k x) →
      pick a = some c → c.key = k → (c.after none).isSome)
    (htotal : ∀ a ∈ l, ∀ c, pick a = some c → c.key = k → Total c)
    (hnamed : ∃ a ∈ l, Names pick k a) : (replay pick k l none).isSome := by
  rcases names_cases pick k l with hnone | ⟨l₁, a, l₂, rfl, hl₁, c, hc, hk⟩
  · obtain ⟨a, ha, hn⟩ := hnamed
    exact absurd hn (hnone a ha)
  · rw [replay_append, replay_of_not_names hl₁, replay_cons, step_of_names hc hk]
    refine Replay.foldl_invariant (P := fun row => Option.isSome row) ?_
      (hfirst l₁ a l₂ c rfl hl₁ hc hk)
    intro x hx row hrow
    obtain ⟨r, rfl⟩ := Option.isSome_iff_exists.mp hrow
    by_cases hn : Names pick k x
    · obtain ⟨d, hd, hdk⟩ := hn
      rw [step_of_names hd hdk]
      exact htotal x (List.mem_append_right _ (List.mem_cons_of_mem _ hx)) d hd hdk r
    · rw [step_of_not_names hn]
      rfl

/-- In the history, the first entry that names the row creates it. -/
structure CreatesRow (creates : α → Prop) (pick : α → Option (RowChange κ ρ)) (k : κ)
    (history : List α) : Prop where
  first : ∀ l₁ a l₂, history = l₁ ++ a :: l₂ → (∀ x ∈ l₁, ¬ Names pick k x) →
    Names pick k a → creates a
  created : ∀ a ∈ history, ∀ c, pick a = some c → c.key = k → creates a → (c.after none).isSome
  total : ∀ a ∈ history, ∀ c, pick a = some c → c.key = k → Total c

section
variable {creates : α → Prop} {history : List α}

omit [DecidableEq ι] [DecidableEq κ] in
theorem CreatesRow.of_isPrefix {l : List α} (h : CreatesRow creates pick k history)
    (hl : l <+: history) : CreatesRow creates pick k l where
  first l₁ a l₂ heq := by
    obtain ⟨t, rfl⟩ := hl
    exact h.first l₁ a (l₂ ++ t) (by rw [heq]; simp)
  created a ha := h.created a (hl.subset ha)
  total a ha := h.total a (hl.subset ha)

/-- A reader that does not create the row it names has it already. -/
theorem CreatesRow.own_isSome (h : CreatesRow creates pick k history)
    (hread : doneBy j turns ++ [a] <+: history) (hn : Names pick k a) (ha : ¬ creates a) :
    (own pick k j turns).isSome := by
  have hpart := h.of_isPrefix hread
  have hdone := hpart.of_isPrefix (List.prefix_append _ _)
  refine replay_isSome ?_ hdone.total ?_
  · intro l₁ x l₂ c heq hl₁ hc hk
    have hx : x ∈ doneBy j turns := by
      rw [heq]
      simp
    exact hdone.created x hx c hc hk (hdone.first l₁ x l₂ heq hl₁ ⟨c, hc, hk⟩)
  · by_contra hnone
    refine ha (hpart.first _ a [] rfl ?_ hn)
    intro x hx hnx
    exact hnone ⟨x, hx, hnx⟩

/-- **The last one to set `f`** decides, when every entry sets or keeps it. -/
theorem CreatesRow.agrees (h : CreatesRow creates pick k history)
    (hcreate : ∀ a ∈ history, ∀ c, pick a = some c → c.key = k → creates a →
      c.Opens f ∨ Keeps f c)
    (hchange : ∀ a ∈ history, ∀ c, pick a = some c → c.key = k → ¬ creates a →
      Keeps f c ∨ Writes f c)
    (hread : ∀ i, doneBy i turns <+: history) : ∃ o, Agrees pick k f turns o := by
  induction turns using List.reverseRecOn with
  | nil => exact ⟨none, .start⟩
  | append_singleton turns t ih =>
      obtain ⟨j, a⟩ := t
      obtain ⟨o, ho⟩ := ih fun i => (doneBy_isPrefix_concat i j turns a).trans (hread i)
      by_cases hn : Names pick k a
      swap
      · exact ⟨o, ho.idle hn⟩
      have hturn := hread j
      rw [doneBy_concat_self] at hturn
      have ha : a ∈ history := hturn.subset (by simp)
      obtain ⟨c, hc, hk⟩ := hn
      by_cases hcr : creates a
      · have hsome := h.created a ha c hc hk hcr
        cases o with
        | none => exact ⟨_, ho.first hc hk hsome⟩
        | some i =>
            rcases hcreate a ha c hc hk hcr with hopens | hkeeps
            · exact ⟨_, ho.opens hc hk hsome hopens⟩
            · exact ⟨_, ho.keeps hc hk hkeeps⟩
      · have hown := h.own_isSome hturn ⟨c, hc, hk⟩ hcr
        cases o with
        | none =>
            cases ho with
            | fresh _ hnames =>
                rw [own, replay_of_not_names (hnames j)] at hown
                cases hown
        | some i =>
            rcases hchange a ha c hc hk hcr with hkeeps | hwrites
            · exact ⟨_, ho.keeps hc hk hkeeps⟩
            · exact ⟨_, ho.writes hc hk (h.total a ha c hc hk) hwrites hown⟩

/-- **The last one to create the row** decides, when nobody else changes it
before it is created again. -/
theorem CreatesRow.agrees_lastBy [DecidablePred creates] (h : CreatesRow creates pick k history)
    (hnames : ∀ a, creates a → Names pick k a)
    (hcreate : ∀ a ∈ history, ∀ c, pick a = some c → c.key = k → creates a → c.Opens f)
    (hchange : ∀ a ∈ history, ∀ c, pick a = some c → c.key = k → c.Respects f)
    (hread : ∀ i, doneBy i turns <+: history)
    (hguard : ∀ l₁ j a l₂, turns = l₁ ++ (j, a) :: l₂ → Names pick k a → ¬ creates a →
      ∀ i, lastBy creates l₁ = some i → i = j) :
    Agrees pick k f turns (lastBy creates turns) := by
  induction turns using List.reverseRecOn with
  | nil => exact .start
  | append_singleton turns t ih =>
      obtain ⟨j, a⟩ := t
      have ho := ih (fun i => (doneBy_isPrefix_concat i j turns a).trans (hread i))
        fun l₁ i x l₂ heq => hguard l₁ i x (l₂ ++ [(j, a)]) (by rw [heq]; simp)
      rw [lastBy_concat]
      by_cases hn : Names pick k a
      swap
      · rw [if_neg fun hcr => hn (hnames a hcr)]
        exact ho.idle hn
      have hturn := hread j
      rw [doneBy_concat_self] at hturn
      have ha : a ∈ history := hturn.subset (by simp)
      have hname := hn
      obtain ⟨c, hc, hk⟩ := hn
      by_cases hcr : creates a
      · rw [if_pos hcr]
        exact ho.opens hc hk (h.created a ha c hc hk hcr) (hcreate a ha c hc hk hcr)
      · rw [if_neg hcr]
        cases hlast : lastBy creates turns with
        | none =>
            rw [hlast] at ho
            have hown := h.own_isSome hturn hname hcr
            cases ho with
            | fresh _ hnone =>
                rw [own, replay_of_not_names (hnone j)] at hown
                cases hown
        | some i =>
            rw [hlast] at ho
            obtain rfl := hguard turns j a [] rfl hname hcr i hlast
            exact ho.by_owner hc hk (h.total a ha c hc hk) (hchange a ha c hc hk)

end

/-- **In the end**: when every reader did all of `p` or nothing, and some reader
did `p`, the part `f` is what one reading of `p` leaves. -/
theorem Agrees.settled {o : Option ι} {p : List α} (h : Agrees pick k f turns o)
    (hall : ∀ i, doneBy i turns = [] ∨ doneBy i turns = p) (hdone : ∃ i, doneBy i turns = p) :
    (row pick k turns).map f = (replay pick k p none).map f := by
  cases h with
  | fresh hnone hnames =>
      obtain ⟨i, rfl⟩ := hdone
      rw [hnone, replay_of_not_names (hnames i)]
  | @owned i r r' hr hown hf =>
      rcases hall i with hnil | rfl
      · rw [own, hnil] at hown
        cases hown
      · rw [own] at hown
        rw [hr, hown, Option.map_some, Option.map_some, hf]

end Turns
