import VerdantBackend.Indexer.Concurrent
import VerdantBackend.Indexer.ProjectionReplay
import VerdantBackend.Lib.Turns

/-!
# Overlapping ingests

Any number of `ingest` calls of one contract, statement by statement in any order,
over one source and from empty tables. Their passes take turns on the rows. A
verification row comes out as one pass leaves it; so does a financing row when
nobody changes it between another pass's `Created` and that pass's next event of it.
-/

namespace VerdantBackend

open Prog
open RowChange (Names Respects Opens replay)
open Turns (doneBy lastBy Keeps Writes Total CreatesRow)

/-! ## What the turns leave of a row -/

section
variable {uuid : String → Option String}

theorem VerificationChange.total (v : VerificationChange) : Total (v.toRow uuid) := by
  intro r
  cases v <;> rfl

theorem FinancingChange.total (v : FinancingChange) : Total v.toRow := by
  intro r
  cases v <;> rfl

/-- The event is the `Created` event of a verification. -/
def CreatesVerification (e : ChainEvent) : Prop :=
  ∃ contractId d, decodeEvent e = .ok (some (.verification (.created contractId d)))

/-- The event is the `Created` event of this financing row. -/
def CreatesFinancing (id : String) (e : ChainEvent) : Prop :=
  ∃ contractId d, decodeEvent e = .ok (some (.financing (.created contractId d))) ∧
    counterId FINANCING_PREFIX d.financingId = id

instance (id : String) : DecidablePred (CreatesFinancing id) := fun e =>
  match h : decodeEvent e with
  | .ok (some (.financing (.created contractId d))) =>
    decidable_of_iff (counterId FINANCING_PREFIX d.financingId = id) <| by
      simp [CreatesFinancing, h]
  | .ok (some (.financing (.deposited d))) => isFalse (by simp [CreatesFinancing, h])
  | .ok (some (.financing (.released d))) => isFalse (by simp [CreatesFinancing, h])
  | .ok (some (.financing (.refunded d))) => isFalse (by simp [CreatesFinancing, h])
  | .ok (some (.verification v)) => isFalse (by simp [CreatesFinancing, h])
  | .ok (some (.escrow v)) => isFalse (by simp [CreatesFinancing, h])
  | .ok (some (.identity v)) => isFalse (by simp [CreatesFinancing, h])
  | .ok none => isFalse (by simp [CreatesFinancing, h])
  | .error err => isFalse (by simp [CreatesFinancing, h])

theorem CreatesFinancing.names {id : String} {e : ChainEvent} (h : CreatesFinancing id e) :
    Names financingChange id e := by
  obtain ⟨contractId, d, he, hid⟩ := h
  exact ⟨_, financingChange_eq_some.mpr ⟨_, he, rfl⟩, hid⟩

variable (uuid) in
theorem CreatedFirst.createsVerification {history : List ChainEvent} (h : CreatedFirst history)
    (id : String) : CreatesRow CreatesVerification (verificationChange uuid) id history where
  first := by
    intro l₁ e l₂ heq hl₁ h
    obtain ⟨c, hc, hk⟩ := h
    obtain ⟨v, hv, rfl⟩ := verificationChange_eq_some.mp hc
    obtain ⟨contractId, d, rfl⟩ := (h.createdFor _).verification heq hv (hk ▸ hl₁)
    exact ⟨contractId, d, hv⟩
  created := by
    intro e _ c hc _ h
    obtain ⟨contractId, d, he⟩ := h
    obtain ⟨v, hv, rfl⟩ := verificationChange_eq_some.mp hc
    rw [he] at hv
    cases hv
    rfl
  total := by
    intro e _ c hc _
    obtain ⟨v, _, rfl⟩ := verificationChange_eq_some.mp hc
    exact v.total

theorem CreatedFirst.createsFinancing {history : List ChainEvent} (h : CreatedFirst history)
    (id : String) : CreatesRow (CreatesFinancing id) financingChange id history where
  first := by
    intro l₁ e l₂ heq hl₁ h
    obtain ⟨c, hc, hk⟩ := h
    obtain ⟨v, hv, rfl⟩ := financingChange_eq_some.mp hc
    obtain ⟨contractId, d, rfl⟩ := (h.createdFor _).financing heq hv (hk ▸ hl₁)
    exact ⟨contractId, d, hv, hk⟩
  created := by
    intro e _ c hc _ h
    obtain ⟨contractId, d, he, _⟩ := h
    obtain ⟨v, hv, rfl⟩ := financingChange_eq_some.mp hc
    rw [he] at hv
    cases hv
    rfl
  total := by
    intro e _ c hc _
    obtain ⟨v, _, rfl⟩ := financingChange_eq_some.mp hc
    exact v.total

/-- The revocation, which no upsert sets. -/
def VerificationRow.revocation (r : VerificationRow) : Bool × Option Int :=
  (r.revoked, r.revokedLedger)

theorem VerificationRow.ext_base {r r' : VerificationRow} (hbase : r.base = r'.base)
    (hrev : r.revocation = r'.revocation) : r = r' := by
  cases r
  cases r'
  simp_all [VerificationRow.base, VerificationRow.revocation]

theorem FinancingRow.ext_base {r r' : FinancingRow} (hbase : r.base = r'.base)
    (hstatus : r.status = r'.status) : r = r' := by
  rw [FinancingRow.base_eq_iff] at hbase
  rw [← hbase, ← hstatus]

/-- Two rows that agree in two parts agree. -/
theorem option_ext_parts {ρ β γ : Type} {f : ρ → β} {g : ρ → γ}
    (hext : ∀ r r', f r = f r' → g r = g r' → r = r') {row row' : Option ρ}
    (hf : row.map f = row'.map f) (hg : row.map g = row'.map g) : row = row' := by
  cases row with
  | none =>
      cases row' with
      | none => rfl
      | some r' => cases hf
  | some r =>
      cases row' with
      | none => cases hf
      | some r' => rw [hext r r' (by simpa using hf) (by simpa using hg)]

variable {ι : Type} [DecidableEq ι] {turns : List (ι × ChainEvent)} {history p : List ChainEvent}

/-- **Verification rows come out alike**, whatever the order of the turns. -/
theorem verification_settled (hfirst : CreatedFirst history)
    (hread : ∀ i, doneBy i turns <+: history)
    (hall : ∀ i, doneBy i turns = [] ∨ doneBy i turns = p) (hdone : ∃ i, doneBy i turns = p)
    (id : String) :
    Turns.row (verificationChange uuid) id turns = replay (verificationChange uuid) id p none := by
  have hcreates := hfirst.createsVerification uuid id
  have hchange : ∀ e ∈ history, ∀ c, verificationChange uuid e = some c → c.key = id →
      (CreatesVerification e → c.Opens VerificationRow.base ∧
        Keeps VerificationRow.revocation c) ∧
      (¬ CreatesVerification e → Keeps VerificationRow.base c ∧
        Writes VerificationRow.revocation c) := by
    intro e _ c hc _
    obtain ⟨v, hv, rfl⟩ := verificationChange_eq_some.mp hc
    cases v with
    | created contractId d =>
        exact ⟨fun _ => ⟨VerificationChange.created_opens contractId d, fun _ => rfl⟩,
          fun h => absurd ⟨contractId, d, hv⟩ h⟩
    | revoked d =>
        refine ⟨fun ⟨contractId, d', h⟩ => ?_, fun _ => ⟨fun _ => rfl, fun _ _ => rfl⟩⟩
        rw [hv] at h
        cases h
  obtain ⟨o, hbase⟩ := hcreates.agrees (f := VerificationRow.base)
    (fun e he c hc hk h => .inl ((hchange e he c hc hk).1 h).1)
    (fun e he c hc hk h => .inl ((hchange e he c hc hk).2 h).1) hread
  obtain ⟨o', hrev⟩ := hcreates.agrees (f := VerificationRow.revocation)
    (fun e he c hc hk h => .inr ((hchange e he c hc hk).1 h).2)
    (fun e he c hc hk h => .inr ((hchange e he c hc hk).2 h).2) hread
  exact option_ext_parts (fun _ _ => VerificationRow.ext_base) (hbase.settled hall hdone)
    (hrev.settled hall hdone)

/-- Only the one that created a financing row last makes its other changes. -/
def Guarded (turns : List (ι × ChainEvent)) : Prop :=
  ∀ l₁ i e l₂ v, turns = l₁ ++ (i, e) :: l₂ → decodeEvent e = .ok (some (.financing v)) →
    (Change.financing v).isCreated = false →
    ∀ j, lastBy (CreatesFinancing v.toRow.key) l₁ = some j → j = i

/-- What the row takes from its last creator. -/
theorem Guarded.agrees_base (h : Guarded turns) (hfirst : CreatedFirst history)
    (hread : ∀ i, doneBy i turns <+: history) (id : String) :
    Turns.Agrees financingChange id FinancingRow.base turns
      (lastBy (CreatesFinancing id) turns) := by
  refine (hfirst.createsFinancing id).agrees_lastBy (fun _ => CreatesFinancing.names) ?_ ?_ hread ?_
  · intro e _ c hc _ h
    obtain ⟨contractId, d, he, _⟩ := h
    obtain ⟨v, hv, rfl⟩ := financingChange_eq_some.mp hc
    rw [he] at hv
    cases hv
    exact FinancingChange.created_opens contractId d
  · intro e _ c hc _
    obtain ⟨v, _, rfl⟩ := financingChange_eq_some.mp hc
    exact v.respects
  · rintro l₁ j e l₂ heq ⟨c, hc, hk⟩ hcr i hlast
    obtain ⟨v, hv, rfl⟩ := financingChange_eq_some.mp hc
    subst hk
    refine h l₁ j e l₂ v heq hv ?_ i hlast
    cases v with
    | created contractId d => exact absurd ⟨contractId, d, hv, rfl⟩ hcr
    | deposited d | released d | refunded d => rfl

/-- **Guarded financing rows come out alike.** -/
theorem financing_settled (hguard : Guarded turns) (hfirst : CreatedFirst history)
    (hread : ∀ i, doneBy i turns <+: history)
    (hall : ∀ i, doneBy i turns = [] ∨ doneBy i turns = p) (hdone : ∃ i, doneBy i turns = p)
    (id : String) :
    Turns.row financingChange id turns = replay financingChange id p none := by
  obtain ⟨o, hstatus⟩ := (hfirst.createsFinancing id).agrees (f := FinancingRow.status)
    (fun e _ c hc _ ⟨contractId, d, he, _⟩ => by
      obtain ⟨v, hv, rfl⟩ := financingChange_eq_some.mp hc
      rw [he] at hv
      cases hv
      exact .inr fun _ => rfl)
    (fun e _ c hc hk hcr => by
      obtain ⟨v, hv, rfl⟩ := financingChange_eq_some.mp hc
      cases v with
      | created contractId d => exact absurd ⟨contractId, d, hv, hk⟩ hcr
      | deposited d | released d => exact .inl fun _ => rfl
      | refunded d => exact .inr fun _ _ => rfl) hread
  exact option_ext_parts (fun _ _ => FinancingRow.ext_base)
    ((hguard.agrees_base hfirst hread id).settled hall hdone) (hstatus.settled hall hdone)

end

/-! ## What a pass applies -/

/-- The events that a pass works through. -/
def EventSource.finalEvents (source : EventSource) (c : String) : List ChainEvent :=
  finalPart (source.logOf c) source.floor

/-- There is something to pull and every event of it can be stored. -/
def EventSource.Passable (source : EventSource) (c : String) : Prop :=
  source.logOf c ≠ [] ∧ ∀ e ∈ source.logOf c, e.storable = true

/-- Every event of the part is sound after those before it. -/
def Through (uuid : String → Option String) (p : List ChainEvent) : Prop :=
  ∀ l₁ e l₂, p = l₁ ++ e :: l₂ → Sound uuid Db.empty l₁ e

/-- The part of the events that one pass over empty tables applies. -/
structure WholePass (uuid : String → Option String) (history p : List ChainEvent) : Prop where
  isPrefix : p <+: history
  through : Through uuid p
  stops : ∀ e l, history = p ++ e :: l → ¬ Sound uuid Db.empty p e

section
variable {uuid : String → Option String} {history p p' : List ChainEvent}

theorem Through.concat (h : Through uuid p) {e : ChainEvent} (he : Sound uuid Db.empty p e) :
    Through uuid (p ++ [e]) := by
  intro l₁ x l₂ heq
  rcases List.eq_nil_or_concat l₂ with rfl | ⟨l, z, rfl⟩
  · obtain ⟨rfl, hx⟩ := List.append_inj' heq rfl
    cases hx
    exact he
  · rw [List.concat_eq_append, ← List.cons_append, ← List.append_assoc] at heq
    obtain ⟨hp, _⟩ := List.append_inj' heq rfl
    exact h l₁ x l hp

theorem Through.nil : Through uuid [] := by
  intro l₁ e l₂ heq
  simp at heq

theorem WholePass.le (h : WholePass uuid history p) (h' : WholePass uuid history p') :
    p <+: p' := by
  rcases List.prefix_or_prefix_of_prefix h.isPrefix h'.isPrefix with hpre | ⟨t, rfl⟩
  · exact hpre
  · cases t with
    | nil => simp
    | cons e t =>
        obtain ⟨l, hl⟩ := h.isPrefix
        have hsound := h.through p' e t rfl
        exact absurd hsound (h'.stops e (t ++ l) (by rw [← hl]; simp))

/-- It is one part. -/
theorem WholePass.unique (h : WholePass uuid history p) (h' : WholePass uuid history p') :
    p = p' :=
  (h.le h').eq_of_length_le (h'.le h).length_le

end

/-! ## Where an ingest stands -/

/-- What an `ingest` has applied, and what is left of it; `begun` once it has set
the cursor. -/
inductive PassAt (uuid : String → Option String) (c : String) (source : EventSource)
    (w : World) : Bool → List ChainEvent → Prog indexer Unit Unit → Prop where
  | ingest : PassAt uuid c source w false [] (ingestProg c)
  | read {cursor} : (cursor ≠ Cursor.START → cursorOf w.db c ≠ Cursor.START) →
      (cursor ≠ Cursor.START → source.eventsAfter c cursor = []) →
      PassAt uuid c source w false [] (readProg c cursor)
  | pulled {last} : source.logOf c ≠ [] → last ≠ Cursor.START →
      source.eventsAfter c last = [] →
      PassAt uuid c source w false [] (pulledProg c last (source.logOf c))
  | storing {last done rest} : source.logOf c = done ++ rest → source.logOf c ≠ [] →
      last ≠ Cursor.START → source.eventsAfter c last = [] →
      (∀ e ∈ done, e ∈ w.db.indexedEvents.rows ∧ e.storable = true) →
      PassAt uuid c source w false [] (storingProg c last source.floor rest)
  | selecting : source.Passable c → (∀ e ∈ source.logOf c, e ∈ w.db.indexedEvents.rows) →
      PassAt uuid c source w true [] (selectingProg c source.floor)
  | applying {done rest} : source.Passable c → source.finalEvents c = done ++ rest →
      Through uuid done → PassAt uuid c source w true done (applyingProg rest)
  | aborted {done e rest} : source.Passable c → source.finalEvents c = done ++ e :: rest →
      Through uuid done → ¬ Sound uuid Db.empty done e →
      PassAt uuid c source w true done finished
  | blocked : ¬ source.Passable c → PassAt uuid c source w false [] finished
  | idle : cursorOf w.db c ≠ Cursor.START → PassAt uuid c source w false [] finished

section
variable {uuid : String → Option String} {c : String} {source : EventSource} {w w' : World}
  {begun : Bool} {done : List ChainEvent} {prog : Prog indexer Unit Unit}

theorem PassAt.mono (h : PassAt uuid c source w begun done prog)
    (hrows : ∀ e ∈ source.logOf c, e ∈ w.db.indexedEvents.rows → e ∈ w'.db.indexedEvents.rows)
    (hcursor : cursorOf w.db c ≠ Cursor.START → cursorOf w'.db c ≠ Cursor.START) :
    PassAt uuid c source w' begun done prog := by
  cases h with
  | ingest => exact .ingest
  | read hset hnil => exact .read (fun h => hcursor (hset h)) hnil
  | pulled hne hlast hnil => exact .pulled hne hlast hnil
  | storing hlog hne hlast hnil hstored =>
      refine .storing hlog hne hlast hnil fun e he => ?_
      obtain ⟨hrow, hs⟩ := hstored e he
      exact ⟨hrows e (by rw [hlog]; exact List.mem_append_left _ he) hrow, hs⟩
  | selecting hpass hstored => exact .selecting hpass fun e he => hrows e he (hstored e he)
  | applying hpass hdone hthrough => exact .applying hpass hdone hthrough
  | aborted hpass hdone hthrough hstop => exact .aborted hpass hdone hthrough hstop
  | blocked hblocked => exact .blocked hblocked
  | idle hset => exact .idle (hcursor hset)

/-- An `ingest` that has ended applied one whole pass, or nothing. -/
theorem PassAt.ended (h : PassAt uuid c source w begun done finished) :
    (begun = true ∧ source.Passable c ∧ WholePass uuid (source.finalEvents c) done) ∨
      (begun = false ∧ done = [] ∧ (source.Passable c → cursorOf w.db c ≠ Cursor.START)) := by
  generalize hprog : (finished : Prog indexer Unit Unit) = p at h
  cases h with
  | ingest | read | pulled | selecting => cases hprog
  | @storing _ _ rest => cases rest <;> cases hprog
  | @applying _ rest hpass hdone hthrough =>
      cases rest with
      | cons e rest => cases hprog
      | nil =>
          rw [List.append_nil] at hdone
          refine .inl ⟨rfl, hpass, ⟨by rw [hdone], hthrough, ?_⟩⟩
          intro e l heq
          rw [hdone] at heq
          simp at heq
  | aborted hpass hdone hthrough hstop =>
      refine .inl ⟨rfl, hpass, ⟨⟨_, hdone.symm⟩, hthrough, ?_⟩⟩
      intro e l heq
      rw [hdone] at heq
      cases List.append_cancel_left heq
      exact hstop
  | blocked hblocked => exact .inr ⟨rfl, rfl, fun h => absurd h hblocked⟩
  | idle hset => exact .inr ⟨rfl, rfl, fun _ => hset⟩

end

/-! ## The run -/

section
variable {ι : Type}

/-- Who applied which event, in order. -/
def turnsOf : List (Happening indexer ι) → List (ι × ChainEvent)
  | [] => []
  | h :: past =>
    match h.answered with
    | some (i, .applyEvent e) => turnsOf past ++ [(i, e)]
    | _ => turnsOf past

@[simp] theorem turnsOf_unanswered {h : Happening indexer ι} {past : List (Happening indexer ι)}
    (hh : h.answered = none) : turnsOf (h :: past) = turnsOf past := by
  rw [turnsOf, hh]

@[simp] theorem turnsOf_applied (i : ι) (e : ChainEvent) (a : Bool)
    (past : List (Happening indexer ι)) :
    turnsOf (.did i ⟨IndexerStmt.applyEvent e, .ok a⟩ :: past) = turnsOf past ++ [(i, e)] := rfl

theorem turnsOf_answered {i : ι} {q : IndexerStmt} {a : q.Res}
    {past : List (Happening indexer ι)} (hq : ∀ e, q ≠ .applyEvent e) :
    turnsOf (.did i ⟨q, .ok a⟩ :: past) = turnsOf past := by
  cases q with
  | applyEvent e => exact absurd rfl (hq e)
  | selectCursor _ | eventsAfter _ _ | headLedger | insertEvent _ | upsertCursor _ _
  | selectFinalized _ _ | deleteEvents _ _ | deleteCursor _ => rfl

/-- A change of a financing row other than its `Created` comes from the ingest
that applied the row's last `Created`. -/
def Undisturbed (past : List (Happening indexer ι)) (_ : Pool indexer ι World) :
    Happening indexer ι → Prop
  | .did i ⟨.applyEvent e, _⟩ => ∀ v, decodeEvent e = .ok (some (.financing v)) →
      (Change.financing v).isCreated = false →
      ∀ j, lastBy (CreatesFinancing v.toRow.key) (turnsOf past) = some j → j = i
  | _ => True

/-- The ingest has set the cursor of `c`. -/
def SetBy (c : String) (i : ι) (past : List (Happening indexer ι)) : Prop :=
  ∃ p, Happening.did i ⟨IndexerStmt.upsertCursor c p, .ok ()⟩ ∈ past

theorem SetBy.cons {c : String} {i : ι} {past : List (Happening indexer ι)}
    {o : Happening indexer ι} (h : SetBy c i past) : SetBy c i (o :: past) := by
  obtain ⟨p, hp⟩ := h
  exact ⟨p, List.mem_cons_of_mem _ hp⟩

theorem SetBy.of_cons {c : String} {i : ι} {past : List (Happening indexer ι)}
    {o : Happening indexer ι} (h : SetBy c i (o :: past))
    (ho : ∀ p, o ≠ .did i ⟨IndexerStmt.upsertCursor c p, .ok ()⟩) : SetBy c i past := by
  obtain ⟨p, hp⟩ := h
  rcases List.mem_cons.mp hp with heq | hp
  · exact absurd heq.symm (ho p)
  · exact ⟨p, hp⟩

variable [DecidableEq ι]

/-- **Passes taking turns**: the tables are what the turns leave, and every ingest
stands in its own pass. -/
structure Overlapping (uuid : String → Option String) (c : String) (source : EventSource)
    (past : List (Happening indexer ι)) (pool : Pool indexer ι World) : Prop where
  source_eq : pool.store.source = source
  stored : ∀ e ∈ pool.store.db.indexedEvents.rows, e.contractId = c → e ∈ source.logOf c
  rows : ∀ {ρ : Type} (P : Projection uuid ρ) (id : String),
    (P.table pool.store.db).lookup id = Turns.row P.change id (turnsOf past)
  guarded : Guarded (turnsOf past)
  read : ∀ i, doneBy i (turnsOf past) <+: source.finalEvents c
  cursor : cursorOf pool.store.db c = Cursor.START ∨
    (source.eventsAfter c (cursorOf pool.store.db c) = [] ∧ ∃ i, SetBy c i past)
  procs : ∀ i p, pool.procs i = some p → ∃ begun,
    PassAt uuid c source pool.store begun (doneBy i (turnsOf past)) p ∧
      (SetBy c i past → begun = true)

variable {uuid : String → Option String} {c : String} {source : EventSource}
  {past : List (Happening indexer ι)} {pool : Pool indexer ι World} {w : World}

theorem Overlapping.start (uuid : String → Option String) (c : String) (source : EventSource) :
    Overlapping uuid c source ([] : List (Happening indexer ι))
      (Pool.start ⟨Db.empty, source⟩ fun _ => (ingest c).erase) where
  source_eq := rfl
  stored e he := absurd he List.not_mem_nil
  rows P id := P.empty id
  guarded l₁ i e l₂ v heq := by simp [turnsOf] at heq
  read i := List.nil_prefix
  cursor := .inl rfl
  procs i p hp := by
    cases hp
    refine ⟨false, ?_, fun ⟨p, hp⟩ => absurd hp List.not_mem_nil⟩
    rw [erase_ingest]
    exact .ingest

/-- Only an applied event changes a projection. -/
theorem execWorld_table {ρ : Type} (P : Projection uuid ρ) {q : IndexerStmt} {a : q.Res}
    {w w' : World} (h : execWorld uuid q w = .ok (a, w')) (hq : ∀ e, q ≠ .applyEvent e) :
    P.table w'.db = P.table w.db := by
  obtain ⟨db, hx, rfl⟩ := execWorld_ok_iff.mp h
  exact exec_table P hx hq

/-- **A statement that applies nothing.** -/
theorem Overlapping.answered (h : Overlapping uuid c source past pool) {i : ι} {q : IndexerStmt}
    {k : indexer.Answer q → Prog indexer Unit Unit} (_ : pool.procs i = some (.stmt q k))
    {a : q.Res} (hx : execWorld uuid q pool.store = .ok (a, w)) (hq : ∀ e, q ≠ .applyEvent e)
    (hdel : ∀ d, q ≠ .deleteEvents c d)
    (hinsert : ∀ e, q = .insertEvent e → e ∈ source.logOf c)
    (hcursor : cursorOf w.db c = Cursor.START ∨ (source.eventsAfter c (cursorOf w.db c) = [] ∧
      ∃ j, SetBy c j (.did i ⟨q, .ok a⟩ :: past)))
    (hkeep : cursorOf pool.store.db c ≠ Cursor.START → cursorOf w.db c ≠ Cursor.START)
    (hproc : ∃ begun, PassAt uuid c source w begun (doneBy i (turnsOf past)) (k (.ok a)) ∧
      (SetBy c i (.did i ⟨q, .ok a⟩ :: past) → begun = true)) :
    Overlapping uuid c source (.did i ⟨q, .ok a⟩ :: past) (pool.set w i (some (k (.ok a)))) where
  source_eq := by
    obtain ⟨db, _, rfl⟩ := execWorld_ok_iff.mp hx
    exact h.source_eq
  stored := by
    intro e he hc
    rcases execWorld_rows hx he with he | hqe
    · exact h.stored e he hc
    · exact hinsert e hqe
  rows := by
    intro ρ P id
    rw [turnsOf_answered hq, Pool.set_store, execWorld_table P hx hq]
    exact h.rows P id
  guarded := by
    rw [turnsOf_answered hq]
    exact h.guarded
  read := by
    rw [turnsOf_answered hq]
    exact h.read
  cursor := hcursor
  procs := by
    rw [turnsOf_answered hq]
    intro j p hj
    by_cases hji : j = i
    · subst hji
      rw [Pool.set_procs_self] at hj
      cases hj
      exact hproc
    · rw [Pool.set_procs_ne _ _ _ hji] at hj
      obtain ⟨begun, hat, hset⟩ := h.procs j p hj
      refine ⟨begun, hat.mono (fun e he hrow => ?_) hkeep, fun hs => hset (hs.of_cons ?_)⟩
      · exact execWorld_keeps hx hdel e hrow (EventSource.mem_logOf.mp he).2
      · intro p heq
        cases heq
        exact hji rfl

/-- A statement that does not move the cursor either. -/
theorem Overlapping.plain (h : Overlapping uuid c source past pool) {i : ι} {q : IndexerStmt}
    {k : indexer.Answer q → Prog indexer Unit Unit} (hp : pool.procs i = some (.stmt q k))
    {a : q.Res} (hx : execWorld uuid q pool.store = .ok (a, w)) (hq : ∀ e, q ≠ .applyEvent e)
    (hdel : ∀ d, q ≠ .deleteEvents c d) (hdelc : q ≠ .deleteCursor c)
    (hset : ∀ p, q ≠ .upsertCursor c p)
    (hinsert : ∀ e, q = .insertEvent e → e ∈ source.logOf c) {begun begun' : Bool}
    (hbegun : SetBy c i past → begun = true) (hle : begun = true → begun' = true)
    (hproc : PassAt uuid c source w begun' (doneBy i (turnsOf past)) (k (.ok a))) :
    Overlapping uuid c source (.did i ⟨q, .ok a⟩ :: past) (pool.set w i (some (k (.ok a)))) := by
  have hcur := execWorld_cursor hx hset hdelc
  refine h.answered hp hx hq hdel hinsert ?_ ?_ ⟨begun', hproc, fun hs => ?_⟩
  · rw [hcur]
    exact h.cursor.imp_right fun ⟨hnil, j, hj⟩ => ⟨hnil, j, hj.cons⟩
  · rw [hcur]
    exact id
  · refine hle (hbegun (hs.of_cons ?_))
    intro p heq
    cases heq
    exact hset p rfl

/-! ## One step -/

/-- Whether the next event of a pass is accepted does not depend on the others. -/
theorem Overlapping.applies_iff (h : Overlapping uuid c source past pool) {i : ι}
    {e : ChainEvent} {a : indexer.Answer (.applyEvent e)}
    (hfirst : CreatedFirst (source.finalEvents c)) (hkind : IsVerificationOrFinancing e)
    (hsound : Undisturbed past pool (.did i ⟨IndexerStmt.applyEvent e, a⟩)) :
    Applies uuid pool.store.db e ↔ Sound uuid Db.empty (doneBy i (turnsOf past)) e := by
  refine exists_congr fun o => and_congr_right fun ho => forall_congr' fun v =>
    imp_congr_right fun hv => ?_
  subst hv
  rcases hkind with ⟨v', hv'⟩ | ⟨v', hv'⟩
  · rw [hv'] at ho
    cases ho
    exact Iff.rfl
  · rw [hv'] at ho
    cases ho
    by_cases hcr : (Change.financing v').isCreated = true
    · cases v' with
      | created contractId d => exact ⟨fun _ => trivial, fun _ => trivial⟩
      | deposited d | released d | refunded d => cases hcr
    have hbase : (pool.store.db.financingProjection.lookup v'.toRow.key).map FinancingRow.base =
        (replay financingChange v'.toRow.key (doneBy i (turnsOf past)) none).map
          FinancingRow.base := by
      have hrow := h.rows (financings uuid) v'.toRow.key
      have hagrees := h.guarded.agrees_base hfirst h.read v'.toRow.key
      have hguard := hsound v' hv' (by simpa using hcr)
      show ((financings uuid).table pool.store.db |>.lookup v'.toRow.key).map _ = _
      rw [hrow]
      generalize hlast : lastBy (CreatesFinancing v'.toRow.key) (turnsOf past) = last at hagrees
      cases hagrees with
      | fresh hnone hnames =>
          rw [RowChange.replay_of_not_names (hnames i)]
          exact congrArg (Option.map _) hnone
      | owned hr hown hf =>
          obtain rfl := hguard _ hlast
          rw [Turns.own] at hown
          rw [hown, Option.map_some]
          refine (congrArg (Option.map _) hr).trans ?_
          rw [Option.map_some, hf]
    exact ⟨FinancingChange.fits_congr hbase, FinancingChange.fits_congr hbase.symm⟩

/-- **An applied event.** -/
theorem Overlapping.apply (h : Overlapping uuid c source past pool) {i : ι} {e : ChainEvent}
    {a : Bool} {k : indexer.Answer (.applyEvent e) → Prog indexer Unit Unit}
    (_ : pool.procs i = some (.stmt (.applyEvent e) k))
    (hx : execWorld uuid (.applyEvent e) pool.store = .ok (a, w))
    (hsound : Undisturbed past pool (.did i ⟨IndexerStmt.applyEvent e, .ok a⟩))
    (hread : doneBy i (turnsOf past) ++ [e] <+: source.finalEvents c)
    (hproc : PassAt uuid c source w true (doneBy i (turnsOf past) ++ [e]) (k (.ok a))) :
    Overlapping uuid c source (.did i ⟨IndexerStmt.applyEvent e, .ok a⟩ :: past)
      (pool.set w i (some (k (.ok a)))) := by
  obtain ⟨db, hdb, rfl⟩ := execWorld_ok_iff.mp hx
  have hraw := applyEvent_raw hdb
  have hcur : cursorOf db c = cursorOf pool.store.db c := by
    rw [cursorOf, cursorOf, hraw.cursors]
  constructor
  · exact h.source_eq
  · intro x hxr hc
    rw [Pool.set_store, hraw.events] at hxr
    exact h.stored x hxr hc
  · intro ρ P id
    rw [turnsOf_applied, Turns.row_concat, ← h.rows P id]
    exact P.applied hdb id
  · rw [turnsOf_applied]
    intro l₁ j x l₂ v heq hv hcr
    rcases List.eq_nil_or_concat l₂ with rfl | ⟨l, z, rfl⟩
    · obtain ⟨rfl, hlast⟩ := List.append_inj' heq rfl
      cases hlast
      exact hsound v hv hcr
    · rw [List.concat_eq_append, ← List.cons_append, ← List.append_assoc] at heq
      obtain ⟨hp, _⟩ := List.append_inj' heq rfl
      exact h.guarded l₁ j x l v hp hv hcr
  · intro j
    rw [turnsOf_applied]
    by_cases hji : i = j
    · subst hji
      rw [Turns.doneBy_concat_self]
      exact hread
    · rw [Turns.doneBy_concat_ne hji]
      exact h.read j
  · rw [Pool.set_store, hcur]
    rcases h.cursor with hne | ⟨hnil, j, hj⟩
    · exact .inl hne
    · exact .inr ⟨hnil, j, hj.cons⟩
  · intro j p hj
    rw [turnsOf_applied]
    by_cases hji : j = i
    · subst hji
      rw [Pool.set_procs_self] at hj
      cases hj
      rw [Turns.doneBy_concat_self]
      exact ⟨true, hproc, fun _ => rfl⟩
    · rw [Pool.set_procs_ne _ _ _ hji] at hj
      obtain ⟨begun, hat, hset⟩ := h.procs j p hj
      rw [Turns.doneBy_concat_ne (Ne.symm hji)]
      refine ⟨begun, hat.mono (fun x _ hrow => ?_) (fun hne => ?_), fun hs => ?_⟩
      · rw [Pool.set_store, hraw.events]
        exact hrow
      · rw [Pool.set_store, hcur]
        exact hne
      · exact hset (hs.of_cons fun p heq => by cases heq)

theorem EventSource.eventsAfter_last {source : EventSource} {z : ChainEvent}
    (hz : (source.logOf c).getLast? = some z) : source.eventsAfter c z.position = [] := by
  rw [EventSource.eventsAfter_eq, List.filter_eq_nil_iff]
  intro e he
  simpa using (source.logOf_ordered c).le_getLast he hz

/-- The pass selects the final part of the log. -/
theorem Overlapping.finalized (h : Overlapping uuid c source past pool)
    (hall : ∀ e ∈ source.logOf c, e ∈ pool.store.db.indexedEvents.rows) :
    pool.store.db.indexedEvents.finalized c source.floor = source.finalEvents c := by
  have hirrefl : Std.Irrefl fun a b : ChainEvent => a.position < b.position :=
    ⟨fun a => lt_irrefl a.position⟩
  have hantisymm : Std.Antisymm fun a b : ChainEvent => a.position < b.position :=
    ⟨fun a b hab hba => absurd hba (lt_asymm hab)⟩
  refine List.Pairwise.eq_of_mem_iff (EventStore.finalized_ordered _ c source.floor)
    ((source.logOf_ordered c).filter _) fun e => ?_
  rw [EventStore.mem_finalized, EventStore.mem_ofContract]
  show _ ↔ e ∈ (source.logOf c).filter _
  rw [List.mem_filter, decide_eq_true_eq]
  constructor
  · intro h
    obtain ⟨⟨hrow, hc⟩, hle⟩ := h
    exact ⟨h.stored e hrow hc, hle⟩
  · intro h
    obtain ⟨hlog, hle⟩ := h
    exact ⟨⟨hall e hlog, (EventSource.mem_logOf.mp hlog).2⟩, hle⟩

theorem exec_insertEvent_storable {db db' : Db} {e : ChainEvent} {u : Unit}
    (h : exec uuid source (.insertEvent e) db = .ok (u, db')) : e.storable = true := by
  by_contra hn
  rw [exec, if_neg hn] at h
  cases h

/-- **Every answered statement** of an undisturbed step. -/
theorem Overlapping.did (h : Overlapping uuid c source past pool)
    (hfirst : CreatedFirst (source.finalEvents c))
    (hkind : ∀ e ∈ source.logOf c, IsVerificationOrFinancing e) {i : ι} {q : IndexerStmt}
    {k : indexer.Answer q → Prog indexer Unit Unit} (hp : pool.procs i = some (.stmt q k))
    {a : q.Res} (hx : execWorld uuid q pool.store = .ok (a, w))
    (hsound : Undisturbed past pool (.did i ⟨q, .ok a⟩)) :
    Overlapping uuid c source (.did i ⟨q, .ok a⟩ :: past) (pool.set w i (some (k (.ok a)))) := by
  obtain ⟨begun, hat, hset⟩ := h.procs i _ hp
  generalize hprog : (.stmt q k : Prog indexer Unit Unit) = p at hat
  generalize hdone : doneBy i (turnsOf past) = done at hat
  cases hat with
  | aborted | blocked | idle => cases hprog
  | ingest =>
      cases hprog
      obtain ⟨rfl, rfl⟩ := execWorld_eq rfl hx
      refine h.plain hp hx (by simp) (by simp) (by simp) (by simp) (by simp) hset id ?_
      rw [hdone]
      refine .read id fun hne => ?_
      rcases h.cursor with hstart | ⟨hnil, _⟩
      · exact absurd hstart hne
      · exact hnil
  | @read cursor hcur hnil =>
      cases hprog
      obtain ⟨rfl, rfl⟩ := execWorld_eq rfl hx
      refine h.plain hp hx (by simp) (by simp) (by simp) (by simp) (by simp) hset id ?_
      rw [hdone, h.source_eq]
      show PassAt uuid c source _ _ _ (if _ then _ else _)
      by_cases hstart : cursor = Cursor.START
      · subst hstart
        rw [EventSource.eventsAfter_start]
        by_cases hempty : source.logOf c = []
        · rw [if_pos (by simp [hempty])]
          exact .blocked fun hpass => hpass.1 hempty
        · obtain ⟨z, hz⟩ : ∃ z, (source.logOf c).getLast? = some z :=
            ⟨_, List.getLast?_eq_some_getLast hempty⟩
          rw [if_neg (by simp [hempty]), hz]
          refine .pulled hempty ?_ (source.eventsAfter_last hz)
          exact ne_of_gt (source.afterStart z
            (EventSource.mem_logOf.mp (List.mem_of_getLast? hz)).1)
      · rw [hnil hstart]
        exact .idle (hcur hstart)
  | @pulled last hne hlast hnil =>
      cases hprog
      obtain ⟨rfl, rfl⟩ := execWorld_eq rfl hx
      refine h.plain hp hx (by simp) (by simp) (by simp) (by simp) (by simp) hset id ?_
      rw [hdone]
      show PassAt uuid c source _ _ _ (storingProg c last pool.store.source.floor _)
      rw [h.source_eq]
      have hlog : source.logOf c = [] ++ source.logOf c := rfl
      exact .storing hlog hne hlast hnil fun e he => absurd he List.not_mem_nil
  | @storing last stored rest hlog hne hlast hnil hstored =>
      cases rest with
      | nil =>
          cases hprog
          obtain ⟨rfl, rfl⟩ := execWorld_eq rfl hx
          rw [List.append_nil] at hlog
          have hcur := cursorOf_upsert pool.store.db c last
          refine h.answered hp hx (by simp) (by simp) (by simp) ?_ ?_ ⟨true, ?_, fun _ => rfl⟩
          · right
            rw [hcur]
            exact ⟨hnil, i, last, List.mem_cons_self⟩
          · intro _
            rw [hcur]
            exact hlast
          · rw [hdone]
            refine .selecting ⟨hne, fun e he => ?_⟩ fun e he => ?_
            · exact (hstored e (hlog ▸ he)).2
            · exact (hstored e (hlog ▸ he)).1
      | cons e rest =>
          cases hprog
          have he : e ∈ source.logOf c := by
            rw [hlog]
            simp
          refine h.plain hp hx (by simp) (by simp) (by simp) (by simp) ?_ hset id ?_
          · intro x hxe
            cases hxe
            exact he
          · rw [hdone]
            have hlog' : source.logOf c = (stored ++ [e]) ++ rest := by
              rw [hlog]
              simp
            refine .storing hlog' hne hlast hnil ?_
            intro x hxm
            rcases List.mem_append.mp hxm with hxs | hxe
            · refine ⟨execWorld_keeps (c := c) hx (by simp) x (hstored x hxs).1 ?_,
                (hstored x hxs).2⟩
              exact (EventSource.mem_logOf.mp
                (by rw [hlog]; exact List.mem_append_left _ hxs)).2
            · obtain rfl := List.mem_singleton.mp hxe
              obtain ⟨db, hdb, _⟩ := execWorld_ok_iff.mp hx
              refine ⟨execWorld_inserted (c := c) ?_ ?_ hx, exec_insertEvent_storable hdb⟩
              · rw [World.log, h.source_eq]
                exact he
              · rw [World.log, h.source_eq]
                exact h.stored
  | selecting hpass hall =>
      cases hprog
      obtain ⟨rfl, rfl⟩ := execWorld_eq rfl hx
      refine h.plain hp hx (by simp) (by simp) (by simp) (by simp) (by simp) hset id ?_
      rw [hdone]
      show PassAt uuid c source _ _ _ (applyingProg _)
      rw [h.finalized hall]
      exact .applying hpass (List.nil_append _).symm .nil
  | @applying _ rest hpass hfin hthrough =>
      cases rest with
      | nil => cases hprog
      | cons e rest =>
          cases hprog
          have hin : done ++ [e] <+: source.finalEvents c := ⟨rest, by rw [hfin]; simp⟩
          have he : e ∈ source.logOf c :=
            List.mem_of_mem_filter (hin.subset (by simp) : e ∈ source.finalEvents c)
          obtain ⟨db, hdb, _⟩ := execWorld_ok_iff.mp hx
          have hsnd := (h.applies_iff hfirst (hkind e he) hsound).mp
            ((applyEvent_isOk_iff _ e).mp ⟨_, hdb⟩)
          subst hdone
          refine h.apply hp hx hsound hin ?_
          exact .applying hpass (by rw [hfin]; simp) (hthrough.concat hsnd)

/-- An ingest stops: nothing is written. -/
theorem Overlapping.unanswered (h : Overlapping uuid c source past pool)
    {o : Happening indexer ι} (ho : o.answered = none) {i : ι}
    {p : Option (Prog indexer Unit Unit)}
    (hproc : ∀ p', p = some p' → ∃ begun,
      PassAt uuid c source pool.store begun (doneBy i (turnsOf past)) p' ∧
        (SetBy c i past → begun = true)) :
    Overlapping uuid c source (o :: past) (pool.set pool.store i p) where
  source_eq := h.source_eq
  stored := h.stored
  rows := by
    rw [turnsOf_unanswered ho]
    exact h.rows
  guarded := by
    rw [turnsOf_unanswered ho]
    exact h.guarded
  read := by
    rw [turnsOf_unanswered ho]
    exact h.read
  cursor := h.cursor.imp_right fun ⟨hnil, j, hj⟩ => ⟨hnil, j, hj.cons⟩
  procs := by
    rw [turnsOf_unanswered ho]
    intro j p' hj
    have hof : SetBy c j (o :: past) → SetBy c j past := fun hs => hs.of_cons fun x heq => by
      rw [heq] at ho
      cases ho
    by_cases hji : j = i
    · subst hji
      rw [Pool.set_procs_self] at hj
      obtain ⟨begun, hat, hset⟩ := hproc p' hj
      exact ⟨begun, hat, fun hs => hset (hof hs)⟩
    · rw [Pool.set_procs_ne _ _ _ hji] at hj
      obtain ⟨begun, hat, hset⟩ := h.procs j p' hj
      exact ⟨begun, hat, fun hs => hset (hof hs)⟩

theorem execWorld_error_iff {q : IndexerStmt} {e : q.Err} {w : World} :
    execWorld uuid q w = .error e ↔ exec uuid w.source q w.db = .error e := by
  rw [execWorld]
  cases exec uuid w.source q w.db <;> simp [Except.map]

/-- **A refused statement** ends its ingest. -/
theorem Overlapping.refused (h : Overlapping uuid c source past pool)
    (hfirst : CreatedFirst (source.finalEvents c))
    (hkind : ∀ e ∈ source.logOf c, IsVerificationOrFinancing e) {i : ι} {q : IndexerStmt}
    {k : indexer.Answer q → Prog indexer Unit Unit} (hp : pool.procs i = some (.stmt q k))
    {e : q.Err} (hx : execWorld uuid q pool.store = .error e)
    (hsound : Undisturbed past pool (.did i ⟨q, .error e⟩)) :
    Overlapping uuid c source (.did i ⟨q, .error e⟩ :: past)
      (pool.set pool.store i (some (k (.error e)))) := by
  obtain ⟨begun, hat, hset⟩ := h.procs i _ hp
  rw [execWorld_error_iff] at hx
  refine h.unanswered rfl fun p' hp' => ⟨begun, ?_, hset⟩
  rw [← Option.some.inj hp']
  generalize hprog : (.stmt q k : Prog indexer Unit Unit) = p at hat
  generalize hdone : doneBy i (turnsOf past) = done at hat ⊢
  cases hat with
  | aborted | blocked | idle => cases hprog
  | ingest | read | pulled | selecting =>
      cases hprog
      cases hx
  | @storing last stored rest hlog hne hlast hnil hstored =>
      cases rest with
      | nil =>
          cases hprog
          cases hx
      | cons x rest =>
          cases hprog
          refine .blocked fun hpass => ?_
          have hstorable := hpass.2 x (by rw [hlog]; simp)
          rw [exec, if_pos hstorable] at hx
          cases hx
  | @applying _ rest hpass hfin hthrough =>
      cases rest with
      | nil => cases hprog
      | cons x rest =>
          cases hprog
          have hin : x ∈ source.finalEvents c := by
            rw [hfin]
            simp
          refine .aborted hpass hfin hthrough fun hsnd => ?_
          rw [← hdone] at hsnd
          obtain ⟨r, hr⟩ := (applyEvent_isOk_iff _ x).mpr
            ((h.applies_iff hfirst (hkind x (List.mem_of_mem_filter hin)) hsound).mpr hsnd)
          have hx' : applyEvent uuid pool.store.db x = .error e := hx
          rw [hr] at hx'
          cases hx'

/-- **One undisturbed step.** -/
theorem Overlapping.step (h : Overlapping uuid c source past pool)
    (hfirst : CreatedFirst (source.finalEvents c))
    (hkind : ∀ e ∈ source.logOf c, IsVerificationOrFinancing e) {o : Happening indexer ι}
    {pool' : Pool indexer ι World} (hsound : Undisturbed past pool o)
    (hstep : Pool.Step (execWorld uuid) (ownFailures (execWorld uuid)) (fun _ _ => False)
      pool o pool') : Overlapping uuid c source (o :: past) pool' := by
  cases hstep with
  | ok hp hx => exact h.did hfirst hkind hp hx hsound
  | fail hp hF => exact h.refused hfirst hkind hp hF hsound
  | crash => exact h.unanswered rfl fun p' hp' => by cases hp'
  | outside hw => exact hw.elim

/-! ## When all have returned -/

/-- What one pass over empty tables leaves in the two tables. -/
def PassLeft (uuid : String → Option String) (c : String) (source : EventSource) (db : Db) :
    Prop :=
  ∃ p, (source.Passable c → WholePass uuid (source.finalEvents c) p) ∧
    (¬ source.Passable c → p = []) ∧
    (∀ id, db.verificationProjection.lookup id = replay (verificationChange uuid) id p none) ∧
    ∀ id, db.financingProjection.lookup id = replay financingChange id p none

theorem PassLeft.unique {db db' : Db} (h : PassLeft uuid c source db)
    (h' : PassLeft uuid c source db') :
    db.verificationProjection = db'.verificationProjection ∧
      db.financingProjection = db'.financingProjection := by
  obtain ⟨p, hwhole, hnone, hver, hfin⟩ := h
  obtain ⟨p', hwhole', hnone', hver', hfin'⟩ := h'
  have hp : p = p' := by
    by_cases hpass : source.Passable c
    · exact (hwhole hpass).unique (hwhole' hpass)
    · rw [hnone hpass, hnone' hpass]
  subst hp
  constructor
  · exact Finmap.ext_lookup fun id => (hver id).trans (hver' id).symm
  · exact Finmap.ext_lookup fun id => (hfin id).trans (hfin' id).symm

theorem turns_eq_nil {turns : List (ι × ChainEvent)} (h : ∀ i, doneBy i turns = []) :
    turns = [] := by
  cases turns with
  | nil => rfl
  | cons t turns =>
      have ht := h t.1
      simp [doneBy] at ht

/-- **When all have returned**, the tables are those of one pass. -/
theorem Overlapping.returned [Nonempty ι] (h : Overlapping uuid c source past pool)
    (hfirst : CreatedFirst (source.finalEvents c)) (hover : ∀ i, pool.procs i = some finished) :
    PassLeft uuid c source pool.store.db := by
  have hended : ∀ i, ∃ begun, ((begun = true ∧ source.Passable c ∧
        WholePass uuid (source.finalEvents c) (doneBy i (turnsOf past))) ∨
      (begun = false ∧ doneBy i (turnsOf past) = [] ∧
        (source.Passable c → cursorOf pool.store.db c ≠ Cursor.START))) ∧
      (SetBy c i past → begun = true) := by
    intro i
    obtain ⟨begun, hat, hset⟩ := h.procs i _ (hover i)
    exact ⟨begun, hat.ended, hset⟩
  by_cases hone : ∃ i, source.Passable c ∧
      WholePass uuid (source.finalEvents c) (doneBy i (turnsOf past))
  · obtain ⟨i, hpass, hwhole⟩ := hone
    have hall : ∀ j, doneBy j (turnsOf past) = [] ∨
        doneBy j (turnsOf past) = doneBy i (turnsOf past) := by
      intro j
      obtain ⟨begun, ⟨_, _, hj⟩ | ⟨_, hnil, _⟩, _⟩ := hended j
      · exact .inr (hj.unique hwhole)
      · exact .inl hnil
    refine ⟨doneBy i (turnsOf past), fun _ => hwhole, fun hn => absurd hpass hn, ?_, ?_⟩
    · intro id
      exact (h.rows (verifications uuid) id).trans
        (verification_settled hfirst h.read hall ⟨i, rfl⟩ id)
    · intro id
      exact (h.rows (financings uuid) id).trans
        (financing_settled h.guarded hfirst h.read hall ⟨i, rfl⟩ id)
  · have hnone : ∀ i, doneBy i (turnsOf past) = [] ∧ ¬ SetBy c i past ∧
        (source.Passable c → cursorOf pool.store.db c ≠ Cursor.START) := by
      intro i
      obtain ⟨begun, ⟨_, hpass, hwhole⟩ | ⟨rfl, hnil, hcur⟩, hset⟩ := hended i
      · exact absurd ⟨i, hpass, hwhole⟩ hone
      · exact ⟨hnil, fun hs => Bool.false_ne_true (hset hs), hcur⟩
    have hstart : cursorOf pool.store.db c = Cursor.START := by
      rcases h.cursor with hstart | ⟨_, j, hj⟩
      · exact hstart
      · exact absurd hj (hnone j).2.1
    have hturns := turns_eq_nil fun i => (hnone i).1
    refine ⟨[], fun hpass => ?_, fun _ => rfl, ?_, ?_⟩
    · exact absurd hstart ((hnone (Classical.arbitrary ι)).2.2 hpass)
    · intro id
      rw [show pool.store.db.verificationProjection.lookup id = _ from
        h.rows (verifications uuid) id, hturns]
      rfl
    · intro id
      rw [show pool.store.db.financingProjection.lookup id = _ from
        h.rows (financings uuid) id, hturns]
      rfl

/-- A single ingest leaves what one pass leaves. -/
theorem ingest_passLeft (hfirst : CreatedFirst (source.finalEvents c))
    (hkind : ∀ e ∈ source.logOf c, IsVerificationOrFinancing e) :
    PassLeft uuid c source ((ingest c).run (execWorld uuid) ⟨Db.empty, source⟩).2.db := by
  have halone : ∀ past (pool : Pool indexer Unit World) o, Undisturbed past pool o := by
    intro past pool o
    cases o with
    | crashed i | outside => trivial
    | did i obs =>
        obtain ⟨q, a⟩ := obs
        cases q with
        | applyEvent e =>
            intro v _ _ j _
            rfl
        | selectCursor _ | eventsAfter _ _ | headLedger | insertEvent _ | upsertCursor _ _
        | selectFinalized _ _ | deleteEvents _ _ | deleteCursor _ => trivial
  have hstart : Pool.Run (execWorld uuid) (ownFailures (execWorld uuid)) (fun _ _ => False)
      Undisturbed (Pool.start ⟨Db.empty, source⟩ fun _ : Unit => (ingest c).erase) []
      ⟨⟨Db.empty, source⟩, fun _ => some (ingest c).erase⟩ := .start
  obtain ⟨past, hrun⟩ := Pool.Run.alone halone (fun _ _ _ h => h) (ingest c) hstart
  have hinv := hrun.invariant (P := Overlapping uuid c source) (.start uuid c source)
    fun _ _ _ _ h hsound hstep => h.step hfirst hkind hsound hstep
  exact hinv.returned hfirst fun _ => rfl

/-- **Overlapping ingests agree with one** in a run in which no deposit, release or
refund of a financing is applied when another ingest applied its `Created` event
since. -/
theorem overlap_agrees [Nonempty ι]
    (hkind : ∀ e ∈ source.logOf c, IsVerificationOrFinancing e)
    (hfirst : CreatedFirst (source.logOf c))
    (hrun : Pool.Run (execWorld uuid) (ownFailures (execWorld uuid)) (fun _ _ => False)
      Undisturbed (Pool.start ⟨Db.empty, source⟩ fun _ : ι => (ingest c).erase) past pool)
    (hover : ∀ i, pool.procs i = some finished) :
    let one := ((ingest c).run (execWorld uuid) ⟨Db.empty, source⟩).2.db
    pool.store.db.verificationProjection = one.verificationProjection ∧
      pool.store.db.financingProjection = one.financingProjection := by
  have hfinal : CreatedFirst (source.finalEvents c) :=
    hfirst.of_isPrefix (finalPart_isPrefix_self (source.logOf_ordered c))
  have hinv := hrun.invariant (P := Overlapping uuid c source) (.start uuid c source)
    fun _ _ _ _ h hsound hstep => h.step hfinal hkind hsound hstep
  exact (hinv.returned hfinal hover).unique (ingest_passLeft hfinal hkind)

end

/-! A financing created and paid into, and two ingests of it. -/

def paidSource : EventSource :=
  .ofList [financingCreated, financingDeposited] 120 (by decide) (by decide)

def paidPool : Pool indexer Bool World :=
  .start ⟨Db.empty, paidSource⟩ fun _ => (ingest "CF").erase

theorem paidSource_created_first : CreatedFirst (paidSource.logOf "CF") := by
  show CreatedFirst [financingCreated, financingDeposited]
  refine CreatedFirst.of_head (c := .financing (.created "CF" _)) rfl rfl ?_
  intro e he
  rw [List.mem_singleton.mp he]
  rfl

theorem paidSource_financing : ∀ e ∈ paidSource.logOf "CF", IsVerificationOrFinancing e := by
  show ∀ e ∈ [financingCreated, financingDeposited], IsVerificationOrFinancing e
  intro e he
  rcases List.mem_cons.mp he with rfl | he
  · exact .inr ⟨.created "CF" _, rfl⟩
  · rw [List.mem_singleton.mp he]
    exact .inr ⟨.deposited _, rfl⟩

theorem undisturbed_created {i : Bool} {past : List (Happening indexer Bool)}
    {pool : Pool indexer Bool World} {a : Except SqlxError Bool} :
    Undisturbed past pool (.did i ⟨IndexerStmt.applyEvent financingCreated, a⟩) := by
  intro v hv hcreated
  cases hv
  cases hcreated

/-- The deposit right behind the ingest's own `Created`. -/
theorem undisturbed_deposited {i : Bool} {past : List (Happening indexer Bool)}
    {pool : Pool indexer Bool World} {a : Except SqlxError Bool} (turns : List (Bool × ChainEvent))
    (h : turnsOf past = turns ++ [(i, financingCreated)]) :
    Undisturbed past pool (.did i ⟨IndexerStmt.applyEvent financingDeposited, a⟩) := by
  intro v hv _ j hj
  cases hv
  rw [h, Turns.lastBy_concat, if_pos ⟨"CF", _, rfl, rfl⟩] at hj
  exact (Option.some.inj hj).symm

/-- The two pulls interleave, and so do the passes, with each deposit behind the `Created`
of its own pass. -/
theorem overlap_agrees_passes :
    ∃ past pool, Pool.Run (execWorld noUuid) (ownFailures (execWorld noUuid)) (fun _ _ => False)
        Undisturbed paidPool past pool ∧
      (∀ i, (turnsOf past).filter (fun t => t.1 = i) =
        [(i, financingCreated), (i, financingDeposited)]) ∧
      let one := ((ingest "CF").run (execWorld noUuid) ⟨Db.empty, paidSource⟩).2.db
      pool.store.db.verificationProjection = one.verificationProjection ∧
        pool.store.db.financingProjection = one.financingProjection := by
  have h₀ : Pool.Run (execWorld noUuid) (ownFailures (execWorld noUuid)) (fun _ _ => False)
      Undisturbed paidPool [] paidPool := .start
  have h₁ := h₀.step (h := .did true ⟨IndexerStmt.selectCursor "CF", .ok none⟩)
    (by simp [Undisturbed]) (.ok rfl rfl)
  have h₂ := h₁.step (h := .did false ⟨IndexerStmt.selectCursor "CF", .ok none⟩)
    (by simp [Undisturbed]) (.ok rfl rfl)
  have h₃ := h₂.step (h := .did true ⟨IndexerStmt.eventsAfter "CF" Cursor.START,
    .ok [financingCreated, financingDeposited]⟩) (by simp [Undisturbed]) (.ok rfl rfl)
  have h₄ := h₃.step (h := .did false ⟨IndexerStmt.eventsAfter "CF" Cursor.START,
    .ok [financingCreated, financingDeposited]⟩) (by simp [Undisturbed]) (.ok rfl rfl)
  have h₅ := h₄.step (h := .did true ⟨IndexerStmt.headLedger, .ok (120 : Int)⟩)
    (by simp [Undisturbed]) (.ok rfl rfl)
  have h₆ := h₅.step (h := .did true ⟨IndexerStmt.insertEvent financingCreated, .ok ()⟩)
    (by simp [Undisturbed]) (.ok rfl rfl)
  have h₇ := h₆.step (h := .did false ⟨IndexerStmt.headLedger, .ok (120 : Int)⟩)
    (by simp [Undisturbed]) (.ok rfl rfl)
  have h₈ := h₇.step (h := .did false ⟨IndexerStmt.insertEvent financingCreated, .ok ()⟩)
    (by simp [Undisturbed]) (.ok rfl rfl)
  have h₉ := h₈.step (h := .did false ⟨IndexerStmt.insertEvent financingDeposited, .ok ()⟩)
    (by simp [Undisturbed]) (.ok rfl rfl)
  have h₁₀ := h₉.step (h := .did true ⟨IndexerStmt.insertEvent financingDeposited, .ok ()⟩)
    (by simp [Undisturbed]) (.ok rfl rfl)
  have h₁₁ := h₁₀.step (h := .did true ⟨IndexerStmt.upsertCursor "CF"
    financingDeposited.position, .ok ()⟩) (by simp [Undisturbed]) (.ok rfl rfl)
  have h₁₂ := h₁₁.step (h := .did true ⟨IndexerStmt.selectFinalized "CF" 110,
    .ok [financingCreated, financingDeposited]⟩) (by simp [Undisturbed]) (.ok rfl rfl)
  have h₁₃ := h₁₂.step (h := .did true ⟨IndexerStmt.applyEvent financingCreated, .ok true⟩)
    undisturbed_created (.ok rfl rfl)
  have h₁₄ := h₁₃.step (h := .did false ⟨IndexerStmt.upsertCursor "CF"
    financingDeposited.position, .ok ()⟩) (by simp [Undisturbed]) (.ok rfl rfl)
  have h₁₅ := h₁₄.step (h := .did true ⟨IndexerStmt.applyEvent financingDeposited, .ok true⟩)
    (undisturbed_deposited [] rfl) (.ok rfl rfl)
  have h₁₆ := h₁₅.step (h := .did false ⟨IndexerStmt.selectFinalized "CF" 110,
    .ok [financingCreated, financingDeposited]⟩) (by simp [Undisturbed]) (.ok rfl rfl)
  have h₁₇ := h₁₆.step (h := .did false ⟨IndexerStmt.applyEvent financingCreated, .ok true⟩)
    undisturbed_created (.ok rfl rfl)
  have h₁₈ := h₁₇.step (h := .did false ⟨IndexerStmt.applyEvent financingDeposited, .ok true⟩)
    (undisturbed_deposited [(true, financingCreated), (true, financingDeposited)] rfl)
    (.ok rfl rfl)
  refine ⟨_, _, h₁₈, fun i => by cases i <;> rfl, ?_⟩
  refine overlap_agrees paidSource_financing paidSource_created_first h₁₈ fun i => ?_
  cases i <;> rfl

/-- Both passes come after both pulls, in step. -/
def inStep : List Bool :=
  [true, false, true, false, true, false, true, false, true, false, true, false, true, false,
    true, false, true, false]

theorem overlap_doubles_deposit :
    ∃ past pool, Pool.Run (execWorld noUuid) (ownFailures (execWorld noUuid)) (fun _ _ => False)
        (fun _ _ _ => True) paidPool past pool ∧
      (∀ i, pool.procs i = some finished) ∧
      pool.store.db.financingProjection ≠
        ((ingest "CF").run (execWorld noUuid) ⟨Db.empty, paidSource⟩).2.db.financingProjection := by
  have hstart : Pool.Run (execWorld noUuid) (ownFailures (execWorld noUuid)) (fun _ _ => False)
      (fun _ _ _ => True) paidPool [] paidPool := .start
  have hrun := hstart.schedule (fun _ _ _ h => h) inStep
  refine ⟨_, _, hrun, ?_, ?_⟩
  · intro i
    cases i <;> rfl
  · intro heq
    have hdrawn := congrArg (fun t : Table String FinancingRow =>
      (t.lookup "va:financing:000000000003").map FinancingRow.drawnAmount) heq
    revert hdrawn
    decide

end VerdantBackend
