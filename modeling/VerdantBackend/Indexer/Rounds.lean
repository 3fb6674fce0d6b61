import Mathlib.Data.List.TakeWhile
import VerdantBackend.Indexer.Finality
import VerdantBackend.Indexer.RawStore

/-!
# The polling loop

`spawn_indexer` in `src/indexer/service.rs`: on every tick each configured
contract is ingested in turn, an error is logged and the next contract follows.
A tick that nothing disturbs brings the raw store of a contract as far as the
database takes it, whatever earlier ticks and the other contracts did. An event
that PostgreSQL refuses stops its own contract there for good, and no other.
-/

namespace VerdantBackend

open Prog

/-- One tick of `spawn_indexer`: the contracts and errors it logs. -/
def indexerTick : List String → Prog indexer Unit (List (String × ChainEventsError))
  | [] => return []
  | contractId :: contractIds => do
    let result ← (ingest contractId).attempt
    let warned ← indexerTick contractIds
    match result with
    | .ok _ => return warned
    | .error err => return (contractId, err) :: warned

/-- The database after a tick that nothing disturbs. -/
def Db.ticked (uuid : String → Option String) (source : EventSource) (contractIds : List String)
    (db : Db) : Db :=
  ((indexerTick contractIds).run (exec uuid source) db).2

/-- What such a tick logs. -/
def Db.warned (uuid : String → Option String) (source : EventSource) (contractIds : List String)
    (db : Db) : List String :=
  match ((indexerTick contractIds).run (exec uuid source) db).1 with
  | .ok warned => warned.map Prod.fst
  | .error _ => []

section
variable {uuid : String → Option String} {source : EventSource} {c : String} {db db' : Db}

/-! ## A tick, contract by contract -/

@[simp] theorem Db.ticked_nil : db.ticked uuid source [] = db := rfl

@[simp] theorem Db.warned_nil : db.warned uuid source [] = [] := rfl

variable (uuid source) in
theorem indexerTick_isOk (contractIds : List String) (db : Db) :
    ∃ warned, ((indexerTick contractIds).run (exec uuid source) db).1 = .ok warned := by
  induction contractIds generalizing db with
  | nil => exact ⟨[], rfl⟩
  | cons c contractIds ih =>
      obtain ⟨warned, h⟩ := ih ((ingest c).run (exec uuid source) db).2
      rw [indexerTick, run_bind, run_attempt]
      simp only [run_bind]
      generalize (indexerTick contractIds).run (exec uuid source) _ = x at h ⊢
      obtain ⟨r, db'⟩ := x
      simp only at h
      subst h
      cases ((ingest c).run (exec uuid source) db).1 <;> exact ⟨_, rfl⟩

/-- The tick goes on from what the first contract left. -/
theorem indexerTick_cons (c : String) (contractIds : List String) (db : Db) :
    db.ticked uuid source (c :: contractIds) =
        ((ingest c).run (exec uuid source) db).2.ticked uuid source contractIds ∧
      db.warned uuid source (c :: contractIds) =
        (match ((ingest c).run (exec uuid source) db).1 with
          | .ok _ => []
          | .error _ => [c]) ++
        ((ingest c).run (exec uuid source) db).2.warned uuid source contractIds := by
  obtain ⟨warned, h⟩ := indexerTick_isOk uuid source contractIds
    ((ingest c).run (exec uuid source) db).2
  unfold Db.ticked Db.warned
  rw [indexerTick, run_bind, run_attempt]
  simp only [run_bind]
  generalize (indexerTick contractIds).run (exec uuid source) _ = x at h ⊢
  obtain ⟨r, db'⟩ := x
  simp only at h
  subst h
  cases ((ingest c).run (exec uuid source) db).1 <;> exact ⟨rfl, rfl⟩

/-- **A tick is a run of ingest calls**, one for each contract, whatever fails. -/
theorem IngestRun.tick {F : EventSource → Failures indexer Db} {calls : List IngestCall}
    {contractIds : List String} {tr : List indexer.Obs}
    {r : Except Unit (List (String × ChainEventsError))} (hrun : IngestRun uuid F calls db)
    (h : Outcome (exec uuid source) (F source) (indexerTick contractIds) db tr r db') :
    ∃ turn, IngestRun uuid F (calls ++ turn) db' ∧
      turn.map IngestCall.contractId = contractIds ∧ (∀ call ∈ turn, call.source = source) ∧
      r = .ok (turn.filterMap fun call =>
        match call.result with
        | .ok _ => none
        | .error err => some (call.contractId, err)) := by
  induction contractIds generalizing calls db tr r with
  | nil =>
      obtain ⟨rfl, rfl, rfl⟩ := outcome_done_iff.mp h
      exact ⟨[], by simpa using hrun, rfl, by simp, rfl⟩
  | cons c contractIds ih =>
      rw [indexerTick, outcome_bind_iff] at h
      rcases h with ⟨_, _, h⟩ | ⟨result, db₁, tr₁, tr₂, rfl, h₁, h⟩
      · obtain ⟨_, hr, _⟩ := outcome_attempt_iff.mp h
        cases hr
      obtain ⟨_, hr, h₁⟩ := outcome_attempt_iff.mp h₁
      cases hr
      have hrun₁ : IngestRun uuid F (calls ++ [⟨c, source, db, tr₁, result, db₁⟩]) db₁ :=
        hrun.call h₁
      rw [outcome_bind_iff] at h
      rcases h with ⟨_, rfl, h⟩ | ⟨warned, db₂, tr₃, tr₄, rfl, h₂, h⟩
      · obtain ⟨_, _, _, _, hr⟩ := ih hrun₁ h
        cases hr
      obtain ⟨rfl, hr⟩ : db' = db₂ ∧ r = .ok (match result with
          | .ok _ => warned
          | .error err => (c, err) :: warned) := by
        cases result <;> obtain ⟨_, hr, hs⟩ := outcome_done_iff.mp h <;> exact ⟨hs, hr⟩
      obtain ⟨turn, hrun₂, hids, hsource, hwarned⟩ := ih hrun₁ h₂
      cases hwarned
      refine ⟨⟨c, source, db, tr₁, result, db₁⟩ :: turn, by simpa using hrun₂, by simp [hids],
        by simpa using hsource, ?_⟩
      rw [hr, List.filterMap_cons]
      cases result <;> rfl

end

section
variable {uuid : String → Option String} {source : EventSource} {c : String} {db db' : Db}

/-! ## An ingest that nothing disturbs -/

/-- A tick over a source that extends what the calls before it saw keeps the logs growing. -/
theorem AppendOnly.extend {c : String} {calls turn : List IngestCall} (h : AppendOnly c calls)
    (hlogs : ∀ call ∈ calls, call.source.logOf c <+: source.logOf c)
    (hturn : ∀ call ∈ turn, call.source = source) : AppendOnly c (calls ++ turn) := by
  refine List.pairwise_append.mpr ⟨h, ?_, ?_⟩
  · apply List.pairwise_of_forall_mem_list
    intro a ha b hb _ _
    rw [hturn a ha, hturn b hb]
  · intro a ha b hb _ _
    rw [hturn b hb]
    exact hlogs a ha

theorem getCursor_run (c : String) (db : Db) :
    (getCursor c).run (exec uuid source) db = (.ok (cursorOf db c), db) := by
  rw [getCursor, run_bind, run_call_ok (a := db.indexerCursors.lookup c) rfl, cursorOf]
  cases db.indexerCursors.lookup c <;> rfl

variable (uuid source) in
/-- `append_events` stores what comes before the first event that the database
refuses. -/
theorem appendEvents_run (l : List ChainEvent) (db : Db) :
    ((∀ e ∈ l, e.storable = true) → (appendEvents l).run (exec uuid source) db =
      (.ok (), { db with indexedEvents := db.indexedEvents.insertAll l })) ∧
    ((∃ e ∈ l, e.storable = false) → ∃ err, (appendEvents l).run (exec uuid source) db =
      (.error err, { db with
        indexedEvents := db.indexedEvents.insertAll (l.takeWhile ChainEvent.storable) })) := by
  induction l generalizing db with
  | nil => simp [appendEvents]
  | cons e l ih =>
      rw [appendEvents, run_bind]
      cases hs : e.storable with
      | true =>
          have hx : exec uuid source (.insertEvent e) db =
              .ok ((), { db with indexedEvents := db.indexedEvents.insert e }) := if_pos hs
          obtain ⟨hok, herr⟩ := ih { db with indexedEvents := db.indexedEvents.insert e }
          rw [run_call_ok hx]
          simpa [hs, UniqueRows.insertAll_cons] using And.intro hok herr
      | false =>
          have hx : exec uuid source (.insertEvent e) db =
              .error (.database "unsupported Unicode escape sequence") := if_neg (by simp [hs])
          rw [run_call_error hx]
          simp [hs]

variable (uuid source) in
/-- The projection loop leaves raw events and cursors alone. -/
theorem applyEvents_run_raw (l : List ChainEvent) (db : Db) :
    SameRawStore db ((applyEvents l).run (exec uuid source) db).2 := by
  rcases applyEvents_outcome (outcome_run (exec uuid source) (applyEvents l) db) with
    ⟨_, _, hall⟩ | ⟨_, _, _, _, _, _, _, hall, _⟩
  · exact applyAll_raw hall
  · exact applyAll_raw hall

theorem getCursor_mapErr_run (c : String) (db : Db) :
    ((getCursor c).mapErr internal).run (exec uuid source) db = (.ok (cursorOf db c), db) := by
  rw [run_mapErr, getCursor_run]
  rfl

/-- An undisturbed `ingest` that finds events which can be stored comes to its pass. -/
theorem ingest_run_pulled {c : String} {db : Db} {z : ChainEvent}
    (hz : (source.eventsAfter c (cursorOf db c)).getLast? = some z)
    (hall : ∀ e ∈ source.eventsAfter c (cursorOf db c), e.storable = true) :
    ∃ n, (ingest c).run (exec uuid source) db =
      Prod.map (Except.map fun _ => n) id ((applyEvents ((db.pulled c
        (source.eventsAfter c (cursorOf db c)) z.position).indexedEvents.finalized c
          source.floor)).run (exec uuid source)
        (db.pulled c (source.eventsAfter c (cursorOf db c)) z.position)) := by
  have hev : (call (I := indexer) (.eventsAfter c (cursorOf db c))).run (exec uuid source) db =
      (.ok (source.eventsAfter c (cursorOf db c)), db) := run_call_ok rfl
  rw [ingest, run_bind, getCursor_mapErr_run]
  simp only [run_bind, hev]
  generalize source.eventsAfter c (cursorOf db c) = events at hz hall ⊢
  have happend := (appendEvents_run uuid source events db).1 hall
  have hhead : (call (I := indexer) .headLedger).run (exec uuid source) db =
      (.ok source.head, db) := run_call_ok rfl
  have hne : events.isEmpty = false := by
    cases events with
    | nil => cases hz
    | cons _ _ => rfl
  have hset : (setCursor c z.position).run (exec uuid source)
      { db with indexedEvents := db.indexedEvents.insertAll events } =
      (.ok (), db.pulled c events z.position) := run_call_ok rfl
  have hsel : (finalizedEvents c (source.head - TRUSTED_CUTOFF)).run (exec uuid source)
      (db.pulled c events z.position) =
      (.ok ((db.pulled c events z.position).indexedEvents.finalized c
        (source.head - TRUSTED_CUTOFF)), db.pulled c events z.position) := run_call_ok rfl
  refine ⟨events.length, ?_⟩
  simp only [hne, Bool.false_eq_true, if_false, run_bind, hhead, run_mapErr, happend, hz,
    Option.map_some, Option.getD_some, Except.mapError, hset, hsel, EventSource.floor]
  generalize (applyEvents _).run _ _ = x
  obtain ⟨r, db'⟩ := x
  cases r <;> rfl

variable (uuid source) in
/-- What an undisturbed `ingest` does to raw events and cursors. -/
theorem ingest_run (c : String) (db : Db) :
    (source.eventsAfter c (cursorOf db c) = [] →
      (ingest c).run (exec uuid source) db = (.ok 0, db)) ∧
    ((∃ e ∈ source.eventsAfter c (cursorOf db c), e.storable = false) →
      ∃ err, (ingest c).run (exec uuid source) db = (.error err, { db with
        indexedEvents := db.indexedEvents.insertAll
          ((source.eventsAfter c (cursorOf db c)).takeWhile ChainEvent.storable) })) ∧
    (∀ z, (source.eventsAfter c (cursorOf db c)).getLast? = some z →
      (∀ e ∈ source.eventsAfter c (cursorOf db c), e.storable = true) →
      SameRawStore (db.pulled c (source.eventsAfter c (cursorOf db c)) z.position)
        ((ingest c).run (exec uuid source) db).2) := by
  refine ⟨?_, ?_, ?_⟩
  · intro h
    have hev : (call (I := indexer) (.eventsAfter c (cursorOf db c))).run (exec uuid source) db =
        (.ok [], db) := run_call_ok (by rw [exec, h])
    rw [ingest, run_bind, getCursor_mapErr_run]
    simp [run_bind, hev]
  · intro h
    have hev : (call (I := indexer) (.eventsAfter c (cursorOf db c))).run (exec uuid source) db =
        (.ok (source.eventsAfter c (cursorOf db c)), db) := run_call_ok rfl
    rw [ingest, run_bind, getCursor_mapErr_run]
    simp only [run_bind, hev]
    generalize source.eventsAfter c (cursorOf db c) = events at h ⊢
    obtain ⟨err, hrun⟩ := (appendEvents_run uuid source events db).2 h
    have hhead : (call (I := indexer) .headLedger).run (exec uuid source) db =
        (.ok source.head, db) := run_call_ok rfl
    have hne : events.isEmpty = false := by
      obtain ⟨e, he, _⟩ := h
      cases events with
      | nil => cases he
      | cons _ _ => rfl
    simp [hne, run_bind, hhead, run_mapErr, hrun, Except.mapError]
  · intro z hz hall
    obtain ⟨n, hrun⟩ : ∃ n, (ingest c).run (exec uuid source) db = _ := ingest_run_pulled hz hall
    rw [hrun]
    exact applyEvents_run_raw uuid source _ _

/-! ## What the database takes of a log -/

/-- The raw events of `c` are what the database takes of its log, and nothing is
left to pull when it takes the whole of it. -/
structure Settled (c : String) (source : EventSource) (db : Db) : Prop where
  stored : db.indexedEvents.ofContract c = (source.logOf c).takeWhile ChainEvent.storable
  cursor : ∀ p, db.indexerCursors.lookup c = some p →
    ∃ e ∈ db.indexedEvents.ofContract c, e.position = p
  pulled : (∀ e ∈ source.logOf c, e.storable = true) →
    source.eventsAfter c (cursorOf db c) = []

theorem Settled.coherent (h : Settled c source db) : Coherent c (source.logOf c) db where
  stored := by
    rw [h.stored]
    exact List.takeWhile_prefix _
  cursor := h.cursor

theorem Settled.storable (h : Settled c source db) :
    ∀ e ∈ db.indexedEvents.ofContract c, e.storable = true := by
  intro e he
  rw [h.stored] at he
  exact List.mem_takeWhile_imp he

theorem Settled.of_same (h : Settled c source db)
    (hs : db'.indexedEvents.ofContract c = db.indexedEvents.ofContract c)
    (hc : db'.indexerCursors.lookup c = db.indexerCursors.lookup c) : Settled c source db' where
  stored := by rw [hs, h.stored]
  cursor := by
    rw [hs, hc]
    exact h.cursor
  pulled := by
    rw [cursorOf, hc]
    exact h.pulled

/-- Storing what the database takes of a pull completes what it takes of the log. -/
theorem Coherent.insertAll_takeWhile (h : Coherent c (source.logOf c) db)
    (hst : ∀ e ∈ db.indexedEvents.ofContract c, e.storable = true) :
    EventStore.ofContract (db.indexedEvents.insertAll
      ((source.eventsAfter c (cursorOf db c)).takeWhile ChainEvent.storable)) c =
      (source.logOf c).takeWhile ChainEvent.storable := by
  have hsplit := upTo_append_eventsAfter source c (cursorOf db c)
  have hupTo : ∀ e ∈ upTo (source.logOf c) (cursorOf db c), e.storable = true := fun e he =>
    hst e ((h.upTo_isPrefix rfl).subset he)
  obtain ⟨hlog, _, hcov⟩ := h.insertAll
    (List.takeWhile_append_dropWhile (p := ChainEvent.storable)).symm
  have htake : (source.logOf c).takeWhile ChainEvent.storable =
      upTo (source.logOf c) (cursorOf db c) ++
        (source.eventsAfter c (cursorOf db c)).takeWhile ChainEvent.storable := by
    conv_lhs => rw [← hsplit]
    exact List.takeWhile_append_of_pos hupTo
  rw [← htake] at hcov
  have hall : ∀ e ∈ EventStore.ofContract (db.indexedEvents.insertAll
      ((source.eventsAfter c (cursorOf db c)).takeWhile ChainEvent.storable)) c,
      e.storable = true := by
    intro e he
    obtain ⟨hrow, hc⟩ := EventStore.mem_ofContract.mp he
    rcases UniqueRows.mem_of_mem_insertAll hrow with hrow | hnew
    · exact hst e (EventStore.mem_ofContract.mpr ⟨hrow, hc⟩)
    · exact List.mem_takeWhile_imp hnew
  have hle : EventStore.ofContract (db.indexedEvents.insertAll
      ((source.eventsAfter c (cursorOf db c)).takeWhile ChainEvent.storable)) c <+:
      (source.logOf c).takeWhile ChainEvent.storable := by
    obtain ⟨t, ht⟩ := hlog
    conv_rhs => rw [← ht]
    rw [List.takeWhile_append_of_pos hall]
    exact List.prefix_append _ _
  exact hle.eq_of_length_le hcov.length_le

/-- Nothing comes after the last event of a pull. -/
theorem eventsAfter_last {p : Cursor} {z : ChainEvent}
    (hz : (source.eventsAfter c p).getLast? = some z) :
    source.eventsAfter c z.position = [] := by
  have hz' : z ∈ source.eventsAfter c p := List.mem_of_getLast? hz
  rw [EventSource.eventsAfter_eq] at hz hz' ⊢
  rw [List.filter_eq_nil_iff]
  intro e he hafter
  rw [decide_eq_true_eq] at hafter
  rw [List.mem_filter, decide_eq_true_eq] at hz'
  have hmem : e ∈ (source.logOf c).filter fun e => decide (p < e.position) := by
    rw [List.mem_filter, decide_eq_true_eq]
    exact ⟨he, lt_trans hz'.2 hafter⟩
  exact absurd hafter (not_lt.mpr (((source.logOf_ordered c).filter _).le_getLast hmem hz))

/-- **An undisturbed ingest** stores what the database takes of the log. -/
theorem Coherent.ingest_settles (h : Coherent c (source.logOf c) db)
    (hst : ∀ e ∈ db.indexedEvents.ofContract c, e.storable = true) :
    Settled c source ((ingest c).run (exec uuid source) db).2 := by
  have hraw := (ingest_effect (outcome_run (exec uuid source) (ingest c) db)).raw
  have hcoh := (h.step hraw).1
  have htake := h.insertAll_takeWhile hst
  obtain ⟨hidle, hblocked, hpulled⟩ := ingest_run uuid source c db
  by_cases hbad : ∃ e ∈ source.eventsAfter c (cursorOf db c), e.storable = false
  · obtain ⟨err, hrun⟩ := hblocked hbad
    rw [hrun] at hcoh ⊢
    refine ⟨htake, hcoh.cursor, ?_⟩
    intro hall
    obtain ⟨e, he, hs⟩ := hbad
    rw [hall e (List.mem_filter.mp he).1] at hs
    cases hs
  have hgood : ∀ e ∈ source.eventsAfter c (cursorOf db c), e.storable = true := by
    intro e he
    by_contra hs
    exact hbad ⟨e, he, by simpa using hs⟩
  rw [List.takeWhile_eq_self_iff.mpr hgood] at htake
  cases hz : (source.eventsAfter c (cursorOf db c)).getLast? with
  | none =>
      have hnil := List.getLast?_eq_none_iff.mp hz
      rw [hnil, UniqueRows.insertAll_nil] at htake
      rw [hidle hnil] at hcoh ⊢
      exact ⟨htake, hcoh.cursor, fun _ => hnil⟩
  | some z =>
      have hsame := hpulled z hz hgood
      refine ⟨?_, hcoh.cursor, ?_⟩
      · rw [hsame.events]
        exact htake
      · intro _
        rw [cursorOf, hsame.cursors]
        have hcur : cursorOf (db.pulled c (source.eventsAfter c (cursorOf db c)) z.position) c =
            z.position := cursorOf_upsert db c z.position
        rw [cursorOf] at hcur
        rw [hcur]
        exact eventsAfter_last hz

/-- Ingesting another contract leaves a settled one alone. -/
theorem Settled.other (h : Settled c source db) {c' : String} (hne : c ≠ c') :
    Settled c source ((ingest c').run (exec uuid source) db).2 := by
  have hraw := (ingest_effect (outcome_run (exec uuid source) (ingest c') db)).raw
  exact h.of_same (hraw.other hne).1 (hraw.other hne).2

theorem Settled.ingested (h : Settled c source db) (c' : String) :
    Settled c source ((ingest c').run (exec uuid source) db).2 := by
  by_cases hc : c = c'
  · subst hc
    exact h.coherent.ingest_settles h.storable
  · exact h.other hc

theorem Settled.ticked (h : Settled c source db) (contractIds : List String) :
    Settled c source (db.ticked uuid source contractIds) := by
  induction contractIds generalizing db with
  | nil => exact h
  | cons c' contractIds ih =>
      rw [(indexerTick_cons c' contractIds db).1]
      exact ih (h.ingested c')

/-- **An undisturbed tick** settles each of its contracts. -/
theorem Coherent.tick_settles {contractIds : List String} (hc : c ∈ contractIds)
    (h : Coherent c (source.logOf c) db)
    (hst : ∀ e ∈ db.indexedEvents.ofContract c, e.storable = true) :
    Settled c source (db.ticked uuid source contractIds) := by
  induction contractIds generalizing db with
  | nil => cases hc
  | cons c' contractIds ih =>
      rw [(indexerTick_cons c' contractIds db).1]
      by_cases hcc : c = c'
      · subst hcc
        exact (h.ingest_settles hst).ticked contractIds
      · have hother := (ingest_effect (outcome_run (exec uuid source) (ingest c')
          db)).raw.other hcc
        refine ih ((List.mem_cons.mp hc).resolve_left hcc) (h.of_same hother.1 hother.2) ?_
        rw [hother.1]
        exact hst

variable (uuid) in
/-- A settled contract is ingested without effect, and with an error exactly when the
database refuses one of its events. -/
theorem Settled.ingest_again {later : EventSource} (h : Settled c source db)
    (hlog : later.logOf c = source.logOf c) :
    ((∀ e ∈ source.logOf c, e.storable = true) →
      (ingest c).run (exec uuid later) db = (.ok 0, db)) ∧
    ((∃ e ∈ source.logOf c, e.storable = false) →
      ∃ err, (ingest c).run (exec uuid later) db = (.error err, db)) := by
  have hev : ∀ p, later.eventsAfter c p = source.eventsAfter c p := by
    intro p
    rw [EventSource.eventsAfter, EventSource.eventsAfter, hlog]
  obtain ⟨hidle, hblocked, _⟩ := ingest_run uuid later c db
  rw [hev] at hidle hblocked
  refine ⟨fun hall => hidle (h.pulled hall), ?_⟩
  intro hbad
  have hpull : ∃ e ∈ source.eventsAfter c (cursorOf db c), e.storable = false := by
    obtain ⟨e, he, hs⟩ := hbad
    rw [← upTo_append_eventsAfter source c (cursorOf db c), List.mem_append] at he
    rcases he with he | he
    · have hst := h.storable e ((h.coherent.upTo_isPrefix rfl).subset he)
      rw [hs] at hst
      cases hst
    · exact ⟨e, he, hs⟩
  obtain ⟨err, hrun⟩ := hblocked hpull
  -- what the pull could add is stored already
  have hsame : db.indexedEvents.insertAll
      ((source.eventsAfter c (cursorOf db c)).takeWhile ChainEvent.storable) =
      db.indexedEvents := by
    apply UniqueRows.insertAll_of_subset
    intro e he
    have hmem : e ∈ (source.logOf c).takeWhile ChainEvent.storable := by
      have hupTo : ∀ e ∈ upTo (source.logOf c) (cursorOf db c), e.storable = true := fun e he =>
        h.storable e ((h.coherent.upTo_isPrefix rfl).subset he)
      rw [← upTo_append_eventsAfter source c (cursorOf db c), List.takeWhile_append_of_pos hupTo]
      exact List.mem_append_right _ he
    rw [← h.stored] at hmem
    exact (EventStore.mem_ofContract.mp hmem).1
  rw [hsame] at hrun
  exact ⟨err, hrun⟩

/-! ## Over a run -/

theorem exec_storable {q : IndexerStmt} {a : q.Res} (h : exec uuid source q db = .ok (a, db'))
    (hdb : ∀ e ∈ db.indexedEvents.rows, e.storable = true) :
    ∀ e ∈ db'.indexedEvents.rows, e.storable = true := by
  cases q with
  | insertEvent x =>
      intro e he
      rw [exec] at h
      split at h
      · next hx =>
        cases h
        rcases UniqueRows.mem_of_mem_insert he with he | rfl
        · exact hdb e he
        · exact hx
      · cases h
  | applyEvent x =>
      rw [(applyEvent_raw h).events]
      exact hdb
  | deleteEvents c d =>
      cases h
      intro e he
      exact hdb e (List.mem_filter.mp he).1
  | upsertCursor _ _ | deleteCursor _ | selectCursor _ | eventsAfter _ _ | headLedger
  | selectFinalized _ _ =>
      cases h
      exact hdb

variable {F : EventSource → Failures indexer Db} {calls : List IngestCall}
  {contractIds : List String}

theorem IngestRun.stored_storable (hrun : IngestRun uuid F calls db) :
    ∀ e ∈ db.indexedEvents.rows, e.storable = true := by
  induction hrun with
  | start => simp [Db.empty]
  | call _ hout ih =>
      exact hout.keeps (P := fun db => ∀ e ∈ db.indexedEvents.rows, e.storable = true)
        (fun _ _ _ _ hx hdb => exec_storable hx hdb) ih

/-- Whatever failed so far, the contract is coherent with the source as it is now. -/
theorem IngestRun.coherent_now (hrun : IngestRun uuid F calls db) (hsrc : SourceExtends calls)
    (hext : Extends (deliveredTo c calls) (source.logOf c)) :
    Coherent c (source.logOf c) db := by
  obtain ⟨log, hlog, hcoh⟩ := hrun.deliveredLog hsrc c
  exact hcoh.mono (hlog.isPrefix hext (source.logOf_ordered c))

theorem IngestRun.settles (hrun : IngestRun uuid F calls db) (hsrc : SourceExtends calls)
    (hext : Extends (deliveredTo c calls) (source.logOf c)) (hc : c ∈ contractIds) :
    Settled c source (db.ticked uuid source contractIds) :=
  (hrun.coherent_now hsrc hext).tick_settles hc fun e he =>
    hrun.stored_storable e (EventStore.mem_ofContract.mp he).1

/-- The whole log of `c` is stored and there is nothing left to pull. -/
def UpToDate (c : String) (source : EventSource) (db : Db) : Prop :=
  db.indexedEvents.ofContract c = source.logOf c ∧
    source.eventsAfter c (cursorOf db c) = []

/-- **Catching up.** After any run of ingest calls, whatever failed in them, one tick
that nothing disturbs stores of every configured contract what the database takes of
its log, and brings it up to date exactly when the database takes all of it. No other
contract of the tick comes into it. -/
theorem tick_catches_up (hrun : IngestRun uuid F calls db) (hsrc : SourceExtends calls)
    (hext : Extends (deliveredTo c calls) (source.logOf c)) (hc : c ∈ contractIds) :
    (db.ticked uuid source contractIds).indexedEvents.ofContract c =
        (source.logOf c).takeWhile ChainEvent.storable ∧
      (UpToDate c source (db.ticked uuid source contractIds) ↔
        ∀ e ∈ source.logOf c, e.storable = true) := by
  have hset := hrun.settles hsrc hext hc
  refine ⟨hset.stored, ?_⟩
  constructor
  · intro h
    rw [← List.takeWhile_eq_self_iff, ← hset.stored, h.1]
  · intro hall
    exact ⟨by rw [hset.stored, List.takeWhile_eq_self_iff.mpr hall], hset.pulled hall⟩

/-- The second event of a contract of its own, with U+0000 in its payload. -/
def nulEvent : ChainEvent :=
  sampleEvent "CN" "escrow" "EscrowOpened" 99 [.str (String.singleton (Char.ofNat 0))]

def beforeNul : ChainEvent := sampleEvent "CN" "escrow" "EscrowOpened" 98 []

/-- `CN` logs what cannot be stored, `CV` a verification. -/
def nulSource (head : Int) : EventSource :=
  .ofList [beforeNul, nulEvent, sampleCreated] head (by decide) (by decide)

theorem sourceExtends_nil : SourceExtends [] := by
  intro earlier call later h
  simp at h

theorem extends_nil (log : List ChainEvent) : Extends [] log where
  keeps := by simp
  adds := by simp

theorem tick_catches_up_beside_nul :
    UpToDate "CV" (nulSource 120) (Db.empty.ticked noUuid (nulSource 120) ["CN", "CV"]) ∧
      ¬ UpToDate "CN" (nulSource 120)
        (Db.empty.ticked noUuid (nulSource 120) ["CN", "CV"]) := by
  have hstart : IngestRun noUuid (fun _ => anyFailure) [] Db.empty := .start
  constructor
  · apply (tick_catches_up hstart sourceExtends_nil (extends_nil _) (by simp)).2.mpr
    decide
  · intro h
    have hall := (tick_catches_up hstart sourceExtends_nil (extends_nil _) (by simp)).2.mp h
    revert hall
    decide

/-- **A further tick** over the same logs changes nothing at all, wherever the head has
moved to: no raw event, no cursor, no projection. It logs the contracts of which the
database refuses an event, and no others. -/
theorem further_tick (hrun : IngestRun uuid F calls db) (hsrc : SourceExtends calls)
    (hext : ∀ c ∈ contractIds, Extends (deliveredTo c calls) (source.logOf c))
    {later : EventSource} (hlog : ∀ c ∈ contractIds, later.logOf c = source.logOf c) :
    (db.ticked uuid source contractIds).ticked uuid later contractIds =
        db.ticked uuid source contractIds ∧
      (db.ticked uuid source contractIds).warned uuid later contractIds =
        contractIds.filter fun c => (source.logOf c).any fun e => !e.storable := by
  have hset : ∀ c ∈ contractIds, Settled c source (db.ticked uuid source contractIds) :=
    fun c hc => hrun.settles hsrc (hext c hc) hc
  generalize db.ticked uuid source contractIds = db at hset ⊢
  clear hrun hext
  induction contractIds with
  | nil => exact ⟨rfl, rfl⟩
  | cons c contractIds ih =>
      rw [List.forall_mem_cons] at hset hlog
      obtain ⟨hticked, hwarned⟩ := ih hlog.2 hset.2
      obtain ⟨hgood, hbad⟩ := hset.1.ingest_again uuid hlog.1
      rw [(indexerTick_cons c contractIds db).1, (indexerTick_cons c contractIds db).2]
      by_cases hall : ∀ e ∈ source.logOf c, e.storable = true
      · rw [hgood hall, List.filter_cons_of_neg (by simpa using hall)]
        exact ⟨hticked, hwarned⟩
      · have hex : ∃ e ∈ source.logOf c, e.storable = false := by simpa using hall
        obtain ⟨err, hrun⟩ := hbad hex
        rw [hrun, List.filter_cons_of_pos (by simpa using hex), ← hwarned]
        exact ⟨hticked, rfl⟩

theorem further_tick_head_moved :
    (Db.empty.ticked noUuid (nulSource 105) ["CN", "CV"]).ticked noUuid (nulSource 120)
        ["CN", "CV"] = Db.empty.ticked noUuid (nulSource 105) ["CN", "CV"] ∧
      (Db.empty.ticked noUuid (nulSource 105) ["CN", "CV"]).warned noUuid (nulSource 120)
        ["CN", "CV"] = ["CN"] := by
  have hstart : IngestRun noUuid (fun _ => anyFailure) [] Db.empty := .start
  have hlog : ∀ c ∈ ["CN", "CV"], (nulSource 120).logOf c = (nulSource 105).logOf c :=
    fun _ _ => rfl
  have h := further_tick hstart sourceExtends_nil (fun _ _ => extends_nil _) hlog
  refine ⟨h.1, h.2.trans ?_⟩
  decide

/-! ## An event that cannot be stored -/

theorem RawEffect.keeps_rows {delivered : List ChainEvent}
    (h : RawEffect source c db delivered db') {e : ChainEvent} (he : e ∈ db.indexedEvents.rows) :
    e ∈ db'.indexedEvents.rows := by
  cases h with
  | same hs =>
      rw [hs.events]
      exact he
  | stored _ hs _ =>
      rw [hs]
      exact UniqueRows.mem_insertAll_left he
  | pulled _ _ hs =>
      rw [hs.events]
      exact UniqueRows.mem_insertAll_left he

/-- What was applied is stored. -/
theorem IngestRun.applied_stored (hrun : IngestRun uuid F calls db) :
    ∀ e ∈ appliedHistory calls, e ∈ db.indexedEvents.rows := by
  induction hrun with
  | start => simp [appliedHistory]
  | call _ hout ih =>
      intro e he
      have heff := ingest_effect hout
      rw [appliedHistory_append, List.mem_append] at he
      rcases he with he | he
      · exact heff.raw.keeps_rows (ih e he)
      · exact (EventStore.mem_ofContract.mp (heff.applied_final he).1).1

/-- **An event that cannot be stored stops its contract** for good: in no run, however
often the contract is ingested, is this event or a later one of the contract stored or
applied, and the cursor never reaches it. -/
theorem unstorable_stops (hrun : IngestRun uuid F calls db) (hsrc : SourceExtends calls)
    (hext : Extends (deliveredTo c calls) (source.logOf c)) {e : ChainEvent}
    (he : e ∈ source.logOf c) (hs : e.storable = false) :
    (∀ x ∈ db.indexedEvents.ofContract c, x.position < e.position) ∧
      (∀ x ∈ appliedHistory calls, x.contractId = c → x.position < e.position) ∧
      cursorOf db c < e.position := by
  have hcoh := hrun.coherent_now hsrc hext
  have hstored : ∀ x ∈ db.indexedEvents.ofContract c, x.position < e.position := by
    intro x hx
    by_contra hle
    -- the raw events are a first part of the log, so `e` would be among them
    have hmem := (source.logOf_ordered c).covers_of_isPrefix hcoh.stored hx e he (not_lt.mp hle)
    have hst := hrun.stored_storable e (EventStore.mem_ofContract.mp hmem).1
    rw [hs] at hst
    cases hst
  refine ⟨hstored, ?_, ?_⟩
  · intro x hx hc
    exact hstored x (EventStore.mem_ofContract.mpr ⟨hrun.applied_stored x hx, hc⟩)
  · rw [cursorOf]
    cases hl : db.indexerCursors.lookup c with
    | none => exact source.afterStart e (EventSource.mem_logOf.mp he).1
    | some p =>
        obtain ⟨z, hz, rfl⟩ := hcoh.cursor p hl
        exact hstored z hz

/-- One call on the log with the U+0000. -/
def nulCall : IngestCall := .ofRun noUuid Db.empty "CN" (nulSource 120)

theorem unstorable_stops_one_call :
    (∀ x ∈ nulCall.after.indexedEvents.ofContract "CN", x.position < nulEvent.position) ∧
      (∀ x ∈ appliedHistory ([] ++ [nulCall]),
        x.contractId = "CN" → x.position < nulEvent.position) ∧
      cursorOf nulCall.after "CN" < nulEvent.position := by
  have hrun := IngestRun.ofRun (F := fun _ => anyFailure)
    (fun _ _ _ _ _ => trivial) (.start : IngestRun noUuid _ _ _) "CN" (nulSource 120)
  have hdelivered : deliveredTo "CN" ([] ++ [nulCall]) = [beforeNul, nulEvent] := rfl
  have hlog : (nulSource 120).logOf "CN" = [beforeNul, nulEvent] := rfl
  have hsrc : SourceExtends ([] ++ [nulCall]) := by
    intro earlier call later h
    cases earlier with
    | nil => exact extends_nil _
    | cons x earlier => simp at h
  have hext : Extends (deliveredTo "CN" ([] ++ [nulCall])) ((nulSource 120).logOf "CN") := by
    rw [hdelivered, hlog]
    exact ⟨fun e he => he, fun e he hne => absurd he hne⟩
  have hmem : nulEvent ∈ (nulSource 120).logOf "CN" := by
    rw [hlog]
    simp
  exact unstorable_stops hrun hsrc hext hmem (by decide)

end

end VerdantBackend
