import VerdantBackend.Indexer.Ingest

/-!
# Runs of ingest calls

A run is a list of calls from empty tables, of any contracts, each with the
source it saw. The invariant of one contract is `Coherent`: its raw events are
a first part of the log, and the cursor stands on one of them. A call that
pulls leaves the whole log stored, or a longer first part of it.
-/

namespace VerdantBackend

open Prog

/-- One call: what it saw, what it issued and returned, and the database before
and after. -/
structure IngestCall where
  contractId : String
  source : EventSource
  before : Db
  trace : List indexer.Obs
  result : Except ChainEventsError Nat
  after : Db

/-- `IngestRun uuid F calls db`: the calls, one after the other from empty
tables, leave `db`. `F` says which statements may fail. -/
inductive IngestRun (uuid : String → Option String) (F : EventSource → Failures indexer Db) :
    List IngestCall → Db → Prop where
  | start : IngestRun uuid F [] Db.empty
  | call {calls : List IngestCall} {call : IngestCall} :
      IngestRun uuid F calls call.before →
      Outcome (exec uuid call.source) (F call.source) (ingest call.contractId)
        call.before call.trace call.result call.after →
      IngestRun uuid F (calls ++ [call]) call.after

theorem IngestRun.call_effect {uuid : String → Option String}
    {F : EventSource → Failures indexer Db} {calls : List IngestCall} {db : Db}
    (hrun : IngestRun uuid F calls db) {call : IngestCall}
    (h : call ∈ calls) :
    IngestEffect uuid call.source (F call.source) call.contractId call.before call.trace
      call.result call.after := by
  induction hrun with
  | start => cases h
  | call _ hout ih =>
      rcases List.mem_append.mp h with h | h
      · exact ih h
      · rw [List.mem_singleton.mp h]
        exact ingest_effect hout

/-- The call as it goes when only the database itself refuses a statement. -/
def IngestCall.ofRun (uuid : String → Option String) (db : Db) (c : String)
    (source : EventSource) : IngestCall where
  contractId := c
  source := source
  before := db
  trace := (ingest c).trace (exec uuid source) db
  result := ((ingest c).run (exec uuid source) db).1
  after := ((ingest c).run (exec uuid source) db).2

/-- Executed calls extend a run. -/
theorem IngestRun.ofRun {uuid : String → Option String}
    {F : EventSource → Failures indexer Db}
    (hF : ∀ source q db err, exec uuid source q db = .error err → F source q db err)
    {calls : List IngestCall} {db : Db} (h : IngestRun uuid F calls db) (c : String)
    (source : EventSource) :
    IngestRun uuid F (calls ++ [.ofRun uuid db c source])
      (IngestCall.ofRun uuid db c source).after :=
  .call h ((outcome_run (exec uuid source) (ingest c) db).mono (hF source))

/-- An event for runs on fixed inputs, alone in its ledger. -/
def sampleEvent (contractId contractName eventName : String) (ledger : Int)
    (data : List Json) : ChainEvent :=
  ⟨contractId, contractName, eventName, ledger, 0, 0, .arr [], .arr data⟩

/-- The UUID parser on hex that is no UUID, as fixed inputs have it. -/
def noUuid : String → Option String := fun _ => none

/-- A created verification at ledger 100, the whole log of its contract. -/
def sampleCreated : ChainEvent :=
  sampleEvent "CV" "verification" "VerificationCreated" 100
    [.int 7, .str "b1", .str "GS", .str "0f1e", .str "GI", .int 100]

def sampleSource (head : Int) : EventSource :=
  .ofList [sampleCreated] head (by decide) (by decide)

/-- Events of one financing. -/
def financingEvent (eventName : String) (ledger : Int) (data : List Json) : ChainEvent :=
  sampleEvent "CF" "financing" eventName ledger (.int 3 :: data)

def financingCreated : ChainEvent :=
  financingEvent "FinancingCreated" 100 [.str "GF", .str "GB", .int 500, .int 0, .int 1,
    .arr [], .null, .int 0, .bool false, .null]

def financingDeposited : ChainEvent :=
  financingEvent "FinancingDeposited" 101 [.int 40, .int 101]

/-- The log of `c` only grows at its end. -/
def AppendOnly (c : String) (calls : List IngestCall) : Prop :=
  calls.Pairwise fun a b => a.contractId = c → b.contractId = c →
    a.source.logOf c <+: b.source.logOf c

/-- The heads seen by the calls of `c` never go back. -/
def HeadsGrow (c : String) (calls : List IngestCall) : Prop :=
  calls.Pairwise fun a b => a.contractId = c → b.contractId = c →
    a.source.head ≤ b.source.head

/-! ## Raw events of one contract -/

namespace EventStore

theorem ofContract_insertAll_ne {store : EventStore} {l : List ChainEvent} {c c' : String}
    (hl : ∀ e ∈ l, e.contractId = c) (hne : c' ≠ c) :
    ofContract (store.insertAll l) c' = store.ofContract c' := by
  induction l generalizing store with
  | nil => rfl
  | cons e l ih =>
      rw [UniqueRows.insertAll_cons, ih fun x hx => hl x (List.mem_cons_of_mem _ hx)]
      by_cases h : e.naturalKey ∈ store.rows.map ChainEvent.naturalKey
      · rw [ofContract, UniqueRows.insert_rows_of_mem h, ofContract]
      · have he : e.contractId ≠ c' := by
          rw [hl e List.mem_cons_self]
          exact Ne.symm hne
        rw [ofContract, UniqueRows.insert_rows_of_not_mem h, List.filter_append, ofContract]
        simp [he]

theorem naturalKey_mem_iff {store : EventStore} {e : ChainEvent} :
    e.naturalKey ∈ store.rows.map ChainEvent.naturalKey ↔
      e.naturalKey ∈ (store.ofContract e.contractId).map ChainEvent.naturalKey := by
  simp only [List.mem_map, mem_ofContract]
  constructor
  · intro h
    obtain ⟨x, hx, hk⟩ := h
    exact ⟨x, ⟨hx, congrArg Prod.fst hk⟩, hk⟩
  · intro h
    obtain ⟨x, ⟨hx, _⟩, hk⟩ := h
    exact ⟨x, hx, hk⟩

/-- The new ones are appended. -/
theorem ofContract_insertAll {store : EventStore} {l : List ChainEvent} {c : String}
    (hl : ∀ e ∈ l, e.contractId = c) (hnd : (l.map ChainEvent.naturalKey).Nodup) :
    ofContract (store.insertAll l) c = store.ofContract c ++
      Log.missing ChainEvent.naturalKey (store.ofContract c) l := by
  rw [ofContract, UniqueRows.insertAll_rows _ _ hnd, List.filter_append, ofContract,
    List.filter_filter]
  congr 1
  apply List.filter_congr
  intro e he
  have hc := hl e he
  subst hc
  rw [Bool.eq_iff_iff]
  simp only [decide_true, Bool.true_and, decide_eq_true_eq, naturalKey_mem_iff]
  rfl

theorem mem_finalized {store : EventStore} {c : String} {f : Int} {e : ChainEvent} :
    e ∈ store.finalized c f ↔ e ∈ store.ofContract c ∧ e.ledgerSequence ≤ f := by
  rw [finalized, List.mem_insertionSort, List.mem_filter, mem_ofContract]
  simp only [Bool.and_eq_true, decide_eq_true_eq, and_assoc]

/-- A pass takes the events in strict position order. -/
theorem finalized_ordered (store : EventStore) (c : String) (f : Int) :
    Log.Ordered ChainEvent.position (store.finalized c f) := by
  have hsorted : (store.finalized c f).Pairwise fun a b => a.position ≤ b.position :=
    List.pairwise_insertionSort _ _
  have hnd : (store.finalized c f).Nodup :=
    (List.perm_insertionSort _ _).nodup_iff.mpr (store.nodup.filter _)
  refine (List.Pairwise.and_mem.mp (hsorted.and hnd)).imp ?_
  intro a b hab
  obtain ⟨ha, hb, hle, hne⟩ := hab
  refine lt_of_le_of_ne hle ?_
  intro heq
  have ha' := mem_ofContract.mp (mem_finalized.mp ha).1
  have hb' := mem_ofContract.mp (mem_finalized.mp hb).1
  refine hne (store.eq_of_key ha'.1 hb'.1 ?_)
  rw [ChainEvent.naturalKey, ChainEvent.naturalKey, ha'.2, hb'.2, heq]

theorem finalized_eq_ofContract (store : EventStore) (c : String) (f : Int) :
    store.finalized c f = ((store.ofContract c).filter fun e => e.ledgerSequence ≤ f).insertionSort
      fun a b => a.position ≤ b.position := by
  rw [finalized, ofContract, List.filter_filter]
  congr 1
  apply List.filter_congr
  intro e _
  rw [Bool.and_comm]

/-- The finalized events of a contract whose raw events are in order. -/
theorem finalized_eq {store : EventStore} {c : String} (f : Int)
    (h : Log.Ordered ChainEvent.position (store.ofContract c)) :
    store.finalized c f = (store.ofContract c).filter fun e => e.ledgerSequence ≤ f := by
  rw [finalized_eq_ofContract]
  exact (h.filter _).insertionSort_eq fun a b hab => le_of_lt hab

end EventStore

/-! ## One contract -/

/-- The raw events of `c` are a first part of the log, and the cursor of `c`
stands on one of them. -/
structure Coherent (c : String) (log : List ChainEvent) (db : Db) : Prop where
  stored : db.indexedEvents.ofContract c <+: log
  cursor : ∀ p, db.indexerCursors.lookup c = some p →
    ∃ e ∈ db.indexedEvents.ofContract c, e.position = p

theorem Coherent.empty (c : String) (log : List ChainEvent) : Coherent c log Db.empty where
  stored := List.nil_prefix
  cursor := by
    intro p hp
    simp [Db.empty] at hp

theorem Coherent.mono {c : String} {log log' : List ChainEvent} {db : Db}
    (h : Coherent c log db) (hlog : log <+: log') : Coherent c log' db :=
  ⟨h.stored.trans hlog, h.cursor⟩

theorem Coherent.of_same {c : String} {log : List ChainEvent} {db db' : Db}
    (h : Coherent c log db) (hs : db'.indexedEvents.ofContract c = db.indexedEvents.ofContract c)
    (hc : db'.indexerCursors.lookup c = db.indexerCursors.lookup c) : Coherent c log db' := by
  refine ⟨?_, ?_⟩
  · rw [hs]
    exact h.stored
  · rw [hs, hc]
    exact h.cursor

/-- What the call did to raw events and cursors. -/
inductive RawEffect (source : EventSource) (c : String) (db : Db) :
    List ChainEvent → Db → Prop where
  | same {db'} : SameRawStore db db' → RawEffect source c db [] db'
  | stored {l₁ l₂ db'} : source.eventsAfter c (cursorOf db c) = l₁ ++ l₂ →
      db'.indexedEvents = db.indexedEvents.insertAll l₁ →
      db'.indexerCursors = db.indexerCursors → RawEffect source c db (l₁ ++ l₂) db'
  | pulled {events z db'} : source.eventsAfter c (cursorOf db c) = events →
      events.getLast? = some z →
      SameRawStore (db.pulled c events z.position) db' → RawEffect source c db events db'

section
variable {uuid : String → Option String} {source : EventSource} {F : Failures indexer Db}
  {c : String} {db db' : Db} {tr : List indexer.Obs} {r : Except ChainEventsError Nat}

theorem IngestEffect.raw (h : IngestEffect uuid source F c db tr r db') :
    RawEffect source c db (deliveredIn tr) db' := by
  cases h with
  | unpulled hq =>
      rw [hq.delivered]
      exact .same (.refl db)
  | idle _ hq =>
      rw [hq.delivered]
      exact .same (.refl db)
  | stored hev hs =>
      rw [hs.delivered]
      exact .stored hev rfl rfl
  | unprojected hev hz hs _ =>
      rw [hs.delivered]
      exact .pulled hev hz (.refl _)
  | aborted hev hz _ hs hall _ =>
      rw [hs.delivered]
      exact .pulled hev hz (applyAll_raw hall)
  | completed hev hz _ hs hall =>
      rw [hs.delivered]
      exact .pulled hev hz (applyAll_raw hall)

theorem eventsAfter_contractId {e : ChainEvent} (p : Cursor)
    (he : e ∈ source.eventsAfter c p) : e.contractId = c := by
  rw [EventSource.eventsAfter] at he
  exact (EventSource.mem_logOf.mp (List.mem_filter.mp he).1).2

theorem eventsAfter_naturalKey_nodup (source : EventSource) (c : String) (p : Cursor) :
    ((source.eventsAfter c p).map ChainEvent.naturalKey).Nodup :=
  (source.logOf_naturalKey_nodup c).sublist (List.filter_sublist.map _)

/-- A call of `c` does not touch the raw events and the cursor of another
contract. -/
theorem RawEffect.other {delivered : List ChainEvent} {c' : String}
    (h : RawEffect source c db delivered db') (hne : c' ≠ c) :
    db'.indexedEvents.ofContract c' = db.indexedEvents.ofContract c' ∧
      db'.indexerCursors.lookup c' = db.indexerCursors.lookup c' := by
  cases h with
  | same h =>
      rw [h.events, h.cursors]
      exact ⟨rfl, rfl⟩
  | @stored l₁ l₂ _ hev hs hc =>
      rw [hs, hc]
      refine ⟨EventStore.ofContract_insertAll_ne (c := c) (fun e he => ?_) hne, rfl⟩
      exact eventsAfter_contractId (cursorOf db c) (hev ▸ List.mem_append_left _ he)
  | pulled hev _ h =>
      rw [h.events, h.cursors]
      refine ⟨EventStore.ofContract_insertAll_ne (c := c) (fun e he => ?_) hne, ?_⟩
      · exact eventsAfter_contractId (cursorOf db c) (hev ▸ he)
      · exact Table.lookup_upsert_ne _ _ _ hne

/-- What is stored was there before or is in the log. -/
theorem RawEffect.stored_from {delivered : List ChainEvent}
    (h : RawEffect source c db delivered db') {e : ChainEvent}
    (he : e ∈ db'.indexedEvents.rows) : e ∈ db.indexedEvents.rows ∨ e ∈ source.logOf c := by
  have hlog : ∀ {l₁ l₂}, source.eventsAfter c (cursorOf db c) = l₁ ++ l₂ →
      e ∈ (db.indexedEvents.insertAll l₁).rows →
      e ∈ db.indexedEvents.rows ∨ e ∈ source.logOf c := by
    intro l₁ l₂ hev h
    refine (UniqueRows.mem_of_mem_insertAll h).imp_right fun hmem => ?_
    exact (List.mem_filter.mp (hev ▸ List.mem_append_left l₂ hmem)).1
  cases h with
  | same hs => exact .inl (hs.events ▸ he)
  | stored hev hs _ => exact hlog hev (hs ▸ he)
  | pulled hev _ hs =>
      rw [hs.events] at he
      exact hlog (hev.trans (List.append_nil _).symm) he

/-- The part of the log that is not pulled again. -/
def upTo (log : List ChainEvent) (p : Cursor) : List ChainEvent :=
  log.filter fun e => e.position ≤ p

theorem upTo_append_eventsAfter (source : EventSource) (c : String) (p : Cursor) :
    upTo (source.logOf c) p ++ source.eventsAfter c p = source.logOf c := by
  rw [EventSource.eventsAfter_eq]
  exact (source.logOf_ordered c).upTo_append_after p

/-- Everything up to the cursor is stored. -/
theorem Coherent.covered {log : List ChainEvent} (h : Coherent c log db)
    (hlog : Log.Ordered ChainEvent.position log) (hstart : ∀ e ∈ log, Cursor.START < e.position) :
    ∀ e ∈ log, e.position ≤ cursorOf db c → e ∈ db.indexedEvents.ofContract c := by
  intro e he hle
  rw [cursorOf] at hle
  cases hl : db.indexerCursors.lookup c with
  | none =>
      rw [hl] at hle
      exact absurd hle (not_le.mpr (hstart e he))
  | some p =>
      rw [hl] at hle
      obtain ⟨z, hz, rfl⟩ := h.cursor p hl
      exact hlog.covers_of_isPrefix h.stored hz e he hle

theorem Coherent.upTo_isPrefix {log : List ChainEvent} (h : Coherent c log db)
    (hlog : log = source.logOf c) :
    upTo log (cursorOf db c) <+: db.indexedEvents.ofContract c := by
  subst hlog
  refine (source.logOf_ordered c).upTo_isPrefix h.stored ?_
  exact h.covered (source.logOf_ordered c) fun e he =>
    source.afterStart e (EventSource.mem_logOf.mp he).1

/-- **Storing a first part of what was pulled** keeps the raw events a first
part of the log, with everything the cursor or the pull covers. -/
theorem Coherent.insertAll (h : Coherent c (source.logOf c) db) {l₁ l₂ : List ChainEvent}
    (hev : source.eventsAfter c (cursorOf db c) = l₁ ++ l₂) :
    (EventStore.ofContract (db.indexedEvents.insertAll l₁) c <+: source.logOf c) ∧
      db.indexedEvents.ofContract c <+:
        EventStore.ofContract (db.indexedEvents.insertAll l₁) c ∧
      upTo (source.logOf c) (cursorOf db c) ++ l₁ <+:
        EventStore.ofContract (db.indexedEvents.insertAll l₁) c := by
  have hc : ∀ e ∈ l₁, e.contractId = c := by
    intro e he
    exact eventsAfter_contractId (cursorOf db c) (hev ▸ List.mem_append_left _ he)
  have hnd : (l₁.map ChainEvent.naturalKey).Nodup := by
    have hall := eventsAfter_naturalKey_nodup source c (cursorOf db c)
    rw [hev, List.map_append] at hall
    exact (List.nodup_append.mp hall).1
  have hux : upTo (source.logOf c) (cursorOf db c) ++ l₁ <+: source.logOf c := by
    refine ⟨l₂, ?_⟩
    rw [List.append_assoc, ← hev]
    exact upTo_append_eventsAfter source c _
  rw [EventStore.ofContract_insertAll hc hnd]
  rcases Log.append_missing (source.logOf_naturalKey_nodup c) h.stored (h.upTo_isPrefix rfl) hux
    with ⟨heq, hle⟩ | ⟨heq, hle⟩
  · rw [heq]
    exact ⟨h.stored, List.prefix_rfl, hle⟩
  · rw [heq]
    exact ⟨hux, hle, List.prefix_rfl⟩

/-- **A whole pull leaves the whole log.** -/
theorem Coherent.pulled_ofContract (h : Coherent c (source.logOf c) db)
    {events : List ChainEvent} (hev : source.eventsAfter c (cursorOf db c) = events) (p : Cursor) :
    (db.pulled c events p).indexedEvents.ofContract c = source.logOf c := by
  have hev' : source.eventsAfter c (cursorOf db c) = events ++ [] := by
    rw [hev, List.append_nil]
  obtain ⟨h₁, _, h₂⟩ := h.insertAll hev'
  rw [← hev, upTo_append_eventsAfter] at h₂
  rw [hev] at h₂
  exact h₁.eq_of_length_le h₂.length_le

/-- The list a projection pass works through. -/
theorem Coherent.pulled_finalized (h : Coherent c (source.logOf c) db)
    {events : List ChainEvent} (hev : source.eventsAfter c (cursorOf db c) = events)
    (p : Cursor) (f : Int) :
    (db.pulled c events p).indexedEvents.finalized c f =
      (source.logOf c).filter fun e => e.ledgerSequence ≤ f := by
  have hlog := h.pulled_ofContract hev p
  rw [EventStore.finalized_eq, hlog]
  rw [hlog]
  exact source.logOf_ordered c

/-- **One call keeps the contract coherent** with the log it saw. -/
theorem Coherent.step {delivered : List ChainEvent} (h : Coherent c (source.logOf c) db)
    (hr : RawEffect source c db delivered db') :
    Coherent c (source.logOf c) db' ∧
      db.indexedEvents.ofContract c <+: db'.indexedEvents.ofContract c := by
  cases hr with
  | same hs =>
      rw [hs.events]
      refine ⟨h.of_same ?_ ?_, List.prefix_rfl⟩
      · rw [hs.events]
      · rw [hs.cursors]
  | stored hev hs hc =>
      obtain ⟨h₁, h₂, _⟩ := h.insertAll hev
      rw [← hs] at h₁ h₂
      refine ⟨⟨h₁, ?_⟩, h₂⟩
      intro p hp
      rw [hc] at hp
      obtain ⟨e, he, rfl⟩ := h.cursor p hp
      exact ⟨e, h₂.subset he, rfl⟩
  | @pulled _ z _ hev hz hs =>
      have hlog := h.pulled_ofContract hev z.position
      rw [← hs.events] at hlog
      refine ⟨⟨?_, ?_⟩, ?_⟩
      · rw [hlog]
      · intro p hp
        rw [hs.cursors] at hp
        simp only [Db.pulled, Table.lookup_upsert_self, Option.some.injEq] at hp
        refine ⟨z, ?_, ?_⟩
        · rw [hlog]
          have hmem : z ∈ source.eventsAfter c (cursorOf db c) :=
            hev ▸ List.mem_of_getLast? hz
          exact (List.mem_filter.mp hmem).1
        · rw [← hp]
          cases db.indexerCursors.lookup c <;> rfl
      · rw [hlog]
        exact h.stored

/-- A row after a call is the replay of what the call applied. -/
theorem IngestEffect.lookup {ρ : Type} (P : Projection uuid ρ)
    (h : IngestEffect uuid source F c db tr r db') (id : String) :
    (P.table db').lookup id =
      RowChange.replay P.change id (appliedIn tr) ((P.table db).lookup id) := by
  cases h with
  | unpulled hq | idle _ hq =>
      rw [hq.applied]
      rfl
  | stored _ hs | unprojected _ _ hs _ =>
      rw [hs.applied, RowChange.replay_nil]
      exact congrArg (Finmap.lookup id) (P.raw db _ _)
  | aborted _ _ _ hs hall _ | completed _ _ _ hs hall =>
      rw [hs.applied, P.applyAll hall]
      congr 2
      exact P.raw db _ _

end

/-- Everything the calls applied, in order. -/
def appliedHistory (calls : List IngestCall) : List ChainEvent :=
  calls.flatMap fun call => appliedIn call.trace

theorem appliedHistory_append (calls : List IngestCall) (call : IngestCall) :
    appliedHistory (calls ++ [call]) = appliedHistory calls ++ appliedIn call.trace := by
  simp [appliedHistory]

/-- **Rows after a run**: the replay of everything that was applied. -/
theorem IngestRun.lookup {uuid : String → Option String} {ρ : Type} (P : Projection uuid ρ)
    {F : EventSource → Failures indexer Db} {calls : List IngestCall} {db : Db}
    (hrun : IngestRun uuid F calls db) (id : String) :
    (P.table db).lookup id = RowChange.replay P.change id (appliedHistory calls) none := by
  induction hrun with
  | start => exact P.empty id
  | call _ hout ih =>
      rw [appliedHistory_append, RowChange.replay_append, ← ih]
      exact (ingest_effect hout).lookup P id

end VerdantBackend
