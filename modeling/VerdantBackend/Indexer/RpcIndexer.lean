import VerdantBackend.Indexer.IngestTerms
import VerdantBackend.Indexer.Passes
import VerdantBackend.Indexer.Rounds
import VerdantBackend.Indexer.RpcOrder
import VerdantBackend.Indexer.RpcPaging

/-!
# The indexer over an RPC server

The polling loop with `RpcEventSource` as its source. A server that serves its logs
in pages is an event source: what the loop does over the server it does over the
source, statement by statement. So a tick leaves in the raw store what the server
has logged, decoded, in the order of the chain.
-/

namespace VerdantBackend

open Prog
open RpcEventSource

/-- A Soroban RPC server as it documents itself: what it logs of the contracts the
indexer is configured for, and how it serves that. -/
structure RpcServer (P : RpcPackages) (contracts : String → Option String)
    (contractIds : List String) where
  /-- `Client::get_events`. -/
  getEvents : EventStart → List String → Nat → Except String EventPage
  pageLimit : Nat
  /-- `Client::get_latest_ledger`. -/
  latestLedger : UInt32
  log : String → List RpcEvent
  ledger : RpcEvent → UInt32
  limit_pos : 1 ≤ pageLimit
  serves : ∀ c ∈ contractIds,
    RpcEventSource.Serves P ⟨getEvents, contracts, pageLimit⟩ c ledger (log c)
  /-- It was asked for one contract. -/
  own : ∀ c ∈ contractIds, ∀ ev ∈ log c, ev.contractId = c
  /-- In chain order: by TOID, then by event index. -/
  emitted : ∀ c ∈ contractIds, (log c).Pairwise fun a b => ∀ ta ia tb ib,
    P.parseCursor a.id = some (ta, ia) → P.parseCursor b.id = some (tb, ib) →
      ta.toNat < tb.toNat ∨ ta.toNat = tb.toNat ∧ ia.toInt < ib.toInt
  /-- A ledger has fewer than 2 ^ 19 transactions. -/
  lowHalf : ∀ c ∈ contractIds, ∀ ev ∈ log c, ∀ toid index,
    P.parseCursor ev.id = some (toid, index) → toid.toNat % 2 ^ 32 < 2 ^ 31

namespace RpcServer

variable {P : RpcPackages} {contracts : String → Option String} {contractIds : List String}
  (server : RpcServer P contracts contractIds)

/-- The `RpcEventSource` over the server. -/
def source : RpcEventSource := ⟨server.getEvents, contracts, server.pageLimit⟩

/-- What decodes of the log of a contract. -/
def decodedLog (c : String) : List ChainEvent :=
  (server.log c).filterMap fun ev => decodeRpcEvent P ev ((contracts c).getD "unknown")

variable {server} {c : String}

theorem mem_decodedLog {e : ChainEvent} (hc : c ∈ contractIds) (he : e ∈ server.decodedLog c) :
    e.contractId = c ∧ Cursor.START < e.position ∧ e.ledgerSequence < 2 ^ 32 := by
  obtain ⟨ev, hev, hdecoded⟩ := List.mem_filterMap.mp he
  obtain ⟨_, _, _, toid, index, _, _, _, _, _, hparsed, _, _, rfl⟩ :=
    (decodeRpcEvent_eq_some P).mp hdecoded
  have htoid := (server.serves c hc).toid ev hev toid index hparsed
  have hpos : 1 ≤ (server.ledger ev).toNat :=
    UInt32.le_iff_toNat_le.mp ((server.serves c hc).positive ev hev)
  have hlt := (server.ledger ev).toNat_lt
  refine ⟨server.own c hc ev hev, ?_, ?_⟩
  · rw [Cursor.lt_iff]
    left
    show (0 : Int) < ((toid >>> 32).toNat : Int)
    omega
  · show ((toid >>> 32).toNat : Int) < 2 ^ 32
    omega

theorem decodedLog_ordered (hc : c ∈ contractIds) :
    Log.Ordered ChainEvent.position (server.decodedLog c) := by
  rw [Log.Ordered, decodedLog, List.pairwise_filterMap]
  have hlog := List.Pairwise.and_mem.mp (server.emitted c hc)
  apply hlog.imp
  intro a b hab e he f hf
  obtain ⟨ha, hb, hlt⟩ := hab
  obtain ⟨_, _, _, ta, ia, _, _, _, _, _, hpa, _, _, _⟩ := (decodeRpcEvent_eq_some P).mp he
  obtain ⟨_, _, _, tb, ib, _, _, _, _, _, hpb, _, _, _⟩ := (decodeRpcEvent_eq_some P).mp hf
  have hemitted : (⟨a, _, ta, ia, e, hpa, he⟩ : AcceptedEvent P).emitted <
      (⟨b, _, tb, ib, f, hpb, hf⟩ : AcceptedEvent P).emitted :=
    AcceptedEvent.emitted_lt_iff.mpr (hlt ta ia tb ib hpa hpb)
  apply (AcceptedEvent.position_lt_iff hemitted).mpr
  right
  exact iff_of_true (server.lowHalf c hc a ha ta ia hpa) (server.lowHalf c hc b hb tb ib hpb)

/-- Of lists put together, each with its own key, one key gives one list back. -/
theorem filter_flatMap_own {α : Type} {key : α → String} {f : String → List α} {ids : List String}
    (hf : ∀ i ∈ ids, ∀ a ∈ f i, key a = i) (hids : ids.Nodup) (c : String) :
    (ids.flatMap f).filter (fun a => key a = c) = if c ∈ ids then f c else [] := by
  induction ids with
  | nil => rfl
  | cons i ids ih =>
      rw [List.nodup_cons] at hids
      rw [List.forall_mem_cons] at hf
      rw [List.flatMap_cons, List.filter_append, ih hf.2 hids.2]
      by_cases hc : c = i
      · subst hc
        have hall : (f c).filter (fun a => key a = c) = f c := by
          rw [List.filter_eq_self]
          intro a ha
          simp [hf.1 a ha]
        simp [hids.1, hall]
      · have hnone : (f i).filter (fun a => key a = c) = [] := by
          rw [List.filter_eq_nil_iff]
          intro a ha
          simp [hf.1 a ha, Ne.symm hc]
        simp [hc, hnone]

theorem filter_decodedLogs (server : RpcServer P contracts contractIds) (c : String) :
    (contractIds.dedup.flatMap server.decodedLog).filter (fun e => e.contractId = c) =
      if c ∈ contractIds then server.decodedLog c else [] := by
  rw [filter_flatMap_own (fun i hi e he => (mem_decodedLog (List.mem_dedup.mp hi) he).1)
    (List.nodup_dedup _)]
  simp only [List.mem_dedup]

/-- **The server as an event source.** -/
def chain (server : RpcServer P contracts contractIds) : EventSource where
  events := contractIds.dedup.flatMap server.decodedLog
  head := server.latestLedger.toNat
  ordered := by
    intro c
    rw [filter_decodedLogs]
    split
    · next hc => exact decodedLog_ordered hc
    · exact List.Pairwise.nil
  afterStart := by
    intro e he
    obtain ⟨c, hc, he⟩ := List.mem_flatMap.mp he
    exact (mem_decodedLog (List.mem_dedup.mp hc) he).2.1

theorem logOf_chain (server : RpcServer P contracts contractIds) (hc : c ∈ contractIds) :
    server.chain.logOf c = server.decodedLog c := by
  rw [EventSource.logOf, chain, filter_decodedLogs, if_pos hc]

theorem logOf_chain_of_not_mem (server : RpcServer P contracts contractIds)
    (hc : c ∉ contractIds) : server.chain.logOf c = [] := by
  rw [EventSource.logOf, chain, filter_decodedLogs, if_neg hc]

end RpcServer

/-- The execution of a statement with the server as the source. The loop of
`events_after` is given a round more than the server has events. -/
def execRpc {P : RpcPackages} {contracts : String → Option String} {contractIds : List String}
    (uuid : String → Option String) (server : RpcServer P contracts contractIds) :
    indexer.Handler Db
  | .eventsAfter c cursor, db =>
    match server.source.eventsAfter P c cursor ((server.log c).length + 1) with
    | some (.ok events) => .ok (events, db)
    | some (.error err) => .error err
    | none => .error (.unavailable "still fetching")
  | .headLedger, db => .ok ((server.latestLedger.toNat : Int), db)
  | q, db => exec uuid server.chain q db

/-- What the loop issues over the server: it asks for configured contracts, from ledgers
that exist. -/
def RpcAllowed (contractIds : List String) : IndexerStmt → Prop
  | .eventsAfter c p => c ∈ contractIds ∧ p.ledgerSequence < 2 ^ 32
  | .upsertCursor _ p => p.ledgerSequence < 2 ^ 32
  | _ => True

/-- Cursors and events are of ledgers that exist. -/
def RpcPromised : (q : IndexerStmt) → q.Res → Prop
  | .selectCursor _, row => ∀ p, row = some p → p.ledgerSequence < 2 ^ 32
  | .eventsAfter _ _, events => ∀ e ∈ events, e.ledgerSequence < 2 ^ 32
  | _, _ => True

/-- Every persisted cursor is of a ledger that exists. -/
def CursorsFit (db : Db) : Prop :=
  ∀ c p, db.indexerCursors.lookup c = some p → p.ledgerSequence < 2 ^ 32

section
variable {P : RpcPackages} {contracts : String → Option String} {contractIds : List String}
  {uuid : String → Option String} {server : RpcServer P contracts contractIds} {db db' : Db}

/-- **A statement over the server** is answered as the event source answers it. -/
theorem execRpc_eq {q : IndexerStmt} (hq : RpcAllowed contractIds q) :
    execRpc uuid server q db = exec uuid server.chain q db := by
  cases q with
  | eventsAfter c p =>
      obtain ⟨hc, hp⟩ := hq
      have hpaged := RpcEventSource.eventsAfter_eq_source (server.serves c hc) server.limit_pos hp
        (Nat.lt_succ_self _) (server.logOf_chain hc)
      rw [execRpc, RpcServer.source, hpaged]
      rfl
  | headLedger | selectCursor _ | insertEvent _ | upsertCursor _ _ | selectFinalized _ _
  | applyEvent _ | deleteEvents _ _ | deleteCursor _ => rfl

/-- Its answer is of ledgers that exist, and the cursors stay so. -/
theorem exec_promises {q : IndexerStmt} {a : q.Res} (hq : RpcAllowed contractIds q)
    (hdb : CursorsFit db) (h : exec uuid server.chain q db = .ok (a, db')) :
    RpcPromised q a ∧ CursorsFit db' := by
  cases q with
  | selectCursor c =>
      cases h
      exact ⟨fun p hp => hdb c p hp, hdb⟩
  | eventsAfter c p =>
      cases h
      refine ⟨?_, hdb⟩
      intro e he
      have hlog := (List.mem_filter.mp he).1
      rw [server.logOf_chain hq.1] at hlog
      exact (RpcServer.mem_decodedLog hq.1 hlog).2.2
  | headLedger | selectFinalized _ _ =>
      cases h
      exact ⟨trivial, hdb⟩
  | insertEvent e =>
      rw [exec_insertEvent h]
      exact ⟨trivial, hdb⟩
  | upsertCursor c p =>
      cases h
      refine ⟨trivial, ?_⟩
      intro c' p' hp'
      by_cases hc : c' = c
      · subst hc
        rw [Table.lookup_upsert_self] at hp'
        have heq : p = p' := by
          cases hl : db.indexerCursors.lookup c' <;> simpa [hl] using hp'
        rw [← heq]
        exact hq
      · rw [Table.lookup_upsert_ne _ _ _ hc] at hp'
        exact hdb c' p' hp'
  | applyEvent e =>
      refine ⟨trivial, ?_⟩
      intro c p hp
      rw [(applyEvent_raw h).cursors] at hp
      exact hdb c p hp
  | deleteEvents c d =>
      cases h
      exact ⟨trivial, hdb⟩
  | deleteCursor c =>
      cases h
      refine ⟨trivial, ?_⟩
      intro c' p hp
      by_cases hc : c' = c
      · subst hc
        simp [Finmap.lookup_erase] at hp
      · exact hdb c' p ((Finmap.lookup_erase_ne hc).symm.trans hp)

theorem ingest_rpcTerms {c : String} (hc : c ∈ contractIds) :
    IngestTerms (RpcAllowed contractIds) RpcPromised c (fun p => p.ledgerSequence < 2 ^ 32)
      (fun e => e.ledgerSequence < 2 ^ 32) (fun _ => True) (fun _ => True) where
  selectCursor := trivial
  start := by decide
  resume p h := h p rfl
  eventsAfter _ h := ⟨hc, h⟩
  pulled _ _ h := h
  headLedger := trivial
  floor _ _ := trivial
  insertEvent _ _ := trivial
  upsertCursor _ h := h
  selectFinalized _ _ := trivial
  final _ _ _ _ _ _ := trivial
  applyEvent _ _ := trivial

theorem indexerTick_issues {ids : List String} (hids : ∀ c ∈ ids, c ∈ contractIds) :
    Issues (I := indexer) (RpcAllowed contractIds) RpcPromised (fun _ => True)
      (indexerTick ids) := by
  induction ids with
  | nil => trivial
  | cons c ids ih =>
      rw [List.forall_mem_cons] at hids
      apply (ingest_rpcTerms hids.1).ingest_issues.attempt.bind
      intro result _
      apply (ih hids.2).bind
      intro warned _
      cases result <;> trivial

/-- **Simulation**: a tick over the server is a tick over the event source, whatever
fails on the way. -/
theorem rpc_tick_simulated {F G : Failures indexer Db} {tr : List indexer.Obs}
    {r : Except Unit (List (String × ChainEventsError))} (hdb : CursorsFit db)
    (hF : ∀ q s e, RpcAllowed contractIds q → F q s e → G q s e)
    (h : Outcome (execRpc uuid server) F (indexerTick contractIds) db tr r db') :
    Outcome (exec uuid server.chain) G (indexerTick contractIds) db tr r db' ∧
      CursorsFit db' := by
  refine Issues.outcome_same (W := CursorsFit) ?_ ?_ ?_ h (indexerTick_issues fun _ h => h) hdb
  · intro q s hq _
    exact execRpc_eq hq
  · intro q s a s' hq hs hx
    rw [execRpc_eq hq] at hx
    exact exec_promises hq hs hx
  · intro q s e hq _ hfail
    exact hF q s e hq hfail

/-- The database after a tick over the server that nothing disturbs. -/
def Db.rpcTicked (uuid : String → Option String) (server : RpcServer P contracts contractIds)
    (db : Db) : Db :=
  ((indexerTick contractIds).run (execRpc uuid server) db).2

theorem rpcTicked_eq (hdb : CursorsFit db) :
    db.rpcTicked uuid server = db.ticked uuid server.chain contractIds := by
  have hsim := rpc_tick_simulated (G := ownFailures (exec uuid server.chain)) hdb (by
    intro q s e hq hfail
    rw [ownFailures, ← execRpc_eq hq]
    exact hfail) (outcome_run (execRpc uuid server) (indexerTick contractIds) db)
  have hrun := hsim.1.run_eq.1
  rw [Db.rpcTicked, Db.ticked, hrun]

/-! ## The loop -/

/-- The logs only grow at their ends. -/
def RpcServer.Grows (server later : RpcServer P contracts contractIds) : Prop :=
  ∀ c ∈ contractIds, server.log c <+: later.log c

/-- The loop of `spawn_indexer` from empty tables: ticks over the server as it was at each
of them, whatever failed, the last one over `server`. -/
inductive RpcLoop (uuid : String → Option String) :
    RpcServer P contracts contractIds → Db → Prop where
  | start (server : RpcServer P contracts contractIds) : RpcLoop uuid server Db.empty
  | tick {server later : RpcServer P contracts contractIds} {db tr r db'} :
      RpcLoop uuid server db → server.Grows later →
      Outcome (execRpc uuid later) anyFailure (indexerTick contractIds) db tr r db' →
      RpcLoop uuid later db'

theorem RpcServer.Grows.logOf {later : RpcServer P contracts contractIds}
    (h : server.Grows later) (c : String) : server.chain.logOf c <+: later.chain.logOf c := by
  by_cases hc : c ∈ contractIds
  · rw [server.logOf_chain hc, later.logOf_chain hc]
    exact (h c hc).filterMap _
  · rw [server.logOf_chain_of_not_mem hc]
    exact List.nil_prefix

/-- The loop is a run of ingest calls over growing event sources. -/
theorem RpcLoop.ingestRun (h : RpcLoop uuid server db) :
    CursorsFit db ∧ ∃ calls, IngestRun uuid (fun _ => anyFailure) calls db ∧
      (∀ c, AppendOnly c calls) ∧
      ∀ c, ∀ call ∈ calls, call.source.logOf c <+: server.chain.logOf c := by
  induction h with
  | start =>
      refine ⟨?_, [], .start, fun _ => List.Pairwise.nil, by simp⟩
      intro c p hp
      simp [Db.empty] at hp
  | @tick server later db tr r db' _ hgrows hout ih =>
      obtain ⟨hfit, calls, hrun, happ, hlogs⟩ := ih
      obtain ⟨hsim, hfit'⟩ := rpc_tick_simulated (G := anyFailure) hfit
        (fun _ _ _ _ _ => trivial) hout
      obtain ⟨turn, hrun', _, hsource, _⟩ := hrun.tick hsim
      refine ⟨hfit', calls ++ turn, hrun', ?_, ?_⟩
      · intro c
        exact (happ c).extend (fun call hcall => (hlogs c call hcall).trans (hgrows.logOf c))
          hsource
      · intro c call hcall
        rcases List.mem_append.mp hcall with hcall | hcall
        · exact (hlogs c call hcall).trans (hgrows.logOf c)
        · rw [hsource call hcall]

/-- **From the server to the raw store.** However the ticks so far went, one more that
nothing disturbs leaves in the raw store, of every configured contract, what decodes of
its log in chain order, up to the first event that the database refuses. -/
theorem rpc_loop_stores {later : RpcServer P contracts contractIds}
    (h : RpcLoop uuid server db) (hgrows : server.Grows later) {c : String}
    (hc : c ∈ contractIds) :
    (db.rpcTicked uuid later).indexedEvents.ofContract c =
        (later.decodedLog c).takeWhile ChainEvent.storable ∧
      ((db.rpcTicked uuid later).indexedEvents.ofContract c = later.decodedLog c ↔
        ∀ e ∈ later.decodedLog c, e.storable = true) := by
  obtain ⟨hfit, calls, hrun, happ, hlogs⟩ := h.ingestRun
  have hcoh : Coherent c (later.chain.logOf c) db :=
    hrun.coherent (happ c) fun call hcall _ => (hlogs c call hcall).trans (hgrows.logOf c)
  have hset : Settled c later.chain (db.ticked uuid later.chain contractIds) :=
    hcoh.tick_settles hc fun e he =>
      hrun.stored_storable e (EventStore.mem_ofContract.mp he).1
  rw [rpcTicked_eq hfit, hset.stored, later.logOf_chain hc]
  exact ⟨rfl, List.takeWhile_eq_self_iff⟩

end

/-! The server of `onePerPage`. -/

theorem pagedLog_ids {e : RpcEvent} (he : e ∈ pagedLog) :
    ∃ id ∈ pagedIds, e = paidEvent id.1 ∧ pagedIds.lookup e.id = some id.2 := by
  obtain ⟨id, hid, rfl⟩ := List.mem_map.mp he
  have hall : ∀ id ∈ pagedIds, pagedIds.lookup id.1 = some id.2 := by decide
  exact ⟨id, hid, rfl, hall id hid⟩

def pagedServer : RpcServer (samplePackages paidXdr pagedIds)
    (fun c => if c = "CV" then some "verification" else none) ["CV"] where
  getEvents := serveLog pagedLedger pagedLog
  pageLimit := 1
  latestLedger := 120
  log _ := pagedLog
  ledger := pagedLedger
  limit_pos := le_refl 1
  serves := by
    intro c hc
    rw [List.mem_singleton.mp hc]
    exact onePerPage_serves
  own := by
    intro c hc ev hev
    obtain ⟨id, _, rfl, _⟩ := pagedLog_ids hev
    exact (List.mem_singleton.mp hc).symm
  emitted := by
    intro c _
    have hids : pagedIds.Pairwise fun a b => a.2.1.toNat < b.2.1.toNat ∨
        a.2.1.toNat = b.2.1.toNat ∧ a.2.2.toInt < b.2.2.toInt := by decide
    have hall : ∀ id ∈ pagedIds, pagedIds.lookup id.1 = some id.2 := by decide
    apply List.pairwise_map.mpr
    apply hids.imp_of_mem
    intro a b ha hb hab ta ia tb ib hpa hpb
    have hat : a.2 = (ta, ia) := Option.some.inj ((hall a ha).symm.trans hpa)
    have hbt : b.2 = (tb, ib) := Option.some.inj ((hall b hb).symm.trans hpb)
    rwa [hat, hbt] at hab
  lowHalf := by
    intro c _ ev hev toid index hparsed
    have hlow : ∀ id ∈ pagedIds, id.2.1.toNat % 2 ^ 32 < 2 ^ 31 := by decide
    obtain ⟨id, hid, _, hlookup⟩ := pagedLog_ids hev
    have heq : id.2 = (toid, index) := Option.some.inj (hlookup.symm.trans hparsed)
    have := hlow id hid
    rwa [heq] at this

theorem rpc_loop_stores_paged :
    (Db.empty.rpcTicked noUuid pagedServer).indexedEvents.ofContract "CV" =
      [paidChainEvent "verification" 429496729600 0,
        paidChainEvent "verification" 429496729600 1,
        paidChainEvent "verification" 433791696896 0] := by
  have hstores := (rpc_loop_stores (.start pagedServer : RpcLoop noUuid pagedServer Db.empty)
    (fun _ _ => List.prefix_rfl) (List.mem_singleton_self "CV")).1
  rw [hstores]
  rfl

end VerdantBackend
