import VerdantBackend.Indexer.Projected
import VerdantBackend.Indexer.RpcIndexer
import VerdantBackend.Routes.Served

/-!
# From the chain to the API

The polling loop over an RPC server whose head does not go back. When a tick finds new
events of the verification or the financing contract, a lookup of a counter answers
what the final events of the log say of it.
-/

namespace VerdantBackend

open Prog

/-! ## The loop -/

section
variable {P : RpcPackages} {contracts : String → Option String} {contractIds : List String}
  {uuid : String → Option String} {server later : RpcServer P contracts contractIds} {db : Db}
  {c : String}

/-- The logs grow at their ends and the head does not go back. -/
structure RpcServer.Advances (server later : RpcServer P contracts contractIds) : Prop where
  grows : server.Grows later
  head : server.latestLedger ≤ later.latestLedger

/-- The loop of `spawn_indexer` from empty tables over a server that advances; any
statement may fail. -/
inductive SteadyLoop (uuid : String → Option String) :
    RpcServer P contracts contractIds → Db → Prop where
  | start (server : RpcServer P contracts contractIds) : SteadyLoop uuid server Db.empty
  | tick {server later : RpcServer P contracts contractIds} {db tr r db'} :
      SteadyLoop uuid server db → server.Advances later →
      Outcome (execRpc uuid later) anyFailure (indexerTick contractIds) db tr r db' →
      SteadyLoop uuid later db'

theorem RpcServer.Advances.refl (server : RpcServer P contracts contractIds) :
    server.Advances server := ⟨fun _ _ => List.prefix_rfl, UInt32.le_refl _⟩

theorem RpcServer.Advances.head_le (h : server.Advances later) :
    server.chain.head ≤ later.chain.head :=
  Int.ofNat_le.mpr (UInt32.le_iff_toNat_le.mp h.head)

theorem SteadyLoop.ingestRun (h : SteadyLoop uuid server db) :
    CursorsFit db ∧ ∃ calls, IngestRun uuid (fun _ => anyFailure) calls db ∧
      CallsBefore server.chain calls := by
  induction h with
  | start =>
      refine ⟨?_, [], .start, ?_⟩
      · intro c p hp
        simp [Db.empty] at hp
      · exact ⟨fun _ => .nil, fun _ => .nil, by simp, by simp⟩
  | tick _ hadv hout ih =>
      obtain ⟨hfit, calls, hrun, hbefore⟩ := ih
      obtain ⟨hsim, hfit'⟩ := rpc_tick_simulated (G := anyFailure) hfit
        (fun _ _ _ _ _ => trivial) hout
      obtain ⟨turn, hrun', _, hsource, _⟩ := hrun.tick hsim
      exact ⟨hfit', calls ++ turn, hrun',
        hbefore.extend hadv.grows.logOf hadv.head_le hsource⟩

/-- The final events of the log of a contract. -/
def RpcServer.finalLog (server : RpcServer P contracts contractIds) (c : String) :
    List ChainEvent :=
  finalPart (server.decodedLog c) (server.latestLedger.toNat - TRUSTED_CUTOFF)

/-- The server has new events of the one contract with the name, and its log can be
stored and projected. -/
structure RpcServer.News (server : RpcServer P contracts contractIds)
    (uuid : String → Option String) (db : Db) (name c : String) : Prop where
  configured : c ∈ contractIds
  named : contracts c = some name
  only : ∀ c' ∈ contractIds, contracts c' = some name → c' = c
  new : ∃ e ∈ server.decodedLog c, cursorOf db c < e.position
  storable : ∀ e ∈ server.decodedLog c, e.storable = true
  createdFirst : CreatedFirst (server.decodedLog c)
  applies : ∃ once, applyAll uuid Db.empty (server.finalLog c) = .ok once

theorem decodedLog_contractName {e : ChainEvent} (he : e ∈ server.decodedLog c) :
    e.contractName = (contracts c).getD "unknown" := by
  obtain ⟨ev, _, hdecoded⟩ := List.mem_filterMap.mp he
  obtain ⟨_, _, _, _, _, _, _, _, _, _, _, _, _, rfl⟩ := (decodeRpcEvent_eq_some P).mp hdecoded
  rfl

theorem RpcServer.finalLog_isPrefix (server : RpcServer P contracts contractIds)
    (hc : c ∈ contractIds) : server.finalLog c <+: server.decodedLog c :=
  finalPart_isPrefix_self (RpcServer.decodedLog_ordered hc)

/-- Only the contract of the name logs events of the name. -/
theorem RpcServer.News.own {name : String} (h : server.News uuid db name c)
    (hunknown : name ≠ "unknown") {e : ChainEvent} (he : e ∈ server.chain.logOf e.contractId)
    (hname : e.contractName = name) : e.contractId = c := by
  by_cases hc : e.contractId ∈ contractIds
  · rw [server.logOf_chain hc] at he
    have hcontract := (decodedLog_contractName he).symm.trans hname
    refine h.only _ hc ?_
    cases hopt : contracts e.contractId with
    | none =>
        rw [hopt] at hcontract
        exact absurd hcontract.symm hunknown
    | some name' =>
        rw [hopt] at hcontract
        exact congrArg some hcontract
  · rw [server.logOf_chain_of_not_mem hc] at he
    cases he

/-- **A tick with news** leaves in each row of the name's table what one replay of the
final log leaves. -/
theorem SteadyLoop.rpc_projects {ρ β : Type} (h : SteadyLoop uuid server db)
    (hadv : server.Advances later) (hids : contractIds.Nodup) {name : String}
    (hname : name = "verification" ∨ name = "financing") (hnews : later.News uuid db name c)
    (Q : Projection uuid ρ) {f : ρ → β} {J : ρ → Prop} {id : String}
    (hreb : CreatedFirst (later.finalLog c) →
      RowChange.Rebuilds f J Q.change id (later.finalLog c))
    (hnames : ∀ e, RowChange.Names Q.change id e → e.contractName = name) :
    (Q.table (db.rpcTicked uuid later)).lookup id =
      RowChange.replay Q.change id (later.finalLog c) none := by
  obtain ⟨hfit, calls, hrun, hbefore⟩ := h.ingestRun
  have hbefore' : CallsBefore later.chain calls := by
    have hnone : CallsBefore later.chain (calls ++ []) :=
      hbefore.extend hadv.grows.logOf hadv.head_le (by simp)
    rwa [List.append_nil] at hnone
  have hlog := later.logOf_chain hnews.configured
  have hfinal : finalPart (later.chain.logOf c) later.chain.floor = later.finalLog c := by
    rw [hlog]
    rfl
  have hpre := later.finalLog_isPrefix hnews.configured
  have hfirst := hnews.createdFirst.of_isPrefix hpre
  have hpull : later.chain.eventsAfter c (cursorOf db c) ≠ [] := by
    obtain ⟨e, he, hlt⟩ := hnews.new
    rw [EventSource.eventsAfter_eq, hlog]
    apply List.ne_nil_of_mem (a := e)
    rw [List.mem_filter, decide_eq_true_eq]
    exact ⟨he, hlt⟩
  have hstorable : ∀ e ∈ later.chain.logOf c, e.storable = true := by
    rw [hlog]
    exact hnews.storable
  have hnamed : ∀ e ∈ later.finalLog c, e.contractName = name := by
    intro e he
    rw [decodedLog_contractName (hpre.subset he), hnews.named]
    rfl
  have hunknown : name ≠ "unknown" := by
    rcases hname with rfl | rfl <;> decide
  obtain ⟨once, honce⟩ := hnews.applies
  rw [rpcTicked_eq hfit, ← hfinal]
  rw [← hfinal] at hreb hfirst hnamed honce
  exact hrun.tick_projects Q hbefore' hids hnews.configured hpull hstorable
    (fun _ hrows => applies_again hfirst hname hnamed honce hrows) (hreb hfirst)
    fun e he hn => hnews.own hunknown he (hnames e hn)

theorem verification_named {id : String} {e : ChainEvent}
    (h : RowChange.Names (verifications uuid).change id e) : e.contractName = "verification" := by
  obtain ⟨_, hc, _⟩ := h
  obtain ⟨v, hv, _⟩ := verificationChange_eq_some.mp hc
  exact contractName_of_decode hv

theorem financing_named {id : String} {e : ChainEvent}
    (h : RowChange.Names (financings uuid).change id e) : e.contractName = "financing" := by
  obtain ⟨_, hc, _⟩ := h
  obtain ⟨v, hv, _⟩ := financingChange_eq_some.mp hc
  exact contractName_of_decode hv

/-- **From the chain to the API.** However the loop went so far, whatever failed in it: after
one more tick that nothing disturbs, with new events of the verification contract, a lookup
answers what the final events of its log say of the counter, each counted once; likewise
with new events of the financing contract. -/
theorem served_from_chain (h : SteadyLoop uuid server db) (hadv : server.Advances later)
    (hids : contractIds.Nodup) :
    (later.News uuid db "verification" c → ∀ vs : ProjectionTable Verification.id,
      Shows (db.rpcTicked uuid later).verificationProjection VerificationRow.item vs →
      ∀ n input, normalizeVerificationId input = .ok (counterId VERIFICATION_PREFIX n) →
        getVerificationHandler vs input = orNotFound "verification" input
          ((verificationSummary uuid n (later.finalLog c)).map
            (VerificationRow.item (counterId VERIFICATION_PREFIX n)))) ∧
    (later.News uuid db "financing" c → ∀ fs : ProjectionTable Financing.id,
      Shows (db.rpcTicked uuid later).financingProjection FinancingRow.item fs →
      ∀ n input, normalizeFinancingId input = .ok (counterId FINANCING_PREFIX n) →
        getFinancingHandler fs input = orNotFound "financing" input
          ((financingSummary n (later.finalLog c)).map
            (FinancingRow.item (counterId FINANCING_PREFIX n)))) := by
  constructor
  · intro hnews vs hvs n input hkey
    have hrow := h.rpc_projects hadv hids (.inl rfl) hnews (verifications uuid)
      (fun hfirst => rebuilds_verification (counterId VERIFICATION_PREFIX n) fun k _ =>
        hfirst.createdFor (.verification k))
      fun _ => verification_named
    rw [← replay_verification, ← hrow]
    exact hvs.getHandler_eq (fun _ _ => rfl) "verification" hkey (hasNul_counterId .verification n)
  · intro hnews fs hfs n input hkey
    have hrow := h.rpc_projects hadv hids (.inr rfl) hnews (financings uuid)
      (fun hfirst => rebuilds_financing (counterId FINANCING_PREFIX n) fun k _ =>
        hfirst.createdFor (.financing k))
      fun _ => financing_named
    have hsummary : RowChange.replay (financings uuid).change (counterId FINANCING_PREFIX n)
        (later.finalLog c) none = financingSummary n (later.finalLog c) := replay_financing n _
    rw [← hsummary, ← hrow]
    exact hfs.getHandler_eq (fun _ _ => rfl) "financing" hkey (hasNul_counterId .financing n)

end

/-! A server with one verification, at ledger 100. -/

def createdName : String := "AAAADwAAABNWZXJpZmljYXRpb25DcmVhdGVkAA=="

def createdValue : String :=
  "AAAAEAAAAAEAAAAGAAAABQAAAAAAAAAHAAAADwAAAAJiMQAAAAAADwAAAAJHUwAAAAAADQAAAAIPHgAAAAAADwAAAAJH" ++
    "SQAAAAAAAwAAAGQ="

/-- The symbol `VerificationCreated` and the payload, in XDR. -/
def createdXdr : List (String × ScVal) :=
  [(createdName, .symbol [86, 101, 114, 105, 102, 105, 99, 97, 116, 105, 111, 110, 67, 114, 101,
      97, 116, 101, 100]),
    (createdValue, .vec (some [.u64 7, .symbol [98, 49], .symbol [71, 83], .bytes [15, 30],
      .symbol [71, 73], .u32 100]))]

def createdRpcEvent : RpcEvent := ⟨"429496729600-0", "CV", [createdName], createdValue⟩

def createdPackages : RpcPackages := samplePackages createdXdr [("429496729600-0", 429496729600, 0)]

theorem createdRpcEvent_toid {toid : UInt64} {index : Int32}
    (h : createdPackages.parseCursor createdRpcEvent.id = some (toid, index)) :
    toid = 429496729600 ∧ index = 0 := by
  have hid : createdPackages.parseCursor createdRpcEvent.id = some (429496729600, 0) := rfl
  rw [hid] at h
  cases h
  exact ⟨rfl, rfl⟩

def createdServer : RpcServer createdPackages
    (fun c => if c = "CV" then some "verification" else none) ["CV"] where
  getEvents := RpcEventSource.serveLog (fun _ => 100) [createdRpcEvent]
  pageLimit := 100
  latestLedger := 120
  log _ := [createdRpcEvent]
  ledger _ := 100
  limit_pos := by decide
  serves := by
    intro c _
    refine RpcEventSource.serveLog_serves (by decide) ?_ (fun _ _ => by decide)
    intro e he toid index hparsed
    rw [List.mem_singleton.mp he] at hparsed
    rw [(createdRpcEvent_toid hparsed).1]
    decide
  own := by
    intro c hc ev hev
    rw [List.mem_singleton.mp hc, List.mem_singleton.mp hev]
    rfl
  emitted _ _ := List.pairwise_singleton _ _
  lowHalf := by
    intro c _ ev hev toid index hparsed
    rw [List.mem_singleton.mp hev] at hparsed
    rw [(createdRpcEvent_toid hparsed).1]
    decide

def createdChainEvent : ChainEvent :=
  { paidChainEvent "verification" 429496729600 0 with
    eventName := "VerificationCreated"
    data := .arr [.int 7, .str "b1", .str "GS", .str "0f1e", .str "GI", .int 100] }

theorem decodeRpcEvent_created :
    decodeRpcEvent createdPackages createdRpcEvent "verification" = some createdChainEvent := by
  have hname : createdPackages.fromXdrBase64 createdName = some (.symbol [86, 101, 114, 105, 102,
      105, 99, 97, 116, 105, 111, 110, 67, 114, 101, 97, 116, 101, 100]) := by
    simp [createdPackages, samplePackages, createdXdr]
  have hvalue : topicToJson createdPackages createdValue = some createdChainEvent.data := by
    have hne : (createdValue == createdName) = false := by decide +kernel
    rw [topicToJson]
    simp [createdPackages, samplePackages, createdXdr, List.lookup_cons, hne]
    rfl
  refine (decodeRpcEvent_eq_some _).mpr ⟨_, _, "VerificationCreated", 429496729600, 0, [], _, rfl,
    hname, rfl, rfl, rfl, hvalue, ?_⟩
  simp only [createdChainEvent, paidChainEvent, createdRpcEvent]

theorem createdServer_decodedLog : createdServer.decodedLog "CV" = [createdChainEvent] := by
  show [createdRpcEvent].filterMap _ = _
  exact List.filterMap_cons_some decodeRpcEvent_created

theorem createdServer_news :
    createdServer.News noUuid Db.empty "verification" "CV" where
  configured := List.mem_singleton_self _
  named := rfl
  only c hc _ := List.mem_singleton.mp hc
  new := ⟨createdChainEvent, by simp [createdServer_decodedLog], by decide⟩
  storable := by
    rw [createdServer_decodedLog]
    decide
  createdFirst := by
    rw [createdServer_decodedLog]
    exact CreatedFirst.of_head (c := .verification (.created "CV" _)) rfl rfl (by simp)
  applies := ⟨_, rfl⟩

theorem createdServer_verifications :
    Shows (Db.empty.rpcTicked noUuid createdServer).verificationProjection VerificationRow.item
      (oneVerification servedRow) := by
  have htable : (Db.empty.rpcTicked noUuid createdServer).verificationProjection =
      (∅ : Table String VerificationRow).insert "va:verification:000000000007" servedRow := rfl
  rw [htable]
  exact shows_oneVerification servedRow

theorem served_from_chain_created :
    getVerificationHandler (oneVerification servedRow) "7" =
      .ok (servedRow.item "va:verification:000000000007") := by
  have hserved := (served_from_chain (.start createdServer) (.refl createdServer)
    (List.nodup_singleton _)).1 createdServer_news (oneVerification servedRow)
    createdServer_verifications 7 "7" (by decide)
  rw [hserved]
  rfl

end VerdantBackend
