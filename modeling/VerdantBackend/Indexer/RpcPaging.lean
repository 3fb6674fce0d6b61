import VerdantBackend.Indexer.Rpc
import VerdantBackend.Lib.Paging

/-!
# Pages of RPC events

`RpcEventSource` of `src/indexer/rpc.rs`: `events_after` asks the server for one
page after the other, from the ledger of the cursor and then from the cursor of the
page before, and keeps what decodes and is after the cursor. Whatever the page
limit, this is the whole log.
-/

namespace VerdantBackend

/-- `stellar_rpc_client::EventStart`. -/
inductive EventStart where
  | ledger (sequence : UInt32)
  | cursor (cursor : String)
deriving DecidableEq, Repr

/-- `stellar_rpc_client::GetEventsResponse`, as far as it is read. -/
structure EventPage where
  events : List RpcEvent
  cursor : String

/-- `RpcEventSource`; the client is what it answers. -/
structure RpcEventSource where
  /-- `Client::get_events` of the contracts with these ids, the limit given -/
  getEvents : EventStart → List String → Nat → Except String EventPage
  contracts : String → Option String
  pageLimit : Nat

namespace RpcEventSource

/-- `RpcEventSource::new`. -/
def new (getEvents : EventStart → List String → Nat → Except String EventPage)
    (contracts : String → Option String) : RpcEventSource where
  getEvents
  contracts
  pageLimit := 100

section Fetch
variable (P : RpcPackages) (source : RpcEventSource) (contractId contractName : String)
  (cursor : Cursor)

/-- `cursor.ledger_sequence.max(1) as u32`. -/
def startLedger : UInt32 := .ofInt (max cursor.ledgerSequence 1)

/-- The body of the loop over the events of a page. -/
def pushEvent (decoded : List ChainEvent) (ev : RpcEvent) : List ChainEvent :=
  match decodeRpcEvent P ev contractName with
  | none => decoded
  | some chain => if chain.position.isAfter cursor then decoded ++ [chain] else decoded

/-- The loop of `events_after`, at most `fuel` rounds; `none` is a loop still running. -/
def eventsLoop (fuel : Nat) (pageCursor : Option String) (decoded : List ChainEvent) :
    Option (Except ChainEventsError (List ChainEvent)) :=
  match fuel with
  | 0 => none
  | fuel + 1 =>
      let start := match pageCursor with
        | some c => .cursor c
        | none => .ledger (startLedger cursor)
      match source.getEvents start [contractId] source.pageLimit with
      | .error msg => some (.error (.internal msg))
      | .ok resp =>
          let decoded := resp.events.foldl (pushEvent P contractName cursor) decoded
          if resp.events.length < source.pageLimit then some (.ok decoded)
          else eventsLoop fuel (some resp.cursor) decoded

/-- `events_after`. -/
def eventsAfter (fuel : Nat) : Option (Except ChainEventsError (List ChainEvent)) :=
  eventsLoop P source contractId ((source.contracts contractId).getD "unknown") cursor fuel none []

end Fetch

/-! ## The server -/

/-- A page of what is left: its first events and the cursor of the last of them. -/
structure IsPage (limit : Nat) (rest : List RpcEvent) (page : EventPage) : Prop where
  events : page.events = rest.take limit
  cursor : ∀ e, page.events.getLast? = some e → page.cursor = e.id

/-- What is assumed of the server about the log of one contract. -/
structure Serves (P : RpcPackages) (source : RpcEventSource) (contractId : String)
    (ledger : RpcEvent → UInt32) (log : List RpcEvent) : Prop where
  /-- From a ledger on: the events of this and of later ledgers. -/
  fromLedger : ∀ n, ∃ page, source.getEvents (.ledger n) [contractId] source.pageLimit = .ok page ∧
    IsPage source.pageLimit (log.filter fun e => n ≤ ledger e) page
  /-- From the cursor of an event on: the events strictly after it. -/
  fromCursor : ∀ pre e post, log = pre ++ e :: post →
    ∃ page, source.getEvents (.cursor e.id) [contractId] source.pageLimit = .ok page ∧
      IsPage source.pageLimit post page
  /-- An event's ledger is the upper half of its TOID. -/
  toid : ∀ e ∈ log, ∀ toid index, P.parseCursor e.id = some (toid, index) →
    (toid >>> 32).toNat = (ledger e).toNat
  /-- Ledger 0 never exists. -/
  positive : ∀ e ∈ log, 1 ≤ ledger e

/-! ## The loop -/

variable {P : RpcPackages} {source : RpcEventSource} {contractId contractName : String}
  {cursor : Cursor} {ledger : RpcEvent → UInt32} {log : List RpcEvent}

/-- What one event adds to the result. -/
def kept (P : RpcPackages) (contractName : String) (cursor : Cursor) (ev : RpcEvent) :
    Option ChainEvent :=
  (decodeRpcEvent P ev contractName).filter fun e => e.position.isAfter cursor

theorem pushEvent_eq (decoded : List ChainEvent) (ev : RpcEvent) :
    pushEvent P contractName cursor decoded ev =
      decoded ++ (kept P contractName cursor ev).toList := by
  rw [pushEvent, kept]
  cases decodeRpcEvent P ev contractName with
  | none => simp
  | some chain =>
      rw [Option.filter_some]
      by_cases h : chain.position.isAfter cursor <;> simp [h]

theorem foldl_pushEvent (decoded : List ChainEvent) (events : List RpcEvent) :
    events.foldl (pushEvent P contractName cursor) decoded =
      decoded ++ events.filterMap (kept P contractName cursor) := by
  induction events generalizing decoded with
  | nil => simp
  | cons ev events ih =>
      rw [List.foldl_cons, ih, pushEvent_eq, List.append_assoc]
      cases hk : kept P contractName cursor ev <;> simp [hk]

/-- One round: a short page ends the loop, a full one goes on from its cursor. -/
theorem eventsLoop_succ {fuel : Nat} {pageCursor : Option String} {decoded : List ChainEvent}
    {page : EventPage}
    (hpage : source.getEvents (match pageCursor with
      | some c => .cursor c
      | none => .ledger (startLedger cursor)) [contractId] source.pageLimit = .ok page) :
    eventsLoop P source contractId contractName cursor (fuel + 1) pageCursor decoded =
      if page.events.length < source.pageLimit then
        some (.ok (decoded ++ page.events.filterMap (kept P contractName cursor)))
      else eventsLoop P source contractId contractName cursor fuel (some page.cursor)
        (decoded ++ page.events.filterMap (kept P contractName cursor)) := by
  rw [eventsLoop.eq_def]
  simp only [hpage, foldl_pushEvent]

/-- A page is all that is left, or it is full and ends with an event whose cursor it
carries. -/
theorem IsPage.cases {limit : Nat} {rest : List RpcEvent} {page : EventPage}
    (h : IsPage limit rest page) (hlimit : 1 ≤ limit) :
    (page.events.length < limit ∧ page.events = rest) ∨
      ∃ init e, ¬ page.events.length < limit ∧ page.events = init ++ [e] ∧ page.cursor = e.id ∧
        rest = init ++ e :: rest.drop limit := by
  have hlen := congrArg List.length h.events
  rw [List.length_take] at hlen
  by_cases hshort : page.events.length < limit
  · exact .inl ⟨hshort, h.events.trans (List.take_of_length_le (by omega))⟩
  · have hne : page.events ≠ [] := List.ne_nil_of_length_pos (by omega)
    obtain ⟨init, e, he⟩ := (List.eq_nil_or_concat' page.events).resolve_left hne
    refine .inr ⟨init, e, hshort, he, h.cursor e (by rw [he]; simp), ?_⟩
    have hsplit := List.take_append_drop limit rest
    rw [← h.events, he] at hsplit
    simpa using hsplit.symm

/-- From the cursor of an event on, the loop adds what is kept of the events after it:
every full page leaves fewer. -/
theorem eventsLoop_after (hs : Serves P source contractId ledger log)
    (hlimit : 1 ≤ source.pageLimit) {fuel : Nat} {pre post : List RpcEvent} {e : RpcEvent}
    (hlog : log = pre ++ e :: post) (hfuel : post.length < fuel) (decoded : List ChainEvent) :
    eventsLoop P source contractId contractName cursor fuel (some e.id) decoded =
      some (.ok (decoded ++ post.filterMap (kept P contractName cursor))) := by
  induction fuel generalizing pre e post decoded with
  | zero => omega
  | succ fuel ih =>
      obtain ⟨page, hpage, hserved⟩ := hs.fromCursor pre e post hlog
      rw [eventsLoop_succ hpage]
      rcases hserved.cases hlimit with ⟨hshort, hall⟩ | ⟨init, last, hfull, hinit, hcur, hrest⟩
      · rw [if_pos hshort, hall]
      · -- the next request begins after the last event of this page
        have hnext : log = (pre ++ e :: init) ++ last :: post.drop source.pageLimit := by
          rw [List.append_assoc, List.cons_append, ← hrest]
          exact hlog
        have hfewer := congrArg List.length hrest
        rw [List.length_append, List.length_cons] at hfewer
        have hkept : post.filterMap (kept P contractName cursor) =
            (init ++ [last]).filterMap (kept P contractName cursor) ++
              (post.drop source.pageLimit).filterMap (kept P contractName cursor) := by
          rw [← List.filterMap_append, List.append_assoc, List.singleton_append, ← hrest]
        rw [if_neg hfull, hcur, ih hnext (by omega), hinit, hkept, List.append_assoc]

theorem startLedger_toNat (hcursor : cursor.ledgerSequence < 2 ^ 32) :
    (startLedger cursor).toNat = (max cursor.ledgerSequence 1).toNat := by
  rw [startLedger, UInt32.ofInt, UInt32.toNat_ofNat']
  omega

/-- Events of earlier ledgers are not after the cursor. -/
theorem kept_eq_none (hs : Serves P source contractId ledger log)
    (hcursor : cursor.ledgerSequence < 2 ^ 32) {e : RpcEvent} (he : e ∈ log)
    (hledger : ¬ startLedger cursor ≤ ledger e) : kept P contractName cursor e = none := by
  have hpos : 1 ≤ (ledger e).toNat := UInt32.le_iff_toNat_le.mp (hs.positive e he)
  have hstart : (ledger e).toNat < (startLedger cursor).toNat := by
    rw [UInt32.le_iff_toNat_le] at hledger
    omega
  have hstartNat := startLedger_toNat hcursor
  rw [kept, Option.filter_eq_none_iff]
  intro chain hchain
  obtain ⟨_, _, _, toid, index, _, _, _, _, _, hparsed, _, _, rfl⟩ :=
    (decodeRpcEvent_eq_some P).mp hchain
  have htoid := hs.toid e he toid index hparsed
  rw [Cursor.isAfter_iff]
  intro hlt
  have hle := Cursor.ledger_le_of_lt hlt
  simp only [ChainEvent.position] at hle
  omega

/-- What is kept of the log from the start ledger on is what is kept of the log. -/
theorem filterMap_kept_fromLedger (hs : Serves P source contractId ledger log)
    (hcursor : cursor.ledgerSequence < 2 ^ 32) {l : List RpcEvent} (hl : l ⊆ log) :
    (l.filter fun e => startLedger cursor ≤ ledger e).filterMap (kept P contractName cursor) =
      l.filterMap (kept P contractName cursor) := by
  rw [List.filterMap_filter]
  refine List.filterMap_congr fun e he => ?_
  split
  · rfl
  · next h =>
    rw [decide_eq_true_eq] at h
    exact (kept_eq_none hs hcursor (hl he) h).symm

theorem eventsAfter_eq_kept (hs : Serves P source contractId ledger log)
    (hlimit : 1 ≤ source.pageLimit) (hcursor : cursor.ledgerSequence < 2 ^ 32) {fuel : Nat}
    (hfuel : log.length < fuel) :
    eventsAfter P source contractId cursor fuel =
      some (.ok (log.filterMap
        (kept P ((source.contracts contractId).getD "unknown") cursor))) := by
  obtain ⟨fuel, rfl⟩ := Nat.exists_eq_add_one.mpr (Nat.zero_lt_of_lt hfuel)
  rw [eventsAfter]
  set contractName := (source.contracts contractId).getD "unknown"
  obtain ⟨page, hpage, hserved⟩ := hs.fromLedger (startLedger cursor)
  rw [eventsLoop_succ hpage, List.nil_append]
  rcases hserved.cases hlimit with ⟨hshort, hall⟩ | ⟨init, last, hfull, hinit, hcur, hrest⟩
  · rw [if_pos hshort, hall, filterMap_kept_fromLedger hs hcursor (List.Subset.refl _)]
  · -- the events before the last one served that were left out are not kept
    obtain ⟨pre, post, hlog, hpre⟩ := Paging.filter_eq_append_cons hrest
    have hkept : page.events.filterMap (kept P contractName cursor) =
        (pre ++ [last]).filterMap (kept P contractName cursor) := by
      have hsub : pre ++ [last] ⊆ log := by
        rw [hlog]
        simp
      rw [hinit, ← hpre, filterMap_kept_fromLedger hs hcursor hsub]
    have hfewer := congrArg List.length hlog
    rw [List.length_append, List.length_cons] at hfewer
    rw [if_neg hfull, hcur, eventsLoop_after hs hlimit hlog (by omega), hkept,
      ← List.filterMap_append, List.append_assoc, List.singleton_append, ← hlog]

/-- **Paged fetch**: with any page limit the loop ends within one round more than the log
has events, and its result is what decodes of the log and is after the cursor, in log
order. -/
theorem eventsAfter_eq_log (hs : Serves P source contractId ledger log)
    (hlimit : 1 ≤ source.pageLimit) (hcursor : cursor.ledgerSequence < 2 ^ 32) {fuel : Nat}
    (hfuel : log.length < fuel) :
    eventsAfter P source contractId cursor fuel =
      some (.ok ((log.filterMap fun ev =>
        decodeRpcEvent P ev ((source.contracts contractId).getD "unknown")).filter
          fun e => e.position.isAfter cursor)) := by
  rw [eventsAfter_eq_kept hs hlimit hcursor hfuel, List.filter_filterMap]
  rfl

/-- The page limit of the source itself. -/
example (getEvents : EventStart → List String → Nat → Except String EventPage)
    (contracts : String → Option String) : 1 ≤ (new getEvents contracts).pageLimit := by
  show 1 ≤ 100
  decide

/-- **Refinement**: where the log decodes to the log of an event source, `events_after`
answers as the source. -/
theorem eventsAfter_eq_source (hs : Serves P source contractId ledger log)
    (hlimit : 1 ≤ source.pageLimit) (hcursor : cursor.ledgerSequence < 2 ^ 32) {fuel : Nat}
    (hfuel : log.length < fuel) {chain : EventSource}
    (hchain : chain.logOf contractId = log.filterMap fun ev =>
      decodeRpcEvent P ev ((source.contracts contractId).getD "unknown")) :
    eventsAfter P source contractId cursor fuel =
      some (.ok (chain.eventsAfter contractId cursor)) := by
  rw [eventsAfter_eq_kept hs hlimit hcursor hfuel, EventSource.eventsAfter, hchain,
    List.filter_filterMap]
  rfl

/-! ## A server -/

/-- A page of what is left; an empty page carries the cursor that was asked for. -/
def page (limit : Nat) (rest : List RpcEvent) (asked : String) : EventPage :=
  ⟨rest.take limit, ((rest.take limit).getLast?.map RpcEvent.id).getD asked⟩

theorem page_isPage (limit : Nat) (rest : List RpcEvent) (asked : String) :
    IsPage limit rest (page limit rest asked) where
  events := rfl
  cursor := by
    intro e he
    rw [page] at he ⊢
    rw [he]
    rfl

/-- A server with one log. -/
def serveLog (ledger : RpcEvent → UInt32) (log : List RpcEvent) :
    EventStart → List String → Nat → Except String EventPage
  | .ledger n, _, limit => .ok (page limit (log.filter fun e => n ≤ ledger e) "")
  | .cursor c, _, limit => .ok (page limit ((log.dropWhile fun e => e.id ≠ c).drop 1) c)

theorem drop_dropWhile_id {pre post : List RpcEvent} {e : RpcEvent}
    (h : ((pre ++ e :: post).map RpcEvent.id).Nodup) :
    ((pre ++ e :: post).dropWhile fun x => x.id ≠ e.id).drop 1 = post := by
  have hpre : ∀ x ∈ pre, x.id ≠ e.id := by
    intro x hx heq
    rw [List.map_append, List.nodup_append] at h
    exact h.2.2 _ (List.mem_map_of_mem hx) _ (by simp) heq
  rw [List.dropWhile_append_of_pos (by simpa using hpre)]
  simp

/-- With ids that differ it serves its log. -/
theorem serveLog_serves {contracts : String → Option String} {limit : Nat}
    (hids : (log.map RpcEvent.id).Nodup)
    (htoid : ∀ e ∈ log, ∀ toid index, P.parseCursor e.id = some (toid, index) →
      (toid >>> 32).toNat = (ledger e).toNat)
    (hpos : ∀ e ∈ log, 1 ≤ ledger e) :
    Serves P ⟨serveLog ledger log, contracts, limit⟩ contractId ledger log where
  fromLedger n := ⟨_, rfl, page_isPage limit _ ""⟩
  fromCursor := by
    intro pre e post hlog
    refine ⟨_, rfl, ?_⟩
    subst hlog
    rw [drop_dropWhile_id hids]
    exact page_isPage limit post e.id
  toid := htoid
  positive := hpos

/-! Two events of ledger 100 and one of ledger 101, served one by one. -/

def pagedIds : List (String × UInt64 × Int32) :=
  [("429496729600-0", 429496729600, 0), ("429496729600-1", 429496729600, 1),
    ("433791696896-0", 433791696896, 0)]

def pagedLog : List RpcEvent := pagedIds.map fun id => paidEvent id.1

def pagedLedger (e : RpcEvent) : UInt32 := if e.id = "433791696896-0" then 101 else 100

def onePerPage : RpcEventSource :=
  ⟨serveLog pagedLedger pagedLog, fun c => if c = "CV" then some "verification" else none, 1⟩

theorem onePerPage_serves :
    Serves (samplePackages paidXdr pagedIds) onePerPage "CV" pagedLedger pagedLog := by
  refine serveLog_serves (by decide) ?_ (by decide)
  intro e he toid index hparsed
  obtain ⟨id, hid, rfl⟩ := List.mem_map.mp he
  have hall : ∀ id ∈ pagedIds, pagedIds.lookup id.1 = some id.2 ∧
      (id.2.1 >>> 32).toNat = (pagedLedger (paidEvent id.1)).toNat := by decide
  obtain ⟨hlookup, hledger⟩ := hall id hid
  have heq : id.2 = (toid, index) := Option.some.inj (hlookup.symm.trans hparsed)
  rw [← hledger, heq]

theorem eventsAfter_onePerPage :
    eventsAfter (samplePackages paidXdr pagedIds) onePerPage "CV" ⟨100, 0, 0⟩ 4 =
      some (.ok [paidChainEvent "verification" 429496729600 1,
        paidChainEvent "verification" 433791696896 0]) :=
  eventsAfter_eq_log onePerPage_serves (le_refl 1) (by decide) (by decide)

end RpcEventSource

end VerdantBackend
