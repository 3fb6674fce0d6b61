import VerdantBackend.Indexer.Model
import VerdantBackend.Lib.Log

/-!
# Event source

`src/indexer/chain.rs`: what the indexer may rely on when it asks a chain for
events. An `EventSource` is what one `ingest` call sees of the chain: the log
at the moment of its one `events_after`, the head at the moment of its one
`head_ledger`. The log grows between calls, so every call has its own.
-/

namespace VerdantBackend

/-- `ChainEventsError`. -/
inductive ChainEventsError where
  | unavailable (msg : String)
  | internal (msg : String)
deriving DecidableEq, Repr

structure EventSource where
  events : List ChainEvent
  head : Int
  /-- Every contract's events come in position order. -/
  ordered : ∀ c, Log.Ordered ChainEvent.position (events.filter fun e => e.contractId = c)
  /-- The stream begins after `Cursor::START`. -/
  afterStart : ∀ e ∈ events, Cursor.START < e.position

namespace EventSource

/-- A source from one list in position order. -/
def ofList (events : List ChainEvent) (head : Int)
    (h : Log.Ordered ChainEvent.position events)
    (hstart : ∀ e ∈ events, Cursor.START < e.position) : EventSource :=
  ⟨events, head, fun _ => h.filter _, hstart⟩

/-- The log of one contract. -/
def logOf (source : EventSource) (contractId : String) : List ChainEvent :=
  source.events.filter fun e => e.contractId = contractId

/-- `ChainEvents::events_after`: strictly after the cursor, all of them, in
position order. -/
def eventsAfter (source : EventSource) (contractId : String) (cursor : Cursor) :
    List ChainEvent :=
  (source.logOf contractId).filter fun e => e.position.isAfter cursor

theorem mem_logOf {source : EventSource} {contractId : String} {e : ChainEvent} :
    e ∈ source.logOf contractId ↔ e ∈ source.events ∧ e.contractId = contractId := by
  simp [logOf]

theorem logOf_ordered (source : EventSource) (contractId : String) :
    Log.Ordered ChainEvent.position (source.logOf contractId) :=
  source.ordered contractId

theorem logOf_naturalKey_nodup (source : EventSource) (contractId : String) :
    ((source.logOf contractId).map ChainEvent.naturalKey).Nodup := by
  have h := (source.logOf_ordered contractId).nodup_map
  refine List.Nodup.of_map Prod.snd ?_
  simpa [List.map_map, Function.comp_def, ChainEvent.naturalKey] using h

theorem eventsAfter_eq (source : EventSource) (contractId : String) (cursor : Cursor) :
    source.eventsAfter contractId cursor =
      (source.logOf contractId).filter fun e => decide (cursor < e.position) := by
  rw [eventsAfter]
  apply List.filter_congr
  intro e _
  rw [Bool.eq_iff_iff, Cursor.isAfter_iff, decide_eq_true_eq]

/-- From the start position the source delivers the whole log. -/
theorem eventsAfter_start (source : EventSource) (contractId : String) :
    source.eventsAfter contractId Cursor.START = source.logOf contractId := by
  rw [eventsAfter_eq, List.filter_eq_self]
  intro e he
  rw [decide_eq_true_eq]
  exact source.afterStart e (mem_logOf.mp he).1

end EventSource

end VerdantBackend
