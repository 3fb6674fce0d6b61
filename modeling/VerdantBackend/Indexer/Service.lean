import VerdantBackend.Lib.Prog
import VerdantBackend.Indexer.Chain
import VerdantBackend.Indexer.Projections

/-!
# Indexer statements, store and ingest

The statements the indexer issues, how database and source answer them, and
the functions of `src/indexer/store.rs` and `src/indexer/service.rs` as programs
of these statements. Every SQL statement is one atomic step. `apply_event` decodes
and then issues at most one SQL statement, so it is a step too.
-/

namespace VerdantBackend

inductive IndexerStmt where
  | selectCursor (contractId : String)
  | eventsAfter (contractId : String) (cursor : Cursor)
  | headLedger
  | insertEvent (event : ChainEvent)
  | upsertCursor (contractId : String) (cursor : Cursor)
  | selectFinalized (contractId : String) (finalityFloor : Int)
  | applyEvent (event : ChainEvent)
  | deleteEvents (contractId : String) (fromLedger : Int)
  | deleteCursor (contractId : String)

namespace IndexerStmt

abbrev Err : IndexerStmt → Type
  | eventsAfter .. | headLedger => ChainEventsError
  | _ => SqlxError

abbrev Res : IndexerStmt → Type
  | selectCursor .. => Option Cursor
  | eventsAfter .. | selectFinalized .. => List ChainEvent
  | headLedger => Int
  | applyEvent .. => Bool
  | _ => Unit

end IndexerStmt

abbrev indexer : Interface := ⟨IndexerStmt, IndexerStmt.Err, IndexerStmt.Res⟩

/-- `WHERE contract_id = $1 AND ledger_sequence <= $2 ORDER BY ledger_sequence,
operation_index, event_index`. -/
def EventStore.finalized (store : EventStore) (contractId : String) (finalityFloor : Int) :
    List ChainEvent :=
  (store.rows.filter fun e =>
    e.contractId = contractId && e.ledgerSequence ≤ finalityFloor).insertionSort
      fun a b => a.position ≤ b.position

/-- The execution of a statement. -/
def exec (uuid : String → Option String) (source : EventSource) : indexer.Handler Db
  | .selectCursor contractId, db => .ok (db.indexerCursors.lookup contractId, db)
  | .eventsAfter contractId cursor, db => .ok (source.eventsAfter contractId cursor, db)
  | .headLedger, db => .ok (source.head, db)
  | .insertEvent event, db =>
    if event.storable then
      .ok ((), { db with indexedEvents := db.indexedEvents.insert event })
    else .error (.database "unsupported Unicode escape sequence")
  | .upsertCursor contractId cursor, db =>
    .ok ((), { db with indexerCursors :=
      db.indexerCursors.upsert contractId cursor fun _ => cursor })
  | .selectFinalized contractId finalityFloor, db =>
    .ok (db.indexedEvents.finalized contractId finalityFloor, db)
  | .applyEvent event, db => applyEvent uuid db event
  | .deleteEvents contractId fromLedger, db =>
    .ok ((), { db with indexedEvents := db.indexedEvents.deleteWhere fun e =>
      e.contractId = contractId && e.ledgerSequence ≥ fromLedger })
  | .deleteCursor contractId, db =>
    .ok ((), { db with indexerCursors := db.indexerCursors.erase contractId })

open Prog (call)

/-! ## The store -/

/-- `append_events`. -/
def appendEvents : List ChainEvent → Prog indexer SqlxError Unit
  | [] => pure ()
  | event :: events => do
    call (I := indexer) (.insertEvent event)
    appendEvents events

/-- `get_cursor`. -/
def getCursor (contractId : String) : Prog indexer SqlxError Cursor := do
  match ← call (I := indexer) (.selectCursor contractId) with
  | some row => return row
  | none => return Cursor.START

/-- `set_cursor`. -/
def setCursor (contractId : String) (cursor : Cursor) : Prog indexer SqlxError Unit :=
  call (I := indexer) (.upsertCursor contractId cursor)

/-- `rewind`. -/
def rewind (contractId : String) (fromLedger : Int) : Prog indexer SqlxError Unit := do
  call (I := indexer) (.deleteEvents contractId fromLedger)
  call (I := indexer) (.deleteCursor contractId)

/-- `finalized_events`. -/
def finalizedEvents (contractId : String) (finalityFloor : Int) :
    Prog indexer SqlxError (List ChainEvent) :=
  call (I := indexer) (.selectFinalized contractId finalityFloor)

/-! ## Ingest -/

/-- `TRUSTED_CUTOFF`. -/
def TRUSTED_CUTOFF : Int := 10

/-- `.map_err(|e| ChainEventsError::Internal(e.to_string()))`. -/
def internal (e : SqlxError) : ChainEventsError := .internal e.toString

/-- The projection loop: how many events a builder consumed. -/
def applyEvents : List ChainEvent → Prog indexer ChainEventsError Nat
  | [] => return 0
  | event :: events => do
    let consumed ← (call (I := indexer) (.applyEvent event)).mapErr internal
    let applied ← applyEvents events
    return if consumed then applied + 1 else applied

/-- `ingest`. -/
def ingest (contractId : String) : Prog indexer ChainEventsError Nat := do
  let cursor ← (getCursor contractId).mapErr internal
  let events ← call (I := indexer) (.eventsAfter contractId cursor)
  if events.isEmpty then
    return 0
  else do
    let head ← call (I := indexer) .headLedger
    let finalityFloor := head - TRUSTED_CUTOFF
    (appendEvents events).mapErr internal
    -- regardless of finality
    let last := (events.getLast?.map ChainEvent.position).getD cursor
    (setCursor contractId last).mapErr internal
    let finalized ← (finalizedEvents contractId finalityFloor).mapErr internal
    let _applied ← applyEvents finalized
    return events.length

end VerdantBackend
