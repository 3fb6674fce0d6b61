import VerdantBackend.Error
import VerdantBackend.Lib.Table
import VerdantBackend.Indexer.Model

/-!
# Schema

The tables of `migrations/` that the indexer and the farmer service write, in
one database. A projection row is keyed by its rendered id; the serial `id` of
`indexed_events` is the insertion order of its rows. Columns no modelled
function reads or compares (`created_at`, `updated_at`, `ingested_at`) are
left out.
-/

namespace VerdantBackend

/-- `indexer.verification_projection`. -/
structure VerificationRow where
  contractId : String
  batchId : String
  subject : String
  proofHash : String
  issuer : String
  issuedLedger : Int
  revoked : Bool
  revokedLedger : Option Int
deriving DecidableEq, Repr

/-- `open | released | refunded`. -/
inductive EscrowStatus where
  | opened
  | released
  | refunded
deriving DecidableEq, Repr

/-- `indexer.escrow_projection`. -/
structure EscrowRow where
  contractId : String
  depositor : String
  beneficiary : String
  amount : Int
  releasedAmount : Int
  bookingRef : String
  conditionKind : Int
  conditionReleaser : Option String
  conditionTimeoutLedger : Option Int
  createdLedger : Int
  updatedLedger : Int
  status : EscrowStatus
deriving DecidableEq, Repr

/-- `active | defaulted | refunded` (`closed` is never written). -/
inductive FinancingStatus where
  | active
  | defaulted
  | refunded
deriving DecidableEq, Repr

/-- `indexer.financing_projection`. -/
structure FinancingRow where
  contractId : String
  funder : String
  beneficiary : String
  totalAmount : Int
  drawnAmount : Int
  milestoneCount : Int
  milestones : Json
  drawnLedger : Option Int
  repaidAmount : Int
  defaulted : Bool
  defaultedLedger : Option Int
  updatedLedger : Option Int
  status : FinancingStatus

/-- `farmers`, keyed by address. -/
structure FarmerRow where
  id : String
  metadata : Json
  metadataHash : String
  registered : Bool
  createdLedger : Option Int
  updatedLedger : Option Int
  verificationMarkers : Json

abbrev EventStore : Type := UniqueRows ChainEvent.naturalKey

structure Db where
  indexedEvents : EventStore
  indexerCursors : Table String Cursor
  verificationProjection : Table String VerificationRow
  escrowProjection : Table String EscrowRow
  financingProjection : Table String FinancingRow
  farmers : Table String FarmerRow

/-- Empty tables. -/
def Db.empty : Db := ⟨UniqueRows.empty, ∅, ∅, ∅, ∅, ∅⟩

namespace EventStore

/-- The raw events of one contract, in insertion order. -/
def ofContract (store : EventStore) (contractId : String) : List ChainEvent :=
  store.rows.filter fun e => e.contractId = contractId

theorem mem_ofContract {store : EventStore} {contractId : String} {e : ChainEvent} :
    e ∈ store.ofContract contractId ↔ e ∈ store.rows ∧ e.contractId = contractId := by
  simp [ofContract]

end EventStore

end VerdantBackend
