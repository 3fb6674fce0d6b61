import VerdantBackend.Ids
import VerdantBackend.Schema

/-!
# Projection builders

`src/indexer/projections.rs`: the payload decoders, and `applyEvent`, which
applies a raw event to the projection it belongs to. A builder is one statement
on one table, so it is a function of that table; the arithmetic of an `UPDATE`
is that of `BIGINT`, which refuses a result outside 64 bits.

The text form of a parsed UUID (`Uuid::parse_str` then `to_string`, of the
`uuid` package) is the parameter `uuid`. A stored event holds no U+0000, so
no builder is refused over its text.
-/

namespace VerdantBackend

def VERIFICATION_PREFIX : String := "va:verification"
def ESCROW_PREFIX : String := "va:escrow"
def FINANCING_PREFIX : String := "va:financing"

/-! ## Decoded payloads -/

structure VerificationCreated where
  verificationId : Nat
  batchHex : String
  subject : String
  proofHash : String
  issuer : String
  issuedLedger : Int
deriving DecidableEq

structure VerificationRevoked where
  verificationId : Nat
  revokedLedger : Int
deriving DecidableEq

structure EscrowCreated where
  escrowId : Nat
  depositor : String
  beneficiary : String
  amount : Int
  conditionKind : Int
  conditionReleaser : Option String
  conditionTimeoutLedger : Option Int
  bookingRefHex : String
  createdLedger : Int
  updatedLedger : Int
deriving DecidableEq

structure EscrowDeposited where
  escrowId : Nat
  amount : Int
  updatedLedger : Int
deriving DecidableEq

structure EscrowReleased where
  escrowId : Nat
  releasedAmount : Int
  updatedLedger : Int
deriving DecidableEq

structure EscrowRefunded where
  escrowId : Nat
  updatedLedger : Int
deriving DecidableEq

structure FinancingCreated where
  financingId : Nat
  funder : String
  beneficiary : String
  totalAmount : Int
  drawnAmount : Int
  milestoneCount : Int
  milestones : Json
  drawnLedger : Option Int
  repaidAmount : Int
  defaulted : Bool
  defaultedLedger : Option Int

structure FinancingDeposited where
  financingId : Nat
  amount : Int
  updatedLedger : Int
deriving DecidableEq

structure FinancingReleased where
  financingId : Nat
  releasedAmount : Int
  updatedLedger : Int
deriving DecidableEq

structure FinancingRefunded where
  financingId : Nat
  refundedAmount : Int
  defaulted : Bool
  defaultedLedger : Option Int
deriving DecidableEq

/-! ## Payload access -/

def arr (data : Json) : Option (List Json) := data.asArray

def getStr (data : Json) (i : Nat) : Option String := do (← (← arr data)[i]?).asStr
def getU64 (data : Json) (i : Nat) : Option Nat := do (← (← arr data)[i]?).asU64
def getI64 (data : Json) (i : Nat) : Option Int := do (← (← arr data)[i]?).asI64
def getI32 (data : Json) (i : Nat) : Option Int := do
  return asI32 (← (← (← arr data)[i]?).asI64)
def getBool (data : Json) (i : Nat) : Option Bool := do (← (← arr data)[i]?).asBool

def decodeVerificationCreated (event : ChainEvent) : Option VerificationCreated := do
  let data := event.data
  return {
    verificationId := ← getU64 data 0
    batchHex := ← getStr data 1
    subject := ← getStr data 2
    proofHash := ← getStr data 3
    issuer := ← getStr data 4
    issuedLedger := ← getI64 data 5 }

def decodeVerificationRevoked (event : ChainEvent) : Option VerificationRevoked := do
  let data := event.data
  return {
    verificationId := ← getU64 data 0
    revokedLedger := ← getI64 data 3 }

def decodeEscrowCreated (event : ChainEvent) : Option EscrowCreated := do
  let data := event.data
  return {
    escrowId := ← getU64 data 0
    depositor := ← getStr data 1
    beneficiary := ← getStr data 2
    amount := ← getI64 data 3
    conditionKind := ← getI32 data 4
    conditionReleaser := getStr data 5
    conditionTimeoutLedger := getI64 data 6
    bookingRefHex := ← getStr data 7
    createdLedger := ← getI64 data 8
    updatedLedger := ← getI64 data 9 }

def decodeEscrowDeposited (event : ChainEvent) : Option EscrowDeposited := do
  let data := event.data
  return {
    escrowId := ← getU64 data 0
    amount := ← getI64 data 2
    updatedLedger := ← getI64 data 3 }

def decodeEscrowReleased (event : ChainEvent) : Option EscrowReleased := do
  let data := event.data
  return {
    escrowId := ← getU64 data 0
    releasedAmount := ← getI64 data 2
    updatedLedger := ← getI64 data 3 }

def decodeEscrowRefunded (event : ChainEvent) : Option EscrowRefunded := do
  let data := event.data
  return {
    escrowId := ← getU64 data 0
    updatedLedger := ← getI64 data 3 }

def decodeFinancingCreated (event : ChainEvent) : Option FinancingCreated := do
  let data := event.data
  let financingId ← getU64 data 0
  return {
    financingId
    funder := ← getStr data 1
    beneficiary := ← getStr data 2
    totalAmount := ← getI64 data 3
    drawnAmount := ← getI64 data 4
    milestoneCount := ← getI32 data 5
    milestones := ← (← arr data)[6]?
    drawnLedger := getI64 data 7
    repaidAmount := ← getI64 data 8
    defaulted := ← getBool data 9
    defaultedLedger := getI64 data 10 }

def decodeFinancingDeposited (event : ChainEvent) : Option FinancingDeposited := do
  let data := event.data
  return {
    financingId := ← getU64 data 0
    amount := ← getI64 data 1
    updatedLedger := ← getI64 data 2 }

def decodeFinancingReleased (event : ChainEvent) : Option FinancingReleased := do
  let data := event.data
  return {
    financingId := ← getU64 data 0
    releasedAmount := ← getI64 data 1
    updatedLedger := ← getI64 data 2 }

def decodeFinancingRefunded (event : ChainEvent) : Option FinancingRefunded := do
  let data := event.data
  return {
    financingId := ← getU64 data 0
    refundedAmount := ← getI64 data 1
    defaulted := ← getBool data 2
    defaultedLedger := getI64 data 3 }

def identityTopics (event : ChainEvent) : Option String := do
  (← (← event.topics.asArray).head?).asStr

def objI64 (data : Json) (key : String) : Option Int := do (← data.get key).asI64

/-! ## Changes

The arms of `apply_event`: which builder an event reaches, with what. -/

inductive VerificationChange where
  | created (contractId : String) (e : VerificationCreated)
  | revoked (e : VerificationRevoked)

inductive EscrowChange where
  | created (contractId : String) (e : EscrowCreated)
  | deposited (e : EscrowDeposited)
  | released (e : EscrowReleased)
  | refunded (e : EscrowRefunded)

inductive FinancingChange where
  | created (contractId : String) (e : FinancingCreated)
  | deposited (e : FinancingDeposited)
  | released (e : FinancingReleased)
  | refunded (e : FinancingRefunded)

inductive IdentityChange where
  | registered (address : String) (data : Json)
  | metadataUpdated (address : String) (data : Json)
  | markerSet (address : String) (data : Json)

inductive Change where
  | verification (c : VerificationChange)
  | escrow (c : EscrowChange)
  | financing (c : FinancingChange)
  | identity (c : IdentityChange)

/-- `ok_or(sqlx::Error::Protocol(..))`. -/
def decodedOr {α : Type} (decoded : Option α) (msg : String) : Except SqlxError α :=
  match decoded with
  | some d => .ok d
  | none => .error (.protocol msg)

/-- The dispatch of `apply_event`, up to the call of the builder. -/
def decodeEvent (event : ChainEvent) : Except SqlxError (Option Change) :=
  match event.contractName, event.eventName with
  | "verification", "VerificationCreated" => do
      let decoded ← decodedOr (decodeVerificationCreated event) "bad VerificationCreated payload"
      return some (.verification (.created event.contractId decoded))
  | "verification", "VerificationRevoked" => do
      let decoded ← decodedOr (decodeVerificationRevoked event) "bad VerificationRevoked payload"
      return some (.verification (.revoked decoded))
  | "escrow", "EscrowCreated" => do
      let decoded ← decodedOr (decodeEscrowCreated event) "bad EscrowCreated payload"
      return some (.escrow (.created event.contractId decoded))
  | "escrow", "EscrowDeposited" => do
      let decoded ← decodedOr (decodeEscrowDeposited event) "bad EscrowDeposited payload"
      return some (.escrow (.deposited decoded))
  | "escrow", "EscrowReleased" => do
      let decoded ← decodedOr (decodeEscrowReleased event) "bad EscrowReleased payload"
      return some (.escrow (.released decoded))
  | "escrow", "EscrowRefunded" => do
      let decoded ← decodedOr (decodeEscrowRefunded event) "bad EscrowRefunded payload"
      return some (.escrow (.refunded decoded))
  | "identity", "FarmerRegistered" => do
      let address ← decodedOr (identityTopics event) "bad FarmerRegistered payload"
      return some (.identity (.registered address event.data))
  | "identity", "FarmerMetadataUpdated" => do
      let address ← decodedOr (identityTopics event) "bad FarmerMetadataUpdated payload"
      return some (.identity (.metadataUpdated address event.data))
  | "identity", "VerificationMarkerSet" => do
      let address ← decodedOr (identityTopics event) "bad VerificationMarkerSet payload"
      return some (.identity (.markerSet address event.data))
  | "financing", "FinancingCreated" => do
      let decoded ← decodedOr (decodeFinancingCreated event) "bad FinancingCreated payload"
      return some (.financing (.created event.contractId decoded))
  | "financing", "FinancingDeposited" => do
      let decoded ← decodedOr (decodeFinancingDeposited event) "bad FinancingDeposited payload"
      return some (.financing (.deposited decoded))
  | "financing", "FinancingReleased" => do
      let decoded ← decodedOr (decodeFinancingReleased event) "bad FinancingReleased payload"
      return some (.financing (.released decoded))
  | "financing", "FinancingRefunded" => do
      let decoded ← decodedOr (decodeFinancingRefunded event) "bad FinancingRefunded payload"
      return some (.financing (.refunded decoded))
  | _, _ => return none

/-! ## Builders -/

section Builders
variable (uuid : String → Option String)

/-- `render_uuid7_ref`. -/
def renderUuid7Ref (kind hex : String) : String :=
  "va:" ++ kind ++ ":" ++ (uuid hex).getD hex

/-- The row that the `INSERT` of `upsert_verification` brings. -/
def VerificationCreated.row (e : VerificationCreated) (contractId : String) :
    VerificationRow where
  contractId := contractId
  batchId := renderUuid7Ref uuid "batch" e.batchHex
  subject := e.subject
  proofHash := e.proofHash
  issuer := e.issuer
  issuedLedger := e.issuedLedger
  revoked := false
  revokedLedger := none

def upsertVerification (table : Table String VerificationRow) (contractId : String)
    (e : VerificationCreated) : Table String VerificationRow :=
  let id := counterId VERIFICATION_PREFIX e.verificationId
  let excluded := e.row uuid contractId
  table.upsert id excluded fun row =>
    -- `revoked` and `revoked_ledger` are not in the `SET` list
    { row with
      contractId := excluded.contractId
      batchId := excluded.batchId
      subject := excluded.subject
      proofHash := excluded.proofHash
      issuer := excluded.issuer
      issuedLedger := excluded.issuedLedger }

def revokeVerification (table : Table String VerificationRow) (e : VerificationRevoked) :
    Except SqlxError (Table String VerificationRow) :=
  let id := counterId VERIFICATION_PREFIX e.verificationId
  table.update id fun row =>
    .ok { row with revoked := true, revokedLedger := some e.revokedLedger }

/-- The row that the `INSERT` of `upsert_escrow` brings. -/
def EscrowCreated.row (e : EscrowCreated) (contractId : String) : EscrowRow where
  contractId := contractId
  depositor := e.depositor
  beneficiary := e.beneficiary
  amount := e.amount
  releasedAmount := 0
  bookingRef := renderUuid7Ref uuid "booking" e.bookingRefHex
  conditionKind := e.conditionKind
  conditionReleaser := e.conditionReleaser
  conditionTimeoutLedger := e.conditionTimeoutLedger
  createdLedger := e.createdLedger
  updatedLedger := e.updatedLedger
  status := .opened

def upsertEscrow (table : Table String EscrowRow) (contractId : String)
    (e : EscrowCreated) : Table String EscrowRow :=
  let id := counterId ESCROW_PREFIX e.escrowId
  let excluded := e.row uuid contractId
  table.upsert id excluded fun row =>
    -- `released_amount` and `status` are not in the `SET` list
    { row with
      contractId := excluded.contractId
      depositor := excluded.depositor
      beneficiary := excluded.beneficiary
      amount := excluded.amount
      bookingRef := excluded.bookingRef
      conditionKind := excluded.conditionKind
      conditionReleaser := excluded.conditionReleaser
      conditionTimeoutLedger := excluded.conditionTimeoutLedger
      createdLedger := excluded.createdLedger
      updatedLedger := excluded.updatedLedger }

def addEscrowDeposit (table : Table String EscrowRow) (e : EscrowDeposited) :
    Except SqlxError (Table String EscrowRow) :=
  let id := counterId ESCROW_PREFIX e.escrowId
  table.update id fun row => do
    let amount ← bigint (row.amount + e.amount)
    return { row with amount, updatedLedger := e.updatedLedger }

def releaseEscrow (table : Table String EscrowRow) (e : EscrowReleased) :
    Except SqlxError (Table String EscrowRow) :=
  let id := counterId ESCROW_PREFIX e.escrowId
  table.update id fun row => do
    let releasedAmount ← bigint (row.releasedAmount + e.releasedAmount)
    return { row with
      releasedAmount
      updatedLedger := e.updatedLedger
      status := if releasedAmount ≥ row.amount then .released else .opened }

def refundEscrow (table : Table String EscrowRow) (e : EscrowRefunded) :
    Except SqlxError (Table String EscrowRow) :=
  let id := counterId ESCROW_PREFIX e.escrowId
  table.update id fun row =>
    .ok { row with
      status := .refunded
      releasedAmount := row.amount
      updatedLedger := e.updatedLedger }

/-- The row that the `INSERT` of `upsert_financing` brings; `updated_ledger` is
bound to `drawn_ledger`. -/
def FinancingCreated.row (e : FinancingCreated) (contractId : String) : FinancingRow where
  contractId := contractId
  funder := e.funder
  beneficiary := e.beneficiary
  totalAmount := e.totalAmount
  drawnAmount := e.drawnAmount
  milestoneCount := e.milestoneCount
  milestones := e.milestones
  drawnLedger := e.drawnLedger
  repaidAmount := e.repaidAmount
  defaulted := e.defaulted
  defaultedLedger := e.defaultedLedger
  updatedLedger := e.drawnLedger
  status := if e.defaulted then .defaulted else .active

def upsertFinancing (table : Table String FinancingRow) (contractId : String)
    (e : FinancingCreated) : Table String FinancingRow :=
  let id := counterId FINANCING_PREFIX e.financingId
  let excluded := e.row contractId
  table.upsert id excluded fun row =>
    -- `status` is not in the `SET` list
    { row with
      contractId := excluded.contractId
      funder := excluded.funder
      beneficiary := excluded.beneficiary
      totalAmount := excluded.totalAmount
      drawnAmount := excluded.drawnAmount
      milestoneCount := excluded.milestoneCount
      milestones := excluded.milestones
      drawnLedger := excluded.drawnLedger
      repaidAmount := excluded.repaidAmount
      defaulted := excluded.defaulted
      defaultedLedger := excluded.defaultedLedger
      updatedLedger := excluded.updatedLedger }

def addFinancingDeposit (table : Table String FinancingRow) (e : FinancingDeposited) :
    Except SqlxError (Table String FinancingRow) :=
  let id := counterId FINANCING_PREFIX e.financingId
  table.update id fun row => do
    let drawnAmount ← bigint (row.drawnAmount + e.amount)
    return { row with drawnAmount, updatedLedger := some e.updatedLedger }

def releaseFinancing (table : Table String FinancingRow) (e : FinancingReleased) :
    Except SqlxError (Table String FinancingRow) :=
  let id := counterId FINANCING_PREFIX e.financingId
  table.update id fun row => do
    let drawnAmount ← bigint (row.drawnAmount + e.releasedAmount)
    return { row with
      drawnAmount
      drawnLedger := some e.updatedLedger
      updatedLedger := some e.updatedLedger }

def refundFinancing (table : Table String FinancingRow) (e : FinancingRefunded) :
    Except SqlxError (Table String FinancingRow) :=
  let id := counterId FINANCING_PREFIX e.financingId
  table.update id fun row => do
    let left ← bigint (row.drawnAmount - e.refundedAmount)
    return { row with
      status := if e.defaulted then .defaulted else .refunded
      defaulted := e.defaulted
      defaultedLedger := e.defaultedLedger <|> row.defaultedLedger
      drawnAmount := max left 0 }

/-- `upsert_identity_farmer`. A payload without markers brings `[]`, never a
`NULL`, so the `CASE` over the markers always takes the payload's. -/
def upsertIdentityFarmer (farmers : Table String FarmerRow) (address : String) (data : Json) :
    Except SqlxError (Table String FarmerRow) :=
  let id := farmerId address
  let created := objI64 data "created_ledger"
  let updated := objI64 data "updated_ledger"
  let markers := (data.get "verification_markers").getD (.arr [])
  if farmers.lookup address = none ∧ ∃ entry ∈ farmers.entries, entry.2.id = id then
    .error (.database "duplicate key value violates unique constraint \"farmers_id_key\"")
  else
    .ok (farmers.upsert address
      { id
        metadata := .obj []
        metadataHash := ""
        registered := true
        createdLedger := created
        updatedLedger := updated
        verificationMarkers := markers }
      fun row => { row with
        registered := true
        createdLedger := created <|> row.createdLedger
        updatedLedger := updated <|> row.updatedLedger
        verificationMarkers := markers })

def updateIdentityMetadata (farmers : Table String FarmerRow) (address : String) (data : Json) :
    Except SqlxError (Table String FarmerRow) :=
  let updated := objI64 data "updated_ledger"
  farmers.update address fun row =>
    .ok { row with updatedLedger := updated <|> row.updatedLedger }

def appendIdentityMarker (farmers : Table String FarmerRow) (address : String) (data : Json) :
    Except SqlxError (Table String FarmerRow) :=
  farmers.update address fun row =>
    .ok { row with verificationMarkers := row.verificationMarkers.concat data }

/-! ## Applying an event -/

def VerificationChange.build (c : VerificationChange) (table : Table String VerificationRow) :
    Except SqlxError (Table String VerificationRow) :=
  match c with
  | .created contractId e => .ok (upsertVerification uuid table contractId e)
  | .revoked e => revokeVerification table e

def EscrowChange.build (c : EscrowChange) (table : Table String EscrowRow) :
    Except SqlxError (Table String EscrowRow) :=
  match c with
  | .created contractId e => .ok (upsertEscrow uuid table contractId e)
  | .deposited e => addEscrowDeposit table e
  | .released e => releaseEscrow table e
  | .refunded e => refundEscrow table e

def FinancingChange.build (c : FinancingChange) (table : Table String FinancingRow) :
    Except SqlxError (Table String FinancingRow) :=
  match c with
  | .created contractId e => .ok (upsertFinancing table contractId e)
  | .deposited e => addFinancingDeposit table e
  | .released e => releaseFinancing table e
  | .refunded e => refundFinancing table e

def IdentityChange.build (c : IdentityChange) (farmers : Table String FarmerRow) :
    Except SqlxError (Table String FarmerRow) :=
  match c with
  | .registered address data => upsertIdentityFarmer farmers address data
  | .metadataUpdated address data => updateIdentityMetadata farmers address data
  | .markerSet address data => appendIdentityMarker farmers address data

def Change.build (c : Change) (db : Db) : Except SqlxError Db :=
  match c with
  | .verification c => do
      return { db with verificationProjection := ← c.build uuid db.verificationProjection }
  | .escrow c => do
      return { db with escrowProjection := ← c.build uuid db.escrowProjection }
  | .financing c => do
      return { db with financingProjection := ← c.build db.financingProjection }
  | .identity c => do
      return { db with farmers := ← c.build db.farmers }

/-- `apply_event`: whether a builder consumed the event, and the database. -/
def applyEvent (db : Db) (event : ChainEvent) : Except SqlxError (Bool × Db) := do
  match ← decodeEvent event with
  | none => return (false, db)
  | some change => return (true, ← change.build uuid db)

end Builders

end VerdantBackend
