import VerdantBackend.Farmers.Model

/-!
# Farmer service

`register_farmer`, `get_farmer` and `update_metadata` of
`src/farmers/service.rs`, as programs of their chain calls and SQL statements.
-/

namespace VerdantBackend

open Prog (call)

def ERR_UNAUTHORIZED_ACTOR : String := "caller is not the addressed farmer"

/-- `register_farmer`. -/
def registerFarmer (crypto : FarmerCrypto) (req : RegisterFarmerRequest) (actor : String) :
    Prog farmerStmts AppError Farmer := do
  let address ← .done (parseFarmerIdentifier crypto req.address)
  if actor ≠ address then .throw (.unauthorized ERR_UNAUTHORIZED_ACTOR)
  else if (trim req.metadata.name.toList).isEmpty then
    .throw (.badRequest "metadata.name must be non-empty")
  else
    let canonicalHash := metadataHash crypto req.metadata
    if req.metadataHash.any fun provided => provided ≠ canonicalHash then
      .throw (.badRequest "provided metadataHash does not match canonical hash")
    else
      let chainFarmer ←
        (call (I := farmerStmts) (.chainRegister address canonicalHash)).mapErr mapChainError
      let id := farmerId address
      (call (I := farmerStmts) (.insertFarmer address
        { id
          metadata := req.metadata.toJson
          metadataHash := canonicalHash
          registered := true
          createdLedger := some chainFarmer.createdLedger
          updatedLedger := some chainFarmer.updatedLedger
          verificationMarkers := .arr [] })).mapErr .database
      return {
        address, id
        registered := true
        createdLedger := some chainFarmer.createdLedger
        updatedLedger := some chainFarmer.updatedLedger
        metadata := req.metadata
        metadataHash := canonicalHash
        verificationMarkers := [] }

/-- `get_farmer`. -/
def getFarmer (crypto : FarmerCrypto) (address : String) : Prog farmerStmts AppError Farmer := do
  let address ← .done (parseFarmerIdentifier crypto address)
  let found ← (call (I := farmerStmts) (.selectFarmer address)).mapErr .database
  match found with
  | none => .throw (.notFound s!"farmer {address} not found")
  | some row =>
    let metadata ← .done ((FarmerMetadata.decode crypto.text row.metadata).mapError fun e =>
      .internal s!"metadata decode: {e}")
    let markers ← .done ((Decoder.vec crypto.text (VerificationMarker.decode crypto.text)
      row.verificationMarkers).mapError fun e => .internal s!"markers decode: {e}")
    return {
      address
      id := row.id
      registered := row.registered
      createdLedger := row.createdLedger
      updatedLedger := row.updatedLedger
      metadata
      metadataHash := row.metadataHash
      verificationMarkers := markers }

/-- `update_metadata`. -/
def updateMetadata (crypto : FarmerCrypto) (address : String) (req : UpdateMetadataRequest)
    (actor : String) : Prog farmerStmts AppError Farmer := do
  let address ← .done (parseFarmerIdentifier crypto address)
  if actor ≠ address then .throw (.unauthorized ERR_UNAUTHORIZED_ACTOR)
  else if (trim req.metadata.name.toList).isEmpty then
    .throw (.badRequest "metadata.name must be non-empty")
  else
    let canonicalHash := metadataHash crypto req.metadata
    let chainFarmer ←
      (call (I := farmerStmts) (.chainUpdate address canonicalHash)).mapErr mapChainError
    (call (I := farmerStmts) (.updateFarmer address req.metadata.toJson canonicalHash
      chainFarmer.updatedLedger)).mapErr .database
    getFarmer crypto address

end VerdantBackend
