import VerdantBackend.Config
import VerdantBackend.Error
import VerdantBackend.Ids
import VerdantBackend.Lib.Prog
import VerdantBackend.Schema
import VerdantBackend.Serde

/-!
# Farmers

`src/farmers/model.rs`, `hash.rs` and `chain.rs`: profiles, identifiers, the
canonical hash, the identity chain, and the statements of the farmer service
against `StubChain` and the table `farmers`.
-/

namespace VerdantBackend

/-- What the packages `stellar_strkey` and `sha2` compute, and Rust's texts. -/
structure FarmerCrypto where
  /-- `Strkey::from_string` gives a `PublicKeyEd25519` -/
  isPublicKey : String → Bool
  /-- the SHA-256 digest of a text, in hexadecimal -/
  sha256 : String → String
  text : SerdeText
  /-- a strkey is base32 -/
  base32 : ∀ s, isPublicKey s = true → ∀ c ∈ s.toList, c.isUpper ∨ c.isDigit
  /-- a digest is hexadecimal -/
  hex : ∀ s, ∀ c ∈ (sha256 s).toList, c.isDigit ∨ c.isLower

/-! ## Profiles -/

structure FarmerMetadata where
  name : String
  region : Option String
  district : Option String
  bio : Option String
  profileImageHash : Option String
deriving DecidableEq, Repr

namespace FarmerMetadata

/-- A member that is skipped when there is no value. -/
def insertSome (key : String) (value : Option String) (members : List (String × Json)) :
    List (String × Json) :=
  match value with
  | some s => insertMember key (.str s) members
  | none => members

/-- The derived `Serialize`. -/
def toJson (m : FarmerMetadata) : Json :=
  .obj <| insertSome "profileImageHash" m.profileImageHash <| insertSome "bio" m.bio <|
    insertSome "district" m.district <| insertSome "region" m.region <|
      insertMember "name" (.str m.name) []

/-- The derived `Deserialize`. -/
def decode (text : SerdeText) : Decoder FarmerMetadata
  | .obj members => do
    let str := Decoder.string text
    let opt := Decoder.option str
    Decoder.visitMembers [("name", .check str), ("region", .check opt),
      ("district", .check opt), ("bio", .check opt), ("profileImageHash", .check opt)] members
    let name ← Decoder.required members "name" str
    let region ← Decoder.defaulted members "region" opt
    let district ← Decoder.defaulted members "district" opt
    let bio ← Decoder.defaulted members "bio" opt
    let profileImageHash ← Decoder.defaulted members "profileImageHash" opt
    return { name, region, district, bio, profileImageHash }
  | .arr items => do
    let str := Decoder.string text
    let opt := Decoder.option str
    let name ← Decoder.requiredAt items 0 "struct FarmerMetadata with 5 elements" str
    let region ← Decoder.defaultedAt items 1 opt
    let district ← Decoder.defaultedAt items 2 opt
    let bio ← Decoder.defaultedAt items 3 opt
    let profileImageHash ← Decoder.defaultedAt items 4 opt
    Decoder.noMore items 5
    return { name, region, district, bio, profileImageHash }
  | j => Decoder.invalidType text j "struct FarmerMetadata"

end FarmerMetadata

/-- `canonical_bytes`. -/
def canonicalBytes (text : SerdeText) (metadata : FarmerMetadata) : String :=
  let map := insertMember "name" (.str metadata.name) []
  let map := FarmerMetadata.insertSome "region" metadata.region map
  let map := FarmerMetadata.insertSome "district" metadata.district map
  let map := FarmerMetadata.insertSome "bio" metadata.bio map
  let map := FarmerMetadata.insertSome "profileImageHash" metadata.profileImageHash map
  (Json.obj map).compact text

/-- `metadata_hash`. -/
def metadataHash (crypto : FarmerCrypto) (metadata : FarmerMetadata) : String :=
  crypto.sha256 (canonicalBytes crypto.text metadata)

/-- `VerificationMarker`, and `FarmerMarkerRow`, which has the same fields. -/
structure VerificationMarker where
  kind : String
  issuer : String
  issuedLedger : Int
deriving DecidableEq, Repr

/-- The derived `Deserialize` of `FarmerMarkerRow`. -/
def VerificationMarker.decode (text : SerdeText) : Decoder VerificationMarker
  | .obj members => do
    Decoder.visitMembers [("kind", .check (.string text)), ("issuer", .check (.string text)),
      ("issued_ledger", .check (.i64 text))] members
    let kind ← Decoder.required members "kind" (.string text)
    let issuer ← Decoder.required members "issuer" (.string text)
    let issuedLedger ← Decoder.required members "issued_ledger" (.i64 text)
    return { kind, issuer, issuedLedger }
  | .arr items => do
    let expected := "struct FarmerMarkerRow with 3 elements"
    let kind ← Decoder.requiredAt items 0 expected (.string text)
    let issuer ← Decoder.requiredAt items 1 expected (.string text)
    let issuedLedger ← Decoder.requiredAt items 2 expected (.i64 text)
    Decoder.noMore items 3
    return { kind, issuer, issuedLedger }
  | j => Decoder.invalidType text j "struct FarmerMarkerRow"

structure Farmer where
  address : String
  id : String
  registered : Bool
  createdLedger : Option Int
  updatedLedger : Option Int
  metadata : FarmerMetadata
  metadataHash : String
  verificationMarkers : List VerificationMarker

structure RegisterFarmerRequest where
  address : String
  metadata : FarmerMetadata
  metadataHash : Option String

structure UpdateMetadataRequest where
  metadata : FarmerMetadata

/-- `strip_prefix(FARMER_ID_PREFIX).unwrap_or(input)`. -/
def stripFarmerPrefix (input : String) : String :=
  if FARMER_ID_PREFIX.toList <+: input.toList then
    String.ofList (input.toList.drop FARMER_ID_PREFIX.toList.length)
  else input

/-- `parse_farmer_identifier`. -/
def parseFarmerIdentifier (crypto : FarmerCrypto) (input : String) : Except AppError String :=
  let address := stripFarmerPrefix input
  if crypto.isPublicKey address then .ok address
  else .error (.badRequest s!"invalid farmer address: {input}")

/-! ## The identity chain -/

structure ChainFarmer where
  address : String
  createdLedger : Int
  updatedLedger : Int
  verificationMarkers : List VerificationMarker
deriving DecidableEq, Repr

inductive ChainError where
  | alreadyRegistered
  | notFound
  | internal (msg : String)
deriving DecidableEq, Repr

/-- `map_chain_error`. -/
def mapChainError : ChainError → AppError
  | .alreadyRegistered => .conflict "farmer already registered"
  | .notFound => .notFound "farmer not found on-chain"
  | .internal msg => .internal msg

/-- `StubChain`: the records by address. -/
abbrev StubChain : Type := Table String ChainFarmer

namespace StubChain

/-- The ledger it writes next. -/
def ledger (chain : StubChain) : Int := 100000 + chain.keys.card

/-- `register_farmer`; the metadata hash is not kept. -/
def registerFarmer (chain : StubChain) (address : String) :
    Except ChainError (ChainFarmer × StubChain) :=
  if address ∈ chain then .error .alreadyRegistered
  else
    let farmer := ⟨address, chain.ledger, chain.ledger, []⟩
    .ok (farmer, chain.insert address farmer)

/-- `update_metadata`. -/
def updateMetadata (chain : StubChain) (address : String) :
    Except ChainError (ChainFarmer × StubChain) :=
  match chain.lookup address with
  | none => .error .notFound
  | some farmer =>
    let farmer := { farmer with updatedLedger := chain.ledger }
    .ok (farmer, chain.insert address farmer)

end StubChain

/-! ## Statements -/

/-- The identity chain and the table `farmers`. -/
structure FarmerWorld where
  chain : StubChain
  farmers : Table String FarmerRow

def FarmerWorld.empty : FarmerWorld := ⟨∅, ∅⟩

inductive FarmerStmt where
  | chainRegister (address metadataHash : String)
  | chainUpdate (address metadataHash : String)
  | insertFarmer (address : String) (row : FarmerRow)
  | updateFarmer (address : String) (metadata : Json) (metadataHash : String)
      (updatedLedger : Int)
  | selectFarmer (address : String)

namespace FarmerStmt

abbrev Err : FarmerStmt → Type
  | chainRegister .. | chainUpdate .. => ChainError
  | _ => SqlxError

abbrev Res : FarmerStmt → Type
  | chainRegister .. | chainUpdate .. => ChainFarmer
  | selectFarmer .. => Option FarmerRow
  | _ => Unit

end FarmerStmt

abbrev farmerStmts : Interface := ⟨FarmerStmt, FarmerStmt.Err, FarmerStmt.Res⟩

def unsupportedEscape : SqlxError := .database "unsupported Unicode escape sequence"

/-- `INSERT INTO farmers`. -/
def insertFarmer (farmers : Table String FarmerRow) (address : String) (row : FarmerRow) :
    Except SqlxError (Table String FarmerRow) :=
  if hasNul address || hasNul row.id || hasNul row.metadataHash then .error nulByte
  else if row.metadata.hasNul || row.verificationMarkers.hasNul then .error unsupportedEscape
  else if address ∈ farmers then
    .error (.database "duplicate key value violates unique constraint \"farmers_pkey\"")
  else if ∃ entry ∈ farmers.entries, entry.2.id = row.id then
    .error (.database "duplicate key value violates unique constraint \"farmers_id_key\"")
  else .ok (farmers.insert address row)

/-- `UPDATE farmers SET metadata, metadata_hash, updated_ledger WHERE address`. -/
def updateFarmer (farmers : Table String FarmerRow) (address : String) (metadata : Json)
    (metadataHash : String) (updatedLedger : Int) : Except SqlxError (Table String FarmerRow) :=
  if hasNul address || hasNul metadataHash then .error nulByte
  else if metadata.hasNul then .error unsupportedEscape
  else
    farmers.update address fun row =>
      .ok { row with metadata, metadataHash, updatedLedger := some updatedLedger }

/-- The execution of a statement. -/
def execFarmers : farmerStmts.Handler FarmerWorld
  | .chainRegister address _, w =>
    (w.chain.registerFarmer address).map fun (farmer, chain) => (farmer, { w with chain })
  | .chainUpdate address _, w =>
    (w.chain.updateMetadata address).map fun (farmer, chain) => (farmer, { w with chain })
  | .insertFarmer address row, w =>
    (insertFarmer w.farmers address row).map fun farmers => ((), { w with farmers })
  | .updateFarmer address metadata metadataHash updatedLedger, w =>
    (updateFarmer w.farmers address metadata metadataHash updatedLedger).map
      fun farmers => ((), { w with farmers })
  | .selectFarmer address, w =>
    if hasNul address then .error nulByte else .ok (w.farmers.lookup address, w)

end VerdantBackend
