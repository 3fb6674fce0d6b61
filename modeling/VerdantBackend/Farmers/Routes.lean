import VerdantBackend.Auth.Extractor
import VerdantBackend.Farmers.Run
import VerdantBackend.Lib.TwoStores

/-!
# Routes

The handlers of `src/routes/farmers.rs`, and what a server goes through: requests
with any headers, identity events of the indexer, and sessions that come, expire
and go.
-/

namespace VerdantBackend

open Prog

/-- The tables of the sessions, and those of the farmers. -/
abbrev ServerWorld : Type := AuthWorld × FarmerWorld

section
variable (authCrypto : AuthCrypto) (crypto : FarmerCrypto)

/-- `get_farmer_handler`. -/
def getFarmerHandler (address : String) : Prog (auth.sum farmerStmts) AppError Farmer :=
  (getFarmer crypto address).inr

/-- `register_farmer_handler`. -/
def registerFarmerHandler (authorization : Option HeaderValue) (req : RegisterFarmerRequest) :
    Prog (auth.sum farmerStmts) AppError Farmer := do
  let actor ← (authUser authCrypto authorization).inl
  (registerFarmer crypto req actor.address).inr

/-- `update_metadata_handler`. -/
def updateMetadataHandler (authorization : Option HeaderValue) (address : String)
    (req : UpdateMetadataRequest) : Prog (auth.sum farmerStmts) AppError Farmer := do
  let actor ← (authUser authCrypto authorization).inl
  (updateMetadata crypto address req actor.address).inr

/-- A request, its body decoded. -/
inductive HttpRequest where
  | getFarmer (address : String)
  | registerFarmer (authorization : Option HeaderValue) (body : RegisterFarmerRequest)
  | updateMetadata (authorization : Option HeaderValue) (address : String)
      (body : UpdateMetadataRequest)

def HttpRequest.handle : HttpRequest → Prog (auth.sum farmerStmts) AppError Farmer
  | getFarmer address => getFarmerHandler crypto address
  | registerFarmer authorization body => registerFarmerHandler authCrypto crypto authorization body
  | updateMetadata authorization address body =>
      updateMetadataHandler authCrypto crypto authorization address body

end

/-- What happens at a server. -/
inductive ServerEvent where
  | request (req : HttpRequest) (r : Except AppError Farmer)
  | applied (c : IdentityChange)
  | refused (c : IdentityChange)
  | sessions

section
variable (authCrypto : AuthCrypto) (random : Nat → String) (crypto : FarmerCrypto)
  (Fa : Failures auth AuthWorld) (F : Failures farmerStmts FarmerWorld)

/-- One step. The sessions may change in any way between requests. -/
inductive ServerCall : ServerWorld → ServerEvent → ServerWorld → Prop where
  | request {w req r w'} :
      Ends ((execAuth random).sum execFarmers) (Failures.sum Fa F)
        (req.handle authCrypto crypto) w r w' →
      ServerCall w (.request req r) w'
  | apply {w : ServerWorld} {c farmers} : c.build w.2.farmers = .ok farmers →
      ServerCall w (.applied c) (w.1, { w.2 with farmers })
  | refuse {w c} : ServerCall w (.refused c) w
  | sessions {w : ServerWorld} {authWorld} : ServerCall w .sessions (authWorld, w.2)

/-- Steps from the world `w₀` on, the latest first. -/
abbrev ServerRun (w₀ : ServerWorld) : List ServerEvent → ServerWorld → Prop :=
  Trail (ServerCall authCrypto random crypto Fa F) w₀

end

end VerdantBackend
