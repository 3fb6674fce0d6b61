import VerdantBackend.Auth.Outcomes
import VerdantBackend.Ids

/-!
# The extractor

`src/auth/extractor.rs`: the bearer token of a request, and the session it stands
for.
-/

namespace VerdantBackend

open Prog

def BEARER_PREFIX : String := "Bearer "

/-- The bytes of a header. -/
abbrev HeaderValue : Type := List UInt8

/-- `bearer_token`. -/
def bearerToken (crypto : AuthCrypto) (value : Option HeaderValue) : Except AppError String := do
  let some value := value | .error (.unauthorized "missing Authorization header")
  let some value := crypto.toStr value | .error (.unauthorized "invalid Authorization header")
  let some token := stripPrefix BEARER_PREFIX value
    | .error (.unauthorized "expected Bearer token")
  if token.isEmpty then .error (.unauthorized "empty bearer token")
  else .ok token

structure AuthUser where
  address : String
  roles : List String

/-- `AuthUser::from_request_parts`. -/
def authUser (crypto : AuthCrypto) (authorization : Option HeaderValue) :
    Prog auth AppError AuthUser := do
  let token ← .done (bearerToken crypto authorization)
  let session ← sessionByToken crypto token
  return ⟨session.address, session.roles⟩

/-- The bearer token stands for a session of the address that has not expired. -/
def AuthWorld.HasSession (crypto : AuthCrypto) (w : AuthWorld)
    (authorization : Option HeaderValue) (address : String) : Prop :=
  ∃ token session, bearerToken crypto authorization = .ok token ∧ session ∈ w.authSessions.rows ∧
    session.tokenHash = hashToken crypto token ∧ w.clock < session.expiresAt ∧
    session.address = address

section
variable {crypto : AuthCrypto} {random : Nat → String} {F : Failures auth AuthWorld}
  {w w' : AuthWorld} {authorization : Option HeaderValue} {r : Except AppError AuthUser}

/-- **A user is the owner of a session**, and the extractor changes nothing. -/
theorem authUser_ends (h : Ends (execAuth random) F (authUser crypto authorization) w r w') :
    w' = w ∧ ∀ user, r = .ok user → w.HasSession crypto authorization user.address := by
  rw [authUser] at h
  rcases ends_done_bind_iff.mp h with ⟨e, _, rfl, rfl⟩ | ⟨token, htoken, h⟩
  · refine ⟨rfl, fun user huser => ?_⟩
    cases huser
  rcases ends_bind_iff.mp h with ⟨e, rfl, hlost⟩ | ⟨session, w₁, hsession, hdone⟩
  · refine ⟨(session_ends hlost).1, fun user huser => ?_⟩
    cases huser
  obtain ⟨rfl, houtcome⟩ := session_ends hsession
  obtain ⟨rfl, rfl⟩ := ends_done_iff.mp hdone
  refine ⟨rfl, fun user huser => ?_⟩
  cases huser
  cases houtcome with
  | found hrow hhash hfresh => exact ⟨token, session, htoken, hrow, hhash, hfresh, rfl⟩

end

end VerdantBackend
