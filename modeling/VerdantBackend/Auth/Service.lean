import VerdantBackend.Auth.Model

/-!
# Authentication service

`src/auth/service.rs` and the extractor of `src/auth/extractor.rs`. What the
packages `stellar_strkey`, `base64`, `ed25519_dalek`, `sha2`, `chrono` and `http`
compute is the parameter `crypto`.
-/

namespace VerdantBackend

open Prog (call)

/-- Bytes, written in hexadecimal. -/
abbrev Hex : Type := String

structure AuthCrypto where
  /-- `PublicKey::from_string` -/
  publicKey : String → Except String Hex
  /-- `STANDARD.decode` -/
  decodeBase64 : String → Except String Hex
  /-- `Signature::from_slice` -/
  signature : Hex → Except String Hex
  /-- `VerifyingKey::from_bytes` -/
  verifyingKey : Hex → Except String Hex
  /-- `verify` of a key on a message and a signature -/
  verify : Hex → String → Hex → Except String Unit
  /-- the SHA-256 digest of a text -/
  sha256 : String → Hex
  /-- `to_rfc3339` -/
  rfc3339 : Instant → String
  /-- `Duration::from_std` of whole microseconds -/
  fromStd : Nat → Except String Int
  /-- `checked_add_signed`: there is a last instant -/
  checkedAdd : Instant → Int → Option Instant
  /-- `HeaderValue::to_str` -/
  toStr : List UInt8 → Option String
  fromStd_ok : ∀ {micros d}, fromStd micros = .ok d → d = micros
  checkedAdd_some : ∀ {t d u}, checkedAdd t d = some u → u = ⟨t.micros + d, t.nanos⟩

/-- How a request stops without a result: an error, or a panic of its task. -/
inductive Stop where
  | err (e : AppError)
  | panic (message : String)
deriving DecidableEq, Repr

def ERR_NONCE_UNUSED_OR_EXPIRED : String := "nonce missing, already used, or expired"

/-- `validate_address`. -/
def validateAddress (crypto : AuthCrypto) (address : String) : Except AppError Unit :=
  match crypto.publicKey address with
  | .ok _ => .ok ()
  | .error e => .error (.badRequest s!"invalid stellar address: {e}")

/-- `new_nonce`: the generator does not fail. -/
def newNonce : Prog auth Stop String := (call (I := auth) .randomHex).mapErr Empty.elim

/-- `Utc::now`. -/
def utcNow {ε : Type} : Prog auth ε Instant := (call (I := auth) .now).mapErr Empty.elim

/-- `hash_token`. -/
def hashToken (crypto : AuthCrypto) (token : String) : String := crypto.sha256 token

/-- `sep40_message`. -/
def sep40Message (domain address nonce timestamp : String) : String :=
  s!"{domain} wants you to sign in with your Stellar account:\n{address}\n\nNonce: {nonce}\nIssued At: {timestamp}\n"

/-- `verify_signature`. -/
def verifySignature (crypto : AuthCrypto) (address signatureB64 message : String) :
    Except String Unit := do
  let raw ← (crypto.decodeBase64 signatureB64).mapError fun e => s!"base64: {e}"
  let signature ← (crypto.signature raw).mapError fun e => s!"signature length: {e}"
  let pubkey ← (crypto.publicKey address).mapError fun e => s!"address: {e}"
  let verifyingKey ← (crypto.verifyingKey pubkey).mapError fun e => s!"verifying key: {e}"
  (crypto.verify verifyingKey message signature).mapError fun e => s!"ed25519: {e}"

/-- An instant plus a duration: an overflow panics. -/
def addInstant (crypto : AuthCrypto) (t : Instant) (d : Int) : Except Stop Instant :=
  match crypto.checkedAdd t d with
  | some u => .ok u
  | none => .error (.panic "`DateTime + TimeDelta` overflowed")

/-- Errors of a statement. -/
def database (e : SqlxError) : Stop := .err (.database e)

/-- `issue_challenge`. -/
def issueChallenge (crypto : AuthCrypto) (domain : String) (req : ChallengeRequest) :
    Prog auth Stop Challenge := do
  .done ((validateAddress crypto req.address).mapError .err)
  let nonce ← newNonce
  let timestamp ← utcNow
  let expiresAt ← .done (addInstant crypto timestamp (CHALLENGE_TTL_MINUTES * 60000000))
  (call (I := auth) (.insertChallenge nonce domain req.address expiresAt.micros)).mapErr database
  return ⟨domain, nonce, crypto.rfc3339 timestamp, req.address⟩

/-- `verify`. The clock is read only for a challenge that is not used. -/
def verify (crypto : AuthCrypto) (domain : String) (sessionTtl : Nat) (req : VerifyRequest) :
    Prog auth Stop Session := do
  .done ((validateAddress crypto req.address).mapError .err)
  let found ← (call (I := auth) (.selectChallenge req.nonce req.address req.domain)).mapErr database
  match found with
  | none => .throw (.err (.conflict ERR_NONCE_UNUSED_OR_EXPIRED))
  | some nonceRow =>
    if nonceRow.used then .throw (.err (.conflict ERR_NONCE_UNUSED_OR_EXPIRED))
    else
      let now ← utcNow
      if nonceRow.expiresAt ≤ now.micros then .throw (.err (.conflict ERR_NONCE_UNUSED_OR_EXPIRED))
      else if nonceRow.domain ≠ domain then
        .throw (.err (.badRequest "challenge issued for a different domain"))
      else
        let message := sep40Message req.domain req.address req.nonce req.timestamp
        .done ((verifySignature crypto req.address req.signature message).mapError fun e =>
          .err (.unauthorized s!"invalid signature: {e}"))
        (call (I := auth) (.useChallenge req.nonce)).mapErr database
        let token ← newNonce
        let tokenHash := hashToken crypto token
        let now ← utcNow
        let ttl ← .done ((crypto.fromStd sessionTtl).mapError fun e => .err (.internal e))
        let expiresAt ← .done (addInstant crypto now ttl)
        (call (I := auth) (.insertSession ⟨tokenHash, req.address, ["farmer"],
          expiresAt.micros⟩)).mapErr database
        return ⟨token, req.address, ["farmer"], expiresAt⟩

/-- `session_by_token`. -/
def sessionByToken (crypto : AuthCrypto) (token : String) : Prog auth AppError SessionRow := do
  let tokenHash := hashToken crypto token
  let found ← (call (I := auth) (.selectSession tokenHash)).mapErr .database
  match found with
  | none => .throw (.unauthorized "no session for token")
  | some row =>
    let now ← utcNow
    if row.expiresAt ≤ now.micros then .throw (.unauthorized "session expired")
    else return row

end VerdantBackend
