import VerdantBackend.Error
import VerdantBackend.Lib.Prog
import VerdantBackend.Lib.Table

/-!
# Challenges and sessions

`src/auth/model.rs` and the tables of `migrations/0004_auth.sql`, with the
statements that `src/auth/service.rs` issues against them. The clock and the
random generator answer like the database: one statement, one answer.

The clock of the process has nanoseconds, `TIMESTAMPTZ` whole microseconds since
1970: a row keeps the microseconds of an instant, and a kept instant has come when
the microseconds of the clock are those or later. The column `issued_at`, which
nothing reads, and the serial `id` of a session are left out.
-/

namespace VerdantBackend

/-- `DateTime<Utc>`: whole microseconds since 1970, and the nanoseconds above them. -/
structure Instant where
  micros : Int
  nanos : Fin 1000
deriving DecidableEq, Repr

/-- An instant of whole microseconds. -/
def Instant.ofMicros (micros : Int) : Instant := ⟨micros, ⟨0, Nat.succ_pos _⟩⟩

@[simp] theorem Instant.ofMicros_micros (micros : Int) : (ofMicros micros).micros = micros := rfl

structure ChallengeRequest where
  address : String

structure Challenge where
  domain : String
  nonce : String
  timestamp : String
  address : String

structure VerifyRequest where
  address : String
  domain : String
  nonce : String
  timestamp : String
  signature : String

structure Session where
  token : String
  address : String
  roles : List String
  expiresAt : Instant

def CHALLENGE_TTL_MINUTES : Int := 5

/-- `auth_challenges`, keyed by the nonce. -/
structure ChallengeRow where
  domain : String
  address : String
  expiresAt : Int
  used : Bool
deriving DecidableEq, Repr

/-- A row of `auth_sessions`; what `session_by_token` reads of it is
`SessionRow` without the hash. -/
structure SessionRow where
  tokenHash : String
  address : String
  roles : List String
  expiresAt : Int
deriving DecidableEq, Repr

/-- The tables, the clock (its microseconds, and the nanoseconds above them), and how
often the random generator was asked. -/
structure AuthWorld where
  authChallenges : Table String ChallengeRow
  authSessions : UniqueRows SessionRow.tokenHash
  clock : Int
  nanos : Fin 1000
  draws : Nat

namespace AuthWorld

def empty (clock : Int) : AuthWorld := ⟨∅, UniqueRows.empty, clock, ⟨0, Nat.succ_pos _⟩, 0⟩

def now (w : AuthWorld) : Instant := ⟨w.clock, w.nanos⟩

@[simp] theorem now_micros (w : AuthWorld) : w.now.micros = w.clock := rfl

/-- Time passes, and others draw random bytes. -/
def Passes (w w' : AuthWorld) : Prop :=
  w'.authChallenges = w.authChallenges ∧ w'.authSessions = w.authSessions

end AuthWorld

inductive AuthStmt where
  | now
  | randomHex
  | insertChallenge (nonce domain address : String) (expiresAt : Int)
  | selectChallenge (nonce address domain : String)
  | useChallenge (nonce : String)
  | insertSession (row : SessionRow)
  | selectSession (tokenHash : String)

namespace AuthStmt

abbrev Err : AuthStmt → Type
  | now | randomHex => Empty
  | _ => SqlxError

abbrev Res : AuthStmt → Type
  | now => Instant
  | randomHex => String
  | selectChallenge .. => Option ChallengeRow
  | selectSession .. => Option SessionRow
  | _ => Unit

end AuthStmt

abbrev auth : Interface := ⟨AuthStmt, AuthStmt.Err, AuthStmt.Res⟩

/-- The execution of a statement; `random n` is the `n`-th draw, in hex. -/
def execAuth (random : Nat → String) : auth.Handler AuthWorld
  | .now, w => .ok (w.now, w)
  | .randomHex, w => .ok (random w.draws, { w with draws := w.draws + 1 })
  | .insertChallenge nonce domain address expiresAt, w =>
    if hasNul nonce || hasNul domain || hasNul address then .error nulByte
    else if nonce ∈ w.authChallenges then
      .error (.database "duplicate key value violates unique constraint \"auth_challenges_pkey\"")
    else
      .ok ((), { w with
        authChallenges := w.authChallenges.insert nonce ⟨domain, address, expiresAt, false⟩ })
  | .selectChallenge nonce address domain, w =>
    if hasNul nonce || hasNul address || hasNul domain then .error nulByte
    else
      .ok ((w.authChallenges.lookup nonce).filter fun row =>
        row.address = address && row.domain = domain, w)
  | .useChallenge nonce, w =>
    if hasNul nonce then .error nulByte
    else
      (w.authChallenges.update nonce fun row => .ok { row with used := true }).map
        fun authChallenges => ((), { w with authChallenges })
  | .insertSession row, w =>
    if hasNul row.address then .error nulByte
    else if row.tokenHash ∈ w.authSessions.rows.map SessionRow.tokenHash then
      .error (.database
        "duplicate key value violates unique constraint \"auth_sessions_token_hash_key\"")
    else .ok ((), { w with authSessions := w.authSessions.insert row })
  | .selectSession tokenHash, w =>
    .ok (w.authSessions.rows.find? fun row => row.tokenHash = tokenHash, w)

end VerdantBackend
