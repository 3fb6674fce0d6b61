import VerdantBackend.Auth.Service

/-!
# Outcomes of the authentication service

All that `issue_challenge`, `verify` and `session_by_token` can do as calls of
their own, when any of their statements may fail.
-/

namespace VerdantBackend

open Prog

/-- The challenge a request names, if its address and domain are those it was
issued for. -/
def AuthWorld.challengeFor (w : AuthWorld) (req : VerifyRequest) : Option ChallengeRow :=
  (w.authChallenges.lookup req.nonce).filter fun row =>
    row.address = req.address && row.domain = req.domain

/-- The checks of `verify` on the challenge it finds. -/
def checkVerify (crypto : AuthCrypto) (domain : String) (req : VerifyRequest) (now : Int) :
    Option ChallengeRow → Except Stop Unit
  | none => .error (.err (.conflict ERR_NONCE_UNUSED_OR_EXPIRED))
  | some row =>
    if row.used then .error (.err (.conflict ERR_NONCE_UNUSED_OR_EXPIRED))
    else if row.expiresAt ≤ now then .error (.err (.conflict ERR_NONCE_UNUSED_OR_EXPIRED))
    else if row.domain ≠ domain then
      .error (.err (.badRequest "challenge issued for a different domain"))
    else
      (verifySignature crypto req.address req.signature
        (sep40Message req.domain req.address req.nonce req.timestamp)).mapError fun e =>
          .err (.unauthorized s!"invalid signature: {e}")

/-- What `verify` does once its checks have passed. -/
def establishSession (crypto : AuthCrypto) (sessionTtl : Nat) (req : VerifyRequest) :
    Prog auth Stop Session := do
  (call (I := auth) (.useChallenge req.nonce)).mapErr database
  let token ← newNonce
  let now ← utcNow
  let ttl ← .done ((crypto.fromStd sessionTtl).mapError fun e => .err (.internal e))
  let expiresAt ← .done (addInstant crypto now ttl)
  (call (I := auth) (.insertSession ⟨hashToken crypto token, req.address, ["farmer"],
    expiresAt.micros⟩)).mapErr database
  return ⟨token, req.address, ["farmer"], expiresAt⟩

/-- The expiry of a session established now. -/
def sessionExpiry (crypto : AuthCrypto) (now : Instant) (sessionTtl : Nat) :
    Except Stop Instant := do
  let ttl ← (crypto.fromStd sessionTtl).mapError fun e => Stop.err (.internal e)
  addInstant crypto now ttl

/-- The texts of a request hold no U+0000. -/
def VerifyRequest.Storable (req : VerifyRequest) : Prop :=
  hasNul req.nonce = false ∧ hasNul req.address = false ∧ hasNul req.domain = false

namespace AuthWorld

/-- The challenge is marked as used. -/
def useChallenge (w : AuthWorld) (nonce : String) (row : ChallengeRow) : AuthWorld :=
  { w with authChallenges := w.authChallenges.insert nonce { row with used := true } }

def draw (w : AuthWorld) : AuthWorld := { w with draws := w.draws + 1 }

def addChallenge (w : AuthWorld) (nonce : String) (row : ChallengeRow) : AuthWorld :=
  { w with authChallenges := w.authChallenges.insert nonce row }

def addSession (w : AuthWorld) (row : SessionRow) : AuthWorld :=
  { w with authSessions := w.authSessions.insert row }

@[simp] theorem draw_clock (w : AuthWorld) : w.draw.clock = w.clock := rfl

@[simp] theorem draw_draws (w : AuthWorld) : w.draw.draws = w.draws + 1 := rfl

@[simp] theorem draw_authChallenges (w : AuthWorld) :
    w.draw.authChallenges = w.authChallenges := rfl

@[simp] theorem draw_authSessions (w : AuthWorld) : w.draw.authSessions = w.authSessions := rfl

@[simp] theorem useChallenge_clock (w : AuthWorld) (nonce : String) (row : ChallengeRow) :
    (w.useChallenge nonce row).clock = w.clock := rfl

@[simp] theorem useChallenge_draws (w : AuthWorld) (nonce : String) (row : ChallengeRow) :
    (w.useChallenge nonce row).draws = w.draws := rfl

@[simp] theorem useChallenge_authSessions (w : AuthWorld) (nonce : String)
    (row : ChallengeRow) : (w.useChallenge nonce row).authSessions = w.authSessions := rfl

end AuthWorld

/-! ## The statements -/

section
variable {random : Nat → String} {w w' : AuthWorld}

theorem execAuth_selectChallenge_iff {req : VerifyRequest} {found : Option ChallengeRow} :
    execAuth random (.selectChallenge req.nonce req.address req.domain) w = .ok (found, w') ↔
      req.Storable ∧ found = w.challengeFor req ∧ w' = w := by
  rw [execAuth]
  by_cases hnul : hasNul req.nonce || hasNul req.address || hasNul req.domain
  · rw [if_pos hnul]
    constructor
    · intro h
      cases h
    · intro h
      obtain ⟨⟨h₁, h₂, h₃⟩, _⟩ := h
      simp [h₁, h₂, h₃] at hnul
  · rw [if_neg hnul]
    have hstorable : req.Storable := by
      simp only [Bool.or_eq_true, not_or, Bool.not_eq_true] at hnul
      exact ⟨hnul.1.1, hnul.1.2, hnul.2⟩
    simp only [Except.ok.injEq, Prod.mk.injEq, hstorable, true_and]
    rw [eq_comm, @eq_comm _ w w']
    rfl

variable (random) in
theorem execAuth_useChallenge {nonce : String} {row : ChallengeRow} (hnul : hasNul nonce = false)
    (hrow : w.authChallenges.lookup nonce = some row) :
    execAuth random (.useChallenge nonce) w = .ok ((), w.useChallenge nonce row) := by
  rw [execAuth, hnul, if_neg (by simp), Table.update, hrow]
  rfl

theorem execAuth_insertSession_iff {row : SessionRow} {u : Unit}
    (hnul : hasNul row.address = false) :
    execAuth random (.insertSession row) w = .ok (u, w') ↔
      row.tokenHash ∉ w.authSessions.rows.map SessionRow.tokenHash ∧ w' = w.addSession row := by
  rw [execAuth, hnul, if_neg (by simp)]
  split
  · next h => simp [h]
  · next h => simp [h, AuthWorld.addSession, eq_comm]

theorem execAuth_insertChallenge {nonce domain address : String} {expiresAt : Int} {u : Unit}
    (h : execAuth random (.insertChallenge nonce domain address expiresAt) w = .ok (u, w')) :
    nonce ∉ w.authChallenges ∧
      w' = w.addChallenge nonce ⟨domain, address, expiresAt, false⟩ := by
  rw [execAuth] at h
  split at h
  · cases h
  split at h
  · cases h
  · next hnew =>
    cases h
    exact ⟨hnew, rfl⟩

/-- The challenge a request names is a row. -/
theorem AuthWorld.challengeFor_eq_some_iff {req : VerifyRequest} {row : ChallengeRow} :
    w.challengeFor req = some row ↔ w.authChallenges.lookup req.nonce = some row ∧
      row.address = req.address ∧ row.domain = req.domain := by
  rw [challengeFor, Option.filter_eq_some_iff]
  simp

end

/-- The answer of a statement and what it leaves. -/
def AuthStmt.Effect (random : Nat → String) (w w' : AuthWorld) : (q : AuthStmt) → q.Res → Prop
  | .now, time => time = w.now ∧ w' = w
  | .randomHex, text => text = random w.draws ∧ w' = w.draw
  | .insertChallenge nonce domain address expiresAt, _ =>
    nonce ∉ w.authChallenges ∧ w' = w.addChallenge nonce ⟨domain, address, expiresAt, false⟩
  | .selectChallenge nonce address domain, found =>
    (∀ row, found = some row →
      w.authChallenges.lookup nonce = some row ∧ row.address = address ∧ row.domain = domain) ∧
      w' = w
  | .useChallenge nonce, _ =>
    (w.authChallenges.lookup nonce = none ∧ w' = w) ∨
      ∃ row, w.authChallenges.lookup nonce = some row ∧ w' = w.useChallenge nonce row
  | .insertSession row, _ =>
    row.tokenHash ∉ w.authSessions.rows.map SessionRow.tokenHash ∧ w' = w.addSession row
  | .selectSession _, _ => w' = w

section
variable {random : Nat → String} {w w' : AuthWorld} {q : AuthStmt} {a : q.Res}

theorem execAuth_effect (hx : execAuth random q w = .ok (a, w')) : q.Effect random w w' a := by
  cases q with
  | now | randomHex =>
      cases hx
      exact ⟨rfl, rfl⟩
  | insertChallenge nonce domain address expiresAt => exact execAuth_insertChallenge hx
  | selectChallenge nonce address domain =>
      rw [execAuth] at hx
      split at hx
      · cases hx
      cases hx
      refine ⟨fun row hrow => ?_, rfl⟩
      simpa [Option.filter_eq_some_iff] using hrow
  | useChallenge nonce =>
      rw [execAuth] at hx
      split at hx
      · cases hx
      cases hrow : w.authChallenges.lookup nonce with
      | none =>
          rw [Table.update, hrow] at hx
          cases hx
          exact .inl ⟨hrow, rfl⟩
      | some row =>
          rw [Table.update, hrow] at hx
          cases hx
          exact .inr ⟨row, hrow, rfl⟩
  | insertSession row =>
      rw [execAuth] at hx
      split at hx
      · cases hx
      split at hx
      · cases hx
      · next hnew =>
        cases hx
        exact ⟨hnew, rfl⟩
  | selectSession tokenHash =>
      cases hx
      exact rfl

/-- Statements take no time. -/
theorem AuthStmt.Effect.clock (h : q.Effect random w w' a) : w'.clock = w.clock := by
  cases q with
  | now | randomHex | insertChallenge _ _ _ _ | selectChallenge _ _ _ | insertSession _ =>
      obtain ⟨_, rfl⟩ := h
      rfl
  | useChallenge nonce => rcases h with ⟨_, rfl⟩ | ⟨_, _, rfl⟩ <;> rfl
  | selectSession tokenHash =>
      cases h
      rfl

end

/-! ## Outcomes -/

section
variable (crypto : AuthCrypto) (random : Nat → String) (F : Failures auth AuthWorld)

/-- The session `verify` inserts. -/
def newSession (req : VerifyRequest) (w : AuthWorld) (expiresAt : Instant) : SessionRow :=
  ⟨hashToken crypto (random w.draws), req.address, ["farmer"], expiresAt.micros⟩

/-- What `verify` may end with once it has found `row` and all its checks passed. -/
inductive CheckedOutcome (sessionTtl : Nat) (req : VerifyRequest) (row : ChallengeRow)
    (w : AuthWorld) : Except Stop Session → AuthWorld → Prop where
  | useFailed {e} : F (.useChallenge req.nonce) w e →
      CheckedOutcome sessionTtl req row w (.error (database e)) w
  | noExpiry {s} : sessionExpiry crypto w.now sessionTtl = .error s →
      CheckedOutcome sessionTtl req row w (.error s) (w.useChallenge req.nonce row).draw
  | insertFailed {expiresAt e} : sessionExpiry crypto w.now sessionTtl = .ok expiresAt →
      F (.insertSession (newSession crypto random req w expiresAt))
        (w.useChallenge req.nonce row).draw e →
      CheckedOutcome sessionTtl req row w (.error (database e))
        (w.useChallenge req.nonce row).draw
  | verified {expiresAt} : sessionExpiry crypto w.now sessionTtl = .ok expiresAt →
      hashToken crypto (random w.draws) ∉ w.authSessions.rows.map SessionRow.tokenHash →
      CheckedOutcome sessionTtl req row w
        (.ok ⟨random w.draws, req.address, ["farmer"], expiresAt⟩)
        ((w.useChallenge req.nonce row).draw.addSession
          (newSession crypto random req w expiresAt))

/-- What `verify` may end with. -/
inductive VerifyOutcome (domain : String) (sessionTtl : Nat) (req : VerifyRequest)
    (w : AuthWorld) : Except Stop Session → AuthWorld → Prop where
  | refused {e} : validateAddress crypto req.address = .error e →
      VerifyOutcome domain sessionTtl req w (.error (.err e)) w
  | selectFailed {e} : validateAddress crypto req.address = .ok () →
      F (.selectChallenge req.nonce req.address req.domain) w e →
      VerifyOutcome domain sessionTtl req w (.error (database e)) w
  | rejected {s} : validateAddress crypto req.address = .ok () → req.Storable →
      checkVerify crypto domain req w.clock (w.challengeFor req) = .error s →
      VerifyOutcome domain sessionTtl req w (.error s) w
  | checked {row r w'} : validateAddress crypto req.address = .ok () → req.Storable →
      w.challengeFor req = some row →
      checkVerify crypto domain req w.clock (some row) = .ok () →
      CheckedOutcome crypto random F sessionTtl req row w r w' →
      VerifyOutcome domain sessionTtl req w r w'

/-- What `session_by_token` may end with: it changes nothing. -/
inductive SessionOutcome (token : String) (w : AuthWorld) : Except AppError SessionRow → Prop where
  | selectFailed {e} : F (.selectSession (hashToken crypto token)) w e →
      SessionOutcome token w (.error (.database e))
  | refused {message} : SessionOutcome token w (.error (.unauthorized message))
  | found {row} : row ∈ w.authSessions.rows → row.tokenHash = hashToken crypto token →
      w.clock < row.expiresAt → SessionOutcome token w (.ok row)

end

section
variable {crypto : AuthCrypto} {random : Nat → String} {F : Failures auth AuthWorld}
variable {w w' : AuthWorld} {domain : String} {sessionTtl : Nat}

theorem ends_newNonce_bind_iff {β : Type} {f : String → Prog auth Stop β} {r : Except Stop β} :
    Ends (execAuth random) F (newNonce >>= f) w r w' ↔
      Ends (execAuth random) F (f (random w.draws)) w.draw r w' := by
  apply ends_call_bind_iff.trans
  constructor
  · rintro (⟨e, _⟩ | ⟨nonce, w₁, hx, h⟩)
    · exact e.elim
    · cases hx
      exact h
  · intro h
    exact .inr ⟨_, _, rfl, h⟩

theorem ends_utcNow_bind_iff {ε β : Type} {f : Instant → Prog auth ε β} {r : Except ε β} :
    Ends (execAuth random) F (utcNow >>= f) w r w' ↔
      Ends (execAuth random) F (f w.now) w r w' := by
  apply ends_call_bind_iff.trans
  constructor
  · rintro (⟨e, _⟩ | ⟨now, w₁, hx, h⟩)
    · exact e.elim
    · cases hx
      exact h
  · intro h
    exact .inr ⟨_, _, rfl, h⟩

theorem ends_validateAddress_bind_iff {β : Type} {address : String} {f : Unit → Prog auth Stop β}
    {r : Except Stop β} :
    Ends (execAuth random) F (.done ((validateAddress crypto address).mapError .err) >>= f)
        w r w' ↔
      (∃ e, validateAddress crypto address = .error e ∧ r = .error (.err e) ∧ w' = w) ∨
      validateAddress crypto address = .ok () ∧ Ends (execAuth random) F (f ()) w r w' := by
  rw [ends_done_bind_iff]
  cases validateAddress crypto address with
  | ok u =>
      constructor
      · rintro (⟨e, he, _⟩ | ⟨u, _, h⟩)
        · cases he
        · exact .inr ⟨rfl, h⟩
      · rintro (⟨e, he, _⟩ | ⟨_, h⟩)
        · cases he
        · exact .inr ⟨(), rfl, h⟩
  | error e => simp [Except.mapError]

theorem sessionExpiry_eq (now : Instant) :
    sessionExpiry crypto now sessionTtl = match crypto.fromStd sessionTtl with
      | .ok ttl => addInstant crypto now ttl
      | .error e => .error (.err (.internal e)) := by
  rw [sessionExpiry]
  cases crypto.fromStd sessionTtl <;> rfl

theorem ends_sessionExpiry_bind_iff {β : Type} {f : Instant → Prog auth Stop β} {now : Instant}
    {r : Except Stop β} :
    Ends (execAuth random) F
        ((.done ((crypto.fromStd sessionTtl).mapError fun e => .err (.internal e)) :
          Prog auth Stop Int) >>= fun ttl => .done (addInstant crypto now ttl) >>= f) w r w' ↔
      (∃ s, sessionExpiry crypto now sessionTtl = .error s ∧ r = .error s ∧ w' = w) ∨
      ∃ expiresAt, sessionExpiry crypto now sessionTtl = .ok expiresAt ∧
        Ends (execAuth random) F (f expiresAt) w r w' := by
  rw [sessionExpiry_eq]
  cases crypto.fromStd sessionTtl with
  | ok ttl =>
      rw [Except.mapError, bind_done_ok]
      exact ends_done_bind_iff
  | error e => simp [ends_done_iff, Except.mapError]

/-- The challenge marked, the token drawn, the session inserted: in this order. -/
theorem establish_ends_iff {req : VerifyRequest} {row : ChallengeRow} {r : Except Stop Session}
    (hstorable : req.Storable) (hrow : w.challengeFor req = some row) :
    Ends (execAuth random) F (establishSession crypto sessionTtl req) w r w' ↔
      CheckedOutcome crypto random F sessionTtl req row w r w' := by
  have hlookup := (AuthWorld.challengeFor_eq_some_iff.mp hrow).1
  have huse := execAuth_useChallenge random hstorable.1 hlookup
  rw [establishSession]
  constructor
  · intro h
    rcases ends_call_bind_iff.mp h with ⟨e, hF, rfl, rfl⟩ | ⟨u, w₁, hx, h⟩
    · exact .useFailed hF
    rw [huse] at hx
    cases hx
    rw [ends_newNonce_bind_iff, ends_utcNow_bind_iff] at h
    rcases ends_sessionExpiry_bind_iff.mp h with ⟨s, hexp, rfl, rfl⟩ | ⟨expiresAt, hexp, h⟩
    · exact .noExpiry hexp
    rcases ends_call_bind_iff.mp h with ⟨e, hF, rfl, rfl⟩ | ⟨u, w₂, hx, h⟩
    · exact .insertFailed hexp hF
    obtain ⟨hnew, rfl⟩ := (execAuth_insertSession_iff hstorable.2.1).mp hx
    obtain ⟨rfl, rfl⟩ := ends_done_iff.mp h
    exact .verified hexp hnew
  · intro h
    apply ends_call_bind_iff.mpr
    cases h with
    | useFailed hF => exact .inl ⟨_, hF, rfl, rfl⟩
    | noExpiry hexp =>
        refine .inr ⟨(), _, huse, ?_⟩
        rw [ends_newNonce_bind_iff, ends_utcNow_bind_iff]
        exact ends_sessionExpiry_bind_iff.mpr (.inl ⟨_, hexp, rfl, rfl⟩)
    | insertFailed hexp hF =>
        refine .inr ⟨(), _, huse, ?_⟩
        rw [ends_newNonce_bind_iff, ends_utcNow_bind_iff]
        apply ends_sessionExpiry_bind_iff.mpr
        exact .inr ⟨_, hexp, ends_call_bind_iff.mpr (.inl ⟨_, hF, rfl, rfl⟩)⟩
    | verified hexp hnew =>
        refine .inr ⟨(), _, huse, ?_⟩
        rw [ends_newNonce_bind_iff, ends_utcNow_bind_iff]
        apply ends_sessionExpiry_bind_iff.mpr
        refine .inr ⟨_, hexp, ends_call_bind_iff.mpr
          (.inr ⟨(), _, ?_, ends_done_iff.mpr ⟨rfl, rfl⟩⟩)⟩
        exact (execAuth_insertSession_iff hstorable.2.1).mpr ⟨hnew, rfl⟩

/-- The challenge is selected, and decides with the checks how it goes on. -/
theorem ends_verify_iff {req : VerifyRequest} {r : Except Stop Session}
    (hval : validateAddress crypto req.address = .ok ()) :
    Ends (execAuth random) F (verify crypto domain sessionTtl req) w r w' ↔
      (∃ e, F (.selectChallenge req.nonce req.address req.domain) w e ∧
        r = .error (database e) ∧ w' = w) ∨
      req.Storable ∧
        ((∃ s, checkVerify crypto domain req w.clock (w.challengeFor req) = .error s ∧
          r = .error s ∧ w' = w) ∨
        ∃ row, w.challengeFor req = some row ∧
          checkVerify crypto domain req w.clock (some row) = .ok () ∧
          Ends (execAuth random) F (establishSession crypto sessionTtl req) w r w') := by
  have hselect (P : Option ChallengeRow → AuthWorld → Prop) :
      (∃ found w₁, execAuth random (.selectChallenge req.nonce req.address req.domain) w =
        .ok (found, w₁) ∧ P found w₁) ↔ req.Storable ∧ P (w.challengeFor req) w := by
    constructor
    · intro h
      obtain ⟨found, w₁, hx, h⟩ := h
      obtain ⟨hstorable, rfl, rfl⟩ := execAuth_selectChallenge_iff.mp hx
      exact ⟨hstorable, h⟩
    · intro h
      obtain ⟨hstorable, h⟩ := h
      exact ⟨_, _, execAuth_selectChallenge_iff.mpr ⟨hstorable, rfl, rfl⟩, h⟩
  rw [verify, hval]
  apply ends_call_bind_iff.trans
  apply or_congr Iff.rfl
  apply (hselect _).trans
  apply and_congr_right
  intro _
  cases w.challengeFor req with
  | none => simp [checkVerify, Prog.throw, ends_done_iff]
  | some row =>
      simp only [checkVerify, Option.some.injEq, exists_eq_left']
      by_cases hused : row.used
      · simp [hused, Prog.throw, ends_done_iff]
      rw [if_neg hused, if_neg hused, ends_utcNow_bind_iff, AuthWorld.now_micros]
      by_cases hexp : row.expiresAt ≤ w.clock
      · simp [hexp, Prog.throw, ends_done_iff]
      rw [if_neg hexp, if_neg hexp]
      by_cases hdom : row.domain ≠ domain
      · simp [hdom, Prog.throw, ends_done_iff]
      rw [if_neg hdom, if_neg hdom]
      apply ends_done_bind_iff.trans
      apply or_congr Iff.rfl
      constructor
      · intro h
        obtain ⟨u, hsig, h⟩ := h
        exact ⟨hsig, h⟩
      · intro h
        obtain ⟨hsig, h⟩ := h
        exact ⟨(), hsig, h⟩

/-- **All that `verify` does.** -/
theorem verify_ends_iff {req : VerifyRequest} {r : Except Stop Session} :
    Ends (execAuth random) F (verify crypto domain sessionTtl req) w r w' ↔
      VerifyOutcome crypto random F domain sessionTtl req w r w' := by
  cases hval : validateAddress crypto req.address with
  | error e =>
      have hrefused : Ends (execAuth random) F (verify crypto domain sessionTtl req) w r w' ↔
          r = .error (.err e) ∧ w' = w := by
        rw [verify, ends_validateAddress_bind_iff, hval]
        simp
      rw [hrefused]
      constructor
      · rintro ⟨rfl, rfl⟩
        exact .refused hval
      · intro h
        cases h with
        | refused hval' =>
            rw [hval] at hval'
            cases hval'
            exact ⟨rfl, rfl⟩
        | selectFailed hval' | rejected hval' | checked hval' =>
            rw [hval] at hval'
            cases hval'
  | ok u =>
      rw [ends_verify_iff hval]
      constructor
      · rintro (⟨e, hF, rfl, rfl⟩ | ⟨hstorable, ⟨s, hcheck, rfl, rfl⟩ | ⟨row, hrow, hcheck, h⟩⟩)
        · exact .selectFailed hval hF
        · exact .rejected hval hstorable hcheck
        · exact .checked hval hstorable hrow hcheck ((establish_ends_iff hstorable hrow).mp h)
      · intro h
        cases h with
        | refused hval' =>
            rw [hval] at hval'
            cases hval'
        | selectFailed _ hF => exact .inl ⟨_, hF, rfl, rfl⟩
        | rejected _ hstorable hcheck => exact .inr ⟨hstorable, .inl ⟨_, hcheck, rfl, rfl⟩⟩
        | checked _ hstorable hrow hcheck h =>
            exact .inr ⟨hstorable, .inr
              ⟨_, hrow, hcheck, (establish_ends_iff hstorable hrow).mpr h⟩⟩

/-- **All that `session_by_token` does.** -/
theorem session_ends {token : String} {r : Except AppError SessionRow}
    (h : Ends (execAuth random) F (sessionByToken crypto token) w r w') :
    w' = w ∧ SessionOutcome crypto F token w r := by
  rw [sessionByToken] at h
  rcases ends_call_bind_iff.mp h with ⟨e, hF, rfl, rfl⟩ | ⟨found, w₁, hx, h⟩
  · exact ⟨rfl, .selectFailed hF⟩
  cases hx
  cases hfound : w.authSessions.rows.find? fun row => row.tokenHash = hashToken crypto token with
  | none =>
      rw [hfound] at h
      obtain ⟨rfl, rfl⟩ := ends_done_iff.mp h
      exact ⟨rfl, .refused⟩
  | some row =>
      rw [hfound] at h
      replace h := ends_utcNow_bind_iff.mp h
      rw [AuthWorld.now_micros] at h
      by_cases hexp : row.expiresAt ≤ w.clock
      · rw [if_pos hexp] at h
        obtain ⟨rfl, rfl⟩ := ends_done_iff.mp h
        exact ⟨rfl, .refused⟩
      · rw [if_neg hexp] at h
        obtain ⟨rfl, rfl⟩ := ends_done_iff.mp h
        have hrow := List.find?_some hfound
        exact ⟨rfl, .found (List.mem_of_find?_eq_some hfound) (of_decide_eq_true hrow)
          (by omega)⟩

end

end VerdantBackend
