import VerdantBackend.Auth.Accounted
import VerdantBackend.Auth.SingleUse

/-!
# Authenticity of sessions

A token that `session_by_token` accepts was returned to someone who signed, with
the key of the session's address, a challenge issued for that address. Of what
was signed, the timestamp alone need not be that of the challenge.
-/

namespace VerdantBackend

open Prog

section
variable {crypto : AuthCrypto} {random : Nat → String} {F : Failures auth AuthWorld}
variable {domain : String} {sessionTtl : Nat} {w w' : AuthWorld} {clock : Int}
variable {past later : List AuthEvent} {read : List Instant}

/-- **Authenticity.** No token that a `verify` returned has the digest of another token
that is presented. The challenge is five minutes old at most when `verify` checks it; the
session runs from when the clock is read again. -/
theorem session_authentic {token : String} {row : SessionRow} {time : Instant}
    (hrun : AuthRun crypto random F domain sessionTtl clock
      (later ++ .looked read token (.ok row) :: past) w) (htime : time ∈ read)
    (hdigest : ∀ verifyRead req s, AuthEvent.verified verifyRead req (.ok s) ∈ past →
      hashToken crypto s.token = hashToken crypto token → s.token = token) :
    ∃ (between earlier : List AuthEvent) (checkTime verifyTime : Instant)
      (req : VerifyRequest) (s : Session),
      past = between ++ .verified [checkTime, verifyTime] req (.ok s) :: earlier ∧
      s.token = token ∧ req.address = row.address ∧
      checkTime.micros ≤ verifyTime.micros ∧ verifyTime.micros ≤ time.micros ∧
      time.micros < verifyTime.micros + sessionTtl ∧
      SignedFor crypto domain earlier checkTime.micros req := by
  obtain ⟨w₁, w₂, hpast, hlook, _⟩ := hrun.step_at
  obtain ⟨_, hread, _, heffect⟩ := hlook.effect
  have hclock : w₁.clock ≤ time.micros := (hread time htime).1
  cases heffect with
  | found _ hrow hhash hexp =>
      obtain rfl := List.mem_singleton.mp htime
      obtain ⟨between, checkTime, verifyTime, req, s, earlier, hsplit, rfl, hle, hbefore,
        hsigned⟩ := (AuthRun.accounted hpast).session row hrow
      have htoken : s.token = token := by
        apply hdigest [checkTime, verifyTime] req s _ hhash
        rw [hsplit]
        simp
      exact ⟨between, earlier, checkTime, verifyTime, req, s, hsplit, htoken, rfl, hle,
        by omega, hexp, hsigned⟩

/-- The clock when the challenge of this nonce was issued. -/
def IssuedAt (past : List AuthEvent) (nonce : String) (time : Instant) : Prop :=
  ∃ issueReq c, AuthEvent.issued [time] issueReq (.ok c) ∈ past ∧ c.nonce = nonce

/-- **What was signed.** A request that signs in names the domain, the nonce and the
address of a challenge; all four texts are those of a challenge exactly when its timestamp
is the text of the instant, to the nanosecond, that its nonce was issued at. -/
theorem signs_in_with_challenge_iff {req : VerifyRequest} {s : Session}
    (hrun : AuthRun crypto random F domain sessionTtl clock past w)
    (hverify : AuthCall crypto random F domain sessionTtl w (.verified read req (.ok s)) w') :
    (∃ issueRead issueReq, AuthEvent.issued issueRead issueReq
        (.ok ⟨req.domain, req.nonce, req.timestamp, req.address⟩) ∈ past) ↔
      ∃ time, IssuedAt past req.nonce time ∧ req.timestamp = crypto.rfc3339 time := by
  have haccounted := AuthRun.accounted hrun
  constructor
  · intro h
    obtain ⟨issueRead, issueReq, hissued⟩ := h
    obtain ⟨_, time, row, rfl, _, hstored⟩ := haccounted.issued hissued
    exact ⟨time, ⟨issueReq, _, hissued, rfl⟩, hstored.timestamp⟩
  · intro h
    obtain ⟨time, ⟨issueReq, c, hissued, hnonce⟩, htimestamp⟩ := h
    obtain ⟨_, issueTime, row, htime, hrow, hstored⟩ := haccounted.issued hissued
    obtain rfl := List.singleton_inj.mp htime
    obtain ⟨_, _, _, heffect⟩ := hverify.effect
    cases heffect with
    | @verified _ _ _ _ row' huses _ _ =>
        have hsame : row' = row := by
          have hfound := huses.found
          rw [← hnonce, hrow] at hfound
          exact (Option.some.inj hfound).symm
        obtain ⟨hreqDomain, hrowDomain, hrowAddress, _, _⟩ := hsame ▸ huses.accepted
        have hc : c = ⟨req.domain, req.nonce, req.timestamp, req.address⟩ := by
          rw [hreqDomain, ← hrowDomain, hstored.domain, htimestamp, ← hstored.timestamp,
            ← hrowAddress, hstored.address, ← hnonce]
        exact ⟨[time], issueReq, hc ▸ hissued⟩

end

/-! A wallet gets a challenge and signs in, and its token is presented. -/

/-- The challenge of `walletRequest`, signed with another timestamp. -/
def datedRequest : VerifyRequest where
  address := walletAddress
  domain := "app.verdant.example"
  nonce := sampleRandom 0
  timestamp := "1999-12-31T23:59:59+00:00"
  signature :=
    "OjL42UZHc9ljJU6CdzSpGT+FKv9SxxRRLDRbXVxhgmkOjEJbuWtlcPkTw+Ro4Cs/g7dtFGYzt4yzlDi407UyBg=="

def datedSignature : Hex :=
  "3a32f8d9464773d963254e827734a9193f852aff52c714512c345b5d5c618269" ++
    "0e8c425bb96b6570f913c3e468e02b3f83b76d146633b78cb39438b8d3b53206"

/-- The challenge of `walletRequest`, issued a few nanoseconds later. -/
def preciseRequest : VerifyRequest where
  address := walletAddress
  domain := "app.verdant.example"
  nonce := sampleRandom 0
  timestamp := "2026-01-01T00:00:00.000000123+00:00"
  signature :=
    "Yi76qm0tnE3QmSBze69asr/d1uhMAVg71WXIU5cKGplfw02vDyqhmhY3S5wgZqQtd3/R/wkwMPOT5HHyz810BA=="

def preciseSignature : Hex :=
  "622efaaa6d2d9c4dd09920737baf5ab2bfddd6e84c01583bd565c853970a1a99" ++
    "5fc34daf0f2aa19a16374b9c2066a42d777fd1ff093030f393e471f2cfcd7404"

def strangerAddress : String := "GD6ROJBYLKQMOW3E7N4M2YBPUHMZD7PL65VRHRMO24BOVSBV5H3BQRSL"

def strangerKey : Hex := "fd1724385aa0c75b64fb78cd602fa1d991fdebf76b13c58ed702eac835e9f618"

/-- The challenge of `walletRequest`, answered by somebody else in his own name. -/
def strangerRequest : VerifyRequest where
  address := strangerAddress
  domain := "app.verdant.example"
  nonce := sampleRandom 0
  timestamp := walletRequest.timestamp
  signature :=
    "f9K0SYjSoSrG+OFwTwasGCBbdTEPyfUbmgyA2Xtu4FMzy8IT47OYGcWLWmoT+bpu0xp1Q9XwT6yBKcIPl02xBg=="

def strangerSignature : Hex :=
  "7fd2b44988d2a12ac6f8e1704f06ac18205b75310fc9f51b9a0c80d97b6ee053" ++
    "33cbc213e3b39819c58b5a6a13f9ba6ed31a7543d5f04fac8129c20f974db106"

/-- The requests with the key and the bytes of their signature. -/
def signedRequests : List (VerifyRequest × Hex × Hex) :=
  [(walletRequest, walletKey, walletSignature), (datedRequest, walletKey, datedSignature),
    (preciseRequest, walletKey, preciseSignature),
    (strangerRequest, strangerKey, strangerSignature)]

/-- The packages on the values of these requests. -/
def signerCrypto : AuthCrypto :=
  { walletCrypto with
    publicKey := fun address =>
      if address = strangerAddress then .ok strangerKey else walletCrypto.publicKey address
    decodeBase64 := fun text =>
      match signedRequests.find? fun signed => signed.1.signature = text with
      | some (_, _, raw) => .ok raw
      | none => .error "Invalid padding"
    verify := fun key message signature =>
      if signedRequests.any fun (req, signer, raw) => key = signer && signature = raw &&
        message = sep40Message req.domain req.address req.nonce req.timestamp then .ok ()
      else .error "signature error: Verification equation was not satisfied"
    rfc3339 := fun time =>
      if time.nanos.val = 0 then walletRequest.timestamp else preciseRequest.timestamp }

def walletChallenge : Challenge where
  domain := "app.verdant.example"
  nonce := sampleRandom 0
  timestamp := walletRequest.timestamp
  address := walletAddress

def walletToken : Session where
  token := sampleRandom 1
  address := walletAddress
  roles := ["farmer"]
  expiresAt := .ofMicros 1767830400000000

/-- The tables after the challenge was issued, and after the sign-in. -/
def challenged : AuthWorld :=
  (AuthWorld.empty 1767225600000000).draw.addChallenge (sampleRandom 0) (walletRow false)

def signedIn : AuthWorld :=
  (challenged.useChallenge (sampleRandom 0) (walletRow false)).draw.addSession walletSession

abbrev WalletCall : AuthWorld → AuthEvent → AuthWorld → Prop :=
  AuthCall signerCrypto sampleRandom (ownFailures (execAuth sampleRandom)) "app.verdant.example"
    604800000000

/-- The first instant of the runs. -/
def firstInstant : Instant := .ofMicros 1767225600000000

theorem wallet_challenged : WalletCall (.empty 1767225600000000)
    (.issued [firstInstant] ⟨walletAddress⟩ (.ok walletChallenge)) challenged :=
  .issue_alone (.refl _) rfl rfl

set_option maxRecDepth 20000 in
theorem wallet_signs_in : WalletCall challenged
    (.verified [firstInstant, firstInstant] walletRequest (.ok walletToken)) signedIn :=
  .verify_alone (.refl _) rfl rfl

set_option maxRecDepth 20000 in
theorem wallet_signs_in_dated : WalletCall challenged
    (.verified [firstInstant, firstInstant] datedRequest (.ok walletToken)) signedIn :=
  .verify_alone (.refl _) rfl rfl

/-! The clock moves on while the wallet is signing in: the challenge is checked in its last
microsecond, the session runs from a second later. -/

def checkTime : Instant := .ofMicros 1767225899999999

def verifyTime : Instant := .ofMicros 1767225901000000

/-- The last microsecond of the session. -/
def lookTime : Instant := .ofMicros 1767830700999999

def lateSession : SessionRow := { walletSession with expiresAt := 1767830701000000 }

def lateToken : Session := { walletToken with expiresAt := .ofMicros 1767830701000000 }

/-- The tables after the check, and after the session was inserted. -/
def lateChecked : AuthWorld := { challenged with clock := checkTime.micros }

def lateSignedIn : AuthWorld :=
  { (lateChecked.useChallenge (sampleRandom 0) (walletRow false)).draw.addSession lateSession with
    clock := verifyTime.micros }

set_option maxRecDepth 20000 in
theorem wallet_signs_in_late : WalletCall challenged
    (.verified [checkTime, verifyTime] walletRequest (.ok lateToken)) lateSignedIn := by
  have hchecked : challenged.Waits lateChecked := ⟨⟨rfl, rfl⟩, by decide, le_rfl⟩
  have hmarked : (lateChecked.useChallenge (sampleRandom 0) (walletRow false)).draw.Waits
      { (lateChecked.useChallenge (sampleRandom 0) (walletRow false)).draw with
        clock := verifyTime.micros } := ⟨⟨rfl, rfl⟩, by decide, le_rfl⟩
  have h : OutcomeBeside (execAuth sampleRandom) (ownFailures (execAuth sampleRandom))
      AuthWorld.Waits (verify signerCrypto "app.verdant.example" 604800000000 walletRequest)
      challenged
      [⟨.selectChallenge (sampleRandom 0) walletAddress "app.verdant.example",
          .ok (some (walletRow false))⟩,
        ⟨.now, .ok checkTime⟩, ⟨.useChallenge (sampleRandom 0), .ok ()⟩,
        ⟨.randomHex, .ok (sampleRandom 1)⟩, ⟨.now, .ok verifyTime⟩,
        ⟨.insertSession lateSession, .ok ()⟩]
      (.ok lateToken) lateSignedIn :=
    .ok (.refl _) rfl (.ok hchecked rfl (.ok (.refl _) rfl (.ok (.refl _) rfl
      (.ok hmarked rfl (.ok (.refl _) rfl .done)))))
  exact .verify (.refl _) h

set_option maxRecDepth 20000 in
theorem wallet_presents_token_late : WalletCall lateSignedIn
    (.looked [lookTime] (sampleRandom 1) (.ok lateSession))
    { lateSignedIn with clock := lookTime.micros } := by
  have hwaits : lateSignedIn.Waits { lateSignedIn with clock := lookTime.micros } :=
    ⟨⟨rfl, rfl⟩, by decide, le_rfl⟩
  have h : OutcomeBeside (execAuth sampleRandom) (ownFailures (execAuth sampleRandom))
      AuthWorld.Waits (sessionByToken signerCrypto (sampleRandom 1))
      { lateSignedIn with clock := lookTime.micros }
      [⟨.selectSession lateSession.tokenHash, .ok (some lateSession)⟩, ⟨.now, .ok lookTime⟩]
      (.ok lateSession) { lateSignedIn with clock := lookTime.micros } :=
    .ok (.refl _) rfl (.ok (.refl _) rfl .done)
  exact .look hwaits h

/-- The past of the last call. -/
def latePast : List AuthEvent :=
  [.verified [checkTime, verifyTime] walletRequest (.ok lateToken),
    .issued [firstInstant] ⟨walletAddress⟩ (.ok walletChallenge)]

theorem latePast_run : AuthRun signerCrypto sampleRandom (ownFailures (execAuth sampleRandom))
    "app.verdant.example" 604800000000 1767225600000000
    (.looked [lookTime] (sampleRandom 1) (.ok lateSession) :: latePast)
    { lateSignedIn with clock := lookTime.micros } :=
  ((Trail.start.step wallet_challenged).step wallet_signs_in_late).step wallet_presents_token_late

theorem latePast_verified {read : List Instant} {req : VerifyRequest} {s : Session}
    (h : AuthEvent.verified read req (.ok s) ∈ latePast) : s = lateToken := by
  simp only [latePast, List.mem_cons, AuthEvent.verified.injEq, Except.ok.injEq, reduceCtorEq,
    List.not_mem_nil, or_false] at h
  exact h.2.2

theorem session_authentic_wallet :
    ∃ (between earlier : List AuthEvent) (checkTime verifyTime : Instant)
      (req : VerifyRequest) (s : Session),
      latePast = between ++ .verified [checkTime, verifyTime] req (.ok s) :: earlier ∧
      s.token = sampleRandom 1 ∧ req.address = lateSession.address ∧
      checkTime.micros ≤ verifyTime.micros ∧ verifyTime.micros ≤ lookTime.micros ∧
      lookTime.micros < verifyTime.micros + ((604800000000 : Nat) : Int) ∧
      SignedFor signerCrypto "app.verdant.example" earlier checkTime.micros req := by
  have hrun := latePast_run
  rw [← List.nil_append (AuthEvent.looked _ _ _ :: _)] at hrun
  apply session_authentic hrun List.mem_cons_self
  intro verifyRead req s hs _
  rw [latePast_verified hs]
  rfl

/-- No instant is both less than the session's time before the token is presented and less
than five minutes behind the challenge. -/
theorem session_outlives_check :
    ∃ past w, AuthRun signerCrypto sampleRandom (ownFailures (execAuth sampleRandom))
        "app.verdant.example" 604800000000 1767225600000000
        (.looked [lookTime] (sampleRandom 1) (.ok lateSession) :: past) w ∧
      (∀ read req s, AuthEvent.verified read req (.ok s) ∈ past → s.token = sampleRandom 1) ∧
      ∀ (between earlier : List AuthEvent) (read : List Instant) (req : VerifyRequest)
        (s : Session) (time : Int),
        past = between ++ .verified read req (.ok s) :: earlier →
        lookTime.micros < time + ((604800000000 : Nat) : Int) →
        ¬ SignedFor signerCrypto "app.verdant.example" earlier time req := by
  refine ⟨latePast, _, latePast_run, fun read req s h => by rw [latePast_verified h]; rfl, ?_⟩
  intro between earlier read req s time hsplit hlive hsigned
  obtain ⟨_, issueTime, issueReq, c, hissued, _, _, _, _, hfresh⟩ := hsigned
  have hpast : AuthEvent.issued [issueTime] issueReq (.ok c) ∈ latePast := by
    rw [hsplit]
    exact List.mem_append_right _ (List.mem_cons_of_mem _ hissued)
  simp only [latePast, List.mem_cons, AuthEvent.issued.injEq, reduceCtorEq, List.not_mem_nil,
    false_or, or_false] at hpast
  rw [List.singleton_inj.mp hpast.1] at hfresh
  simp only [firstInstant, lookTime, Instant.ofMicros_micros, CHALLENGE_TTL_MINUTES] at hfresh hlive
  omega

/-! The clock has nanoseconds, which the text of the challenge says and its row does not. -/

def someNanos : Fin 1000 := ⟨123, Nat.le_of_ble_eq_true rfl⟩

def preciseInstant : Instant := ⟨1767225600000000, someNanos⟩

def preciseChallenge : Challenge :=
  { walletChallenge with timestamp := preciseRequest.timestamp }

def preciseToken : Session := { walletToken with expiresAt := ⟨1767830400000000, someNanos⟩ }

def preciseChallenged : AuthWorld := { challenged with nanos := someNanos }

theorem wallet_challenged_precisely : WalletCall (.empty 1767225600000000)
    (.issued [preciseInstant] ⟨walletAddress⟩ (.ok preciseChallenge)) preciseChallenged := by
  have hwaits : (AuthWorld.empty 1767225600000000).Waits
      { AuthWorld.empty 1767225600000000 with nanos := someNanos } := ⟨⟨rfl, rfl⟩, le_rfl, le_rfl⟩
  exact .issue_alone hwaits rfl rfl

set_option maxRecDepth 20000 in
theorem wallet_signs_in_precisely : WalletCall preciseChallenged
    (.verified [preciseInstant, preciseInstant] preciseRequest (.ok preciseToken))
    { signedIn with nanos := someNanos } :=
  .verify_alone (.refl _) rfl rfl

theorem signs_in_with_challenge_wallet :
    (∃ issueRead issueReq, AuthEvent.issued issueRead issueReq
        (.ok ⟨preciseRequest.domain, preciseRequest.nonce, preciseRequest.timestamp,
          preciseRequest.address⟩) ∈
        [AuthEvent.issued [preciseInstant] ⟨walletAddress⟩ (.ok preciseChallenge)]) ↔
      ∃ time, IssuedAt [.issued [preciseInstant] ⟨walletAddress⟩ (.ok preciseChallenge)]
        preciseRequest.nonce time ∧ preciseRequest.timestamp = signerCrypto.rfc3339 time :=
  signs_in_with_challenge_iff (Trail.start.step wallet_challenged_precisely)
    wallet_signs_in_precisely

/-- The wallet signs in with a timestamp that was not issued. -/
theorem signs_in_with_other_timestamp :
    ∃ past w w' read, AuthRun signerCrypto sampleRandom (ownFailures (execAuth sampleRandom))
        "app.verdant.example" 604800000000 1767225600000000 past w ∧
      WalletCall w (.verified read datedRequest (.ok walletToken)) w' ∧
      ∀ issueRead issueReq c, AuthEvent.issued issueRead issueReq (.ok c) ∈ past →
        c ≠ ⟨datedRequest.domain, datedRequest.nonce, datedRequest.timestamp,
          datedRequest.address⟩ := by
  refine ⟨_, challenged, signedIn, _, Trail.start.step wallet_challenged,
    wallet_signs_in_dated, ?_⟩
  intro issueRead issueReq c hc
  simp only [List.mem_cons, AuthEvent.issued.injEq, Except.ok.injEq, List.not_mem_nil,
    or_false] at hc
  rw [hc.2.2]
  intro heq
  have htimestamp := congrArg Challenge.timestamp heq
  revert htimestamp
  decide

end VerdantBackend
