import VerdantBackend.Auth.Authenticity
import VerdantBackend.Auth.Extractor
import VerdantBackend.Auth.FailedVerify

/-!
# The life of a challenge and of a session

A challenge can be answered for five minutes, and only a request signed with the key
of its own address uses it up. A token is good from the `verify` that returned it until
the session's time is over: no other call ends a session or changes it.
-/

namespace VerdantBackend

open Prog

/-! ## Answering a challenge -/

section
variable {crypto : AuthCrypto} {random : Nat → String} {F : Failures auth AuthWorld}
variable {domain : String} {sessionTtl : Nat} {w w₁ w' : AuthWorld} {clock time : Int}
variable {past : List AuthEvent} {e : AuthEvent}

/-- What a call does to the challenges: nothing, a new one, or a mark on the one that the
request of the call was accepted on. -/
theorem AuthEvent.Effect.challenges (h : e.Effect crypto random domain sessionTtl w w') :
    w'.authChallenges = w.authChallenges ∨
      (∃ nonce row, row.used = false ∧
        w'.authChallenges = w.authChallenges.insert nonce row) ∨
      ∃ read req r time row, e = .verified read req r ∧ req.Uses crypto domain w w' time row := by
  cases h with
  | notIssued hpasses | notVerified hpasses | notFound hpasses | found hpasses =>
      exact .inl hpasses.1
  | issued _ _ hunused _ hinsert _ => exact .inr (.inl ⟨_, _, hunused, hinsert⟩)
  | used huses _ _ | verified huses _ _ => exact .inr (.inr ⟨_, _, _, _, _, rfl, huses⟩)

/-- **Only its own address uses a challenge up**: a request of the past was signed with
the key of that address, before the challenge ran out. -/
theorem AuthRun.used_by_signer (hrun : AuthRun crypto random F domain sessionTtl clock past w)
    {nonce : String} {row : ChallengeRow} (hrow : w.authChallenges.lookup nonce = some row)
    (hused : row.used = true) :
    ∃ read req r time, AuthEvent.verified read req r ∈ past ∧ req.nonce = nonce ∧
      req.Accepted crypto domain time row := by
  induction hrun generalizing row with
  | start => simp [AuthWorld.empty] at hrow
  | @step past w e w' _ hcall ih =>
      have hold {row' : ChallengeRow} (hrow : w.authChallenges.lookup nonce = some row')
          (hused : row'.used = true) : ∃ read req r time, AuthEvent.verified read req r ∈ e :: past ∧
            req.nonce = nonce ∧ req.Accepted crypto domain time row' := by
        obtain ⟨read, req, r, time, hmem, haccepted⟩ := ih hrow hused
        exact ⟨read, req, r, time, List.mem_cons_of_mem _ hmem, haccepted⟩
      obtain ⟨_, _, _, heffect⟩ := hcall.effect
      rcases heffect.challenges with hsame | ⟨n, new, hnew, hinsert⟩ |
        ⟨read, req, r, time, marked, rfl, huses⟩
      · rw [hsame] at hrow
        exact hold hrow hused
      · rw [hinsert] at hrow
        by_cases hn : nonce = n
        · subst hn
          rw [Finmap.lookup_insert, Option.some.injEq] at hrow
          rw [← hrow, hnew] at hused
          cases hused
        · rw [Finmap.lookup_insert_of_ne _ hn] at hrow
          exact hold hrow hused
      · rw [huses.marked] at hrow
        by_cases hn : nonce = req.nonce
        · subst hn
          rw [Finmap.lookup_insert, Option.some.injEq] at hrow
          subst hrow
          obtain ⟨hreq, hrowDomain, haddress, hfresh, hsigned⟩ := huses.accepted
          exact ⟨read, req, r, time, List.mem_cons_self, rfl,
            ⟨hreq, hrowDomain, haddress, hfresh, hsigned⟩⟩
        · rw [Finmap.lookup_insert_of_ne _ hn] at hrow
          exact hold hrow hused

/-- The signature of a request is one of its address on its texts. -/
def VerifyRequest.SignedBy (crypto : AuthCrypto) (req : VerifyRequest) : Prop :=
  verifySignature crypto req.address req.signature
    (sep40Message req.domain req.address req.nonce req.timestamp) = .ok ()

/-- The request names a challenge. -/
structure VerifyRequest.Names (req : VerifyRequest) (c : Challenge) : Prop where
  domain : req.domain = c.domain
  address : req.address = c.address
  nonce : req.nonce = c.nonce

/-- A challenge returned is a row that a request naming it passes the checks on, until
the five minutes are over or a request signed by its address has used it. -/
theorem AuthRun.passes_checks (hrun : AuthRun crypto random F domain sessionTtl clock past w)
    (hwait : w.Waits w₁) {issueTime : Instant} {issueReq : ChallengeRequest} {c : Challenge}
    (hissued : AuthEvent.issued [issueTime] issueReq (.ok c) ∈ past)
    (hlive : w₁.clock < issueTime.micros + CHALLENGE_TTL_MINUTES * 60000000)
    {req : VerifyRequest} (hnames : req.Names c) (hsigned : req.SignedBy crypto)
    (hfirst : ∀ read req' r, AuthEvent.verified read req' r ∈ past → req'.nonce = c.nonce →
      req'.address = c.address → ¬ req'.SignedBy crypto) :
    ∃ row, PassesChecks crypto domain req w₁ row := by
  obtain ⟨hanswers, time, row, htime, hrow, hstored⟩ := (AuthRun.accounted hrun).issued hissued
  obtain rfl := List.singleton_inj.mp htime
  obtain ⟨hreqDomain, hreqAddress, hreqNonce⟩ := hnames
  have hunused : row.used = false := by
    by_contra hused
    obtain ⟨read, req', r, time, hmem, hnonce, haccepted⟩ :=
      hrun.used_by_signer hrow (by simpa using hused)
    exact hfirst read req' r hmem hnonce (haccepted.rowAddress.symm.trans hstored.address)
      haccepted.signed
  have hexp : ¬ row.expiresAt ≤ w₁.clock := by
    rw [hstored.expiresAt]
    omega
  refine ⟨row, by rw [hreqAddress, hanswers.valid], ?_, ?_, ?_⟩
  · rw [VerifyRequest.Storable, hreqNonce, hreqAddress, hreqDomain]
    exact hanswers.storable
  · apply AuthWorld.challengeFor_eq_some_iff.mpr
    rw [hwait.passes.1, hreqNonce, hreqAddress, hreqDomain]
    exact ⟨hrow, hstored.address, hstored.domain⟩
  · rw [VerifyRequest.SignedBy] at hsigned
    rw [checkVerify, hsigned, if_neg (by simp [hunused]), if_neg hexp,
      if_neg (by simp [hstored.domain, hanswers.domain])]
    rfl

/-- **A challenge can be answered.** Until its five minutes are over, and unless a request
signed by its own address came first, an undisturbed `verify` of a signed request that
names it returns a session, under the next draw of the generator. -/
theorem sign_in_completes (hrun : AuthRun crypto random F domain sessionTtl clock past w)
    (hwait : w.Waits w₁) {issueTime : Instant} {issueReq : ChallengeRequest} {c : Challenge}
    (hissued : AuthEvent.issued [issueTime] issueReq (.ok c) ∈ past)
    (hlive : w₁.clock < issueTime.micros + CHALLENGE_TTL_MINUTES * 60000000)
    {req : VerifyRequest} (hnames : req.Names c) (hsigned : req.SignedBy crypto)
    (hfirst : ∀ read req' r, AuthEvent.verified read req' r ∈ past → req'.nonce = c.nonce →
      req'.address = c.address → ¬ req'.SignedBy crypto)
    {expiresAt : Instant} (hexp : sessionExpiry crypto w₁.now sessionTtl = .ok expiresAt)
    (hnew : ∀ read req' s, AuthEvent.verified read req' (.ok s) ∈ past →
      hashToken crypto s.token ≠ hashToken crypto (random w₁.draws)) {r : Except Stop Session}
    (hends : Ends (execAuth random) (ownFailures (execAuth random))
      (verify crypto domain sessionTtl req) w₁ r w') :
    r = .ok ⟨random w₁.draws, c.address, ["farmer"], expiresAt⟩ ∧
      expiresAt.micros = w₁.clock + sessionTtl := by
  refine ⟨?_, sessionExpiry_ok hexp⟩
  obtain ⟨row, hpass⟩ := hrun.passes_checks hwait hissued hlive hnames hsigned hfirst
  have hfresh : hashToken crypto (random w₁.draws) ∉
      w₁.authSessions.rows.map SessionRow.tokenHash := by
    intro hmem
    obtain ⟨session, hsession, hhash⟩ := List.mem_map.mp hmem
    rw [hwait.passes.2] at hsession
    obtain ⟨later, checkTime, verifyTime, req', s, earlier, rfl, rfl, _⟩ :=
      (AuthRun.accounted hrun).session session hsession
    exact hnew [checkTime, verifyTime] req' s (by simp) hhash
  have hok := (verify_ends_iff (F := ownFailures (execAuth random))).mpr
    (.checked hpass.address hpass.storable hpass.found hpass.checks (.verified hexp hfresh))
  rw [← hnames.address]
  exact (hends.unique hok).1

end

set_option maxRecDepth 20000 in
/-- Somebody else has tried to answer the challenge in his own name. -/
theorem sign_in_completes_wallet :
    ∃ r w', Ends (execAuth sampleRandom) (ownFailures (execAuth sampleRandom))
        (verify signerCrypto "app.verdant.example" 604800000000 walletRequest) challenged r w' ∧
      r = .ok ⟨sampleRandom 1, walletAddress, ["farmer"], .ofMicros 1767830400000000⟩ := by
  have htried : WalletCall challenged (.verified [] strangerRequest
      (.error (.err (.conflict ERR_NONCE_UNUSED_OR_EXPIRED)))) challenged :=
    .verify_alone (.refl _) rfl rfl
  have hends : Ends (execAuth sampleRandom) (ownFailures (execAuth sampleRandom))
      (verify signerCrypto "app.verdant.example" 604800000000 walletRequest) challenged
      (.ok walletToken) signedIn := ends_of_run rfl
  have hnames : walletRequest.Names walletChallenge := ⟨rfl, rfl, rfl⟩
  have hsigned : walletRequest.SignedBy signerCrypto := by
    unfold VerifyRequest.SignedBy
    rfl
  have hexp : sessionExpiry signerCrypto challenged.now 604800000000 =
      .ok (.ofMicros 1767830400000000) := rfl
  have hfirst : ∀ read req r, AuthEvent.verified read req r ∈
      [.verified [] strangerRequest (.error (.err (.conflict ERR_NONCE_UNUSED_OR_EXPIRED))),
        .issued [firstInstant] ⟨walletAddress⟩ (.ok walletChallenge)] →
      req.nonce = walletChallenge.nonce → req.address = walletChallenge.address →
      ¬ req.SignedBy signerCrypto := by
    intro read req r hmem _ haddress
    simp only [List.mem_cons, AuthEvent.verified.injEq, reduceCtorEq, List.not_mem_nil,
      or_false] at hmem
    rw [hmem.2.1] at haddress
    exact absurd haddress (by decide)
  refine ⟨.ok walletToken, signedIn, hends, ?_⟩
  exact (sign_in_completes ((Trail.start.step wallet_challenged).step htried) (.refl _)
    (List.mem_cons_of_mem _ List.mem_cons_self) (by decide) hnames hsigned hfirst hexp (by simp)
    hends).1

/-! ## The session returned -/

section
variable {crypto : AuthCrypto} {random : Nat → String} {F : Failures auth AuthWorld}
variable {domain : String} {sessionTtl : Nat} {w w₁ w' : AuthWorld} {clock time : Int}
variable {past : List AuthEvent} {e : AuthEvent}

/-- No call removes a session. -/
theorem AuthCall.keeps_sessions (h : AuthCall crypto random F domain sessionTtl w e w')
    {row : SessionRow} (hrow : row ∈ w.authSessions.rows) : row ∈ w'.authSessions.rows := by
  obtain ⟨_, _, _, heffect⟩ := h.effect
  have hsame (hkept : w'.authSessions = w.authSessions) : row ∈ w'.authSessions.rows := by
    rwa [hkept]
  cases heffect with
  | notIssued hpasses | notVerified hpasses | notFound hpasses | found hpasses =>
      exact hsame hpasses.2
  | issued _ _ _ _ _ hkept | used _ hkept _ => exact hsame hkept
  | @verified _ _ _ _ _ _ _ hinsert =>
      rw [hinsert]
      exact UniqueRows.mem_insertAll_left (l := [_]) hrow

/-- **Every session returned is still a row**, as it was inserted. -/
theorem AuthRun.session_kept (hrun : AuthRun crypto random F domain sessionTtl clock past w)
    {read : List Instant} {req : VerifyRequest} {s : Session}
    (hs : .verified read req (.ok s) ∈ past) :
    ∃ checkTime verifyTime, read = [checkTime, verifyTime] ∧
      req.sessionRow crypto sessionTtl verifyTime.micros s.token ∈ w.authSessions.rows := by
  induction hrun with
  | start => cases hs
  | step _ hcall ih =>
      rcases List.mem_cons.mp hs with rfl | hs
      · obtain ⟨_, _, _, heffect⟩ := hcall.effect
        cases heffect with
        | verified _ hnew hinsert =>
            refine ⟨_, _, rfl, ?_⟩
            rw [hinsert, UniqueRows.insert_rows_of_not_mem hnew]
            exact List.mem_append_right _ (List.mem_singleton.mpr rfl)
      · obtain ⟨checkTime, verifyTime, hread, hrow⟩ := ih hs
        exact ⟨checkTime, verifyTime, hread, hcall.keeps_sessions hrow⟩

/-! ## Looking a session up -/

/-- What `session_by_token` answers about a session: it has a row, or it has none. -/
def sessionAnswer (now : Int) : Option SessionRow → Except AppError SessionRow
  | none => .error (.unauthorized "no session for token")
  | some row =>
    if row.expiresAt ≤ now then .error (.unauthorized "session expired") else .ok row

/-- Left alone, `session_by_token` answers from the row with the token's hash. -/
theorem session_ends_alone {token : String} {r : Except AppError SessionRow}
    (h : Ends (execAuth random) (ownFailures (execAuth random)) (sessionByToken crypto token)
      w r w') :
    w' = w ∧ r = sessionAnswer w.clock
      (w.authSessions.rows.find? fun row => row.tokenHash = hashToken crypto token) := by
  rw [sessionByToken] at h
  rcases ends_call_bind_iff.mp h with ⟨e, hF, _⟩ | ⟨found, w₁, hx, h⟩
  · cases hF
  cases hx
  cases hfound : w.authSessions.rows.find? fun row => row.tokenHash = hashToken crypto token with
  | none =>
      rw [hfound] at h
      obtain ⟨rfl, rfl⟩ := ends_done_iff.mp h
      exact ⟨rfl, rfl⟩
  | some row =>
      rw [hfound] at h
      replace h := ends_utcNow_bind_iff.mp h
      rw [AuthWorld.now_micros] at h
      rw [sessionAnswer]
      split at h
      · next hexp =>
        rw [if_pos hexp]
        obtain ⟨rfl, rfl⟩ := ends_done_iff.mp h
        exact ⟨rfl, rfl⟩
      · next hexp =>
        rw [if_neg hexp]
        obtain ⟨rfl, rfl⟩ := ends_done_iff.mp h
        exact ⟨rfl, rfl⟩

/-- Left alone, the extractor answers from the row with the hash of the bearer token. -/
theorem authUser_ends_alone {authorization : Option HeaderValue} {r : Except AppError AuthUser}
    (h : Ends (execAuth random) (ownFailures (execAuth random)) (authUser crypto authorization)
      w r w') {token : String} (htoken : bearerToken crypto authorization = .ok token) :
    w' = w ∧ r = (sessionAnswer w.clock (w.authSessions.rows.find? fun row =>
      row.tokenHash = hashToken crypto token)).map fun row => ⟨row.address, row.roles⟩ := by
  rw [authUser, htoken] at h
  rcases ends_done_bind_iff.mp h with ⟨e, he, _⟩ | ⟨token', htoken', h⟩
  · cases he
  cases htoken'
  rcases ends_bind_iff.mp h with ⟨e, rfl, hlost⟩ | ⟨row, w₁, hrow, hdone⟩
  · obtain ⟨rfl, hr⟩ := session_ends_alone hlost
    rw [← hr]
    exact ⟨rfl, rfl⟩
  · obtain ⟨rfl, hr⟩ := session_ends_alone hrow
    obtain ⟨rfl, rfl⟩ := ends_done_iff.mp hdone
    rw [← hr]
    exact ⟨rfl, rfl⟩

/-- **The life of a session.** Whatever was called before, the bearer of a token acts for
the address that signed in for it until the session's time is over, and a token that
was never returned is refused. -/
theorem bearer_acts_for_signer (hrun : AuthRun crypto random F domain sessionTtl clock past w)
    (hwait : w.Waits w₁) {authorization : Option HeaderValue} {token : String}
    (htoken : bearerToken crypto authorization = .ok token) {r : Except AppError AuthUser}
    (hends : Ends (execAuth random) (ownFailures (execAuth random))
      (authUser crypto authorization) w₁ r w') :
    (∀ read req s, AuthEvent.verified read req (.ok s) ∈ past →
        hashToken crypto s.token = hashToken crypto token →
        ∃ checkTime verifyTime, read = [checkTime, verifyTime] ∧
          r = if w₁.clock < verifyTime.micros + sessionTtl then .ok ⟨req.address, ["farmer"]⟩
            else .error (.unauthorized "session expired")) ∧
      ((∀ read req s, AuthEvent.verified read req (.ok s) ∈ past →
          hashToken crypto s.token ≠ hashToken crypto token) →
        r = .error (.unauthorized "no session for token")) := by
  obtain ⟨_, rfl⟩ := authUser_ends_alone hends htoken
  have hrows : w₁.authSessions = w.authSessions := hwait.passes.2
  rw [hrows]
  constructor
  · intro read req s hs hhash
    obtain ⟨checkTime, verifyTime, rfl, hrow⟩ := hrun.session_kept hs
    refine ⟨checkTime, verifyTime, rfl, ?_⟩
    have hkey : ∀ row ∈ w.authSessions.rows, row.tokenHash = hashToken crypto token →
        row = req.sessionRow crypto sessionTtl verifyTime.micros s.token := by
      intro row hmem heq
      exact w.authSessions.eq_of_key hmem hrow (heq.trans hhash.symm)
    have hfind : (w.authSessions.rows.find? fun row => row.tokenHash = hashToken crypto token) =
        some (req.sessionRow crypto sessionTtl verifyTime.micros s.token) := by
      cases hfound : w.authSessions.rows.find? fun row =>
          row.tokenHash = hashToken crypto token with
      | none =>
          have hno := List.find?_eq_none.mp hfound _ hrow
          exact absurd (decide_eq_true hhash) hno
      | some row =>
          have hfit := List.find?_some hfound
          rw [hkey row (List.mem_of_find?_eq_some hfound) (of_decide_eq_true hfit)]
    rw [hfind, sessionAnswer]
    by_cases hlive : w₁.clock < verifyTime.micros + sessionTtl
    · rw [if_pos hlive, if_neg (by simpa [VerifyRequest.sessionRow] using hlive)]
      rfl
    · rw [if_neg hlive, if_pos (by simpa [VerifyRequest.sessionRow] using hlive)]
      rfl
  · intro hnone
    have hfind : (w.authSessions.rows.find? fun row =>
        row.tokenHash = hashToken crypto token) = none := by
      apply List.find?_eq_none.mpr
      intro row hrow
      obtain ⟨later, checkTime, verifyTime, req, s, earlier, rfl, rfl, _⟩ :=
        (AuthRun.accounted hrun).session row hrow
      have hne := hnone [checkTime, verifyTime] req s (by simp)
      exact fun heq => hne (of_decide_eq_true heq)
    rw [hfind]
    rfl

end

/-- The header with the token of `walletToken`. -/
def walletHeader : HeaderValue :=
  (BEARER_PREFIX ++ sampleRandom 1).toList.map fun c => UInt8.ofNat c.toNat

set_option maxRecDepth 20000 in
theorem bearer_acts_for_signer_wallet :
    ∃ r, Ends (execAuth sampleRandom) (ownFailures (execAuth sampleRandom))
        (authUser signerCrypto (some walletHeader)) signedIn r signedIn ∧
      r = .ok ⟨walletAddress, ["farmer"]⟩ := by
  have hrun := (Trail.start.step wallet_challenged).step wallet_signs_in
  have hends : Ends (execAuth sampleRandom) (ownFailures (execAuth sampleRandom))
      (authUser signerCrypto (some walletHeader)) signedIn
      ((authUser signerCrypto (some walletHeader)).run (execAuth sampleRandom) signedIn).1
      signedIn := ends_of_run rfl
  refine ⟨_, hends, ?_⟩
  have htoken : bearerToken signerCrypto (some walletHeader) = .ok (sampleRandom 1) := rfl
  obtain ⟨checkTime, verifyTime, hread, hr⟩ :=
    (bearer_acts_for_signer hrun (.refl _) htoken hends).1 _ _ _ List.mem_cons_self rfl
  cases hread
  rw [hr, if_pos (by decide)]
  rfl

end VerdantBackend
