import VerdantBackend.Auth.Lifetime
import VerdantBackend.Lib.Guarantee

/-!
# Where sessions come from

Any number of `issue_challenge` and `verify` requests, statement by statement in any
order, with crashes and failed statements. Requests may race for one challenge; still
no session is there without a request signed by its address, and without a challenge
that was issued for this address and is used up.
-/

namespace VerdantBackend

open Prog

/-! ## What only grows -/

/-- The row of a challenge, later on. -/
structure ChallengeRow.Later (row row' : ChallengeRow) : Prop where
  domain : row'.domain = row.domain
  address : row'.address = row.address
  expiresAt : row'.expiresAt = row.expiresAt
  used : row.used = true → row'.used = true

/-- Challenges stay and stay used, the clock and the generator go on. -/
structure AuthWorld.Later (w w' : AuthWorld) : Prop where
  challenge : ∀ {nonce row}, w.authChallenges.lookup nonce = some row →
    ∃ row', w'.authChallenges.lookup nonce = some row' ∧ row.Later row'
  clock : w.clock ≤ w'.clock
  draws : w.draws ≤ w'.draws

section
variable {w w' w'' : AuthWorld} {random : Nat → String}

theorem ChallengeRow.Later.refl (row : ChallengeRow) : row.Later row :=
  ⟨rfl, rfl, rfl, id⟩

theorem ChallengeRow.Later.trans {row row' row'' : ChallengeRow} (h : row.Later row')
    (h' : row'.Later row'') : row.Later row'' where
  domain := h'.domain.trans h.domain
  address := h'.address.trans h.address
  expiresAt := h'.expiresAt.trans h.expiresAt
  used hused := h'.used (h.used hused)

theorem AuthWorld.Later.refl (w : AuthWorld) : w.Later w where
  challenge h := ⟨_, h, .refl _⟩
  clock := le_refl _
  draws := le_refl _

theorem AuthWorld.Later.trans (h : w.Later w') (h' : w'.Later w'') : w.Later w'' where
  challenge hrow := by
    obtain ⟨row', hrow', hlater⟩ := h.challenge hrow
    obtain ⟨row'', hrow'', hlater'⟩ := h'.challenge hrow'
    exact ⟨row'', hrow'', hlater.trans hlater'⟩
  clock := le_trans h.clock h'.clock
  draws := le_trans h.draws h'.draws

theorem AuthWorld.Waits.later (h : w.Waits w') : w.Later w' where
  challenge hrow := by
    rw [h.passes.1]
    exact ⟨_, hrow, .refl _⟩
  clock := h.clock
  draws := h.draws

end

/-! ## What a statement does -/

section
variable {w w' : AuthWorld} {random : Nat → String} {q : AuthStmt} {a : q.Res}

theorem AuthStmt.Effect.later (h : q.Effect random w w' a) : w.Later w' := by
  cases q with
  | now | selectChallenge _ _ _ =>
      obtain ⟨_, rfl⟩ := h
      exact .refl _
  | randomHex =>
      obtain ⟨_, rfl⟩ := h
      exact ⟨fun hrow => ⟨_, hrow, .refl _⟩, le_refl _, Nat.le_succ _⟩
  | insertChallenge nonce domain address expiresAt =>
      obtain ⟨hnew, rfl⟩ := h
      refine ⟨fun {n row} hrow => ⟨row, ?_, .refl row⟩, le_refl _, le_refl _⟩
      have hne : n ≠ nonce := by
        rintro rfl
        exact hnew (Finmap.mem_of_lookup_eq_some hrow)
      rw [AuthWorld.addChallenge, Finmap.lookup_insert_of_ne _ hne, hrow]
  | useChallenge nonce =>
      rcases h with ⟨_, rfl⟩ | ⟨marked, hmarked, rfl⟩
      · exact .refl _
      refine ⟨fun {n row} hrow => ?_, le_refl _, le_refl _⟩
      by_cases hn : n = nonce
      · subst hn
        rw [hmarked, Option.some.injEq] at hrow
        subst hrow
        exact ⟨_, Finmap.lookup_insert _, ⟨rfl, rfl, rfl, fun _ => rfl⟩⟩
      · exact ⟨row, (Finmap.lookup_insert_of_ne _ hn).trans hrow, .refl row⟩
  | insertSession row =>
      obtain ⟨_, rfl⟩ := h
      exact ⟨fun hrow => ⟨_, hrow, .refl _⟩, le_refl _, le_refl _⟩
  | selectSession tokenHash =>
      cases h
      exact .refl _

/-- A challenge was there before, or is inserted. -/
theorem AuthStmt.Effect.challenge_cases (h : q.Effect random w w' a) {nonce : String}
    {row' : ChallengeRow} (hrow : w'.authChallenges.lookup nonce = some row') :
    (∃ row, w.authChallenges.lookup nonce = some row ∧ row.Later row') ∨
      ∃ domain address expiresAt, q = .insertChallenge nonce domain address expiresAt ∧
        row' = ⟨domain, address, expiresAt, false⟩ := by
  have hkept (hsame : w'.authChallenges.lookup nonce = w.authChallenges.lookup nonce) :
      ∃ row, w.authChallenges.lookup nonce = some row ∧ row.Later row' :=
    ⟨row', hsame ▸ hrow, .refl row'⟩
  cases q with
  | now | randomHex | selectChallenge _ _ _ =>
      obtain ⟨_, rfl⟩ := h
      exact .inl (hkept rfl)
  | insertSession row =>
      obtain ⟨_, rfl⟩ := h
      exact .inl (hkept rfl)
  | selectSession tokenHash =>
      cases h
      exact .inl (hkept rfl)
  | insertChallenge n domain address expiresAt =>
      obtain ⟨_, rfl⟩ := h
      by_cases hn : nonce = n
      · subst hn
        rw [AuthWorld.addChallenge, Finmap.lookup_insert, Option.some.injEq] at hrow
        exact .inr ⟨domain, address, expiresAt, rfl, hrow.symm⟩
      · exact .inl (hkept (Finmap.lookup_insert_of_ne _ hn))
  | useChallenge n =>
      rcases h with ⟨_, rfl⟩ | ⟨marked, hmarked, rfl⟩
      · exact .inl (hkept rfl)
      by_cases hn : nonce = n
      · subst hn
        rw [AuthWorld.useChallenge, Finmap.lookup_insert, Option.some.injEq] at hrow
        subst hrow
        exact .inl ⟨marked, hmarked, ⟨rfl, rfl, rfl, fun _ => rfl⟩⟩
      · exact .inl (hkept (Finmap.lookup_insert_of_ne _ hn))

/-- A session was there before, or is inserted. -/
theorem AuthStmt.Effect.session_cases (h : q.Effect random w w' a) {row : SessionRow}
    (hrow : row ∈ w'.authSessions.rows) :
    row ∈ w.authSessions.rows ∨ q = .insertSession row := by
  cases q with
  | now | randomHex | selectChallenge _ _ _ | insertChallenge _ _ _ _ =>
      obtain ⟨_, rfl⟩ := h
      exact .inl hrow
  | useChallenge nonce =>
      rcases h with ⟨_, rfl⟩ | ⟨_, _, rfl⟩ <;> exact .inl hrow
  | selectSession tokenHash =>
      cases h
      exact .inl hrow
  | insertSession session =>
      obtain ⟨_, rfl⟩ := h
      rcases UniqueRows.mem_of_mem_insert hrow with hold | rfl
      · exact .inl hold
      · exact .inr rfl

end

/-! ## Who wrote a row -/

/-- The generator has returned this text. -/
def AuthWorld.Drawn (random : Nat → String) (w : AuthWorld) (text : String) : Prop :=
  ∃ n, n < w.draws ∧ text = random n

section
variable (crypto : AuthCrypto) (random : Nat → String) {ι : Type} (ops : ι → AuthOp)

/-- The challenge was issued to request `i`. -/
structure AuthWorld.IssuedTo (w : AuthWorld) (i : ι) (req : ChallengeRequest) (nonce : String)
    (row : ChallengeRow) : Prop where
  op : ops i = .issue row.domain req
  address : row.address = req.address
  nonce : w.Drawn random nonce
  expiresAt : row.expiresAt ≤ w.clock + CHALLENGE_TTL_MINUTES * 60000000

/-- The session was established for request `i`, which answers a challenge that is used
up with a signature of the session's address. -/
structure AuthWorld.EstablishedFor (w : AuthWorld) (i : ι) (domain : String) (sessionTtl : Nat)
    (req : VerifyRequest) (row : SessionRow) : Prop where
  op : ops i = .verify domain sessionTtl req
  domain : req.domain = domain
  signed : req.SignedBy crypto
  address : row.address = req.address
  roles : row.roles = ["farmer"]
  token : ∃ token, w.Drawn random token ∧ row.tokenHash = hashToken crypto token
  expiresAt : row.expiresAt ≤ w.clock + sessionTtl
  challenge : ∃ c, w.authChallenges.lookup req.nonce = some c ∧ c.used = true ∧
    c.address = req.address ∧ c.domain = req.domain

/-- Every row was written for a request. -/
structure AuthWorld.Custody (w : AuthWorld) : Prop where
  challenge : ∀ nonce row, w.authChallenges.lookup nonce = some row →
    ∃ i req, w.IssuedTo random ops i req nonce row
  session : ∀ row ∈ w.authSessions.rows,
    ∃ i domain sessionTtl req, w.EstablishedFor crypto random ops i domain sessionTtl req row

/-- Whoever inserts a row can account for it. -/
def custody : Pool.Guarantee auth AuthWorld ι where
  inv w := w.Custody crypto random ops
  later := AuthWorld.Later
  allowed w i
    | .insertChallenge nonce domain address expiresAt =>
      ∃ req, w.IssuedTo random ops i req nonce ⟨domain, address, expiresAt, false⟩
    | .useChallenge nonce => ∃ row, w.authChallenges.lookup nonce = some row
    | .insertSession row =>
      ∃ domain sessionTtl req, w.EstablishedFor crypto random ops i domain sessionTtl req row
    | _ => True
  promised w
    | .now, time => time.micros ≤ w.clock
    | .randomHex, text => w.Drawn random text
    | .selectChallenge nonce address domain, found => ∀ row, found = some row →
      row.address = address ∧ row.domain = domain ∧
        ∃ row', w.authChallenges.lookup nonce = some row' ∧ row.Later row'
    | .useChallenge nonce, _ => ∃ row, w.authChallenges.lookup nonce = some row ∧ row.used = true
    | _, _ => True

end

section
variable {crypto : AuthCrypto} {random : Nat → String} {ι : Type} {ops : ι → AuthOp}
variable {w w' : AuthWorld} {i : ι}

theorem AuthWorld.Drawn.later {text : String} (h : w.Drawn random text) (hlater : w.Later w') :
    w'.Drawn random text := by
  obtain ⟨n, hn, heq⟩ := h
  exact ⟨n, lt_of_lt_of_le hn hlater.draws, heq⟩

theorem AuthWorld.IssuedTo.later {req : ChallengeRequest} {nonce : String}
    {row row' : ChallengeRow} (h : w.IssuedTo random ops i req nonce row) (hlater : w.Later w')
    (hrow : row.Later row') : w'.IssuedTo random ops i req nonce row' where
  op := by
    rw [hrow.domain]
    exact h.op
  address := hrow.address.trans h.address
  nonce := h.nonce.later hlater
  expiresAt := by
    have hexpiresAt := h.expiresAt
    have hclock := hlater.clock
    rw [hrow.expiresAt]
    omega

theorem AuthWorld.EstablishedFor.later {domain : String} {sessionTtl : Nat}
    {req : VerifyRequest} {row : SessionRow}
    (h : w.EstablishedFor crypto random ops i domain sessionTtl req row) (hlater : w.Later w') :
    w'.EstablishedFor crypto random ops i domain sessionTtl req row where
  op := h.op
  domain := h.domain
  signed := h.signed
  address := h.address
  roles := h.roles
  token := by
    obtain ⟨token, hdrawn, hhash⟩ := h.token
    exact ⟨token, hdrawn.later hlater, hhash⟩
  expiresAt := by
    have hexpiresAt := h.expiresAt
    have hclock := hlater.clock
    omega
  challenge := by
    obtain ⟨c, hc, hused, haddress, hdomain⟩ := h.challenge
    obtain ⟨c', hc', hrow⟩ := hlater.challenge hc
    exact ⟨c', hc', hrow.used hused, hrow.address.trans haddress, hrow.domain.trans hdomain⟩

theorem custody_sound (crypto : AuthCrypto) (random : Nat → String) (ops : ι → AuthOp) :
    (custody crypto random ops).Sound (execAuth random) AuthWorld.Waits where
  refl := .refl
  trans _ _ _ := .trans
  answers i q w a w' hinv hallowed hx := by
    have heffect := execAuth_effect hx
    refine ⟨⟨fun nonce row' hrow' => ?_, fun row hrow => ?_⟩, heffect.later⟩
    · rcases heffect.challenge_cases hrow' with ⟨row, hrow, hlater⟩ |
        ⟨domain, address, expiresAt, rfl, rfl⟩
      · obtain ⟨j, req, hissued⟩ := hinv.challenge nonce row hrow
        exact ⟨j, req, hissued.later heffect.later hlater⟩
      · obtain ⟨req, hissued⟩ := hallowed
        exact ⟨i, req, hissued.later heffect.later (.refl _)⟩
    · rcases heffect.session_cases hrow with hold | rfl
      · obtain ⟨j, domain, sessionTtl, req, hfor⟩ := hinv.session row hold
        exact ⟨j, domain, sessionTtl, req, hfor.later heffect.later⟩
      · obtain ⟨domain, sessionTtl, req, hfor⟩ := hallowed
        exact ⟨i, domain, sessionTtl, req, hfor.later heffect.later⟩
  env w w' hinv hwait := by
    refine ⟨⟨fun nonce row hrow => ?_, fun row hrow => ?_⟩, hwait.later⟩
    · rw [hwait.passes.1] at hrow
      obtain ⟨j, req, hissued⟩ := hinv.challenge nonce row hrow
      exact ⟨j, req, hissued.later hwait.later (.refl row)⟩
    · rw [hwait.passes.2] at hrow
      obtain ⟨j, domain, sessionTtl, req, hfor⟩ := hinv.session row hrow
      exact ⟨j, domain, sessionTtl, req, hfor.later hwait.later⟩
  promises i q w a w' w'' hinv hallowed hx hlater := by
    have heffect := execAuth_effect hx
    cases q with
    | now =>
        obtain ⟨rfl, rfl⟩ := heffect
        exact hlater.clock
    | randomHex =>
        obtain ⟨rfl, rfl⟩ := heffect
        exact ⟨w.draws, hlater.draws, rfl⟩
    | selectChallenge nonce address domain =>
        obtain ⟨hfound, rfl⟩ := heffect
        intro row hrow
        obtain ⟨hlookup, haddress, hdomain⟩ := hfound row hrow
        exact ⟨haddress, hdomain, hlater.challenge hlookup⟩
    | useChallenge nonce =>
        obtain ⟨row, hrow⟩ := hallowed
        rcases heffect with ⟨hnone, _⟩ | ⟨marked, _, rfl⟩
        · rw [hnone] at hrow
          cases hrow
        obtain ⟨row', hrow', hmarked⟩ := hlater.challenge (Finmap.lookup_insert _)
        exact ⟨row', hrow', hmarked.used rfl⟩
    | insertChallenge _ _ _ _ | insertSession _ | selectSession _ => trivial

/-! ## What a request inserts -/

theorem issueChallenge_custody (w : AuthWorld) {domain : String} {req : ChallengeRequest}
    (hop : ops i = .issue domain req) :
    Issues ((custody crypto random ops).allowed w i) ((custody crypto random ops).promised w)
      (fun _ => True) (issueChallenge crypto domain req) := by
  rw [issueChallenge]
  apply (issues_done (R := fun _ => True) fun _ _ => trivial).bind
  intro _ _
  have hrandom : (custody crypto random ops).allowed w i .randomHex := trivial
  apply ((issues_call (I := auth) hrandom).mapErr Empty.elim).bind
  intro nonce hnonce
  have hnow : (custody crypto random ops).allowed w i .now := trivial
  apply ((issues_call (I := auth) hnow).mapErr Empty.elim).bind
  intro timestamp htimestamp
  apply (issues_done (R := fun expiresAt =>
    expiresAt.micros = timestamp.micros + CHALLENGE_TTL_MINUTES * 60000000)
    fun _ => addInstant_ok).bind
  intro expiresAt hexpiresAt
  have hinsert : (custody crypto random ops).allowed w i
      (.insertChallenge nonce domain req.address expiresAt.micros) := by
    refine ⟨req, hop, rfl, hnonce, ?_⟩
    rw [hexpiresAt]
    exact Int.add_le_add_right htimestamp _
  apply ((issues_call (I := auth) hinsert).mapErr database).bind
  intro _ _
  trivial

/-- Behind the checks: the challenge is used up before the session is inserted. -/
theorem establishSession_custody {domain : String} {sessionTtl : Nat} {req : VerifyRequest}
    (hop : ops i = .verify domain sessionTtl req) (hdomain : req.domain = domain)
    (hsigned : req.SignedBy crypto) {row : ChallengeRow}
    (hrow : w.authChallenges.lookup req.nonce = some row) (haddress : row.address = req.address)
    (hrowDomain : row.domain = req.domain) :
    Issues ((custody crypto random ops).allowed w i) ((custody crypto random ops).promised w)
      (fun _ => True) (establishSession crypto sessionTtl req) := by
  rw [establishSession]
  have huse : (custody crypto random ops).allowed w i (.useChallenge req.nonce) := ⟨row, hrow⟩
  apply ((issues_call (I := auth) huse).mapErr database).bind
  intro _ hmarked
  obtain ⟨marked, hlookup, hused⟩ := hmarked
  rw [hrow, Option.some.injEq] at hlookup
  subst hlookup
  have hrandom : (custody crypto random ops).allowed w i .randomHex := trivial
  apply ((issues_call (I := auth) hrandom).mapErr Empty.elim).bind
  intro token htoken
  have hnow : (custody crypto random ops).allowed w i .now := trivial
  apply ((issues_call (I := auth) hnow).mapErr Empty.elim).bind
  intro now hclock
  have httl : ∀ ttl, (crypto.fromStd sessionTtl).mapError (fun e => Stop.err (.internal e)) =
      .ok ttl → ttl = sessionTtl := by
    intro ttl h
    exact crypto.fromStd_ok (mapError_eq_ok h)
  apply (issues_done httl).bind
  intro ttl httl
  apply (issues_done (R := fun expiresAt => expiresAt.micros = now.micros + ttl)
    fun _ => addInstant_ok).bind
  intro expiresAt hexpiresAt
  have hinsert : (custody crypto random ops).allowed w i (.insertSession
      ⟨hashToken crypto token, req.address, ["farmer"], expiresAt.micros⟩) := by
    refine ⟨domain, sessionTtl, req, hop, hdomain, hsigned, rfl, rfl, ⟨token, htoken, rfl⟩, ?_,
      row, hrow, hused, haddress, hrowDomain⟩
    rw [hexpiresAt, httl]
    exact Int.add_le_add_right hclock _
  apply ((issues_call (I := auth) hinsert).mapErr database).bind
  intro _ _
  trivial

theorem verify_custody (w : AuthWorld) {domain : String} {sessionTtl : Nat}
    {req : VerifyRequest} (hop : ops i = .verify domain sessionTtl req) :
    Issues ((custody crypto random ops).allowed w i) ((custody crypto random ops).promised w)
      (fun _ => True) (verify crypto domain sessionTtl req) := by
  rw [verify]
  apply (issues_done (R := fun _ => True) fun _ _ => trivial).bind
  intro _ _
  have hselect : (custody crypto random ops).allowed w i
      (.selectChallenge req.nonce req.address req.domain) := trivial
  apply ((issues_call (I := auth) hselect).mapErr database).bind
  intro found hfound
  cases found with
  | none => trivial
  | some row =>
      obtain ⟨haddress, hdomain, row', hrow', hlater⟩ := hfound row rfl
      show Issues _ _ _ (if row.used = true then _ else _)
      split
      · trivial
      have hnow : (custody crypto random ops).allowed w i .now := trivial
      apply ((issues_call (I := auth) hnow).mapErr Empty.elim).bind
      intro now _
      split
      · trivial
      split
      · trivial
      next hown =>
      have hreq : req.domain = domain := by
        rw [← hdomain]
        exact not_not.mp hown
      have hsigned : ∀ u, (verifySignature crypto req.address req.signature
          (sep40Message req.domain req.address req.nonce req.timestamp)).mapError
            (fun e => Stop.err (.unauthorized s!"invalid signature: {e}")) = .ok u →
          req.SignedBy crypto := by
        intro u h
        exact mapError_eq_ok h
      apply (issues_done hsigned).bind
      intro _ hsigned
      exact establishSession_custody hop hreq hsigned hrow' (hlater.address.trans haddress)
        (hlater.domain.trans hdomain)

theorem AuthOp.keeps_custody (crypto : AuthCrypto) (random : Nat → String) (ops : ι → AuthOp)
    (w : AuthWorld) (i : ι) :
    Issues ((custody crypto random ops).allowed w i) ((custody crypto random ops).promised w)
      (fun _ => True) ((ops i).prog crypto) := by
  cases hop : ops i with
  | issue domain req => exact (issueChallenge_custody w hop).erase
  | verify domain sessionTtl req => exact (verify_custody w hop).erase

variable [DecidableEq ι] {past : List (Happening auth ι)} {pool : Pool auth ι AuthWorld}
  {F : Failures auth AuthWorld} {clock : Int}
  {G : List (Happening auth ι) → Pool auth ι AuthWorld → Happening auth ι → Prop}

/-- **Every session was signed for**, in every state that any requests reach in any order
of their statements, with any crashes and failures: by a `verify` request whose signature
verifies for the session's address, on a challenge that a request had asked for with this
address and domain, and which is used up. Its token is a draw of the generator, and
it runs out within the TTL. -/
theorem sessions_signed_for
    (hrun : Pool.Run (execAuth random) F AuthWorld.Waits G
      (Pool.start (.empty clock) fun i => (ops i).prog crypto) past pool) {row : SessionRow}
    (hrow : row ∈ pool.store.authSessions.rows) :
    ∃ i domain sessionTtl req,
      pool.store.EstablishedFor crypto random ops i domain sessionTtl req row ∧
      ∃ j, ops j = .issue domain ⟨row.address⟩ ∧ pool.store.Drawn random req.nonce := by
  have hfirst : (custody crypto random ops).KeptBy
      (Pool.start (.empty clock) fun i => (ops i).prog crypto) := by
    intro i p hp w _
    cases hp
    exact AuthOp.keeps_custody crypto random ops w i
  have hempty : (custody crypto random ops).inv (AuthWorld.empty clock) :=
    ⟨fun _ _ h => by simp [AuthWorld.empty] at h, fun _ h => absurd h List.not_mem_nil⟩
  have hinv := ((custody_sound crypto random ops).run hfirst hempty hrun).2.1
  obtain ⟨i, domain, sessionTtl, req, hfor⟩ := hinv.session row hrow
  refine ⟨i, domain, sessionTtl, req, hfor, ?_⟩
  obtain ⟨c, hc, _, haddress, hdomain⟩ := hfor.challenge
  obtain ⟨j, ⟨address⟩, hissued⟩ := hinv.challenge req.nonce c hc
  refine ⟨j, ?_, hissued.nonce⟩
  rw [hissued.op, hdomain, hfor.domain, hfor.address, ← haddress, hissued.address]

end

/-- Both requests use the challenge, and both sessions are signed for. -/
theorem sessions_signed_for_race :
    ∃ i domain sessionTtl req,
      (Pool.runSchedule (execAuth sampleRandom) walletPool bothSelect).store.EstablishedFor
        walletCrypto sampleRandom walletOps i domain sessionTtl req walletSession ∧
      ∃ j, walletOps j = .issue domain ⟨walletSession.address⟩ ∧
        (Pool.runSchedule (execAuth sampleRandom) walletPool bothSelect).store.Drawn sampleRandom
          req.nonce := by
  have hstart : Pool.Run (execAuth sampleRandom) (ownFailures (execAuth sampleRandom))
      AuthWorld.Waits (fun _ _ _ => True) walletPool [] walletPool := .start
  have hrow : walletSession ∈ (Pool.runSchedule (execAuth sampleRandom) walletPool
      bothSelect).store.authSessions.rows := by
    decide +kernel
  exact sessions_signed_for (hstart.schedule (fun _ _ _ h => h) bothSelect) hrow

end VerdantBackend
