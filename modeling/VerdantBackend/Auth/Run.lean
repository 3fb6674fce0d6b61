import VerdantBackend.Auth.Outcomes
import VerdantBackend.Lib.Calls

/-!
# Runs of the authentication service

Calls of `issue_challenge`, `verify` and `session_by_token` one after the other, by any
clients and with any texts. Between two calls, and between the statements of one, time
passes and others draw random bytes. Whatever the tables hold was put there by a call
of the past.
-/

namespace VerdantBackend

open Prog

/-- What was read of the clock. -/
def readings (tr : List auth.Obs) : List Instant :=
  tr.filterMap fun
    | ⟨.now, .ok t⟩ => some t
    | _ => none

/-- A call that has ended: what it read of the clock, in order, with which request, with
what. -/
inductive AuthEvent where
  | issued (read : List Instant) (req : ChallengeRequest) (r : Except Stop Challenge)
  | verified (read : List Instant) (req : VerifyRequest) (r : Except Stop Session)
  | looked (read : List Instant) (token : String) (r : Except AppError SessionRow)

def AuthEvent.read : AuthEvent → List Instant
  | .issued read .. | .verified read .. | .looked read .. => read

/-- Nobody calls; the clock does not go back. -/
structure AuthWorld.Waits (w w' : AuthWorld) : Prop where
  passes : w.Passes w'
  clock : w.clock ≤ w'.clock
  draws : w.draws ≤ w'.draws

theorem AuthWorld.Waits.refl (w : AuthWorld) : w.Waits w := ⟨⟨rfl, rfl⟩, le_rfl, le_rfl⟩

theorem AuthWorld.Waits.trans {w w' w'' : AuthWorld} (h : w.Waits w') (h' : w'.Waits w'') :
    w.Waits w'' where
  passes := ⟨h'.passes.1.trans h.passes.1, h'.passes.2.trans h.passes.2⟩
  clock := le_trans h.clock h'.clock
  draws := le_trans h.draws h'.draws

section
variable (crypto : AuthCrypto) (random : Nat → String) (F : Failures auth AuthWorld)
variable (domain : String) (sessionTtl : Nat)

/-- One call to a server of this domain and session TTL. -/
inductive AuthCall : AuthWorld → AuthEvent → AuthWorld → Prop where
  | issue {w w₁ tr w' req r} : w.Waits w₁ →
      OutcomeBeside (execAuth random) F AuthWorld.Waits (issueChallenge crypto domain req)
        w₁ tr r w' →
      AuthCall w (.issued (readings tr) req r) w'
  | verify {w w₁ tr w' req r} : w.Waits w₁ →
      OutcomeBeside (execAuth random) F AuthWorld.Waits (verify crypto domain sessionTtl req)
        w₁ tr r w' →
      AuthCall w (.verified (readings tr) req r) w'
  | look {w w₁ tr w' token r} : w.Waits w₁ →
      OutcomeBeside (execAuth random) F AuthWorld.Waits (sessionByToken crypto token) w₁ tr r w' →
      AuthCall w (.looked (readings tr) token r) w'

/-- Calls from empty tables on, the latest first. -/
abbrev AuthRun (clock : Int) : List AuthEvent → AuthWorld → Prop :=
  Trail (AuthCall crypto random F domain sessionTtl) (.empty clock)

end

section
variable {crypto : AuthCrypto} {random : Nat → String} {domain : String} {sessionTtl : Nat}
variable {w w₁ w' : AuthWorld} {read : List Instant}

/-! A call that nothing happens beside. -/

theorem AuthCall.issue_alone (hw : w.Waits w₁) {req : ChallengeRequest}
    {r : Except Stop Challenge}
    (h : (issueChallenge crypto domain req).run (execAuth random) w₁ = (r, w'))
    (hread : readings ((issueChallenge crypto domain req).trace (execAuth random) w₁) = read) :
    AuthCall crypto random (ownFailures (execAuth random)) domain sessionTtl w
      (.issued read req r) w' := by
  rw [← hread]
  exact .issue hw (beside_of_run .refl h)

theorem AuthCall.verify_alone (hw : w.Waits w₁) {req : VerifyRequest} {r : Except Stop Session}
    (h : (VerdantBackend.verify crypto domain sessionTtl req).run (execAuth random) w₁ = (r, w'))
    (hread : readings ((VerdantBackend.verify crypto domain sessionTtl req).trace
      (execAuth random) w₁) = read) :
    AuthCall crypto random (ownFailures (execAuth random)) domain sessionTtl w
      (.verified read req r) w' := by
  rw [← hread]
  exact .verify hw (beside_of_run .refl h)

end

/-! ## The clock of a call -/

section
variable {random : Nat → String} {F : Failures auth AuthWorld} {w w' : AuthWorld}

/-- **The clock of a call**: what it reads is between its start and its end, in order. -/
theorem readings_between {ε α : Type} {p : Prog auth ε α} {tr : List auth.Obs}
    {r : Except ε α} (h : OutcomeBeside (execAuth random) F AuthWorld.Waits p w tr r w') :
    w.clock ≤ w'.clock ∧ (∀ t ∈ readings tr, w.clock ≤ t.micros ∧ t.micros ≤ w'.clock) ∧
      (readings tr).Pairwise fun t t' => t.micros ≤ t'.micros := by
  induction h with
  | done => exact ⟨le_rfl, by simp [readings], .nil⟩
  | @ok q k s s₀ a s₁ tr r s₂ henv hx _ ih =>
      obtain ⟨hle, hread, hsorted⟩ := ih
      have heffect := execAuth_effect hx
      have hclock := heffect.clock
      have hwait := henv.clock
      have hlater : ∀ t ∈ readings tr, s.clock ≤ t.micros ∧ t.micros ≤ s₂.clock := by
        intro t ht
        have hbounds := hread t ht
        omega
      have hother (hsame : readings (⟨q, .ok a⟩ :: tr) = readings tr) :
          s.clock ≤ s₂.clock ∧
            (∀ t ∈ readings (⟨q, .ok a⟩ :: tr), s.clock ≤ t.micros ∧ t.micros ≤ s₂.clock) ∧
            (readings (⟨q, .ok a⟩ :: tr)).Pairwise fun t t' => t.micros ≤ t'.micros := by
        rw [hsame]
        exact ⟨by omega, hlater, hsorted⟩
      cases q with
      | now =>
          have hfirst : a.micros = s₀.clock := congrArg Instant.micros heffect.1
          have hcons : readings (⟨.now, .ok a⟩ :: tr) = a :: readings tr := rfl
          rw [hcons, List.forall_mem_cons, List.pairwise_cons]
          refine ⟨by omega, ⟨by omega, hlater⟩, fun t ht => ?_, hsorted⟩
          have hbounds := hread t ht
          omega
      | randomHex | insertChallenge _ _ _ _ | selectChallenge _ _ _ | useChallenge _
      | insertSession _ | selectSession _ => exact hother rfl
  | @fail q k s s₀ e tr r s₂ henv _ _ ih =>
      obtain ⟨hle, hread, hsorted⟩ := ih
      have hwait := henv.clock
      have hsame : readings (⟨q, .error e⟩ :: tr) = readings tr := by
        cases q <;> rfl
      rw [hsame]
      refine ⟨by omega, fun t ht => ?_, hsorted⟩
      have hbounds := hread t ht
      omega

end

/-! ## What a call writes -/

/-- The row of a challenge issued at `time`. -/
structure Challenge.Stored (crypto : AuthCrypto) (c : Challenge) (time : Instant)
    (row : ChallengeRow) : Prop where
  domain : row.domain = c.domain
  address : row.address = c.address
  timestamp : c.timestamp = crypto.rfc3339 time
  expiresAt : row.expiresAt = time.micros + CHALLENGE_TTL_MINUTES * 60000000

/-- What `issue_challenge` returns to a request. -/
structure Challenge.Answers (crypto : AuthCrypto) (random : Nat → String) (domain : String)
    (c : Challenge) (req : ChallengeRequest) : Prop where
  domain : c.domain = domain
  address : c.address = req.address
  valid : validateAddress crypto c.address = .ok ()
  drawn : ∃ n, c.nonce = random n
  storable : hasNul c.nonce = false ∧ hasNul c.address = false ∧ hasNul c.domain = false

/-- The row that lets a request pass at `time`. -/
structure VerifyRequest.Accepted (crypto : AuthCrypto) (domain : String) (req : VerifyRequest)
    (time : Int) (row : ChallengeRow) : Prop where
  reqDomain : req.domain = domain
  rowDomain : row.domain = domain
  rowAddress : row.address = req.address
  fresh : time < row.expiresAt
  signed : verifySignature crypto req.address req.signature
    (sep40Message req.domain req.address req.nonce req.timestamp) = .ok ()

/-- The request is accepted at `time` and marks its challenge. -/
structure VerifyRequest.Uses (crypto : AuthCrypto) (domain : String) (req : VerifyRequest)
    (w w' : AuthWorld) (time : Int) (row : ChallengeRow) : Prop where
  found : w.authChallenges.lookup req.nonce = some row
  unused : row.used = false
  accepted : req.Accepted crypto domain time row
  marked : w'.authChallenges = w.authChallenges.insert req.nonce { row with used := true }

/-- The row of the session whose expiry a `verify` computed at `time`, under `token`. -/
def VerifyRequest.sessionRow (crypto : AuthCrypto) (sessionTtl : Nat) (req : VerifyRequest)
    (time : Int) (token : String) : SessionRow :=
  ⟨hashToken crypto token, req.address, ["farmer"], time + sessionTtl⟩

/-- The server is to blame. -/
def Stop.Internal : Stop → Prop
  | .err e => e.status = 500
  | .panic _ => True

/-- What a call leaves in the tables. `verify` reads the clock twice: it checks the
challenge at the first reading and computes the session's expiry from the second. -/
inductive AuthEvent.Effect (crypto : AuthCrypto) (random : Nat → String) (domain : String)
    (sessionTtl : Nat) (w w' : AuthWorld) : AuthEvent → Prop where
  | notIssued {read req s} : w.Passes w' →
      Effect crypto random domain sessionTtl w w' (.issued read req (.error s))
  | issued {t req c row} : c.Answers crypto random domain req → c.Stored crypto t row →
      row.used = false → c.nonce ∉ w.authChallenges →
      w'.authChallenges = w.authChallenges.insert c.nonce row →
      w'.authSessions = w.authSessions →
      Effect crypto random domain sessionTtl w w' (.issued [t] req (.ok c))
  | notVerified {read req s} : w.Passes w' →
      Effect crypto random domain sessionTtl w w' (.verified read req (.error s))
  | used {t read req s row} : req.Uses crypto domain w w' t.micros row →
      w'.authSessions = w.authSessions → s.Internal →
      Effect crypto random domain sessionTtl w w' (.verified (t :: read) req (.error s))
  | verified {t₁ t₂ req s row} : req.Uses crypto domain w w' t₁.micros row →
      hashToken crypto s.token ∉ w.authSessions.rows.map SessionRow.tokenHash →
      w'.authSessions =
        w.authSessions.insert (req.sessionRow crypto sessionTtl t₂.micros s.token) →
      Effect crypto random domain sessionTtl w w' (.verified [t₁, t₂] req (.ok s))
  | notFound {read token e} : w.Passes w' →
      Effect crypto random domain sessionTtl w w' (.looked read token (.error e))
  | found {t token row} : w.Passes w' → row ∈ w.authSessions.rows →
      row.tokenHash = hashToken crypto token → t.micros < row.expiresAt →
      Effect crypto random domain sessionTtl w w' (.looked [t] token (.ok row))

section
variable {crypto : AuthCrypto} {random : Nat → String} {F : Failures auth AuthWorld}
variable {domain : String} {sessionTtl : Nat} {w w₁ w' : AuthWorld} {tr : List auth.Obs}

theorem AuthWorld.Passes.trans {w'' : AuthWorld} (h : w.Passes w') (h' : w'.Passes w'') :
    w.Passes w'' :=
  ⟨h'.1.trans h.1, h'.2.trans h.2⟩

theorem VerifyRequest.Uses.of_passes {req : VerifyRequest} {time : Int} {row : ChallengeRow}
    (h : req.Uses crypto domain w₁ w' time row) (hw : w.Passes w₁) :
    req.Uses crypto domain w w' time row where
  found := hw.1 ▸ h.found
  unused := h.unused
  accepted := h.accepted
  marked := hw.1 ▸ h.marked

/-- The effect speaks of the tables only. -/
theorem AuthEvent.Effect.of_passes {e : AuthEvent}
    (h : e.Effect crypto random domain sessionTtl w₁ w') (hw : w.Passes w₁) :
    e.Effect crypto random domain sessionTtl w w' := by
  obtain ⟨hchallenges, hsessions⟩ := id hw
  cases h with
  | notIssued h => exact .notIssued (hw.trans h)
  | issued hanswers hstored hunused hnew hinsert hkept =>
      rw [hchallenges] at hnew hinsert
      exact .issued hanswers hstored hunused hnew hinsert (hkept.trans hsessions)
  | notVerified h => exact .notVerified (hw.trans h)
  | used huses hkept hs => exact .used (huses.of_passes hw) (hkept.trans hsessions) hs
  | verified huses hnew hinsert =>
      rw [hsessions] at hnew hinsert
      exact .verified (huses.of_passes hw) hnew hinsert
  | notFound h => exact .notFound (hw.trans h)
  | found h hrow hhash hfresh =>
      rw [hsessions] at hrow
      exact .found (hw.trans h) hrow hhash hfresh

theorem addInstant_ok {t u : Instant} {d : Int} (h : addInstant crypto t d = .ok u) :
    u.micros = t.micros + d := by
  rw [addInstant] at h
  cases hadd : crypto.checkedAdd t d with
  | none => simp [hadd] at h
  | some v =>
      simp only [hadd, Except.ok.injEq] at h
      rw [← h, crypto.checkedAdd_some hadd]

theorem sessionExpiry_ok {now u : Instant} (h : sessionExpiry crypto now sessionTtl = .ok u) :
    u.micros = now.micros + sessionTtl := by
  rw [sessionExpiry_eq] at h
  cases httl : crypto.fromStd sessionTtl with
  | error e => simp [httl] at h
  | ok ttl =>
      simp only [httl] at h
      rw [addInstant_ok h, crypto.fromStd_ok httl]

theorem sessionExpiry_error {now : Instant} {s : Stop}
    (h : sessionExpiry crypto now sessionTtl = .error s) : s.Internal := by
  rw [sessionExpiry_eq] at h
  cases httl : crypto.fromStd sessionTtl with
  | error e =>
      simp only [httl, Except.error.injEq] at h
      rw [← h]
      exact rfl
  | ok ttl =>
      simp only [httl, addInstant] at h
      split at h
      · cases h
      · cases h
        trivial

/-- A row that passes the checks. -/
theorem checkVerify_ok {req : VerifyRequest} {row : ChallengeRow} {now : Int}
    (hfound : w.challengeFor req = some row)
    (h : checkVerify crypto domain req now (some row) = .ok ()) :
    w.authChallenges.lookup req.nonce = some row ∧ row.used = false ∧
      req.Accepted crypto domain now row := by
  obtain ⟨hlookup, haddress, hdomain⟩ := AuthWorld.challengeFor_eq_some_iff.mp hfound
  rw [checkVerify] at h
  by_cases hused : row.used
  · rw [if_pos hused] at h
    cases h
  by_cases hexp : row.expiresAt ≤ now
  · rw [if_neg hused, if_pos hexp] at h
    cases h
  by_cases hdom : row.domain = domain
  · rw [if_neg hused, if_neg hexp, if_neg (not_not.mpr hdom)] at h
    cases hsig : verifySignature crypto req.address req.signature
        (sep40Message req.domain req.address req.nonce req.timestamp) with
    | ok u => exact ⟨hlookup, by simpa using hused, hdomain ▸ hdom, hdom, haddress, by omega, hsig⟩
    | error e =>
        rw [hsig] at h
        cases h
  · rw [if_neg hused, if_neg hexp, if_pos hdom] at h
    cases h

/-! ## Calls beside the passing of time -/

theorem beside_newNonce {β : Type} {f : String → Prog auth Stop β} {r : Except Stop β}
    (h : OutcomeBeside (execAuth random) F AuthWorld.Waits (newNonce >>= f) w tr r w') :
    ∃ w₁ tr₁, w.Waits w₁ ∧ readings tr = readings tr₁ ∧
      OutcomeBeside (execAuth random) F AuthWorld.Waits (f (random w₁.draws)) w₁.draw tr₁ r w' := by
  obtain ⟨w₁, hw, ⟨e, _⟩ | ⟨nonce, w₂, tr₁, hx, rfl, h⟩⟩ := beside_call_bind_iff.mp h
  · exact e.elim
  · cases hx
    exact ⟨w₁, tr₁, hw, rfl, h⟩

theorem beside_utcNow {ε β : Type} {f : Instant → Prog auth ε β} {r : Except ε β}
    (h : OutcomeBeside (execAuth random) F AuthWorld.Waits (utcNow >>= f) w tr r w') :
    ∃ w₁ tr₁, w.Waits w₁ ∧ readings tr = w₁.now :: readings tr₁ ∧
      OutcomeBeside (execAuth random) F AuthWorld.Waits (f w₁.now) w₁ tr₁ r w' := by
  obtain ⟨w₁, hw, ⟨e, _⟩ | ⟨now, w₂, tr₁, hx, rfl, h⟩⟩ := beside_call_bind_iff.mp h
  · exact e.elim
  · cases hx
    exact ⟨w₁, tr₁, hw, rfl, h⟩

theorem issue_effect {req : ChallengeRequest} {r : Except Stop Challenge}
    (h : OutcomeBeside (execAuth random) F AuthWorld.Waits (issueChallenge crypto domain req)
      w tr r w') :
    AuthEvent.Effect crypto random domain sessionTtl w w' (.issued (readings tr) req r) := by
  rw [issueChallenge] at h
  rcases beside_done_bind_iff.mp h with ⟨e, _, rfl, rfl, rfl⟩ | ⟨u, hval, h⟩
  · exact .notIssued ⟨rfl, rfl⟩
  obtain ⟨w₁, tr₁, hw₁, hread₁, h⟩ := beside_newNonce h
  obtain ⟨w₂, tr₂, hw₂, hread₂, h⟩ := beside_utcNow h
  have hpasses : w.Passes w₂ := hw₁.passes.trans hw₂.passes
  rcases beside_done_bind_iff.mp h with ⟨s, _, rfl, rfl, rfl⟩ | ⟨expiresAt, hadd, h⟩
  · exact .notIssued hpasses
  obtain ⟨w₃, hw₃, ⟨e, _, rfl, rfl, rfl⟩ | ⟨_, w₄, tr₃, hx, rfl, hdone⟩⟩ :=
    beside_call_bind_iff.mp h
  · exact .notIssued (hpasses.trans hw₃.passes)
  obtain ⟨rfl, rfl, rfl⟩ := beside_done_iff.mp hdone
  have hvalid : validateAddress crypto req.address = .ok () := mapError_eq_ok hval
  have hnul : hasNul (random w₁.draws) = false ∧ hasNul req.address = false ∧
      hasNul domain = false := by
    rw [execAuth] at hx
    split at hx
    · cases hx
    · next hnul =>
      simp only [Bool.or_eq_true, not_or, Bool.not_eq_true] at hnul
      exact ⟨hnul.1.1, hnul.2, hnul.1.2⟩
  obtain ⟨hnew, rfl⟩ := execAuth_insertChallenge hx
  have hread : readings tr = [w₂.now] := hread₁.trans hread₂
  rw [hread]
  have hstored : Challenge.Stored crypto
      ⟨domain, random w₁.draws, crypto.rfc3339 w₂.now, req.address⟩ w₂.now
      ⟨domain, req.address, expiresAt.micros, false⟩ := ⟨rfl, rfl, rfl, addInstant_ok hadd⟩
  apply AuthEvent.Effect.of_passes _ (hpasses.trans hw₃.passes)
  exact .issued ⟨rfl, rfl, hvalid, ⟨_, rfl⟩, hnul⟩ hstored rfl hnew rfl rfl

theorem beside_sessionExpiry {β : Type} {f : Instant → Prog auth Stop β} {now : Instant}
    {r : Except Stop β}
    (h : OutcomeBeside (execAuth random) F AuthWorld.Waits
      ((.done ((crypto.fromStd sessionTtl).mapError fun e => .err (.internal e)) :
        Prog auth Stop Int) >>= fun ttl => .done (addInstant crypto now ttl) >>= f) w tr r w') :
    (∃ s, sessionExpiry crypto now sessionTtl = .error s ∧ tr = [] ∧ r = .error s ∧ w' = w) ∨
      ∃ expiresAt, sessionExpiry crypto now sessionTtl = .ok expiresAt ∧
        OutcomeBeside (execAuth random) F AuthWorld.Waits (f expiresAt) w tr r w' := by
  rw [sessionExpiry_eq]
  cases httl : crypto.fromStd sessionTtl with
  | ok ttl =>
      rw [httl, Except.mapError, bind_done_ok] at h
      exact beside_done_bind_iff.mp h
  | error e =>
      rw [httl] at h
      obtain ⟨rfl, rfl, rfl⟩ := beside_done_iff.mp h
      exact .inl ⟨_, rfl, rfl, rfl, rfl⟩

/-- Behind the checks: the challenge is marked or nothing is, and behind the mark only the
server fails. -/
theorem establish_effect {req : VerifyRequest} {row : ChallengeRow} {r : Except Stop Session}
    (hrow : w.authChallenges.lookup req.nonce = some row)
    (h : OutcomeBeside (execAuth random) F AuthWorld.Waits
      (establishSession crypto sessionTtl req) w tr r w') :
    (w.Passes w' ∧ ∃ s, r = .error s) ∨
      w'.authChallenges = w.authChallenges.insert req.nonce { row with used := true } ∧
        ((w'.authSessions = w.authSessions ∧ ∃ s, r = .error s ∧ s.Internal) ∨
        ∃ t s, r = .ok s ∧ readings tr = [t] ∧
          hashToken crypto s.token ∉ w.authSessions.rows.map SessionRow.tokenHash ∧
          w'.authSessions =
            w.authSessions.insert (req.sessionRow crypto sessionTtl t.micros s.token)) := by
  rw [establishSession] at h
  obtain ⟨w₁, hw₁, ⟨e, _, rfl, rfl, rfl⟩ | ⟨_, w₂, tr₁, hx, rfl, hrest⟩⟩ :=
    beside_call_bind_iff.mp h
  · exact .inl ⟨hw₁.passes, _, rfl⟩
  have hrow₁ : w₁.authChallenges.lookup req.nonce = some row := hw₁.passes.1 ▸ hrow
  obtain rfl : w₂ = w₁.useChallenge req.nonce row := by
    rcases execAuth_effect hx with ⟨hnone, _⟩ | ⟨marked, hmarked, rfl⟩
    · rw [hnone] at hrow₁
      cases hrow₁
    · rw [hmarked, Option.some.injEq] at hrow₁
      rw [hrow₁]
  obtain ⟨w₃, tr₃, hw₃, hread₃, hrest⟩ := beside_newNonce hrest
  obtain ⟨w₄, tr₄, hw₄, hread₄, hrest⟩ := beside_utcNow hrest
  have hpasses : (w₁.useChallenge req.nonce row).Passes w₄ := hw₃.passes.trans hw₄.passes
  have hlater {w₅ : AuthWorld} (hw₅ : w₄.Passes w₅) :
      w₅.authChallenges = w.authChallenges.insert req.nonce { row with used := true } ∧
        w₅.authSessions = w.authSessions := by
    obtain ⟨hchallenges, hsessions⟩ := hpasses.trans hw₅
    refine ⟨?_, hsessions.trans hw₁.passes.2⟩
    rw [hchallenges, ← hw₁.passes.1]
    rfl
  have hread : readings (⟨.useChallenge req.nonce, .ok ()⟩ :: tr₁) = w₄.now :: readings tr₄ :=
    hread₃.trans hread₄
  rcases beside_sessionExpiry hrest with ⟨s, hexp, _, rfl, rfl⟩ | ⟨expiresAt, hexp, hrest⟩
  · obtain ⟨hchallenges, hsessions⟩ := hlater ⟨rfl, rfl⟩
    exact .inr ⟨hchallenges, .inl ⟨hsessions, s, rfl, sessionExpiry_error hexp⟩⟩
  obtain ⟨w₅, hw₅, ⟨e, _, rfl, rfl, rfl⟩ | ⟨_, w₆, tr₅, hx, rfl, hdone⟩⟩ :=
    beside_call_bind_iff.mp hrest
  · obtain ⟨hchallenges, hsessions⟩ := hlater hw₅.passes
    exact .inr ⟨hchallenges, .inl ⟨hsessions, _, rfl, rfl⟩⟩
  obtain ⟨rfl, rfl, rfl⟩ := beside_done_iff.mp hdone
  obtain ⟨hchallenges, hsessions⟩ := hlater hw₅.passes
  obtain ⟨hnew, rfl⟩ := execAuth_effect hx
  rw [hsessions] at hnew
  refine .inr ⟨hchallenges, .inr ⟨w₄.now, _, rfl, hread, hnew, ?_⟩⟩
  show w₅.authSessions.insert _ = _
  rw [hsessions, sessionExpiry_ok hexp]
  rfl

theorem verify_effect {req : VerifyRequest} {r : Except Stop Session}
    (h : OutcomeBeside (execAuth random) F AuthWorld.Waits (verify crypto domain sessionTtl req)
      w tr r w') :
    AuthEvent.Effect crypto random domain sessionTtl w w' (.verified (readings tr) req r) := by
  rw [verify] at h
  rcases beside_done_bind_iff.mp h with ⟨e, _, rfl, rfl, rfl⟩ | ⟨_, _, h⟩
  · exact .notVerified ⟨rfl, rfl⟩
  obtain ⟨w₁, hw₁, ⟨e, _, rfl, rfl, rfl⟩ | ⟨found, w₂, tr₁, hx, rfl, hrest⟩⟩ :=
    beside_call_bind_iff.mp h
  · exact .notVerified hw₁.passes
  obtain ⟨_, rfl, rfl⟩ := execAuth_selectChallenge_iff.mp hx
  have hrefused {w₃ : AuthWorld} {tr₂ : List auth.Obs} {s : Stop} (read : List Instant)
      (hpasses : w₂.Passes w₃)
      (h : OutcomeBeside (execAuth random) F AuthWorld.Waits (.throw s) w₃ tr₂ r w') :
      AuthEvent.Effect crypto random domain sessionTtl w w' (.verified read req r) := by
    obtain ⟨_, rfl, rfl⟩ := beside_done_iff.mp h
    exact .notVerified (hw₁.passes.trans hpasses)
  cases hfound : w₂.challengeFor req with
  | none =>
      rw [hfound] at hrest
      exact hrefused _ ⟨rfl, rfl⟩ hrest
  | some row =>
      rw [hfound] at hrest
      by_cases hused : row.used
      · simp only [if_pos hused] at hrest
        exact hrefused _ ⟨rfl, rfl⟩ hrest
      simp only [if_neg hused] at hrest
      obtain ⟨w₃, tr₂, hw₃, hread, hrest⟩ := beside_utcNow hrest
      by_cases hexp : row.expiresAt ≤ w₃.now.micros
      · rw [if_pos hexp] at hrest
        exact hrefused _ hw₃.passes hrest
      by_cases hdom : row.domain ≠ domain
      · rw [if_neg hexp, if_pos hdom] at hrest
        exact hrefused _ hw₃.passes hrest
      rw [if_neg hexp, if_neg hdom] at hrest
      rcases beside_done_bind_iff.mp hrest with ⟨e, _, _, rfl, rfl⟩ | ⟨_, hsig, hrest⟩
      · exact .notVerified (hw₁.passes.trans hw₃.passes)
      have hpassed : checkVerify crypto domain req w₃.now.micros (some row) = .ok () := by
        rw [checkVerify, if_neg hused, if_neg hexp, if_neg hdom]
        exact hsig
      obtain ⟨hlookup, hunused, haccepted⟩ := checkVerify_ok hfound hpassed
      have hlookup₃ : w₃.authChallenges.lookup req.nonce = some row := hw₃.passes.1 ▸ hlookup
      show AuthEvent.Effect crypto random domain sessionTtl w w'
        (.verified (readings tr₁) req r)
      rw [hread]
      apply AuthEvent.Effect.of_passes _ (hw₁.passes.trans hw₃.passes)
      rcases establish_effect hlookup₃ hrest with ⟨hpasses, s, rfl⟩ |
        ⟨hmarked, ⟨hkept, s, rfl, hinternal⟩ | ⟨t, s, rfl, hread₂, hnew, hinsert⟩⟩
      · exact .notVerified hpasses
      · exact .used ⟨hlookup₃, hunused, haccepted, hmarked⟩ hkept hinternal
      · rw [hread₂]
        exact .verified ⟨hlookup₃, hunused, haccepted, hmarked⟩ hnew hinsert

theorem look_effect {token : String} {r : Except AppError SessionRow}
    (h : OutcomeBeside (execAuth random) F AuthWorld.Waits (sessionByToken crypto token)
      w tr r w') :
    AuthEvent.Effect crypto random domain sessionTtl w w' (.looked (readings tr) token r) := by
  rw [sessionByToken] at h
  obtain ⟨w₁, hw₁, ⟨e, _, rfl, rfl, rfl⟩ | ⟨found, w₂, tr₁, hx, rfl, hrest⟩⟩ :=
    beside_call_bind_iff.mp h
  · exact .notFound hw₁.passes
  cases hx
  cases hfound : w₁.authSessions.rows.find? fun row =>
      row.tokenHash = hashToken crypto token with
  | none =>
      rw [hfound] at hrest
      obtain ⟨_, rfl, rfl⟩ := beside_done_iff.mp hrest
      exact .notFound hw₁.passes
  | some row =>
      rw [hfound] at hrest
      obtain ⟨w₃, tr₂, hw₃, hread, hrest⟩ := beside_utcNow hrest
      by_cases hexp : row.expiresAt ≤ w₃.now.micros
      · rw [if_pos hexp] at hrest
        obtain ⟨_, rfl, rfl⟩ := beside_done_iff.mp hrest
        exact .notFound (hw₁.passes.trans hw₃.passes)
      · rw [if_neg hexp] at hrest
        obtain ⟨rfl, rfl, rfl⟩ := beside_done_iff.mp hrest
        show AuthEvent.Effect crypto random domain sessionTtl w w'
          (.looked (readings tr₁) token (.ok row))
        rw [hread]
        apply AuthEvent.Effect.of_passes _ hw₁.passes
        exact .found hw₃.passes (List.mem_of_find?_eq_some hfound)
          (of_decide_eq_true (List.find?_some hfound :)) (by omega)

/-- **What a call does.** -/
theorem AuthCall.effect {e : AuthEvent} (h : AuthCall crypto random F domain sessionTtl w e w') :
    w.clock ≤ w'.clock ∧ (∀ t ∈ e.read, w.clock ≤ t.micros ∧ t.micros ≤ w'.clock) ∧
      e.read.Pairwise (fun t t' => t.micros ≤ t'.micros) ∧
      e.Effect crypto random domain sessionTtl w w' := by
  have hlater {w₁ : AuthWorld} {read : List Instant} (hw : w.Waits w₁)
      (h : w₁.clock ≤ w'.clock ∧ (∀ t ∈ read, w₁.clock ≤ t.micros ∧ t.micros ≤ w'.clock) ∧
        read.Pairwise fun t t' => t.micros ≤ t'.micros) :
      w.clock ≤ w'.clock ∧ (∀ t ∈ read, w.clock ≤ t.micros ∧ t.micros ≤ w'.clock) ∧
        read.Pairwise fun t t' => t.micros ≤ t'.micros := by
    obtain ⟨hle, hread, hsorted⟩ := h
    have hclock := hw.clock
    exact ⟨by omega, fun t ht => ⟨by have := hread t ht; omega, (hread t ht).2⟩, hsorted⟩
  cases h with
  | issue hw h =>
      obtain ⟨hle, hread, hsorted⟩ := hlater hw (readings_between h)
      exact ⟨hle, hread, hsorted, (issue_effect h).of_passes hw.passes⟩
  | verify hw h =>
      obtain ⟨hle, hread, hsorted⟩ := hlater hw (readings_between h)
      exact ⟨hle, hread, hsorted, (verify_effect h).of_passes hw.passes⟩
  | look hw h =>
      obtain ⟨hle, hread, hsorted⟩ := hlater hw (readings_between h)
      exact ⟨hle, hread, hsorted, (look_effect h).of_passes hw.passes⟩

end

end VerdantBackend
