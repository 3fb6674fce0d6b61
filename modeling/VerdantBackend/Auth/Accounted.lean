import VerdantBackend.Auth.Run

/-!
# The tables and the past

Whatever the tables of the authentication service hold was put there by a call of the
past: a challenge by the call that returned it, a session by one that was signed for.
-/

namespace VerdantBackend

open Prog

section
variable {crypto : AuthCrypto} {random : Nat → String} {F : Failures auth AuthWorld}
variable {domain : String} {sessionTtl : Nat} {w w' : AuthWorld}

/-- Rows of `auth_challenges` stay, apart from their mark. -/
def AuthWorld.KeepsChallenges (w w' : AuthWorld) : Prop :=
  w'.authChallenges = w.authChallenges ∨ ∃ nonce row,
    w.authChallenges.lookup nonce = some row ∧
      w'.authChallenges = w.authChallenges.insert nonce { row with used := true }

theorem AuthWorld.KeepsChallenges.lookup (h : w.KeepsChallenges w') (nonce : String) :
    (w'.authChallenges.lookup nonce).map (fun row => { row with used := false }) =
      (w.authChallenges.lookup nonce).map fun row => { row with used := false } := by
  rcases h with h | ⟨n, row, hrow, h⟩
  · rw [h]
  · rw [h]
    by_cases hn : nonce = n
    · subst hn
      rw [Finmap.lookup_insert, hrow]
      rfl
    · rw [Finmap.lookup_insert_of_ne _ hn]

theorem Challenge.Stored.of_unmarked {c : Challenge} {time : Instant} {row row' : ChallengeRow}
    (h : c.Stored crypto time row)
    (hrow : { row' with used := false } = { row with used := false }) :
    c.Stored crypto time row' := by
  obtain ⟨hdomain, haddress, htimestamp, hexpiresAt⟩ := h
  obtain ⟨_, _, _, _⟩ := row
  obtain ⟨_, _, _, _⟩ := row'
  cases hrow
  exact ⟨hdomain, haddress, htimestamp, hexpiresAt⟩

/-! ## Rows and the calls that wrote them -/

/-- The row is that of a challenge some call of the past returned. -/
def IssuedIn (crypto : AuthCrypto) (past : List AuthEvent) (now : Int) (nonce : String)
    (row : ChallengeRow) : Prop :=
  ∃ time req c, AuthEvent.issued [time] req (.ok c) ∈ past ∧ c.nonce = nonce ∧
    c.Stored crypto time row ∧ time.micros ≤ now

/-- The request was signed for a challenge that some call of the past returned,
not five minutes before. -/
def SignedFor (crypto : AuthCrypto) (domain : String) (past : List AuthEvent) (time : Int)
    (req : VerifyRequest) : Prop :=
  verifySignature crypto req.address req.signature
      (sep40Message domain req.address req.nonce req.timestamp) = .ok () ∧
    ∃ issueTime issueReq c, AuthEvent.issued [issueTime] issueReq (.ok c) ∈ past ∧
      c.nonce = req.nonce ∧ c.domain = domain ∧ c.address = req.address ∧
      issueTime.micros ≤ time ∧ time < issueTime.micros + CHALLENGE_TTL_MINUTES * 60000000

/-- The row is that of a session some call of the past returned, which read the clock at
`checkTime` for its checks and at `verifyTime` for the session. -/
def EstablishedIn (crypto : AuthCrypto) (domain : String) (sessionTtl : Nat)
    (past : List AuthEvent) (now : Int) (row : SessionRow) : Prop :=
  ∃ later checkTime verifyTime req s earlier,
    past = later ++ .verified [checkTime, verifyTime] req (.ok s) :: earlier ∧
    row = req.sessionRow crypto sessionTtl verifyTime.micros s.token ∧
    checkTime.micros ≤ verifyTime.micros ∧ verifyTime.micros ≤ now ∧
    SignedFor crypto domain earlier checkTime.micros req

/-- **The tables and the past**: every row is accounted for by a call, and every
challenge returned is a row. -/
structure Accounted (crypto : AuthCrypto) (random : Nat → String) (domain : String)
    (sessionTtl : Nat) (past : List AuthEvent) (w : AuthWorld) : Prop where
  issued : ∀ {read req c}, AuthEvent.issued read req (.ok c) ∈ past →
    c.Answers crypto random domain req ∧ ∃ time row, read = [time] ∧
      w.authChallenges.lookup c.nonce = some row ∧ c.Stored crypto time row
  challenge : ∀ {nonce row}, w.authChallenges.lookup nonce = some row →
    IssuedIn crypto past w.clock nonce row
  session : ∀ row ∈ w.authSessions.rows,
    EstablishedIn crypto domain sessionTtl past w.clock row

variable {past : List AuthEvent} {e : AuthEvent}

theorem IssuedIn.cons {now now' : Int} {nonce : String} {row : ChallengeRow}
    (h : IssuedIn crypto past now nonce row) (hnow : now ≤ now') :
    IssuedIn crypto (e :: past) now' nonce row := by
  obtain ⟨time, req, c, hc, hnonce, hrow, htime⟩ := h
  exact ⟨time, req, c, List.mem_cons_of_mem _ hc, hnonce, hrow, by omega⟩

theorem EstablishedIn.cons {now now' : Int} {row : SessionRow}
    (h : EstablishedIn crypto domain sessionTtl past now row) (hnow : now ≤ now') :
    EstablishedIn crypto domain sessionTtl (e :: past) now' row := by
  obtain ⟨later, checkTime, verifyTime, req, s, earlier, rfl, hrow, hle, htime, hsigned⟩ := h
  exact ⟨e :: later, checkTime, verifyTime, req, s, earlier, rfl, hrow, hle, by omega, hsigned⟩

/-- A request accepted on a row that a call of the past wrote. -/
theorem IssuedIn.signedFor {now time : Int} {req : VerifyRequest} {row : ChallengeRow}
    (h : IssuedIn crypto past now req.nonce row) (hnow : now ≤ time)
    (haccepted : req.Accepted crypto domain time row) : SignedFor crypto domain past time req := by
  obtain ⟨issueTime, issueReq, c, hc, hnonce, hstored, hissued⟩ := h
  have hsigned := haccepted.signed
  rw [haccepted.reqDomain] at hsigned
  refine ⟨hsigned, issueTime, issueReq, c, hc, hnonce, ?_, ?_, by omega, ?_⟩
  · rw [← hstored.domain, haccepted.rowDomain]
  · rw [← hstored.address, haccepted.rowAddress]
  · rw [← hstored.expiresAt]
    exact haccepted.fresh

/-! ## The account is kept -/

namespace Accounted

theorem start (clock : Int) : Accounted crypto random domain sessionTtl [] (.empty clock) where
  issued h := absurd h List.not_mem_nil
  challenge h := by simp [AuthWorld.empty] at h
  session _ h := absurd h List.not_mem_nil

/-- A call that issues nothing. -/
theorem of_kept (h : Accounted crypto random domain sessionTtl past w)
    (hnew : ∀ read req c, e ≠ .issued read req (.ok c)) (hkeep : w.KeepsChallenges w')
    (hclock : w.clock ≤ w'.clock)
    (hsession : ∀ row ∈ w'.authSessions.rows,
      EstablishedIn crypto domain sessionTtl (e :: past) w'.clock row) :
    Accounted crypto random domain sessionTtl (e :: past) w' where
  issued := by
    intro read req c hc
    rcases List.mem_cons.mp hc with rfl | hc
    · exact absurd rfl (hnew read req c)
    obtain ⟨hanswers, time, row, hread, hrow, hstored⟩ := h.issued hc
    have hlookup := hkeep.lookup c.nonce
    rw [hrow] at hlookup
    obtain ⟨row', hrow', heq⟩ := Option.map_eq_some_iff.mp hlookup
    exact ⟨hanswers, time, row', hread, hrow', hstored.of_unmarked heq⟩
  challenge := by
    intro nonce row hrow
    have hlookup := hkeep.lookup nonce
    rw [hrow] at hlookup
    obtain ⟨row', hrow', heq⟩ := Option.map_eq_some_iff.mp hlookup.symm
    obtain ⟨time, req, c, hc, hnonce, hstored, htime⟩ := (h.challenge hrow').cons (e := e) hclock
    exact ⟨time, req, c, hc, hnonce, hstored.of_unmarked heq.symm, htime⟩
  session := hsession

/-- A challenge under a new nonce. -/
theorem issue (h : Accounted crypto random domain sessionTtl past w) {time : Instant}
    {req : ChallengeRequest} {c : Challenge} {row : ChallengeRow}
    (hanswers : c.Answers crypto random domain req) (hstored : c.Stored crypto time row)
    (hnew : c.nonce ∉ w.authChallenges)
    (hchallenges : w'.authChallenges = w.authChallenges.insert c.nonce row)
    (hsessions : w'.authSessions = w.authSessions) (hclock : w.clock ≤ w'.clock)
    (htime : time.micros ≤ w'.clock) :
    Accounted crypto random domain sessionTtl (.issued [time] req (.ok c) :: past) w' where
  issued := by
    intro read' req' c' hc
    rcases List.mem_cons.mp hc with heq | hc
    · cases heq
      exact ⟨hanswers, time, row, rfl, by rw [hchallenges, Finmap.lookup_insert], hstored⟩
    obtain ⟨hanswers', time', row', hread', hrow', hstored'⟩ := h.issued hc
    have hne : c'.nonce ≠ c.nonce := by
      intro heq
      rw [heq, Finmap.lookup_eq_none.mpr hnew] at hrow'
      cases hrow'
    exact ⟨hanswers', time', row', hread',
      by rw [hchallenges, Finmap.lookup_insert_of_ne _ hne, hrow'], hstored'⟩
  challenge := by
    intro nonce row' hrow
    rw [hchallenges] at hrow
    by_cases hnonce : nonce = c.nonce
    · subst hnonce
      rw [Finmap.lookup_insert] at hrow
      cases hrow
      exact ⟨time, req, c, List.mem_cons_self, rfl, hstored, htime⟩
    · rw [Finmap.lookup_insert_of_ne _ hnonce] at hrow
      exact (h.challenge hrow).cons hclock
  session := by
    intro row hrow
    rw [hsessions] at hrow
    exact (h.session row hrow).cons hclock

/-- **One call.** -/
theorem step (h : Accounted crypto random domain sessionTtl past w)
    (hcall : AuthCall crypto random F domain sessionTtl w e w') :
    Accounted crypto random domain sessionTtl (e :: past) w' := by
  obtain ⟨hclock, hread, hsorted, heffect⟩ := hcall.effect
  have hsession (hrows : w'.authSessions = w.authSessions) : ∀ row ∈ w'.authSessions.rows,
      EstablishedIn crypto domain sessionTtl (e :: past) w'.clock row := by
    intro row hrow
    rw [hrows] at hrow
    exact (h.session row hrow).cons hclock
  cases heffect with
  | notIssued hpasses | notVerified hpasses | notFound hpasses | found hpasses =>
      exact h.of_kept (by simp) (.inl hpasses.1) hclock (hsession hpasses.2)
  | issued hanswers hstored _ hnew hinsert hkept =>
      exact h.issue hanswers hstored hnew hinsert hkept hclock (hread _ List.mem_cons_self).2
  | used huses hkept _ =>
      exact h.of_kept (by simp) (.inr ⟨_, _, huses.found, huses.marked⟩) hclock (hsession hkept)
  | @verified checkTime verifyTime req s row huses _ hinsert =>
      refine h.of_kept (by simp) (.inr ⟨_, _, huses.found, huses.marked⟩) hclock
        fun row' hrow' => ?_
      rw [hinsert] at hrow'
      rcases UniqueRows.mem_of_mem_insert hrow' with hold | rfl
      · exact (h.session row' hold).cons hclock
      have hcheck : w.clock ≤ checkTime.micros := (hread _ List.mem_cons_self).1
      have hverify : verifyTime.micros ≤ w'.clock :=
        (hread verifyTime (List.mem_cons_of_mem _ List.mem_cons_self)).2
      exact ⟨[], checkTime, verifyTime, req, s, past, rfl, rfl,
        List.rel_of_pairwise_cons hsorted List.mem_cons_self, hverify,
        (h.challenge huses.found).signedFor hcheck huses.accepted⟩

end Accounted

/-- **Every run.** -/
theorem AuthRun.accounted {clock : Int}
    (hrun : AuthRun crypto random F domain sessionTtl clock past w) :
    Accounted crypto random domain sessionTtl past w :=
  hrun.invariant (P := Accounted crypto random domain sessionTtl) (.start clock)
    fun _ _ _ _ h hcall => h.step hcall

end

end VerdantBackend
