import VerdantBackend.Auth.Run
import VerdantBackend.Auth.SingleUse

/-!
# A verify that fails

`verify` marks the challenge before it computes the session's expiry and inserts
the session, and no transaction holds these statements together. Up to the mark a
failure leaves the tables as they were; behind it the challenge is consumed.
-/

namespace VerdantBackend

open Prog

/-- The request passes every check of `verify` on this row. -/
structure PassesChecks (crypto : AuthCrypto) (domain : String) (req : VerifyRequest)
    (w : AuthWorld) (row : ChallengeRow) : Prop where
  address : validateAddress crypto req.address = .ok ()
  storable : req.Storable
  found : w.challengeFor req = some row
  checks : checkVerify crypto domain req w.clock (some row) = .ok ()

/-- Behind the mark nothing can fail: the expiry is an instant, and the session is
inserted. -/
def NeverFailsLate (crypto : AuthCrypto) (random : Nat → String) (F : Failures auth AuthWorld)
    (sessionTtl : Nat) (req : VerifyRequest) (w : AuthWorld) (row : ChallengeRow) : Prop :=
  ∃ expiresAt, sessionExpiry crypto w.now sessionTtl = .ok expiresAt ∧
    ∀ e, ¬ F (.insertSession (newSession crypto random req w expiresAt))
      (w.useChallenge req.nonce row).draw e

section
variable {crypto : AuthCrypto} {random : Nat → String} {F : Failures auth AuthWorld}
variable {domain : String} {sessionTtl : Nat} {req : VerifyRequest} {w w' : AuthWorld}
variable {row : ChallengeRow} {s : Stop}

/-- A failure changes nothing, or it comes behind the mark. -/
theorem verify_error_cases
    (h : Ends (execAuth random) F (verify crypto domain sessionTtl req) w (.error s) w') :
    w.Passes w' ∨ ∃ row, PassesChecks crypto domain req w row ∧
      w' = (w.useChallenge req.nonce row).draw ∧
      ¬ NeverFailsLate crypto random F sessionTtl req w row := by
  cases verify_ends_iff.mp h with
  | refused | selectFailed | rejected => exact .inl ⟨rfl, rfl⟩
  | checked haddress hstorable hfound hcheck houtcome =>
      cases houtcome with
      | useFailed => exact .inl ⟨rfl, rfl⟩
      | noExpiry hexp =>
          refine .inr ⟨_, ⟨haddress, hstorable, hfound, hcheck⟩, rfl, ?_⟩
          intro h
          obtain ⟨expiresAt, hok, _⟩ := h
          rw [hexp] at hok
          cases hok
      | insertFailed hexp hF =>
          refine .inr ⟨_, ⟨haddress, hstorable, hfound, hcheck⟩, rfl, ?_⟩
          intro h
          obtain ⟨expiresAt, hok, hnever⟩ := h
          rw [hexp] at hok
          cases hok
          exact hnever _ hF

/-- Behind the mark a failure consumes the challenge. -/
theorem verify_fails_late (h : PassesChecks crypto domain req w row)
    (hlate : ¬ NeverFailsLate crypto random F sessionTtl req w row) :
    ∃ s, Ends (execAuth random) F (verify crypto domain sessionTtl req) w (.error s)
      (w.useChallenge req.nonce row).draw := by
  obtain ⟨haddress, hstorable, hfound, hcheck⟩ := h
  cases hexp : sessionExpiry crypto w.now sessionTtl with
  | error s =>
      exact ⟨s, verify_ends_iff.mpr (.checked haddress hstorable hfound hcheck (.noExpiry hexp))⟩
  | ok expiresAt =>
      have hF : ∃ e, F (.insertSession (newSession crypto random req w expiresAt))
          (w.useChallenge req.nonce row).draw e := by
        by_contra hnone
        exact hlate ⟨expiresAt, hexp, not_exists.mp hnone⟩
      obtain ⟨e, hF⟩ := hF
      exact ⟨database e, verify_ends_iff.mpr
        (.checked haddress hstorable hfound hcheck (.insertFailed hexp hF))⟩

/-- The mark is a change. -/
theorem PassesChecks.not_passes (h : PassesChecks crypto domain req w row) :
    ¬ w.Passes (w.useChallenge req.nonce row).draw := by
  obtain ⟨hrow, hunused, _⟩ := checkVerify_ok h.found h.checks
  intro h
  obtain ⟨hsame, _⟩ := h
  have heq := Table.insert_eq_self_iff.mp hsame
  rw [hrow, Option.some.injEq] at heq
  rw [heq] at hunused
  cases hunused

/-- **A failed `verify`** inserts no session, and marks at most the challenge that
it checked. It changes nothing exactly when nothing can fail behind the mark. -/
theorem failed_verify (crypto : AuthCrypto) (random : Nat → String) (F : Failures auth AuthWorld)
    (domain : String) (sessionTtl : Nat) (req : VerifyRequest) (w : AuthWorld) :
    (∀ s w', Ends (execAuth random) F (verify crypto domain sessionTtl req) w (.error s) w' →
      w'.authSessions = w.authSessions ∧
        (w'.authChallenges = w.authChallenges ∨ ∃ row, PassesChecks crypto domain req w row ∧
          w'.authChallenges = w.authChallenges.insert req.nonce { row with used := true })) ∧
    ((∀ s w', Ends (execAuth random) F (verify crypto domain sessionTtl req) w (.error s) w' →
      w'.authChallenges = w.authChallenges ∧ w'.authSessions = w.authSessions) ↔
      ∀ row, PassesChecks crypto domain req w row →
        NeverFailsLate crypto random F sessionTtl req w row) := by
  constructor
  · intro s w' h
    rcases verify_error_cases h with hpasses | ⟨row, hrow, rfl, _⟩
    · exact ⟨hpasses.2, .inl hpasses.1⟩
    · exact ⟨rfl, .inr ⟨row, hrow, rfl⟩⟩
  · constructor
    · intro h row hrow
      by_contra hlate
      obtain ⟨s, hends⟩ := verify_fails_late hrow hlate
      exact hrow.not_passes (h s _ hends)
    · intro h s w' hends
      rcases verify_error_cases hends with hpasses | ⟨row, hrow, _, hlate⟩
      · exact hpasses
      · exact absurd (h row hrow) hlate

end

set_option maxRecDepth 20000 in
/-- The TTL is the first number of seconds that no `chrono::Duration` holds. -/
theorem failed_verify_consumes_challenge :
    ∃ past w w', AuthRun walletCrypto sampleRandom (ownFailures (execAuth sampleRandom))
        "app.verdant.example" (9223372036854776 * 1000000) 1767225600000000 past w ∧
      Ends (execAuth sampleRandom) (ownFailures (execAuth sampleRandom))
        (verify walletCrypto "app.verdant.example" (9223372036854776 * 1000000) walletRequest) w
        (.error (.err (.internal
          "Source duration value is out of range for the target type"))) w' ∧
      w'.authChallenges ≠ w.authChallenges ∧ w'.authSessions = w.authSessions := by
  have hissue : AuthCall walletCrypto sampleRandom (ownFailures (execAuth sampleRandom))
      "app.verdant.example" (9223372036854776 * 1000000) (.empty 1767225600000000)
      (.issued [.ofMicros 1767225600000000] ⟨walletAddress⟩ (.ok
        ⟨"app.verdant.example", sampleRandom 0, walletRequest.timestamp, walletAddress⟩))
      ((AuthWorld.empty 1767225600000000).draw.addChallenge (sampleRandom 0) (walletRow false)) :=
    .issue_alone (.refl _) rfl rfl
  refine ⟨_, _, (_ : AuthWorld).draw, Trail.start.step hissue, ends_of_run rfl, ?_, rfl⟩
  intro hsame
  have hlookup := congrArg (Finmap.lookup (sampleRandom 0)) hsame
  revert hlookup
  decide

end VerdantBackend
