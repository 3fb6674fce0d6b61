import VerdantBackend.Auth.Service
import VerdantBackend.Ids
import VerdantBackend.Lib.Pool

/-!
# Single use

Any number of `issue_challenge` and `verify` requests, statement by statement in
any order. `verify` selects a challenge, uses it and inserts a session; between
the first two others may use it too, and nothing looks at `used` again.
-/

namespace VerdantBackend

open Prog

/-! ## The phases of a request -/

inductive Phase where
  | issuing
  | entered
  | holding
  | spent
deriving DecidableEq

/-- **What a request may issue**, by the phase it is in: it selects the challenge
`n`, goes on if that is unused, uses it, and inserts one session. It ends at its
first error. -/
inductive Phased (n : String) : Phase → Prog auth Unit Unit → Prop where
  | ended {phase} : Phased n phase finished
  | now {phase k} : phase ≠ .entered → (∀ t, Phased n phase (k (.ok t))) →
      Phased n phase (.stmt .now k)
  | randomHex {phase k} : phase ≠ .entered → (∀ s, Phased n phase (k (.ok s))) →
      Phased n phase (.stmt .randomHex k)
  | insertChallenge {nonce domain address expiresAt k} : (∀ a, k a = finished) →
      Phased n .issuing (.stmt (.insertChallenge nonce domain address expiresAt) k)
  | select {address domain k} : (∀ e, k (.error e) = finished) → k (.ok none) = finished →
      (∀ row, row.used = true → k (.ok (some row)) = finished) →
      (∀ row, row.used = false → Phased n .holding (k (.ok (some row)))) →
      Phased n .entered (.stmt (.selectChallenge n address domain) k)
  | use {k} : (∀ e, k (.error e) = finished) → Phased n .spent (k (.ok ())) →
      Phased n .holding (.stmt (.useChallenge n) k)
  | insertSession {row k} : (∀ a, k a = finished) →
      Phased n .spent (.stmt (.insertSession row) k)

/-- A challenge is issued without selecting, using or inserting a session. -/
theorem issueChallenge_phased (crypto : AuthCrypto) (domain : String) (req : ChallengeRequest)
    (n : String) : Phased n .issuing (issueChallenge crypto domain req).erase := by
  rw [issueChallenge, erase_done_bind]
  split
  · refine .randomHex (by simp) fun nonce => .now (by simp) fun timestamp => ?_
    show Phased _ _ (erase (Prog.done (addInstant ..) >>= _))
    rw [erase_done_bind]
    split
    · refine .insertChallenge fun a => ?_
      cases a <;> rfl
    · exact .ended
  · exact .ended

/-- **`verify` keeps the phases.** -/
theorem verify_phased (crypto : AuthCrypto) (domain : String) (sessionTtl : Nat)
    (req : VerifyRequest) :
    Phased req.nonce .entered (verify crypto domain sessionTtl req).erase := by
  rw [verify, erase_done_bind]
  split
  · refine .select (fun _ => rfl) rfl (fun row hused => ?_) fun row hused => ?_
    · show erase (if row.used = true then _ else _) = _
      rw [if_pos hused]
      rfl
    · show Phased _ _ (erase (if row.used = true then _ else _))
      rw [if_neg (by simp [hused])]
      refine .now (by simp) fun now => ?_
      show Phased _ _ (erase (if row.expiresAt ≤ now.micros then _ else _))
      split
      · exact .ended
      split
      · exact .ended
      show Phased _ _ (erase (Prog.done (Except.mapError _ (verifySignature ..)) >>= _))
      rw [erase_done_bind]
      split
      · refine .use (fun _ => rfl) ?_
        refine .randomHex (by simp) fun token => .now (by simp) fun now => ?_
        show Phased _ _ (erase (Prog.done (Except.mapError _ (crypto.fromStd sessionTtl)) >>= _))
        rw [erase_done_bind]
        split
        · rw [erase_done_bind]
          split
          · refine .insertSession fun a => ?_
            cases a <;> rfl
          · exact .ended
        · exact .ended
      · exact .ended
  · exact .ended

/-! ## Requests in the pool -/

inductive AuthOp where
  | issue (domain : String) (req : ChallengeRequest)
  | verify (domain : String) (sessionTtl : Nat) (req : VerifyRequest)

def AuthOp.prog (crypto : AuthCrypto) : AuthOp → Prog auth Unit Unit
  | .issue domain req => (issueChallenge crypto domain req).erase
  | .verify domain sessionTtl req => (VerdantBackend.verify crypto domain sessionTtl req).erase

/-- The challenge a request answers. -/
def AuthOp.nonce : AuthOp → Option String
  | .issue .. => none
  | .verify _ _ req => some req.nonce

section
variable {ι : Type}

/-- The requests that used the challenge `n`. -/
def usersOf (n : String) : List (Happening auth ι) → List ι
  | [] => []
  | h :: past =>
    match h.answered with
    | some (i, .useChallenge n') => if n' = n then i :: usersOf n past else usersOf n past
    | _ => usersOf n past

/-- The requests that inserted a session on account of the challenge `n`. -/
def sessionsOf (ops : ι → AuthOp) (n : String) : List (Happening auth ι) → List ι
  | [] => []
  | h :: past =>
    match h.answered with
    | some (i, .insertSession _) =>
      if (ops i).nonce = some n then i :: sessionsOf ops n past else sessionsOf ops n past
    | _ => sessionsOf ops n past

/-- Since `i` selected its challenge, `n` was used. -/
def UsedSince (n : String) (i : ι) : List (Happening auth ι) → Prop
  | [] => False
  | h :: past =>
    match h.answered with
    | some (_, .useChallenge n') => n' = n ∨ UsedSince n i past
    | some (j, .selectChallenge ..) => j ≠ i ∧ UsedSince n i past
    | _ => UsedSince n i past

/-- The step is no use of the challenge `n` by a request that selected it before
it was used. -/
def SoundUse (n : String) (past : List (Happening auth ι)) (_ : Pool auth ι AuthWorld) :
    Happening auth ι → Prop
  | .did i ⟨q, .ok _⟩ => q = .useChallenge n → ¬ UsedSince n i past
  | _ => True

variable {ops : ι → AuthOp} {n : String} {i j : ι} {past : List (Happening auth ι)}

section unanswered
variable {h : Happening auth ι} (hh : h.answered = none)
include hh

theorem usersOf_unanswered : usersOf n (h :: past) = usersOf n past := by
  rw [usersOf, hh]

theorem sessionsOf_unanswered : sessionsOf ops n (h :: past) = sessionsOf ops n past := by
  rw [sessionsOf, hh]

theorem usedSince_unanswered : UsedSince n i (h :: past) ↔ UsedSince n i past := by
  rw [UsedSince, hh]

end unanswered

theorem usersOf_use :
    usersOf n (.did i ⟨AuthStmt.useChallenge n, .ok ()⟩ :: past) = i :: usersOf n past :=
  if_pos rfl

theorem sessionsOf_insert {row : SessionRow} (hi : (ops i).nonce = some n) :
    sessionsOf ops n (.did i ⟨AuthStmt.insertSession row, .ok ()⟩ :: past) =
      i :: sessionsOf ops n past :=
  if_pos hi

theorem sessionsOf_insert_ne {row : SessionRow} (hi : (ops i).nonce ≠ some n) :
    sessionsOf ops n (.did i ⟨AuthStmt.insertSession row, .ok ()⟩ :: past) =
      sessionsOf ops n past :=
  if_neg hi

section answered
variable {q : AuthStmt} {a : q.Res}

theorem usersOf_answered (hq : q ≠ .useChallenge n) :
    usersOf n (.did i ⟨q, .ok a⟩ :: past) = usersOf n past := by
  cases q with
  | useChallenge n' => exact if_neg fun heq => hq (by rw [heq])
  | _ => rfl

/-- A new user is the one answered. -/
theorem mem_usersOf_answered (h : j ∈ usersOf n (.did i ⟨q, .ok a⟩ :: past)) :
    j = i ∨ j ∈ usersOf n past := by
  by_cases hq : q = .useChallenge n
  · subst hq
    rw [usersOf_use] at h
    exact List.mem_cons.mp h
  · rw [usersOf_answered hq] at h
    exact .inr h

theorem usersOf_subset_answered (h : j ∈ usersOf n past) :
    j ∈ usersOf n (.did i ⟨q, .ok a⟩ :: past) := by
  by_cases hq : q = .useChallenge n
  · subst hq
    rw [usersOf_use]
    exact List.mem_cons_of_mem _ h
  · rwa [usersOf_answered hq]

theorem mem_sessionsOf_answered (h : j ∈ sessionsOf ops n (.did i ⟨q, .ok a⟩ :: past)) :
    j = i ∨ j ∈ sessionsOf ops n past := by
  cases q with
  | insertSession row =>
      by_cases hn : (ops i).nonce = some n
      · rw [sessionsOf_insert hn] at h
        exact List.mem_cons.mp h
      · rw [sessionsOf_insert_ne hn] at h
        exact .inr h
  | _ => exact .inr h

/-- What was used stays used for all but a request that selects anew. -/
theorem UsedSince.answered (h : UsedSince n j past) (hne : j ≠ i) :
    UsedSince n j (.did i ⟨q, .ok a⟩ :: past) := by
  cases q with
  | useChallenge n' => exact .inr h
  | selectChallenge _ _ _ => exact ⟨hne.symm, h⟩
  | _ => exact h

/-- Only a use changes the row of a challenge. -/
theorem execAuth_row {random : Nat → String} {w w' : AuthWorld} {row : ChallengeRow}
    (hx : execAuth random q w = .ok (a, w')) (hq : q ≠ .useChallenge n)
    (hrow : w.authChallenges.lookup n = some row) : w'.authChallenges.lookup n = some row := by
  cases q with
  | insertChallenge nonce domain address expiresAt =>
      rw [execAuth] at hx
      split at hx
      · cases hx
      split at hx
      · cases hx
      · next hnew =>
        cases hx
        have hne : n ≠ nonce := by
          rintro rfl
          exact hnew (Finmap.mem_of_lookup_eq_some hrow)
        rw [Finmap.lookup_insert_of_ne _ hne, hrow]
  | useChallenge n' =>
      have hne : n' ≠ n := fun heq => hq (by rw [heq])
      rw [execAuth] at hx
      split at hx
      · cases hx
      cases hu : w.authChallenges.update n' fun row => .ok { row with used := true } with
      | error e =>
          rw [hu] at hx
          cases hx
      | ok t =>
          rw [hu] at hx
          cases hx
          rw [Table.lookup_update_ne hu hne, hrow]
  | now | randomHex | selectSession _ =>
      cases hx
      exact hrow
  | selectChallenge nonce address domain =>
      rw [execAuth] at hx
      split at hx
      · cases hx
      · cases hx
        exact hrow
  | insertSession r =>
      rw [execAuth] at hx
      split at hx
      · cases hx
      split at hx
      · cases hx
      · cases hx
        exact hrow

end answered

/-! ## The invariant -/

/-- What is known of the request `i` for the challenge `n`. -/
def Stands (ops : ι → AuthOp) (n : String) (past : List (Happening auth ι)) (w : AuthWorld)
    (i : ι) : Phase → Prop
  | .issuing => True
  | .entered => i ∉ usersOf n past
  | .holding => i ∉ usersOf n past ∧
      (¬ UsedSince n i past → ∃ row, w.authChallenges.lookup n = some row ∧ row.used = false)
  | .spent => i ∈ usersOf n past ∧ i ∉ sessionsOf ops n past

/-- What is left of the request `i`. -/
inductive RequestAt (ops : ι → AuthOp) (n : String) (past : List (Happening auth ι))
    (w : AuthWorld) (i : ι) (p : Prog auth Unit Unit) : Prop where
  | issues : (ops i).nonce = none → Phased n .issuing p → RequestAt ops n past w i p
  | answers {m phase} : (ops i).nonce = some m → Phased m phase p →
      (m = n → Stands ops n past w i phase) → RequestAt ops n past w i p

/-- **A challenge is used once**, and a session is inserted by its user only. -/
structure SingleUse (ops : ι → AuthOp) (n : String) (past : List (Happening auth ι))
    (pool : Pool auth ι AuthWorld) : Prop where
  used : usersOf n past ≠ [] →
    ∃ row, pool.store.authChallenges.lookup n = some row ∧ row.used = true
  once : (usersOf n past).length ≤ 1
  spent : ∀ i ∈ sessionsOf ops n past, i ∈ usersOf n past
  nodup : (sessionsOf ops n past).Nodup
  procs : ∀ i p, pool.procs i = some p → RequestAt ops n past pool.store i p

variable {crypto : AuthCrypto} {random : Nat → String} {pool : Pool auth ι AuthWorld}
  {w w' : AuthWorld}

/-- No session without a user, no two sessions of one user. -/
theorem SingleUse.sessions (h : SingleUse ops n past pool) :
    (sessionsOf ops n past).length ≤ 1 :=
  ((h.nodup.subperm h.spent).length_le).trans h.once

theorem requestAt_start (i : ι) : RequestAt ops n [] w i ((ops i).prog crypto) := by
  cases hop : ops i with
  | issue domain req => exact .issues (by rw [hop]; rfl) (issueChallenge_phased ..)
  | verify domain sessionTtl req =>
      exact .answers (by rw [hop]; rfl) (verify_phased ..) fun _ => List.not_mem_nil

theorem SingleUse.start (w : AuthWorld) :
    SingleUse ops n [] (Pool.start w fun i => (ops i).prog crypto) where
  used h := absurd rfl h
  once := Nat.zero_le _
  spent i hi := absurd hi List.not_mem_nil
  nodup := List.nodup_nil
  procs := by
    intro i p hp
    cases hp
    exact requestAt_start i

theorem RequestAt.mono {past past' : List (Happening auth ι)} {p : Prog auth Unit Unit}
    (h : RequestAt ops n past w i p)
    (hst : ∀ phase, Stands ops n past w i phase → Stands ops n past' w' i phase) :
    RequestAt ops n past' w' i p := by
  cases h with
  | issues hnone hphased => exact .issues hnone hphased
  | answers hm hphased hstands => exact .answers hm hphased fun hn => hst _ (hstands hn)

/-- What happens without an answer is not seen by a request. -/
theorem RequestAt.unanswered {p : Prog auth Unit Unit} (h : RequestAt ops n past w i p)
    {o : Happening auth ι} (ho : o.answered = none)
    (hw : w'.authChallenges = w.authChallenges) : RequestAt ops n (o :: past) w' i p := by
  refine h.mono fun phase h => ?_
  cases phase with
  | issuing => trivial
  | entered =>
      rw [Stands, usersOf_unanswered ho]
      exact h
  | holding =>
      rw [Stands, usersOf_unanswered ho, usedSince_unanswered ho, hw]
      exact h
  | spent =>
      rw [Stands, usersOf_unanswered ho, sessionsOf_unanswered ho]
      exact h

/-- A request ends at its first error. -/
theorem Phased.error {m : String} {phase : Phase} {q : AuthStmt}
    {k : auth.Answer q → Prog auth Unit Unit} (h : Phased m phase (.stmt q k)) (e : q.Err) :
    k (.error e) = finished := by
  cases h with
  | now | randomHex => exact e.elim
  | insertChallenge h => exact h _
  | select h => exact h e
  | use h => exact h e
  | insertSession h => exact h _

theorem requestAt_over (i : ι) : RequestAt ops n past w i finished := by
  cases hn : (ops i).nonce with
  | none => exact .issues hn .ended
  | some m => exact .answers hn (.ended : Phased m .issuing finished) fun _ => trivial

theorem RequestAt.error {q : AuthStmt} {k : auth.Answer q → Prog auth Unit Unit}
    (h : RequestAt ops n past w i (.stmt q k)) (e : q.Err) : k (.error e) = finished := by
  cases h with
  | issues _ hphased => exact hphased.error e
  | answers _ hphased _ => exact hphased.error e

/-- **The other requests**, after a statement of `i` was answered. -/
theorem RequestAt.other {q : AuthStmt} {a : q.Res} {p : Prog auth Unit Unit}
    (h : RequestAt ops n past w j p) (hne : j ≠ i) (hx : execAuth random q w = .ok (a, w')) :
    RequestAt ops n (.did i ⟨q, .ok a⟩ :: past) w' j p := by
  have huser : j ∈ usersOf n (.did i ⟨q, .ok a⟩ :: past) → j ∈ usersOf n past := fun hj =>
    (mem_usersOf_answered hj).resolve_left hne
  refine h.mono fun phase h => ?_
  cases phase with
  | issuing => trivial
  | entered => exact fun hj => h (huser hj)
  | holding =>
      refine ⟨fun hj => h.1 (huser hj), fun hsince => ?_⟩
      have hq : q ≠ .useChallenge n := by
        rintro rfl
        exact hsince (.inl rfl)
      obtain ⟨row, hrow, hused⟩ := h.2 fun hold => hsince (hold.answered hne)
      exact ⟨row, execAuth_row hx hq hrow, hused⟩
  | spent =>
      refine ⟨usersOf_subset_answered h.1, fun hj => h.2 ?_⟩
      exact (mem_sessionsOf_answered hj).resolve_left hne

/-- Everything but the requests is as it was, when `n` is not used and no session
is inserted on account of it. -/
theorem SingleUse.of_frame (h : SingleUse ops n past pool) {o : Happening auth ι}
    {pool' : Pool auth ι AuthWorld} (husers : usersOf n (o :: past) = usersOf n past)
    (hsessions : sessionsOf ops n (o :: past) = sessionsOf ops n past)
    (hrow : ∀ row, pool.store.authChallenges.lookup n = some row →
      pool'.store.authChallenges.lookup n = some row)
    (hprocs : ∀ i p, pool'.procs i = some p → RequestAt ops n (o :: past) pool'.store i p) :
    SingleUse ops n (o :: past) pool' where
  used hne := by
    rw [husers] at hne
    obtain ⟨row, hl, hused⟩ := h.used hne
    exact ⟨row, hrow row hl, hused⟩
  once := by
    rw [husers]
    exact h.once
  spent := by
    rw [husers, hsessions]
    exact h.spent
  nodup := by
    rw [hsessions]
    exact h.nodup
  procs := hprocs

/-- What happens without an answer changes no challenge and no session. -/
theorem SingleUse.unanswered (h : SingleUse ops n past pool) {o : Happening auth ι}
    (ho : o.answered = none) {pool' : Pool auth ι AuthWorld}
    (hstore : pool'.store.authChallenges = pool.store.authChallenges)
    (hprocs : ∀ j p, pool'.procs j = some p → pool.procs j = some p ∨ p = finished) :
    SingleUse ops n (o :: past) pool' := by
  refine h.of_frame (usersOf_unanswered ho) (sessionsOf_unanswered ho) ?_ ?_
  · intro row hrow
    rw [hstore, hrow]
  · intro j p hp
    rcases hprocs j p hp with hp | rfl
    · exact (h.procs j p hp).unanswered ho hstore
    · exact requestAt_over j

variable [DecidableEq ι]

/-- After a statement of `i`, only `i` has to be looked at. -/
theorem SingleUse.procs_answered (h : SingleUse ops n past pool) {q : AuthStmt} {a : q.Res}
    {k : auth.Answer q → Prog auth Unit Unit} (hx : execAuth random q pool.store = .ok (a, w))
    (hi : RequestAt ops n (.did i ⟨q, .ok a⟩ :: past) w i (k (.ok a))) :
    ∀ j p, (pool.set w i (some (k (.ok a)))).procs j = some p →
      RequestAt ops n (.did i ⟨q, .ok a⟩ :: past) w j p := by
  intro j p hj
  by_cases hji : j = i
  · subst hji
    rw [Pool.set_procs_self] at hj
    cases hj
    exact hi
  · rw [Pool.set_procs_ne _ _ _ hji] at hj
    exact (h.procs j p hj).other hji hx

/-- **A use of the challenge**: sound, it is the first one. -/
theorem SingleUse.use (h : SingleUse ops n past pool)
    {k : auth.Answer (.useChallenge n) → Prog auth Unit Unit}
    (hx : execAuth random (.useChallenge n) pool.store = .ok ((), w))
    (hsound : ¬ UsedSince n i past) (hn : (ops i).nonce = some n)
    (hstands : Stands ops n past pool.store i .holding) (hk : Phased n .spent (k (.ok ()))) :
    SingleUse ops n (.did i ⟨AuthStmt.useChallenge n, .ok ()⟩ :: past)
      (pool.set w i (some (k (.ok ())))) := by
  obtain ⟨hnew, hrow⟩ := hstands
  obtain ⟨row, hl, hunused⟩ := hrow hsound
  have hnone : usersOf n past = [] := by
    by_contra hne
    obtain ⟨row', hl', hused⟩ := h.used hne
    rw [hl] at hl'
    cases hl'
    rw [hunused] at hused
    cases hused
  have hsessions : sessionsOf ops n past = [] := by
    apply List.eq_nil_iff_forall_not_mem.mpr
    intro j hj
    have hj' := h.spent j hj
    rw [hnone] at hj'
    exact List.not_mem_nil hj'
  have hsessions' : sessionsOf ops n (.did i ⟨AuthStmt.useChallenge n, .ok ()⟩ :: past) = [] :=
    hsessions
  refine ⟨fun _ => ?_, ?_, ?_, ?_, h.procs_answered hx ?_⟩
  · refine ⟨{ row with used := true }, ?_, rfl⟩
    rw [execAuth] at hx
    split at hx
    · cases hx
    · rw [Table.update, hl] at hx
      cases hx
      exact Finmap.lookup_insert _
  · rw [usersOf_use, hnone]
    simp
  · rw [hsessions']
    simp
  · rw [hsessions']
    exact List.nodup_nil
  · refine .answers hn hk fun _ => ⟨?_, ?_⟩
    · rw [usersOf_use]
      exact List.mem_cons_self
    · rw [hsessions']
      exact List.not_mem_nil

/-- **An inserted session**: its request has used the challenge and inserted none
before. -/
theorem SingleUse.insertSession (h : SingleUse ops n past pool) {row : SessionRow}
    {k : auth.Answer (.insertSession row) → Prog auth Unit Unit}
    (hx : execAuth random (.insertSession row) pool.store = .ok ((), w))
    (hn : (ops i).nonce = some n) (hstands : Stands ops n past pool.store i .spent)
    (hk : k (.ok ()) = finished) :
    SingleUse ops n (.did i ⟨AuthStmt.insertSession row, .ok ()⟩ :: past)
      (pool.set w i (some (k (.ok ())))) := by
  obtain ⟨huser, hfirst⟩ := hstands
  refine ⟨fun hne => ?_, h.once, ?_, ?_, h.procs_answered hx ?_⟩
  · obtain ⟨r, hr, hused⟩ := h.used hne
    exact ⟨r, execAuth_row hx (by simp) hr, hused⟩
  · intro j hj
    rw [sessionsOf_insert hn] at hj
    rcases List.mem_cons.mp hj with rfl | hj
    · exact huser
    · exact h.spent j hj
  · rw [sessionsOf_insert hn]
    exact List.nodup_cons.mpr ⟨hfirst, h.nodup⟩
  · rw [hk]
    exact requestAt_over i

/-- **An answered statement** of a sound step. -/
theorem SingleUse.did (h : SingleUse ops n past pool) {q : AuthStmt} {a : q.Res}
    {k : auth.Answer q → Prog auth Unit Unit} (hp : pool.procs i = some (.stmt q k))
    (hx : execAuth random q pool.store = .ok (a, w))
    (hsound : SoundUse n past pool (.did i ⟨q, .ok a⟩)) :
    SingleUse ops n (.did i ⟨q, .ok a⟩ :: past) (pool.set w i (some (k (.ok a)))) := by
  cases h.procs i _ hp with
  | issues hnone hphased =>
      cases hphased with
      | now hphase hk | randomHex hphase hk =>
          refine h.of_frame rfl rfl (fun _ => execAuth_row hx (by simp)) (h.procs_answered hx ?_)
          exact .issues hnone (hk _)
      | insertChallenge hk =>
          refine h.of_frame rfl rfl (fun _ => execAuth_row hx (by simp)) (h.procs_answered hx ?_)
          rw [hk]
          exact requestAt_over i
  | @answers m phase hm hphased hstands =>
      cases hphased with
      | now hphase hk | randomHex hphase hk =>
          have hx' := hx
          cases hx'
          refine h.of_frame rfl rfl (fun _ h => h) (h.procs_answered hx ?_)
          refine .answers hm (hk _) fun hn => ?_
          have hstands := hstands hn
          cases phase with
          | entered => exact absurd rfl hphase
          | issuing | holding | spent => exact hstands
      | insertChallenge hk =>
          refine h.of_frame rfl rfl (fun _ => execAuth_row hx (by simp)) (h.procs_answered hx ?_)
          rw [hk]
          exact requestAt_over i
      | select herr hnone hused hunused =>
          refine h.of_frame rfl rfl (fun _ => execAuth_row hx (by simp)) (h.procs_answered hx ?_)
          cases a with
          | none =>
              rw [hnone]
              exact requestAt_over i
          | some row =>
              cases hrow : row.used with
              | true =>
                  rw [hused row hrow]
                  exact requestAt_over i
              | false =>
                  refine .answers hm (hunused row hrow) fun hn => ⟨hstands hn, fun _ => ?_⟩
                  subst hn
                  refine ⟨row, ?_, hrow⟩
                  rw [execAuth] at hx
                  split at hx
                  · cases hx
                  · simp only [Except.ok.injEq, Prod.mk.injEq] at hx
                    rw [← hx.2]
                    exact (Option.filter_eq_some_iff.mp hx.1).1
      | use herr hk =>
          by_cases hn : m = n
          · subst hn
            exact h.use hx (hsound rfl) hm (hstands rfl) hk
          · have hq : AuthStmt.useChallenge m ≠ .useChallenge n := by simpa using hn
            refine h.of_frame (usersOf_answered hq) rfl (fun _ => execAuth_row hx hq)
              (h.procs_answered hx ?_)
            exact .answers hm hk fun h => absurd h hn
      | insertSession hk =>
          by_cases hn : m = n
          · subst hn
            exact h.insertSession hx hm (hstands rfl) (hk _)
          · have hne : (ops i).nonce ≠ some n := by
              rw [hm]
              simpa using hn
            refine h.of_frame rfl (sessionsOf_insert_ne hne)
              (fun _ => execAuth_row hx (by simp)) (h.procs_answered hx ?_)
            rw [hk]
            exact requestAt_over i

/-- **One sound step.** -/
theorem SingleUse.step {F : Failures auth AuthWorld} (h : SingleUse ops n past pool)
    {o : Happening auth ι} {pool' : Pool auth ι AuthWorld} (hsound : SoundUse n past pool o)
    (hstep : Pool.Step (execAuth random) F AuthWorld.Passes pool o pool') :
    SingleUse ops n (o :: past) pool' := by
  cases hstep with
  | ok hp hx => exact h.did hp hx hsound
  | @fail i q k e hp _ =>
      have hover := (h.procs i _ hp).error e
      refine h.unanswered rfl rfl fun j p hj => ?_
      by_cases hji : j = i
      · subst hji
        rw [Pool.set_procs_self, hover] at hj
        exact .inr (Option.some.inj hj).symm
      · rw [Pool.set_procs_ne _ _ _ hji] at hj
        exact .inl hj
  | @crash i =>
      refine h.unanswered rfl rfl fun j p hj => ?_
      by_cases hji : j = i
      · subst hji
        rw [Pool.set_procs_self] at hj
        cases hj
      · rw [Pool.set_procs_ne _ _ _ hji] at hj
        exact .inl hj
  | outside hw => exact h.unanswered rfl hw.1 fun _ _ hj => .inl hj

/-- **A challenge gives one session** in a run in which no request uses it after
another one did since the request selected it. -/
theorem single_use {F : Failures auth AuthWorld} {clock : Int}
    (hrun : Pool.Run (execAuth random) F AuthWorld.Passes (SoundUse n)
      (Pool.start (.empty clock) fun i => (ops i).prog crypto) past pool) :
    (sessionsOf ops n past).length ≤ 1 := by
  have hinv := hrun.invariant (P := SingleUse ops n) (SingleUse.start _)
    fun past pool o pool' h hsound hstep => h.step hsound hstep
  exact hinv.sessions

end

/-! A challenge issued, and two requests that answer it with one signature. -/

def walletAddress : String := "GCATS5YOVB6ROX2WUNKGNQ2MP3GMXDMKSG2O4N5CLX3A6W4PZGZZI55U"

def walletKey : Hex := "8139770ea87d175f56a35466c34c7ecccb8d8a91b4ee37a25df60f5b8fc9b394"

/-- Draws that never repeat. -/
def sampleRandom (n : Nat) : String := String.ofList (List.replicate 52 '0' ++ padded12 n)

def walletRequest : VerifyRequest where
  address := walletAddress
  domain := "app.verdant.example"
  nonce := sampleRandom 0
  timestamp := "2026-01-01T00:00:00+00:00"
  signature :=
    "6JFfUxIxqahpUK1bneWQ8i2X8V1WZ2SWkSkXeoNPHxueX05VqkDmvKYT8WchXuVVGXX3ct2wIJDg6PRg7aQsCg=="

def walletSignature : Hex :=
  "e8915f531231a9a86950ad5b9de590f22d97f15d566764969129177a834f1f1b" ++
    "9e5f4e55aa40e6bca613f167215ee5551975f772ddb02090e0e8f460eda42c0a"

/-- The packages on the values of these requests: the wallet's key signed the
message of `walletRequest`. -/
def walletCrypto : AuthCrypto where
  publicKey address :=
    if address = walletAddress then .ok walletKey else .error "the strkey is invalid"
  decodeBase64 text :=
    if text = walletRequest.signature then .ok walletSignature else .error "Invalid padding"
  signature raw := .ok raw
  verifyingKey key := .ok key
  verify key message signature :=
    if key = walletKey ∧ signature = walletSignature ∧ message = sep40Message walletRequest.domain
      walletAddress (sampleRandom 0) walletRequest.timestamp then .ok ()
    else .error "signature error: Verification equation was not satisfied"
  sha256 token :=
    if token = sampleRandom 1 then
      "c386d8e8d07342f2e39e189c8e6c57bb205bb373fe4e3a6f69404a8bb767b417"
    else "68e4d75d23e31bd23f43266f769567b2588d9f3d3010fa7cacae7efd6f5ce0ad"
  rfc3339 _ := walletRequest.timestamp
  -- the milliseconds have to fit an `i64`
  fromStd micros :=
    if micros ≤ (2 ^ 63 - 1) * 1000 then .ok micros
    else .error "Source duration value is out of range for the target type"
  -- the last microsecond is in the year 262142
  checkedAdd t d :=
    if t.micros + d ≤ 8210266876799999999 then some ⟨t.micros + d, t.nanos⟩ else none
  -- visible ASCII
  toStr value :=
    if value.all fun b => (32 ≤ b && b < 127) || b = 9 then
      some (String.ofList (value.map fun b => Char.ofNat b.toNat))
    else none
  fromStd_ok h := by
    split at h
    · cases h
      rfl
    · cases h
  checkedAdd_some h := by
    split at h
    · cases h
      rfl
    · cases h

def walletOps : Fin 3 → AuthOp
  | 0 => .issue "app.verdant.example" ⟨walletAddress⟩
  | _ => .verify "app.verdant.example" 604800000000 walletRequest

def walletPool : Pool auth (Fin 3) AuthWorld :=
  .start (.empty 1767225600000000) fun i => (walletOps i).prog walletCrypto

def walletRow (used : Bool) : ChallengeRow where
  domain := "app.verdant.example"
  address := walletAddress
  expiresAt := 1767225900000000
  used := used

def walletSession : SessionRow where
  tokenHash := walletCrypto.sha256 (sampleRandom 1)
  address := walletAddress
  roles := ["farmer"]
  expiresAt := 1767830400000000

set_option maxRecDepth 20000 in
/-- The second request comes when the first one is done. -/
theorem single_use_one_by_one :
    ∃ past pool, Pool.Run (execAuth sampleRandom) (ownFailures (execAuth sampleRandom))
        AuthWorld.Passes (SoundUse (sampleRandom 0)) walletPool past pool ∧
      past.length = 10 ∧ (sessionsOf walletOps (sampleRandom 0) past).length ≤ 1 := by
  have h₀ : Pool.Run (execAuth sampleRandom) (ownFailures (execAuth sampleRandom))
      AuthWorld.Passes (SoundUse (sampleRandom 0)) walletPool [] walletPool := .start
  have h₁ := h₀.step (h := .did 0 ⟨AuthStmt.randomHex, .ok (sampleRandom 0)⟩)
    (by simp [SoundUse]) (.ok rfl rfl)
  have h₂ := h₁.step (h := .did 0 ⟨AuthStmt.now, .ok (Instant.ofMicros 1767225600000000)⟩)
    (by simp [SoundUse]) (.ok rfl rfl)
  have h₃ := h₂.step (h := .did 0 ⟨AuthStmt.insertChallenge (sampleRandom 0)
    "app.verdant.example" walletAddress 1767225900000000, .ok ()⟩)
    (by simp [SoundUse]) (.ok rfl rfl)
  have h₄ := h₃.step (h := .did 1 ⟨AuthStmt.selectChallenge (sampleRandom 0) walletAddress
    "app.verdant.example", .ok (some (walletRow false))⟩) (by simp [SoundUse]) (.ok rfl rfl)
  have h₅ := h₄.step (h := .did 1 ⟨AuthStmt.now, .ok (Instant.ofMicros 1767225600000000)⟩)
    (by simp [SoundUse]) (.ok rfl rfl)
  have h₆ := h₅.step (h := .did 1 ⟨AuthStmt.useChallenge (sampleRandom 0), .ok ()⟩)
    (by simp [SoundUse, UsedSince, Happening.answered]) (.ok rfl rfl)
  have h₇ := h₆.step (h := .did 1 ⟨AuthStmt.randomHex, .ok (sampleRandom 1)⟩)
    (by simp [SoundUse]) (.ok rfl rfl)
  have h₈ := h₇.step (h := .did 1 ⟨AuthStmt.now, .ok (Instant.ofMicros 1767225600000000)⟩)
    (by simp [SoundUse]) (.ok rfl rfl)
  have h₉ := h₈.step (h := .did 1 ⟨AuthStmt.insertSession walletSession, .ok ()⟩)
    (by simp [SoundUse]) (.ok rfl rfl)
  have h₁₀ := h₉.step (h := .did 2 ⟨AuthStmt.selectChallenge (sampleRandom 0) walletAddress
    "app.verdant.example", .ok (some (walletRow true))⟩) (by simp [SoundUse]) (.ok rfl rfl)
  exact ⟨_, _, h₁₀, rfl, single_use h₁₀⟩

/-- Both requests select the challenge before one uses it. -/
def bothSelect : List (Fin 3) := [0, 0, 0, 1, 2, 1, 1, 1, 1, 1, 2, 2, 2, 2, 2]

theorem sampleRandom_injective : Function.Injective sampleRandom := by
  intro m n h
  exact padded12_injective (List.append_cancel_left (String.ofList_injective h))

theorem single_use_fails :
    Function.Injective sampleRandom ∧ ∃ past pool,
      Pool.Run (execAuth sampleRandom) (ownFailures (execAuth sampleRandom)) AuthWorld.Passes
        (fun _ _ _ => True) walletPool past pool ∧
      (sessionsOf walletOps (sampleRandom 0) past).length = 2 := by
  have hstart : Pool.Run (execAuth sampleRandom) (ownFailures (execAuth sampleRandom))
      AuthWorld.Passes (fun _ _ _ => True) walletPool [] walletPool := .start
  have hrun := hstart.schedule (fun _ _ _ h => h) bothSelect
  refine ⟨sampleRandom_injective, _, _, hrun, ?_⟩
  decide +kernel

end VerdantBackend
