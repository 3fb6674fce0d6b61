import VerdantBackend.Indexer.Reach

/-!
# The early return

A call that pulls nothing returns before its projection pass, so an event that became
final in the meantime waits for later traffic. Which stored events a run has passed to
`apply_event` by then is settled by the calls that found something.
-/

namespace VerdantBackend

open Prog

variable {uuid : String → Option String} {F : EventSource → Failures indexer Db}
  {calls : List IngestCall} {call : IngestCall} {db : Db} {c : String}

/-- Every `Ok` call leaves every stored final event of its contract passed, by
itself or by an earlier call. -/
def FinalityComplete (c : String) (calls : List IngestCall) : Prop :=
  ∀ earlier call later, calls = earlier ++ call :: later → call.contractId = c →
    (∃ n, call.result = .ok n) →
    ∀ e ∈ call.after.indexedEvents.ofContract c, e.ledgerSequence ≤ call.source.floor →
      ∃ past ∈ earlier ++ [call], e ∈ passedIn past.trace

/-- The call comes to its pass over a log that holds the event, with a head so far on that
the event is final, and none of the final events before it is refused. -/
structure IngestCall.Covers (uuid : String → Option String) (call : IngestCall)
    (e : ChainEvent) : Prop where
  comes : call.ComesToPass
  logged : e ∈ call.source.logOf call.contractId
  final : e.ledgerSequence ≤ call.source.head - TRUSTED_CUTOFF
  unrefused : ∀ done x rest, RefusedFirst uuid call.before call.finalEvents done x rest →
    e.position ≤ x.position

/-- Whenever a call finds nothing new, some earlier call that nothing disturbed has covered
the stored events that are final by then. -/
def EarlyReturnsCovered (uuid : String → Option String) (c : String) (calls : List IngestCall) :
    Prop :=
  ∀ earlier call later, calls = earlier ++ call :: later → call.contractId = c →
    ¬ call.Pulls → ∀ e ∈ call.before.indexedEvents.ofContract c,
      e.ledgerSequence ≤ call.source.head - TRUSTED_CUTOFF →
      ∃ past ∈ earlier, past.contractId = c ∧ past.Undisturbed uuid ∧ past.Covers uuid e

/-- **What a call passes**: the final events up to the first that is refused, that one
included. -/
theorem IngestCall.Undisturbed.passed_iff (h : call.Undisturbed uuid)
    (hids : FarmerIds call.before.farmers)
    (hcoh : Coherent call.contractId (call.source.logOf call.contractId) call.before)
    (e : ChainEvent) : e ∈ passedIn call.trace ↔ call.Covers uuid e := by
  have hmem : e ∈ call.finalEvents ↔ e ∈ call.source.logOf call.contractId ∧
      e.ledgerSequence ≤ call.source.head - TRUSTED_CUTOFF := by
    rw [IngestCall.finalEvents, finalPart, List.mem_filter, decide_eq_true_eq]
    rfl
  have hord : Log.Ordered ChainEvent.position call.finalEvents :=
    (call.source.logOf_ordered call.contractId).filter _
  have hpassed := h.pass hids
  rw [hcoh.history_eq] at hpassed
  constructor
  · intro he
    have hpass : call.ComesToPass := by
      by_contra hnot
      rw [h.no_pass hnot] at he
      cases he
    rcases hpassed hpass with ⟨hall, _, hnone⟩ | ⟨done, x, rest, href, hupTo, _⟩
    · rw [hall] at he
      obtain ⟨hlogged, hfinal⟩ := hmem.mp he
      exact ⟨hpass, hlogged, hfinal, fun done x rest href => absurd href (hnone done x rest)⟩
    · rw [hupTo, href.mem_iff hord] at he
      obtain ⟨hin, hle⟩ := he
      obtain ⟨hlogged, hfinal⟩ := hmem.mp hin
      refine ⟨hpass, hlogged, hfinal, fun done' x' rest' href' => ?_⟩
      obtain ⟨_, rfl, _⟩ := href'.unique href
      exact hle
  · intro hcovers
    have hin := hmem.mpr ⟨hcovers.logged, hcovers.final⟩
    rcases hpassed hcovers.comes with ⟨hall, _, _⟩ | ⟨done, x, rest, href, hupTo, _⟩
    · rwa [hall]
    · rw [hupTo, href.mem_iff hord]
      exact ⟨hin, hcovers.unrefused done x rest href⟩

/-- A call that nothing disturbs and that finds nothing new is `Ok` and changes nothing. -/
theorem IngestCall.Undisturbed.idle (h : call.Undisturbed uuid) (hidle : ¬ call.Pulls) :
    call.result = .ok 0 ∧ call.after = call.before ∧ passedIn call.trace = [] := by
  have hrun := (ingest_run uuid call.source call.contractId call.before).1 (not_not.mp hidle)
  rw [h.run_eq.1] at hrun
  obtain ⟨hresult, hafter⟩ := Prod.mk.inj hrun
  exact ⟨hresult, hafter, h.no_pass fun hpass => hidle hpass.pulls⟩

/-- **Finality completeness holds** in the runs where the early returns are covered,
whatever fails in them, and of those that nothing disturbs in no others. -/
theorem finality_complete_iff (hrun : IngestRun uuid F calls db) (happ : AppendOnly c calls) :
    (EarlyReturnsCovered uuid c calls → FinalityComplete c calls) ∧
    ((∀ call ∈ calls, call.Undisturbed uuid) →
      FinalityComplete c calls → EarlyReturnsCovered uuid c calls) := by
  have hcovered : ∀ past ∈ calls, past.contractId = c → past.Undisturbed uuid →
      ∀ e, e ∈ passedIn past.trace ↔ past.Covers uuid e := by
    intro past hpast hc hund e
    have hcoh := hrun.coherent_before happ hpast hc
    exact hund.passed_iff (hrun.farmerIds.2 past hpast) (hc ▸ hcoh) e
  have hpart : ∀ {earlier call later}, calls = earlier ++ call :: later →
      earlier ++ [call] ⊆ calls := by
    intro earlier call later heq
    have hpre : earlier ++ [call] <+: calls := ⟨later, by simp [heq]⟩
    exact hpre.subset
  constructor
  · intro h earlier call later heq hc hok e he hle
    have hmem := hpart heq
    obtain ⟨n, hn⟩ := hok
    have heff := hrun.call_effect (hmem (by simp : call ∈ earlier ++ [call]))
    rw [hn] at heff
    rcases heff.of_ok with ⟨hnil, _, hsame, _⟩ | ⟨_, _, hpassed, _⟩
    · rw [hsame] at he
      obtain ⟨past, hin, hpc, hund, hcovers⟩ :=
        h earlier call later heq hc (not_not.mpr hnil) e he hle
      have hin' := List.mem_append_left [call] hin
      exact ⟨past, hin', (hcovered past (hmem hin') hpc hund e).mpr hcovers⟩
    · refine ⟨call, by simp, ?_⟩
      rw [hpassed, hc]
      exact EventStore.mem_finalized.mpr ⟨he, hle⟩
  · intro hund h earlier call later heq hc hidle e he hle
    have hmem := hpart heq
    have hcall : call ∈ earlier ++ [call] := by simp
    obtain ⟨hresult, hafter, hnone⟩ := (hund call (hmem hcall)).idle hidle
    obtain ⟨past, hp, hpassed⟩ := h earlier call later heq hc ⟨0, hresult⟩ e (hafter ▸ he) hle
    rcases List.mem_append.mp hp with hin | hlast
    · have hpund := hund past (hmem hp)
      have hown := (hrun.call_effect (hmem hp)).passed_final hpassed
      have hpc : past.contractId = c :=
        (EventStore.mem_ofContract.mp hown.1).2.symm.trans (EventStore.mem_ofContract.mp he).2
      exact ⟨past, hin, hpc, hpund, (hcovered past (hmem hp) hpc hpund e).mp hpassed⟩
    · rw [List.mem_singleton.mp hlast, hnone] at hpassed
      cases hpassed

/-- An event nine ledgers later, which brings the created one to a pass. -/
def sampleRevived : ChainEvent :=
  sampleEvent "CV" "verification" "VerificationCreated" 109
    [.int 8, .str "b2", .str "GS", .str "0f2e", .str "GI", .int 109]

def revivedSource (head : Int) : EventSource :=
  .ofList [sampleCreated, sampleRevived] head (by decide) (by decide)

/-- The call at head 120, after one at head 105 that stored the created event. -/
def revivingCall : IngestCall :=
  .ofRun noUuid (IngestCall.ofRun noUuid Db.empty "CV" (sampleSource 105)).after "CV"
    (revivedSource 120)

theorem revived_sound (db : Db) (earlier : List ChainEvent) {x : ChainEvent}
    (hx : x ∈ [sampleCreated, sampleRevived]) : Sound noUuid db earlier x := by
  rcases List.mem_pair.mp hx with rfl | rfl <;>
    exact ⟨_, rfl, fun _ hc => by cases hc; trivial⟩

theorem revivingCall_covers {e : ChainEvent} (he : e ∈ [sampleCreated, sampleRevived]) :
    revivingCall.Covers noUuid e := by
  have hpulled : revivingCall.source.eventsAfter revivingCall.contractId
      (cursorOf revivingCall.before revivingCall.contractId) = [sampleRevived] := rfl
  have hfinal : e.ledgerSequence ≤ 110 := by
    rcases List.mem_pair.mp he with rfl | rfl <;> decide
  refine ⟨⟨?_, ?_⟩, he, hfinal, fun done x rest href => ?_⟩
  · rw [IngestCall.Pulls, hpulled]
    exact List.cons_ne_nil _ _
  · rw [hpulled]
    intro x hx
    rw [List.mem_singleton.mp hx]
    rfl
  · have hx : x ∈ revivingCall.finalEvents := by
      rw [href.split]
      exact List.mem_append_right _ List.mem_cons_self
    have hx' : x ∈ [sampleCreated, sampleRevived] := (List.mem_filter.mp hx).1
    exact absurd (revived_sound _ _ hx') href.refused

/-- Three calls, at heads 105, 120 and 125. The second finds an event of its own and takes
both to its pass, so that the third may find nothing. -/
theorem finality_complete_revived :
    FinalityComplete "CV" ([] ++ [.ofRun noUuid Db.empty "CV" (sampleSource 105)] ++
      [revivingCall] ++ [.ofRun noUuid revivingCall.after "CV" (revivedSource 125)]) := by
  have hfirst := IngestRun.ofRun (F := noOutage noUuid) (fun _ _ _ _ h => h) .start "CV"
    (sampleSource 105)
  have hsecond := IngestRun.ofRun (fun _ _ _ _ h => h) hfirst "CV" (revivedSource 120)
  have hrun := IngestRun.ofRun (fun _ _ _ _ h => h) hsecond "CV" (revivedSource 125)
  have happ : AppendOnly "CV" ([] ++ [.ofRun noUuid Db.empty "CV" (sampleSource 105)] ++
      [revivingCall] ++ [.ofRun noUuid revivingCall.after "CV" (revivedSource 125)]) := by
    simp only [AppendOnly, List.nil_append, List.cons_append, List.pairwise_cons,
      List.mem_cons, List.not_mem_nil, or_false, forall_eq_or_imp, forall_eq, false_implies,
      implies_true, List.Pairwise.nil, and_true]
    exact ⟨⟨fun _ _ => ⟨[sampleRevived], rfl⟩, fun _ _ => ⟨[sampleRevived], rfl⟩⟩,
      fun _ _ => List.prefix_rfl⟩
  refine (finality_complete_iff hrun happ).1 ?_
  intro earlier call later heq _ hidle e he hle
  rcases earlier with _ | ⟨first, _ | ⟨second, _ | ⟨third, earlier⟩⟩⟩
  · obtain ⟨rfl, _⟩ := List.cons.inj heq
    exact absurd (List.cons_ne_nil sampleCreated []) hidle
  · obtain ⟨_, hrest⟩ := List.cons.inj heq
    obtain ⟨rfl, _⟩ := List.cons.inj hrest
    exact absurd (List.cons_ne_nil sampleRevived []) hidle
  · obtain ⟨_, hrest⟩ := List.cons.inj heq
    obtain ⟨hsecond', hrest'⟩ := List.cons.inj hrest
    obtain ⟨hthird, _⟩ := List.cons.inj hrest'
    have hin : revivingCall ∈ [first, second] := by
      rw [← show revivingCall = second from hsecond']
      exact List.mem_cons_of_mem _ List.mem_cons_self
    have hstored : e ∈ [sampleCreated, sampleRevived] := by
      rw [← hthird] at he
      exact he
    exact ⟨revivingCall, hin, rfl, undisturbed_ofRun _ _ _, revivingCall_covers hstored⟩
  · simp at heq

/-- Two calls over one log, at heads 105 and 120. The second pulls nothing and
returns early, though the event has crossed the floor. -/
def earlyReturnCalls : List IngestCall :=
  let first := IngestCall.ofRun noUuid Db.empty "CV" (sampleSource 105)
  [first, .ofRun noUuid first.after "CV" (sampleSource 120)]

theorem finality_complete_fails :
    ∃ db, IngestRun noUuid (fun _ => anyFailure) earlyReturnCalls db ∧
      AppendOnly "CV" earlyReturnCalls ∧ HeadsGrow "CV" earlyReturnCalls ∧
      db.verificationProjection.lookup "va:verification:000000000007" = none ∧
      ¬ FinalityComplete "CV" earlyReturnCalls := by
  have hfirst := IngestRun.ofRun (F := fun _ => anyFailure)
    (fun _ _ _ _ _ => trivial) (.start : IngestRun noUuid _ _ _) "CV" (sampleSource 105)
  have hrun := IngestRun.ofRun (fun _ _ _ _ _ => trivial) hfirst "CV" (sampleSource 120)
  refine ⟨_, hrun, ?_, ?_, by decide, ?_⟩
  · simp only [AppendOnly, earlyReturnCalls, List.pairwise_cons, List.mem_singleton,
      forall_eq, List.not_mem_nil, false_implies, implies_true, List.Pairwise.nil, and_true]
    exact fun _ _ => List.prefix_rfl
  · simp only [HeadsGrow, earlyReturnCalls, List.pairwise_cons, List.mem_singleton,
      forall_eq, List.not_mem_nil, false_implies, implies_true, List.Pairwise.nil, and_true]
    exact fun _ _ => by decide
  · intro h
    obtain ⟨past, hp, hpass⟩ := h [_] _ [] rfl rfl ⟨0, by decide⟩ sampleCreated
      (List.mem_singleton_self _) (by decide)
    have hnone : ∀ past ∈ earlyReturnCalls, passedIn past.trace = [] := by
      intro past hp
      rcases List.mem_cons.mp hp with rfl | hp
      · rfl
      · rw [List.mem_singleton.mp hp]
        rfl
    rw [hnone past hp] at hpass
    cases hpass

end VerdantBackend
