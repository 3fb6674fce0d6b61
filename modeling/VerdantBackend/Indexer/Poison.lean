import VerdantBackend.Indexer.Reach

/-!
# Poison events

The projection loop leaves at the first event that is refused, and every pass starts
again from the oldest event. So one refused event keeps the pass from every event behind
it, whichever entity they are about.
-/

namespace VerdantBackend

open Prog

variable {uuid : String → Option String} {ρ : Type} {calls : List IngestCall}
  {call : IngestCall} {db : Db}

/-- The effect of `e` is present after the call: the row is what the history makes of it,
up to `e` or further. -/
def IngestCall.EffectPresent (call : IngestCall) (P : Projection uuid ρ) (id : String)
    (e : ChainEvent) : Prop :=
  ∃ upTo later, call.history = upTo ++ later ∧ e ∈ upTo ∧
    (P.table call.after).lookup id =
      RowChange.replay P.change id upTo ((P.table call.before).lookup id)

/-- The first refused event of the history, if there is one, stands behind `e`, or the
events from there up to `e` or further leave the row as it is. -/
def IngestCall.Unpoisoned (call : IngestCall) (P : Projection uuid ρ) (id : String)
    (e : ChainEvent) : Prop :=
  ∀ done x rest, RefusedFirst uuid call.before call.history done x rest →
    e ∈ done ∨ ∃ upTo later, x :: rest = upTo ++ later ∧ e ∈ upTo ∧
      let row := RowChange.replay P.change id done ((P.table call.before).lookup id)
      RowChange.replay P.change id upTo row = row

/-- **When an effect is present**, for every event of the history of a call that comes to
its pass. -/
theorem effect_present_iff {F : EventSource → Failures indexer Db}
    (hrun : IngestRun uuid F calls db) (hcall : call ∈ calls) (hund : call.Undisturbed uuid)
    (hpass : call.ComesToPass) (P : Projection uuid ρ) (id : String) {e : ChainEvent}
    (he : e ∈ call.history) :
    call.EffectPresent P id e ↔ call.Unpoisoned P id e := by
  have hrow := (ingest_effect hund).lookup P id
  have hreach := hund.pass (hrun.farmerIds.2 call hcall) hpass
  rcases hreach with ⟨_, happlied, hnone⟩ | ⟨done, x, rest, href, _, happlied⟩
  · rw [happlied] at hrow
    constructor
    · intro _ done x rest href
      exact absurd href (hnone done x rest)
    · intro _
      exact ⟨call.history, [], (List.append_nil _).symm, he, hrow⟩
  · rw [happlied] at hrow
    constructor
    · intro h done' x' rest' href'
      obtain ⟨rfl, rfl, rfl⟩ := href'.unique href
      obtain ⟨upTo, later, hsplit, hin, hpresent⟩ := h
      rw [hrow] at hpresent
      -- the replay ends before the refused event, or it runs over it
      rcases List.append_eq_append_iff.mp (href.split.symm.trans hsplit) with
        ⟨behind, hupTo, hbehind⟩ | ⟨t, hdone, _⟩
      · rw [hupTo] at hin hpresent
        rcases List.mem_append.mp hin with hin | hin
        · exact .inl hin
        · rw [RowChange.replay_append] at hpresent
          exact .inr ⟨behind, later, hbehind, hin, hpresent.symm⟩
      · rw [hdone]
        exact .inl (List.mem_append_left t hin)
    · intro h
      rcases h done x rest href with hin | ⟨upTo, later, hsplit, hin, hsame⟩
      · exact ⟨done, x :: rest, href.split, hin, hrow⟩
      · refine ⟨done ++ upTo, later, ?_, List.mem_append_right done hin, ?_⟩
        · rw [href.split, hsplit, List.append_assoc]
        · rw [RowChange.replay_append, hsame, hrow]

theorem sampleCreated_sound (db : Db) (earlier : List ChainEvent) :
    Sound noUuid db earlier sampleCreated := by
  refine ⟨_, rfl, ?_⟩
  intro c hc
  cases hc
  trivial

/-- A created verification whose payload ends before its mandatory fields. -/
def truncatedCreated (ledger : Int) : ChainEvent :=
  sampleEvent "CV" "verification" "VerificationCreated" ledger [.int 6, .str "b1"]

/-- A call that finds the truncated event behind the sound one, which is stored. -/
def poisonedBehind : IngestCall :=
  .ofRun noUuid (IngestCall.ofRun noUuid Db.empty "CV" (sampleSource 120)).after "CV"
    (.ofList [sampleCreated, truncatedCreated 110] 130 (by decide) (by decide))

theorem effect_present_before_poison :
    poisonedBehind.EffectPresent (verifications noUuid) "va:verification:000000000007"
      sampleCreated := by
  have hfirst := IngestRun.ofRun (F := noOutage noUuid) (fun _ _ _ _ h => h) .start "CV"
    (sampleSource 120)
  have hrun := IngestRun.ofRun (fun _ _ _ _ h => h) hfirst "CV" poisonedBehind.source
  have hhistory : poisonedBehind.history = [sampleCreated, truncatedCreated 110] := rfl
  have hpulled : poisonedBehind.source.eventsAfter "CV" (cursorOf poisonedBehind.before "CV") =
      [truncatedCreated 110] := rfl
  have hcomes : poisonedBehind.ComesToPass := by
    refine ⟨List.cons_ne_nil (truncatedCreated 110) [], fun x hx => ?_⟩
    obtain rfl : x = truncatedCreated 110 := List.mem_singleton.mp (hpulled ▸ hx)
    rfl
  have hin : sampleCreated ∈ poisonedBehind.history := by
    rw [hhistory]
    exact List.mem_cons_self
  refine (effect_present_iff hrun List.mem_concat_self (undisturbed_ofRun _ _ _) hcomes
    (verifications noUuid) "va:verification:000000000007" hin).mpr ?_
  intro done x rest href
  cases done with
  | nil =>
      obtain ⟨rfl, _⟩ := List.cons.inj (hhistory.symm.trans href.split)
      exact absurd (sampleCreated_sound _ _) href.refused
  | cons y done =>
      obtain ⟨rfl, _⟩ := List.cons.inj (hhistory.symm.trans href.split)
      exact .inl List.mem_cons_self

/-- The entity an event is about, as far as its payload names one. -/
def entityOf (e : ChainEvent) : Option String :=
  match e.contractName with
  | "verification" => (getU64 e.data 0).map (counterId VERIFICATION_PREFIX)
  | "escrow" => (getU64 e.data 0).map (counterId ESCROW_PREFIX)
  | "financing" => (getU64 e.data 0).map (counterId FINANCING_PREFIX)
  | _ => identityTopics e

/-- After every call that comes to its pass, the effect of each event of the history is
present that decodes and whose entity no refused event touches. -/
def NoPoison (uuid : String → Option String) (calls : List IngestCall) : Prop :=
  ∀ call ∈ calls, call.ComesToPass → ∀ e ∈ call.history, (∃ o, decodeEvent e = .ok o) →
    (∀ done x rest, call.history = done ++ x :: rest → ¬ Sound uuid call.before done x →
      entityOf x ≠ entityOf e) →
    ∀ {ρ : Type} (P : Projection uuid ρ) id, RowChange.Names P.change id e →
      call.EffectPresent P id e

/-- A call over the truncated event and a sound one of another entity. -/
def poisonedCall : IngestCall :=
  .ofRun noUuid Db.empty "CV"
    (.ofList [truncatedCreated 90, sampleCreated] 120 (by decide) (by decide))

theorem no_poison_fails :
    IngestRun noUuid (noOutage noUuid) ([] ++ [poisonedCall]) poisonedCall.after ∧
      poisonedCall.after.verificationProjection.lookup "va:verification:000000000007" = none ∧
      ¬ NoPoison noUuid ([] ++ [poisonedCall]) := by
  have hhistory : poisonedCall.history = [truncatedCreated 90, sampleCreated] := rfl
  have hcomes : poisonedCall.ComesToPass := by
    refine ⟨List.cons_ne_nil (truncatedCreated 90) [sampleCreated], fun x hx => ?_⟩
    have hx' : x ∈ [truncatedCreated 90, sampleCreated] := hx
    rcases List.mem_pair.mp hx' with rfl | rfl <;> rfl
  have hlost : poisonedCall.after.verificationProjection.lookup
      "va:verification:000000000007" = none := by decide
  refine ⟨IngestRun.ofRun (fun _ _ _ _ h => h) .start "CV" _, hlost, fun h => ?_⟩
  have huntouched : ∀ done x rest, poisonedCall.history = done ++ x :: rest →
      ¬ Sound noUuid poisonedCall.before done x → entityOf x ≠ entityOf sampleCreated := by
    intro done x rest hsplit hbad
    have hx : x ∈ poisonedCall.history := by
      rw [hsplit]
      exact List.mem_append_right _ List.mem_cons_self
    rw [hhistory] at hx
    rcases List.mem_pair.mp hx with rfl | rfl
    · decide
    · exact absurd (sampleCreated_sound _ _) hbad
  have hin : sampleCreated ∈ poisonedCall.history := by
    rw [hhistory]
    exact List.mem_cons_of_mem _ (List.mem_singleton_self _)
  obtain ⟨upTo, later, hsplit, hin, hrow⟩ := h poisonedCall List.mem_concat_self hcomes
    sampleCreated hin ⟨_, rfl⟩ huntouched (verifications noUuid)
    "va:verification:000000000007" ⟨_, rfl, rfl⟩
  -- a history that holds the created event makes a row
  rcases upTo with _ | ⟨x, _ | ⟨y, upTo⟩⟩
  · cases hin
  · obtain ⟨rfl, _⟩ := List.cons.inj (hhistory.symm.trans hsplit)
    cases congrArg ChainEvent.ledgerSequence (List.mem_singleton.mp hin)
  · obtain ⟨rfl, hrest⟩ := List.cons.inj (hhistory.symm.trans hsplit)
    obtain ⟨rfl, hend⟩ := List.cons.inj hrest
    obtain ⟨rfl, _⟩ := List.append_eq_nil_iff.mp hend.symm
    cases hlost.symm.trans hrow

end VerdantBackend
