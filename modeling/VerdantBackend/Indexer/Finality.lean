import VerdantBackend.Indexer.Run

/-!
# Finality

What the pass of a call hands to `apply_event`: the finalized events in order, until one
fails. A call without a pass hands over nothing.
-/

namespace VerdantBackend

open Prog

variable {uuid : String → Option String} {c : String}

/-- What a begun pass works through, and how far it comes. -/
theorem IngestEffect.pass {source : EventSource} {G : Failures indexer Db} {db db' : Db}
    {tr : List indexer.Obs} {r : Except ChainEventsError Nat}
    (h : IngestEffect uuid source G c db tr r db') {f : Int} (hf : floorIn tr = some f) :
    f = source.floor ∧
      ((passedIn tr = db'.indexedEvents.finalized c f ∧
          appliedIn tr = db'.indexedEvents.finalized c f) ∨
        ∃ l₁ e l₂, db'.indexedEvents.finalized c f = l₁ ++ e :: l₂ ∧
          passedIn tr = l₁ ++ [e] ∧ appliedIn tr = l₁ ∧ ∃ err, r = .error err) := by
  cases h with
  | unpulled hq | idle _ hq =>
      rw [hq.floor] at hf
      cases hf
  | stored _ hs | unprojected _ _ hs _ =>
      rw [hs.floor] at hf
      cases hf
  | aborted _ _ hfin hs hall _ =>
      rw [hs.floor] at hf
      cases hf
      rw [(applyAll_raw hall).events, hfin]
      exact ⟨rfl, .inr ⟨_, _, _, rfl, hs.passed, hs.applied, _, rfl⟩⟩
  | completed _ _ hfin hs hall =>
      rw [hs.floor] at hf
      cases hf
      rw [(applyAll_raw hall).events, hfin]
      exact ⟨rfl, .inl ⟨hs.passed, hs.applied⟩⟩

/-- Without a pass nothing is passed. -/
theorem IngestEffect.no_pass {source : EventSource} {G : Failures indexer Db} {db db' : Db}
    {tr : List indexer.Obs} {r : Except ChainEventsError Nat}
    (h : IngestEffect uuid source G c db tr r db') (hf : floorIn tr = none) :
    passedIn tr = [] ∧ appliedIn tr = [] := by
  cases h with
  | unpulled hq | idle _ hq => exact ⟨hq.passed, hq.applied⟩
  | stored _ hs | unprojected _ _ hs _ => exact ⟨hs.passed, hs.applied⟩
  | aborted _ _ _ hs _ _ | completed _ _ _ hs _ =>
      rw [hs.floor] at hf
      cases hf

/-- What a call passes it has stored, and it is final. -/
theorem IngestEffect.passed_final {source : EventSource} {G : Failures indexer Db}
    {db db' : Db} {tr : List indexer.Obs} {r : Except ChainEventsError Nat}
    (h : IngestEffect uuid source G c db tr r db') {e : ChainEvent} (he : e ∈ passedIn tr) :
    e ∈ db'.indexedEvents.ofContract c ∧ e.ledgerSequence ≤ source.floor := by
  cases hf : floorIn tr with
  | none =>
      rw [(h.no_pass hf).1] at he
      cases he
  | some f =>
      refine EventStore.mem_finalized.mp ?_
      obtain ⟨rfl, ⟨hp, _⟩ | ⟨l₁, x, l₂, hfin, hp, _, _⟩⟩ := h.pass hf
      · rwa [hp] at he
      · rw [hp] at he
        rw [hfin, List.append_cons]
        exact List.mem_append_left _ he

/-- What is applied was passed. -/
theorem appliedIn_subset (tr : List indexer.Obs) : appliedIn tr ⊆ passedIn tr := by
  intro e he
  obtain ⟨o, ho, happlied⟩ := List.mem_filterMap.mp he
  refine List.mem_filterMap.mpr ⟨o, ho, ?_⟩
  split at happlied
  · exact happlied
  · cases happlied

/-- What a call applies it has stored, and it is final. -/
theorem IngestEffect.applied_final {source : EventSource} {G : Failures indexer Db}
    {db db' : Db} {tr : List indexer.Obs} {r : Except ChainEventsError Nat}
    (h : IngestEffect uuid source G c db tr r db') {e : ChainEvent} (he : e ∈ appliedIn tr) :
    e ∈ db'.indexedEvents.ofContract c ∧ e.ledgerSequence ≤ source.floor :=
  h.passed_final (appliedIn_subset tr he)

/-- An `Ok` call either pulled something, so that its pass takes everything, or
it returned early and changed nothing. -/
theorem IngestEffect.of_ok {source : EventSource} {G : Failures indexer Db} {db db' : Db}
    {tr : List indexer.Obs} {n : Nat} (h : IngestEffect uuid source G c db tr (.ok n) db') :
    (source.eventsAfter c (cursorOf db c) = [] ∧ n = 0 ∧ db' = db ∧ Quiet tr) ∨
      (source.eventsAfter c (cursorOf db c) ≠ [] ∧ floorIn tr = some source.floor ∧
        passedIn tr = db'.indexedEvents.finalized c source.floor ∧
        appliedIn tr = db'.indexedEvents.finalized c source.floor) := by
  cases h with
  | idle hev hq => exact .inl ⟨hev, rfl, rfl, hq⟩
  | completed hev hz hfin hs hall =>
      refine .inr ⟨?_, hs.floor, ?_, ?_⟩
      · intro hnil
        rw [hev] at hnil
        rw [hnil] at hz
        cases hz
      · rw [(applyAll_raw hall).events, hfin, hs.passed]
      · rw [(applyAll_raw hall).events, hfin, hs.applied]

/-- An `Ok` call with a pass applied the whole finalized list. -/
theorem IngestEffect.whole_pass {source : EventSource} {G : Failures indexer Db} {db db' : Db}
    {tr : List indexer.Obs} {n : Nat} (h : IngestEffect uuid source G c db tr (.ok n) db')
    {f : Int} (hf : floorIn tr = some f) :
    ∃ events p, applyAll uuid (db.pulled c events p) (db'.indexedEvents.finalized c f)
      = .ok db' := by
  cases h with
  | idle _ hq =>
      rw [hq.floor] at hf
      cases hf
  | completed _ _ hfin hs hall =>
      rw [hs.floor] at hf
      cases hf
      rw [(applyAll_raw hall).events, hfin]
      exact ⟨_, _, hall⟩

end VerdantBackend
