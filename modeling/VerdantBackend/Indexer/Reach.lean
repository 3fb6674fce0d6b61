import VerdantBackend.Indexer.Acceptance
import VerdantBackend.Indexer.Passes
import VerdantBackend.Indexer.Rounds

/-!
# How far a pass comes

A call comes to its projection pass when it finds new events and all of them can be
stored. The pass takes the final events in order and leaves at the first one that is
refused. Both are settled before the call: by the source it sees, the raw events and the
rows.
-/

namespace VerdantBackend

open Prog

variable {uuid : String → Option String}

/-! ## The first refused event -/

variable (uuid) in
/-- The history split at its first refused event: one that does not decode, or whose
increment leaves `BIGINT` on the row that the events before it make of the row in `db`. -/
structure RefusedFirst (db : Db) (history done : List ChainEvent) (e : ChainEvent)
    (rest : List ChainEvent) : Prop where
  split : history = done ++ e :: rest
  sound : ∀ l₁ x l₂, done = l₁ ++ x :: l₂ → Sound uuid db l₁ x
  refused : ¬ Sound uuid db done e

/-- There is one first refused event. -/
theorem RefusedFirst.unique {db : Db} {history done done' rest rest' : List ChainEvent}
    {e e' : ChainEvent} (h : RefusedFirst uuid db history done e rest)
    (h' : RefusedFirst uuid db history done' e' rest') : done = done' ∧ e = e' ∧ rest = rest' := by
  -- the event of one split that stands in the sound part of the other
  have hinside : ∀ {done done' : List ChainEvent} {e e' : ChainEvent} {rest rest' t},
      RefusedFirst uuid db history done e rest → RefusedFirst uuid db history done' e' rest' →
      done' = done ++ t → e :: rest = t ++ e' :: rest' → t = [] := by
    intro done done' e e' rest rest' t h h' hdone hrest
    cases t with
    | nil => rfl
    | cons x t =>
        obtain ⟨rfl, _⟩ := List.cons.inj hrest
        exact absurd (h'.sound done e t hdone) h.refused
  rcases List.append_eq_append_iff.mp (h.split.symm.trans h'.split) with
    ⟨t, hdone, hrest⟩ | ⟨t, hdone, hrest⟩
  · obtain rfl := hinside h h' hdone hrest
    rw [List.append_nil] at hdone
    obtain ⟨rfl, rfl⟩ := List.cons.inj hrest
    exact ⟨hdone.symm, rfl, rfl⟩
  · obtain rfl := hinside h' h hdone hrest
    rw [List.append_nil] at hdone
    obtain ⟨rfl, rfl⟩ := List.cons.inj hrest
    exact ⟨hdone, rfl, rfl⟩

/-- A pass takes the events up to the first refused one. -/
theorem RefusedFirst.mem_iff {db : Db} {history done rest : List ChainEvent} {x : ChainEvent}
    (h : RefusedFirst uuid db history done x rest)
    (hord : Log.Ordered ChainEvent.position history) (e : ChainEvent) :
    e ∈ done ++ [x] ↔ e ∈ history ∧ e.position ≤ x.position := by
  rw [h.split] at hord ⊢
  obtain ⟨_, hbehind, hbefore⟩ := List.pairwise_append.mp hord
  constructor
  · intro he
    rcases List.mem_append.mp he with he | he
    · exact ⟨List.mem_append_left _ he, le_of_lt (hbefore e he x List.mem_cons_self)⟩
    · rw [List.mem_singleton.mp he]
      exact ⟨List.mem_append_right _ List.mem_cons_self, le_refl _⟩
  · intro he
    obtain ⟨hin, hle⟩ := he
    rcases List.mem_append.mp hin with hin | hin
    · exact List.mem_append_left _ hin
    rcases List.mem_cons.mp hin with rfl | hin
    · exact List.mem_append_right _ (List.mem_singleton_self _)
    · exact absurd hle (not_le.mpr ((List.pairwise_cons.mp hbehind).1 e hin))

/-! ## One call -/

variable (uuid) in
/-- A statement fails only when the database refuses it. -/
abbrev noOutage (source : EventSource) : Failures indexer Db := ownFailures (exec uuid source)

namespace IngestCall

/-- Of the statements of the call only those failed that the database refused. -/
def Undisturbed (uuid : String → Option String) (call : IngestCall) : Prop :=
  Outcome (exec uuid call.source) (noOutage uuid call.source) (ingest call.contractId)
    call.before call.trace call.result call.after

/-- The call finds new events, and the database takes all of them. -/
structure ComesToPass (call : IngestCall) : Prop where
  pulls : call.Pulls
  storable : ∀ e ∈ call.source.eventsAfter call.contractId
    (cursorOf call.before call.contractId), e.storable = true

/-- What a pass of the call takes: the events up to the floor, once the new ones are
stored. -/
def history (call : IngestCall) : List ChainEvent :=
  EventStore.finalized (call.before.indexedEvents.insertAll
    (call.source.eventsAfter call.contractId (cursorOf call.before call.contractId)))
    call.contractId call.source.floor

end IngestCall

theorem undisturbed_ofRun (db : Db) (c : String) (source : EventSource) :
    (IngestCall.ofRun uuid db c source).Undisturbed uuid :=
  outcome_run (exec uuid source) (ingest c) db

variable {call : IngestCall} {c : String}

/-- Over an append-only source these are the final events of its log. -/
theorem Coherent.history_eq
    (h : Coherent call.contractId (call.source.logOf call.contractId) call.before) :
    call.history = call.finalEvents :=
  h.pulled_finalized rfl Cursor.START call.source.floor

/-- A call that stores what it finds moves the cursor on. -/
theorem cursorOf_lt_of_pulled {source : EventSource} {db db' : Db} {events : List ChainEvent}
    {z : ChainEvent} (hev : source.eventsAfter c (cursorOf db c) = events)
    (hz : events.getLast? = some z) (hraw : SameRawStore (db.pulled c events z.position) db') :
    cursorOf db c < cursorOf db' c := by
  have hafter : cursorOf db' c = z.position := by
    rw [cursorOf, hraw.cursors]
    exact cursorOf_upsert db c z.position
  have hmem : z ∈ source.eventsAfter c (cursorOf db c) := hev ▸ List.mem_of_getLast? hz
  rw [EventSource.eventsAfter_eq, List.mem_filter, decide_eq_true_eq] at hmem
  rw [hafter]
  exact hmem.2

/-- `IngestCall.Undisturbed.floorIn_iff`, with the call taken apart. -/
theorem ingest_floorIn_iff {source : EventSource} {db db' : Db} {tr : List indexer.Obs}
    {r : Except ChainEventsError Nat}
    (h : Outcome (exec uuid source) (ownFailures (exec uuid source)) (ingest c) db tr r db') :
    floorIn tr = some source.floor ↔ source.eventsAfter c (cursorOf db c) ≠ [] ∧
      ∀ e ∈ source.eventsAfter c (cursorOf db c), e.storable = true := by
  obtain ⟨_, hrefused, hpulled⟩ := ingest_run uuid source c db
  rw [h.run_eq.1] at hrefused hpulled
  constructor
  · intro hf
    have hcomes : ∀ {events z}, source.eventsAfter c (cursorOf db c) = events →
        events.getLast? = some z → SameRawStore (db.pulled c events z.position) db' →
        source.eventsAfter c (cursorOf db c) ≠ [] ∧
          ∀ e ∈ source.eventsAfter c (cursorOf db c), e.storable = true := by
      intro events z hev hz hraw
      refine ⟨fun hnil => ?_, fun e he => ?_⟩
      · rw [hev.symm.trans hnil] at hz
        cases hz
      · -- a refused event leaves the cursor where it was
        by_contra hst
        obtain ⟨err, hrun⟩ := hrefused ⟨e, he, by simpa using hst⟩
        have hmoved := cursorOf_lt_of_pulled hev hz hraw
        rw [(Prod.mk.inj hrun).2] at hmoved
        exact lt_irrefl _ hmoved
    cases ingest_effect h with
    | unpulled hq | idle _ hq =>
        rw [hq.floor] at hf
        cases hf
    | stored _ hs | unprojected _ _ hs _ =>
        rw [hs.floor] at hf
        cases hf
    | aborted hev hz _ _ hall _ | completed hev hz _ _ hall =>
        exact hcomes hev hz (applyAll_raw hall)
  · intro hpass
    obtain ⟨hpulls, hst⟩ := hpass
    obtain ⟨z, hz⟩ := Option.ne_none_iff_exists'.mp (mt List.getLast?_eq_none_iff.mp hpulls)
    have hmoved := cursorOf_lt_of_pulled rfl hz (hpulled z hz hst)
    cases ingest_effect h with
    | unpulled _ | idle _ _ | stored _ _ => exact absurd hmoved (lt_irrefl _)
    | unprojected _ _ _ hF => cases hF
    | aborted _ _ _ hs _ _ | completed _ _ _ hs _ => exact hs.floor

/-- **How far a pass comes**: through all final events, or to the first that is refused. -/
theorem IngestEffect.reach {source : EventSource} {db db' : Db} {tr : List indexer.Obs}
    {r : Except ChainEventsError Nat}
    (h : IngestEffect uuid source (ownFailures (exec uuid source)) c db tr r db')
    (hids : FarmerIds db.farmers) (hfloor : floorIn tr = some source.floor)
    {history : List ChainEvent}
    (hhistory : EventStore.finalized (db.indexedEvents.insertAll
      (source.eventsAfter c (cursorOf db c))) c source.floor = history) :
    (passedIn tr = history ∧ appliedIn tr = history ∧
      ∀ done e rest, ¬ RefusedFirst uuid db history done e rest) ∨
    ∃ done e rest, RefusedFirst uuid db history done e rest ∧
      passedIn tr = done ++ [e] ∧ appliedIn tr = done := by
  subst hhistory
  cases h with
  | unpulled hq | idle _ hq =>
      rw [hq.floor] at hfloor
      cases hfloor
  | stored _ hs | unprojected _ _ hs _ =>
      rw [hs.floor] at hfloor
      cases hfloor
  | aborted hev hz hfin hs hall hfail =>
      rename_i events z done e rest
      have hpulled : FarmerIds (db.pulled c events z.position).farmers := hids
      rw [hev]
      refine .inr ⟨done, e, rest, ⟨hfin, ?_, ?_⟩, hs.passed, hs.applied⟩
      · exact (applyAll_isOk_iff hpulled _).mp ⟨_, hall⟩
      · intro hsound
        obtain ⟨res, hres⟩ := (applyEvent_isOk_iff _ e).mpr
          ((applies_iff_sound hpulled hall e).mpr hsound)
        rw [ownFailures, exec, hres] at hfail
        cases hfail
  | completed hev hz hfin hs hall =>
      rename_i events z finalized
      have hpulled : FarmerIds (db.pulled c events z.position).farmers := hids
      rw [hev]
      have hsame : EventStore.finalized (db.indexedEvents.insertAll events) c source.floor =
          finalized := hfin
      rw [hsame]
      refine .inl ⟨hs.passed, hs.applied, fun done e rest href => ?_⟩
      exact href.refused ((applyAll_isOk_iff hpulled _).mp ⟨_, hall⟩ done e rest href.split)

namespace IngestCall.Undisturbed

/-- **A pass begins** exactly when new events are found and all of them can be stored. -/
theorem floorIn_iff (h : call.Undisturbed uuid) :
    floorIn call.trace = some call.source.floor ↔ call.ComesToPass :=
  (ingest_floorIn_iff h).trans ⟨fun h => ⟨h.1, h.2⟩, fun h => ⟨h.1, h.2⟩⟩

/-- A call that does not come to its pass passes nothing. -/
theorem no_pass (h : call.Undisturbed uuid) (hnot : ¬ call.ComesToPass) :
    passedIn call.trace = [] := by
  have hnone : floorIn call.trace = none := by
    by_contra hsome
    obtain ⟨f, hf⟩ := Option.ne_none_iff_exists'.mp hsome
    rw [((ingest_effect h).pass hf).1] at hf
    exact hnot (h.floorIn_iff.mp hf)
  exact ((ingest_effect h).no_pass hnone).1

/-- The pass of a call. -/
theorem pass (h : call.Undisturbed uuid) (hids : FarmerIds call.before.farmers)
    (hpass : call.ComesToPass) :
    (passedIn call.trace = call.history ∧ appliedIn call.trace = call.history ∧
      ∀ done e rest, ¬ RefusedFirst uuid call.before call.history done e rest) ∨
    ∃ done e rest, RefusedFirst uuid call.before call.history done e rest ∧
      passedIn call.trace = done ++ [e] ∧ appliedIn call.trace = done :=
  (ingest_effect h).reach hids (h.floorIn_iff.mpr hpass) rfl

end IngestCall.Undisturbed

end VerdantBackend
