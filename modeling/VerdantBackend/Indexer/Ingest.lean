import VerdantBackend.Indexer.Rows
import VerdantBackend.Indexer.Service

/-!
# What one ingest call can do

`ingest_effect` is the one place where the program of `ingest` is taken apart:
a call stops before it stores anything, finds nothing new, stores a first part
of what it pulled, or stores all of it, moves the cursor and applies a first
part of the finalized events. Every invariant is derived from that list.
-/

namespace VerdantBackend

open Prog

/-! ## Reading a trace -/

/-- The events the source delivered. -/
def deliveredIn (tr : List indexer.Obs) : List ChainEvent :=
  tr.flatMap fun
    | ⟨.eventsAfter _ _, .ok events⟩ => events
    | _ => []

/-- The floor of the projection pass, when one began. -/
def floorIn (tr : List indexer.Obs) : Option Int :=
  tr.findSome? fun
    | ⟨.selectFinalized _ finalityFloor, .ok _⟩ => some finalityFloor
    | _ => none

/-- The events passed to `apply_event`, whatever it answered. -/
def passedIn (tr : List indexer.Obs) : List ChainEvent :=
  tr.filterMap fun
    | ⟨.applyEvent event, _⟩ => some event
    | _ => none

/-- The events `apply_event` applied. -/
def appliedIn (tr : List indexer.Obs) : List ChainEvent :=
  tr.filterMap fun
    | ⟨.applyEvent event, .ok _⟩ => some event
    | _ => none

/-- All that is read off a trace. -/
structure Saw (tr : List indexer.Obs) (delivered : List ChainEvent) (floor : Option Int)
    (passed applied : List ChainEvent) : Prop where
  delivered : deliveredIn tr = delivered
  floor : floorIn tr = floor
  passed : passedIn tr = passed
  applied : appliedIn tr = applied

theorem Saw.append {tr₁ tr₂ : List indexer.Obs} {d₁ d₂ p₁ p₂ a₁ a₂ : List ChainEvent}
    {f₁ f₂ : Option Int} (h₁ : Saw tr₁ d₁ f₁ p₁ a₁) (h₂ : Saw tr₂ d₂ f₂ p₂ a₂) :
    Saw (tr₁ ++ tr₂) (d₁ ++ d₂) (f₁.or f₂) (p₁ ++ p₂) (a₁ ++ a₂) where
  delivered := by
    rw [← h₁.delivered, ← h₂.delivered, deliveredIn, List.flatMap_append]
    rfl
  floor := by
    rw [← h₁.floor, ← h₂.floor, floorIn, List.findSome?_append]
    rfl
  passed := by
    rw [← h₁.passed, ← h₂.passed, passedIn, List.filterMap_append]
    rfl
  applied := by
    rw [← h₁.applied, ← h₂.applied, appliedIn, List.filterMap_append]
    rfl

/-- Nothing to note. -/
abbrev Quiet (tr : List indexer.Obs) : Prop := Saw tr [] none [] []

theorem Saw.nil : Quiet [] := ⟨rfl, rfl, rfl, rfl⟩

theorem Saw.then_quiet {tr₁ tr₂ : List indexer.Obs} {d p a : List ChainEvent}
    {f : Option Int} (h₁ : Saw tr₁ d f p a) (h₂ : Quiet tr₂) : Saw (tr₁ ++ tr₂) d f p a := by
  simpa only [List.append_nil, Option.or_none] using h₁.append h₂

theorem Saw.quiet_then {tr₁ tr₂ : List indexer.Obs} {d p a : List ChainEvent}
    {f : Option Int} (h₁ : Quiet tr₁) (h₂ : Saw tr₂ d f p a) : Saw (tr₁ ++ tr₂) d f p a :=
  h₁.append h₂

/-! ## Passes -/

section
variable (uuid : String → Option String)

/-- Events applied one after the other. -/
def applyAll (db : Db) (events : List ChainEvent) : Except SqlxError Db :=
  events.foldlM (fun db e => (applyEvent uuid db e).map Prod.snd) db

/-- The resume position: the persisted cursor, or the start. -/
def cursorOf (db : Db) (contractId : String) : Cursor :=
  (db.indexerCursors.lookup contractId).getD Cursor.START

theorem cursorOf_upsert (db : Db) (contractId : String) (p : Cursor) :
    cursorOf { db with indexerCursors := db.indexerCursors.upsert contractId p fun _ => p }
      contractId = p := by
  rw [cursorOf, Table.lookup_upsert_self, Option.getD_some]
  cases db.indexerCursors.lookup contractId <;> rfl

variable {uuid}

theorem applied_ok_iff {db db' : Db} {e : ChainEvent} :
    (applyEvent uuid db e).map Prod.snd = .ok db' ↔
      ∃ consumed, applyEvent uuid db e = .ok (consumed, db') := by
  cases h : applyEvent uuid db e with
  | error err => simp [Except.map]
  | ok r => simp [Except.map, Prod.ext_iff]

theorem applyAll_nil (db : Db) : applyAll uuid db [] = .ok db := rfl

theorem applyAll_cons_ok {db db₁ db' : Db} {e : ChainEvent} {l : List ChainEvent}
    {consumed : Bool} (h : applyEvent uuid db e = .ok (consumed, db₁))
    (hl : applyAll uuid db₁ l = .ok db') : applyAll uuid db (e :: l) = .ok db' := by
  rw [applyAll, List.foldlM_cons, applied_ok_iff.mpr ⟨consumed, h⟩]
  exact hl

theorem applyAll_raw {db db' : Db} {l : List ChainEvent} (h : applyAll uuid db l = .ok db') :
    SameRawStore db db' :=
  Replay.foldlM_invariant (P := SameRawStore db)
    (fun _ _ _ _ hs hP => hP.trans (applyEvent_raw (applied_ok_iff.mp hs).choose_spec)) h
    (.refl db)

/-- A row after a pass is the replay of the pass. -/
theorem Projection.applyAll {ρ : Type} (P : Projection uuid ρ) {db db' : Db}
    {l : List ChainEvent} (h : applyAll uuid db l = .ok db') (id : String) :
    (P.table db').lookup id = RowChange.replay P.change id l ((P.table db).lookup id) :=
  RowChange.foldlM_lookup (fun _ _ _ hs => P.applied (applied_ok_iff.mp hs).choose_spec id) h

/-- An event more. -/
theorem applyAll_append_singleton {db db' : Db} {l : List ChainEvent} {e : ChainEvent} :
    applyAll uuid db (l ++ [e]) = .ok db' ↔
      ∃ db₁ consumed, applyAll uuid db l = .ok db₁ ∧
        applyEvent uuid db₁ e = .ok (consumed, db') := by
  constructor
  · intro h
    obtain ⟨db₁, h₁, h₂⟩ := Replay.foldlM_append_ok h
    obtain ⟨db₂, hs, hnil⟩ := Replay.foldlM_cons_ok h₂
    cases hnil
    obtain ⟨consumed, he⟩ := applied_ok_iff.mp hs
    exact ⟨db₁, consumed, h₁, he⟩
  · intro h
    obtain ⟨db₁, consumed, h₁, he⟩ := h
    rw [applyAll] at h₁ ⊢
    rw [List.foldlM_append, h₁]
    exact applyAll_cons_ok he rfl

/-- **A row along a history**: what holds of the row after every first part of the
history, by what its steps do. -/
theorem projection_prefixes_iff {ρ : Type} (P : Projection uuid ρ) (id : String)
    {history : List ChainEvent} {Q : List ChainEvent → Option ρ → Prop}
    {C : Option ρ → ChainEvent → Prop} (hnil : Q [] none)
    (hstep : ∀ p e row, p ++ [e] <+: history → RowChange.replay P.change id p none = row →
      Q p row → (Q (p ++ [e]) (RowChange.step P.change id row e) ↔ C row e)) :
    (∀ p, p <+: history → ∀ db, applyAll uuid .empty p = .ok db →
        Q p ((P.table db).lookup id)) ↔
      ∀ p e, p ++ [e] <+: history → ∀ db r, applyAll uuid .empty p = .ok db →
        applyEvent uuid db e = .ok r → C ((P.table db).lookup id) e := by
  have hrow : ∀ {p db}, applyAll uuid .empty p = .ok db →
      RowChange.replay P.change id p none = (P.table db).lookup id := by
    intro p db h
    rw [P.applyAll h, P.empty]
  refine Replay.prefixes_iff ?_ ?_
  · intro db h
    rw [← hrow h]
    exact hnil
  · intro p e hp hQ
    constructor
    · intro h db r hdb he
      have hnext := h r.2 (applyAll_append_singleton.mpr ⟨db, r.1, hdb, he⟩)
      rw [P.applied he] at hnext
      exact (hstep p e _ hp (hrow hdb) (hQ db hdb)).mp hnext
    · intro h db' hdb'
      obtain ⟨db, consumed, hdb, he⟩ := applyAll_append_singleton.mp hdb'
      rw [P.applied he]
      exact (hstep p e _ hp (hrow hdb) (hQ db hdb)).mpr (h db _ hdb he)

/-! ## One statement -/

variable {source : EventSource} {F : Failures indexer Db}

theorem exec_insertEvent {db db' : Db} {e : ChainEvent} {a : Unit}
    (h : exec uuid source (.insertEvent e) db = .ok (a, db')) :
    db' = { db with indexedEvents := db.indexedEvents.insert e } := by
  rw [exec] at h
  split at h
  · cases h
    rfl
  · cases h

/-- Only an applied event changes a projection. -/
theorem exec_table {ρ : Type} (P : Projection uuid ρ) {q : IndexerStmt} {a : q.Res} {db db' : Db}
    (h : exec uuid source q db = .ok (a, db')) (hq : ∀ e, q ≠ .applyEvent e) :
    P.table db' = P.table db := by
  cases q with
  | applyEvent e => exact absurd rfl (hq e)
  | insertEvent e =>
      rw [exec_insertEvent h]
      exact P.raw _ _ _
  | upsertCursor _ _ | deleteEvents _ _ | deleteCursor _ =>
      cases h
      exact P.raw _ _ _
  | selectCursor _ | eventsAfter _ _ | headLedger | selectFinalized _ _ =>
      cases h
      rfl

/-! ## The parts of an ingest -/

theorem getCursor_outcome {c : String} {db db' : Db} {tr : List indexer.Obs}
    {r : Except SqlxError Cursor}
    (h : Outcome (exec uuid source) F (getCursor c) db tr r db') :
    db' = db ∧ Quiet tr ∧ (r = .ok (cursorOf db c) ∨ ∃ err, r = .error err) := by
  rw [getCursor, outcome_bind_iff] at h
  rcases h with ⟨err, rfl, h⟩ | ⟨row, db₁, tr₁, tr₂, rfl, h₁, h₂⟩
  · rcases outcome_call_iff.mp h with ⟨_, _, _, hr⟩ | ⟨_, _, rfl, _, rfl⟩
    · cases hr
    · exact ⟨rfl, ⟨rfl, rfl, rfl, rfl⟩, .inr ⟨err, rfl⟩⟩
  · rcases outcome_call_iff.mp h₁ with ⟨_, hx, rfl, hr⟩ | ⟨_, _, _, hr, _⟩
    · cases hr
      cases hx
      have hrow : db' = db ∧ tr₂ = [] ∧ r = .ok (cursorOf db c) := by
        rw [cursorOf]
        cases hl : db.indexerCursors.lookup c with
        | none | some p =>
            rw [hl] at h₂
            obtain ⟨rfl, rfl, rfl⟩ := outcome_done_iff.mp h₂
            exact ⟨rfl, rfl, rfl⟩
      obtain ⟨rfl, rfl, rfl⟩ := hrow
      exact ⟨rfl, ⟨rfl, rfl, rfl, rfl⟩, .inl rfl⟩
    · cases hr

/-- `append_events` stores a first part of the events, all of them when it
returns `Ok`. -/
theorem appendEvents_outcome {l : List ChainEvent} {db db' : Db} {tr : List indexer.Obs}
    {r : Except SqlxError Unit}
    (h : Outcome (exec uuid source) F (appendEvents l) db tr r db') :
    Quiet tr ∧ ∃ l₁ l₂, l = l₁ ++ l₂ ∧
      db' = { db with indexedEvents := db.indexedEvents.insertAll l₁ } ∧
      ((r = .ok () ∧ l₂ = []) ∨ ∃ err, r = .error err) := by
  induction l generalizing db tr with
  | nil =>
      obtain ⟨rfl, rfl, rfl⟩ := outcome_done_iff.mp h
      exact ⟨.nil, [], [], rfl, rfl, .inl ⟨rfl, rfl⟩⟩
  | cons e l ih =>
      rw [appendEvents, outcome_bind_iff] at h
      rcases h with ⟨err, rfl, h⟩ | ⟨_, db₁, tr₁, tr₂, rfl, h₁, h₂⟩
      · rcases outcome_call_iff.mp h with ⟨_, _, _, hr⟩ | ⟨_, _, rfl, _, rfl⟩
        · cases hr
        · exact ⟨⟨rfl, rfl, rfl, rfl⟩, [], e :: l, rfl, rfl, .inr ⟨err, rfl⟩⟩
      · rcases outcome_call_iff.mp h₁ with ⟨_, hx, rfl, hr⟩ | ⟨_, _, _, hr, _⟩
        · rw [exec] at hx
          split at hx
          · cases hx
            obtain ⟨hq, l₁, l₂, rfl, rfl, hr⟩ := ih h₂
            exact ⟨Saw.quiet_then ⟨rfl, rfl, rfl, rfl⟩ hq, e :: l₁, l₂, rfl, rfl, hr⟩
          · cases hx
        · cases hr

theorem setCursor_outcome {c : String} {p : Cursor} {db db' : Db} {tr : List indexer.Obs}
    {r : Except SqlxError Unit}
    (h : Outcome (exec uuid source) F (setCursor c p) db tr r db') :
    Quiet tr ∧ ((r = .ok () ∧ db' = { db with
        indexerCursors := db.indexerCursors.upsert c p fun _ => p }) ∨
      (∃ err, r = .error err) ∧ db' = db) := by
  rcases outcome_call_iff.mp h with ⟨_, hx, rfl, rfl⟩ | ⟨err, _, rfl, rfl, rfl⟩
  · cases hx
    exact ⟨⟨rfl, rfl, rfl, rfl⟩, .inl ⟨rfl, rfl⟩⟩
  · exact ⟨⟨rfl, rfl, rfl, rfl⟩, .inr ⟨⟨err, rfl⟩, rfl⟩⟩

/-- The projection loop applies a first part of the events and stops at the
first failure. -/
theorem applyEvents_outcome {l : List ChainEvent} {db db' : Db} {tr : List indexer.Obs}
    {r : Except ChainEventsError Nat}
    (h : Outcome (exec uuid source) F (applyEvents l) db tr r db') :
    ((∃ n, r = .ok n) ∧ Saw tr [] none l l ∧ applyAll uuid db l = .ok db') ∨
    (∃ l₁ e l₂ err, l = l₁ ++ e :: l₂ ∧ (∃ err', r = .error err') ∧
      Saw tr [] none (l₁ ++ [e]) l₁ ∧ applyAll uuid db l₁ = .ok db' ∧
      F (.applyEvent e) db' err) := by
  induction l generalizing db db' tr r with
  | nil =>
      obtain ⟨rfl, rfl, rfl⟩ := outcome_done_iff.mp h
      exact .inl ⟨⟨0, rfl⟩, .nil, rfl⟩
  | cons e l ih =>
      rw [applyEvents, outcome_bind_iff] at h
      rcases h with ⟨err, rfl, h⟩ | ⟨consumed, db₁, tr₁, tr₂, rfl, h₁, h₂⟩
      · obtain ⟨r₀, _, h⟩ := outcome_mapErr_iff.mp h
        rcases outcome_call_iff.mp h with ⟨_, _, _, rfl⟩ | ⟨err₀, hF, rfl, rfl, rfl⟩
        · simp_all [Except.mapError]
        · exact .inr ⟨[], e, l, err₀, rfl, ⟨err, rfl⟩, ⟨rfl, rfl, rfl, rfl⟩, rfl, hF⟩
      · obtain ⟨r₀, hr₀, h₁⟩ := outcome_mapErr_iff.mp h₁
        rcases outcome_call_iff.mp h₁ with ⟨b, hx, rfl, rfl⟩ | ⟨err₀, _, rfl, rfl, rfl⟩
        · have hsaw : Saw [⟨.applyEvent e, .ok b⟩] [] none [e] [e] := ⟨rfl, rfl, rfl, rfl⟩
          rw [outcome_bind_iff] at h₂
          rcases h₂ with ⟨err, rfl, h₂⟩ | ⟨n, db₂, tr₃, tr₄, rfl, h₂, h₃⟩
          · rcases ih h₂ with ⟨⟨n, hn⟩, _⟩ | ⟨l₁, x, l₂, err', rfl, hr, hs, hall, hF⟩
            · cases hn
            · exact .inr ⟨e :: l₁, x, l₂, err', rfl, ⟨err, rfl⟩, hsaw.append hs,
                applyAll_cons_ok hx hall, hF⟩
          · rcases ih h₂ with ⟨_, hs, hall⟩ | ⟨l₁, x, l₂, err', _, ⟨_, hn⟩, _⟩
            · obtain ⟨rfl, rfl, rfl⟩ := outcome_done_iff.mp h₃
              refine .inl ⟨⟨_, rfl⟩, ?_, applyAll_cons_ok hx hall⟩
              rw [List.append_nil]
              exact hsaw.append hs
            · cases hn
        · cases hr₀

/-! ## The whole call -/

/-- The database once everything pulled is stored and the cursor is moved. -/
def Db.pulled (db : Db) (c : String) (events : List ChainEvent) (last : Cursor) : Db :=
  { db with
    indexedEvents := db.indexedEvents.insertAll events
    indexerCursors := db.indexerCursors.upsert c last fun _ => last }

/-- The finality floor of a call. -/
def EventSource.floor (source : EventSource) : Int := source.head - TRUSTED_CUTOFF

/-- What an `ingest` of `c` leaves: its trace, its result, the database. -/
inductive IngestEffect (uuid : String → Option String) (source : EventSource)
    (F : Failures indexer Db) (c : String) (db : Db) :
    List indexer.Obs → Except ChainEventsError Nat → Db → Prop where
  /-- Stopped before anything was pulled. -/
  | unpulled {tr err} : Quiet tr → IngestEffect uuid source F c db tr (.error err) db
  /-- Nothing new. -/
  | idle {tr} : source.eventsAfter c (cursorOf db c) = [] → Quiet tr →
      IngestEffect uuid source F c db tr (.ok 0) db
  /-- Stopped on the way to `set_cursor`. -/
  | stored {tr err l₁ l₂} : source.eventsAfter c (cursorOf db c) = l₁ ++ l₂ →
      Saw tr (l₁ ++ l₂) none [] [] →
      IngestEffect uuid source F c db tr (.error err)
        { db with indexedEvents := db.indexedEvents.insertAll l₁ }
  /-- Stopped between `set_cursor` and the projection pass. -/
  | unprojected {tr err err' events z} : source.eventsAfter c (cursorOf db c) = events →
      events.getLast? = some z → Saw tr events none [] [] →
      F (.selectFinalized c source.floor) (db.pulled c events z.position) err' →
      IngestEffect uuid source F c db tr (.error err) (db.pulled c events z.position)
  /-- Stopped inside the projection pass, at `e`. -/
  | aborted {tr err err' events z l₁ e l₂ db'} :
      source.eventsAfter c (cursorOf db c) = events → events.getLast? = some z →
      (db.pulled c events z.position).indexedEvents.finalized c source.floor
        = l₁ ++ e :: l₂ →
      Saw tr events (some source.floor) (l₁ ++ [e]) l₁ →
      applyAll uuid (db.pulled c events z.position) l₁ = .ok db' →
      F (.applyEvent e) db' err' →
      IngestEffect uuid source F c db tr (.error err) db'
  /-- Completed with a whole projection pass. -/
  | completed {tr events z finalized db'} :
      source.eventsAfter c (cursorOf db c) = events → events.getLast? = some z →
      (db.pulled c events z.position).indexedEvents.finalized c source.floor = finalized →
      Saw tr events (some source.floor) finalized finalized →
      applyAll uuid (db.pulled c events z.position) finalized = .ok db' →
      IngestEffect uuid source F c db tr (.ok events.length) db'

/-- **Everything an `ingest` call can do.** -/
theorem ingest_effect {c : String} {db db' : Db} {tr : List indexer.Obs}
    {r : Except ChainEventsError Nat}
    (h : Outcome (exec uuid source) F (ingest c) db tr r db') :
    IngestEffect uuid source F c db tr r db' := by
  rw [ingest, outcome_bind_iff] at h
  -- get_cursor
  rcases h with ⟨err, rfl, h⟩ | ⟨cursor, db₁, tr₁, tr₂, rfl, h₁, h⟩
  · obtain ⟨r₀, _, h⟩ := outcome_mapErr_iff.mp h
    obtain ⟨rfl, hq, _⟩ := getCursor_outcome h
    exact .unpulled hq
  obtain ⟨r₀, hr₀, h₁⟩ := outcome_mapErr_iff.mp h₁
  obtain ⟨rfl, hq, hr⟩ := getCursor_outcome h₁
  have hcur : cursor = cursorOf db₁ c := by
    rcases hr with rfl | ⟨err, rfl⟩ <;> cases hr₀
    rfl
  subst hcur
  -- events_after
  rw [outcome_bind_iff] at h
  rcases h with ⟨err, rfl, h⟩ | ⟨events, db₂, tr₃, tr₄, rfl, h₁, h⟩
  · rcases outcome_call_iff.mp h with ⟨_, _, _, hr⟩ | ⟨_, _, rfl, _, rfl⟩
    · cases hr
    · exact .unpulled (hq.append ⟨rfl, rfl, rfl, rfl⟩)
  rcases outcome_call_iff.mp h₁ with ⟨_, hx, rfl, hr⟩ | ⟨_, _, _, hr, _⟩
  swap
  · cases hr
  cases hr
  cases hx
  generalize hev : source.eventsAfter c (cursorOf db₁ c) = events at h ⊢
  have hpull : Saw (tr₁ ++ [⟨.eventsAfter c (cursorOf db₁ c), .ok events⟩])
      events none [] [] :=
    Saw.quiet_then hq ⟨by simp [deliveredIn], rfl, rfl, rfl⟩
  rw [← List.append_assoc]
  split at h
  · next hnil =>
    rw [List.isEmpty_iff] at hnil
    subst hnil
    obtain ⟨rfl, rfl, rfl⟩ := outcome_done_iff.mp h
    rw [List.append_nil]
    exact .idle hev hpull
  next hne =>
  obtain ⟨z, hz⟩ : ∃ z, events.getLast? = some z := by
    cases hl : events.getLast? with
    | none => simp [List.getLast?_eq_none_iff.mp hl] at hne
    | some z => exact ⟨z, rfl⟩
  have hstop : ∀ l₁ l₂ {tr' err}, events = l₁ ++ l₂ → Quiet tr' →
      IngestEffect uuid source F c db₁
        ((tr₁ ++ [⟨.eventsAfter c (cursorOf db₁ c), .ok events⟩]) ++ tr') (.error err)
        { db₁ with indexedEvents := db₁.indexedEvents.insertAll l₁ } := by
    intro l₁ l₂ tr' err hl hq'
    refine .stored (hev.trans hl) ?_
    rw [← hl]
    exact hpull.then_quiet hq'
  -- head_ledger
  rw [outcome_bind_iff] at h
  rcases h with ⟨err, rfl, h⟩ | ⟨head, db₂, tr₅, tr₆, rfl, h₁, h⟩
  · rcases outcome_call_iff.mp h with ⟨_, _, _, hr⟩ | ⟨_, _, rfl, _, rfl⟩
    · cases hr
    · exact hstop [] events rfl ⟨rfl, rfl, rfl, rfl⟩
  rcases outcome_call_iff.mp h₁ with ⟨_, hx, rfl, hr⟩ | ⟨_, _, _, hr, _⟩
  swap
  · cases hr
  cases hr
  cases hx
  have hq₁ : Quiet [(⟨.headLedger, .ok source.head⟩ : indexer.Obs)] := ⟨rfl, rfl, rfl, rfl⟩
  -- append_events
  rw [outcome_bind_iff] at h
  rcases h with ⟨err, rfl, h⟩ | ⟨_, db₂, tr₇, tr₈, rfl, h₁, h⟩
  · obtain ⟨r₁, _, h⟩ := outcome_mapErr_iff.mp h
    obtain ⟨hq₂, l₁, l₂, hl, rfl, _⟩ := appendEvents_outcome h
    exact hstop l₁ l₂ hl (hq₁.append hq₂)
  obtain ⟨r₁, hr₁, h₁⟩ := outcome_mapErr_iff.mp h₁
  obtain ⟨hq₂, l₁, l₂, hl, rfl, hr⟩ := appendEvents_outcome h₁
  have hl₂ : l₂ = [] := by
    rcases hr with ⟨_, h⟩ | ⟨err, rfl⟩
    · exact h
    · cases hr₁
  subst hl₂
  rw [List.append_nil] at hl
  subst hl
  -- set_cursor
  simp only [hz, Option.map_some, Option.getD_some] at h
  rw [outcome_bind_iff] at h
  rcases h with ⟨err, rfl, h⟩ | ⟨_, db₃, tr₉, tr₁₀, rfl, h₁, h⟩
  · obtain ⟨r₂, hr₂, h⟩ := outcome_mapErr_iff.mp h
    obtain ⟨hq₃, ⟨rfl, _⟩ | ⟨_, rfl⟩⟩ := setCursor_outcome h
    · cases hr₂
    · exact hstop events [] (by simp) (hq₁.append (hq₂.append hq₃))
  obtain ⟨r₂, hr₂, h₁⟩ := outcome_mapErr_iff.mp h₁
  obtain ⟨hq₃, ⟨rfl, rfl⟩ | ⟨⟨_, rfl⟩, _⟩⟩ := setCursor_outcome h₁
  swap
  · cases hr₂
  have hset := hpull.then_quiet (hq₁.append (hq₂.append hq₃))
  -- finalized_events
  rw [outcome_bind_iff] at h
  rcases h with ⟨err, rfl, h⟩ | ⟨finalized, db₄, tr₁₁, tr₁₂, rfl, h₁, h⟩
  · obtain ⟨r₃, hr₃, h⟩ := outcome_mapErr_iff.mp h
    rcases outcome_call_iff.mp h with ⟨_, _, _, rfl⟩ | ⟨err₀, hF, rfl, _, rfl⟩
    · cases hr₃
    · refine .unprojected hev hz ?_ hF
      have hs := hset.then_quiet
        (⟨rfl, rfl, rfl, rfl⟩ : Quiet [⟨.selectFinalized c source.floor, .error err₀⟩])
      simp only [List.append_assoc] at hs ⊢
      exact hs
  obtain ⟨r₃, hr₃, h₁⟩ := outcome_mapErr_iff.mp h₁
  rcases outcome_call_iff.mp h₁ with ⟨_, hx, rfl, rfl⟩ | ⟨_, _, _, rfl, _⟩
  swap
  · cases hr₃
  cases hr₃
  cases hx
  have hselect : Saw [⟨.selectFinalized c source.floor,
      .ok ((db₁.pulled c events z.position).indexedEvents.finalized c source.floor)⟩]
      [] (some source.floor) [] [] := ⟨rfl, rfl, rfl, rfl⟩
  have hbegun := hset.append hselect
  -- the projection pass
  rw [outcome_bind_iff] at h
  rcases h with ⟨err, rfl, h⟩ | ⟨applied, db₅, tr₁₃, tr₁₄, rfl, h₁, h⟩
  · rcases applyEvents_outcome h with ⟨⟨n, hn⟩, _⟩ | ⟨l₁, e, l₂, err', hl, _, hs, hall, hF⟩
    · cases hn
    · have hs := hbegun.append hs
      simp only [List.append_assoc, List.append_nil, Option.none_or, Option.or_none] at hs
      refine .aborted hev hz hl ?_ hall hF
      simp only [List.append_assoc]
      exact hs
  rcases applyEvents_outcome h₁ with ⟨_, hs, hall⟩ | ⟨l₁, e, l₂, err', _, ⟨_, hn⟩, _⟩
  swap
  · cases hn
  obtain ⟨rfl, rfl, rfl⟩ := outcome_done_iff.mp h
  have hs := hbegun.append hs
  simp only [List.append_assoc, List.append_nil, Option.none_or, Option.or_none] at hs
  refine .completed hev hz rfl ?_ hall
  simp only [List.append_assoc, List.append_nil]
  exact hs

end

end VerdantBackend
