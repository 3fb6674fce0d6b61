import VerdantBackend.Config
import VerdantBackend.Indexer.Acceptance
import VerdantBackend.Indexer.Finality
import VerdantBackend.Indexer.History
import VerdantBackend.Indexer.IngestTerms

/-!
# Isolation of contracts

A projection row is keyed by the counter of its entity alone, so two contracts
that name one entity write one row. As long as they name different entities,
the rows of a contract come out as if it had been ingested alone: the run with
the others and the run without them answer its statements alike.
-/

namespace VerdantBackend

open Prog
open RowChange (Names)

variable {uuid : String → Option String}

/-! ## The relation -/

/-- `alone` holds of the contract what `db` does: its raw events, its cursor and
the rows its final events name. `Logged` are the events of all logs, `Final`
those a pass may come to. -/
structure Alone (uuid : String → Option String) (Logged Final : ChainEvent → Prop) (c : String)
    (db alone : Db) : Prop where
  stored : ∀ e ∈ db.indexedEvents.rows, Logged e
  events : alone.indexedEvents.ofContract c = db.indexedEvents.ofContract c
  cursor : alone.indexerCursors.lookup c = db.indexerCursors.lookup c
  rows : ∀ {ρ : Type} {P : Projection uuid ρ}, EntityRows P → ∀ e, Final e →
    e.contractId = c → ∀ id, Names P.change id e →
    (P.table alone).lookup id = (P.table db).lookup id
  ids : FarmerIds db.farmers
  idsAlone : FarmerIds alone.farmers

/-- No entity is named by final events of two contracts. -/
def OwnEntities (Final : ChainEvent → Prop) : Prop :=
  ∀ e x, Final e → Final x → e.contractId ≠ x.contractId →
    ∀ entity, entityNamed e = some entity → entityNamed x ≠ some entity

theorem OwnEntities.not_names {Final : ChainEvent → Prop} (h : OwnEntities Final) {ρ : Type}
    {P : Projection uuid ρ} (K : EntityRows P) {e x : ChainEvent} (he : Final e) (hx : Final x)
    (hne : e.contractId ≠ x.contractId) {id : String} (hn : Names P.change id e) :
    ¬ Names P.change id x := by
  intro hn'
  obtain ⟨a, ha, hka⟩ := K.names_iff.mp hn
  obtain ⟨b, hb, hkb⟩ := K.names_iff.mp hn'
  obtain rfl := K.unique hka hkb
  exact h e x he hx hne a ha hb

variable {Logged Final : ChainEvent → Prop} {c : String} {db alone : Db} {source : EventSource}

/-! ## Calls of the contract -/

/-- The statements an `ingest` of `c` issues. -/
def StmtOf (Logged Final : ChainEvent → Prop) (source : EventSource) (c : String) :
    IndexerStmt → Prop
  | .selectCursor c' | .eventsAfter c' _ | .upsertCursor c' _ => c' = c
  | .selectFinalized c' f => c' = c ∧ f = source.floor
  | .headLedger => True
  | .insertEvent e => Logged e ∧ e.contractId = c
  | .applyEvent e => Final e ∧ e.contractId = c
  | .deleteEvents .. | .deleteCursor .. => False

/-- What they return: events of `c` only. -/
def EventsOf (Logged Final : ChainEvent → Prop) (source : EventSource) (c : String) :
    (q : IndexerStmt) → q.Res → Prop
  | .eventsAfter .., events => ∀ e ∈ events, Logged e ∧ e.contractId = c
  | .headLedger, head => head = source.head
  | .selectFinalized .., events => ∀ e ∈ events, Final e ∧ e.contractId = c
  | _, _ => True

theorem ofContract_insert (store : EventStore) (e : ChainEvent) :
    EventStore.ofContract (store.insert e) e.contractId =
      if e.naturalKey ∈ (store.ofContract e.contractId).map ChainEvent.naturalKey then
        store.ofContract e.contractId
      else store.ofContract e.contractId ++ [e] := by
  rw [EventStore.ofContract, EventStore.ofContract]
  split
  · next h => rw [UniqueRows.insert_rows_of_mem (EventStore.naturalKey_mem_iff.mpr h)]
  · next h =>
    rw [UniqueRows.insert_rows_of_not_mem fun hk => h (EventStore.naturalKey_mem_iff.mp hk)]
    simp

theorem map_verdict {α β : Type} (x : Except SqlxError α) (f : α → β) :
    (do return f (← x) : Except SqlxError β).map (fun _ => ()) = x.map fun _ => () := by
  cases x <;> rfl

/-- The builder meets the row it meets alone. -/
theorem Alone.build (h : Alone uuid Logged Final c db alone) {e : ChainEvent} (he : Final e)
    (hc : e.contractId = c) {v : Change} (hv : decodeEvent e = .ok (some v)) :
    (v.build uuid alone).map (fun _ => ()) = (v.build uuid db).map fun _ => () := by
  cases v with
  | verification v =>
      rw [Change.build, Change.build, map_verdict, map_verdict]
      refine (v.describes uuid).verdict_eq (h.rows verificationRows e he hc _ ?_)
      exact ⟨_, verificationChange_eq_some.mpr ⟨v, hv, rfl⟩, rfl⟩
  | escrow v =>
      rw [Change.build, Change.build, map_verdict, map_verdict]
      refine (v.describes uuid).verdict_eq (h.rows escrowRows e he hc _ ?_)
      exact ⟨_, escrowChange_eq_some.mpr ⟨v, hv, rfl⟩, rfl⟩
  | financing v =>
      rw [Change.build, Change.build, map_verdict, map_verdict]
      refine v.describes.verdict_eq (h.rows financingRows e he hc _ ?_)
      exact ⟨_, financingChange_eq_some.mpr ⟨v, hv, rfl⟩, rfl⟩
  | identity v =>
      obtain ⟨t, ht, _⟩ := h.ids.build v
      obtain ⟨t', ht', _⟩ := h.idsAlone.build v
      rw [Change.build, Change.build, map_verdict, map_verdict, ht, ht']
      rfl

/-- An event of the contract applies, or fails, as it does alone. -/
theorem Alone.applyEvent (h : Alone uuid Logged Final c db alone) {e : ChainEvent} (he : Final e)
    (hc : e.contractId = c) :
    (VerdantBackend.applyEvent uuid alone e).map Prod.fst =
      (VerdantBackend.applyEvent uuid db e).map Prod.fst := by
  rw [VerdantBackend.applyEvent, VerdantBackend.applyEvent]
  cases hd : decodeEvent e with
  | error err => rfl
  | ok o =>
      cases o with
      | none => rfl
      | some v =>
          have hb := h.build he hc hd
          cases h₁ : v.build uuid alone with
          | error err | ok alone' =>
              cases h₂ : v.build uuid db with
              | error err' | ok db' =>
                  simp_all [Except.map, Bind.bind, Except.bind, pure, Except.pure]

/-- What the statement leaves keeps the relation. -/
theorem Alone.applied (h : Alone uuid Logged Final c db alone) {e : ChainEvent} {db' alone' : Db}
    {b b' : Bool} (hdb : VerdantBackend.applyEvent uuid db e = .ok (b, db'))
    (halone : VerdantBackend.applyEvent uuid alone e = .ok (b', alone')) :
    Alone uuid Logged Final c db' alone' where
  stored := by
    rw [(applyEvent_raw hdb).events]
    exact h.stored
  events := by
    rw [(applyEvent_raw hdb).events, (applyEvent_raw halone).events]
    exact h.events
  cursor := by
    rw [(applyEvent_raw hdb).cursors, (applyEvent_raw halone).cursors]
    exact h.cursor
  rows := by
    intro ρ P K x hx hxc id hn
    rw [P.applied hdb, P.applied halone, h.rows K x hx hxc id hn]
  ids := applyEvent_farmerIds h.ids hdb
  idsAlone := applyEvent_farmerIds h.idsAlone halone

/-- **Statements of the contract** answer alike. -/
theorem answerAlike (hsource : ∀ e ∈ source.logOf c, Logged e)
    (hfinal : ∀ e, Logged e → e.contractId = c → e.ledgerSequence ≤ source.floor → Final e) :
    AnswerAlike (exec uuid source) (exec uuid source) (StmtOf Logged Final source c)
      (EventsOf Logged Final source c) (Alone uuid Logged Final c) := by
  intro q db alone hq h
  cases q with
  | selectCursor c' =>
      obtain rfl : c' = c := hq
      refine .inl ⟨_, db, alone, rfl, ?_, trivial, h⟩
      rw [exec, h.cursor]
  | eventsAfter c' p =>
      obtain rfl : c' = c := hq
      refine .inl ⟨_, db, alone, rfl, rfl, ?_, h⟩
      intro e he
      have hlog := (List.mem_filter.mp he).1
      exact ⟨hsource e hlog, (EventSource.mem_logOf.mp hlog).2⟩
  | headLedger => exact .inl ⟨_, db, alone, rfl, rfl, rfl, h⟩
  | insertEvent e =>
      obtain ⟨he, rfl⟩ : Logged e ∧ e.contractId = c := hq
      by_cases hs : e.storable = true
      · refine .inl ⟨(), _, _, if_pos hs, if_pos hs, trivial, ?_⟩
        refine ⟨?_, ?_, h.cursor, ?_, h.ids, h.idsAlone⟩
        · intro x hx
          rcases UniqueRows.mem_of_mem_insert hx with hx | rfl
          · exact h.stored x hx
          · exact he
        · show EventStore.ofContract (alone.indexedEvents.insert e) _ =
            EventStore.ofContract (db.indexedEvents.insert e) _
          rw [ofContract_insert, ofContract_insert, h.events]
        · intro ρ P K x hx hxc id hn
          exact (congrArg (Finmap.lookup id) (P.raw alone _ _)).trans
            ((h.rows K x hx hxc id hn).trans (congrArg (Finmap.lookup id) (P.raw db _ _)).symm)
      · exact .inr ⟨_, if_neg hs, if_neg hs⟩
  | upsertCursor c' p =>
      obtain rfl : c' = c := hq
      refine .inl ⟨(), _, _, rfl, rfl, trivial, ?_⟩
      refine ⟨h.stored, h.events, ?_, ?_, h.ids, h.idsAlone⟩
      · rw [Table.lookup_upsert_self, Table.lookup_upsert_self, h.cursor]
      · intro ρ P K x hx hxc id hn
        exact (congrArg (Finmap.lookup id) (P.raw alone _ _)).trans
          ((h.rows K x hx hxc id hn).trans (congrArg (Finmap.lookup id) (P.raw db _ _)).symm)
  | selectFinalized c' f =>
      obtain ⟨rfl, rfl⟩ : c' = c ∧ f = source.floor := hq
      refine .inl ⟨_, db, alone, rfl, ?_, ?_, h⟩
      · rw [exec, EventStore.finalized_eq_ofContract, EventStore.finalized_eq_ofContract, h.events]
      · intro e he
        obtain ⟨hmem, hle⟩ := EventStore.mem_finalized.mp he
        obtain ⟨hrow, hc⟩ := EventStore.mem_ofContract.mp hmem
        exact ⟨hfinal e (h.stored e hrow) hc hle, hc⟩
  | applyEvent e =>
      have hsame := h.applyEvent hq.1 hq.2
      rw [exec, exec]
      cases hdb : applyEvent uuid db e with
      | error err =>
          cases halone : applyEvent uuid alone e with
          | error err' =>
              rw [hdb, halone] at hsame
              cases hsame
              exact .inr ⟨_, rfl, rfl⟩
          | ok r =>
              rw [hdb, halone] at hsame
              cases hsame
      | ok r =>
          cases halone : applyEvent uuid alone e with
          | error err' =>
              rw [hdb, halone] at hsame
              cases hsame
          | ok r' =>
              obtain ⟨b, db'⟩ := r
              obtain ⟨b', alone'⟩ := r'
              rw [hdb, halone] at hsame
              cases hsame
              exact .inl ⟨b, db', alone', rfl, rfl, trivial, h.applied hdb halone⟩
  | deleteEvents c' l | deleteCursor c' => cases hq

/-- **An ingest of `c`** issues statements of `c` only. -/
theorem ingest_stmtsOf (Logged Final : ChainEvent → Prop) (source : EventSource) (c : String) :
    IngestTerms (StmtOf Logged Final source c) (EventsOf Logged Final source c) c
      (fun _ => True) (fun e => Logged e ∧ e.contractId = c) (fun f => f = source.floor)
      (fun e => Final e ∧ e.contractId = c) where
  selectCursor := rfl
  start := trivial
  resume _ _ := trivial
  eventsAfter _ _ := rfl
  pulled _ _ h := h
  headLedger := trivial
  floor head h := congrArg (· - TRUSTED_CUTOFF) (show head = source.head from h)
  insertEvent _ h := h
  upsertCursor _ _ := rfl
  selectFinalized _ h := ⟨rfl, h⟩
  final _ _ _ h := h
  applyEvent _ h := h

/-! ## Calls of other contracts -/

section
variable {F : Failures indexer Db} {c' : String} {db' : Db} {tr : List indexer.Obs}
  {r : Except ChainEventsError Nat}

/-- **A call of another contract** leaves the relation alone. -/
theorem Alone.other (h : Alone uuid Logged Final c db alone) (hown : OwnEntities Final)
    (hsource : ∀ e ∈ source.logOf c', Logged e)
    (hfinal : ∀ e, Logged e → e.contractId = c' → e.ledgerSequence ≤ source.floor → Final e)
    (hne : c' ≠ c) (heff : IngestEffect uuid source F c' db tr r db') :
    Alone uuid Logged Final c db' alone := by
  have hraw := heff.raw
  have hother := hraw.other hne.symm
  have hstored : ∀ e ∈ db'.indexedEvents.rows, Logged e := by
    intro e he
    rcases hraw.stored_from he with he | he
    · exact h.stored e he
    · exact hsource e he
  refine ⟨hstored, ?_, ?_, ?_, heff.farmerIds h.ids, h.idsAlone⟩
  · rw [hother.1, h.events]
  · rw [hother.2, h.cursor]
  · intro ρ P K x hx hxc id hn
    rw [heff.lookup P, RowChange.replay_of_not_names, h.rows K x hx hxc id hn]
    -- nothing the call applies names the row
    intro e he
    obtain ⟨hmem, hle⟩ := heff.applied_final he
    obtain ⟨hrow, hc⟩ := EventStore.mem_ofContract.mp hmem
    refine hown.not_names K hx (hfinal e (hstored e hrow) hc hle) ?_ hn
    rw [hxc, hc]
    exact hne.symm

end

/-! ## Two runs -/

/-- Ingest calls one after the other, each of a contract over the source it saw. -/
def ingestAll (uuid : String → Option String) (schedule : List (String × EventSource))
    (db : Db) : Db :=
  schedule.foldl (fun db call => ((ingest call.1).run (exec uuid call.2) db).2) db

/-- The events of the logs the calls see. -/
def LoggedIn (schedule : List (String × EventSource)) (e : ChainEvent) : Prop :=
  ∃ call ∈ schedule, e ∈ call.2.logOf call.1

/-- Those of them that a call of their contract finds final. -/
def FinalIn (schedule : List (String × EventSource)) (e : ChainEvent) : Prop :=
  LoggedIn schedule e ∧
    ∃ call ∈ schedule, call.1 = e.contractId ∧ e.ledgerSequence ≤ call.2.floor

theorem Alone.sameRow (h : Alone uuid Logged Final c db alone) {e : ChainEvent} (he : Final e)
    (hc : e.contractId = c) {entity : Entity} (hent : entityNamed e = some entity) :
    db.SameRow alone entity := by
  cases entity with
  | verification n =>
      exact (h.rows verificationRows e he hc _
        (verificationRows.names_iff.mpr ⟨_, hent, rfl⟩)).symm
  | escrow n =>
      exact (h.rows escrowRows e he hc _ (escrowRows.names_iff.mpr ⟨_, hent, rfl⟩)).symm
  | financing n =>
      exact (h.rows financingRows e he hc _
        (financingRows.names_iff.mpr ⟨_, hent, rfl⟩)).symm

theorem Alone.empty (uuid : String → Option String) (Logged Final : ChainEvent → Prop)
    (c : String) : Alone uuid Logged Final c Db.empty Db.empty where
  stored := by
    intro e he
    cases he
  events := rfl
  cursor := rfl
  rows _ _ _ _ _ _ := rfl
  ids := .empty
  idsAlone := .empty

/-- The run with the others and the run without them stay related. -/
theorem Alone.ingestAll (hown : OwnEntities Final) {schedule : List (String × EventSource)}
    (hsource : ∀ e, LoggedIn schedule e → Logged e)
    (hfinal : ∀ call ∈ schedule, ∀ e, Logged e → e.contractId = call.1 →
      e.ledgerSequence ≤ call.2.floor → Final e) (h : Alone uuid Logged Final c db alone) :
    Alone uuid Logged Final c (ingestAll uuid schedule db)
      (ingestAll uuid (schedule.filter fun call => call.1 = c) alone) := by
  induction schedule generalizing db alone with
  | nil => exact h
  | cons call schedule ih =>
      have hrest : ∀ e, LoggedIn schedule e → Logged e := fun e ⟨x, hx, he⟩ =>
        hsource e ⟨x, List.mem_cons_of_mem _ hx, he⟩
      have hcall : ∀ e ∈ call.2.logOf call.1, Logged e := fun e he =>
        hsource e ⟨call, List.mem_cons_self, he⟩
      have hfinal' := hfinal call List.mem_cons_self
      have hfinals := fun x hx => hfinal x (List.mem_cons_of_mem _ hx)
      by_cases hc : call.1 = c
      · subst hc
        rw [List.filter_cons_of_pos (by simp)]
        exact ih hrest hfinals ((ingest_stmtsOf Logged Final call.2 call.1).ingest_issues.run_alike
          (answerAlike hcall hfinal') h).2
      · rw [List.filter_cons_of_neg (by simpa using hc)]
        exact ih hrest hfinals (h.other hown hcall hfinal' hc
          (ingest_effect (outcome_run (exec uuid call.2) (ingest call.1) db)))

/-- **Isolation.** When no two contracts name one entity in their final events,
ingesting any contracts in any order leaves every row that such an event names
as ingesting its contract alone leaves it. -/
theorem isolation (uuid : String → Option String) (schedule : List (String × EventSource))
    (hown : OwnEntities (FinalIn schedule)) (e : ChainEvent) (he : FinalIn schedule e)
    (entity : Entity) (hent : entityNamed e = some entity) :
    (ingestAll uuid schedule Db.empty).SameRow
      (ingestAll uuid (schedule.filter fun call => call.1 = e.contractId) Db.empty) entity := by
  have hrun := (Alone.empty uuid (LoggedIn schedule) (FinalIn schedule) e.contractId).ingestAll
    hown (fun _ h => h) fun call hcall x hx hc hle => ⟨hx, call, hcall, hc.symm, hle⟩
  exact hrun.sameRow he rfl hent

/-! A verification contract beside another one. -/

def verifiedBy (contractId : String) (ledger : Int) (counter : Json) : ChainEvent :=
  sampleEvent contractId "verification" "VerificationCreated" ledger
    [counter, .str "b1", .str "GS", .str "0f1e", .str "GI", .int 100]

/-- `CA` and `CB` number their verifications 7 and 8. -/
def ownSource : EventSource :=
  .ofList [verifiedBy "CA" 100 (.int 7), verifiedBy "CB" 101 (.int 8)] 120 (by decide) (by decide)

/-- Both number their verification 7. -/
def sharedSource : EventSource :=
  .ofList [verifiedBy "CA" 100 (.int 7), verifiedBy "CB" 101 (.int 7)] 120 (by decide) (by decide)

def pairSchedule (source : EventSource) : List (String × EventSource) :=
  [("CA", source), ("CB", source)]

theorem isolation_pair :
    (ingestAll noUuid (pairSchedule ownSource) Db.empty).SameRow
      (ingestAll noUuid ((pairSchedule ownSource).filter fun call => call.1 = "CA") Db.empty)
      (.verification 7) := by
  have hlogged : ∀ e, FinalIn (pairSchedule ownSource) e →
      e = verifiedBy "CA" 100 (.int 7) ∨ e = verifiedBy "CB" 101 (.int 8) := by
    intro e h
    obtain ⟨⟨call, hcall, he⟩, _⟩ := h
    have hsource : call.2 = ownSource := by
      simp only [pairSchedule, List.mem_cons, List.not_mem_nil, or_false] at hcall
      rcases hcall with rfl | rfl <;> rfl
    have hmem := (EventSource.mem_logOf.mp he).1
    rw [hsource] at hmem
    simpa [ownSource, EventSource.ofList] using hmem
  refine isolation noUuid (pairSchedule ownSource) ?_ (verifiedBy "CA" 100 (.int 7)) ?_ _ rfl
  · intro e x he hx hne entity hent
    rcases hlogged e he with rfl | rfl <;> rcases hlogged x hx with rfl | rfl
    · exact absurd rfl hne
    · cases hent
      decide
    · cases hent
      decide
    · exact absurd rfl hne
  · exact ⟨⟨_, List.mem_cons_self, List.mem_cons_self⟩, _, List.mem_cons_self, rfl, by decide⟩

/-- Two verification contracts that number alike: the row goes over to `CB`. -/
theorem isolation_fails :
    (parseContracts "verification:CA,verification:CB").lookup "CA" = some "verification" ∧
      (parseContracts "verification:CA,verification:CB").lookup "CB" = some "verification" ∧
      FinalIn (pairSchedule sharedSource) (verifiedBy "CA" 100 (.int 7)) ∧
      entityNamed (verifiedBy "CA" 100 (.int 7)) = some (.verification 7) ∧
      ¬ (ingestAll noUuid (pairSchedule sharedSource) Db.empty).SameRow
        (ingestAll noUuid ((pairSchedule sharedSource).filter fun call => call.1 = "CA") Db.empty)
        (.verification 7) := by
  refine ⟨by decide, by decide, ?_, rfl, ?_⟩
  · exact ⟨⟨_, List.mem_cons_self, List.mem_cons_self⟩, _, List.mem_cons_self, rfl, by decide⟩
  · intro h
    have hcontract := congrArg (Option.map VerificationRow.contractId) h
    revert hcontract
    decide

end VerdantBackend
