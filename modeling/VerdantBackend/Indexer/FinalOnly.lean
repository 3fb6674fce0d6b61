import VerdantBackend.Indexer.Concurrent
import VerdantBackend.Indexer.IngestTerms
import VerdantBackend.Lib.Guarantee

/-!
# Only final events are projected

Any number of `ingest` and `rewind` operations on one database, statement by
statement in any order, with crashes and failed statements, while the chain does
what it likes: its log may grow or be replaced, only its head never goes back. No
operation applies an event that is not final, or one of another contract, and the
projections hold what was applied and nothing else.
-/

namespace VerdantBackend

open Prog

/-- The head does not go back, the log is whatever it is. -/
def World.Advances (w w' : World) : Prop := w'.db = w.db ∧ w.source.head ≤ w'.source.head

/-- The statements an operation on `c` may issue while the head is at `head`. -/
def AllowedAt (head : Int) (c : String) : IndexerStmt → Prop
  | .selectCursor c' | .eventsAfter c' _ | .upsertCursor c' _ | .deleteEvents c' _
  | .deleteCursor c' => c' = c
  | .selectFinalized c' f => c' = c ∧ f ≤ head - TRUSTED_CUTOFF
  | .headLedger => True
  | .insertEvent e => e.contractId = c
  | .applyEvent e => e.contractId = c ∧ e.ledgerSequence ≤ head - TRUSTED_CUTOFF

/-- What their answers promise. -/
def PromisedAt (head : Int) : (q : IndexerStmt) → q.Res → Prop
  | .eventsAfter c _, events => ∀ e ∈ events, e.contractId = c
  | .headLedger, answer => answer ≤ head
  | .selectFinalized c f, events => ∀ e ∈ events, e.contractId = c ∧ e.ledgerSequence ≤ f
  | _, _ => True

section
variable {head : Int} {c : String}

/-- **An ingest** keeps to its contract and below every head it may have seen. -/
theorem ingest_allowed (head : Int) (c : String) :
    IngestTerms (AllowedAt head c) (PromisedAt head) c (fun _ => True)
      (fun e => e.contractId = c) (fun f => f ≤ head - TRUSTED_CUTOFF)
      (fun e => e.contractId = c ∧ e.ledgerSequence ≤ head - TRUSTED_CUTOFF) where
  selectCursor := rfl
  start := trivial
  resume _ _ := trivial
  eventsAfter _ _ := rfl
  pulled _ _ h := h
  headLedger := trivial
  floor answer h := by
    have h : answer ≤ head := h
    omega
  insertEvent _ h := h
  upsertCursor _ _ := rfl
  selectFinalized _ h := ⟨rfl, h⟩
  final _ _ hf h e he := ⟨(h e he).1, le_trans (h e he).2 hf⟩
  applyEvent _ h := h

theorem rewind_allowed (head : Int) (c : String) (d : Int) :
    Issues (AllowedAt head c) (PromisedAt head) (fun _ => True) (rewind c d) := by
  have hevents : AllowedAt head c (.deleteEvents c d) := rfl
  apply (issues_call (I := indexer) hevents).bind
  intro _ _
  have hcursor : AllowedAt head c (.deleteCursor c) := rfl
  exact issues_call (I := indexer) hcursor

theorem IndexerOp.allowed (head : Int) (op : IndexerOp) :
    Issues (AllowedAt head op.contractId) (PromisedAt head) (fun _ => True) op.prog := by
  cases op with
  | ingest c => exact (ingest_allowed head c).ingest_issues.erase
  | rewind c d => exact (rewind_allowed head c d).erase

end

/-! ## In the pool -/

/-- Every operation keeps to its contract and to what is final. -/
def finalOnly {ι : Type} (ops : ι → IndexerOp) : Pool.Guarantee indexer World ι where
  inv _ := True
  later w w' := w.source.head ≤ w'.source.head
  allowed w i q := AllowedAt w.source.head (ops i).contractId q
  promised w q a := PromisedAt w.source.head q a

section
variable {uuid : String → Option String} {ι : Type} {ops : ι → IndexerOp}
  {past : List (Happening indexer ι)} {pool : Pool indexer ι World}

theorem execWorld_source {q : IndexerStmt} {a : q.Res} {w w' : World}
    (h : execWorld uuid q w = .ok (a, w')) : w'.source = w.source := by
  obtain ⟨db, _, rfl⟩ := execWorld_ok_iff.mp h
  rfl

/-- What the database and the source answer is as promised. -/
theorem execWorld_promises {q : IndexerStmt} {a : q.Res} {w w' : World} {head : Int}
    (h : execWorld uuid q w = .ok (a, w')) (hhead : w.source.head ≤ head) :
    PromisedAt head q a := by
  obtain ⟨db, hx, rfl⟩ := execWorld_ok_iff.mp h
  cases q with
  | eventsAfter c p =>
      cases hx
      intro e he
      exact eventsAfter_contractId p he
  | headLedger =>
      cases hx
      exact hhead
  | selectFinalized c f =>
      cases hx
      intro e he
      obtain ⟨hmem, hle⟩ := EventStore.mem_finalized.mp he
      exact ⟨(EventStore.mem_ofContract.mp hmem).2, hle⟩
  | selectCursor _ | insertEvent _ | upsertCursor _ _ | applyEvent _ | deleteEvents _ _
  | deleteCursor _ => trivial

theorem finalOnly_sound (ops : ι → IndexerOp) :
    (finalOnly ops).Sound (execWorld uuid) World.Advances where
  refl w := le_refl _
  trans _ _ _ := le_trans
  answers _ _ _ _ _ _ _ h := by
    refine ⟨trivial, ?_⟩
    show _ ≤ _
    rw [execWorld_source h]
  env _ _ _ h := ⟨trivial, h.2⟩
  promises _ q w a w' w'' _ _ h hlater := by
    apply execWorld_promises h
    rw [← execWorld_source h]
    exact hlater

/-- What has been applied, in order. -/
def appliedAlong (past : List (Happening indexer ι)) : List ChainEvent :=
  (past.filterMap fun
    | .did _ ⟨.applyEvent e, .ok _⟩ => some e
    | _ => none).reverse

theorem appliedAlong_cons (h : Happening indexer ι) (past : List (Happening indexer ι)) :
    appliedAlong (h :: past) = appliedAlong past ++ appliedAlong [h] := by
  rw [appliedAlong, appliedAlong, appliedAlong, ← List.reverse_append, ← List.filterMap_append]
  rfl

variable [DecidableEq ι]

/-- A row after a step is the replay of what the step applied. -/
theorem step_lookup {F : Failures indexer World} {ρ : Type} (P : Projection uuid ρ)
    {h : Happening indexer ι} {pool' : Pool indexer ι World}
    (hs : Pool.Step (execWorld uuid) F World.Advances pool h pool') (id : String) :
    (P.table pool'.store.db).lookup id =
      RowChange.replay P.change id (appliedAlong [h]) ((P.table pool.store.db).lookup id) := by
  cases hs with
  | @ok i q k a w hp hx =>
      obtain ⟨db, hdb, rfl⟩ := execWorld_ok_iff.mp hx
      rw [Pool.set_store]
      cases q with
      | applyEvent e => exact P.applied hdb id
      | selectCursor _ | eventsAfter _ _ | headLedger | insertEvent _ | upsertCursor _ _
      | selectFinalized _ _ | deleteEvents _ _ | deleteCursor _ =>
          have hsame := exec_table P hdb (by simp)
          exact congrArg (Finmap.lookup id) hsame
  | @fail i q k e hp hF => cases q <;> rfl
  | crash => rfl
  | outside henv =>
      rw [henv.1]
      rfl

/-- Every projection row is the replay of what was applied. -/
theorem lookup_eq_replay {F : Failures indexer World}
    {G : List (Happening indexer ι) → Pool indexer ι World → Happening indexer ι → Prop}
    {source : EventSource}
    (hrun : Pool.Run (execWorld uuid) F World.Advances G
      (Pool.start ⟨Db.empty, source⟩ fun i => (ops i).prog) past pool)
    {ρ : Type} (P : Projection uuid ρ) (id : String) :
    (P.table pool.store.db).lookup id =
      RowChange.replay P.change id (appliedAlong past) none := by
  refine hrun.invariant (P := fun past pool => (P.table pool.store.db).lookup id =
    RowChange.replay P.change id (appliedAlong past) none) (P.empty id) ?_
  intro past pool h pool' hP _ hs
  rw [appliedAlong_cons, RowChange.replay_append, ← hP]
  exact step_lookup P hs id

/-- **Only final events are projected.** In every run of any number of operations, under
every order of their statements, every crash and failure, and whatever becomes of the
log: an applied event was of its operation's contract and final under a head the chain
had reached, and every projection row is the replay of what was applied. -/
theorem only_final_projected {F : Failures indexer World}
    {G : List (Happening indexer ι) → Pool indexer ι World → Happening indexer ι → Prop}
    {source : EventSource}
    (hrun : Pool.Run (execWorld uuid) F World.Advances G
      (Pool.start ⟨Db.empty, source⟩ fun i => (ops i).prog) past pool) :
    (∀ i e a, Happening.did i ⟨IndexerStmt.applyEvent e, a⟩ ∈ past →
      e.contractId = (ops i).contractId ∧
        e.ledgerSequence ≤ pool.store.source.head - TRUSTED_CUTOFF) ∧
    ∀ {ρ} (P : Projection uuid ρ) id,
      (P.table pool.store.db).lookup id =
        RowChange.replay P.change id (appliedAlong past) none := by
  constructor
  · intro i e a hmem
    have hfirst : (finalOnly ops).KeptBy
        (Pool.start (⟨Db.empty, source⟩ : World) fun i => (ops i).prog) := by
      intro j p hp w _
      cases hp
      exact (ops j).allowed w.source.head
    obtain ⟨w, hle, hc, hfinal⟩ := ((finalOnly_sound ops).run hfirst trivial hrun).2.2 i _ a hmem
    have hle : w.source.head ≤ pool.store.source.head := hle
    exact ⟨hc, by omega⟩
  · intro ρ P id
    exact lookup_eq_replay hrun P id

end

/-- An ingest that runs to its end, then the head moves. -/
theorem only_final_projected_ingest :
    ∃ (past : List (Happening indexer Bool)) (pool : Pool indexer Bool World),
      .did true ⟨IndexerStmt.applyEvent sampleCreated, .ok true⟩ ∈ past ∧
      sampleCreated.ledgerSequence ≤ pool.store.source.head - TRUSTED_CUTOFF ∧
      pool.store.source.head = 200 := by
  have hstart : Pool.Run (execWorld noUuid) anyFailure World.Advances (fun _ _ _ => True)
      (Pool.start ⟨Db.empty, sampleSource 120⟩ fun i => (pairOps i).prog) []
      (pairPool (sampleSource 120)) := .start
  have hrun := hstart.schedule (fun _ _ _ _ => trivial)
    [true, true, true, true, true, true, true]
  have hmoved := hrun.step trivial (.outside (s := ⟨_, sampleSource 200⟩) ⟨rfl, by decide⟩)
  have hmem : (.did true ⟨IndexerStmt.applyEvent sampleCreated, .ok true⟩ :
      Happening indexer Bool) ∈
      Happening.outside :: Pool.traceSchedule (execWorld noUuid) []
        (pairPool (sampleSource 120)) [true, true, true, true, true, true, true] :=
    .tail _ (.head _)
  exact ⟨_, _, hmem, ((only_final_projected hmoved).1 _ _ _ hmem).2, rfl⟩

end VerdantBackend
