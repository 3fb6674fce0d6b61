import VerdantBackend.Indexer.History
import VerdantBackend.Indexer.Passes

/-!
# Recovery from a re-org

A branch of the chain is replaced from ledger `d` on, and `rewind` drops the raw
events from `d` on and the cursor. Nothing at or after `d` was final, so what
the passes applied belongs to both branches: the next ingest leaves what an
ingest of the new branch from empty tables leaves.
-/

namespace VerdantBackend

open Prog
open RowChange (Names Rebuilds)

variable {uuid : String → Option String} {source : EventSource} {F : Failures indexer Db}
  {c : String} {db db' : Db} {tr : List indexer.Obs}

/-! ## Rewind -/

/-- The contract without the events from `d` on, and without its cursor. -/
def Db.rewound (db : Db) (c : String) (d : Int) : Db :=
  { db with
    indexedEvents := db.indexedEvents.deleteWhere fun e =>
      e.contractId = c && e.ledgerSequence ≥ d
    indexerCursors := db.indexerCursors.erase c }

/-- What a completed `rewind` does. -/
theorem rewind_outcome {d : Int}
    (h : Outcome (exec uuid source) F (rewind c d) db tr (.ok ()) db') :
    db' = db.rewound c d := by
  rw [rewind, outcome_bind_iff] at h
  rcases h with ⟨err, hr, _⟩ | ⟨_, db₁, tr₁, tr₂, rfl, h₁, h₂⟩
  · cases hr
  rcases outcome_call_iff.mp h₁ with ⟨_, hx, rfl, _⟩ | ⟨_, _, _, hr, _⟩
  swap
  · cases hr
  cases hx
  rcases outcome_call_iff.mp h₂ with ⟨_, hx, rfl, _⟩ | ⟨_, _, _, hr, _⟩
  · cases hx
    rfl
  · cases hr

theorem Db.rewound_ofContract (db : Db) (c : String) (d : Int) :
    (db.rewound c d).indexedEvents.ofContract c =
      (db.indexedEvents.ofContract c).filter fun e => e.ledgerSequence < d := by
  rw [EventStore.ofContract, EventStore.ofContract, Db.rewound, UniqueRows.deleteWhere_rows,
    List.filter_filter, List.filter_filter]
  apply List.filter_congr
  intro e _
  by_cases hc : e.contractId = c
  · by_cases hd : e.ledgerSequence < d
    · simp [hc, hd]
    · simp [hc, hd, not_lt.mp hd]
  · simp [hc]

/-- Other contracts keep their raw events and their cursors. -/
theorem Db.rewound_other (db : Db) {c c' : String} (d : Int) (hne : c' ≠ c) :
    (db.rewound c d).indexedEvents.ofContract c' = db.indexedEvents.ofContract c' ∧
      (db.rewound c d).indexerCursors.lookup c' = db.indexerCursors.lookup c' := by
  refine ⟨?_, Finmap.lookup_erase_ne hne⟩
  rw [EventStore.ofContract, EventStore.ofContract, Db.rewound, UniqueRows.deleteWhere_rows,
    List.filter_filter]
  apply List.filter_congr
  intro e _
  by_cases hc : e.contractId = c'
  · simp [hc, hne]
  · simp [hc]

theorem lowerOn_lt_ledger (log : List ChainEvent) (d : Int) :
    Log.LowerOn ChainEvent.position log fun e => decide (e.ledgerSequence < d) := by
  intro a _ b _ hab hb
  rw [decide_eq_true_eq] at hb ⊢
  exact (Cursor.ledger_le_of_lt hab).trans_lt hb

/-- **After the rewind** the contract is coherent with the new branch. -/
theorem Coherent.rewound {old log : List ChainEvent} {d : Int} (h : Coherent c old db)
    (hlog : Log.Ordered ChainEvent.position log)
    (hagree : old.filter (fun e => e.ledgerSequence < d) =
      log.filter fun e => e.ledgerSequence < d) :
    Coherent c log (db.rewound c d) where
  stored := by
    rw [Db.rewound_ofContract]
    have hpre := h.stored.filter fun e => decide (e.ledgerSequence < d)
    rw [hagree] at hpre
    exact hpre.trans (hlog.filter_isPrefix (lowerOn_lt_ledger log d))
  cursor := by
    intro p hp
    rw [Db.rewound, Finmap.lookup_erase] at hp
    cases hp

/-! ## An ingest from the start -/

/-- **A completed ingest without a cursor** leaves the whole log stored, the
cursor on its last event, and has applied its final part. -/
theorem IngestEffect.from_start {n : Nat} (h : IngestEffect uuid source F c db tr (.ok n) db')
    (hcoh : Coherent c (source.logOf c) db) (hcursor : db.indexerCursors.lookup c = none) :
    db'.indexedEvents.ofContract c = source.logOf c ∧
      db'.indexerCursors.lookup c = (source.logOf c).getLast?.map ChainEvent.position ∧
      appliedIn tr = finalPart (source.logOf c) source.floor := by
  have hpull : source.eventsAfter c (cursorOf db c) = source.logOf c := by
    rw [cursorOf, hcursor, Option.getD_none, source.eventsAfter_start]
  cases h with
  | idle hev hq =>
      rw [hpull] at hev
      have hnil : db.indexedEvents.ofContract c = [] := by
        simpa [hev] using hcoh.stored
      rw [hev, hnil, hcursor, hq.applied]
      exact ⟨rfl, rfl, rfl⟩
  | @completed _ z _ _ hev hz hfin hs hall =>
      have hraw := applyAll_raw hall
      have hlog := hcoh.pulled_ofContract hev z.position
      have hpart := hcoh.pulled_finalized hev z.position source.floor
      rw [hraw.events, hraw.cursors, hs.applied, ← hfin, hpart]
      rw [← hev, hpull] at hz
      refine ⟨hlog, ?_, rfl⟩
      rw [Db.pulled, Table.lookup_upsert_self, hcursor, hz]
      rfl

/-! ## Rows of one contract -/

/-- What the calls of `c` applied, call by call. -/
def passesOf (c : String) (calls : List IngestCall) : List (List ChainEvent) :=
  (calls.filter fun call => call.contractId = c).map fun call => appliedIn call.trace

theorem passesOf_append (c : String) (calls : List IngestCall) (call : IngestCall) :
    passesOf c (calls ++ [call]) =
      passesOf c calls ++ if call.contractId = c then [appliedIn call.trace] else [] := by
  rw [passesOf, List.filter_append, List.map_append, passesOf]
  by_cases hc : call.contractId = c
  · simp [hc]
  · simp [hc]

/-- No event of another contract's logs names the entity. -/
def OnlyOf (c : String) (calls : List IngestCall) (entity : Entity) : Prop :=
  ∀ call ∈ calls, call.contractId ≠ c → ∀ e ∈ call.source.logOf call.contractId,
    entityNamed e ≠ some entity

theorem IngestRun.stored_logged {G : EventSource → Failures indexer Db} {calls : List IngestCall}
    (hrun : IngestRun uuid G calls db) :
    ∀ e ∈ db.indexedEvents.rows, ∃ call ∈ calls,
      call.contractId = e.contractId ∧ e ∈ call.source.logOf call.contractId := by
  induction hrun with
  | start =>
      intro e he
      cases he
  | @call calls call _ hout ih =>
      intro e he
      rcases (ingest_effect hout).raw.stored_from he with he | he
      · obtain ⟨x, hx, hlog⟩ := ih e he
        exact ⟨x, List.mem_append_left _ hx, hlog⟩
      · exact ⟨call, by simp, (EventSource.mem_logOf.mp he).2.symm, he⟩

/-- A row that only `c` names is the replay of the passes of `c`. -/
theorem IngestRun.lookup_passesOf {G : EventSource → Failures indexer Db}
    {calls : List IngestCall} (hrun : IngestRun uuid G calls db) {ρ : Type}
    {P : Projection uuid ρ} (K : EntityRows P) {entity : Entity} (honly : OnlyOf c calls entity)
    {id : String} (hid : K.key entity = some id) :
    (P.table db).lookup id = RowChange.replay P.change id (passesOf c calls).flatten none := by
  induction hrun with
  | start => exact P.empty id
  | @call calls call hprev hout ih =>
      have heff := ingest_effect hout
      rw [heff.lookup P, ih fun x hx => honly x (List.mem_append_left _ hx), passesOf_append]
      by_cases hc : call.contractId = c
      · rw [if_pos hc, List.flatten_append, RowChange.replay_append, List.flatten_singleton]
      · rw [if_neg hc, List.append_nil, RowChange.replay_of_not_names]
        -- what another contract applied it has from its own logs
        intro e he hn
        obtain ⟨b, hb, hkb⟩ := K.names_iff.mp hn
        obtain rfl := K.unique hkb hid
        obtain ⟨hrow, hec⟩ := EventStore.mem_ofContract.mp (heff.applied_final he).1
        obtain ⟨x, hx, hxc, hlog⟩ := (hprev.call hout).stored_logged e hrow
        exact honly x hx (by rw [hxc, hec]; exact hc) e hlog hb

/-- What passes below `d` applied on the old branch is a first part of the final
part of the new one. -/
theorem finalPart_isPrefix_branch {old branch log : List ChainEvent} {f g d : Int}
    (hord : Log.Ordered ChainEvent.position log) (hold : old <+: branch)
    (hagree : branch.filter (fun e => e.ledgerSequence < d) =
      log.filter fun e => e.ledgerSequence < d)
    (hf : f < d) (hfg : f ≤ g) : finalPart old f <+: finalPart log g := by
  have hbelow : ∀ l : List ChainEvent,
      finalPart (l.filter fun e => e.ledgerSequence < d) f = finalPart l f := by
    intro l
    rw [finalPart, finalPart, List.filter_filter]
    apply List.filter_congr
    intro e _
    by_cases he : e.ledgerSequence ≤ f
    · simp [he, he.trans_lt hf]
    · simp [he]
  have hsame : finalPart branch f = finalPart log f := by
    rw [← hbelow branch, hagree, hbelow log]
  have hpre : finalPart old f <+: finalPart branch f := hold.filter _
  rw [hsame] at hpre
  exact hpre.trans (finalPart_isPrefix hord List.prefix_rfl hfg)

/-- **Rows after the recovery**: those of one application of the final part of
the new branch. -/
theorem reorg_lookup {G : EventSource → Failures indexer Db} {calls : List IngestCall} {d : Int}
    {branch : List ChainEvent} {ρ β : Type} {P : Projection uuid ρ} (K : EntityRows P)
    {f : ρ → β} {J : ρ → Prop} {entity : Entity} {id : String} (hrun : IngestRun uuid G calls db)
    (happ : AppendOnly c calls)
    (hold : ∀ call ∈ calls, call.contractId = c → call.source.logOf c <+: branch)
    (hheads : ∀ call ∈ calls, call.contractId = c →
      call.source.head < d + TRUSTED_CUTOFF ∧ call.source.head ≤ source.head)
    (hagree : branch.filter (fun e => e.ledgerSequence < d) =
      (source.logOf c).filter fun e => e.ledgerSequence < d)
    (hrebuilds : Rebuilds f J P.change id (finalPart (source.logOf c) source.floor))
    (honly : OnlyOf c calls entity) (hid : K.key entity = some id) :
    RowChange.replay P.change id (finalPart (source.logOf c) source.floor)
        ((P.table db).lookup id) =
      RowChange.replay P.change id (finalPart (source.logOf c) source.floor) none := by
  rw [hrun.lookup_passesOf K honly hid, ← RowChange.replay_append]
  refine hrebuilds.replay_flatten fun p hp => ?_
  obtain ⟨call, hcall, rfl⟩ := List.mem_map.mp hp
  obtain ⟨hmem, hc⟩ := List.mem_filter.mp hcall
  rw [decide_eq_true_eq] at hc
  obtain ⟨hlow, hhead⟩ := hheads call hmem hc
  have hcoh := hrun.coherent_before happ hmem hc
  have hpart := finalPart_isPrefix_branch (source.logOf_ordered c) (hold call hmem hc) hagree
    (f := call.source.floor) (g := source.floor)
    (by rw [EventSource.floor]; omega) (by rw [EventSource.floor, EventSource.floor]; omega)
  subst hc
  exact ((hrun.call_effect hmem).applied_isPrefix hcoh).1.trans hpart

/-- **Re-org recovery.** The old branch was ingested with every head below
`d + 10`, among calls of any other contracts; then `rewind` from `d` and one
completed ingest of the new branch. Raw events, cursor, and the verification and
financing rows that are created first and that no other contract names are those of one
completed ingest from empty tables; other contracts keep their raw events and cursors. -/
theorem reorg_recovery {G : EventSource → Failures indexer Db} {calls : List IngestCall}
    {d : Int} {branch : List ChainEvent} {old : EventSource} {F' F'' : Failures indexer Db}
    {rewound after fresh : Db} {tr' tr'' : List indexer.Obs} {n m : Nat}
    (hrun : IngestRun uuid G calls db) (happ : AppendOnly c calls)
    (hold : ∀ call ∈ calls, call.contractId = c → call.source.logOf c <+: branch)
    (hheads : ∀ call ∈ calls, call.contractId = c →
      call.source.head < d + TRUSTED_CUTOFF ∧ call.source.head ≤ source.head)
    (hagree : branch.filter (fun e => e.ledgerSequence < d) =
      (source.logOf c).filter fun e => e.ledgerSequence < d)
    (hrewind : Outcome (exec uuid old) F (rewind c d) db tr (.ok ()) rewound)
    (hingest : Outcome (exec uuid source) F' (ingest c) rewound tr' (.ok n) after)
    (hfresh : Outcome (exec uuid source) F'' (ingest c) Db.empty tr'' (.ok m) fresh) :
    after.indexedEvents.ofContract c = fresh.indexedEvents.ofContract c ∧
      after.indexerCursors.lookup c = fresh.indexerCursors.lookup c ∧
      (∀ k, CreatedFor (source.logOf c) (.verification k) → OnlyOf c calls (.verification k) →
        after.SameRow fresh (.verification k)) ∧
      (∀ k, CreatedFor (source.logOf c) (.financing k) → OnlyOf c calls (.financing k) →
        after.SameRow fresh (.financing k)) ∧
      ∀ c', c' ≠ c →
        after.indexedEvents.ofContract c' = db.indexedEvents.ofContract c' ∧
          after.indexerCursors.lookup c' = db.indexerCursors.lookup c' := by
  obtain rfl := rewind_outcome hrewind
  have heff := ingest_effect hingest
  have hefffresh := ingest_effect hfresh
  have hcoh : Coherent c (source.logOf c) (db.rewound c d) :=
    (hrun.coherent happ hold).rewound (source.logOf_ordered c) hagree
  obtain ⟨hevents, hcursor, happlied⟩ := heff.from_start hcoh (Finmap.lookup_erase ..)
  obtain ⟨hevents', hcursor', happlied'⟩ := hefffresh.from_start (.empty c _) rfl
  have hpart : finalPart (source.logOf c) source.floor <+: source.logOf c :=
    finalPart_isPrefix_self (source.logOf_ordered c)
  refine ⟨by rw [hevents, hevents'], by rw [hcursor, hcursor'], ?_, ?_, ?_⟩
  · intro k hfirst honly
    have hfor : ∀ j, counterId VERIFICATION_PREFIX j = counterId VERIFICATION_PREFIX k →
        CreatedFor (finalPart (source.logOf c) source.floor) (.verification j) := by
      intro j hj
      rw [counterId_injective _ hj]
      exact hfirst.of_isPrefix hpart
    have hrow := heff.lookup (verifications uuid) (counterId VERIFICATION_PREFIX k)
    have hrow' := hefffresh.lookup (verifications uuid) (counterId VERIFICATION_PREFIX k)
    rw [happlied] at hrow
    rw [happlied'] at hrow'
    exact hrow.trans ((reorg_lookup verificationRows hrun happ hold hheads hagree
      (rebuilds_verification _ hfor) honly rfl).trans hrow'.symm)
  · intro k hfirst honly
    have hfor : ∀ j, counterId FINANCING_PREFIX j = counterId FINANCING_PREFIX k →
        CreatedFor (finalPart (source.logOf c) source.floor) (.financing j) := by
      intro j hj
      rw [counterId_injective _ hj]
      exact hfirst.of_isPrefix hpart
    have hrow := heff.lookup (financings uuid) (counterId FINANCING_PREFIX k)
    have hrow' := hefffresh.lookup (financings uuid) (counterId FINANCING_PREFIX k)
    rw [happlied] at hrow
    rw [happlied'] at hrow'
    exact hrow.trans ((reorg_lookup financingRows hrun happ hold hheads hagree
      (rebuilds_financing _ hfor) honly rfl).trans hrow'.symm)
  · intro c' hne
    have hother := heff.raw.other hne
    have hrewound := db.rewound_other d hne
    exact ⟨hother.1.trans hrewound.1, hother.2.trans hrewound.2⟩

/-! A fork at ledger 110: verification 8 on the old branch, 9 on the new one. -/

def forkEvent (ledger : Int) (counter : Json) : ChainEvent :=
  sampleEvent "CV" "verification" "VerificationCreated" ledger
    [counter, .str "b1", .str "GS", .str "0f1e", .str "GI", .int 100]

def oldFork : EventSource :=
  .ofList [forkEvent 100 (.int 7), forkEvent 112 (.int 8)] 115 (by decide) (by decide)

def newFork : EventSource :=
  .ofList [forkEvent 100 (.int 7), forkEvent 113 (.int 9)] 130 (by decide) (by decide)

/-- The old branch ingested, then rewound, then the new branch ingested. -/
def forkIngested : IngestCall := .ofRun noUuid Db.empty "CV" oldFork

def forkRewound : Db := ((rewind "CV" 110).run (exec noUuid oldFork) forkIngested.after).2

def forkRecovered : IngestCall := .ofRun noUuid forkRewound "CV" newFork

def forkFresh : IngestCall := .ofRun noUuid Db.empty "CV" newFork

theorem newFork_created_first (k : Nat) :
    CreatedFor (newFork.logOf "CV") (.verification k) := by
  intro l₁ e l₂ c heq he _ _
  change [forkEvent 100 (.int 7), forkEvent 113 (.int 9)] = _ at heq
  have hmem : e = forkEvent 100 (.int 7) ∨ e = forkEvent 113 (.int 9) := by
    have : e ∈ [forkEvent 100 (.int 7), forkEvent 113 (.int 9)] := by
      rw [heq]
      simp
    simpa using this
  rcases hmem with rfl | rfl <;>
  · cases he
    rfl

theorem reorg_recovery_fork :
    forkRecovered.after.indexedEvents.ofContract "CV" =
        forkFresh.after.indexedEvents.ofContract "CV" ∧
      forkRecovered.after.SameRow forkFresh.after (.verification 7) := by
  have hrun := IngestRun.ofRun (F := fun _ => anyFailure)
    (fun _ _ _ _ _ => trivial) (.start : IngestRun noUuid _ _ _) "CV" oldFork
  have hrewind : Outcome (exec noUuid oldFork) _ (rewind "CV" 110) forkIngested.after _ (.ok ())
      forkRewound := outcome_run (exec noUuid oldFork) (rewind "CV" 110) forkIngested.after
  have hingest := outcome_run (exec noUuid newFork) (ingest "CV") forkRewound
  have hfresh := outcome_run (exec noUuid newFork) (ingest "CV") Db.empty
  rw [show ((ingest "CV").run (exec noUuid newFork) forkRewound).1 = .ok 2 by decide] at hingest
  rw [show ((ingest "CV").run (exec noUuid newFork) Db.empty).1 = .ok 2 by decide] at hfresh
  have hcalls : ∀ call ∈ [] ++ [forkIngested], call = forkIngested := by simp
  have hold : ∀ call ∈ [] ++ [forkIngested], call.contractId = "CV" →
      call.source.logOf "CV" <+: oldFork.logOf "CV" := by
    intro call hcall _
    rw [hcalls call hcall]
    exact List.prefix_rfl
  have hheads : ∀ call ∈ [] ++ [forkIngested], call.contractId = "CV" →
      call.source.head < 110 + TRUSTED_CUTOFF ∧ call.source.head ≤ newFork.head := by
    intro call hcall _
    rw [hcalls call hcall]
    decide
  have hagree : (oldFork.logOf "CV").filter (fun e => e.ledgerSequence < 110) =
      (newFork.logOf "CV").filter fun e => e.ledgerSequence < 110 := rfl
  have hrecovery := reorg_recovery hrun (List.pairwise_singleton ..) hold hheads hagree
    hrewind hingest hfresh
  refine ⟨hrecovery.1, hrecovery.2.2.1 7 (newFork_created_first 7) ?_⟩
  intro call hcall hne
  rw [hcalls call hcall] at hne
  exact absurd rfl hne

end VerdantBackend
