import VerdantBackend.Lib.Sweep
import VerdantBackend.Indexer.EscrowReplay
import VerdantBackend.Indexer.ProjectionReplay

/-!
# Reads between statements

The passes of `ingest` are not transactional, so a reader sees the rows as they
are between any two statements. What an upsert sets is, at every such place,
what some first events of the entity leave when applied once. A later pass
begins again at the `Created` event, and until it has caught up the reader sees
fewer events than before.
-/

namespace VerdantBackend

open Prog
open RowChange (Names Opened Respects Opens)
open Sweep (ofRow reached seen CaughtUp)

/-! ## Places in a run -/

/-- A place in a run: after the calls `earlier`, inside `call`, after the
statements `issued` of it. -/
structure ReadPoint where
  earlier : List IngestCall
  call : IngestCall
  issued : List indexer.Obs

/-- The pass of a call. -/
def IngestCall.sweep (call : IngestCall) : Sweep ChainEvent :=
  ⟨appliedIn call.trace, call.finalEvents⟩

namespace ReadPoint

/-- The place is one of the run. -/
structure In (x : ReadPoint) (calls : List IngestCall) : Prop where
  calls : ∃ later, calls = x.earlier ++ x.call :: later
  issued : x.issued <+: x.call.trace

/-- `x` does not come after `y`. -/
def UpTo (x y : ReadPoint) : Prop :=
  (y.earlier = x.earlier ∧ y.call = x.call ∧ x.issued <+: y.issued) ∨
    ∃ between, y.earlier = x.earlier ++ x.call :: between

/-- What a reader finds there. -/
def db (uuid : String → Option String) (x : ReadPoint) : Db :=
  stateAfter (exec uuid x.call.source) x.issued x.call.before

/-- The passes begun by then. -/
def sweeps (x : ReadPoint) : List (Sweep ChainEvent) :=
  x.earlier.map IngestCall.sweep ++ [⟨appliedIn x.issued, x.call.finalEvents⟩]

end ReadPoint

/-! ## The row at a place -/

section
variable {uuid : String → Option String} {F : EventSource → Failures indexer Db}
  {calls : List IngestCall} {db : Db} {c : String}

/-- The run up to one of its calls. -/
theorem IngestRun.at_call (hrun : IngestRun uuid F calls db) {earlier later : List IngestCall}
    {call : IngestCall} (hcalls : calls = earlier ++ call :: later) :
    IngestRun uuid F earlier call.before ∧
      Outcome (exec uuid call.source) (F call.source) (ingest call.contractId) call.before
        call.trace call.result call.after := by
  induction hrun generalizing later with
  | start => simp at hcalls
  | @call calls last hprev hout ih =>
      rcases List.eq_nil_or_concat later with rfl | ⟨later, z, rfl⟩
      · obtain ⟨rfl, hlast⟩ := List.append_inj' hcalls rfl
        obtain ⟨rfl, _⟩ := List.cons.inj hlast
        exact ⟨hprev, hout⟩
      · rw [List.concat_eq_append, ← List.cons_append, ← List.append_assoc] at hcalls
        exact ih (List.append_inj' hcalls rfl).1

/-- What an answered statement does to a row. -/
def obsStep {ρ : Type} (P : Projection uuid ρ) (id : String) (row : Option ρ) :
    indexer.Obs → Option ρ
  | ⟨.applyEvent e, .ok _⟩ => RowChange.step P.change id row e
  | _ => row

theorem foldl_obsStep {ρ : Type} (P : Projection uuid ρ) (id : String) (tr : List indexer.Obs)
    (row : Option ρ) :
    tr.foldl (obsStep P id) row = RowChange.replay P.change id (appliedIn tr) row := by
  induction tr generalizing row with
  | nil => rfl
  | cons o tr ih =>
      obtain ⟨q, a⟩ := o
      rw [List.foldl_cons, ih]
      cases q <;> cases a <;> rfl

/-- **The row at a place** is the replay of everything applied by then. -/
theorem IngestRun.read_lookup (hrun : IngestRun uuid F calls db) {x : ReadPoint}
    (hx : x.In calls) {ρ : Type} (P : Projection uuid ρ) (id : String) :
    (P.table (x.db uuid)).lookup id =
      RowChange.replay P.change id (Sweep.appliedBy x.sweeps) none := by
  obtain ⟨later, hcalls⟩ := hx.calls
  obtain ⟨rest, hrest⟩ := hx.issued
  obtain ⟨hbefore, hout⟩ := hrun.at_call hcalls
  rw [← hrest] at hout
  have hview := hout.stateAfter_view (fun db => (P.table db).lookup id) (obsStep P id) ?_ ?_
  · rw [ReadPoint.db, hview, foldl_obsStep, hbefore.lookup P id, ReadPoint.sweeps,
      Sweep.appliedBy_append, RowChange.replay_append]
    simp [Sweep.appliedBy, IngestCall.sweep, appliedHistory, List.flatMap_map]
  · intro q a db db' h
    by_cases happly : ∃ e, q = .applyEvent e
    · obtain ⟨e, rfl⟩ := happly
      exact P.applied h id
    · rw [not_exists] at happly
      rw [exec_table P h happly]
      cases q with
      | applyEvent e => exact absurd rfl (happly e)
      | _ => rfl
  · intro q e row
    cases q <;> rfl

/-! ## The passes of a run -/

/-- What a call applied is a first part of what it had to apply, and of what any
later call has. -/
theorem IngestRun.applied_due (hrun : IngestRun uuid F calls db)
    (hone : ∀ x ∈ calls, x.contractId = c) (happ : AppendOnly c calls)
    (hheads : HeadsGrow c calls) :
    (∀ x ∈ calls, appliedIn x.trace <+: x.finalEvents) ∧
      calls.Pairwise fun x y => appliedIn x.trace <+: y.finalEvents := by
  have hdue : ∀ x ∈ calls, ∀ y ∈ calls, x.source.logOf c <+: y.source.logOf c →
      x.source.head ≤ y.source.head → appliedIn x.trace <+: y.finalEvents := by
    intro x hx y hy hlog hhead
    rw [IngestCall.finalEvents, hone y hy]
    refine hrun.applied_isPrefix happ hx (hone x hx) (y.source.logOf_ordered c) hlog ?_
    rw [EventSource.floor, EventSource.floor]
    omega
  refine ⟨fun x hx => hdue x hx x hx List.prefix_rfl le_rfl, ?_⟩
  refine (List.Pairwise.and_mem.mp (happ.and hheads)).imp ?_
  intro x y h
  obtain ⟨hx, hy, hlog, hhead⟩ := h
  exact hdue x hx y hy (hlog (hone x hx) (hone y hy)) (hhead (hone x hx) (hone y hy))

variable {x y : ReadPoint}

theorem ReadPoint.In.appliedIn_isPrefix (hx : x.In calls) :
    appliedIn x.issued <+: appliedIn x.call.trace :=
  hx.issued.filterMap _

theorem ReadPoint.In.mem (hx : x.In calls) :
    x.call ∈ calls ∧ ∀ call ∈ x.earlier, call ∈ calls := by
  obtain ⟨later, rfl⟩ := hx.calls
  exact ⟨by simp, fun call hcall => List.mem_append_left _ hcall⟩

/-- What every pass applied is a first part of what the passes after it have to
apply. -/
theorem IngestRun.sweeps_grow (hrun : IngestRun uuid F calls db)
    (hone : ∀ x ∈ calls, x.contractId = c) (happ : AppendOnly c calls) (hheads : HeadsGrow c calls)
    (hx : x.In calls) :
    (∀ s ∈ x.sweeps, s.applied <+: s.due) ∧
      x.sweeps.Pairwise fun s t => s.applied <+: t.due := by
  obtain ⟨hown, hpair⟩ := hrun.applied_due hone happ hheads
  have hcall := hx.appliedIn_isPrefix.trans (hown _ hx.mem.1)
  constructor
  · intro s hs
    rcases List.mem_append.mp hs with hs | hs
    · obtain ⟨call, hcall', rfl⟩ := List.mem_map.mp hs
      exact hown _ (hx.mem.2 _ hcall')
    · obtain rfl := List.mem_singleton.mp hs
      exact hcall
  · obtain ⟨later, hcalls⟩ := hx.calls
    rw [hcalls] at hpair
    obtain ⟨hearlier, _, hcross⟩ := List.pairwise_append.mp hpair
    refine List.pairwise_append.mpr
      ⟨List.pairwise_map.mpr hearlier, List.pairwise_singleton _ _, ?_⟩
    intro s hs t ht
    obtain ⟨call, hcall', rfl⟩ := List.mem_map.mp hs
    obtain rfl := List.mem_singleton.mp ht
    exact hcross _ hcall' _ List.mem_cons_self

theorem IngestRun.sweeps_isPrefix (hrun : IngestRun uuid F calls db)
    (hone : ∀ x ∈ calls, x.contractId = c) (happ : AppendOnly c calls) (hheads : HeadsGrow c calls)
    (hx : x.In calls) : ∀ s ∈ x.sweeps, s.applied <+: x.call.finalEvents := by
  obtain ⟨hown, hgrow⟩ := hrun.sweeps_grow hone happ hheads hx
  intro s hs
  rcases List.mem_append.mp hs with hs | hs
  · exact (List.pairwise_append.mp hgrow).2.2 s hs _ List.mem_cons_self
  · obtain rfl := List.mem_singleton.mp hs
    exact hown _ (List.mem_append_right _ List.mem_cons_self)

/-- Later in the run, the passes are further on. -/
theorem ReadPoint.UpTo.later (h : x.UpTo y) (hx : x.In calls) :
    Sweep.Later x.sweeps y.sweeps := by
  rcases h with ⟨hearlier, hcall, hissued⟩ | ⟨between, hearlier⟩
  · refine ⟨_, _, ⟨appliedIn y.issued, y.call.finalEvents⟩, [], rfl, ?_, hissued.filterMap _⟩
    rw [ReadPoint.sweeps, hearlier]
  · refine ⟨x.earlier.map IngestCall.sweep, _, x.call.sweep,
      between.map IngestCall.sweep ++ [⟨appliedIn y.issued, y.call.finalEvents⟩], rfl, ?_,
      hx.appliedIn_isPrefix⟩
    rw [ReadPoint.sweeps, hearlier, List.map_append, List.map_cons, List.append_assoc,
      List.cons_append]

end

/-! ## What a reader may rely on -/

/-- A run over one growing history, every entity of it created first. -/
structure GrowingRun (uuid : String → Option String) (c : String) (calls : List IngestCall)
    (db : Db) : Prop where
  run : IngestRun uuid (fun _ => anyFailure) calls db
  one : ∀ x ∈ calls, x.contractId = c
  append : AppendOnly c calls
  heads : HeadsGrow c calls
  created : ∀ x ∈ calls, CreatedFirst (x.source.logOf c)

/-- The reads of one row, as far as `f` shows it. -/
structure ReadsForward {ρ β : Type} (uuid : String → Option String) (P : Projection uuid ρ)
    (f : ρ → β) (id : String) (calls : List IngestCall) : Prop where
  /-- The row as some first events of the entity leave it, applied once. -/
  once : ∀ x : ReadPoint, x.In calls →
    seen P.change id x.sweeps <+: ofRow P.change id x.call.finalEvents ∧
    ((P.table (x.db uuid)).lookup id).map f =
      (RowChange.replay P.change id (seen P.change id x.sweeps) none).map f
  /-- The whole row, while one pass only has reached it. -/
  whole : ∀ x : ReadPoint, x.In calls → (reached P.change id x.sweeps).length ≤ 1 →
    (P.table (x.db uuid)).lookup id =
      RowChange.replay P.change id (seen P.change id x.sweeps) none
  /-- No fewer events at the later read, unless another pass has reached the row
  meanwhile and has events of it left to apply. -/
  forward : ∀ x y : ReadPoint, x.In calls → y.In calls → x.UpTo y →
    (reached P.change id x.sweeps).length = (reached P.change id y.sweeps).length ∨
      CaughtUp P.change id y.sweeps →
    seen P.change id x.sweeps <+: seen P.change id y.sweeps

section
variable {uuid : String → Option String} {F : EventSource → Failures indexer Db}
  {calls : List IngestCall} {db : Db} {c : String}

/-- **Reads of a projection** whose rows are opened by their first event. -/
theorem IngestRun.readsForward (hrun : IngestRun uuid F calls db)
    (hone : ∀ x ∈ calls, x.contractId = c) (happ : AppendOnly c calls) (hheads : HeadsGrow c calls)
    {ρ β : Type} {P : Projection uuid ρ} {f : ρ → β} {id : String}
    (hopen : ∀ x ∈ calls, Opened f P.change id x.finalEvents)
    (hresp : ∀ e c, P.change e = some c → c.Respects f) :
    ReadsForward uuid P f id calls where
  once := by
    intro x hx
    have hpre := hrun.sweeps_isPrefix hone happ hheads hx
    refine ⟨Sweep.seen_isPrefix hpre, ?_⟩
    rw [hrun.read_lookup hx P id]
    exact Sweep.replay_map_seen hpre (hopen _ hx.mem.1) fun e _ c hc _ => hresp e c hc
  whole := by
    intro x hx hle
    rw [hrun.read_lookup hx P id]
    exact Sweep.replay_eq_seen hle
  forward := by
    intro x y hx hy hxy h
    have hlater := hxy.later hx
    obtain ⟨hown, hgrow⟩ := hrun.sweeps_grow hone happ hheads hy
    rcases h with hsame | hdone
    · exact hlater.seen_of_same hsame
    · exact hlater.seen_of_caughtUp hgrow hown hdone

theorem CreatedFirst.opened_financing {history : List ChainEvent} (h : CreatedFirst history)
    (id : String) : Opened FinancingRow.base financingChange id history :=
  (rebuilds_financing id fun k _ => h.createdFor (.financing k)).opened

theorem CreatedFirst.opened_escrow {history : List ChainEvent} (h : CreatedFirst history)
    (id : String) : Opened EscrowRow.base (escrowChange uuid) id history := by
  intro l₁ e l₂ c heq hfirst hc hk
  obtain ⟨v, hv, rfl⟩ := escrowChange_eq_some.mp hc
  obtain ⟨contractId, d, rfl⟩ := (h.createdFor _).escrow heq hv (hk ▸ hfirst)
  exact EscrowChange.created_opens contractId d

theorem IngestCall.finalEvents_created_first {call : IngestCall}
    (h : CreatedFirst (call.source.logOf call.contractId)) : CreatedFirst call.finalEvents :=
  h.of_isPrefix (finalPart_isPrefix_self (call.source.logOf_ordered _))

/-- **Reads go forward, one pass at a time**, for what the upserts set: all of a
financing but its status, all of an escrow but its status and released amount. -/
theorem reads_forward (h : GrowingRun uuid c calls db) (id : String) :
    ReadsForward uuid (financings uuid) FinancingRow.base id calls ∧
      ReadsForward uuid (escrows uuid) EscrowRow.base id calls := by
  have hfinal : ∀ x ∈ calls, CreatedFirst x.finalEvents := by
    intro x hx
    refine IngestCall.finalEvents_created_first ?_
    rw [h.one x hx]
    exact h.created x hx
  constructor
  · refine h.run.readsForward h.one h.append h.heads
      (fun x hx => (hfinal x hx).opened_financing id) ?_
    intro e c hc
    obtain ⟨v, _, rfl⟩ := financingChange_eq_some.mp hc
    exact v.respects
  · refine h.run.readsForward h.one h.append h.heads
      (fun x hx => (hfinal x hx).opened_escrow id) ?_
    intro e c hc
    obtain ⟨v, _, rfl⟩ := escrowChange_eq_some.mp hc
    exact v.respects_base

end

/-! A financing paid into and refunded by the first call, paid into again before
the second. -/

def financingRefunded : ChainEvent :=
  financingEvent "FinancingRefunded" 102 [.int 10, .bool false, .null]

def refundedFinancing : List ChainEvent :=
  [financingCreated, financingDeposited, financingRefunded]

def repaidFinancing : List ChainEvent :=
  refundedFinancing ++ [financingEvent "FinancingDeposited" 103 [.int 5, .int 103]]

def refundingCall : IngestCall :=
  .ofRun noUuid Db.empty "CF" (.ofList refundedFinancing 115 (by decide) (by decide))

def repayingCall : IngestCall :=
  .ofRun noUuid refundingCall.after "CF" (.ofList repaidFinancing 120 (by decide) (by decide))

theorem financingCalls_growing :
    GrowingRun noUuid "CF" [refundingCall, repayingCall] repayingCall.after where
  run := by
    have hfirst := IngestRun.ofRun (F := fun _ => anyFailure)
      (fun _ _ _ _ _ => trivial) (.start : IngestRun noUuid _ _ _) "CF"
      (.ofList refundedFinancing 115 (by decide) (by decide))
    exact IngestRun.ofRun (fun _ _ _ _ _ => trivial) hfirst "CF" _
  one := by
    intro x hx
    rcases List.mem_cons.mp hx with rfl | hx
    · rfl
    · rw [List.mem_singleton.mp hx]
      rfl
  append := List.pairwise_pair.mpr fun _ _ => ⟨[_], rfl⟩
  heads := List.pairwise_pair.mpr fun _ _ => by decide
  created := by
    have hcreated : CreatedFirst repaidFinancing := by
      refine CreatedFirst.of_head (c := .financing (.created "CF" _)) rfl rfl ?_
      intro e he
      rcases List.mem_cons.mp he with rfl | he
      · rfl
      rcases List.mem_cons.mp he with rfl | he
      · rfl
      rw [List.mem_singleton.mp he]
      rfl
    intro x hx
    rcases List.mem_cons.mp hx with rfl | hx
    · exact hcreated.of_isPrefix ⟨[_], rfl⟩
    · rw [List.mem_singleton.mp hx]
      exact hcreated

/-- Between the two calls, and after the second one's first applied event. -/
def betweenCalls : ReadPoint := ⟨[], refundingCall, refundingCall.trace⟩
def afterCreated : ReadPoint := ⟨[refundingCall], repayingCall, repayingCall.trace.take 7⟩

theorem financingReads_in :
    betweenCalls.In [refundingCall, repayingCall] ∧
      afterCreated.In [refundingCall, repayingCall] ∧ betweenCalls.UpTo afterCreated :=
  ⟨⟨⟨[repayingCall], rfl⟩, List.prefix_rfl⟩, ⟨⟨[], rfl⟩, List.take_prefix _ _⟩, .inr ⟨[], rfl⟩⟩

theorem reads_forward_repaid :
    ReadsForward noUuid (financings noUuid) FinancingRow.base "va:financing:000000000003"
        [refundingCall, repayingCall] ∧
      ReadsForward noUuid (escrows noUuid) EscrowRow.base "va:financing:000000000003"
        [refundingCall, repayingCall] :=
  reads_forward financingCalls_growing _

/-- The financing after the first `n` of its events. -/
def financingAt (n : Nat) : Option FinancingRow :=
  RowChange.replay financingChange "va:financing:000000000003" (repaidFinancing.take n) none

/-- What the upsert sets shows what is drawn. -/
theorem drawn_of_base {a b : Option FinancingRow}
    (h : a.map FinancingRow.base = b.map FinancingRow.base) :
    a.map FinancingRow.drawnAmount = b.map FinancingRow.drawnAmount := by
  have hdrawn := congrArg (Option.map FinancingRow.drawnAmount) h
  rw [Option.map_map, Option.map_map] at hdrawn
  exact hdrawn

theorem replay_repaid {q : List ChainEvent}
    (h : q <+: ofRow financingChange "va:financing:000000000003" repayingCall.finalEvents) :
    q.length < 5 ∧
      RowChange.replay financingChange "va:financing:000000000003" q none =
        financingAt q.length := by
  have hrow : ofRow financingChange "va:financing:000000000003" repayingCall.finalEvents =
      repaidFinancing := rfl
  rw [hrow] at h
  exact ⟨Nat.lt_succ_of_le h.length_le, by rw [financingAt, ← List.prefix_iff_eq_take.mp h]⟩

/-- The read goes back: from a deposit of 40 with 10 refunded to nothing drawn. -/
theorem financing_read_back {p q : List ChainEvent} (hpq : p <+: q)
    (hq : q <+: ofRow financingChange "va:financing:000000000003" repayingCall.finalEvents)
    (hp₁ : ((betweenCalls.db noUuid).financingProjection.lookup "va:financing:000000000003").map
      FinancingRow.base =
        (RowChange.replay financingChange "va:financing:000000000003" p none).map FinancingRow.base)
    (hq₁ : ((afterCreated.db noUuid).financingProjection.lookup "va:financing:000000000003").map
      FinancingRow.base =
        (RowChange.replay financingChange "va:financing:000000000003" q none).map
          FinancingRow.base) : False := by
  obtain ⟨hplen, hp₂⟩ := replay_repaid (hpq.trans hq)
  obtain ⟨hqlen, hq₂⟩ := replay_repaid hq
  have h₃ : ∀ n < 5, ((betweenCalls.db noUuid).financingProjection.lookup
      "va:financing:000000000003").map FinancingRow.drawnAmount =
        (financingAt n).map FinancingRow.drawnAmount → n = 3 := by decide
  have h₁ : ∀ n < 5, ((afterCreated.db noUuid).financingProjection.lookup
      "va:financing:000000000003").map FinancingRow.drawnAmount =
        (financingAt n).map FinancingRow.drawnAmount → n = 1 := by decide
  have hp := h₃ p.length hplen (drawn_of_base (hp₂ ▸ hp₁))
  have hq := h₁ q.length hqlen (drawn_of_base (hq₂ ▸ hq₁))
  have hle := hpq.length_le
  omega

/-- Nothing drawn in a row that is refunded all the same: no first part of the
history leaves that. -/
theorem financing_read_unseen {q : List ChainEvent}
    (hq : q <+: ofRow financingChange "va:financing:000000000003" repayingCall.finalEvents) :
    (afterCreated.db noUuid).financingProjection.lookup "va:financing:000000000003" ≠
      RowChange.replay financingChange "va:financing:000000000003" q none := by
  intro heq
  obtain ⟨hqlen, hq₂⟩ := replay_repaid hq
  rw [hq₂] at heq
  have hnone : ∀ n < 5, ((afterCreated.db noUuid).financingProjection.lookup
      "va:financing:000000000003").map (fun r => (r.drawnAmount, r.status)) ≠
        (financingAt n).map fun r => (r.drawnAmount, r.status) := by decide
  exact hnone q.length hqlen (by rw [heq])

/-! An escrow released in part by the first call, with the release added again by
the second. -/

theorem escrowCalls_growing :
    ∃ db, GrowingRun noUuid "CE" (escrowCalls depositedSource) db := by
  obtain ⟨db, hrun⟩ := escrowCalls_run depositedSource
  obtain ⟨hone, happ, hheads, _, hfirst⟩ :=
    escrowCalls_valid (rfl : depositedSource.logOf "CE" = _) (by decide) rfl (by decide)
  exact ⟨db, hrun, hone, happ, hheads, hfirst⟩

/-- After both calls. -/
def escrowAgain : ReadPoint :=
  ⟨(escrowCalls depositedSource).take 1,
    (escrowCalls depositedSource).get ⟨1, by decide⟩,
    ((escrowCalls depositedSource).get ⟨1, by decide⟩).trace⟩

theorem escrow_read_unseen {q : List ChainEvent}
    (hq : q <+: ofRow (escrowChange noUuid) "va:escrow:000000000011"
      escrowAgain.call.finalEvents) :
    (escrowAgain.db noUuid).escrowProjection.lookup "va:escrow:000000000011" ≠
      RowChange.replay (escrowChange noUuid) "va:escrow:000000000011" q none := by
  intro heq
  have hrow : ofRow (escrowChange noUuid) "va:escrow:000000000011"
      escrowAgain.call.finalEvents = depositedSource.logOf "CE" := rfl
  rw [hrow] at hq
  have hnone : ∀ n < 4, ((escrowAgain.db noUuid).escrowProjection.lookup
      "va:escrow:000000000011").map EscrowRow.releasedAmount ≠
        (RowChange.replay (escrowChange noUuid) "va:escrow:000000000011"
          ((depositedSource.logOf "CE").take n) none).map EscrowRow.releasedAmount := by decide
  have hlen : q.length < 4 := Nat.lt_succ_of_le hq.length_le
  refine hnone q.length hlen ?_
  rw [← List.prefix_iff_eq_take.mp hq, heq]

/-- **Reads go back**, and a row read is not always what a first part of the
history leaves. -/
theorem reads_go_back :
    GrowingRun noUuid "CF" [refundingCall, repayingCall] repayingCall.after ∧
      betweenCalls.In [refundingCall, repayingCall] ∧
      afterCreated.In [refundingCall, repayingCall] ∧ betweenCalls.UpTo afterCreated ∧
      (¬ ∃ p q, p <+: q ∧
        q <+: ofRow financingChange "va:financing:000000000003" repayingCall.finalEvents ∧
        ((betweenCalls.db noUuid).financingProjection.lookup "va:financing:000000000003").map
            FinancingRow.base = (RowChange.replay financingChange "va:financing:000000000003" p
              none).map FinancingRow.base ∧
        ((afterCreated.db noUuid).financingProjection.lookup "va:financing:000000000003").map
            FinancingRow.base = (RowChange.replay financingChange "va:financing:000000000003" q
              none).map FinancingRow.base) ∧
      (∀ q, q <+: ofRow financingChange "va:financing:000000000003" repayingCall.finalEvents →
        (afterCreated.db noUuid).financingProjection.lookup "va:financing:000000000003" ≠
          RowChange.replay financingChange "va:financing:000000000003" q none) ∧
      (∃ db, GrowingRun noUuid "CE" (escrowCalls depositedSource) db) ∧
      escrowAgain.In (escrowCalls depositedSource) ∧
      ∀ q, q <+: ofRow (escrowChange noUuid) "va:escrow:000000000011"
          escrowAgain.call.finalEvents →
        (escrowAgain.db noUuid).escrowProjection.lookup "va:escrow:000000000011" ≠
          RowChange.replay (escrowChange noUuid) "va:escrow:000000000011" q none := by
  obtain ⟨hx, hy, hxy⟩ := financingReads_in
  refine ⟨financingCalls_growing, hx, hy, hxy, ?_, fun _ => financing_read_unseen,
    escrowCalls_growing, ⟨⟨[], rfl⟩, List.prefix_rfl⟩, fun _ => escrow_read_unseen⟩
  intro h
  obtain ⟨p, q, hpq, hq, hp₁, hq₁⟩ := h
  exact financing_read_back hpq hq hp₁ hq₁

end VerdantBackend
