import VerdantBackend.Indexer.Finality

/-!
# The passes of one contract

Over an append-only log with heads that never go back, every projection pass of
a contract works through a first part of what any later pass works through.
-/

namespace VerdantBackend

open Prog

/-- The events at or below the floor. -/
def finalPart (log : List ChainEvent) (f : Int) : List ChainEvent :=
  log.filter fun e => e.ledgerSequence ≤ f

theorem finalPart_lowerOn (log : List ChainEvent) (f : Int) :
    Log.LowerOn ChainEvent.position log fun e => decide (e.ledgerSequence ≤ f) := by
  intro a _ b _ hab hb
  rw [decide_eq_true_eq] at hb ⊢
  exact (Cursor.ledger_le_of_lt hab).trans hb

theorem finalPart_isPrefix {log log' : List ChainEvent} {f g : Int}
    (hord : Log.Ordered ChainEvent.position log') (hlog : log <+: log') (hfg : f ≤ g) :
    finalPart log f <+: finalPart log' g := by
  refine hord.filter_isPrefix_filter hlog (finalPart_lowerOn log' f) ?_
  intro e he
  rw [decide_eq_true_eq] at he ⊢
  exact he.trans hfg

theorem finalPart_isPrefix_self {log : List ChainEvent} {f : Int}
    (hord : Log.Ordered ChainEvent.position log) : finalPart log f <+: log :=
  hord.filter_isPrefix (finalPart_lowerOn log f)

variable {uuid : String → Option String} {F : EventSource → Failures indexer Db}
  {calls : List IngestCall} {db : Db} {c : String}

/-- Of the calls for one contract, the last sees the log and the floor furthest on. -/
theorem last_sees_most {call x : IngestCall} (hone : ∀ y ∈ calls ++ [call], y.contractId = c)
    (happ : AppendOnly c (calls ++ [call])) (hheads : HeadsGrow c (calls ++ [call]))
    (hx : x ∈ calls) :
    x.source.logOf c <+: call.source.logOf c ∧ x.source.floor ≤ call.source.floor := by
  have hcall : call ∈ [call] := List.mem_singleton_self call
  have hxc := hone x (List.mem_append_left _ hx)
  have hcc := hone call (List.mem_append_right _ hcall)
  have hhead := (List.pairwise_append.mp hheads).2.2 x hx call hcall hxc hcc
  refine ⟨(List.pairwise_append.mp happ).2.2 x hx call hcall hxc hcc, ?_⟩
  rw [EventSource.floor, EventSource.floor]
  omega

/-- **The invariant of one contract**: coherent with every log that extends all
the logs its calls saw. -/
theorem IngestRun.coherent (hrun : IngestRun uuid F calls db) (happ : AppendOnly c calls)
    {log : List ChainEvent}
    (hlog : ∀ call ∈ calls, call.contractId = c → call.source.logOf c <+: log) :
    Coherent c log db := by
  induction hrun generalizing log with
  | start => exact .empty c log
  | @call calls call _ hout ih =>
      obtain ⟨happ', _, hlast⟩ := List.pairwise_append.mp happ
      have hraw := (ingest_effect hout).raw
      by_cases hc : call.contractId = c
      · have hbefore : Coherent c (call.source.logOf c) call.before :=
          ih happ' fun x hx hxc => hlast x hx call (by simp) hxc hc
        subst hc
        exact (hbefore.step hraw).1.mono (hlog call (by simp) rfl)
      · have hbefore := ih happ' fun x hx hxc => hlog x (by simp [hx]) hxc
        have hother := hraw.other (Ne.symm hc)
        exact hbefore.of_same hother.1 hother.2

/-- Before a call of `c`, `c` is coherent with the log the call sees. -/
theorem IngestRun.coherent_before (hrun : IngestRun uuid F calls db)
    (happ : AppendOnly c calls) {call : IngestCall} (hcall : call ∈ calls)
    (hc : call.contractId = c) : Coherent c (call.source.logOf c) call.before := by
  induction hrun with
  | start => cases hcall
  | @call calls last hprev _ ih =>
      obtain ⟨happ', _, hlast⟩ := List.pairwise_append.mp happ
      rcases List.mem_append.mp hcall with hcall | hcall
      · exact ih happ' hcall
      · obtain rfl := List.mem_singleton.mp hcall
        exact hprev.coherent happ' fun x hx hxc => hlast x hx call (by simp) hxc hc

/-- A call applies a first part of the final part of its log, all of it when it
completes a pass. -/
theorem IngestEffect.applied_isPrefix {source : EventSource} {G : Failures indexer Db}
    {db db' : Db} {tr : List indexer.Obs} {r : Except ChainEventsError Nat}
    (h : IngestEffect uuid source G c db tr r db') (hcoh : Coherent c (source.logOf c) db) :
    appliedIn tr <+: finalPart (source.logOf c) source.floor ∧
      ∀ f, floorIn tr = some f →
        (db'.indexedEvents.finalized c f = finalPart (source.logOf c) source.floor ∧
          ((∃ n, r = .ok n) → appliedIn tr = finalPart (source.logOf c) source.floor)) := by
  cases h with
  | unpulled hq | idle _ hq =>
      rw [hq.applied, hq.floor]
      exact ⟨List.nil_prefix, by simp⟩
  | stored _ hs | unprojected _ _ hs _ =>
      rw [hs.applied, hs.floor]
      exact ⟨List.nil_prefix, by simp⟩
  | aborted hev hz hfin hs hall _ =>
      have hpart := hcoh.pulled_finalized hev _ source.floor |>.symm.trans hfin
      rw [hs.applied, hs.floor, finalPart, hpart]
      refine ⟨List.prefix_append _ _, ?_⟩
      intro f hf
      cases hf
      rw [(applyAll_raw hall).events, hfin]
      exact ⟨rfl, by simp⟩
  | completed hev hz hfin hs hall =>
      have hpart := hcoh.pulled_finalized hev _ source.floor |>.symm.trans hfin
      rw [hs.applied, hs.floor, finalPart, hpart]
      refine ⟨List.prefix_rfl, ?_⟩
      intro f hf
      cases hf
      rw [(applyAll_raw hall).events, hfin]
      exact ⟨rfl, fun _ => rfl⟩

/-- **Passes grow**: what a call applies is a first part of the final part of
any later call's log. -/
theorem IngestRun.applied_isPrefix (hrun : IngestRun uuid F calls db)
    (happ : AppendOnly c calls) {call : IngestCall} (hcall : call ∈ calls)
    (hc : call.contractId = c) {log : List ChainEvent} {f : Int}
    (hord : Log.Ordered ChainEvent.position log) (hlog : call.source.logOf c <+: log)
    (hf : call.source.floor ≤ f) : appliedIn call.trace <+: finalPart log f := by
  have hcoh := hrun.coherent_before happ hcall hc
  subst hc
  exact ((hrun.call_effect hcall).applied_isPrefix hcoh).1.trans (finalPart_isPrefix hord hlog hf)

/-! ## Completed calls -/

/-- The call finds something to pull. -/
def IngestCall.Pulls (call : IngestCall) : Prop :=
  call.source.eventsAfter call.contractId (cursorOf call.before call.contractId) ≠ []

/-- The final events of the log the call sees. -/
def IngestCall.finalEvents (call : IngestCall) : List ChainEvent :=
  finalPart (call.source.logOf call.contractId) call.source.floor

/-- What a completed call did: nothing, when there was nothing to pull, or one
pass over the final events of its log. -/
theorem IngestRun.completed (hrun : IngestRun uuid F calls db) (happ : AppendOnly c calls)
    {call : IngestCall} (hcall : call ∈ calls) (hc : call.contractId = c)
    (hok : ∃ n, call.result = .ok n) :
    (¬ call.Pulls ∧ floorIn call.trace = none ∧ appliedIn call.trace = [] ∧
        call.after = call.before) ∨
      (call.Pulls ∧ floorIn call.trace = some call.source.floor ∧
        call.after.indexedEvents.finalized c call.source.floor = call.finalEvents ∧
        appliedIn call.trace = call.finalEvents) := by
  have hcoh := hrun.coherent_before happ hcall hc
  have heff := hrun.call_effect hcall
  obtain ⟨n, hn⟩ := hok
  subst hc
  have hpart := (heff.applied_isPrefix hcoh).2
  rw [hn] at heff
  rcases heff.of_ok with ⟨hnil, _, hsame, hq⟩ | ⟨hpull, hfloor, _, _⟩
  · exact .inl ⟨fun h => h hnil, hq.floor, hq.applied, hsame⟩
  · obtain ⟨hfin, happlied⟩ := hpart _ hfloor
    exact .inr ⟨hpull, hfloor, hfin, happlied ⟨n, hn⟩⟩

end VerdantBackend
