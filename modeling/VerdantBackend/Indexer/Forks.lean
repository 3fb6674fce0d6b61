import VerdantBackend.Indexer.Reorg
import VerdantBackend.Indexer.Rounds

/-!
# Following a chain that forks

A run in which the branch of one contract is replaced any number of times, each
time above every floor its passes were given, and the operator rewinds to the
divergent ledger before the contract is ingested again. Ingests and rewinds may
fail after any of their statements. What was ever applied stays on the branch of
the day, and the raw store is a first part of it whenever no rewind is due.
-/

namespace VerdantBackend

open Prog

/-- The database, the branch of the contract as it is now, and the divergent ledger
while a rewind is due. -/
structure Followed where
  db : Db
  branch : List ChainEvent
  due : Option Int

def Followed.start : Followed := ⟨Db.empty, [], none⟩

inductive ForkEvent where
  | ingested (call : IngestCall)
  | forked (d : Int) (branch : List ChainEvent)
  | rewound (d : Int)
  | rewindFailed (d : Int)

/-- The floors that calls of `c` were given. -/
def floorsOf (c : String) (past : List ForkEvent) : List Int :=
  past.filterMap fun
    | .ingested call => if call.contractId = c then some call.source.floor else none
    | _ => none

/-- What calls of `c` applied. -/
def appliedOf (c : String) (past : List ForkEvent) : List ChainEvent :=
  past.flatMap fun
    | .ingested call => if call.contractId = c then appliedIn call.trace else []
    | _ => []

/-- One event in the life of contract `c`, after `past`. -/
inductive ForkStep (uuid : String → Option String) (F : EventSource → Failures indexer Db)
    (c : String) (past : List ForkEvent) : Followed → ForkEvent → Followed → Prop where
  /-- An ingest of `c`: no rewind is due, and the branch may have grown. -/
  | own {s : Followed} {call : IngestCall} : s.due = none → call.contractId = c →
      s.branch <+: call.source.logOf c → call.before = s.db →
      Outcome (exec uuid call.source) (F call.source) (ingest c) call.before call.trace
        call.result call.after →
      ForkStep uuid F c past s (.ingested call) ⟨call.after, call.source.logOf c, none⟩
  /-- An ingest of another contract. -/
  | other {s : Followed} {call : IngestCall} : call.contractId ≠ c → call.before = s.db →
      Outcome (exec uuid call.source) (F call.source) (ingest call.contractId) call.before
        call.trace call.result call.after →
      ForkStep uuid F c past s (.ingested call) ⟨call.after, s.branch, s.due⟩
  /-- The branch is replaced from `d` on, above every floor so far. -/
  | forked {s : Followed} {d : Int} {branch : List ChainEvent} :
      (∀ f ∈ floorsOf c past, f < d) → Log.Ordered ChainEvent.position branch →
      (∀ e ∈ branch, Cursor.START < e.position) →
      s.branch.filter (fun e => e.ledgerSequence < d) =
        branch.filter (fun e => e.ledgerSequence < d) →
      ForkStep uuid F c past s (.forked d branch)
        ⟨s.db, branch, some (s.due.elim d fun d' => min d d')⟩
  /-- A rewind of `c`, at or below the divergent ledger when one is due. -/
  | rewound {s : Followed} {d : Int} {source : EventSource} {tr db} :
      (∀ d' ∈ s.due, d ≤ d') →
      Outcome (exec uuid source) (F source) (rewind c d) s.db tr (.ok ()) db →
      ForkStep uuid F c past s (.rewound d) ⟨db, s.branch, none⟩
  /-- A rewind that failed is due. -/
  | rewindFailed {s : Followed} {d : Int} {source : EventSource} {tr err db} :
      (∀ d' ∈ s.due, d ≤ d') →
      Outcome (exec uuid source) (F source) (rewind c d) s.db tr (.error err) db →
      ForkStep uuid F c past s (.rewindFailed d) ⟨db, s.branch, some d⟩

/-- A run, its latest event first. -/
inductive ForkRun (uuid : String → Option String) (F : EventSource → Failures indexer Db)
    (c : String) : List ForkEvent → Followed → Prop where
  | start : ForkRun uuid F c [] .start
  | step {past s e s'} : ForkRun uuid F c past s → ForkStep uuid F c past s e s' →
      ForkRun uuid F c (e :: past) s'

section
variable {uuid : String → Option String} {source : EventSource} {F : Failures indexer Db}
  {c : String} {db db' : Db} {tr : List indexer.Obs} {d : Int}

/-- What is left when a rewind stopped after its first statement. -/
def Db.halfRewound (db : Db) (c : String) (d : Int) : Db :=
  { db with
    indexedEvents := db.indexedEvents.deleteWhere fun e =>
      e.contractId = c && e.ledgerSequence ≥ d }

/-- What a failed rewind can leave. -/
theorem rewind_error_outcome {err : SqlxError}
    (h : Outcome (exec uuid source) F (rewind c d) db tr (.error err) db') :
    db' = db ∨ db' = db.halfRewound c d := by
  rw [rewind, outcome_bind_iff] at h
  rcases h with ⟨err, _, h⟩ | ⟨_, db₁, tr₁, tr₂, rfl, h₁, h₂⟩
  · rcases outcome_call_iff.mp h with ⟨_, _, _, hr⟩ | ⟨_, _, _, _, hdb⟩
    · cases hr
    · exact .inl hdb
  · rcases outcome_call_iff.mp h₁ with ⟨_, hx, _, _⟩ | ⟨_, _, _, hr, _⟩
    swap
    · cases hr
    cases hx
    rcases outcome_call_iff.mp h₂ with ⟨_, _, _, hr⟩ | ⟨_, _, _, _, rfl⟩
    · cases hr
    · exact .inr rfl

/-- Below a ledger that both branches share. -/
theorem below_isPrefix {l branch : List ChainEvent}
    (hord : Log.Ordered ChainEvent.position branch)
    (h : l.filter (fun e => e.ledgerSequence < d) <+:
      branch.filter fun e => e.ledgerSequence < d) :
    l.filter (fun e => e.ledgerSequence < d) <+: branch :=
  h.trans (hord.filter_isPrefix (lowerOn_lt_ledger branch d))

theorem filter_below_below {l : List ChainEvent} {d d' : Int} (h : d ≤ d') :
    (l.filter fun e => e.ledgerSequence < d').filter (fun e => e.ledgerSequence < d) =
      l.filter fun e => e.ledgerSequence < d := by
  rw [List.filter_filter]
  apply List.filter_congr
  intro e _
  by_cases hd : e.ledgerSequence < d
  · simp [hd, lt_of_lt_of_le hd h]
  · simp [hd]

end

/-! ## The invariant -/

structure FollowedInv (c : String) (past : List ForkEvent) (s : Followed) : Prop where
  ordered : Log.Ordered ChainEvent.position s.branch
  afterStart : ∀ e ∈ s.branch, Cursor.START < e.position
  storable : ∀ e ∈ s.db.indexedEvents.rows, e.storable = true
  coherent : s.due = none → Coherent c s.branch s.db
  belowDue : ∀ d ∈ s.due,
    (s.db.indexedEvents.ofContract c).filter (fun e => e.ledgerSequence < d) <+: s.branch
  applied : ∀ e ∈ appliedOf c past,
    e ∈ s.branch ∧ ∃ f ∈ floorsOf c past, e.ledgerSequence ≤ f

section
variable {uuid : String → Option String} {F : EventSource → Failures indexer Db}
  {c : String} {past : List ForkEvent} {s s' : Followed} {e : ForkEvent}

theorem FollowedInv.start (c : String) : FollowedInv c [] .start where
  ordered := List.Pairwise.nil
  afterStart := by simp [Followed.start]
  storable := by simp [Followed.start, Db.empty]
  coherent _ := .empty c []
  belowDue := by simp [Followed.start]
  applied := by simp [appliedOf]

/-- Whatever is due, the raw events below it are a first part of the branch. -/
theorem FollowedInv.below (h : FollowedInv c past s) {d : Int} (hd : ∀ d' ∈ s.due, d ≤ d') :
    (s.db.indexedEvents.ofContract c).filter (fun e => e.ledgerSequence < d) <+: s.branch := by
  cases hdue : s.due with
  | none =>
      apply below_isPrefix h.ordered
      exact (h.coherent hdue).stored.filter _
  | some d' =>
      have hle : d ≤ d' := hd d' hdue
      apply below_isPrefix h.ordered
      rw [← filter_below_below hle]
      exact (h.belowDue d' hdue).filter _

theorem floorsOf_ingested (c : String) (call : IngestCall) (past : List ForkEvent) :
    floorsOf c (.ingested call :: past) =
      (if call.contractId = c then [call.source.floor] else []) ++ floorsOf c past := by
  by_cases hc : call.contractId = c <;> simp [floorsOf, hc]

theorem appliedOf_ingested (c : String) (call : IngestCall) (past : List ForkEvent) :
    appliedOf c (.ingested call :: past) =
      (if call.contractId = c then appliedIn call.trace else []) ++ appliedOf c past := by
  simp [appliedOf]

/-- **One event** keeps the invariant. -/
theorem FollowedInv.step (h : FollowedInv c past s) (hstep : ForkStep uuid F c past s e s') :
    FollowedInv c (e :: past) s' := by
  cases hstep with
  | @own call hdue hc hbranch hbefore hout =>
      have heff := ingest_effect hout
      have hcoh : Coherent c (call.source.logOf c) call.before := by
        rw [hbefore]
        exact (h.coherent hdue).mono hbranch
      have hafter := (hcoh.step heff.raw).1
      refine ⟨call.source.logOf_ordered c, ?_, ?_, fun _ => hafter, by simp, ?_⟩
      · intro e he
        exact call.source.afterStart e (EventSource.mem_logOf.mp he).1
      · apply hout.keeps (P := fun db => ∀ e ∈ db.indexedEvents.rows, e.storable = true)
          (fun _ _ _ _ hx hdb => exec_storable hx hdb)
        rw [hbefore]
        exact h.storable
      · rw [appliedOf_ingested, floorsOf_ingested, if_pos hc, if_pos hc]
        intro e he
        rcases List.mem_append.mp he with he | he
        · obtain ⟨hmem, hle⟩ := heff.applied_final he
          exact ⟨hafter.stored.subset hmem, call.source.floor, by simp, hle⟩
        · obtain ⟨hmem, f, hf, hle⟩ := h.applied e he
          exact ⟨hbranch.subset hmem, f, List.mem_append_right _ hf, hle⟩
  | @other call hc hbefore hout =>
      have hother := (ingest_effect hout).raw.other (Ne.symm hc)
      rw [hbefore] at hother
      refine ⟨h.ordered, h.afterStart, ?_, ?_, ?_, ?_⟩
      · apply hout.keeps (P := fun db => ∀ e ∈ db.indexedEvents.rows, e.storable = true)
          (fun _ _ _ _ hx hdb => exec_storable hx hdb)
        rw [hbefore]
        exact h.storable
      · intro hdue
        exact (h.coherent hdue).of_same hother.1 hother.2
      · intro d hd
        rw [hother.1]
        exact h.belowDue d hd
      · rw [appliedOf_ingested, floorsOf_ingested, if_neg hc, if_neg hc]
        exact h.applied
  | @forked d branch hfloors hord hstart hagree =>
      refine ⟨hord, hstart, h.storable, by simp, ?_, ?_⟩
      · intro m hm
        obtain rfl : s.due.elim d (fun d' => min d d') = m := by simpa using hm
        have hle : s.due.elim d (fun d' => min d d') ≤ d := by
          cases s.due with
          | none => exact le_refl d
          | some d' => exact min_le_left d d'
        have hbelow := h.below (d := s.due.elim d fun d' => min d d') (by
          intro d' hd'
          rw [Option.mem_def.mp hd']
          exact min_le_right d d')
        generalize s.due.elim d (fun d' => min d d') = m at hle hbelow
        -- below `m` the two branches are one
        have hshared := hbelow.filter fun e => decide (e.ledgerSequence < m)
        rw [filter_below_below (le_refl m), ← filter_below_below hle (l := s.branch), hagree,
          filter_below_below hle] at hshared
        exact below_isPrefix hord hshared
      · intro e he
        obtain ⟨hmem, f, hf, hle⟩ := h.applied e he
        have hshared : e ∈ s.branch.filter fun e => e.ledgerSequence < d := by
          rw [List.mem_filter, decide_eq_true_eq]
          exact ⟨hmem, lt_of_le_of_lt hle (hfloors f hf)⟩
        rw [hagree] at hshared
        exact ⟨(List.mem_filter.mp hshared).1, f, hf, hle⟩
  | @rewound d source tr db hd hout =>
      obtain rfl := rewind_outcome hout
      refine ⟨h.ordered, h.afterStart, ?_, ?_, by simp, h.applied⟩
      · exact hout.keeps (P := fun db => ∀ e ∈ db.indexedEvents.rows, e.storable = true)
          (fun _ _ _ _ hx hdb => exec_storable hx hdb) h.storable
      · intro _
        refine ⟨?_, ?_⟩
        · rw [Db.rewound_ofContract]
          exact h.below hd
        · intro p hp
          rw [Db.rewound, Finmap.lookup_erase] at hp
          cases hp
  | @rewindFailed d source tr err db hd hout =>
      refine ⟨h.ordered, h.afterStart, ?_, by simp, ?_, h.applied⟩
      · exact hout.keeps (P := fun db => ∀ e ∈ db.indexedEvents.rows, e.storable = true)
          (fun _ _ _ _ hx hdb => exec_storable hx hdb) h.storable
      · intro m hm
        obtain rfl : d = m := by simpa using hm
        rcases rewind_error_outcome hout with rfl | rfl
        · exact h.below hd
        · have hsame : (s.db.halfRewound c d).indexedEvents.ofContract c =
              (s.db.indexedEvents.ofContract c).filter fun e => e.ledgerSequence < d :=
            Db.rewound_ofContract s.db c d
          rw [hsame, filter_below_below (le_refl d)]
          exact h.below hd

theorem ForkRun.inv (hrun : ForkRun uuid F c past s) : FollowedInv c past s := by
  induction hrun with
  | start => exact .start c
  | step _ hstep ih => exact ih.step hstep

/-- **Following forks.** After any number of forks, failures and rewinds: whatever was
applied is on the branch of the day; when no rewind is due, the raw events are a first
part of the branch that covers everything up to the cursor, and a tick that nothing
disturbs stores all that the database takes of the branch. -/
theorem follows_forks (hrun : ForkRun uuid F c past s) :
    (∀ e ∈ appliedOf c past, e ∈ s.branch) ∧
      (s.due = none →
        s.db.indexedEvents.ofContract c <+: s.branch ∧
        (∀ e ∈ s.branch, e.position ≤ cursorOf s.db c →
          e ∈ s.db.indexedEvents.ofContract c) ∧
        ∀ (source : EventSource) (contractIds : List String), c ∈ contractIds →
          s.branch <+: source.logOf c →
          (s.db.ticked uuid source contractIds).indexedEvents.ofContract c =
            (source.logOf c).takeWhile ChainEvent.storable) := by
  have h := hrun.inv
  refine ⟨fun e he => (h.applied e he).1, ?_⟩
  intro hdue
  have hcoh := h.coherent hdue
  refine ⟨hcoh.stored, hcoh.covered h.ordered h.afterStart, ?_⟩
  intro source contractIds hc hbranch
  refine ((hcoh.mono hbranch).tick_settles hc ?_).stored
  intro e he
  exact h.storable e (EventStore.mem_ofContract.mp he).1

/-- The raw store after a fork at 110 and the rewind to it. -/
theorem follows_forks_rewound :
    forkRewound.indexedEvents.ofContract "CV" <+: newFork.logOf "CV" := by
  have hown : ForkRun noUuid (fun _ => anyFailure) "CV" [.ingested forkIngested]
      ⟨forkIngested.after, oldFork.logOf "CV", none⟩ := by
    refine .step .start (.own rfl rfl List.nil_prefix rfl ?_)
    exact (outcome_run (exec noUuid oldFork) (ingest "CV") Db.empty).mono
      (fun _ _ _ _ => trivial)
  have hforked : ForkRun noUuid (fun _ => anyFailure) "CV"
      [.forked 110 (newFork.logOf "CV"), .ingested forkIngested]
      ⟨forkIngested.after, newFork.logOf "CV", some 110⟩ :=
    hown.step (.forked (by decide) (newFork.logOf_ordered "CV")
      (fun e he => newFork.afterStart e (EventSource.mem_logOf.mp he).1) (by rfl))
  have hrewind := (outcome_run (exec noUuid oldFork) (rewind "CV" 110) forkIngested.after).mono
    (fun _ _ _ _ => trivial)
  have hrewound : ForkRun noUuid (fun _ => anyFailure) "CV"
      [.rewound 110, .forked 110 (newFork.logOf "CV"), .ingested forkIngested]
      ⟨forkRewound, newFork.logOf "CV", none⟩ :=
    hforked.step (.rewound (by simp) hrewind)
  exact ((follows_forks hrewound).2 rfl).1

end

end VerdantBackend
