import VerdantBackend.Indexer.Reorg

/-!
# The stub event source

`StubEventSource` of `src/indexer/chain.rs`: pushed events in a `BTreeMap` keyed by
their position, without the contract. It delivers what was pushed unless a later push
took the position, of whichever contract; to the indexer it is an event source.
-/

namespace VerdantBackend

/-- `StubEventSource`: the values of the map in the order of their keys. -/
structure StubEventSource where
  events : List ChainEvent
  head : Int
  ordered : Log.Ordered ChainEvent.position events

namespace StubEventSource

/-- `new`. -/
def new : StubEventSource := ⟨[], 0, List.Pairwise.nil⟩

/-- `push`. -/
def push (source : StubEventSource) (event : ChainEvent) : StubEventSource :=
  { source with
    events := Log.put ChainEvent.position event source.events
    ordered := source.ordered.put event }

/-- `set_head`. -/
def setHead (source : StubEventSource) (ledger : Int) : StubEventSource :=
  { source with head := ledger }

/-- `events_after`. -/
def eventsAfter (source : StubEventSource) (contractId : String) (cursor : Cursor) :
    List ChainEvent :=
  (source.events.filter fun e => e.contractId = contractId).filter fun e =>
    e.position.isAfter cursor

/-- What a test does to the source. -/
inductive StubOp where
  | push (event : ChainEvent)
  | setHead (ledger : Int)

def StubOp.run (source : StubEventSource) : StubOp → StubEventSource
  | .push event => source.push event
  | .setHead ledger => source.setHead ledger

/-- The source after the operations, the latest first. -/
def after : List StubOp → StubEventSource
  | [] => new
  | op :: ops => op.run (after ops)

/-- The events pushed, the latest first. -/
def pushed (ops : List StubOp) : List ChainEvent :=
  ops.filterMap fun
    | .push event => some event
    | .setHead _ => none

/-- The head set last, `0` at first. -/
def headOf : List StubOp → Int
  | [] => 0
  | .setHead ledger :: _ => ledger
  | .push _ :: ops => headOf ops

theorem head_after (ops : List StubOp) : (after ops).head = headOf ops := by
  induction ops with
  | nil => rfl
  | cons op ops ih =>
      cases op with
      | push e => exact ih
      | setHead ledger => rfl

/-- An event is there when it was pushed and no later push took its position. -/
theorem mem_events_after {ops : List StubOp} {e : ChainEvent} :
    e ∈ (after ops).events ↔
      ∃ later earlier, pushed ops = later ++ e :: earlier ∧
        ∀ x ∈ later, x.position ≠ e.position := by
  induction ops with
  | nil => simp [after, new, pushed]
  | cons op ops ih =>
      cases op with
      | setHead ledger => exact ih
      | push x =>
          have hpushed : pushed (.push x :: ops) = x :: pushed ops := rfl
          rw [after, StubOp.run, push, Log.mem_put (after ops).ordered, ih, hpushed]
          constructor
          · rintro (rfl | ⟨⟨later, earlier, heq, hlater⟩, hne⟩)
            · exact ⟨[], pushed ops, rfl, by simp⟩
            · refine ⟨x :: later, earlier, by rw [heq]; rfl, ?_⟩
              rw [List.forall_mem_cons]
              exact ⟨Ne.symm hne, hlater⟩
          · rintro ⟨later, earlier, heq, hlater⟩
            cases later with
            | nil =>
                obtain ⟨rfl, _⟩ := List.cons.inj heq
                exact .inl rfl
            | cons y later =>
                obtain ⟨rfl, htail⟩ := List.cons.inj heq
                rw [List.forall_mem_cons] at hlater
                exact .inr ⟨⟨later, earlier, htail, hlater.2⟩, Ne.symm hlater.1⟩

/-- The stub as an event source, when nothing was pushed before `Cursor::START`. -/
def chain (source : StubEventSource) (h : ∀ e ∈ source.events, Cursor.START < e.position) :
    EventSource :=
  .ofList source.events source.head source.ordered h

/-- **What the stub delivers**: after any pushes, exactly the events of the contract after
the cursor whose position no later push took, in position order, each once; and the head
set last. Where all positions are after the start it answers as an event source. -/
theorem stub_meets_contract (ops : List StubOp) (contractId : String) (cursor : Cursor) :
    (∀ e, e ∈ (after ops).eventsAfter contractId cursor ↔
      e.contractId = contractId ∧ cursor < e.position ∧
        ∃ later earlier, pushed ops = later ++ e :: earlier ∧
          ∀ x ∈ later, x.position ≠ e.position) ∧
    Log.Ordered ChainEvent.position ((after ops).eventsAfter contractId cursor) ∧
    (after ops).head = headOf ops ∧
    ((∀ e ∈ pushed ops, Cursor.START < e.position) →
      ∃ source : EventSource, source.head = headOf ops ∧
        ∀ c p, (after ops).eventsAfter c p = source.eventsAfter c p) := by
  refine ⟨?_, ((after ops).ordered.filter _).filter _, head_after ops, ?_⟩
  · intro e
    rw [eventsAfter, List.mem_filter, List.mem_filter, mem_events_after, Cursor.isAfter_iff,
      decide_eq_true_eq]
    constructor
    · intro h
      exact ⟨h.1.2, h.2, h.1.1⟩
    · intro h
      exact ⟨⟨h.2.2, h.1⟩, h.2.1⟩
  · intro hstart
    have hevents : ∀ e ∈ (after ops).events, Cursor.START < e.position := by
      intro e he
      obtain ⟨later, earlier, heq, _⟩ := mem_events_after.mp he
      apply hstart e
      rw [heq]
      simp
    exact ⟨(after ops).chain hevents, head_after ops, fun c p => rfl⟩

/-- Three pushes of one contract and one of another, then the head. -/
def stubOps : List StubOp :=
  [.setHead 200, .push (forkEvent 101 (.int 9)), .push (forkEvent 100 (.int 8)),
    .push (forkEvent 100 (.int 7)), .push sampleCreated]

theorem stub_meets_contract_pushed :
    (after stubOps).head = 200 ∧
    (∃ source : EventSource, source.head = 200 ∧
      ∀ c p, (after stubOps).eventsAfter c p = source.eventsAfter c p) ∧
    forkEvent 100 (.int 8) ∈ (after stubOps).eventsAfter "CV" Cursor.START := by
  refine ⟨(stub_meets_contract stubOps "CV" Cursor.START).2.2.1, ?_, ?_⟩
  · refine (stub_meets_contract stubOps "CV" Cursor.START).2.2.2 ?_
    intro e he
    simp only [pushed, stubOps, List.filterMap_cons, List.filterMap_nil, List.mem_cons,
      List.not_mem_nil, or_false] at he
    rcases he with rfl | rfl | rfl | rfl <;> decide
  · refine ((stub_meets_contract stubOps "CV" Cursor.START).1 _).mpr ⟨rfl, by decide, ?_⟩
    refine ⟨[forkEvent 101 (.int 9)], [forkEvent 100 (.int 7), sampleCreated], rfl, ?_⟩
    simp [forkEvent, sampleEvent, ChainEvent.position]

end StubEventSource

end VerdantBackend
