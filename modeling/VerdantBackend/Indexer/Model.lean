import VerdantBackend.Json
import Mathlib.Data.Prod.Lex
import Mathlib.Order.Lex

/-!
# Indexer model

`src/indexer/model.rs`: a decoded chain event, and the per-contract cursor
with its order. `Cursor.isAfter` is the comparison as the source writes it;
`isAfter_iff` ties it to the lexicographic order the proofs use.
-/

namespace VerdantBackend

/-- `Cursor`: a position in the event stream of one contract. -/
structure Cursor where
  ledgerSequence : Int
  operationIndex : Int
  eventIndex : Int
deriving DecidableEq, Repr

namespace Cursor

/-- `Cursor::START`. -/
def START : Cursor := ⟨0, -1, -1⟩

/-- `Cursor::is_after`. -/
def isAfter (self other : Cursor) : Bool :=
  self.ledgerSequence > other.ledgerSequence
    || (self.ledgerSequence == other.ledgerSequence
      && (self.operationIndex > other.operationIndex
        || (self.operationIndex == other.operationIndex
          && self.eventIndex > other.eventIndex)))

/-- The position as a lexicographic triple. -/
def triple (c : Cursor) : Int ×ₗ Int ×ₗ Int :=
  toLex (c.ledgerSequence, toLex (c.operationIndex, c.eventIndex))

theorem triple_injective : Function.Injective triple := by
  rintro ⟨l, o, e⟩ ⟨l', o', e'⟩ h
  simp only [triple, EmbeddingLike.apply_eq_iff_eq, Prod.mk.injEq] at h
  obtain ⟨rfl, rfl, rfl⟩ := h
  rfl

instance : LinearOrder Cursor := LinearOrder.lift' triple triple_injective

theorem lt_iff (a b : Cursor) :
    a < b ↔ a.ledgerSequence < b.ledgerSequence ∨
      (a.ledgerSequence = b.ledgerSequence ∧
        (a.operationIndex < b.operationIndex ∨
          (a.operationIndex = b.operationIndex ∧ a.eventIndex < b.eventIndex))) := by
  change triple a < triple b ↔ _
  simp only [triple, Prod.Lex.toLex_lt_toLex]

/-- The source's comparison is the lexicographic order. -/
theorem isAfter_iff (a b : Cursor) : a.isAfter b = true ↔ b < a := by
  rw [lt_iff, isAfter]
  simp only [Bool.or_eq_true, Bool.and_eq_true, decide_eq_true_eq, beq_iff_eq]
  constructor <;> (intro h; omega)

theorem ledger_le_of_lt {a b : Cursor} (h : a < b) :
    a.ledgerSequence ≤ b.ledgerSequence := by
  rw [lt_iff] at h
  omega

end Cursor

/-- `ChainEvent`. -/
structure ChainEvent where
  contractId : String
  contractName : String
  eventName : String
  ledgerSequence : Int
  operationIndex : Int
  eventIndex : Int
  topics : Json
  data : Json

namespace ChainEvent

def position (e : ChainEvent) : Cursor :=
  ⟨e.ledgerSequence, e.operationIndex, e.eventIndex⟩

@[simp] theorem position_ledgerSequence (e : ChainEvent) :
    e.position.ledgerSequence = e.ledgerSequence := rfl

/-- `UNIQUE (contract_id, ledger_sequence, operation_index, event_index)`. -/
def naturalKey (e : ChainEvent) : String × Cursor := (e.contractId, e.position)

/-- No column of the event's row holds U+0000. -/
def storable (e : ChainEvent) : Bool :=
  !(hasNul e.contractId || hasNul e.contractName || hasNul e.eventName
    || e.topics.hasNul || e.data.hasNul)

end ChainEvent

end VerdantBackend
