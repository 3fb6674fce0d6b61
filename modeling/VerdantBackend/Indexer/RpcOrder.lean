import VerdantBackend.Indexer.Rpc
import VerdantBackend.Indexer.Run

/-!
# Positions of RPC events

An RPC event stands at its TOID and its index. `decode_rpc_event` makes of the
upper half of the TOID the ledger and of the lower half the operation index, an
`i32`: of two events of one ledger the order is kept unless the lower half of
exactly one of them has its top bit set.
-/

namespace VerdantBackend

variable {P : RpcPackages}

/-! ## The halves of a TOID -/

theorem toid_ledger (toid : UInt64) : (toid >>> 32).toNat = toid.toNat / 2 ^ 32 := by
  simp [UInt64.toNat_shiftRight, Nat.shiftRight_eq_div_pow]

theorem toid_low (toid : UInt64) : (toid &&& 0xFFFFFFFF).toNat = toid.toNat % 2 ^ 32 := by
  rw [UInt64.toNat_and]
  exact Nat.and_two_pow_sub_one_eq_mod toid.toNat 32

theorem asI32_low {n : Nat} (h : n < 2 ^ 32) :
    asI32 n = if n < 2 ^ 31 then (n : Int) else n - 2 ^ 32 := by
  rw [asI32]
  split
  · next hlt => exact Int.bmod_eq_of_le (by omega) (by omega)
  · next hge =>
    rw [← Int.sub_bmod_right]
    exact Int.bmod_eq_of_le (by omega) (by omega)

/-- An accepted event with the cursor of its id. -/
structure AcceptedEvent (P : RpcPackages) where
  rpc : RpcEvent
  contractName : String
  toid : UInt64
  index : Int32
  event : ChainEvent
  parsed : P.parseCursor rpc.id = some (toid, index)
  decoded : decodeRpcEvent P rpc contractName = some event

namespace AcceptedEvent

/-- Where the chain emitted the event. -/
def emitted (a : AcceptedEvent P) : Nat ×ₗ Int := toLex (a.toid.toNat, a.index.toInt)

theorem emitted_lt_iff {a b : AcceptedEvent P} :
    a.emitted < b.emitted ↔
      a.toid.toNat < b.toid.toNat ∨
        (a.toid.toNat = b.toid.toNat ∧ a.index.toInt < b.index.toInt) :=
  Prod.Lex.toLex_lt_toLex

theorem emitted_eq_iff {a b : AcceptedEvent P} :
    a.emitted = b.emitted ↔ a.toid.toNat = b.toid.toNat ∧ a.index.toInt = b.index.toInt := by
  simp [emitted, Prod.ext_iff]

/-- The two are of different ledgers, or the top bits of their lower halves are
alike. -/
def SameHalf (a b : AcceptedEvent P) : Prop :=
  a.toid.toNat / 2 ^ 32 ≠ b.toid.toNat / 2 ^ 32 ∨
    (a.toid.toNat % 2 ^ 32 < 2 ^ 31 ↔ b.toid.toNat % 2 ^ 32 < 2 ^ 31)

theorem position_eq (a : AcceptedEvent P) :
    a.event.position = ⟨(a.toid.toNat / 2 ^ 32 : Nat),
      if a.toid.toNat % 2 ^ 32 < 2 ^ 31 then ((a.toid.toNat % 2 ^ 32 : Nat) : Int)
      else (a.toid.toNat % 2 ^ 32 : Nat) - 2 ^ 32,
      a.index.toInt⟩ := by
  obtain ⟨_, _, _, toid, index, _, _, _, _, _, hparsed, _, _, hevent⟩ :=
    (decodeRpcEvent_eq_some P).mp a.decoded
  rw [a.parsed] at hparsed
  cases hparsed
  rw [hevent, ChainEvent.position, toid_ledger, toid_low,
    asI32_low (Nat.mod_lt _ (by decide))]

/-- **Order of two events**: the decoded positions compare as the chain does exactly
when the events are of one half. -/
theorem isAfter_iff_emitted (a b : AcceptedEvent P) :
    (a.event.position.isAfter b.event.position = true ↔ b.emitted < a.emitted) ↔
      SameHalf a b := by
  rw [Cursor.isAfter_iff, Cursor.lt_iff, emitted_lt_iff, SameHalf, position_eq, position_eq]
  dsimp only
  split <;> split <;> omega

theorem emitted_eq_of_position {a b : AcceptedEvent P}
    (h : a.event.position = b.event.position) : a.emitted = b.emitted := by
  rw [position_eq, position_eq, Cursor.mk.injEq] at h
  rw [emitted_eq_iff]
  obtain ⟨hledger, hop, hindex⟩ := h
  refine ⟨?_, hindex⟩
  split at hop <;> split at hop <;> omega

theorem SameHalf.symm {a b : AcceptedEvent P} (h : SameHalf a b) : SameHalf b a :=
  h.imp Ne.symm Iff.symm

/-- Of two events in chain order the first has the smaller position exactly when they
are of one half. -/
theorem position_lt_iff {a b : AcceptedEvent P} (h : a.emitted < b.emitted) :
    a.event.position < b.event.position ↔ SameHalf a b := by
  constructor
  · intro hlt
    refine SameHalf.symm ((isAfter_iff_emitted b a).mp ?_)
    exact iff_of_true (Cursor.isAfter_iff _ _ |>.mpr hlt) h
  · intro hsame
    exact (Cursor.isAfter_iff _ _).mp (((isAfter_iff_emitted b a).mpr hsame.symm).mpr h)

end AcceptedEvent

/-! ## The replay -/

/-- **Chain order**: positions compare as the chain emitted two events exactly when
they are of one half, the natural key tells all events apart, and `finalized_events`
replays what is stored of a log in the order of the chain exactly when any two of its
events are of one half. -/
theorem chain_order_iff {log : List (AcceptedEvent P)} {store : EventStore} {c : String}
    (hlog : log.Pairwise fun a b => a.emitted < b.emitted)
    (hrows : (store.ofContract c).Perm (log.map AcceptedEvent.event)) :
    (∀ a b : AcceptedEvent P,
      (a.event.position.isAfter b.event.position = true ↔ b.emitted < a.emitted) ↔
        a.SameHalf b) ∧
    (∀ a b : AcceptedEvent P, a.event.naturalKey = b.event.naturalKey →
      a.event.contractId = b.event.contractId ∧ a.emitted = b.emitted) ∧
    ((∀ floor, store.finalized c floor =
        (log.map AcceptedEvent.event).filter fun e => e.ledgerSequence ≤ floor) ↔
      log.Pairwise AcceptedEvent.SameHalf) := by
  refine ⟨AcceptedEvent.isAfter_iff_emitted, ?_, ?_⟩
  · intro a b h
    rw [ChainEvent.naturalKey, ChainEvent.naturalKey, Prod.mk.injEq] at h
    exact ⟨h.1, AcceptedEvent.emitted_eq_of_position h.2⟩
  have hordered : Log.Ordered ChainEvent.position (log.map AcceptedEvent.event) ↔
      log.Pairwise AcceptedEvent.SameHalf := by
    rw [Log.Ordered, List.pairwise_map]
    constructor
    · intro h
      refine (hlog.and h).imp fun hab => ?_
      exact (AcceptedEvent.position_lt_iff hab.1).mp hab.2
    · intro h
      refine (hlog.and h).imp fun hab => ?_
      exact (AcceptedEvent.position_lt_iff hab.1).mpr hab.2
  rw [← hordered]
  constructor
  · intro h
    -- at a floor above every ledger the whole log is replayed
    have hall := h (2 ^ 32)
    rw [List.filter_eq_self.mpr ?_] at hall
    · rw [← hall]
      exact store.finalized_ordered c _
    · intro e he
      obtain ⟨a, _, rfl⟩ := List.mem_map.mp he
      have hledger := congrArg Cursor.ledgerSequence a.position_eq
      have hlt := a.toid.toNat_lt
      rw [decide_eq_true_eq, ← ChainEvent.position_ledgerSequence, hledger]
      dsimp only
      omega
  · intro h floor
    have hperm : (store.finalized c floor).Perm
        ((log.map AcceptedEvent.event).filter fun e => e.ledgerSequence ≤ floor) := by
      rw [EventStore.finalized_eq_ofContract]
      exact (List.perm_insertionSort _ _).trans (hrows.filter _)
    exact Log.Ordered.eq_of_perm (store.finalized_ordered c floor) (h.filter _) hperm

/-! Three events of ledger 100, the third with operation number 2 ^ 31. -/

def paidIds : List (String × UInt64 × Int32) :=
  [("429496729600-0", 429496729600, 0), ("429496729601-0", 429496729601, 0),
    ("431644213248-0", 431644213248, 0)]

def paidAt (id : String) (toid : UInt64) (h : paidIds.lookup id = some (toid, 0)) :
    AcceptedEvent (samplePackages paidXdr paidIds) :=
  ⟨paidEvent id, "verification", toid, 0, paidChainEvent "verification" toid 0, h,
    decodeRpcEvent_paid h⟩

def firstPaid : AcceptedEvent (samplePackages paidXdr paidIds) :=
  paidAt "429496729600-0" 429496729600 rfl

def secondPaid : AcceptedEvent (samplePackages paidXdr paidIds) :=
  paidAt "429496729601-0" 429496729601 rfl

def highPaid : AcceptedEvent (samplePackages paidXdr paidIds) :=
  paidAt "431644213248-0" 431644213248 rfl

/-- The first two, stored the other way round. -/
def paidStore : EventStore := (UniqueRows.empty.insert secondPaid.event).insert firstPaid.event

theorem chain_order_of_two :
    paidStore.finalized "CV" 100 = [firstPaid.event, secondPaid.event] := by
  have hlog : [firstPaid, secondPaid].Pairwise fun a b => a.emitted < b.emitted := by
    rw [List.pairwise_pair, AcceptedEvent.emitted_lt_iff]
    decide
  have hrows : (paidStore.ofContract "CV").Perm
      ([firstPaid, secondPaid].map AcceptedEvent.event) := List.Perm.swap _ _ _
  have hsame : [firstPaid, secondPaid].Pairwise AcceptedEvent.SameHalf := by
    rw [List.pairwise_pair]
    exact .inr (by decide)
  exact (chain_order_iff hlog hrows).2.2.mpr hsame 100

/-- The third is decoded before the first. -/
theorem chain_order_fails :
    firstPaid.emitted < highPaid.emitted ∧
      highPaid.event.position.isAfter firstPaid.event.position = false ∧
      ¬ ∀ a b : AcceptedEvent (samplePackages paidXdr paidIds),
        (a.event.position.isAfter b.event.position = true ↔ b.emitted < a.emitted) := by
  have hlt : firstPaid.emitted < highPaid.emitted := by
    rw [AcceptedEvent.emitted_lt_iff]
    decide
  refine ⟨hlt, by decide, ?_⟩
  intro h
  exact absurd ((h highPaid firstPaid).mpr hlt) (by decide)

end VerdantBackend
