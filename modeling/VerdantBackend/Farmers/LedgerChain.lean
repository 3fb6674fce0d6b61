import VerdantBackend.Farmers.Profile
import VerdantBackend.Indexer.Identity
import VerdantBackend.Indexer.Run

/-!
# Identity chains with ledgers

The service writes the ledger that the chain returns; the indexer writes the one
that the event of the same operation carries. An identity chain that assigns a
later ledger to every later operation of an address, with the log of its events,
is a parameter; `register_farmer` and `update_metadata` run over it and the
indexer's database.
-/

namespace VerdantBackend

open Prog

/-- The trait `IdentityChain`, as a state of the chain and its operations. -/
structure IdentityChain (κ : Type) where
  registerFarmer (chain : κ) (address metadataHash : String) :
    Except ChainError (ChainFarmer × κ)
  updateMetadata (chain : κ) (address metadataHash : String) :
    Except ChainError (ChainFarmer × κ)

/-- The new event of an operation on the address, with the ledger assigned to it. -/
structure Emitted (log log' : List ChainEvent) (address : String) (ledger : Int)
    (c : IdentityChange) : Prop where
  event : ∃ e, log' = log ++ [e] ∧ identityNamed e = some c
  address : c.address = address
  updated : c.updated = some ledger

/-- The ledgers that the events bring to the row of an address. -/
def ledgersOf (address : String) (log : List ChainEvent) : List Int :=
  (identityOf address log).filterMap IdentityChange.updated

/-- An identity chain whose ledgers grow with each operation of an address, and the
log of its contract's events. -/
structure LedgerChain (κ : Type) extends IdentityChain κ where
  log : κ → List ChainEvent
  registered : ∀ {chain address hash farmer chain'},
    registerFarmer chain address hash = .ok (farmer, chain') →
      ∃ c, c.isRegistered = true ∧
        Emitted (log chain) (log chain') address farmer.updatedLedger c
  updated : ∀ {chain address hash farmer chain'},
    updateMetadata chain address hash = .ok (farmer, chain') →
      ∃ c, c.isRegistered = false ∧
        Emitted (log chain) (log chain') address farmer.updatedLedger c
  grows : ∀ chain address, (ledgersOf address (log chain)).Pairwise (· < ·)

/-- The chain and the database. -/
structure LedgerWorld (κ : Type) where
  chain : κ
  db : Db

/-- The statements of the service, over any chain and the whole database. -/
def execOn {κ : Type} (chain : IdentityChain κ) : farmerStmts.Handler (LedgerWorld κ)
  | .chainRegister address hash, w =>
    (chain.registerFarmer w.chain address hash).map
      fun (farmer, chain) => (farmer, { w with chain })
  | .chainUpdate address hash, w =>
    (chain.updateMetadata w.chain address hash).map
      fun (farmer, chain) => (farmer, { w with chain })
  | .insertFarmer address row, w =>
    (insertFarmer w.db.farmers address row).map
      fun farmers => ((), { w with db := { w.db with farmers } })
  | .updateFarmer address metadata metadataHash updatedLedger, w =>
    (updateFarmer w.db.farmers address metadata metadataHash updatedLedger).map
      fun farmers => ((), { w with db := { w.db with farmers } })
  | .selectFarmer address, w =>
    if hasNul address then .error nulByte else .ok (w.db.farmers.lookup address, w)

/-- `StubChain` as an identity chain. -/
def StubChain.identityChain : IdentityChain StubChain where
  registerFarmer chain address _ := chain.registerFarmer address
  updateMetadata chain address _ := chain.updateMetadata address

/-- Over the stub it is the handler of the service alone, inside the database. -/
theorem execOn_stub (q : FarmerStmt) (w : LedgerWorld StubChain) :
    execOn StubChain.identityChain q w =
      (execFarmers q ⟨w.chain, w.db.farmers⟩).map fun (a, w') =>
        (a, ⟨w'.chain, { w.db with farmers := w'.farmers }⟩) := by
  cases q with
  | chainRegister address hash =>
      simp only [execOn, execFarmers, StubChain.identityChain]
      cases w.chain.registerFarmer address <;> rfl
  | chainUpdate address hash =>
      simp only [execOn, execFarmers, StubChain.identityChain]
      cases w.chain.updateMetadata address <;> rfl
  | insertFarmer address row =>
      simp only [execOn, execFarmers]
      cases insertFarmer w.db.farmers address row <;> rfl
  | updateFarmer address metadata hash ledger =>
      simp only [execOn, execFarmers]
      cases updateFarmer w.db.farmers address metadata hash ledger <;> rfl
  | selectFarmer address =>
      simp only [execOn, execFarmers]
      split <;> rfl

/-- The column `updated_ledger` of the row of an address. -/
def Db.ledgerOf (db : Db) (address : String) : Option Int :=
  (db.farmers.lookup address).bind FarmerRow.updatedLedger

section
variable {κ : Type} {chain : LedgerChain κ} {crypto : FarmerCrypto}
  {F : Failures farmerStmts (LedgerWorld κ)} {w w' : LedgerWorld κ} {a : String}
  {r : Except AppError Farmer}

/-! ## The ledgers of a log -/

theorem identityOf_append (address : String) (l₁ l₂ : List ChainEvent) :
    identityOf address (l₁ ++ l₂) = identityOf address l₁ ++ identityOf address l₂ := by
  simp [identityOf]

theorem ledgersOf_append (address : String) (l₁ l₂ : List ChainEvent) :
    ledgersOf address (l₁ ++ l₂) = ledgersOf address l₁ ++ ledgersOf address l₂ := by
  simp [ledgersOf, identityOf_append]

/-- The last event of the log, of the address. -/
theorem Emitted.ledgers {log log' : List ChainEvent} {ledger : Int} {c : IdentityChange}
    (h : Emitted log log' a ledger c) : ledgersOf a log' = ledgersOf a log ++ [ledger] := by
  obtain ⟨e, rfl, he⟩ := h.event
  rw [ledgersOf_append]
  congr 1
  rw [ledgersOf, identityOf_cons_of_eq he h.address, List.filterMap_cons, h.updated]
  rfl

theorem Emitted.isPrefix {log log' : List ChainEvent} {ledger : Int} {c : IdentityChange}
    (h : Emitted log log' a ledger c) : log <+: log' := by
  obtain ⟨e, rfl, _⟩ := h.event
  exact List.prefix_append _ _

/-- The ledger assigned now is above all others of the address. -/
theorem Emitted.above {k k' : κ} {ledger l : Int} {c : IdentityChange}
    (h : Emitted (chain.log k) (chain.log k') a ledger c) (hl : l ∈ ledgersOf a (chain.log k)) :
    l < ledger := by
  have hgrows := chain.grows k' a
  rw [h.ledgers] at hgrows
  exact (List.pairwise_append.mp hgrows).2.2 l hl ledger List.mem_cons_self

/-! ## Calls over the chain -/

/-- What a call leaves of the row's ledger. Only the rows of `farmers` change, and
the log only grows. -/
structure RestEffect (chain : LedgerChain κ) (a : String) (w w' : LedgerWorld κ) : Prop where
  raw : SameRawStore w.db w'.db
  log : chain.log w.chain <+: chain.log w'.chain
  ledger : w'.db.ledgerOf a = w.db.ledgerOf a ∨
    ∃ c ledger, Emitted (chain.log w.chain) (chain.log w'.chain) a ledger c ∧
      w'.db.ledgerOf a = some ledger

theorem RestEffect.refl (w : LedgerWorld κ) : RestEffect chain a w w :=
  ⟨.refl _, List.prefix_rfl, .inl rfl⟩

/-- An operation of the chain, and a write to the row of its address. -/
theorem RestEffect.of_write {k : κ} {address : String} {ledger : Int} {c : IdentityChange}
    {farmers : Table String FarmerRow}
    (h : Emitted (chain.log w.chain) (chain.log k) address ledger c)
    (hother : ∀ b, b ≠ address → farmers.lookup b = w.db.farmers.lookup b)
    (hrow : farmers.lookup address = w.db.farmers.lookup address ∨
      ∃ row, farmers.lookup address = some row ∧ row.updatedLedger = some ledger) :
    RestEffect chain a w ⟨k, { w.db with farmers }⟩ where
  raw := ⟨rfl, rfl⟩
  log := h.isPrefix
  ledger := by
    by_cases ha : a = address
    · subst ha
      rcases hrow with hrow | ⟨row, hrow, hledger⟩
      · exact .inl (congrArg (Option.bind · FarmerRow.updatedLedger) hrow)
      · refine .inr ⟨c, ledger, h, ?_⟩
        show (farmers.lookup a).bind _ = _
        rw [hrow]
        exact hledger
    · exact .inl (congrArg (Option.bind · FarmerRow.updatedLedger) (hother a ha))

theorem execOn_chainRegister {address hash : String} {farmer : ChainFarmer} :
    execOn chain.toIdentityChain (.chainRegister address hash) w = .ok (farmer, w') ↔
      ∃ k, chain.registerFarmer w.chain address hash = .ok (farmer, k) ∧
        w' = { w with chain := k } := by
  rw [execOn]
  exact Interface.answered_part_iff (f := fun k => { w with chain := k })

theorem execOn_chainUpdate {address hash : String} {farmer : ChainFarmer} :
    execOn chain.toIdentityChain (.chainUpdate address hash) w = .ok (farmer, w') ↔
      ∃ k, chain.updateMetadata w.chain address hash = .ok (farmer, k) ∧
        w' = { w with chain := k } := by
  rw [execOn]
  exact Interface.answered_part_iff (f := fun k => { w with chain := k })

theorem execOn_insertFarmer {address : String} {row : FarmerRow} {u : Unit} :
    execOn chain.toIdentityChain (.insertFarmer address row) w = .ok (u, w') ↔
      ∃ farmers, insertFarmer w.db.farmers address row = .ok farmers ∧
        w' = { w with db := { w.db with farmers } } := by
  rw [execOn]
  exact Interface.done_part_iff (f := fun farmers => { w with db := { w.db with farmers } })

theorem execOn_updateFarmer {address hash : String} {metadata : Json} {ledger : Int} {u : Unit} :
    execOn chain.toIdentityChain (.updateFarmer address metadata hash ledger) w = .ok (u, w') ↔
      ∃ farmers, updateFarmer w.db.farmers address metadata hash ledger = .ok farmers ∧
        w' = { w with db := { w.db with farmers } } := by
  rw [execOn]
  exact Interface.done_part_iff (f := fun farmers => { w with db := { w.db with farmers } })

theorem registerFarmer_rest {req : RegisterFarmerRequest} {actor : String}
    (h : Ends (execOn chain.toIdentityChain) F (registerFarmer crypto req actor) w r w') :
    RestEffect chain a w w' := by
  rw [registerFarmer_eq] at h
  rcases ends_done_bind_iff.mp h with ⟨e, _, _, rfl⟩ | ⟨address, _, h⟩
  · exact .refl w'
  rcases ends_call_bind_iff.mp h with ⟨e, _, _, rfl⟩ | ⟨farmer, _, hx, h⟩
  · exact .refl w'
  obtain ⟨k, hchain, rfl⟩ := execOn_chainRegister.mp hx
  obtain ⟨c, _, hemitted⟩ := chain.registered hchain
  rcases ends_call_bind_iff.mp h with ⟨e, _, _, rfl⟩ | ⟨_, _, hi, h⟩
  · exact .of_write hemitted (fun _ _ => rfl) (.inl rfl)
  obtain ⟨farmers, hinsert, rfl⟩ := execOn_insertFarmer.mp hi
  obtain ⟨_, rfl⟩ := insertFarmer_ok hinsert
  obtain ⟨_, rfl⟩ := ends_done_iff.mp h
  refine .of_write hemitted (fun b hb => Finmap.lookup_insert_of_ne _ hb) (.inr ?_)
  exact ⟨_, Finmap.lookup_insert _, rfl⟩

theorem getFarmer_rest {input : String}
    (h : Ends (execOn chain.toIdentityChain) F (getFarmer crypto input) w r w') : w' = w := by
  rw [getFarmer_eq] at h
  rcases ends_done_bind_iff.mp h with ⟨e, _, _, hw⟩ | ⟨address, _, h⟩
  · exact hw
  rcases ends_call_bind_iff.mp h with ⟨e, _, _, hw⟩ | ⟨found, _, hx, h⟩
  · exact hw
  · obtain ⟨_, hw⟩ := ends_done_iff.mp h
    rw [execOn] at hx
    split at hx
    · cases hx
    · cases hx
      exact hw

theorem updateMetadata_rest {input : String} {req : UpdateMetadataRequest} {actor : String}
    (h : Ends (execOn chain.toIdentityChain) F (updateMetadata crypto input req actor) w r w') :
    RestEffect chain a w w' := by
  rw [updateMetadata_eq] at h
  rcases ends_done_bind_iff.mp h with ⟨e, _, _, rfl⟩ | ⟨address, hcheck, h⟩
  · exact .refl w'
  rcases ends_call_bind_iff.mp h with ⟨e, _, _, rfl⟩ | ⟨farmer, _, hx, h⟩
  · exact .refl w'
  obtain ⟨k, hchain, rfl⟩ := execOn_chainUpdate.mp hx
  obtain ⟨c, _, hemitted⟩ := chain.updated hchain
  rcases ends_call_bind_iff.mp h with ⟨e, _, _, rfl⟩ | ⟨_, _, hu, h⟩
  · exact .of_write hemitted (fun _ _ => rfl) (.inl rfl)
  obtain ⟨farmers, hupdate, rfl⟩ := execOn_updateFarmer.mp hu
  have haddress := address_noNul (parse_ok (checkUpdate_ok hcheck).1)
  obtain ⟨_, rfl⟩ := (updateFarmer_ok_iff haddress).mp hupdate
  rw [getFarmer_rest h]
  show RestEffect chain a w ⟨k, { w.db with farmers := (w.db.farmers.lookup address).elim _ _ }⟩
  cases hrow : w.db.farmers.lookup address with
  | none => exact .of_write hemitted (fun _ _ => rfl) (.inl rfl)
  | some row =>
      refine .of_write hemitted (fun b hb => Finmap.lookup_insert_of_ne _ hb) (.inr ?_)
      exact ⟨_, Finmap.lookup_insert _, rfl⟩

end

end VerdantBackend
