import VerdantBackend.Farmers.LedgerChain
import VerdantBackend.Farmers.ProfileHash
import VerdantBackend.Indexer.IdentityReplay
import VerdantBackend.Indexer.Passes

/-!
# The ledger of a farmer

`updated_ledger` is written by the service, with the newest ledger at once, and by
every pass of the indexer, with the ledger of the last final event. A pass sets it
back when the event behind the ledger in the row is not among those it applies.
-/

namespace VerdantBackend

open Prog

inductive LedgerEvent where
  | registered (req : RegisterFarmerRequest) (actor : String) (r : Except AppError Farmer)
  | updated (input : String) (req : UpdateMetadataRequest) (actor : String)
      (r : Except AppError Farmer)
  | ingested (source : EventSource) (tr : List indexer.Obs) (r : Except ChainEventsError Nat)
  | chainMoved

/-- A pass that applies these events reaches the ledger in the row: it brings none
to the address, or the one that is there is among those it brings. -/
def Reaches (a : String) (db : Db) (applied : List ChainEvent) : Prop :=
  ∀ l, db.ledgerOf a = some l → ledgersOf a applied = [] ∨ l ∈ ledgersOf a applied

section
variable {κ : Type} (chain : LedgerChain κ) (crypto : FarmerCrypto)
  (uuid : String → Option String) (contractId : String)
  (F : Failures farmerStmts (LedgerWorld κ)) (Fi : EventSource → Failures indexer Db)
  (Pass : Db → List ChainEvent → Prop)

/-- One step: a call, or an `ingest` of the identity contract that sees the log of
the chain, or operations of others on the chain. `Pass` is what is assumed of the
events that an `ingest` applies. -/
inductive LedgerCall : LedgerWorld κ → LedgerEvent → LedgerWorld κ → Prop where
  | register {w w' req actor r} :
      Ends (execOn chain.toIdentityChain) F (registerFarmer crypto req actor) w r w' →
      LedgerCall w (.registered req actor r) w'
  | update {w w' input req actor r} :
      Ends (execOn chain.toIdentityChain) F (updateMetadata crypto input req actor) w r w' →
      LedgerCall w (.updated input req actor r) w'
  | ingest {w : LedgerWorld κ} {source tr r db'} : source.logOf contractId = chain.log w.chain →
      Outcome (exec uuid source) (Fi source) (ingest contractId) w.db tr r db' →
      Pass w.db (appliedIn tr) → LedgerCall w (.ingested source tr r) { w with db := db' }
  | moves {w : LedgerWorld κ} {k} : chain.log w.chain <+: chain.log k →
      LedgerCall w .chainMoved { w with chain := k }

/-- Steps from empty tables on, over a chain in any state, the latest first. -/
abbrev LedgerRun (k : κ) : List LedgerEvent → LedgerWorld κ → Prop :=
  Trail (LedgerCall chain crypto uuid contractId F Fi Pass) ⟨k, .empty⟩

end

/-! ## What a pass leaves -/

theorem lastOf_eq_getLast? (f : IdentityChange → Option Int) (cs : List IdentityChange) :
    lastOf f cs = (cs.filterMap f).getLast? := by
  induction cs using List.reverseRecOn with
  | nil => rfl
  | append_singleton cs c ih =>
      rw [lastOf_append, ih, List.filterMap_append]
      cases hc : f c with
      | none => simp [hc, lastOf]
      | some l => simp [hc, lastOf]

/-- The row's ledger comes from the row before or from an event. -/
theorem foldl_after_updated {cs : List IdentityChange} {row : Option FarmerRow} {l : Int}
    (h : (cs.foldl (fun row c => c.after row) row).bind FarmerRow.updatedLedger = some l) :
    row.bind FarmerRow.updatedLedger = some l ∨ l ∈ cs.filterMap IdentityChange.updated := by
  induction cs generalizing row with
  | nil => exact .inl h
  | cons c cs ih =>
      rw [List.mem_filterMap]
      rcases ih h with hrow | hmem
      · have hafter : (c.after row).bind FarmerRow.updatedLedger = some l →
            row.bind FarmerRow.updatedLedger = some l ∨ c.updated = some l := by
          cases row with
          | some row =>
              show (c.updated <|> row.updatedLedger) = some l → _
              cases hc : c.updated with
              | none => exact .inl
              | some m => exact .inr
          | none =>
              cases c with
              | registered address data => exact .inr
              | metadataUpdated address data | markerSet address data => exact .inl
        exact (hafter hrow).imp_right fun hc => ⟨c, List.mem_cons_self, hc⟩
      · obtain ⟨x, hx, hl⟩ := List.mem_filterMap.mp hmem
        exact .inr ⟨x, List.mem_cons_of_mem _ hx, hl⟩

section
variable {κ : Type} {chain : LedgerChain κ} {crypto : FarmerCrypto}
  {uuid : String → Option String} {contractId : String}
  {F : Failures farmerStmts (LedgerWorld κ)} {Fi : EventSource → Failures indexer Db}
  {Pass : Db → List ChainEvent → Prop} {w w' : LedgerWorld κ} {a : String}

/-- The row's ledger after the events, where there was one before. -/
theorem ledgerOf_pass {db db' : Db} {applied : List ChainEvent} {l : Int}
    (h : db'.farmers.lookup a = (identityOf a applied).foldl (fun row c => c.after row)
      (db.farmers.lookup a)) (hl : db.ledgerOf a = some l) :
    db'.ledgerOf a = some ((ledgersOf a applied).getLast?.getD l) := by
  obtain ⟨row, hrow, hledger⟩ := Option.bind_eq_some_iff.mp hl
  rw [Db.ledgerOf, h, hrow, foldl_after_some, Option.bind_some, FarmerRow.through_eq]
  show (lastOf IdentityChange.updated (identityOf a applied) <|> row.updatedLedger) = _
  rw [hledger, lastOf_eq_getLast?, ← ledgersOf]
  cases (ledgersOf a applied).getLast? <;> rfl

/-- What holds of the database and the log of the chain in every run. -/
structure LedgerInv (chain : LedgerChain κ) (contractId a : String) (w : LedgerWorld κ) : Prop where
  coherent : Coherent contractId (chain.log w.chain) w.db
  known : ∀ l, w.db.ledgerOf a = some l → l ∈ ledgersOf a (chain.log w.chain)

theorem ledgersOf_isPrefix {l₁ l₂ : List ChainEvent} (h : l₁ <+: l₂) :
    ledgersOf a l₁ <+: ledgersOf a l₂ := by
  obtain ⟨l, rfl⟩ := h
  exact ⟨ledgersOf a l, (ledgersOf_append a l₁ l).symm⟩

/-- What an `ingest` of the contract leaves: it applies a first part of the log. -/
structure PassEffect (chain : LedgerChain κ) (contractId a : String) (w : LedgerWorld κ)
    (applied : List ChainEvent) (db' : Db) : Prop where
  coherent : Coherent contractId (chain.log w.chain) db'
  isPrefix : applied <+: chain.log w.chain
  row : db'.farmers.lookup a = (identityOf a applied).foldl (fun row c => c.after row)
    (w.db.farmers.lookup a)

theorem ingest_pass {source : EventSource} {tr : List indexer.Obs}
    {r : Except ChainEventsError Nat} {db' : Db} (hinv : LedgerInv chain contractId a w)
    (hlog : source.logOf contractId = chain.log w.chain)
    (hout : Outcome (exec uuid source) (Fi source) (ingest contractId) w.db tr r db') :
    PassEffect chain contractId a w (appliedIn tr) db' := by
  have heffect := ingest_effect hout
  have hcoh := hinv.coherent
  rw [← hlog] at hcoh
  refine ⟨?_, ?_, ?_⟩
  · rw [← hlog]
    exact (hcoh.step heffect.raw).1
  · rw [← hlog]
    exact (heffect.applied_isPrefix hcoh).1.trans (finalPart_isPrefix_self (source.logOf_ordered _))
  · exact (heffect.lookup (identities uuid) a).trans (replay_identity a _ _)

theorem LedgerInv.rest (hinv : LedgerInv chain contractId a w) (h : RestEffect chain a w w') :
    LedgerInv chain contractId a w' where
  coherent := by
    refine (hinv.coherent.mono h.log).of_same ?_ ?_
    · rw [h.raw.events]
    · rw [h.raw.cursors]
  known := by
    intro l hl
    rcases h.ledger with hsame | ⟨c, ledger, hemitted, hledger⟩
    · rw [hsame] at hl
      exact (ledgersOf_isPrefix h.log).subset (hinv.known l hl)
    · rw [hledger] at hl
      cases hl
      rw [hemitted.ledgers]
      exact List.mem_append_right _ List.mem_cons_self

theorem LedgerInv.pass {applied : List ChainEvent} {db' : Db}
    (hinv : LedgerInv chain contractId a w)
    (h : PassEffect chain contractId a w applied db') :
    LedgerInv chain contractId a { w with db := db' } where
  coherent := h.coherent
  known := by
    intro l hl
    change (db'.farmers.lookup a).bind _ = _ at hl
    rw [h.row] at hl
    rcases foldl_after_updated hl with hrow | hmem
    · exact hinv.known l hrow
    · exact (ledgersOf_isPrefix h.isPrefix).subset hmem

/-- The invariant of a run, step by step. -/
theorem LedgerInv.step {e : LedgerEvent} (hinv : LedgerInv chain contractId a w)
    (h : LedgerCall chain crypto uuid contractId F Fi Pass w e w') :
    LedgerInv chain contractId a w' := by
  cases h with
  | register h => exact hinv.rest (registerFarmer_rest h)
  | update h => exact hinv.rest (updateMetadata_rest h)
  | ingest hlog hout _ => exact hinv.pass (ingest_pass hinv hlog hout)
  | moves hlog =>
      refine ⟨hinv.coherent.mono hlog, fun l hl => ?_⟩
      exact (ledgersOf_isPrefix hlog).subset (hinv.known l hl)

theorem LedgerRun.inv {k : κ} {past : List LedgerEvent}
    (h : LedgerRun chain crypto uuid contractId F Fi Pass k past w) :
    LedgerInv chain contractId a w := by
  refine h.invariant (P := fun _ w => LedgerInv chain contractId a w) ?_
    fun _ _ _ _ hinv hcall => hinv.step hcall
  refine ⟨.empty _ _, fun l hl => ?_⟩
  cases hl

/-! ## Forward, or back -/

/-- The ledger of the row is not smaller afterwards. -/
def NotBack (a : String) (db db' : Db) : Prop :=
  ∀ l, db.ledgerOf a = some l → ∃ m, db'.ledgerOf a = some m ∧ l ≤ m

/-- **A pass and the ledger in the row**: it does not go back exactly when the pass
reaches it. -/
theorem PassEffect.notBack_iff {applied : List ChainEvent} {db' : Db}
    (hinv : LedgerInv chain contractId a w) (h : PassEffect chain contractId a w applied db') :
    NotBack a w.db db' ↔ Reaches a w.db applied := by
  have hpre := ledgersOf_isPrefix (a := a) h.isPrefix
  have hgrows := chain.grows w.chain a
  constructor
  · intro hforward l hl
    obtain ⟨m, hm, hle⟩ := hforward l hl
    rw [ledgerOf_pass h.row hl] at hm
    by_contra hnot
    obtain ⟨hsome, hmem⟩ := not_or.mp hnot
    -- the ledger in the row belongs to a later event than all that were applied
    obtain ⟨later, hlater⟩ := hpre
    have hin : l ∈ later := by
      have hknown := hinv.known l hl
      rw [← hlater] at hknown
      exact (List.mem_append.mp hknown).resolve_left hmem
    rw [List.getLast?_eq_getLast_of_ne_nil hsome, Option.getD_some] at hm
    cases hm
    rw [← hlater] at hgrows
    have hlt := (List.pairwise_append.mp hgrows).2.2 _ (List.getLast_mem hsome) l hin
    omega
  · intro hreach l hl
    refine ⟨_, ledgerOf_pass h.row hl, ?_⟩
    rcases hreach l hl with hnil | hmem
    · rw [hnil]
      exact le_rfl
    · have hne : ledgersOf a applied ≠ [] := List.ne_nil_of_mem hmem
      have hsorted := hgrows.sublist hpre.sublist
      rw [List.getLast?_eq_getLast_of_ne_nil hne, Option.getD_some]
      rw [← List.dropLast_append_getLast hne] at hmem
      rcases List.mem_append.mp hmem with hearlier | hlast
      · have hlt := hsorted.rel_dropLast_getLast hearlier
        omega
      · rw [List.mem_singleton.mp hlast]

theorem NotBack.refl (a : String) (db : Db) : NotBack a db db := fun l hl => ⟨l, hl, le_rfl⟩

theorem NotBack.trans {db₁ db₂ db₃ : Db} (h₁ : NotBack a db₁ db₂) (h₂ : NotBack a db₂ db₃) :
    NotBack a db₁ db₃ := by
  intro l hl
  obtain ⟨m, hm, hlm⟩ := h₁ l hl
  obtain ⟨n, hn, hmn⟩ := h₂ m hm
  exact ⟨n, hn, hlm.trans hmn⟩

/-- A call writes a ledger above all that the row can hold. -/
theorem RestEffect.notBack (hinv : LedgerInv chain contractId a w) (h : RestEffect chain a w w') :
    NotBack a w.db w'.db := by
  intro l hl
  rcases h.ledger with hsame | ⟨c, ledger, hemitted, hledger⟩
  · exact ⟨l, hsame.trans hl, le_rfl⟩
  · exact ⟨ledger, hledger, le_of_lt (hemitted.above (hinv.known l hl))⟩

theorem LedgerCall.notBack {e : LedgerEvent} (hinv : LedgerInv chain contractId a w)
    (h : LedgerCall chain crypto uuid contractId F Fi (Reaches a) w e w') :
    NotBack a w.db w'.db := by
  cases h with
  | register h => exact (registerFarmer_rest h).notBack hinv
  | update h => exact (updateMetadata_rest h).notBack hinv
  | ingest hlog hout hreach => exact ((ingest_pass hinv hlog hout).notBack_iff hinv).mpr hreach
  | moves => exact .refl a w.db

/-- **Forward over a run** whose passes all reach the ledger in the row. -/
theorem LedgerRun.notBack {k : κ} {earlier later : List LedgerEvent} {w₁ w₂ : LedgerWorld κ}
    (hrun : LedgerRun chain crypto uuid contractId F Fi (Reaches a) k earlier w₁)
    (h : Trail (LedgerCall chain crypto uuid contractId F Fi (Reaches a)) w₁ later w₂) :
    NotBack a w₁.db w₂.db := by
  have hstart : LedgerInv chain contractId a w₁ ∧ NotBack a w₁.db w₁.db :=
    ⟨hrun.inv, .refl a w₁.db⟩
  have hend : LedgerInv chain contractId a w₂ ∧ NotBack a w₁.db w₂.db :=
    h.invariant (P := fun _ w => LedgerInv chain contractId a w ∧ NotBack a w₁.db w.db) hstart
      fun _ _ _ _ hP hcall => ⟨hP.1.step hcall, hP.2.trans (hcall.notBack hP.1)⟩
  exact hend.2

end

abbrev TenChain : Type := List (Bool × String)

namespace TenChain

/-- The ledger of the next operation. -/
def ledger (ops : TenChain) : Nat := 100000 + 10 * ops.length

/-- The ledger at which the address was registered. -/
def created : TenChain → String → Option Nat
  | [], _ => none
  | (registers, a) :: ops, address =>
    if registers = true ∧ a = address then some (ledger ops) else created ops address

def ledgerJson (n : Nat) : Json :=
  if h : n < 2 ^ 63 then .num ⟨n, by omega, by omega⟩ else .null

/-- The event of the operation that comes after `ops`. -/
def event (ops : TenChain) (registers : Bool) (address : String) : ChainEvent where
  contractId := "CIDENTITY"
  contractName := "identity"
  eventName := if registers then "FarmerRegistered" else "FarmerMetadataUpdated"
  ledgerSequence := ledger ops
  operationIndex := 0
  eventIndex := 0
  topics := .arr [.str address]
  data := .obj [
    ("address", .str address),
    ("created_ledger", ledgerJson ((created ops address).getD (ledger ops))),
    ("metadata_hash", .str "deadbeef"), ("updated_ledger", ledgerJson (ledger ops)),
    ("verification_markers", .arr [])]

def log : TenChain → List ChainEvent
  | [] => []
  | (registers, address) :: ops => log ops ++ [event ops registers address]

def operate (ops : TenChain) (registers : Bool) (address : String) :
    Except ChainError (ChainFarmer × TenChain) :=
  if ledger ops < 2 ^ 63 then
    .ok (⟨address, (created ops address).getD (ledger ops), ledger ops, []⟩,
      (registers, address) :: ops)
  else .error (.internal "ledger overflow")

def registerFarmer (ops : TenChain) (address : String) :
    Except ChainError (ChainFarmer × TenChain) :=
  if (created ops address).isSome then .error .alreadyRegistered else operate ops true address

def updateMetadata (ops : TenChain) (address : String) :
    Except ChainError (ChainFarmer × TenChain) :=
  if (created ops address).isNone then .error .notFound else operate ops false address

/-- The identity event. -/
def change (ops : TenChain) (registers : Bool) (address : String) : IdentityChange :=
  if registers then .registered address (event ops registers address).data
  else .metadataUpdated address (event ops registers address).data

theorem identityNamed_event (ops : TenChain) (registers : Bool) (address : String) :
    identityNamed (event ops registers address) = some (change ops registers address) := by
  cases registers <;> rfl

theorem change_address (ops : TenChain) (registers : Bool) (address : String) :
    (change ops registers address).address = address := by
  cases registers <;> rfl

theorem asI64_num (n : JsonInt) (h : n.val < 2 ^ 63) : (Json.num n).asI64 = some n.val :=
  if_pos h

theorem change_updated (ops : TenChain) (registers : Bool) (address : String) :
    (change ops registers address).updated =
      if ledger ops < 2 ^ 63 then some (ledger ops : Int) else none := by
  have hdata : (change ops registers address).updated =
      objI64 (event ops registers address).data "updated_ledger" := by
    cases registers <;> rfl
  have hget : (event ops registers address).data.get "updated_ledger" =
      some (ledgerJson (ledger ops)) := rfl
  rw [hdata, objI64, hget]
  show (ledgerJson (ledger ops)).asI64 = _
  by_cases h : ledger ops < 2 ^ 63
  · have hlt : (ledger ops : Int) < 2 ^ 63 := by omega
    rw [ledgerJson, dif_pos h, if_pos h]
    exact asI64_num ⟨ledger ops, _, _⟩ hlt
  · rw [ledgerJson, dif_neg h, if_neg h]
    rfl

theorem operate_ok {ops ops' : TenChain} {registers : Bool} {address : String}
    {farmer : ChainFarmer} (h : operate ops registers address = .ok (farmer, ops')) :
    Emitted (log ops) (log ops') address farmer.updatedLedger (change ops registers address) := by
  rw [operate] at h
  split at h
  · next hledger =>
    cases h
    refine ⟨⟨_, rfl, identityNamed_event _ _ _⟩, change_address _ _ _, ?_⟩
    rw [change_updated, if_pos hledger]
  · cases h

theorem ledgersOf_event (a : String) (ops : TenChain) (registers : Bool) (address : String) :
    ledgersOf a [event ops registers address] = [] ∨
      ledgersOf a [event ops registers address] = [(ledger ops : Int)] := by
  by_cases ha : address = a
  · rw [ledgersOf, identityOf_cons_of_eq (identityNamed_event ops registers address)
      ((change_address _ _ _).trans ha), List.filterMap_cons, change_updated]
    by_cases hledger : ledger ops < 2 ^ 63
    · rw [if_pos hledger]
      exact .inr rfl
    · rw [if_neg hledger]
      exact .inl rfl
  · refine .inl ?_
    rw [ledgersOf, identityOf_cons_of_ne]
    · rfl
    · intro c hc
      rw [identityNamed_event] at hc
      cases hc
      rw [change_address]
      exact ha

theorem log_grows (ops : TenChain) (a : String) :
    (ledgersOf a (log ops)).Pairwise (· < ·) ∧
      ∀ l ∈ ledgersOf a (log ops), l < (ledger ops : Int) := by
  induction ops with
  | nil => exact ⟨List.Pairwise.nil, fun l hl => absurd hl List.not_mem_nil⟩
  | cons op ops ih =>
      obtain ⟨registers, address⟩ := op
      obtain ⟨hsorted, hbelow⟩ := ih
      have hnext : ledger ((registers, address) :: ops) = ledger ops + 10 := by
        rw [ledger, ledger, List.length_cons]
        omega
      rw [log, ledgersOf_append, hnext]
      rcases ledgersOf_event a ops registers address with hnone | hone
      · rw [hnone, List.append_nil]
        refine ⟨hsorted, fun l hl => ?_⟩
        have hl := hbelow l hl
        omega
      · rw [hone]
        refine ⟨List.pairwise_append.mpr ⟨hsorted, List.pairwise_singleton _ _, ?_⟩, ?_⟩
        · intro l hl m hm
          rw [List.mem_singleton.mp hm]
          exact hbelow l hl
        · intro l hl
          rcases List.mem_append.mp hl with hl | hl
          · have hl := hbelow l hl
            omega
          · rw [List.mem_singleton.mp hl]
            omega

/-- It grows as an identity chain should. -/
def chain : LedgerChain TenChain where
  registerFarmer ops address _ := ops.registerFarmer address
  updateMetadata ops address _ := ops.updateMetadata address
  log := log
  registered := by
    intro ops address hash farmer ops' h
    rw [registerFarmer] at h
    split at h
    · cases h
    · exact ⟨_, rfl, operate_ok h⟩
  updated := by
    intro ops address hash farmer ops' h
    rw [updateMetadata] at h
    split at h
    · cases h
    · exact ⟨_, rfl, operate_ok h⟩
  grows ops a := (log_grows ops a).1

end TenChain

/-! A farmer registers and updates; then the indexer sees both operations. -/

end VerdantBackend
