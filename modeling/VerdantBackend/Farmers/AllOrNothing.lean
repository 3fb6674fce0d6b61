import VerdantBackend.Farmers.Profile
import VerdantBackend.Indexer.Projections

/-!
# All or nothing

`register_farmer` and `update_metadata` first write the chain, then the table,
and take nothing back. Exactly when an error of theirs leaves something behind.
-/

namespace VerdantBackend

open Prog

/-- Any of the statements in `lost` may fail from outside, besides the
rejections of chain and database. -/
def failing (lost : FarmerStmt → Prop) : Failures farmerStmts FarmerWorld :=
  fun q w e => execFarmers q w = .error e ∨ lost q

/-- Every error leaves chain and table as they were. -/
def AllOrNothing {α : Type} (lost : FarmerStmt → Prop) (p : Prog farmerStmts AppError α)
    (w : FarmerWorld) : Prop :=
  ∀ e w', Ends execFarmers (failing lost) p w (.error e) w' → w' = w

/-- The chain's record of an address it registers now. -/
def StubChain.newRecord (chain : StubChain) (address : String) : ChainFarmer :=
  ⟨address, chain.ledger, chain.ledger, []⟩

/-- The request passes its checks and the chain registers it, and the `INSERT`
is refused or lost. -/
def RegistersHalfway (crypto : FarmerCrypto) (lost : FarmerStmt → Prop)
    (req : RegisterFarmerRequest) (actor : String) (w : FarmerWorld) : Prop :=
  ∃ address, checkRegister crypto req actor = .ok address ∧ w.chain.lookup address = none ∧
    ((req.metadata.toJson.hasNul = true ∨ address ∈ w.farmers ∨
        ∃ entry ∈ w.farmers.entries, entry.2.id = farmerId address) ∨
      lost (.insertFarmer address
        (registeredRow crypto req.metadata address (w.chain.newRecord address))))

/-- The request passes its checks and the chain has the farmer. Then the chain's
ledger changes and the `UPDATE` is refused or lost, or finds no row; or a row
changes whose markers do not decode, or that is not read back. -/
def UpdatesHalfway (crypto : FarmerCrypto) (lost : FarmerStmt → Prop) (input : String)
    (req : UpdateMetadataRequest) (actor : String) (w : FarmerWorld) : Prop :=
  ∃ address old, checkUpdate crypto input req actor = .ok address ∧
    w.chain.lookup address = some old ∧
    ((old.updatedLedger ≠ w.chain.ledger ∧
        (req.metadata.toJson.hasNul = true ∨ w.farmers.lookup address = none ∨
          lost (.updateFarmer address req.metadata.toJson (metadataHash crypto req.metadata)
            w.chain.ledger))) ∨
      ∃ row, w.farmers.lookup address = some row ∧ req.metadata.toJson.hasNul = false ∧
        (old.updatedLedger ≠ w.chain.ledger ∨
          updatedRow crypto req.metadata w.chain.ledger row ≠ row) ∧
        ((∃ e, Decoder.vec crypto.text (VerificationMarker.decode crypto.text)
            row.verificationMarkers = .error e) ∨ lost (.selectFarmer address)))

section
variable {crypto : FarmerCrypto} {lost : FarmerStmt → Prop} {w : FarmerWorld}

theorem StubChain.registerFarmer_ok_iff {chain chain' : StubChain} {address : String}
    {farmer : ChainFarmer} :
    chain.registerFarmer address = .ok (farmer, chain') ↔
      chain.lookup address = none ∧ farmer = chain.newRecord address ∧
        chain' = chain.insert address farmer := by
  rw [StubChain.registerFarmer, Finmap.lookup_eq_none]
  split
  · next h => simp [h]
  · next h =>
    simp only [Except.ok.injEq, Prod.mk.injEq, h, not_false_eq_true, true_and]
    constructor
    · intro h
      obtain ⟨h₁, h₂⟩ := h
      exact ⟨h₁.symm, by rw [← h₂, ← h₁]⟩
    · intro h
      obtain ⟨h₁, h₂⟩ := h
      exact ⟨h₁.symm, by rw [h₂, h₁]; rfl⟩

theorem StubChain.updateMetadata_ok_iff {chain chain' : StubChain} {address : String}
    {farmer : ChainFarmer} :
    chain.updateMetadata address = .ok (farmer, chain') ↔
      ∃ old, chain.lookup address = some old ∧
        farmer = { old with updatedLedger := chain.ledger } ∧
        chain' = chain.insert address farmer := by
  rw [StubChain.updateMetadata]
  cases chain.lookup address with
  | none => simp
  | some old =>
      simp only [Except.ok.injEq, Prod.mk.injEq, Option.some.injEq, exists_eq_left']
      constructor
      · intro h
        obtain ⟨h₁, h₂⟩ := h
        exact ⟨h₁.symm, by rw [← h₂, ← h₁]⟩
      · intro h
        obtain ⟨h₁, h₂⟩ := h
        exact ⟨h₁.symm, by rw [h₂, h₁]⟩

/-- The update changes the chain if the record had another ledger. -/
theorem StubChain.update_eq_self_iff {chain : StubChain} {address : String} {old : ChainFarmer}
    (h : chain.lookup address = some old) :
    chain.insert address { old with updatedLedger := chain.ledger } = chain ↔
      old.updatedLedger = chain.ledger := by
  rw [Table.insert_eq_self_iff, h]
  constructor
  · intro heq
    exact congrArg ChainFarmer.updatedLedger (Option.some.inj heq)
  · intro heq
    rw [← heq]

theorem fails_iff {q : FarmerStmt} :
    (∃ e, failing lost q w e) ↔ (∃ e, execFarmers q w = .error e) ∨ (lost q ∧ Nonempty q.Err) := by
  constructor
  · intro h
    obtain ⟨e, he⟩ := h
    exact he.imp (fun h => ⟨e, h⟩) fun h => ⟨h, ⟨e⟩⟩
  · rintro (⟨e, he⟩ | ⟨h, ⟨e⟩⟩)
    · exact ⟨e, .inl he⟩
    · exact ⟨e, .inr h⟩

theorem insert_fails_iff {address : String} {farmer : ChainFarmer} {metadata : FarmerMetadata}
    (haddress : hasNul address = false) :
    (∃ e, failing lost (.insertFarmer address (registeredRow crypto metadata address farmer)) w
        e) ↔
      (metadata.toJson.hasNul = true ∨ address ∈ w.farmers ∨
        ∃ entry ∈ w.farmers.entries, entry.2.id = farmerId address) ∨
      lost (.insertFarmer address (registeredRow crypto metadata address farmer)) := by
  rw [fails_iff, ← @insertFarmer_error_iff crypto w.farmers address metadata farmer haddress]
  have hexec : (∃ e, execFarmers (.insertFarmer address
        (registeredRow crypto metadata address farmer)) w = .error e) ↔
      ∃ e, insertFarmer w.farmers address (registeredRow crypto metadata address farmer) =
        .error e := by
    rw [execFarmers]
    cases insertFarmer w.farmers address (registeredRow crypto metadata address farmer) <;>
      simp [Except.map]
  have herr : Nonempty (FarmerStmt.insertFarmer address
      (registeredRow crypto metadata address farmer)).Err := ⟨SqlxError.rowNotFound⟩
  simp only [hexec, herr, and_true]

theorem update_fails_iff {address : String} {metadata : FarmerMetadata} {ledger : Int}
    (haddress : hasNul address = false) :
    (∃ e, failing lost (.updateFarmer address metadata.toJson (metadataHash crypto metadata)
        ledger) w e) ↔
      metadata.toJson.hasNul = true ∨
      lost (.updateFarmer address metadata.toJson (metadataHash crypto metadata) ledger) := by
  rw [fails_iff, ← @updateFarmer_error_iff crypto w.farmers address metadata ledger haddress]
  have hexec : (∃ e, execFarmers (.updateFarmer address metadata.toJson
        (metadataHash crypto metadata) ledger) w = .error e) ↔
      ∃ e, updateFarmer w.farmers address metadata.toJson (metadataHash crypto metadata)
        ledger = .error e := by
    rw [execFarmers]
    cases updateFarmer w.farmers address metadata.toJson (metadataHash crypto metadata)
      ledger <;> simp [Except.map]
  have herr : Nonempty (FarmerStmt.updateFarmer address metadata.toJson
      (metadataHash crypto metadata) ledger).Err := ⟨SqlxError.rowNotFound⟩
  simp only [hexec, herr, and_true]

/-- **`register_farmer`** leaves nothing behind but a chain record without a row. -/
theorem register_allOrNothing_iff {req : RegisterFarmerRequest} {actor : String} :
    AllOrNothing lost (registerFarmer crypto req actor) w ↔
      ¬ RegistersHalfway crypto lost req actor w := by
  constructor
  · intro hall h
    obtain ⟨address, hc, hnone, hfails⟩ := h
    have haddress := address_noNul (parse_ok (checkRegister_ok hc).1)
    obtain ⟨e, he⟩ := (insert_fails_iff (w := ⟨w.chain.insert address
      (w.chain.newRecord address), w.farmers⟩) haddress).mpr hfails
    have hchain : w.chain.registerFarmer address = .ok (w.chain.newRecord address,
        w.chain.insert address (w.chain.newRecord address)) :=
      StubChain.registerFarmer_ok_iff.mpr ⟨hnone, rfl, rfl⟩
    have hsame := hall _ _ (register_ends_iff.mpr (.insertFailed hc hchain he))
    have hin := Table.insert_eq_self_iff.mp (congrArg FarmerWorld.chain hsame)
    rw [hnone] at hin
    cases hin
  · intro hnot e w' hends
    generalize hr : (Except.error e : Except AppError Farmer) = r at hends
    cases register_ends_iff.mp hends with
    | refused | chainFailed => rfl
    | @insertFailed address farmer chain e hc hchain hF =>
        obtain ⟨hnone, rfl, rfl⟩ := StubChain.registerFarmer_ok_iff.mp hchain
        have haddress := address_noNul (parse_ok (checkRegister_ok hc).1)
        have hfails := (insert_fails_iff (w := ⟨_, w.farmers⟩) haddress).mp ⟨e, hF⟩
        exact absurd ⟨address, hc, hnone, hfails⟩ hnot
    | registered => cases hr

section
variable {input address : String} {req : UpdateMetadataRequest} {actor : String}
  {old : ChainFarmer}

/-- The chain has its new ledger, and the `UPDATE` fails or finds no row. -/
theorem update_ends_chain_moved (hc : checkUpdate crypto input req actor = .ok address)
    (hold : w.chain.lookup address = some old)
    (hfail : req.metadata.toJson.hasNul = true ∨ w.farmers.lookup address = none ∨
      lost (.updateFarmer address req.metadata.toJson (metadataHash crypto req.metadata)
        w.chain.ledger)) :
    ∃ e, Ends execFarmers (failing lost) (updateMetadata crypto input req actor) w (.error e)
      ⟨w.chain.insert address { old with updatedLedger := w.chain.ledger }, w.farmers⟩ := by
  have haddress := address_noNul (parse_ok (checkUpdate_ok hc).1)
  have hchain := StubChain.updateMetadata_ok_iff.mpr ⟨old, hold, rfl, rfl⟩
  by_cases hstop : req.metadata.toJson.hasNul = true ∨ lost (.updateFarmer address
      req.metadata.toJson (metadataHash crypto req.metadata) w.chain.ledger)
  · obtain ⟨e, he⟩ := (update_fails_iff (w := ⟨_, w.farmers⟩) haddress).mpr hstop
    exact ⟨_, update_ends_iff.mpr (.updateFailed hc hchain he)⟩
  · obtain ⟨hnul, hkept⟩ := not_or.mp hstop
    have hnone : w.farmers.lookup address = none :=
      (hfail.resolve_left hnul).resolve_right hkept
    have hupdate := (@updateFarmer_ok_iff crypto w.farmers w.farmers address req.metadata
      w.chain.ledger haddress).mpr ⟨Bool.eq_false_iff.mpr hnul, by rw [hnone]; rfl⟩
    have hread := UpdateOutcome.read (F := failing lost) hc hchain hupdate
    rw [hnone] at hread
    exact ⟨_, update_ends_iff.mpr hread⟩

/-- The row has its new profile, and is not returned. -/
theorem update_ends_row_moved {row : FarmerRow}
    (hc : checkUpdate crypto input req actor = .ok address)
    (hold : w.chain.lookup address = some old) (hrow : w.farmers.lookup address = some row)
    (hnul : req.metadata.toJson.hasNul = false)
    (hfail : (∃ e, Decoder.vec crypto.text (VerificationMarker.decode crypto.text)
      row.verificationMarkers = .error e) ∨ lost (.selectFarmer address)) :
    ∃ e, Ends execFarmers (failing lost) (updateMetadata crypto input req actor) w (.error e)
      ⟨w.chain.insert address { old with updatedLedger := w.chain.ledger },
        w.farmers.insert address (updatedRow crypto req.metadata w.chain.ledger row)⟩ := by
  have haddress := address_noNul (parse_ok (checkUpdate_ok hc).1)
  have hchain := StubChain.updateMetadata_ok_iff.mpr ⟨old, hold, rfl, rfl⟩
  have hupdate := (@updateFarmer_ok_iff crypto w.farmers _ address req.metadata
    w.chain.ledger haddress).mpr ⟨hnul, rfl⟩
  rw [hrow] at hupdate
  rcases hfail with hmarkers | hlost
  · obtain ⟨e, he⟩ := (@readFarmer_of_profile crypto address req.metadata
      (updatedRow crypto req.metadata w.chain.ledger row) rfl).mpr hmarkers
    have hread := UpdateOutcome.read (F := failing lost) hc hchain hupdate
    rw [Option.elim_some, Finmap.lookup_insert, he] at hread
    exact ⟨e, update_ends_iff.mpr hread⟩
  · have hF : failing lost (.selectFarmer address) ⟨w.chain.insert address
        { old with updatedLedger := w.chain.ledger }, w.farmers.insert address
          (updatedRow crypto req.metadata w.chain.ledger row)⟩ SqlxError.rowNotFound :=
      .inr hlost
    exact ⟨_, update_ends_iff.mpr (.selectFailed hc hchain hupdate hF)⟩

/-- What an accepted `UPDATE` leaves when nothing is left halfway. -/
theorem stored_of_not_halfway {farmers : Table String FarmerRow}
    (hnot : ¬ UpdatesHalfway crypto lost input req actor w)
    (hc : checkUpdate crypto input req actor = .ok address)
    (hold : w.chain.lookup address = some old)
    (hupdate : updateFarmer w.farmers address req.metadata.toJson
      (metadataHash crypto req.metadata) w.chain.ledger = .ok farmers)
    (hfail : ∀ row, farmers.lookup address =
        some (updatedRow crypto req.metadata w.chain.ledger row) →
      (∃ e, Decoder.vec crypto.text (VerificationMarker.decode crypto.text)
        row.verificationMarkers = .error e) ∨ lost (.selectFarmer address)) :
    (⟨w.chain.insert address { old with updatedLedger := w.chain.ledger }, farmers⟩ :
      FarmerWorld) = w := by
  have haddress := address_noNul (parse_ok (checkUpdate_ok hc).1)
  obtain ⟨hnul, rfl⟩ := (updateFarmer_ok_iff haddress).mp hupdate
  cases hrow : w.farmers.lookup address with
  | none =>
      have hledger : old.updatedLedger = w.chain.ledger := by
        by_contra hne
        exact hnot ⟨address, old, hc, hold, .inl ⟨hne, .inr (.inl hrow)⟩⟩
      rw [(StubChain.update_eq_self_iff hold).mpr hledger]
      rfl
  | some row =>
      have hfail := hfail row (by rw [hrow]; exact Finmap.lookup_insert _)
      have hsame : ¬ (old.updatedLedger ≠ w.chain.ledger ∨
          updatedRow crypto req.metadata w.chain.ledger row ≠ row) := fun hne =>
        hnot ⟨address, old, hc, hold, .inr ⟨row, hrow, hnul, hne, hfail⟩⟩
      obtain ⟨hledger, hrow'⟩ := not_or.mp hsame
      rw [(StubChain.update_eq_self_iff hold).mpr (not_not.mp hledger), Option.elim_some,
        not_not.mp hrow', Table.insert_eq_self_iff.mpr hrow]

/-- **`update_metadata`** leaves a new ledger on the chain, and a row that is not
read back. -/
theorem update_allOrNothing_iff :
    AllOrNothing lost (updateMetadata crypto input req actor) w ↔
      ¬ UpdatesHalfway crypto lost input req actor w := by
  constructor
  · intro hall h
    obtain ⟨address, old, hc, hold, hcases⟩ := h
    have hledger := (StubChain.update_eq_self_iff hold).mp
    rcases hcases with ⟨hchanged, hfail⟩ | ⟨row, hrow, hnul, hchanged, hfail⟩
    · obtain ⟨e, hends⟩ := update_ends_chain_moved hc hold hfail
      exact hchanged (hledger (congrArg FarmerWorld.chain (hall _ _ hends)))
    · obtain ⟨e, hends⟩ := update_ends_row_moved hc hold hrow hnul hfail
      have hsame := hall _ _ hends
      rcases hchanged with hchanged | hchanged
      · exact hchanged (hledger (congrArg FarmerWorld.chain hsame))
      · have hin := Table.insert_eq_self_iff.mp (congrArg FarmerWorld.farmers hsame)
        rw [hrow] at hin
        exact hchanged (Option.some.inj hin).symm
  · intro hnot e w' hends
    generalize hr : (Except.error e : Except AppError Farmer) = r at hends
    cases update_ends_iff.mp hends with
    | refused | chainFailed => rfl
    | @updateFailed address farmer chain e hc hchain hF =>
        obtain ⟨old, hold, rfl, rfl⟩ := StubChain.updateMetadata_ok_iff.mp hchain
        have haddress := address_noNul (parse_ok (checkUpdate_ok hc).1)
        have hfail := (update_fails_iff haddress).mp ⟨e, hF⟩
        by_cases hledger : old.updatedLedger = w.chain.ledger
        · rw [(StubChain.update_eq_self_iff hold).mpr hledger]
        · refine absurd ⟨address, old, hc, hold, .inl ⟨hledger, ?_⟩⟩ hnot
          exact hfail.imp_right .inr
    | @selectFailed address farmer chain farmers e hc hchain hupdate hF =>
        obtain ⟨old, hold, rfl, rfl⟩ := StubChain.updateMetadata_ok_iff.mp hchain
        have haddress := address_noNul (parse_ok (checkUpdate_ok hc).1)
        have hlost : lost (.selectFarmer address) := by
          refine hF.resolve_left fun h => ?_
          rw [execFarmers_selectFarmer haddress] at h
          cases h
        exact stored_of_not_halfway hnot hc hold hupdate fun _ _ => .inr hlost
    | @read address farmer chain farmers hc hchain hupdate =>
        obtain ⟨old, hold, rfl, rfl⟩ := StubChain.updateMetadata_ok_iff.mp hchain
        refine stored_of_not_halfway hnot hc hold hupdate fun row hrow => .inl ?_
        rw [hrow] at hr
        exact (@readFarmer_of_profile crypto address req.metadata
          (updatedRow crypto req.metadata w.chain.ledger row) rfl).mp ⟨e, hr.symm⟩

end

/-- **All or nothing, but halfway**: in every world, whatever statements may be
lost. -/
theorem writes_allOrNothing_iff (crypto : FarmerCrypto) (lost : FarmerStmt → Prop)
    (w : FarmerWorld) :
    (∀ req actor, AllOrNothing lost (registerFarmer crypto req actor) w ↔
      ¬ RegistersHalfway crypto lost req actor w) ∧
    ∀ input req actor, AllOrNothing lost (updateMetadata crypto input req actor) w ↔
      ¬ UpdatesHalfway crypto lost input req actor w :=
  ⟨fun _ _ => register_allOrNothing_iff, fun _ _ _ => update_allOrNothing_iff⟩

end

/-! Requests of one farmer. -/

def sampleAddress : String := "GAAAAAAAAAAAAAAAAAAAAAAAAAAAAAAAAAAAAAAAAAAAAAAAAAAAAWHF"

/-- The characters of a text, one after the other. -/
theorem chars_of_all {s : String} {p q : Char → Bool}
    (h : s.toList.all (fun c => p c || q c) = true) : ∀ c ∈ s.toList, p c ∨ q c := by
  simpa only [Bool.or_eq_true] using List.all_eq_true.mp h

/-- The packages on the values of these requests. -/
def sampleCrypto : FarmerCrypto where
  isPublicKey s := s = sampleAddress
  sha256 s :=
    if s = "\x7b\"name\":\"\\u0000\"\x7d" then
      "2348ef1def6f69bb34c7bfe898b59692d064b99051b6946e85eac0afa16bb75c"
    else if s = "\x7b\"name\":\"Ada Grain Cooperative\"\x7d" then
      "5b9e33ee0642d888d505b5805c9ff6577296dafffae94bc6a11ff93a8d2e4c73"
    else "4819df83e6c5f85be06395932ba0ac6001d68bbd1e828479a0cbad122696e054"
  text := ⟨fun _ => "0.0", fun s => s⟩
  base32 := by
    intro s hs
    rw [of_decide_eq_true hs]
    exact chars_of_all (by decide)
  hex := by
    intro s
    split_ifs <;> exact chars_of_all (by decide)

/-- A profile of the given name. -/
def named (name : String) : FarmerMetadata := ⟨name, none, none, none, none⟩

def registerNamed (name : String) : RegisterFarmerRequest := ⟨sampleAddress, named name, none⟩

/-- The table after a `FarmerRegistered` event was applied to an empty one. -/
def indexedFarmers : Table String FarmerRow :=
  match upsertIdentityFarmer ∅ sampleAddress (.obj []) with
  | .ok farmers => farmers
  | .error _ => ∅

/-- U+0000 in the name, or a row of the indexer: the chain has the farmer
nevertheless. -/
theorem register_leaves_chain_record :
    ¬ AllOrNothing (fun _ => False) (registerFarmer sampleCrypto (registerNamed "\x00")
        sampleAddress) .empty ∧
    ¬ AllOrNothing (fun _ => False) (registerFarmer sampleCrypto
        (registerNamed "Ada Farm Cooperative") sampleAddress) ⟨∅, indexedFarmers⟩ := by
  refine ⟨fun h => ?_, fun h => ?_⟩
  · refine register_allOrNothing_iff.mp h ⟨sampleAddress, rfl, rfl, .inl (.inl ?_)⟩
    decide
  · refine register_allOrNothing_iff.mp h ⟨sampleAddress, rfl, rfl, .inl (.inr (.inl ?_))⟩
    decide

end VerdantBackend
