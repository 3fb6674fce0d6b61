import VerdantBackend.Farmers.AllOrNothing
import VerdantBackend.Farmers.Run

/-!
# Profile and hash

The hash comes from the canonical encoder, the profile goes through the derived
serializer into the table and through the derived deserializer out of it. They
stay in step: a row either still is as the indexer created it, or holds a profile
that is read back and the hash of just this profile.
-/

namespace VerdantBackend

open Prog

/-- The indexer created the row, and no request for the address was ever accepted. -/
structure IndexerOnly (past : List FarmerEvent) (a : String) (row : FarmerRow) : Prop where
  created : ∃ c, FarmerEvent.applied c ∈ past ∧ c.isRegistered = true ∧ c.address = a
  untouched : ∀ e ∈ past, ∀ farmer, e.returned = some farmer → farmer.address ≠ a
  metadata : row.metadata = .obj []
  metadataHash : row.metadataHash = ""

/-- The row holds a profile and the hash of this profile. -/
def HoldsProfile (crypto : FarmerCrypto) (row : FarmerRow) : Prop :=
  ∃ m, FarmerMetadata.decode crypto.text row.metadata = .ok m ∧
    row.metadataHash = metadataHash crypto m

/-- What holds of the row of an address after the past steps. -/
def RowInStep (crypto : FarmerCrypto) (a : String) (past : List FarmerEvent) :
    Option FarmerRow → Prop
  | none => ∀ e ∈ past, ∀ farmer, e.returned = some farmer → farmer.address ≠ a
  | some row => IndexerOnly past a row ∨ HoldsProfile crypto row

section
variable {crypto : FarmerCrypto} {F : Failures farmerStmts FarmerWorld}
  {G : FarmerWorld → IdentityChange → Prop} {w w' : FarmerWorld} {a : String}
  {past : List FarmerEvent}

theorem holdsProfile_registered (metadata : FarmerMetadata) (farmer : ChainFarmer) :
    HoldsProfile crypto (registeredRow crypto metadata a farmer) :=
  ⟨metadata, FarmerMetadata.decode_toJson _ _, rfl⟩

theorem holdsProfile_updated (metadata : FarmerMetadata) (ledger : Int) (row : FarmerRow) :
    HoldsProfile crypto (updatedRow crypto metadata ledger row) :=
  ⟨metadata, FarmerMetadata.decode_toJson _ _, rfl⟩

theorem untouched_cons {e : FarmerEvent}
    (h : ∀ e ∈ past, ∀ farmer, e.returned = some farmer → farmer.address ≠ a)
    (he : ∀ farmer, e.returned = some farmer → farmer.address ≠ a) :
    ∀ x ∈ e :: past, ∀ farmer, x.returned = some farmer → farmer.address ≠ a := by
  intro x hx
  rcases List.mem_cons.mp hx with rfl | hx
  · exact he
  · exact h x hx

theorem IndexerOnly.cons {e : FarmerEvent} {row row' : FarmerRow} (h : IndexerOnly past a row)
    (he : ∀ farmer, e.returned = some farmer → farmer.address ≠ a)
    (hmetadata : row'.metadata = row.metadata) (hhash : row'.metadataHash = row.metadataHash) :
    IndexerOnly (e :: past) a row' := by
  obtain ⟨c, hc, hreg, ha⟩ := h.created
  exact {
    created := ⟨c, List.mem_cons_of_mem _ hc, hreg, ha⟩
    untouched := untouched_cons h.untouched he
    metadata := hmetadata.trans h.metadata
    metadataHash := hhash.trans h.metadataHash }

/-- An identity event never touches profile and hash. -/
theorem RowInStep.identity {c : IdentityChange} {row : Option FarmerRow} (hc : c.address = a)
    (h : RowInStep crypto a past row) :
    RowInStep crypto a (.applied c :: past) (c.after row) := by
  have hnone : ∀ farmer, (FarmerEvent.applied c).returned = some farmer → farmer.address ≠ a := by
    intro farmer hf
    cases hf
  cases row with
  | some row =>
      rcases h with h | h
      · exact .inl (h.cons hnone rfl rfl)
      · exact .inr h
  | none =>
      cases c with
      | registered address data =>
          refine .inl ⟨⟨_, List.mem_cons_self, rfl, hc⟩, untouched_cons h hnone, rfl, rfl⟩
      | metadataUpdated address data | markerSet address data => exact untouched_cons h hnone

/-- One step keeps profile and hash in step. -/
theorem RowInStep.step {e : FarmerEvent} {row' : Option FarmerRow}
    (h : RowInStep crypto a past (w.farmers.lookup a)) (heffect : RowEffect crypto G w a e row') :
    RowInStep crypto a (e :: past) row' := by
  cases heffect with
  | same he =>
      generalize w.farmers.lookup a = row at h
      cases row with
      | none => exact untouched_cons h he
      | some row =>
          rcases h with h | h
          · exact .inl (h.cons he rfl rfl)
          · exact .inr h
  | inserted => exact .inr (holdsProfile_registered _ _)
  | profiled => exact .inr (holdsProfile_updated _ _ _)
  | identity _ hc => exact h.identity hc

theorem FarmerRun.rowInStep (h : FarmerRun crypto F G past w) (a : String) :
    RowInStep crypto a past (w.farmers.lookup a) := by
  refine h.row_invariant a ?_ fun _ _ _ _ hP heffect => hP.step heffect
  intro e he
  cases he

/-- The value that `register_farmer` returns is what it stored. -/
theorem readFarmer_registered (metadata : FarmerMetadata) (address : String)
    (farmer : ChainFarmer) :
    readFarmer crypto address (some (registeredRow crypto metadata address farmer)) =
      .ok (registeredFarmer crypto metadata address farmer) := by
  rw [readFarmer, registeredRow, FarmerMetadata.decode_toJson]
  rfl

/-- `get_farmer` without failures from outside. -/
theorem run_getFarmer {input address : String}
    (hparse : parseFarmerIdentifier crypto input = .ok address) :
    run execFarmers (getFarmer crypto input) w =
      (readFarmer crypto address (w.farmers.lookup address), w) := by
  have hends : Ends execFarmers (ownFailures execFarmers) (getFarmer crypto input) w
      (readFarmer crypto address (w.farmers.lookup address)) w :=
    get_ends_iff.mpr ⟨.read hparse, rfl⟩
  obtain ⟨_, hout⟩ := hends
  exact hout.run_eq.1

/-- **Read your registration**: `get_farmer` returns what `register_farmer` did. -/
theorem FarmerCall.get_registered {req : RegisterFarmerRequest} {actor input : String}
    {farmer : Farmer} (h : FarmerCall crypto F G w (.registered req actor (.ok farmer)) w')
    (hparse : parseFarmerIdentifier crypto input = .ok farmer.address) :
    run execFarmers (getFarmer crypto input) w' = (.ok farmer, w') := by
  cases h with
  | register h =>
      rw [run_getFarmer hparse]
      generalize hr : (Except.ok farmer : Except AppError Farmer) = r at h
      cases register_ends_iff.mp h with
      | refused | chainFailed | insertFailed => cases hr
      | @registered address chainFarmer chain farmers hc hchain hinsert =>
          obtain ⟨_, rfl⟩ := insertFarmer_ok hinsert
          cases hr
          show (readFarmer crypto address ((w.farmers.insert address _).lookup address), _) = _
          rw [Finmap.lookup_insert]
          exact congrArg (·, _) (readFarmer_registered _ _ _)

end

/-- **Profile and hash stay in step**, in every state that calls with any results
and any identity events lead to; and a registration is read back as it was
returned. -/
theorem profile_and_hash_in_step (crypto : FarmerCrypto)
    (F : Failures farmerStmts FarmerWorld) (G : FarmerWorld → IdentityChange → Prop)
    (past : List FarmerEvent) (w : FarmerWorld) (h : FarmerRun crypto F G past w) :
    (∀ a row, w.farmers.lookup a = some row → IndexerOnly past a row ∨ HoldsProfile crypto row) ∧
    ∀ req actor farmer w', FarmerCall crypto F G w (.registered req actor (.ok farmer)) w' →
      ∀ input, parseFarmerIdentifier crypto input = .ok farmer.address →
        run execFarmers (getFarmer crypto input) w' = (.ok farmer, w') := by
  constructor
  · intro a row hrow
    have hstate := h.rowInStep a
    rw [hrow] at hstate
    exact hstate
  · intro req actor farmer w' hcall input hparse
    exact hcall.get_registered hparse

/-! A farmer registers. -/

def adaRecord : ChainFarmer := ⟨sampleAddress, 100000, 100000, []⟩

def adaRow : FarmerRow :=
  registeredRow sampleCrypto (named "Ada Farm Cooperative") sampleAddress adaRecord

def registeredAda : FarmerWorld where
  chain := (∅ : StubChain).insert sampleAddress adaRecord
  farmers := (∅ : Table String FarmerRow).insert sampleAddress adaRow

/-- What the registration returns. -/
def adaFarmer : Farmer :=
  registeredFarmer sampleCrypto (named "Ada Farm Cooperative") sampleAddress adaRecord

theorem sampleAddress_isPublicKey : sampleCrypto.isPublicKey sampleAddress = true :=
  decide_eq_true (p := sampleAddress = sampleAddress) rfl

theorem ada_inserted :
    insertFarmer ∅ sampleAddress adaRow =
      .ok ((∅ : Table String FarmerRow).insert sampleAddress adaRow) := by
  refine insertFarmer_new (address_noNul sampleAddress_isPublicKey) (by decide)
    Finmap.notMem_empty ?_
  intro entry hentry
  exact absurd hentry (Multiset.notMem_zero entry)

theorem ada_registers {G : FarmerWorld → IdentityChange → Prop} :
    FarmerCall sampleCrypto (ownFailures execFarmers) G .empty
      (.registered (registerNamed "Ada Farm Cooperative") sampleAddress (.ok adaFarmer))
      registeredAda := by
  refine .register (register_ends_iff.mpr (.registered ?_ ?_ ada_inserted))
  · exact checkRegister_own sampleAddress_isPublicKey (by decide)
  · exact StubChain.registerFarmer_ok_iff.mpr ⟨Finmap.lookup_empty _, rfl, rfl⟩

/-- After a registration: the row holds its profile, and both forms of the
identifier read it. -/
theorem profile_and_hash_registered :
    (∀ row, registeredAda.farmers.lookup sampleAddress = some row →
      IndexerOnly [.registered (registerNamed "Ada Farm Cooperative") sampleAddress
        (.ok adaFarmer)] sampleAddress row ∨ HoldsProfile sampleCrypto row) ∧
    run execFarmers (getFarmer sampleCrypto sampleAddress) registeredAda =
      (.ok adaFarmer, registeredAda) ∧
    run execFarmers (getFarmer sampleCrypto (farmerId sampleAddress)) registeredAda =
      (.ok adaFarmer, registeredAda) := by
  have hcall := ada_registers (G := fun _ _ => True)
  have hafter := profile_and_hash_in_step _ _ _ _ _ (Trail.start.step hcall)
  have hstart := profile_and_hash_in_step sampleCrypto (ownFailures execFarmers)
    (fun _ _ => True) [] .empty .start
  refine ⟨fun row hrow => hafter.1 _ row hrow, ?_, ?_⟩
  · exact hstart.2 _ _ _ _ hcall _ (parse_address sampleAddress_isPublicKey)
  · exact hstart.2 _ _ _ _ hcall _ (parse_farmerId sampleAddress_isPublicKey)

end VerdantBackend
