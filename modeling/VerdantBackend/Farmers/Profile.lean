import VerdantBackend.Farmers.Outcomes

/-!
# Profiles in the table

A stored profile is read back as it was, and what the two SQL writes of the
farmer service do to the row of an address.
-/

namespace VerdantBackend

/-- **The profile round trip**: the derived serializer and deserializer agree. -/
theorem FarmerMetadata.decode_toJson (text : SerdeText) (m : FarmerMetadata) :
    FarmerMetadata.decode text m.toJson = .ok m := by
  rcases m with ⟨name, _ | region, _ | district, _ | bio, _ | image⟩ <;> rfl

theorem metadataHash_noNul (crypto : FarmerCrypto) (m : FarmerMetadata) :
    hasNul (metadataHash crypto m) = false := by
  rw [hasNul_eq_false_iff]
  intro hc
  rcases crypto.hex _ _ hc with hdig | hlow
  · exact absurd hdig (by decide)
  · exact absurd hlow (by decide)

theorem farmerId_noNul {address : String} (h : hasNul address = false) :
    hasNul (farmerId address) = false := by
  rw [farmerId, hasNul_append, h]
  decide

/-- The row after an accepted `UPDATE`. -/
def updatedRow (crypto : FarmerCrypto) (metadata : FarmerMetadata) (ledger : Int)
    (row : FarmerRow) : FarmerRow :=
  { row with
    metadata := metadata.toJson
    metadataHash := metadataHash crypto metadata
    updatedLedger := some ledger }

section
variable {crypto : FarmerCrypto} {farmers farmers' : Table String FarmerRow} {address : String}
  {metadata : FarmerMetadata} {ledger : Int}

/-- The `UPDATE` is refused over U+0000 only, and touches one row. -/
theorem updateFarmer_ok_iff (haddress : hasNul address = false) :
    updateFarmer farmers address metadata.toJson (metadataHash crypto metadata) ledger =
        .ok farmers' ↔
      metadata.toJson.hasNul = false ∧
        farmers' = (farmers.lookup address).elim farmers fun row =>
          farmers.insert address (updatedRow crypto metadata ledger row) := by
  rw [updateFarmer, haddress, metadataHash_noNul]
  cases hnul : metadata.toJson.hasNul with
  | true => simp
  | false =>
      rw [if_neg (by simp), if_neg (by simp), Table.update]
      cases farmers.lookup address with
      | none => simp [eq_comm]
      | some row => simp [Except.map, updatedRow, eq_comm]

theorem updateFarmer_error_iff (haddress : hasNul address = false) :
    (∃ e, updateFarmer farmers address metadata.toJson (metadataHash crypto metadata) ledger =
        .error e) ↔ metadata.toJson.hasNul = true := by
  rw [updateFarmer, haddress, metadataHash_noNul]
  cases metadata.toJson.hasNul with
  | true => simp
  | false =>
      rw [if_neg (by simp), if_neg (by simp), Table.update]
      cases farmers.lookup address <;> simp [Except.map]

/-- What refuses the `INSERT`: U+0000 in the profile, or a row that is there. -/
theorem insertFarmer_error_iff {farmer : ChainFarmer} (haddress : hasNul address = false) :
    (∃ e, insertFarmer farmers address (registeredRow crypto metadata address farmer) =
        .error e) ↔
      metadata.toJson.hasNul = true ∨ address ∈ farmers ∨
        ∃ entry ∈ farmers.entries, entry.2.id = farmerId address := by
  rw [insertFarmer, registeredRow, haddress, metadataHash_noNul, farmerId_noNul haddress]
  cases hnul : metadata.toJson.hasNul with
  | true => simp
  | false =>
      rw [if_neg (by simp), if_neg (by simp [Json.hasNul, itemsHaveNul])]
      split
      · next h => simp [h]
      split
      · next h => simp only [h, or_true, Except.error.injEq, exists_eq']
      · next h₁ h₂ => simp [h₁, h₂]

theorem insertFarmer_ok {row : FarmerRow} (h : insertFarmer farmers address row = .ok farmers') :
    address ∉ farmers ∧ farmers' = farmers.insert address row := by
  rw [insertFarmer] at h
  split at h
  · cases h
  split at h
  · cases h
  split at h
  · cases h
  split at h
  · cases h
  · next hnew _ =>
    cases h
    exact ⟨hnew, rfl⟩

/-- An `INSERT` that nothing refuses. -/
theorem insertFarmer_new {farmer : ChainFarmer} (haddress : hasNul address = false)
    (hnul : metadata.toJson.hasNul = false) (hnew : address ∉ farmers)
    (hid : ∀ entry ∈ farmers.entries, entry.2.id ≠ farmerId address) :
    insertFarmer farmers address (registeredRow crypto metadata address farmer) =
      .ok (farmers.insert address (registeredRow crypto metadata address farmer)) := by
  cases hx : insertFarmer farmers address (registeredRow crypto metadata address farmer) with
  | ok farmers' => rw [(insertFarmer_ok hx).2]
  | error e =>
      rcases (insertFarmer_error_iff haddress).mp ⟨e, hx⟩ with h | h | ⟨entry, hentry, h⟩
      · rw [hnul] at h
        cases h
      · exact absurd h hnew
      · exact absurd h (hid entry hentry)

/-- A row with a stored profile is read if its markers are. -/
theorem readFarmer_of_profile {row : FarmerRow} (h : row.metadata = metadata.toJson) :
    (∃ e, readFarmer crypto address (some row) = .error e) ↔
      ∃ e, Decoder.vec crypto.text (VerificationMarker.decode crypto.text)
        row.verificationMarkers = .error e := by
  rw [readFarmer, h, FarmerMetadata.decode_toJson]
  cases Decoder.vec crypto.text (VerificationMarker.decode crypto.text)
    row.verificationMarkers with
  | error e => simp [Except.mapError, bind, Except.bind]
  | ok markers => simp [Except.mapError, bind, Except.bind, pure, Except.pure]

end

end VerdantBackend
