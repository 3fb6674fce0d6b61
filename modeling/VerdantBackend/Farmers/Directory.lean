import VerdantBackend.Farmers.ProfileHash
import VerdantBackend.Farmers.SearchText
import VerdantBackend.Routes.Served

/-!
# The directory

A search reads the rows that `get_farmer` reads: what it lists of a farmer is what a
lookup answers.
-/

namespace VerdantBackend

open Paging (Sorter)
open Prog (Ends Failures ownFailures)

/-- The row of a farmer as a search reads it. -/
def FarmerRow.searched (createdAt : String → Int) (address : String) (row : FarmerRow) :
    FarmerSearchRow :=
  ⟨address, row.id, row.metadata, row.verificationMarkers, createdAt address⟩

/-- The farmer as a search lists it. -/
def Farmer.searchItem (farmer : Farmer) : FarmerSearchItem where
  address := farmer.address
  id := farmer.id
  name := farmer.metadata.name
  region := farmer.metadata.region
  district := farmer.metadata.district
  verificationCount := farmer.verificationMarkers.length

/-- The name, region or district contains the text, whatever the case. -/
def FarmerMetadata.Contains (lowering : Like.Lowering) (q : String) (m : FarmerMetadata) : Prop :=
  lowering.Contains q.toList m.name.toList ∨
    (∃ region ∈ m.region, lowering.Contains q.toList region.toList) ∨
    ∃ district ∈ m.district, lowering.Contains q.toList district.toList

/-! ## Profiles that decode -/

section
variable {text : SearchText} {members : List (String × Json)} {key : String}

theorem field_of_required {s : String}
    (h : Decoder.required members key (.string text.serde) = .ok s) :
    text.field (.obj members) key = some s := by
  have hget : (Json.obj members).get key = members.lookup key := rfl
  unfold Decoder.required at h
  unfold SearchText.field
  rw [hget]
  cases hl : members.lookup key with
  | none =>
      rw [hl] at h
      cases h
  | some value =>
      rw [hl] at h
      cases value with
      | str s' =>
          cases h
          rfl
      | _ => cases h

theorem field_of_defaulted {o : Option String}
    (h : Decoder.defaulted members key (.option (.string text.serde)) = .ok o) :
    text.field (.obj members) key = o := by
  have hget : (Json.obj members).get key = members.lookup key := rfl
  unfold Decoder.defaulted at h
  unfold SearchText.field
  rw [hget]
  cases hl : members.lookup key with
  | none =>
      rw [hl] at h
      cases h
      rfl
  | some value =>
      rw [hl] at h
      cases value with
      | null | str s' =>
          cases h
          rfl
      | _ => cases h

end

/-- The fields of an object that decodes are the texts of the profile. -/
theorem field_of_decode {text : SearchText} {members : List (String × Json)} {m : FarmerMetadata}
    (h : FarmerMetadata.decode text.serde (.obj members) = .ok m) :
    text.field (.obj members) "name" = some m.name ∧
      text.field (.obj members) "region" = m.region ∧
      text.field (.obj members) "district" = m.district := by
  simp only [FarmerMetadata.decode, Bind.bind, Except.bind, Pure.pure, Except.pure] at h
  split at h
  · cases h
  split at h
  · cases h
  next name hname =>
  split at h
  · cases h
  next region hregion =>
  split at h
  · cases h
  next district hdistrict =>
  split at h
  · cases h
  split at h
  · cases h
  cases h
  exact ⟨field_of_required hname, field_of_defaulted hregion, field_of_defaulted hdistrict⟩

/-- A profile that decodes is an object or a sequence. -/
theorem obj_or_arr_of_decode {text : SerdeText} {j : Json} {m : FarmerMetadata}
    (h : FarmerMetadata.decode text j = .ok m) :
    (∃ members, j = .obj members) ∨ ∃ items, j = .arr items := by
  cases j with
  | obj members => exact .inl ⟨_, rfl⟩
  | arr items => exact .inr ⟨_, rfl⟩
  | _ => cases h

/-- What a search finds of a farmer: nothing of a profile that is stored as a sequence. -/
theorem contains_of_decode {text : SearchText} {q : String} {row : FarmerSearchRow}
    {m : FarmerMetadata} (h : FarmerMetadata.decode text.serde row.metadata = .ok m) :
    text.Contains q row ↔
      q = "" ∨ (∃ members, row.metadata = .obj members) ∧ m.Contains text.lowering q := by
  unfold SearchText.Contains
  rcases obj_or_arr_of_decode h with ⟨members, hobj⟩ | ⟨items, harr⟩
  · rw [hobj] at h ⊢
    obtain ⟨hname, hregion, hdistrict⟩ := field_of_decode h
    simp [hname, hregion, hdistrict, FarmerMetadata.Contains]
  · have hfield : ∀ key, text.field (.arr items) key = none := fun _ => rfl
    simp [harr, hfield]

/-! ## Lookups -/

section
variable {text : SearchText} {crypto : FarmerCrypto} {F : Failures farmerStmts FarmerWorld}
  {w : FarmerWorld} {createdAt : String → Int}

/-- The row behind what is read. -/
theorem row_of_read {address : String} {found : Option FarmerRow} {farmer : Farmer}
    (h : readFarmer crypto address found = .ok farmer) :
    ∃ row, found = some row ∧ farmer.address = address ∧ farmer.id = row.id ∧
      FarmerMetadata.decode crypto.text row.metadata = .ok farmer.metadata ∧
      Decoder.vec crypto.text (VerificationMarker.decode crypto.text) row.verificationMarkers =
        .ok farmer.verificationMarkers := by
  cases found with
  | none => cases h
  | some row =>
      rw [readFarmer] at h
      cases hm : FarmerMetadata.decode crypto.text row.metadata with
      | error e =>
          rw [hm] at h
          cases h
      | ok metadata =>
          rw [hm] at h
          cases hv : Decoder.vec crypto.text (VerificationMarker.decode crypto.text)
              row.verificationMarkers with
          | error e =>
              rw [hv] at h
              cases h
          | ok markers =>
              rw [hv] at h
              cases h
              exact ⟨row, rfl, rfl, rfl, hm, hv⟩

/-- The row behind an answer of `get_farmer`, and what a search lists of it. -/
theorem row_of_get (htext : crypto.text = text.serde) (createdAt : String → Int)
    {input : String} {farmer : Farmer}
    (h : Ends execFarmers F (getFarmer crypto input) w (.ok farmer) w) :
    ∃ row, w.farmers.lookup farmer.address = some row ∧
      FarmerMetadata.decode text.serde row.metadata = .ok farmer.metadata ∧
      (row.searched createdAt farmer.address).toItem text = farmer.searchItem := by
  obtain ⟨hget, -⟩ := get_ends_iff.mp h
  generalize hr : Except.ok farmer = r at hget
  cases hget with
  | refused _ => cases hr
  | selectFailed _ _ => cases hr
  | read hparse =>
      obtain ⟨row, hrow, rfl, hid, hm, hv⟩ := row_of_read hr.symm
      rw [htext] at hm hv
      refine ⟨row, hrow, hm, ?_⟩
      simp [FarmerRow.searched, FarmerSearchRow.toItem, Farmer.searchItem, hid, hm, hv,
        Except.toOption]

/-- **The directory**: a search for a plain text lists, of a farmer whom a lookup answers,
what the lookup answers; and it lists the farmer, on one page, exactly when nothing is
searched or the name, region or district contains the text and the profile is stored as
an object. -/
theorem directory_agrees (htext : crypto.text = text.serde) {table : FarmersTable}
    (hshows : Shows w.farmers (FarmerRow.searched createdAt) table) {q : Option String}
    (hnul : hasNul (q.getD "") = false) (hplain : Like.Plain (q.getD "").toList)
    {sorters : Int64 → Sorter FarmerSearchRow.ListedBefore} {pageSize : Int64}
    (hties : TiesTogether sorters pageSize (containingRows text table (q.getD ""))) :
    ∃ pages, SearchPartition text (containingRows text table (q.getD ""))
        (fun page => searchFarmers text (sorters page) table q page pageSize) pages ∧
      ∀ input farmer, Ends execFarmers F (getFarmer crypto input) w (.ok farmer) w →
        (∀ item ∈ pages.flatMap ListResponse.items, item.address = farmer.address →
          item = farmer.searchItem) ∧
        (farmer.searchItem ∈ pages.flatMap ListResponse.items ↔
          q.getD "" = "" ∨
            (∃ row members, w.farmers.lookup farmer.address = some row ∧
              row.metadata = .obj members) ∧
            farmer.metadata.Contains text.lowering (q.getD "")) := by
  obtain ⟨pages, hpages, -⟩ := exists_searchPartition hnul hplain hties
  refine ⟨pages, hpages, fun input farmer hget => ?_⟩
  obtain ⟨row, hrow, hdecode, hitem⟩ := row_of_get htext createdAt hget
  have hlisted : ∀ item, item ∈ pages.flatMap ListResponse.items ↔
      ∃ r ∈ table.rows, text.Contains (q.getD "") r ∧ r.toItem text = item := by
    intro item
    rw [hpages.items.mem_iff]
    simp [containingRows, and_assoc]
  -- the table has one row of the farmer
  have hone : ∀ r ∈ table.rows, r.address = farmer.address →
      r = row.searched createdAt farmer.address := by
    intro r hr haddress
    obtain ⟨key, row', hrow', rfl⟩ := (hshows r).mp hr
    have hkey : key = farmer.address := haddress
    rw [hkey, hrow, Option.some.injEq] at hrow'
    rw [hkey, hrow']
  constructor
  · intro item hmem haddress
    obtain ⟨r, hr, _, rfl⟩ := (hlisted item).mp hmem
    rw [hone r hr haddress, hitem]
  · rw [hlisted]
    have hcontains : text.Contains (q.getD "") (row.searched createdAt farmer.address) ↔ _ :=
      contains_of_decode hdecode
    constructor
    · rintro ⟨r, hr, hfound, hsame⟩
      have haddress : r.address = farmer.address := congrArg FarmerSearchItem.address hsame
      rw [hone r hr haddress, hcontains] at hfound
      refine hfound.imp_right fun h => ⟨?_, h.2⟩
      obtain ⟨members, hobj⟩ := h.1
      exact ⟨row, members, hrow, hobj⟩
    · intro h
      refine ⟨_, (hshows _).mpr ⟨_, row, hrow, rfl⟩, hcontains.mpr ?_, hitem⟩
      refine h.imp_right fun h => ⟨?_, h.2⟩
      obtain ⟨⟨row', members, hrow', hobj⟩, _⟩ := h
      rw [hrow, Option.some.injEq] at hrow'
      exact ⟨members, hrow' ▸ hobj⟩

end

/-! The farmer of a registration, searched by a part of the name. -/

def adaDirectory : FarmersTable where
  rows := [adaRow.searched (fun _ => 1700000000000000) sampleAddress]
  ids := List.nodup_singleton _
  length_lt := by decide

theorem shows_adaDirectory :
    Shows registeredAda.farmers (FarmerRow.searched fun _ => 1700000000000000) adaDirectory := by
  intro r
  rw [adaDirectory, List.mem_singleton]
  constructor
  · rintro rfl
    exact ⟨_, adaRow, Finmap.lookup_insert _, rfl⟩
  · rintro ⟨key, row, hrow, rfl⟩
    by_cases hkey : key = sampleAddress
    · subst hkey
      have hrow' : some adaRow = some row := (Finmap.lookup_insert _).symm.trans hrow
      cases hrow'
      rfl
    · have hnone : registeredAda.farmers.lookup key = none :=
        (Finmap.lookup_insert_of_ne _ hkey).trans (Finmap.lookup_empty _)
      rw [hnone] at hrow
      cases hrow

theorem directory_lists_ada :
    ∃ pages, SearchPartition sampleSearchText
        (containingRows sampleSearchText adaDirectory "coop")
        (fun page => searchFarmers sampleSearchText (secondTurned page) adaDirectory (some "coop")
          page 20) pages ∧
      adaFarmer.searchItem ∈ pages.flatMap ListResponse.items := by
  have hread : readFarmer sampleCrypto sampleAddress
      (registeredAda.farmers.lookup sampleAddress) = .ok adaFarmer := by
    have hrow : registeredAda.farmers.lookup sampleAddress = some adaRow :=
      Finmap.lookup_insert _
    rw [hrow]
    exact readFarmer_registered _ _ _
  have hget : Ends execFarmers (ownFailures execFarmers) (getFarmer sampleCrypto sampleAddress)
      registeredAda (.ok adaFarmer) registeredAda := by
    rw [← hread]
    exact get_ends_iff.mpr ⟨.read (parse_address sampleAddress_isPublicKey), rfl⟩
  have htext : sampleCrypto.text = sampleSearchText.serde := rfl
  obtain ⟨pages, hpages, hfarmers⟩ := directory_agrees htext shows_adaDirectory
    (q := some "coop") (by decide) (by decide)
    (show TiesTogether secondTurned 20 _ from .inr (by decide))
  refine ⟨pages, hpages, (hfarmers _ _ hget).2.mpr (.inr ⟨⟨adaRow, _, Finmap.lookup_insert _, rfl⟩,
    .inl ?_⟩)⟩
  decide

end VerdantBackend
