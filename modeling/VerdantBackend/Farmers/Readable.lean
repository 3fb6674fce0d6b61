import VerdantBackend.Farmers.AllOrNothing
import VerdantBackend.Farmers.ProfileHash

/-!
# Readable rows

Whether `get_farmer` can read what is stored. The markers of documented payloads
always decode. A profile decodes in every row that a registration over REST
created; in a row that the indexer created there is none, and `get_farmer` fails
where `search_farmers` takes a default.
-/

namespace VerdantBackend

open Prog

/-! ## Documented payloads -/

/-- The text of a member. -/
def objStr (data : Json) (key : String) : Option String := (data.get key).bind Json.asStr

/-- An object, its members under distinct keys. -/
def IsObject (j : Json) : Prop := ∃ members, j = .obj members ∧ (members.map Prod.fst).Nodup

/-- `{ kind, issuer, issued_ledger }`. -/
structure MarkerShape (j : Json) : Prop where
  object : IsObject j
  kind : objStr j "kind" ≠ none
  issuer : objStr j "issuer" ≠ none
  issuedLedger : objI64 j "issued_ledger" ≠ none

/-- An array of markers. -/
def MarkersShape (j : Json) : Prop := ∃ items, j = .arr items ∧ ∀ m ∈ items, MarkerShape m

/-- `{ address, metadata_hash, verification_markers, created_ledger, updated_ledger }`. -/
structure FarmerShape (j : Json) : Prop where
  object : IsObject j
  address : objStr j "address" ≠ none
  metadataHash : objStr j "metadata_hash" ≠ none
  verificationMarkers : ∃ markers, j.get "verification_markers" = some markers ∧
    MarkersShape markers
  createdLedger : objI64 j "created_ledger" ≠ none
  updatedLedger : objI64 j "updated_ledger" ≠ none

/-- An identity event of a valid address whose payload has its documented shape. -/
def IdentityChange.Documented (crypto : FarmerCrypto) (c : IdentityChange) : Prop :=
  crypto.isPublicKey c.address = true ∧
    match c with
    | .registered _ data | .metadataUpdated _ data => FarmerShape data
    | .markerSet _ data => MarkerShape data

/-- A documented event, and no registration of the address `a` while it has no row. -/
def CreatesNoRow (crypto : FarmerCrypto) (a : String) (w : FarmerWorld) (c : IdentityChange) :
    Prop :=
  c.Documented crypto ∧ (c.isRegistered = true → c.address = a → a ∈ w.farmers)

/-! ## Markers decode -/

theorem lookup_of_mem {members : List (String × Json)} {key : String} {value : Json}
    (hkeys : (members.map Prod.fst).Nodup) (h : (key, value) ∈ members) :
    members.lookup key = some value := by
  induction members with
  | nil => cases h
  | cons m members ih =>
      obtain ⟨k, v⟩ := m
      rw [List.map_cons, List.nodup_cons] at hkeys
      rcases List.mem_cons.mp h with heq | h
      · cases heq
        exact List.lookup_cons_self
      · have hne : key ≠ k := by
          intro heq
          exact hkeys.1 (List.mem_map.mpr ⟨_, h, heq⟩)
        rw [List.lookup_cons, beq_eq_false_iff_ne.mpr hne]
        exact ih hkeys.2 h

namespace Decoder

variable {α : Type} {text : SerdeText}

theorem visitMembers_ok {fields : List (String × Decoder Unit)}
    {members : List (String × Json)}
    (h : ∀ key value decode, (key, value) ∈ members → fields.lookup key = some decode →
      decode value = .ok ()) :
    visitMembers fields members = .ok () := by
  induction members with
  | nil => rfl
  | cons m members ih =>
      obtain ⟨key, value⟩ := m
      have hrest := ih fun k v decode hm => h k v decode (List.mem_cons_of_mem _ hm)
      cases hlookup : fields.lookup key with
      | none =>
          simp only [visitMembers, List.forM, hlookup]
          exact hrest
      | some decode =>
          simp only [visitMembers, List.forM, hlookup,
            h key value decode List.mem_cons_self hlookup]
          exact hrest

variable (text) in
theorem vec_ok {decode : Decoder α} {items : List Json}
    (h : ∀ j ∈ items, ∃ a, decode j = .ok a) : ∃ l, vec text decode (.arr items) = .ok l := by
  show ∃ l, items.mapM decode = .ok l
  induction items with
  | nil => exact ⟨[], rfl⟩
  | cons j items ih =>
      obtain ⟨a, ha⟩ := h j List.mem_cons_self
      obtain ⟨l, hl⟩ := ih fun x hx => h x (List.mem_cons_of_mem _ hx)
      refine ⟨a :: l, ?_⟩
      rw [List.mapM_cons, ha, hl]
      rfl

/-! Members that have their type. -/

variable (text) in
theorem string_ok {j : Json} {key : String} (h : objStr j key ≠ none) :
    ∃ value s, j.get key = some value ∧ string text value = .ok s := by
  rw [objStr] at h
  cases hget : j.get key with
  | none => simp [hget] at h
  | some value =>
      rw [hget] at h
      cases value with
      | str s => exact ⟨_, s, rfl, rfl⟩
      | _ => simp [Json.asStr] at h

variable (text) in
theorem i64_ok {j : Json} {key : String} (h : objI64 j key ≠ none) :
    ∃ value n, j.get key = some value ∧ i64 text value = .ok n := by
  rw [objI64] at h
  cases hget : j.get key with
  | none => simp [hget] at h
  | some value =>
      rw [hget] at h
      cases value with
      | num n =>
          have hn : n.val < 2 ^ 63 := by
            by_contra hn
            exact h (if_neg hn)
          exact ⟨_, n.val, rfl, if_pos hn⟩
      | _ => simp [Json.asI64] at h

theorem required_ok {members : List (String × Json)} {key : String} {value : Json}
    {decode : Decoder α} (h : members.lookup key = some value) :
    required members key decode = decode value := by
  rw [required, h]

end Decoder

/-- **A documented marker decodes.** -/
theorem VerificationMarker.decode_ok (text : SerdeText) {j : Json} (h : MarkerShape j) :
    ∃ m, VerificationMarker.decode text j = .ok m := by
  obtain ⟨members, rfl, hkeys⟩ := h.object
  obtain ⟨kind, s, hkind, hs⟩ := Decoder.string_ok text h.kind
  obtain ⟨issuer, t, hissuer, ht⟩ := Decoder.string_ok text h.issuer
  obtain ⟨ledger, n, hledger, hn⟩ := Decoder.i64_ok text h.issuedLedger
  have hvisit : Decoder.visitMembers [("kind", .check (.string text)),
      ("issuer", .check (.string text)), ("issued_ledger", .check (.i64 text))] members =
        .ok () := by
    refine Decoder.visitMembers_ok fun key value decode hmem hfield => ?_
    have hvalue := lookup_of_mem hkeys hmem
    obtain ⟨l₁, l₂, hfields, _⟩ := List.lookup_eq_some_iff.mp hfield
    have hin : (key, decode) ∈ l₁ ++ (key, decode) :: l₂ := by simp
    rw [← hfields] at hin
    simp only [List.mem_cons, Prod.mk.injEq, List.not_mem_nil, or_false] at hin
    have hsame : ∀ v, (Json.obj members).get key = some v → value = v :=
      fun v hv => Option.some.inj (hvalue.symm.trans hv)
    rcases hin with ⟨rfl, rfl⟩ | ⟨rfl, rfl⟩ | ⟨rfl, rfl⟩
    · rw [Decoder.check, hsame kind hkind, hs]
      rfl
    · rw [Decoder.check, hsame issuer hissuer, ht]
      rfl
    · rw [Decoder.check, hsame ledger hledger, hn]
      rfl
  refine ⟨⟨s, t, n⟩, ?_⟩
  rw [VerificationMarker.decode, hvisit]
  show (do
    let kind ← Decoder.required members "kind" (.string text)
    let issuer ← Decoder.required members "issuer" (.string text)
    let issuedLedger ← Decoder.required members "issued_ledger" (.i64 text)
    return VerificationMarker.mk kind issuer issuedLedger) = Except.ok _
  rw [Decoder.required_ok hkind, Decoder.required_ok hissuer, Decoder.required_ok hledger, hs, ht,
    hn]
  rfl

/-! ## Rows that can be read -/

/-- Profile and markers of the row decode. -/
structure CanBeRead (crypto : FarmerCrypto) (row : FarmerRow) : Prop where
  metadata : ∃ m, FarmerMetadata.decode crypto.text row.metadata = .ok m
  verificationMarkers : MarkersShape row.verificationMarkers

/-- What holds of the row of an address. -/
def RowReadable (crypto : FarmerCrypto) (a : String) : Option FarmerRow → Prop
  | none => True
  | some row => crypto.isPublicKey a = true ∧ CanBeRead crypto row

section
variable {crypto : FarmerCrypto} {F : Failures farmerStmts FarmerWorld} {w w' : FarmerWorld}
  {a : String} {past : List FarmerEvent}

theorem readFarmer_canBeRead {row : FarmerRow} (h : CanBeRead crypto row) (address : String) :
    ∃ farmer, readFarmer crypto address (some row) = .ok farmer := by
  obtain ⟨m, hm⟩ := h.metadata
  obtain ⟨items, hitems, hshape⟩ := h.verificationMarkers
  obtain ⟨markers, hmarkers⟩ := Decoder.vec_ok crypto.text
    fun j hj => VerificationMarker.decode_ok crypto.text (hshape j hj)
  rw [readFarmer, hm, hitems, hmarkers]
  exact ⟨_, rfl⟩

theorem MarkersShape.concat {markers data : Json} (h : MarkersShape markers)
    (hdata : MarkerShape data) : MarkersShape (markers.concat data) := by
  obtain ⟨items, rfl, hitems⟩ := h
  obtain ⟨members, rfl, _⟩ := hdata.object
  refine ⟨items ++ [.obj members], rfl, fun m hm => ?_⟩
  rcases List.mem_append.mp hm with hm | hm
  · exact hitems m hm
  · rw [List.mem_singleton.mp hm]
    exact hdata

theorem IdentityChange.markersAfter_shape {c : IdentityChange} {markers : Json}
    (hc : c.Documented crypto) (h : MarkersShape markers) :
    MarkersShape (c.markersAfter markers) := by
  cases c with
  | registered address data =>
      obtain ⟨items, hget, hitems⟩ := hc.2.verificationMarkers
      show MarkersShape ((data.get "verification_markers").getD (.arr []))
      rw [hget]
      exact hitems
  | metadataUpdated address data => exact h
  | markerSet address data => exact h.concat hc.2

/-- One step keeps a row readable, unless it is the indexer that creates it. -/
theorem RowReadable.step {e : FarmerEvent} {row : Option FarmerRow}
    (h : RowReadable crypto a (w.farmers.lookup a))
    (heffect : RowEffect crypto (CreatesNoRow crypto a) w a e row) :
    RowReadable crypto a row := by
  cases heffect with
  | same => exact h
  | inserted hc =>
      refine ⟨parse_ok (checkRegister_ok hc).1, ⟨_, FarmerMetadata.decode_toJson _ _⟩, [], rfl, ?_⟩
      intro m hm
      cases hm
  | profiled hc hrow =>
      rw [hrow] at h
      exact ⟨h.1, ⟨_, FarmerMetadata.decode_toJson _ _⟩, h.2.verificationMarkers⟩
  | @identity c hG hc =>
      obtain ⟨hdoc, hcreates⟩ := hG
      cases hrow : w.farmers.lookup a with
      | some row =>
          rw [hrow] at h
          exact ⟨h.1, h.2.metadata, c.markersAfter_shape hdoc h.2.verificationMarkers⟩
      | none =>
          cases c with
          | registered address data =>
              exact absurd (hcreates rfl hc) (Finmap.lookup_eq_none.mp hrow)
          | metadataUpdated address data | markerSet address data => trivial

/-- **Readable rows stay readable**: in every state of a run, `get_farmer` returns
the row of an address that the indexer does not create. -/
theorem FarmerRun.get_ok (h : FarmerRun crypto F (CreatesNoRow crypto a) past w)
    (ha : a ∈ w.farmers) :
    ∃ farmer, run execFarmers (getFarmer crypto a) w = (.ok farmer, w) := by
  have hstate : RowReadable crypto a (w.farmers.lookup a) :=
    h.row_invariant (P := fun _ => RowReadable crypto a) a trivial
      fun _ _ _ _ hP heffect => hP.step heffect
  obtain ⟨row, hrow⟩ := Finmap.mem_iff.mp ha
  rw [hrow] at hstate
  obtain ⟨farmer, hfarmer⟩ := readFarmer_canBeRead hstate.2 a
  rw [run_getFarmer (parse_address hstate.1), hrow, hfarmer]
  exact ⟨farmer, rfl⟩

/-- **The indexer's own row cannot be read.** -/
theorem FarmerCall.get_created {G : FarmerWorld → IdentityChange → Prop} {c : IdentityChange}
    (h : FarmerCall crypto F G w (.applied c) w') (hc : crypto.isPublicKey c.address = true)
    (hreg : c.isRegistered = true) (hnew : c.address ∉ w.farmers) :
    c.address ∈ w'.farmers ∧
      run execFarmers (getFarmer crypto c.address) w' =
        (.error (.internal "metadata decode: missing field `name`"), w') := by
  have hrow : w'.farmers.lookup c.address = c.newRow := by
    cases h with
    | apply _ hbuild =>
        rw [IdentityChange.build_lookup hbuild, Finmap.lookup_eq_none.mpr hnew]
        exact if_pos rfl
  cases c with
  | metadataUpdated address data | markerSet address data => cases hreg
  | registered address data =>
      constructor
      · rw [Finmap.mem_iff, hrow]
        exact ⟨_, rfl⟩
      · rw [run_getFarmer (parse_address hc), hrow]
        rfl

end

/-- **Every stored farmer can be read, but those that the indexer created.** As
long as no documented registration comes while the address has no row, `get_farmer`
returns its row in every state; the step at which one comes leaves a row that
`get_farmer` does not return. -/
theorem get_ok_unless_indexer_creates (crypto : FarmerCrypto)
    (F : Failures farmerStmts FarmerWorld) (a : String) :
    (∀ past w, FarmerRun crypto F (CreatesNoRow crypto a) past w → a ∈ w.farmers →
      ∃ farmer, run execFarmers (getFarmer crypto a) w = (.ok farmer, w)) ∧
    ∀ past w c w', FarmerRun crypto F (fun _ c => c.Documented crypto) past w →
      FarmerCall crypto F (fun _ c => c.Documented crypto) w (.applied c) w' →
      ¬ CreatesNoRow crypto a w c →
      a ∈ w'.farmers ∧ run execFarmers (getFarmer crypto a) w' =
        (.error (.internal "metadata decode: missing field `name`"), w') := by
  constructor
  · intro past w hrun ha
    exact hrun.get_ok ha
  · intro past w c w' _ hcall hcreates
    have hdoc : c.Documented crypto := by
      cases hcall with
      | apply hG _ => exact hG
    have hnew : c.isRegistered = true ∧ c.address = a ∧ a ∉ w.farmers := by
      simpa [CreatesNoRow, hdoc] using hcreates
    obtain ⟨hreg, rfl, hnone⟩ := hnew
    exact hcall.get_created hdoc.1 hreg hnone

/-! One farmer, registered on the chain. -/

/-- The `FarmerRegistered` event of the farmer. -/
def sampleRegistration : IdentityChange :=
  .registered sampleAddress (.obj [
    ("address", .str sampleAddress), ("created_ledger", .int 100000),
    ("metadata_hash", .str "deadbeef"), ("updated_ledger", .int 100000),
    ("verification_markers", .arr [])])

/-- The world after the event came first. -/
def createdByIndexer : FarmerWorld where
  chain := ∅
  farmers := match sampleRegistration.build ∅ with
    | .ok farmers => farmers
    | .error _ => ∅

theorem sampleRegistration_documented : sampleRegistration.Documented sampleCrypto := by
  refine ⟨sampleAddress_isPublicKey, ⟨_, rfl, by decide⟩, ?_, ?_, ⟨_, rfl, [], rfl, ?_⟩, ?_, ?_⟩
  · exact Option.some_ne_none sampleAddress
  · exact Option.some_ne_none "deadbeef"
  · intro m hm
    cases hm
  · exact Option.some_ne_none (100000 : Int)
  · exact Option.some_ne_none (100000 : Int)

theorem indexer_creates {G : FarmerWorld → IdentityChange → Prop}
    (hG : G .empty sampleRegistration) :
    FarmerCall sampleCrypto (ownFailures execFarmers) G .empty (.applied sampleRegistration)
      createdByIndexer := by
  show FarmerCall sampleCrypto (ownFailures execFarmers) G .empty _
    { FarmerWorld.empty with farmers := createdByIndexer.farmers }
  exact .apply hG rfl

/-- Registered over REST first, and by the indexer first. -/
theorem get_ok_ada :
    (∃ farmer, run execFarmers (getFarmer sampleCrypto sampleAddress) registeredAda =
      (.ok farmer, registeredAda)) ∧
    run execFarmers (getFarmer sampleCrypto sampleAddress) createdByIndexer =
      (.error (.internal "metadata decode: missing field `name`"), createdByIndexer) := by
  have hread := get_ok_unless_indexer_creates sampleCrypto (ownFailures execFarmers) sampleAddress
  constructor
  · exact hread.1 _ _ (Trail.start.step ada_registers) (Finmap.mem_insert.mpr (.inl rfl))
  · refine (hread.2 _ _ _ _ .start (indexer_creates sampleRegistration_documented) ?_).2
    intro hcreates
    exact Finmap.notMem_empty (hcreates.2 rfl rfl)

/-- **The row that the indexer creates cannot be read.** -/
theorem indexer_row_not_read :
    ¬ ∀ past w, FarmerRun sampleCrypto (ownFailures execFarmers)
        (fun _ c => c.Documented sampleCrypto) past w →
      ∀ a ∈ w.farmers, ∃ farmer,
        run execFarmers (getFarmer sampleCrypto a) w = (.ok farmer, w) := by
  intro h
  have hcall := indexer_creates (G := fun _ c => c.Documented sampleCrypto)
    sampleRegistration_documented
  obtain ⟨hin, hget⟩ := hcall.get_created sampleAddress_isPublicKey rfl
    (Finmap.notMem_empty (a := sampleAddress))
  obtain ⟨farmer, hok⟩ := h _ _ (Trail.start.step hcall) _ hin
  rw [hget] at hok
  cases hok

end VerdantBackend
