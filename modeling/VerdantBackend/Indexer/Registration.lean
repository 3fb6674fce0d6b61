import VerdantBackend.Indexer.Identity

/-!
# What a registration keeps

`upsert_identity_farmer` takes what the event's data object carries and keeps the
other columns of the row, by `COALESCE` and a `CASE` on SQL `NULL`. A ledger that
is missing, `null` or no integer is bound as `NULL` and kept. Markers never are
`NULL`: a missing member is bound as `[]`, a `null` as the JSON value.
-/

namespace VerdantBackend

variable {uuid : String → Option String}

/-- A column takes the value that is carried, and else keeps its own. -/
structure TakenOrKept {α β : Type} (Carried : α → Prop) (column : α → β) (old new : β) :
    Prop where
  taken : ∀ a, Carried a → new = column a
  kept : (∀ a, ¬ Carried a) → new = old

/-- The data object carries an integer of 64 bits under the key. -/
def CarriesLedger (data : Json) (key : String) (n : Int) : Prop :=
  ∃ j, data.get key = some (.num j) ∧ j.val = n ∧ InI64 n

/-- The data object carries markers, of those JSON values that are markers. -/
def CarriesMarkers (IsMarkers : Json → Prop) (data markers : Json) : Prop :=
  data.get "verification_markers" = some markers ∧ IsMarkers markers

theorem Json.asI64_eq_some {v : Json} {n : Int} :
    v.asI64 = some n ↔ ∃ j, v = .num j ∧ j.val = n ∧ InI64 n := by
  constructor
  · intro h
    cases v with
    | num j =>
        rw [Json.asI64] at h
        split at h
        · next hlt =>
          cases h
          exact ⟨j, rfl, rfl, j.lower, hlt⟩
        · cases h
    | null | bool _ | float _ | str _ | arr _ | obj _ => cases h
  · intro h
    obtain ⟨j, rfl, rfl, hin⟩ := h
    rw [Json.asI64, if_pos hin.2]

theorem objI64_eq_some {data : Json} {key : String} {n : Int} :
    objI64 data key = some n ↔ CarriesLedger data key n := by
  rw [objI64, CarriesLedger]
  cases data.get key with
  | none => simp
  | some v => simpa using Json.asI64_eq_some

/-- `COALESCE(EXCLUDED.ledger, farmers.ledger)`. -/
theorem takenOrKept_ledger (data : Json) (key : String) (old : Option Int) :
    TakenOrKept (CarriesLedger data key) some old (objI64 data key <|> old) where
  taken := by
    intro n hn
    rw [objI64_eq_some.mpr hn]
    rfl
  kept := by
    intro hnone
    cases h : objI64 data key with
    | none => rfl
    | some n => exact absurd (objI64_eq_some.mp h) (hnone n)

/-- The three columns take or keep, and the rest of the row stays. -/
structure RegisteredKeeps (IsMarkers : Json → Prop) (data : Json) (row row' : FarmerRow) :
    Prop where
  created : TakenOrKept (CarriesLedger data "created_ledger") some
    row.createdLedger row'.createdLedger
  updated : TakenOrKept (CarriesLedger data "updated_ledger") some
    row.updatedLedger row'.updatedLedger
  markers : TakenOrKept (CarriesMarkers IsMarkers data) id
    row.verificationMarkers row'.verificationMarkers
  metadata : row'.metadata = row.metadata
  metadataHash : row'.metadataHash = row.metadataHash
  id : row'.id = row.id

/-- The markers that are bound: a missing member becomes `[]`. -/
def boundMarkers (data : Json) : Json := (data.get "verification_markers").getD (.arr [])

theorem takenOrKept_markers_iff (IsMarkers : Json → Prop) (data old : Json) :
    TakenOrKept (CarriesMarkers IsMarkers data) id old (boundMarkers data) ↔
      (∃ markers, CarriesMarkers IsMarkers data markers) ∨ boundMarkers data = old := by
  constructor
  · intro h
    by_cases hc : ∃ markers, CarriesMarkers IsMarkers data markers
    · exact .inl hc
    · exact .inr (h.kept (not_exists.mp hc))
  · intro h
    refine ⟨?_, ?_⟩
    · intro markers hm
      rw [boundMarkers, hm.1]
      rfl
    · intro hnone
      rcases h with ⟨markers, hm⟩ | heq
      · exact absurd hm (hnone markers)
      · exact heq

/-- The row after the event. -/
theorem applyEvent_registered {db : Db} {event : ChainEvent} {address : String}
    {row : FarmerRow}
    (he : decodeEvent event = .ok (some (.identity (.registered address event.data))))
    (hrow : db.farmers.lookup address = some row) :
    ∃ db', applyEvent uuid db event = .ok (true, db') ∧
      db'.farmers.lookup address =
        some ((IdentityChange.registered address event.data).onRow row) := by
  have hbuild : ∃ farmers, (IdentityChange.registered address event.data).build db.farmers =
      .ok farmers := by
    rw [IdentityChange.build, upsertIdentityFarmer, if_neg (by simp [hrow])]
    exact ⟨_, rfl⟩
  obtain ⟨farmers, hbuild⟩ := hbuild
  have happlied : applyEvent uuid db event = .ok (true, { db with farmers }) :=
    applyEvent_ok_iff.mpr (.inr ⟨_, he, rfl, Change.build_ok_iff.mpr ⟨farmers, hbuild, rfl⟩⟩)
  refine ⟨_, happlied, ?_⟩
  have hchange : identityChange event =
      some (IdentityChange.registered address event.data).toRow := by
    rw [identityChange, identityNamed_eq_some.mpr he, Option.map_some]
  rw [applyEvent_identity happlied, hrow]
  exact RowChange.step_of_names hchange rfl (some row)

/-- **A registration over a row** keeps what it does not carry exactly when it
carries markers, or the row's are those that are bound without any. Whatever
counts as markers. -/
theorem registered_keeps_iff {db : Db} {event : ChainEvent} {address : String}
    {row : FarmerRow} (IsMarkers : Json → Prop)
    (he : decodeEvent event = .ok (some (.identity (.registered address event.data))))
    (hrow : db.farmers.lookup address = some row) :
    (∃ db' row', applyEvent uuid db event = .ok (true, db') ∧
        db'.farmers.lookup address = some row' ∧
        RegisteredKeeps IsMarkers event.data row row') ↔
      (∃ markers, CarriesMarkers IsMarkers event.data markers) ∨
        boundMarkers event.data = row.verificationMarkers := by
  obtain ⟨db', happlied, hafter⟩ := @applyEvent_registered uuid _ _ _ _ he hrow
  rw [← takenOrKept_markers_iff]
  constructor
  · intro h
    obtain ⟨db₁, row', happlied₁, hrow', hkeeps⟩ := h
    rw [happlied] at happlied₁
    cases happlied₁
    rw [hafter] at hrow'
    cases hrow'
    exact hkeeps.markers
  · intro hmarkers
    exact ⟨db', _, happlied, hafter,
      { created := takenOrKept_ledger _ _ _
        updated := takenOrKept_ledger _ _ _
        markers := hmarkers
        metadata := rfl
        metadataHash := rfl
        id := rfl }⟩

/-- A row with one marker, at ledger 100000. -/
def markedRow : FarmerRow where
  id := farmerId "GA"
  metadata := .obj []
  metadataHash := "deadbeef"
  registered := true
  createdLedger := some 100000
  updatedLedger := some 100000
  verificationMarkers := .arr [.str "organic"]

def markedDb : Db :=
  { Db.empty with farmers := (∅ : Table String FarmerRow).upsert "GA" markedRow id }

def registeredWith (members : List (String × Json)) : ChainEvent :=
  ⟨"CI", "identity", "FarmerRegistered", 100050, 0, 0, .arr [.str "GA"], .obj members⟩

/-- The event brings markers of its own, and no ledgers. -/
theorem registered_keeps_with_markers :
    ∃ db' row', applyEvent noUuid markedDb
        (registeredWith [("verification_markers", .arr [.str "fair"])]) = .ok (true, db') ∧
      db'.farmers.lookup "GA" = some row' ∧
      RegisteredKeeps (fun v => v.asArray.isSome)
        (.obj [("verification_markers", .arr [.str "fair"])]) markedRow row' :=
  (@registered_keeps_iff noUuid markedDb _ _ markedRow _ rfl rfl).mpr
    (.inl ⟨.arr [.str "fair"], rfl, rfl⟩)

/-- The event brings a ledger and no markers: those of the row are gone, whatever
counts as markers. -/
theorem registered_erases_markers :
    decodeEvent (registeredWith [("updated_ledger", .int 100050)]) =
        .ok (some (.identity (.registered "GA" (.obj [("updated_ledger", .int 100050)])))) ∧
      markedDb.farmers.lookup "GA" = some markedRow ∧
      ∀ IsMarkers : Json → Prop, ¬ ∃ db' row',
        applyEvent noUuid markedDb (registeredWith [("updated_ledger", .int 100050)]) =
          .ok (true, db') ∧
        db'.farmers.lookup "GA" = some row' ∧
        RegisteredKeeps IsMarkers (.obj [("updated_ledger", .int 100050)]) markedRow row' := by
  refine ⟨rfl, rfl, ?_⟩
  intro IsMarkers h
  obtain ⟨db', row', happlied, hrow', hkeeps⟩ := h
  obtain ⟨db₁, happlied₁, hafter⟩ := @applyEvent_registered noUuid markedDb
    (registeredWith [("updated_ledger", .int 100050)]) "GA" markedRow rfl rfl
  rw [happlied] at happlied₁
  cases happlied₁
  rw [hafter] at hrow'
  cases hrow'
  have hkept := hkeeps.markers.kept fun markers h => by cases h.1
  cases hkept

end VerdantBackend
