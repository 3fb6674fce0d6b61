import VerdantBackend.Indexer.Acceptance

/-!
# Identity events on farmer rows

What an identity event does to the row of its address: a registration creates
the row or sets its chain columns, a metadata update sets the ledger, a marker is
appended. Profile and hash of a row are never touched.
-/

namespace VerdantBackend

def IdentityChange.address : IdentityChange → String
  | .registered address _ | .metadataUpdated address _ | .markerSet address _ => address

def IdentityChange.isRegistered : IdentityChange → Bool
  | .registered .. => true
  | _ => false

/-- The `created_ledger` the event brings. -/
def IdentityChange.created : IdentityChange → Option Int
  | .registered _ data => objI64 data "created_ledger"
  | _ => none

/-- The `updated_ledger` the event brings. -/
def IdentityChange.updated : IdentityChange → Option Int
  | .registered _ data | .metadataUpdated _ data => objI64 data "updated_ledger"
  | .markerSet .. => none

def IdentityChange.markersAfter (c : IdentityChange) (markers : Json) : Json :=
  match c with
  | .registered _ data => (data.get "verification_markers").getD (.arr [])
  | .metadataUpdated .. => markers
  | .markerSet _ data => markers.concat data

/-- The event over a row that is there. -/
def IdentityChange.onRow (c : IdentityChange) (row : FarmerRow) : FarmerRow :=
  { row with
    registered := c.isRegistered || row.registered
    createdLedger := c.created <|> row.createdLedger
    updatedLedger := c.updated <|> row.updatedLedger
    verificationMarkers := c.markersAfter row.verificationMarkers }

/-- The row the event creates. -/
def IdentityChange.newRow (c : IdentityChange) : Option FarmerRow :=
  match c with
  | .registered address _ =>
    some {
      id := farmerId address
      metadata := .obj []
      metadataHash := ""
      registered := true
      createdLedger := c.created
      updatedLedger := c.updated
      verificationMarkers := c.markersAfter (.arr []) }
  | _ => none

def IdentityChange.after (c : IdentityChange) : Option FarmerRow → Option FarmerRow
  | none => c.newRow
  | some row => some (c.onRow row)

def IdentityChange.toRow (c : IdentityChange) : RowChange String FarmerRow where
  key := c.address
  Fits := fun _ => True
  after := c.after

/-- An `UPDATE` of the row of the address, of the columns the event sets. -/
theorem IdentityChange.update_lookup {c : IdentityChange}
    {farmers farmers' : Table String FarmerRow} {set : FarmerRow → Except SqlxError FarmerRow}
    (h : farmers.update c.address set = .ok farmers')
    (hset : ∀ row row', set row = .ok row' → row' = c.onRow row) (hnew : c.newRow = none)
    (address : String) :
    farmers'.lookup address = c.toRow.on address (farmers.lookup address) := by
  rw [RowChange.on, Table.lookup_update_of_total h hset address]
  show ite (c.address = address) _ _ = ite (c.address = address) _ _
  cases farmers.lookup address with
  | none =>
      show ite _ none none = ite _ c.newRow none
      rw [hnew]
  | some row => rfl

theorem IdentityChange.build_lookup {c : IdentityChange} {farmers farmers' : Table String FarmerRow}
    (h : c.build farmers = .ok farmers') (address : String) :
    farmers'.lookup address = c.toRow.on address (farmers.lookup address) := by
  cases c with
  | registered a data =>
      rw [IdentityChange.build, upsertIdentityFarmer] at h
      split at h
      · cases h
      cases h
      rw [RowChange.on, Table.lookup_upsert]
      show ite (a = address) _ _ = ite (a = address) _ _
      by_cases ha : a = address
      · rw [if_pos ha, if_pos ha]
        cases farmers.lookup address <;> rfl
      · rw [if_neg ha, if_neg ha]
  | metadataUpdated a data =>
      refine IdentityChange.update_lookup (c := .metadataUpdated a data) h ?_ rfl address
      intro row row' hset
      cases hset
      rfl
  | markerSet a data =>
      refine IdentityChange.update_lookup (c := .markerSet a data) h ?_ rfl address
      intro row row' hset
      cases hset
      rfl

/-! ## The projection -/

/-- The identity event of an event. -/
def identityNamed (e : ChainEvent) : Option IdentityChange :=
  match decodeEvent e with
  | .ok (some (.identity c)) => some c
  | _ => none

theorem identityNamed_eq_some {e : ChainEvent} {c : IdentityChange} :
    identityNamed e = some c ↔ decodeEvent e = .ok (some (.identity c)) := by
  rw [identityNamed]
  split
  · next h => simp [h]
  · next h =>
    constructor
    · intro hc
      cases hc
    · intro hd
      exact absurd hd (h c)

def identityChange (e : ChainEvent) : Option (RowChange String FarmerRow) :=
  (identityNamed e).map IdentityChange.toRow

variable {uuid : String → Option String}

theorem applyEvent_identity {db db' : Db} {e : ChainEvent} {consumed : Bool}
    (h : applyEvent uuid db e = .ok (consumed, db')) (address : String) :
    db'.farmers.lookup address =
      RowChange.step identityChange address (db.farmers.lookup address) e := by
  rw [RowChange.step, identityChange, identityNamed]
  rcases applyEvent_ok_iff.mp h with ⟨hd, _, rfl⟩ | ⟨c, hd, _, hb⟩
  · rw [hd]
    rfl
  · rw [hd]
    cases c with
    | identity c =>
        obtain ⟨t, ht, rfl⟩ := Change.build_ok_iff.mp hb
        exact IdentityChange.build_lookup ht address
    | verification c | escrow c | financing c =>
        obtain ⟨t, _, rfl⟩ := Change.build_ok_iff.mp hb
        rfl

variable (uuid) in
def identities : Projection uuid FarmerRow where
  table := Db.farmers
  change := identityChange
  applied := applyEvent_identity
  raw _ _ _ := rfl
  empty _ := rfl

/-! ## The identity events of one address -/

/-- The identity events of the address, in order. -/
def identityOf (address : String) (l : List ChainEvent) : List IdentityChange :=
  (l.filterMap identityNamed).filter fun c => c.address = address

theorem identityOf_cons_of_eq {address : String} {e : ChainEvent} {c : IdentityChange}
    (he : identityNamed e = some c) (hc : c.address = address) (l : List ChainEvent) :
    identityOf address (e :: l) = c :: identityOf address l := by
  simp [identityOf, he, hc]

theorem identityOf_cons_of_ne {address : String} {e : ChainEvent}
    (h : ∀ c, identityNamed e = some c → c.address ≠ address) (l : List ChainEvent) :
    identityOf address (e :: l) = identityOf address l := by
  rw [identityOf, List.filterMap_cons]
  cases he : identityNamed e with
  | none => rfl
  | some c => simp [identityOf, h c he]

/-- A row over a history is moved by the identity events of its address. -/
theorem replay_identity (address : String) (l : List ChainEvent) (row : Option FarmerRow) :
    RowChange.replay identityChange address l row =
      (identityOf address l).foldl (fun row c => c.after row) row := by
  induction l generalizing row with
  | nil => rfl
  | cons e l ih =>
      rw [RowChange.replay_cons, ih]
      by_cases h : ∃ c, identityNamed e = some c ∧ c.address = address
      · obtain ⟨c, he, hc⟩ := h
        have hchange : identityChange e = some c.toRow := by
          rw [identityChange, he, Option.map_some]
        rw [identityOf_cons_of_eq he hc, List.foldl_cons, RowChange.step_of_names hchange hc]
        rfl
      · rw [not_exists] at h
        have hne : ∀ c, identityNamed e = some c → c.address ≠ address :=
          fun c he hc => h c ⟨he, hc⟩
        rw [identityOf_cons_of_ne hne, RowChange.step_of_not_names]
        intro h
        obtain ⟨d, hd, hk⟩ := h
        obtain ⟨c, he, rfl⟩ := Option.map_eq_some_iff.mp hd
        exact hne c he hk

end VerdantBackend
