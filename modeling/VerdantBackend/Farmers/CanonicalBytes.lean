import VerdantBackend.Farmers.Profile
import VerdantBackend.JsonText

/-!
# The canonical bytes

A profile is encoded twice: by hand for its hash, by the derived serializer for its
column. Both encodings are one object, and the bytes that are hashed are read back as
the profile: no two profiles have the same bytes.
-/

namespace VerdantBackend

namespace FarmerMetadata

/-- The names of the fields. -/
def fields : List String := ["name", "region", "district", "bio", "profileImageHash"]

/-- `serde_json::from_slice`: bytes of a text are read as this text. -/
def fromSlice (text : SerdeText) (skip : List Char → Option (List Char)) (bytes : ByteArray) :
    Option FarmerMetadata :=
  (String.fromUTF8? bytes).bind (fromStr fields skip (decode text))

/-- A field and its text. -/
def entry (key : String) (value : Option String) : List (String × String) :=
  (value.map fun s => (key, s)).toList

/-- The fields that have a value, the names in order. -/
def entries (m : FarmerMetadata) : List (String × String) :=
  entry "bio" m.bio ++ entry "district" m.district ++ ("name", m.name) ::
    (entry "profileImageHash" m.profileImageHash ++ entry "region" m.region)

end FarmerMetadata

theorem KeysSorted.insertSome {members : List (String × Json)} (h : KeysSorted members)
    (key : String) (value : Option String) :
    KeysSorted (FarmerMetadata.insertSome key value members) := by
  cases value with
  | none => exact h
  | some s => exact h.insertMember key _

section
variable (text : SerdeText) (m : FarmerMetadata)

/-- **One object**: in both encoders a field without value has no member. -/
theorem FarmerMetadata.toJson_eq : m.toJson = .obj (textMembers m.entries) := by
  rcases m with ⟨name, _ | region, _ | district, _ | bio, _ | image⟩ <;> rfl

theorem canonicalBytes_eq : canonicalBytes text m = m.toJson.compact text := rfl

theorem FarmerMetadata.keysSorted : KeysSorted (textMembers m.entries) := by
  have hsorted : ∃ members, m.toJson = .obj members ∧ KeysSorted members := by
    have hname : KeysSorted (insertMember "name" (.str m.name) []) :=
      List.pairwise_singleton _ _
    exact ⟨_, rfl, (((hname.insertSome _ _).insertSome _ _).insertSome _ _).insertSome _ _⟩
  obtain ⟨members, hobj, hmembers⟩ := hsorted
  rw [m.toJson_eq, Json.obj.injEq] at hobj
  rw [hobj]
  exact hmembers

theorem FarmerMetadata.keys_nodup : (m.entries.map Prod.fst).Nodup := by
  have hsorted := m.keysSorted
  rw [KeysSorted, textMembers, List.map_map] at hsorted
  exact hsorted.imp fun h => ne_of_lt h

theorem FarmerMetadata.entries_fields : ∀ e ∈ m.entries, e.1 ∈ fields := by
  have hentry : ∀ {key : String} {value : Option String}, key ∈ fields →
      ∀ e ∈ entry key value, e.1 ∈ fields := by
    intro key value hkey e he
    obtain ⟨s, _, rfl⟩ := Option.map_eq_some_iff.mp (Option.mem_toList.mp he)
    exact hkey
  intro e he
  rw [entries, List.mem_append, List.mem_append, List.mem_cons, List.mem_append] at he
  rcases he with (he | he) | rfl | he | he
  · exact hentry (by decide) e he
  · exact hentry (by decide) e he
  · exact List.mem_cons_self
  · exact hentry (by decide) e he
  · exact hentry (by decide) e he

theorem fromUTF8?_toUTF8 (s : String) : String.fromUTF8? s.toUTF8 = some s :=
  dif_pos s.isValidUTF8

/-- The bytes are read back as the profile. -/
theorem FarmerMetadata.fromSlice_canonicalBytes (skip : List Char → Option (List Char)) :
    fromSlice text skip (canonicalBytes text m).toUTF8 = some m := by
  rw [fromSlice, fromUTF8?_toUTF8, Option.bind_some, canonicalBytes_eq, m.toJson_eq,
    fromStr_compact skip text _ m.entries_fields m.keys_nodup, ← m.toJson_eq,
    FarmerMetadata.decode_toJson]
  rfl

end

/-- **Canonical bytes are faithful.** They are the compact text of the object that the
column stores, its keys in order; they are read as the profile they come from, whatever
is done with members that are no fields; different profiles have different bytes. -/
theorem canonical_bytes_faithful (text : SerdeText) (skip : List Char → Option (List Char))
    (m : FarmerMetadata) :
    (∃ members, m.toJson = .obj members ∧ KeysSorted members ∧
      canonicalBytes text m = (Json.obj members).compact text) ∧
    FarmerMetadata.fromSlice text skip (canonicalBytes text m).toUTF8 = some m ∧
    ∀ m', m ≠ m' → (canonicalBytes text m).toUTF8 ≠ (canonicalBytes text m').toUTF8 := by
  have hread := fun m => FarmerMetadata.fromSlice_canonicalBytes text m skip
  refine ⟨⟨_, m.toJson_eq, m.keysSorted, ?_⟩, hread m, ?_⟩
  · rw [canonicalBytes_eq, m.toJson_eq]
  · intro m' hne hbytes
    have hsame := hread m
    rw [hbytes, hread m', Option.some.injEq] at hsame
    exact hne hsame.symm

/-! A profile that needs escapes, its region given as the empty text. -/

def plainTexts : SerdeText := ⟨fun _ => "0.0", fun s => s⟩

def quotedProfile : FarmerMetadata where
  name := "Ada \"A\" \\ Farm"
  region := some ""
  district := none
  bio := some "\x01"
  profileImageHash := none

theorem quoted_profile_read_back :
    canonicalBytes plainTexts quotedProfile =
      "\x7b\"bio\":\"\\u0001\",\"name\":\"Ada \\\"A\\\" \\\\ Farm\",\"region\":\"\"\x7d" ∧
    FarmerMetadata.fromSlice plainTexts some
      (canonicalBytes plainTexts quotedProfile).toUTF8 = some quotedProfile ∧
    (canonicalBytes plainTexts quotedProfile).toUTF8 ≠
      (canonicalBytes plainTexts { quotedProfile with region := none }).toUTF8 := by
  obtain ⟨_, hread, hdiffer⟩ := canonical_bytes_faithful plainTexts some quotedProfile
  exact ⟨by decide, hread, hdiffer _ (by decide)⟩

end VerdantBackend
