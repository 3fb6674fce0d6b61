import Mathlib.Data.String.Basic
import VerdantBackend.Json

/-!
# serde

The decoders that `serde` derives, over `serde_json::Value`, with the texts of
their errors, and the compact writer. Rust's rendering of a float and its debug
form of a string, which occur in error texts, are the parameter `text`.
-/

namespace VerdantBackend

structure SerdeText where
  float : UInt64 → String
  debug : String → String

/-- What an error text calls a value. -/
def Json.unexpected (text : SerdeText) : Json → String
  | .null => "null"
  | .bool b => s!"boolean `{b}`"
  | .num n => s!"integer `{n.val}`"
  | .float bits => s!"floating point `{text.float bits}`"
  | .str s => s!"string {text.debug s}"
  | .arr _ => "sequence"
  | .obj _ => "map"

abbrev Decoder (α : Type) : Type := Json → Except String α

namespace Decoder

variable {α : Type} (text : SerdeText)

def invalidType (j : Json) (expected : String) : Except String α :=
  .error s!"invalid type: {j.unexpected text}, expected {expected}"

/-- `String`. -/
def string : Decoder String
  | .str s => .ok s
  | j => invalidType text j "a string"

/-- `i64`: a larger number has the right type and the wrong value. -/
def i64 : Decoder Int
  | .num n =>
    if n.val < 2 ^ 63 then .ok n.val
    else .error s!"invalid value: integer `{n.val}`, expected i64"
  | j => invalidType text j "i64"

/-- `Option<T>`. -/
def option (decode : Decoder α) : Decoder (Option α)
  | .null => .ok none
  | j => (decode j).map some

/-- `Vec<T>`. -/
def vec (decode : Decoder α) : Decoder (List α)
  | .arr items => items.mapM decode
  | j => invalidType text j "a sequence"

/-! ## Structs

A struct is read from an object, by member name, or from an array, by position.
The members of an object are decoded in their order, so an ill-typed member is
reported before a missing one. -/

/-- The ill-typed member reported first. -/
def visitMembers (fields : List (String × Decoder Unit)) (members : List (String × Json)) :
    Except String Unit :=
  members.forM fun (key, value) =>
    match fields.lookup key with
    | some decode => decode value
    | none => .ok ()

def required (members : List (String × Json)) (key : String) (decode : Decoder α) :
    Except String α :=
  match members.lookup key with
  | some value => decode value
  | none => .error s!"missing field `{key}`"

/-- `#[serde(default)]`. -/
def defaulted [Inhabited α] (members : List (String × Json)) (key : String)
    (decode : Decoder α) : Except String α :=
  match members.lookup key with
  | some value => decode value
  | none => .ok default

/-- The element at a position, of a struct read from an array. -/
def requiredAt (items : List Json) (i : Nat) (expected : String) (decode : Decoder α) :
    Except String α :=
  match items[i]? with
  | some value => decode value
  | none => .error s!"invalid length {i}, expected {expected}"

def defaultedAt [Inhabited α] (items : List Json) (i : Nat) (decode : Decoder α) :
    Except String α :=
  match items[i]? with
  | some value => decode value
  | none => .ok default

def noMore (items : List Json) (fields : Nat) : Except String Unit :=
  if items.length ≤ fields then .ok ()
  else .error s!"invalid length {items.length}, expected fewer elements in array"

/-- Only whether a value decodes. -/
def check (decode : Decoder α) : Decoder Unit := fun j => (decode j).map fun _ => ()

end Decoder

/-! ## Writing -/

/-- `BTreeMap::insert` of a member, the keys in order. -/
def insertMember (key : String) (value : Json) : List (String × Json) → List (String × Json)
  | [] => [(key, value)]
  | (k, v) :: members =>
    if key < k then (key, value) :: (k, v) :: members
    else if key = k then (key, value) :: members
    else (k, v) :: insertMember key value members

/-- The keys of an object, in order and each once. -/
def KeysSorted (obj : List (String × Json)) : Prop := (obj.map Prod.fst).Pairwise (· < ·)

theorem mem_insertMember {key : String} {value : Json} {obj : List (String × Json)}
    {m : String × Json} (h : m ∈ insertMember key value obj) : m = (key, value) ∨ m ∈ obj := by
  induction obj with
  | nil => exact .inl (List.mem_singleton.mp h)
  | cons x obj ih =>
      obtain ⟨k, v⟩ := x
      rw [insertMember] at h
      split at h
      · exact List.mem_cons.mp h
      · split at h
        · rcases List.mem_cons.mp h with h | h
          · exact .inl h
          · exact .inr (List.mem_cons_of_mem _ h)
        · rcases List.mem_cons.mp h with h | h
          · exact .inr (h ▸ List.mem_cons_self)
          · exact (ih h).imp_right (List.mem_cons_of_mem _)

theorem KeysSorted.insertMember {obj : List (String × Json)} (h : KeysSorted obj) (key : String)
    (value : Json) : KeysSorted (insertMember key value obj) := by
  induction obj with
  | nil => exact List.pairwise_singleton _ _
  | cons x obj ih =>
      obtain ⟨k, v⟩ := x
      obtain ⟨hlt, hsorted⟩ := List.pairwise_cons.mp h
      rw [VerdantBackend.insertMember]
      split
      · next hkey =>
        refine List.pairwise_cons.mpr ⟨?_, h⟩
        intro k' hk'
        rcases List.mem_cons.mp hk' with rfl | hk'
        · exact hkey
        · exact lt_trans hkey (hlt k' hk')
      · next hge =>
        split
        · next heq =>
          subst heq
          exact h
        · next hne =>
          refine List.pairwise_cons.mpr ⟨?_, ih hsorted⟩
          intro k' hk'
          obtain ⟨m, hm, rfl⟩ := List.mem_map.mp hk'
          rcases mem_insertMember hm with rfl | hm
          · exact lt_of_le_of_ne (not_lt.mp hge) (Ne.symm hne)
          · exact hlt m.1 (List.mem_map_of_mem hm)

/-- A key that is not there yet. -/
theorem insertMember_perm {key : String} {value : Json} {obj : List (String × Json)}
    (h : key ∉ obj.map Prod.fst) : (insertMember key value obj).Perm ((key, value) :: obj) := by
  induction obj with
  | nil => exact .refl _
  | cons x obj ih =>
      obtain ⟨k, v⟩ := x
      rw [List.map_cons, List.mem_cons, not_or] at h
      rw [insertMember, if_neg h.1]
      split
      · exact .refl _
      · exact ((ih h.2).cons _).trans (.swap _ _ _)

/-- A hexadecimal digit. -/
def hexDigit (n : Nat) : Char := Nat.digitChar n

/-- A character of a JSON string. -/
def escapeChar (c : Char) : List Char :=
  if c = '"' then ['\\', '"']
  else if c = '\\' then ['\\', '\\']
  else if c.toNat = 8 then ['\\', 'b']
  else if c.toNat = 9 then ['\\', 't']
  else if c.toNat = 10 then ['\\', 'n']
  else if c.toNat = 12 then ['\\', 'f']
  else if c.toNat = 13 then ['\\', 'r']
  else if c.toNat < 32 then
    ['\\', 'u', '0', '0', hexDigit (c.toNat / 16), hexDigit (c.toNat % 16)]
  else [c]

def compactString (s : String) : String :=
  String.ofList ('"' :: s.toList.flatMap escapeChar ++ ['"'])

mutual
/-- `serde_json::to_string`. -/
def Json.compact (text : SerdeText) : Json → String
  | .null => "null"
  | .bool b => toString b
  | .num n => toString n.val
  | .float bits => text.float bits
  | .str s => compactString s
  | .arr items => "[" ++ compactItems text true items ++ "]"
  | .obj members => "\x7b" ++ compactMembers text true members ++ "\x7d"

def compactItems (text : SerdeText) (first : Bool) : List Json → String
  | [] => ""
  | item :: items =>
    (if first then "" else ",") ++ item.compact text ++ compactItems text false items

def compactMembers (text : SerdeText) (first : Bool) : List (String × Json) → String
  | [] => ""
  | (key, value) :: members =>
    (if first then "" else ",") ++ compactString key ++ ":" ++ value.compact text ++
      compactMembers text false members
end

end VerdantBackend
