import Mathlib.Algebra.Group.Int.Defs
import Mathlib.Algebra.Group.Nat.Defs
import Mathlib.Data.Int.Notation
import Mathlib.Tactic.TypeStar

/-!
# JSON values and the SQL scalar rules

`serde_json::Value` as the decoders read it, and the rules by which PostgreSQL
accepts a value into a `BIGINT`, `TEXT` or `JSONB` column.
-/

namespace VerdantBackend

/-- The range of an `i64`, equally of a `BIGINT` column. -/
def InI64 (n : Int) : Prop := -2 ^ 63 ≤ n ∧ n < 2 ^ 63

instance (n : Int) : Decidable (InI64 n) := by
  unfold InI64
  infer_instance

/-- The Rust cast `v as i32`: wrap into 32 bits. -/
def asI32 (v : Int) : Int := Int.bmod v (2 ^ 32)

/-- An integer `serde_json::Number`: a `u64`, or a negative `i64`. -/
structure JsonInt where
  val : Int
  lower : -2 ^ 63 ≤ val
  upper : val < 2 ^ 64

/-- `serde_json::Value`. An object lists its members under distinct keys in
key order; a number that is no integer keeps its 64 bits. -/
inductive Json where
  | null
  | bool (b : Bool)
  | num (n : JsonInt)
  | float (bits : UInt64)
  | str (s : String)
  | arr (items : List Json)
  | obj (members : List (String × Json))

namespace Json

/-- An integer literal. -/
def int (n : Int) (h : decide (-2 ^ 63 ≤ n ∧ n < 2 ^ 64) = true := by exact (rfl : true = true)) :
    Json :=
  .num ⟨n, (of_decide_eq_true h).1, (of_decide_eq_true h).2⟩

def asArray : Json → Option (List Json)
  | .arr items => some items
  | _ => none

def asStr : Json → Option String
  | .str s => some s
  | _ => none

def asBool : Json → Option Bool
  | .bool b => some b
  | _ => none

/-- `as_u64`. -/
def asU64 : Json → Option Nat
  | .num n => if 0 ≤ n.val then some n.val.toNat else none
  | _ => none

/-- `as_i64`. -/
def asI64 : Json → Option Int
  | .num n => if n.val < 2 ^ 63 then some n.val else none
  | _ => none

/-- `Value::get` with a string key: a member of an object. -/
def get (data : Json) (key : String) : Option Json :=
  match data with
  | .obj members => members.lookup key
  | _ => none

/-- `jsonb || jsonb`: arrays are joined, objects merged with the right side
winning, anything else is first made a one-element array. -/
def concat : Json → Json → Json
  | .arr xs, .arr ys => .arr (xs ++ ys)
  | .arr xs, y => .arr (xs ++ [y])
  | x, .arr ys => .arr (x :: ys)
  | .obj xs, .obj ys => .obj (xs.filter (fun x => (ys.lookup x.1).isNone) ++ ys)
  | x, y => .arr [x, y]

end Json

/-! ## What the store refuses -/

/-- Neither `TEXT` nor `JSONB` stores the character U+0000. -/
def hasNul (s : String) : Bool := s.toList.any fun c => c == Char.ofNat 0

theorem hasNul_append (s t : String) : hasNul (s ++ t) = (hasNul s || hasNul t) := by
  rw [hasNul, String.toList_append, List.any_append]
  rfl

theorem hasNul_eq_false_iff {s : String} : hasNul s = false ↔ Char.ofNat 0 ∉ s.toList := by
  rw [hasNul, List.any_beq', List.contains_eq_mem, decide_eq_false_iff_not]

mutual
/-- `JSONB` refuses the value: some string or member name holds U+0000. -/
def Json.hasNul : Json → Bool
  | .str s => VerdantBackend.hasNul s
  | .arr items => itemsHaveNul items
  | .obj members => membersHaveNul members
  | _ => false

def itemsHaveNul : List Json → Bool
  | [] => false
  | item :: items => item.hasNul || itemsHaveNul items

def membersHaveNul : List (String × Json) → Bool
  | [] => false
  | (key, value) :: members =>
      VerdantBackend.hasNul key || value.hasNul || membersHaveNul members
end

end VerdantBackend
