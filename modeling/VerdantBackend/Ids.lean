import VerdantBackend.Lib.Decimal

/-!
# Ids

Rendered identifiers (`src/ids.rs`, `src/farmers/model.rs`) and their parser.
Contract-issued counters are `u64` and rendered as a decimal zero-padded to twelve
digits.
-/

namespace VerdantBackend

/-- `{counter:012}`: at least twelve digits, more when the counter has more. -/
def padded12 (counter : Nat) : List Char :=
  let digits := Nat.toDigits 10 counter
  List.replicate (12 - digits.length) '0' ++ digits

/-- `counter_id`. -/
def counterId (kind : String) (counter : Nat) : String :=
  kind ++ ":" ++ String.ofList (padded12 counter)

theorem padded12_injective : Function.Injective padded12 := Decimal.padded_injective 12

/-- Different counters have different ids. -/
theorem counterId_injective (kind : String) : Function.Injective (counterId kind) := by
  intro m n h
  exact padded12_injective (String.ofList_injective ((String.append_right_inj _).mp h))

/-! ## Parsing -/

/-- `strip_prefix`. -/
def stripPrefix (pre value : String) : Option String :=
  if pre.toList <+: value.toList then some (String.ofList (value.toList.drop pre.toList.length))
  else none

/-- `parse::<u64>`: digits, after at most one `+`. -/
def parseU64 (s : String) : Option Nat :=
  let digits :=
    match s.toList with
    | '+' :: digits => digits
    | digits => digits
  if digits.isEmpty then none else Decimal.read (2 ^ 64) digits 0

/-- `parse_counter_id`. -/
def parseCounterId (input kind : String) : Option Nat :=
  (stripPrefix (kind ++ ":") input).bind parseU64

theorem stripPrefix_eq_some_iff {pre value rest : String} :
    stripPrefix pre value = some rest ↔ value = pre ++ rest := by
  rw [stripPrefix, ← String.toList_inj, String.toList_append]
  constructor
  · intro h
    split at h
    · next hpre =>
      cases h
      obtain ⟨tail, htail⟩ := hpre
      rw [← htail, List.drop_left, String.toList_ofList]
    · cases h
  · intro h
    rw [h, if_pos (List.prefix_append _ _), List.drop_left, String.ofList_toList]

/-- **What `u64` parses**: digits that do not overflow, with or without a sign. -/
theorem parseU64_eq_some_iff {s : String} {n : Nat} :
    parseU64 s = some n ↔ ∃ digits, (s.toList = digits ∨ s.toList = '+' :: digits) ∧
      digits ≠ [] ∧ Decimal.Digits digits ∧ n = Decimal.value digits ∧ n < 2 ^ 64 := by
  have hread : ∀ digits : List Char,
      (if digits.isEmpty then none else Decimal.read (2 ^ 64) digits 0) = some n ↔
        digits ≠ [] ∧ Decimal.Digits digits ∧ n = Decimal.value digits ∧ n < 2 ^ 64 := by
    intro digits
    cases digits with
    | nil => simp
    | cons c l => simp [Decimal.read_eq_some_iff, Decimal.value]
  rw [parseU64]
  split
  · next digits hs =>
    rw [hread]
    constructor
    · intro h
      exact ⟨digits, .inr hs, h⟩
    · intro h
      obtain ⟨digits', hs' | hs', h⟩ := h
      · rw [hs] at hs'
        subst hs'
        exact absurd h.2.1.head (by decide)
      · rw [hs] at hs'
        cases hs'
        exact h
  · next hsign =>
    rw [hread]
    constructor
    · intro h
      exact ⟨_, .inl rfl, h⟩
    · intro h
      obtain ⟨digits, hs | hs, h⟩ := h
      · rwa [hs]
      · exact absurd hs (hsign digits)

/-- The numeral of a `u64` is parsed to it. -/
theorem parseU64_padded12 {counter : Nat} (h : counter < 2 ^ 64) :
    parseU64 (String.ofList (padded12 counter)) = some counter := by
  rw [parseU64_eq_some_iff]
  exact ⟨padded12 counter, .inl String.toList_ofList, Decimal.padded_ne_nil 12 counter,
    Decimal.digits_padded 12 counter, (Decimal.value_padded 12 counter).symm, h⟩

theorem parseCounterId_counterId (kind : String) {counter : Nat} (h : counter < 2 ^ 64) :
    parseCounterId (counterId kind counter) kind = some counter := by
  rw [parseCounterId, counterId, stripPrefix_eq_some_iff.mpr rfl]
  exact parseU64_padded12 h

/-! ## Farmers -/

def FARMER_ID_PREFIX : String := "va:farmer:"

/-- `farmer_id`. -/
def farmerId (address : String) : String := FARMER_ID_PREFIX ++ address

end VerdantBackend
