import Mathlib.Data.Nat.Digits.Lemmas

/-!
# Decimal numerals

The number that a text of digits stands for, the text of a number with a least
width, and the reader that refuses a number its type does not hold. A number has
one numeral of each width.
-/

namespace Decimal

/-- Nothing but digits. -/
def Digits (l : List Char) : Prop := ∀ c ∈ l, c.isDigit = true

instance (l : List Char) : Decidable (Digits l) :=
  List.decidableBAll (fun c : Char => c.isDigit = true) l

/-- The number that digits stand for. -/
def value (l : List Char) : Nat := Nat.ofDigitChars 10 l 0

/-- `{n:0width}`: zeros before the digits, up to the width. -/
def padded (width n : Nat) : List Char :=
  List.replicate (width - (Nat.toDigits 10 n).length) '0' ++ Nat.toDigits 10 n

/-- A numeral of at least the width with no zero that could go. -/
structure Padded (width : Nat) (l : List Char) : Prop where
  digits : Digits l
  width_le : width ≤ l.length
  noZero : l.length = width ∨ l.head? ≠ some '0'

instance (width : Nat) (l : List Char) : Decidable (Padded width l) :=
  decidable_of_iff (Digits l ∧ width ≤ l.length ∧ (l.length = width ∨ l.head? ≠ some '0'))
    ⟨fun h => ⟨h.1, h.2.1, h.2.2⟩, fun h => ⟨h.digits, h.width_le, h.noZero⟩⟩

/-! ## Values -/

section
variable {l m : List Char} {c : Char}

theorem Digits.head (h : Digits (c :: l)) : c.isDigit = true := h c List.mem_cons_self

theorem Digits.tail (h : Digits (c :: l)) : Digits l :=
  fun d hd => h d (List.mem_cons_of_mem _ hd)

theorem digit_lt (h : c.isDigit = true) : c.toNat - '0'.toNat < 10 := by
  have hle : c.toNat ≤ 57 := by
    have hdigit := Char.isDigit_iff_toNat.mp h
    exact hdigit.2
  have hzero : '0'.toNat = 48 := rfl
  omega

theorem value_cons (c : Char) (l : List Char) :
    value (c :: l) = 10 ^ l.length * (c.toNat - '0'.toNat) + value l := by
  rw [value, Nat.ofDigitChars_cons, Nat.mul_zero, Nat.zero_add,
    Nat.ofDigitChars_eq_ofDigitChars_zero, value]

theorem value_lt (h : Digits l) : value l < 10 ^ l.length := by
  induction l with
  | nil => exact Nat.one_pos
  | cons c l ih =>
      have hc := digit_lt h.head
      have hl := ih h.tail
      have hmul : 10 ^ l.length * (c.toNat - '0'.toNat) ≤ 10 ^ l.length * 9 :=
        Nat.mul_le_mul_left _ (by omega)
      rw [value_cons, List.length_cons, Nat.pow_succ]
      omega

/-- A numeral that does not begin with zero. -/
theorem le_value (hc : c.isDigit = true) (hne : c ≠ '0') : 10 ^ l.length ≤ value (c :: l) := by
  have hpos : 1 ≤ c.toNat - '0'.toNat := by
    have hle := (Char.isDigit_iff_toNat.mp hc).1
    have hneq : c.toNat ≠ '0'.toNat := fun h => hne (Char.toNat_inj.mp h)
    have hzero : '0'.toNat = 48 := rfl
    omega
  have hmul := Nat.mul_le_mul_left (10 ^ l.length) hpos
  rw [value_cons]
  omega

/-- **One numeral of each width.** -/
theorem eq_of_value_eq (hl : Digits l) (hm : Digits m) (hlen : l.length = m.length)
    (h : value l = value m) : l = m := by
  induction l generalizing m with
  | nil => exact (List.length_eq_zero_iff.mp hlen.symm).symm
  | cons c l ih =>
      obtain ⟨d, m, rfl⟩ := List.exists_cons_of_length_eq_add_one hlen.symm
      have hlen' : l.length = m.length := by simpa using hlen
      rw [value_cons, value_cons, hlen'] at h
      have hltl := value_lt hl.tail
      have hltm := value_lt hm.tail
      rw [hlen'] at hltl
      -- quotient and remainder by the power in front
      have hhead : c.toNat - '0'.toNat = d.toNat - '0'.toNat := by
        have hdiv := congrArg (· / 10 ^ m.length) h
        simpa [Nat.mul_add_div, Nat.div_eq_of_lt hltl, Nat.div_eq_of_lt hltm] using hdiv
      have htail : value l = value m := by
        rw [hhead] at h
        exact Nat.add_left_cancel h
      have hc := (Char.isDigit_iff_toNat.mp hl.head).1
      have hd := (Char.isDigit_iff_toNat.mp hm.head).1
      have hzero : '0'.toNat = 48 := rfl
      have hcd : c = d := Char.toNat_inj.mp (by omega)
      rw [hcd, ih hl.tail hm.tail hlen' htail]

end

/-! ## Writing -/

section
variable (width n : Nat)

theorem digits_padded : Digits (padded width n) := by
  intro c hc
  rcases List.mem_append.mp hc with hc | hc
  · rw [List.eq_of_mem_replicate hc]
    rfl
  · exact Nat.isDigit_of_mem_toDigits (by decide) (by decide) hc

theorem value_padded : value (padded width n) = n := by
  rw [value, padded, Nat.ofDigitChars_append, Nat.ofDigitChars_replicate_zero, Nat.mul_zero,
    Nat.ofDigitChars_ten_toDigits]

theorem padded_injective : Function.Injective (padded width) := by
  intro m n h
  rw [← value_padded width m, h, value_padded]

theorem length_padded : (padded width n).length = max width (Nat.toDigits 10 n).length := by
  rw [padded, List.length_append, List.length_replicate]
  omega

theorem padded_ne_nil : padded width n ≠ [] := by
  simp [padded]

end

/-- A numeral that does not begin with zero has the digits of its number. -/
theorem length_toDigits_value {c : Char} {l : List Char} (h : Digits (c :: l)) (hne : c ≠ '0') :
    (Nat.toDigits 10 (value (c :: l))).length = l.length + 1 := by
  have hle := (Nat.length_toDigits_le_iff (by decide) (Nat.succ_pos _)).mpr (value_lt h)
  have hge := le_value (l := l) h.head hne
  have hmany : ¬ (Nat.toDigits 10 (value (c :: l))).length ≤ l.length := by
    intro hfew
    rcases Nat.eq_zero_or_pos l.length with hzero | hpos
    · rw [hzero] at hfew
      exact Nat.not_lt.mpr hfew Nat.length_toDigits_pos
    · exact Nat.not_lt.mpr hge ((Nat.length_toDigits_le_iff (by decide) hpos).mp hfew)
  omega

/-- A numeral that begins with zero has more digits than its number. -/
theorem length_toDigits_zero_cons {l : List Char} (h : Digits l) (hpos : 0 < l.length) :
    (Nat.toDigits 10 (value ('0' :: l))).length ≤ l.length := by
  rw [Nat.length_toDigits_le_iff (by decide) hpos, value_cons, Nat.sub_self, Nat.mul_zero,
    Nat.zero_add]
  exact value_lt h

/-- **The numerals that are written**: whether digits are the numeral their number is
written as shows in their length and the first of them. -/
theorem eq_padded_iff {width : Nat} {l : List Char} (hwidth : 0 < width) (h : Digits l) :
    l = padded width (value l) ↔ width ≤ l.length ∧ (l.length = width ∨ l.head? ≠ some '0') := by
  have hlen := length_padded width (value l)
  have hfit : (Nat.toDigits 10 (value l)).length ≤ width ↔ value l < 10 ^ width :=
    Nat.length_toDigits_le_iff (by decide) hwidth
  cases l with
  | nil =>
      rw [List.length_nil]
      refine iff_of_false (fun heq => padded_ne_nil width _ heq.symm) ?_
      omega
  | cons c l =>
      rw [List.head?_cons, List.length_cons, Ne, Option.some.injEq]
      constructor
      · intro heq
        rw [← heq, List.length_cons] at hlen
        refine ⟨by omega, or_iff_not_imp_left.mpr fun hw => ?_⟩
        rintro rfl
        have hfew := length_toDigits_zero_cons h.tail (by omega)
        omega
      · intro hpad
        obtain ⟨hle, hw | hne⟩ := hpad
        · have hlt := value_lt h
          rw [List.length_cons, hw] at hlt
          refine eq_of_value_eq h (digits_padded _ _) ?_ (value_padded _ _).symm
          rw [hlen, List.length_cons, hw, max_eq_left (hfit.mpr hlt)]
        · refine eq_of_value_eq h (digits_padded _ _) ?_ (value_padded _ _).symm
          rw [hlen, length_toDigits_value h hne, List.length_cons, max_eq_right hle]

theorem padded_iff {width : Nat} {l : List Char} (hwidth : 0 < width) (h : Digits l) :
    Padded width l ↔ l = padded width (value l) := by
  rw [eq_padded_iff hwidth h]
  exact ⟨fun hp => ⟨hp.width_le, hp.noZero⟩, fun hp => ⟨h, hp.1, hp.2⟩⟩

/-! ## Reading -/

/-- The digit loop of a checked parser: a product or sum that does not fit, or another
character, is an error. -/
def read (bound : Nat) : List Char → Nat → Option Nat
  | [], acc => some acc
  | c :: l, acc =>
    let next := 10 * acc + (c.toNat - '0'.toNat)
    if c.isDigit ∧ next < bound then read bound l next else none

theorem le_ofDigitChars (l : List Char) (acc : Nat) : acc ≤ Nat.ofDigitChars 10 l acc := by
  have hpow : 1 ≤ 10 ^ l.length := Nat.one_le_pow _ _ (by decide)
  have hmul := Nat.mul_le_mul_right acc hpow
  rw [Nat.ofDigitChars_eq_ofDigitChars_zero]
  omega

theorem read_eq_some_iff {bound acc n : Nat} {l : List Char} (hacc : acc < bound) :
    read bound l acc = some n ↔ Digits l ∧ n = Nat.ofDigitChars 10 l acc ∧ n < bound := by
  induction l generalizing acc with
  | nil =>
      rw [read, Nat.ofDigitChars_nil, Option.some.injEq]
      constructor
      · intro h
        exact ⟨fun _ hc => absurd hc List.not_mem_nil, h.symm, h ▸ hacc⟩
      · intro h
        exact h.2.1.symm
  | cons c l ih =>
      rw [read, Nat.ofDigitChars_cons]
      by_cases hc : c.isDigit = true ∧ 10 * acc + (c.toNat - '0'.toNat) < bound
      · rw [if_pos hc, ih hc.2, Digits, Digits, List.forall_mem_cons, and_iff_right hc.1]
      · rw [if_neg hc]
        constructor
        · intro h
          cases h
        · intro h
          obtain ⟨hdigits, rfl, hlt⟩ := h
          exact absurd ⟨hdigits.head, (le_ofDigitChars l _).trans_lt hlt⟩ hc

end Decimal
