import VerdantBackend.Serde

/-!
# Reading JSON text

`serde_json::from_str` into a derived struct all of whose fields are texts. What it
does with the value of a member that is no field is the parameter `skip`: the text
after that value.
-/

namespace VerdantBackend

/-- White space between tokens. -/
def skipBlanks (l : List Char) : List Char :=
  l.dropWhile fun c => c = ' ' ∨ c = '\n' ∨ c = '\t' ∨ c = '\r'

/-- The token that comes next. -/
def expect (c : Char) (l : List Char) : Option (List Char) :=
  match skipBlanks l with
  | d :: l => if d = c then some l else none
  | [] => none

/-! ## Strings -/

/-- A hexadecimal digit of either case. -/
def hexValue (c : Char) : Option Nat :=
  if '0' ≤ c ∧ c ≤ '9' then some (c.toNat - '0'.toNat)
  else if 'a' ≤ c ∧ c ≤ 'f' then some (10 + (c.toNat - 'a'.toNat))
  else if 'A' ≤ c ∧ c ≤ 'F' then some (10 + (c.toNat - 'A'.toNat))
  else none

/-- `decode_hex_escape`. -/
def readHex : List Char → Option (Nat × List Char)
  | a :: b :: c :: d :: l => do
    let a ← hexValue a
    let b ← hexValue b
    let c ← hexValue c
    let d ← hexValue d
    return (((a * 16 + b) * 16 + c) * 16 + d, l)
  | _ => none

/-- `parse_unicode_escape`, after the letter: a leading surrogate needs the trailing
one in an escape of its own, and a trailing one never stands first. -/
def readUnicode (l : List Char) : Option (Char × List Char) := do
  let (n, l) ← readHex l
  -- a trailing surrogate that none leads
  if 0xDC00 ≤ n ∧ n ≤ 0xDFFF then none
  else if n < 0xD800 ∨ 0xDBFF < n then some (Char.ofNat n, l)
  else
    match l with
    | '\\' :: 'u' :: l => do
      let (m, l) ← readHex l
      if m < 0xDC00 ∨ 0xDFFF < m then none
      else some (Char.ofNat ((n - 0xD800) * 0x400 + (m - 0xDC00) + 0x10000), l)
    | _ => none

/-- `parse_escape`, after the backslash. -/
def readEscape : List Char → Option (Char × List Char)
  | '"' :: l => some ('"', l)
  | '\\' :: l => some ('\\', l)
  | '/' :: l => some ('/', l)
  | 'b' :: l => some (Char.ofNat 8, l)
  | 'f' :: l => some (Char.ofNat 12, l)
  | 'n' :: l => some ('\n', l)
  | 'r' :: l => some ('\r', l)
  | 't' :: l => some ('\t', l)
  | 'u' :: l => readUnicode l
  | _ => none

/-- The characters of a string up to its closing quote. -/
def readChars : Nat → List Char → Option (List Char × List Char)
  | 0, _ => none
  | _, [] => none
  | fuel + 1, c :: l =>
    if c = '"' then some ([], l)
    else if c = '\\' then do
      let (c, l) ← readEscape l
      let (s, l) ← readChars fuel l
      return (c :: s, l)
    -- a control character has to be escaped
    else if c.toNat < 32 then none
    else do
      let (s, l) ← readChars fuel l
      return (c :: s, l)

def readString (l : List Char) : Option (String × List Char) := do
  let l ← expect '"' l
  let (s, l) ← readChars l.length l
  return (String.ofList s, l)

/-! ## Structs -/

/-- A value for a field of type `String` or `Option<String>`: any other value is of the
wrong type. -/
def readValue (l : List Char) : Option (Json × List Char) :=
  match skipBlanks l with
  | 'n' :: 'u' :: 'l' :: 'l' :: l => some (.null, l)
  | l => do
    let (s, l) ← readString l
    return (.str s, l)

/-- A comma before every member or element but the first. -/
def readComma (first : Bool) (l : List Char) : Option (List Char) :=
  if first then some l else expect ',' l

section
variable (fields : List String) (skip : List Char → Option (List Char))

/-- The members that are fields, in their order, up to the closing brace. -/
def readMembers : Nat → Bool → List Char → Option (List (String × Json) × List Char)
  | 0, _, _ => none
  | fuel + 1, first, l =>
    match expect '\x7d' l with
    | some l => some ([], l)
    | none => do
      let l ← readComma first l
      let (key, l) ← readString l
      let l ← expect ':' l
      if key ∈ fields then
        let (value, l) ← readValue l
        let (members, l) ← readMembers fuel false l
        return ((key, value) :: members, l)
      else
        -- no field: its value is passed over
        let l ← skip l
        readMembers fuel false l

/-- The elements of an array, up to the closing bracket. -/
def readItems : Nat → Bool → List Char → Option (List Json × List Char)
  | 0, _, _ => none
  | fuel + 1, first, l =>
    match expect ']' l with
    | some l => some ([], l)
    | none => do
      let l ← readComma first l
      let (value, l) ← readValue l
      let (items, l) ← readItems fuel false l
      return (value :: items, l)

/-- A struct, from an object in which no field stands twice, or from an array. -/
def readStruct (l : List Char) : Option (Json × List Char) :=
  match skipBlanks l with
  | '\x7b' :: l => do
    let (members, l) ← readMembers fields skip l.length true l
    -- the "duplicate field" of a derived decoder
    if (members.map Prod.fst).Nodup then some (.obj members, l) else none
  | '[' :: l => do
    let (items, l) ← readItems l.length true l
    return (.arr items, l)
  | _ => none

/-- `serde_json::from_str`: nothing but white space follows the struct. -/
def fromStr {α : Type} (decode : Decoder α) (text : String) : Option α := do
  let (value, l) ← readStruct fields skip text.toList
  if skipBlanks l = [] then (decode value).toOption else none

end

/-! ## What the writer writes is read back -/

section
variable {c d : Char} (l : List Char)

/-- A token of the writer has no white space before it. -/
theorem skipBlanks_cons (h : ¬ (c = ' ' ∨ c = '\n' ∨ c = '\t' ∨ c = '\r')) :
    skipBlanks (c :: l) = c :: l :=
  List.dropWhile_cons_of_neg (by simpa using h)

theorem expect_cons (h : ¬ (c = ' ' ∨ c = '\n' ∨ c = '\t' ∨ c = '\r')) :
    expect c (c :: l) = some l := by
  rw [expect, skipBlanks_cons l h]
  exact if_pos rfl

theorem expect_other (h : ¬ (c = ' ' ∨ c = '\n' ∨ c = '\t' ∨ c = '\r')) (hne : c ≠ d) :
    expect d (c :: l) = none := by
  rw [expect, skipBlanks_cons l h]
  exact if_neg hne

end

theorem hexValue_hexDigit : ∀ n < 16, hexValue (hexDigit n) = some n := by
  decide

/-- The escape of a control character without a short one. -/
theorem readUnicode_control {n : Nat} (h : n < 32) (l : List Char) :
    readUnicode ('0' :: '0' :: hexDigit (n / 16) :: hexDigit (n % 16) :: l) =
      some (Char.ofNat n, l) := by
  have hhex : readHex ('0' :: '0' :: hexDigit (n / 16) :: hexDigit (n % 16) :: l) =
      some (n, l) := by
    have hzero : hexValue '0' = some 0 := by decide
    have hvalue : ((0 * 16 + 0) * 16 + n / 16) * 16 + n % 16 = n := by omega
    rw [readHex, hexValue_hexDigit _ (by omega), hexValue_hexDigit _ (Nat.mod_lt _ (by decide)),
      hzero]
    exact congrArg (fun n => some (n, l)) hvalue
  rw [readUnicode, hhex]
  show (if _ then _ else _) = _
  rw [if_neg (by omega), if_pos (by omega)]

/-- One escaped character is read as this character. -/
theorem readChars_escapeChar (fuel : Nat) (c : Char) (l : List Char) :
    readChars (fuel + 1) (escapeChar c ++ l) =
      (readChars fuel l).map fun (s, l) => (c :: s, l) := by
  -- behind a backslash the reader leaves it to `readEscape`
  have hescape : ∀ e : List Char, readEscape (e ++ l) = some (c, l) →
      readChars (fuel + 1) ('\\' :: e ++ l) =
        (readChars fuel l).map fun (s, l) => (c :: s, l) := by
    intro e he
    rw [List.cons_append, readChars, if_neg (by decide), if_pos rfl, he]
    show (readChars fuel l >>= _) = _
    cases readChars fuel l <;> rfl
  have hofNat : ∀ {n : Nat}, c.toNat = n → Char.ofNat n = c := by
    intro n hn
    rw [← hn, Char.ofNat_toNat]
  rw [escapeChar]
  split
  · next hc =>
    subst hc
    exact hescape ['"'] rfl
  split
  · next hc =>
    subst hc
    exact hescape ['\\'] rfl
  split
  · next hc => exact hescape ['b'] (by rw [← hofNat hc]; rfl)
  split
  · next hc => exact hescape ['t'] (by rw [← hofNat hc]; rfl)
  split
  · next hc => exact hescape ['n'] (by rw [← hofNat hc]; rfl)
  split
  · next hc => exact hescape ['f'] (by rw [← hofNat hc]; rfl)
  split
  · next hc => exact hescape ['r'] (by rw [← hofNat hc]; rfl)
  split
  · next hc =>
    refine hescape ['u', '0', '0', _, _] ?_
    exact (readUnicode_control hc l).trans (by rw [Char.ofNat_toNat])
  · next hquote hslash _ _ _ _ _ hcontrol =>
    rw [List.singleton_append, readChars, if_neg hquote, if_neg hslash, if_neg hcontrol]
    cases readChars fuel l <;> rfl

/-- **Escaping is uniquely decodable**: the reader finds the characters and where the
string ends. -/
theorem readChars_escaped (s l : List Char) {fuel : Nat} (h : s.length < fuel) :
    readChars fuel (s.flatMap escapeChar ++ '"' :: l) = some (s, l) := by
  induction s generalizing fuel with
  | nil =>
      obtain ⟨fuel, rfl⟩ := Nat.exists_eq_add_of_lt h
      exact if_pos rfl
  | cons c s ih =>
      rw [List.length_cons] at h
      obtain ⟨fuel, rfl⟩ : ∃ f, fuel = f + 1 := ⟨fuel - 1, by omega⟩
      rw [List.flatMap_cons, List.append_assoc, readChars_escapeChar, ih (by omega)]
      rfl

theorem escapeChar_ne_nil (c : Char) : escapeChar c ≠ [] := by
  unfold escapeChar
  repeat' split
  all_goals exact List.cons_ne_nil _ _

theorem length_le_escaped (s : List Char) : s.length ≤ (s.flatMap escapeChar).length := by
  induction s with
  | nil => exact Nat.le_refl 0
  | cons c s ih =>
      have hpos := List.length_pos_iff.mpr (escapeChar_ne_nil c)
      rw [List.flatMap_cons, List.length_append, List.length_cons]
      omega

theorem compactString_append (s : String) (l : List Char) :
    (compactString s).toList ++ l = '"' :: (s.toList.flatMap escapeChar ++ '"' :: l) := by
  rw [compactString, String.toList_ofList, List.cons_append, List.cons_append, List.append_assoc]
  rfl

theorem readString_compactString (s : String) (l : List Char) :
    readString ((compactString s).toList ++ l) = some (s, l) := by
  -- the fuel is the length of what is left to read
  have hlen : s.toList.length < (s.toList.flatMap escapeChar ++ '"' :: l).length := by
    have hle := length_le_escaped s.toList
    rw [List.length_append, List.length_cons]
    omega
  rw [readString, compactString_append, expect_cons _ (by decide)]
  show (readChars _ _ >>= _) = _
  rw [readChars_escaped _ _ hlen]
  exact congrArg (fun s => some (s, l)) String.ofList_toList

/-- The writer never escapes a character beyond the controls, the reader knows how. -/
example : readString "\"\\ud83d\\ude00\"".toList = some ("😀", []) := by decide

theorem readValue_compactString (s : String) (l : List Char) :
    readValue ((compactString s).toList ++ l) = some (.str s, l) := by
  have hread := readString_compactString s l
  rw [compactString_append] at hread ⊢
  rw [readValue, skipBlanks_cons _ (by decide)]
  show (readString _ >>= _) = _
  rw [hread]
  rfl

theorem readComma_append (first : Bool) (l : List Char) :
    readComma first ((if first then [] else [',']) ++ l) = some l := by
  cases first with
  | true => rfl
  | false => exact expect_cons (c := ',') l (by decide)

theorem expect_member (first : Bool) (key : String) (l : List Char) :
    expect '\x7d' ((if first then [] else [',']) ++ ((compactString key).toList ++ l)) =
      none := by
  rw [compactString_append]
  cases first with
  | true => exact expect_other _ (by decide) (by decide)
  | false => exact expect_other _ (by decide) (by decide)

/-- Members whose values are texts. -/
def textMembers (texts : List (String × String)) : List (String × Json) :=
  texts.map fun (key, s) => (key, .str s)

section
variable {fields : List String} (skip : List Char → Option (List Char)) (text : SerdeText)

/-- The text of a member, from its key on. -/
theorem compactMembers_append (first : Bool) (key s : String) (texts : List (String × String))
    (l : List Char) :
    (compactMembers text first (textMembers ((key, s) :: texts))).toList ++ l =
      (if first then [] else [',']) ++ ((compactString key).toList ++ ':' ::
        ((compactString s).toList ++
          ((compactMembers text false (textMembers texts)).toList ++ l))) := by
  rw [textMembers, List.map_cons, compactMembers, ← textMembers, Json.compact]
  cases first <;> simp

/-- **The members are read back**, and where they end. -/
theorem readMembers_compactMembers {texts : List (String × String)}
    (hfields : ∀ m ∈ texts, m.1 ∈ fields) (first : Bool) (l : List Char) {fuel : Nat}
    (hfuel : texts.length < fuel) :
    readMembers fields skip fuel first
        ((compactMembers text first (textMembers texts)).toList ++ '\x7d' :: l) =
      some (textMembers texts, l) := by
  induction texts generalizing first fuel with
  | nil =>
      obtain ⟨fuel, rfl⟩ : ∃ f, fuel = f + 1 := ⟨fuel - 1, by simp at hfuel; omega⟩
      rfl
  | cons m texts ih =>
      obtain ⟨key, s⟩ := m
      obtain ⟨hkey, hfields⟩ := List.forall_mem_cons.mp hfields
      rw [List.length_cons] at hfuel
      obtain ⟨fuel, rfl⟩ : ∃ f, fuel = f + 1 := ⟨fuel - 1, by omega⟩
      have ih := ih hfields false (show texts.length < fuel by omega)
      have hcolon := fun l => expect_cons (c := ':') l (by decide)
      rw [compactMembers_append, readMembers, expect_member]
      simp only [readComma_append, readString_compactString, hcolon, if_pos hkey,
        readValue_compactString, ih, Option.bind_eq_bind, Option.bind_some]
      rfl

theorem length_le_compactMembers (first : Bool) (members : List (String × Json)) :
    members.length ≤ (compactMembers text first members).toList.length := by
  induction members generalizing first with
  | nil => exact Nat.zero_le _
  | cons m members ih =>
      have ih := ih false
      rw [compactMembers]
      simp only [String.toList_append, List.length_append, List.length_cons] at ih ⊢
      show _ ≤ _ + _ + 1 + _ + _
      omega

/-- **Reading an object back**: of texts under the names of fields, each once, nothing is
lost on the way through the text. -/
theorem fromStr_compact {α : Type} (decode : Decoder α) {texts : List (String × String)}
    (hfields : ∀ m ∈ texts, m.1 ∈ fields) (hkeys : (texts.map Prod.fst).Nodup) :
    fromStr fields skip decode ((Json.obj (textMembers texts)).compact text) =
      (decode (.obj (textMembers texts))).toOption := by
  have htext : ((Json.obj (textMembers texts)).compact text).toList =
      '\x7b' :: ((compactMembers text true (textMembers texts)).toList ++ ['\x7d']) := by
    rw [Json.compact, String.toList_append, String.toList_append, List.append_assoc]
    rfl
  have hfuel : texts.length <
      ((compactMembers text true (textMembers texts)).toList ++ ['\x7d']).length := by
    have hle := length_le_compactMembers text true (textMembers texts)
    rw [textMembers, List.length_map, ← textMembers] at hle
    rw [List.length_append, List.length_singleton]
    omega
  have hnodup : ((textMembers texts).map Prod.fst).Nodup := by
    rw [textMembers, List.map_map]
    exact hkeys
  have hread := readMembers_compactMembers skip text hfields true [] hfuel
  have hstruct : readStruct fields skip ((Json.obj (textMembers texts)).compact text).toList =
      some (.obj (textMembers texts), []) := by
    rw [htext, readStruct]
    show (readMembers _ _ _ _ _ >>= _) = _
    rw [hread]
    exact if_pos hnodup
  rw [fromStr, hstruct]
  rfl

end

end VerdantBackend
