import VerdantBackend.Indexer.RpcValues

/-!
# What a conversion keeps

The JSON value of an `ScVal` has its shape and its integers, those of 128 bits put
together from their halves. What is lost are entries of a map whose keys have one
text, a symbol and a string.
-/

namespace VerdantBackend

variable {P : RpcPackages}

/-! ## Integers -/

/-- The JSON value is the integer, as a number or in decimal. -/
def Json.DenotesInt (v : Json) (n : Int) : Prop :=
  match v with
  | .num j => j.val = n
  | .str s => s = toString n
  | _ => False

/-- The high half above the low half is their concatenation. -/
theorem shiftLeft_or_eq_append {hi lo : BitVec 64} {x : BitVec 128}
    (hx : ∀ i < 64, x.getLsbD i = hi.getLsbD i) :
    (x <<< 64) ||| lo.zeroExtend 128 = hi ++ lo := by
  refine BitVec.eq_of_getLsbD_eq fun i h => ?_
  have happ : (hi ++ lo).getLsbD i = if i < 64 then lo.getLsbD i else hi.getLsbD (i - 64) :=
    BitVec.getLsbD_append
  rw [happ, BitVec.getLsbD_or, BitVec.getLsbD_shiftLeft, BitVec.getLsbD_setWidth]
  by_cases hlt : i < 64
  · simp [hlt, h]
  · have hge : lo.getLsbD i = false := BitVec.getLsbD_of_ge lo i (by omega)
    simp only [hlt, hge, hx (i - 64) (by omega)]
    simp [h]

theorem u128_toNat (hi lo : BitVec 64) :
    ((hi.zeroExtend 128 <<< 64) ||| lo.zeroExtend 128).toNat = hi.toNat * 2 ^ 64 + lo.toNat := by
  have hbits : ∀ i < 64, (hi.zeroExtend 128).getLsbD i = hi.getLsbD i := by
    intro i h
    simp [BitVec.getLsbD_setWidth]
    omega
  rw [shiftLeft_or_eq_append hbits, BitVec.toNat_append,
    ← Nat.shiftLeft_add_eq_or_of_lt lo.isLt, Nat.shiftLeft_eq]

theorem i128_toInt (hi lo : BitVec 64) :
    ((hi.signExtend 128 <<< 64) ||| lo.zeroExtend 128).toInt = hi.toInt * 2 ^ 64 + lo.toNat := by
  have hbits : ∀ i < 64, (hi.signExtend 128).getLsbD i = hi.getLsbD i := by
    intro i h
    rw [BitVec.getLsbD_signExtend]
    simp [h]
    omega
  rw [shiftLeft_or_eq_append hbits, BitVec.toInt_append]
  simp only [Nat.reduceBEq, Bool.false_eq_true, ite_false]
  omega

theorem ofU64_denotes (u : UInt64) : (Json.ofU64 u).DenotesInt u.toNat := rfl

theorem ofI64_denotes (i : Int64) : (Json.ofI64 i).DenotesInt i.toInt := rfl

theorem ofI64_toInt64_denotes (i : Int32) : (Json.ofI64 i.toInt64).DenotesInt i.toInt :=
  Int32.toInt_toInt64 i

theorem u128Json_denotes (hi lo : UInt64) :
    (u128Json hi lo).DenotesInt (hi.toNat * 2 ^ 64 + lo.toNat) := by
  have hv := u128_toNat hi.toBitVec lo.toBitVec
  rw [u128Json]
  split
  · show ((_ : Nat) : Int) = _
    rw [hv]
    rfl
  · show toString _ = toString _
    rw [hv]
    rfl

theorem i128Json_denotes (hi : Int64) (lo : UInt64) :
    (i128Json hi lo).DenotesInt (hi.toInt * 2 ^ 64 + lo.toNat) := by
  have hv := i128_toInt hi.toBitVec lo.toBitVec
  rw [i128Json]
  split
  · exact hv
  · show toString _ = toString _
    rw [hv]
    rfl

/-! ## Objects -/

theorem insertMembers_sorted {obj : List (String × Json)} (h : KeysSorted obj)
    (l : List (String × Json)) : KeysSorted (insertMembers obj l) := by
  induction l generalizing obj with
  | nil => exact h
  | cons m l ih => exact ih (h.insertMember m.1 m.2)

/-- Members with keys of their own are all there. -/
theorem insertMembers_perm {obj l : List (String × Json)}
    (h : ((l ++ obj).map Prod.fst).Nodup) : (insertMembers obj l).Perm (l ++ obj) := by
  induction l generalizing obj with
  | nil => exact .refl _
  | cons m l ih =>
      have hmid : (m :: l ++ obj).Perm (l ++ m :: obj) := List.perm_middle.symm
      have hnot : m.1 ∉ obj.map Prod.fst := by
        intro hm
        rw [List.cons_append, List.map_cons, List.nodup_cons, List.map_append,
          List.mem_append] at h
        exact h.1 (.inr hm)
      have hins : (insertMember m.1 m.2 obj).Perm (m :: obj) := insertMember_perm hnot
      have hnext := hmid.trans (hins.symm.append_left l)
      exact (ih ((hnext.map Prod.fst).nodup_iff.mp h)).trans hnext.symm

/-! ## What a conversion keeps -/

namespace ScVal

/-- The integer that a leaf of an integer kind is. -/
def integer : ScVal → Option Int
  | .u32 u => some u.toNat
  | .i32 i => some i.toInt
  | .u64 u => some u.toNat
  | .i64 i => some i.toInt
  | .timepoint t => some t.toNat
  | .duration d => some d.toNat
  | .u128 hi lo => some (hi.toNat * 2 ^ 64 + lo.toNat)
  | .i128 hi lo => some (hi.toInt * 2 ^ 64 + lo.toNat)
  | _ => none

/-- A kind that is kept as a text. -/
def isTextual : ScVal → Bool
  | .bytes _ | .string _ | .symbol _ | .address _ => true
  | _ => false

/-- No error, 256-bit integer, instance or ledger key. -/
def IsPlain : ScVal → Prop
  | .error _ | .u256 .. | .i256 .. | .contractInstance | .ledgerKeyContractInstance
  | .ledgerKeyNonce _ => False
  | _ => True

/-- The keys of a map have texts of their own. -/
def KeysApart (P : RpcPackages) : ScVal → Prop
  | .map (some entries) => (entries.map fun entry => symbolToString P entry.1).Nodup
  | _ => True

end ScVal

/-- The JSON value has the shape of the `ScVal`: integers denoted exactly, arrays of
the same length and order, and objects with one member for each entry, its value
converted. -/
inductive ShownAs (P : RpcPackages) : ScVal → Json → Prop where
  | bool (b : Bool) : ShownAs P (.bool b) (.bool b)
  | void : ShownAs P .void .null
  | integer {v : ScVal} {n : Int} {j : Json} : v.integer = some n → j.DenotesInt n →
      ShownAs P v j
  | text {v : ScVal} (s : String) : v.isTextual = true → ShownAs P v (.str s)
  | noVec : ShownAs P (.vec none) .null
  | vec {items : List ScVal} {js : List Json} : List.Forall₂ (ShownAs P) items js →
      ShownAs P (.vec (some items)) (.arr js)
  | noMap : ShownAs P (.map none) .null
  | map {entries : List (ScVal × ScVal)} {members l : List (String × Json)} :
      members.Perm l → List.Forall₂ (EntryConverts P) entries l →
      List.Forall₂ (ShownAs P) (entries.map Prod.snd) (l.map Prod.snd) →
      ShownAs P (.map (some entries)) (.obj members)

theorem shownAs_vec_iff {items : List ScVal} {js : List Json} :
    ShownAs P (.vec (some items)) (.arr js) ↔ List.Forall₂ (ShownAs P) items js := by
  constructor
  · intro h
    cases h with
    | vec h => exact h
    | integer h _ => cases h
  · exact .vec

theorem mapKey_eq_ok {key : ScVal} {text : String} :
    mapKey P key = .ok text ↔ symbolToString P key = some text := by
  cases key <;> simp [mapKey, symbolToString]

/-- An entry becomes one member. -/
theorem entryConverts_rightUnique : Relator.RightUnique (EntryConverts P) := by
  intro entry m m' h h'
  have hkey := h.1.symm.trans h'.1
  have hvalue := h.2.symm.trans h'.2
  exact Prod.ext (Except.ok.inj hkey) (Except.ok.inj hvalue)

theorem entryConverts_values {entries : List (ScVal × ScVal)} {l : List (String × Json)}
    (h : List.Forall₂ (EntryConverts P) entries l) :
    List.Forall₂ (fun v j => scvalToJson P v = .ok j) (entries.map Prod.snd)
      (l.map Prod.snd) := by
  rw [List.forall₂_map_left_iff, List.forall₂_map_right_iff]
  exact h.imp fun _ _ hm => hm.2

theorem keysApart_iff {entries : List (ScVal × ScVal)} {l : List (String × Json)}
    (h : List.Forall₂ (EntryConverts P) entries l) :
    (ScVal.map (some entries)).KeysApart P ↔ (l.map Prod.fst).Nodup := by
  have hkeys : (entries.map fun entry => symbolToString P entry.1) =
      (l.map Prod.fst).map some := by
    induction h with
    | nil => rfl
    | cons hm _ ih =>
        rw [List.map_cons, ih, mapKey_eq_ok.mp hm.1]
        rfl
  rw [ScVal.KeysApart, hkeys, List.nodup_map_iff (Option.some_injective _)]

/-- Objects are ordered by their keys, each key once: the members are all there exactly
when no two of them had one key. -/
theorem shownAs_map_iff {entries : List (ScVal × ScVal)} {l : List (String × Json)}
    (h : List.Forall₂ (EntryConverts P) entries l) :
    ShownAs P (.map (some entries)) (.obj (insertMembers [] l)) ↔
      (ScVal.map (some entries)).KeysApart P ∧
        List.Forall₂ (ShownAs P) (entries.map Prod.snd) (l.map Prod.snd) := by
  rw [keysApart_iff h]
  constructor
  · intro hshown
    cases hshown with
    | integer h _ => cases h
    | map hperm h' hvalues =>
        -- the entries fix the members, so nothing but their order is free
        obtain rfl := List.right_unique_forall₂' entryConverts_rightUnique h h'
        have hsorted : KeysSorted (insertMembers [] l) :=
          insertMembers_sorted (show KeysSorted [] from .nil) l
        exact ⟨(hperm.map Prod.fst).nodup_iff.mp (hsorted.imp ne_of_lt), hvalues⟩
  · intro hapart
    have hperm : (insertMembers [] l).Perm (l ++ []) :=
      insertMembers_perm (by rw [List.append_nil]; exact hapart.1)
    rw [List.append_nil] at hperm
    exact .map hperm h hapart.2

theorem forall₂_shownAs_iff {p : ScVal → Prop} {items : List ScVal} {js : List Json}
    (hconv : List.Forall₂ (fun v j => scvalToJson P v = .ok j) items js)
    (h : ∀ v ∈ items, ∀ j, scvalToJson P v = .ok j → (ShownAs P v j ↔ p v)) :
    List.Forall₂ (ShownAs P) items js ↔ ∀ v ∈ items, p v := by
  induction hconv with
  | nil => simp
  | cons hv _ ih =>
      obtain ⟨hhead, htail⟩ := List.forall_mem_cons.mp h
      rw [List.forall₂_cons, List.forall_mem_cons, hhead _ hv, ih htail]

/-- A value without parts that is shown as it is. -/
theorem ShownAs.iff_of_leaf {v : ScVal} {j : Json} {p : ScVal → Prop} (hshown : ShownAs P v j)
    (hapart : v.KeysApart P) (hleaf : v.parts = []) :
    ShownAs P v j ↔ v.KeysApart P ∧ ∀ w ∈ v.parts, p w := by
  refine iff_of_true hshown ⟨hapart, ?_⟩
  rw [hleaf]
  simp

/-- **Nothing lost**: a plain value that converts is shown as it is exactly when no map
in it has two keys of one text. -/
theorem scvalToJson_shownAs_iff {v : ScVal} {j : Json} (hplain : v.All ScVal.IsPlain)
    (hj : scvalToJson P v = .ok j) : ShownAs P v j ↔ v.All (ScVal.KeysApart P) := by
  induction v using ScVal.parts_induction generalizing j with
  | step v ih =>
    obtain ⟨hv, hparts⟩ := ScVal.all_iff.mp hplain
    have hrec : ∀ w ∈ v.parts, ∀ j, scvalToJson P w = .ok j →
        (ShownAs P w j ↔ w.All (ScVal.KeysApart P)) :=
      fun w hw j hwj => ih w hw (hparts w hw) hwj
    rw [ScVal.all_iff]
    cases v with
    | vec items =>
        cases items with
        | none =>
            cases hj
            exact ShownAs.noVec.iff_of_leaf trivial rfl
        | some items =>
            obtain ⟨js, hjs, rfl⟩ := scvalToJson_vec_eq_ok.mp hj
            rw [shownAs_vec_iff, forall₂_shownAs_iff hjs hrec]
            exact (and_iff_right trivial).symm
    | map entries =>
        cases entries with
        | none =>
            cases hj
            exact ShownAs.noMap.iff_of_leaf trivial rfl
        | some entries =>
            obtain ⟨l, hl, rfl⟩ := scvalToJson_map_eq_ok.mp hj
            rw [shownAs_map_iff hl, forall₂_shownAs_iff (entryConverts_values hl) hrec]
            rfl
    | error _ | u256 _ _ _ _ | i256 _ _ _ _ | contractInstance | ledgerKeyContractInstance
    | ledgerKeyNonce _ => exact absurd hv id
    | bool b =>
        cases hj
        exact (ShownAs.bool b).iff_of_leaf trivial rfl
    | void =>
        cases hj
        exact ShownAs.void.iff_of_leaf trivial rfl
    | u32 _ | u64 _ | timepoint _ | duration _ =>
        cases hj
        exact (ShownAs.integer rfl (ofU64_denotes _)).iff_of_leaf trivial rfl
    | i32 _ =>
        cases hj
        exact (ShownAs.integer rfl (ofI64_toInt64_denotes _)).iff_of_leaf trivial rfl
    | i64 _ =>
        cases hj
        exact (ShownAs.integer rfl (ofI64_denotes _)).iff_of_leaf trivial rfl
    | u128 _ _ =>
        cases hj
        exact (ShownAs.integer rfl (u128Json_denotes _ _)).iff_of_leaf trivial rfl
    | i128 _ _ =>
        cases hj
        exact (ShownAs.integer rfl (i128Json_denotes _ _)).iff_of_leaf trivial rfl
    | bytes _ | string _ | symbol _ | address _ =>
        cases hj
        exact (ShownAs.text _ rfl).iff_of_leaf trivial rfl

/-! A map of one byte string and one number, and one whose two keys read `a`. -/

def twoLeaves : ScVal := .map (some [(.symbol [98], .bytes [1]), (.string [97], .i128 (-1) 0)])

theorem scvalToJson_shownAs_twoLeaves :
    ShownAs paidValues twoLeaves
      (.obj [("a", .str "-18446744073709551616"), ("b", .str "01")]) := by
  have hplain : twoLeaves.All ScVal.IsPlain := by
    refine .intro trivial fun w hw => ?_
    rcases List.mem_pair.mp hw with rfl | rfl <;> exact ScVal.all_of_leaf trivial rfl
  have hapart : twoLeaves.All (ScVal.KeysApart paidValues) := by
    refine .intro (show [some "b", some "a"].Nodup by decide) fun w hw => ?_
    rcases List.mem_pair.mp hw with rfl | rfl <;> exact ScVal.all_of_leaf trivial rfl
  exact (scvalToJson_shownAs_iff hplain rfl).mpr hapart

/-- The string `a` and the symbol `a`. -/
def oneText : ScVal := .map (some [(.string [97], .u32 1), (.symbol [97], .u32 2)])

/-- The entry of the string is lost. -/
theorem scvalToJson_loses :
    oneText.All ScVal.IsPlain ∧ ScVal.string [97] ≠ .symbol [97] ∧
      scvalToJson paidValues oneText = .ok (.obj [("a", .ofU64 2)]) ∧
      ¬ ShownAs paidValues oneText (.obj [("a", .ofU64 2)]) := by
  have hplain : oneText.All ScVal.IsPlain := by
    refine .intro trivial fun w hw => ?_
    rcases List.mem_pair.mp hw with rfl | rfl <;> exact ScVal.all_of_leaf trivial rfl
  refine ⟨hplain, by simp, rfl, ?_⟩
  intro h
  cases h with
  | integer h _ => cases h
  | map hperm hentries _ =>
      have hlength := hperm.length_eq.trans hentries.length_eq.symm
      exact absurd hlength (by decide)

end VerdantBackend
