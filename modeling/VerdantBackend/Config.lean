import Mathlib.Data.List.DropRight
import VerdantBackend.Lib.Table
import VerdantBackend.Lib.Register

/-!
# Configuration

`src/config.rs`: the map from contract id to indexer name, which tables
`parse_contracts` makes of a setting of `VERDANT_BACKEND_INDEXER_CONTRACTS`, and
which tables a setting can be written for.
-/

namespace VerdantBackend

/-- The characters `str::trim` drops: the Unicode property `White_Space`. -/
def isWhitespace (c : Char) : Bool :=
  let n := c.toNat
  (9 ≤ n && n ≤ 13) || n = 0x20 || n = 0x85 || n = 0xA0 || n = 0x1680 ||
    (0x2000 ≤ n && n ≤ 0x200A) || n = 0x2028 || n = 0x2029 || n = 0x202F || n = 0x205F ||
    n = 0x3000

/-- `str::trim`. -/
def trim (s : List Char) : List Char :=
  ((s.dropWhile isWhitespace).reverse.dropWhile isWhitespace).reverse

/-- `str::split_once` at a character. -/
def splitOnce (sep : Char) : List Char → Option (List Char × List Char)
  | [] => none
  | c :: s => if c = sep then some ([], s) else (splitOnce sep s).map fun (l, r) => (c :: l, r)

/-- `parse_contracts`: of two pairs with one contract id the later one counts. -/
def parseContracts (raw : String) : Table String String :=
  (raw.toList.splitOn ',').foldl (fun contracts pair =>
    match splitOnce ':' pair with
    | none => contracts
    | some (name, contract) =>
      let name := trim name
      let contract := trim contract
      if !name.isEmpty && !contract.isEmpty then
        contracts.upsert (String.ofList contract) (String.ofList name) fun _ => String.ofList name
      else contracts) ∅

/-! ## Trimming -/

theorem trim_eq (s : List Char) :
    trim s = (s.dropWhile isWhitespace).rdropWhile isWhitespace := rfl

theorem trim_sublist (s : List Char) : (trim s).Sublist s := by
  rw [trim_eq]
  exact (List.rdropWhile_prefix _ _).sublist.trans (List.dropWhile_suffix _).sublist

theorem trim_trim (s : List Char) : trim (trim s) = trim s := by
  have hhead : (trim s).dropWhile isWhitespace = trim s := by
    have hprefix : trim s <+: s.dropWhile isWhitespace := List.rdropWhile_prefix _ _
    cases ht : trim s with
    | nil => rfl
    | cons c t =>
        rw [ht] at hprefix
        obtain ⟨rest, hrest⟩ := hprefix
        have hne : s.dropWhile isWhitespace ≠ [] := by simp [← hrest]
        have hc := List.head_dropWhile_not isWhitespace hne
        simp only [← hrest, List.cons_append, List.head_cons] at hc
        rw [List.dropWhile_cons_of_neg (by simp [hc])]
  have htail : (trim s).rdropWhile isWhitespace = trim s := by
    rw [trim_eq, List.rdropWhile_idempotent]
  rw [trim_eq (trim s), hhead, htail]

/-! ## One pair -/

theorem splitOnce_eq_some_iff {sep : Char} {s l r : List Char} :
    splitOnce sep s = some (l, r) ↔ s = l ++ sep :: r ∧ sep ∉ l := by
  induction s generalizing l with
  | nil => simp [splitOnce]
  | cons c s ih =>
      unfold splitOnce
      by_cases hc : c = sep
      · subst hc
        cases l with
        | nil => simp
        | cons d l =>
            simp only [if_pos, Option.some.injEq, Prod.mk.injEq, reduceCtorEq, false_and,
              List.cons_append, List.cons.injEq, List.mem_cons, not_or, false_iff]
            rintro ⟨⟨rfl, _⟩, hne, _⟩
            exact hne rfl
      · rw [if_neg hc, Option.map_eq_some_iff, Prod.exists]
        constructor
        · rintro ⟨l', r', h, heq⟩
          cases heq
          obtain ⟨rfl, hnot⟩ := ih.mp h
          exact ⟨rfl, by simp [Ne.symm hc, hnot]⟩
        · rintro ⟨heq, hnot⟩
          cases l with
          | nil => exact absurd (List.cons.inj heq).1 hc
          | cons d l =>
              obtain ⟨rfl, rfl⟩ := List.cons.inj heq
              exact ⟨l, r, ih.mpr ⟨rfl, fun h => hnot (.tail _ h)⟩, rfl⟩

/-- The closure of `parse_contracts`: the contract id and the name of a pair. -/
def readPair (pair : List Char) : Option (String × String) :=
  match splitOnce ':' pair with
  | none => none
  | some (name, contract) =>
    let name := trim name
    let contract := trim contract
    if !name.isEmpty && !contract.isEmpty then
      some (String.ofList contract, String.ofList name)
    else none

/-- The name that a pair gives the contract. -/
def nameIn (contract : String) (pair : List Char) : Option String :=
  (readPair pair).bind fun p => if p.1 = contract then some p.2 else none

/-- A contract and a name that a pair can stand for. -/
structure Listable (contract name : String) : Prop where
  contract_nonempty : contract ≠ ""
  name_nonempty : name ≠ ""
  contract_trimmed : trim contract.toList = contract.toList
  name_trimmed : trim name.toList = name.toList
  contract_plain : ',' ∉ contract.toList
  name_plain : ',' ∉ name.toList ∧ ':' ∉ name.toList

theorem readPair_eq_some_iff {pair : List Char} {contract name : String} :
    readPair pair = some (contract, name) ↔
      ∃ l r, pair = l ++ ':' :: r ∧ ':' ∉ l ∧ trim l = name.toList ∧
        trim r = contract.toList ∧ name ≠ "" ∧ contract ≠ "" := by
  unfold readPair
  cases hs : splitOnce ':' pair with
  | none =>
      simp only [reduceCtorEq, false_iff]
      rintro ⟨l, r, hpair, hcolon, _⟩
      rw [splitOnce_eq_some_iff.mpr ⟨hpair, hcolon⟩] at hs
      cases hs
  | some p =>
      obtain ⟨l, r⟩ := p
      obtain ⟨hpair, hcolon⟩ := splitOnce_eq_some_iff.mp hs
      constructor
      · intro h
        simp only at h
        split at h
        case isFalse => cases h
        case isTrue hne =>
          cases h
          simp only [Bool.and_eq_true, Bool.not_eq_true', List.isEmpty_eq_false_iff] at hne
          refine ⟨l, r, hpair, hcolon, String.toList_ofList.symm, String.toList_ofList.symm, ?_, ?_⟩
          · simpa [← String.toList_inj] using hne.1
          · simpa [← String.toList_inj] using hne.2
      · rintro ⟨l', r', hpair', hcolon', hname, hcontract, hne, hne'⟩
        rw [splitOnce_eq_some_iff.mpr ⟨hpair', hcolon'⟩] at hs
        cases hs
        simp [hname, hcontract, hne, hne']

theorem listable_of_readPair {pair : List Char} (hpair : ',' ∉ pair) {contract name : String}
    (h : readPair pair = some (contract, name)) : Listable contract name := by
  obtain ⟨l, r, rfl, hcolon, hname, hcontract, hne, hne'⟩ := readPair_eq_some_iff.mp h
  have hl : ∀ c ∈ name.toList, c ∈ l := by
    rw [← hname]
    exact fun c hc => (trim_sublist l).subset hc
  have hr : ∀ c ∈ contract.toList, c ∈ r := by
    rw [← hcontract]
    exact fun c hc => (trim_sublist r).subset hc
  simp only [List.mem_append, List.mem_cons, not_or] at hpair
  exact {
    contract_nonempty := hne'
    name_nonempty := hne
    contract_trimmed := by rw [← hcontract, trim_trim]
    name_trimmed := by rw [← hname, trim_trim]
    contract_plain := fun hc => hpair.2.2 (hr _ hc)
    name_plain := ⟨fun hc => hpair.1 (hl _ hc), fun hc => hcolon (hl _ hc)⟩ }

/-- The pair as it is written in a setting. -/
def writePair (contract name : String) : List Char := name.toList ++ ':' :: contract.toList

theorem readPair_writePair {contract name : String} (h : Listable contract name) :
    readPair (writePair contract name) = some (contract, name) :=
  readPair_eq_some_iff.mpr ⟨_, _, rfl, h.name_plain.2, h.name_trimmed, h.contract_trimmed,
    h.name_nonempty, h.contract_nonempty⟩

/-! ## The setting -/

/-- The insertion of what one pair reads as. -/
def addPair (contracts : Table String String) (pair : List Char) : Table String String :=
  match readPair pair with
  | none => contracts
  | some (contract, name) => contracts.upsert contract name fun _ => name

theorem parseContracts_eq (raw : String) :
    parseContracts raw = (raw.toList.splitOn ',').foldl addPair ∅ := by
  unfold parseContracts
  congr 1
  funext contracts pair
  unfold addPair readPair
  cases splitOnce ':' pair with
  | none => rfl
  | some p =>
      obtain ⟨name, contract⟩ := p
      by_cases h : (!(trim name).isEmpty && !(trim contract).isEmpty) = true
      · simp only [if_pos h]
      · simp only [if_neg h]

theorem addPair_lookup (contracts : Table String String) (pair : List Char) (contract : String) :
    (addPair contracts pair).lookup contract =
      ((nameIn contract pair).map some).getD (contracts.lookup contract) := by
  unfold addPair nameIn
  cases readPair pair with
  | none => rfl
  | some p =>
      obtain ⟨c, name⟩ := p
      simp only [Table.lookup_upsert, Option.bind_some]
      by_cases hc : c = contract
      · subst hc
        cases contracts.lookup c <;> simp
      · simp [hc]

/-- The last pair of a contract names it. -/
theorem parseContracts_lookup (raw contract : String) :
    (parseContracts raw).lookup contract =
      Register.lastSet (nameIn contract) (raw.toList.splitOn ',') := by
  have hlast := Register.last_write (m := fun contracts : Table String String =>
    contracts.lookup contract) (fun contracts pair => addPair_lookup contracts pair contract)
    (raw.toList.splitOn ',') ∅
  rw [parseContracts_eq, hlast, Register.lastSet_map, Finmap.lookup_empty]
  cases Register.lastSet (nameIn contract) (raw.toList.splitOn ',') <;> rfl

theorem not_mem_of_mem_splitOn {sep : Char} {l part : List Char} (h : part ∈ l.splitOn sep) :
    sep ∉ part := by
  induction l generalizing part with
  | nil =>
      rw [List.splitOn_nil, List.mem_singleton] at h
      simp [h]
  | cons c l ih =>
      rw [List.splitOn_cons_eq_if_modifyHead] at h
      split at h
      case isTrue =>
        rcases List.mem_cons.mp h with rfl | h
        · simp
        · exact ih h
      case isFalse hc =>
        cases hs : l.splitOn sep with
        | nil => exact absurd hs (List.splitOn_ne_nil sep l)
        | cons first rest =>
            rw [hs, List.modifyHead_cons] at h
            rw [hs] at ih
            rcases List.mem_cons.mp h with rfl | h
            · rw [List.mem_cons, not_or]
              exact ⟨fun heq => hc (by simp [heq]), ih (.head _)⟩
            · exact ih (.tail _ h)

theorem listable_of_lookup {raw contract name : String}
    (h : (parseContracts raw).lookup contract = some name) : Listable contract name := by
  rw [parseContracts_lookup] at h
  obtain ⟨pair, hpair, hname⟩ := List.mem_filterMap.mp (List.mem_of_getLast? h)
  obtain ⟨⟨c, n⟩, hread, hp⟩ := Option.bind_eq_some_iff.mp hname
  simp only [Option.ite_none_right_eq_some, Option.some.injEq] at hp
  obtain ⟨rfl, rfl⟩ := hp
  exact listable_of_readPair (not_mem_of_mem_splitOn hpair) hread

theorem parseContracts_append {raw : String} {pair : List Char} (hpair : ',' ∉ pair) :
    parseContracts (String.ofList (raw.toList ++ ',' :: pair)) =
      addPair (parseContracts raw) pair := by
  rw [parseContracts_eq, parseContracts_eq, String.toList_ofList,
    List.splitOn_append_cons_self, List.splitOn_eq_singleton hpair, List.foldl_concat]

theorem addPair_writePair {contracts : Table String String} {contract name : String}
    (h : Listable contract name) :
    addPair contracts (writePair contract name) = contracts.insert contract name := by
  have hrow : (contracts.lookup contract).elim name (fun _ => name) = name := by
    cases contracts.lookup contract <;> rfl
  simp only [addPair, readPair_writePair h, Table.upsert, hrow]

/-- A table of contracts and names that pairs can stand for has a setting. -/
theorem exists_setting (contracts : Table String String)
    (h : ∀ contract name, contracts.lookup contract = some name → Listable contract name) :
    ∃ raw, parseContracts raw = contracts := by
  induction contracts using Finmap.induction_on with
  | H a =>
    induction a using AList.insertRec with
    | H0 => exact ⟨"", rfl⟩
    | IH contract name l hnew ih =>
        have hnew' : contract ∉ AList.toFinmap l := hnew
        have hrest : ∀ contract' name', (AList.toFinmap l).lookup contract' = some name' →
            Listable contract' name' := by
          intro contract' name' hl
          refine h contract' name' ?_
          have hne : contract' ≠ contract := by
            rintro rfl
            rw [Finmap.lookup_eq_none.mpr hnew'] at hl
            cases hl
          exact (Finmap.lookup_insert_of_ne (AList.toFinmap l) hne).trans hl
        obtain ⟨raw, hraw⟩ := ih hrest
        have hlist : Listable contract name :=
          h contract name (Finmap.lookup_insert (AList.toFinmap l))
        have hplain : ',' ∉ writePair contract name := by
          simp [writePair, hlist.name_plain.1, hlist.contract_plain]
        refine ⟨String.ofList (raw.toList ++ ',' :: writePair contract name), ?_⟩
        rw [parseContracts_append hplain, addPair_writePair hlist, hraw]
        rfl

/-- **The setting**: the last pair of a contract names it, and the tables that settings
stand for are those whose ids and names are not blank, are trimmed and hold no
separator; only an id may hold a colon. -/
theorem contracts_setting :
    (∀ raw contract, (parseContracts raw).lookup contract =
      Register.lastSet (nameIn contract) (raw.toList.splitOn ',')) ∧
    ∀ contracts : Table String String, (∃ raw, parseContracts raw = contracts) ↔
      ∀ contract name, contracts.lookup contract = some name → Listable contract name := by
  refine ⟨parseContracts_lookup, fun contracts => ⟨?_, exists_setting contracts⟩⟩
  rintro ⟨raw, rfl⟩ contract name h
  exact listable_of_lookup h

end VerdantBackend
