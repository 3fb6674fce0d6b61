import VerdantBackend.Indexer.Projections
import VerdantBackend.Routes.ProjectionPages

/-!
# Counter ids

The id of a projection row is its counter, rendered. Rendered counters are parsed
back; of the ids that a request may name a counter with, those are the key of its row
that are bare or spelled as they are rendered.
-/

namespace VerdantBackend

/-- What a counter counts: the rows of a projection. -/
inductive CounterKind where
  | verification
  | escrow
  | financing
deriving DecidableEq

namespace CounterKind

/-- What the indexer renders a counter of the projection under. -/
def idKind : CounterKind → String
  | verification => VERIFICATION_PREFIX
  | escrow => ESCROW_PREFIX
  | financing => FINANCING_PREFIX

def label : CounterKind → String
  | verification => "verification"
  | escrow => "escrow"
  | financing => "financing"

def normalizeId : CounterKind → String → Except AppError String
  | verification => normalizeVerificationId
  | escrow => normalizeEscrowId
  | financing => normalizeFinancingId

theorem normalizeId_eq (p : CounterKind) (input : String) :
    p.normalizeId input = VerdantBackend.normalizeId p.idKind p.label input := by
  cases p <;> rfl

end CounterKind

/-! ## Round trip -/

/-- `va:verification`, `va:escrow` and `va:financing` differ in the fourth character. -/
theorem CounterKind.take_idKind_inj {p q : CounterKind}
    (h : p.idKind.toList.take 4 = q.idKind.toList.take 4) : p = q := by
  cases p <;> cases q <;> first | rfl | exact absurd h (by decide)

theorem CounterKind.take_idKind_append (p : CounterKind) (s : String) :
    (p.idKind ++ s).toList.take 4 = p.idKind.toList.take 4 := by
  rw [String.toList_append, List.take_append_of_le_length]
  cases p <;> decide

/-- Another kind of id is not parsed. -/
theorem parseCounterId_of_ne {p q : CounterKind} (h : p ≠ q) (counter : Nat) :
    parseCounterId (counterId p.idKind counter) q.idKind = none := by
  have hstrip : stripPrefix (q.idKind ++ ":") (counterId p.idKind counter) = none := by
    cases hrest : stripPrefix (q.idKind ++ ":") (counterId p.idKind counter) with
    | none => rfl
    | some rest =>
        have heq := stripPrefix_eq_some_iff.mp hrest
        rw [counterId, String.append_assoc, String.append_assoc] at heq
        refine absurd (CounterKind.take_idKind_inj ?_) h
        rw [← p.take_idKind_append, heq, q.take_idKind_append]
  rw [parseCounterId, hstrip, Option.bind_none]

/-- **Counter ids round-trip**, and those of one projection are no ids of another. -/
theorem counterId_roundTrip :
    (∀ (kind : String) (counter : UInt64),
      parseCounterId (counterId kind counter.toNat) kind = some counter.toNat) ∧
    (∀ kind : String, Function.Injective fun counter : UInt64 => counterId kind counter.toNat) ∧
    ∀ p q : CounterKind, p ≠ q → ∀ counter counter' : UInt64,
      parseCounterId (counterId p.idKind counter.toNat) q.idKind = none ∧
        counterId p.idKind counter.toNat ≠ counterId q.idKind counter'.toNat := by
  have hround : ∀ (kind : String) (counter : UInt64),
      parseCounterId (counterId kind counter.toNat) kind = some counter.toNat :=
    fun kind counter => parseCounterId_counterId kind counter.toNat_lt
  refine ⟨hround, ?_, ?_⟩
  · intro kind c d h
    exact UInt64.toNat_inj.mp (counterId_injective kind h)
  · intro p q hpq c d
    have hnone := parseCounterId_of_ne hpq c.toNat
    refine ⟨hnone, ?_⟩
    intro heq
    rw [heq, hround] at hnone
    cases hnone

theorem verification_id_is_no_escrow_id :
    parseCounterId (counterId VERIFICATION_PREFIX 42) ESCROW_PREFIX = none ∧
      counterId VERIFICATION_PREFIX 42 ≠ counterId ESCROW_PREFIX 42 :=
  counterId_roundTrip.2.2 .verification .escrow CounterKind.noConfusion 42 42

/-! ## Lookup

A path names a counter by an id with the prefix or by a bare number, either of them
anything that is parsed as a `u64`. -/

/-- The counter that a spelling stands for. -/
def denoted (kind input : String) : Option Nat :=
  parseU64 ((stripPrefix (kind ++ ":") input).getD input)

/-- What follows a prefix is written as counters are rendered: at least twelve digits,
and more only if the first is not zero. -/
def CanonicallySpelled (kind input : String) : Prop :=
  ∀ counterPart ∈ stripPrefix (kind ++ ":") input, Decimal.Padded 12 counterPart.toList

instance (kind input : String) : Decidable (CanonicallySpelled kind input) :=
  inferInstanceAs (Decidable (∀ _ ∈ stripPrefix (kind ++ ":") input, _))

section
variable {kind label input key : String} {n : Nat}

/-- The only numeral of a counter that is its own rendering. -/
theorem toList_eq_padded12_iff {s : String} (h : parseU64 s = some n) :
    s.toList = padded12 n ↔ Decimal.Padded 12 s.toList := by
  obtain ⟨digits, hs, hne, hdigits, hn, _⟩ := parseU64_eq_some_iff.mp h
  rw [hn]
  rcases hs with hs | hs
  · rw [hs, Decimal.padded_iff (by decide) hdigits]
    rfl
  · -- no rendering has a sign
    have hsign : ¬ Decimal.Digits s.toList := fun hd => absurd (hs ▸ hd).head (by decide)
    refine iff_of_false (fun heq => hsign ?_) fun hp => hsign hp.digits
    rw [heq]
    exact Decimal.digits_padded 12 _

theorem normalizeId_of_prefixed {counterPart : String}
    (h : stripPrefix (kind ++ ":") input = some counterPart) :
    normalizeId kind label input = .ok key ↔
      key = input ∧ (parseU64 counterPart).isSome = true := by
  simp only [normalizeId, h]
  split
  · next hs =>
    rw [Except.ok.injEq, eq_comm, and_iff_left hs]
  · next hs =>
    refine iff_of_false ?_ fun hkey => hs hkey.2
    intro hkey
    cases hkey

theorem normalizeId_of_bare (h : stripPrefix (kind ++ ":") input = none) :
    normalizeId kind label input = .ok key ↔
      ∃ n, parseU64 input = some n ∧ key = counterId kind n := by
  rw [normalizeId, h]
  cases parseU64 input <;> simp [eq_comm]

/-- An accepted spelling stands for a counter. -/
theorem exists_denoted (h : normalizeId kind label input = .ok key) :
    ∃ n, denoted kind input = some n := by
  cases hpre : stripPrefix (kind ++ ":") input with
  | none =>
      obtain ⟨n, hn, _⟩ := (normalizeId_of_bare hpre).mp h
      exact ⟨n, by rw [denoted, hpre, Option.getD_none, hn]⟩
  | some counterPart =>
      obtain ⟨n, hn⟩ := Option.isSome_iff_exists.mp ((normalizeId_of_prefixed hpre).mp h).2
      exact ⟨n, by rw [denoted, hpre, Option.getD_some, hn]⟩

/-- **Canonical keys**: the key is that of the row exactly for a canonical spelling. -/
theorem key_eq_counterId_iff (h : normalizeId kind label input = .ok key)
    (hn : denoted kind input = some n) :
    key = counterId kind n ↔ CanonicallySpelled kind input := by
  rw [CanonicallySpelled]
  cases hpre : stripPrefix (kind ++ ":") input with
  | none =>
      obtain ⟨m, hm, rfl⟩ := (normalizeId_of_bare hpre).mp h
      rw [denoted, hpre, Option.getD_none, hm] at hn
      cases hn
      simp
  | some counterPart =>
      obtain ⟨rfl, _⟩ := (normalizeId_of_prefixed hpre).mp h
      rw [denoted, hpre, Option.getD_some] at hn
      have hkey := stripPrefix_eq_some_iff.mp hpre
      simp only [Option.mem_some_iff, forall_eq']
      rw [← toList_eq_padded12_iff hn, hkey, counterId,
        String.append_right_inj, ← String.toList_inj, String.toList_ofList]

/-- A key that is not that of the row is the text itself. -/
theorem key_eq_input (h : normalizeId kind label input = .ok key)
    (hc : ¬ CanonicallySpelled kind input) : key = input := by
  cases hpre : stripPrefix (kind ++ ":") input with
  | none => exact absurd (by simp [CanonicallySpelled, hpre]) hc
  | some counterPart => exact ((normalizeId_of_prefixed hpre).mp h).1

theorem normalizeId_idempotent (h : normalizeId kind label input = .ok key) :
    normalizeId kind label key = .ok key := by
  cases hpre : stripPrefix (kind ++ ":") input with
  | none =>
      -- the rendering of a counter is a prefixed spelling
      obtain ⟨n, hn, rfl⟩ := (normalizeId_of_bare hpre).mp h
      obtain ⟨_, _, _, _, _, hlt⟩ := parseU64_eq_some_iff.mp hn
      have hstrip : stripPrefix (kind ++ ":") (counterId kind n) =
          some (String.ofList (padded12 n)) := stripPrefix_eq_some_iff.mpr rfl
      rw [normalizeId_of_prefixed hstrip, parseU64_padded12 hlt]
      exact ⟨rfl, rfl⟩
  | some counterPart =>
      obtain ⟨rfl, _⟩ := (normalizeId_of_prefixed hpre).mp h
      exact h

/-- Two spellings of one counter that are accepted. -/
theorem keys_eq_iff {other key' : String} (h : normalizeId kind label input = .ok key)
    (h' : normalizeId kind label other = .ok key') (hsame : denoted kind other = denoted kind input) :
    key' = key ↔ other = input ∨
      CanonicallySpelled kind other ∧ CanonicallySpelled kind input := by
  obtain ⟨n, hn⟩ := exists_denoted h
  have hn' := hsame.trans hn
  have hkey := key_eq_counterId_iff h hn
  have hkey' := key_eq_counterId_iff h' hn'
  constructor
  · intro heq
    by_cases hc : CanonicallySpelled kind input
    · exact .inr ⟨hkey'.mp (heq.trans (hkey.mpr hc)), hc⟩
    · -- then neither is canonical, and each key is its own text
      have hc' : ¬ CanonicallySpelled kind other := fun hc' =>
        hc (hkey.mp (heq.symm.trans (hkey'.mpr hc')))
      exact .inl ((key_eq_input h' hc').symm.trans (heq.trans (key_eq_input h hc)))
  · intro hor
    rcases hor with rfl | ⟨hc', hc⟩
    · exact Except.ok.inj (h'.symm.trans h)
    · exact (hkey'.mpr hc').trans (hkey.mpr hc).symm

end

/-! The rows that the get handlers find. -/

theorem hasNul_digits {digits : List Char} (h : Decimal.Digits digits) :
    hasNul (String.ofList digits) = false := by
  rw [hasNul_eq_false_iff, String.toList_ofList]
  intro hc
  exact absurd (h _ hc) (by decide)

theorem hasNul_counterId (p : CounterKind) (n : Nat) : hasNul (counterId p.idKind n) = false := by
  have hkind : hasNul (p.idKind ++ ":") = false := by cases p <;> decide
  rw [counterId, hasNul_append, hkind]
  exact hasNul_digits (Decimal.digits_padded 12 n)

section
variable {ρ : Type} {id : ρ → String} {table : ProjectionTable id} {row : ρ}

/-- A key finds the row that has it. -/
theorem selectRow_eq {key : String} (hnul : hasNul key = false) (hrow : row ∈ table.rows)
    (hkey : id row = key) : selectRow table key = .ok (some row) := by
  rw [selectRow, hnul, if_neg Bool.false_ne_true]
  cases hfind : table.rows.find? fun row => id row = key with
  | none => exact absurd hkey (by simpa using List.find?_eq_none.mp hfind row hrow)
  | some found =>
      have hfound : id found = key := by simpa using List.find?_some hfind
      have hmem := List.mem_of_find?_eq_some hfind
      rw [List.inj_on_of_nodup_map table.ids hmem hrow (hfound.trans hkey.symm)]

theorem id_of_selectRow {key : String} (h : selectRow table key = .ok (some row)) :
    id row = key := by
  rw [selectRow] at h
  split at h
  · cases h
  · simpa using List.find?_some (Except.ok.inj h)

/-- **The row of a counter** is found by the accepted spellings that are canonical. -/
theorem getHandler_finds_iff {p : CounterKind} {label input key : String} {n : Nat}
    (h : p.normalizeId input = .ok key) (hn : denoted p.idKind input = some n)
    (hrow : row ∈ table.rows) (hid : id row = counterId p.idKind n) :
    getHandler label p.normalizeId table input = .ok row ↔
      CanonicallySpelled p.idKind input := by
  have hkey := key_eq_counterId_iff ((p.normalizeId_eq input).symm.trans h) hn
  rw [← hkey, getHandler, h]
  constructor
  · intro hget
    cases hselect : selectRow table key with
    | error e => simp [hselect, bind, Except.bind, Except.mapError] at hget
    | ok found =>
        cases found with
        | none => simp [hselect, bind, Except.bind, Except.mapError] at hget
        | some found =>
            simp only [hselect, bind, Except.bind, Except.mapError, Except.ok.injEq] at hget
            subst hget
            exact (id_of_selectRow hselect).symm.trans hid
  · intro heq
    subst heq
    have hselect := selectRow_eq (hasNul_counterId p n) hrow hid
    simp only [bind, Except.bind, hselect, Except.mapError]

end

/-- **Id lookup**: an accepted spelling is looked up under the rendering of its counter
exactly when it is bare or canonical, and two spellings of a counter under one key
exactly when both are, or they are one text; what is looked up is its own spelling. -/
theorem id_lookup_canonical_iff (p : CounterKind) {input key : String}
    (h : p.normalizeId input = .ok key) :
    (∃ n, denoted p.idKind input = some n ∧
      (key = counterId p.idKind n ↔ CanonicallySpelled p.idKind input)) ∧
    (∀ other key', p.normalizeId other = .ok key' →
      denoted p.idKind other = denoted p.idKind input →
      (key' = key ↔ other = input ∨
        CanonicallySpelled p.idKind other ∧ CanonicallySpelled p.idKind input)) ∧
    p.normalizeId key = .ok key := by
  simp only [p.normalizeId_eq] at h ⊢
  obtain ⟨n, hn⟩ := exists_denoted h
  refine ⟨⟨n, hn, key_eq_counterId_iff h hn⟩, ?_, normalizeId_idempotent h⟩
  intro other key' h' hsame
  exact keys_eq_iff h h' hsame

/-- A bare counter with a sign and a zero. -/
theorem signed_counter_is_canonical :
    (∃ n, denoted "va:escrow" "+011" = some n ∧
      ("va:escrow:000000000011" = counterId "va:escrow" n ↔
        CanonicallySpelled "va:escrow" "+011")) ∧
    (∀ other key', normalizeEscrowId other = .ok key' →
      denoted "va:escrow" other = denoted "va:escrow" "+011" →
      (key' = "va:escrow:000000000011" ↔ other = "+011" ∨
        CanonicallySpelled "va:escrow" other ∧ CanonicallySpelled "va:escrow" "+011")) ∧
    normalizeEscrowId "va:escrow:000000000011" = .ok "va:escrow:000000000011" :=
  @id_lookup_canonical_iff .escrow "+011" _ (by decide)

/-- The id of a verification, without its zeros: its row is not found. -/
theorem unpadded_id_is_another_key :
    normalizeVerificationId "va:verification:42" = .ok "va:verification:42" ∧
    denoted VERIFICATION_PREFIX "va:verification:42" = some 42 ∧
    "va:verification:42" ≠ counterId VERIFICATION_PREFIX 42 ∧
    getVerificationHandler twoVerifications "va:verification:42" =
      .error (.notFound "verification va:verification:42 not found") ∧
    getVerificationHandler twoVerifications "42" =
      .ok (verificationAt (counterId VERIFICATION_PREFIX 42) 100) := by
  decide

end VerdantBackend
