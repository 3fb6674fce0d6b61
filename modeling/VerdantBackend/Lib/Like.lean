import Mathlib.Data.List.Infix

/-!
# LIKE patterns

`%` stands for any run of characters, `_` for any one, and `\` takes its meaning from
the next. A text between two `%` is a search for that text exactly when it holds none
of the three.
-/

namespace Like

inductive Token where
  | run
  | one
  | lit (c : Char)
deriving DecidableEq

def Token.ofChar (c : Char) : Token :=
  if c = '%' then .run else if c = '_' then .one else .lit c

/-- The tokens of a pattern; there are none if it ends with the escape character. -/
def parse : List Char → Option (List Token)
  | [] => some []
  | ['\\'] => none
  | '\\' :: c :: p => (parse p).map (.lit c :: ·)
  | c :: p => (parse p).map (Token.ofChar c :: ·)

/-- A text is one that the tokens stand for. -/
def accepts : List Token → List Char → Bool
  | [], t => t.isEmpty
  | .run :: p, t => t.tails.any (accepts p)
  | .one :: p, t => t.head?.isSome && accepts p t.tail
  | .lit c :: p, t => t.head? = some c && accepts p t.tail

/-- `text LIKE pattern`, or an error. -/
def like (pattern text : List Char) : Option Bool := (parse pattern).map (accepts · text)

/-! ## What tokens stand for -/

section
variable {p : List Token} {t : List Char}

theorem accepts_run : accepts (.run :: p) t = true ↔ ∃ u v, t = u ++ v ∧ accepts p v = true := by
  rw [accepts, List.any_eq_true]
  constructor
  · intro h
    obtain ⟨v, hv, hp⟩ := h
    obtain ⟨u, hu⟩ := (List.mem_tails v t).mp hv
    exact ⟨u, v, hu.symm, hp⟩
  · intro h
    obtain ⟨u, v, rfl, hp⟩ := h
    exact ⟨v, (List.mem_tails v _).mpr (List.suffix_append u v), hp⟩

theorem accepts_one : accepts (.one :: p) t = true ↔ ∃ c v, t = c :: v ∧ accepts p v = true := by
  cases t <;> simp [accepts]

theorem accepts_lit {c : Char} :
    accepts (.lit c :: p) t = true ↔ ∃ v, t = c :: v ∧ accepts p v = true := by
  cases t with
  | nil => simp [accepts]
  | cons d t =>
      rw [accepts, List.head?_cons, List.tail_cons, Bool.and_eq_true, decide_eq_true_eq]
      constructor
      · intro h
        exact ⟨t, by rw [Option.some.inj h.1], h.2⟩
      · intro h
        obtain ⟨v, heq, hv⟩ := h
        cases heq
        exact ⟨rfl, hv⟩

theorem accepts_lits {q : List Char} :
    accepts (q.map .lit ++ p) t = true ↔ ∃ v, t = q ++ v ∧ accepts p v = true := by
  induction q generalizing t with
  | nil => simp
  | cons c q ih =>
      rw [List.map_cons, List.cons_append, accepts_lit]
      constructor
      · intro h
        obtain ⟨v, rfl, hv⟩ := h
        obtain ⟨w, rfl, hw⟩ := ih.mp hv
        exact ⟨w, rfl, hw⟩
      · intro h
        obtain ⟨w, rfl, hw⟩ := h
        exact ⟨q ++ w, rfl, ih.mpr ⟨w, rfl, hw⟩⟩

/-- Characters between two runs: a substring. -/
theorem accepts_contains {q : List Char} :
    accepts (.run :: (q.map .lit ++ [.run])) t = true ↔ q <:+: t := by
  rw [accepts_run]
  constructor
  · intro h
    obtain ⟨u, v, rfl, hv⟩ := h
    obtain ⟨w, rfl, _⟩ := accepts_lits.mp hv
    exact ⟨u, w, List.append_assoc u q w⟩
  · intro h
    obtain ⟨u, w, rfl⟩ := h
    refine ⟨u, q ++ w, List.append_assoc u q w, accepts_lits.mpr ⟨w, rfl, ?_⟩⟩
    rw [accepts_run]
    exact ⟨w, [], (List.append_nil w).symm, rfl⟩

end

/-- Another alphabet. -/
def Token.map (f : Char → Char) : Token → Token
  | .run => .run
  | .one => .one
  | .lit c => .lit (f c)

/-! ## Patterns of a search -/

def wildcards : List Char := ['%', '_', '\\']

/-- No character has a meaning of its own. -/
def Plain (q : List Char) : Prop := ∀ c ∈ q, c ∉ wildcards

instance (q : List Char) : Decidable (Plain q) :=
  List.decidableBAll (fun c => c ∉ wildcards) q

/-- A shortest text that tokens stand for. -/
def shortest (x : Char) : List Token → List Char
  | [] => []
  | .run :: p => shortest x p
  | .one :: p => x :: shortest x p
  | .lit c :: p => c :: shortest x p

theorem accepts_shortest (x : Char) (p : List Token) : accepts p (shortest x p) = true := by
  induction p with
  | nil => rfl
  | cons token p ih =>
      cases token with
      | run => exact accepts_run.mpr ⟨[], _, rfl, ih⟩
      | one => exact accepts_one.mpr ⟨x, _, rfl, ih⟩
      | lit c => exact accepts_lit.mpr ⟨_, rfl, ih⟩

theorem shortest_map (f : Char → Char) (x : Char) (p : List Token) :
    shortest (f x) (p.map (Token.map f)) = (shortest x p).map f := by
  induction p with
  | nil => rfl
  | cons token p ih => cases token <;> simp [shortest, Token.map, ih]

theorem parse_cons {c : Char} (h : c ≠ '\\') (p : List Char) :
    parse (c :: p) = (parse p).map (Token.ofChar c :: ·) := by
  rw [parse]
  · intro hc
    exact absurd hc h
  · intro d p' hc
    exact absurd hc h

/-- **The pattern of a search**, after the first `%`. A shortest text that it stands for
is no longer than what is searched, and is another unless that is plain. -/
theorem parse_concat_run (q : List Char) :
    ∃ p, parse (q ++ ['%']) = some p ∧ ∀ x, (shortest x p).length ≤ q.length ∧
      (x ≠ '_' → shortest x p = q → Plain q) := by
  induction q using parse.induct with
  | case1 => exact ⟨[.run], rfl, fun x => ⟨le_rfl, fun _ _ => by decide⟩⟩
  | case2 =>
      -- the escape character takes the meaning from the last `%`
      refine ⟨[.lit '%'], rfl, fun x => ⟨le_rfl, fun _ h => ?_⟩⟩
      exact absurd (List.cons.inj h).1 (by decide)
  | case3 c q ih =>
      obtain ⟨p, hp, hshort⟩ := ih
      refine ⟨.lit c :: p, ?_, fun x => ?_⟩
      · rw [List.cons_append, List.cons_append, parse, hp, Option.map_some]
      · have hle := (hshort x).1
        simp only [shortest, List.length_cons]
        refine ⟨by omega, fun _ h => ?_⟩
        have hlen := congrArg List.length h
        simp only [List.length_cons] at hlen
        omega
  | case4 c q h₁ h₂ ih =>
      have hc : c ≠ '\\' := by
        rintro rfl
        cases q with
        | nil => exact h₁ rfl rfl
        | cons d q => exact h₂ d q rfl rfl
      obtain ⟨p, hp, hshort⟩ := ih
      refine ⟨.ofChar c :: p, ?_, fun x => ?_⟩
      · rw [List.cons_append, parse_cons hc, hp, Option.map_some]
      · obtain ⟨hle, hplain⟩ := hshort x
        rw [Token.ofChar, List.length_cons]
        split
        · -- a run may be empty
          rw [shortest]
          refine ⟨by omega, fun _ h => ?_⟩
          have hlen := congrArg List.length h
          rw [List.length_cons] at hlen
          omega
        split
        · next hone =>
          rw [shortest, List.length_cons, hone]
          exact ⟨by omega, fun hx h => absurd (List.cons.inj h).1 hx⟩
        · next hrun hone =>
          rw [shortest, List.length_cons]
          refine ⟨by omega, fun hx h => ?_⟩
          refine List.forall_mem_cons.mpr ⟨?_, hplain hx (List.cons.inj h).2⟩
          simp [wildcards, hrun, hone, hc]

/-- A plain text is searched as it is. -/
theorem Plain.parse_concat_run {q : List Char} (h : Plain q) :
    parse (q ++ ['%']) = some (q.map .lit ++ [.run]) := by
  induction q with
  | nil => rfl
  | cons c q ih =>
      obtain ⟨hc, hq⟩ := List.forall_mem_cons.mp h
      simp only [wildcards, List.mem_cons, List.not_mem_nil, or_false, not_or] at hc
      rw [List.cons_append, parse_cons hc.2.2, ih hq, Option.map_some, Token.ofChar, if_neg hc.1,
        if_neg hc.2.1]
      rfl

/-! ## Case -/

/-- How a character is put in lower case; the wildcards are no letters. -/
structure Lowering where
  lower : Char → Char
  wild : ∀ c, ∀ w ∈ wildcards, lower c = w ↔ c = w

namespace Lowering

variable (L : Lowering)

/-- `text ILIKE pattern`: both are put in lower case. -/
def ilike (pattern text : List Char) : Option Bool :=
  like (pattern.map L.lower) (text.map L.lower)

/-- A substring, whatever the case. -/
def Contains (q text : List Char) : Prop := q.map L.lower <:+: text.map L.lower

instance (q text : List Char) : Decidable (L.Contains q text) :=
  inferInstanceAs (Decidable (_ <:+: _))

/-- A search: the text between two `%`. -/
def searchPattern (q : List Char) : List Char := '%' :: (q ++ ['%'])

variable {L} {q : List Char}

theorem lower_wild {w : Char} (h : w ∈ wildcards) : L.lower w = w := (L.wild w w h).mpr rfl

theorem plain_map : Plain (q.map L.lower) ↔ Plain q := by
  simp only [Plain, List.forall_mem_map]
  refine forall₂_congr fun c _ => not_congr ⟨fun hw => ?_, fun hw => ?_⟩
  · rwa [(L.wild c _ hw).mp rfl]
  · rwa [lower_wild hw]

theorem ofChar_lower (c : Char) : Token.ofChar (L.lower c) = (Token.ofChar c).map L.lower := by
  simp only [Token.ofChar, L.wild c '%' (by decide), L.wild c '_' (by decide)]
  split
  · rfl
  split
  · rfl
  · rfl

/-- Lower case keeps the meaning of a pattern. -/
theorem parse_map (p : List Char) :
    parse (p.map L.lower) = (parse p).map (List.map (Token.map L.lower)) := by
  have hesc : L.lower '\\' = '\\' := lower_wild (by decide)
  induction p using parse.induct with
  | case1 => rfl
  | case2 =>
      rw [List.map_singleton, hesc]
      rfl
  | case3 c p ih =>
      rw [List.map_cons, List.map_cons, hesc, parse, parse, ih, Option.map_map, Option.map_map]
      rfl
  | case4 c p h₁ h₂ ih =>
      have hc : c ≠ '\\' := by
        rintro rfl
        cases p with
        | nil => exact h₁ rfl rfl
        | cons d p => exact h₂ d p rfl rfl
      have hlower : L.lower c ≠ '\\' := fun h => hc ((L.wild c _ (by decide)).mp h)
      rw [List.map_cons, parse_cons hlower, parse_cons hc, ih, ofChar_lower, Option.map_map,
        Option.map_map]
      rfl

theorem map_searchPattern : (searchPattern q).map L.lower = searchPattern (q.map L.lower) := by
  simp [searchPattern, lower_wild (L := L) (w := '%') (by decide)]

theorem parse_searchPattern (q : List Char) :
    parse (searchPattern q) = (parse (q ++ ['%'])).map (.run :: ·) :=
  parse_cons (by decide) _

/-- A plain text is searched for. -/
theorem ilike_of_plain (h : Plain q) (t : List Char) :
    L.ilike (searchPattern q) t = some (decide (L.Contains q t)) := by
  rw [ilike, map_searchPattern, like, parse_searchPattern, (plain_map.mpr h).parse_concat_run,
    Option.map_some, Option.map_some, Option.some.injEq, Bool.eq_iff_iff, decide_eq_true_iff]
  exact accepts_contains

/-- With a wildcard, something is found that is no substring. -/
theorem exists_of_not_plain (h : ¬ Plain q) :
    ∃ t, L.ilike (searchPattern q) t = some true ∧ ¬ L.Contains q t := by
  obtain ⟨p, hp, _⟩ := parse_concat_run q
  obtain ⟨p', hp', hshort⟩ := parse_concat_run (q.map L.lower)
  have hmap : p' = p.map (Token.map L.lower) := by
    have hlower := L.parse_map (q ++ ['%'])
    rw [hp, List.map_append, List.map_singleton, lower_wild (by decide), hp'] at hlower
    exact Option.some.inj hlower
  have htext : (shortest 'x' p).map L.lower = shortest (L.lower 'x') p' := by
    rw [hmap, shortest_map]
  refine ⟨shortest 'x' p, ?_, ?_⟩
  · rw [ilike, map_searchPattern, like, parse_searchPattern, hp', htext, Option.map_some,
      Option.map_some, Option.some.injEq]
    exact accepts_run.mpr ⟨[], _, rfl, accepts_shortest _ _⟩
  · intro hcontains
    obtain ⟨hle, hplain⟩ := hshort (L.lower 'x')
    rw [Contains, htext] at hcontains
    have hone : L.lower 'x' ≠ '_' := fun hx => by
      have hx' := (L.wild 'x' '_' (by decide)).mp hx
      exact absurd hx' (by decide)
    have heq := hcontains.eq_of_length (hcontains.length_le.antisymm hle)
    exact h (plain_map.mp (hplain hone heq.symm))

/-- **Substring search.** A search finds the texts that contain what is searched exactly
when that is plain. -/
theorem finds_substrings_iff :
    (∀ t, L.ilike (searchPattern q) t = some true ↔ L.Contains q t) ↔ Plain q := by
  constructor
  · intro h
    by_contra hplain
    obtain ⟨t, hfound, hnot⟩ := L.exists_of_not_plain hplain
    exact hnot ((h t).mp hfound)
  · intro h t
    rw [ilike_of_plain h, Option.some.injEq, decide_eq_true_iff]

end Lowering

theorem toNat_toLower (c : Char) :
    c.toLower.toNat = if 65 ≤ c.toNat ∧ c.toNat ≤ 90 then c.toNat + 32 else c.toNat := by
  have hiff : (c.val ≥ 'A'.val ∧ c.val ≤ 'Z'.val) ↔ 65 ≤ c.toNat ∧ c.toNat ≤ 90 := by
    rw [ge_iff_le, UInt32.le_iff_toNat_le, UInt32.le_iff_toNat_le]
    rfl
  by_cases h : 65 ≤ c.toNat ∧ c.toNat ≤ 90
  · have hlower : c.toLower.toNat = (c.val + 32).toNat :=
      congrArg Char.toNat (dif_pos (hiff.mpr h))
    have hc : c.val.toNat = c.toNat := rfl
    have hshift : (32 : UInt32).toNat = 32 := rfl
    rw [hlower, if_pos h, UInt32.toNat_add, hshift, hc]
    exact Nat.mod_eq_of_lt (by omega)
  · have hsame : c.toLower = c := dif_neg (mt hiff.mp h)
    rw [hsame, if_neg h]

/-- ASCII letters alone have a case. -/
def Lowering.ascii : Lowering where
  lower := Char.toLower
  wild := by
    intro c w hw
    have hletter : ¬ (65 ≤ w.toNat ∧ w.toNat ≤ 90) ∧ ¬ (97 ≤ w.toNat ∧ w.toNat ≤ 122) := by
      simp only [wildcards, List.mem_cons, List.not_mem_nil, or_false] at hw
      rcases hw with rfl | rfl | rfl <;> decide
    rw [← Char.toNat_inj, ← Char.toNat_inj, toNat_toLower]
    split <;> omega

end Like
