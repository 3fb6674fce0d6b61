import Mathlib.Data.List.TakeWhile
import Mathlib.Logic.Function.Iterate
import VerdantBackend.Indexer.Identity

/-!
# Replay of farmer rows

A pass over identity events may be run again over the rows it left. Everything a
registration sets comes out the same. A marker is appended, and appended again
by every pass, unless a registration of the address resets the list on the way;
and a ledger that came before the registration that created the row is set only
from the second pass on.
-/

namespace VerdantBackend

open Prog

/-! ## Appending to a JSON value -/

def Json.isArr : Json → Bool
  | .arr _ => true
  | _ => false

def Json.isObj : Json → Bool
  | .obj _ => true
  | _ => false

/-- How many elements the value brings to an array. -/
def Json.width : Json → Nat
  | .arr items => items.length
  | _ => 1

theorem Json.isArr_concat {m d : Json} (h : ¬ (m.isObj = true ∧ d.isObj = true)) :
    (m.concat d).isArr = true := by
  cases m <;> cases d <;> simp_all [Json.concat, Json.isArr, Json.isObj]

theorem Json.width_concat {m d : Json} (h : ¬ (m.isObj = true ∧ d.isObj = true)) :
    (m.concat d).width = m.width + d.width := by
  cases m <;> cases d <;> simp_all [Json.concat, Json.width, Json.isObj] <;> omega

theorem Json.not_isObj {m : Json} (h : m.isArr = true) : m.isObj = false := by
  cases m <;> simp_all [Json.isArr, Json.isObj]

theorem Json.eq_nil_of_width {d : Json} (h : d.width = 0) : d = .arr [] := by
  cases d with
  | arr items => rw [List.eq_nil_of_length_eq_zero h]
  | _ => simp [Json.width] at h

theorem Json.concat_nil {m : Json} (h : m.isArr = true) : m.concat (.arr []) = m := by
  cases m <;> simp_all [Json.concat, Json.isArr]

/-- `markers || d` for one payload after the other. -/
def Json.concatAll (m : Json) (marks : List Json) : Json := marks.foldl Json.concat m

theorem Json.concatAll_array {m : Json} (h : m.isArr = true) (marks : List Json) :
    (m.concatAll marks).isArr = true ∧
      (m.concatAll marks).width = m.width + (marks.map Json.width).sum := by
  induction marks generalizing m with
  | nil => exact ⟨h, by simp [Json.concatAll]⟩
  | cons d marks ih =>
      have hobj : ¬ (m.isObj = true ∧ d.isObj = true) := by simp [Json.not_isObj h]
      obtain ⟨harr, hwidth⟩ := ih (Json.isArr_concat hobj)
      refine ⟨harr, hwidth.trans ?_⟩
      rw [Json.width_concat hobj, List.map_cons, List.sum_cons]
      omega

/-- Objects apart, some payload makes an array of it. -/
theorem Json.concatAll_isArr {m : Json} {marks : List Json} (hne : marks ≠ [])
    (h : ¬ (m.isObj = true ∧ ∀ d ∈ marks, d.isObj = true)) :
    (m.concatAll marks).isArr = true := by
  induction marks generalizing m with
  | nil => exact absurd rfl hne
  | cons d marks ih =>
      by_cases hobj : m.isObj = true ∧ d.isObj = true
      · have hrest : ¬ ∀ x ∈ marks, x.isObj = true := by
          intro hall
          refine h ⟨hobj.1, fun x hx => ?_⟩
          rcases List.mem_cons.mp hx with rfl | hx
          · exact hobj.2
          · exact hall x hx
        refine ih ?_ fun hall => hrest hall.2
        intro hnil
        subst hnil
        exact hrest fun x hx => absurd hx List.not_mem_nil
      · exact (Json.concatAll_array (Json.isArr_concat hobj) marks).1

/-! Objects merge, and merging the same ones again changes nothing. -/

/-- The members under keys that none of the objects has. -/
def outside (ys : List (List (String × Json))) (xs : List (String × Json)) :
    List (String × Json) :=
  xs.filter fun x => ys.all fun y => (y.lookup x.1).isNone

def mergeAll (xs : List (String × Json)) (ys : List (List (String × Json))) :
    List (String × Json) :=
  ys.foldl (fun xs y => xs.filter (fun x => (y.lookup x.1).isNone) ++ y) xs

theorem mergeAll_eq (xs : List (String × Json)) (ys : List (List (String × Json))) :
    mergeAll xs ys = outside ys xs ++ mergeAll [] ys := by
  induction ys generalizing xs with
  | nil => simp [mergeAll, outside]
  | cons y ys ih =>
      have hxs : mergeAll xs (y :: ys) =
          mergeAll (xs.filter (fun x => (y.lookup x.1).isNone) ++ y) ys := rfl
      have hnil : mergeAll [] (y :: ys) = mergeAll y ys := rfl
      rw [hxs, hnil, ih, ih y]
      simp only [outside, List.filter_append, List.filter_filter, List.all_cons, List.append_assoc,
        Bool.and_comm]

theorem lookup_isSome_of_mem {y : List (String × Json)} {p : String × Json} (h : p ∈ y) :
    (y.lookup p.1).isSome = true := by
  induction y with
  | nil => cases h
  | cons q y ih =>
      rw [List.lookup_cons]
      split
      · rfl
      · next hne =>
        rcases List.mem_cons.mp h with rfl | h
        · simp at hne
        · exact ih h

theorem mem_mergeAll_nil {ys : List (List (String × Json))} {p : String × Json}
    (h : p ∈ mergeAll [] ys) : ∃ y ∈ ys, (y.lookup p.1).isSome = true := by
  induction ys using List.reverseRecOn with
  | nil => cases h
  | append_singleton ys y ih =>
      rw [mergeAll, List.foldl_append] at h
      rcases List.mem_append.mp h with h | h
      · obtain ⟨y', hy', hsome⟩ := ih (List.mem_filter.mp h).1
        exact ⟨y', List.mem_append_left _ hy', hsome⟩
      · exact ⟨y, by simp, lookup_isSome_of_mem h⟩

theorem outside_mergeAll_nil (ys : List (List (String × Json))) :
    outside ys (mergeAll [] ys) = [] := by
  rw [outside, List.filter_eq_nil_iff]
  intro p hp hall
  obtain ⟨y, hy, hsome⟩ := mem_mergeAll_nil hp
  have hnone := List.all_eq_true.mp hall y hy
  rw [Option.isNone_iff_eq_none] at hnone
  rw [hnone] at hsome
  cases hsome

theorem mergeAll_mergeAll (xs : List (String × Json)) (ys : List (List (String × Json))) :
    mergeAll (mergeAll xs ys) ys = mergeAll xs ys := by
  rw [mergeAll_eq (mergeAll xs ys), mergeAll_eq xs]
  congr 1
  rw [outside, List.filter_append, ← outside, ← outside, outside_mergeAll_nil, List.append_nil,
    outside, outside, List.filter_filter]
  simp only [Bool.and_self]

theorem Json.concatAll_obj (xs : List (String × Json)) {marks : List Json}
    (h : ∀ d ∈ marks, d.isObj = true) :
    ∃ ys, marks = ys.map Json.obj ∧ (Json.obj xs).concatAll marks = .obj (mergeAll xs ys) := by
  induction marks generalizing xs with
  | nil => exact ⟨[], rfl, rfl⟩
  | cons d marks ih =>
      have hd := h d List.mem_cons_self
      cases d with
      | obj y =>
          have hrest : ∀ x ∈ marks, x.isObj = true := fun x hx => h x (List.mem_cons_of_mem _ hx)
          obtain ⟨ys, rfl, hys⟩ := ih (xs.filter (fun x => (y.lookup x.1).isNone) ++ y) hrest
          exact ⟨y :: ys, rfl, hys⟩
      | _ => simp [Json.isObj] at hd

/-- **Appending the same payloads again** changes nothing exactly when they bring
no element, or merge into an object. -/
theorem Json.concatAll_concatAll_iff (m : Json) (marks : List Json) :
    (m.concatAll marks).concatAll marks = m.concatAll marks ↔
      (∀ d ∈ marks, d = .arr []) ∨ (m.isObj = true ∧ ∀ d ∈ marks, d.isObj = true) := by
  by_cases hobj : m.isObj = true ∧ ∀ d ∈ marks, d.isObj = true
  · refine iff_of_true ?_ (.inr hobj)
    cases m with
    | obj xs =>
        obtain ⟨ys, rfl, hys⟩ := Json.concatAll_obj xs hobj.2
        obtain ⟨ys', hmap, hys'⟩ := Json.concatAll_obj (mergeAll xs ys) hobj.2
        have heq : ys = ys' := List.map_injective_iff.mpr (fun _ _ h => Json.obj.inj h) hmap
        rw [hys, hys', ← heq, mergeAll_mergeAll]
    | _ => simp [Json.isObj] at hobj
  · rw [or_iff_left hobj]
    by_cases hne : marks = []
    · subst hne
      simp [Json.concatAll]
    have harr := Json.concatAll_isArr hne hobj
    obtain ⟨_, hwidth⟩ := Json.concatAll_array harr marks
    constructor
    · intro heq d hd
      rw [heq] at hwidth
      have hsum : (marks.map Json.width).sum = 0 := by omega
      exact Json.eq_nil_of_width
        (List.sum_eq_zero_iff_forall_eq_nat.mp hsum _ (List.mem_map_of_mem hd))
    · intro hnil
      refine List.foldlRecOn (motive := fun m' => m' = m.concatAll marks) marks _ rfl ?_
      intro m' hm' d hd
      rw [hm', hnil d hd]
      exact Json.concat_nil harr

/-! ## The columns of one row -/

/-- The last value that the events bring. -/
def lastOf (f : IdentityChange → Option Int) (cs : List IdentityChange) : Option Int :=
  cs.foldl (fun old c => f c <|> old) none

theorem foldl_lastOf (f : IdentityChange → Option Int) (cs : List IdentityChange)
    (old : Option Int) : cs.foldl (fun old c => f c <|> old) old = (lastOf f cs <|> old) := by
  induction cs using List.reverseRecOn with
  | nil => simp [lastOf]
  | append_singleton cs c ih =>
      rw [lastOf, List.foldl_append, List.foldl_append, ih, lastOf]
      cases hf : f c <;> simp [hf]

theorem lastOf_cons (f : IdentityChange → Option Int) (c : IdentityChange)
    (cs : List IdentityChange) : lastOf f (c :: cs) = (lastOf f cs <|> f c) := by
  rw [lastOf, List.foldl_cons, foldl_lastOf]
  simp

theorem lastOf_append (f : IdentityChange → Option Int) (l₁ l₂ : List IdentityChange) :
    lastOf f (l₁ ++ l₂) = (lastOf f l₂ <|> lastOf f l₁) := by
  rw [lastOf, List.foldl_append, foldl_lastOf]
  rfl

theorem lastOf_eq_none_iff {f : IdentityChange → Option Int} {cs : List IdentityChange} :
    lastOf f cs = none ↔ ∀ c ∈ cs, f c = none := by
  induction cs with
  | nil => simp [lastOf]
  | cons c cs ih => simp [lastOf_cons, ih, and_comm]

/-- A row there is, through the events. -/
def FarmerRow.through (row : FarmerRow) (cs : List IdentityChange) : FarmerRow :=
  cs.foldl (fun row c => c.onRow row) row

def markersThrough (markers : Json) (cs : List IdentityChange) : Json :=
  cs.foldl (fun markers c => c.markersAfter markers) markers

theorem FarmerRow.through_eq (row : FarmerRow) (cs : List IdentityChange) :
    row.through cs =
      { row with
        registered := cs.any IdentityChange.isRegistered || row.registered
        createdLedger := lastOf IdentityChange.created cs <|> row.createdLedger
        updatedLedger := lastOf IdentityChange.updated cs <|> row.updatedLedger
        verificationMarkers := markersThrough row.verificationMarkers cs } := by
  induction cs generalizing row with
  | nil => simp [through, lastOf, markersThrough]
  | cons c cs ih =>
      rw [through, List.foldl_cons, ← through, ih]
      simp only [IdentityChange.onRow, List.any_cons, lastOf_cons, markersThrough, List.foldl_cons,
        FarmerRow.mk.injEq, true_and, and_true]
      refine ⟨?_, ?_, ?_⟩
      · cases cs.any IdentityChange.isRegistered <;> simp
      · cases lastOf IdentityChange.created cs <;> simp
      · cases lastOf IdentityChange.updated cs <;> simp

theorem foldl_after_some (row : FarmerRow) (cs : List IdentityChange) :
    cs.foldl (fun row c => c.after row) (some row) = some (row.through cs) := by
  induction cs generalizing row with
  | nil => rfl
  | cons c cs ih => exact ih (c.onRow row)

theorem foldl_after_none {cs : List IdentityChange} (h : ∀ c ∈ cs, c.isRegistered = false) :
    cs.foldl (fun row c => c.after row) none = none := by
  induction cs with
  | nil => rfl
  | cons c cs ih =>
      have hc := h c List.mem_cons_self
      cases c with
      | registered a data => cases hc
      | metadataUpdated a data | markerSet a data =>
          exact ih fun x hx => h x (List.mem_cons_of_mem _ hx)

theorem first_registered (cs : List IdentityChange) :
    (∀ c ∈ cs, c.isRegistered = false) ∨
      ∃ l₁ c l₂, cs = l₁ ++ c :: l₂ ∧ c.isRegistered = true ∧
        ∀ x ∈ l₁, x.isRegistered = false := by
  induction cs with
  | nil => exact .inl (by simp)
  | cons c cs ih =>
      cases hc : c.isRegistered with
      | true => exact .inr ⟨[], c, cs, rfl, hc, by simp⟩
      | false =>
          rcases ih with h | ⟨l₁, d, l₂, rfl, hd, h⟩
          · exact .inl (by simpa [hc] using h)
          · exact .inr ⟨c :: l₁, d, l₂, rfl, hd, by simpa [hc] using h⟩

/-! ## Markers -/

/-- The payload of a marker event. -/
def IdentityChange.mark : IdentityChange → Option Json
  | .markerSet _ data => some data
  | _ => none

/-- A registration resets the list. -/
theorem markersThrough_of_registered {cs : List IdentityChange}
    (h : ∃ c ∈ cs, c.isRegistered = true) (m m' : Json) :
    markersThrough m cs = markersThrough m' cs := by
  refine Replay.foldl_eq_of_overwrite (R := fun _ _ => True)
    (W := fun c => IdentityChange.isRegistered c = true) (fun _ _ _ _ _ => trivial) ?_ trivial
    (.inl h)
  intro c _ b b' hc _
  cases c with
  | registered a data => rfl
  | metadataUpdated a data | markerSet a data => cases hc

/-- Without one, every payload is appended. -/
theorem markersThrough_of_not_registered {cs : List IdentityChange}
    (h : ∀ c ∈ cs, c.isRegistered = false) (m : Json) :
    markersThrough m cs = m.concatAll (cs.filterMap IdentityChange.mark) := by
  induction cs generalizing m with
  | nil => rfl
  | cons c cs ih =>
      have ih := fun m => ih (fun x hx => h x (List.mem_cons_of_mem _ hx)) m
      have hc := h c List.mem_cons_self
      cases c with
      | registered a data => cases hc
      | metadataUpdated a data => exact ih m
      | markerSet a data => exact ih (m.concat data)

/-! ## One row, twice -/

/-- What makes a second pass over the events change nothing, from the row as it
was before the first. -/
def RowReplaySafe (cs : List IdentityChange) : Option FarmerRow → Prop
  | some row => (∀ c ∈ cs, c.isRegistered = false) →
      (∀ d ∈ cs.filterMap IdentityChange.mark, d = .arr []) ∨
        (row.verificationMarkers.isObj = true ∧
          ∀ d ∈ cs.filterMap IdentityChange.mark, d.isObj = true)
  | none => ∀ l₁ c l₂, cs = l₁ ++ c :: l₂ → c.isRegistered = true →
      (∀ x ∈ l₁, x.isRegistered = false) → (∃ x ∈ l₁, x.updated ≠ none) →
        ∃ x ∈ c :: l₂, x.updated ≠ none

/-- Through events once more, a row changes only in ledger and markers. -/
theorem FarmerRow.through_through_iff (row : FarmerRow) (cs : List IdentityChange) :
    (row.through cs).through cs = row.through cs ↔
      markersThrough (markersThrough row.verificationMarkers cs) cs =
        markersThrough row.verificationMarkers cs := by
  rw [through_eq (row.through cs), through_eq row]
  simp only [FarmerRow.mk.injEq, true_and]
  constructor
  · intro h
    obtain ⟨_, _, _, h⟩ := h
    exact h
  · intro h
    refine ⟨?_, ?_, ?_, h⟩
    · cases cs.any IdentityChange.isRegistered <;> simp
    · cases lastOf IdentityChange.created cs <;> simp
    · cases lastOf IdentityChange.updated cs <;> simp

/-- A row that was there. -/
theorem row_twice_iff (row : FarmerRow) (cs : List IdentityChange) :
    (row.through cs).through cs = row.through cs ↔ RowReplaySafe cs (some row) := by
  rw [FarmerRow.through_through_iff, RowReplaySafe]
  by_cases hreg : ∃ c ∈ cs, c.isRegistered = true
  · refine iff_of_true (markersThrough_of_registered hreg _ _) fun h => ?_
    obtain ⟨c, hc, hc'⟩ := hreg
    rw [h c hc] at hc'
    cases hc'
  · have hnone : ∀ c ∈ cs, c.isRegistered = false := by
      intro c hc
      rw [← Bool.not_eq_true]
      exact fun h => hreg ⟨c, hc, h⟩
    rw [markersThrough_of_not_registered hnone, markersThrough_of_not_registered hnone,
      Json.concatAll_concatAll_iff]
    exact ⟨fun h _ => h, fun h => h hnone⟩

theorem IdentityChange.newRow_of_registered {c : IdentityChange} (h : c.isRegistered = true) :
    ∃ row, c.newRow = some row ∧ row.registered = true ∧ row.createdLedger = c.created ∧
      row.updatedLedger = c.updated ∧
      ∀ m, c.markersAfter m = row.verificationMarkers := by
  cases c with
  | registered a data => exact ⟨_, rfl, rfl, rfl, rfl, fun m => rfl⟩
  | metadataUpdated a data | markerSet a data => cases h

theorem created_of_not_registered {cs : List IdentityChange}
    (h : ∀ c ∈ cs, c.isRegistered = false) : lastOf IdentityChange.created cs = none := by
  refine lastOf_eq_none_iff.mpr fun c hc => ?_
  have hreg := h c hc
  cases c with
  | registered a data => cases hreg
  | metadataUpdated a data | markerSet a data => rfl

/-- A row that the events create: the ledgers before that come in only the second
time. -/
theorem row_created_twice_iff {l₁ l₂ : List IdentityChange} {c : IdentityChange} {row : FarmerRow}
    (hc : c.isRegistered = true) (hrow : c.newRow = some row)
    (hl₁ : ∀ x ∈ l₁, x.isRegistered = false) :
    (row.through l₂).through (l₁ ++ c :: l₂) = row.through l₂ ↔
      ((∃ x ∈ l₁, x.updated ≠ none) → ∃ x ∈ c :: l₂, x.updated ≠ none) := by
  obtain ⟨row', hrow', hreg, hcreated, hupdated, hmarkers⟩ := c.newRow_of_registered hc
  rw [hrow] at hrow'
  cases hrow'
  have hm : markersThrough (markersThrough row.verificationMarkers l₂) (l₁ ++ c :: l₂) =
      markersThrough row.verificationMarkers l₂ := by
    rw [markersThrough, List.foldl_append, List.foldl_cons, hmarkers]
    rfl
  have hu : (lastOf IdentityChange.updated (l₁ ++ c :: l₂) <|>
        (lastOf IdentityChange.updated l₂ <|> row.updatedLedger)) =
      (lastOf IdentityChange.updated l₂ <|> row.updatedLedger) ↔
        ((∃ x ∈ l₁, x.updated ≠ none) → ∃ x ∈ c :: l₂, x.updated ≠ none) := by
    rw [lastOf_append, hupdated, ← lastOf_cons]
    have h₁ : (∃ x ∈ l₁, x.updated ≠ none) ↔ lastOf IdentityChange.updated l₁ ≠ none := by
      simp [lastOf_eq_none_iff]
    have h₂ : (∃ x ∈ c :: l₂, x.updated ≠ none) ↔
        lastOf IdentityChange.updated (c :: l₂) ≠ none := by
      simp [lastOf_eq_none_iff, -List.mem_cons]
    rw [h₁, h₂]
    cases lastOf IdentityChange.updated (c :: l₂) <;>
      cases lastOf IdentityChange.updated l₁ <;> simp
  rw [FarmerRow.through_eq (row.through l₂), FarmerRow.through_eq row, ← hu]
  simp only [FarmerRow.mk.injEq, true_and, hm, and_true]
  constructor
  · intro h
    obtain ⟨_, _, h⟩ := h
    exact h
  · intro h
    refine ⟨by simp [hreg], ?_, h⟩
    rw [lastOf_append, created_of_not_registered hl₁, lastOf_cons, hcreated]
    cases lastOf IdentityChange.created l₂ <;> cases c.created <;> simp

/-- **One row, twice**: whether the events once more change what they left. -/
theorem foldl_twice_iff (cs : List IdentityChange) (row : Option FarmerRow) :
    cs.foldl (fun row c => c.after row) (cs.foldl (fun row c => c.after row) row) =
        cs.foldl (fun row c => c.after row) row ↔ RowReplaySafe cs row := by
  cases row with
  | some row =>
      rw [foldl_after_some, foldl_after_some, Option.some.injEq]
      exact row_twice_iff row cs
  | none =>
      have hsplit : ∀ l₁ c l₂, cs = l₁ ++ c :: l₂ → c.isRegistered = true →
          (∀ x ∈ l₁, x.isRegistered = false) →
          (cs.foldl (fun row c => c.after row) (cs.foldl (fun row c => c.after row) none) =
              cs.foldl (fun row c => c.after row) none ↔
            ((∃ x ∈ l₁, x.updated ≠ none) → ∃ x ∈ c :: l₂, x.updated ≠ none)) := by
        intro l₁ c l₂ heq hc hl₁
        obtain ⟨row, hrow, _⟩ := c.newRow_of_registered hc
        have honce : cs.foldl (fun row c => c.after row) none = some (row.through l₂) := by
          rw [heq, List.foldl_append, foldl_after_none hl₁, List.foldl_cons, IdentityChange.after,
            hrow, foldl_after_some]
        rw [honce, foldl_after_some, Option.some.injEq, heq]
        exact row_created_twice_iff hc hrow hl₁
      constructor
      · intro h l₁ c l₂ heq hc hl₁
        exact (hsplit l₁ c l₂ heq hc hl₁).mp h
      · intro h
        rcases first_registered cs with hnone | ⟨l₁, c, l₂, heq, hc, hl₁⟩
        · rw [foldl_after_none hnone, foldl_after_none hnone]
        · exact (hsplit l₁ c l₂ heq hc hl₁).mpr (h l₁ c l₂ heq hc hl₁)

/-! ## Passes -/

/-- The projection loop over the history, only the database refusing statements. -/
def projectionPass (uuid : String → Option String) (source : EventSource)
    (history : List ChainEvent) (db : Db) : Db :=
  ((applyEvents history).run (exec uuid source) db).2

/-- The registration of an address without a row whose id another row has. -/
def refused (farmers : Table String FarmerRow) (e : ChainEvent) : Bool :=
  match identityNamed e with
  | some (.registered address _) =>
    decide (farmers.lookup address = none ∧
      ∃ entry ∈ farmers.entries, entry.2.id = farmerId address)
  | _ => false

/-- The part of the history that a pass applies. -/
def appliedPart (farmers : Table String FarmerRow) (history : List ChainEvent) :
    List ChainEvent :=
  history.takeWhile fun e => !refused farmers e

/-- The columns an identity event may set. -/
def FarmerRow.chainColumns (row : FarmerRow) : Json × Option Int × Option Int × Bool :=
  (row.verificationMarkers, row.createdLedger, row.updatedLedger, row.registered)

/-- **The exact condition**: an address whose row was there and that no event
registers has only markers that bring nothing, or merge; and no ledger comes
before the registration that creates a row unless another comes with it or
later. -/
def IdentityReplaySafe (farmers : Table String FarmerRow) (history : List ChainEvent) : Prop :=
  ∀ address, RowReplaySafe (identityOf address (appliedPart farmers history))
    (farmers.lookup address)

/-- Every event is an identity event with a string address as first topic. -/
def IdentityHistory (history : List ChainEvent) : Prop :=
  ∀ e ∈ history, ∃ c, identityNamed e = some c

section
variable {uuid : String → Option String} {source : EventSource}

/-- Some other row has the id of the address. -/
def Taken (farmers : Table String FarmerRow) (address : String) : Prop :=
  farmers.lookup address = none ∧
    ∃ a row, farmers.lookup a = some row ∧ row.id = farmerId address

theorem taken_iff {farmers : Table String FarmerRow} {address : String} :
    Taken farmers address ↔ farmers.lookup address = none ∧
      ∃ entry ∈ farmers.entries, entry.2.id = farmerId address := by
  refine and_congr_right fun _ => ?_
  constructor
  · intro h
    obtain ⟨a, row, hrow, hid⟩ := h
    exact ⟨⟨a, row⟩, Finmap.lookup_eq_some_iff.mp hrow, hid⟩
  · intro h
    obtain ⟨⟨a, row⟩, hmem, hid⟩ := h
    exact ⟨a, row, Finmap.lookup_eq_some_iff.mpr hmem, hid⟩

theorem refused_iff {farmers : Table String FarmerRow} {e : ChainEvent} :
    refused farmers e = true ↔
      ∃ address data, identityNamed e = some (.registered address data) ∧
        Taken farmers address := by
  rw [refused]
  split
  · next address data h =>
    rw [decide_eq_true_eq, ← taken_iff, h]
    constructor
    · intro ht
      exact ⟨address, data, rfl, ht⟩
    · intro h
      obtain ⟨_, _, heq, ht⟩ := h
      cases heq
      exact ht
  · next h =>
    constructor
    · intro hf
      cases hf
    · intro h
      obtain ⟨address, data, heq, _⟩ := h
      exact absurd heq (h address data)

/-- The row an applied event leaves keeps the id, and a new one has its own. -/
theorem IdentityChange.after_id {c : IdentityChange} {old : Option FarmerRow} {row : FarmerRow}
    (h : c.after old = some row) :
    (∃ r, old = some r ∧ row.id = r.id) ∨
      (old = none ∧ c.isRegistered = true ∧ row.id = farmerId c.address) := by
  cases old with
  | some r =>
      cases h
      exact .inl ⟨r, rfl, rfl⟩
  | none =>
      cases c with
      | registered a data =>
          cases h
          exact .inr ⟨rfl, rfl, rfl⟩
      | metadataUpdated a data | markerSet a data => cases h

/-- An applied identity event, at every address. -/
theorem lookup_of_applied {db db' : Db} {e : ChainEvent} {c : IdentityChange} {consumed : Bool}
    (h : applyEvent uuid db e = .ok (consumed, db')) (he : identityNamed e = some c) (a : String) :
    db'.farmers.lookup a =
      if c.address = a then c.after (db.farmers.lookup a) else db.farmers.lookup a := by
  rw [applyEvent_identity h a, RowChange.step, identityChange, he]
  rfl

/-- **Taken ids stay taken, and free ones free.** -/
theorem taken_of_applied {db db' : Db} {e : ChainEvent} {c : IdentityChange} {consumed : Bool}
    (h : applyEvent uuid db e = .ok (consumed, db')) (he : identityNamed e = some c)
    (hfree : refused db.farmers e = false) (a : String) :
    Taken db'.farmers a ↔ Taken db.farmers a := by
  have hlook := lookup_of_applied h he
  -- a registration that is applied takes no id
  have hnot : c.isRegistered = true → ¬ Taken db.farmers c.address := by
    intro hc ht
    have href : refused db.farmers e = true := by
      cases c with
      | registered address data => exact refused_iff.mpr ⟨address, data, he, ht⟩
      | metadataUpdated address data | markerSet address data => cases hc
    rw [hfree] at href
    cases href
  constructor
  · intro h
    obtain ⟨hnone, b, row, hrow, hid⟩ := h
    have hnone' : db.farmers.lookup a = none := by
      rw [hlook] at hnone
      split at hnone
      · cases hl : db.farmers.lookup a with
        | none => rfl
        | some r =>
            rw [hl] at hnone
            cases hnone
      · exact hnone
    rw [hlook] at hrow
    split at hrow
    · next hb =>
      subst hb
      rcases IdentityChange.after_id hrow with ⟨r, hr, hrid⟩ | ⟨hl, hc, hrid⟩
      · exact ⟨hnone', _, r, hr, hrid.symm.trans hid⟩
      · -- the new row has the id of its own address
        have ha : c.address = a := farmerId_injective (hrid.symm.trans hid)
        subst ha
        rw [hlook, if_pos rfl, hl] at hnone
        cases c with
        | registered address data => cases hnone
        | metadataUpdated address data | markerSet address data => cases hc
    · exact ⟨hnone', b, row, hrow, hid⟩
  · intro h
    obtain ⟨hnone, b, row, hrow, hid⟩ := h
    refine ⟨?_, b, ?_⟩
    · rw [hlook]
      by_cases ha : c.address = a
      · rw [if_pos ha, hnone]
        cases c with
        | registered address data =>
            refine absurd ⟨?_, b, row, hrow, ?_⟩ (hnot rfl)
            · rw [ha]
              exact hnone
            · rw [ha]
              exact hid
        | metadataUpdated address data | markerSet address data => rfl
      · rw [if_neg ha, hnone]
    · rw [hlook, hrow]
      by_cases hb : c.address = b
      · rw [if_pos hb]
        exact ⟨_, rfl, hid⟩
      · rw [if_neg hb]
        exact ⟨row, rfl, hid⟩

theorem refused_congr {farmers farmers' : Table String FarmerRow}
    (h : ∀ a, Taken farmers' a ↔ Taken farmers a) : refused farmers' = refused farmers := by
  funext e
  rw [Bool.eq_iff_iff, refused_iff, refused_iff]
  simp only [h]

variable (uuid) in
/-- An identity event is applied unless it is refused. -/
theorem identity_applied_iff {db : Db} {e : ChainEvent} {c : IdentityChange}
    (he : identityNamed e = some c) :
    (∃ db', applyEvent uuid db e = .ok (true, db')) ↔ refused db.farmers e = false := by
  have hd := identityNamed_eq_some.mp he
  have hbuild : (∃ db', applyEvent uuid db e = .ok (true, db')) ↔
      ∃ t, c.build db.farmers = .ok t := by
    constructor
    · intro h
      obtain ⟨db', h⟩ := h
      rcases applyEvent_ok_iff.mp h with ⟨hnone, _⟩ | ⟨c', hc', _, hb⟩
      · rw [hd] at hnone
        cases hnone
      · rw [hd] at hc'
        cases hc'
        obtain ⟨t, ht, _⟩ := Change.build_ok_iff.mp hb
        exact ⟨t, ht⟩
    · intro h
      obtain ⟨t, ht⟩ := h
      exact ⟨_, applyEvent_ok_iff.mpr (.inr ⟨_, hd, rfl, Change.build_ok_iff.mpr ⟨t, ht, rfl⟩⟩)⟩
  rw [hbuild, ← Bool.not_eq_true, refused_iff]
  cases c with
  | registered address data =>
      rw [IdentityChange.build, upsertIdentityFarmer]
      split
      · next h =>
        exact iff_of_false (by simp) fun hn => hn ⟨address, data, he, taken_iff.mpr h⟩
      · next h =>
        refine iff_of_true ⟨_, rfl⟩ ?_
        intro h
        obtain ⟨a, d, he', ht⟩ := h
        rw [he] at he'
        cases he'
        exact h (taken_iff.mp ht)
  | metadataUpdated address data | markerSet address data =>
      refine iff_of_true ((Table.update_isOk_iff _ _ _).mpr fun row _ => ⟨_, rfl⟩) ?_
      intro h
      obtain ⟨a, d, he', _⟩ := h
      rw [he] at he'
      cases he'

/-- The events that were applied one after the other were none of them refused
to begin with. -/
theorem applyAll_identity {history : List ChainEvent} (hkind : IdentityHistory history)
    {db db' : Db} (h : applyAll uuid db history = .ok db') :
    (∀ e ∈ history, refused db.farmers e = false) ∧
      refused db'.farmers = refused db.farmers := by
  induction history using List.reverseRecOn generalizing db' with
  | nil =>
      cases h
      exact ⟨by simp, rfl⟩
  | append_singleton l e ih =>
      obtain ⟨db₁, h₁, h₂⟩ := Replay.foldlM_append_ok h
      obtain ⟨hfree, href⟩ := ih (fun x hx => hkind x (by simp [hx])) h₁
      obtain ⟨db₂, h₂, hnil⟩ := Replay.foldlM_cons_ok h₂
      cases hnil
      obtain ⟨consumed, h₂⟩ := applied_ok_iff.mp h₂
      obtain ⟨c, he⟩ := hkind e (by simp)
      have hconsumed : consumed = true := by
        rcases applyEvent_ok_iff.mp h₂ with ⟨hnone, _⟩ | ⟨_, _, htrue, _⟩
        · rw [identityNamed_eq_some.mp he] at hnone
          cases hnone
        · exact htrue
      subst hconsumed
      have hfree₁ := (identity_applied_iff uuid he).mp ⟨_, h₂⟩
      refine ⟨?_, (refused_congr (taken_of_applied h₂ he hfree₁)).trans href⟩
      intro x hx
      rcases List.mem_append.mp hx with hx | hx
      · exact hfree x hx
      · rw [List.mem_singleton.mp hx, ← href]
        exact hfree₁

/-- **What a pass applies**: the events before the first refused one, whose
verdict the pass itself does not change. -/
theorem projectionPass_spec {history : List ChainEvent} (hkind : IdentityHistory history)
    (db : Db) :
    applyAll uuid db (appliedPart db.farmers history) =
        .ok (projectionPass uuid source history db) ∧
      refused (projectionPass uuid source history db).farmers = refused db.farmers := by
  have hout := outcome_run (exec uuid source) (applyEvents history) db
  rcases applyEvents_outcome hout with ⟨_, _, happ⟩ | ⟨l₁, e, l₂, err, heq, _, _, happ, hF⟩
  · obtain ⟨hfree, href⟩ := applyAll_identity hkind happ
    refine ⟨?_, href⟩
    rw [appliedPart, List.takeWhile_eq_self_iff.mpr fun e he => by simp [hfree e he]]
    exact happ
  · subst heq
    obtain ⟨hfree, href⟩ := applyAll_identity (fun x hx => hkind x (by simp [hx])) happ
    refine ⟨?_, href⟩
    have hrefused : refused db.farmers e = true := by
      obtain ⟨c, he⟩ := hkind e (by simp)
      rw [← href, ← Bool.not_eq_false]
      intro hfalse
      obtain ⟨db', hok⟩ := (identity_applied_iff uuid he).mpr hfalse
      have hbad := hok.symm.trans hF
      cases hbad
    rw [appliedPart, List.takeWhile_append_of_pos fun x hx => by simp [hfree x hx],
      List.takeWhile_cons_of_neg (by simp [hrefused]), List.append_nil]
    exact happ

/-- A row after a pass. -/
theorem projectionPass_lookup {history : List ChainEvent} (hkind : IdentityHistory history)
    (db : Db) (address : String) :
    (projectionPass uuid source history db).farmers.lookup address =
      (identityOf address (appliedPart db.farmers history)).foldl (fun row c => c.after row)
        (db.farmers.lookup address) := by
  rw [← replay_identity]
  exact (identities uuid).applyAll (projectionPass_spec hkind db).1 address

/-- A second pass applies the same events. -/
theorem appliedPart_again {history : List ChainEvent} (hkind : IdentityHistory history)
    (db : Db) :
    appliedPart (projectionPass uuid source history db).farmers history =
      appliedPart db.farmers history := by
  rw [appliedPart, (projectionPass_spec hkind db).2, appliedPart]

theorem FarmerRow.through_eq_iff {row : FarmerRow} {cs : List IdentityChange} :
    (row.through cs).chainColumns = row.chainColumns ↔ row.through cs = row := by
  rw [through_eq]
  obtain ⟨⟩ := row
  simp only [chainColumns, FarmerRow.mk.injEq, Prod.mk.injEq, true_and]
  tauto

/-- **Identity replay, exactly**: any number of passes leaves the chain columns
that one pass leaves. -/
theorem identity_replay_iff {history : List ChainEvent} (hkind : IdentityHistory history)
    (db : Db) :
    (∀ n address,
        (((projectionPass uuid source history)^[n + 1] db).farmers.lookup address).map
          FarmerRow.chainColumns =
        ((projectionPass uuid source history db).farmers.lookup address).map
          FarmerRow.chainColumns) ↔
      IdentityReplaySafe db.farmers history := by
  have htwice : ∀ address,
      (projectionPass uuid source history (projectionPass uuid source history db)).farmers.lookup
          address = (projectionPass uuid source history db).farmers.lookup address ↔
        RowReplaySafe (identityOf address (appliedPart db.farmers history))
          (db.farmers.lookup address) := by
    intro address
    rw [projectionPass_lookup hkind, appliedPart_again hkind, projectionPass_lookup hkind]
    exact foldl_twice_iff _ _
  constructor
  · intro h address
    refine (htwice address).mp ?_
    have hcols := h 1 address
    rw [Function.iterate_succ_apply, Function.iterate_one,
      projectionPass_lookup hkind (projectionPass uuid source history db),
      appliedPart_again hkind] at hcols
    rw [projectionPass_lookup hkind (projectionPass uuid source history db),
      appliedPart_again hkind]
    cases hrow : (projectionPass uuid source history db).farmers.lookup address with
    | none =>
        rw [hrow, Option.map_none, Option.map_eq_none_iff] at hcols
        exact hcols
    | some row =>
        rw [hrow, foldl_after_some, Option.map_some, Option.map_some, Option.some.injEq] at hcols
        rw [foldl_after_some, FarmerRow.through_eq_iff.mp hcols]
  · intro h n address
    congr 1
    have hagain : (projectionPass uuid source history (projectionPass uuid source history
        db)).farmers = (projectionPass uuid source history db).farmers :=
      Finmap.ext_lookup fun a => (htwice a).mpr (h a)
    -- one more pass at the front
    have hiter : ((projectionPass uuid source history)^[n + 1] db).farmers =
        (projectionPass uuid source history db).farmers := by
      induction n with
      | zero => rfl
      | succ n ih =>
          refine Finmap.ext_lookup fun a => ?_
          rw [Function.iterate_succ_apply', projectionPass_lookup hkind, ih,
            ← projectionPass_lookup hkind, hagain]
    rw [hiter]

end

/-! A farmer registered over REST, whose registration event the history holds or
not, and a marker. -/

def identityEvent (eventName : String) (ledger : Int) (data : Json) : ChainEvent :=
  ⟨"CI", "identity", eventName, ledger, 0, 0, .arr [.str "GA"], data⟩

def farmerRegistered : ChainEvent :=
  identityEvent "FarmerRegistered" 100000
    (.obj [("address", .str "GA"), ("created_ledger", .int 100000), ("metadata_hash", .str "0f"),
      ("updated_ledger", .int 100000), ("verification_markers", .arr [])])

def organicMarker : Json :=
  .obj [("issued_ledger", .int 100050), ("issuer", .str "GI"), ("kind", .str "organic")]

def markerSet : ChainEvent := identityEvent "VerificationMarkerSet" 100050 organicMarker

/-- The row `register_farmer` leaves. -/
def restRow : FarmerRow where
  id := "va:farmer:GA"
  metadata := .obj [("name", .str "Ana")]
  metadataHash := "0f"
  registered := true
  createdLedger := some 100000
  updatedLedger := some 100000
  verificationMarkers := .arr []

def restDb : Db := { Db.empty with farmers := (∅ : Table String FarmerRow).insert "GA" restRow }

theorem identity_replay_registered :
    IdentityHistory [farmerRegistered, markerSet] ∧ ∀ n address,
      (((projectionPass noUuid (sampleSource 0) [farmerRegistered, markerSet])^[n + 1]
        restDb).farmers.lookup address).map FarmerRow.chainColumns =
      ((projectionPass noUuid (sampleSource 0) [farmerRegistered, markerSet]
        restDb).farmers.lookup address).map FarmerRow.chainColumns := by
  have hkind : IdentityHistory [farmerRegistered, markerSet] := by
    intro e he
    rcases List.mem_cons.mp he with rfl | he
    · exact ⟨_, rfl⟩
    · rw [List.mem_singleton.mp he]
      exact ⟨_, rfl⟩
  refine ⟨hkind, (identity_replay_iff hkind restDb).mpr fun address => ?_⟩
  have happlied : appliedPart restDb.farmers [farmerRegistered, markerSet] =
      [farmerRegistered, markerSet] := rfl
  rw [happlied]
  by_cases ha : "GA" = address
  · subst ha
    rw [show restDb.farmers.lookup "GA" = some restRow from rfl]
    intro hnone
    have hreg := hnone (.registered "GA" farmerRegistered.data) List.mem_cons_self
    cases hreg
  · have hother : identityOf address [farmerRegistered, markerSet] = [] := by
      have hne : ∀ e ∈ [farmerRegistered, markerSet], ∀ c, identityNamed e = some c →
          c.address ≠ address := by
        intro e he c hc
        rcases List.mem_cons.mp he with rfl | he
        · cases hc
          exact ha
        · rw [List.mem_singleton.mp he] at hc
          cases hc
          exact ha
      rw [identityOf_cons_of_ne (hne _ (by simp)), identityOf_cons_of_ne (hne _ (by simp))]
      rfl
    have hnone : restDb.farmers.lookup address = none :=
      (Finmap.lookup_insert_of_ne _ (Ne.symm ha)).trans (Finmap.lookup_empty _)
    rw [hother, hnone]
    intro l₁ c l₂ heq
    simp at heq

/-- The markers of a row, and how many there are. -/
def markerCount (db : Db) (address : String) : Option Nat :=
  (db.farmers.lookup address).map fun row => row.verificationMarkers.width

/-- **A marker of a farmer registered over REST is appended again** by every pass. -/
theorem identity_replay_doubles_marker :
    IdentityHistory [markerSet] ∧
      ¬ (∀ n address,
        (((projectionPass noUuid (sampleSource 0) [markerSet])^[n + 1]
          restDb).farmers.lookup address).map FarmerRow.chainColumns =
        ((projectionPass noUuid (sampleSource 0) [markerSet]
          restDb).farmers.lookup address).map FarmerRow.chainColumns) ∧
      markerCount (projectionPass noUuid (sampleSource 0) [markerSet] restDb) "GA" = some 1 ∧
      markerCount ((projectionPass noUuid (sampleSource 0) [markerSet])^[2] restDb) "GA" =
        some 2 := by
  refine ⟨?_, ?_, by decide, by decide⟩
  · intro e he
    rw [List.mem_singleton.mp he]
    exact ⟨_, rfl⟩
  · intro h
    have hcols := congrArg (Option.map fun columns => columns.1.width) (h 1 "GA")
    revert hcols
    decide

end VerdantBackend
