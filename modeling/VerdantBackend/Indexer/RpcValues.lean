import Mathlib.Data.List.Forall2
import VerdantBackend.Indexer.Rpc

/-!
# Values of RPC events

`scval_to_json` fails only on a map with a key that is neither symbol nor string,
anywhere in the value; such an event is skipped.
-/

namespace VerdantBackend

variable {P : RpcPackages}

/-! ## Parts of a value -/

namespace ScVal

/-- The items of a vector and the values of a map. -/
def parts : ScVal → List ScVal
  | .vec (some items) => items
  | .map (some entries) => entries.map Prod.snd
  | _ => []

theorem sizeOf_lt_of_mem_parts {v w : ScVal} (h : w ∈ v.parts) : sizeOf w < sizeOf v := by
  cases v with
  | vec items =>
      cases items with
      | none => cases h
      | some l =>
          have hl : sizeOf w < sizeOf l := List.sizeOf_lt_of_mem h
          simp only [vec.sizeOf_spec, Option.some.sizeOf_spec]
          omega
  | map entries =>
      cases entries with
      | none => cases h
      | some l =>
          obtain ⟨e, he, rfl⟩ := List.mem_map.mp h
          have hl : sizeOf e < sizeOf l := List.sizeOf_lt_of_mem he
          have he : sizeOf e = 1 + sizeOf e.1 + sizeOf e.2 := rfl
          simp only [map.sizeOf_spec, Option.some.sizeOf_spec]
          omega
  | bool _ | void | error _ | u32 _ | i32 _ | u64 _ | i64 _ | timepoint _ | duration _
  | u128 _ _ | i128 _ _ | u256 _ _ _ _ | i256 _ _ _ _ | bytes _ | string _ | symbol _
  | address _ | contractInstance | ledgerKeyContractInstance | ledgerKeyNonce _ => cases h

/-- Induction over the parts. -/
theorem parts_induction {motive : ScVal → Prop}
    (step : ∀ v, (∀ w ∈ v.parts, motive w) → motive v) (v : ScVal) : motive v :=
  step v fun w _ => parts_induction step w
termination_by sizeOf v
decreasing_by exact sizeOf_lt_of_mem_parts ‹_›

/-- `p` holds of the value and of every value in it, at any depth. -/
inductive All (p : ScVal → Prop) : ScVal → Prop where
  | intro {v : ScVal} : p v → (∀ w ∈ v.parts, All p w) → All p v

theorem all_iff {p : ScVal → Prop} {v : ScVal} :
    v.All p ↔ p v ∧ ∀ w ∈ v.parts, w.All p := by
  constructor
  · intro h
    cases h with
    | intro hv hparts => exact ⟨hv, hparts⟩
  · intro h
    exact .intro h.1 h.2

theorem all_of_leaf {p : ScVal → Prop} {v : ScVal} (hv : p v) (hleaf : v.parts = []) :
    v.All p := by
  refine .intro hv ?_
  rw [hleaf]
  simp

end ScVal

/-! ## The loops of the conversion -/

theorem except_bind_ok {α β ε : Type} {x : Except ε α} {f : α → Except ε β} {b : β} :
    (x >>= f) = .ok b ↔ ∃ a, x = .ok a ∧ f a = .ok b := by
  cases x with
  | error e => simp [Bind.bind, Except.bind]
  | ok a => simp [Bind.bind, Except.bind]

/-- The items are converted one by one. -/
theorem itemsToJson_eq_ok {items : List ScVal} {js : List Json} :
    itemsToJson P items = .ok js ↔
      List.Forall₂ (fun v j => scvalToJson P v = .ok j) items js := by
  induction items generalizing js with
  | nil => simp [itemsToJson, eq_comm]
  | cons item items ih =>
      rw [itemsToJson, List.forall₂_cons_left_iff]
      simp only [except_bind_ok, ih]
      constructor
      · intro h
        obtain ⟨j, hj, js', hjs', hr⟩ := h
        cases hr
        exact ⟨j, js', hj, hjs', rfl⟩
      · intro h
        obtain ⟨j, js', hj, hjs', rfl⟩ := h
        exact ⟨j, hj, js', hjs', rfl⟩

/-- What one entry becomes. -/
def EntryConverts (P : RpcPackages) (entry : ScVal × ScVal) (m : String × Json) : Prop :=
  mapKey P entry.1 = .ok m.1 ∧ scvalToJson P entry.2 = .ok m.2

/-- The members, inserted one after the other. -/
def insertMembers (obj l : List (String × Json)) : List (String × Json) :=
  l.foldl (fun obj m => insertMember m.1 m.2 obj) obj

/-- The entries are converted one by one and inserted. -/
theorem entriesToJson_eq_ok {obj members : List (String × Json)}
    {entries : List (ScVal × ScVal)} :
    entriesToJson P obj entries = .ok members ↔
      ∃ l, List.Forall₂ (EntryConverts P) entries l ∧ members = insertMembers obj l := by
  induction entries generalizing obj with
  | nil => simp [entriesToJson, insertMembers, eq_comm]
  | cons entry entries ih =>
      obtain ⟨key, val⟩ := entry
      rw [entriesToJson]
      simp only [except_bind_ok, ih, List.forall₂_cons_left_iff]
      constructor
      · intro h
        obtain ⟨text, htext, j, hj, l, hl, hm⟩ := h
        exact ⟨(text, j) :: l, ⟨(text, j), l, ⟨htext, hj⟩, hl, rfl⟩, hm⟩
      · intro h
        obtain ⟨_, ⟨m, l, ⟨htext, hj⟩, hl, rfl⟩, hm⟩ := h
        exact ⟨m.1, htext, m.2, hj, l, hl, hm⟩

theorem scvalToJson_vec_eq_ok {items : List ScVal} {j : Json} :
    scvalToJson P (.vec (some items)) = .ok j ↔
      ∃ js, List.Forall₂ (fun v j => scvalToJson P v = .ok j) items js ∧ j = .arr js := by
  rw [scvalToJson]
  simp only [except_bind_ok, itemsToJson_eq_ok]
  constructor <;>
  · intro h
    obtain ⟨js, hjs, hr⟩ := h
    cases hr
    exact ⟨js, hjs, rfl⟩

theorem scvalToJson_map_eq_ok {entries : List (ScVal × ScVal)} {j : Json} :
    scvalToJson P (.map (some entries)) = .ok j ↔
      ∃ l, List.Forall₂ (EntryConverts P) entries l ∧ j = .obj (insertMembers [] l) := by
  rw [scvalToJson]
  simp only [except_bind_ok, entriesToJson_eq_ok]
  constructor
  · intro h
    obtain ⟨_, ⟨l, hl, rfl⟩, hr⟩ := h
    cases hr
    exact ⟨l, hl, rfl⟩
  · intro h
    obtain ⟨l, hl, rfl⟩ := h
    exact ⟨_, ⟨l, hl, rfl⟩, rfl⟩

theorem exists_forall₂_iff {α β : Type} {R : α → β → Prop} {l : List α} :
    (∃ l', List.Forall₂ R l l') ↔ ∀ a ∈ l, ∃ b, R a b := by
  induction l with
  | nil => simp
  | cons a l ih =>
      simp only [List.forall₂_cons_left_iff, List.forall_mem_cons, ← ih]
      constructor
      · intro h
        obtain ⟨_, b, l', hb, hl', rfl⟩ := h
        exact ⟨⟨b, hb⟩, l', hl'⟩
      · intro h
        obtain ⟨⟨b, hb⟩, l', hl'⟩ := h
        exact ⟨b :: l', b, l', hb, hl', rfl⟩

/-! ## What converts -/

/-- A symbol or a string. -/
def ScVal.isText : ScVal → Bool
  | .symbol _ | .string _ => true
  | _ => false

/-- A map has only symbols and strings for keys. -/
def ScVal.TextKeys : ScVal → Prop
  | .map (some entries) => ∀ entry ∈ entries, entry.1.isText = true
  | _ => True

theorem symbolToString_isSome (v : ScVal) : (symbolToString P v).isSome = v.isText := by
  cases v <;> rfl

theorem mapKey_isOk_iff (key : ScVal) : (∃ text, mapKey P key = .ok text) ↔ key.isText := by
  cases key <;> simp [mapKey, ScVal.isText]

/-- **Conversion**: a value converts exactly when all keys in it are texts. -/
theorem scvalToJson_isOk_iff (v : ScVal) :
    (∃ j, scvalToJson P v = .ok j) ↔ v.All ScVal.TextKeys := by
  induction v using ScVal.parts_induction with
  | step v ih =>
    rw [ScVal.all_iff, ← forall₂_congr ih]
    cases v with
    | vec items =>
        cases items with
        | none => simp [scvalToJson, ScVal.TextKeys, ScVal.parts]
        | some items =>
            simp only [scvalToJson_vec_eq_ok, ScVal.TextKeys, ScVal.parts, true_and]
            rw [← exists_forall₂_iff, exists_comm]
            simp
    | map entries =>
        cases entries with
        | none => simp [scvalToJson, ScVal.TextKeys, ScVal.parts]
        | some entries =>
            have hentry : ∀ entry : ScVal × ScVal, (∃ m, EntryConverts P entry m) ↔
                entry.1.isText ∧ ∃ j, scvalToJson P entry.2 = .ok j := by
              intro entry
              rw [← mapKey_isOk_iff (P := P), Prod.exists]
              simp [EntryConverts]
            simp only [scvalToJson_map_eq_ok, ScVal.TextKeys, ScVal.parts, List.forall_mem_map]
            rw [← forall₂_and, ← forall₂_congr fun entry _ => hentry entry,
              ← exists_forall₂_iff, exists_comm]
            simp
    | bool _ | void | error _ | u32 _ | i32 _ | u64 _ | i64 _ | timepoint _ | duration _
    | u128 _ _ | i128 _ _ | u256 _ _ _ _ | i256 _ _ _ _ | bytes _ | string _ | symbol _
    | address _ | contractInstance | ledgerKeyContractInstance | ledgerKeyNonce _ =>
        simp [scvalToJson, ScVal.TextKeys, ScVal.parts]

/-- A chain event that is well formed: its id parses, its topics and its value are
XDR values, and the first topic is a text. -/
structure RpcEvent.WellFormed (P : RpcPackages) (ev : RpcEvent) : Prop where
  id : (P.parseCursor ev.id).isSome
  topics : ∀ raw ∈ ev.topic, (P.fromXdrBase64 raw).isSome
  value : (P.fromXdrBase64 ev.value).isSome
  name : ∃ raw v, ev.topic.head? = some raw ∧ P.fromXdrBase64 raw = some v ∧ v.isText

/-- All keys in the value that the XDR text holds are texts. -/
def TextKeysIn (P : RpcPackages) (raw : String) : Prop :=
  ∀ v, P.fromXdrBase64 raw = some v → v.All ScVal.TextKeys

theorem topicToJson_isSome_iff {raw : String} (h : (P.fromXdrBase64 raw).isSome) :
    (∃ j, topicToJson P raw = some j) ↔ TextKeysIn P raw := by
  obtain ⟨v, hv⟩ := Option.isSome_iff_exists.mp h
  rw [topicToJson, TextKeysIn, hv]
  simp only [Option.some.injEq, forall_eq', ← scvalToJson_isOk_iff (P := P)]
  cases hj : scvalToJson P v <;> simp [hj, Except.toOption]

theorem mapM_isSome_iff {α β : Type} {f : α → Option β} {l : List α} :
    (∃ l', l.mapM f = some l') ↔ ∀ a ∈ l, ∃ b, f a = some b := by
  induction l with
  | nil => simp
  | cons a l ih =>
      rw [List.forall_mem_cons, ← ih]
      cases hf : f a <;> simp [List.mapM_cons, hf, Option.bind_eq_some_iff]

/-- **Skipped events**: of a well-formed event nothing but a map key that is no text,
anywhere in its further topics or its value, keeps `decode_rpc_event` from decoding
it. -/
theorem decodeRpcEvent_isSome_iff {ev : RpcEvent} (h : ev.WellFormed P) (contractName : String) :
    (∀ v, (∃ j, scvalToJson P v = .ok j) ↔ v.All ScVal.TextKeys) ∧
      ((decodeRpcEvent P ev contractName).isSome ↔
        ∀ raw ∈ ev.topic.drop 1 ++ [ev.value], TextKeysIn P raw) := by
  refine ⟨scvalToJson_isOk_iff, ?_⟩
  obtain ⟨raw, v, hraw, hv, htext⟩ := h.name
  obtain ⟨name, hname⟩ := Option.isSome_iff_exists.mp ((symbolToString_isSome (P := P) v).trans htext)
  obtain ⟨⟨toid, index⟩, hid⟩ := Option.isSome_iff_exists.mp h.id
  have htopics : (∃ topics, (ev.topic.drop 1).mapM (topicToJson P) = some topics) ↔
      ∀ raw ∈ ev.topic.drop 1, TextKeysIn P raw := by
    rw [mapM_isSome_iff]
    exact forall₂_congr fun raw hr => topicToJson_isSome_iff (h.topics raw (List.mem_of_mem_drop hr))
  rw [List.forall_mem_append, List.forall_mem_singleton, ← htopics,
    ← topicToJson_isSome_iff h.value]
  constructor
  · intro hsome
    obtain ⟨e, he⟩ := Option.isSome_iff_exists.mp hsome
    obtain ⟨_, _, _, _, _, topics, data, _, _, _, _, ht, hd, _⟩ :=
      (decodeRpcEvent_eq_some P).mp he
    exact ⟨⟨topics, ht⟩, data, hd⟩
  · intro hconv
    obtain ⟨⟨topics, ht⟩, data, hd⟩ := hconv
    exact Option.isSome_iff_exists.mpr ⟨_, (decodeRpcEvent_eq_some P).mpr
      ⟨raw, v, name, toid, index, topics, data, hraw, hv, hname, hid, ht, hd, rfl⟩⟩

/-! The event `paid`, without a value and with a map of one entry `1`. -/

def numberKeyed : ScVal := .map (some [(.u32 1, .void)])

def paidValues : RpcPackages :=
  samplePackages (paidXdr ++ [("AAAAEQAAAAEAAAABAAAAAwAAAAEAAAAB", numberKeyed)])
    [("429496729600-0", 429496729600, 0)]

def paidWith (value : String) : RpcEvent := { paidEvent "429496729600-0" with value }

theorem paidWith_wellFormed {value : String} (h : (paidValues.fromXdrBase64 value).isSome) :
    (paidWith value).WellFormed paidValues where
  id := rfl
  topics := by
    intro raw hraw
    rw [List.mem_singleton.mp hraw]
    rfl
  value := h
  name := ⟨_, _, rfl, rfl, rfl⟩

theorem decodeRpcEvent_isSome_void :
    (paidWith "AAAAAQ==").WellFormed paidValues ∧
      (decodeRpcEvent paidValues (paidWith "AAAAAQ==") "verification").isSome := by
  have h : (paidWith "AAAAAQ==").WellFormed paidValues := paidWith_wellFormed rfl
  refine ⟨h, (decodeRpcEvent_isSome_iff h "verification").2.mpr ?_⟩
  intro raw hraw v hv
  rw [List.mem_singleton.mp hraw] at hv
  cases hv
  exact ScVal.all_of_leaf trivial rfl

/-- The map with the key `1` drops the event. -/
theorem decodeRpcEvent_drops :
    (paidWith "AAAAEQAAAAEAAAABAAAAAwAAAAEAAAAB").WellFormed paidValues ∧
      decodeRpcEvent paidValues (paidWith "AAAAEQAAAAEAAAABAAAAAwAAAAEAAAAB") "verification" =
        none ∧
      ¬ ∃ j, scvalToJson paidValues numberKeyed = .ok j := by
  refine ⟨paidWith_wellFormed rfl, rfl, ?_⟩
  intro h
  obtain ⟨j, hj⟩ := h
  cases hj

end VerdantBackend
