import VerdantBackend.Indexer.RpcFidelity
import VerdantBackend.Indexer.Columns

/-!
# From the chain to a change

An event passes two decoders: `decode_rpc_event` makes JSON of its `ScVal`s, and the
arms of `apply_event` read the JSON. Between them a change is what the `ScVal`s say.
-/

namespace VerdantBackend

variable {P : RpcPackages}

/-! ## What the JSON of an item is read as -/

namespace ScVal

/-- The integer that is shown as a number: those of 128 bits only where they fit. -/
def number : ScVal → Option Int
  | .u128 hi lo => (integer (.u128 hi lo)).filter fun n => n < 2 ^ 64
  | .i128 hi lo => (integer (.i128 hi lo)).filter fun n => decide (InI64 n)
  | v => v.integer

/-- What is shown as a text; a wide integer is one in decimal. -/
def text (P : RpcPackages) : ScVal → Option String
  | .error e => some (P.debugError e)
  | .bytes b => some (P.hexEncode b)
  | .string s | .symbol s => some (P.text s)
  | .address a => some (addressStrkey P a)
  | .u128 hi lo =>
    ((integer (.u128 hi lo)).filter fun n => !decide (n < 2 ^ 64)).map toString
  | .i128 hi lo => ((integer (.i128 hi lo)).filter fun n => !decide (InI64 n)).map toString
  | _ => none

/-- The item carries the value for a field of the type. An `i32` field takes any `i64`
and keeps its low 32 bits. -/
inductive Carries (P : RpcPackages) (v : ScVal) : FieldType → FieldValue → Prop
  | u64 {n : Int} : v.number = some n → 0 ≤ n → Carries P v .u64 (.int n)
  | i64 {n : Int} : v.number = some n → n < 2 ^ 63 → Carries P v .i64 (.int n)
  | i32 {n : Int} : v.number = some n → n < 2 ^ 63 → Carries P v .i32 (.int (asI32 n))
  | str {s : String} : v.text P = some s → Carries P v .str (.str s)
  | bool {b : Bool} : v = .bool b → Carries P v .bool (.bool b)
  | json {j : Json} : scvalToJson P v = .ok j → Carries P v .json (.json j)

end ScVal

/-- The integer of a number. -/
def Json.number : Json → Option Int
  | .num k => some k.val
  | _ => none

theorem u128Json_reads (P : RpcPackages) (hi lo : UInt64) :
    (u128Json hi lo).number = (ScVal.u128 hi lo).number ∧
      (u128Json hi lo).asStr = (ScVal.u128 hi lo).text P := by
  have hv := u128_toNat hi.toBitVec lo.toBitVec
  have hint : (ScVal.u128 hi lo).integer =
      some ((hi.toBitVec.toNat * 2 ^ 64 + lo.toBitVec.toNat : Nat) : Int) := rfl
  rw [ScVal.number, ScVal.text, hint, u128Json]
  split
  case isTrue h =>
    rw [hv] at h
    have hlt : ((hi.toBitVec.toNat * 2 ^ 64 + lo.toBitVec.toNat : Nat) : Int) < 2 ^ 64 := by omega
    simp only [Json.number, Json.asStr, hv, Option.filter_some, hlt, decide_true]
    exact ⟨rfl, rfl⟩
  case isFalse h =>
    rw [hv] at h
    have hge : ¬ ((hi.toBitVec.toNat * 2 ^ 64 + lo.toBitVec.toNat : Nat) : Int) < 2 ^ 64 := by omega
    simp only [Json.number, Json.asStr, hv, Option.filter_some, hge, decide_false]
    exact ⟨rfl, rfl⟩

theorem i128Json_reads (P : RpcPackages) (hi : Int64) (lo : UInt64) :
    (i128Json hi lo).number = (ScVal.i128 hi lo).number ∧
      (i128Json hi lo).asStr = (ScVal.i128 hi lo).text P := by
  have hv := i128_toInt hi.toBitVec lo.toBitVec
  have hint : (ScVal.i128 hi lo).integer =
      some (hi.toBitVec.toInt * 2 ^ 64 + lo.toBitVec.toNat) := rfl
  rw [ScVal.number, ScVal.text, hint, i128Json]
  split
  case isTrue h =>
    rw [hv] at h
    simp only [Json.number, Json.asStr, hv, Option.filter_some, h, decide_true]
    exact ⟨rfl, rfl⟩
  case isFalse h =>
    rw [hv] at h
    simp only [Json.number, Json.asStr, hv, Option.filter_some, h, decide_false]
    exact ⟨rfl, rfl⟩

theorem scvalToJson_reads {v : ScVal} {j : Json} (hj : scvalToJson P v = .ok j) :
    j.number = v.number ∧ j.asStr = v.text P ∧ ∀ b, j.asBool = some b ↔ v = .bool b := by
  cases v with
  | u128 hi lo =>
      cases hj
      refine ⟨(u128Json_reads P hi lo).1, (u128Json_reads P hi lo).2, fun b => ?_⟩
      rw [u128Json]
      split <;> simp [Json.asBool]
  | i128 hi lo =>
      cases hj
      refine ⟨(i128Json_reads P hi lo).1, (i128Json_reads P hi lo).2, fun b => ?_⟩
      rw [i128Json]
      split <;> simp [Json.asBool]
  | vec items =>
      cases items with
      | none =>
          cases hj
          simp [Json.number, Json.asStr, Json.asBool, ScVal.number, ScVal.integer, ScVal.text]
      | some items =>
          obtain ⟨js, _, rfl⟩ := scvalToJson_vec_eq_ok.mp hj
          simp [Json.number, Json.asStr, Json.asBool, ScVal.number, ScVal.integer, ScVal.text]
  | map entries =>
      cases entries with
      | none =>
          cases hj
          simp [Json.number, Json.asStr, Json.asBool, ScVal.number, ScVal.integer, ScVal.text]
      | some entries =>
          obtain ⟨l, _, rfl⟩ := scvalToJson_map_eq_ok.mp hj
          simp [Json.number, Json.asStr, Json.asBool, ScVal.number, ScVal.integer, ScVal.text]
  | i32 i =>
      cases hj
      simp [Json.ofI64, Json.number, Json.asStr, Json.asBool, ScVal.number, ScVal.integer,
        ScVal.text]
  | bool _ | void | error _ | u32 _ | u64 _ | i64 _ | timepoint _ | duration _
  | u256 _ _ _ _ | i256 _ _ _ _ | bytes _ | string _ | symbol _
  | address _ | contractInstance | ledgerKeyContractInstance | ledgerKeyNonce _ =>
      cases hj
      simp [Json.ofU64, Json.ofI64, Json.number, Json.asStr, Json.asBool, ScVal.number,
        ScVal.integer, ScVal.text]

/-- **One item**: what an accessor reads of an item's JSON is what the item carries. -/
theorem read_iff_carries {v : ScVal} {j : Json} (hj : scvalToJson P v = .ok j) (t : FieldType)
    (x : FieldValue) : t.read j = some x ↔ v.Carries P t x := by
  obtain ⟨hnum, hstr, hbool⟩ := scvalToJson_reads hj
  have hu64 : ∀ n : Nat, j.asU64 = some n ↔ v.number = some (n : Int) := by
    intro n
    rw [← hnum]
    cases j with
    | num k =>
        have := k.lower
        simp only [Json.asU64, Json.number]
        split <;> simp <;> omega
    | _ => simp [Json.asU64, Json.number]
  have hi64 : ∀ n, j.asI64 = some n ↔ v.number = some n ∧ n < 2 ^ 63 := by
    intro n
    rw [← hnum]
    cases j with
    | num k =>
        simp only [Json.asI64, Json.number]
        split <;> simp <;> omega
    | _ => simp [Json.asI64, Json.number]
  cases t with
  | u64 =>
      simp only [FieldType.read, Option.map_eq_some_iff, hu64]
      constructor
      · rintro ⟨n, hn, rfl⟩
        exact .u64 hn n.cast_nonneg
      · intro h
        cases h with
        | u64 hn hpos =>
            obtain ⟨m, rfl⟩ := Int.eq_ofNat_of_zero_le hpos
            exact ⟨m, hn, rfl⟩
  | i64 =>
      simp only [FieldType.read, Option.map_eq_some_iff, hi64]
      constructor
      · rintro ⟨n, ⟨hn, hlt⟩, rfl⟩
        exact .i64 hn hlt
      · intro h
        cases h with
        | i64 hn hlt => exact ⟨_, ⟨hn, hlt⟩, rfl⟩
  | i32 =>
      simp only [FieldType.read, Option.map_eq_some_iff, hi64]
      constructor
      · rintro ⟨n, ⟨hn, hlt⟩, rfl⟩
        exact .i32 hn hlt
      · intro h
        cases h with
        | i32 hn hlt => exact ⟨_, ⟨hn, hlt⟩, rfl⟩
  | str =>
      simp only [FieldType.read, Option.map_eq_some_iff, hstr]
      constructor
      · rintro ⟨s, hs, rfl⟩
        exact .str hs
      · intro h
        cases h with
        | str hs => exact ⟨_, hs, rfl⟩
  | bool =>
      simp only [FieldType.read, Option.map_eq_some_iff, hbool]
      constructor
      · rintro ⟨b, hb, rfl⟩
        exact .bool hb
      · intro h
        cases h with
        | bool hb => exact ⟨_, hb, rfl⟩
  | json =>
      simp only [FieldType.read, Option.some.injEq]
      constructor
      · rintro rfl
        exact .json hj
      · intro h
        cases h with
        | json h =>
            rw [hj] at h
            cases h
            rfl

/-! ## Payloads -/

/-- Of a vector of items, the one at an index carries the value. -/
def ScVal.Says (P : RpcPackages) (value : ScVal) (i : Nat) (t : FieldType) (x : FieldValue) :
    Prop :=
  ∃ items item, value = .vec (some items) ∧ items[i]? = some item ∧ item.Carries P t x

theorem scvalToJson_asArray {v : ScVal} {j : Json} {js : List Json} (hj : scvalToJson P v = .ok j)
    (harr : j.asArray = some js) :
    ∃ items, v = .vec (some items) ∧
      List.Forall₂ (fun v j => scvalToJson P v = .ok j) items js := by
  cases v with
  | vec items =>
      cases items with
      | none => cases hj; cases harr
      | some items =>
          obtain ⟨js', hjs, rfl⟩ := scvalToJson_vec_eq_ok.mp hj
          cases harr
          exact ⟨items, rfl, hjs⟩
  | map entries =>
      cases entries with
      | none => cases hj; cases harr
      | some entries =>
          obtain ⟨l, _, rfl⟩ := scvalToJson_map_eq_ok.mp hj
          cases harr
  | u128 hi lo =>
      cases hj
      rw [u128Json] at harr
      split at harr <;> cases harr
  | i128 hi lo =>
      cases hj
      rw [i128Json] at harr
      split at harr <;> cases harr
  | bool _ | void | error _ | u32 _ | i32 _ | u64 _ | i64 _ | timepoint _ | duration _
  | u256 _ _ _ _ | i256 _ _ _ _ | bytes _ | string _ | symbol _
  | address _ | contractInstance | ledgerKeyContractInstance | ledgerKeyNonce _ =>
      cases hj
      cases harr

/-- Items and their JSON values, side by side. -/
theorem forall₂_getElem? {α β : Type} {R : α → β → Prop} {l : List α} {l' : List β}
    (h : List.Forall₂ R l l') (i : Nat) :
    l[i]? = none ∧ l'[i]? = none ∨ ∃ a b, l[i]? = some a ∧ l'[i]? = some b ∧ R a b := by
  induction h generalizing i with
  | nil => simp
  | cons hab _ ih =>
      cases i with
      | zero => simpa using hab
      | succ i => simpa using ih i

/-- **One element**: what an accessor reads at an index is what the event's value says
there. -/
theorem element_read_iff {value : ScVal} {data : Json} (hj : scvalToJson P value = .ok data)
    (i : Nat) (t : FieldType) (x : FieldValue) :
    (element data i).bind t.read = some x ↔ value.Says P i t x := by
  unfold element
  cases harr : arr data with
  | none =>
      constructor
      · intro h
        simp at h
      · rintro ⟨items, item, rfl, _⟩
        obtain ⟨js, _, rfl⟩ := scvalToJson_vec_eq_ok.mp hj
        cases harr
  | some js =>
      obtain ⟨items, rfl, hjs⟩ := scvalToJson_asArray hj harr
      simp only [ScVal.Says, ScVal.vec.injEq, Option.some.injEq, Option.bind_eq_bind,
        Option.bind_some]
      rcases forall₂_getElem? hjs i with ⟨hnone, hnone'⟩ | ⟨item, j, hitem, hjson, hconv⟩
      · simp only [hnone', Option.bind_none, reduceCtorEq, false_iff]
        rintro ⟨_, item, rfl, hitem, _⟩
        rw [hnone] at hitem
        cases hitem
      · rw [hjson, Option.bind_some, read_iff_carries hconv]
        constructor
        · intro h
          exact ⟨items, item, rfl, hitem, h⟩
        · rintro ⟨_, item', rfl, hitem', h⟩
          rw [hitem] at hitem'
          cases hitem'
          exact h

namespace PayloadDecoder

variable {D : Type}

/-- Every mandatory field is what the event's value says. -/
def SaidBy (payload : PayloadDecoder D) (P : RpcPackages) (value : ScVal) (d : D) : Prop :=
  ∀ f ∈ payload.fields, value.Says P f.index f.type (f.value d)

/-- The event's value has an item for every mandatory field. -/
def WellTyped (payload : PayloadDecoder D) (P : RpcPackages) (value : ScVal) : Prop :=
  ∀ f ∈ payload.fields, ∃ x, value.Says P f.index f.type x

theorem saidBy_of_decode (payload : PayloadDecoder D) {value : ScVal} {e : ChainEvent} {d : D}
    (hj : scvalToJson P value = .ok e.data) (hd : payload.decode e = some d) :
    payload.SaidBy P value d := by
  intro f hf
  exact (element_read_iff hj f.index f.type (f.value d)).mp (payload.reads hd f hf)

theorem decode_isSome_iff (payload : PayloadDecoder D) {value : ScVal} {e : ChainEvent}
    (hj : scvalToJson P value = .ok e.data) :
    (payload.decode e).isSome ↔ payload.WellTyped P value := by
  constructor
  · intro h f hf
    obtain ⟨d, hd⟩ := Option.isSome_iff_exists.mp h
    exact ⟨_, payload.saidBy_of_decode hj hd f hf⟩
  · intro h
    refine payload.accepts fun f hf => ?_
    obtain ⟨x, hx⟩ := h f hf
    have hread : f.read e.data = some x := (element_read_iff hj f.index f.type x).mpr hx
    rw [hread]
    rfl

end PayloadDecoder

/-! ## Changes -/

namespace RpcEvent

/-- The event's name on chain. -/
def Named (P : RpcPackages) (ev : RpcEvent) (eventName : String) : Prop :=
  ∃ raw v, ev.topic[0]? = some raw ∧ P.fromXdrBase64 raw = some v ∧
    symbolToString P v = some eventName

/-- Whom an identity event is about: its second topic. -/
def About (P : RpcPackages) (ev : RpcEvent) (address : String) : Prop :=
  ∃ raw v, ev.topic[1]? = some raw ∧ P.fromXdrBase64 raw = some v ∧ v.text P = some address

/-- The event has what the arm of `apply_event` for its contract and name asks for. -/
def WellTyped (P : RpcPackages) (ev : RpcEvent) (value : ScVal) : String → String → Prop
  | "verification", "VerificationCreated" => VerificationCreated.payload.WellTyped P value
  | "verification", "VerificationRevoked" => VerificationRevoked.payload.WellTyped P value
  | "escrow", "EscrowCreated" => EscrowCreated.payload.WellTyped P value
  | "escrow", "EscrowDeposited" => EscrowDeposited.payload.WellTyped P value
  | "escrow", "EscrowReleased" => EscrowReleased.payload.WellTyped P value
  | "escrow", "EscrowRefunded" => EscrowRefunded.payload.WellTyped P value
  | "identity", "FarmerRegistered" => ∃ address, ev.About P address
  | "identity", "FarmerMetadataUpdated" => ∃ address, ev.About P address
  | "identity", "VerificationMarkerSet" => ∃ address, ev.About P address
  | "financing", "FinancingCreated" => FinancingCreated.payload.WellTyped P value
  | "financing", "FinancingDeposited" => FinancingDeposited.payload.WellTyped P value
  | "financing", "FinancingReleased" => FinancingReleased.payload.WellTyped P value
  | "financing", "FinancingRefunded" => FinancingRefunded.payload.WellTyped P value
  | _, _ => True

end RpcEvent

/-- The change is what the event says on chain. An optional field is there exactly when
its item carries a value for it. -/
def Change.SaidBy (P : RpcPackages) (ev : RpcEvent) (value : ScVal) : Change → Prop
  | .verification (.created contractId d) =>
    contractId = ev.contractId ∧ VerificationCreated.payload.SaidBy P value d
  | .verification (.revoked d) => VerificationRevoked.payload.SaidBy P value d
  | .escrow (.created contractId d) =>
    contractId = ev.contractId ∧ EscrowCreated.payload.SaidBy P value d ∧
      (∀ s, d.conditionReleaser = some s ↔ value.Says P 5 .str (.str s)) ∧
      ∀ n, d.conditionTimeoutLedger = some n ↔ value.Says P 6 .i64 (.int n)
  | .escrow (.deposited d) => EscrowDeposited.payload.SaidBy P value d
  | .escrow (.released d) => EscrowReleased.payload.SaidBy P value d
  | .escrow (.refunded d) => EscrowRefunded.payload.SaidBy P value d
  | .financing (.created contractId d) =>
    contractId = ev.contractId ∧ FinancingCreated.payload.SaidBy P value d ∧
      (∀ n, d.drawnLedger = some n ↔ value.Says P 7 .i64 (.int n)) ∧
      ∀ n, d.defaultedLedger = some n ↔ value.Says P 10 .i64 (.int n)
  | .financing (.deposited d) => FinancingDeposited.payload.SaidBy P value d
  | .financing (.released d) => FinancingReleased.payload.SaidBy P value d
  | .financing (.refunded d) =>
    FinancingRefunded.payload.SaidBy P value d ∧
      ∀ n, d.defaultedLedger = some n ↔ value.Says P 3 .i64 (.int n)
  | .identity (.registered address data) | .identity (.metadataUpdated address data)
  | .identity (.markerSet address data) =>
    ev.About P address ∧ scvalToJson P value = .ok data

theorem getStr_eq_some_iff {value : ScVal} {data : Json} (hj : scvalToJson P value = .ok data)
    {i : Nat} {s : String} : getStr data i = some s ↔ value.Says P i .str (.str s) := by
  have hread : (⟨i, .str, fun s => .str s⟩ : Field String).read data =
      (getStr data i).map .str := Field.read_str i _ data
  rw [← element_read_iff hj]
  unfold Field.read at hread
  rw [hread]
  simp

theorem getI64_eq_some_iff {value : ScVal} {data : Json} (hj : scvalToJson P value = .ok data)
    {i : Nat} {n : Int} : getI64 data i = some n ↔ value.Says P i .i64 (.int n) := by
  have hread : (⟨i, .i64, fun n => .int n⟩ : Field Int).read data =
      (getI64 data i).map .int := Field.read_i64 i _ data
  rw [← element_read_iff hj]
  unfold Field.read at hread
  rw [hread]
  simp

theorem topicToJson_eq_some_iff {raw : String} {j : Json} :
    topicToJson P raw = some j ↔
      ∃ v, P.fromXdrBase64 raw = some v ∧ scvalToJson P v = .ok j := by
  unfold topicToJson
  rw [Option.bind_eq_bind, Option.bind_eq_some_iff]
  refine exists_congr fun v => and_congr_right fun _ => ?_
  cases scvalToJson P v <;> simp [Except.toOption]

theorem identityTopics_eq_some_iff {ev : RpcEvent} {e : ChainEvent} {topics : List Json}
    (ht : (ev.topic.drop 1).mapM (topicToJson P) = some topics) (htopics : e.topics = .arr topics)
    {address : String} : identityTopics e = some address ↔ ev.About P address := by
  have hread : identityTopics e = topics.head?.bind Json.asStr := by
    rw [identityTopics, htopics]
    rfl
  have hhead : ev.topic[1]? = (ev.topic.drop 1).head? := by
    rw [List.head?_drop]
  rw [hread, RpcEvent.About, hhead]
  cases hl : ev.topic.drop 1 with
  | nil =>
      rw [hl] at ht
      cases ht
      simp
  | cons raw rest =>
      rw [hl, List.mapM_cons] at ht
      simp only [Option.bind_eq_bind, Option.bind_eq_some_iff, Option.pure_def,
        Option.some.injEq] at ht
      obtain ⟨j, hj, js, _, rfl⟩ := ht
      obtain ⟨v, hv, hconv⟩ := topicToJson_eq_some_iff.mp hj
      simp [hv, (scvalToJson_reads hconv).2.1]

section
variable {ev : RpcEvent} {contractName : String} {e : ChainEvent} {value : ScVal}

theorem decodedOr_isOk_iff {α : Type} {x : Option α} {msg : String} {f : α → Change} :
    (∃ o, (do let d ← decodedOr x msg; return some (f d) : Except SqlxError (Option Change)) =
      .ok o) ↔ x.isSome := by
  cases x with
  | none => simp [decodedOr, Bind.bind, Except.bind]
  | some d => simp [decodedOr, Bind.bind, Except.bind, pure, Except.pure]

theorem decodeEvent_isOk_iff (hj : scvalToJson P value = .ok e.data)
    (habout : ∀ address, identityTopics e = some address ↔ ev.About P address) :
    (∃ o, decodeEvent e = .ok o) ↔ ev.WellTyped P value e.contractName e.eventName := by
  have hid : (identityTopics e).isSome ↔ ∃ address, ev.About P address := by
    rw [Option.isSome_iff_exists]
    exact exists_congr habout
  unfold decodeEvent
  split
  case h_14 hother =>
    refine iff_of_true ⟨_, rfl⟩ ?_
    unfold RpcEvent.WellTyped
    split <;> first | trivial | simp_all
  all_goals
    rename_i hcontract hevent
    rw [decodedOr_isOk_iff, hcontract, hevent]
  · exact VerificationCreated.payload.decode_isSome_iff hj
  · exact VerificationRevoked.payload.decode_isSome_iff hj
  · exact EscrowCreated.payload.decode_isSome_iff hj
  · exact EscrowDeposited.payload.decode_isSome_iff hj
  · exact EscrowReleased.payload.decode_isSome_iff hj
  · exact EscrowRefunded.payload.decode_isSome_iff hj
  · exact hid
  · exact hid
  · exact hid
  · exact FinancingCreated.payload.decode_isSome_iff hj
  · exact FinancingDeposited.payload.decode_isSome_iff hj
  · exact FinancingReleased.payload.decode_isSome_iff hj
  · exact FinancingRefunded.payload.decode_isSome_iff hj

theorem Change.DecodedFrom.saidBy {c : Change} (h : c.DecodedFrom e)
    (hj : scvalToJson P value = .ok e.data) (hcontract : e.contractId = ev.contractId)
    (habout : ∀ address, identityTopics e = some address ↔ ev.About P address) :
    c.SaidBy P ev value := by
  cases c with
  | verification c =>
      cases c with
      | created contractId d =>
          exact ⟨h.1.trans hcontract, VerificationCreated.payload.saidBy_of_decode hj h.2⟩
      | revoked d => exact VerificationRevoked.payload.saidBy_of_decode hj h
  | escrow c =>
      cases c with
      | created contractId d =>
          have hopt : d.conditionReleaser = getStr e.data 5 ∧
              d.conditionTimeoutLedger = getI64 e.data 6 := by
            have hd := h.2
            simp only [decodeEscrowCreated, Option.bind_eq_bind, Option.bind_eq_some_iff,
              Option.pure_def, Option.some.injEq] at hd
            obtain ⟨_, _, _, _, _, _, _, _, _, _, _, _, _, _, _, _, rfl⟩ := hd
            exact ⟨rfl, rfl⟩
          refine ⟨h.1.trans hcontract, EscrowCreated.payload.saidBy_of_decode hj h.2, ?_, ?_⟩
          · rw [hopt.1]
            exact fun s => getStr_eq_some_iff hj
          · rw [hopt.2]
            exact fun n => getI64_eq_some_iff hj
      | deposited d => exact EscrowDeposited.payload.saidBy_of_decode hj h
      | released d => exact EscrowReleased.payload.saidBy_of_decode hj h
      | refunded d => exact EscrowRefunded.payload.saidBy_of_decode hj h
  | financing c =>
      cases c with
      | created contractId d =>
          have hopt : d.drawnLedger = getI64 e.data 7 ∧ d.defaultedLedger = getI64 e.data 10 := by
            have hd := h.2
            simp only [decodeFinancingCreated, Option.bind_eq_bind, Option.bind_eq_some_iff,
              Option.pure_def, Option.some.injEq] at hd
            obtain ⟨_, _, _, _, _, _, _, _, _, _, _, _, _, _, _, _, _, _, _, _, rfl⟩ := hd
            exact ⟨rfl, rfl⟩
          refine ⟨h.1.trans hcontract, FinancingCreated.payload.saidBy_of_decode hj h.2, ?_, ?_⟩
          · rw [hopt.1]
            exact fun n => getI64_eq_some_iff hj
          · rw [hopt.2]
            exact fun n => getI64_eq_some_iff hj
      | deposited d => exact FinancingDeposited.payload.saidBy_of_decode hj h
      | released d => exact FinancingReleased.payload.saidBy_of_decode hj h
      | refunded d =>
          have hopt : d.defaultedLedger = getI64 e.data 3 := by
            have hd : decodeFinancingRefunded e = some d := h
            simp only [decodeFinancingRefunded, Option.bind_eq_bind, Option.bind_eq_some_iff,
              Option.pure_def, Option.some.injEq] at hd
            obtain ⟨_, _, _, _, _, _, rfl⟩ := hd
            rfl
          refine ⟨FinancingRefunded.payload.saidBy_of_decode hj h, ?_⟩
          rw [hopt]
          exact fun n => getI64_eq_some_iff hj
  | identity c =>
      cases c with
      | registered address data | metadataUpdated address data | markerSet address data =>
          obtain ⟨haddress, rfl⟩ := h
          exact ⟨(habout address).mp haddress, hj⟩

/-- **From the chain to a change**: a decoded event stops no pass by its payload exactly
when it has, for each field its arm asks for, an item that carries a value of the
field's type; and the change it makes is then what the event says. -/
theorem change_as_said (he : decodeRpcEvent P ev contractName = some e)
    (hvalue : P.fromXdrBase64 ev.value = some value) :
    ((∃ o, decodeEvent e = .ok o) ↔
        ∀ eventName, ev.Named P eventName → ev.WellTyped P value contractName eventName) ∧
      ∀ c, decodeEvent e = .ok (some c) → c.SaidBy P ev value := by
  obtain ⟨raw, scval, eventName, toid, index, topics, data, hraw, hscval, hname, _, ht, hd, rfl⟩ :=
    (decodeRpcEvent_eq_some P).mp he
  obtain ⟨v, hv, hj⟩ := topicToJson_eq_some_iff.mp hd
  rw [hvalue] at hv
  cases hv
  have hnamed : ∀ n, ev.Named P n ↔ n = eventName := by
    intro n
    unfold RpcEvent.Named
    rw [← List.head?_eq_getElem?, hraw]
    simp [hscval, hname, eq_comm]
  have habout : ∀ address, identityTopics (⟨ev.contractId, contractName, eventName,
      (toid >>> 32).toNat, asI32 (toid &&& 0xFFFFFFFF).toNat, index.toInt, .arr topics, data⟩ :
      ChainEvent) = some address ↔ ev.About P address :=
    fun _ => identityTopics_eq_some_iff ht rfl
  simp only [hnamed, forall_eq]
  constructor
  · exact decodeEvent_isOk_iff hj habout
  · intro c hc
    exact (decodeEvent_decodedFrom hc).saidBy hj rfl habout

end

/-! The deposit of an amount into financing 7. -/

def depositValue (hi : Int64) (lo : UInt64) : ScVal :=
  .vec (some [.u64 7, .i128 hi lo, .u32 100])

def narrowXdr : String :=
  "AAAAEAAAAAEAAAADAAAABQAAAAAAAAAHAAAACgAAAAAAAAAAAAAAAAAAAfQAAAADAAAAZA=="

def wideXdr : String :=
  "AAAAEAAAAAEAAAADAAAABQAAAAAAAAAHAAAACgAAAAAAAAABAAAAAAAAAAAAAAADAAAAZA=="

def depositPackages : RpcPackages :=
  samplePackages
    [("AAAADwAAABJGaW5hbmNpbmdEZXBvc2l0ZWQAAA==", .symbol [70, 105, 110, 97, 110, 99, 105, 110,
        103, 68, 101, 112, 111, 115, 105, 116, 101, 100]),
      (narrowXdr, depositValue 0 500), (wideXdr, depositValue 1 0)]
    [("429496729600-0", 429496729600, 0)]

def depositOf (value : String) : RpcEvent :=
  ⟨"429496729600-0", "CF", ["AAAADwAAABJGaW5hbmNpbmdEZXBvc2l0ZWQAAA=="], value⟩

def deposited (amount : Json) : ChainEvent :=
  { paidChainEvent "financing" 429496729600 0 with
    contractId := "CF"
    eventName := "FinancingDeposited"
    data := .arr [.int 7, amount, .int 100] }

theorem decodeRpcEvent_deposit {value : String} {amount : Json}
    (h : topicToJson depositPackages value = some (.arr [.int 7, amount, .int 100])) :
    decodeRpcEvent depositPackages (depositOf value) "financing" = some (deposited amount) := by
  refine (decodeRpcEvent_eq_some _).mpr ⟨_, _, "FinancingDeposited", 429496729600, 0, [], _, rfl,
    rfl, rfl, rfl, rfl, h, ?_⟩
  simp only [deposited, paidChainEvent, depositOf]

/-- 500 is deposited as the event says; 2^64 is no `i64`, and its event is refused. -/
theorem change_as_said_deposits :
    ((∃ o, decodeEvent (deposited (.int 500)) = .ok o) ∧
      (Change.financing (.deposited ⟨7, 500, 100⟩)).SaidBy depositPackages (depositOf narrowXdr)
        (depositValue 0 500)) ∧
      ¬ ∃ o, decodeEvent (deposited (.str "18446744073709551616")) = .ok o := by
  have hnarrow : decodeRpcEvent depositPackages (depositOf narrowXdr) "financing" =
      some (deposited (.int 500)) := decodeRpcEvent_deposit rfl
  have hwide : decodeRpcEvent depositPackages (depositOf wideXdr) "financing" =
      some (deposited (.str "18446744073709551616")) := decodeRpcEvent_deposit rfl
  refine ⟨⟨⟨_, rfl⟩, (change_as_said hnarrow rfl).2 _ rfl⟩, ?_⟩
  rw [(change_as_said hwide rfl).1]
  intro h
  obtain ⟨x, _, item, hvec, hitem, hcarries⟩ := h "FinancingDeposited" ⟨_, _, rfl, rfl, rfl⟩
    ⟨1, .i64, fun d => .int d.amount⟩ (by simp [FinancingDeposited.payload])
  cases hvec
  cases hitem
  cases hcarries with
  | i64 hn _ => cases hn

end VerdantBackend
