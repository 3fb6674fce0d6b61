import VerdantBackend.Indexer.Chain
import VerdantBackend.Serde

/-!
# RPC events

`src/indexer/rpc.rs`: what the Soroban RPC serves, decoded into chain events.
What other packages do is the parameter `RpcPackages`; of their types the parts
are kept that the source reads.
-/

namespace VerdantBackend

/-- `stellar_xdr::ScErrorType`. -/
inductive ScErrorType where
  | contract
  | wasmVm
  | context
  | storage
  | object
  | crypto
  | events
  | budget
  | value
  | auth
deriving DecidableEq

/-- `stellar_xdr::ScError`: its type, and the contract's own code or the kind. -/
structure ScError where
  type : ScErrorType
  code : UInt32
deriving DecidableEq

/-- `stellar_xdr::ScAddress`. -/
inductive ScAddress where
  | account (ed25519 : List UInt8)
  | contract (hash : List UInt8)
  | muxedAccount (id : UInt64) (ed25519 : List UInt8)
  | claimableBalance (hash : List UInt8)
  | liquidityPool (hash : List UInt8)
deriving DecidableEq

/-- `stellar_xdr::ScVal`. A string or symbol is a sequence of bytes (`StringM`); what
a contract instance holds is not read. -/
inductive ScVal where
  | bool (b : Bool)
  | void
  | error (e : ScError)
  | u32 (u : UInt32)
  | i32 (i : Int32)
  | u64 (u : UInt64)
  | i64 (i : Int64)
  | timepoint (t : UInt64)
  | duration (d : UInt64)
  | u128 (hi lo : UInt64)
  | i128 (hi : Int64) (lo : UInt64)
  | u256 (hiHi hiLo loHi loLo : UInt64)
  | i256 (hiHi : Int64) (hiLo loHi loLo : UInt64)
  | bytes (b : List UInt8)
  | string (s : List UInt8)
  | symbol (s : List UInt8)
  | vec (items : Option (List ScVal))
  | map (entries : Option (List (ScVal × ScVal)))
  | address (a : ScAddress)
  | contractInstance
  | ledgerKeyContractInstance
  | ledgerKeyNonce (nonce : Int64)

/-- `stellar_rpc_client::Event`, as far as it is read. -/
structure RpcEvent where
  id : String
  contractId : String
  topic : List String
  value : String

/-- What the packages compute. -/
structure RpcPackages where
  /-- `ScVal::from_xdr_base64(_, Limits::none()).ok()` -/
  fromXdrBase64 : String → Option ScVal
  /-- `Event::parse_cursor` of an id -/
  parseCursor : String → Option (UInt64 × Int32)
  /-- `StringM::to_string`: printable ASCII as it is, other bytes escaped -/
  text : List UInt8 → String
  hexEncode : List UInt8 → String
  /-- `Strkey::to_string` of a public key, a contract, a muxed account -/
  strkeyPublicKey : List UInt8 → String
  strkeyContract : List UInt8 → String
  strkeyMuxed : UInt64 → List UInt8 → String
  /-- the derived `Debug` forms -/
  debugError : ScError → String
  debugAddress : ScAddress → String
  debugScVal : ScVal → String

/-! ## Numbers -/

/-- `Value::from(u64)`. -/
def Json.ofU64 (u : UInt64) : Json :=
  .num ⟨u.toNat, by omega, by have := u.toNat_lt; omega⟩

/-- `Value::from(i64)`. -/
def Json.ofI64 (i : Int64) : Json :=
  .num ⟨i.toInt, i.le_toInt, by have := i.toInt_lt; omega⟩

/-- The arm of `ScVal::U128`. -/
def u128Json (hi lo : UInt64) : Json :=
  let v : BitVec 128 := (hi.toBitVec.zeroExtend 128 <<< 64) ||| lo.toBitVec.zeroExtend 128
  if h : v.toNat < 2 ^ 64 then .num ⟨v.toNat, by omega, by omega⟩ else .str (toString v.toNat)

/-- `i128_json`. -/
def i128Json (hi : Int64) (lo : UInt64) : Json :=
  let v : BitVec 128 := (hi.toBitVec.signExtend 128 <<< 64) ||| lo.toBitVec.zeroExtend 128
  if h : InI64 v.toInt then .num ⟨v.toInt, h.1, by have := h.2; omega⟩
  else .str (toString v.toInt)

section Conversion
variable (P : RpcPackages)

def addressStrkey : ScAddress → String
  | .account ed25519 => P.strkeyPublicKey ed25519
  | .contract hash => P.strkeyContract hash
  | .muxedAccount id ed25519 => P.strkeyMuxed id ed25519
  | other => P.debugAddress other

def symbolToString : ScVal → Option String
  | .symbol s => some (P.text s)
  | .string s => some (P.text s)
  | _ => none

/-- The key of a map entry. -/
def mapKey (key : ScVal) : Except ChainEventsError String :=
  match key with
  | .symbol s => .ok (P.text s)
  | .string s => .ok (P.text s)
  | other => .error (.internal ("unexpected map key " ++ P.debugScVal other))

mutual
def scvalToJson : ScVal → Except ChainEventsError Json
  | .bool b => .ok (.bool b)
  | .void => .ok .null
  | .error e => .ok (.str (P.debugError e))
  | .u32 u => .ok (.ofU64 u.toUInt64)
  | .i32 i => .ok (.ofI64 i.toInt64)
  | .u64 u => .ok (.ofU64 u)
  | .i64 i => .ok (.ofI64 i)
  | .timepoint t => .ok (.ofU64 t)
  | .duration d => .ok (.ofU64 d)
  | .u128 hi lo => .ok (u128Json hi lo)
  | .i128 hi lo => .ok (i128Json hi lo)
  | .u256 .. => .ok .null
  | .i256 .. => .ok .null
  | .bytes b => .ok (.str (P.hexEncode b))
  | .string s => .ok (.str (P.text s))
  | .symbol s => .ok (.str (P.text s))
  | .vec (some items) => do return .arr (← itemsToJson items)
  | .vec none => .ok .null
  | .map (some entries) => do return .obj (← entriesToJson [] entries)
  | .map none => .ok .null
  | .address a => .ok (.str (addressStrkey P a))
  | .contractInstance => .ok .null
  | .ledgerKeyContractInstance => .ok .null
  | .ledgerKeyNonce _ => .ok .null

/-- The items of a vector, up to the first error. -/
def itemsToJson : List ScVal → Except ChainEventsError (List Json)
  | [] => .ok []
  | item :: items => do
    let value ← scvalToJson item
    let values ← itemsToJson items
    return value :: values

/-- The loop over the entries of a map; `obj` is what was inserted so far. -/
def entriesToJson (obj : List (String × Json)) :
    List (ScVal × ScVal) → Except ChainEventsError (List (String × Json))
  | [] => .ok obj
  | (key, val) :: entries => do
    let key ← mapKey P key
    let value ← scvalToJson val
    entriesToJson (insertMember key value obj) entries
end

/-- The value of one topic. -/
def topicToJson (raw : String) : Option Json := do
  (scvalToJson P (← P.fromXdrBase64 raw)).toOption

def decodeRpcEvent (ev : RpcEvent) (contractName : String) : Option ChainEvent := do
  let eventScval ← P.fromXdrBase64 (← ev.topic.head?)
  let eventName ← symbolToString P eventScval
  let (toid, eventIndex) ← P.parseCursor ev.id
  let decodedTopics ← (ev.topic.drop 1).mapM (topicToJson P)
  let valueScval ← P.fromXdrBase64 ev.value
  let data ← (scvalToJson P valueScval).toOption
  return {
    contractId := ev.contractId
    contractName
    eventName
    ledgerSequence := (toid >>> 32).toNat
    operationIndex := asI32 (toid &&& 0xFFFFFFFF).toNat
    eventIndex := eventIndex.toInt
    topics := .arr decodedTopics
    data }

/-- **What is accepted**: a first topic with a name, a parsed id, and topics and a
value that convert. -/
theorem decodeRpcEvent_eq_some {ev : RpcEvent} {contractName : String} {e : ChainEvent} :
    decodeRpcEvent P ev contractName = some e ↔
      ∃ raw scval eventName toid index topics data,
        ev.topic.head? = some raw ∧ P.fromXdrBase64 raw = some scval ∧
        symbolToString P scval = some eventName ∧ P.parseCursor ev.id = some (toid, index) ∧
        (ev.topic.drop 1).mapM (topicToJson P) = some topics ∧
        topicToJson P ev.value = some data ∧
        e = ⟨ev.contractId, contractName, eventName, (toid >>> 32).toNat,
          asI32 (toid &&& 0xFFFFFFFF).toNat, index.toInt, .arr topics, data⟩ := by
  simp only [decodeRpcEvent, topicToJson, Option.bind_eq_bind, Option.bind_eq_some_iff,
    Option.pure_def, Option.some.injEq]
  constructor
  · intro h
    obtain ⟨raw, hraw, scval, hscval, eventName, hname, ⟨toid, index⟩, hcursor, topics, htopics,
      value, hvalue, data, hdata, rfl⟩ := h
    exact ⟨raw, scval, eventName, toid, index, topics, data, hraw, hscval, hname, hcursor,
      htopics, ⟨value, hvalue, hdata⟩, rfl⟩
  · intro h
    obtain ⟨raw, scval, eventName, toid, index, topics, data, hraw, hscval, hname, hcursor,
      htopics, ⟨value, hvalue, hdata⟩, rfl⟩ := h
    exact ⟨raw, hraw, scval, hscval, eventName, hname, (toid, index), hcursor, topics, htopics,
      value, hvalue, data, hdata, rfl⟩

end Conversion

/-- The packages on some base64 texts and ids. -/
def samplePackages (xdr : List (String × ScVal)) (ids : List (String × UInt64 × Int32)) :
    RpcPackages where
  fromXdrBase64 raw := xdr.lookup raw
  parseCursor id := ids.lookup id
  text bytes := String.ofList (bytes.map fun b => Char.ofNat b.toNat)
  hexEncode bytes := String.ofList
    (bytes.flatMap fun b => [hexDigit (b.toNat / 16), hexDigit (b.toNat % 16)])
  strkeyPublicKey _ := "G"
  strkeyContract _ := "C"
  strkeyMuxed _ _ := "M"
  debugError _ := "Error"
  debugAddress _ := "Address"
  debugScVal _ := "ScVal"

/-- The symbol `paid` and a void value, in XDR. -/
def paidXdr : List (String × ScVal) :=
  [("AAAADwAAAARwYWlk", .symbol [112, 97, 105, 100]), ("AAAAAQ==", .void)]

def paidEvent (id : String) : RpcEvent := ⟨id, "CV", ["AAAADwAAAARwYWlk"], "AAAAAQ=="⟩

def paidChainEvent (contractName : String) (toid : UInt64) (index : Int32) : ChainEvent :=
  ⟨"CV", contractName, "paid", (toid >>> 32).toNat, asI32 (toid &&& 0xFFFFFFFF).toNat,
    index.toInt, .arr [], .null⟩

theorem decodeRpcEvent_paid {ids : List (String × UInt64 × Int32)} {id contractName : String}
    {toid : UInt64} {index : Int32} (h : ids.lookup id = some (toid, index)) :
    decodeRpcEvent (samplePackages paidXdr ids) (paidEvent id) contractName =
      some (paidChainEvent contractName toid index) :=
  (decodeRpcEvent_eq_some _).mpr ⟨_, _, "paid", toid, index, [], .null, rfl, rfl, rfl, h, rfl,
    rfl, rfl⟩

end VerdantBackend
