import VerdantBackend.Indexer.Projections

/-!
# Fields of decoded payloads

A payload decoder reads one array element for each mandatory field, with the
accessor of the field's type. All accessors return what the element says but
`get_i32`, which takes any `i64` and casts it: a decoder is exact on an event
unless all it reads is readable and an `i32` element is beyond 32 bits.
-/

namespace VerdantBackend

/-- The Rust type of a mandatory field; `json` is `serde_json::Value`. -/
inductive FieldType where
  | u64
  | i64
  | i32
  | str
  | bool
  | json
deriving DecidableEq

/-- What a field holds. -/
inductive FieldValue where
  | int (n : Int)
  | str (s : String)
  | bool (b : Bool)
  | json (v : Json)

/-- The element is the value, as an integer, a string, a boolean or itself. -/
inductive Json.Is : Json → FieldValue → Prop where
  | int (n : JsonInt) : Is (.num n) (.int n.val)
  | str (s : String) : Is (.str s) (.str s)
  | bool (b : Bool) : Is (.bool b) (.bool b)
  | json (v : Json) : Is v (.json v)

/-- The range of an `i32`. -/
def InI32 (n : Int) : Prop := -2 ^ 31 ≤ n ∧ n < 2 ^ 31

namespace FieldType

/-- The element fits the type. -/
def Fits : FieldType → Json → Prop
  | .u64, v => ∃ n : JsonInt, v = .num n ∧ 0 ≤ n.val
  | .i64, v => ∃ n : JsonInt, v = .num n ∧ n.val < 2 ^ 63
  | .i32, v => ∃ n : JsonInt, v = .num n ∧ InI32 n.val
  | .str, v => ∃ s, v = .str s
  | .bool, v => ∃ b, v = .bool b
  | .json, _ => True

/-- The type whose elements the accessor accepts: `get_i32` asks for an `i64`. -/
def accepted : FieldType → FieldType
  | .i32 => .i64
  | t => t

/-- What the accessor makes of an element. -/
def read : FieldType → Json → Option FieldValue
  | .u64, v => v.asU64.map fun n : Nat => .int n
  | .i64, v => v.asI64.map .int
  | .i32, v => v.asI64.map fun n => .int (asI32 n)
  | .str, v => v.asStr.map .str
  | .bool, v => v.asBool.map .bool
  | .json, v => some (.json v)

theorem asI32_eq_self_iff {n : Int} : asI32 n = n ↔ InI32 n := by
  rw [asI32, InI32, Int.bmod_eq_iff (by decide)]
  omega

theorem read_isSome_iff (t : FieldType) (v : Json) :
    (t.read v).isSome ↔ t.accepted.Fits v := by
  cases t <;> cases v <;> simp [read, accepted, Fits, Json.asU64, Json.asI64, Json.asStr,
    Json.asBool]

theorem Fits.accepted {t : FieldType} {v : Json} (h : t.Fits v) : t.accepted.Fits v := by
  cases t with
  | i32 =>
      obtain ⟨n, rfl, hn⟩ := h
      exact ⟨n, rfl, by have := hn.2; omega⟩
  | u64 | i64 | str | bool | json => exact h

/-- **One element**: what is read is the element, and fits, exactly when the
element fits. -/
theorem read_exact_iff {t : FieldType} {v : Json} {value : FieldValue}
    (h : t.read v = some value) : t.Fits v ∧ v.Is value ↔ t.Fits v := by
  refine and_iff_left_of_imp fun hfits => ?_
  cases t with
  | u64 =>
      obtain ⟨n, rfl, hn⟩ := hfits
      rw [read, Json.asU64, if_pos hn, Option.map_some] at h
      cases h
      rw [Int.toNat_of_nonneg hn]
      exact .int n
  | i64 =>
      obtain ⟨n, rfl, hn⟩ := hfits
      rw [read, Json.asI64, if_pos hn, Option.map_some] at h
      cases h
      exact .int n
  | i32 =>
      obtain ⟨n, rfl, hn⟩ := hfits
      have hlt : n.val < 2 ^ 63 := by have := hn.2; omega
      rw [read, Json.asI64, if_pos hlt, Option.map_some, asI32_eq_self_iff.mpr hn] at h
      cases h
      exact .int n
  | str =>
      obtain ⟨s, rfl⟩ := hfits
      cases h
      exact .str s
  | bool =>
      obtain ⟨b, rfl⟩ := hfits
      cases h
      exact .bool b
  | json =>
      cases h
      exact .json v

end FieldType

/-- The payload element at an index. -/
def element (data : Json) (i : Nat) : Option Json := do (← arr data)[i]?

/-- A mandatory field of a decoded payload. -/
structure Field (D : Type) where
  index : Nat
  type : FieldType
  value : D → FieldValue

namespace Field

variable {D : Type}

/-- The element is there and fits the type. -/
def FitsIn (f : Field D) (t : FieldType) (data : Json) : Prop :=
  ∃ v, element data f.index = some v ∧ t.Fits v

/-- What the accessor of the field returns. -/
def read (f : Field D) (data : Json) : Option FieldValue :=
  (element data f.index).bind f.type.read

/-- The field holds the payload element, which fits the field's type. -/
def Exact (f : Field D) (data : Json) (d : D) : Prop :=
  ∃ v, element data f.index = some v ∧ f.type.Fits v ∧ v.Is (f.value d)

theorem exact_iff {f : Field D} {data : Json} {d : D} (h : f.read data = some (f.value d)) :
    f.Exact data d ↔ f.FitsIn f.type data := by
  obtain ⟨v, hv, hread⟩ := Option.bind_eq_some_iff.mp h
  simp [Exact, FitsIn, hv, FieldType.read_exact_iff hread]

theorem read_isSome_iff (f : Field D) (data : Json) :
    (f.read data).isSome ↔ f.FitsIn f.type.accepted data := by
  rw [read, FitsIn]
  cases element data f.index with
  | none => simp
  | some v => simp [FieldType.read_isSome_iff]

end Field

/-- A payload decoder with the mandatory fields of what it decodes: it returns
something exactly when all of them are read, and then what was read. -/
structure PayloadDecoder (D : Type) where
  decode : ChainEvent → Option D
  fields : List (Field D)
  reads : ∀ {event d}, decode event = some d →
    ∀ f ∈ fields, f.read event.data = some (f.value d)
  accepts : ∀ {event}, (∀ f ∈ fields, (f.read event.data).isSome) → (decode event).isSome

namespace PayloadDecoder

variable {D : Type}

/-- Whatever the decoder returns holds the payload elements. -/
def Exact (P : PayloadDecoder D) (event : ChainEvent) : Prop :=
  ∀ d, P.decode event = some d → ∀ f ∈ P.fields, f.Exact event.data d

/-- **Decoding**: it is exact unless every element is accepted and one does not fit
its field. -/
theorem exact_iff (P : PayloadDecoder D) (event : ChainEvent) :
    P.Exact event ↔
      ((∀ f ∈ P.fields, f.FitsIn f.type.accepted event.data) →
        ∀ f ∈ P.fields, f.FitsIn f.type event.data) := by
  constructor
  · intro hexact haccepted f hf
    obtain ⟨d, hd⟩ := Option.isSome_iff_exists.mp
      (P.accepts fun f hf => (f.read_isSome_iff event.data).mpr (haccepted f hf))
    exact (Field.exact_iff (P.reads hd f hf)).mp (hexact d hd f hf)
  · intro h d hd f hf
    have haccepted : ∀ f ∈ P.fields, f.FitsIn f.type.accepted event.data := by
      intro f hf
      rw [← Field.read_isSome_iff, P.reads hd f hf]
      rfl
    exact (Field.exact_iff (P.reads hd f hf)).mpr (h haccepted f hf)

/-- Without an `i32` there is nothing to lose. -/
theorem exact_of_no_i32 (P : PayloadDecoder D) (h : ∀ f ∈ P.fields, f.type.accepted = f.type)
    (event : ChainEvent) : P.Exact event := by
  rw [exact_iff]
  intro haccepted f hf
  have hfits := haccepted f hf
  rw [h f hf] at hfits
  exact hfits

end PayloadDecoder

/-! ## The ten decoders -/

section Accessors
variable {D : Type} (i : Nat) (value : D → FieldValue) (data : Json)

theorem Field.read_of {α : Type} {t : FieldType} {get : Json → Option α} {mk : α → FieldValue}
    (h : ∀ v, t.read v = (get v).map mk) :
    (⟨i, t, value⟩ : Field D).read data = ((arr data).bind fun xs => xs[i]?.bind get).map mk := by
  rw [Field.read, element, funext h]
  cases arr data with
  | none => rfl
  | some xs =>
      cases hv : xs[i]? with
      | none => simp [hv]
      | some v => simp [hv]

@[simp] theorem Field.read_u64 :
    (⟨i, .u64, value⟩ : Field D).read data = (getU64 data i).map fun n : Nat => .int n :=
  Field.read_of i value data fun _ => rfl

@[simp] theorem Field.read_i64 :
    (⟨i, .i64, value⟩ : Field D).read data = (getI64 data i).map .int :=
  Field.read_of i value data fun _ => rfl

@[simp] theorem Field.read_i32 :
    (⟨i, .i32, value⟩ : Field D).read data = (getI32 data i).map .int := by
  have hread : ∀ v : Json, FieldType.i32.read v =
      (v.asI64.bind fun n => some (asI32 n)).map .int := by
    intro v
    rw [FieldType.read]
    cases v.asI64 <;> rfl
  exact Field.read_of i value data hread

@[simp] theorem Field.read_str :
    (⟨i, .str, value⟩ : Field D).read data = (getStr data i).map .str :=
  Field.read_of i value data fun _ => rfl

@[simp] theorem Field.read_bool :
    (⟨i, .bool, value⟩ : Field D).read data = (getBool data i).map .bool :=
  Field.read_of i value data fun _ => rfl

@[simp] theorem Field.read_json :
    (⟨i, .json, value⟩ : Field D).read data = (element data i).map .json := by
  rw [Field.read]
  cases element data i <;> rfl

end Accessors

theorem isSome_bind_of {α β : Type} {x : Option α} {f : α → Option β} (hx : x.isSome)
    (hf : ∀ a, (f a).isSome) : (x.bind f).isSome := by
  obtain ⟨a, rfl⟩ := Option.isSome_iff_exists.mp hx
  exact hf a

theorem isSome_bind_element {β : Type} {data : Json} {i : Nat} {f : Json → Option β}
    (hx : (element data i).isSome) (hf : ∀ v, (f v).isSome) :
    ((arr data).bind fun xs => xs[i]?.bind f).isSome := by
  rw [← Option.bind_assoc]
  exact isSome_bind_of hx hf

def VerificationCreated.payload : PayloadDecoder VerificationCreated where
  decode := decodeVerificationCreated
  fields := [
    ⟨0, .u64, fun d => .int d.verificationId⟩,
    ⟨1, .str, fun d => .str d.batchHex⟩,
    ⟨2, .str, fun d => .str d.subject⟩,
    ⟨3, .str, fun d => .str d.proofHash⟩,
    ⟨4, .str, fun d => .str d.issuer⟩,
    ⟨5, .i64, fun d => .int d.issuedLedger⟩]
  reads := by
    intro event d h
    simp only [decodeVerificationCreated, Option.bind_eq_bind, Option.bind_eq_some_iff,
      Option.pure_def, Option.some.injEq] at h
    obtain ⟨_, h₀, _, h₁, _, h₂, _, h₃, _, h₄, _, h₅, rfl⟩ := h
    simp [h₀, h₁, h₂, h₃, h₄, h₅]
  accepts := by
    intro event h
    simp only [List.forall_mem_cons, Field.read_u64, Field.read_str, Field.read_i64,
      Option.isSome_map] at h
    obtain ⟨h₀, h₁, h₂, h₃, h₄, h₅, _⟩ := h
    exact isSome_bind_of h₀ fun _ => isSome_bind_of h₁ fun _ => isSome_bind_of h₂ fun _ =>
      isSome_bind_of h₃ fun _ => isSome_bind_of h₄ fun _ => isSome_bind_of h₅ fun _ => rfl

def VerificationRevoked.payload : PayloadDecoder VerificationRevoked where
  decode := decodeVerificationRevoked
  fields := [
    ⟨0, .u64, fun d => .int d.verificationId⟩,
    ⟨3, .i64, fun d => .int d.revokedLedger⟩]
  reads := by
    intro event d h
    simp only [decodeVerificationRevoked, Option.bind_eq_bind, Option.bind_eq_some_iff,
      Option.pure_def, Option.some.injEq] at h
    obtain ⟨_, h₀, _, h₃, rfl⟩ := h
    simp [h₀, h₃]
  accepts := by
    intro event h
    simp only [List.forall_mem_cons, Field.read_u64, Field.read_i64, Option.isSome_map] at h
    obtain ⟨h₀, h₃, _⟩ := h
    exact isSome_bind_of h₀ fun _ => isSome_bind_of h₃ fun _ => rfl

def EscrowCreated.payload : PayloadDecoder EscrowCreated where
  decode := decodeEscrowCreated
  fields := [
    ⟨0, .u64, fun d => .int d.escrowId⟩,
    ⟨1, .str, fun d => .str d.depositor⟩,
    ⟨2, .str, fun d => .str d.beneficiary⟩,
    ⟨3, .i64, fun d => .int d.amount⟩,
    ⟨4, .i32, fun d => .int d.conditionKind⟩,
    ⟨7, .str, fun d => .str d.bookingRefHex⟩,
    ⟨8, .i64, fun d => .int d.createdLedger⟩,
    ⟨9, .i64, fun d => .int d.updatedLedger⟩]
  reads := by
    intro event d h
    simp only [decodeEscrowCreated, Option.bind_eq_bind, Option.bind_eq_some_iff,
      Option.pure_def, Option.some.injEq] at h
    obtain ⟨_, h₀, _, h₁, _, h₂, _, h₃, _, h₄, _, h₇, _, h₈, _, h₉, rfl⟩ := h
    simp [h₀, h₁, h₂, h₃, h₄, h₇, h₈, h₉]
  accepts := by
    intro event h
    simp only [List.forall_mem_cons, Field.read_u64, Field.read_str, Field.read_i64,
      Field.read_i32, Option.isSome_map] at h
    obtain ⟨h₀, h₁, h₂, h₃, h₄, h₇, h₈, h₉, _⟩ := h
    exact isSome_bind_of h₀ fun _ => isSome_bind_of h₁ fun _ => isSome_bind_of h₂ fun _ =>
      isSome_bind_of h₃ fun _ => isSome_bind_of h₄ fun _ => isSome_bind_of h₇ fun _ =>
      isSome_bind_of h₈ fun _ => isSome_bind_of h₉ fun _ => rfl

def EscrowDeposited.payload : PayloadDecoder EscrowDeposited where
  decode := decodeEscrowDeposited
  fields := [
    ⟨0, .u64, fun d => .int d.escrowId⟩,
    ⟨2, .i64, fun d => .int d.amount⟩,
    ⟨3, .i64, fun d => .int d.updatedLedger⟩]
  reads := by
    intro event d h
    simp only [decodeEscrowDeposited, Option.bind_eq_bind, Option.bind_eq_some_iff,
      Option.pure_def, Option.some.injEq] at h
    obtain ⟨_, h₀, _, h₂, _, h₃, rfl⟩ := h
    simp [h₀, h₂, h₃]
  accepts := by
    intro event h
    simp only [List.forall_mem_cons, Field.read_u64, Field.read_i64, Option.isSome_map] at h
    obtain ⟨h₀, h₂, h₃, _⟩ := h
    exact isSome_bind_of h₀ fun _ => isSome_bind_of h₂ fun _ => isSome_bind_of h₃ fun _ => rfl

def EscrowReleased.payload : PayloadDecoder EscrowReleased where
  decode := decodeEscrowReleased
  fields := [
    ⟨0, .u64, fun d => .int d.escrowId⟩,
    ⟨2, .i64, fun d => .int d.releasedAmount⟩,
    ⟨3, .i64, fun d => .int d.updatedLedger⟩]
  reads := by
    intro event d h
    simp only [decodeEscrowReleased, Option.bind_eq_bind, Option.bind_eq_some_iff,
      Option.pure_def, Option.some.injEq] at h
    obtain ⟨_, h₀, _, h₂, _, h₃, rfl⟩ := h
    simp [h₀, h₂, h₃]
  accepts := by
    intro event h
    simp only [List.forall_mem_cons, Field.read_u64, Field.read_i64, Option.isSome_map] at h
    obtain ⟨h₀, h₂, h₃, _⟩ := h
    exact isSome_bind_of h₀ fun _ => isSome_bind_of h₂ fun _ => isSome_bind_of h₃ fun _ => rfl

def EscrowRefunded.payload : PayloadDecoder EscrowRefunded where
  decode := decodeEscrowRefunded
  fields := [
    ⟨0, .u64, fun d => .int d.escrowId⟩,
    ⟨3, .i64, fun d => .int d.updatedLedger⟩]
  reads := by
    intro event d h
    simp only [decodeEscrowRefunded, Option.bind_eq_bind, Option.bind_eq_some_iff,
      Option.pure_def, Option.some.injEq] at h
    obtain ⟨_, h₀, _, h₃, rfl⟩ := h
    simp [h₀, h₃]
  accepts := by
    intro event h
    simp only [List.forall_mem_cons, Field.read_u64, Field.read_i64, Option.isSome_map] at h
    obtain ⟨h₀, h₃, _⟩ := h
    exact isSome_bind_of h₀ fun _ => isSome_bind_of h₃ fun _ => rfl

def FinancingCreated.payload : PayloadDecoder FinancingCreated where
  decode := decodeFinancingCreated
  fields := [
    ⟨0, .u64, fun d => .int d.financingId⟩,
    ⟨1, .str, fun d => .str d.funder⟩,
    ⟨2, .str, fun d => .str d.beneficiary⟩,
    ⟨3, .i64, fun d => .int d.totalAmount⟩,
    ⟨4, .i64, fun d => .int d.drawnAmount⟩,
    ⟨5, .i32, fun d => .int d.milestoneCount⟩,
    ⟨6, .json, fun d => .json d.milestones⟩,
    ⟨8, .i64, fun d => .int d.repaidAmount⟩,
    ⟨9, .bool, fun d => .bool d.defaulted⟩]
  reads := by
    intro event d h
    simp only [decodeFinancingCreated, Option.bind_eq_bind, Option.bind_eq_some_iff,
      Option.pure_def, Option.some.injEq] at h
    obtain ⟨_, h₀, _, h₁, _, h₂, _, h₃, _, h₄, _, h₅, _, hxs, _, h₆, _, h₈, _, h₉, rfl⟩ := h
    have hel : element event.data 6 = some _ := Option.bind_eq_some_iff.mpr ⟨_, hxs, h₆⟩
    simp [h₀, h₁, h₂, h₃, h₄, h₅, hel, h₈, h₉]
  accepts := by
    intro event h
    simp only [List.forall_mem_cons, Field.read_u64, Field.read_str, Field.read_i64,
      Field.read_i32, Field.read_json, Field.read_bool, Option.isSome_map] at h
    obtain ⟨h₀, h₁, h₂, h₃, h₄, h₅, h₆, h₈, h₉, _⟩ := h
    exact isSome_bind_of h₀ fun _ => isSome_bind_of h₁ fun _ => isSome_bind_of h₂ fun _ =>
      isSome_bind_of h₃ fun _ => isSome_bind_of h₄ fun _ => isSome_bind_of h₅ fun _ =>
      isSome_bind_element h₆ fun _ => isSome_bind_of h₈ fun _ => isSome_bind_of h₉ fun _ => rfl

def FinancingDeposited.payload : PayloadDecoder FinancingDeposited where
  decode := decodeFinancingDeposited
  fields := [
    ⟨0, .u64, fun d => .int d.financingId⟩,
    ⟨1, .i64, fun d => .int d.amount⟩,
    ⟨2, .i64, fun d => .int d.updatedLedger⟩]
  reads := by
    intro event d h
    simp only [decodeFinancingDeposited, Option.bind_eq_bind, Option.bind_eq_some_iff,
      Option.pure_def, Option.some.injEq] at h
    obtain ⟨_, h₀, _, h₁, _, h₂, rfl⟩ := h
    simp [h₀, h₁, h₂]
  accepts := by
    intro event h
    simp only [List.forall_mem_cons, Field.read_u64, Field.read_i64, Option.isSome_map] at h
    obtain ⟨h₀, h₁, h₂, _⟩ := h
    exact isSome_bind_of h₀ fun _ => isSome_bind_of h₁ fun _ => isSome_bind_of h₂ fun _ => rfl

def FinancingReleased.payload : PayloadDecoder FinancingReleased where
  decode := decodeFinancingReleased
  fields := [
    ⟨0, .u64, fun d => .int d.financingId⟩,
    ⟨1, .i64, fun d => .int d.releasedAmount⟩,
    ⟨2, .i64, fun d => .int d.updatedLedger⟩]
  reads := by
    intro event d h
    simp only [decodeFinancingReleased, Option.bind_eq_bind, Option.bind_eq_some_iff,
      Option.pure_def, Option.some.injEq] at h
    obtain ⟨_, h₀, _, h₁, _, h₂, rfl⟩ := h
    simp [h₀, h₁, h₂]
  accepts := by
    intro event h
    simp only [List.forall_mem_cons, Field.read_u64, Field.read_i64, Option.isSome_map] at h
    obtain ⟨h₀, h₁, h₂, _⟩ := h
    exact isSome_bind_of h₀ fun _ => isSome_bind_of h₁ fun _ => isSome_bind_of h₂ fun _ => rfl

def FinancingRefunded.payload : PayloadDecoder FinancingRefunded where
  decode := decodeFinancingRefunded
  fields := [
    ⟨0, .u64, fun d => .int d.financingId⟩,
    ⟨1, .i64, fun d => .int d.refundedAmount⟩,
    ⟨2, .bool, fun d => .bool d.defaulted⟩]
  reads := by
    intro event d h
    simp only [decodeFinancingRefunded, Option.bind_eq_bind, Option.bind_eq_some_iff,
      Option.pure_def, Option.some.injEq] at h
    obtain ⟨_, h₀, _, h₁, _, h₂, rfl⟩ := h
    simp [h₀, h₁, h₂]
  accepts := by
    intro event h
    simp only [List.forall_mem_cons, Field.read_u64, Field.read_i64, Field.read_bool,
      Option.isSome_map] at h
    obtain ⟨h₀, h₁, h₂, _⟩ := h
    exact isSome_bind_of h₀ fun _ => isSome_bind_of h₁ fun _ => isSome_bind_of h₂ fun _ => rfl

/-- The decoder with an `i32` field is exact unless all elements are accepted and the
one of that field is beyond 32 bits. -/
theorem PayloadDecoder.exact_iff_i32 {D : Type} (P : PayloadDecoder D) {f : Field D}
    (hf : f ∈ P.fields) (htype : f.type = .i32)
    (hothers : ∀ g ∈ P.fields, g.type = .i32 → g = f) (event : ChainEvent) :
    P.Exact event ↔
      ((∀ g ∈ P.fields, g.FitsIn g.type.accepted event.data) → f.FitsIn .i32 event.data) := by
  rw [exact_iff]
  refine imp_congr_right fun haccepted => ?_
  constructor
  · intro h
    exact htype ▸ h f hf
  · intro h g hg
    by_cases hgt : g.type = .i32
    · rw [hothers g hg hgt, htype]
      exact h
    · have hsame : g.type.accepted = g.type := by
        cases hty : g.type with
        | i32 => exact absurd hty hgt
        | u64 | i64 | str | bool | json => rfl
      exact hsame ▸ haccepted g hg

/-- **Payload decoding**: eight decoders are exact on every event; those of the two
Created events with an `i32` are unless every mandatory element is accepted and
that one is beyond 32 bits. -/
theorem payloads_exact_iff (event : ChainEvent) :
    VerificationCreated.payload.Exact event ∧ VerificationRevoked.payload.Exact event ∧
      EscrowDeposited.payload.Exact event ∧ EscrowReleased.payload.Exact event ∧
      EscrowRefunded.payload.Exact event ∧ FinancingDeposited.payload.Exact event ∧
      FinancingReleased.payload.Exact event ∧ FinancingRefunded.payload.Exact event ∧
      (EscrowCreated.payload.Exact event ↔
        ((∀ f ∈ EscrowCreated.payload.fields, f.FitsIn f.type.accepted event.data) →
          ∃ v, element event.data 4 = some v ∧ FieldType.i32.Fits v)) ∧
      (FinancingCreated.payload.Exact event ↔
        ((∀ f ∈ FinancingCreated.payload.fields, f.FitsIn f.type.accepted event.data) →
          ∃ v, element event.data 5 = some v ∧ FieldType.i32.Fits v)) := by
  have hplain : ∀ {D : Type} (P : PayloadDecoder D),
      (∀ f ∈ P.fields, f.type.accepted = f.type) → P.Exact event :=
    fun P h => P.exact_of_no_i32 h event
  refine ⟨hplain _ ?_, hplain _ ?_, hplain _ ?_, hplain _ ?_, hplain _ ?_, hplain _ ?_,
    hplain _ ?_, hplain _ ?_, ?_, ?_⟩
  · simp [VerificationCreated.payload, FieldType.accepted]
  · simp [VerificationRevoked.payload, FieldType.accepted]
  · simp [EscrowDeposited.payload, FieldType.accepted]
  · simp [EscrowReleased.payload, FieldType.accepted]
  · simp [EscrowRefunded.payload, FieldType.accepted]
  · simp [FinancingDeposited.payload, FieldType.accepted]
  · simp [FinancingReleased.payload, FieldType.accepted]
  · simp [FinancingRefunded.payload, FieldType.accepted]
  · exact EscrowCreated.payload.exact_iff_i32 (f := ⟨4, .i32, fun d => .int d.conditionKind⟩)
      (by simp [EscrowCreated.payload]) rfl (by simp [EscrowCreated.payload]) event
  · exact FinancingCreated.payload.exact_iff_i32 (f := ⟨5, .i32, fun d => .int d.milestoneCount⟩)
      (by simp [FinancingCreated.payload]) rfl (by simp [FinancingCreated.payload]) event

/-- The condition kind 4294967297. -/
def wideKind : ChainEvent :=
  ⟨"CE", "escrow", "EscrowCreated", 100, 0, 0, .arr [], .arr [.int 11, .str "GD", .str "GB",
    .int 100, .int 4294967297, .str "GR", .int 0, .str "b1", .int 100, .int 100]⟩

/-- It is decoded as 1. -/
theorem wideKind_not_exact : ¬ EscrowCreated.payload.Exact wideKind := by
  intro h
  obtain ⟨d, hd⟩ : ∃ d, decodeEscrowCreated wideKind = some d := ⟨_, rfl⟩
  obtain ⟨v, hv, hfits, _⟩ := h d hd ⟨4, .i32, fun d => .int d.conditionKind⟩
    (by simp [EscrowCreated.payload])
  cases hv
  obtain ⟨n, hn, hin⟩ := hfits
  cases hn
  exact absurd hin.2 (by decide)

end VerdantBackend
