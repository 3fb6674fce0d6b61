import VerdantBackend.Indexer.FinalOnly
import VerdantBackend.Indexer.PayloadFields
import VerdantBackend.Indexer.Rounds

/-!
# What the columns hold

A payload comes from the chain, and a row goes into columns of fixed types. The
accessors of the decoders and the arithmetic of `BIGINT` keep every number within its
column, and an event is only stored when its texts are texts of the database: no row
that is built is beyond what its table can hold.
-/

namespace VerdantBackend

open Prog

/-- A column of the type can hold the value. -/
def FieldType.Holds : FieldType → FieldValue → Prop
  | .u64, .int n => 0 ≤ n ∧ n < 2 ^ 64
  | .i64, .int n => InI64 n
  | .i32, .int n => InI32 n
  | .str, .str s => hasNul s = false
  | .bool, .bool _ => True
  | .json, .json v => v.hasNul = false
  | _, _ => False

/-- A value for a column that is not `NULL`. -/
abbrev Cell : Type := FieldType × FieldValue

def Cell.Fits (c : Cell) : Prop := c.1.Holds c.2

/-- A nullable column. -/
def nullable {α : Type} (t : FieldType) (mk : α → FieldValue) (value : Option α) : List Cell :=
  value.toList.map fun a => (t, mk a)

theorem asI32_inI32 (n : Int) : InI32 (asI32 n) := by
  have hlow := Int.le_bmod (x := n) (m := 2 ^ 32) (by decide)
  have hhigh := Int.bmod_lt (x := n) (m := 2 ^ 32) (by decide)
  constructor
  · show _ ≤ Int.bmod n (2 ^ 32)
    omega
  · show Int.bmod n (2 ^ 32) < _
    omega

theorem FieldType.read_u64_holds {v : Json} {value : FieldValue}
    (h : FieldType.u64.read v = some value) : FieldType.u64.Holds value := by
  obtain ⟨n, hn, rfl⟩ := Option.map_eq_some_iff.mp h
  cases v with
  | num m =>
      rw [Json.asU64, Option.ite_none_right_eq_some, Option.some.injEq] at hn
      have hupper := m.upper
      obtain ⟨hpos, rfl⟩ := hn
      show 0 ≤ ((m.val.toNat : Nat) : Int) ∧ _ < _
      omega
  | null | bool _ | float _ | str _ | arr _ | obj _ => cases hn

/-- What an accessor returns fits a column of its type. -/
theorem FieldType.read_holds {t : FieldType} {v : Json} {value : FieldValue}
    (h : t.read v = some value) (hv : v.hasNul = false) : t.Holds value := by
  cases t with
  | json =>
      cases h
      exact hv
  | u64 => exact read_u64_holds h
  | i64 =>
      obtain ⟨n, hn, rfl⟩ := Option.map_eq_some_iff.mp h
      cases v with
      | num m =>
          rw [Json.asI64, Option.ite_none_right_eq_some, Option.some.injEq] at hn
          obtain ⟨hlt, rfl⟩ := hn
          exact ⟨m.lower, hlt⟩
      | null | bool _ | float _ | str _ | arr _ | obj _ => cases hn
  | i32 =>
      obtain ⟨n, _, rfl⟩ := Option.map_eq_some_iff.mp h
      exact asI32_inI32 n
  | str =>
      obtain ⟨s, hs, rfl⟩ := Option.map_eq_some_iff.mp h
      cases v with
      | str s' =>
          cases hs
          rw [Json.hasNul] at hv
          exact hv
      | null | bool _ | float _ | num _ | arr _ | obj _ => cases hs
  | bool =>
      obtain ⟨b, _, rfl⟩ := Option.map_eq_some_iff.mp h
      trivial

theorem itemsHaveNul_eq_false {items : List Json} :
    itemsHaveNul items = false ↔ ∀ v ∈ items, v.hasNul = false := by
  induction items with
  | nil => simp [itemsHaveNul]
  | cons v items ih => simp [itemsHaveNul, ih]

theorem element_hasNul {data v : Json} {i : Nat} (h : element data i = some v)
    (hdata : data.hasNul = false) : v.hasNul = false := by
  obtain ⟨items, hitems, hv⟩ := Option.bind_eq_some_iff.mp h
  cases data with
  | arr items' =>
      cases hitems
      rw [Json.hasNul, itemsHaveNul_eq_false] at hdata
      exact hdata v (List.mem_of_getElem? hv)
  | null | bool _ | float _ | num _ | str _ | obj _ => cases hitems

/-- What a decoder returns fits columns of the fields' types. -/
theorem PayloadDecoder.holds {D : Type} (P : PayloadDecoder D) {e : ChainEvent} {d : D}
    (h : P.decode e = some d) (hdata : e.data.hasNul = false) :
    ∀ f ∈ P.fields, f.type.Holds (f.value d) := by
  intro f hf
  obtain ⟨v, hv, hread⟩ := Option.bind_eq_some_iff.mp (P.reads h f hf)
  exact FieldType.read_holds hread (element_hasNul hv hdata)

theorem getStr_hasNul {data : Json} {i : Nat} {s : String} (h : getStr data i = some s)
    (hdata : data.hasNul = false) : hasNul s = false := by
  have hread : (⟨i, .str, fun _ => .str s⟩ : Field Unit).read data = some (.str s) := by
    rw [Field.read_str, h, Option.map_some]
  obtain ⟨v, hv, hread⟩ := Option.bind_eq_some_iff.mp hread
  exact FieldType.read_holds (t := .str) hread (element_hasNul hv hdata)

theorem getI64_inI64 {data : Json} {i : Nat} {n : Int} (h : getI64 data i = some n)
    (hdata : data.hasNul = false) : InI64 n := by
  have hread : (⟨i, .i64, fun _ => .int n⟩ : Field Unit).read data = some (.int n) := by
    rw [Field.read_i64, h, Option.map_some]
  obtain ⟨v, hv, hread⟩ := Option.bind_eq_some_iff.mp hread
  exact FieldType.read_holds (t := .i64) hread (element_hasNul hv hdata)

/-! ## What an event decodes to -/

/-- The change is what the event's payload says. -/
def Change.DecodedFrom (e : ChainEvent) : Change → Prop
  | .verification (.created contractId d) =>
    contractId = e.contractId ∧ decodeVerificationCreated e = some d
  | .verification (.revoked d) => decodeVerificationRevoked e = some d
  | .escrow (.created contractId d) =>
    contractId = e.contractId ∧ decodeEscrowCreated e = some d
  | .escrow (.deposited d) => decodeEscrowDeposited e = some d
  | .escrow (.released d) => decodeEscrowReleased e = some d
  | .escrow (.refunded d) => decodeEscrowRefunded e = some d
  | .financing (.created contractId d) =>
    contractId = e.contractId ∧ decodeFinancingCreated e = some d
  | .financing (.deposited d) => decodeFinancingDeposited e = some d
  | .financing (.released d) => decodeFinancingReleased e = some d
  | .financing (.refunded d) => decodeFinancingRefunded e = some d
  | .identity (.registered address data) | .identity (.metadataUpdated address data)
  | .identity (.markerSet address data) => identityTopics e = some address ∧ data = e.data

theorem decodedOr_bind_ok {α : Type} {x : Option α} {msg : String} {f : α → Change} {c : Change} :
    (do let d ← decodedOr x msg; return some (f d) : Except SqlxError (Option Change)) =
      .ok (some c) ↔ ∃ d, x = some d ∧ c = f d := by
  cases x with
  | none => simp [decodedOr, Bind.bind, Except.bind]
  | some d => simp [decodedOr, Bind.bind, Except.bind, pure, Except.pure, eq_comm]

theorem decodeEvent_decodedFrom {e : ChainEvent} {c : Change}
    (h : decodeEvent e = .ok (some c)) : c.DecodedFrom e := by
  rw [decodeEvent] at h
  split at h
  case h_14 => cases h
  all_goals
    obtain ⟨d, hd, rfl⟩ := decodedOr_bind_ok.mp h
    first
      | exact hd
      | exact ⟨rfl, hd⟩
      | exact ⟨hd, rfl⟩

/-! ## Counters -/

theorem PayloadDecoder.counter_lt {D : Type} (P : PayloadDecoder D) {e : ChainEvent} {d : D}
    {n : D → Nat} (h : P.decode e = some d) (hf : ⟨0, .u64, fun d => .int (n d)⟩ ∈ P.fields) :
    n d < 2 ^ 64 := by
  obtain ⟨v, _, hread⟩ := Option.bind_eq_some_iff.mp (P.reads h _ hf)
  have hholds : 0 ≤ (n d : Int) ∧ (n d : Int) < 2 ^ 64 := FieldType.read_u64_holds hread
  omega

theorem VerificationChange.counter_lt {c : VerificationChange} {e : ChainEvent}
    (h : decodeEvent e = .ok (some (.verification c))) : c.counter < 2 ^ 64 := by
  have hdec := decodeEvent_decodedFrom h
  cases c with
  | created contractId d => exact VerificationCreated.payload.counter_lt hdec.2 (.head _)
  | revoked d => exact VerificationRevoked.payload.counter_lt hdec (.head _)

theorem EscrowChange.counter_lt {c : EscrowChange} {e : ChainEvent}
    (h : decodeEvent e = .ok (some (.escrow c))) : c.counter < 2 ^ 64 := by
  have hdec := decodeEvent_decodedFrom h
  cases c with
  | created contractId d => exact EscrowCreated.payload.counter_lt hdec.2 (.head _)
  | deposited d => exact EscrowDeposited.payload.counter_lt hdec (.head _)
  | released d => exact EscrowReleased.payload.counter_lt hdec (.head _)
  | refunded d => exact EscrowRefunded.payload.counter_lt hdec (.head _)

theorem FinancingChange.counter_lt {c : FinancingChange} {e : ChainEvent}
    (h : decodeEvent e = .ok (some (.financing c))) : c.counter < 2 ^ 64 := by
  have hdec := decodeEvent_decodedFrom h
  cases c with
  | created contractId d => exact FinancingCreated.payload.counter_lt hdec.2 (.head _)
  | deposited d => exact FinancingDeposited.payload.counter_lt hdec (.head _)
  | released d => exact FinancingReleased.payload.counter_lt hdec (.head _)
  | refunded d => exact FinancingRefunded.payload.counter_lt hdec (.head _)

/-! ## Rows -/

def VerificationRow.cells (row : VerificationRow) : List Cell :=
  [(.str, .str row.contractId), (.str, .str row.batchId), (.str, .str row.subject),
    (.str, .str row.proofHash), (.str, .str row.issuer), (.i64, .int row.issuedLedger),
    (.bool, .bool row.revoked)] ++ nullable .i64 .int row.revokedLedger

def EscrowStatus.text : EscrowStatus → String
  | .opened => "open"
  | .released => "released"
  | .refunded => "refunded"

def EscrowRow.cells (row : EscrowRow) : List Cell :=
  [(.str, .str row.contractId), (.str, .str row.depositor), (.str, .str row.beneficiary),
    (.i64, .int row.amount), (.i64, .int row.releasedAmount), (.str, .str row.bookingRef),
    (.i32, .int row.conditionKind), (.i64, .int row.createdLedger),
    (.i64, .int row.updatedLedger), (.str, .str row.status.text)] ++
    nullable .str .str row.conditionReleaser ++ nullable .i64 .int row.conditionTimeoutLedger

def FinancingStatus.text : FinancingStatus → String
  | .active => "active"
  | .defaulted => "defaulted"
  | .refunded => "refunded"

def FinancingRow.cells (row : FinancingRow) : List Cell :=
  [(.str, .str row.contractId), (.str, .str row.funder), (.str, .str row.beneficiary),
    (.i64, .int row.totalAmount), (.i64, .int row.drawnAmount), (.i32, .int row.milestoneCount),
    (.json, .json row.milestones), (.i64, .int row.repaidAmount), (.bool, .bool row.defaulted),
    (.str, .str row.status.text)] ++
    nullable .i64 .int row.drawnLedger ++ nullable .i64 .int row.defaultedLedger ++
    nullable .i64 .int row.updatedLedger

/-- Every column can hold its value. -/
def FitColumns (cells : List Cell) : Prop := ∀ c ∈ cells, c.Fits

theorem fitColumns_append {l l' : List Cell} :
    FitColumns (l ++ l') ↔ FitColumns l ∧ FitColumns l' :=
  List.forall_mem_append

theorem fitColumns_cons {c : Cell} {l : List Cell} :
    FitColumns (c :: l) ↔ c.1.Holds c.2 ∧ FitColumns l :=
  List.forall_mem_cons

theorem fitColumns_nil : FitColumns [] := by simp [FitColumns]

theorem fitColumns_nullable {α : Type} {t : FieldType} {mk : α → FieldValue} {value : Option α} :
    FitColumns (nullable t mk value) ↔ ∀ a ∈ value, t.Holds (mk a) := by
  simp [FitColumns, nullable, Cell.Fits]

theorem VerificationRow.fits_iff {row : VerificationRow} :
    FitColumns row.cells ↔ hasNul row.contractId = false ∧ hasNul row.batchId = false ∧
      hasNul row.subject = false ∧ hasNul row.proofHash = false ∧ hasNul row.issuer = false ∧
      InI64 row.issuedLedger ∧ ∀ l ∈ row.revokedLedger, InI64 l := by
  simp only [cells, fitColumns_append, fitColumns_cons, fitColumns_nullable, fitColumns_nil,
    FieldType.Holds, and_assoc, true_and]

theorem EscrowStatus.text_hasNul (status : EscrowStatus) : hasNul status.text = false := by
  cases status <;> rfl

theorem EscrowRow.fits_iff {row : EscrowRow} :
    FitColumns row.cells ↔ (hasNul row.contractId = false ∧ hasNul row.depositor = false ∧
      hasNul row.beneficiary = false ∧ hasNul row.bookingRef = false ∧ InI32 row.conditionKind ∧
      InI64 row.createdLedger ∧ (∀ s ∈ row.conditionReleaser, hasNul s = false) ∧
      ∀ l ∈ row.conditionTimeoutLedger, InI64 l) ∧
      InI64 row.amount ∧ InI64 row.releasedAmount ∧ InI64 row.updatedLedger := by
  simp only [cells, fitColumns_append, fitColumns_cons, fitColumns_nullable, fitColumns_nil,
    FieldType.Holds, EscrowStatus.text_hasNul, and_true]
  tauto

theorem FinancingStatus.text_hasNul (status : FinancingStatus) : hasNul status.text = false := by
  cases status <;> rfl

theorem FinancingRow.fits_iff {row : FinancingRow} :
    FitColumns row.cells ↔ (hasNul row.contractId = false ∧ hasNul row.funder = false ∧
      hasNul row.beneficiary = false ∧ InI64 row.totalAmount ∧ InI32 row.milestoneCount ∧
      row.milestones.hasNul = false ∧ InI64 row.repaidAmount) ∧
      InI64 row.drawnAmount ∧ (∀ l ∈ row.drawnLedger, InI64 l) ∧
      (∀ l ∈ row.defaultedLedger, InI64 l) ∧ ∀ l ∈ row.updatedLedger, InI64 l := by
  simp only [cells, fitColumns_append, fitColumns_cons, fitColumns_nullable, fitColumns_nil,
    FieldType.Holds, FinancingStatus.text_hasNul, and_true]
  tauto

section
variable {uuid : String → Option String}

theorem renderUuid7Ref_hasNul (huuid : ∀ s t, uuid s = some t → hasNul t = false)
    {kind hex : String} (hkind : hasNul kind = false) (hhex : hasNul hex = false) :
    hasNul (renderUuid7Ref uuid kind hex) = false := by
  rw [renderUuid7Ref, hasNul_append, hasNul_append, hasNul_append, hkind]
  cases h : uuid hex with
  | none => simp [hhex, show hasNul "va:" = false from rfl, show hasNul ":" = false from rfl]
  | some t =>
      simp [huuid hex t h, show hasNul "va:" = false from rfl, show hasNul ":" = false from rfl]

theorem ChainEvent.storable_iff {e : ChainEvent} :
    e.storable = true ↔ hasNul e.contractId = false ∧ hasNul e.contractName = false ∧
      hasNul e.eventName = false ∧ e.topics.hasNul = false ∧ e.data.hasNul = false := by
  simp [ChainEvent.storable, and_assoc]

theorem VerificationChange.keeps_columns (huuid : ∀ s t, uuid s = some t → hasNul t = false)
    {c : VerificationChange} {e : ChainEvent} (hst : e.storable = true)
    (hdec : (Change.verification c).DecodedFrom e) {old : Option VerificationRow}
    (hold : ∀ row ∈ old, FitColumns row.cells) :
    ∀ row ∈ (c.toRow uuid).after old, FitColumns row.cells := by
  obtain ⟨hcontract, _, _, _, hdata⟩ := ChainEvent.storable_iff.mp hst
  cases c with
  | created contractId d =>
      obtain ⟨rfl, hd⟩ := hdec
      have hfields := VerificationCreated.payload.holds hd hdata
      simp only [VerificationCreated.payload, List.forall_mem_cons, FieldType.Holds] at hfields
      obtain ⟨_, hbatch, hsubject, hproof, hissuer, hissued, _⟩ := hfields
      have hbatchId := renderUuid7Ref_hasNul huuid (show hasNul "batch" = false from rfl) hbatch
      intro row hrow
      cases hrow
      rw [VerificationRow.fits_iff]
      cases old with
      | none =>
          refine ⟨hcontract, hbatchId, hsubject, hproof, hissuer, hissued, ?_⟩
          rintro l ⟨⟩
      | some row =>
          have hrevoked := (VerificationRow.fits_iff.mp (hold row rfl)).2.2.2.2.2.2
          exact ⟨hcontract, hbatchId, hsubject, hproof, hissuer, hissued, hrevoked⟩
  | revoked d =>
      have hfields := VerificationRevoked.payload.holds hdec hdata
      simp only [VerificationRevoked.payload, List.forall_mem_cons, FieldType.Holds] at hfields
      intro row hrow
      obtain ⟨row', hrow', rfl⟩ := Option.map_eq_some_iff.mp hrow
      obtain ⟨h₁, h₂, h₃, h₄, h₅, h₆, _⟩ := VerificationRow.fits_iff.mp (hold row' hrow')
      rw [VerificationRow.fits_iff]
      refine ⟨h₁, h₂, h₃, h₄, h₅, h₆, ?_⟩
      rintro l ⟨⟩
      exact hfields.2.1

theorem EscrowChange.keeps_columns (huuid : ∀ s t, uuid s = some t → hasNul t = false)
    {c : EscrowChange} {e : ChainEvent} (hst : e.storable = true)
    (hdec : (Change.escrow c).DecodedFrom e) {old : Option EscrowRow}
    (hfits : (c.toRow uuid).Fits old) (hold : ∀ row ∈ old, FitColumns row.cells) :
    ∀ row ∈ (c.toRow uuid).after old, FitColumns row.cells := by
  obtain ⟨hcontract, _, _, _, hdata⟩ := ChainEvent.storable_iff.mp hst
  cases c with
  | created contractId d =>
      obtain ⟨rfl, hd⟩ := hdec
      have hfields := EscrowCreated.payload.holds hd hdata
      simp only [EscrowCreated.payload, List.forall_mem_cons, FieldType.Holds] at hfields
      obtain ⟨_, hdepositor, hbeneficiary, hamount, hkind, hbooking, hcreated, hupdated, _⟩ :=
        hfields
      have href := renderUuid7Ref_hasNul huuid (show hasNul "booking" = false from rfl) hbooking
      simp only [decodeEscrowCreated, Option.bind_eq_bind, Option.bind_eq_some_iff,
        Option.pure_def, Option.some.injEq] at hd
      obtain ⟨_, _, _, _, _, _, _, _, _, _, _, _, _, _, _, _, rfl⟩ := hd
      have hreleaser : ∀ s ∈ getStr e.data 5, hasNul s = false := fun s h => getStr_hasNul h hdata
      have htimeout : ∀ l ∈ getI64 e.data 6, InI64 l := fun l h => getI64_inI64 h hdata
      have hzero : InI64 0 := by decide
      intro row hrow
      cases hrow
      rw [EscrowRow.fits_iff]
      cases old with
      | none =>
          exact ⟨⟨hcontract, hdepositor, hbeneficiary, href, hkind, hcreated, hreleaser, htimeout⟩,
            hamount, hzero, hupdated⟩
      | some row =>
          exact ⟨⟨hcontract, hdepositor, hbeneficiary, href, hkind, hcreated, hreleaser, htimeout⟩,
            hamount, (EscrowRow.fits_iff.mp (hold row rfl)).2.2.1, hupdated⟩
  | deposited d =>
      have hfields := EscrowDeposited.payload.holds hdec hdata
      simp only [EscrowDeposited.payload, List.forall_mem_cons, FieldType.Holds] at hfields
      intro row hrow
      obtain ⟨row', hrow', rfl⟩ := Option.map_eq_some_iff.mp hrow
      obtain ⟨hterms, _, hreleased, _⟩ := EscrowRow.fits_iff.mp (hold row' hrow')
      rw [EscrowRow.fits_iff]
      exact ⟨hterms, hfits row' hrow', hreleased, hfields.2.2.1⟩
  | released d =>
      have hfields := EscrowReleased.payload.holds hdec hdata
      simp only [EscrowReleased.payload, List.forall_mem_cons, FieldType.Holds] at hfields
      intro row hrow
      obtain ⟨row', hrow', rfl⟩ := Option.map_eq_some_iff.mp hrow
      obtain ⟨hterms, hamount, _, _⟩ := EscrowRow.fits_iff.mp (hold row' hrow')
      rw [EscrowRow.fits_iff]
      exact ⟨hterms, hamount, hfits row' hrow', hfields.2.2.1⟩
  | refunded d =>
      have hfields := EscrowRefunded.payload.holds hdec hdata
      simp only [EscrowRefunded.payload, List.forall_mem_cons, FieldType.Holds] at hfields
      intro row hrow
      obtain ⟨row', hrow', rfl⟩ := Option.map_eq_some_iff.mp hrow
      obtain ⟨hterms, hamount, _, _⟩ := EscrowRow.fits_iff.mp (hold row' hrow')
      rw [EscrowRow.fits_iff]
      exact ⟨hterms, hamount, hamount, hfields.2.1⟩

theorem FinancingChange.keeps_columns {c : FinancingChange} {e : ChainEvent}
    (hst : e.storable = true) (hdec : (Change.financing c).DecodedFrom e)
    {old : Option FinancingRow} (hfits : c.toRow.Fits old)
    (hold : ∀ row ∈ old, FitColumns row.cells) :
    ∀ row ∈ c.toRow.after old, FitColumns row.cells := by
  obtain ⟨hcontract, _, _, _, hdata⟩ := ChainEvent.storable_iff.mp hst
  cases c with
  | created contractId d =>
      obtain ⟨rfl, hd⟩ := hdec
      have hfields := FinancingCreated.payload.holds hd hdata
      simp only [FinancingCreated.payload, List.forall_mem_cons, FieldType.Holds] at hfields
      obtain ⟨_, hfunder, hbeneficiary, htotal, hdrawn, hcount, hmilestones, hrepaid, _⟩ :=
        hfields
      simp only [decodeFinancingCreated, Option.bind_eq_bind, Option.bind_eq_some_iff,
        Option.pure_def, Option.some.injEq] at hd
      obtain ⟨_, _, _, _, _, _, _, _, _, _, _, _, _, _, _, _, _, _, _, _, rfl⟩ := hd
      have hledger : ∀ i, ∀ l ∈ getI64 e.data i, InI64 l := fun i l h => getI64_inI64 h hdata
      intro row hrow
      cases hrow
      rw [FinancingRow.fits_iff]
      cases old with
      | none | some row =>
          exact ⟨⟨hcontract, hfunder, hbeneficiary, htotal, hcount, hmilestones, hrepaid⟩,
            hdrawn, hledger 7, hledger 10, hledger 7⟩
  | deposited d =>
      have hfields := FinancingDeposited.payload.holds hdec hdata
      simp only [FinancingDeposited.payload, List.forall_mem_cons, FieldType.Holds] at hfields
      intro row hrow
      obtain ⟨row', hrow', rfl⟩ := Option.map_eq_some_iff.mp hrow
      obtain ⟨hterms, _, hdrawnAt, hdefaultedAt, _⟩ := FinancingRow.fits_iff.mp (hold row' hrow')
      rw [FinancingRow.fits_iff]
      refine ⟨hterms, hfits row' hrow', hdrawnAt, hdefaultedAt, ?_⟩
      rintro l ⟨⟩
      exact hfields.2.2.1
  | released d =>
      have hfields := FinancingReleased.payload.holds hdec hdata
      simp only [FinancingReleased.payload, List.forall_mem_cons, FieldType.Holds] at hfields
      intro row hrow
      obtain ⟨row', hrow', rfl⟩ := Option.map_eq_some_iff.mp hrow
      obtain ⟨hterms, _, _, hdefaultedAt, _⟩ := FinancingRow.fits_iff.mp (hold row' hrow')
      rw [FinancingRow.fits_iff]
      refine ⟨hterms, hfits row' hrow', ?_, hdefaultedAt, ?_⟩
      all_goals
        rintro l ⟨⟩
        exact hfields.2.2.1
  | refunded d =>
      have hledger : ∀ l ∈ d.defaultedLedger, InI64 l := by
        intro l h
        simp only [Change.DecodedFrom, decodeFinancingRefunded, Option.bind_eq_bind,
          Option.bind_eq_some_iff, Option.pure_def, Option.some.injEq] at hdec
        obtain ⟨_, _, _, _, _, _, rfl⟩ := hdec
        exact getI64_inI64 h hdata
      intro row hrow
      obtain ⟨row', hrow', rfl⟩ := Option.map_eq_some_iff.mp hrow
      obtain ⟨hterms, hdrawn, hdrawnAt, hdefaultedAt, hupdated⟩ :=
        FinancingRow.fits_iff.mp (hold row' hrow')
      have hleft := hfits row' hrow'
      rw [FinancingRow.fits_iff]
      refine ⟨hterms, ?_, hdrawnAt, ?_, hupdated⟩
      · constructor
        · exact le_max_of_le_right (by decide)
        · exact max_lt hleft.2 (by decide)
      · show ∀ l ∈ (d.defaultedLedger <|> row'.defaultedLedger), InI64 l
        cases hd : d.defaultedLedger with
        | none => exact hdefaultedAt
        | some l =>
            rw [hd] at hledger
            exact hledger

/-! ## Tables -/

/-- Every row is under the id of a counter, and fits its columns. -/
def TableFits {ρ : Type} (kindPrefix : String) (cells : ρ → List Cell) (t : Table String ρ) :
    Prop :=
  ∀ key row, t.lookup key = some row →
    (∃ n < 2 ^ 64, key = counterId kindPrefix n) ∧ FitColumns (cells row)

theorem TableFits.empty {ρ : Type} {kindPrefix : String} {cells : ρ → List Cell} :
    TableFits kindPrefix cells ∅ := by
  intro key row h
  cases h

theorem TableFits.change {ρ : Type} {kindPrefix : String} {cells : ρ → List Cell}
    {c : RowChange String ρ} {f : Table String ρ → Except SqlxError (Table String ρ)}
    {t t' : Table String ρ} {n : Nat} (hd : c.Describes f) (hn : n < 2 ^ 64)
    (hkey : c.key = counterId kindPrefix n)
    (hafter : ∀ old, c.Fits old → (∀ row ∈ old, FitColumns (cells row)) →
      ∀ row ∈ c.after old, FitColumns (cells row))
    (h : TableFits kindPrefix cells t) (ht : f t = .ok t') : TableFits kindPrefix cells t' := by
  intro key row hrow
  rw [hd.lookup ht] at hrow
  by_cases hk : c.key = key
  · subst hk
    rw [RowChange.on, if_pos rfl] at hrow
    refine ⟨⟨n, hn, hkey⟩, ?_⟩
    exact hafter _ ((hd.accepts t).mp ⟨t', ht⟩) (fun row' h' => (h _ row' h').2) row hrow
  · rw [RowChange.on_ne c hk] at hrow
    exact h key row hrow

/-- The three projections fit their columns. -/
structure Db.FitsColumns (db : Db) : Prop where
  verifications : TableFits VERIFICATION_PREFIX VerificationRow.cells db.verificationProjection
  escrows : TableFits ESCROW_PREFIX EscrowRow.cells db.escrowProjection
  financings : TableFits FINANCING_PREFIX FinancingRow.cells db.financingProjection

/-- **An applied event** leaves rows that fit. -/
theorem Db.FitsColumns.applyEvent (huuid : ∀ s t, uuid s = some t → hasNul t = false)
    {db db' : Db} {e : ChainEvent} {consumed : Bool} (h : db.FitsColumns)
    (hst : e.storable = true) (happly : applyEvent uuid db e = .ok (consumed, db')) :
    db'.FitsColumns := by
  rcases applyEvent_ok_iff.mp happly with ⟨_, _, rfl⟩ | ⟨c, hc, _, hb⟩
  · exact h
  have hdec := decodeEvent_decodedFrom hc
  cases c with
  | verification c =>
      obtain ⟨t, ht, rfl⟩ := Change.build_ok_iff.mp hb
      refine ⟨?_, h.escrows, h.financings⟩
      exact h.verifications.change (c.describes uuid) (c.counter_lt hc)
        (VerificationChange.toRow_key uuid c)
        (fun old _ hold => VerificationChange.keeps_columns huuid hst hdec hold) ht
  | escrow c =>
      obtain ⟨t, ht, rfl⟩ := Change.build_ok_iff.mp hb
      refine ⟨h.verifications, ?_, h.financings⟩
      exact h.escrows.change (c.describes uuid) (c.counter_lt hc)
        (EscrowChange.toRow_key uuid c)
        (fun old hfits hold => EscrowChange.keeps_columns huuid hst hdec hfits hold) ht
  | financing c =>
      obtain ⟨t, ht, rfl⟩ := Change.build_ok_iff.mp hb
      refine ⟨h.verifications, h.escrows, ?_⟩
      exact h.financings.change c.describes (c.counter_lt hc) (FinancingChange.toRow_key c)
        (fun old hfits hold => FinancingChange.keeps_columns hst hdec hfits hold) ht
  | identity c =>
      obtain ⟨t, ht, rfl⟩ := Change.build_ok_iff.mp hb
      exact ⟨h.verifications, h.escrows, h.financings⟩

/-! ## In the pool -/

/-- Only storable events are applied, and only such are selected. -/
def AppliesStorable : IndexerStmt → Prop
  | .applyEvent e => e.storable = true
  | _ => True

def SelectsStorable : (q : IndexerStmt) → q.Res → Prop
  | .selectFinalized _ _, events => ∀ e ∈ events, e.storable = true
  | _, _ => True

theorem ingest_appliesStorable (c : String) :
    IngestTerms AppliesStorable SelectsStorable c (fun _ => True) (fun _ => True)
      (fun _ => True) (fun e => e.storable = true) where
  selectCursor := trivial
  start := trivial
  resume _ _ := trivial
  eventsAfter _ _ := trivial
  pulled _ _ _ _ _ := trivial
  headLedger := trivial
  floor _ _ := trivial
  insertEvent _ _ := trivial
  upsertCursor _ _ := trivial
  selectFinalized _ _ := trivial
  final _ _ _ h := h
  applyEvent _ h := h

theorem rewind_appliesStorable (c : String) (d : Int) :
    Issues AppliesStorable SelectsStorable (fun _ => True) (rewind c d) := by
  have hevents : AppliesStorable (.deleteEvents c d) := trivial
  apply (issues_call (I := indexer) hevents).bind
  intro _ _
  have hcursor : AppliesStorable (.deleteCursor c) := trivial
  exact issues_call (I := indexer) hcursor

theorem IndexerOp.appliesStorable (op : IndexerOp) :
    Issues AppliesStorable SelectsStorable (fun _ => True) op.prog := by
  cases op with
  | ingest c => exact (ingest_appliesStorable c).ingest_issues.erase
  | rewind c d => exact (rewind_appliesStorable c d).erase

/-- Stored events are storable, and the rows fit. -/
def fittingRows {ι : Type} : Pool.Guarantee indexer World ι where
  inv w := (∀ e ∈ w.db.indexedEvents.rows, e.storable = true) ∧ w.db.FitsColumns
  later _ _ := True
  allowed _ _ := AppliesStorable
  promised _ := SelectsStorable

theorem execWorld_fits (huuid : ∀ s t, uuid s = some t → hasNul t = false) {q : IndexerStmt}
    {a : q.Res} {w w' : World} (hw : w.db.FitsColumns) (hq : AppliesStorable q)
    (h : execWorld uuid q w = .ok (a, w')) : w'.db.FitsColumns := by
  obtain ⟨db, hx, rfl⟩ := execWorld_ok_iff.mp h
  cases q with
  | applyEvent e => exact hw.applyEvent huuid hq hx
  | selectCursor _ | eventsAfter _ _ | headLedger | insertEvent _ | upsertCursor _ _
  | selectFinalized _ _ | deleteEvents _ _ | deleteCursor _ =>
      have hv : db.verificationProjection = w.db.verificationProjection :=
        exec_table (verifications uuid) hx (by simp)
      have he : db.escrowProjection = w.db.escrowProjection :=
        exec_table (escrows uuid) hx (by simp)
      have hf : db.financingProjection = w.db.financingProjection :=
        exec_table (financings uuid) hx (by simp)
      refine ⟨?_, ?_, ?_⟩
      · simpa only [hv] using hw.verifications
      · simpa only [he] using hw.escrows
      · simpa only [hf] using hw.financings

theorem fittingRows_sound {ι : Type} (huuid : ∀ s t, uuid s = some t → hasNul t = false) :
    (fittingRows : Pool.Guarantee indexer World ι).Sound (execWorld uuid) World.Advances where
  refl _ := trivial
  trans _ _ _ _ _ := trivial
  answers i q w a w' hw hq h := by
    refine ⟨⟨?_, execWorld_fits huuid hw.2 hq h⟩, trivial⟩
    obtain ⟨db, hx, rfl⟩ := execWorld_ok_iff.mp h
    exact exec_storable hx hw.1
  env w w' hw h := by
    obtain ⟨hdb, _⟩ := h
    refine ⟨?_, trivial⟩
    show (∀ e ∈ w'.db.indexedEvents.rows, e.storable = true) ∧ w'.db.FitsColumns
    rw [hdb]
    exact hw
  promises i q w a w' w'' hw _ h _ := by
    obtain ⟨db, hx, rfl⟩ := execWorld_ok_iff.mp h
    cases q with
    | selectFinalized c f =>
        cases hx
        intro e he
        obtain ⟨hmem, _⟩ := EventStore.mem_finalized.mp he
        exact hw.1 e (EventStore.mem_ofContract.mp hmem).1
    | selectCursor _ | eventsAfter _ _ | headLedger | insertEvent _ | upsertCursor _ _
    | applyEvent _ | deleteEvents _ _ | deleteCursor _ => trivial

/-- **Rows fit their columns.** In every run of any number of operations, under every
order of their statements, every crash and failure, and whatever the chain does: a
projection row is under the id of a `u64` counter, its numbers are of the width of
their columns and its texts hold no U+0000. -/
theorem columns_fit {ι : Type} [DecidableEq ι] {ops : ι → IndexerOp}
    {past : List (Happening indexer ι)} {pool : Pool indexer ι World}
    {F : Failures indexer World}
    {G : List (Happening indexer ι) → Pool indexer ι World → Happening indexer ι → Prop}
    {source : EventSource} (huuid : ∀ s t, uuid s = some t → hasNul t = false)
    (hrun : Pool.Run (execWorld uuid) F World.Advances G
      (Pool.start ⟨Db.empty, source⟩ fun i => (ops i).prog) past pool) :
    pool.store.db.FitsColumns := by
  have hfirst : (fittingRows : Pool.Guarantee indexer World ι).KeptBy
      (Pool.start (⟨Db.empty, source⟩ : World) fun i => (ops i).prog) := by
    intro i p hp _ _
    cases hp
    exact (ops i).appliesStorable
  have hinv : (fittingRows : Pool.Guarantee indexer World ι).inv ⟨Db.empty, source⟩ :=
    ⟨by simp [Db.empty], .empty, .empty, .empty⟩
  exact ((fittingRows_sound huuid).run hfirst hinv hrun).2.1.2

end

/-- An ingest, statement by statement to its end. -/
theorem columns_fit_ingest :
    (Pool.runSchedule (execWorld noUuid) (pairPool (sampleSource 120))
      [true, true, true, true, true, true, true]).store.db.FitsColumns := by
  have hstart : Pool.Run (execWorld noUuid) anyFailure World.Advances (fun _ _ _ => True)
      (Pool.start ⟨Db.empty, sampleSource 120⟩ fun i => (pairOps i).prog) []
      (pairPool (sampleSource 120)) := .start
  have huuid : ∀ s t, noUuid s = some t → hasNul t = false := by
    intro s t h
    cases h
  exact columns_fit huuid (hstart.schedule (fun _ _ _ _ => trivial) _)

end VerdantBackend
