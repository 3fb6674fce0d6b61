import VerdantBackend.Indexer.Rows

/-!
# Histories of entities

The entity a change is about, and histories in which every entity begins with
its `Created` event. Such a history, applied again over what first parts of it
left, rebuilds every verification and every financing row: `Created` resets the
row up to the columns its `SET` list omits, and what those hold was put there by
the same history.
-/

namespace VerdantBackend

inductive Entity where
  | verification (counter : Nat)
  | escrow (counter : Nat)
  | financing (counter : Nat)
deriving DecidableEq, Repr

def VerificationChange.counter : VerificationChange → Nat
  | .created _ e => e.verificationId
  | .revoked e => e.verificationId

def EscrowChange.counter : EscrowChange → Nat
  | .created _ e => e.escrowId
  | .deposited e => e.escrowId
  | .released e => e.escrowId
  | .refunded e => e.escrowId

def FinancingChange.counter : FinancingChange → Nat
  | .created _ e => e.financingId
  | .deposited e => e.financingId
  | .released e => e.financingId
  | .refunded e => e.financingId

def Change.entity : Change → Option Entity
  | .verification c => some (.verification c.counter)
  | .escrow c => some (.escrow c.counter)
  | .financing c => some (.financing c.counter)
  | .identity _ => none

def Change.isCreated : Change → Bool
  | .verification (.created ..) | .escrow (.created ..) | .financing (.created ..) => true
  | _ => false

/-- The entity a decodable event is about. -/
def entityNamed (e : ChainEvent) : Option Entity :=
  match decodeEvent e with
  | .ok (some c) => c.entity
  | _ => none

theorem entityNamed_eq_some {e : ChainEvent} {entity : Entity} :
    entityNamed e = some entity ↔
      ∃ c, decodeEvent e = .ok (some c) ∧ c.entity = some entity := by
  rw [entityNamed]
  split
  · next c h => simp [h]
  · next h =>
    constructor
    · intro hn
      cases hn
    · intro h
      obtain ⟨c, hc, _⟩ := h
      exact absurd hc (h c)

/-- The first event of every entity is its `Created` event. -/
def CreatedFirst (history : List ChainEvent) : Prop :=
  ∀ l₁ e l₂ c, history = l₁ ++ e :: l₂ → decodeEvent e = .ok (some c) → c.entity.isSome →
    (∀ x ∈ l₁, entityNamed x ≠ c.entity) → c.isCreated = true

theorem CreatedFirst.of_isPrefix {history p : List ChainEvent} (h : CreatedFirst history)
    (hp : p <+: history) : CreatedFirst p := by
  intro l₁ e l₂ c heq
  obtain ⟨t, rfl⟩ := hp
  exact h l₁ e (l₂ ++ t) c (by rw [heq]; simp)

/-- The first event of the entity is its `Created` event. -/
def CreatedFor (history : List ChainEvent) (entity : Entity) : Prop :=
  ∀ l₁ e l₂ c, history = l₁ ++ e :: l₂ → decodeEvent e = .ok (some c) →
    c.entity = some entity → (∀ x ∈ l₁, entityNamed x ≠ some entity) → c.isCreated = true

theorem CreatedFirst.createdFor {history : List ChainEvent} (h : CreatedFirst history)
    (entity : Entity) : CreatedFor history entity := by
  intro l₁ e l₂ c heq he hent hfirst
  rw [← hent] at hfirst
  exact h l₁ e l₂ c heq he (by rw [hent]; rfl) hfirst

theorem CreatedFor.of_isPrefix {history p : List ChainEvent} {entity : Entity}
    (h : CreatedFor history entity) (hp : p <+: history) : CreatedFor p entity := by
  intro l₁ e l₂ c heq
  obtain ⟨t, rfl⟩ := hp
  exact h l₁ e (l₂ ++ t) c (by rw [heq]; simp)

/-- One entity, created first. -/
theorem CreatedFirst.of_head {a : ChainEvent} {l : List ChainEvent} {c : Change}
    (ha : decodeEvent a = .ok (some c)) (hc : c.isCreated = true)
    (hl : ∀ e ∈ l, entityNamed e = entityNamed a) : CreatedFirst (a :: l) := by
  intro l₁ e l₂ c' heq he hsome hfirst
  cases l₁ with
  | nil =>
      obtain ⟨rfl, _⟩ := List.cons.inj heq
      rw [ha] at he
      cases he
      exact hc
  | cons x l₁ =>
      obtain ⟨rfl, rfl⟩ := List.cons.inj heq
      have hent : entityNamed e = c'.entity := by rw [entityNamed, he]
      exact absurd ((hl e (by simp)).symm.trans hent) (hfirst _ List.mem_cons_self)

section
variable (uuid : String → Option String)

@[simp] theorem VerificationChange.toRow_key (c : VerificationChange) :
    (c.toRow uuid).key = counterId VERIFICATION_PREFIX c.counter := by
  cases c <;> rfl

@[simp] theorem EscrowChange.toRow_key (c : EscrowChange) :
    (c.toRow uuid).key = counterId ESCROW_PREFIX c.counter := by
  cases c <;> rfl

@[simp] theorem FinancingChange.toRow_key (c : FinancingChange) :
    c.toRow.key = counterId FINANCING_PREFIX c.counter := by
  cases c <;> rfl

variable {uuid}

theorem verificationChange_eq_some {e : ChainEvent} {c : RowChange String VerificationRow} :
    verificationChange uuid e = some c ↔
      ∃ v, decodeEvent e = .ok (some (.verification v)) ∧ c = v.toRow uuid := by
  rw [verificationChange]
  split
  · next v h => simp [h, eq_comm]
  · next h =>
    constructor
    · intro hc
      cases hc
    · intro h
      obtain ⟨v, hv, _⟩ := h
      exact absurd hv (h v)

theorem escrowChange_eq_some {e : ChainEvent} {c : RowChange String EscrowRow} :
    escrowChange uuid e = some c ↔
      ∃ v, decodeEvent e = .ok (some (.escrow v)) ∧ c = v.toRow uuid := by
  rw [escrowChange]
  split
  · next v h => simp [h, eq_comm]
  · next h =>
    constructor
    · intro hc
      cases hc
    · intro h
      obtain ⟨v, hv, _⟩ := h
      exact absurd hv (h v)

theorem financingChange_eq_some {e : ChainEvent} {c : RowChange String FinancingRow} :
    financingChange e = some c ↔
      ∃ v, decodeEvent e = .ok (some (.financing v)) ∧ c = v.toRow := by
  rw [financingChange]
  split
  · next v h => simp [h, eq_comm]
  · next h =>
    constructor
    · intro hc
      cases hc
    · intro h
      obtain ⟨v, hv, _⟩ := h
      exact absurd hv (h v)

/-! ## The first event of a row -/

open RowChange (Names Respects Overwrites Opens Opened Rebuilds)

theorem CreatedFor.verification {history l₁ l₂ : List ChainEvent} {e : ChainEvent}
    {v : VerificationChange} (h : CreatedFor history (.verification v.counter))
    (heq : history = l₁ ++ e :: l₂)
    (he : decodeEvent e = .ok (some (.verification v)))
    (hfirst : ∀ x ∈ l₁, ¬ Names (verificationChange uuid) (v.toRow uuid).key x) :
    ∃ contractId d, v = .created contractId d := by
  have hcr := h l₁ e l₂ _ heq he rfl ?_
  · cases v with
    | created contractId d => exact ⟨contractId, d, rfl⟩
    | revoked d => cases hcr
  · intro x hx hent
    obtain ⟨w, hw, hent⟩ := entityNamed_eq_some.mp hent
    cases w with
    | verification w =>
        refine hfirst x hx ⟨w.toRow uuid, verificationChange_eq_some.mpr ⟨w, hw, rfl⟩, ?_⟩
        simp only [Change.entity, Option.some.injEq, Entity.verification.injEq] at hent
        rw [VerificationChange.toRow_key, VerificationChange.toRow_key, hent]
    | escrow w | financing w | identity w => simp [Change.entity] at hent

theorem CreatedFor.escrow {history l₁ l₂ : List ChainEvent} {e : ChainEvent}
    {v : EscrowChange} (h : CreatedFor history (.escrow v.counter)) (heq : history = l₁ ++ e :: l₂)
    (he : decodeEvent e = .ok (some (.escrow v)))
    (hfirst : ∀ x ∈ l₁, ¬ Names (escrowChange uuid) (v.toRow uuid).key x) :
    ∃ contractId d, v = .created contractId d := by
  have hcr := h l₁ e l₂ _ heq he rfl ?_
  · cases v with
    | created contractId d => exact ⟨contractId, d, rfl⟩
    | deposited d | released d | refunded d => cases hcr
  · intro x hx hent
    obtain ⟨w, hw, hent⟩ := entityNamed_eq_some.mp hent
    cases w with
    | escrow w =>
        refine hfirst x hx ⟨w.toRow uuid, escrowChange_eq_some.mpr ⟨w, hw, rfl⟩, ?_⟩
        simp only [Change.entity, Option.some.injEq, Entity.escrow.injEq] at hent
        rw [EscrowChange.toRow_key, EscrowChange.toRow_key, hent]
    | verification w | financing w | identity w => simp [Change.entity] at hent

theorem CreatedFor.financing {history l₁ l₂ : List ChainEvent} {e : ChainEvent}
    {v : FinancingChange} (h : CreatedFor history (.financing v.counter))
    (heq : history = l₁ ++ e :: l₂)
    (he : decodeEvent e = .ok (some (.financing v)))
    (hfirst : ∀ x ∈ l₁, ¬ Names financingChange v.toRow.key x) :
    ∃ contractId d, v = .created contractId d := by
  have hcr := h l₁ e l₂ _ heq he rfl ?_
  · cases v with
    | created contractId d => exact ⟨contractId, d, rfl⟩
    | deposited d | released d | refunded d => cases hcr
  · intro x hx hent
    obtain ⟨w, hw, hent⟩ := entityNamed_eq_some.mp hent
    cases w with
    | financing w =>
        refine hfirst x hx ⟨w.toRow, financingChange_eq_some.mpr ⟨w, hw, rfl⟩, ?_⟩
        simp only [Change.entity, Option.some.injEq, Entity.financing.injEq] at hent
        rw [FinancingChange.toRow_key, FinancingChange.toRow_key, hent]
    | verification w | escrow w | identity w => simp [Change.entity] at hent

/-! ## Verification rows -/

/-- What an upsert sets: all but the revocation. -/
def VerificationRow.base (r : VerificationRow) : VerificationRow :=
  { r with revoked := false, revokedLedger := none }

theorem VerificationChange.respects (v : VerificationChange) :
    (v.toRow uuid).Respects VerificationRow.base := by
  intro r r' h
  cases v with
  | created contractId e => rfl
  | revoked e =>
      simp only [VerificationRow.base, VerificationRow.mk.injEq] at h
      simp only [VerificationChange.toRow, Option.map_some, VerificationRow.base,
        Option.some.injEq, VerificationRow.mk.injEq]
      tauto

theorem VerificationChange.created_opens (contractId : String) (e : VerificationCreated) :
    ((VerificationChange.created contractId e).toRow uuid).Opens VerificationRow.base := by
  intro row
  cases row <;> rfl

theorem VerificationChange.revoked_overwrites (e : VerificationRevoked) :
    ((VerificationChange.revoked e).toRow uuid).Overwrites VerificationRow.base := by
  intro r r' h
  simp only [VerificationRow.base, VerificationRow.mk.injEq] at h
  simp only [VerificationChange.toRow, Option.map_some, Option.some.injEq,
    VerificationRow.mk.injEq]
  tauto

/-- Some event of the history revokes the row. -/
def Revokes (history : List ChainEvent) (id : String) : Prop :=
  ∃ e ∈ history, ∃ d, decodeEvent e = .ok (some (.verification (.revoked d))) ∧
    counterId VERIFICATION_PREFIX d.verificationId = id

/-- **Verification rows are rebuilt**: outside an upsert's reach is only the
revocation, which is empty unless the history revokes. -/
theorem rebuilds_verification {history : List ChainEvent} (id : String)
    (h : ∀ k, counterId VERIFICATION_PREFIX k = id → CreatedFor history (.verification k)) :
    Rebuilds VerificationRow.base
      (fun r => Revokes history id ∨ (r.revoked = false ∧ r.revokedLedger = none))
      (verificationChange uuid) id history where
  opened := by
    intro l₁ a l₂ c heq hfirst hc hk
    obtain ⟨v, hv, rfl⟩ := verificationChange_eq_some.mp hc
    have hfor := h v.counter ((v.toRow_key _).symm.trans hk)
    obtain ⟨contractId, d, rfl⟩ := hfor.verification heq hv (hk ▸ hfirst)
    exact VerificationChange.created_opens contractId d
  respects := by
    intro a _ c hc _
    obtain ⟨v, _, rfl⟩ := verificationChange_eq_some.mp hc
    exact v.respects
  keeps := by
    intro a ha c hc hk r hr
    obtain ⟨v, hv, rfl⟩ := verificationChange_eq_some.mp hc
    cases v with
    | created contractId d => exact ⟨_, rfl, hr⟩
    | revoked d => exact ⟨_, rfl, .inl ⟨a, ha, d, hv, hk⟩⟩
  starts := by
    intro l₁ a l₂ c heq hfirst hc hk
    obtain ⟨v, hv, rfl⟩ := verificationChange_eq_some.mp hc
    have hfor := h v.counter ((v.toRow_key _).symm.trans hk)
    obtain ⟨contractId, d, rfl⟩ := hfor.verification heq hv (hk ▸ hfirst)
    exact ⟨_, rfl, .inr ⟨rfl, rfl⟩⟩
  settles := by
    intro l₁ a l₂ c heq hfirst hc hk
    obtain ⟨v, hv, rfl⟩ := verificationChange_eq_some.mp hc
    have hfor := h v.counter ((v.toRow_key _).symm.trans hk)
    obtain ⟨contractId, d, rfl⟩ := hfor.verification heq hv (hk ▸ hfirst)
    by_cases hrev : Revokes history id
    · left
      obtain ⟨x, hx, d', hx', hid⟩ := hrev
      have hname : Names (verificationChange uuid) id x :=
        ⟨_, verificationChange_eq_some.mpr ⟨_, hx', rfl⟩, hid⟩
      have hne : x ≠ a := by
        rintro rfl
        rw [hv] at hx'
        cases hx'
      exact ⟨x, RowChange.mem_behind_first hfirst (heq ▸ hx) hname hne, _,
        verificationChange_eq_some.mpr ⟨_, hx', rfl⟩, hid,
        VerificationChange.revoked_overwrites d'⟩
    · right
      intro r hr
      rcases hr with hr | ⟨h₁, h₂⟩
      · exact absurd hr hrev
      · simp only [VerificationChange.toRow, Option.elim_some, Option.elim_none, h₁, h₂]
        rfl

/-! ## Financing rows -/

/-- What an upsert sets: all but the status. -/
def FinancingRow.base (r : FinancingRow) : FinancingRow := { r with status := .active }

theorem FinancingRow.base_eq_iff {r r' : FinancingRow} :
    r.base = r'.base ↔ { r with status := r'.status } = r' := by
  obtain ⟨⟩ := r
  obtain ⟨⟩ := r'
  simp [FinancingRow.base]

theorem FinancingChange.respects (v : FinancingChange) :
    v.toRow.Respects FinancingRow.base := by
  intro r r' h
  rw [FinancingRow.base_eq_iff] at h
  rw [← h]
  cases v with
  | created contractId e => rfl
  | deposited e | released e | refunded e => rfl

theorem FinancingChange.created_opens (contractId : String) (e : FinancingCreated) :
    (FinancingChange.created contractId e).toRow.Opens FinancingRow.base := by
  intro row
  cases row <;> rfl

theorem FinancingChange.refunded_overwrites (e : FinancingRefunded) :
    (FinancingChange.refunded e).toRow.Overwrites FinancingRow.base := by
  intro r r' h
  rw [FinancingRow.base_eq_iff] at h
  rw [← h]
  rfl

/-- Some event of the history refunds the financing row. -/
def RefundsFinancing (history : List ChainEvent) (id : String) : Prop :=
  ∃ e ∈ history, ∃ d, decodeEvent e = .ok (some (.financing (.refunded d))) ∧
    counterId FINANCING_PREFIX d.financingId = id

/-- The status the row gets from its first event. -/
def FirstStatus (history : List ChainEvent) (id : String) (status : FinancingStatus) : Prop :=
  ∀ l₁ a l₂ contractId d, history = l₁ ++ a :: l₂ →
    (∀ x ∈ l₁, ¬ Names financingChange id x) →
    decodeEvent a = .ok (some (.financing (.created contractId d))) →
    counterId FINANCING_PREFIX d.financingId = id → status = (d.row contractId).status

/-- **Financing rows are rebuilt**: outside an upsert's reach is only the
status, which is that of the first `Created` unless the history refunds. -/
theorem rebuilds_financing {history : List ChainEvent} (id : String)
    (h : ∀ k, counterId FINANCING_PREFIX k = id → CreatedFor history (.financing k)) :
    Rebuilds FinancingRow.base
      (fun r => RefundsFinancing history id ∨ FirstStatus history id r.status)
      financingChange id history where
  opened := by
    intro l₁ a l₂ c heq hfirst hc hk
    obtain ⟨v, hv, rfl⟩ := financingChange_eq_some.mp hc
    have hfor := h v.counter (v.toRow_key.symm.trans hk)
    obtain ⟨contractId, d, rfl⟩ := hfor.financing heq hv (hk ▸ hfirst)
    exact FinancingChange.created_opens contractId d
  respects := by
    intro a _ c hc _
    obtain ⟨v, _, rfl⟩ := financingChange_eq_some.mp hc
    exact v.respects
  keeps := by
    intro a ha c hc hk r hr
    obtain ⟨v, hv, rfl⟩ := financingChange_eq_some.mp hc
    cases v with
    | created contractId d => exact ⟨_, rfl, hr⟩
    | deposited d | released d => exact ⟨_, rfl, hr⟩
    | refunded d => exact ⟨_, rfl, .inl ⟨a, ha, d, hv, hk⟩⟩
  starts := by
    intro l₁ a l₂ c heq hfirst hc hk
    obtain ⟨v, hv, rfl⟩ := financingChange_eq_some.mp hc
    have hfor := h v.counter (v.toRow_key.symm.trans hk)
    obtain ⟨contractId, d, rfl⟩ := hfor.financing heq hv (hk ▸ hfirst)
    refine ⟨_, rfl, .inr ?_⟩
    intro l₃ b l₄ contractId' d' heq' hfirst' hb hid
    have hname : Names financingChange id b := ⟨_, financingChange_eq_some.mpr ⟨_, hb, rfl⟩, hid⟩
    obtain ⟨_, rfl⟩ :=
      RowChange.first_unique (heq.symm.trans heq') hfirst hfirst' ⟨_, hc, hk⟩ hname
    rw [hv] at hb
    cases hb
    rfl
  settles := by
    intro l₁ a l₂ c heq hfirst hc hk
    obtain ⟨v, hv, rfl⟩ := financingChange_eq_some.mp hc
    have hfor := h v.counter (v.toRow_key.symm.trans hk)
    obtain ⟨contractId, d, rfl⟩ := hfor.financing heq hv (hk ▸ hfirst)
    by_cases href : RefundsFinancing history id
    · left
      obtain ⟨x, hx, d', hx', hid⟩ := href
      have hname : Names financingChange id x :=
        ⟨_, financingChange_eq_some.mpr ⟨_, hx', rfl⟩, hid⟩
      have hne : x ≠ a := by
        rintro rfl
        rw [hv] at hx'
        cases hx'
      exact ⟨x, RowChange.mem_behind_first hfirst (heq ▸ hx) hname hne, _,
        financingChange_eq_some.mpr ⟨_, hx', rfl⟩, hid,
        FinancingChange.refunded_overwrites d'⟩
    · right
      intro r hr
      have hstatus := (hr.resolve_left href) l₁ a l₂ contractId d heq hfirst hv hk
      simp only [FinancingChange.toRow, Option.elim_some, Option.elim_none, hstatus]

/-! ## Entities and their rows -/

/-- The rows of a projection belong to entities, each to one. -/
structure EntityRows {ρ : Type} (P : Projection uuid ρ) where
  key : Entity → Option String
  names_iff : ∀ {id e}, Names P.change id e ↔
    ∃ entity, entityNamed e = some entity ∧ key entity = some id
  unique : ∀ {a b id}, key a = some id → key b = some id → a = b

def verificationRows : EntityRows (verifications uuid) where
  key
    | .verification n => some (counterId VERIFICATION_PREFIX n)
    | _ => none
  names_iff := by
    intro id e
    constructor
    · intro h
      obtain ⟨c, hc, hk⟩ := h
      obtain ⟨v, hv, rfl⟩ := verificationChange_eq_some.mp hc
      rw [VerificationChange.toRow_key] at hk
      exact ⟨.verification v.counter, entityNamed_eq_some.mpr ⟨_, hv, rfl⟩, congrArg some hk⟩
    · intro h
      obtain ⟨entity, he, hk⟩ := h
      obtain ⟨c, hc, hent⟩ := entityNamed_eq_some.mp he
      cases c with
      | verification v =>
          cases hent
          refine ⟨v.toRow uuid, verificationChange_eq_some.mpr ⟨v, hc, rfl⟩, ?_⟩
          rw [VerificationChange.toRow_key]
          exact Option.some.inj hk
      | escrow v | financing v =>
          cases hent
          cases hk
      | identity v => cases hent
  unique := by
    intro a b id ha hb
    cases a <;> cases b <;> simp at ha hb
    exact congrArg Entity.verification (counterId_injective _ (ha.trans hb.symm))

def escrowRows : EntityRows (escrows uuid) where
  key
    | .escrow n => some (counterId ESCROW_PREFIX n)
    | _ => none
  names_iff := by
    intro id e
    constructor
    · intro h
      obtain ⟨c, hc, hk⟩ := h
      obtain ⟨v, hv, rfl⟩ := escrowChange_eq_some.mp hc
      rw [EscrowChange.toRow_key] at hk
      exact ⟨.escrow v.counter, entityNamed_eq_some.mpr ⟨_, hv, rfl⟩, congrArg some hk⟩
    · intro h
      obtain ⟨entity, he, hk⟩ := h
      obtain ⟨c, hc, hent⟩ := entityNamed_eq_some.mp he
      cases c with
      | escrow v =>
          cases hent
          refine ⟨v.toRow uuid, escrowChange_eq_some.mpr ⟨v, hc, rfl⟩, ?_⟩
          rw [EscrowChange.toRow_key]
          exact Option.some.inj hk
      | verification v | financing v =>
          cases hent
          cases hk
      | identity v => cases hent
  unique := by
    intro a b id ha hb
    cases a <;> cases b <;> simp at ha hb
    exact congrArg Entity.escrow (counterId_injective _ (ha.trans hb.symm))

def financingRows : EntityRows (financings uuid) where
  key
    | .financing n => some (counterId FINANCING_PREFIX n)
    | _ => none
  names_iff := by
    intro id e
    constructor
    · intro h
      obtain ⟨c, hc, hk⟩ := h
      obtain ⟨v, hv, rfl⟩ := financingChange_eq_some.mp hc
      rw [FinancingChange.toRow_key] at hk
      exact ⟨.financing v.counter, entityNamed_eq_some.mpr ⟨_, hv, rfl⟩, congrArg some hk⟩
    · intro h
      obtain ⟨entity, he, hk⟩ := h
      obtain ⟨c, hc, hent⟩ := entityNamed_eq_some.mp he
      cases c with
      | financing v =>
          cases hent
          refine ⟨v.toRow, financingChange_eq_some.mpr ⟨v, hc, rfl⟩, ?_⟩
          rw [FinancingChange.toRow_key]
          exact Option.some.inj hk
      | verification v | escrow v =>
          cases hent
          cases hk
      | identity v => cases hent
  unique := by
    intro a b id ha hb
    cases a <;> cases b <;> simp at ha hb
    exact congrArg Entity.financing (counterId_injective _ (ha.trans hb.symm))

/-- The two databases hold the same row for the entity. -/
def Db.SameRow (db db' : Db) : Entity → Prop
  | .verification n =>
    db.verificationProjection.lookup (counterId VERIFICATION_PREFIX n) =
      db'.verificationProjection.lookup (counterId VERIFICATION_PREFIX n)
  | .escrow n =>
    db.escrowProjection.lookup (counterId ESCROW_PREFIX n) =
      db'.escrowProjection.lookup (counterId ESCROW_PREFIX n)
  | .financing n =>
    db.financingProjection.lookup (counterId FINANCING_PREFIX n) =
      db'.financingProjection.lookup (counterId FINANCING_PREFIX n)

end

end VerdantBackend
