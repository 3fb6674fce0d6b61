import VerdantBackend.Indexer.Projections
import VerdantBackend.Lib.RowChange

/-!
# Projection rows

Every builder of the three projection tables is a change of one row. `toRow`
says which rows it accepts and what it leaves, in plain integers; `_describes`
ties that to the builder. From here on a projection row is the replay of the
events that name it.
-/

namespace VerdantBackend

theorem bind_bigint_ok {α : Type} {n : Int} {f : Int → α} {a : α} :
    (do let m ← bigint n; return f m : Except SqlxError α) = .ok a ↔ InI64 n ∧ a = f n := by
  rw [bigint]
  split
  · next h => simp [h, Bind.bind, Except.bind, pure, Except.pure, eq_comm]
  · next h => simp [h, Bind.bind, Except.bind]

section Rows
variable (uuid : String → Option String)

def VerificationChange.toRow : VerificationChange → RowChange String VerificationRow
  | .created contractId e =>
    { key := counterId VERIFICATION_PREFIX e.verificationId
      Fits := fun _ => True
      after := fun old => some <| old.elim (e.row uuid contractId) fun row =>
        { e.row uuid contractId with
          revoked := row.revoked, revokedLedger := row.revokedLedger } }
  | .revoked e =>
    { key := counterId VERIFICATION_PREFIX e.verificationId
      Fits := fun _ => True
      after := Option.map fun row =>
        { row with revoked := true, revokedLedger := some e.revokedLedger } }

def EscrowChange.toRow : EscrowChange → RowChange String EscrowRow
  | .created contractId e =>
    { key := counterId ESCROW_PREFIX e.escrowId
      Fits := fun _ => True
      after := fun old => some <| old.elim (e.row uuid contractId) fun row =>
        { e.row uuid contractId with
          releasedAmount := row.releasedAmount, status := row.status } }
  | .deposited e =>
    { key := counterId ESCROW_PREFIX e.escrowId
      Fits := fun old => ∀ row : EscrowRow, old = some row → InI64 (row.amount + e.amount)
      after := Option.map fun row =>
        { row with amount := row.amount + e.amount, updatedLedger := e.updatedLedger } }
  | .released e =>
    { key := counterId ESCROW_PREFIX e.escrowId
      Fits := fun old => ∀ row : EscrowRow, old = some row →
        InI64 (row.releasedAmount + e.releasedAmount)
      after := Option.map fun row =>
        { row with
          releasedAmount := row.releasedAmount + e.releasedAmount
          updatedLedger := e.updatedLedger
          status := if row.releasedAmount + e.releasedAmount ≥ row.amount then .released
            else .opened } }
  | .refunded e =>
    { key := counterId ESCROW_PREFIX e.escrowId
      Fits := fun _ => True
      after := Option.map fun row =>
        { row with
          status := .refunded, releasedAmount := row.amount, updatedLedger := e.updatedLedger } }

def FinancingChange.toRow : FinancingChange → RowChange String FinancingRow
  | .created contractId e =>
    { key := counterId FINANCING_PREFIX e.financingId
      Fits := fun _ => True
      after := fun old => some <| old.elim (e.row contractId) fun row =>
        { e.row contractId with status := row.status } }
  | .deposited e =>
    { key := counterId FINANCING_PREFIX e.financingId
      Fits := fun old => ∀ row : FinancingRow, old = some row →
        InI64 (row.drawnAmount + e.amount)
      after := Option.map fun row =>
        { row with
          drawnAmount := row.drawnAmount + e.amount, updatedLedger := some e.updatedLedger } }
  | .released e =>
    { key := counterId FINANCING_PREFIX e.financingId
      Fits := fun old => ∀ row : FinancingRow, old = some row →
        InI64 (row.drawnAmount + e.releasedAmount)
      after := Option.map fun row =>
        { row with
          drawnAmount := row.drawnAmount + e.releasedAmount
          drawnLedger := some e.updatedLedger
          updatedLedger := some e.updatedLedger } }
  | .refunded e =>
    { key := counterId FINANCING_PREFIX e.financingId
      Fits := fun old => ∀ row : FinancingRow, old = some row →
        InI64 (row.drawnAmount - e.refundedAmount)
      after := Option.map fun row =>
        { row with
          status := if e.defaulted then .defaulted else .refunded
          defaulted := e.defaulted
          defaultedLedger := e.defaultedLedger <|> row.defaultedLedger
          drawnAmount := max (row.drawnAmount - e.refundedAmount) 0 } }

theorem VerificationChange.describes (c : VerificationChange) :
    (c.toRow uuid).Describes (c.build uuid) := by
  cases c with
  | created contractId e => exact RowChange.describes_upsert _ _ _
  | revoked e => exact RowChange.describes_map _ fun _ => rfl

theorem EscrowChange.describes (c : EscrowChange) :
    (c.toRow uuid).Describes (c.build uuid) := by
  cases c with
  | created contractId e => exact RowChange.describes_upsert _ _ _
  | deposited e => exact RowChange.describes_update _ fun row row' => bind_bigint_ok
  | released e => exact RowChange.describes_update _ fun row row' => bind_bigint_ok
  | refunded e => exact RowChange.describes_map _ fun _ => rfl

theorem FinancingChange.describes (c : FinancingChange) :
    (c.toRow).Describes (c.build) := by
  cases c with
  | created contractId e => exact RowChange.describes_upsert _ _ _
  | deposited e => exact RowChange.describes_update _ fun row row' => bind_bigint_ok
  | released e => exact RowChange.describes_update _ fun row row' => bind_bigint_ok
  | refunded e => exact RowChange.describes_update _ fun row row' => bind_bigint_ok

/-! ## Events

What an event does to each projection: the change it decodes to, if any. -/

def verificationChange (e : ChainEvent) : Option (RowChange String VerificationRow) :=
  match decodeEvent e with
  | .ok (some (.verification c)) => some (c.toRow uuid)
  | _ => none

def escrowChange (e : ChainEvent) : Option (RowChange String EscrowRow) :=
  match decodeEvent e with
  | .ok (some (.escrow c)) => some (c.toRow uuid)
  | _ => none

def financingChange (e : ChainEvent) : Option (RowChange String FinancingRow) :=
  match decodeEvent e with
  | .ok (some (.financing c)) => some c.toRow
  | _ => none

/-- The builder accepts the change. -/
def Change.Fits (db : Db) : Change → Prop
  | .verification _ => True
  | .escrow c => (c.toRow uuid).Fits (db.escrowProjection.lookup (c.toRow uuid).key)
  | .financing c => c.toRow.Fits (db.financingProjection.lookup c.toRow.key)
  | .identity c => ∃ farmers, c.build db.farmers = .ok farmers

/-- The event applies: its payload decodes and no increment leaves `BIGINT`. -/
def Applies (db : Db) (e : ChainEvent) : Prop :=
  ∃ o, decodeEvent e = .ok o ∧ ∀ c, o = some c → c.Fits uuid db

/-- Everything of the database that no builder writes. -/
structure SameRawStore (db db' : Db) : Prop where
  events : db'.indexedEvents = db.indexedEvents
  cursors : db'.indexerCursors = db.indexerCursors

theorem SameRawStore.refl (db : Db) : SameRawStore db db := ⟨rfl, rfl⟩

theorem SameRawStore.trans {db₁ db₂ db₃ : Db} (h₁ : SameRawStore db₁ db₂)
    (h₂ : SameRawStore db₂ db₃) : SameRawStore db₁ db₃ :=
  ⟨h₂.events.trans h₁.events, h₂.cursors.trans h₁.cursors⟩

variable {uuid}

theorem map_ok_iff {α β : Type} {x : Except SqlxError α} {f : α → β} {b : β} :
    (do return f (← x) : Except SqlxError β) = .ok b ↔ ∃ a, x = .ok a ∧ b = f a := by
  cases x with
  | error e => simp [Bind.bind, Except.bind]
  | ok a => simp [Bind.bind, Except.bind, pure, Except.pure, eq_comm]

/-- **What a builder does to the database.** -/
theorem Change.build_ok_iff {c : Change} {db db' : Db} :
    c.build uuid db = .ok db' ↔
      match c with
      | .verification c => ∃ t, c.build uuid db.verificationProjection = .ok t ∧
          db' = { db with verificationProjection := t }
      | .escrow c => ∃ t, c.build uuid db.escrowProjection = .ok t ∧
          db' = { db with escrowProjection := t }
      | .financing c => ∃ t, c.build db.financingProjection = .ok t ∧
          db' = { db with financingProjection := t }
      | .identity c => ∃ t, c.build db.farmers = .ok t ∧ db' = { db with farmers := t } := by
  cases c <;> exact map_ok_iff

theorem Change.build_isOk_iff (c : Change) (db : Db) :
    (∃ db', c.build uuid db = .ok db') ↔ c.Fits uuid db := by
  simp only [Change.build_ok_iff]
  cases c with
  | verification c =>
      have h := (c.describes uuid).accepts db.verificationProjection
      have hfits : (c.toRow uuid).Fits (db.verificationProjection.lookup (c.toRow uuid).key) := by
        cases c <;> simp [VerificationChange.toRow]
      obtain ⟨t, ht⟩ := h.mpr hfits
      exact ⟨fun _ => trivial, fun _ => ⟨_, t, ht, rfl⟩⟩
  | escrow c =>
      rw [Change.Fits, ← (c.describes uuid).accepts]
      exact ⟨fun ⟨_, t, ht, _⟩ => ⟨t, ht⟩, fun ⟨t, ht⟩ => ⟨_, t, ht, rfl⟩⟩
  | financing c =>
      rw [Change.Fits, ← c.describes.accepts]
      exact ⟨fun ⟨_, t, ht, _⟩ => ⟨t, ht⟩, fun ⟨t, ht⟩ => ⟨_, t, ht, rfl⟩⟩
  | identity c =>
      exact ⟨fun ⟨_, t, ht, _⟩ => ⟨t, ht⟩, fun ⟨t, ht⟩ => ⟨_, t, ht, rfl⟩⟩

theorem applyEvent_ok_iff {db db' : Db} {e : ChainEvent} {consumed : Bool} :
    applyEvent uuid db e = .ok (consumed, db') ↔
      (decodeEvent e = .ok none ∧ consumed = false ∧ db' = db) ∨
      ∃ c, decodeEvent e = .ok (some c) ∧ consumed = true ∧ c.build uuid db = .ok db' := by
  rw [applyEvent]
  cases hd : decodeEvent e with
  | error err => simp [Bind.bind, Except.bind]
  | ok o =>
      cases o with
      | none => simp [Bind.bind, Except.bind, pure, Except.pure, eq_comm]
      | some c =>
          cases hb : c.build uuid db with
          | error err => simp [Bind.bind, Except.bind, hb]
          | ok db₁ => simp [Bind.bind, Except.bind, pure, Except.pure, hb, eq_comm]

/-- **Acceptance**: an event is applied exactly when it decodes and fits. -/
theorem applyEvent_isOk_iff (db : Db) (e : ChainEvent) :
    (∃ r, applyEvent uuid db e = .ok r) ↔ Applies uuid db e := by
  rw [Prod.exists]
  simp only [applyEvent_ok_iff, Applies]
  constructor
  · rintro ⟨b, db', ⟨hd, _, _⟩ | ⟨c, hd, _, hb⟩⟩
    · exact ⟨none, hd, by simp⟩
    · refine ⟨some c, hd, ?_⟩
      intro c' hc
      cases hc
      exact (Change.build_isOk_iff c db).mp ⟨db', hb⟩
  · intro h
    obtain ⟨o, hd, hfits⟩ := h
    cases o with
    | none => exact ⟨false, db, .inl ⟨hd, rfl, rfl⟩⟩
    | some c =>
        obtain ⟨db', hb⟩ := (Change.build_isOk_iff c db).mpr (hfits c rfl)
        exact ⟨true, db', .inr ⟨c, hd, rfl, hb⟩⟩

/-! ## The three row views of an applied event -/

theorem applyEvent_raw {db db' : Db} {e : ChainEvent} {consumed : Bool}
    (h : applyEvent uuid db e = .ok (consumed, db')) : SameRawStore db db' := by
  rcases applyEvent_ok_iff.mp h with ⟨_, _, rfl⟩ | ⟨c, _, _, hb⟩
  · exact .refl db'
  · cases c with
    | verification c | escrow c | financing c | identity c =>
        obtain ⟨t, _, rfl⟩ := Change.build_ok_iff.mp hb
        exact ⟨rfl, rfl⟩

theorem applyEvent_verification {db db' : Db} {e : ChainEvent} {consumed : Bool}
    (h : applyEvent uuid db e = .ok (consumed, db')) (id : String) :
    db'.verificationProjection.lookup id =
      RowChange.step (verificationChange uuid) id (db.verificationProjection.lookup id) e := by
  rw [RowChange.step, verificationChange]
  rcases applyEvent_ok_iff.mp h with ⟨hd, _, rfl⟩ | ⟨c, hd, _, hb⟩
  · rw [hd]
    rfl
  · rw [hd]
    cases c with
    | verification c =>
        obtain ⟨t, ht, rfl⟩ := Change.build_ok_iff.mp hb
        exact (c.describes uuid).lookup ht id
    | escrow c | financing c | identity c =>
        obtain ⟨t, ht, rfl⟩ := Change.build_ok_iff.mp hb
        rfl

theorem applyEvent_escrow {db db' : Db} {e : ChainEvent} {consumed : Bool}
    (h : applyEvent uuid db e = .ok (consumed, db')) (id : String) :
    db'.escrowProjection.lookup id =
      RowChange.step (escrowChange uuid) id (db.escrowProjection.lookup id) e := by
  rw [RowChange.step, escrowChange]
  rcases applyEvent_ok_iff.mp h with ⟨hd, _, rfl⟩ | ⟨c, hd, _, hb⟩
  · rw [hd]
    rfl
  · rw [hd]
    cases c with
    | escrow c =>
        obtain ⟨t, ht, rfl⟩ := Change.build_ok_iff.mp hb
        exact (c.describes uuid).lookup ht id
    | verification c | financing c | identity c =>
        obtain ⟨t, ht, rfl⟩ := Change.build_ok_iff.mp hb
        rfl

theorem applyEvent_financing {db db' : Db} {e : ChainEvent} {consumed : Bool}
    (h : applyEvent uuid db e = .ok (consumed, db')) (id : String) :
    db'.financingProjection.lookup id =
      RowChange.step financingChange id (db.financingProjection.lookup id) e := by
  rw [RowChange.step, financingChange]
  rcases applyEvent_ok_iff.mp h with ⟨hd, _, rfl⟩ | ⟨c, hd, _, hb⟩
  · rw [hd]
    rfl
  · rw [hd]
    cases c with
    | financing c =>
        obtain ⟨t, ht, rfl⟩ := Change.build_ok_iff.mp hb
        exact c.describes.lookup ht id
    | verification c | escrow c | identity c =>
        obtain ⟨t, ht, rfl⟩ := Change.build_ok_iff.mp hb
        rfl

/-! ## The projections -/

/-- A projection table: the change of one row that an event makes to it, and
nothing else in the indexer writing it. -/
structure Projection (uuid : String → Option String) (ρ : Type) where
  table : Db → Table String ρ
  change : ChainEvent → Option (RowChange String ρ)
  applied : ∀ {db db' e consumed}, applyEvent uuid db e = .ok (consumed, db') → ∀ id,
    (table db').lookup id = RowChange.step change id ((table db).lookup id) e
  raw : ∀ db store cursors,
    table { db with indexedEvents := store, indexerCursors := cursors } = table db
  empty : ∀ id, (table Db.empty).lookup id = none

variable (uuid)

def verifications : Projection uuid VerificationRow where
  table := Db.verificationProjection
  change := verificationChange uuid
  applied := applyEvent_verification
  raw _ _ _ := rfl
  empty _ := rfl

def escrows : Projection uuid EscrowRow where
  table := Db.escrowProjection
  change := escrowChange uuid
  applied := applyEvent_escrow
  raw _ _ _ := rfl
  empty _ := rfl

def financings : Projection uuid FinancingRow where
  table := Db.financingProjection
  change := financingChange
  applied := applyEvent_financing
  raw _ _ _ := rfl
  empty _ := rfl

end Rows

end VerdantBackend
