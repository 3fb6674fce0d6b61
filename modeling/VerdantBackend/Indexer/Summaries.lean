import VerdantBackend.Indexer.History
import VerdantBackend.Lib.Register

/-!
# What a history says of an entity

A projection row is folded up event by event. Here each of its columns is read off
the history directly: who wrote it last, what was added since, what an earlier row
keeps. A row begins with the first `Created` event of its entity; what comes before
is lost, and what a later `Created` event does not set is kept.
-/

namespace VerdantBackend

open Register

section
variable {γ : Type} (kind : Change → Option γ) (counter : γ → Nat) (n : Nat)

/-- The change of an event, if it is of the kind and about `n`. -/
def changeOf (e : ChainEvent) : Option γ :=
  match decodeEvent e with
  | .ok (some c) => (kind c).filter (counter · = n)
  | _ => none

/-- The changes of a history of the kind and about `n`. -/
def changesOf (history : List ChainEvent) : List γ := history.filterMap (changeOf kind counter n)

variable {kind counter n}

theorem changeOf_eq_some {e : ChainEvent} {v : γ} :
    changeOf kind counter n e = some v ↔
      ∃ c, decodeEvent e = .ok (some c) ∧ kind c = some v ∧ counter v = n := by
  rw [changeOf]
  split
  · next c h => simp [h, Option.filter_eq_some_iff]
  · next h =>
    constructor
    · intro hv
      cases hv
    · intro hv
      obtain ⟨c, hc, _⟩ := hv
      exact absurd hc (h c)

/-- **A row after a history** is what the changes about it say, from the first that
opens it. -/
theorem replay_eq_fromFirst {ρ : Type} {pick : ChainEvent → Option (RowChange String ρ)}
    {toRow : γ → RowChange String ρ} {mk : γ → Change} {opens : γ → Option ρ} {on : ρ → γ → ρ}
    {later : ρ → List γ → ρ} {kindPrefix : String} (hkind : ∀ c v, kind c = some v ↔ c = mk v)
    (hpick : ∀ e c, pick e = some c ↔ ∃ v, decodeEvent e = .ok (some (mk v)) ∧ c = toRow v)
    (hkey : ∀ v, (toRow v).key = counterId kindPrefix (counter v))
    (hafter : ∀ v row, (toRow v).after row = rowStep opens on row v)
    (hfold : ∀ row changes, changes.foldl on row = later row changes)
    (history : List ChainEvent) :
    RowChange.replay pick (counterId kindPrefix n) history none =
      fromFirst opens later (changesOf kind counter n history) := by
  have hown : ∀ e v, changeOf kind counter n e = some v →
      pick e = some (toRow v) ∧ (toRow v).key = counterId kindPrefix n := by
    intro e v h
    obtain ⟨c, hc, hv, rfl⟩ := changeOf_eq_some.mp h
    rw [(hkind c v).mp hv] at hc
    exact ⟨(hpick e _).mpr ⟨v, hc, rfl⟩, hkey v⟩
  have hother : ∀ e, changeOf kind counter n e = none →
      ¬ RowChange.Names pick (counterId kindPrefix n) e := by
    intro e hnone hnames
    obtain ⟨c, hc, hk⟩ := hnames
    obtain ⟨v, hv, rfl⟩ := (hpick e c).mp hc
    rw [hkey] at hk
    have hsome : changeOf kind counter n e = some v :=
      changeOf_eq_some.mpr ⟨_, hv, (hkind _ v).mpr rfl, counterId_injective _ hk⟩
    rw [hsome] at hnone
    cases hnone
  rw [RowChange.replay_eq_foldl hown hother]
  simp only [hafter]
  rw [foldl_rowStep_none]
  simp only [hfold]
  rfl

end

section
variable (uuid : String → Option String)

/-! ## Verifications -/

def Change.verification? : Change → Option VerificationChange
  | .verification c => some c
  | _ => none

theorem Change.verification?_eq_some (c : Change) (v : VerificationChange) :
    c.verification? = some v ↔ c = .verification v := by
  cases c <;> simp [Change.verification?]

namespace VerificationChange

/-- The row that the change inserts when there is none. -/
def opens : VerificationChange → Option VerificationRow
  | .created contractId e => some (e.row uuid contractId)
  | .revoked _ => none

/-- What the change makes of a row that is there. -/
def on (row : VerificationRow) : VerificationChange → VerificationRow
  | .created contractId e =>
    { e.row uuid contractId with revoked := row.revoked, revokedLedger := row.revokedLedger }
  | .revoked e => { row with revoked := true, revokedLedger := some e.revokedLedger }

theorem toRow_after (c : VerificationChange) (row : Option VerificationRow) :
    (c.toRow uuid).after row = rowStep (opens uuid) (on uuid) row c := by
  cases c <;> cases row <;> rfl

def revokedAt : VerificationChange → Option Int
  | .created _ _ => none
  | .revoked e => some e.revokedLedger

end VerificationChange

/-- The row after further changes: as it was last created and last revoked. -/
def VerificationRow.later (row : VerificationRow) (changes : List VerificationChange) :
    VerificationRow :=
  let revokedAt := lastSet VerificationChange.revokedAt changes
  { (lastSet (VerificationChange.opens uuid) changes).getD row with
    revoked := revokedAt.isSome || row.revoked
    revokedLedger := revokedAt <|> row.revokedLedger }

theorem VerificationRow.foldl_on (row : VerificationRow) (changes : List VerificationChange) :
    changes.foldl (VerificationChange.on uuid) row = row.later uuid changes := by
  induction changes using List.reverseRecOn with
  | nil => rfl
  | append_singleton changes c ih =>
      rw [List.foldl_concat, ih]
      cases c with
      | created contractId e =>
          simp [later, VerificationChange.on, VerificationChange.opens, lastSet,
            VerificationChange.revokedAt]
      | revoked e =>
          simp [later, VerificationChange.on, VerificationChange.opens, lastSet,
            VerificationChange.revokedAt]

/-- The verification `n` after a history. -/
def verificationSummary (n : Nat) (history : List ChainEvent) : Option VerificationRow :=
  fromFirst (VerificationChange.opens uuid) (VerificationRow.later uuid)
    (changesOf Change.verification? VerificationChange.counter n history)

/-! ## Escrows -/

def Change.escrow? : Change → Option EscrowChange
  | .escrow c => some c
  | _ => none

theorem Change.escrow?_eq_some (c : Change) (v : EscrowChange) :
    c.escrow? = some v ↔ c = .escrow v := by
  cases c <;> simp [Change.escrow?]

namespace EscrowChange

def opens : EscrowChange → Option EscrowRow
  | .created contractId e => some (e.row uuid contractId)
  | _ => none

def on (row : EscrowRow) : EscrowChange → EscrowRow
  | .created contractId e =>
    { e.row uuid contractId with releasedAmount := row.releasedAmount, status := row.status }
  | .deposited e =>
    { row with amount := row.amount + e.amount, updatedLedger := e.updatedLedger }
  | .released e =>
    { row with
      releasedAmount := row.releasedAmount + e.releasedAmount
      updatedLedger := e.updatedLedger
      status := if row.releasedAmount + e.releasedAmount ≥ row.amount then .released
        else .opened }
  | .refunded e =>
    { row with
      status := .refunded, releasedAmount := row.amount, updatedLedger := e.updatedLedger }

theorem toRow_after (c : EscrowChange) (row : Option EscrowRow) :
    (c.toRow uuid).after row = rowStep (opens uuid) (on uuid) row c := by
  cases c <;> cases row <;> rfl

def createdAmount : EscrowChange → Option Int
  | .created _ e => some e.amount
  | _ => none

def deposit : EscrowChange → Int
  | .deposited e => e.amount
  | _ => 0

def release : EscrowChange → Int
  | .released e => e.releasedAmount
  | _ => 0

def refunds : EscrowChange → Bool
  | .refunded _ => true
  | _ => false

/-- The change sets the status. -/
def settles : EscrowChange → Bool
  | .released _ | .refunded _ => true
  | _ => false

def updatedLedger : EscrowChange → Int
  | .created _ e => e.updatedLedger
  | .deposited e => e.updatedLedger
  | .released e => e.updatedLedger
  | .refunded e => e.updatedLedger

end EscrowChange

namespace EscrowRow

open EscrowChange

/-- As last created, and what was deposited since. -/
def laterAmount (row : EscrowRow) (changes : List EscrowChange) : Int :=
  (lastSet createdAmount changes).getD row.amount + ((since createdAmount changes).map deposit).sum

/-- The amount at the last refund, and what was released since. -/
def laterReleased (row : EscrowRow) (changes : List EscrowChange) : Int :=
  (if changes.any refunds then row.laterAmount (upToLast refunds changes)
    else row.releasedAmount) + ((behindLast refunds changes).map release).sum

/-- As the last release or refund left it. -/
def laterStatus (row : EscrowRow) (changes : List EscrowChange) : EscrowStatus :=
  let settled := upToLast settles changes
  match settled.getLast? with
  | none => row.status
  | some (.refunded _) => .refunded
  | some _ =>
    if row.laterReleased settled ≥ row.laterAmount settled then .released else .opened

/-- The row after further changes. -/
def later (row : EscrowRow) (changes : List EscrowChange) : EscrowRow :=
  { (lastSet (opens uuid) changes).getD row with
    amount := row.laterAmount changes
    releasedAmount := row.laterReleased changes
    updatedLedger := (changes.getLast?.map EscrowChange.updatedLedger).getD row.updatedLedger
    status := row.laterStatus changes }

/-- What only `EscrowCreated` sets. -/
def terms (row : EscrowRow) : EscrowRow :=
  { row with amount := 0, releasedAmount := 0, updatedLedger := 0, status := .opened }

theorem eq_of_terms {row row' : EscrowRow} (hterms : row.terms = row'.terms)
    (hamount : row.amount = row'.amount) (hreleased : row.releasedAmount = row'.releasedAmount)
    (hupdated : row.updatedLedger = row'.updatedLedger) (hstatus : row.status = row'.status) :
    row = row' := by
  cases row
  cases row'
  simp only [terms, mk.injEq] at *
  simp [*]

variable {uuid}

variable (uuid) in
theorem foldl_amount (row : EscrowRow) (changes : List EscrowChange) :
    (changes.foldl (on uuid) row).amount = row.laterAmount changes := by
  apply set_counter
  intro row c
  cases c <;> simp [on, createdAmount, deposit, EscrowCreated.row]

variable (uuid) in
theorem foldl_releasedAmount (row : EscrowRow) (changes : List EscrowChange) :
    (changes.foldl (on uuid) row).releasedAmount = row.laterReleased changes := by
  rw [laterReleased, ← foldl_amount uuid]
  apply reset_counter
  intro row c
  cases c <;> simp [on, refunds, release]

theorem foldl_updatedLedger (row : EscrowRow) (changes : List EscrowChange) :
    (changes.foldl (on uuid) row).updatedLedger =
      (changes.getLast?.map EscrowChange.updatedLedger).getD row.updatedLedger := by
  induction changes using List.reverseRecOn with
  | nil => rfl
  | append_singleton changes c _ =>
      rw [List.foldl_concat]
      cases c <;> simp [on, EscrowChange.updatedLedger, EscrowCreated.row]

theorem foldl_status (row : EscrowRow) (changes : List EscrowChange) :
    (changes.foldl (on uuid) row).status = row.laterStatus changes := by
  have hlast : (changes.foldl (on uuid) row).status =
      ((upToLast settles changes).foldl (on uuid) row).status := by
    apply at_last (m := EscrowRow.status)
    intro row c hc
    cases c <;> simp [settles] at hc <;> rfl
  rw [hlast, laterStatus]
  rcases upToLast_cases settles changes with hnone | ⟨l, c, hsome, hc⟩
  · rw [hnone]
    rfl
  · rw [hsome]
    simp only [List.getLast?_append, List.getLast?_singleton, Option.some_or]
    have hamount := foldl_amount uuid row (l ++ [c])
    have hreleased := foldl_releasedAmount uuid row (l ++ [c])
    rw [List.foldl_concat] at hamount hreleased ⊢
    cases c with
    | created contractId e | deposited e => cases hc
    | refunded e => rfl
    | released e =>
        rw [← hamount, ← hreleased]
        rfl

theorem foldl_terms (row : EscrowRow) (changes : List EscrowChange) :
    (changes.foldl (on uuid) row).terms = ((lastSet (opens uuid) changes).getD row).terms := by
  have hstep : ∀ row c,
      (on uuid row c).terms = ((opens uuid c).map terms).getD row.terms := by
    intro row c
    cases c <;> rfl
  rw [last_write hstep, lastSet_map]
  cases lastSet (opens uuid) changes <;> rfl

/-- **Every column of an escrow**, whatever changes come. -/
theorem foldl_on (row : EscrowRow) (changes : List EscrowChange) :
    changes.foldl (on uuid) row = row.later uuid changes := by
  apply eq_of_terms
  · rw [foldl_terms]
    rfl
  · exact foldl_amount _ row changes
  · exact foldl_releasedAmount _ row changes
  · exact foldl_updatedLedger row changes
  · exact foldl_status row changes

end EscrowRow

/-- The escrow `n` after a history. -/
def escrowSummary (n : Nat) (history : List ChainEvent) : Option EscrowRow :=
  fromFirst (EscrowChange.opens uuid) (EscrowRow.later uuid)
    (changesOf Change.escrow? EscrowChange.counter n history)

/-! ## Financings -/

def Change.financing? : Change → Option FinancingChange
  | .financing c => some c
  | _ => none

theorem Change.financing?_eq_some (c : Change) (v : FinancingChange) :
    c.financing? = some v ↔ c = .financing v := by
  cases c <;> simp [Change.financing?]

namespace FinancingChange

def opens : FinancingChange → Option FinancingRow
  | .created contractId e => some (e.row contractId)
  | _ => none

def on (row : FinancingRow) : FinancingChange → FinancingRow
  | .created contractId e => { e.row contractId with status := row.status }
  | .deposited e =>
    { row with drawnAmount := row.drawnAmount + e.amount, updatedLedger := some e.updatedLedger }
  | .released e =>
    { row with
      drawnAmount := row.drawnAmount + e.releasedAmount
      drawnLedger := some e.updatedLedger
      updatedLedger := some e.updatedLedger }
  | .refunded e =>
    { row with
      status := if e.defaulted then .defaulted else .refunded
      defaulted := e.defaulted
      defaultedLedger := e.defaultedLedger <|> row.defaultedLedger
      drawnAmount := max (row.drawnAmount - e.refundedAmount) 0 }

theorem toRow_after (c : FinancingChange) (row : Option FinancingRow) :
    c.toRow.after row = rowStep opens on row c := by
  cases c <;> cases row <;> rfl

def createdDrawn : FinancingChange → Option Int
  | .created _ e => some e.drawnAmount
  | _ => none

/-- What the change adds to the drawn amount. -/
def draws : FinancingChange → Int
  | .created _ _ => 0
  | .deposited e => e.amount
  | .released e => e.releasedAmount
  | .refunded e => -e.refundedAmount

def refunds : FinancingChange → Bool
  | .refunded _ => true
  | _ => false

def drawnAt : FinancingChange → Option (Option Int)
  | .created _ e => some e.drawnLedger
  | .released e => some (some e.updatedLedger)
  | _ => none

def updatedAt : FinancingChange → Option (Option Int)
  | .created _ e => some e.drawnLedger
  | .deposited e => some (some e.updatedLedger)
  | .released e => some (some e.updatedLedger)
  | .refunded _ => none

def setsDefaulted : FinancingChange → Option Bool
  | .created _ e => some e.defaulted
  | .refunded e => some e.defaulted
  | _ => none

def defaultedAt : FinancingChange → Option (Option Int)
  | .created _ e => some e.defaultedLedger
  | .refunded e => e.defaultedLedger.map some
  | _ => none

def setsStatus : FinancingChange → Option FinancingStatus
  | .refunded e => some (if e.defaulted then .defaulted else .refunded)
  | _ => none

end FinancingChange

namespace FinancingRow

open FinancingChange

/-- What was drawn since the last creation less what was refunded: a refund stops at zero,
so the greatest of the sums since the creation and since each refund. -/
def laterDrawn (row : FinancingRow) (changes : List FinancingChange) : Int :=
  let recent := since createdDrawn changes
  (restarts refunds draws recent).foldl max
    ((lastSet createdDrawn changes).getD row.drawnAmount + (recent.map draws).sum)

/-- The row after further changes. -/
def later (row : FinancingRow) (changes : List FinancingChange) : FinancingRow :=
  { (lastSet opens changes).getD row with
    drawnAmount := row.laterDrawn changes
    drawnLedger := (lastSet drawnAt changes).getD row.drawnLedger
    defaulted := (lastSet setsDefaulted changes).getD row.defaulted
    defaultedLedger := (lastSet defaultedAt changes).getD row.defaultedLedger
    updatedLedger := (lastSet updatedAt changes).getD row.updatedLedger
    status := (lastSet setsStatus changes).getD row.status }

/-- What only `FinancingCreated` sets. -/
def terms (row : FinancingRow) : FinancingRow :=
  { row with
    drawnAmount := 0, drawnLedger := none, defaulted := false, defaultedLedger := none
    updatedLedger := none, status := .active }

theorem foldl_drawnAmount (row : FinancingRow) (changes : List FinancingChange) :
    (changes.foldl on row).drawnAmount = row.laterDrawn changes := by
  have hset : ∀ row c amount, createdDrawn c = some amount →
      (on row c).drawnAmount = amount := by
    intro row c amount h
    cases c <;> cases h
    rfl
  obtain ⟨start, hfold, hstart⟩ := foldl_since hset changes row
  rw [hfold, laterDrawn, ← hstart]
  apply floored
  intro c hc row
  have hnone := eq_none_of_mem_since hc
  cases c with
  | created contractId e => cases hnone
  | deposited e | released e => rfl
  | refunded e =>
      show max (row.drawnAmount - e.refundedAmount) 0 = _
      rw [sub_eq_add_neg]
      rfl

theorem foldl_terms (row : FinancingRow) (changes : List FinancingChange) :
    (changes.foldl on row).terms = ((lastSet opens changes).getD row).terms := by
  have hstep : ∀ row c, (on row c).terms = ((opens c).map terms).getD row.terms := by
    intro row c
    cases c <;> rfl
  rw [last_write hstep, lastSet_map]
  cases lastSet opens changes <;> rfl

theorem eq_of_terms {row row' : FinancingRow} (hterms : row.terms = row'.terms)
    (hdrawn : row.drawnAmount = row'.drawnAmount) (hdrawnAt : row.drawnLedger = row'.drawnLedger)
    (hdefaulted : row.defaulted = row'.defaulted)
    (hdefaultedAt : row.defaultedLedger = row'.defaultedLedger)
    (hupdated : row.updatedLedger = row'.updatedLedger) (hstatus : row.status = row'.status) :
    row = row' := by
  cases row
  cases row'
  simp only [terms, mk.injEq] at *
  simp [*]

/-- **Every column of a financing**, whatever changes come. -/
theorem foldl_on (row : FinancingRow) (changes : List FinancingChange) :
    changes.foldl on row = row.later changes := by
  apply eq_of_terms
  · rw [foldl_terms]
    rfl
  · exact foldl_drawnAmount row changes
  · apply last_write (m := drawnLedger)
    intro row c
    cases c <;> rfl
  · apply last_write (m := defaulted)
    intro row c
    cases c <;> rfl
  · apply last_write (m := defaultedLedger)
    intro row c
    cases c with
    | created contractId e | deposited e | released e => rfl
    | refunded e =>
        show (e.defaultedLedger <|> row.defaultedLedger) = (e.defaultedLedger.map some).getD _
        cases e.defaultedLedger <;> rfl
  · apply last_write (m := updatedLedger)
    intro row c
    cases c <;> rfl
  · apply last_write (m := status)
    intro row c
    cases c <;> rfl

end FinancingRow

/-- The financing `n` after a history. -/
def financingSummary (n : Nat) (history : List ChainEvent) : Option FinancingRow :=
  fromFirst FinancingChange.opens FinancingRow.later
    (changesOf Change.financing? FinancingChange.counter n history)

/-! ## The rows are what the history says -/

variable {uuid}

theorem replay_verification (n : Nat) (history : List ChainEvent) :
    RowChange.replay (verifications uuid).change (counterId VERIFICATION_PREFIX n) history none =
      verificationSummary uuid n history := by
  apply replay_eq_fromFirst Change.verification?_eq_some
  · exact fun e c => verificationChange_eq_some
  · exact VerificationChange.toRow_key uuid
  · exact VerificationChange.toRow_after uuid
  · exact VerificationRow.foldl_on uuid

theorem replay_escrow (n : Nat) (history : List ChainEvent) :
    RowChange.replay (escrows uuid).change (counterId ESCROW_PREFIX n) history none =
      escrowSummary uuid n history := by
  apply replay_eq_fromFirst Change.escrow?_eq_some
  · exact fun e c => escrowChange_eq_some
  · exact EscrowChange.toRow_key uuid
  · exact EscrowChange.toRow_after uuid
  · exact EscrowRow.foldl_on

theorem replay_financing (n : Nat) (history : List ChainEvent) :
    RowChange.replay (financings uuid).change (counterId FINANCING_PREFIX n) history none =
      financingSummary n history := by
  apply replay_eq_fromFirst Change.financing?_eq_some
  · exact fun e c => financingChange_eq_some
  · exact FinancingChange.toRow_key
  · exact FinancingChange.toRow_after
  · exact FinancingRow.foldl_on

end

end VerdantBackend
