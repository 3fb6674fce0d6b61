import VerdantBackend.Indexer.EscrowReplay

/-!
# Escrow status and amounts

An escrow is released when what was released covers the amount, and refunded
when it was refunded. `release_escrow` and `refund_escrow` set the status;
`upsert_escrow` and `add_escrow_deposit` move the amount below it and leave the
status. So the two agree along a history as long as no step moves the amount
across what was released, and nothing is released of a refunded escrow.
-/

namespace VerdantBackend

variable {uuid : String → Option String}

/-- The status is what the amounts say, unless the escrow was refunded. -/
structure EscrowRow.StatusAgrees (row : EscrowRow) (refunded : Prop) : Prop where
  isRefunded : row.status = .refunded ↔ refunded
  isReleased : ¬ refunded → (row.status = .released ↔ row.releasedAmount ≥ row.amount)
  isOpen : ¬ refunded → (row.status = .opened ↔ row.releasedAmount < row.amount)

/-- Without a refund one of the two is enough. -/
theorem EscrowRow.statusAgrees_of_not_refunded {row : EscrowRow} {refunded : Prop}
    (hnot : ¬ refunded) :
    row.StatusAgrees refunded ↔
      row.status = if row.releasedAmount ≥ row.amount then .released else .opened := by
  constructor
  · intro h
    split
    · next hcov => exact (h.isReleased hnot).mpr hcov
    · next hcov => exact (h.isOpen hnot).mpr (by omega)
  · intro h
    by_cases hcov : row.releasedAmount ≥ row.amount
    · rw [if_pos hcov] at h
      exact ⟨by simp [h, hnot], fun _ => by simp [h, hcov], fun _ => by simp [h, hcov]⟩
    · rw [if_neg hcov] at h
      have hlt : row.releasedAmount < row.amount := by omega
      exact ⟨by simp [h, hnot], fun _ => by simp [h, hlt], fun _ => by simp [h, hlt]⟩

/-- With a refund the status alone counts. -/
theorem EscrowRow.statusAgrees_of_refunded {row : EscrowRow} {refunded : Prop}
    (hyes : refunded) : row.StatusAgrees refunded ↔ row.status = .refunded := by
  constructor
  · intro h
    exact h.isRefunded.mpr hyes
  · intro h
    exact ⟨by simp [h, hyes], fun hnot => absurd hyes hnot, fun hnot => absurd hyes hnot⟩

namespace EscrowChange

/-- What the change deposits or releases is positive. -/
def Positive : EscrowChange → Prop
  | .created _ e => 0 < e.amount
  | .deposited e => 0 < e.amount
  | .released e => 0 < e.releasedAmount
  | .refunded _ => True

def Refunds : EscrowChange → Prop
  | .refunded _ => True
  | _ => False

/-- The step leaves a row whose status is right with a right status: the new
amount stays on the same side of what was released, and a refunded escrow
releases nothing. -/
def KeepsStatus (c : EscrowChange) (row : EscrowRow) : Prop :=
  match c with
  | .created _ e =>
    row.status = .refunded ∨ (row.status = .released ↔ row.releasedAmount ≥ e.amount)
  | .deposited e => row.status = .released → row.releasedAmount ≥ row.amount + e.amount
  | .released _ => row.status ≠ .refunded
  | .refunded _ => True

/-- **One step**: the status still agrees exactly when the step keeps it. -/
theorem statusAgrees_after_iff {c : EscrowChange} {row row' : EscrowRow} {refunded : Prop}
    (hpos : c.Positive) (hrow : row.StatusAgrees refunded)
    (hafter : (c.toRow uuid).after (some row) = some row') :
    row'.StatusAgrees (refunded ∨ c.Refunds) ↔ c.KeepsStatus row := by
  by_cases hyes : refunded
  · have hst := hrow.isRefunded.mpr hyes
    rw [EscrowRow.statusAgrees_of_refunded (.inl hyes)]
    cases c with
    | created contractId e =>
        cases hafter
        simp [KeepsStatus, hst]
    | deposited e =>
        cases hafter
        simp [KeepsStatus, hst]
    | released e =>
        cases hafter
        simp only [KeepsStatus, hst]
        split <;> simp
    | refunded e =>
        cases hafter
        simp [KeepsStatus]
  · have hst := (EscrowRow.statusAgrees_of_not_refunded hyes).mp hrow
    cases c with
    | created contractId e =>
        cases hafter
        rw [EscrowRow.statusAgrees_of_not_refunded (by simp [hyes, Refunds])]
        simp only [KeepsStatus, hst, Option.elim_some, EscrowCreated.row]
        split <;> split <;> simp_all
    | deposited e =>
        cases hafter
        rw [EscrowRow.statusAgrees_of_not_refunded (by simp [hyes, Refunds])]
        simp only [Positive] at hpos
        simp only [KeepsStatus, hst]
        by_cases hcov : row.releasedAmount ≥ row.amount
        · by_cases hnew : row.releasedAmount ≥ row.amount + e.amount <;> simp [hcov, hnew]
        · have hnew : ¬ row.releasedAmount ≥ row.amount + e.amount := by omega
          simp [hcov, hnew]
    | released e =>
        cases hafter
        rw [EscrowRow.statusAgrees_of_not_refunded (by simp [hyes, Refunds])]
        simp only [KeepsStatus, hst, true_iff]
        split <;> simp
    | refunded e =>
        cases hafter
        rw [EscrowRow.statusAgrees_of_refunded (.inr trivial)]
        simp [KeepsStatus]

/-- A first Created opens the escrow. -/
theorem created_agrees {contractId : String} {e : EscrowCreated} (hpos : 0 < e.amount) :
    (e.row uuid contractId).StatusAgrees False := by
  rw [EscrowRow.statusAgrees_of_not_refunded not_false]
  have hopen : ¬ (0 : Int) ≥ e.amount := by omega
  simp [EscrowCreated.row, hopen]

end EscrowChange

/-! ## Histories of one escrow -/

/-- Events of one escrow with positive amounts, the first of them its Created. -/
structure EscrowHistory (counter : Nat) (history : List ChainEvent) : Prop where
  events : ∀ e ∈ history, ∃ c, decodeEvent e = .ok (some (.escrow c)) ∧
    c.counter = counter ∧ c.Positive
  created : ∀ e rest, history = e :: rest →
    ∃ contractId d, decodeEvent e = .ok (some (.escrow (.created contractId d)))

theorem refundsEscrow_append_singleton {p : List ChainEvent} {e : ChainEvent}
    {c : EscrowChange} (he : decodeEvent e = .ok (some (.escrow c))) :
    RefundsEscrow (p ++ [e]) (counterId ESCROW_PREFIX c.counter) ↔
      RefundsEscrow p (counterId ESCROW_PREFIX c.counter) ∨ c.Refunds := by
  constructor
  · intro h
    obtain ⟨x, hx, d, hd, hid⟩ := h
    rcases List.mem_append.mp hx with hx | hx
    · exact .inl ⟨x, hx, d, hd, hid⟩
    · rw [List.mem_singleton.mp hx, he] at hd
      cases hd
      exact .inr trivial
  · intro h
    rcases h with ⟨x, hx, h⟩ | hr
    · exact ⟨x, List.mem_append_left _ hx, h⟩
    · cases c with
      | refunded d => exact ⟨e, by simp, d, he, rfl⟩
      | created _ _ | deposited _ | released _ => exact absurd hr id

variable (uuid) in
/-- After every first part of the history, applied once to empty tables, the row is
there and its status agrees with its amounts. -/
def StatusAgreesAlong (counter : Nat) (history : List ChainEvent) : Prop :=
  ∀ p, p <+: history → ∀ db, applyAll uuid .empty p = .ok db → p ≠ [] →
    ∃ row, db.escrowProjection.lookup (counterId ESCROW_PREFIX counter) = some row ∧
      row.StatusAgrees (RefundsEscrow p (counterId ESCROW_PREFIX counter))

variable (uuid) in
/-- Every applied step keeps the status of the row before it. -/
def StepsKeepStatus (counter : Nat) (history : List ChainEvent) : Prop :=
  ∀ p e, p ++ [e] <+: history → ∀ db r, applyAll uuid .empty p = .ok db →
    applyEvent uuid db e = .ok r →
    ∀ row, db.escrowProjection.lookup (counterId ESCROW_PREFIX counter) = some row →
      ∀ c, decodeEvent e = .ok (some (.escrow c)) → c.KeepsStatus row

/-- **Escrow status and amounts**: they agree all along a history exactly when every
step keeps the status. -/
theorem escrow_status_agrees_iff {counter : Nat} {history : List ChainEvent}
    (hof : EscrowHistory counter history) :
    StatusAgreesAlong uuid counter history ↔ StepsKeepStatus uuid counter history := by
  refine projection_prefixes_iff (escrows uuid) (counterId ESCROW_PREFIX counter)
    (Q := fun p row => p ≠ [] → ∃ r, row = some r ∧
      r.StatusAgrees (RefundsEscrow p (counterId ESCROW_PREFIX counter)))
    (C := fun row e => ∀ r, row = some r → ∀ c, decodeEvent e = .ok (some (.escrow c)) →
      c.KeepsStatus r) (fun h => absurd rfl h) ?_
  intro p e row hp hreplay hrow
  obtain ⟨t, ht⟩ := hp
  obtain ⟨c, hc, rfl, hpos⟩ := hof.events e (by rw [← ht]; simp)
  have hstep : RowChange.step (escrows uuid).change (counterId ESCROW_PREFIX c.counter) row e =
      (c.toRow uuid).after row :=
    RowChange.step_of_names (escrowChange_eq_some.mpr ⟨c, hc, rfl⟩) (c.toRow_key uuid) row
  have hsome : ∀ {r}, row = some r →
      ((∀ r, row = some r → ∀ v, decodeEvent e = .ok (some (.escrow v)) → v.KeepsStatus r) ↔
        c.KeepsStatus r) := by
    intro r hr
    simp [hr, hc]
  rw [hstep, refundsEscrow_append_singleton hc]
  cases p with
  | nil =>
      -- the first event: there is no row yet, and it opens one
      subst hreplay
      obtain ⟨contractId, d, hd⟩ := hof.created e t (by rw [← ht]; rfl)
      rw [hc] at hd
      cases hd
      have hopen : (d.row uuid contractId).StatusAgrees False := EscrowChange.created_agrees hpos
      refine iff_of_true (fun _ => ⟨_, rfl, ?_⟩) (by simp)
      simpa [RefundsEscrow, EscrowChange.Refunds] using hopen
  | cons x p =>
      obtain ⟨r, hr, hagrees⟩ := hrow (List.cons_ne_nil x p)
      rw [hsome hr, hr]
      obtain ⟨r', hr'⟩ : ∃ r', (c.toRow uuid).after (some r) = some r' := by
        cases c <;> exact ⟨_, rfl⟩
      rw [← EscrowChange.statusAgrees_after_iff hpos hagrees hr', hr']
      simp

/-- The escrow of 100 with 30 of it released, and whatever followed. -/
theorem escrowHistory_of_opened {l : List ChainEvent}
    (hl : ∀ e ∈ l, ∃ c, decodeEvent e = .ok (some (.escrow c)) ∧ c.counter = 11 ∧ c.Positive) :
    EscrowHistory 11 (escrowOpened ++ l) where
  events := by
    intro e he
    rcases List.mem_append.mp he with he | he
    · simp only [escrowOpened, List.mem_cons, List.not_mem_nil, or_false] at he
      rcases he with rfl | rfl
      · exact ⟨_, rfl, rfl, (by decide : (0 : Int) < 100)⟩
      · exact ⟨_, rfl, rfl, (by decide : (0 : Int) < 30)⟩
    · exact hl e he
  created := by
    intro e rest h
    rw [escrowOpened, List.cons_append, List.cons.injEq] at h
    obtain ⟨rfl, _⟩ := h
    exact ⟨_, _, rfl⟩

theorem escrow_status_agrees_opened :
    EscrowHistory 11 (escrowOpened ++ []) ∧ StatusAgreesAlong noUuid 11 (escrowOpened ++ []) := by
  have hof := escrowHistory_of_opened (l := []) (by simp)
  refine ⟨hof, (escrow_status_agrees_iff hof).mpr ?_⟩
  intro p e hp db r hdb he row hrow c hc
  have hreplay := (escrows noUuid).applyAll hdb (counterId ESCROW_PREFIX 11)
  have hstatus := congrArg (Option.map EscrowRow.status) (hrow.symm.trans hreplay)
  rw [escrowOpened, List.cons_append, List.cons_append, List.nil_append] at hp
  rcases p with _ | ⟨x, _ | ⟨y, p⟩⟩
  · -- before the Created there is no row
    cases hstatus
  · simp only [List.cons_append, List.nil_append, List.cons_prefix_cons, List.nil_prefix,
      and_true] at hp
    obtain ⟨rfl, rfl⟩ := hp
    cases hc
    have hopen : row.status = .opened := Option.some.inj hstatus
    simp [EscrowChange.KeepsStatus, hopen]
  · simp at hp

/-- The rest is released, and then 5 are deposited. -/
def depositAfterRelease : List ChainEvent :=
  escrowOpened ++ [escrowEvent "EscrowReleased" 102 [.str "GR", .int 70, .int 102],
    escrowEvent "EscrowDeposited" 103 [.str "GD", .int 5, .int 103]]

/-- Released with 100 of 105. -/
theorem escrow_status_disagrees :
    EscrowHistory 11 depositAfterRelease ∧ ¬ StatusAgreesAlong noUuid 11 depositAfterRelease := by
  refine ⟨escrowHistory_of_opened ?_, ?_⟩
  · intro e he
    simp only [List.mem_cons, List.not_mem_nil, or_false] at he
    rcases he with rfl | rfl
    · exact ⟨_, rfl, rfl, (by decide : (0 : Int) < 70)⟩
    · exact ⟨_, rfl, rfl, (by decide : (0 : Int) < 5)⟩
  · intro h
    obtain ⟨db, hdb⟩ : ∃ db, applyAll noUuid .empty depositAfterRelease = .ok db := ⟨_, rfl⟩
    obtain ⟨row, hrow, hagrees⟩ := h _ (List.prefix_refl _) db hdb (by simp [depositAfterRelease])
    have hreplay := hrow.symm.trans ((escrows noUuid).applyAll hdb (counterId ESCROW_PREFIX 11))
    have hfinal := congrArg (Option.map fun r => (r.status, r.releasedAmount, r.amount)) hreplay
    rw [show Option.map _ (RowChange.replay _ _ depositAfterRelease _) =
      some (EscrowStatus.released, (100 : Int), (105 : Int)) by decide] at hfinal
    simp only [Option.map_some, Option.some.injEq, Prod.mk.injEq] at hfinal
    obtain ⟨hstatus, hreleased, hamount⟩ := hfinal
    have hnot : ¬ RefundsEscrow depositAfterRelease (counterId ESCROW_PREFIX 11) := by
      rw [← hagrees.isRefunded, hstatus]
      decide
    have hcov := (hagrees.isReleased hnot).mp hstatus
    omega

end VerdantBackend
