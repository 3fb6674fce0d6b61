import VerdantBackend.Indexer.Concurrent
import VerdantBackend.Indexer.History

/-!
# Financing columns that belong together

`status` and `defaulted` say the same, and `updated_ledger` is the latest ledger
a financing's events carry, as far as the builders see to it.
`upsert_financing` sets `defaulted` over a row but not its `status`, and takes
`updated_ledger` from a ledger that may be absent; `refund_financing` leaves
`updated_ledger` alone.
-/

namespace VerdantBackend

open Prog

variable {uuid : String → Option String}

/-- No change takes a row away. -/
theorem FinancingChange.after_some (c : FinancingChange) (row : FinancingRow) :
    ∃ row', c.toRow.after (some row) = some row' := by
  cases c <;> exact ⟨_, rfl⟩

/-! ## Status and flag -/

def FinancingRow.FlagAgrees (row : FinancingRow) : Prop :=
  row.status = .defaulted ↔ row.defaulted = true

namespace FinancingChange

/-- The step leaves a row whose flag agrees with its status with a flag that
agrees: a Created over the row brings the flag that the status says. -/
def KeepsFlag (c : FinancingChange) (row : FinancingRow) : Prop :=
  match c with
  | .created _ e => row.status = .defaulted ↔ e.defaulted = true
  | .deposited _ | .released _ | .refunded _ => True

/-- **One step**: the flag still agrees exactly when the step keeps it. -/
theorem flagAgrees_after_iff {c : FinancingChange} {row row' : FinancingRow}
    (hrow : row.FlagAgrees) (hafter : c.toRow.after (some row) = some row') :
    row'.FlagAgrees ↔ c.KeepsFlag row := by
  cases c with
  | created contractId e =>
      cases hafter
      rfl
  | deposited e | released e =>
      cases hafter
      exact iff_of_true hrow trivial
  | refunded e =>
      cases hafter
      refine iff_of_true ?_ trivial
      cases e.defaulted <;> simp [FinancingRow.FlagAgrees]

/-- A row that a Created inserts. -/
theorem created_flagAgrees (contractId : String) (e : FinancingCreated) :
    (e.row contractId).FlagAgrees := by
  cases h : e.defaulted <;> simp [FinancingRow.FlagAgrees, FinancingCreated.row, h]

end FinancingChange

/-- Every financing row's status agrees with its flag. -/
def Db.FlagsAgree (db : Db) : Prop :=
  ∀ id row, db.financingProjection.lookup id = some row → row.FlagAgrees

/-- The event finds a row whose flag it keeps, if it finds one. -/
def Db.FlagKeptBy (db : Db) (e : ChainEvent) : Prop :=
  ∀ c, decodeEvent e = .ok (some (.financing c)) →
    ∀ row, db.financingProjection.lookup c.toRow.key = some row → c.KeepsFlag row

theorem applyEvent_flagsAgree_iff {db : Db} {e : ChainEvent} {r : Bool × Db}
    (h : applyEvent uuid db e = .ok r) (hdb : db.FlagsAgree) :
    r.2.FlagsAgree ↔ db.FlagKeptBy e := by
  have hrows := applyEvent_financing h
  constructor
  · intro hafter c hc row hrow
    have hchange := financingChange_eq_some.mpr ⟨c, hc, rfl⟩
    obtain ⟨row', hrow'⟩ := c.after_some row
    have hlook := hrows c.toRow.key
    rw [hrow, RowChange.step_of_names hchange rfl, hrow'] at hlook
    exact (FinancingChange.flagAgrees_after_iff (hdb _ row hrow) hrow').mp
      (hafter _ row' hlook)
  · intro hkept id row' hrow'
    rw [hrows id] at hrow'
    by_cases hn : RowChange.Names financingChange id e
    · obtain ⟨d, hd, hkey⟩ := hn
      obtain ⟨c, hc, rfl⟩ := financingChange_eq_some.mp hd
      rw [RowChange.step_of_names hd hkey] at hrow'
      cases hrow : db.financingProjection.lookup id with
      | some row =>
          rw [hrow] at hrow'
          exact (FinancingChange.flagAgrees_after_iff (hdb id row hrow) hrow').mpr
            (hkept c hc row (hkey ▸ hrow))
      | none =>
          rw [hrow] at hrow'
          cases c with
          | created contractId e =>
              cases hrow'
              exact FinancingChange.created_flagAgrees contractId e
          | deposited e | released e | refunded e => cases hrow'
    · rw [RowChange.step_of_not_names hn] at hrow'
      exact hdb id row' hrow'

/-- Only `apply_event` writes financing rows. -/
theorem execWorld_financing {q : IndexerStmt} {a : q.Res} {w w' : World}
    (h : execWorld uuid q w = .ok (a, w')) (hq : ∀ e, q ≠ .applyEvent e) :
    w'.db.financingProjection = w.db.financingProjection := by
  obtain ⟨db, hx, rfl⟩ := execWorld_ok_iff.mp h
  cases q with
  | applyEvent e => exact absurd rfl (hq e)
  | insertEvent e =>
      rw [exec_insertEvent hx]
  | selectCursor _ | eventsAfter _ _ | headLedger | upsertCursor _ _ | selectFinalized _ _
  | deleteEvents _ _ | deleteCursor _ =>
      cases hx
      rfl

section
variable {ι : Type} [DecidableEq ι] {ops : ι → IndexerOp}

/-- An applied event keeps the flag of the row it finds. -/
def KeepsFlag (_past : List (Happening indexer ι)) (pool : Pool indexer ι World) :
    Happening indexer ι → Prop
  | .did _ ⟨.applyEvent e, .ok _⟩ => pool.store.db.FlagKeptBy e
  | _ => True

theorem flagsAgree_step_iff {F : Failures indexer World} {past : List (Happening indexer ι)}
    {pool pool' : Pool indexer ι World} {h : Happening indexer ι}
    (hstep : Pool.Step (execWorld uuid) F World.Grows pool h pool')
    (hpool : pool.store.db.FlagsAgree) :
    pool'.store.db.FlagsAgree ↔ KeepsFlag past pool h := by
  cases hstep with
  | @ok i q k a s hp hx =>
      by_cases hq : ∃ e, q = .applyEvent e
      · obtain ⟨e, rfl⟩ := hq
        obtain ⟨db, hdb, rfl⟩ := execWorld_ok_iff.mp hx
        exact applyEvent_flagsAgree_iff hdb hpool
      · have hkeep := execWorld_financing hx fun e he => hq ⟨e, he⟩
        have htriv : KeepsFlag past pool (.did i ⟨q, .ok a⟩) := by
          cases q with
          | applyEvent e => exact absurd ⟨e, rfl⟩ hq
          | insertEvent _ | selectCursor _ | eventsAfter _ _ | headLedger | upsertCursor _ _
          | selectFinalized _ _ | deleteEvents _ _ | deleteCursor _ => trivial
        refine iff_of_true ?_ htriv
        rw [Db.FlagsAgree, Pool.set_store, hkeep]
        exact hpool
  | @fail i q k e hp hf =>
      refine iff_of_true hpool ?_
      cases q <;> trivial
  | crash => exact iff_of_true hpool trivial
  | outside henv =>
      refine iff_of_true ?_ trivial
      rw [henv.1]
      exact hpool

/-- **Status and flag** agree in every state of a run whose applied events keep the
flag, and the first one that does not parts them. -/
theorem financing_flag_agrees {F : Failures indexer World} {source : EventSource}
    {past : List (Happening indexer ι)} {pool : Pool indexer ι World}
    (hrun : Pool.Run (execWorld uuid) F World.Grows KeepsFlag
      (Pool.start ⟨Db.empty, source⟩ fun i => (ops i).prog) past pool) :
    pool.store.db.FlagsAgree ∧
      ∀ h pool', Pool.Step (execWorld uuid) F World.Grows pool h pool' →
        (pool'.store.db.FlagsAgree ↔ KeepsFlag past pool h) := by
  have hinv := hrun.invariant (P := fun _ pool => pool.store.db.FlagsAgree) ?_ ?_
  · exact ⟨hinv, fun h pool' hstep => flagsAgree_step_iff hstep hinv⟩
  · intro id row hrow
    cases hrow
  · intro past pool h pool' hpool hkept hstep
    exact (flagsAgree_step_iff hstep hpool).mpr hkept

end

/-! A financing drawn, then refunded as defaulted, and two ingests of it. -/

def financingDrawn : ChainEvent :=
  financingEvent "FinancingCreated" 100 [.str "GF", .str "GB", .int 500, .int 0, .int 1,
    .arr [], .int 100, .int 0, .bool false, .null]

def financingDefaulted : ChainEvent :=
  financingEvent "FinancingRefunded" 102 [.int 10, .bool true, .int 102]

def defaultedSource : EventSource :=
  .ofList [financingDrawn, financingDefaulted] 120 (by decide) (by decide)

/-- A deposit more. -/
def defaultedLater : EventSource :=
  .ofList [financingDrawn, financingDefaulted,
    financingEvent "FinancingDeposited" 103 [.int 40, .int 103]] 120 (by decide) (by decide)

def defaultedPool : Pool indexer Bool World :=
  .start ⟨Db.empty, defaultedSource⟩ fun _ => (IndexerOp.ingest "CF").prog

/-- One ingest, to its end. -/
theorem financing_flag_agrees_once :
    ∃ past pool, Pool.Run (execWorld noUuid) (ownFailures (execWorld noUuid)) World.Grows
        KeepsFlag defaultedPool past pool ∧ past.length = 9 ∧ pool.store.db.FlagsAgree := by
  have h₀ : Pool.Run (execWorld noUuid) (ownFailures (execWorld noUuid)) World.Grows
      KeepsFlag defaultedPool [] defaultedPool := .start
  have h₁ := h₀.step (h := .did true ⟨IndexerStmt.selectCursor "CF", .ok none⟩)
    (by trivial) (.ok rfl rfl)
  have h₂ := h₁.step (h := .did true ⟨IndexerStmt.eventsAfter "CF" Cursor.START,
    .ok [financingDrawn, financingDefaulted]⟩) (by trivial) (.ok rfl rfl)
  have h₃ := h₂.step (h := .did true ⟨IndexerStmt.headLedger, .ok (120 : Int)⟩)
    (by trivial) (.ok rfl rfl)
  have h₄ := h₃.step (h := .did true ⟨IndexerStmt.insertEvent financingDrawn, .ok ()⟩)
    (by trivial) (.ok rfl rfl)
  have h₅ := h₄.step (h := .did true ⟨IndexerStmt.insertEvent financingDefaulted, .ok ()⟩)
    (by trivial) (.ok rfl rfl)
  have h₆ := h₅.step (h := .did true ⟨IndexerStmt.upsertCursor "CF"
    financingDefaulted.position, .ok ()⟩) (by trivial) (.ok rfl rfl)
  have h₇ := h₆.step (h := .did true ⟨IndexerStmt.selectFinalized "CF" 110,
    .ok [financingDrawn, financingDefaulted]⟩) (by trivial) (.ok rfl rfl)
  have h₈ := h₇.step (h := .did true ⟨IndexerStmt.applyEvent financingDrawn, .ok true⟩)
    (by intro c _ row hrow; cases hrow) (.ok rfl rfl)
  have h₉ := h₈.step (h := .did true ⟨IndexerStmt.applyEvent financingDefaulted, .ok true⟩)
    (by intro c hc row _; cases hc; trivial) (.ok rfl rfl)
  exact ⟨_, _, h₉, rfl, (@financing_flag_agrees _ _ _ (fun _ => .ingest "CF") _ _ _ _ h₉).1⟩

/-- The first ingest has ended, and the log has grown. -/
def defaultedWorld : World :=
  ⟨(defaultedPool.runSchedule (execWorld noUuid) (List.replicate 9 true)).store.db,
    defaultedLater⟩

/-- The next ingest applies the Created again: `defaulted` is `FALSE` and `status`
still `defaulted`. -/
theorem financing_flag_parts :
    ∃ past pool, Pool.Run (execWorld noUuid) (ownFailures (execWorld noUuid)) World.Grows
        (fun _ _ _ => True) defaultedPool past pool ∧ ¬ pool.store.db.FlagsAgree := by
  have hstart : Pool.Run (execWorld noUuid) (ownFailures (execWorld noUuid)) World.Grows
      (fun _ _ _ => True) defaultedPool [] defaultedPool := .start
  have hfirst := hstart.schedule (fun _ _ _ h => h) (List.replicate 9 true)
  have hgrows : (defaultedPool.runSchedule (execWorld noUuid) (List.replicate 9 true)).store.Grows
      defaultedWorld :=
    ⟨rfl, fun c => List.IsPrefix.filter _
      (List.prefix_append [financingDrawn, financingDefaulted] _)⟩
  have hrun := (hfirst.step trivial (.outside hgrows)).schedule (fun _ _ _ h => h)
    (List.replicate 7 false)
  refine ⟨_, _, hrun, ?_⟩
  intro h
  have hfinal : ((Pool.runSchedule (execWorld noUuid)
      ⟨defaultedWorld, (defaultedPool.runSchedule (execWorld noUuid)
        (List.replicate 9 true)).procs⟩
      (List.replicate 7 false)).store.db.financingProjection.lookup
        "va:financing:000000000003").map (fun row => (row.status, row.defaulted)) =
      some (.defaulted, false) := by decide
  obtain ⟨row, hrow, hcols⟩ := Option.map_eq_some_iff.mp hfinal
  rw [Prod.mk.injEq] at hcols
  have hflag := (h _ row hrow).mp hcols.1
  rw [hcols.2] at hflag
  cases hflag

/-! ## The latest ledger -/

/-- The ledger number a change carries, each in its own payload field. -/
def FinancingChange.carriedLedger : FinancingChange → Option Int
  | .created _ e => e.drawnLedger
  | .deposited e => some e.updatedLedger
  | .released e => some e.updatedLedger
  | .refunded e => e.defaultedLedger

def carriedLedger (e : ChainEvent) : Option Int :=
  match decodeEvent e with
  | .ok (some (.financing c)) => c.carriedLedger
  | _ => none

theorem carriedLedger_of_decode {e : ChainEvent} {c : FinancingChange}
    (h : decodeEvent e = .ok (some (.financing c))) : carriedLedger e = c.carriedLedger := by
  rw [carriedLedger, h]

/-- Events of one financing, the first of them its Created, the ledgers they carry
never going back. -/
structure FinancingHistory (counter : Nat) (history : List ChainEvent) : Prop where
  events : ∀ e ∈ history, ∃ c, decodeEvent e = .ok (some (.financing c)) ∧ c.counter = counter
  created : ∀ e rest, history = e :: rest →
    ∃ contractId d, decodeEvent e = .ok (some (.financing (.created contractId d)))
  ordered : (history.filterMap carriedLedger).Pairwise (· ≤ ·)

/-- What a history carries is no later than what comes next. -/
theorem FinancingHistory.carried_le {counter : Nat} {history p : List ChainEvent}
    {e : ChainEvent} (h : FinancingHistory counter history) (hp : p ++ [e] <+: history) {m n : Int}
    (hm : m ∈ p.filterMap carriedLedger) (hn : carriedLedger e = some n) : m ≤ n := by
  have hsub := (hp.filterMap carriedLedger).sublist
  rw [List.filterMap_append, List.filterMap_cons, hn] at hsub
  exact (List.pairwise_append.mp (h.ordered.sublist hsub)).2.2 m hm n (by simp)

/-- `updated_ledger` is there and covers every ledger the events carry. -/
def FinancingRow.CoversLedgers (row : FinancingRow) (p : List ChainEvent) : Prop :=
  ∃ n, row.updatedLedger = some n ∧ ∀ m ∈ p.filterMap carriedLedger, m ≤ n

/-- The step leaves `updated_ledger` covering what it carries itself: a Created
carries a ledger, and a Refunded none later than the row's. -/
def FinancingChange.KeepsLedger (c : FinancingChange) (row : Option FinancingRow) : Prop :=
  match c with
  | .created _ e => e.drawnLedger.isSome
  | .deposited _ | .released _ => True
  | .refunded e => ∀ r n m, row = some r → r.updatedLedger = some n →
      e.defaultedLedger = some m → m ≤ n

/-- A row whose `updated_ledger` is the ledger the last event carries. -/
theorem FinancingHistory.covers_iff {counter : Nat} {history p : List ChainEvent}
    {e : ChainEvent} (h : FinancingHistory counter history) (hp : p ++ [e] <+: history)
    {row : FinancingRow} (hrow : row.updatedLedger = carriedLedger e) :
    row.CoversLedgers (p ++ [e]) ↔ (carriedLedger e).isSome := by
  constructor
  · intro hcov
    obtain ⟨n, hn, _⟩ := hcov
    rw [← hrow, hn]
    rfl
  · intro hsome
    obtain ⟨n, hn⟩ := Option.isSome_iff_exists.mp hsome
    refine ⟨n, hrow.trans hn, ?_⟩
    intro m hm
    rw [List.filterMap_append, List.mem_append] at hm
    rcases hm with hm | hm
    · exact h.carried_le hp hm hn
    · simp only [List.filterMap_cons, hn, List.filterMap_nil, List.mem_singleton] at hm
      omega

/-- **One step**: the ledgers are still covered exactly when the step keeps them. -/
theorem FinancingHistory.covers_after_iff {counter : Nat} {history p : List ChainEvent}
    {e : ChainEvent} {c : FinancingChange} (h : FinancingHistory counter history)
    (hp : p ++ [e] <+: history) (hc : decodeEvent e = .ok (some (.financing c)))
    {row row' : FinancingRow} (hrow : row.CoversLedgers p)
    (hafter : c.toRow.after (some row) = some row') :
    row'.CoversLedgers (p ++ [e]) ↔ c.KeepsLedger (some row) := by
  have hcarried := carriedLedger_of_decode hc
  cases c with
  | created contractId d =>
      cases hafter
      rw [h.covers_iff hp (by rw [hcarried]; rfl), hcarried]
      rfl
  | deposited d | released d =>
      cases hafter
      rw [h.covers_iff hp (by rw [hcarried]; rfl), hcarried]
      exact iff_of_true rfl trivial
  | refunded d =>
      cases hafter
      obtain ⟨n, hn, hall⟩ := hrow
      constructor
      · intro hcov r n' m hr hn' hm
        cases hr
        obtain ⟨n'', hn'', hall'⟩ := hcov
        rw [show row.updatedLedger = some n'' from hn''] at hn'
        cases hn'
        exact hall' m (by simp [hcarried, FinancingChange.carriedLedger, hm])
      · intro hkeep
        refine ⟨n, hn, ?_⟩
        intro m hm
        rw [List.filterMap_append, List.mem_append] at hm
        rcases hm with hm | hm
        · exact hall m hm
        · simp only [List.mem_filterMap, List.mem_singleton, exists_eq_left] at hm
          exact hkeep row n m rfl hn (hcarried.symm.trans hm)

variable (uuid) in
/-- After every first part of the history, applied once to empty tables, the row is
there and its `updated_ledger` covers what the events carried. -/
def LedgersCoveredAlong (counter : Nat) (history : List ChainEvent) : Prop :=
  ∀ p, p <+: history → ∀ db, applyAll uuid .empty p = .ok db → p ≠ [] →
    ∃ row, db.financingProjection.lookup (counterId FINANCING_PREFIX counter) = some row ∧
      row.CoversLedgers p

variable (uuid) in
/-- Every applied step keeps `updated_ledger` the latest. -/
def StepsKeepLedger (counter : Nat) (history : List ChainEvent) : Prop :=
  ∀ p e, p ++ [e] <+: history → ∀ db r, applyAll uuid .empty p = .ok db →
    applyEvent uuid db e = .ok r →
    ∀ c, decodeEvent e = .ok (some (.financing c)) →
      c.KeepsLedger (db.financingProjection.lookup (counterId FINANCING_PREFIX counter))

/-- **The latest ledger**: `updated_ledger` covers the history all along exactly when
every step keeps it so. -/
theorem financing_ledger_covers_iff {counter : Nat} {history : List ChainEvent}
    (hof : FinancingHistory counter history) :
    LedgersCoveredAlong uuid counter history ↔ StepsKeepLedger uuid counter history := by
  refine projection_prefixes_iff (financings uuid) (counterId FINANCING_PREFIX counter)
    (Q := fun p row => p ≠ [] → ∃ r, row = some r ∧ r.CoversLedgers p)
    (C := fun row e => ∀ c, decodeEvent e = .ok (some (.financing c)) → c.KeepsLedger row)
    (fun h => absurd rfl h) ?_
  intro p e row hp hreplay hrow
  obtain ⟨t, ht⟩ := hp
  obtain ⟨c, hc, rfl⟩ := hof.events e (by rw [← ht]; simp)
  have hstep : RowChange.step (financings uuid).change (counterId FINANCING_PREFIX c.counter)
      row e = c.toRow.after row :=
    RowChange.step_of_names (financingChange_eq_some.mpr ⟨c, hc, rfl⟩) c.toRow_key row
  have hkeeps : (∀ v, decodeEvent e = .ok (some (.financing v)) → v.KeepsLedger row) ↔
      c.KeepsLedger row := by
    simp [hc]
  rw [hstep, hkeeps]
  cases p with
  | nil =>
      -- the first event: there is no row yet, and it opens one
      subst hreplay
      obtain ⟨contractId, d, hd⟩ := hof.created e t (by rw [← ht]; rfl)
      have hcarried := carriedLedger_of_decode hc
      rw [hc] at hd
      cases hd
      have hcov : (d.row contractId).CoversLedgers ([] ++ [e]) ↔ (carriedLedger e).isSome :=
        hof.covers_iff ⟨t, ht⟩ (by rw [hcarried]; rfl)
      rw [hcarried] at hcov
      have hkept : (d.row contractId).CoversLedgers [e] ↔
          (FinancingChange.created contractId d).KeepsLedger none := hcov
      simpa [FinancingChange.toRow] using hkept
  | cons x p =>
      obtain ⟨r, rfl, hcov⟩ := hrow (List.cons_ne_nil x p)
      obtain ⟨r', hr'⟩ := c.after_some r
      rw [← hof.covers_after_iff ⟨t, ht⟩ hc hcov hr', hr']
      simp

/-- Drawn at 100, and whatever followed. -/
theorem financingHistory_of_drawn {l : List ChainEvent}
    (hl : ∀ e ∈ l, ∃ c, decodeEvent e = .ok (some (.financing c)) ∧ c.counter = 3)
    (hordered : ((financingDrawn :: l).filterMap carriedLedger).Pairwise (· ≤ ·)) :
    FinancingHistory 3 (financingDrawn :: l) where
  events := by
    intro e he
    rcases List.mem_cons.mp he with rfl | he
    · exact ⟨_, rfl, rfl⟩
    · exact hl e he
  created := by
    intro e rest h
    obtain ⟨rfl, _⟩ := List.cons.inj h
    exact ⟨_, _, rfl⟩
  ordered := hordered

theorem financing_ledger_covers_deposited :
    FinancingHistory 3 [financingDrawn, financingDeposited] ∧
      LedgersCoveredAlong noUuid 3 [financingDrawn, financingDeposited] := by
  have hof : FinancingHistory 3 [financingDrawn, financingDeposited] := by
    refine financingHistory_of_drawn ?_ (by decide)
    intro e he
    rw [List.mem_singleton.mp he]
    exact ⟨_, rfl, rfl⟩
  refine ⟨hof, (financing_ledger_covers_iff hof).mpr ?_⟩
  intro p e hp db r _ _ c hc
  have he : e ∈ [financingDrawn, financingDeposited] := hp.subset (by simp)
  simp only [List.mem_cons, List.not_mem_nil, or_false] at he
  rcases he with rfl | rfl
  · cases hc
    rfl
  · cases hc
    trivial

/-- The default is at ledger 102, and `updated_ledger` stays 100. -/
theorem financing_ledger_behind :
    FinancingHistory 3 [financingDrawn, financingDefaulted] ∧
      ¬ LedgersCoveredAlong noUuid 3 [financingDrawn, financingDefaulted] := by
  have hof : FinancingHistory 3 [financingDrawn, financingDefaulted] := by
    refine financingHistory_of_drawn ?_ (by decide)
    intro e he
    rw [List.mem_singleton.mp he]
    exact ⟨_, rfl, rfl⟩
  refine ⟨hof, ?_⟩
  intro h
  obtain ⟨db, hdb⟩ : ∃ db, applyAll noUuid .empty [financingDrawn, financingDefaulted] =
      .ok db := ⟨_, rfl⟩
  obtain ⟨row, hrow, n, hn, hcov⟩ := h _ (List.prefix_refl _) db hdb (by simp)
  have hreplay := hrow.symm.trans
    ((financings noUuid).applyAll hdb (counterId FINANCING_PREFIX 3))
  have hfinal := congrArg (Option.map FinancingRow.updatedLedger) hreplay
  rw [show Option.map _ (RowChange.replay _ _ [financingDrawn, financingDefaulted] _) =
    some (some (100 : Int)) by decide] at hfinal
  simp only [Option.map_some, Option.some.injEq, hn] at hfinal
  have hle := hcov 102 (by decide)
  omega

end VerdantBackend
