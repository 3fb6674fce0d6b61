import VerdantBackend.Indexer.Columns
import VerdantBackend.Indexer.ProjectionReplay
import VerdantBackend.Indexer.Summaries
import VerdantBackend.Routes.CounterIds

/-!
# What the routes serve

The indexer writes the projection tables, the routes read them. In every state the
indexer can reach, a lookup answers what the applied events say of the counter, and
a list shows what the lookups find.
-/

namespace VerdantBackend

open Paging (Sorter)
open Prog (Failures anyFailure)

/-! ## Items

`From<VerificationRow>`, `From<EscrowRow>` and `From<FinancingRow>`, over the row as the
indexer wrote it and its key. -/

def VerificationRow.item (id : String) (row : VerificationRow) : Verification where
  id := id
  contractId := row.contractId
  batchId := row.batchId
  subject := row.subject
  proofHash := row.proofHash
  issuer := row.issuer
  issuedLedger := row.issuedLedger
  revoked := row.revoked
  revokedLedger := row.revokedLedger

def EscrowRow.item (id : String) (row : EscrowRow) : Escrow where
  id := id
  contractId := row.contractId
  depositor := row.depositor
  beneficiary := row.beneficiary
  amount := row.amount
  releasedAmount := row.releasedAmount
  bookingRef := some row.bookingRef
  conditionKind := row.conditionKind
  conditionReleaser := row.conditionReleaser
  conditionTimeoutLedger := row.conditionTimeoutLedger
  createdLedger := row.createdLedger
  updatedLedger := row.updatedLedger
  status := row.status.text

def FinancingRow.item (id : String) (row : FinancingRow) : Financing where
  id := id
  contractId := row.contractId
  funder := row.funder
  beneficiary := row.beneficiary
  totalAmount := row.totalAmount
  drawnAmount := row.drawnAmount
  milestoneCount := row.milestoneCount
  milestones := row.milestones
  drawnLedger := row.drawnLedger
  repaidAmount := row.repaidAmount
  defaulted := row.defaulted
  defaultedLedger := row.defaultedLedger
  updatedLedger := row.updatedLedger
  status := row.status.text

section Shows
variable {ρ ι : Type} {id : ι → String} {rows : Table String ρ} {item : String → ρ → ι}
  {table : ProjectionTable id}

/-- The rows that the queries read are those of the table. -/
def Shows (rows : Table String ρ) (item : String → ρ → ι) (table : ProjectionTable id) : Prop :=
  ∀ v, v ∈ table.rows ↔ ∃ key row, rows.lookup key = some row ∧ v = item key row

/-- There is a table that shows any rows that PostgreSQL has room for. -/
theorem exists_shows (hid : ∀ key row, id (item key row) = key)
    (hcard : rows.entries.card < 2 ^ 48) : ∃ table : ProjectionTable id, Shows rows item table := by
  obtain ⟨entries, hentries⟩ := Quot.exists_rep rows.entries
  have hkeys : (entries.map Sigma.fst).Nodup := by
    have h := rows.nodupKeys
    rw [← hentries] at h
    exact h
  have hids : ((entries.map fun e => item e.1 e.2).map id) = entries.map Sigma.fst := by
    simp [hid]
  refine ⟨⟨entries.map fun e => item e.1 e.2, ?_, ?_⟩, ?_⟩
  · rw [hids]
    exact hkeys
  · rw [List.length_map]
    rw [← hentries] at hcard
    exact hcard
  · intro v
    simp only [List.mem_map, Sigma.exists]
    constructor
    · intro h
      obtain ⟨key, row, hmem, rfl⟩ := h
      refine ⟨key, row, Finmap.lookup_eq_some_iff.mpr ?_, rfl⟩
      rw [← hentries]
      exact hmem
    · intro h
      obtain ⟨key, row, hrow, rfl⟩ := h
      rw [Finmap.lookup_eq_some_iff, ← hentries] at hrow
      exact ⟨key, row, hrow, rfl⟩

/-- `ok_or_else(|| AppError::NotFound(..))`. -/
def orNotFound (label input : String) : Option ι → Except AppError ι
  | some v => .ok v
  | none => .error (.notFound s!"{label} {input} not found")

/-- **A lookup** answers with the row of the key. -/
theorem Shows.getHandler_eq (h : Shows rows item table) (hid : ∀ key row, id (item key row) = key)
    (label : String) {normalize : String → Except AppError String} {input key : String}
    (hkey : normalize input = .ok key) (hnul : hasNul key = false) :
    getHandler label normalize table input =
      orNotFound label input ((rows.lookup key).map (item key)) := by
  have hselect : selectRow table key = .ok ((rows.lookup key).map (item key)) := by
    cases hrow : rows.lookup key with
    | some row => exact selectRow_eq hnul ((h _).mpr ⟨key, row, hrow, rfl⟩) (hid key row)
    | none =>
        rw [selectRow, hnul, if_neg Bool.false_ne_true]
        refine congrArg Except.ok (List.find?_eq_none.mpr ?_)
        intro v hv
        obtain ⟨key', row, hrow', rfl⟩ := (h v).mp hv
        rw [hid, decide_eq_true_eq]
        rintro rfl
        rw [hrow] at hrow'
        cases hrow'
  rw [getHandler, hkey]
  simp only [bind, Except.bind, hselect, Except.mapError]
  cases rows.lookup key <;> rfl

/-- Pages 1 to `totalPages` hold every selected item that a lookup finds, once. -/
def ListsFound (selects : ι → Prop) (answer : Int64 → Except AppError (ListResponse ι))
    (kindPrefix : String) (get : String → Except AppError ι) : Prop :=
  ∃ pages : List (ListResponse ι), pages ≠ [] ∧
    (∀ n (h : n < pages.length), answer (.ofNat (n + 1)) = .ok (pages.get ⟨n, h⟩)) ∧
    (∀ p ∈ pages, p.pagination.totalPages.toInt = pages.length) ∧
    (pages.flatMap ListResponse.items).Nodup ∧
    ∀ v, v ∈ pages.flatMap ListResponse.items ↔
      selects v ∧ ∃ n < 2 ^ 64, get (counterId kindPrefix n) = .ok v

theorem normalizeId_counterId (p : CounterKind) {n : Nat} (hn : n < 2 ^ 64) :
    p.normalizeId (counterId p.idKind n) = .ok (counterId p.idKind n) := by
  have hstrip : stripPrefix (p.idKind ++ ":") (counterId p.idKind n) =
      some (String.ofList (padded12 n)) := stripPrefix_eq_some_iff.mpr rfl
  rw [p.normalizeId_eq, normalizeId_of_prefixed hstrip, parseU64_padded12 hn]
  exact ⟨rfl, rfl⟩

/-- **A list** shows what the lookups find. -/
theorem Shows.listsFound (h : Shows rows item table) (hid : ∀ key row, id (item key row) = key)
    {p : CounterKind} (hkeys : ∀ key row, rows.lookup key = some row →
      ∃ n < 2 ^ 64, key = counterId p.idKind n)
    {collation : LinearOrder String} {ledger : ι → Option Int}
    (sorters : Int64 → Sorter (ListedBefore collation ledger id)) {binds : List (Option String)}
    (hbinds : Storable binds) {matching : ι → Bool} {selects : ι → Prop}
    (hselects : ∀ v, matching v = true ↔ selects v) (pageSize : Int64) (label : String) :
    ListsFound selects
      (fun page => listHandler (sorters page) table binds matching page pageSize) p.idKind
      (getHandler label p.normalizeId table) := by
  have hparts : Partitions (ListedBefore collation ledger id) (table.rows.filter matching)
      (clampedSize pageSize)
      fun page => listHandler (sorters page) table binds matching page pageSize :=
    listHandler_partitions sorters hbinds pageSize
  obtain ⟨pages, hpages, hanswer⟩ := hparts
  refine ⟨pages, hpages.ne_nil, hanswer, hpages.totalPages, hpages.once, ?_⟩
  intro v
  rw [hpages.items.mem_iff, List.mem_filter, hselects, h v, and_comm]
  refine and_congr_right fun _ => ?_
  constructor
  · intro hv
    obtain ⟨key, row, hrow, rfl⟩ := hv
    obtain ⟨n, hn, rfl⟩ := hkeys key row hrow
    refine ⟨n, hn, ?_⟩
    rw [h.getHandler_eq hid label (normalizeId_counterId p hn) (hasNul_counterId p n), hrow]
    rfl
  · intro hv
    obtain ⟨n, hn, hget⟩ := hv
    rw [h.getHandler_eq hid label (normalizeId_counterId p hn) (hasNul_counterId p n)] at hget
    cases hrow : rows.lookup (counterId p.idKind n) with
    | none =>
        rw [hrow] at hget
        cases hget
    | some row =>
        rw [hrow] at hget
        cases hget
        exact ⟨_, row, hrow, rfl⟩

end Shows

/-! ## In every state the indexer reaches -/

section
variable {uuid : String → Option String} {ι : Type} [DecidableEq ι] {ops : ι → IndexerOp}
  {past : List (Happening indexer ι)} {pool : Pool indexer ι World} {F : Failures indexer World}
  {G : List (Happening indexer ι) → Pool indexer ι World → Happening indexer ι → Prop}
  {source : EventSource}

/-- **Lookups serve the history.** Whatever operations have run so far, in whatever order of
their statements and with whatever crashes and failures: a lookup of a counter answers
with the item that the applied events say, or that there is none. -/
theorem lookups_served
    (hrun : Pool.Run (execWorld uuid) F World.Advances G
      (Pool.start ⟨Db.empty, source⟩ fun i => (ops i).prog) past pool)
    {vs : ProjectionTable Verification.id} {es : ProjectionTable Escrow.id}
    {fs : ProjectionTable Financing.id}
    (hvs : Shows pool.store.db.verificationProjection VerificationRow.item vs)
    (hes : Shows pool.store.db.escrowProjection EscrowRow.item es)
    (hfs : Shows pool.store.db.financingProjection FinancingRow.item fs) (n : Nat) :
    (∀ input, normalizeVerificationId input = .ok (counterId VERIFICATION_PREFIX n) →
      getVerificationHandler vs input = orNotFound "verification" input
        ((verificationSummary uuid n (appliedAlong past)).map
          (VerificationRow.item (counterId VERIFICATION_PREFIX n)))) ∧
    (∀ input, normalizeEscrowId input = .ok (counterId ESCROW_PREFIX n) →
      getEscrowHandler es input = orNotFound "escrow" input
        ((escrowSummary uuid n (appliedAlong past)).map
          (EscrowRow.item (counterId ESCROW_PREFIX n)))) ∧
    (∀ input, normalizeFinancingId input = .ok (counterId FINANCING_PREFIX n) →
      getFinancingHandler fs input = orNotFound "financing" input
        ((financingSummary n (appliedAlong past)).map
          (FinancingRow.item (counterId FINANCING_PREFIX n)))) := by
  refine ⟨?_, ?_, ?_⟩
  · intro input hkey
    have hrow : pool.store.db.verificationProjection.lookup (counterId VERIFICATION_PREFIX n) =
        verificationSummary uuid n (appliedAlong past) :=
      (lookup_eq_replay hrun (verifications uuid) _).trans (replay_verification n _)
    rw [← hrow]
    exact hvs.getHandler_eq (fun _ _ => rfl) "verification" hkey (hasNul_counterId .verification n)
  · intro input hkey
    have hrow : pool.store.db.escrowProjection.lookup (counterId ESCROW_PREFIX n) =
        escrowSummary uuid n (appliedAlong past) :=
      (lookup_eq_replay hrun (escrows uuid) _).trans (replay_escrow n _)
    rw [← hrow]
    exact hes.getHandler_eq (fun _ _ => rfl) "escrow" hkey (hasNul_counterId .escrow n)
  · intro input hkey
    have hrow : pool.store.db.financingProjection.lookup (counterId FINANCING_PREFIX n) =
        financingSummary n (appliedAlong past) :=
      (lookup_eq_replay hrun (financings uuid) _).trans (replay_financing n _)
    rw [← hrow]
    exact hfs.getHandler_eq (fun _ _ => rfl) "financing" hkey (hasNul_counterId .financing n)

end

/-! An ingest of one verification, created and revoked, to its end. -/

def servedSteps : List Bool := [true, true, true, true, true, true, true, true, true]

def servedPool : Pool indexer Bool World :=
  (pairPool (revokedSource 120)).runSchedule (execWorld noUuid) servedSteps

def servedRow : VerificationRow :=
  ⟨"CV", "va:batch:b1", "GS", "0f1e", "GI", 100, false, none⟩

def revokedRow : VerificationRow := { servedRow with revoked := true, revokedLedger := some 101 }

theorem oneRow_length_lt {ι : Type} (item : ι) : [item].length < 2 ^ 48 :=
  Nat.one_lt_two_pow (Nat.succ_ne_zero _)

def oneVerification (row : VerificationRow) : ProjectionTable Verification.id where
  rows := [row.item "va:verification:000000000007"]
  ids := List.nodup_singleton _
  length_lt := oneRow_length_lt _

def noRows {ι : Type} (id : ι → String) : ProjectionTable id where
  rows := []
  ids := List.nodup_nil
  length_lt := Nat.two_pow_pos 48

theorem servedPool_run :
    Pool.Run (execWorld noUuid) anyFailure World.Advances (fun _ _ _ => True)
      (Pool.start ⟨Db.empty, revokedSource 120⟩ fun i => (pairOps i).prog)
      (Pool.traceSchedule (execWorld noUuid) [] (pairPool (revokedSource 120)) servedSteps)
      servedPool := by
  have hstart : Pool.Run (execWorld noUuid) anyFailure World.Advances (fun _ _ _ => True)
      (Pool.start ⟨Db.empty, revokedSource 120⟩ fun i => (pairOps i).prog) []
      (pairPool (revokedSource 120)) := .start
  exact hstart.schedule (fun _ _ _ _ => trivial) servedSteps

theorem shows_oneVerification (row : VerificationRow) :
    Shows ((∅ : Table String VerificationRow).insert "va:verification:000000000007" row)
      VerificationRow.item (oneVerification row) := by
  intro v
  rw [oneVerification, List.mem_singleton]
  constructor
  · rintro rfl
    exact ⟨_, row, Finmap.lookup_insert _, rfl⟩
  · intro h
    obtain ⟨key, row', hrow, rfl⟩ := h
    by_cases hkey : key = "va:verification:000000000007"
    · subst hkey
      rw [Finmap.lookup_insert, Option.some.injEq] at hrow
      rw [hrow]
    · rw [Finmap.lookup_insert_of_ne _ hkey] at hrow
      cases hrow

theorem servedPool_verifications :
    Shows servedPool.store.db.verificationProjection VerificationRow.item
      (oneVerification revokedRow) := by
  have htable : servedPool.store.db.verificationProjection =
      (∅ : Table String VerificationRow).insert "va:verification:000000000007" revokedRow := rfl
  rw [htable]
  exact shows_oneVerification revokedRow

theorem shows_noRows {ρ ι : Type} {id : ι → String} {item : String → ρ → ι} :
    Shows (∅ : Table String ρ) item (noRows id) := by
  intro v
  simp [noRows]

theorem lookups_served_ingest :
    getVerificationHandler (oneVerification revokedRow) "7" =
      .ok (revokedRow.item "va:verification:000000000007") :=
  (lookups_served servedPool_run servedPool_verifications
    (shows_noRows : Shows servedPool.store.db.escrowProjection EscrowRow.item _)
    (shows_noRows : Shows servedPool.store.db.financingProjection FinancingRow.item _) 7).1 "7"
    (by decide)

/-! ## Lists -/

section
variable {uuid : String → Option String} {ι : Type} [DecidableEq ι] {ops : ι → IndexerOp}
  {past : List (Happening indexer ι)} {pool : Pool indexer ι World} {F : Failures indexer World}
  {G : List (Happening indexer ι) → Pool indexer ι World → Happening indexer ι → Prop}
  {source : EventSource}

/-- A row is under the id of a counter. -/
theorem key_of_lookup {ρ γ : Type} (P : Projection uuid ρ) {toRow : γ → RowChange String ρ}
    {mk : γ → Change} {counter : γ → Nat} {kindPrefix : String}
    (hpick : ∀ e c, P.change e = some c ↔
      ∃ v, decodeEvent e = .ok (some (mk v)) ∧ c = toRow v)
    (hkey : ∀ v, (toRow v).key = counterId kindPrefix (counter v))
    (hlt : ∀ e v, decodeEvent e = .ok (some (mk v)) → counter v < 2 ^ 64)
    (hrun : Pool.Run (execWorld uuid) F World.Advances G
      (Pool.start ⟨Db.empty, source⟩ fun i => (ops i).prog) past pool)
    {key : String} {row : ρ} (hrow : (P.table pool.store.db).lookup key = some row) :
    ∃ n < 2 ^ 64, key = counterId kindPrefix n := by
  rw [lookup_eq_replay hrun P key] at hrow
  rcases RowChange.names_cases P.change key (appliedAlong past) with hnone | ⟨_, e, _, _, _, hnames⟩
  · rw [RowChange.replay_of_not_names hnone] at hrow
    cases hrow
  · obtain ⟨c, hc, hk⟩ := hnames
    obtain ⟨v, hv, rfl⟩ := (hpick e c).mp hc
    exact ⟨counter v, hlt e v hv, hk.symm.trans (hkey v)⟩

/-- **Lists show what lookups find**: in every such state, for each projection, filters of
texts without U+0000 list the selected items that a lookup of a counter finds, each on
one page, whatever way each query takes. -/
theorem lists_show_lookups
    (hrun : Pool.Run (execWorld uuid) F World.Advances G
      (Pool.start ⟨Db.empty, source⟩ fun i => (ops i).prog) past pool)
    (collation : LinearOrder String) {vs : ProjectionTable Verification.id}
    {es : ProjectionTable Escrow.id} {fs : ProjectionTable Financing.id}
    (hvs : Shows pool.store.db.verificationProjection VerificationRow.item vs)
    (hes : Shows pool.store.db.escrowProjection EscrowRow.item es)
    (hfs : Shows pool.store.db.financingProjection FinancingRow.item fs) :
    (∀ (sorters : Int64 → Sorter (Verification.ListedBefore collation))
      (q : ListVerificationsQuery), Storable q.binds →
      ListsFound q.Selects (fun page => listVerificationsHandler (sorters page) vs { q with page })
        VERIFICATION_PREFIX (getVerificationHandler vs)) ∧
    (∀ (sorters : Int64 → Sorter (Escrow.ListedBefore collation)) (q : ListEscrowsQuery),
      Storable q.binds →
      ListsFound q.Selects (fun page => listEscrowsHandler (sorters page) es { q with page })
        ESCROW_PREFIX (getEscrowHandler es)) ∧
    (∀ (sorters : Int64 → Sorter (Financing.ListedBefore collation)) (q : ListFinancingsQuery),
      Storable q.binds →
      ListsFound q.Selects (fun page => listFinancingsHandler (sorters page) fs { q with page })
        FINANCING_PREFIX (getFinancingHandler fs)) := by
  refine ⟨?_, ?_, ?_⟩
  · intro sorters q hq
    exact hvs.listsFound (p := .verification) (fun _ _ => rfl)
      (fun key row h => key_of_lookup (verifications uuid)
        (fun e c => verificationChange_eq_some) (VerificationChange.toRow_key uuid)
        (fun e v h => VerificationChange.counter_lt h) hrun h)
      sorters hq (fun v => ListVerificationsQuery.matching_iff) q.pageSize "verification"
  · intro sorters q hq
    exact hes.listsFound (p := .escrow) (fun _ _ => rfl)
      (fun key row h => key_of_lookup (escrows uuid)
        (fun e c => escrowChange_eq_some) (EscrowChange.toRow_key uuid)
        (fun e v h => EscrowChange.counter_lt h) hrun h)
      sorters hq (fun v => ListEscrowsQuery.matching_iff) q.pageSize "escrow"
  · intro sorters q hq
    exact hfs.listsFound (p := .financing) (fun _ _ => rfl)
      (fun key row h => key_of_lookup (financings uuid)
        (fun e c => financingChange_eq_some) FinancingChange.toRow_key
        (fun e v h => FinancingChange.counter_lt h) hrun h)
      sorters hq (fun v => ListFinancingsQuery.matching_iff) q.pageSize "financing"

end

theorem lists_show_lookups_ingest :
    ListsFound (ListVerificationsQuery.Selects {})
      (fun page => listVerificationsHandler (byInsertion page) (oneVerification revokedRow)
        { page })
      VERIFICATION_PREFIX (getVerificationHandler (oneVerification revokedRow)) :=
  (lists_show_lookups servedPool_run codePoints servedPool_verifications
    (shows_noRows : Shows servedPool.store.db.escrowProjection EscrowRow.item _)
    (shows_noRows : Shows servedPool.store.db.financingProjection FinancingRow.item _)).1
    byInsertion {} rfl

end VerdantBackend
