import VerdantBackend.Indexer.Acceptance
import VerdantBackend.Indexer.History
import VerdantBackend.Indexer.Passes

/-!
# Replay of escrow projections

`upsert_escrow` resets the amount but neither `released_amount` nor `status`, so
a second pass over the same history adds the releases again. Only a refund,
which sets `released_amount` from `amount`, brings the row back.
-/

namespace VerdantBackend

open Prog
open RowChange (Names Respects Overwrites Opens)

variable {uuid : String → Option String}

/-! ## The row -/

/-- What an upsert sets: all but the released amount and the status. -/
def EscrowRow.base (r : EscrowRow) : EscrowRow := { r with releasedAmount := 0, status := .opened }

/-- All but the status. -/
def EscrowRow.amounts (r : EscrowRow) : EscrowRow := { r with status := .opened }

theorem EscrowRow.base_eq_iff {r r' : EscrowRow} :
    r.base = r'.base ↔
      { r with releasedAmount := r'.releasedAmount, status := r'.status } = r' := by
  obtain ⟨⟩ := r
  obtain ⟨⟩ := r'
  simp [EscrowRow.base]

theorem EscrowRow.amounts_eq_iff {r r' : EscrowRow} :
    r.amounts = r'.amounts ↔ { r with status := r'.status } = r' := by
  obtain ⟨⟩ := r
  obtain ⟨⟩ := r'
  simp [EscrowRow.amounts]

theorem EscrowChange.respects_base (v : EscrowChange) :
    (v.toRow uuid).Respects EscrowRow.base := by
  intro r r' h
  rw [EscrowRow.base_eq_iff] at h
  rw [← h]
  cases v with
  | created contractId e => rfl
  | deposited e | released e | refunded e => rfl

theorem EscrowChange.respects_amounts (v : EscrowChange) :
    (v.toRow uuid).Respects EscrowRow.amounts := by
  intro r r' h
  rw [EscrowRow.amounts_eq_iff] at h
  rw [← h]
  cases v with
  | created contractId e => rfl
  | deposited e | released e | refunded e => rfl

theorem EscrowChange.created_opens (contractId : String) (e : EscrowCreated) :
    ((EscrowChange.created contractId e).toRow uuid).Opens EscrowRow.base := by
  intro row
  cases row <;> rfl

theorem EscrowChange.refunded_overwrites (e : EscrowRefunded) :
    ((EscrowChange.refunded e).toRow uuid).Overwrites EscrowRow.base := by
  intro r r' h
  rw [EscrowRow.base_eq_iff] at h
  rw [← h]
  rfl

theorem EscrowChange.released_overwrites (e : EscrowReleased) :
    ((EscrowChange.released e).toRow uuid).Overwrites EscrowRow.amounts := by
  intro r r' h
  rw [EscrowRow.amounts_eq_iff] at h
  rw [← h]
  rfl

/-- Some event of the history refunds the escrow. -/
def RefundsEscrow (history : List ChainEvent) (id : String) : Prop :=
  ∃ e ∈ history, ∃ d, decodeEvent e = .ok (some (.escrow (.refunded d))) ∧
    counterId ESCROW_PREFIX d.escrowId = id

/-- What the event releases of the escrow. -/
def releasedBy (id : String) (e : ChainEvent) : Int :=
  match decodeEvent e with
  | .ok (some (.escrow (.released d))) =>
    if counterId ESCROW_PREFIX d.escrowId = id then d.releasedAmount else 0
  | _ => 0

/-- What the history releases of the escrow. -/
def releasedSum (id : String) (history : List ChainEvent) : Int :=
  (history.map (releasedBy id)).sum

theorem releasedSum_append (id : String) (l₁ l₂ : List ChainEvent) :
    releasedSum id (l₁ ++ l₂) = releasedSum id l₁ + releasedSum id l₂ := by
  simp [releasedSum]

theorem releasedSum_cons (id : String) (e : ChainEvent) (l : List ChainEvent) :
    releasedSum id (e :: l) = releasedBy id e + releasedSum id l := by
  simp [releasedSum]

theorem releasedBy_of_not_names {id : String} {e : ChainEvent}
    (h : ¬ Names (escrowChange uuid) id e) : releasedBy id e = 0 := by
  rw [releasedBy]
  split
  · next d hd =>
    rw [if_neg]
    intro hid
    exact h ⟨_, escrowChange_eq_some.mpr ⟨_, hd, rfl⟩, hid⟩
  · rfl

theorem releasedSum_of_not_names {id : String} {l : List ChainEvent}
    (h : ∀ e ∈ l, ¬ Names (escrowChange uuid) id e) : releasedSum id l = 0 := by
  induction l with
  | nil => rfl
  | cons e l ih =>
      rw [releasedSum_cons, releasedBy_of_not_names (h e List.mem_cons_self),
        ih fun x hx => h x (List.mem_cons_of_mem _ hx)]
      omega

variable (uuid) in
/-- Without a refund the history adds its releases to what was released, and
only a release moves the status. -/
theorem replay_releases {id : String} {l : List ChainEvent} (hl : ¬ RefundsEscrow l id)
    (r : EscrowRow) :
    ∃ r', RowChange.replay (escrowChange uuid) id l (some r) = some r' ∧
      r'.releasedAmount = r.releasedAmount + releasedSum id l ∧
      ((∀ e ∈ l, ∀ d, decodeEvent e = .ok (some (.escrow (.released d))) →
        counterId ESCROW_PREFIX d.escrowId ≠ id) → r'.status = r.status) := by
  induction l generalizing r with
  | nil => exact ⟨r, rfl, by simp [releasedSum], fun _ => rfl⟩
  | cons e l ih =>
      have hl' : ¬ RefundsEscrow l id := fun ⟨x, hx, h⟩ => hl ⟨x, List.mem_cons_of_mem _ hx, h⟩
      rw [RowChange.replay_cons, releasedSum_cons]
      by_cases hn : Names (escrowChange uuid) id e
      · obtain ⟨c, hc, hk⟩ := hn
        obtain ⟨v, hv, rfl⟩ := escrowChange_eq_some.mp hc
        rw [RowChange.step_of_names hc hk]
        have hby : ∀ r₁, ((v.toRow uuid).after (some r)) = some r₁ →
            r₁.releasedAmount = r.releasedAmount + releasedBy id e ∧
            ((∀ d, v ≠ .released d) → r₁.status = r.status) := by
          intro r₁ hr₁
          rw [releasedBy, hv]
          cases v with
          | created contractId d =>
              cases hr₁
              exact ⟨by simp, fun _ => rfl⟩
          | deposited d =>
              cases hr₁
              exact ⟨by simp, fun _ => rfl⟩
          | released d =>
              cases hr₁
              have hid : counterId ESCROW_PREFIX d.escrowId = id := hk
              exact ⟨by simp [hid], fun h => absurd rfl (h d)⟩
          | refunded d => exact absurd ⟨e, List.mem_cons_self, d, hv, hk⟩ hl
        obtain ⟨r₁, hr₁⟩ : ∃ r₁, (v.toRow uuid).after (some r) = some r₁ := by
          cases v <;> exact ⟨_, rfl⟩
        obtain ⟨hsum, hstatus⟩ := hby r₁ hr₁
        obtain ⟨r', hr', hsum', hstatus'⟩ := ih hl' r₁
        refine ⟨r', by rw [hr₁]; exact hr', by omega, ?_⟩
        intro hno
        rw [hstatus' fun x hx => hno x (List.mem_cons_of_mem _ hx)]
        refine hstatus fun d hd => ?_
        subst hd
        exact hno e List.mem_cons_self d hv hk
      · rw [RowChange.step_of_not_names hn, releasedBy_of_not_names hn]
        obtain ⟨r', hr', hsum', hstatus'⟩ := ih hl' r
        refine ⟨r', hr', by omega, fun hno => hstatus' fun x hx => ?_⟩
        exact hno x (List.mem_cons_of_mem _ hx)

/-- **Replaying over a first part**: the row comes out as from an empty table
exactly when the history refunds the escrow or the first part released nothing of
it. -/
theorem replay_over_iff {history p : List ChainEvent} (h : CreatedFirst history)
    (hp : p <+: history) (id : String) :
    RowChange.replay (escrowChange uuid) id history
        (RowChange.replay (escrowChange uuid) id p none)
      = RowChange.replay (escrowChange uuid) id history none ↔
      RefundsEscrow history id ∨ releasedSum id p = 0 := by
  rcases RowChange.names_cases (escrowChange uuid) id p with hnone | ⟨l₁, a, m, hm, hl₁, hn⟩
  · -- the first part does not touch the row
    rw [RowChange.replay_of_not_names hnone, releasedSum_of_not_names hnone]
    simp
  obtain ⟨t, rfl⟩ := hp
  subst hm
  obtain ⟨c, hc, hk⟩ := hn
  obtain ⟨v, hv, rfl⟩ := escrowChange_eq_some.mp hc
  have heq : (l₁ ++ a :: m) ++ t = l₁ ++ a :: (m ++ t) := by simp
  obtain ⟨contractId, d, rfl⟩ := (h.createdFor _).escrow heq hv (hk ▸ hl₁)
  have ha : releasedBy id a = 0 := by rw [releasedBy, hv]
  have hsum : releasedSum id (l₁ ++ a :: m) = releasedSum id m := by
    rw [releasedSum_append, releasedSum_cons, releasedSum_of_not_names hl₁, ha]
    omega
  have hreplay : ∀ l row, RowChange.replay (escrowChange uuid) id (l₁ ++ a :: l) row =
      RowChange.replay (escrowChange uuid) id l
        (((EscrowChange.created contractId d).toRow uuid).after row) := by
    intro l row
    rw [RowChange.replay_append, RowChange.replay_of_not_names hl₁, RowChange.replay_cons,
      RowChange.step_of_names hc hk]
  have hresp : ∀ x ∈ m ++ t, ∀ c, escrowChange uuid x = some c → c.key = id →
      c.Respects EscrowRow.base ∧ c.Respects EscrowRow.amounts := by
    intro x _ c hc _
    obtain ⟨w, _, rfl⟩ := escrowChange_eq_some.mp hc
    exact ⟨w.respects_base, w.respects_amounts⟩
  rw [heq, hreplay, hreplay m none, hreplay (m ++ t) none, hsum]
  by_cases href : RefundsEscrow (l₁ ++ a :: (m ++ t)) id
  · refine iff_of_true ?_ (.inl href)
    refine RowChange.replay_eq_of_overwrites (fun x hx c hc hk => (hresp x hx c hc hk).1)
      (EscrowChange.created_opens contractId d _) (.inl ?_)
    obtain ⟨x, hx, d', hx', hid⟩ := href
    have hname : Names (escrowChange uuid) id x :=
      ⟨_, escrowChange_eq_some.mpr ⟨_, hx', rfl⟩, hid⟩
    have hne : x ≠ a := by
      rintro rfl
      rw [hv] at hx'
      cases hx'
    exact ⟨x, RowChange.mem_behind_first hl₁ hx hname hne, _,
      escrowChange_eq_some.mpr ⟨_, hx', rfl⟩, hid, EscrowChange.refunded_overwrites d'⟩
  · have hrest : ∀ l, (∀ x ∈ l, x ∈ m ++ t) → ¬ RefundsEscrow l id := by
      intro l hl h
      obtain ⟨x, hx, hd⟩ := h
      exact href ⟨x, List.mem_append_right _ (List.mem_cons_of_mem _ (hl x hx)), hd⟩
    have hsub : ∀ x ∈ m, x ∈ m ++ t := fun x hx => List.mem_append_left _ hx
    -- what the first part left: `created`, then its releases
    obtain ⟨r, hr, hamount, hstatus⟩ := replay_releases uuid (hrest m hsub)
      (d.row uuid contractId)
    have hleft : RowChange.replay (escrowChange uuid) id m
        (((EscrowChange.created contractId d).toRow uuid).after none) = some r := hr
    have hzero : r.releasedAmount = releasedSum id m := by
      rw [hamount]
      show 0 + releasedSum id m = releasedSum id m
      omega
    rw [hleft]
    obtain ⟨r₀, hr₀, hamount₀, _⟩ := replay_releases uuid (hrest (m ++ t) fun _ h => h)
      (d.row uuid contractId)
    obtain ⟨r₁, hr₁, hamount₁, _⟩ := replay_releases uuid (hrest (m ++ t) fun _ h => h)
      { d.row uuid contractId with releasedAmount := r.releasedAmount, status := r.status }
    constructor
    · intro hsame
      right
      have hrows : r₁ = r₀ := Option.some.inj (hr₁.symm.trans (hsame.trans hr₀))
      have h₀ : r₀.releasedAmount = 0 + releasedSum id (m ++ t) := hamount₀
      have h₁ : r₁.releasedAmount = r.releasedAmount + releasedSum id (m ++ t) := hamount₁
      rw [hrows] at h₁
      omega
    · intro hcond
      have hrel : r.releasedAmount = 0 := by
        rw [hzero]
        exact hcond.resolve_left href
      refine RowChange.replay_eq_of_overwrites (fun x hx c hc hk => (hresp x hx c hc hk).2)
        ?_ ?_
      · simp only [EscrowChange.toRow, Option.elim_some, Option.elim_none, Option.map_some,
          EscrowRow.amounts, hrel]
        rfl
      · by_cases hreleases : ∃ x ∈ m ++ t, ∃ d',
            decodeEvent x = .ok (some (.escrow (.released d'))) ∧
              counterId ESCROW_PREFIX d'.escrowId = id
        · obtain ⟨x, hx, d', hx', hid⟩ := hreleases
          exact .inl ⟨x, hx, _, escrowChange_eq_some.mpr ⟨_, hx', rfl⟩, hid,
            EscrowChange.released_overwrites d'⟩
        · right
          have hopen : r.status = .opened := hstatus fun x hx d' hx' hid =>
            hreleases ⟨x, hsub x hx, d', hx', hid⟩
          simp only [EscrowChange.toRow, Option.elim_some, Option.elim_none, hrel, hopen]
          rfl

/-! ## The law over runs -/

section
variable {F : EventSource → Failures indexer Db} {calls : List IngestCall} {call : IngestCall}
  {db : Db} {c : String}

variable (uuid) in
/-- After the pass of the call the escrow rows are those of one application of
the stored final events to empty tables. -/
def EscrowRowsOnce (c : String) (call : IngestCall) : Prop :=
  ∀ f, floorIn call.trace = some f →
    ∃ once, applyAll uuid Db.empty (call.after.indexedEvents.finalized c f) = .ok once ∧
      call.after.escrowProjection = once.escrowProjection

/-- What the earlier call released, the later one sees refunded; or it comes to
nothing. -/
def ReleasesRefunded (a b : IngestCall) : Prop :=
  a.Pulls → b.Pulls → ∀ id,
    RefundsEscrow b.finalEvents id ∨ releasedSum id a.finalEvents = 0

variable (uuid) in
/-- Every final event applies once, from empty tables. -/
def OnceSound (call : IngestCall) : Prop :=
  call.Pulls → ∀ l₁ e l₂, call.finalEvents = l₁ ++ e :: l₂ → Sound uuid Db.empty l₁ e

variable (uuid) in
/-- When replays over the passes of the run do no harm. -/
structure ReplaySafe (calls : List IngestCall) : Prop where
  once : ∀ call ∈ calls, OnceSound uuid call
  refunded : calls.Pairwise ReleasesRefunded

/-- The escrow rows are those of the last pass. -/
structure LastPass (uuid : String → Option String) (calls : List IngestCall) (db : Db)
    (last : List ChainEvent) : Prop where
  rows : ∀ id, db.escrowProjection.lookup id = RowChange.replay (escrowChange uuid) id last none
  source : last = [] ∨ ∃ call ∈ calls, call.Pulls ∧ call.finalEvents = last
  refunded : ∀ a ∈ calls, a.Pulls → ∀ id,
    RefundsEscrow last id ∨ releasedSum id a.finalEvents = 0 ∨ a.finalEvents = last

theorem RefundsEscrow.mono {id : String} {p history : List ChainEvent}
    (h : RefundsEscrow p id) (hp : p <+: history) : RefundsEscrow history id := by
  obtain ⟨e, he, hd⟩ := h
  exact ⟨e, hp.subset he, hd⟩

/-- **One pass** over the rows of the last one: the law holds after it exactly
when the condition on the last pass does. -/
theorem LastPass.pass {last history : List ChainEvent} (h : LastPass uuid calls db last)
    (hfirst : CreatedFirst history) (hlast : last <+: history) {after : Db}
    (hrows : ∀ id, after.escrowProjection.lookup id =
      RowChange.replay (escrowChange uuid) id history (db.escrowProjection.lookup id)) :
    (∃ once, applyAll uuid Db.empty history = .ok once ∧
        after.escrowProjection = once.escrowProjection) ↔
      (∀ l₁ e l₂, history = l₁ ++ e :: l₂ → Sound uuid Db.empty l₁ e) ∧
        ∀ id, RefundsEscrow history id ∨ releasedSum id last = 0 := by
  rw [← applyAll_isOk_iff (show FarmerIds Db.empty.farmers from .empty)]
  have hiff : ∀ once, applyAll uuid Db.empty history = .ok once →
      (after.escrowProjection = once.escrowProjection ↔
        ∀ id, RefundsEscrow history id ∨ releasedSum id last = 0) := by
    intro once honce
    have hsame : ∀ id, after.escrowProjection.lookup id = once.escrowProjection.lookup id ↔
        RefundsEscrow history id ∨ releasedSum id last = 0 := by
      intro id
      have hl : once.escrowProjection.lookup id =
          RowChange.replay (escrowChange uuid) id history none :=
        (escrows uuid).applyAll honce id
      rw [hrows, h.rows, hl]
      exact replay_over_iff hfirst hlast id
    constructor
    · intro heq id
      exact (hsame id).mp (by rw [heq])
    · intro hcond
      exact Finmap.ext_lookup fun id => (hsame id).mpr (hcond id)
  constructor
  · intro h
    obtain ⟨once, honce, heq⟩ := h
    exact ⟨⟨once, honce⟩, (hiff once honce).mp heq⟩
  · intro h
    obtain ⟨⟨once, honce⟩, hcond⟩ := h
    exact ⟨once, honce, (hiff once honce).mpr hcond⟩

theorem ReplaySafe.append_iff :
    ReplaySafe uuid (calls ++ [call]) ↔
      ReplaySafe uuid calls ∧ OnceSound uuid call ∧ ∀ a ∈ calls, ReleasesRefunded a call := by
  constructor
  · intro h
    obtain ⟨hprev, _, hlast⟩ := List.pairwise_append.mp h.refunded
    refine ⟨⟨fun x hx => h.once x (by simp [hx]), hprev⟩, h.once call (by simp), ?_⟩
    exact fun a ha => hlast a ha call (by simp)
  · intro h
    obtain ⟨h, hcall, hlast⟩ := h
    refine ⟨?_, List.pairwise_append.mpr ⟨h.refunded, List.pairwise_singleton .., ?_⟩⟩
    · intro x hx
      rcases List.mem_append.mp hx with hx | hx
      · exact h.once x hx
      · rw [List.mem_singleton.mp hx]
        exact hcall
    · intro a ha b hb
      rw [List.mem_singleton.mp hb]
      exact hlast a ha

/-- **The step of the run**: what the law and the condition say of one more
call, and the last pass after it. -/
theorem LastPass.step {last : List ChainEvent} (h : LastPass uuid calls call.before last)
    (hrun : IngestRun uuid F (calls ++ [call]) call.after)
    (hone : ∀ x ∈ calls ++ [call], x.contractId = c)
    (happ : AppendOnly c (calls ++ [call])) (hheads : HeadsGrow c (calls ++ [call]))
    (hok : ∃ n, call.result = .ok n) (hfirst : CreatedFirst (call.source.logOf c)) :
    (EscrowRowsOnce uuid c call ↔
        OnceSound uuid call ∧ ∀ a ∈ calls, ReleasesRefunded a call) ∧
      (EscrowRowsOnce uuid c call → ∃ last, LastPass uuid (calls ++ [call]) call.after last) := by
  have hcall : call ∈ calls ++ [call] := by simp
  have hc := hone call hcall
  have hgrow : ∀ a ∈ calls, a.finalEvents <+: call.finalEvents := by
    intro a ha
    obtain ⟨hlog, hfloor⟩ := last_sees_most hone happ hheads ha
    rw [IngestCall.finalEvents, IngestCall.finalEvents, hone a (List.mem_append_left _ ha), hc]
    exact finalPart_isPrefix (call.source.logOf_ordered c) hlog hfloor
  have hrows : ∀ id, call.after.escrowProjection.lookup id =
      RowChange.replay (escrowChange uuid) id (appliedIn call.trace)
        (call.before.escrowProjection.lookup id) :=
    fun id => (hrun.call_effect hcall).lookup (escrows uuid) id
  rcases hrun.completed happ hcall hc hok with
    ⟨hpull, hfloor, _, hsame⟩ | ⟨hpull, hfloor, hfin, happlied⟩
  · -- nothing to pull, nothing changed
    have honce : EscrowRowsOnce uuid c call := by
      intro f hf
      rw [hfloor] at hf
      cases hf
    refine ⟨iff_of_true honce ⟨fun hp => absurd hp hpull, fun a _ _ hp => absurd hp hpull⟩, ?_⟩
    intro _
    refine ⟨last, ?_, ?_, ?_⟩
    · rw [hsame]
      exact h.rows
    · refine h.source.imp_right fun ⟨q, hq, hp⟩ => ?_
      exact ⟨q, List.mem_append_left _ hq, hp⟩
    · intro a ha hp
      rcases List.mem_append.mp ha with ha | ha
      · exact h.refunded a ha hp
      · rw [List.mem_singleton.mp ha] at hp
        exact absurd hp hpull
  · have hlast : last <+: call.finalEvents := by
      rcases h.source with rfl | ⟨q, hq, _, rfl⟩
      · exact List.nil_prefix
      · exact hgrow q hq
    have hcreated : CreatedFirst call.finalEvents := by
      rw [IngestCall.finalEvents, hc]
      exact hfirst.of_isPrefix (finalPart_isPrefix_self (call.source.logOf_ordered c))
    rw [happlied] at hrows
    have hpass := h.pass hcreated hlast hrows
    have hrefunded : (∀ id, RefundsEscrow call.finalEvents id ∨ releasedSum id last = 0) ↔
        ∀ a ∈ calls, ReleasesRefunded a call := by
      constructor
      · intro hcond a ha hp _ id
        rcases h.refunded a ha hp id with hr | hz | heq
        · exact .inl (hr.mono hlast)
        · exact .inr hz
        · rw [heq]
          exact hcond id
      · intro hcond id
        rcases h.source with rfl | ⟨q, hq, hp, rfl⟩
        · exact .inr rfl
        · exact hcond q hq hp hpull id
    have hlaw : EscrowRowsOnce uuid c call ↔
        ∃ once, applyAll uuid Db.empty call.finalEvents = .ok once ∧
          call.after.escrowProjection = once.escrowProjection := by
      rw [EscrowRowsOnce, hfloor]
      simp only [Option.some.injEq, forall_eq', hfin]
    have hsound : OnceSound uuid call ↔
        ∀ l₁ e l₂, call.finalEvents = l₁ ++ e :: l₂ → Sound uuid Db.empty l₁ e :=
      ⟨fun h => h hpull, fun h _ => h⟩
    refine ⟨by rw [hlaw, hpass, hrefunded, hsound], ?_⟩
    intro honce
    have hcond := (hpass.mp (hlaw.mp honce)).2
    obtain ⟨once, honce, heq⟩ := hlaw.mp honce
    refine ⟨call.finalEvents, ?_, .inr ⟨call, hcall, hpull, rfl⟩, ?_⟩
    · intro id
      rw [heq]
      exact (escrows uuid).applyAll honce id
    · intro a ha hp id
      rcases List.mem_append.mp ha with ha | ha
      · exact ((hrefunded.mp hcond) a ha hp hpull id).imp_right .inl
      · rw [List.mem_singleton.mp ha]
        exact .inr (.inr rfl)

/-- **Escrow replay.** Over a growing log with heads that never go back and every
call completed: the escrow rows are those of a single application after every
pass, exactly when each history applies once and whatever an earlier pass
released of an escrow is refunded in every later one or comes to nothing. -/
theorem escrow_replay_iff (hrun : IngestRun uuid F calls db)
    (hone : ∀ call ∈ calls, call.contractId = c)
    (happ : AppendOnly c calls) (hheads : HeadsGrow c calls)
    (hok : ∀ call ∈ calls, ∃ n, call.result = .ok n)
    (hfirst : ∀ call ∈ calls, CreatedFirst (call.source.logOf c)) :
    (∀ call ∈ calls, EscrowRowsOnce uuid c call) ↔ ReplaySafe uuid calls := by
  suffices h : ((∀ call ∈ calls, EscrowRowsOnce uuid c call) ↔ ReplaySafe uuid calls) ∧
      ((∀ call ∈ calls, EscrowRowsOnce uuid c call) → ∃ last, LastPass uuid calls db last) from
    h.1
  induction hrun with
  | start =>
      refine ⟨iff_of_true (by simp) ⟨by simp, .nil⟩, fun _ => ⟨[], ?_, .inl rfl, by simp⟩⟩
      intro id
      exact (escrows uuid).empty id
  | @call calls call hprev hout ih =>
      have hmem : ∀ x ∈ calls, x ∈ calls ++ [call] := fun x hx => List.mem_append_left _ hx
      obtain ⟨hiff, hlast⟩ := ih (fun x hx => hone x (hmem x hx))
        (List.pairwise_append.mp happ).1 (List.pairwise_append.mp hheads).1
        (fun x hx => hok x (hmem x hx)) (fun x hx => hfirst x (hmem x hx))
      have hsplit : (∀ x ∈ calls ++ [call], EscrowRowsOnce uuid c x) ↔
          (∀ x ∈ calls, EscrowRowsOnce uuid c x) ∧ EscrowRowsOnce uuid c call := by
        simp only [List.mem_append, List.mem_singleton, or_imp, forall_and, forall_eq]
      have hstep : (∀ x ∈ calls, EscrowRowsOnce uuid c x) → _ := fun hlaw =>
        (hlast hlaw).choose_spec.step (hprev.call hout) hone happ hheads
          (hok call (by simp)) (hfirst call (by simp))
      rw [hsplit, ReplaySafe.append_iff, ← hiff]
      refine ⟨and_congr_right fun hlaw => (hstep hlaw).1, ?_⟩
      intro h
      obtain ⟨hlaw, honce⟩ := h
      exact (hstep hlaw).2 honce

end

def escrowEvent (eventName : String) (ledger : Int) (data : List Json) : ChainEvent :=
  sampleEvent "CE" "escrow" eventName ledger (.int 11 :: data)

/-- An escrow of 100, and 30 of it released. -/
def escrowOpened : List ChainEvent :=
  [escrowEvent "EscrowCreated" 100
      [.str "GD", .str "GB", .int 100, .int 1, .str "GR", .int 0, .str "b1", .int 100, .int 100],
    escrowEvent "EscrowReleased" 101 [.str "GR", .int 30, .int 101]]

/-- The escrow with a deposit after the release. -/
def depositedSource : EventSource :=
  .ofList (escrowOpened ++ [escrowEvent "EscrowDeposited" 102 [.str "GD", .int 5, .int 102]])
    120 (by decide) (by decide)

def escrowRefunded : ChainEvent :=
  escrowEvent "EscrowRefunded" 102 [.str "GD", .int 70, .int 102]

/-- The escrow with a refund after the release. -/
def refundedSource : EventSource :=
  .ofList (escrowOpened ++ [escrowRefunded]) 120 (by decide) (by decide)

/-- A call over the opened escrow, and one over what followed. -/
def escrowCalls (source : EventSource) : List IngestCall :=
  let first := IngestCall.ofRun noUuid Db.empty "CE"
    (.ofList escrowOpened 115 (by decide) (by decide))
  [first, .ofRun noUuid first.after "CE" source]

theorem escrowCalls_run (source : EventSource) :
    ∃ db, IngestRun noUuid (fun _ => anyFailure) (escrowCalls source) db := by
  have hfirst := IngestRun.ofRun (F := fun _ => anyFailure)
    (fun _ _ _ _ _ => trivial) (.start : IngestRun noUuid _ _ _) "CE"
    (.ofList escrowOpened 115 (by decide) (by decide))
  exact ⟨_, IngestRun.ofRun (fun _ _ _ _ _ => trivial) hfirst "CE" source⟩

/-- The runs are within the law's terms. -/
theorem escrowCalls_valid {source : EventSource} {last : ChainEvent}
    (hlog : source.logOf "CE" = escrowOpened ++ [last]) (hhead : 115 ≤ source.head)
    (hlast : entityNamed last = some (.escrow 11))
    (hok : (escrowCalls source).map IngestCall.result = [.ok 2, .ok 1]) :
    (∀ call ∈ escrowCalls source, call.contractId = "CE") ∧
      AppendOnly "CE" (escrowCalls source) ∧ HeadsGrow "CE" (escrowCalls source) ∧
      (∀ call ∈ escrowCalls source, ∃ n, call.result = .ok n) ∧
      ∀ call ∈ escrowCalls source, CreatedFirst (call.source.logOf "CE") := by
  have hcreated : CreatedFirst (escrowOpened ++ [last]) := by
    refine CreatedFirst.of_head (c := .escrow (.created "CE" _)) rfl rfl ?_
    intro e he
    rcases List.mem_cons.mp he with rfl | he
    · rfl
    · rw [List.mem_singleton.mp he]
      exact hlast
  simp only [escrowCalls, List.map_cons, List.map_nil, List.cons.injEq, and_true] at hok
  simp only [escrowCalls, AppendOnly, HeadsGrow, List.pairwise_cons, List.mem_cons,
    List.not_mem_nil, or_false, forall_eq_or_imp, forall_eq, false_implies, implies_true,
    List.Pairwise.nil, and_true]
  refine ⟨⟨rfl, rfl⟩, fun _ _ => ?_, fun _ _ => hhead, ⟨⟨2, hok.1⟩, ⟨1, hok.2⟩⟩, ?_, ?_⟩
  · exact ⟨[last], hlog.symm⟩
  · exact hcreated.of_isPrefix ⟨[last], rfl⟩
  · exact hlog ▸ hcreated

/-- The second pass refunds what the first released. -/
theorem escrow_replay_refunded :
    (∃ db, IngestRun noUuid (fun _ => anyFailure) (escrowCalls refundedSource) db) ∧
      ∀ call ∈ escrowCalls refundedSource, EscrowRowsOnce noUuid "CE" call := by
  obtain ⟨db, hrun⟩ := escrowCalls_run refundedSource
  obtain ⟨hone, happ, hheads, hok, hfirst⟩ :=
    escrowCalls_valid (rfl : refundedSource.logOf "CE" = _) (by decide) rfl (by decide)
  refine ⟨⟨db, hrun⟩, (escrow_replay_iff hrun hone happ hheads hok hfirst).mpr ⟨?_, ?_⟩⟩
  · intro call hcall _
    refine (applyAll_isOk_iff .empty call.finalEvents).mp ?_
    rcases List.mem_cons.mp hcall with rfl | hcall
    · exact ⟨_, rfl⟩
    · rw [List.mem_singleton.mp hcall]
      exact ⟨_, rfl⟩
  · rw [escrowCalls, List.pairwise_pair]
    intro _ _ id
    rw [show IngestCall.finalEvents _ = escrowOpened ++ [escrowRefunded] from rfl]
    by_cases hid : counterId ESCROW_PREFIX 11 = id
    · exact .inl ⟨escrowRefunded, by simp, ⟨11, 102⟩, rfl, hid⟩
    · right
      rw [show IngestCall.finalEvents _ = escrowOpened from rfl]
      refine releasedSum_of_not_names fun e he (hn : Names (escrowChange noUuid) id e) => ?_
      obtain ⟨c, hc, hk⟩ := hn
      have hkey : ∀ e ∈ escrowOpened, (escrowChange noUuid e).map RowChange.key =
          some (counterId ESCROW_PREFIX 11) := by decide
      have hc' := hkey e he
      rw [hc, Option.map_some, hk, Option.some.injEq] at hc'
      exact hid hc'.symm

/-- The second pass adds the release again: 60 of 100 instead of 30. -/
theorem escrow_replay_fails :
    (∃ db, IngestRun noUuid (fun _ => anyFailure) (escrowCalls depositedSource) db) ∧
      (∀ call ∈ escrowCalls depositedSource, call.contractId = "CE") ∧
      AppendOnly "CE" (escrowCalls depositedSource) ∧
      HeadsGrow "CE" (escrowCalls depositedSource) ∧
      (∀ call ∈ escrowCalls depositedSource, ∃ n, call.result = .ok n) ∧
      (∀ call ∈ escrowCalls depositedSource, CreatedFirst (call.source.logOf "CE")) ∧
      ¬ ∀ call ∈ escrowCalls depositedSource, EscrowRowsOnce noUuid "CE" call := by
  obtain ⟨hone, happ, hheads, hok, hfirst⟩ :=
    escrowCalls_valid (rfl : depositedSource.logOf "CE" = _) (by decide) rfl (by decide)
  refine ⟨escrowCalls_run depositedSource, hone, happ, hheads, hok, hfirst, ?_⟩
  intro h
  obtain ⟨once, honce, heq⟩ := h _ (List.mem_cons_of_mem _ (List.mem_singleton_self _)) 110
    (by decide)
  -- the row of the escrow: what was released by the run, and by one application
  have hreleased := (escrows noUuid).applyAll honce "va:escrow:000000000011"
  have hrow : (escrows noUuid).table once = _ := heq.symm
  rw [hrow] at hreleased
  have h₆₀ := congrArg (Option.map EscrowRow.releasedAmount) hreleased
  revert h₆₀
  decide

end VerdantBackend
