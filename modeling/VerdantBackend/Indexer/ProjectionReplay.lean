import VerdantBackend.Indexer.Acceptance
import VerdantBackend.Indexer.History
import VerdantBackend.Indexer.Passes

/-!
# Replay of verification and financing projections

Every pass applies the finalized history from its start over the rows that
earlier passes left, complete or stopped on the way. The rows still come out as
one application to empty tables gives them, and that application is accepted.
-/

namespace VerdantBackend

open Prog

variable {uuid : String → Option String}

theorem FinancingChange.fits_congr {v : FinancingChange} {b b' : Option FinancingRow}
    (h : b.map FinancingRow.base = b'.map FinancingRow.base) (hb : v.toRow.Fits b) :
    v.toRow.Fits b' := by
  have hdrawn : ∀ r', b' = some r' → ∃ r, b = some r ∧ r.drawnAmount = r'.drawnAmount := by
    intro r' hr'
    subst hr'
    obtain ⟨r, hr, hbase⟩ := Option.map_eq_some_iff.mp (h.trans (Option.map_some ..))
    refine ⟨r, hr, ?_⟩
    show r.base.drawnAmount = r'.base.drawnAmount
    rw [hbase]
  cases v with
  | created contractId e => trivial
  | deposited e | released e | refunded e =>
      intro r' hr'
      obtain ⟨r, hr, heq⟩ := hdrawn r' hr'
      rw [← heq]
      exact hb r hr

/-- The event changes a verification or a financing. -/
def IsVerificationOrFinancing (e : ChainEvent) : Prop :=
  (∃ v, decodeEvent e = .ok (some (.verification v))) ∨
    ∃ v, decodeEvent e = .ok (some (.financing v))

/-- An event that is sound over some rows is sound over any: `Created` has set
everything its increment is computed from. -/
theorem Sound.of_created_first {history l₁ l₂ : List ChainEvent} {e : ChainEvent} {db : Db}
    (hfirst : CreatedFirst history) (heq : history = l₁ ++ e :: l₂)
    (hkind : IsVerificationOrFinancing e) (hs : Sound uuid db l₁ e) (db' : Db) :
    Sound uuid db' l₁ e := by
  rcases hkind with ⟨v, hv⟩ | ⟨v, hv⟩
  · refine ⟨_, hv, ?_⟩
    intro c hc
    cases hc
    trivial
  · obtain ⟨o, ho, hfits⟩ := hs
    rw [hv] at ho
    cases ho
    refine ⟨_, hv, ?_⟩
    intro c hc
    cases hc
    have hfit := hfits _ rfl
    have hpre : l₁ <+: history := ⟨e :: l₂, heq.symm⟩
    have hreb := rebuilds_financing v.toRow.key
      fun k _ => (hfirst.of_isPrefix hpre).createdFor (.financing k)
    rcases RowChange.names_cases financingChange v.toRow.key l₁ with hnone | hsome
    · obtain ⟨contractId, d, rfl⟩ := (hfirst.createdFor _).financing heq hv hnone
      trivial
    · obtain ⟨_, a, _, hl, _, hn⟩ := hsome
      have ha : a ∈ l₁ := by simp [hl]
      refine FinancingChange.fits_congr ?_ hfit
      exact (hreb.opened.map_eq hreb.respects ha hn _).trans
        (hreb.opened.map_eq hreb.respects ha hn _).symm

variable {earlier : List IngestCall} {call : IngestCall} {db : Db} {c : String} {f : Int}

/-- What the passes of a run applied are first parts of what the last one
applied. -/
theorem IngestRun.passes_isPrefix {F : EventSource → Failures indexer Db}
    (hrun : IngestRun uuid F (earlier ++ [call]) db)
    (hone : ∀ x ∈ earlier ++ [call], x.contractId = c)
    (happ : AppendOnly c (earlier ++ [call])) (hheads : HeadsGrow c (earlier ++ [call])) :
    ∀ p ∈ earlier.map fun x => appliedIn x.trace,
      p <+: finalPart (call.source.logOf c) call.source.floor := by
  intro p hp
  obtain ⟨x, hx, rfl⟩ := List.mem_map.mp hp
  obtain ⟨hlog, hfloor⟩ := last_sees_most hone happ hheads hx
  exact hrun.applied_isPrefix happ (List.mem_append_left _ hx)
    (hone x (List.mem_append_left _ hx)) (call.source.logOf_ordered c) hlog hfloor

/-- What a call that completed its pass applied, and from which rows. -/
theorem IngestRun.last_pass {F : EventSource → Failures indexer Db}
    (hrun : IngestRun uuid F (earlier ++ [call]) db) (hc : call.contractId = c)
    (happ : AppendOnly c (earlier ++ [call])) (hok : ∃ n, call.result = .ok n)
    (hpass : floorIn call.trace = some f) :
    db.indexedEvents.finalized c f = finalPart (call.source.logOf c) call.source.floor ∧
      appliedIn call.trace = finalPart (call.source.logOf c) call.source.floor ∧
      ∃ rows db', FarmerIds rows.farmers ∧
        applyAll uuid rows (finalPart (call.source.logOf c) call.source.floor) = .ok db' := by
  have hmem : call ∈ earlier ++ [call] := by simp
  have hcoh := hrun.coherent_before happ hmem hc
  have heff := hrun.call_effect hmem
  have hids := hrun.farmerIds.2 call hmem
  subst hc
  have hdb : db = call.after := by
    generalize hcalls : earlier ++ [call] = calls at hrun
    cases hrun with
    | start => simp at hcalls
    | call _ _ => rw [(List.append_inj' hcalls rfl).2 |> List.cons.inj |>.1]
  obtain ⟨hfin, happlied⟩ := (heff.applied_isPrefix hcoh).2 f hpass
  subst hdb
  refine ⟨hfin, happlied hok, ?_⟩
  obtain ⟨n, hn⟩ := hok
  rw [hn] at heff
  obtain ⟨events, p, hall⟩ := heff.whole_pass hpass
  rw [hfin] at hall
  exact ⟨_, _, show FarmerIds (call.before.pulled _ _ _).farmers from hids, hall⟩

/-- **Verification and financing replay.** After any run over a growing log with
heads that never go back, whatever stopped on the way: when a projection pass
completes, both tables are what applying the stored final events once to empty
tables gives. -/
theorem projection_replay
    (hrun : IngestRun uuid (fun _ => anyFailure) (earlier ++ [call]) db)
    (hone : ∀ x ∈ earlier ++ [call], x.contractId = c)
    (happ : AppendOnly c (earlier ++ [call])) (hheads : HeadsGrow c (earlier ++ [call]))
    (hkind : ∀ e ∈ call.source.logOf c, IsVerificationOrFinancing e)
    (hfirst : CreatedFirst (call.source.logOf c))
    (hok : ∃ n, call.result = .ok n) (hpass : floorIn call.trace = some f) :
    ∃ once, applyAll uuid Db.empty (db.indexedEvents.finalized c f) = .ok once ∧
      db.verificationProjection = once.verificationProjection ∧
      db.financingProjection = once.financingProjection := by
  obtain ⟨hfin, happlied, rows, db', hids, hall⟩ :=
    hrun.last_pass (hone call (by simp)) happ hok hpass
  have hprefixes := hrun.passes_isPrefix hone happ hheads
  have hpre := finalPart_isPrefix_self (f := call.source.floor) (call.source.logOf_ordered c)
  rw [hfin]
  generalize hhist : finalPart (call.source.logOf c) call.source.floor = history at *
  have hfirst' := hfirst.of_isPrefix hpre
  -- one application to empty tables is accepted
  have honce : ∃ once, applyAll uuid Db.empty history = .ok once := by
    refine (applyAll_isOk_iff FarmerIds.empty history).mpr ?_
    intro l₁ e l₂ heq
    have he : e ∈ history := heq ▸ List.mem_append_right _ List.mem_cons_self
    exact ((applyAll_isOk_iff hids history).mp ⟨db', hall⟩ l₁ e l₂ heq).of_created_first
      hfirst' heq (hkind e (hpre.subset he)) Db.empty
  obtain ⟨once, honce⟩ := honce
  have hhistory : appliedHistory (earlier ++ [call]) =
      (earlier.map fun x => appliedIn x.trace).flatten ++ history := by
    rw [appliedHistory_append, happlied, appliedHistory, List.flatMap_def]
  refine ⟨once, honce, ?_, ?_⟩
  · refine Finmap.ext_lookup fun id => ?_
    have hrun' := hrun.lookup (verifications uuid) id
    rw [hhistory] at hrun'
    have hfor := fun k (_ : counterId VERIFICATION_PREFIX k = id) =>
      hfirst'.createdFor (.verification k)
    exact (hrun'.trans ((rebuilds_verification id hfor).replay_flatten hprefixes)).trans
      ((verifications uuid).applyAll honce id).symm
  · refine Finmap.ext_lookup fun id => ?_
    have hrun' := hrun.lookup (financings uuid) id
    rw [hhistory] at hrun'
    have hfor := fun k (_ : counterId FINANCING_PREFIX k = id) =>
      hfirst'.createdFor (.financing k)
    exact (hrun'.trans ((rebuilds_financing id hfor).replay_flatten hprefixes)).trans
      ((financings uuid).applyAll honce id).symm

/-- The sample verification, revoked in the next ledger. -/
def sampleRevoked : ChainEvent :=
  sampleEvent "CV" "verification" "VerificationRevoked" 101 [.int 7, .str "", .bool true, .int 101]

def revokedSource (head : Int) : EventSource :=
  .ofList [sampleCreated, sampleRevoked] head (by decide) (by decide)

theorem revokedSource_created_first : CreatedFirst [sampleCreated, sampleRevoked] := by
  refine CreatedFirst.of_head (c := .verification (.created "CV" _)) rfl rfl ?_
  intro e he
  rw [List.mem_singleton.mp he]
  rfl

/-- Two passes, the second over the revocation too. -/
theorem projection_replay_two_passes :
    let first := IngestCall.ofRun noUuid Db.empty "CV" (sampleSource 115)
    let second := IngestCall.ofRun noUuid first.after "CV" (revokedSource 120)
    ∃ once, applyAll noUuid Db.empty (second.after.indexedEvents.finalized "CV" 110) = .ok once ∧
      second.after.verificationProjection = once.verificationProjection ∧
      second.after.financingProjection = once.financingProjection := by
  intro first second
  have hfirst := IngestRun.ofRun (F := fun _ => anyFailure)
    (fun _ _ _ _ _ => trivial) (.start : IngestRun noUuid _ _ _) "CV" (sampleSource 115)
  have hrun := IngestRun.ofRun (fun _ _ _ _ _ => trivial) hfirst "CV" (revokedSource 120)
  refine projection_replay (c := "CV") hrun ?_ ?_ ?_ ?_ revokedSource_created_first
    ⟨1, by decide⟩ (by decide)
  · intro x hx
    simp only [List.nil_append, List.cons_append, List.mem_cons, List.not_mem_nil,
      or_false] at hx
    rcases hx with rfl | rfl <;> rfl
  · simp only [AppendOnly, List.nil_append, List.cons_append, List.pairwise_cons,
      List.mem_singleton, forall_eq, List.not_mem_nil, false_implies, implies_true,
      List.Pairwise.nil, and_true]
    exact fun _ _ => ⟨[sampleRevoked], rfl⟩
  · simp only [HeadsGrow, List.nil_append, List.cons_append, List.pairwise_cons,
      List.mem_singleton, forall_eq, List.not_mem_nil, false_implies, implies_true,
      List.Pairwise.nil, and_true]
    exact fun _ _ => by decide
  · intro e he
    rcases List.mem_cons.mp he with rfl | he
    · exact .inl ⟨_, rfl⟩
    · obtain rfl := List.mem_singleton.mp he
      exact .inl ⟨_, rfl⟩

end VerdantBackend
