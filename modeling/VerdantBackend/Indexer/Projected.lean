import VerdantBackend.Indexer.Columns
import VerdantBackend.Indexer.ProjectionReplay
import VerdantBackend.Indexer.Rounds

/-!
# What a tick projects

A tick that nothing disturbs and that finds new events of a contract: its pass runs to the
end, and the rows that only this contract names are one replay of the final events,
whatever the passes before it left.
-/

namespace VerdantBackend

open Prog

/-! ## A call that completes -/

section
variable {uuid : String → Option String} {source : EventSource} {db db' : Db} {c : String}

/-- A pass over events that apply runs to its end. -/
theorem applyEvents_run_ok {l : List ChainEvent} (h : applyAll uuid db l = .ok db') :
    ∃ n, (applyEvents l).run (exec uuid source) db = (.ok n, db') := by
  have hout := outcome_run (exec uuid source) (applyEvents l) db
  generalize (applyEvents l).run (exec uuid source) db = x at hout ⊢
  obtain ⟨r, s⟩ := x
  rcases applyEvents_outcome hout with ⟨⟨n, hn⟩, _, hall⟩ | ⟨l₁, e, l₂, err, rfl, _, _, hall, hfail⟩
  · rw [h] at hall
    cases hall
    exact ⟨n, congrArg (·, _) hn⟩
  · -- the event that failed applies
    obtain ⟨s₁, h₁, h₂⟩ := Replay.foldlM_append_ok h
    obtain ⟨s₂, hs, _⟩ := Replay.foldlM_cons_ok h₂
    have hsame : s₁ = s := Except.ok.inj (h₁.symm.trans hall)
    subst hsame
    obtain ⟨consumed, hs⟩ := applied_ok_iff.mp hs
    have hok : exec uuid source (.applyEvent e) s₁ = .ok (consumed, s₂) := hs
    rw [ownFailures, hok] at hfail
    cases hfail

/-- A call that finds new events, all of which can be stored, and whose pass applies,
completes. -/
theorem ingest_run_ok {z : ChainEvent}
    (hz : (source.eventsAfter c (cursorOf db c)).getLast? = some z)
    (hst : ∀ e ∈ source.eventsAfter c (cursorOf db c), e.storable = true)
    (hall : applyAll uuid (db.pulled c (source.eventsAfter c (cursorOf db c)) z.position)
      ((db.pulled c (source.eventsAfter c (cursorOf db c)) z.position).indexedEvents.finalized c
        source.floor) = .ok db') :
    ∃ n, (ingest c).run (exec uuid source) db = (.ok n, db') := by
  obtain ⟨n, hrun⟩ : ∃ n, (ingest c).run (exec uuid source) db = _ := ingest_run_pulled hz hst
  obtain ⟨m, hpass⟩ : ∃ m, (applyEvents _).run (exec uuid source) _ = (.ok m, db') :=
    applyEvents_run_ok hall
  refine ⟨n, ?_⟩
  rw [hrun, hpass]
  rfl

end

/-! ## An undisturbed tick in a run -/

section
variable {uuid : String → Option String} {source later : EventSource} {db : Db} {c : String}
  {calls turn : List IngestCall}

theorem Db.ticked_append (ids ids' : List String) (db : Db) :
    db.ticked uuid source (ids ++ ids') =
      (db.ticked uuid source ids).ticked uuid source ids' := by
  induction ids generalizing db with
  | nil => rfl
  | cons i ids ih =>
      rw [List.cons_append, (indexerTick_cons i _ db).1, (indexerTick_cons i _ db).1, ih]

/-- A tick over other contracts leaves the cursor alone. -/
theorem cursorOf_ticked {ids : List String} (hids : c ∉ ids) (db : Db) :
    cursorOf (db.ticked uuid source ids) c = cursorOf db c := by
  induction ids generalizing db with
  | nil => rfl
  | cons i ids ih =>
      rw [List.mem_cons, not_or] at hids
      have hother := (ingest_effect (outcome_run (exec uuid source) (ingest i) db)).raw.other hids.1
      rw [(indexerTick_cons i ids db).1, ih hids.2, cursorOf, hother.2, cursorOf]

/-- An undisturbed tick extends a run. -/
theorem IngestRun.ticked (hrun : IngestRun uuid (fun _ => anyFailure) calls db)
    (source : EventSource) (ids : List String) :
    ∃ turn, IngestRun uuid (fun _ => anyFailure) (calls ++ turn) (db.ticked uuid source ids) ∧
      (∀ call ∈ turn, call.contractId ∈ ids) ∧ ∀ call ∈ turn, call.source = source := by
  have hrun' := outcome_run (exec uuid source) (indexerTick ids) db
  have hout : Outcome (exec uuid source) anyFailure (indexerTick ids) db _ _ _ :=
    hrun'.mono fun _ _ _ _ => trivial
  obtain ⟨turn, hturn, hids, hsource, _⟩ := hrun.tick hout
  refine ⟨turn, hturn, ?_, hsource⟩
  intro call hcall
  rw [← hids]
  exact List.mem_map_of_mem hcall

/-- What the calls saw is what the source has come from. -/
structure CallsBefore (source : EventSource) (calls : List IngestCall) : Prop where
  appendOnly : ∀ c, AppendOnly c calls
  heads : ∀ c, HeadsGrow c calls
  logs : ∀ call ∈ calls, ∀ c, call.source.logOf c <+: source.logOf c
  head : ∀ call ∈ calls, call.source.head ≤ source.head

theorem CallsBefore.extend (h : CallsBefore source calls)
    (hlogs : ∀ c, source.logOf c <+: later.logOf c) (hhead : source.head ≤ later.head)
    (hturn : ∀ call ∈ turn, call.source = later) : CallsBefore later (calls ++ turn) where
  appendOnly c := (h.appendOnly c).extend
    (fun call hcall => (h.logs call hcall c).trans (hlogs c)) hturn
  heads := by
    intro c
    refine List.pairwise_append.mpr ⟨h.heads c, ?_, ?_⟩
    · refine List.pairwise_of_forall_mem_list ?_
      intro a ha b hb _ _
      rw [hturn a ha, hturn b hb]
    · intro a ha b hb _ _
      rw [hturn b hb]
      exact (h.head a ha).trans hhead
  logs := by
    intro call hcall c
    rcases List.mem_append.mp hcall with hcall | hcall
    · exact (h.logs call hcall c).trans (hlogs c)
    · rw [hturn call hcall]
  head := by
    intro call hcall
    rcases List.mem_append.mp hcall with hcall | hcall
    · exact (h.head call hcall).trans hhead
    · rw [hturn call hcall]

/-- What was applied is in the logs. -/
theorem IngestRun.applied_logged (hrun : IngestRun uuid (fun _ => anyFailure) calls db)
    (hbefore : CallsBefore source calls) :
    ∀ e ∈ appliedHistory calls, e ∈ source.logOf e.contractId := by
  intro e he
  have hcoh := hrun.coherent (hbefore.appendOnly e.contractId) fun call hcall _ =>
    hbefore.logs call hcall e.contractId
  exact hcoh.stored.subset (EventStore.mem_ofContract.mpr ⟨hrun.applied_stored e he, rfl⟩)

/-- A call applies events of its contract. -/
theorem IngestRun.applied_own (hrun : IngestRun uuid (fun _ => anyFailure) calls db)
    {call : IngestCall} (hcall : call ∈ calls) :
    ∀ e ∈ appliedIn call.trace, e.contractId = call.contractId := fun _ he =>
  (EventStore.mem_ofContract.mp ((hrun.call_effect hcall).applied_final he).1).2

/-- A row that only events of one contract name is the replay of its calls. -/
theorem IngestRun.replay_own {ρ : Type} (P : Projection uuid ρ) {id : String}
    (hrun : IngestRun uuid (fun _ => anyFailure) calls db)
    (hown : ∀ e ∈ appliedHistory calls, RowChange.Names P.change id e → e.contractId = c) :
    (P.table db).lookup id = RowChange.replay P.change id
      (appliedHistory (calls.filter fun call => call.contractId = c)) none := by
  have happlied : ∀ call ∈ calls, ∀ e ∈ appliedIn call.trace, e.contractId = call.contractId :=
    fun _ hcall => hrun.applied_own hcall
  rw [hrun.lookup P id]
  clear hrun
  generalize (none : Option ρ) = row
  induction calls generalizing row with
  | nil => rfl
  | cons call calls ih =>
      rw [appliedHistory, List.flatMap_cons] at hown
      have htail : ∀ row, RowChange.replay P.change id (appliedHistory calls) row =
          RowChange.replay P.change id
            (appliedHistory (calls.filter fun call => call.contractId = c)) row :=
        ih (fun e he => hown e (List.mem_append_right _ he))
          (fun call hcall => happlied call (List.mem_cons_of_mem _ hcall))
      have hcons : ∀ calls, appliedHistory (call :: calls) =
          appliedIn call.trace ++ appliedHistory calls := fun _ => List.flatMap_cons
      rw [hcons, RowChange.replay_append, htail]
      by_cases hc : call.contractId = c
      · rw [List.filter_cons_of_pos (by simpa using hc), hcons, RowChange.replay_append]
      · rw [List.filter_cons_of_neg (by simpa using hc)]
        refine congrArg _ (RowChange.replay_of_not_names ?_ row)
        intro e he hnames
        have hcall := happlied call List.mem_cons_self e he
        exact hc (hcall.symm.trans (hown e (List.mem_append_left _ he) hnames))

theorem filter_contractId_eq_nil {ids : List String} (hc : c ∉ ids)
    (hturn : ∀ call ∈ turn, call.contractId ∈ ids) :
    turn.filter (fun call => call.contractId = c) = [] := by
  rw [List.filter_eq_nil_iff]
  intro call hcall hcc
  rw [decide_eq_true_eq] at hcc
  exact hc (hcc ▸ hturn call hcall)

/-- A call that finds new events completes when their final part applies to any rows. -/
theorem Coherent.ingest_ok (h : Coherent c (source.logOf c) db) (hids : FarmerIds db.farmers)
    (hpull : source.eventsAfter c (cursorOf db c) ≠ [])
    (hst : ∀ e ∈ source.logOf c, e.storable = true)
    (haccept : ∀ rows : Db, FarmerIds rows.farmers →
      ∃ db', applyAll uuid rows (finalPart (source.logOf c) source.floor) = .ok db') :
    ∃ n, ((ingest c).run (exec uuid source) db).1 = .ok n := by
  obtain ⟨z, hz⟩ := Option.ne_none_iff_exists'.mp (mt List.getLast?_eq_none_iff.mp hpull)
  obtain ⟨db', hall⟩ :=
    haccept (db.pulled c (source.eventsAfter c (cursorOf db c)) z.position) hids
  rw [finalPart, ← h.pulled_finalized rfl z.position source.floor] at hall
  obtain ⟨n, hn⟩ := ingest_run_ok hz (fun e he => hst e (List.mem_filter.mp he).1) hall
  exact ⟨n, congrArg Prod.fst hn⟩

/-- **A tick that finds new events of a contract** leaves in a row that only this contract
names what one replay of its final events leaves, whatever the calls before did. -/
theorem IngestRun.tick_projects {ρ β : Type} (P : Projection uuid ρ) {f : ρ → β} {J : ρ → Prop}
    {id : String} {ids : List String} (hrun : IngestRun uuid (fun _ => anyFailure) calls db)
    (hbefore : CallsBefore source calls) (hids : ids.Nodup) (hc : c ∈ ids)
    (hpull : source.eventsAfter c (cursorOf db c) ≠ [])
    (hst : ∀ e ∈ source.logOf c, e.storable = true)
    (haccept : ∀ rows : Db, FarmerIds rows.farmers →
      ∃ db', applyAll uuid rows (finalPart (source.logOf c) source.floor) = .ok db')
    (hreb : RowChange.Rebuilds f J P.change id (finalPart (source.logOf c) source.floor))
    (hown : ∀ e ∈ source.logOf e.contractId, RowChange.Names P.change id e → e.contractId = c) :
    (P.table (db.ticked uuid source ids)).lookup id =
      RowChange.replay P.change id (finalPart (source.logOf c) source.floor) none := by
  obtain ⟨ids₁, ids₂, rfl⟩ := List.append_of_mem hc
  have hnd := List.nodup_middle.mp hids
  rw [List.nodup_cons, List.mem_append, not_or] at hnd
  obtain ⟨⟨hc₁, hc₂⟩, _⟩ := hnd
  rw [Db.ticked_append, (indexerTick_cons c ids₂ _).1]
  -- the contracts before `c`
  obtain ⟨turn₁, hrun₁, hturn₁, hsource₁⟩ := hrun.ticked source ids₁
  have hcursor : cursorOf (db.ticked uuid source ids₁) c = cursorOf db c :=
    cursorOf_ticked hc₁ db
  generalize db.ticked uuid source ids₁ = db₁ at hrun₁ hcursor ⊢
  rw [← hcursor] at hpull
  have hbefore₁ := hbefore.extend (fun _ => List.prefix_rfl) le_rfl hsource₁
  -- the call of `c`, and the contracts after it
  generalize hcall : IngestCall.ofRun uuid db₁ c source = call
  have hrun₂ : IngestRun uuid (fun _ => anyFailure) (calls ++ turn₁ ++ [call]) call.after := by
    rw [← hcall]
    exact IngestRun.ofRun (fun _ _ _ _ _ => trivial) hrun₁ c source
  have hsource : call.source = source := by rw [← hcall, IngestCall.ofRun]
  have hbefore₂ : CallsBefore source (calls ++ turn₁ ++ [call]) := by
    refine hbefore₁.extend (fun _ => List.prefix_rfl) le_rfl ?_
    simpa using hsource
  have hafter : ((ingest c).run (exec uuid source) db₁).2 = call.after := by
    rw [← hcall, IngestCall.ofRun]
  have hcc : call.contractId = c := by rw [← hcall, IngestCall.ofRun]
  rw [hafter]
  obtain ⟨turn₂, hrun₃, hturn₂, hsource₂⟩ := hrun₂.ticked source ids₂
  have hbefore₃ := hbefore₂.extend (fun _ => List.prefix_rfl) le_rfl hsource₂
  have happlied : appliedIn call.trace = finalPart (source.logOf c) source.floor := by
    have hcoh : Coherent c (source.logOf c) db₁ :=
      hrun₁.coherent (hbefore₁.appendOnly c) fun x hx _ => hbefore₁.logs x hx c
    have hok : ∃ n, call.result = .ok n := by
      rw [← hcall]
      exact hcoh.ingest_ok hrun₁.farmerIds.1 hpull hst haccept
    rcases hrun₂.completed (hbefore₂.appendOnly c) (List.mem_append_right _ List.mem_cons_self)
      hcc hok with ⟨hidle, _⟩ | ⟨_, _, _, happlied⟩
    · rw [← hcall] at hidle
      exact absurd hpull hidle
    · rw [happlied, IngestCall.finalEvents, hcc, hsource]
  -- what the calls of `c` applied
  have hcalls : (calls ++ turn₁ ++ [call] ++ turn₂).filter (fun call => call.contractId = c) =
      calls.filter (fun call => call.contractId = c) ++ [call] := by
    simp [List.filter_append, filter_contractId_eq_nil hc₁ hturn₁,
      filter_contractId_eq_nil hc₂ hturn₂, hcc]
  have hrow := hrun₃.replay_own P fun e he => hown e (hrun₃.applied_logged hbefore₃ e he)
  rw [hcalls, appliedHistory_append, happlied, appliedHistory, List.flatMap_def] at hrow
  refine hrow.trans (hreb.replay_flatten ?_)
  intro p hp
  obtain ⟨x, hx, rfl⟩ := List.mem_map.mp hp
  obtain ⟨hx, hxc⟩ := List.mem_filter.mp hx
  have hfloor : x.source.floor ≤ source.floor := Int.sub_le_sub_right (hbefore.head x hx) _
  exact hrun.applied_isPrefix (hbefore.appendOnly c) hx (of_decide_eq_true hxc)
    (source.logOf_ordered c) (hbefore.logs x hx c) hfloor

end

/-! ## What applies once applies again -/

/-- The name of the contracts whose events make the change. -/
def Change.contractName : Change → String
  | .verification _ => "verification"
  | .escrow _ => "escrow"
  | .financing _ => "financing"
  | .identity _ => "identity"

theorem contractName_of_decode {e : ChainEvent} {c : Change}
    (h : decodeEvent e = .ok (some c)) : e.contractName = c.contractName := by
  rw [decodeEvent] at h
  split at h
  case h_14 => cases h
  all_goals
    obtain ⟨d, _, rfl⟩ := decodedOr_bind_ok.mp h
    assumption

/-- A history of a verification or a financing contract that applies to empty tables
applies to any. -/
theorem applies_again {uuid : String → Option String} {history : List ChainEvent} {once : Db}
    {name : String} (hfirst : CreatedFirst history)
    (hname : name = "verification" ∨ name = "financing")
    (hnamed : ∀ e ∈ history, e.contractName = name)
    (honce : applyAll uuid Db.empty history = .ok once) {rows : Db}
    (hids : FarmerIds rows.farmers) : ∃ db', applyAll uuid rows history = .ok db' := by
  refine (applyAll_isOk_iff hids history).mpr ?_
  intro l₁ e l₂ heq
  have hsound := (applyAll_isOk_iff FarmerIds.empty history).mp ⟨once, honce⟩ l₁ e l₂ heq
  obtain ⟨o, ho⟩ : ∃ o, decodeEvent e = .ok o := hsound.imp fun _ h => h.1
  cases o with
  | none => exact ⟨none, ho, by simp⟩
  | some c =>
      refine hsound.of_created_first hfirst heq ?_ rows
      have hc : c.contractName = name :=
        (contractName_of_decode ho).symm.trans (hnamed e (by simp [heq]))
      cases c with
      | verification v => exact .inl ⟨v, ho⟩
      | financing v => exact .inr ⟨v, ho⟩
      | escrow v | identity v => simp [← hc, Change.contractName] at hname

end VerdantBackend
