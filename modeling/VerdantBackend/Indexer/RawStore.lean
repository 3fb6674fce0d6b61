import VerdantBackend.Indexer.Run

/-!
# The raw store loses nothing and duplicates nothing

Calls of any contracts, each free to stop with an error after any of its
statements, against a source that keeps what it delivered and adds only
behind it. The invariant of one contract: its delivered events, in position
order, are a log with which the contract is coherent.
-/

namespace VerdantBackend

open Prog

/-- What the source delivered to the calls of `c`. -/
def deliveredTo (c : String) (calls : List IngestCall) : List ChainEvent :=
  calls.flatMap fun call => (deliveredIn call.trace).filter fun e => e.contractId = c

/-- The log keeps what was delivered, and everything else in it is positioned
after all that was delivered. -/
structure Extends (delivered log : List ChainEvent) : Prop where
  keeps : ∀ e ∈ delivered, e ∈ log
  adds : ∀ e ∈ log, e ∉ delivered → ∀ d ∈ delivered, d.position < e.position

/-- The source of every call extends what earlier calls were given. -/
def SourceExtends (calls : List IngestCall) : Prop :=
  ∀ earlier call later, calls = earlier ++ call :: later →
    Extends (deliveredTo call.contractId earlier) (call.source.logOf call.contractId)

theorem SourceExtends.init {calls : List IngestCall} {call : IngestCall}
    (h : SourceExtends (calls ++ [call])) :
    SourceExtends calls ∧
      Extends (deliveredTo call.contractId calls) (call.source.logOf call.contractId) := by
  refine ⟨?_, h calls call [] rfl⟩
  intro earlier x later heq
  exact h earlier x (later ++ [call]) (by rw [heq]; simp)

/-- The delivered events in position order: a log the contract is coherent
with. -/
structure DeliveredLog (c : String) (delivered log : List ChainEvent) : Prop where
  ordered : Log.Ordered ChainEvent.position log
  afterStart : ∀ e ∈ log, Cursor.START < e.position
  mem_iff : ∀ e, e ∈ log ↔ e ∈ delivered

theorem DeliveredLog.isPrefix {c : String} {delivered log log' : List ChainEvent}
    (h : DeliveredLog c delivered log) (hext : Extends delivered log')
    (hlog' : Log.Ordered ChainEvent.position log') : log <+: log' := by
  classical
  -- `log` is the part of `log'` that was delivered
  have hlow : Log.LowerOn ChainEvent.position log' fun e => decide (e ∈ delivered) := by
    intro a ha b _ hab hb
    rw [decide_eq_true_eq] at hb ⊢
    by_contra hna
    exact absurd (hext.adds a ha hna b hb) (not_lt.mpr (le_of_lt hab))
  have hpart := hlog'.filter_isPrefix hlow
  have hsame : log = log'.filter fun e => decide (e ∈ delivered) := by
    have hperm : log.Perm (log'.filter fun e => decide (e ∈ delivered)) := by
      rw [List.perm_ext_iff_of_nodup h.ordered.nodup (hlog'.filter _).nodup]
      intro e
      rw [List.mem_filter, decide_eq_true_eq, h.mem_iff]
      exact ⟨fun he => ⟨hext.keeps e he, he⟩, fun he => he.2⟩
    exact hperm.eq_of_pairwise (fun a b _ _ hab hba => absurd hab (not_lt.mpr (le_of_lt hba)))
      h.ordered (hlog'.filter _)
  rw [hsame]
  exact hpart

theorem deliveredTo_append (c : String) (calls : List IngestCall) (call : IngestCall) :
    deliveredTo c (calls ++ [call]) =
      deliveredTo c calls ++ (deliveredIn call.trace).filter fun e => e.contractId = c := by
  simp [deliveredTo]

section
variable {source : EventSource} {c : String} {db db' : Db} {delivered : List ChainEvent}

theorem RawEffect.delivered_eq (h : RawEffect source c db delivered db') :
    (delivered = [] ∧ SameRawStore db db') ∨
      delivered = source.eventsAfter c (cursorOf db c) := by
  cases h with
  | same hs => exact .inl ⟨rfl, hs⟩
  | stored hev _ _ => exact .inr hev.symm
  | pulled hev _ _ => exact .inr hev.symm

/-- The cursor only moves forward. -/
theorem RawEffect.cursor_le (h : RawEffect source c db delivered db') (c' : String) :
    cursorOf db c' ≤ cursorOf db' c' := by
  by_cases hc : c' = c
  · subst hc
    cases h with
    | same hs => rw [cursorOf, cursorOf, hs.cursors]
    | stored _ _ hs => rw [cursorOf, cursorOf, hs]
    | @pulled _ z _ hev hz hs =>
        have hmem : z ∈ source.eventsAfter c' (cursorOf db c') :=
          hev ▸ List.mem_of_getLast? hz
        rw [EventSource.eventsAfter_eq, List.mem_filter, decide_eq_true_eq] at hmem
        have hafter : cursorOf db' c' = z.position := by
          rw [cursorOf, hs.cursors]
          exact cursorOf_upsert db c' z.position
        rw [hafter]
        exact le_of_lt hmem.2
  · rw [cursorOf, cursorOf, (h.other hc).2]

/-- **One call** carries the delivered log on. -/
theorem DeliveredLog.step {log before : List ChainEvent}
    (hlog : DeliveredLog c before log) (hcoh : Coherent c log db)
    (hext : Extends before (source.logOf c)) (h : RawEffect source c db delivered db') :
    ∃ log', DeliveredLog c (before ++ delivered) log' ∧ Coherent c log' db' := by
  rcases h.delivered_eq with ⟨rfl, hs⟩ | hd
  · refine ⟨log, ?_, hcoh.of_same (by rw [hs.events]) (by rw [hs.cursors])⟩
    rw [List.append_nil]
    exact hlog
  · have hpre := hlog.isPrefix hext (source.logOf_ordered c)
    have hcoh' := hcoh.mono hpre
    refine ⟨source.logOf c, ⟨source.logOf_ordered c, ?_, ?_⟩, (hcoh'.step h).1⟩
    · intro e he
      exact source.afterStart e (EventSource.mem_logOf.mp he).1
    · intro e
      have hsplit := upTo_append_eventsAfter source c (cursorOf db c)
      constructor
      · intro he
        rw [← hsplit] at he
        rcases List.mem_append.mp he with he | he
        · -- what is not pulled again is stored, so it was delivered before
          have hstored := (hcoh'.upTo_isPrefix rfl).subset he
          exact List.mem_append_left _ ((hlog.mem_iff e).mp (hcoh.stored.subset hstored))
        · exact List.mem_append_right _ (hd ▸ he)
      · intro he
        rcases List.mem_append.mp he with he | he
        · exact hext.keeps e he
        · rw [hd] at he
          exact (List.mem_filter.mp he).1

end

variable {uuid : String → Option String} {F : EventSource → Failures indexer Db}
  {calls : List IngestCall} {db : Db}

/-- **The invariant of a run**: every contract has its delivered log. -/
theorem IngestRun.deliveredLog (hrun : IngestRun uuid F calls db) (hsrc : SourceExtends calls)
    (c : String) : ∃ log, DeliveredLog c (deliveredTo c calls) log ∧ Coherent c log db := by
  induction hrun with
  | start => exact ⟨[], ⟨List.Pairwise.nil, by simp, by simp [deliveredTo]⟩, .empty c []⟩
  | @call calls call _ hout ih =>
      obtain ⟨hinit, hext⟩ := hsrc.init
      obtain ⟨log, hlog, hcoh⟩ := ih hinit
      have hraw := (ingest_effect hout).raw
      rw [deliveredTo_append]
      by_cases hc : c = call.contractId
      · have hown : (deliveredIn call.trace).filter (fun e => e.contractId = c) =
            deliveredIn call.trace := by
          rw [List.filter_eq_self]
          intro e he
          rcases hraw.delivered_eq with ⟨hnil, _⟩ | hd
          · rw [hnil] at he
            cases he
          · rw [hd] at he
            rw [decide_eq_true_eq, hc]
            exact eventsAfter_contractId _ he
        rw [hown]
        subst hc
        exact hlog.step hcoh hext hraw
      · have hnone : (deliveredIn call.trace).filter (fun e => e.contractId = c) = [] := by
          rw [List.filter_eq_nil_iff]
          intro e he
          rcases hraw.delivered_eq with ⟨hnil, _⟩ | hd
          · rw [hnil] at he
            cases he
          · rw [hd] at he
            rw [decide_eq_true_eq, eventsAfter_contractId _ he]
            exact Ne.symm hc
        rw [hnone, List.append_nil]
        exact ⟨log, hlog, hcoh.of_same (hraw.other hc).1 (hraw.other hc).2⟩

/-- **No lost and no duplicated raw event.** After any run, every call free to
stop after any statement: whatever the source holds now, its events at or before
the persisted cursor are stored exactly once with their payload; everything
stored was delivered; and no call moved a cursor back. -/
theorem raw_store_exact (hrun : IngestRun uuid (fun _ => anyFailure) calls db)
    (hsrc : SourceExtends calls) (c : String) :
    (∀ source : EventSource, Extends (deliveredTo c calls) (source.logOf c) →
      ∀ e ∈ source.logOf c, e.position ≤ cursorOf db c →
        db.indexedEvents.rows.filter (fun x => x.naturalKey = e.naturalKey) = [e]) ∧
    (∀ e ∈ db.indexedEvents.ofContract c, e ∈ deliveredTo c calls) ∧
    (∀ call ∈ calls, cursorOf call.before c ≤ cursorOf call.after c) := by
  obtain ⟨log, hlog, hcoh⟩ := hrun.deliveredLog hsrc c
  refine ⟨?_, ?_, ?_⟩
  · intro source hext e he hle
    have hcoh' := hcoh.mono (hlog.isPrefix hext (source.logOf_ordered c))
    have hstored := hcoh'.covered (source.logOf_ordered c)
      (fun e he => source.afterStart e (EventSource.mem_logOf.mp he).1) e he hle
    exact UniqueRows.filter_key_eq _ (EventStore.mem_ofContract.mp hstored).1
  · intro e he
    exact (hlog.mem_iff e).mp (hcoh.stored.subset he)
  · intro call hcall
    exact (hrun.call_effect hcall).raw.cursor_le c

/-! The connection is lost between two inserts, and the call is made again. -/

def nextCreated : ChainEvent :=
  sampleEvent "CV" "verification" "VerificationCreated" 103
    [.int 9, .str "b3", .str "GS", .str "0f3e", .str "GI", .int 103]

def interruptedSource : EventSource :=
  .ofList [sampleCreated, nextCreated] 105 (by decide) (by decide)

def interruptedCall : IngestCall where
  contractId := "CV"
  source := interruptedSource
  before := Db.empty
  trace := [⟨.selectCursor "CV", .ok none⟩,
    ⟨.eventsAfter "CV" Cursor.START, .ok [sampleCreated, nextCreated]⟩,
    ⟨.headLedger, .ok (105 : Int)⟩, ⟨.insertEvent sampleCreated, .ok ()⟩,
    ⟨.insertEvent nextCreated, .error (.database "connection reset")⟩]
  result := .error (internal (.database "connection reset"))
  after := { Db.empty with
    indexedEvents := Db.empty.indexedEvents.insert sampleCreated }

theorem interruptedCall_outcome :
    Outcome (exec noUuid interruptedSource) anyFailure (ingest "CV") Db.empty interruptedCall.trace
      interruptedCall.result interruptedCall.after := by
  refine .ok rfl (.ok rfl (.ok rfl (.ok rfl (.fail trivial ?_))))
  exact .done

def retriedCall : IngestCall := .ofRun noUuid interruptedCall.after "CV" interruptedSource

theorem interrupted_extends {delivered : List ChainEvent}
    (h : ∀ e, e ∈ delivered ↔ e ∈ interruptedSource.logOf "CV") :
    Extends delivered (interruptedSource.logOf "CV") where
  keeps e he := (h e).mp he
  adds e he hne := absurd ((h e).mpr he) hne

theorem raw_store_exact_retried :
    retriedCall.after.indexedEvents.rows.filter
        (fun x => x.naturalKey = sampleCreated.naturalKey) = [sampleCreated] ∧
      retriedCall.after.indexedEvents.rows.filter
        (fun x => x.naturalKey = nextCreated.naturalKey) = [nextCreated] := by
  have hfirst : IngestRun noUuid (fun _ => anyFailure) ([] ++ [interruptedCall])
      interruptedCall.after := .call .start interruptedCall_outcome
  have hrun := IngestRun.ofRun (fun _ _ _ _ _ => trivial) hfirst "CV" interruptedSource
  have hlog : interruptedSource.logOf "CV" = [sampleCreated, nextCreated] := rfl
  have hdelivered : ∀ e, e ∈ deliveredTo "CV" ([] ++ [interruptedCall]) ↔
      e ∈ interruptedSource.logOf "CV" := fun _ => Iff.rfl
  have hsrc : SourceExtends ([] ++ [interruptedCall] ++ [retriedCall]) := by
    intro earlier call later heq
    rcases earlier with _ | ⟨first, _ | ⟨second, earlier⟩⟩
    · obtain ⟨rfl, _⟩ := List.cons.inj heq
      exact ⟨by simp [deliveredTo], by simp [deliveredTo]⟩
    · obtain ⟨rfl, hrest⟩ := List.cons.inj heq
      obtain ⟨rfl, _⟩ := List.cons.inj hrest
      exact interrupted_extends hdelivered
    · simp at heq
  -- the second call is given both events again
  have hagain : deliveredTo "CV" ([] ++ [interruptedCall] ++ [retriedCall]) =
      [sampleCreated, nextCreated, sampleCreated, nextCreated] := rfl
  have hext : Extends (deliveredTo "CV" ([] ++ [interruptedCall] ++ [retriedCall]))
      (interruptedSource.logOf "CV") := by
    refine interrupted_extends fun x => ?_
    rw [hagain, hlog]
    simp only [List.mem_cons, List.not_mem_nil, or_false]
    tauto
  have hexact := (raw_store_exact hrun hsrc "CV").1 interruptedSource hext
  exact ⟨hexact sampleCreated List.mem_cons_self (by decide),
    hexact nextCreated (List.mem_cons_of_mem _ List.mem_cons_self) (by decide)⟩

end VerdantBackend
