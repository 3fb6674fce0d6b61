import VerdantBackend.Indexer.Service
import VerdantBackend.Lib.TwoRuns

/-!
# The statements of an ingest

Which statements an `ingest` issues depends on the answers it got: the events it
stores are those it pulled, the events it applies are those it selected. Whatever
is to hold of its statements follows from what holds of the answers.
-/

namespace VerdantBackend

open Prog (Issues issues_call)

/-- Terms an ingest of `c` keeps: `Resume` holds of the cursor it resumes from, `Pulled`
of what it pulled, `Floor` of its finality floor, `Final` of what it selected. -/
structure IngestTerms (Q : IndexerStmt → Prop) (Post : (q : IndexerStmt) → q.Res → Prop)
    (c : String) (Resume : Cursor → Prop) (Pulled : ChainEvent → Prop) (Floor : Int → Prop)
    (Final : ChainEvent → Prop) : Prop where
  selectCursor : Q (.selectCursor c)
  start : Resume Cursor.START
  resume : ∀ p, Post (.selectCursor c) (some p) → Resume p
  eventsAfter : ∀ p, Resume p → Q (.eventsAfter c p)
  pulled : ∀ p events, Post (.eventsAfter c p) events → ∀ e ∈ events, Pulled e
  headLedger : Q .headLedger
  floor : ∀ head : Int, Post .headLedger head → Floor (head - TRUSTED_CUTOFF)
  insertEvent : ∀ e, Pulled e → Q (.insertEvent e)
  upsertCursor : ∀ e, Pulled e → Q (.upsertCursor c e.position)
  selectFinalized : ∀ f, Floor f → Q (.selectFinalized c f)
  final : ∀ f events, Floor f → Post (.selectFinalized c f) events → ∀ e ∈ events, Final e
  applyEvent : ∀ e, Final e → Q (.applyEvent e)

namespace IngestTerms

variable {Q : IndexerStmt → Prop} {Post : (q : IndexerStmt) → q.Res → Prop} {c : String}
  {Resume : Cursor → Prop} {Pulled : ChainEvent → Prop} {Floor : Int → Prop}
  {Final : ChainEvent → Prop}

theorem appendEvents_issues (h : IngestTerms Q Post c Resume Pulled Floor Final)
    {l : List ChainEvent} (hl : ∀ e ∈ l, Pulled e) :
    Issues (I := indexer) Q Post (fun _ => True) (appendEvents l) := by
  induction l with
  | nil => trivial
  | cons e l ih =>
      rw [List.forall_mem_cons] at hl
      apply (issues_call (I := indexer) (h.insertEvent e hl.1)).bind
      intro _ _
      exact ih hl.2

theorem applyEvents_issues (h : IngestTerms Q Post c Resume Pulled Floor Final)
    {l : List ChainEvent} (hl : ∀ e ∈ l, Final e) :
    Issues (I := indexer) Q Post (fun _ => True) (applyEvents l) := by
  induction l with
  | nil => trivial
  | cons e l ih =>
      rw [List.forall_mem_cons] at hl
      apply ((issues_call (I := indexer) (h.applyEvent e hl.1)).mapErr internal).bind
      intro consumed _
      apply (ih hl.2).bind
      intro applied _
      trivial

theorem getCursor_issues (h : IngestTerms Q Post c Resume Pulled Floor Final) :
    Issues (I := indexer) Q Post Resume (getCursor c) := by
  apply (issues_call (I := indexer) h.selectCursor).bind
  intro row hrow
  cases row with
  | none => exact h.start
  | some p => exact h.resume p hrow

/-- **An ingest keeps the terms.** -/
theorem ingest_issues (h : IngestTerms Q Post c Resume Pulled Floor Final) :
    Issues (I := indexer) Q Post (fun _ => True) (ingest c) := by
  apply (h.getCursor_issues.mapErr internal).bind
  intro cursor hcursor
  apply (issues_call (I := indexer) (h.eventsAfter cursor hcursor)).bind
  intro (events : List ChainEvent) hevents
  split
  · trivial
  next hne =>
  obtain ⟨z, hz⟩ : ∃ z, events.getLast? = some z := by
    cases hl : events.getLast? with
    | none => simp [List.getLast?_eq_none_iff.mp hl] at hne
    | some z => exact ⟨z, rfl⟩
  have hpulled := h.pulled cursor events hevents
  apply (issues_call (I := indexer) h.headLedger).bind
  intro head hhead
  apply ((h.appendEvents_issues hpulled).mapErr internal).bind
  intro _ _
  simp only [hz, Option.map_some, Option.getD_some]
  have hset := h.upsertCursor z (hpulled z (List.mem_of_getLast? hz))
  apply ((issues_call (I := indexer) hset).mapErr internal).bind
  intro _ _
  have hfloor := h.floor head hhead
  apply ((issues_call (I := indexer) (h.selectFinalized _ hfloor)).mapErr internal).bind
  intro finalized hfinalized
  apply (h.applyEvents_issues (h.final _ finalized hfloor hfinalized)).bind
  intro applied _
  trivial

end IngestTerms

end VerdantBackend
