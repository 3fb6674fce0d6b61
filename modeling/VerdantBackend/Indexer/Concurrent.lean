import VerdantBackend.Indexer.Reorg
import VerdantBackend.Lib.Pool

/-!
# Rewinds beside ingests

Any number of `ingest` and `rewind` operations on one database, statement by
statement in any order, over a source that grows. Nothing is missing below the
cursor as long as every rewind that ran its first `DELETE` runs the second, and
no ingest sets a cursor it computed before a cursor was deleted.
-/

namespace VerdantBackend

open Prog

/-- The database, and the chain as it stands. -/
structure World where
  db : Db
  source : EventSource

namespace World

/-- The log of the contract. -/
def log (w : World) (c : String) : List ChainEvent := w.source.logOf c

/-- The log grows at its end; the head is whatever it is. -/
def Grows (w w' : World) : Prop := w'.db = w.db ∧ ∀ c, w.log c <+: w'.log c

end World

/-- Statements against the world. -/
def execWorld (uuid : String → Option String) : indexer.Handler World := fun q w =>
  (exec uuid w.source q w.db).map fun (a, db) => (a, { w with db })

/-- An operation on a contract. -/
inductive IndexerOp where
  | ingest (contractId : String)
  | rewind (contractId : String) (fromLedger : Int)

def IndexerOp.prog : IndexerOp → Prog indexer Unit Unit
  | .ingest c => (VerdantBackend.ingest c).erase
  | .rewind c d => (VerdantBackend.rewind c d).erase

/-! ## Where an operation stands

What is left of an `ingest` after each of its statements. -/

def applyingProg : List ChainEvent → Prog indexer Unit Unit
  | [] => finished
  | e :: l => .stmt (.applyEvent e) fun
    | .ok _ => applyingProg l
    | .error _ => finished

def selectingProg (c : String) (floor : Int) : Prog indexer Unit Unit :=
  .stmt (.selectFinalized c floor) fun
    | .ok finalized => applyingProg finalized
    | .error _ => finished

/-- `rest` is still to be stored, then the cursor goes to `last`. -/
def storingProg (c : String) (last : Cursor) (floor : Int) :
    List ChainEvent → Prog indexer Unit Unit
  | [] => .stmt (.upsertCursor c last) fun
    | .ok _ => selectingProg c floor
    | .error _ => finished
  | e :: rest => .stmt (.insertEvent e) fun
    | .ok _ => storingProg c last floor rest
    | .error _ => finished

def pulledProg (c : String) (last : Cursor) (events : List ChainEvent) :
    Prog indexer Unit Unit :=
  .stmt .headLedger fun
    | .ok head => storingProg c last (head - TRUSTED_CUTOFF) events
    | .error _ => finished

def readProg (c : String) (cursor : Cursor) : Prog indexer Unit Unit :=
  .stmt (.eventsAfter c cursor) fun
    | .ok events =>
      if events.isEmpty then finished
      else pulledProg c ((events.getLast?.map ChainEvent.position).getD cursor) events
    | .error _ => finished

def ingestProg (c : String) : Prog indexer Unit Unit :=
  .stmt (.selectCursor c) fun
    | .ok row => readProg c (row.getD Cursor.START)
    | .error _ => finished

theorem erase_applyEvents {β : Type} (l : List ChainEvent)
    (f : Nat → Prog indexer ChainEventsError β) (hf : ∀ n, (f n).erase = finished) :
    (applyEvents l >>= f).erase = applyingProg l := by
  induction l generalizing f with
  | nil => exact hf 0
  | cons e l ih =>
      show Prog.stmt _ _ = Prog.stmt _ _
      congr 1
      funext a
      cases a with
      | error err => rfl
      | ok consumed =>
          show ((applyEvents l >>= fun n => pure (if consumed = true then n + 1 else n)) >>=
            f).erase = _
          rw [bind_assoc]
          exact ih _ fun n => hf _

theorem erase_appendEvents {β : Type} (c : String) (last : Cursor) (floor : Int)
    (l : List ChainEvent) (f : Unit → Prog indexer ChainEventsError β)
    (hf : (f ()).erase = storingProg c last floor []) :
    ((appendEvents l).mapErr internal >>= f).erase = storingProg c last floor l := by
  induction l with
  | nil => exact hf
  | cons e l ih =>
      show Prog.stmt _ _ = Prog.stmt _ _
      congr 1
      funext a
      cases a with
      | error err => rfl
      | ok u => exact ih

/-- **The statements of an `ingest`**, one after the other. -/
theorem erase_ingest (c : String) : (ingest c).erase = ingestProg c := by
  show Prog.stmt _ _ = Prog.stmt _ _
  congr 1
  funext row
  cases row with
  | error err => rfl
  | ok row =>
      have hread : ∀ cursor, (call (I := indexer) (.eventsAfter c cursor) >>= fun events =>
          if events.isEmpty = true then pure 0
          else do
            let head ← call (I := indexer) .headLedger
            let finalityFloor := head - TRUSTED_CUTOFF
            (appendEvents events).mapErr internal
            let last := (events.getLast?.map ChainEvent.position).getD cursor
            (setCursor c last).mapErr internal
            let finalized ← (finalizedEvents c finalityFloor).mapErr internal
            let _applied ← applyEvents finalized
            return events.length).erase = readProg c cursor := by
        intro cursor
        show Prog.stmt _ _ = Prog.stmt _ _
        congr 1
        funext events
        cases events with
        | error err => rfl
        | ok events =>
            show Prog.erase (if events.isEmpty = true then _ else _) =
              if events.isEmpty = true then finished else _
            split
            · rfl
            show Prog.stmt _ _ = Prog.stmt _ _
            congr 1
            funext head
            cases head with
            | error err => rfl
            | ok head =>
                refine erase_appendEvents c _ (head - TRUSTED_CUTOFF) events _ ?_
                show Prog.stmt _ _ = Prog.stmt _ _
                congr 1
                funext u
                cases u with
                | error err => rfl
                | ok u =>
                    show Prog.stmt _ _ = Prog.stmt _ _
                    congr 1
                    funext finalized
                    cases finalized with
                    | error err => rfl
                    | ok finalized => exact erase_applyEvents finalized _ fun _ => rfl
      cases row with
      | none => exact hread Cursor.START
      | some cursor => exact hread cursor

/-! ## Bounds

A cursor of the database, or one an `ingest` is about to set, is a bound with
the events still to be stored for it. -/

section
variable {uuid : String → Option String} {w w' : World} {c : String} {safe safe' : Prop}
  {bound : Cursor} {rest : List ChainEvent}

/-- The bound is the start or stands on an event; if `safe`, nothing of the log
up to it is missing but `rest`. -/
structure World.Owes (w : World) (c : String) (safe : Prop) (bound : Cursor)
    (rest : List ChainEvent) : Prop where
  reached : bound = Cursor.START ∨ ∃ z ∈ w.log c, z.position = bound
  stored : safe → ∀ e ∈ w.log c, e.position ≤ bound →
    e ∈ w.db.indexedEvents.rows ∨ e ∈ rest

theorem World.log_afterStart {e : ChainEvent} (he : e ∈ w.log c) : Cursor.START < e.position :=
  w.source.afterStart e (EventSource.mem_logOf.mp he).1

/-- A longer log has nothing new up to the bound. -/
theorem World.Owes.mono (h : w.Owes c safe bound rest) (hlog : w.log c <+: w'.log c)
    (hsafe : safe' → safe ∧ ∀ e ∈ w.db.indexedEvents.rows, e.contractId = c →
      e ∈ w'.db.indexedEvents.rows) : w'.Owes c safe' bound rest where
  reached := h.reached.imp_right fun ⟨z, hz, hpos⟩ => ⟨z, hlog.subset hz, hpos⟩
  stored := by
    intro hs e he hle
    obtain ⟨hs, hkeep⟩ := hsafe hs
    have hold : e ∈ w.log c := by
      rcases h.reached with rfl | ⟨z, hz, rfl⟩
      · exact absurd hle (not_le.mpr (World.log_afterStart he))
      · exact (w'.source.logOf_ordered c).covers_of_isPrefix hlog hz e he hle
    refine (h.stored hs e hold hle).imp_left fun hrow => ?_
    exact hkeep e hrow (EventSource.mem_logOf.mp hold).2

/-! ## What a statement does to the raw events and cursors -/

theorem execWorld_ok_iff {q : IndexerStmt} {a : q.Res} :
    execWorld uuid q w = .ok (a, w') ↔
      ∃ db, exec uuid w.source q w.db = .ok (a, db) ∧ w' = { w with db } := by
  rw [execWorld]
  exact Interface.answered_part_iff (f := fun db => { w with db })

/-- The answer and the world after a statement whose execution is known. -/
theorem execWorld_eq {q : IndexerStmt} {a b : q.Res} {db : Db}
    (hdb : exec uuid w.source q w.db = .ok (b, db)) (h : execWorld uuid q w = .ok (a, w')) :
    a = b ∧ w' = { w with db } := by
  obtain ⟨db', hdb', rfl⟩ := execWorld_ok_iff.mp h
  rw [hdb] at hdb'
  cases hdb'
  exact ⟨rfl, rfl⟩

theorem execWorld_log {q : IndexerStmt} {a : q.Res} (h : execWorld uuid q w = .ok (a, w')) :
    w'.log = w.log := by
  obtain ⟨db, _, rfl⟩ := execWorld_ok_iff.mp h
  rfl

/-- Only a `DELETE` of the contract's events drops some. -/
theorem execWorld_keeps {q : IndexerStmt} {a : q.Res} (h : execWorld uuid q w = .ok (a, w'))
    (hq : ∀ d, q ≠ .deleteEvents c d) :
    ∀ e ∈ w.db.indexedEvents.rows, e.contractId = c → e ∈ w'.db.indexedEvents.rows := by
  intro e he hc
  obtain ⟨db, hx, rfl⟩ := execWorld_ok_iff.mp h
  cases q with
  | insertEvent x =>
      rw [exec_insertEvent hx]
      exact UniqueRows.mem_insertAll_left (l := [x]) he
  | deleteEvents c' d =>
      cases hx
      refine List.mem_filter.mpr ⟨he, ?_⟩
      have hne : c' ≠ c := fun heq => hq d (by rw [heq])
      simp [hc, hne.symm]
  | applyEvent x =>
      rw [(applyEvent_raw hx).events]
      exact he
  | selectCursor _ | eventsAfter _ _ | headLedger | upsertCursor _ _ | selectFinalized _ _
  | deleteCursor _ =>
      cases hx
      exact he

/-- Only an `INSERT` adds an event. -/
theorem execWorld_rows {q : IndexerStmt} {a : q.Res} (h : execWorld uuid q w = .ok (a, w'))
    {e : ChainEvent} (he : e ∈ w'.db.indexedEvents.rows) :
    e ∈ w.db.indexedEvents.rows ∨ q = .insertEvent e := by
  obtain ⟨db, hx, rfl⟩ := execWorld_ok_iff.mp h
  cases q with
  | insertEvent x =>
      rw [exec_insertEvent hx] at he
      exact (UniqueRows.mem_of_mem_insert he).imp_right fun heq => by rw [heq]
  | deleteEvents c' d =>
      cases hx
      exact .inl (List.mem_filter.mp he).1
  | applyEvent x =>
      rw [(applyEvent_raw hx).events] at he
      exact .inl he
  | selectCursor _ | eventsAfter _ _ | headLedger | upsertCursor _ _ | selectFinalized _ _
  | deleteCursor _ =>
      cases hx
      exact .inl he

/-- Only the two cursor statements of the contract change its cursor. -/
theorem execWorld_cursor {q : IndexerStmt} {a : q.Res} (h : execWorld uuid q w = .ok (a, w'))
    (hset : ∀ p, q ≠ .upsertCursor c p) (hdel : q ≠ .deleteCursor c) :
    cursorOf w'.db c = cursorOf w.db c := by
  obtain ⟨db, hx, rfl⟩ := execWorld_ok_iff.mp h
  rw [cursorOf, cursorOf]
  cases q with
  | insertEvent x => rw [exec_insertEvent hx]
  | upsertCursor c' p =>
      cases hx
      have hne : c ≠ c' := fun heq => hset p (by rw [heq])
      exact congrArg (Option.getD · Cursor.START) (Table.lookup_upsert_ne _ _ _ hne)
  | deleteCursor c' =>
      cases hx
      have hne : c ≠ c' := fun heq => hdel (by rw [heq])
      exact congrArg (Option.getD · Cursor.START) (Finmap.lookup_erase_ne hne)
  | applyEvent x => rw [(applyEvent_raw hx).cursors]
  | selectCursor _ | eventsAfter _ _ | headLedger | selectFinalized _ _ | deleteEvents _ _ =>
      cases hx
      rfl

/-- An event of the log is there after its `INSERT`: no other event has its key. -/
theorem execWorld_inserted {e : ChainEvent} {a : Unit} (he : e ∈ w.log c)
    (hstored : ∀ x ∈ w.db.indexedEvents.rows, x.contractId = c → x ∈ w.log c)
    (hx : execWorld uuid (.insertEvent e) w = .ok (a, w')) :
    e ∈ w'.db.indexedEvents.rows := by
  obtain ⟨db, hdb, rfl⟩ := execWorld_ok_iff.mp hx
  rw [exec_insertEvent hdb]
  by_cases hkey : e.naturalKey ∈ w.db.indexedEvents.rows.map ChainEvent.naturalKey
  · obtain ⟨x, hxrow, hxkey⟩ := List.mem_map.mp hkey
    have hxc : x.contractId = c :=
      (congrArg Prod.fst hxkey).trans (EventSource.mem_logOf.mp he).2
    have hsame := List.inj_on_of_nodup_map (w.source.logOf_naturalKey_nodup c)
      (hstored x hxrow hxc) he hxkey
    rw [UniqueRows.insert_rows_of_mem hkey, ← hsame]
    exact hxrow
  · rw [UniqueRows.insert_rows_of_not_mem hkey]
    simp

/-- Storing the next event pays it off. -/
theorem World.Owes.inserted {e : ChainEvent} {a : Unit} (h : w.Owes c safe bound (e :: rest))
    (he : e ∈ w.log c)
    (hstored : ∀ x ∈ w.db.indexedEvents.rows, x.contractId = c → x ∈ w.log c)
    (hx : execWorld uuid (.insertEvent e) w = .ok (a, w')) : w'.Owes c safe bound rest := by
  have hkeep := execWorld_keeps (c := c) hx (by simp)
  have hlog := execWorld_log hx
  have hin := execWorld_inserted he hstored hx
  refine ⟨?_, ?_⟩
  · rw [hlog]
    exact h.reached
  · intro hs x hx hle
    rw [hlog] at hx
    rcases h.stored hs x hx hle with hrow | hrest
    · exact .inl (hkeep x hrow (EventSource.mem_logOf.mp hx).2)
    · rcases List.mem_cons.mp hrest with rfl | hrest
      · exact .inl hin
      · exact .inr hrest

/-- What a pull owes: the events it brought. -/
theorem World.Owes.pull {cursor : Cursor} (h : w.Owes c safe cursor [])
    (hne : w.source.eventsAfter c cursor ≠ []) :
    w.Owes c safe (((w.source.eventsAfter c cursor).getLast?.map ChainEvent.position).getD cursor)
      (w.source.eventsAfter c cursor) := by
  obtain ⟨z, hz⟩ : ∃ z, (w.source.eventsAfter c cursor).getLast? = some z :=
    ⟨_, List.getLast?_eq_some_getLast hne⟩
  rw [hz]
  refine ⟨.inr ⟨z, (List.mem_filter.mp (List.mem_of_getLast? hz)).1, rfl⟩, ?_⟩
  intro hs e he _
  by_cases hle : e.position ≤ cursor
  · exact (h.stored hs e he hle).imp_right fun hn => absurd hn List.not_mem_nil
  · right
    rw [EventSource.eventsAfter_eq]
    exact List.mem_filter.mpr ⟨he, decide_eq_true (not_le.mp hle)⟩

end

/-! ## Operations in the pool -/

def IndexerOp.contractId : IndexerOp → String
  | .ingest c => c
  | .rewind c _ => c

def halfRewoundProg (c : String) : Prog indexer Unit Unit :=
  .stmt (.deleteCursor c) fun _ => finished

def rewindProg (c : String) (d : Int) : Prog indexer Unit Unit :=
  .stmt (.deleteEvents c d) fun
    | .ok _ => halfRewoundProg c
    | .error _ => finished

theorem erase_rewind (c : String) (d : Int) : (rewind c d).erase = rewindProg c d := by
  show Prog.stmt _ _ = Prog.stmt _ _
  congr 1
  funext a
  cases a <;> rfl

/-- What is left of the operation. An `ingest` of `c` carries a bound. -/
inductive OpAt (c : String) (w : World) (safe : Prop) :
    IndexerOp → Prog indexer Unit Unit → Prop where
  | ended {op} : OpAt c w safe op finished
  | ingest {c'} : OpAt c w safe (.ingest c') (ingestProg c')
  | read {c' cursor} : (c' = c → w.Owes c safe cursor []) →
      OpAt c w safe (.ingest c') (readProg c' cursor)
  | pulled {c' last events} : (∀ e ∈ events, e ∈ w.log c') → (c' = c → w.Owes c safe last events) →
      OpAt c w safe (.ingest c') (pulledProg c' last events)
  | storing {c' last floor rest} : (∀ e ∈ rest, e ∈ w.log c') → (c' = c → w.Owes c safe last rest) →
      OpAt c w safe (.ingest c') (storingProg c' last floor rest)
  | selecting {c' floor} : OpAt c w safe (.ingest c') (selectingProg c' floor)
  | applying {c' events} : OpAt c w safe (.ingest c') (applyingProg events)
  | rewind {c' d} : OpAt c w safe (.rewind c' d) (rewindProg c' d)
  | halfRewound {c' d} : OpAt c w safe (.rewind c' d) (halfRewoundProg c')

section
variable {uuid : String → Option String} {w w' : World} {c : String} {safe safe' : Prop}

theorem OpAt.start (c : String) (w : World) (safe : Prop) (op : IndexerOp) :
    OpAt c w safe op op.prog := by
  cases op with
  | ingest c' =>
      rw [IndexerOp.prog, erase_ingest]
      exact .ingest
  | rewind c' d =>
      rw [IndexerOp.prog, erase_rewind]
      exact .rewind

theorem OpAt.mono {op : IndexerOp} {p : Prog indexer Unit Unit} (h : OpAt c w safe op p)
    (hlog : ∀ c, w.log c <+: w'.log c)
    (hsafe : safe' → safe ∧ ∀ e ∈ w.db.indexedEvents.rows, e.contractId = c →
      e ∈ w'.db.indexedEvents.rows) : OpAt c w' safe' op p := by
  cases h with
  | ended => exact .ended
  | ingest => exact .ingest
  | read h => exact .read fun hc => (h hc).mono (hlog c) hsafe
  | pulled hl h =>
      exact .pulled (fun e he => (hlog _).subset (hl e he)) fun hc => (h hc).mono (hlog c) hsafe
  | storing hl h =>
      exact .storing (fun e he => (hlog _).subset (hl e he)) fun hc => (h hc).mono (hlog c) hsafe
  | selecting => exact .selecting
  | applying => exact .applying
  | rewind => exact .rewind
  | halfRewound => exact .halfRewound

/-- An operation ends at its first error. -/
theorem OpAt.error {op : IndexerOp} {q : IndexerStmt}
    {k : indexer.Answer q → Prog indexer Unit Unit} (h : OpAt c w safe op (.stmt q k))
    (e : q.Err) : k (.error e) = finished := by
  generalize hp : (.stmt q k : Prog indexer Unit Unit) = p at h
  cases h with
  | ended => cases hp
  | @storing c' last floor rest _ _ => cases rest <;> cases hp <;> rfl
  | @applying c' events =>
      cases events with
      | nil => cases hp
      | cons x events =>
          cases hp
          rfl
  | ingest | read _ | pulled _ _ | selecting | rewind | halfRewound =>
      cases hp
      rfl

end

/-! ## What a run leaves behind -/

section
variable {ι : Type}

/-- Since the cursor of `c` was last deleted, events of `c` were. -/
def Dirty (c : String) : List (Happening indexer ι) → Prop
  | [] => False
  | h :: past =>
    match h.answered with
    | some (_, .deleteEvents c' _) => c' = c ∨ Dirty c past
    | some (_, .deleteCursor c') => c' ≠ c ∧ Dirty c past
    | _ => Dirty c past

/-- Since `i` read its cursor, the cursor of `c` was deleted. -/
def Stale (c : String) (i : ι) : List (Happening indexer ι) → Prop
  | [] => False
  | h :: past =>
    match h.answered with
    | some (_, .deleteCursor c') => c' = c ∨ Stale c i past
    | some (j, .selectCursor _) => j ≠ i ∧ Stale c i past
    | _ => Stale c i past

/-- The step neither stops a rewind of `c` between its two `DELETE`s nor sets a
cursor of `c` that is stale. -/
def SoundStep (c : String) (past : List (Happening indexer ι)) (pool : Pool indexer ι World) :
    Happening indexer ι → Prop
  | .did i ⟨q, .ok _⟩ => (∃ p, q = .upsertCursor c p) → ¬ Stale c i past
  | .did _ ⟨q, .error _⟩ => q ≠ .deleteCursor c
  | .crashed i => pool.next i ≠ some (.deleteCursor c)
  | .outside => True

theorem dirty_unanswered {c : String} {h : Happening indexer ι}
    {past : List (Happening indexer ι)} (hh : h.answered = none) :
    Dirty c (h :: past) ↔ Dirty c past := by
  rw [Dirty, hh]

theorem stale_unanswered {c : String} {i : ι} {h : Happening indexer ι}
    {past : List (Happening indexer ι)} (hh : h.answered = none) :
    Stale c i (h :: past) ↔ Stale c i past := by
  rw [Stale, hh]

/-- A clean past stays one under all statements but the two `DELETE`s. -/
theorem dirty_answered {c : String} {i : ι} {q : IndexerStmt} {a : q.Res}
    {past : List (Happening indexer ι)} (hev : ∀ d, q ≠ .deleteEvents c d)
    (hcur : q ≠ .deleteCursor c) :
    Dirty c (.did i ⟨q, .ok a⟩ :: past) ↔ Dirty c past := by
  cases q with
  | deleteEvents c' d =>
      have hne : c' ≠ c := fun heq => hev d (by rw [heq])
      exact or_iff_right hne
  | deleteCursor c' =>
      have hne : c' ≠ c := fun heq => hcur (by rw [heq])
      exact and_iff_right hne
  | selectCursor _ | eventsAfter _ _ | headLedger | insertEvent _ | upsertCursor _ _
  | selectFinalized _ _ | applyEvent _ => exact Iff.rfl

/-- What is not stale after a statement was not stale before, unless it has just
read its cursor. -/
theorem Stale.answered {c : String} {i j : ι} {q : IndexerStmt} {a : q.Res}
    {past : List (Happening indexer ι)} (h : Stale c j past)
    (hj : (∃ c', q = .selectCursor c') → i ≠ j) : Stale c j (.did i ⟨q, .ok a⟩ :: past) := by
  cases q with
  | selectCursor c' => exact ⟨hj ⟨c', rfl⟩, h⟩
  | deleteCursor c' => exact .inr h
  | eventsAfter _ _ | headLedger | insertEvent _ | upsertCursor _ _ | selectFinalized _ _
  | applyEvent _ | deleteEvents _ _ => exact h

/-- The bound an ingest of `c` carries holds. -/
def Fresh (c : String) (past : List (Happening indexer ι)) (i : ι) : Prop :=
  ¬ Stale c i past ∧ ¬ Dirty c past

/-! ## The invariant -/

/-- **No gap in `c`**, unless some rewind stands between its two `DELETE`s. -/
structure NoGap (ops : ι → IndexerOp) (c : String) (past : List (Happening indexer ι))
    (pool : Pool indexer ι World) : Prop where
  stored : ∀ e ∈ pool.store.db.indexedEvents.rows, e.contractId = c → e ∈ pool.store.log c
  cursor : pool.store.Owes c (¬ Dirty c past) (cursorOf pool.store.db c) []
  dirty : Dirty c past → ∃ i, pool.next i = some (.deleteCursor c)
  procs : ∀ i p, pool.procs i = some p → OpAt c pool.store (Fresh c past i) (ops i) p

variable {uuid : String → Option String} {ops : ι → IndexerOp} {c : String}
  {past : List (Happening indexer ι)} {pool : Pool indexer ι World}

theorem NoGap.start (source : EventSource) :
    NoGap ops c [] (Pool.start ⟨Db.empty, source⟩ fun i => (ops i).prog) where
  stored := by
    intro e he
    cases he
  cursor := by
    refine ⟨.inl rfl, ?_⟩
    intro _ e he hle
    exact absurd hle (not_le.mpr (World.log_afterStart he))
  dirty h := h.elim
  procs := by
    intro i p hp
    cases hp
    exact OpAt.start _ _ _ _

theorem NoGap.grows (h : NoGap ops c past pool) {w : World} (hw : pool.store.Grows w) :
    NoGap ops c (.outside :: past) ⟨w, pool.procs⟩ where
  stored := by
    intro e he hc
    rw [hw.1] at he
    exact (hw.2 c).subset (h.stored e he hc)
  cursor := by
    show w.Owes c _ (cursorOf w.db c) []
    rw [hw.1]
    refine h.cursor.mono (hw.2 c) fun hd => ⟨hd, fun e he _ => ?_⟩
    rw [hw.1]
    exact he
  dirty := h.dirty
  procs := by
    intro i p hp
    refine (h.procs i p hp).mono hw.2 fun hs => ⟨hs, fun e he _ => ?_⟩
    show e ∈ w.db.indexedEvents.rows
    rw [hw.1]
    exact he

variable [DecidableEq ι]

/-- A statement that a rewind does not stop at leaves the others where they are,
and the world as it was. -/
theorem NoGap.unanswered (h : NoGap ops c past pool) {o : Happening indexer ι}
    (ho : o.answered = none) {i : ι} {p : Option (Prog indexer Unit Unit)}
    (hi : pool.next i ≠ some (.deleteCursor c))
    (hp : ∀ p', p = some p' → p' = finished) :
    NoGap ops c (o :: past) (pool.set pool.store i p) where
  stored := h.stored
  cursor := h.cursor.mono List.prefix_rfl fun hs =>
    ⟨fun hd => hs ((dirty_unanswered ho).mpr hd), fun _ he _ => he⟩
  dirty hd := by
    obtain ⟨j, hj⟩ := h.dirty ((dirty_unanswered ho).mp hd)
    have hne : j ≠ i := by
      rintro rfl
      exact hi hj
    exact ⟨j, by rw [Pool.set_next_ne _ _ _ hne, hj]⟩
  procs := by
    intro j p' hj
    by_cases hji : j = i
    · subst hji
      rw [Pool.set_procs_self] at hj
      rw [hp p' hj]
      exact .ended
    · rw [Pool.set_procs_ne _ _ _ hji] at hj
      refine (h.procs j p' hj).mono (fun _ => List.prefix_rfl) fun hs => ⟨?_, fun _ he _ => he⟩
      exact ⟨fun hst => hs.1 ((stale_unanswered ho).mpr hst),
        fun hd => hs.2 ((dirty_unanswered ho).mpr hd)⟩

/-- **A statement is answered**: what is to be shown of the cursor, of the
rewinds and of the operation itself. -/
theorem NoGap.answered (h : NoGap ops c past pool) {i : ι} {q : IndexerStmt}
    {k : indexer.Answer q → Prog indexer Unit Unit} (hp : pool.procs i = some (.stmt q k))
    {a : q.Res} {w : World} (hx : execWorld uuid q pool.store = .ok (a, w))
    (hinsert : ∀ e, q = .insertEvent e → e ∈ pool.store.log (ops i).contractId)
    (hcursor : w.Owes c (¬ Dirty c (.did i ⟨q, .ok a⟩ :: past)) (cursorOf w.db c) [])
    (hdirty : Dirty c (.did i ⟨q, .ok a⟩ :: past) → ∃ j,
      (pool.set w i (some (k (.ok a)))).next j = some (.deleteCursor c))
    (hproc : OpAt c w (Fresh c (.did i ⟨q, .ok a⟩ :: past) i) (ops i) (k (.ok a))) :
    NoGap ops c (.did i ⟨q, .ok a⟩ :: past) (pool.set w i (some (k (.ok a)))) where
  stored := by
    intro e he hc
    rw [Pool.set_store, execWorld_log hx]
    rcases execWorld_rows hx he with he | hq
    · exact h.stored e he hc
    · have hlog := hinsert e hq
      have hsame := (EventSource.mem_logOf.mp hlog).2
      rw [← hc, hsame]
      exact hlog
  cursor := hcursor
  dirty := hdirty
  procs := by
    intro j p hj
    by_cases hji : j = i
    · subst hji
      rw [Pool.set_procs_self] at hj
      cases hj
      exact hproc
    · rw [Pool.set_procs_ne _ _ _ hji] at hj
      refine (h.procs j p hj).mono (fun c' => ?_) fun hs => ?_
      · rw [Pool.set_store, execWorld_log hx]
      · -- a bound that still holds held before, and nothing was deleted
        have hcur : q ≠ .deleteCursor c := by
          rintro rfl
          exact hs.1 (.inl rfl)
        have hev : ∀ d, q ≠ .deleteEvents c d := by
          rintro d rfl
          exact hs.2 (.inl rfl)
        refine ⟨⟨fun hst => hs.1 (hst.answered fun _ => Ne.symm hji), fun hd => ?_⟩, ?_⟩
        · exact hs.2 ((dirty_answered hev hcur).mpr hd)
        · exact execWorld_keeps hx hev

/-- The `DELETE` that a rewind still owes stays owed by it. -/
theorem NoGap.owed (h : NoGap ops c past pool) {i : ι} {q : IndexerStmt}
    {k : indexer.Answer q → Prog indexer Unit Unit} (hp : pool.procs i = some (.stmt q k))
    (hcur : q ≠ .deleteCursor c) (hd : Dirty c past) {w : World}
    {p : Option (Prog indexer Unit Unit)} :
    ∃ j, (pool.set w i p).next j = some (.deleteCursor c) := by
  obtain ⟨j, hj⟩ := h.dirty hd
  have hne : j ≠ i := by
    rintro rfl
    rw [Pool.next_of_procs hp] at hj
    exact hcur (Option.some.inj hj)
  exact ⟨j, by rw [Pool.set_next_ne _ _ _ hne, hj]⟩

/-- **A statement that neither deletes nor moves the cursor of `c`.** -/
theorem NoGap.plain (h : NoGap ops c past pool) {i : ι} {q : IndexerStmt}
    {k : indexer.Answer q → Prog indexer Unit Unit} (hp : pool.procs i = some (.stmt q k))
    {a : q.Res} {w : World} (hx : execWorld uuid q pool.store = .ok (a, w))
    (hev : ∀ d, q ≠ .deleteEvents c d) (hcur : q ≠ .deleteCursor c)
    (hset : ∀ p, q ≠ .upsertCursor c p)
    (hinsert : ∀ e, q = .insertEvent e → e ∈ pool.store.log (ops i).contractId)
    (hproc : OpAt c w (Fresh c (.did i ⟨q, .ok a⟩ :: past) i) (ops i) (k (.ok a))) :
    NoGap ops c (.did i ⟨q, .ok a⟩ :: past) (pool.set w i (some (k (.ok a)))) := by
  refine h.answered hp hx hinsert ?_ ?_ hproc
  · rw [execWorld_cursor hx hset hcur]
    refine h.cursor.mono (by rw [execWorld_log hx]) fun hd => ?_
    exact ⟨fun hd' => hd ((dirty_answered hev hcur).mpr hd'), execWorld_keeps hx hev⟩
  · intro hd
    exact h.owed hp hcur ((dirty_answered hev hcur).mp hd)

theorem logged_of_eventsAfter {w : World} {cursor : Cursor} {e : ChainEvent}
    (he : e ∈ w.source.eventsAfter c cursor) : e ∈ w.log c :=
  (List.mem_filter.mp he).1

/-- **Every answered statement** of a sound step keeps the invariant. -/
theorem NoGap.did (h : NoGap ops c past pool) {i : ι} {q : IndexerStmt}
    {k : indexer.Answer q → Prog indexer Unit Unit} (hp : pool.procs i = some (.stmt q k))
    {a : q.Res} {w : World} (hx : execWorld uuid q pool.store = .ok (a, w))
    (hsound : (∃ p, q = .upsertCursor c p) → ¬ Stale c i past) :
    NoGap ops c (.did i ⟨q, .ok a⟩ :: past) (pool.set w i (some (k (.ok a)))) := by
  have hop := h.procs i _ hp
  generalize hprog : (.stmt q k : Prog indexer Unit Unit) = p at hop
  generalize hops : ops i = op at hop
  cases hop with
  | ended => cases hprog
  | @ingest c' =>
      -- get_cursor
      cases hprog
      obtain ⟨rfl, rfl⟩ := execWorld_eq rfl hx
      refine h.plain hp hx (by simp) (by simp) (by simp) (by simp) ?_
      rw [hops]
      refine .read fun hc => ?_
      subst hc
      exact h.cursor.mono List.prefix_rfl fun hs => ⟨hs.2, fun _ he _ => he⟩
  | @read c' cursor howes =>
      -- events_after
      cases hprog
      obtain ⟨rfl, rfl⟩ := execWorld_eq rfl hx
      refine h.plain hp hx (by simp) (by simp) (by simp) (by simp) ?_
      rw [hops]
      show OpAt c _ _ _ (if _ then _ else _)
      split
      · exact .ended
      · next hne =>
        refine .pulled (fun e he => logged_of_eventsAfter he) fun hc => ?_
        subst hc
        exact (howes rfl).pull (by simpa using hne)
  | @pulled c' last events hlog howes =>
      -- head_ledger
      cases hprog
      obtain ⟨rfl, rfl⟩ := execWorld_eq rfl hx
      refine h.plain hp hx (by simp) (by simp) (by simp) (by simp) ?_
      rw [hops]
      exact .storing hlog howes
  | @storing c' last floor rest hlog howes =>
      cases rest with
      | nil =>
          -- set_cursor
          cases hprog
          obtain ⟨rfl, rfl⟩ := execWorld_eq rfl hx
          by_cases hc : c' = c
          · subst hc
            refine h.answered hp hx (by simp) ?_ ?_ ?_
            · have hfresh := hsound ⟨last, rfl⟩
              rw [cursorOf_upsert pool.store.db c' last]
              exact (howes rfl).mono List.prefix_rfl fun hd =>
                ⟨⟨hfresh, hd⟩, fun _ he _ => he⟩
            · intro hd
              exact h.owed hp (by simp) hd
            · rw [hops]
              exact .selecting
          · refine h.plain hp hx (by simp) (by simp) (by simp [hc]) (by simp) ?_
            rw [hops]
            exact .selecting
      | cons e rest =>
          -- append_events
          cases hprog
          refine h.plain hp hx (by simp) (by simp) (by simp) ?_ ?_
          · intro x hxe
            cases hxe
            rw [hops]
            exact hlog e List.mem_cons_self
          · rw [hops]
            have hsame := execWorld_log hx
            refine .storing (fun x hxr => ?_) fun hc => ?_
            · rw [hsame]
              exact hlog x (List.mem_cons_of_mem _ hxr)
            · subst hc
              exact (howes rfl).inserted (hlog e List.mem_cons_self) h.stored hx
  | @selecting c' floor =>
      cases hprog
      refine h.plain hp hx (by simp) (by simp) (by simp) (by simp) ?_
      rw [hops]
      exact .applying
  | @applying c' events =>
      cases events with
      | nil => cases hprog
      | cons e events =>
          cases hprog
          refine h.plain hp hx (by simp) (by simp) (by simp) (by simp) ?_
          rw [hops]
          exact .applying
  | @rewind c' d =>
      -- the first DELETE
      cases hprog
      by_cases hc : c' = c
      · subst hc
        refine h.answered hp hx (by simp) ?_ ?_ ?_
        · rw [execWorld_cursor hx (by simp) (by simp)]
          exact h.cursor.mono (by rw [execWorld_log hx]) fun hd => absurd (.inl rfl) hd
        · intro _
          exact ⟨i, by rw [Pool.set_next_self]; rfl⟩
        · rw [hops]
          exact .halfRewound
      · refine h.plain hp hx (by simp [hc]) (by simp) (by simp) (by simp) ?_
        rw [hops]
        exact .halfRewound
  | @halfRewound c' d =>
      -- the second DELETE
      cases hprog
      by_cases hc : c' = c
      · subst hc
        obtain ⟨rfl, rfl⟩ := execWorld_eq rfl hx
        refine h.answered hp hx (by simp) ?_ ?_ ?_
        · have hcur : cursorOf { pool.store.db with
              indexerCursors := pool.store.db.indexerCursors.erase c' } c' = Cursor.START := by
            rw [cursorOf, Finmap.lookup_erase]
            rfl
          rw [hcur]
          refine ⟨.inl rfl, fun _ e he hle => ?_⟩
          exact absurd hle (not_le.mpr (World.log_afterStart he))
        · intro hd
          exact absurd rfl hd.1
        · rw [hops]
          exact .ended
      · refine h.plain hp hx (by simp) (by simp [hc]) (by simp) (by simp) ?_
        rw [hops]
        exact .ended

/-- **One sound step.** -/
theorem NoGap.step {F : Failures indexer World} (h : NoGap ops c past pool)
    {o : Happening indexer ι} {pool' : Pool indexer ι World} (hsound : SoundStep c past pool o)
    (hstep : Pool.Step (execWorld uuid) F World.Grows pool o pool') :
    NoGap ops c (o :: past) pool' := by
  cases hstep with
  | ok hp hx => exact h.did hp hx hsound
  | @fail i q k e hp _ =>
      have hover := (h.procs i _ hp).error e
      refine h.unanswered rfl ?_ fun p' hp' => ?_
      · rw [Pool.next_of_procs hp]
        intro hq
        exact hsound (Option.some.inj hq)
      · rw [← Option.some.inj hp', hover]
  | crash => exact h.unanswered rfl hsound fun p' hp' => by cases hp'
  | outside hw => exact h.grows hw

/-- Nothing of the log at or before the cursor is missing. -/
def Gapless (c : String) (w : World) : Prop :=
  ∀ e ∈ w.log c, e.position ≤ cursorOf w.db c → e ∈ w.db.indexedEvents.rows

/-- What is not stored is still to be pulled. -/
theorem Gapless.pull {w : World} (h : Gapless c w) :
    ∀ e ∈ w.log c, e ∈ w.db.indexedEvents.rows ∨
      e ∈ w.source.eventsAfter c (cursorOf w.db c) := by
  intro e he
  by_cases hle : e.position ≤ cursorOf w.db c
  · exact .inl (h e he hle)
  · right
    rw [EventSource.eventsAfter_eq]
    exact List.mem_filter.mpr ⟨he, decide_eq_true (not_le.mp hle)⟩

/-- **Rewinds open no gap** in a run of sound steps: nothing is missing at or
before the cursor while no rewind stands between its two `DELETE`s, so also once
all operations have ended, and the next pull obtains the rest. -/
theorem rewind_opens_no_gap {F : Failures indexer World} {source : EventSource}
    (hrun : Pool.Run (execWorld uuid) F World.Grows (SoundStep c)
      (Pool.start ⟨Db.empty, source⟩ fun i => (ops i).prog) past pool)
    (hrewinds : ∀ i, pool.next i ≠ some (.deleteCursor c)) :
    Gapless c pool.store ∧
      ∀ e ∈ pool.store.log c, e ∈ pool.store.db.indexedEvents.rows ∨
        e ∈ pool.store.source.eventsAfter c (cursorOf pool.store.db c) := by
  have hinv := hrun.invariant (P := NoGap ops c) (NoGap.start source)
    fun past pool o pool' h hsound hstep => h.step hsound hstep
  have hclean : ¬ Dirty c past := by
    intro hd
    obtain ⟨i, hi⟩ := hinv.dirty hd
    exact hrewinds i hi
  have hgapless : Gapless c pool.store := by
    intro e he hle
    exact (hinv.cursor.stored hclean e he hle).resolve_right List.not_mem_nil
  exact ⟨hgapless, hgapless.pull⟩

end

/-! An ingest and a rewind of one contract. -/

def pairOps : Bool → IndexerOp
  | true => .ingest "CV"
  | false => .rewind "CV" 100

def pairPool (source : EventSource) : Pool indexer Bool World :=
  .start ⟨Db.empty, source⟩ fun i => (pairOps i).prog

/-- The whole ingest, then the whole rewind. -/
def ingestThenRewind : List Bool := [true, true, true, true, true, true, false, false]

theorem rewind_opens_no_gap_after_ingest :
    Gapless "CV" ((pairPool (sampleSource 105)).runSchedule (execWorld noUuid)
      ingestThenRewind).store := by
  have hrun : Pool.Run (execWorld noUuid) anyFailure World.Grows (SoundStep "CV")
      (pairPool (sampleSource 105)) [] (pairPool (sampleSource 105)) := .start
  have h₁ := hrun.step (h := .did true ⟨IndexerStmt.selectCursor "CV", .ok none⟩)
    (by simp [SoundStep]) (.ok rfl rfl)
  have h₂ := h₁.step (h := .did true ⟨IndexerStmt.eventsAfter "CV" Cursor.START,
    .ok [sampleCreated]⟩) (by simp [SoundStep]) (.ok rfl rfl)
  have h₃ := h₂.step (h := .did true ⟨IndexerStmt.headLedger, .ok (105 : Int)⟩)
    (by simp [SoundStep]) (.ok rfl rfl)
  have h₄ := h₃.step (h := .did true ⟨IndexerStmt.insertEvent sampleCreated, .ok ()⟩)
    (by simp [SoundStep]) (.ok rfl rfl)
  have h₅ := h₄.step (h := .did true ⟨IndexerStmt.upsertCursor "CV" sampleCreated.position,
    .ok ()⟩) (by simp [SoundStep, Stale, Happening.answered]) (.ok rfl rfl)
  have h₆ := h₅.step (h := .did true ⟨IndexerStmt.selectFinalized "CV" 95, .ok []⟩)
    (by simp [SoundStep]) (.ok rfl rfl)
  have h₇ := h₆.step (h := .did false ⟨IndexerStmt.deleteEvents "CV" 100, .ok ()⟩)
    (by simp [SoundStep]) (.ok rfl rfl)
  have h₈ := h₇.step (h := .did false ⟨IndexerStmt.deleteCursor "CV", .ok ()⟩)
    (by simp [SoundStep]) (.ok rfl rfl)
  refine (rewind_opens_no_gap h₈ fun i hi => ?_).1
  cases i <;> cases hi

/-- Two events to pull. -/
def twoEvents : EventSource :=
  .ofList [forkEvent 100 (.int 7), forkEvent 101 (.int 8)] 105 (by decide) (by decide)

/-- A rewind stopped between its two `DELETE`s, and an ingest that pulled two
events before the rewind and sets its cursor after it. -/
theorem rewind_opens_gap :
    (∃ past pool, Pool.Run (execWorld noUuid) anyFailure World.Grows (fun _ _ _ => True)
        (pairPool (sampleSource 105)) past pool ∧
      (∀ i, pool.Ended i) ∧ ¬ Gapless "CV" pool.store) ∧
    ∃ past pool, Pool.Run (execWorld noUuid) anyFailure World.Grows (fun _ _ _ => True)
        (pairPool twoEvents) past pool ∧
      (∀ i, pool.Ended i) ∧ ¬ Gapless "CV" pool.store := by
  have start : ∀ source, Pool.Run (execWorld noUuid) anyFailure World.Grows (fun _ _ _ => True)
      (pairPool source) [] (pairPool source) := fun _ => .start
  refine ⟨?_, ?_⟩
  · have hrun := (start (sampleSource 105)).schedule (fun _ _ _ _ => trivial)
      [true, true, true, true, true, true, false]
    refine ⟨_, _, hrun.step (h := .crashed false) trivial .crash, ?_, fun h => ?_⟩
    · intro i
      cases i <;> rfl
    · have hin := h sampleCreated (.head _) (by decide)
      exact absurd hin List.not_mem_nil
  · have hrun := (start twoEvents).schedule (fun _ _ _ _ => trivial)
      [true, true, true, true, false, false, true, true, true]
    refine ⟨_, _, hrun, ?_, fun h => ?_⟩
    · intro i
      cases i <;> rfl
    · have hin := h (forkEvent 100 (.int 7)) (.head _) (by decide)
      have hrow : forkEvent 100 (.int 7) = forkEvent 101 (.int 8) := List.mem_singleton.mp hin
      exact absurd (congrArg ChainEvent.ledgerSequence hrow) (by decide)

end VerdantBackend
