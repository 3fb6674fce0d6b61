import VerdantBackend.Lib.Prog

/-!
# Pools of programs

Programs at work on one store, statement by statement in any order. A program
may stop for good between two of its statements (a crash), a statement may
fail, and the store may change by itself between statements. A run keeps what
happened, the latest first; `G` restricts its steps by what happened before and
by the pool they start from.
-/

namespace Prog

variable {I : Interface} {ε α σ ι : Type}

/-- A program without its result: only what it issues counts in a pool. -/
def erase : Prog I ε α → Prog I Unit Unit
  | .done _ => .done (.ok ())
  | .stmt q k => .stmt q fun a => (k a).erase

@[simp] theorem erase_done (r : Except ε α) :
    (.done r : Prog I ε α).erase = .done (.ok ()) := rfl

@[simp] theorem erase_stmt (q : I.Stmt) (k : I.Answer q → Prog I ε α) :
    (.stmt q k : Prog I ε α).erase = .stmt q fun a => (k a).erase := rfl

theorem erase_done_bind {β : Type} (r : Except ε α) (f : α → Prog I ε β) :
    ((.done r : Prog I ε α) >>= f).erase = match r with
      | .ok a => (f a).erase
      | .error _ => .done (.ok ()) := by
  cases r <;> rfl

/-- A program that has ended. -/
abbrev finished : Prog I Unit Unit := .done (.ok ())

/-- The statement a program stands at. -/
def next : Prog I ε α → Option I.Stmt
  | .done _ => none
  | .stmt q _ => some q

end Prog

open Prog

variable {I : Interface} {ε α σ ι : Type}

/-- The store, and what is left of every program; `none` when it crashed. -/
structure Pool (I : Interface) (ι σ : Type) where
  store : σ
  procs : ι → Option (Prog I Unit Unit)

/-- What can happen in a pool. -/
inductive Happening (I : Interface) (ι : Type) where
  | did (i : ι) (o : I.Obs)
  | crashed (i : ι)
  | outside

/-- The statement that was answered, and to whom. -/
def Happening.answered : Happening I ι → Option (ι × I.Stmt)
  | .did i ⟨q, .ok _⟩ => some (i, q)
  | _ => none

@[simp] theorem Happening.answered_ok (i : ι) (q : I.Stmt) (a : I.Res q) :
    (Happening.did i ⟨q, .ok a⟩ : Happening I ι).answered = some (i, q) := rfl

@[simp] theorem Happening.answered_error (i : ι) (q : I.Stmt) (e : I.Err q) :
    (Happening.did i ⟨q, .error e⟩ : Happening I ι).answered = none := rfl

@[simp] theorem Happening.answered_crashed (i : ι) :
    (Happening.crashed i : Happening I ι).answered = none := rfl

@[simp] theorem Happening.answered_outside :
    (Happening.outside : Happening I ι).answered = none := rfl

namespace Pool

/-- The statement the program of `i` stands at. -/
def next (pool : Pool I ι σ) (i : ι) : Option I.Stmt := (pool.procs i).bind Prog.next

/-- The program of `i` has ended: returned or crashed. -/
def Ended (pool : Pool I ι σ) (i : ι) : Prop := pool.next i = none

/-- All programs at their beginning. -/
def start (store : σ) (progs : ι → Prog I Unit Unit) : Pool I ι σ :=
  ⟨store, fun i => some (progs i)⟩

theorem next_of_procs {pool : Pool I ι σ} {i : ι} {q : I.Stmt}
    {k : I.Answer q → Prog I Unit Unit} (h : pool.procs i = some (.stmt q k)) :
    pool.next i = some q := by
  rw [next, h]
  rfl

variable [DecidableEq ι]

def set (pool : Pool I ι σ) (store : σ) (i : ι) (p : Option (Prog I Unit Unit)) : Pool I ι σ :=
  ⟨store, Function.update pool.procs i p⟩

@[simp] theorem set_store (pool : Pool I ι σ) (store : σ) (i : ι)
    (p : Option (Prog I Unit Unit)) : (pool.set store i p).store = store := rfl

@[simp] theorem set_procs_self (pool : Pool I ι σ) (store : σ) (i : ι)
    (p : Option (Prog I Unit Unit)) : (pool.set store i p).procs i = p :=
  Function.update_self ..

theorem set_procs_ne (pool : Pool I ι σ) (store : σ) {i j : ι} (p : Option (Prog I Unit Unit))
    (h : j ≠ i) : (pool.set store i p).procs j = pool.procs j :=
  Function.update_of_ne h ..

@[simp] theorem set_next_self (pool : Pool I ι σ) (store : σ) (i : ι)
    (p : Option (Prog I Unit Unit)) : (pool.set store i p).next i = p.bind Prog.next := by
  rw [next, set_procs_self]

theorem set_next_ne (pool : Pool I ι σ) (store : σ) {i j : ι} (p : Option (Prog I Unit Unit))
    (h : j ≠ i) : (pool.set store i p).next j = pool.next j := by
  rw [next, set_procs_ne pool store p h, next]

/-- One step: a statement answered or failed, a crash, a change from outside. -/
inductive Step (exec : I.Handler σ) (F : Failures I σ) (env : σ → σ → Prop) :
    Pool I ι σ → Happening I ι → Pool I ι σ → Prop where
  | ok {pool : Pool I ι σ} {i q k a s} : pool.procs i = some (.stmt q k) →
      exec q pool.store = .ok (a, s) →
      Step exec F env pool (.did i ⟨q, .ok a⟩) (pool.set s i (some (k (.ok a))))
  | fail {pool : Pool I ι σ} {i q k e} : pool.procs i = some (.stmt q k) →
      F q pool.store e →
      Step exec F env pool (.did i ⟨q, .error e⟩) (pool.set pool.store i (some (k (.error e))))
  | crash {pool : Pool I ι σ} {i} :
      Step exec F env pool (.crashed i) (pool.set pool.store i none)
  | outside {pool : Pool I ι σ} {s} : env pool.store s →
      Step exec F env pool .outside ⟨s, pool.procs⟩

/-- What happened, the latest first, and the pool it led to. -/
inductive Run (exec : I.Handler σ) (F : Failures I σ) (env : σ → σ → Prop)
    (G : List (Happening I ι) → Pool I ι σ → Happening I ι → Prop) (first : Pool I ι σ) :
    List (Happening I ι) → Pool I ι σ → Prop where
  | start : Run exec F env G first [] first
  | step {past pool h pool'} : Run exec F env G first past pool → G past pool h →
      Step exec F env pool h pool' → Run exec F env G first (h :: past) pool'

variable {exec : I.Handler σ} {F : Failures I σ} {env : σ → σ → Prop}
  {G : List (Happening I ι) → Pool I ι σ → Happening I ι → Prop} {first : Pool I ι σ}

/-- **Invariants of a run**: what holds at first and is kept by every allowed
step holds all along. -/
theorem Run.invariant {P : List (Happening I ι) → Pool I ι σ → Prop} (hfirst : P [] first)
    (hstep : ∀ past pool h pool', P past pool → G past pool h → Step exec F env pool h pool' →
      P (h :: past) pool')
    {past : List (Happening I ι)} {pool : Pool I ι σ} (hrun : Run exec F env G first past pool) :
    P past pool := by
  induction hrun with
  | start => exact hfirst
  | step _ hg hs ih => exact hstep _ _ _ _ ih hg hs

/-! ## Schedules -/

/-- The pool after the programs issued their statements in the given order, when
only the store rejects a statement. -/
def runSchedule (exec : I.Handler σ) (pool : Pool I ι σ) : List ι → Pool I ι σ
  | [] => pool
  | i :: is =>
    match pool.procs i with
    | some (.stmt q k) =>
      match exec q pool.store with
      | .ok (a, s) => runSchedule exec (pool.set s i (some (k (.ok a)))) is
      | .error e => runSchedule exec (pool.set pool.store i (some (k (.error e)))) is
    | _ => runSchedule exec pool is

/-- What happens on the way, after `past`. -/
def traceSchedule (exec : I.Handler σ) (past : List (Happening I ι)) (pool : Pool I ι σ) :
    List ι → List (Happening I ι)
  | [] => past
  | i :: is =>
    match pool.procs i with
    | some (.stmt q k) =>
      match exec q pool.store with
      | .ok (a, s) =>
        traceSchedule exec (.did i ⟨q, .ok a⟩ :: past) (pool.set s i (some (k (.ok a)))) is
      | .error e =>
        traceSchedule exec (.did i ⟨q, .error e⟩ :: past)
          (pool.set pool.store i (some (k (.error e)))) is
    | _ => traceSchedule exec past pool is

/-- A schedule is a run. -/
theorem Run.schedule (hF : ∀ q s e, exec q s = .error e → F q s e)
    {past : List (Happening I ι)} {pool : Pool I ι σ}
    (hrun : Run exec F env (fun _ _ _ => True) first past pool) (is : List ι) :
    Run exec F env (fun _ _ _ => True) first (traceSchedule exec past pool is)
      (runSchedule exec pool is) := by
  induction is generalizing past pool with
  | nil => exact hrun
  | cons i is ih =>
      rw [traceSchedule, runSchedule]
      cases hp : pool.procs i with
      | none => exact ih hrun
      | some p =>
          cases p with
          | done r => exact ih hrun
          | stmt q k =>
              cases hx : exec q pool.store with
              | ok as =>
                  simp only [hx]
                  exact ih (.step hrun trivial (.ok hp hx))
              | error e =>
                  simp only [hx]
                  exact ih (.step hrun trivial (.fail hp (hF q _ e hx)))

/-! ## One program -/

theorem set_unit (pool : Pool I Unit σ) (store : σ) (p : Option (Prog I Unit Unit)) :
    pool.set store () p = ⟨store, fun _ => p⟩ := rfl

/-- **A program alone** in a pool does what its run does. -/
theorem Run.alone {G : List (Happening I Unit) → Pool I Unit σ → Happening I Unit → Prop}
    (hG : ∀ past pool h, G past pool h) (hF : ∀ q s e, exec q s = .error e → F q s e)
    (p : Prog I ε α) {first : Pool I Unit σ} {past : List (Happening I Unit)} {s : σ}
    (hrun : Run exec F env G first past ⟨s, fun _ => some p.erase⟩) :
    ∃ past', Run exec F env G first past' ⟨(p.run exec s).2, fun _ => some finished⟩ := by
  induction p generalizing past s with
  | done r => exact ⟨past, hrun⟩
  | stmt q k ih =>
      rw [Prog.run]
      cases hx : exec q s with
      | ok as =>
          obtain ⟨a, s'⟩ := as
          have hstep := hrun.step (hG _ _ _) (.ok (i := ()) rfl hx)
          rw [set_unit] at hstep
          exact ih (.ok a) hstep
      | error e =>
          have hstep := hrun.step (hG _ _ _) (.fail (i := ()) rfl (hF q s e hx))
          rw [set_unit] at hstep
          exact ih (.error e) hstep

end Pool
