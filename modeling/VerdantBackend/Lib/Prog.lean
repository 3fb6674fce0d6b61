import Mathlib.Logic.Function.Basic
import Mathlib.Tactic.TypeStar

/-!
# Statement programs

A service function is a sequence of atomic statements against a store, with
local computation between them. `Prog` is the free program over an interface
of such statements: every statement carries its parameters, every continuation
receives the answer, an error included. The one program text then has three
readings, all defined here or in `Lib.Pool`:

* `run`, the executable run in which a statement fails only when the store
  itself rejects it;
* `Outcome`, the relation that also lets a statement fail from outside (a lost
  connection), with the trace of what was issued and answered;
* the statement-by-statement interleaving of several programs (`Lib.Pool`).
-/

/-- The statements of a store: what each one may answer. -/
structure Interface where
  Stmt : Type
  Err : Stmt → Type
  Res : Stmt → Type

abbrev Interface.Answer (I : Interface) (q : I.Stmt) : Type :=
  Except (I.Err q) (I.Res q)

/-- One entry of a trace: a statement with the answer it got. -/
abbrev Interface.Obs (I : Interface) : Type := (q : I.Stmt) × I.Answer q

/-- How the store executes a statement. A rejected statement leaves the store
unchanged, so no new state is given on the error side. -/
abbrev Interface.Handler (I : Interface) (σ : Type) : Type :=
  (q : I.Stmt) → σ → Except (I.Err q) (I.Res q × σ)

namespace Interface

/-! ## Statements on a part of the store

`f` puts the new part in its place. -/

theorem answered_part_iff {ε α τ σ : Type} {x : Except ε (α × τ)} {f : τ → σ} {a : α} {s : σ} :
    (x.map fun (b, t) => (b, f t)) = .ok (a, s) ↔ ∃ t, x = .ok (a, t) ∧ s = f t := by
  cases x with
  | error e => simp [Except.map]
  | ok r =>
      obtain ⟨b, t⟩ := r
      simp only [Except.map, Except.ok.injEq, Prod.mk.injEq]
      constructor
      · intro h
        obtain ⟨hb, hs⟩ := h
        exact ⟨t, ⟨hb, rfl⟩, hs.symm⟩
      · intro h
        obtain ⟨t', ⟨hb, ht⟩, hs⟩ := h
        exact ⟨hb, by rw [hs, ht]⟩

theorem done_part_iff {ε τ σ : Type} {x : Except ε τ} {f : τ → σ} {u : Unit} {s : σ} :
    (x.map fun t => ((), f t)) = .ok (u, s) ↔ ∃ t, x = .ok t ∧ s = f t := by
  cases x with
  | error e => simp [Except.map]
  | ok t => simp [Except.map, eq_comm]

end Interface

/-- An answer that a change of the error leaves as it is. -/
theorem mapError_eq_ok {ε ε' α : Type} {f : ε → ε'} {x : Except ε α} {a : α}
    (h : x.mapError f = .ok a) : x = .ok a := by
  cases x with
  | ok b =>
      cases h
      rfl
  | error e => cases h

inductive Prog (I : Interface) (ε α : Type) : Type where
  | done (r : Except ε α)
  | stmt (q : I.Stmt) (k : I.Answer q → Prog I ε α)

namespace Prog

variable {I : Interface} {ε ε' α β σ : Type}

def bind : Prog I ε α → (α → Prog I ε β) → Prog I ε β
  | .done (.ok a), f => f a
  | .done (.error e), _ => .done (.error e)
  | .stmt q k, f => .stmt q fun a => (k a).bind f

instance : Monad (Prog I ε) where
  pure a := .done (.ok a)
  bind := Prog.bind

def throw (e : ε) : Prog I ε α := .done (.error e)

/-- The `?` operator after `map_err`. -/
def mapErr (g : ε → ε') : Prog I ε α → Prog I ε' α
  | .done r => .done (r.mapError g)
  | .stmt q k => .stmt q fun a => (k a).mapErr g

/-- Issue one statement and return what it answers. -/
def call (q : I.Stmt) : Prog I (I.Err q) (I.Res q) := .stmt q .done

/-- The result as a value: the caller looks at an error and goes on. -/
def attempt : Prog I ε α → Prog I ε' (Except ε α)
  | .done r => .done (.ok r)
  | .stmt q k => .stmt q fun a => (k a).attempt

@[simp] theorem pure_eq (a : α) : (pure a : Prog I ε α) = .done (.ok a) := rfl

@[simp] theorem bind_done_ok (a : α) (f : α → Prog I ε β) :
    ((.done (.ok a) : Prog I ε α) >>= f) = f a := rfl

@[simp] theorem bind_done_error (e : ε) (f : α → Prog I ε β) :
    ((.done (.error e) : Prog I ε α) >>= f) = .done (.error e) := rfl

@[simp] theorem bind_stmt (q : I.Stmt) (k : I.Answer q → Prog I ε α)
    (f : α → Prog I ε β) :
    ((.stmt q k : Prog I ε α) >>= f) = .stmt q fun a => k a >>= f := rfl

@[simp] theorem mapErr_done (g : ε → ε') (r : Except ε α) :
    (.done r : Prog I ε α).mapErr g = .done (r.mapError g) := rfl

@[simp] theorem mapErr_stmt (g : ε → ε') (q : I.Stmt)
    (k : I.Answer q → Prog I ε α) :
    (.stmt q k : Prog I ε α).mapErr g = .stmt q fun a => (k a).mapErr g := rfl

theorem bind_assoc {γ : Type} (p : Prog I ε α) (f : α → Prog I ε β) (g : β → Prog I ε γ) :
    (p >>= f) >>= g = p >>= fun a => f a >>= g := by
  induction p with
  | done r => cases r <;> rfl
  | stmt q k ih =>
      simp only [bind_stmt]
      congr 1
      funext a
      exact ih a

theorem call_eq (q : I.Stmt) : (call q) = .stmt q .done := rfl

/-! ## The executable run -/

def run (exec : I.Handler σ) : Prog I ε α → σ → Except ε α × σ
  | .done r, s => (r, s)
  | .stmt q k, s =>
    match exec q s with
    | .ok (a, s') => run exec (k (.ok a)) s'
    | .error e => run exec (k (.error e)) s

/-- What the executable run issues, with the answers. -/
def trace (exec : I.Handler σ) : Prog I ε α → σ → List I.Obs
  | .done _, _ => []
  | .stmt q k, s =>
    match exec q s with
    | .ok (a, s') => ⟨q, .ok a⟩ :: trace exec (k (.ok a)) s'
    | .error e => ⟨q, .error e⟩ :: trace exec (k (.error e)) s

/-! ## Outcomes with failures -/

/-- `F q s e`: statement `q`, issued in state `s`, may fail with `e`. -/
abbrev Failures (I : Interface) (σ : Type) : Type :=
  (q : I.Stmt) → σ → I.Err q → Prop

/-- Only the store's own rejections. -/
def ownFailures (exec : I.Handler σ) : Failures I σ := fun q s e => exec q s = .error e

/-- Any statement may fail at any time with any error. -/
def anyFailure : Failures I σ := fun _ _ _ => True

/-- The program, started in `s`, may issue the statements of the trace, end
with `r` and leave the last state. -/
inductive Outcome (exec : I.Handler σ) (F : Failures I σ) :
    Prog I ε α → σ → List I.Obs → Except ε α → σ → Prop where
  | done {r s} : Outcome exec F (.done r) s [] r s
  | ok {q k s a s₁ tr r s₂} : exec q s = .ok (a, s₁) →
      Outcome exec F (k (.ok a)) s₁ tr r s₂ →
      Outcome exec F (.stmt q k) s (⟨q, .ok a⟩ :: tr) r s₂
  | fail {q k s e tr r s₂} : F q s e →
      Outcome exec F (k (.error e)) s tr r s₂ →
      Outcome exec F (.stmt q k) s (⟨q, .error e⟩ :: tr) r s₂

section Outcome
variable {exec : I.Handler σ} {F : Failures I σ}

theorem outcome_done_iff {r r' : Except ε α} {s s' : σ} {tr : List I.Obs} :
    Outcome exec F (.done r) s tr r' s' ↔ tr = [] ∧ r' = r ∧ s' = s := by
  constructor
  · intro h
    cases h
    exact ⟨rfl, rfl, rfl⟩
  · rintro ⟨rfl, rfl, rfl⟩
    exact .done

theorem outcome_stmt_iff {q : I.Stmt} {k : I.Answer q → Prog I ε α} {s s' : σ}
    {tr : List I.Obs} {r : Except ε α} :
    Outcome exec F (.stmt q k) s tr r s' ↔
      (∃ a s₁ tr', exec q s = .ok (a, s₁) ∧ tr = ⟨q, .ok a⟩ :: tr' ∧
        Outcome exec F (k (.ok a)) s₁ tr' r s') ∨
      (∃ e tr', F q s e ∧ tr = ⟨q, .error e⟩ :: tr' ∧
        Outcome exec F (k (.error e)) s tr' r s') := by
  constructor
  · intro h
    cases h with
    | ok h₁ h₂ => exact .inl ⟨_, _, _, h₁, rfl, h₂⟩
    | fail h₁ h₂ => exact .inr ⟨_, _, h₁, rfl, h₂⟩
  · rintro (⟨a, s₁, tr', h₁, rfl, h₂⟩ | ⟨e, tr', h₁, rfl, h₂⟩)
    · exact .ok h₁ h₂
    · exact .fail h₁ h₂

theorem outcome_call_iff {q : I.Stmt} {s s' : σ} {tr : List I.Obs}
    {r : I.Answer q} :
    Outcome exec F (call q) s tr r s' ↔
      (∃ a, exec q s = .ok (a, s') ∧ tr = [⟨q, .ok a⟩] ∧ r = .ok a) ∨
      (∃ e, F q s e ∧ tr = [⟨q, .error e⟩] ∧ r = .error e ∧ s' = s) := by
  rw [call_eq, outcome_stmt_iff]
  simp only [outcome_done_iff]
  constructor
  · rintro (⟨a, s₁, tr', h₁, rfl, rfl, rfl, rfl⟩ | ⟨e, tr', h₁, rfl, rfl, rfl, rfl⟩)
    · exact .inl ⟨a, h₁, rfl, rfl⟩
    · exact .inr ⟨e, h₁, rfl, rfl, rfl⟩
  · rintro (⟨a, h₁, rfl, rfl⟩ | ⟨e, h₁, rfl, rfl, rfl⟩)
    · exact .inl ⟨a, s', [], h₁, rfl, rfl, rfl, rfl⟩
    · exact .inr ⟨e, [], h₁, rfl, rfl, rfl, rfl⟩

/-- **Sequencing**: an outcome of `p >>= f` stops inside `p`, or passes the
result of `p` on to `f`. -/
theorem outcome_bind_iff {p : Prog I ε α} {f : α → Prog I ε β} {s s' : σ}
    {tr : List I.Obs} {r : Except ε β} :
    Outcome exec F (p >>= f) s tr r s' ↔
      (∃ e, r = .error e ∧ Outcome exec F p s tr (.error e) s') ∨
      (∃ a s₁ tr₁ tr₂, tr = tr₁ ++ tr₂ ∧ Outcome exec F p s tr₁ (.ok a) s₁ ∧
        Outcome exec F (f a) s₁ tr₂ r s') := by
  induction p generalizing s tr with
  | done r₀ =>
      cases r₀ with
      | ok a =>
          simp only [bind_done_ok, outcome_done_iff]
          constructor
          · intro h
            exact .inr ⟨a, s, [], tr, rfl, ⟨rfl, rfl, rfl⟩, h⟩
          · rintro (⟨e, _, _, he, _⟩ | ⟨a', s₁, tr₁, tr₂, rfl, ⟨rfl, ha, rfl⟩, h⟩)
            · cases he
            · cases ha
              exact h
      | error e =>
          simp only [bind_done_error, outcome_done_iff]
          constructor
          · rintro ⟨rfl, rfl, rfl⟩
            exact .inl ⟨e, rfl, rfl, rfl, rfl⟩
          · rintro (⟨e', rfl, rfl, he, rfl⟩ | ⟨a, s₁, tr₁, tr₂, _, ⟨_, ha, _⟩, _⟩)
            · cases he
              exact ⟨rfl, rfl, rfl⟩
            · cases ha
  | stmt q k ih =>
      simp only [bind_stmt, outcome_stmt_iff, ih]
      constructor
      · rintro (⟨a, s₁, tr', hx, rfl, ⟨e, rfl, h⟩ | ⟨b, s₂, tr₁, tr₂, rfl, h₁, h₂⟩⟩ |
          ⟨e₀, tr', hx, rfl, ⟨e, rfl, h⟩ | ⟨b, s₂, tr₁, tr₂, rfl, h₁, h₂⟩⟩)
        · exact .inl ⟨e, rfl, .inl ⟨a, s₁, tr', hx, rfl, h⟩⟩
        · exact .inr ⟨b, s₂, _, tr₂, rfl, .inl ⟨a, s₁, tr₁, hx, rfl, h₁⟩, h₂⟩
        · exact .inl ⟨e, rfl, .inr ⟨e₀, tr', hx, rfl, h⟩⟩
        · exact .inr ⟨b, s₂, _, tr₂, rfl, .inr ⟨e₀, tr₁, hx, rfl, h₁⟩, h₂⟩
      · rintro (⟨e, rfl, ⟨a, s₁, tr', hx, rfl, h⟩ | ⟨e₀, tr', hx, rfl, h⟩⟩ |
          ⟨b, s₂, tr₁, tr₂, rfl, ⟨a, s₁, tr', hx, rfl, h⟩ | ⟨e₀, tr', hx, rfl, h⟩, h₂⟩)
        · exact .inl ⟨a, s₁, tr', hx, rfl, .inl ⟨e, rfl, h⟩⟩
        · exact .inr ⟨e₀, tr', hx, rfl, .inl ⟨e, rfl, h⟩⟩
        · exact .inl ⟨a, s₁, tr' ++ tr₂, hx, rfl, .inr ⟨b, s₂, tr', tr₂, rfl, h, h₂⟩⟩
        · exact .inr ⟨e₀, tr' ++ tr₂, hx, rfl, .inr ⟨b, s₂, tr', tr₂, rfl, h, h₂⟩⟩

theorem outcome_mapErr_iff {g : ε → ε'} {p : Prog I ε α} {s s' : σ}
    {tr : List I.Obs} {r : Except ε' α} :
    Outcome exec F (p.mapErr g) s tr r s' ↔
      ∃ r₀, r = r₀.mapError g ∧ Outcome exec F p s tr r₀ s' := by
  induction p generalizing s tr with
  | done r₀ =>
      simp only [mapErr_done, outcome_done_iff]
      constructor
      · rintro ⟨rfl, rfl, rfl⟩
        exact ⟨r₀, rfl, rfl, rfl, rfl⟩
      · rintro ⟨_, rfl, rfl, rfl, rfl⟩
        exact ⟨rfl, rfl, rfl⟩
  | stmt q k ih =>
      simp only [mapErr_stmt, outcome_stmt_iff, ih]
      constructor
      · rintro (⟨a, s₁, tr', hx, rfl, r₀, rfl, h⟩ | ⟨e, tr', hx, rfl, r₀, rfl, h⟩)
        · exact ⟨r₀, rfl, .inl ⟨a, s₁, tr', hx, rfl, h⟩⟩
        · exact ⟨r₀, rfl, .inr ⟨e, tr', hx, rfl, h⟩⟩
      · rintro ⟨r₀, rfl, ⟨a, s₁, tr', hx, rfl, h⟩ | ⟨e, tr', hx, rfl, h⟩⟩
        · exact .inl ⟨a, s₁, tr', hx, rfl, r₀, rfl, h⟩
        · exact .inr ⟨e, tr', hx, rfl, r₀, rfl, h⟩

/-- An attempt goes as the program does and returns what it ended with. -/
theorem outcome_attempt_iff {p : Prog I ε α} {s s' : σ} {tr : List I.Obs}
    {r : Except ε' (Except ε α)} :
    Outcome exec F p.attempt s tr r s' ↔ ∃ r₀, r = .ok r₀ ∧ Outcome exec F p s tr r₀ s' := by
  induction p generalizing s tr with
  | done r₀ =>
      simp only [attempt, outcome_done_iff]
      constructor
      · intro h
        obtain ⟨htr, hr, hs⟩ := h
        exact ⟨r₀, hr, htr, rfl, hs⟩
      · intro h
        obtain ⟨_, hr, htr, rfl, hs⟩ := h
        exact ⟨htr, hr, hs⟩
  | stmt q k ih =>
      simp only [attempt, outcome_stmt_iff, ih]
      constructor
      · rintro (⟨a, s₁, tr', hx, rfl, r₀, rfl, h⟩ | ⟨e, tr', hx, rfl, r₀, rfl, h⟩)
        · exact ⟨r₀, rfl, .inl ⟨a, s₁, tr', hx, rfl, h⟩⟩
        · exact ⟨r₀, rfl, .inr ⟨e, tr', hx, rfl, h⟩⟩
      · rintro ⟨r₀, rfl, ⟨a, s₁, tr', hx, rfl, h⟩ | ⟨e, tr', hx, rfl, h⟩⟩
        · exact .inl ⟨a, s₁, tr', hx, rfl, r₀, rfl, h⟩
        · exact .inr ⟨e, tr', hx, rfl, r₀, rfl, h⟩

/-- **Invariants of an outcome**: what every answered statement keeps, the program
keeps, however it ends. -/
theorem Outcome.keeps {P : σ → Prop} (hok : ∀ q a s s', exec q s = .ok (a, s') → P s → P s')
    {p : Prog I ε α} {s s' : σ} {tr : List I.Obs} {r : Except ε α}
    (h : Outcome exec F p s tr r s') (hs : P s) : P s' := by
  induction h with
  | done => exact hs
  | ok hx _ ih => exact ih (hok _ _ _ _ hx hs)
  | fail _ _ ih => exact ih hs

/-- An outcome stays one when more failures are allowed. -/
theorem Outcome.mono {F' : Failures I σ} {p : Prog I ε α} {s s' : σ}
    {tr : List I.Obs} {r : Except ε α} (h : Outcome exec F p s tr r s')
    (hF : ∀ q s e, F q s e → F' q s e) : Outcome exec F' p s tr r s' := by
  induction h with
  | done => exact .done
  | ok hx _ ih => exact .ok hx ih
  | fail hx _ ih => exact .fail (hF _ _ _ hx) ih

/-! ## Inside an outcome -/

/-- The store after the answered statements of a trace. -/
def stateAfter (exec : I.Handler σ) : List I.Obs → σ → σ
  | [], s => s
  | ⟨_, .error _⟩ :: tr, s => stateAfter exec tr s
  | ⟨q, .ok _⟩ :: tr, s =>
    match exec q s with
    | .ok (_, s') => stateAfter exec tr s'
    | .error _ => stateAfter exec tr s

/-- **A view inside an outcome**: what every answered statement does to a view of
the store, a first part of the trace does in order. -/
theorem Outcome.stateAfter_view {β : Type} (v : σ → β) (vstep : β → I.Obs → β)
    (hok : ∀ q a s s', exec q s = .ok (a, s') → v s' = vstep (v s) ⟨q, .ok a⟩)
    (hfail : ∀ q e b, vstep b ⟨q, .error e⟩ = b) {p : Prog I ε α} {s s' : σ}
    {issued rest : List I.Obs} {r : Except ε α}
    (h : Outcome exec F p s (issued ++ rest) r s') :
    v (stateAfter exec issued s) = issued.foldl vstep (v s) := by
  generalize htr : issued ++ rest = tr at h
  induction h generalizing issued with
  | done =>
      obtain ⟨rfl, _⟩ := List.append_eq_nil_iff.mp htr
      rfl
  | @ok q k s a s₁ tr r s₂ hx _ ih =>
      cases issued with
      | nil => rfl
      | cons o issued =>
          obtain ⟨rfl, htail⟩ := List.cons.inj htr
          rw [stateAfter, hx, List.foldl_cons, ← hok _ _ _ _ hx]
          exact ih htail
  | @fail q k s e tr r s₂ _ _ ih =>
      cases issued with
      | nil => rfl
      | cons o issued =>
          obtain ⟨rfl, htail⟩ := List.cons.inj htr
          rw [stateAfter, List.foldl_cons, hfail]
          exact ih htail

/-! ## What a program may end with -/

/-- Some outcome ends with `r` in the state `s'`. -/
def Ends (exec : I.Handler σ) (F : Failures I σ) (p : Prog I ε α) (s : σ) (r : Except ε α)
    (s' : σ) : Prop :=
  ∃ tr, Outcome exec F p s tr r s'

theorem ends_done_iff {r r' : Except ε α} {s s' : σ} :
    Ends exec F (.done r) s r' s' ↔ r' = r ∧ s' = s := by
  constructor
  · intro h
    obtain ⟨tr, h⟩ := h
    exact (outcome_done_iff.mp h).2
  · intro h
    obtain ⟨hr, hs⟩ := h
    exact ⟨[], outcome_done_iff.mpr ⟨rfl, hr, hs⟩⟩

theorem ends_stmt_iff {q : I.Stmt} {k : I.Answer q → Prog I ε α} {s s' : σ} {r : Except ε α} :
    Ends exec F (.stmt q k) s r s' ↔
      (∃ a s₁, exec q s = .ok (a, s₁) ∧ Ends exec F (k (.ok a)) s₁ r s') ∨
      ∃ e, F q s e ∧ Ends exec F (k (.error e)) s r s' := by
  constructor
  · intro h
    obtain ⟨tr, h⟩ := h
    rcases outcome_stmt_iff.mp h with ⟨a, s₁, tr', hx, _, h⟩ | ⟨e, tr', hF, _, h⟩
    · exact .inl ⟨a, s₁, hx, tr', h⟩
    · exact .inr ⟨e, hF, tr', h⟩
  · rintro (⟨a, s₁, hx, tr, h⟩ | ⟨e, hF, tr, h⟩)
    · exact ⟨_, .ok hx h⟩
    · exact ⟨_, .fail hF h⟩

/-- One program after the other. -/
theorem ends_bind_iff {p : Prog I ε α} {f : α → Prog I ε β} {s s' : σ} {r : Except ε β} :
    Ends exec F (p >>= f) s r s' ↔
      (∃ e, r = .error e ∧ Ends exec F p s (.error e) s') ∨
      ∃ a s₁, Ends exec F p s (.ok a) s₁ ∧ Ends exec F (f a) s₁ r s' := by
  constructor
  · intro h
    obtain ⟨tr, h⟩ := h
    rcases outcome_bind_iff.mp h with ⟨e, hr, h⟩ | ⟨a, s₁, tr₁, tr₂, _, h₁, h₂⟩
    · exact .inl ⟨e, hr, tr, h⟩
    · exact .inr ⟨a, s₁, ⟨tr₁, h₁⟩, tr₂, h₂⟩
  · rintro (⟨e, hr, tr, h⟩ | ⟨a, s₁, ⟨tr₁, h₁⟩, tr₂, h₂⟩)
    · exact ⟨tr, outcome_bind_iff.mpr (.inl ⟨e, hr, h⟩)⟩
    · exact ⟨_, outcome_bind_iff.mpr (.inr ⟨a, s₁, tr₁, tr₂, rfl, h₁, h₂⟩)⟩

/-- A step without a statement. -/
theorem ends_done_bind_iff {x : Except ε α} {f : α → Prog I ε β} {s s' : σ} {r : Except ε β} :
    Ends exec F (.done x >>= f) s r s' ↔
      (∃ e, x = .error e ∧ r = .error e ∧ s' = s) ∨
      ∃ a, x = .ok a ∧ Ends exec F (f a) s r s' := by
  cases x with
  | error e => simp [ends_done_iff]
  | ok a => simp

/-- **A statement and what follows**: it fails and the program ends, or it is
answered. -/
theorem ends_call_bind_iff {q : I.Stmt} {g : I.Err q → ε} {f : I.Res q → Prog I ε β}
    {s s' : σ} {r : Except ε β} :
    Ends exec F ((call q).mapErr g >>= f) s r s' ↔
      (∃ e, F q s e ∧ r = .error (g e) ∧ s' = s) ∨
      ∃ a s₁, exec q s = .ok (a, s₁) ∧ Ends exec F (f a) s₁ r s' := by
  have hstmt : ((call q).mapErr g >>= f) = .stmt q fun
      | .ok a => f a
      | .error e => .done (.error (g e)) := by
    show Prog.stmt _ _ = Prog.stmt _ _
    congr 1
    funext a
    cases a <;> rfl
  rw [hstmt]
  constructor
  · intro h
    obtain ⟨tr, h⟩ := h
    rcases outcome_stmt_iff.mp h with ⟨a, s₁, tr', hx, _, h⟩ | ⟨e, tr', hF, _, h⟩
    · exact .inr ⟨a, s₁, hx, tr', h⟩
    · obtain ⟨_, hr, hs⟩ := outcome_done_iff.mp h
      exact .inl ⟨e, hF, hr, hs⟩
  · rintro (⟨e, hF, rfl, rfl⟩ | ⟨a, s₁, hx, tr, h⟩)
    · exact ⟨_, .fail hF .done⟩
    · exact ⟨_, .ok hx h⟩

end Outcome

/-! ## The run is the outcome without outside failures -/

theorem outcome_run (exec : I.Handler σ) (p : Prog I ε α) (s : σ) :
    Outcome exec (ownFailures exec) p s (trace exec p s) (run exec p s).1
      (run exec p s).2 := by
  induction p generalizing s with
  | done r => exact .done
  | stmt q k ih =>
      cases hx : exec q s with
      | ok as =>
          obtain ⟨a, s₁⟩ := as
          simpa only [run, trace, hx] using Outcome.ok hx (ih (.ok a) s₁)
      | error e =>
          simpa only [run, trace, hx] using Outcome.fail hx (ih (.error e) s)

theorem ends_of_run {exec : I.Handler σ} {p : Prog I ε α} {s s' : σ} {r : Except ε α}
    (h : run exec p s = (r, s')) : Ends exec (ownFailures exec) p s r s' := by
  have hout := outcome_run exec p s
  rw [h] at hout
  exact ⟨_, hout⟩

theorem Outcome.run_eq {exec : I.Handler σ} {p : Prog I ε α} {s s' : σ}
    {tr : List I.Obs} {r : Except ε α}
    (h : Outcome exec (ownFailures exec) p s tr r s') :
    run exec p s = (r, s') ∧ trace exec p s = tr := by
  induction h with
  | done => exact ⟨rfl, rfl⟩
  | ok hx _ ih => simp only [run, trace, hx, ih, and_self]
  | fail hx _ ih =>
      rw [ownFailures] at hx
      simp only [run, trace, hx, ih, and_self]

/-- Without outside failures a program has one end. -/
theorem Ends.unique {exec : I.Handler σ} {p : Prog I ε α} {s s₁ s₂ : σ} {r₁ r₂ : Except ε α}
    (h₁ : Ends exec (ownFailures exec) p s r₁ s₁) (h₂ : Ends exec (ownFailures exec) p s r₂ s₂) :
    r₁ = r₂ ∧ s₁ = s₂ := by
  obtain ⟨_, h₁⟩ := h₁
  obtain ⟨_, h₂⟩ := h₂
  exact Prod.mk.inj (h₁.run_eq.1.symm.trans h₂.run_eq.1)

/-! ## The run, part by part -/

@[simp] theorem run_done (exec : I.Handler σ) (r : Except ε α) (s : σ) :
    run exec (.done r) s = (r, s) := rfl

theorem run_bind (exec : I.Handler σ) (p : Prog I ε α) (f : α → Prog I ε β) (s : σ) :
    run exec (p >>= f) s =
      match run exec p s with
      | (.ok a, s') => run exec (f a) s'
      | (.error e, s') => (.error e, s') := by
  induction p generalizing s with
  | done r => cases r <;> rfl
  | stmt q k ih =>
      rw [bind_stmt, run, run]
      cases hx : exec q s with
      | ok as => exact ih (.ok as.1) as.2
      | error e => exact ih (.error e) s

theorem run_mapErr (exec : I.Handler σ) (g : ε → ε') (p : Prog I ε α) (s : σ) :
    run exec (p.mapErr g) s = ((run exec p s).1.mapError g, (run exec p s).2) := by
  induction p generalizing s with
  | done r => rfl
  | stmt q k ih =>
      rw [mapErr_stmt, run, run]
      cases hx : exec q s with
      | ok as => exact ih (.ok as.1) as.2
      | error e => exact ih (.error e) s

theorem run_attempt (exec : I.Handler σ) (p : Prog I ε α) (s : σ) :
    run exec (p.attempt : Prog I ε' (Except ε α)) s = (.ok (run exec p s).1, (run exec p s).2) := by
  induction p generalizing s with
  | done r => rfl
  | stmt q k ih =>
      rw [attempt, run, run]
      cases hx : exec q s with
      | ok as => exact ih (.ok as.1) as.2
      | error e => exact ih (.error e) s

theorem run_call_ok {exec : I.Handler σ} {q : I.Stmt} {a : I.Res q} {s s' : σ}
    (h : exec q s = .ok (a, s')) : run exec (call q) s = (.ok a, s') := by
  simp only [call_eq, run, h]

theorem run_call_error {exec : I.Handler σ} {q : I.Stmt} {e : I.Err q} {s : σ}
    (h : exec q s = .error e) : run exec (call q) s = (.error e, s) := by
  simp only [call_eq, run, h]

end Prog
