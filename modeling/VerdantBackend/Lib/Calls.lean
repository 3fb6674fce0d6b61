import Mathlib.Data.List.Infix
import VerdantBackend.Lib.Prog

/-!
# Calls one after another

A call does not have the store to itself: the store may change between its statements
by a relation `env` (time passes, others do things that do not concern it). Calls that
have ended make a trail, a run of a labelled step relation with the labels it went
through, the latest first; what a label says was so when it happened is found again by
splitting the trail there.
-/

namespace Prog

variable {I : Interface} {ε α β σ : Type}

/-! ## A call beside an environment -/

/-- `Outcome` when the store may change by `env` before each statement. -/
inductive OutcomeBeside (exec : I.Handler σ) (F : Failures I σ) (env : σ → σ → Prop) :
    Prog I ε α → σ → List I.Obs → Except ε α → σ → Prop where
  | done {r s} : OutcomeBeside exec F env (.done r) s [] r s
  | ok {q k s s₀ a s₁ tr r s₂} : env s s₀ → exec q s₀ = .ok (a, s₁) →
      OutcomeBeside exec F env (k (.ok a)) s₁ tr r s₂ →
      OutcomeBeside exec F env (.stmt q k) s (⟨q, .ok a⟩ :: tr) r s₂
  | fail {q k s s₀ e tr r s₂} : env s s₀ → F q s₀ e →
      OutcomeBeside exec F env (k (.error e)) s₀ tr r s₂ →
      OutcomeBeside exec F env (.stmt q k) s (⟨q, .error e⟩ :: tr) r s₂

variable {exec : I.Handler σ} {F : Failures I σ} {env : σ → σ → Prop} {s s' : σ}
  {tr : List I.Obs}

/-- A call that is left alone. -/
theorem Outcome.beside (hrefl : ∀ s, env s s) {p : Prog I ε α} {r : Except ε α}
    (h : Outcome exec F p s tr r s') : OutcomeBeside exec F env p s tr r s' := by
  induction h with
  | done => exact .done
  | ok hx _ ih => exact .ok (hrefl _) hx ih
  | fail hF _ ih => exact .fail (hrefl _) hF ih

/-- A call that is left alone by the store and by everybody else. -/
theorem beside_of_run (hrefl : ∀ s, env s s) {p : Prog I ε α} {r : Except ε α}
    (h : run exec p s = (r, s')) :
    OutcomeBeside exec (ownFailures exec) env p s (trace exec p s) r s' := by
  have hout := outcome_run exec p s
  rw [h] at hout
  exact hout.beside hrefl

theorem beside_done_iff {r r' : Except ε α} :
    OutcomeBeside exec F env (.done r) s tr r' s' ↔ tr = [] ∧ r' = r ∧ s' = s := by
  constructor
  · intro h
    cases h
    exact ⟨rfl, rfl, rfl⟩
  · rintro ⟨rfl, rfl, rfl⟩
    exact .done

/-- A step without a statement. -/
theorem beside_done_bind_iff {x : Except ε α} {f : α → Prog I ε β} {r : Except ε β} :
    OutcomeBeside exec F env (.done x >>= f) s tr r s' ↔
      (∃ e, x = .error e ∧ tr = [] ∧ r = .error e ∧ s' = s) ∨
      ∃ a, x = .ok a ∧ OutcomeBeside exec F env (f a) s tr r s' := by
  cases x with
  | error e => simp [beside_done_iff]
  | ok a => simp

/-- **A statement and what follows**, after the store may have changed. -/
theorem beside_call_bind_iff {q : I.Stmt} {g : I.Err q → ε} {f : I.Res q → Prog I ε β}
    {r : Except ε β} :
    OutcomeBeside exec F env ((call q).mapErr g >>= f) s tr r s' ↔
      ∃ s₀, env s s₀ ∧
        ((∃ e, F q s₀ e ∧ tr = [⟨q, .error e⟩] ∧ r = .error (g e) ∧ s' = s₀) ∨
        ∃ a s₁ tr₁, exec q s₀ = .ok (a, s₁) ∧ tr = ⟨q, .ok a⟩ :: tr₁ ∧
          OutcomeBeside exec F env (f a) s₁ tr₁ r s') := by
  have hstmt : ((call q).mapErr g >>= f) = .stmt q fun
      | .ok a => f a
      | .error e => .done (.error (g e)) := by
    show Prog.stmt _ _ = Prog.stmt _ _
    congr 1
    funext a
    cases a <;> rfl
  rw [hstmt]
  constructor
  · intro h
    cases h with
    | ok henv hx h => exact ⟨_, henv, .inr ⟨_, _, _, hx, rfl, h⟩⟩
    | fail henv hF h =>
        obtain ⟨rfl, rfl, rfl⟩ := beside_done_iff.mp h
        exact ⟨_, henv, .inl ⟨_, hF, rfl, rfl, rfl⟩⟩
  · rintro ⟨s₀, henv, ⟨e, hF, rfl, rfl, rfl⟩ | ⟨a, s₁, tr₁, hx, rfl, h⟩⟩
    · exact .fail henv hF .done
    · exact .ok henv hx h

end Prog

/-! ## Trails -/

/-- `Trail Step s₀ past s`: steps labelled `past`, the latest first, lead from `s₀`
to `s`. -/
inductive Trail {σ ε : Type*} (Step : σ → ε → σ → Prop) (s₀ : σ) : List ε → σ → Prop where
  | start : Trail Step s₀ [] s₀
  | step {past s e s'} : Trail Step s₀ past s → Step s e s' → Trail Step s₀ (e :: past) s'

namespace Trail

variable {σ ε : Type*} {Step : σ → ε → σ → Prop} {s₀ s : σ} {past : List ε}

/-- **Induction over a trail**: what holds at the start and is kept by every step
holds at the end. -/
theorem invariant {P : List ε → σ → Prop} (h : Trail Step s₀ past s) (hstart : P [] s₀)
    (hstep : ∀ past s e s', P past s → Step s e s' → P (e :: past) s') : P past s := by
  induction h with
  | start => exact hstart
  | step _ he ih => exact hstep _ _ _ _ ih he

/-- A trail split in two. -/
theorem split {later earlier : List ε} (h : Trail Step s₀ (later ++ earlier) s) :
    ∃ s₁, Trail Step s₀ earlier s₁ ∧ Trail Step s₁ later s := by
  induction later generalizing s with
  | nil => exact ⟨s, h, .start⟩
  | cons e later ih =>
      cases h with
      | step h he =>
          obtain ⟨s₁, h₁, h₂⟩ := ih h
          exact ⟨s₁, h₁, h₂.step he⟩

/-- The step that a label stands for. -/
theorem step_at {later earlier : List ε} {e : ε} (h : Trail Step s₀ (later ++ e :: earlier) s) :
    ∃ s₁ s₂, Trail Step s₀ earlier s₁ ∧ Step s₁ e s₂ ∧ Trail Step s₂ later s := by
  obtain ⟨s₂, h₁, h₂⟩ := h.split
  cases h₁ with
  | step h₁ he => exact ⟨_, s₂, h₁, he, h₂⟩

end Trail
