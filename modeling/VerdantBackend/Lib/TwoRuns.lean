import VerdantBackend.Lib.Prog

/-!
# Two runs of one program

A program that issues only statements of a certain kind runs alike from two
stores when every such statement gets the same answer from both and leaves them
related. `Issues` says which statements a program issues, as long as the answers
are what is assumed of them; it composes like the program does.
-/

namespace Prog

variable {I : Interface} {ε ε' α β σ τ : Type}

/-- Under answers that meet `Post`, `p` issues only statements of `Q` and returns
only values of `R`. -/
def Issues (Q : I.Stmt → Prop) (Post : (q : I.Stmt) → I.Res q → Prop) (R : α → Prop) :
    Prog I ε α → Prop
  | .done (.ok a) => R a
  | .done (.error _) => True
  | .stmt q k =>
    Q q ∧ (∀ a, Post q a → Issues Q Post R (k (.ok a))) ∧ ∀ e, Issues Q Post R (k (.error e))

variable {Q : I.Stmt → Prop} {Post : (q : I.Stmt) → I.Res q → Prop} {R : α → Prop}

theorem issues_call {q : I.Stmt} (h : Q q) : Issues Q Post (Post q) (call q) :=
  ⟨h, fun _ ha => ha, fun _ => trivial⟩

theorem issues_done {r : Except ε α} (h : ∀ a, r = .ok a → R a) :
    Issues Q Post R (.done r : Prog I ε α) := by
  cases r with
  | ok a => exact h a rfl
  | error e => trivial

theorem Issues.mapErr {p : Prog I ε α} (h : Issues Q Post R p) (g : ε → ε') :
    Issues Q Post R (p.mapErr g) := by
  induction p with
  | done r => cases r <;> exact h
  | stmt q k ih => exact ⟨h.1, fun a ha => ih _ (h.2.1 a ha), fun e => ih _ (h.2.2 e)⟩

theorem Issues.bind {S : β → Prop} {p : Prog I ε α} (h : Issues Q Post R p)
    {f : α → Prog I ε β} (hf : ∀ a, R a → Issues Q Post S (f a)) :
    Issues Q Post S (p >>= f) := by
  induction p with
  | done r =>
      cases r with
      | ok a => exact hf a h
      | error e => trivial
  | stmt q k ih => exact ⟨h.1, fun a ha => ih _ (h.2.1 a ha), fun e => ih _ (h.2.2 e)⟩

theorem Issues.attempt {p : Prog I ε α} (h : Issues Q Post R p) :
    Issues Q Post (fun _ => True) (p.attempt : Prog I ε' (Except ε α)) := by
  induction p with
  | done r => trivial
  | stmt q k ih => exact ⟨h.1, fun a ha => ih _ (h.2.1 a ha), fun e => ih _ (h.2.2 e)⟩

/-- **Two stores that are one**: where every statement of `Q` is executed alike, a
program that issues no other goes alike, however it ends. -/
theorem Issues.outcome_same {exec exec' : I.Handler σ} {F F' : Failures I σ} {W : σ → Prop}
    (hexec : ∀ q s, Q q → W s → exec q s = exec' q s)
    (hok : ∀ q s a s', Q q → W s → exec q s = .ok (a, s') → Post q a ∧ W s')
    (hF : ∀ q s e, Q q → W s → F q s e → F' q s e) {p : Prog I ε α} {s s' : σ}
    {tr : List I.Obs} {r : Except ε α} (ho : Outcome exec F p s tr r s')
    (h : Issues Q Post R p) (hs : W s) : Outcome exec' F' p s tr r s' ∧ W s' := by
  induction ho with
  | done => exact ⟨.done, hs⟩
  | @ok q k s a s₁ tr r s₂ hx _ ih =>
      obtain ⟨hpost, hs₁⟩ := hok q s a s₁ h.1 hs hx
      obtain ⟨hrest, hs₂⟩ := ih (h.2.1 a hpost) hs₁
      rw [hexec q s h.1 hs] at hx
      exact ⟨.ok hx hrest, hs₂⟩
  | @fail q k s e tr r s₂ hfail _ ih =>
      obtain ⟨hrest, hs₂⟩ := ih (h.2.2 e) hs
      exact ⟨.fail (hF q s e h.1 hs hfail) hrest, hs₂⟩

/-- Related stores answer every statement of `Q` alike and stay related. -/
def AnswerAlike (exec : I.Handler σ) (exec' : I.Handler τ) (Q : I.Stmt → Prop)
    (Post : (q : I.Stmt) → I.Res q → Prop) (W : σ → τ → Prop) : Prop :=
  ∀ q s t, Q q → W s t →
    (∃ a s' t', exec q s = .ok (a, s') ∧ exec' q t = .ok (a, t') ∧ Post q a ∧ W s' t') ∨
      ∃ e, exec q s = .error e ∧ exec' q t = .error e

/-- **Two runs**: they return the same and leave the stores related. -/
theorem Issues.run_alike {exec : I.Handler σ} {exec' : I.Handler τ} {W : σ → τ → Prop}
    (hexec : AnswerAlike exec exec' Q Post W) {p : Prog I ε α} (h : Issues Q Post R p)
    {s : σ} {t : τ} (hst : W s t) :
    (p.run exec s).1 = (p.run exec' t).1 ∧ W (p.run exec s).2 (p.run exec' t).2 := by
  induction p generalizing s t with
  | done r => exact ⟨rfl, hst⟩
  | stmt q k ih =>
      rcases hexec q s t h.1 hst with ⟨a, s', t', hs, ht, hpost, hst'⟩ | ⟨e, hs, ht⟩
      · simpa only [run, hs, ht] using ih (.ok a) (h.2.1 a hpost) hst'
      · simpa only [run, hs, ht] using ih (.error e) (h.2.2 e) hst

end Prog
