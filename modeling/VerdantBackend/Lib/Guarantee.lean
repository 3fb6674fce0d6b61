import VerdantBackend.Lib.Pool
import VerdantBackend.Lib.TwoRuns

/-!
# What the programs of a pool issue

Which statements a program issues may depend on what the store answered it, and
the store goes on changing. When the store moves along a preorder, and what an
answer promises stays promised later, a program that keeps to its statements under
every later store keeps to them among all others.
-/

namespace Prog

variable {I : Interface} {ε α : Type} {Q : I.Stmt → Prop}
  {Post : (q : I.Stmt) → I.Res q → Prop} {R : α → Prop}

theorem Issues.erase {p : Prog I ε α} (h : Issues Q Post R p) :
    Issues Q Post (fun _ => True) p.erase := by
  induction p with
  | done r => trivial
  | stmt q k ih => exact ⟨h.1, fun a ha => ih _ (h.2.1 a ha), fun e => ih _ (h.2.2 e)⟩

end Prog

namespace Pool

open Prog

variable {I : Interface} {σ ι : Type} [DecidableEq ι] {exec : I.Handler σ} {F : Failures I σ}
  {env : σ → σ → Prop} {G : List (Happening I ι) → Pool I ι σ → Happening I ι → Prop}
  {first : Pool I ι σ} {past : List (Happening I ι)} {pool : Pool I ι σ}

/-- What holds of the store, what program `i` may issue at it, and what it may take from
an answer. -/
structure Guarantee (I : Interface) (σ ι : Type) where
  inv : σ → Prop
  later : σ → σ → Prop
  allowed : σ → ι → I.Stmt → Prop
  promised : σ → (q : I.Stmt) → I.Res q → Prop

namespace Guarantee

variable (g : Guarantee I σ ι)

/-- Whatever the store comes to, what is left of every program keeps to the
guarantee. -/
def KeptBy (pool : Pool I ι σ) : Prop :=
  ∀ i p, pool.procs i = some p → ∀ s, g.later pool.store s →
    Issues (g.allowed s i) (g.promised s) (fun _ => True) p

/-- The store keeps its invariant and moves along the preorder, and an answer promises
what it says to every later store. -/
structure Sound (exec : I.Handler σ) (env : σ → σ → Prop) : Prop where
  refl : ∀ s, g.later s s
  trans : ∀ s₁ s₂ s₃, g.later s₁ s₂ → g.later s₂ s₃ → g.later s₁ s₃
  answers : ∀ i q s a s', g.inv s → g.allowed s i q → exec q s = .ok (a, s') →
    g.inv s' ∧ g.later s s'
  env : ∀ s s', g.inv s → env s s' → g.inv s' ∧ g.later s s'
  promises : ∀ i q s a s' s'', g.inv s → g.allowed s i q → exec q s = .ok (a, s') →
    g.later s' s'' → g.promised s'' q a

variable {g}

/-- **One step** keeps the guarantee, and a statement it answers was allowed. -/
theorem KeptBy.step (hg : g.Sound exec env) {h : Happening I ι} {pool' : Pool I ι σ}
    (hk : g.KeptBy pool) (hinv : g.inv pool.store) (hs : Step exec F env pool h pool') :
    g.KeptBy pool' ∧ g.inv pool'.store ∧ g.later pool.store pool'.store ∧
      ∀ i q a, h = .did i ⟨q, a⟩ → g.allowed pool.store i q := by
  -- what another program has left is as before, over a later store
  have hother : ∀ (s : σ) (i : ι) (p : Option (Prog I Unit Unit)), g.later pool.store s →
      (∀ p', p = some p' → ∀ s', g.later s s' →
        Issues (g.allowed s' i) (g.promised s') (fun _ => True) p') →
      g.KeptBy (pool.set s i p) := by
    intro s i p hlater hp j p' hj s' hs'
    by_cases hji : j = i
    · subst hji
      rw [set_procs_self] at hj
      exact hp p' hj s' hs'
    · rw [set_procs_ne pool s p hji] at hj
      exact hk j p' hj s' (hg.trans _ _ _ hlater hs')
  cases hs with
  | @ok i q k a s hp hx =>
      have hnow := hk i _ hp pool.store (hg.refl _)
      obtain ⟨hinv', hlater⟩ := hg.answers i _ _ _ _ hinv hnow.1 hx
      refine ⟨hother s i _ hlater ?_, hinv', hlater, ?_⟩
      · rintro p' ⟨⟩ s' hs'
        exact (hk i _ hp s' (hg.trans _ _ _ hlater hs')).2.1 a
          (hg.promises i q _ a s s' hinv hnow.1 hx hs')
      · rintro j q' a' ⟨⟩
        exact hnow.1
  | @fail i q k e hp hF =>
      refine ⟨hother pool.store i _ (hg.refl _) ?_, hinv, hg.refl _, ?_⟩
      · rintro p' ⟨⟩ s' hs'
        exact (hk i _ hp s' hs').2.2 e
      · rintro j q' a' ⟨⟩
        exact (hk i _ hp pool.store (hg.refl _)).1
  | @crash i =>
      refine ⟨hother pool.store i none (hg.refl _) ?_, hinv, hg.refl _, ?_⟩
      · rintro p' ⟨⟩
      · rintro j q' a' ⟨⟩
  | @outside s henv =>
      obtain ⟨hinv', hlater⟩ := hg.env _ _ hinv henv
      refine ⟨?_, hinv', hlater, ?_⟩
      · intro i p hp s' hs'
        exact hk i p hp s' (hg.trans _ _ _ hlater hs')
      · rintro j q' a' ⟨⟩

/-- **A run keeps to the guarantee**: the store keeps its invariant, and every statement
was allowed when it was issued. -/
theorem Sound.run (hg : g.Sound exec env) (hfirst : g.KeptBy first) (hinv : g.inv first.store)
    (hrun : Run exec F env G first past pool) :
    g.KeptBy pool ∧ g.inv pool.store ∧ ∀ i q a, Happening.did i ⟨q, a⟩ ∈ past →
      ∃ s, g.later s pool.store ∧ g.allowed s i q := by
  induction hrun with
  | start => exact ⟨hfirst, hinv, by simp⟩
  | step _ _ hs ih =>
      obtain ⟨hkept, hinv', hlater, hnow⟩ := ih.1.step hg ih.2.1 hs
      refine ⟨hkept, hinv', ?_⟩
      intro i q a hmem
      rcases List.mem_cons.mp hmem with heq | hmem
      · exact ⟨_, hlater, hnow i q a heq.symm⟩
      · obtain ⟨s, hs', hallowed⟩ := ih.2.2 i q a hmem
        exact ⟨s, hg.trans _ _ _ hs' hlater, hallowed⟩

end Guarantee

end Pool
