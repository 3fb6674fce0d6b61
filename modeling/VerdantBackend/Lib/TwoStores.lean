import VerdantBackend.Lib.Prog

/-!
# Two stores

A program may issue statements to two stores. A part of it that uses only one of
them ends as it would alone, and leaves the other store as it is.
-/

/-- The statements of two stores. -/
abbrev Interface.sum (I J : Interface) : Interface where
  Stmt := I.Stmt ⊕ J.Stmt
  Err
    | .inl q => I.Err q
    | .inr q => J.Err q
  Res
    | .inl q => I.Res q
    | .inr q => J.Res q

/-- Each store executes its own statements. -/
def Interface.Handler.sum {I J : Interface} {σ τ : Type} (exec₁ : I.Handler σ)
    (exec₂ : J.Handler τ) : (I.sum J).Handler (σ × τ)
  | .inl q, (s, t) => (exec₁ q s).map fun (a, s') => (a, (s', t))
  | .inr q, (s, t) => (exec₂ q t).map fun (a, t') => (a, (s, t'))

namespace Prog

variable {I J : Interface} {ε α σ τ : Type}

def Failures.sum (F : Failures I σ) (G : Failures J τ) : Failures (I.sum J) (σ × τ)
  | .inl q, (s, _) => F q s
  | .inr q, (_, t) => G q t

/-- A program of the first store. -/
def inl : Prog I ε α → Prog (I.sum J) ε α
  | .done r => .done r
  | .stmt q k => .stmt (.inl q) fun a => (k a).inl

/-- A program of the second store. -/
def inr : Prog J ε α → Prog (I.sum J) ε α
  | .done r => .done r
  | .stmt q k => .stmt (.inr q) fun a => (k a).inr

variable {exec₁ : I.Handler σ} {exec₂ : J.Handler τ} {F : Failures I σ} {G : Failures J τ}

theorem ends_inl_iff {p : Prog I ε α} {s : σ} {t : τ} {r : Except ε α} {u : σ × τ} :
    Ends (exec₁.sum exec₂) (Failures.sum F G) p.inl (s, t) r u ↔
      ∃ s', Ends exec₁ F p s r s' ∧ u = (s', t) := by
  induction p generalizing s with
  | done r₀ =>
      rw [inl, ends_done_iff]
      simp only [ends_done_iff]
      constructor
      · intro h
        obtain ⟨hr, hu⟩ := h
        exact ⟨s, ⟨hr, rfl⟩, hu⟩
      · intro h
        obtain ⟨s', ⟨hr, hs⟩, hu⟩ := h
        exact ⟨hr, by rw [hu, hs]⟩
  | stmt q k ih =>
      refine ends_stmt_iff.trans ?_
      simp only [ends_stmt_iff]
      constructor
      · rintro (⟨a, ⟨s₁, t₁⟩, hx, h⟩ | ⟨e, hF, h⟩)
        · obtain ⟨s₂, hx₂, heq⟩ := Interface.answered_part_iff (f := fun s' => (s', t)).mp hx
          cases heq
          obtain ⟨s', h, hu⟩ := (ih (.ok a)).mp h
          exact ⟨s', .inl ⟨a, _, hx₂, h⟩, hu⟩
        · obtain ⟨s', h, hu⟩ := (ih (.error e)).mp h
          exact ⟨s', .inr ⟨e, hF, h⟩, hu⟩
      · rintro ⟨s', ⟨a, s₁, hx, h⟩ | ⟨e, hF, h⟩, hu⟩
        · refine .inl ⟨a, (s₁, t), ?_, (ih (.ok a)).mpr ⟨s', h, hu⟩⟩
          exact Interface.answered_part_iff (f := fun s' => (s', t)).mpr ⟨s₁, hx, rfl⟩
        · exact .inr ⟨e, hF, (ih (.error e)).mpr ⟨s', h, hu⟩⟩

theorem ends_inr_iff {p : Prog J ε α} {s : σ} {t : τ} {r : Except ε α} {u : σ × τ} :
    Ends (exec₁.sum exec₂) (Failures.sum F G) p.inr (s, t) r u ↔
      ∃ t', Ends exec₂ G p t r t' ∧ u = (s, t') := by
  induction p generalizing t with
  | done r₀ =>
      rw [inr, ends_done_iff]
      simp only [ends_done_iff]
      constructor
      · intro h
        obtain ⟨hr, hu⟩ := h
        exact ⟨t, ⟨hr, rfl⟩, hu⟩
      · intro h
        obtain ⟨t', ⟨hr, ht⟩, hu⟩ := h
        exact ⟨hr, by rw [hu, ht]⟩
  | stmt q k ih =>
      refine ends_stmt_iff.trans ?_
      simp only [ends_stmt_iff]
      constructor
      · rintro (⟨a, ⟨s₁, t₁⟩, hx, h⟩ | ⟨e, hF, h⟩)
        · obtain ⟨t₂, hx₂, heq⟩ := Interface.answered_part_iff (f := fun t' => (s, t')).mp hx
          cases heq
          obtain ⟨t', h, hu⟩ := (ih (.ok a)).mp h
          exact ⟨t', .inl ⟨a, _, hx₂, h⟩, hu⟩
        · obtain ⟨t', h, hu⟩ := (ih (.error e)).mp h
          exact ⟨t', .inr ⟨e, hF, h⟩, hu⟩
      · rintro ⟨t', ⟨a, t₁, hx, h⟩ | ⟨e, hF, h⟩, hu⟩
        · refine .inl ⟨a, (s, t₁), ?_, (ih (.ok a)).mpr ⟨t', h, hu⟩⟩
          exact Interface.answered_part_iff (f := fun t' => (s, t')).mpr ⟨t₁, hx, rfl⟩
        · exact .inr ⟨e, hF, (ih (.error e)).mpr ⟨t', h, hu⟩⟩

theorem Ends.inl {p : Prog I ε α} {s s' : σ} {r : Except ε α} (h : Ends exec₁ F p s r s') (t : τ) :
    Ends (exec₁.sum exec₂) (Failures.sum F G) p.inl (s, t) r (s', t) :=
  ends_inl_iff.mpr ⟨s', h, rfl⟩

theorem Ends.inr {p : Prog J ε α} {t t' : τ} {r : Except ε α} (h : Ends exec₂ G p t r t') (s : σ) :
    Ends (exec₁.sum exec₂) (Failures.sum F G) p.inr (s, t) r (s, t') :=
  ends_inr_iff.mpr ⟨t', h, rfl⟩

end Prog
