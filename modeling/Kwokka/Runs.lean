import Mathlib.Data.List.Basic

/-! Runs of a step function over a list of events, and the rule that turns what
one step preserves into what every run preserves. -/

namespace Runs

variable {σ ε : Type*}

def run (step : σ → ε → σ) (s : σ) (es : List ε) : σ := es.foldl step s

def Meets (step : σ → ε → σ) (C : σ → ε → Prop) : σ → List ε → Prop
  | _, [] => True
  | s, e :: es => C s e ∧ Meets step C (step s e) es

instance decidableMeets (step : σ → ε → σ) (C : σ → ε → Prop) [∀ s e, Decidable (C s e)] :
    ∀ s es, Decidable (Meets step C s es)
  | _, [] => inferInstanceAs (Decidable True)
  | s, e :: es =>
    have := decidableMeets step C (step s e) es
    inferInstanceAs (Decidable (C s e ∧ Meets step C (step s e) es))

variable {step : σ → ε → σ} {C D : σ → ε → Prop} {s : σ} {es : List ε}

@[simp]
theorem run_nil : run step s [] = s := rfl

@[simp]
theorem run_cons {e : ε} : run step s (e :: es) = run step (step s e) es := rfl

theorem run_append {fs : List ε} : run step s (es ++ fs) = run step (run step s es) fs :=
  List.foldl_append

@[simp]
theorem meets_nil : Meets step C s [] := trivial

@[simp]
theorem meets_cons {e : ε} :
    Meets step C s (e :: es) ↔ C s e ∧ Meets step C (step s e) es := Iff.rfl

theorem meets_append {fs : List ε} :
    Meets step C s (es ++ fs) ↔ Meets step C s es ∧ Meets step C (run step s es) fs := by
  induction es generalizing s with
  | nil => simp
  | cons e es ih => simp [ih, and_assoc]

theorem meets_and : Meets step (fun s e => C s e ∧ D s e) s es ↔
    Meets step C s es ∧ Meets step D s es := by
  induction es generalizing s with
  | nil => simp
  | cons e es ih =>
    simp only [meets_cons, ih]
    exact and_and_and_comm

theorem Meets.invariant {Inv : σ → Prop} (hstep : ∀ s e, Inv s → C s e → Inv (step s e))
    (hc : Meets step C s es) (hs : Inv s) : Inv (run step s es) := by
  induction es generalizing s with
  | nil => exact hs
  | cons e es ih => exact ih hc.2 (hstep s e hs hc.1)

theorem Meets.of_invariant {Inv : σ → Prop} (hstep : ∀ s e, Inv s → C s e → Inv (step s e))
    (hD : ∀ s e, Inv s → C s e → D s e) (hc : Meets step C s es) (hs : Inv s) :
    Meets step D s es := by
  induction es generalizing s with
  | nil => trivial
  | cons e es ih => exact ⟨hD s e hs hc.1, ih hc.2 (hstep s e hs hc.1)⟩

theorem run_invariant {Inv : σ → Prop} (hstep : ∀ s e, Inv s → Inv (step s e)) (hs : Inv s)
    (es : List ε) : Inv (run step s es) := by
  induction es generalizing s with
  | nil => exact hs
  | cons e es ih => exact ih (hstep s e hs)

end Runs
