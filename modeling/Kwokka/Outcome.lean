import Mathlib.Algebra.GroupWithZero.Nat
import Mathlib.Logic.Basic

/-! The result of a function that returns a value, returns an error, or aborts
(an out-of-range access, an overflowing addition, a failed assertion), and the
rules for proving that one never aborts and what its value satisfies. -/

/-- 64-bit arithmetic: `none` is the overflow. -/
def checkedAdd (a b : Nat) : Option Nat := if a + b < 2 ^ 64 then some (a + b) else none

def checkedMul (a b : Nat) : Option Nat := if a * b < 2 ^ 64 then some (a * b) else none

theorem checkedAdd_of_lt {a b : Nat} (h : a + b < 2 ^ 64) : checkedAdd a b = some (a + b) :=
  if_pos h

theorem checkedMul_of_lt {a b : Nat} (h : a * b < 2 ^ 64) : checkedMul a b = some (a * b) :=
  if_pos h

theorem checkedAdd_eq_some {a b c : Nat} (h : checkedAdd a b = some c) : c = a + b := by
  unfold checkedAdd at h
  split at h
  · exact (Option.some.inj h).symm
  · exact absurd h (by simp)

theorem checkedMul_eq_some {a b c : Nat} (h : checkedMul a b = some c) : c = a * b := by
  unfold checkedMul at h
  split at h
  · exact (Option.some.inj h).symm
  · exact absurd h (by simp)

inductive Outcome (ε α : Type*) where
  | ok (value : α)
  | err (error : ε)
  | panic
deriving DecidableEq, Repr

namespace Outcome

variable {ε α β : Type*}

def bind : Outcome ε α → (α → Outcome ε β) → Outcome ε β
  | ok a, f => f a
  | err e, _ => err e
  | panic, _ => panic

instance : Monad (Outcome ε) where
  pure := ok
  bind := bind

def isOk : Outcome ε α → Bool
  | ok _ => true
  | _ => false

def toOption : Outcome ε α → Option α
  | ok a => some a
  | _ => none

/-- The `?` of an optional value: a missing value is the given error. -/
def ofOption (e : ε) : Option α → Outcome ε α
  | some a => ok a
  | none => err e

def expect : Option α → Outcome ε α
  | some a => ok a
  | none => panic

def require (e : ε) (c : Prop) [Decidable c] : Outcome ε Unit := if c then ok () else err e

@[simp]
theorem pure_eq (a : α) : (pure a : Outcome ε α) = ok a := rfl

@[simp]
theorem ok_bind {α β : Type _} (a : α) (f : α → Outcome ε β) : ((ok a : Outcome ε α) >>= f) = f a := rfl

@[simp]
theorem err_bind {α β : Type _} (e : ε) (f : α → Outcome ε β) :
    ((err e : Outcome ε α) >>= f) = err e := rfl

@[simp]
theorem panic_bind {α β : Type _} (f : α → Outcome ε β) :
    ((panic : Outcome ε α) >>= f) = panic := rfl

@[simp]
theorem ofOption_some (e : ε) (a : α) : ofOption e (some a) = ok a := rfl

@[simp]
theorem expect_some (a : α) : (expect (some a) : Outcome ε α) = ok a := rfl

@[simp]
theorem toOption_ok (a : α) : (ok a : Outcome ε α).toOption = some a := rfl

theorem bind_eq_ok {α β : Type _} {x : Outcome ε α} {f : α → Outcome ε β} {b : β} :
    (x >>= f) = ok b ↔ ∃ a, x = ok a ∧ f a = ok b := by
  cases x <;> simp

@[simp]
theorem bind_eq_panic {α β : Type _} {x : Outcome ε α} {f : α → Outcome ε β} :
    (x >>= f) = panic ↔ x = panic ∨ ∃ a, x = ok a ∧ f a = panic := by
  cases x <;> simp

@[simp]
theorem ofOption_ne_panic (e : ε) (o : Option α) : ofOption e o ≠ panic := by
  cases o <;> simp [ofOption]

theorem ofOption_eq_ok {e : ε} {o : Option α} {a : α} : ofOption e o = ok a ↔ o = some a := by
  cases o <;> simp [ofOption]

@[simp]
theorem require_ne_panic (e : ε) (c : Prop) [Decidable c] : require e c ≠ panic := by
  unfold require
  split <;> simp

theorem require_of {c : Prop} [Decidable c] (e : ε) (h : c) : require e c = ok () := if_pos h

theorem require_eq_ok {c : Prop} [Decidable c] {e : ε} : require e c = ok () ↔ c := by
  unfold require
  split <;> simp_all

/-- The computation does not abort, and a value it returns satisfies `P`. -/
def Ensures (x : Outcome ε α) (P : α → Prop) : Prop :=
  match x with
  | ok a => P a
  | err _ => True
  | panic => False

variable {x : Outcome ε α} {P : α → Prop}

namespace Ensures

theorem ne_panic (h : Ensures x P) : x ≠ panic := by
  intro hx
  rw [hx] at h
  exact h

theorem of_ok {a : α} (h : Ensures x P) (hx : x = ok a) : P a := by
  rw [hx] at h
  exact h

theorem mono {P Q : α → Prop} (h : Ensures x P) (hPQ : ∀ a, P a → Q a) :
    Ensures x Q := by
  cases x with
  | ok a => exact hPQ a h
  | err => trivial
  | panic => exact h

theorem bind {α β : Type _} {x : Outcome ε α} {f : α → Outcome ε β} {P : α → Prop} {Q : β → Prop}
    (h : Ensures x P) (hf : ∀ a, P a → Ensures (f a) Q) : Ensures (x >>= f) Q := by
  cases x with
  | ok a => exact hf a h
  | err => trivial
  | panic => exact h

theorem bind_of_ne_panic {α β : Type _} {x : Outcome ε α} {f : α → Outcome ε β} {Q : β → Prop}
    (hx : x ≠ Outcome.panic) (hf : ∀ a, x = ok a → Ensures (f a) Q) : Ensures (x >>= f) Q := by
  cases x with
  | ok a => exact hf a rfl
  | err => trivial
  | panic => exact absurd rfl hx

theorem ofOption {o : Option α} (e : ε) (h : ∀ a, o = some a → P a) :
    Ensures (Outcome.ofOption e o) P := by
  cases o with
  | none => trivial
  | some a => exact h a rfl

theorem bind_ofOption {α β : Type _} {o : Option α} {e : ε} {f : α → Outcome ε β} {Q : β → Prop}
    (h : ∀ a, o = some a → Ensures (f a) Q) : Ensures (Outcome.ofOption e o >>= f) Q :=
  bind (ofOption e fun _ => id) h

theorem require {c : Prop} [Decidable c] (e : ε) : Ensures (Outcome.require e c) fun _ => c := by
  unfold Outcome.require
  split
  · assumption
  · trivial

theorem forM {β : Type _} {l : List β} {f : β → Outcome ε PUnit} {Q : β → Prop}
    (h : ∀ b ∈ l, Ensures (f b) fun _ => Q b) : Ensures (l.forM f) fun _ => ∀ b ∈ l, Q b := by
  induction l with
  | nil =>
    intro b hb
    cases hb
  | cons b l ih =>
    have hb := h b List.mem_cons_self
    have hl := ih fun c hc => h c (List.mem_cons_of_mem _ hc)
    refine hb.bind fun _ hQ => hl.mono fun _ hrest => ?_
    intro c hc
    rcases List.mem_cons.mp hc with rfl | hc
    · exact hQ
    · exact hrest c hc

theorem foldlM {α β : Type _} {l : List β} {f : α → β → Outcome ε α} {I : α → Prop} {init : α}
    (hinit : I init) (h : ∀ a, ∀ b ∈ l, I a → Ensures (f a b) I) : Ensures (l.foldlM f init) I := by
  induction l generalizing init with
  | nil => exact hinit
  | cons b l ih =>
    refine (h init b List.mem_cons_self hinit).bind fun a ha => ?_
    exact ih ha fun a' b' hb' => h a' b' (List.mem_cons_of_mem _ hb')

end Ensures

theorem forM_eq_ok {β : Type _} {l : List β} {f : β → Outcome ε PUnit} :
    l.forM f = ok PUnit.unit ↔ ∀ b ∈ l, f b = ok PUnit.unit := by
  induction l with
  | nil => simp only [List.not_mem_nil, false_imp_iff, implies_true, iff_true]; rfl
  | cons b l ih =>
    change (f b >>= fun _ => l.forM f) = _ ↔ _
    rw [bind_eq_ok, List.forall_mem_cons, ih]
    constructor
    · intro h
      obtain ⟨_, hb, hl⟩ := h
      exact ⟨hb, hl⟩
    · intro h
      exact ⟨_, h.1, h.2⟩

theorem foldlM_returns {α β : Type _} {l : List β} {f : α → β → Outcome ε α} {I : α → Prop} {init : α}
    (hinit : I init) (h : ∀ a, ∀ b ∈ l, I a → ∃ r, f a b = ok r ∧ I r) :
    ∃ r, l.foldlM f init = ok r ∧ I r := by
  induction l generalizing init with
  | nil => exact ⟨init, rfl, hinit⟩
  | cons b l ih =>
    obtain ⟨a, ha, hI⟩ := h init b List.mem_cons_self hinit
    rw [List.foldlM_cons, ha, ok_bind]
    exact ih hI fun a' b' hb' => h a' b' (List.mem_cons_of_mem _ hb')

theorem foldlM_add {β : Type} {l : List β} {step : Nat → β → Outcome ε Nat} {f : β → Nat}
    (hstep : ∀ acc b r, step acc b = ok r → r = acc + f b) {init r : Nat}
    (h : l.foldlM step init = ok r) : r = init + (l.map f).sum := by
  induction l generalizing init with
  | nil =>
    obtain rfl : init = r := by simpa using h
    rfl
  | cons b l ih =>
    obtain ⟨acc, hacc, h⟩ := bind_eq_ok.mp h
    rw [ih h, hstep init b acc hacc, List.map_cons, List.sum_cons, Nat.add_assoc]

end Outcome
