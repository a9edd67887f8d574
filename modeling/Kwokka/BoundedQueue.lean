import Kwokka.Window
import Mathlib.Data.List.Basic

/-! Bounded first-in first-out queues: what a queue answers to its calls, when an
implementation answers the same, and how the items lie in a circle of cells. -/

namespace BoundedQueue

variable {σ ι α β γ : Type*}

inductive Op (ι : Type*)
  | push (input : ι)
  | pop
deriving DecidableEq, Repr

inductive Answer (β γ : Type*)
  | pushed (answer : β)
  | popped (answer : γ)
deriving DecidableEq, Repr

/-- What a push carries in, and the words in which the two calls answer. -/
structure Interface (ι α β γ : Type*) where
  value : ι → α
  accepted : β
  refused : ι → β
  found : Option α → γ

def step (N : Nat) (I : Interface ι α β γ) (items : List α) : Op ι → Answer β γ × List α
  | .push input =>
    if items.length < N then (.pushed I.accepted, items ++ [I.value input])
    else (.pushed (I.refused input), items)
  | .pop => (.popped (I.found items.head?), items.tail)

structure Calls (σ ι β γ : Type*) where
  push : σ → ι → β × σ
  pop : σ → γ × σ

def Calls.step (c : Calls σ ι β γ) (s : σ) : Op ι → Answer β γ × σ
  | .push input => (.pushed (c.push s input).1, (c.push s input).2)
  | .pop => (.popped (c.pop s).1, (c.pop s).2)

def answers (step : σ → Op ι → Answer β γ × σ) : σ → List (Op ι) → List (Answer β γ)
  | _, [] => []
  | s, op :: ops => (step s op).1 :: answers step (step s op).2 ops

structure Refines (N : Nat) (I : Interface ι α β γ) (c : Calls σ ι β γ) (R : σ → List α → Prop) :
    Prop where
  push : ∀ s items input, R s items → items.length < N →
    (c.push s input).1 = I.accepted ∧ R (c.push s input).2 (items ++ [I.value input])
  full : ∀ s items input, R s items → N ≤ items.length →
    (c.push s input).1 = I.refused input ∧ R (c.push s input).2 items
  pop : ∀ s items, R s items → (c.pop s).1 = I.found items.head? ∧ R (c.pop s).2 items.tail

variable {N : Nat} {I : Interface ι α β γ} {c : Calls σ ι β γ} {R : σ → List α → Prop} {s : σ}
  {items : List α}

theorem Refines.step (h : Refines N I c R) (hs : R s items) (op : Op ι) :
    (c.step s op).1 = (BoundedQueue.step N I items op).1 ∧
      R (c.step s op).2 (BoundedQueue.step N I items op).2 := by
  cases op with
  | push input =>
    simp only [Calls.step, BoundedQueue.step]
    split
    case isTrue hroom =>
      obtain ⟨hanswer, hnext⟩ := h.push s items input hs hroom
      exact ⟨by rw [hanswer], hnext⟩
    case isFalse hfull =>
      obtain ⟨hanswer, hnext⟩ := h.full s items input hs (Nat.le_of_not_lt hfull)
      exact ⟨by rw [hanswer], hnext⟩
  | pop =>
    obtain ⟨hanswer, hnext⟩ := h.pop s items hs
    exact ⟨congrArg Answer.popped hanswer, hnext⟩

theorem Refines.answers_eq (h : Refines N I c R) (hs : R s items) (ops : List (Op ι)) :
    answers c.step s ops = answers (BoundedQueue.step N I) items ops := by
  induction ops generalizing s items with
  | nil => rfl
  | cons op ops ih =>
    obtain ⟨hanswer, hnext⟩ := h.step hs op
    rw [answers, answers, hanswer, ih hnext]

/-- The items lie in cells `first`, `first + 1`, … of a circle of `N`. -/
structure Lays (N : Nat) (cells : Nat → Option α) (first : Nat) (items : List α) : Prop where
  room : items.length ≤ N
  cell : ∀ i v, items[i]? = some v → cells ((first + i) % N) = some v

namespace Lays

variable {cells cells' : Nat → Option α} {first : Nat} {v : α}

theorem nil (N : Nat) (cells : Nat → Option α) (first : Nat) : Lays N cells first [] :=
  ⟨Nat.zero_le N, by simp⟩

theorem push (h : Lays N cells first items) (hroom : items.length < N)
    (hnew : cells' ((first + items.length) % N) = some v)
    (hkeep : ∀ i x, i ≠ (first + items.length) % N → cells i = some x → cells' i = some x) :
    Lays N cells' first (items ++ [v]) := by
  refine ⟨by simp; omega, ?_⟩
  intro i x hi
  rcases Nat.lt_trichotomy i items.length with hlt | rfl | hgt
  · rw [List.getElem?_append_left hlt] at hi
    refine hkeep _ x ?_ (h.cell i x hi)
    intro heq
    have := Window.eq_of_mod_eq (Nat.le_add_right first i) (by omega) (by omega) (by omega) heq
    omega
  · rw [List.getElem?_concat_length] at hi
    cases hi
    exact hnew
  · rw [List.getElem?_eq_none (by simp; omega)] at hi
    cases hi

theorem head (h : Lays N cells first (v :: items)) : cells (first % N) = some v := h.cell 0 v rfl

theorem pop (h : Lays N cells first (v :: items))
    (hkeep : ∀ i x, i ≠ first % N → cells i = some x → cells' i = some x) :
    Lays N cells' (first + 1) items := by
  have hroom : items.length + 1 ≤ N := h.room
  refine ⟨by omega, ?_⟩
  intro i x hi
  have hlt := (List.getElem?_eq_some_iff.mp hi).1
  have hcell := h.cell (i + 1) x (by simpa using hi)
  rw [show first + (i + 1) = first + 1 + i by omega] at hcell
  refine hkeep _ x ?_ hcell
  intro heq
  have := Window.eq_of_mod_eq (show first ≤ first + 1 + i by omega) (by omega) (by omega) (by omega) heq
  omega

end Lays

end BoundedQueue
