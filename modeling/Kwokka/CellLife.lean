import Kwokka.TaskHeader
import Mathlib.Data.List.Count
import Mathlib.Data.List.Induction

/-! The two halves of a task cell, the future and its output: which one is live, and
the accesses to them that are allowed in any order of polls, copies and drops. -/

namespace Kwokka

/-- `moveFuture` is the copy of the bytes into a transport. -/
inductive CellAccess
  | poll
  | write
  | moveFuture
  | dropFuture
  | moveOutput
  | dropOutput
deriving DecidableEq, Repr

inductive Life
  | future (copy : Nat)
  | both (copy : Nat)
  | output (copy : Nat)
  | gone
deriving DecidableEq, Repr

namespace Life

def after : Life → Nat × CellAccess → Option Life
  | future n, (m, .poll) => if m = n then some (future n) else none
  | future n, (m, .write) => if m = n then some (both n) else none
  | future n, (m, .moveFuture) => if m = n then some (future (n + 1)) else none
  | future n, (m, .dropFuture) => if m = n then some gone else none
  | both n, (m, .dropFuture) => if m = n then some (output n) else none
  | output n, (m, .moveOutput) => if m = n then some gone else none
  | output n, (m, .dropOutput) => if m = n then some gone else none
  | _, _ => none

def of (accesses : List (Nat × CellAccess)) : Option Life := accesses.foldlM after (future 0)

def hasFuture : Life → Bool
  | future _ | both _ => true
  | output _ | gone => false

def hasOutput : Life → Bool
  | both _ | output _ => true
  | future _ | gone => false

theorem of_append (xs ys : List (Nat × CellAccess)) :
    of (xs ++ ys) = (of xs).bind fun life => ys.foldlM after life := by
  rw [of, List.foldlM_append]
  rfl

end Life

def accessCount (access : CellAccess) (accesses : List (Nat × CellAccess)) : Nat :=
  accesses.countP (·.2 == access)

theorem accessCount_concat (access : CellAccess) (xs : List (Nat × CellAccess)) (x : Nat × CellAccess) :
    accessCount access (xs ++ [x]) = accessCount access xs + if x.2 == access then 1 else 0 := by
  rw [accessCount, List.countP_append, List.countP_singleton]
  rfl

structure Life.Counted (accesses : List (Nat × CellAccess)) (life : Life) : Prop where
  future : accessCount .dropFuture accesses + (if life.hasFuture then 1 else 0) = 1
  output : accessCount .moveOutput accesses + accessCount .dropOutput accesses +
    (if life.hasOutput then 1 else 0) = accessCount .write accesses
  written : accessCount .write accesses ≤ 1
  waiting : ∀ n, life = .future n → accessCount .write accesses = 0

theorem Life.counted {accesses : List (Nat × CellAccess)} {life : Life}
    (h : Life.of accesses = some life) : Counted accesses life := by
  induction accesses using List.reverseRecOn generalizing life with
  | nil =>
    cases h
    exact ⟨rfl, rfl, Nat.zero_le _, fun _ _ => rfl⟩
  | append_singleton xs x ih =>
    rw [of_append] at h
    obtain ⟨old, hold, hlast⟩ := Option.bind_eq_some_iff.mp h
    have hafter : old.after x = some life := by simpa using hlast
    obtain ⟨hf, ho, hw, hwait⟩ := ih hold
    obtain ⟨m, access⟩ := x
    cases old <;> cases access <;> simp only [after, reduceCtorEq] at hafter
    all_goals
      split at hafter
      · cases hafter
        constructor <;> simp_all [accessCount_concat, hasFuture, hasOutput] <;> omega
      · cases hafter

end Kwokka
