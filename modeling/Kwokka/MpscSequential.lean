import Kwokka.BoundedQueue
import Kwokka.MpscInv

/-! The ring in the hands of one caller at a time: each call runs to its end
before the next one starts. -/

namespace Kwokka

open BoundedQueue Function

/-- A call of `push`. `spurious` says at which of its atomic operations a compare-exchange fails
although the position is free; after that none fails. -/
structure PushCall (α : Type*) where
  value : α
  spurious : List Bool

namespace MpscRing

variable {α : Type*} {N : Nat} {ring : MpscRing α} {value : α}

/-- `none` when the call has not returned by the end of the list. -/
def runPush (N : Nat) : List Bool → MpscRing α → PushState α → Option (Except α Unit) × MpscRing α
  | [], ring, _ => (none, ring)
  | isSpurious :: rest, ring, state =>
    match ring.pushStep N isSpurious state with
    | (next, _, some answer) => (some answer, next)
    | (next, state', none) => runPush N rest next state'

def push (N : Nat) (ring : MpscRing α) (call : PushCall α) : Option (Except α Unit) × MpscRing α :=
  runPush N (call.spurious ++ List.replicate 5 false) ring (.loading call.value)

def runPop (N : Nat) : Nat → MpscRing α → PopState α → Option (Option (MaybeUninit α)) × MpscRing α
  | 0, ring, _ => (none, ring)
  | steps + 1, ring, state =>
    match ring.popStep N state with
    | (next, _, some answer) => (some answer, next)
    | (next, state', none) => runPop N steps next state'

def pop (N : Nat) (ring : MpscRing α) : Option (Option (MaybeUninit α)) × MpscRing α :=
  runPop N 5 ring .loading

def calls (N : Nat) : Calls (MpscRing α) (PushCall α) (Option (Except α Unit))
    (Option (Option (MaybeUninit α))) := ⟨push N, pop N⟩

/-- The queue the ring is to be, whose calls all return. -/
def queue : Interface (PushCall α) (MaybeUninit α) (Option (Except α Unit))
    (Option (Option (MaybeUninit α))) where
  value call := some call.value
  accepted := some (.ok ())
  refused call := some (.error call.value)
  found := some

def filled (N : Nat) (ring : MpscRing α) (value : α) : MpscRing α :=
  { ring with
    enqueuePos := wrappingAdd ring.enqueuePos 1
    slots := update ring.slots (slotIndex N ring.enqueuePos)
      ⟨wrappingAdd ring.enqueuePos 1, some value⟩ }

theorem runPush_writing {flags : List Bool} (hflags : 1 < flags.length) :
    runPush N flags { ring with enqueuePos := wrappingAdd ring.enqueuePos 1 }
      (.writing ring.enqueuePos value) = (some (.ok ()), ring.filled N value) := by
  match flags, hflags with
  | _ :: _ :: _, _ => simp [runPush, pushStep, setSlot, slot, filled]

theorem runPush_looping {isSpurious : Bool} {flags : List Bool}
    (hgap : wrappingSub (ring.slot N ring.enqueuePos).sequence ring.enqueuePos = 0) :
    runPush N (isSpurious :: flags) ring (.looping ring.enqueuePos value) =
      runPush N flags ring (.claiming ring.enqueuePos value) := by
  simp only [runPush, pushStep, hgap, if_true]

theorem runPush_claiming {flags : List Bool} (hflags : 1 < flags.length) :
    runPush N (false :: flags) ring (.claiming ring.enqueuePos value) =
      (some (.ok ()), ring.filled N value) := by
  simp only [runPush, pushStep, and_self, if_true]
  exact runPush_writing hflags

theorem runPush_free (hgap : wrappingSub (ring.slot N ring.enqueuePos).sequence ring.enqueuePos = 0)
    (spurious : List Bool) {state : PushState α}
    (hstate : state = .loading value ∨ state = .looping ring.enqueuePos value ∨
      state = .claiming ring.enqueuePos value) :
    runPush N (spurious ++ List.replicate 5 false) ring state =
      (some (.ok ()), ring.filled N value) := by
  induction spurious generalizing state with
  | nil =>
    rcases hstate with rfl | rfl | rfl
    · exact (runPush_looping hgap).trans (runPush_claiming (by simp))
    · exact (runPush_looping hgap).trans (runPush_claiming (by simp))
    · exact runPush_claiming (by simp)
  | cons isSpurious rest ih =>
    rcases hstate with rfl | rfl | rfl
    · exact ih (.inr (.inl rfl))
    · exact (runPush_looping hgap).trans (ih (.inr (.inr rfl)))
    · cases isSpurious with
      | true =>
        simp only [List.cons_append, runPush, pushStep, Bool.true_eq_false, and_false, if_false]
        exact ih (.inr (.inl rfl))
      | false => exact runPush_claiming (by simp)

theorem push_full (hgap : usizeMax / 2 < wrappingSub (ring.slot N ring.enqueuePos).sequence
    ring.enqueuePos) (call : PushCall α) : ring.push N call = (some (.error call.value), ring) := by
  have hne : wrappingSub (ring.slot N ring.enqueuePos).sequence ring.enqueuePos ≠ 0 := by omega
  have hlen : 1 < (call.spurious ++ List.replicate 5 false).length := by simp
  unfold push
  match call.spurious ++ List.replicate 5 false, hlen with
  | _ :: _ :: _, _ => simp [runPush, pushStep, hne, hgap]

theorem pop_empty (hgap : usizeMax / 2 < wrappingSub (ring.slot N ring.dequeuePos).sequence
    (wrappingAdd ring.dequeuePos 1)) : ring.pop N = (some none, ring) := by
  simp [pop, runPop, popStep, hgap]

theorem pop_found (hgap : wrappingSub (ring.slot N ring.dequeuePos).sequence
    (wrappingAdd ring.dequeuePos 1) ≤ usizeMax / 2) :
    ring.pop N = (some (some (ring.slot N ring.dequeuePos).cell),
      { ring with
        dequeuePos := wrappingAdd ring.dequeuePos 1
        slots := update ring.slots (slotIndex N ring.dequeuePos)
          { ring.slot N ring.dequeuePos with sequence := wrappingAdd ring.dequeuePos N } }) := by
  simp [pop, runPop, popStep, Nat.not_lt.mpr hgap, setSlot]

/-- Positions `first`, `first + 1`, … hold the items, and the rest of the lap is free. -/
structure Seated (N : Nat) (ring : MpscRing α) (first : Nat) (items : List (MaybeUninit α)) : Prop where
  enqueue : ring.enqueuePos = (first + items.length) % 2 ^ 64
  dequeue : ring.dequeuePos = first % 2 ^ 64
  lays : Lays N (fun i => some (ring.slots i).cell) first items
  sequence : ∀ i < N, (ring.slots ((first + i) % N)).sequence =
    (first + i + if i < items.length then 1 else 0) % 2 ^ 64

namespace Seated

variable {first : Nat} {items : List (MaybeUninit α)} (hN : IsCapacity N)

include hN

theorem new : Seated N (MpscRing.new : MpscRing α) 0 [] := by
  have hle := hN.le
  refine ⟨rfl, rfl, .nil _ _ _, ?_⟩
  intro i hi
  simp [MpscRing.new, Nat.mod_eq_of_lt hi]
  omega

theorem push (h : Seated N ring first items) (hroom : items.length < N) (call : PushCall α) :
    (ring.push N call).1 = some (.ok ()) ∧
      Seated N (ring.push N call).2 first (items ++ [some call.value]) := by
  have hindex : slotIndex N ring.enqueuePos = (first + items.length) % N := by
    rw [h.enqueue, slotIndex_mod hN]
  have hgap : wrappingSub (ring.slot N ring.enqueuePos).sequence ring.enqueuePos = 0 := by
    rw [slot, hindex, h.sequence _ hroom, h.enqueue, if_neg (Nat.lt_irrefl _), Nat.add_zero,
      wrappingSub_of_le (Nat.le_refl _) (by omega), Nat.sub_self]
  have hpush : ring.push N call = (some (.ok ()), ring.filled N call.value) :=
    runPush_free hgap call.spurious (.inl rfl)
  rw [hpush]
  refine ⟨rfl, ?_, h.dequeue, ?_, ?_⟩
  · rw [filled, h.enqueue, wrappingAdd_mod, List.length_append, List.length_singleton, Nat.add_assoc]
  · refine h.lays.push hroom (by simp [filled, hindex]) ?_
    intro i x hne hcell
    simpa [filled, hindex, hne] using hcell
  · intro i hi
    simp only [filled, hindex, List.length_append, List.length_singleton, update_apply]
    split
    case isTrue heq =>
      have := Window.eq_of_mod_eq (Nat.le_add_right first i) (by omega) (by omega) (by omega) heq
      rw [if_pos (by omega), h.enqueue, wrappingAdd_mod, this]
    case isFalse hne =>
      have hni : i ≠ items.length := fun heq => hne (by rw [heq])
      rw [h.sequence i hi]
      congr 2
      exact if_congr (by omega) rfl rfl

theorem full (h : Seated N ring first items) (hfull : N ≤ items.length) (call : PushCall α) :
    ring.push N call = (some (.error call.value), ring) := by
  have hle := hN.le
  have htwo := hN.two_le
  have hlen : items.length = N := Nat.le_antisymm h.lays.room hfull
  refine push_full ?_ call
  -- the slot of the next position still holds the oldest item
  have hslot : (ring.slot N ring.enqueuePos).sequence = (first + 1) % 2 ^ 64 := by
    rw [slot, h.enqueue, slotIndex_mod hN, hlen, Nat.add_mod_right]
    simpa [hlen, hN.pos] using h.sequence 0 hN.pos
  rw [hslot, h.enqueue, hlen, wrappingSub_of_lt (by omega) (by omega), usizeMax]
  omega

theorem pop (h : Seated N ring first items) : (ring.pop N).1 = some items.head? ∧
    ∃ first', Seated N (ring.pop N).2 first' items.tail := by
  have hindex : slotIndex N ring.dequeuePos = first % N := by
    rw [h.dequeue, slotIndex_mod hN]
  have hsequence := h.sequence 0 hN.pos
  cases items with
  | nil =>
    have hpop : ring.pop N = (some none, ring) := by
      refine pop_empty ?_
      rw [slot, hindex, h.dequeue, wrappingAdd_mod, show first = first + 0 from rfl, hsequence]
      simp only [List.length_nil, Nat.lt_irrefl, if_false, Nat.add_zero]
      rw [wrappingSub_of_lt (by omega) (by omega), usizeMax]
      omega
    rw [hpop]
    exact ⟨rfl, first, h⟩
  | cons v items =>
    have hgap : wrappingSub (ring.slot N ring.dequeuePos).sequence (wrappingAdd ring.dequeuePos 1) ≤
        usizeMax / 2 := by
      rw [slot, hindex, h.dequeue, wrappingAdd_mod, show first = first + 0 from rfl, hsequence]
      simp only [List.length_cons, Nat.zero_lt_succ, if_true, Nat.add_zero]
      rw [wrappingSub_of_le (Nat.le_refl _) (by omega)]
      omega
    have hroom := h.lays.room
    rw [List.length_cons] at hroom
    rw [pop_found hgap, slot, hindex]
    have hhead : some (ring.slots (first % N)).cell = some v := h.lays.head
    refine ⟨by rw [hhead]; rfl, first + 1, ?_⟩
    show Seated N _ (first + 1) items
    refine ⟨?_, ?_, ?_, ?_⟩
    · rw [h.enqueue]
      simp [Nat.add_assoc, Nat.add_comm 1]
    · rw [h.dequeue, wrappingAdd_mod]
    · refine h.lays.pop ?_
      intro i x hne hcell
      simpa [hne] using hcell
    · intro i hi
      simp only [update_apply]
      split
      case isTrue heq =>
        have hlap := Window.add_le_of_mod_eq heq.symm (by omega)
        rw [if_neg (by omega), h.dequeue, wrappingAdd_mod, show first + 1 + i + 0 = first + N by omega]
      case isFalse hne =>
        have hlt : i + 1 < N := by
          by_contra hge
          exact hne (by rw [show first + 1 + i = first + N by omega, Nat.add_mod_right])
        have hnext := h.sequence (i + 1) hlt
        rw [show first + (i + 1) = first + 1 + i by omega] at hnext
        rw [hnext]
        simp only [List.length_cons, Nat.add_lt_add_iff_right]

end Seated

theorem refines (hN : IsCapacity N) : Refines N queue (calls N : Calls (MpscRing α) _ _ _)
    fun ring items => ∃ first, Seated N ring first items where
  push := by
    rintro ring items call ⟨first, h⟩ hroom
    obtain ⟨hanswer, hnext⟩ := h.push hN hroom call
    exact ⟨hanswer, first, hnext⟩
  full := by
    rintro ring items call ⟨first, h⟩ hfull
    have hpush := h.full hN hfull call
    simp only [calls, hpush]
    exact ⟨rfl, first, h⟩
  pop := by
    rintro ring items ⟨first, h⟩
    exact h.pop hN

/-- Of the capacities that `new` admits, every one but a single slot makes the ring a queue. -/
theorem mpsc_ring_is_fifo_iff (a : α) (hN : ∃ k < 64, N = 2 ^ k) :
    (∀ ops : List (Op (PushCall α)),
      answers (calls N).step (new : MpscRing α) ops = answers (step N queue) [] ops) ↔ 2 ≤ N := by
  obtain ⟨k, hk, rfl⟩ := hN
  constructor
  · intro hfifo
    by_contra hlt
    obtain rfl : k = 0 := by
      by_contra hne
      exact hlt (Nat.le_self_pow hne 2)
    have hring : answers (calls 1).step (new : MpscRing α) [.push ⟨a, []⟩, .push ⟨a, []⟩] =
        [.pushed (some (.ok ())), .pushed (some (.ok ()))] := by
      simp [answers, calls, Calls.step, push, runPush, pushStep, new, slot, slotIndex, setSlot,
        wrappingSub, wrappingAdd]
    cases hring.symm.trans (hfifo [.push ⟨a, []⟩, .push ⟨a, []⟩])
  · intro htwo
    have hcap : IsCapacity (2 ^ k) := ⟨⟨k, rfl⟩, htwo, Nat.pow_le_pow_right (by decide) (by omega)⟩
    exact (refines hcap).answers_eq ⟨0, .new hcap⟩

theorem mpsc_ring_is_fifo_spurious :
    let ops : List (Op (PushCall Nat)) :=
      [.push ⟨10, [false, false, true]⟩, .push ⟨11, []⟩, .push ⟨12, []⟩, .pop, .pop, .pop]
    answers (calls 2).step (new : MpscRing Nat) ops = answers (step 2 queue) [] ops :=
  (mpsc_ring_is_fifo_iff 0 ⟨1, by decide, rfl⟩).mpr (Nat.le_refl 2) _

/-- A ring of one slot takes a second item over the first: the slot that was just filled carries the
sequence of the next position, as if it were free. -/
theorem one_slot_overwrites :
    answers (calls 1).step (new : MpscRing Nat) [.push ⟨10, []⟩, .push ⟨11, []⟩, .pop] =
      [.pushed (some (.ok ())), .pushed (some (.ok ())), .popped (some (some (some 11)))] := by
  decide

end MpscRing

end Kwokka
