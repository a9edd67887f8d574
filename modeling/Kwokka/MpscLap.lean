import Kwokka.MpscQueue

/-! A push that is lapped: enough other pushes during it, and it is refused by a
ring that was never full. -/

namespace Kwokka

open Runs Function MpscRing

namespace MpscWorld

variable {α : Type*} {N : Nat} {w w' : MpscWorld α}

def pushCall (p : Nat) (value : α) : List (MpscEvent α) :=
  .call p value :: List.replicate 5 (.produce p false)

structure Pushed (N : Nat) (w : MpscWorld α) (p : Nat) (value : α) (w' : MpscWorld α) : Prop where
  enqueue : w'.ring.enqueuePos = wrappingAdd w.ring.enqueuePos 1
  dequeue : w'.ring.dequeuePos = w.ring.dequeuePos
  slots : w'.ring.slots = update w.ring.slots (slotIndex N w.ring.enqueuePos)
    ⟨wrappingAdd w.ring.enqueuePos 1, some value⟩
  claims : w'.claims.length = w.claims.length + 1
  freed : w'.freed = w.freed
  producers : w'.producers = w.producers
  consumer : w'.consumer = w.consumer
  since : ∀ q, q ≠ p → w'.since q = w.since q
  sawFull : w.outstanding + 1 < N → ∀ q, q ≠ p → w'.sawFull q = w.sawFull q

theorem pushCall_pushed {p : Nat} {value : α} (hidle : w.producers p = .idle)
    (hgap : wrappingSub (w.ring.slot N w.ring.enqueuePos).sequence w.ring.enqueuePos = 0) :
    w.Pushed N p value (run (step N) w (pushCall p value)) := by
  have hupdate : update w.producers p .idle = w.producers := by
    rw [← hidle, update_eq_self]
  constructor
  case sawFull =>
    intro hroom q hne
    have hfree : ¬ N ≤ w.claims.length - w.freed := by
      unfold outstanding at hroom
      omega
    have hfree' : ¬ N ≤ w.claims.length + 1 - w.freed := by
      unfold outstanding at hroom
      omega
    simp [pushCall, List.replicate, step, produce, pushStep, hidle, hgap, observe, call, won,
      outstanding, hne, hfree, hfree']
  case since =>
    intro q hne
    simp [pushCall, List.replicate, step, produce, pushStep, hidle, hgap, observe, call, won,
      hne]
  case slots =>
    simp only [pushCall, List.replicate, step, produce, pushStep, hidle, hgap, observe, call,
      won, run_cons, run_nil, update_self, if_true, and_self]
    simp [setSlot, slot]
  all_goals simp [pushCall, List.replicate, step, produce, pushStep, setSlot, hidle,
    hgap, observe, call, won, hupdate]

structure Popped (N : Nat) (w w' : MpscWorld α) : Prop where
  enqueue : w'.ring.enqueuePos = w.ring.enqueuePos
  dequeue : w'.ring.dequeuePos = wrappingAdd w.ring.dequeuePos 1
  slots : w'.ring.slots = update w.ring.slots (slotIndex N w.ring.dequeuePos)
    { w.ring.slot N w.ring.dequeuePos with sequence := wrappingAdd w.ring.dequeuePos N }
  claims : w'.claims = w.claims
  freed : w'.freed = w.freed + 1
  producers : w'.producers = w.producers
  consumer : w'.consumer = .idle
  since : w'.since = w.since
  sawFull : w.outstanding < N → ∀ q, w'.sawFull q = w.sawFull q

theorem popCall_pops (hidle : w.consumer = .idle)
    (hgap : ¬ usizeMax / 2 < wrappingSub (w.ring.slot N w.ring.dequeuePos).sequence
      (wrappingAdd w.ring.dequeuePos 1)) : w.Popped N (run (step N) w popCall) := by
  constructor
  case sawFull =>
    intro hroom q
    have hfree : ¬ N ≤ w.claims.length - w.freed := by
      unfold outstanding at hroom
      omega
    have hfree' : ¬ N ≤ w.claims.length - (w.freed + 1) := by omega
    simp [popCall, List.replicate, step, hidle, consume, popStep, observe, hgap, outstanding,
      hfree, hfree']
  all_goals simp [popCall, List.replicate, step, hidle, consume, popStep, observe, hgap,
    setSlot]

def Fewer (bound : Nat) (w : MpscWorld α) : MpscEvent α → Prop
  | .produce p _ => w.producers p ≠ .idle → w.claims.length - w.since p < bound
  | _ => True

def lap : List (MpscEvent Unit) := pushCall 1 () ++ popCall

structure Calm (N n : Nat) (w : MpscWorld Unit) : Prop where
  enqueue : w.ring.enqueuePos = n % 2 ^ 64
  dequeue : w.ring.dequeuePos = n % 2 ^ 64
  slots : ∀ Q, n ≤ Q → Q < n + N → (w.ring.slots (Q % N)).sequence = Q % 2 ^ 64
  claims : w.claims.length = n
  freed : w.freed = n
  stalled : w.producers 0 = .looping 0 ()
  idle : w.producers 1 = .idle
  consumer : w.consumer = .idle
  since : w.since 0 = 0
  sawFull : w.sawFull 0 = false

theorem meets_pushCall {bound p : Nat} {value : α} (hbound : 1 < bound)
    (hidle : w.producers p = .idle)
    (hgap : wrappingSub (w.ring.slot N w.ring.enqueuePos).sequence w.ring.enqueuePos = 0) :
    Meets (step N) (Fewer bound) w (pushCall p value) := by
  have hone : 0 < bound := by omega
  simp [pushCall, List.replicate, Fewer, step, produce, pushStep, hidle, hgap, observe, call,
    won, hbound, hone]

theorem meets_popCall {bound : Nat} : Meets (step N) (Fewer bound) w popCall := by
  simp [popCall, List.replicate, Fewer]

theorem Calm.after_lap {w : MpscWorld Unit} {n : Nat} (hN : IsCapacity N) (h : w.Calm N n) :
    (run (step N) w lap).Calm N (n + 1) ∧ Meets (step N) (Fewer (2 ^ 63)) w lap := by
  have htwo := hN.two_le
  have hgap : wrappingSub (w.ring.slot N w.ring.enqueuePos).sequence w.ring.enqueuePos = 0 := by
    rw [h.enqueue, slot_mod hN, h.slots n (Nat.le_refl _) (by omega),
      wrappingSub_of_le (Nat.le_refl _) (by omega)]
    omega
  have hpush : w.Pushed N 1 () _ := pushCall_pushed h.idle hgap
  have hmeets : Meets (step N) (Fewer (2 ^ 63)) w (pushCall 1 ()) :=
    meets_pushCall (by decide) h.idle hgap
  rw [lap, run_append, meets_append]
  refine ⟨?_, hmeets, meets_popCall⟩
  generalize run (step N) w (pushCall 1 ()) = v at hpush
  have hdeq : v.ring.dequeuePos = n % 2 ^ 64 := hpush.dequeue.trans h.dequeue
  have hslot : v.ring.slot N v.ring.dequeuePos = ⟨(n + 1) % 2 ^ 64, some ()⟩ := by
    rw [hdeq, slot_mod hN, hpush.slots, h.enqueue, slotIndex_mod hN,
      update_self, wrappingAdd_mod]
  have hzero := wrappingSub_of_le (Nat.le_refl (n + 1)) (by omega)
  have hfound : ¬ usizeMax / 2 < wrappingSub (v.ring.slot N v.ring.dequeuePos).sequence
      (wrappingAdd v.ring.dequeuePos 1) := by
    rw [hslot, hdeq, wrappingAdd_mod, hzero]
    simp
  have hout : w.outstanding = 0 := by
    rw [outstanding, h.claims, h.freed, Nat.sub_self]
  have hout' : v.outstanding = 1 := by
    rw [outstanding, hpush.claims, hpush.freed, h.claims, h.freed]
    omega
  have hpop := popCall_pops (hpush.consumer.trans h.consumer) hfound
  generalize run (step N) v popCall = u at hpop
  refine ⟨?_, ?_, ?_, ?_, ?_, ?_, ?_, hpop.consumer, ?_, ?_⟩
  · rw [hpop.enqueue, hpush.enqueue, h.enqueue, wrappingAdd_mod]
  · rw [hpop.dequeue, hdeq, wrappingAdd_mod]
  · intro Q hlo hhi
    rw [hpop.slots, hpush.slots, hdeq, h.enqueue, slotIndex_mod hN]
    rcases Nat.lt_or_ge Q (n + N) with hlt | hge
    · have hne : Q % N ≠ n % N := by
        intro hmod
        have := Window.eq_of_mod_eq (by omega) hlt (Nat.le_refl n) (by omega) hmod
        omega
      rw [update_of_ne hne, update_of_ne hne]
      exact h.slots Q (by omega) hlt
    · obtain rfl : Q = n + N := by omega
      rw [Nat.add_mod_right, update_self, wrappingAdd_mod]
  · rw [hpop.claims, hpush.claims, h.claims]
  · rw [hpop.freed, hpush.freed, h.freed]
  · rw [hpop.producers, hpush.producers, h.stalled]
  · rw [hpop.producers, hpush.producers, h.idle]
  · rw [hpop.since, hpush.since 0 (by decide), h.since]
  · rw [hpop.sawFull (by omega), hpush.sawFull (by omega) 0 (by decide), h.sawFull]

theorem Calm.after_laps {w : MpscWorld Unit} {n : Nat} (hN : IsCapacity N) (h : w.Calm N n) (k : Nat) :
    (run (step N) w (List.replicate k lap).flatten).Calm N (n + k) ∧
      Meets (step N) (Fewer (2 ^ 63)) w (List.replicate k lap).flatten := by
  induction k generalizing w n with
  | zero => exact ⟨h, trivial⟩
  | succ k ih =>
    obtain ⟨hcalm, hmeets⟩ := h.after_lap hN
    obtain ⟨hcalm', hmeets'⟩ := ih hcalm
    rw [List.replicate_succ, List.flatten_cons, run_append, meets_append]
    exact ⟨by rw [← Nat.add_assoc, Nat.add_right_comm]; exact hcalm', hmeets, hmeets'⟩

def stall : List (MpscEvent Unit) := [.call 0 (), .produce 0 false]

theorem stall_calm (hN : IsCapacity N) :
    (run (step N) init stall).Calm N 0 ∧ Meets (step N) (Fewer (2 ^ 63)) init stall := by
  have hroom : ¬ N ≤ 0 := by
    have := hN.pos
    omega
  have hinit : (init : MpscWorld Unit).Positions N := init_positions hN
  have hslots := hinit.free
  have hrun : run (step N) init stall =
      ((((init : MpscWorld Unit).call 0 ()).observe N).produce N 0 false).observe N := rfl
  constructor
  · rw [hrun]
    refine ⟨rfl, rfl, fun Q _ hQ => hslots Q (Nat.zero_le _) hQ, rfl, rfl, rfl, rfl, rfl, rfl, ?_⟩
    simp [observe, produce, pushStep, call, init, outstanding, won, hroom]
  · simp [stall, Fewer, step, init, call, observe]

/-- With `2 ^ 63 - 1` positions claimed during it, a push on a ring of two slots is refused
although the ring never held more than one item. -/
theorem lapped_push_refused : ¬ ∀ N, IsCapacity N → ∀ es : List (MpscEvent Unit),
    Meets (step N) (Fewer (2 ^ 63)) init es → (run (step N) init es).RefusesFull := by
  intro hclaim
  have hN : IsCapacity 2 := ⟨⟨1, rfl⟩, Nat.le_refl _, by decide⟩
  obtain ⟨hstall, hmeets⟩ := stall_calm hN
  obtain ⟨k, hk⟩ : ∃ k, k + 1 = 2 ^ 63 := ⟨2 ^ 63 - 1, by decide⟩
  obtain ⟨hcalm, hmeets'⟩ := hstall.after_laps hN k
  generalize (List.replicate k lap).flatten = es at hcalm hmeets'
  have hlapped := hclaim 2 hN (stall ++ (es ++ [.produce 0 false])) ?_
  · rw [run_append, run_append] at hlapped
    generalize run (step 2) (run (step 2) init stall) es = w at hcalm hlapped
    have hgap : wrappingSub (w.ring.slot 2 0).sequence 0 = 2 ^ 63 := by
      have hseq := hcalm.slots (2 ^ 63) (by omega) (by omega)
      rw [show w.ring.slot 2 0 = w.ring.slots (2 ^ 63 % 2) from rfl, hseq]
      rfl
    have hrefused := hlapped (⟨0, w.lastCall 0, ()⟩, w.sawFull 0) (by
      simp [step, observe, produce, hcalm.stalled, pushStep, hgap, usizeMax])
    exact absurd (hcalm.sawFull.symm.trans hrefused.1) (by decide)
  · refine meets_append.mpr ⟨hmeets, meets_append.mpr ⟨hmeets', ?_, trivial⟩⟩
    intro _
    rw [hcalm.since, hcalm.claims]
    omega

end MpscWorld

end Kwokka
