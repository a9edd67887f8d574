import Kwokka.MpscLap
import Kwokka.ParkProof

/-! A worker stranded in its bracket: a push that stalls before its compare-exchange
until the position counter has come round writes over a slot in use, and the bracket
then finds the ring empty in front of a published entry. -/

namespace Kwokka

open Runs Function MpscRing

namespace MpscWorld

variable {N n m : Nat} {w w' : MpscWorld Unit}

theorem Fewer.unlapped {α : Type*} {w : MpscWorld α} {e : MpscEvent α} (h : w.Fewer (2 ^ 64) e) :
    w.Unlapped e := by
  cases e with
  | produce =>
    intro hseek
    have := h (by intro hidle; simp [hidle, PushState.isSeeking] at hseek)
    omega
  | _ => trivial

structure Held (N n m : Nat) (w : MpscWorld Unit) : Prop where
  safe : w.Safe N
  claims : w.claims.length = n
  freed : w.freed = m
  stalled : w.producers 0 = .claiming 0 ()
  idle : ∀ q, q ≠ 0 → w.producers q = .idle
  consumer : w.consumer = .idle

theorem Held.popped (h : w.Held N n m) : w.popped.length = m := by
  have hcons := h.safe.positions.consumer
  simp only [ConsumerAt, h.consumer] at hcons
  rw [← hcons, h.freed]

theorem Held.dequeue (h : w.Held N n m) : w.ring.dequeuePos = m % 2 ^ 64 := by
  rw [h.safe.positions.dequeue, h.popped]

theorem Held.published (h : w.Held N n m) {Q : Nat} (hlo : m ≤ Q) (hhi : Q < n) :
    (w.ring.slots (Q % N)).sequence = (Q + 1) % 2 ^ 64 := by
  have hlt : Q < w.claims.length := by rwa [h.claims]
  rcases h.safe.positions.taken Q _ (by rwa [h.freed]) (List.getElem?_eq_getElem hlt) with hpub | hpend
  · rw [hpub]
  · have howned := hpend.owned
    generalize (w.claims[Q]).producer = q at howned
    by_cases hq : q = 0
    · subst hq
      rw [h.stalled] at howned
      cases howned
    · rw [h.idle q hq] at howned
      cases howned

theorem Held.push (h : w.Held N n m) (hN : IsCapacity N) (hroom : n < m + N) :
    (run (step N) w (pushCall 1 ())).Held N (n + 1) m := by
  have hgap : wrappingSub (w.ring.slot N w.ring.enqueuePos).sequence w.ring.enqueuePos = 0 := by
    have hfree := h.safe.positions.free n (by rw [h.claims]) (by rwa [h.freed])
    have hzero := wrappingSub_of_le (Nat.le_refl n) (by omega)
    rw [h.safe.positions.enqueue, slot_mod hN, h.claims, hfree, hzero, Nat.sub_self]
  have hidle := h.idle 1 (by decide)
  have hmeets : Meets (step N) (Fewer (2 ^ 64)) w (pushCall 1 ()) :=
    meets_pushCall (by decide) hidle hgap
  have hpush : w.Pushed N 1 () _ := pushCall_pushed hidle hgap
  refine ⟨?_, ?_, ?_, ?_, ?_, ?_⟩
  · exact hmeets.invariant (fun _ _ hs hf => hs.step hN hf.unlapped) h.safe
  · rw [hpush.claims, h.claims]
  · rw [hpush.freed, h.freed]
  · rw [hpush.producers, h.stalled]
  · rw [hpush.producers]
    exact h.idle
  · rw [hpush.consumer, h.consumer]

theorem Held.pop (h : w.Held N n m) (hN : IsCapacity N) (hlt : m < n) :
    (run (step N) w popCall).Held N n (m + 1) := by
  have hgap : ¬ usizeMax / 2 < wrappingSub (w.ring.slot N w.ring.dequeuePos).sequence
      (wrappingAdd w.ring.dequeuePos 1) := by
    have hzero := wrappingSub_of_le (Nat.le_refl (m + 1)) (by omega)
    rw [h.dequeue, slot_mod hN, h.published (Nat.le_refl m) hlt, wrappingAdd_mod, hzero]
    simp
  have hmeets : Meets (step N) (Fewer (2 ^ 64)) w popCall := meets_popCall
  have hpop := popCall_pops h.consumer hgap
  refine ⟨?_, ?_, ?_, ?_, ?_, hpop.consumer⟩
  · exact hmeets.invariant (fun _ _ hs hf => hs.step hN hf.unlapped) h.safe
  · rw [hpop.claims, h.claims]
  · rw [hpop.freed, h.freed]
  · rw [hpop.producers, h.stalled]
  · rw [hpop.producers]
    exact h.idle

theorem Held.laps (h : w.Held N n n) (hN : IsCapacity N) (k : Nat) :
    (run (step N) w (List.replicate k lap).flatten).Held N (n + k) (n + k) := by
  induction k generalizing w n with
  | zero => exact h
  | succ k ih =>
    have hpos := hN.pos
    have hlap : (run (step N) w lap).Held N (n + 1) (n + 1) := by
      exact (h.push hN (by omega)).pop hN (by omega)
    rw [List.replicate_succ, List.flatten_cons, run_append, show n + (k + 1) = n + 1 + k by omega]
    exact ih hlap

theorem Held.fill (h : w.Held N n n) (hN : IsCapacity N) {k : Nat} (hk : k ≤ N) :
    (run (step N) w (List.replicate k (pushCall 1 ())).flatten).Held N (n + k) n := by
  induction k with
  | zero => exact h
  | succ k ih =>
    rw [List.replicate_succ', List.flatten_concat, run_append]
    exact (ih (by omega)).push hN (by omega)

/-- The stalled push loads position 0 and sees that its slot is free. -/
def stallAtClaim : List (MpscEvent Unit) := [.call 0 (), .produce 0 false, .produce 0 false]

theorem stallAtClaim_held (hN : IsCapacity N) : (run (step N) init stallAtClaim).Held N 0 0 := by
  have hinit : (init : MpscWorld Unit).Safe N := init_safe hN
  have hmeets : Meets (step N) (Fewer (2 ^ 64)) init stallAtClaim := by
    simp [stallAtClaim, Fewer, step, init, call, observe, produce, pushStep, won]
  refine ⟨hmeets.invariant (fun _ _ hs hf => hs.step hN hf.unlapped) hinit, ?_, rfl, ?_, ?_, rfl⟩
  · simp [stallAtClaim, step, init, call, observe, produce, pushStep, won]
  · simp [stallAtClaim, step, call, observe, produce, pushStep, won, init, new,
      slot, slotIndex, wrappingSub]
  · intro q hq
    simp [stallAtClaim, step, call, observe, produce, pushStep, won, hq, init]

theorem last_mod (hN : IsCapacity N) {i : Nat} (hi : i < N) : (2 ^ 64 - N + i) % N = i := by
  obtain ⟨c, hc⟩ := hN.dvd
  have hcpos : 0 < c := by
    rcases Nat.eq_zero_or_pos c with rfl | hpos
    · omega
    · exact hpos
  obtain ⟨d, rfl⟩ : ∃ d, c = d + 1 := ⟨c - 1, by omega⟩
  rw [hc, Nat.mul_add, Nat.mul_one, Nat.add_sub_cancel, Nat.mul_add_mod, Nat.mod_eq_of_lt hi]

structure Torn (N i : Nat) (w : MpscWorld Unit) : Prop where
  enqueue : w.ring.enqueuePos = 1
  dequeue : w.ring.dequeuePos = (2 ^ 64 - N + i) % 2 ^ 64
  freed : ∀ j < i, (w.ring.slots j).sequence = j
  torn : i = 0 → (w.ring.slots 0).sequence = 1
  taken : ∀ j, i ≤ j → j < N → j ≠ 0 → (w.ring.slots j).sequence = (2 ^ 64 - N + j + 1) % 2 ^ 64
  idle : ∀ q, w.producers q = .idle
  consumer : w.consumer = .idle

def finishPush : List (MpscEvent Unit) := List.replicate 3 (.produce 0 false)

theorem Held.tear (h : w.Held N (2 ^ 64) (2 ^ 64 - N)) (hN : IsCapacity N) :
    (run (step N) w finishPush).Torn N 0 := by
  have henq : w.ring.enqueuePos = 0 := by
    rw [h.safe.positions.enqueue, h.claims]
    rfl
  have hzero : slotIndex N 0 = 0 := by simp [slotIndex]
  refine ⟨?_, ?_, ?_, ?_, ?_, ?_, ?_⟩
  · simp [finishPush, List.replicate, step, observe, produce, h.stalled, pushStep, henq,
      setSlot, wrappingAdd]
  · rw [Nat.add_zero, ← h.dequeue]
    simp [finishPush, List.replicate, step, observe, produce, h.stalled, pushStep, henq,
      setSlot]
  · intro j hj
    exact absurd hj (Nat.not_lt_zero j)
  · intro _
    simp [finishPush, List.replicate, step, observe, produce, h.stalled, pushStep, henq,
      setSlot, hzero, wrappingAdd]
  · intro j _ hj hne
    have hle := hN.le
    have hpub := h.published (Q := 2 ^ 64 - N + j) (by omega) (by omega)
    rw [last_mod hN hj] at hpub
    rw [← hpub]
    simp [finishPush, List.replicate, step, observe, produce, h.stalled, pushStep, henq,
      setSlot, hzero, hne]
  · intro q
    by_cases hq : q = 0
    · subst hq
      simp [finishPush, List.replicate, step, observe, produce, h.stalled, pushStep, henq]
    · simp [finishPush, List.replicate, step, observe, produce, h.stalled, pushStep, henq,
        hq, h.idle q hq]
  · simp [finishPush, List.replicate, step, observe, produce, h.stalled, pushStep, henq,
      h.consumer]

theorem Torn.pop {i : Nat} (h : w.Torn N i) (hN : IsCapacity N) (hlt : N < 2 ^ 63) (hi : i < N) :
    (run (step N) w popCall).Torn N (i + 1) := by
  have hslot : w.ring.slot N w.ring.dequeuePos = w.ring.slots i := by
    rw [h.dequeue, slot_mod hN, last_mod hN hi]
  have hgap : ¬ usizeMax / 2 < wrappingSub (w.ring.slot N w.ring.dequeuePos).sequence
      (wrappingAdd w.ring.dequeuePos 1) := by
    rw [hslot, h.dequeue, wrappingAdd_mod]
    by_cases hzero : i = 0
    · subst hzero
      rw [h.torn rfl]
      have htwo := hN.two_le
      have hhalf : usizeMax / 2 = 2 ^ 63 - 1 := rfl
      have hover : wrappingSub 1 ((2 ^ 64 - N + 0 + 1) % 2 ^ 64) = N := by
        rw [wrappingSub, Nat.mod_eq_of_lt (by omega)]
        omega
      omega
    · have hzero' := wrappingSub_of_le (Nat.le_refl (2 ^ 64 - N + i + 1)) (by omega)
      rw [h.taken i (Nat.le_refl i) hi hzero, hzero']
      simp
  have hpop := popCall_pops h.consumer hgap
  have hslots : ∀ j, ((run (step N) w popCall).ring.slots j).sequence =
      if j = i then i else (w.ring.slots j).sequence := by
    intro j
    rw [hpop.slots, h.dequeue, slotIndex_mod hN, last_mod hN hi, update_apply]
    split
    · rw [wrappingAdd_mod]
      change (2 ^ 64 - N + i + N) % 2 ^ 64 = i
      omega
    · rfl
  refine ⟨?_, ?_, ?_, ?_, ?_, ?_, hpop.consumer⟩
  · rw [hpop.enqueue, h.enqueue]
  · rw [hpop.dequeue, h.dequeue, wrappingAdd_mod]
    rfl
  · intro j hj
    rw [hslots]
    split
    · omega
    · exact h.freed j (by omega)
  · intro hzero
    omega
  · intro j hlo hhi hne
    rw [hslots, if_neg (by omega)]
    exact h.taken j (by omega) hhi hne
  · intro q
    rw [hpop.producers]
    exact h.idle q

theorem Torn.pops (h : w.Torn N 0) (hN : IsCapacity N) (hlt : N < 2 ^ 63) {k : Nat} (hk : k ≤ N) :
    (run (step N) w (List.replicate k popCall).flatten).Torn N k := by
  induction k with
  | zero => exact h
  | succ k ih =>
    rw [List.replicate_succ', List.flatten_concat, run_append]
    exact (ih (by omega)).pop hN hlt (by omega)

structure Hollow (N : Nat) (w : MpscWorld Unit) : Prop where
  enqueue : w.ring.enqueuePos = 2
  dequeue : w.ring.dequeuePos = 0
  empty : (w.ring.slot N 0).sequence = 0
  published : (w.ring.slot N 1).sequence = 2
  idle : ∀ q, w.producers q = .idle
  consumer : w.consumer = .idle

theorem Torn.push (h : w.Torn N N) (hN : IsCapacity N) :
    (run (step N) w (pushCall 1 ())).Hollow N := by
  have htwo := hN.two_le
  have hle := hN.le
  have hindex : ∀ j < 2, slotIndex N j = j := by
    intro j hj
    have := slotIndex_mod hN j
    rwa [Nat.mod_eq_of_lt (by omega), Nat.mod_eq_of_lt (by omega)] at this
  have hgap : wrappingSub (w.ring.slot N w.ring.enqueuePos).sequence w.ring.enqueuePos = 0 := by
    rw [h.enqueue, slot, hindex 1 (by omega), h.freed 1 (by omega)]
    rfl
  have hpush : w.Pushed N 1 () _ := pushCall_pushed (h.idle 1) hgap
  refine ⟨?_, ?_, ?_, ?_, ?_, ?_⟩
  · rw [hpush.enqueue, h.enqueue]
    rfl
  · rw [hpush.dequeue, h.dequeue]
    omega
  · rw [slot, hpush.slots, h.enqueue, hindex 0 (by omega), hindex 1 (by omega),
      update_of_ne (by decide), h.freed 0 (by omega)]
  · rw [slot, hpush.slots, h.enqueue, hindex 1 (by omega), update_self]
    rfl
  · intro q
    rw [hpush.producers, h.idle q]
  · rw [hpush.consumer, h.consumer]

/-- A whole turn of the counter during one push leaves a published entry behind an empty slot. -/
theorem hollow_reached (hN : IsCapacity N) (hlt : N < 2 ^ 63) :
    ∃ es : List (MpscEvent Unit), (run (step N) init es).Hollow N := by
  obtain ⟨k, hk⟩ : ∃ k, k + N = 2 ^ 64 := ⟨2 ^ 64 - N, by omega⟩
  have hfull := ((stallAtClaim_held hN).laps hN k).fill hN (Nat.le_refl N)
  rw [Nat.zero_add, hk, show k = 2 ^ 64 - N by omega] at hfull
  have hhollow := ((hfull.tear hN).pops hN hlt (Nat.le_refl N)).push hN
  simp only [← run_append] at hhollow
  exact ⟨_, hhollow⟩

end MpscWorld

namespace ParkWorld

open MpscWorld

variable {α : Type*} {isStealing : Bool}

def quiet (r : MpscWorld α) : ParkWorld α where
  rings := update (fun _ => .init) .wake r
  isShutdown := false
  isParked := false
  isSignalled := false
  worker := .running
  signals := fun _ _ => .idle

theorem setSignal_self (w : ParkWorld α) (source : SignalSource) (p : Nat) (st : SignalState) :
    (w.setSignal source p st).signals source p = st := by
  simp [setSignal]

theorem setSignal_setSignal (w : ParkWorld α) (source : SignalSource) (p : Nat)
    (st st' : SignalState) :
    (w.setSignal source p st).setSignal source p st' = w.setSignal source p st' := by
  simp [setSignal]

theorem setSignal_idle {w : ParkWorld α} {source : SignalSource} {p : Nat}
    (h : w.signals source p = .idle) : w.setSignal source p .idle = w := by
  rw [setSignal, ← h, update_eq_self, update_eq_self]

def onWake : MpscEvent α → List (ParkEvent α)
  | .call p value => [.push .wake p value]
  | .produce p isSpurious => [.pushStep .wake p isSpurious, .signal (.ring .wake) p]
  | .callPop => [.pop .wake]
  | .consume => [.popStep .wake]

theorem quiet_stepRing (r : MpscWorld α) (e : MpscEvent α) :
    (quiet r).stepRing .wake e = quiet (r.step ParkRing.wake.capacity e) := by
  simp [quiet, stepRing]

theorem quiet_onWake (r : MpscWorld α) (e : MpscEvent α) :
    run (step isStealing) (quiet r) (onWake e) = quiet (r.step ParkRing.wake.capacity e) := by
  cases e with
  | produce p b =>
    have hafter : ∀ o : Option (Except α Unit), signalAfter .wake .idle o = .idle ∨
        signalAfter .wake .idle o = .checking := by
      rintro (_ | _ | _) <;> simp [signalAfter]
    rw [← quiet_stepRing]
    simp only [onWake, run_cons, run_nil, step, setSignal_self]
    -- The signal that a delivered push owes finds the flag lowered.
    rcases hafter ((quiet r).pushResult .wake p b) with hst | hst
    · simp only [show (quiet r).signals (.ring .wake) p = .idle from rfl, hst]
      exact setSignal_idle rfl
    · simp only [show (quiet r).signals (.ring .wake) p = .idle from rfl, hst, setSignal_setSignal]
      exact setSignal_idle rfl
  | _ => exact quiet_stepRing r _

theorem quiet_run (r : MpscWorld α) (es : List (MpscEvent α)) :
    run (step isStealing) (quiet r) (es.flatMap onWake) =
      quiet (run (MpscWorld.step ParkRing.wake.capacity) r es) := by
  induction es generalizing r with
  | nil => rfl
  | cons e es ih => rw [List.flatMap_cons, run_append, quiet_onWake, ih, run_cons]

theorem quiet_init : (quiet .init : ParkWorld α) = init := by
  simp [quiet, init]

def parkOnce : List (ParkEvent α) := [.park, .work, .work, .work, .work]

theorem parkOnce_blocks {r : MpscWorld Unit} (h : r.Hollow ParkRing.wake.capacity) :
    ∃ r', r'.ring = r.ring ∧ r'.producers = r.producers ∧
      run (step false) (quiet r) parkOnce =
        { quiet r' with isParked := true, worker := .blocked } := by
  have hgap : usizeMax / 2 < wrappingSub (r.ring.slot ParkRing.wake.capacity r.ring.dequeuePos).sequence
      (wrappingAdd r.ring.dequeuePos 1) := by
    rw [h.dequeue, h.empty]
    decide
  refine ⟨(((r.step ParkRing.wake.capacity .callPop).step ParkRing.wake.capacity .consume).step
    ParkRing.wake.capacity .consume), ?_, ?_, ?_⟩ <;>
  simp [parkOnce, step, work, quiet, stepRing, h.consumer, PopState.isIdle, MpscWorld.step,
    MpscWorld.init, consume, popStep, hgap, popResult, observe]

theorem stranded_of_hollow {r : MpscWorld Unit} (h : r.Hollow ParkRing.wake.capacity) :
    (run (step false) (quiet r) parkOnce).Stranded false := by
  obtain ⟨r', hring, hprod, hend⟩ := parkOnce_blocks h
  rw [hend]
  refine ⟨rfl, rfl, ⟨?_, fun _ _ => rfl⟩, .inr ⟨.wake, .inl rfl, 1, ?_, ?_⟩⟩
  · intro ρ p
    by_cases hρ : ρ = .wake
    · subst hρ
      simp only [quiet, update_self, hprod]
      exact h.idle p
    · simp only [quiet, update_of_ne hρ]
      rfl
  · simp only [quiet, update_self, hring, len, h.enqueue, h.dequeue]
    decide
  · simp only [quiet, update_self, hring, h.dequeue]
    exact h.published

/-- Without a bound on how long a push takes, the bracket of an affine worker can lose a wake. -/
theorem lapped_push_strands : ¬ ∀ (isStealing : Bool) (es : List (ParkEvent Unit)),
    ¬ (run (step isStealing) init es).Stranded isStealing := by
  intro hclaim
  obtain ⟨es, hes⟩ := hollow_reached ParkRing.wake.isCapacity (by decide)
  refine hclaim false (es.flatMap onWake ++ parkOnce) ?_
  rw [← quiet_init, run_append, quiet_run]
  exact stranded_of_hollow hes

end ParkWorld

end Kwokka
