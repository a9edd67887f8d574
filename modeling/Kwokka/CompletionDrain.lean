import Kwokka.Completion
import Kwokka.Runs

/-! Batched draining of the completion queue. The drain loop takes an entry off
the queue before it tests the batch cap, so a queue longer than the cap loses
the entry the test rejects. -/

namespace Kwokka

open Runs

/-- The `for cqe in cq` loop: each turn takes the head of the queue, then tests the cap. -/
def drainLoop (capacity : Nat) : List Cqe → Nat → List Completion →
    List Cqe × Nat × List Completion
  | [], count, out => ([], count, out)
  | cqe :: cq, count, out =>
    if capacity ≤ count then (cq, count, out)
    else drainLoop capacity cq (count + 1) (out.set count (translateCqe cqe))

def drainCompletions (cq : List Cqe) (max : Nat) (out : List Completion) :
    List Cqe × Nat × List Completion :=
  drainLoop (min max out.length) cq 0 out

theorem drainLoop_queue (capacity : Nat) (cq : List Cqe) (count : Nat) (out : List Completion)
    (hc : count ≤ capacity) :
    (drainLoop capacity cq count out).1 = cq.drop (capacity - count + 1) := by
  induction cq generalizing count out with
  | nil => simp [drainLoop]
  | cons cqe cq ih =>
    unfold drainLoop
    split
    · next hcap => simp [Nat.sub_eq_zero_of_le hcap]
    · next hcap =>
      rw [ih (count + 1) _ (by omega), show capacity - count = capacity - (count + 1) + 1 by omega]
      rfl

theorem drainLoop_count (capacity : Nat) (cq : List Cqe) (count : Nat) (out : List Completion)
    (hc : count ≤ capacity) :
    (drainLoop capacity cq count out).2.1 = min capacity (count + cq.length) := by
  induction cq generalizing count out with
  | nil => simp [drainLoop, hc]
  | cons cqe cq ih =>
    unfold drainLoop
    split
    · next hcap => simp; omega
    · next hcap => rw [ih (count + 1) _ (by omega), List.length_cons]; omega

theorem drainLoop_written (capacity : Nat) (cq : List Cqe) (count : Nat) (out : List Completion)
    (hc : count ≤ capacity) (hout : capacity ≤ out.length) :
    (drainLoop capacity cq count out).2.2.take (drainLoop capacity cq count out).2.1 =
      out.take count ++ (cq.take (capacity - count)).map translateCqe := by
  induction cq generalizing count out with
  | nil => simp [drainLoop]
  | cons cqe cq ih =>
    by_cases hcap : capacity ≤ count
    · simp [drainLoop, hcap, Nat.sub_eq_zero_of_le hcap]
    · have hset : (out.set count (translateCqe cqe)).take (count + 1) =
          out.take count ++ [translateCqe cqe] := by
        rw [List.take_add_one]
        simp [List.take_set_of_le, show count < out.length by omega]
      have hsub : capacity - count = capacity - (count + 1) + 1 := by omega
      rw [drainLoop, if_neg hcap, ih (count + 1) _ (by omega) (by simpa using hout), hset, hsub]
      simp

theorem drainCompletions_queue (cq : List Cqe) (max : Nat) (out : List Completion) :
    (drainCompletions cq max out).1 = cq.drop (min max out.length + 1) := by
  simpa [drainCompletions] using drainLoop_queue (min max out.length) cq 0 out (Nat.zero_le _)

theorem drainCompletions_count (cq : List Cqe) (max : Nat) (out : List Completion) :
    (drainCompletions cq max out).2.1 = min (min max out.length) cq.length := by
  simpa [drainCompletions] using drainLoop_count (min max out.length) cq 0 out (Nat.zero_le _)

theorem drainCompletions_written (cq : List Cqe) (max : Nat) (out : List Completion) :
    (drainCompletions cq max out).2.2.take (drainCompletions cq max out).2.1 =
      (cq.take (min max out.length)).map translateCqe := by
  simpa [drainCompletions] using drainLoop_written (min max out.length) cq 0 out (Nat.zero_le _)
    (Nat.min_le_right _ _)

/-- A ring seen from its drains: what is queued, all that was posted, all that was returned. -/
structure Ring where
  cq : List Cqe
  posted : List Cqe
  returned : List Completion
deriving DecidableEq, Repr

inductive RingEvent
  | post (cqe : Cqe)
  | drain (max : Nat) (out : List Completion)
deriving DecidableEq, Repr

namespace Ring

def empty : Ring := ⟨[], [], []⟩

def step (r : Ring) : RingEvent → Ring
  | .post cqe => { r with cq := r.cq ++ [cqe], posted := r.posted ++ [cqe] }
  | .drain max out =>
    let drained := drainCompletions r.cq max out
    { r with cq := drained.1, returned := r.returned ++ drained.2.2.take drained.2.1 }

/-- After the event the returned completions are a prefix of the posted ones, and a drain that
returns less than a full batch has returned everything posted before it. -/
def DeliversInOrder (r : Ring) (e : RingEvent) : Prop :=
  (r.step e).returned <+: (r.step e).posted.map translateCqe ∧
    match e with
    | .post _ => True
    | .drain max out => (drainCompletions r.cq max out).2.1 < min max out.length →
        (r.step e).returned = r.posted.map translateCqe

def WithinCap (r : Ring) : RingEvent → Prop
  | .post _ => True
  | .drain max out => r.cq.length ≤ min max out.length

def Conserves (r : Ring) : Prop :=
  r.posted.map translateCqe = r.returned ++ r.cq.map translateCqe

def Lossy (r : Ring) : Prop := r.returned.length + r.cq.length < r.posted.length

theorem step_drain (r : Ring) (max : Nat) (out : List Completion) :
    r.step (.drain max out) =
      { r with
        cq := r.cq.drop (min max out.length + 1)
        returned := r.returned ++ (r.cq.take (min max out.length)).map translateCqe } := by
  simp only [step, drainCompletions_queue, drainCompletions_written]

variable {r : Ring} {e : RingEvent}

theorem Conserves.step (hr : r.Conserves) (he : r.WithinCap e) : (r.step e).Conserves := by
  unfold Conserves at *
  cases e with
  | post => simp [Ring.step, hr]
  | drain =>
    simp only [WithinCap] at he
    rw [step_drain, List.take_of_length_le he, List.drop_of_length_le (by omega)]
    simpa using hr

theorem Conserves.deliversInOrder (hr : r.Conserves) (he : r.WithinCap e) :
    r.DeliversInOrder e := by
  refine ⟨⟨_, (hr.step he).symm⟩, ?_⟩
  cases e with
  | post => trivial
  | drain =>
    intro _
    rw [step_drain, List.take_of_length_le he]
    exact hr.symm

theorem Conserves.length (hr : r.Conserves) :
    r.returned.length + r.cq.length = r.posted.length := by
  simpa using (congrArg List.length hr).symm

theorem Lossy.step (e : RingEvent) (hr : r.Lossy) : (r.step e).Lossy := by
  unfold Lossy at *
  cases e with
  | post => simp [Ring.step]; omega
  | drain => simp [step_drain]; omega

theorem Conserves.lossy_step (hr : r.Conserves) (he : ¬ r.WithinCap e) : (r.step e).Lossy := by
  have hlen := hr.length
  cases e with
  | post => exact absurd trivial he
  | drain =>
    simp only [WithinCap] at he
    simp only [Lossy, step_drain, List.length_append, List.length_map, List.length_take,
      List.length_drop]
    omega

/-- A run that starts with nothing lost either keeps within the cap or loses an entry for good. -/
theorem Conserves.withinCap_or_lossy (hr : r.Conserves) (es : List RingEvent) :
    Meets Ring.step WithinCap r es ∨ (run Ring.step r es).Lossy := by
  induction es generalizing r with
  | nil => exact .inl trivial
  | cons e es ih =>
    by_cases he : r.WithinCap e
    · exact (ih (hr.step he)).imp_left fun hes => ⟨he, hes⟩
    · exact .inr (run_invariant (fun _ e hl => hl.step e) (hr.lossy_step he) es)

theorem Lossy.not_deliversInOrder {max : Nat} {out : List Completion} (hr : r.Lossy)
    (hroom : r.cq.length < min max out.length) : ¬ r.DeliversInOrder (.drain max out) := by
  intro ⟨_, hall⟩
  have hlast := hall (by rw [drainCompletions_count]; omega)
  have hlen := congrArg List.length hlast
  have hlossy := hr.step (.drain max out)
  simp only [Lossy, List.length_map] at hlossy hlen
  simp only [step_drain] at hlossy hlen
  omega

/-- Exactly the runs whose drains never find more entries than their batch cap deliver every
entry in order and let a later drain with room to spare complete the delivery. -/
theorem deliversInOrder_iff_withinCap (es : List RingEvent) :
    Meets step WithinCap empty es ↔
      Meets step DeliversInOrder empty es ∧
        ∀ max out, (run step empty es).cq.length < min max out.length →
          Meets step DeliversInOrder empty (es ++ [.drain max out]) := by
  have hempty : empty.Conserves := rfl
  have hdelivers : ∀ {fs}, Meets step WithinCap empty fs → Meets step DeliversInOrder empty fs :=
    fun hfs => hfs.of_invariant (fun _ _ => Conserves.step) (fun _ _ => Conserves.deliversInOrder)
      hempty
  constructor
  · intro hes
    refine ⟨hdelivers hes, fun max out hroom => hdelivers (meets_append.2 ⟨hes, ?_, trivial⟩)⟩
    exact Nat.le_of_lt hroom
  · rintro ⟨-, hlater⟩
    rcases hempty.withinCap_or_lossy es with hes | hlossy
    · exact hes
    · let room := (run step empty es).cq.length + 1
      have hroom : (run step empty es).cq.length <
          min room (List.replicate room Completion.default).length := by simp [room]
      have hlast := (meets_append.1 (hlater room _ hroom)).2.1
      exact absurd hlast (hlossy.not_deliversInOrder hroom)

/-- Three entries queued and two drains of one entry each: the second entry is never returned. -/
theorem batch_of_one_skips_entry :
    ¬ Meets step DeliversInOrder empty
      [.post ⟨1, 0, 0⟩, .post ⟨2, 0, 0⟩, .post ⟨3, 0, 0⟩,
        .drain 1 [Completion.default], .drain 1 [Completion.default]] := by
  intro h
  have hlast := h.2.2.2.2.1.1
  revert hlast
  decide

end Ring

end Kwokka
