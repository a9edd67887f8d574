import Kwokka.CancelRecords
import Kwokka.CompletionDrain

/-! The oneshot read that a worker keeps on its wake fd. `block_on` arms it on
entry and the completion drain arms it again for each wake completion; all of them
target one buffer of the driver. -/

namespace Kwokka

open Runs

/-- `reads` counts the armed reads that the kernel has not completed, and `batch` holds the
completions of the current drain that its loop has not looked at. -/
structure WakeRing where
  isRunning : Bool
  signals : Nat
  reads : Nat
  cq : List Cqe
  batch : List Completion
deriving DecidableEq, Repr

/-- A submission that finds the queue full arms nothing, and its result is ignored. -/
inductive WakeRingEvent
  | blockOn (isQueueFull : Bool)
  | leave
  | signal
  /-- The kernel completes an armed read once the eventfd was signalled. -/
  | complete
  | post (cqe : Cqe)
  | readBatch
  | process (isQueueFull : Bool)
deriving DecidableEq, Repr

namespace WakeRing

def init : WakeRing := ⟨false, 0, 0, [], []⟩

def armWakeRead (r : WakeRing) (isQueueFull : Bool) : WakeRing :=
  if isQueueFull then r else { r with reads := r.reads + 1 }

def drainOne (r : WakeRing) (isQueueFull : Bool) : WakeRing :=
  match r.batch with
  | [] => r
  | completion :: rest =>
    if completion.token = wakeFdUserData then { r with batch := rest }.armWakeRead isQueueFull
    else { r with batch := rest }

def step (r : WakeRing) : WakeRingEvent → WakeRing
  | .blockOn isQueueFull =>
    if r.isRunning then r else { r with isRunning := true }.armWakeRead isQueueFull
  | .leave => if r.batch = [] then { r with isRunning := false } else r
  | .signal => { r with signals := r.signals + 1 }
  | .complete =>
    if 0 < r.reads ∧ 0 < r.signals then
      { r with reads := r.reads - 1, signals := 0, cq := r.cq ++ [⟨wakeFdUserData, 8, 0⟩] }
    else r
  | .post cqe => if cqe.userData = wakeFdUserData then r else { r with cq := r.cq ++ [cqe] }
  | .readBatch =>
    if r.isRunning ∧ r.batch = [] then
      let drained := drainCompletions r.cq completionBatch
        (List.replicate completionBatch Completion.default)
      { r with cq := drained.1, batch := drained.2.2.take drained.2.1 }
    else r
  | .process isQueueFull => r.drainOne isQueueFull

def outstanding (r : WakeRing) : Nat :=
  r.reads + r.cq.countP (·.userData == wakeFdUserData) +
    r.batch.countP (·.token == wakeFdUserData)

/-- `block_on` is entered with no wake read outstanding, or its own is refused. -/
def EntersIdle (r : WakeRing) : WakeRingEvent → Prop
  | .blockOn isQueueFull => r.isRunning ∨ isQueueFull ∨ r.outstanding = 0
  | _ => True

/-- `true` is an entry into `block_on` whose read is accepted. `false` is a wake read that ends with
none armed in its place: the arm after its completion is refused, or its completion is the entry
that a batch skips. -/
def mark (r : WakeRing) : WakeRingEvent → Option Bool
  | .blockOn isQueueFull => if r.isRunning || isQueueFull then none else some true
  | .readBatch =>
    if r.isRunning && r.batch.isEmpty && r.cq[completionBatch]?.any (·.userData == wakeFdUserData)
    then some false else none
  | .process isQueueFull =>
    if isQueueFull && r.batch.head?.any (·.token == wakeFdUserData) then some false else none
  | _ => none

def marks (r : WakeRing) : List WakeRingEvent → List Bool
  | [] => []
  | e :: es => (r.mark e).toList ++ (r.step e).marks es

/-- Between two accepted entries there is an end. -/
def MarksApart (ms : List Bool) : Prop :=
  ms.IsChain fun earlier later => earlier = true → later = false

variable {r : WakeRing}

theorem outstanding_process (r : WakeRing) (isQueueFull : Bool) :
    (r.drainOne isQueueFull).outstanding +
      (if r.mark (.process isQueueFull) = some false then 1 else 0) = r.outstanding := by
  cases hbatch : r.batch with
  | nil => simp [drainOne, mark, hbatch]
  | cons completion rest =>
    by_cases hwake : completion.token = wakeFdUserData <;> cases isQueueFull <;>
      simp [drainOne, mark, hbatch, hwake, armWakeRead, outstanding] <;> omega

theorem outstanding_readBatch (r : WakeRing) : (r.step .readBatch).outstanding +
    (if r.mark .readBatch = some false then 1 else 0) = r.outstanding := by
  by_cases h : r.isRunning = true ∧ r.batch = []
  · have hcap : min completionBatch
        (List.replicate completionBatch Completion.default).length = completionBatch := by simp
    have htoken : (fun completion : Completion => completion.token == wakeFdUserData) ∘
        translateCqe = fun cqe => cqe.userData == wakeFdUserData := rfl
    -- one entry between the batch and the rest of the queue is skipped
    have hskipped : r.cq.drop completionBatch =
        r.cq[completionBatch]?.toList ++ r.cq.drop (completionBatch + 1) := by
      apply List.ext_getElem?
      grind
    have hcount := congrArg (List.countP fun cqe : Cqe => cqe.userData == wakeFdUserData)
      (List.take_append_drop completionBatch r.cq)
    rw [hskipped, List.countP_append, List.countP_append] at hcount
    simp only [step, h, and_self, if_true, outstanding, drainCompletions_queue,
      drainCompletions_written, hcap, List.countP_map, htoken, List.countP_nil, mark,
      List.isEmpty_nil, Bool.true_and]
    cases hskip : r.cq[completionBatch]? with
    | none =>
      simp [hskip] at hcount ⊢
      omega
    | some cqe =>
      by_cases hwake : cqe.userData = wakeFdUserData <;> simp [hskip, hwake] at hcount ⊢ <;> omega
  · have hmark : r.mark .readBatch = none := by
      simp only [mark]
      grind
    simp [step, h, hmark]

/-- Only an accepted entry adds a read, and only an end without an arm takes one away. -/
theorem outstanding_step (r : WakeRing) (e : WakeRingEvent) :
    (r.step e).outstanding + (if r.mark e = some false then 1 else 0) =
      r.outstanding + if r.mark e = some true then 1 else 0 := by
  cases e with
  | blockOn isQueueFull =>
    cases hrun : r.isRunning <;> cases isQueueFull <;>
      simp [step, mark, hrun, armWakeRead, outstanding]
    omega
  | leave =>
    rw [step]
    split <;> rfl
  | signal => rfl
  | complete =>
    rw [step]
    split
    · next h =>
      simp [outstanding, mark]
      omega
    · rfl
  | post =>
    rw [step]
    split
    · rfl
    · next hne => simp [outstanding, hne, mark]
  | readBatch =>
    rw [outstanding_readBatch]
    simp [mark]
  | process isQueueFull =>
    rw [step, outstanding_process]
    simp [mark]

theorem outstanding_step_iff (e : WakeRingEvent) (hr : r.outstanding ≤ 1) :
    (r.step e).outstanding ≤ 1 ↔ r.EntersIdle e := by
  have hstep := outstanding_step r e
  cases e with
  | blockOn isQueueFull =>
    cases hrun : r.isRunning <;> cases isQueueFull <;> simp [mark, hrun, EntersIdle] at hstep ⊢ <;>
      omega
  | _ =>
    refine iff_of_true ?_ trivial
    simp [mark] at hstep
    omega

-- The last mark tells whether a read is outstanding.
theorem meets_entersIdle_iff (es : List WakeRingEvent) (hr : r.outstanding ≤ 1) :
    Meets step EntersIdle r es ↔ MarksApart (decide (r.outstanding = 1) :: r.marks es) := by
  induction es generalizing r with
  | nil => simp [Meets, marks, MarksApart]
  | cons e es ih =>
    have hstep := outstanding_step r e
    rw [Meets, ← outstanding_step_iff e hr, marks]
    cases hmark : r.mark e with
    | none =>
      have hsame : (r.step e).outstanding = r.outstanding := by simpa [hmark] using hstep
      rw [ih (hsame ▸ hr)]
      simp [hsame, hr]
    | some isEntry =>
      cases isEntry with
      | false =>
        obtain ⟨hafter, hbefore⟩ : (r.step e).outstanding = 0 ∧ r.outstanding = 1 := by
          simp [hmark] at hstep
          omega
        rw [ih (by omega)]
        simp [hafter, hbefore, MarksApart]
      | true =>
        have hafter : (r.step e).outstanding = r.outstanding + 1 := by simpa [hmark] using hstep
        by_cases hidle : r.outstanding = 0
        · rw [ih (by omega)]
          simp [hafter, hidle, MarksApart]
        · have hbefore : r.outstanding = 1 := by omega
          simp [hafter, hbefore, MarksApart]

/-- Exactly the runs that enter `block_on` with no wake read outstanding keep at most one of them
outstanding. They are the runs in which some read ends without an arm between any two accepted
entries. -/
theorem atMostOne_iff_entersIdle (es : List WakeRingEvent) :
    (Meets step (fun r e => (r.step e).outstanding ≤ 1) init es ↔ Meets step EntersIdle init es) ∧
      (Meets step EntersIdle init es ↔ MarksApart (init.marks es)) := by
  have hgen : ∀ r, r.outstanding ≤ 1 →
      (Meets step (fun r e => (r.step e).outstanding ≤ 1) r es ↔ Meets step EntersIdle r es) := by
    induction es with
    | nil => exact fun _ _ => Iff.rfl
    | cons e es ih =>
      intro r hr
      rw [Meets, Meets, ← outstanding_step_iff e hr]
      exact and_congr_right (ih _)
  refine ⟨hgen init (by decide), (meets_entersIdle_iff es (by decide)).trans ?_⟩
  cases h : init.marks es <;> simp [MarksApart, init, outstanding]

/-- Two calls of `block_on` whose roots settle without a signal in between. -/
theorem second_blockOn_arms_twice :
    ¬ Meets step (fun r e => (r.step e).outstanding ≤ 1) init
      [.blockOn false, .readBatch, .leave, .blockOn false] := by
  decide +kernel

end WakeRing

end Kwokka
