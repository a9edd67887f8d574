import Kwokka.SlabRuns
import Kwokka.StealShard

/-! Sleeps and the timer wheel, which is as large as the task slab: whether the arm of a sleep can be
refused. A timer stays on the wheel when the sleep that armed it is dropped. -/

namespace Kwokka

structure Sleep where
  delayTicks : Nat
  armed : Bool
deriving DecidableEq, Repr

/-- `true` is `Ready`. An arm that the inbox refuses is retried, as the task wakes itself. -/
def Sleep.poll (sleep : Sleep) (shard : Shard) (task : TaskRef) : Bool × Sleep × Shard :=
  if sleep.delayTicks = 0 then (true, sleep, shard)
  else if sleep.armed then (true, sleep, shard)
  else
    let (armed, shard) := shard.requestTimer task sleep.delayTicks
    (false, { sleep with armed }, shard)

theorem Sleep.poll_shard (sleep : Sleep) (shard : Shard) (task : TaskRef) :
    (sleep.poll shard task).2.2 = shard ∨ sleep.delayTicks ≠ 0 ∧ sleep.armed = false ∧
      (sleep.poll shard task).2.2 =
        { shard with timerRequests := shard.timerRequests ++ [⟨task, sleep.delayTicks⟩] } := by
  unfold poll Shard.requestTimer
  grind

/-- `armedFor` is the task that armed the sleep and what the clock read then. A sleep that was dropped
or has returned `Ready` is not held any more. -/
structure HeldSleep where
  sleep : Sleep
  armedFor : Option (TaskRef × Nat)
  isHeld : Bool
deriving DecidableEq, Repr

structure SleepWorld where
  shard : Shard
  clock : Nat
  polling : Option TaskRef
  sleeps : List HeldSleep

/-- `slab` is whatever else the worker does to its tasks: it spawns, cancels, reaps and relocates
them. `arm` is one turn of the loop that ends a tick. -/
inductive SleepEvent
  | slab (op : SlabOp TaskHeader)
  | elapse (ticks : Nat)
  | wake (ref : TaskRef)
  | fire
  | startPoll
  | create (delayTicks : Nat)
  | pollSleep (i : Nat)
  | dropSleep (i : Nat)
  | finishPoll (isReady : Bool) (submitted : Nat)
  | arm

/-- The slots of the timers that are on the wheel or on their way to it. -/
def Shard.armedSlots (shard : Shard) : List Nat :=
  shard.timers.map (·.2.key.index) ++ shard.timerRequests.map (·.taskRef.key.index)

namespace SleepWorld

def init (tasks : Slab TaskHeader) : SleepWorld where
  shard :=
    { id := 0
      tasks
      runQueue := []
      timers := []
      timerCapacity := tasks.slots.length
      timerRequests := []
      spawnInbox := []
      pipSeq := 1 }
  clock := 0
  polling := none
  sleeps := []

variable (w : SleepWorld)

def pollSleep (i : Nat) : SleepWorld :=
  match w.polling, w.sleeps[i]? with
  | some task, some held =>
    if held.isHeld then
      let (isReady, sleep, shard) := held.sleep.poll w.shard task
      let armedFor := if sleep.armed then held.armedFor.or (some (task, w.clock)) else none
      { w with shard, sleeps := w.sleeps.set i ⟨sleep, armedFor, !isReady⟩ }
    else w
  | _, _ => w

def arm : SleepWorld :=
  match w.shard.timerRequests with
  | [] => w
  | request :: rest =>
    let deadline := min (w.clock + request.delayTicks) (2 ^ 64 - 1)
    { w with shard := { w.shard with timerRequests := rest }.register request.taskRef deadline }

def step : SleepEvent → SleepWorld
  | .slab op =>
    match w.shard.tasks.apply op with
    | .ok (_, tasks) => { w with shard := { w.shard with tasks } }
    | _ => w
  | .elapse ticks => { w with clock := w.clock + ticks }
  | .wake ref => { w with shard := w.shard.wakeLocal ref }
  | .fire => { w with shard := (w.shard.advanceTo w.clock).2 }
  | .startPoll =>
    match w.shard.startPoll with
    | (.started ref, shard) => { w with shard, polling := some ref }
    | (_, shard) => { w with shard }
  | .create delayTicks => { w with sleeps := w.sleeps ++ [⟨⟨delayTicks, false⟩, none, true⟩] }
  | .pollSleep i => w.pollSleep i
  | .dropSleep i => { w with sleeps := w.sleeps.modify i fun held => { held with isHeld := false } }
  | .finishPoll isReady submitted =>
    match w.polling with
    | some ref => { w with shard := w.shard.finishPoll ref isReady submitted, polling := none }
    | none => w
  | .arm => w.arm

/-- The next turn of the loop finds the wheel full, and its arm is dropped. -/
def refuses : Bool :=
  !w.shard.timerRequests.isEmpty && decide (w.shard.timerCapacity ≤ w.shard.timers.length)

/-- A live task in this slot waits for a sleep that has not expired. -/
def isSleepingIn (index : Nat) : Bool :=
  w.sleeps.any fun held => held.isHeld && held.armedFor.any fun (task, t) =>
    task.key.index == index && (w.shard.header task.key).any (!·.isSettled) &&
      decide (w.clock < t + held.sleep.delayTicks)

/-- No slot has two timers on the wheel, and each is still slept on. -/
def awaitsTimers : Bool :=
  decide (w.shard.timers.map (·.2.key.index)).Nodup &&
    w.shard.timers.all fun timer => w.isSleepingIn timer.2.key.index

/-- A sleep is armed only when no timer armed from its task's slot is left. -/
def armsAlone : SleepEvent → Bool
  | .pollSleep i => (w.sleeps[i]?).all fun held => held.sleep.delayTicks == 0 || held.sleep.armed ||
      w.polling.all fun task => !w.shard.armedSlots.contains task.key.index
  | _ => true

end SleepWorld

namespace Shard

/-- What is left on the wheel and on its way to it was there before; the slab is as large. -/
structure KeepsArms (shard shard' : Shard) : Prop where
  slots : shard'.tasks.slots.length = shard.tasks.slots.length
  capacity : shard'.timerCapacity = shard.timerCapacity
  timers : shard'.timers.Sublist shard.timers
  requests : shard'.timerRequests.Sublist shard.timerRequests

variable {shard shard' shard'' : Shard}

theorem KeepsArms.trans (h : KeepsArms shard shard') (h' : KeepsArms shard' shard'') :
    KeepsArms shard shard'' :=
  ⟨h'.slots.trans h.slots, h'.capacity.trans h.capacity, h'.timers.trans h.timers,
    h'.requests.trans h.requests⟩

theorem modify_keepsArms (shard : Shard) (key : SlabKey) (f : TaskHeader → TaskHeader) :
    KeepsArms shard (shard.modify key f) := by
  unfold modify
  cases hget : shard.tasks.getMut key f with
  | none => exact ⟨rfl, rfl, .refl _, .refl _⟩
  | some tasks =>
    have happly : shard.tasks.apply (.getMut key f) = .ok (.done true, tasks) := by
      simp only [Slab.apply, hget]
    exact ⟨Slab.apply_length happly, rfl, .refl _, .refl _⟩

theorem wakeLocal_keepsArms (shard : Shard) (ref : TaskRef) :
    KeepsArms shard (shard.wakeLocal ref) := by
  unfold wakeLocal
  split
  · split
    · have h := modify_keepsArms shard ref.key
      exact ⟨(h _).slots, (h _).capacity, (h _).timers, (h _).requests⟩
    · exact ⟨rfl, rfl, .refl _, .refl _⟩
  · exact ⟨rfl, rfl, .refl _, .refl _⟩

theorem advanceTo_keepsArms (shard : Shard) (now : Nat) :
    KeepsArms shard (shard.advanceTo now).2 := by
  have hwakes : ∀ (refs : List TaskRef) (s : Shard), KeepsArms shard s →
      KeepsArms shard (refs.foldl wakeLocal s) := by
    intro refs
    induction refs with
    | nil => exact fun s h => h
    | cons ref refs ih => exact fun s h => ih _ (h.trans (wakeLocal_keepsArms s ref))
  exact hwakes _ _ ⟨rfl, rfl, List.dropWhile_sublist _, .refl _⟩

theorem startPoll_keepsArms (shard : Shard) : KeepsArms shard shard.startPoll.2 ∧
    ∀ ref, shard.startPoll.1 = .started ref → ref.key.index < shard.tasks.slots.length := by
  have hsame : ∀ rest, KeepsArms shard { shard with runQueue := rest } := fun _ =>
    ⟨rfl, rfl, .refl _, .refl _⟩
  unfold startPoll
  cases hqueue : shard.runQueue with
  | nil => exact ⟨⟨rfl, rfl, .refl _, .refl _⟩, by simp⟩
  | cons ref rest =>
    dsimp only
    cases hheader : ({ shard with runQueue := rest } : Shard).header ref.key with
    | none => exact ⟨hsame rest, by simp⟩
    | some header =>
      dsimp only
      cases header.state.tryStartPoll with
      | error => exact ⟨hsame rest, by simp⟩
      | ok =>
        refine ⟨(hsame rest).trans (modify_keepsArms _ _ _), fun ref' href => ?_⟩
        obtain ⟨slot, hslot, -⟩ := Slab.stored_eq_some.mp hheader
        cases href
        exact (List.getElem?_eq_some_iff.mp hslot).1

theorem finishPoll_keepsArms (shard : Shard) (ref : TaskRef) (isReady : Bool) (submitted : Nat) :
    KeepsArms shard (shard.finishPoll ref isReady submitted) := by
  unfold finishPoll
  split
  · exact ⟨rfl, rfl, .refl _, .refl _⟩
  · dsimp only
    split
    · have h := modify_keepsArms shard ref.key
      exact ⟨(h _).slots, (h _).capacity, (h _).timers, (h _).requests⟩
    · exact modify_keepsArms shard _ _

end Shard

namespace SleepWorld

variable {w : SleepWorld} {isAlone : Prop}

structure Armed (isAlone : Prop) (w : SleepWorld) : Prop where
  slots : w.shard.tasks.slots.length = w.shard.timerCapacity
  alone : isAlone → w.shard.armedSlots.Nodup
  bound : ∀ i ∈ w.shard.armedSlots, i < w.shard.timerCapacity
  polling : ∀ task ∈ w.polling, task.key.index < w.shard.timerCapacity

theorem Armed.not_refuses (h : w.Armed True) : w.refuses = false := by
  have hle : w.shard.armedSlots.length ≤ w.shard.timerCapacity := by
    have := (h.alone trivial).length_le_of_subset fun i hi => List.mem_range.mpr (h.bound i hi)
    rwa [List.length_range] at this
  rw [Shard.armedSlots, List.length_append, List.length_map, List.length_map] at hle
  cases hrequests : w.shard.timerRequests with
  | nil => simp [refuses, hrequests]
  | cons =>
    rw [hrequests, List.length_cons] at hle
    simp only [refuses, hrequests, List.isEmpty_cons, Bool.not_false, Bool.true_and,
      decide_eq_false_iff_not]
    omega

theorem Armed.asleep (h : w.Armed isAlone) (hrefuses : w.refuses = true)
    (hawaits : w.awaitsTimers = true) :
    ∀ i < w.shard.tasks.slots.length, w.isSleepingIn i = true := by
  obtain ⟨-, hfull⟩ : _ ∧ w.shard.timerCapacity ≤ w.shard.timers.length := by
    simpa [refuses] using hrefuses
  obtain ⟨hnodup, hasleep⟩ : (w.shard.timers.map (·.2.key.index)).Nodup ∧ _ := by
    simpa only [awaitsTimers, Bool.and_eq_true, decide_eq_true_iff, List.all_eq_true] using hawaits
  have hsub : ∀ i ∈ w.shard.timers.map (·.2.key.index), i ∈ List.range w.shard.timerCapacity :=
    fun i hi => List.mem_range.mpr (h.bound i (List.mem_append_left _ hi))
  -- as many timers as slots, no two of one slot: every slot has one
  have hperm := (List.subperm_of_subset hnodup hsub).perm_of_length_le (by simpa using hfull)
  intro i hi
  rw [h.slots, ← List.mem_range, ← hperm.mem_iff] at hi
  obtain ⟨timer, htimer, rfl⟩ := List.mem_map.mp hi
  exact hasleep timer htimer

theorem Armed.frame (h : w.Armed isAlone) {shard : Shard} {polling : Option TaskRef}
    (hshard : w.shard.KeepsArms shard)
    (hpolling : ∀ task ∈ polling, task.key.index < w.shard.timerCapacity) (clock : Nat)
    (sleeps : List HeldSleep) : Armed isAlone ⟨shard, clock, polling, sleeps⟩ := by
  have hsub : shard.armedSlots.Sublist w.shard.armedSlots :=
    (hshard.timers.map _).append (hshard.requests.map _)
  refine ⟨?_, fun halone => (h.alone halone).sublist hsub, fun i hi => ?_, ?_⟩
  · rw [hshard.slots, hshard.capacity, h.slots]
  · rw [hshard.capacity]
    exact h.bound i (hsub.subset hi)
  · rwa [hshard.capacity]

theorem Armed.startPoll (h : w.Armed isAlone) : (w.step .startPoll).Armed isAlone := by
  obtain ⟨hkeeps, hstarted⟩ := w.shard.startPoll_keepsArms
  rw [h.slots] at hstarted
  simp only [step]
  split
  next heq =>
    rw [heq] at hkeeps hstarted
    refine h.frame hkeeps ?_ _ _
    rintro task ⟨⟩
    exact hstarted _ rfl
  next heq =>
    rw [heq] at hkeeps
    exact h.frame hkeeps h.polling _ _

theorem Armed.pollSleep (h : w.Armed isAlone) {i : Nat}
    (hcond : isAlone → w.armsAlone (.pollSleep i) = true) : (w.pollSleep i).Armed isAlone := by
  unfold SleepWorld.pollSleep
  split
  case h_2 => exact h
  case h_1 task held hpolling hheld =>
  split
  case isFalse => exact h
  case isTrue =>
  have hpoll := held.sleep.poll_shard w.shard task
  generalize held.sleep.poll w.shard task = answer at hpoll
  obtain ⟨isReady, sleep, shard⟩ := answer
  rcases hpoll with rfl | ⟨hdelay, harmed, rfl⟩
  · exact h.frame ⟨rfl, rfl, .refl _, .refl _⟩ h.polling _ _
  · have hnew : isAlone → task.key.index ∉ w.shard.armedSlots := fun halone => by
      simpa [armsAlone, hpolling, hheld, harmed, hdelay] using hcond halone
    have hslots : ({ w.shard with timerRequests := w.shard.timerRequests ++
        [⟨task, held.sleep.delayTicks⟩] } : Shard).armedSlots =
          w.shard.armedSlots.concat task.key.index := by
      simp [Shard.armedSlots]
    refine ⟨h.slots, fun halone => hslots ▸ (h.alone halone).concat (hnew halone), fun i hi => ?_,
      h.polling⟩
    rw [hslots, List.concat_eq_append] at hi
    rcases List.mem_append.mp hi with hold | hi
    · exact h.bound i hold
    · rw [List.mem_singleton.mp hi]
      exact h.polling task hpolling

theorem Armed.arm (h : w.Armed isAlone) : w.arm.Armed isAlone := by
  unfold SleepWorld.arm
  cases hrequests : w.shard.timerRequests with
  | nil => exact h
  | cons request rest =>
    by_cases hroom : w.shard.timers.length < w.shard.timerCapacity
    case neg =>
      simp only [Shard.register, hroom, if_false]
      have hkeeps : w.shard.KeepsArms { w.shard with timerRequests := rest } :=
        ⟨rfl, rfl, .refl _, hrequests ▸ List.sublist_cons_self ..⟩
      exact h.frame hkeeps h.polling _ _
    simp only [Shard.register, hroom, if_true]
    set deadline := min (w.clock + request.delayTicks) (2 ^ 64 - 1)
    have hperm : (w.shard.timers.orderedInsert (fun a b => a.1 ≤ b.1)
        (deadline, request.taskRef)).map (·.2.key.index) ++ rest.map (·.taskRef.key.index)
          |>.Perm w.shard.armedSlots := by
      rw [Shard.armedSlots, hrequests]
      exact (((List.perm_orderedInsert _ _ _).map _).append_right _).trans List.perm_middle.symm
    exact ⟨h.slots, fun halone => hperm.nodup_iff.mpr (h.alone halone),
      fun i hi => h.bound i (hperm.mem_iff.mp hi), h.polling⟩

theorem armed_step (h : w.Armed isAlone) {e : SleepEvent}
    (hcond : isAlone → w.armsAlone e = true) : (w.step e).Armed isAlone := by
  have hsame : w.shard.KeepsArms w.shard := ⟨rfl, rfl, .refl _, .refl _⟩
  cases e with
  | slab =>
    simp only [step]
    split
    next tasks heq =>
      have hkeeps : w.shard.KeepsArms { w.shard with tasks } :=
        ⟨Slab.apply_length heq, rfl, .refl _, .refl _⟩
      exact h.frame hkeeps h.polling _ _
    next => exact h
  | elapse ticks | create delayTicks | dropSleep i => exact h.frame hsame h.polling _ _
  | wake ref => exact h.frame (w.shard.wakeLocal_keepsArms ref) h.polling _ _
  | fire => exact h.frame (w.shard.advanceTo_keepsArms w.clock) h.polling _ _
  | startPoll => exact h.startPoll
  | pollSleep => exact h.pollSleep hcond
  | finishPoll isReady submitted =>
    simp only [step]
    split
    · exact h.frame (w.shard.finishPoll_keepsArms _ isReady submitted) (by simp) _ _
    · exact h
  | arm => exact h.arm

/-- As long as no slot has two timers, the wheel has room for every arm. In every run, an arm is
refused only when each slot holds a live task with a pending sleep, if no slot then has two timers
on the wheel and no timer there outlives its sleep. -/
theorem arm_never_refused (tasks : Slab TaskHeader) (es : List SleepEvent) :
    let w := Runs.run step (init tasks) es
    (Runs.Meets step (fun w e => w.armsAlone e = true) (init tasks) es → w.refuses = false) ∧
      (w.refuses = true → w.awaitsTimers = true →
        ∀ i < w.shard.tasks.slots.length, w.isSleepingIn i = true) := by
  have hinit : ∀ isAlone, (init tasks).Armed isAlone := fun _ =>
    ⟨rfl, fun _ => .nil, by simp [Shard.armedSlots, init], by simp [init]⟩
  refine ⟨fun hes => ?_, ?_⟩
  · exact (hes.invariant (fun _ _ h hcond => armed_step h fun _ => hcond) (hinit True)).not_refuses
  · have hstep : ∀ w e, Armed False w → Armed False (step w e) := fun _ _ h =>
      armed_step h False.elim
    exact (Runs.run_invariant hstep (hinit False) es).asleep

/-- Two sleeps of a task, the second armed once the first has expired. -/
def sleepTwice : List SleepEvent :=
  [.slab (.insert (.new ⟨0, 1⟩)), .wake ⟨0, ⟨0, 1⟩⟩, .startPoll, .create 5, .pollSleep 0,
    .finishPoll false 0, .arm, .elapse 5, .fire, .startPoll, .pollSleep 0, .create 7, .pollSleep 1,
    .finishPoll false 0]

/-- A task awaits two sleeps at once on a wheel with room for one. -/
def sleepBoth : List SleepEvent :=
  [.slab (.insert (.new ⟨0, 1⟩)), .wake ⟨0, ⟨0, 1⟩⟩, .startPoll, .create 5, .pollSleep 0, .create 7,
    .pollSleep 1, .finishPoll false 0, .arm]

theorem arm_never_refused_twice : ∃ tasks, Slab.new 1 = .ok tasks ∧
    (Runs.run step (init tasks) sleepTwice).refuses = false ∧
    (Runs.run step (init tasks) sleepBoth).isSleepingIn 0 = true :=
  ⟨_, rfl, (arm_never_refused _ sleepTwice).1 (by decide),
    (arm_never_refused _ sleepBoth).2 (by decide) (by decide) 0 (by decide)⟩

/-- The only task of a slab with two slots drops two sleeps after their first poll and awaits a third. -/
def dropTwo : List SleepEvent :=
  [.slab (.insert (.new ⟨0, 1⟩)), .wake ⟨0, ⟨0, 1⟩⟩, .startPoll, .create 9, .pollSleep 0,
    .dropSleep 0, .create 9, .pollSleep 1, .dropSleep 1, .create 9, .pollSleep 2,
    .finishPoll false 0, .arm, .arm]

theorem dropped_sleeps_fill_wheel : ∃ tasks, Slab.new 2 = .ok tasks ∧
    let w := Runs.run step (init tasks) dropTwo
    w.refuses = true ∧ w.isSleepingIn 0 = true ∧ w.isSleepingIn 1 = false ∧
      w.shard.tasks.getByIndex 1 = none :=
  ⟨_, rfl, by decide⟩

end SleepWorld

end Kwokka
