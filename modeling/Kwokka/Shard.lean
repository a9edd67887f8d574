import Kwokka.SlabMap
import Kwokka.TaskHeader
import Mathlib.Data.List.Sort

/-! One worker's own state: its task slab, run queue, timers and the inboxes that
a poll fills, with the steps of a pass that touch nothing else. -/

namespace Kwokka

structure TimerRequest where
  taskRef : TaskRef
  delayTicks : Nat
deriving DecidableEq, Repr

def timerInboxCapacity : Nat := 64

def spawnInboxCapacity : Nat := 64

/-- `Rescheduled` needs a wake that lands during the poll, which no transition allows. -/
inductive PollOutcome
  | completed
  | suspended
  | rescheduled
  | skipped (observed : TaskState)
deriving DecidableEq, Repr

/-- The run queue is the list that the links through the headers spell out, and the timers are the
pending registrations of the wheel in the order of their deadlines. -/
structure Shard where
  id : Nat
  tasks : Slab TaskHeader
  runQueue : List TaskRef
  timers : List (Nat × TaskRef)
  timerCapacity : Nat
  timerRequests : List TimerRequest
  spawnInbox : List TaskRef
  pipSeq : Nat
deriving DecidableEq, Repr

variable (shard : Shard) (ref : TaskRef)

namespace Shard

def header (key : SlabKey) : Option TaskHeader := shard.tasks.stored key

/-- A write through `tasks.get_mut(key)`; a key that no longer resolves is dropped. -/
def modify (key : SlabKey) (f : TaskHeader → TaskHeader) : Shard :=
  match shard.tasks.getMut key f with
  | some tasks => { shard with tasks }
  | none => shard

def setState (key : SlabKey) (state : TaskState) : Shard :=
  shard.modify key fun header => { header with state }

def enqueue : Shard :=
  { shard with runQueue := shard.runQueue ++ [ref] }

/-- Only a sleeping task is woken, so a duplicate wake never queues it twice. -/
def wakeLocal : Shard :=
  match shard.header ref.key with
  | some header =>
    match header.state.wake with
    | .ok state => (shard.setState ref.key state).enqueue ref
    | .error _ => shard
  | none => shard

def advanceTo (now : Nat) : Bool × Shard :=
  let due := shard.timers.takeWhile fun timer => timer.1 ≤ now
  let rest := shard.timers.dropWhile fun timer => timer.1 ≤ now
  (!due.isEmpty, (due.map (·.2)).foldl wakeLocal { shard with timers := rest })

def register (deadline : Nat) : Shard :=
  if shard.timers.length < shard.timerCapacity then
    { shard with
      timers := shard.timers.orderedInsert (fun a b => a.1 ≤ b.1) (deadline, ref) }
  else shard

/-- Turns each relative delay into a deadline; ticks are a saturating `u64`. -/
def drainTimerRequests (now : Nat) : Shard :=
  shard.timerRequests.foldl
    (fun shard request => shard.register request.taskRef (min (now + request.delayTicks) (2 ^ 64 - 1)))
    { shard with timerRequests := [] }

/-- `false` refuses the arm: the inbox is full. -/
def requestTimer (delayTicks : Nat) : Bool × Shard :=
  if shard.timerRequests.length < timerInboxCapacity then
    (true, { shard with timerRequests := shard.timerRequests ++ [⟨ref, delayTicks⟩] })
  else (false, shard)

def pushSpawn (parent : TaskRef) : Bool × Shard :=
  if shard.spawnInbox.length < spawnInboxCapacity then
    (true, { shard with spawnInbox := shard.spawnInbox ++ [parent] })
  else (false, shard)

/-- What the front of the run queue turns out to be: nothing, a key that no longer resolves, a task
that is not `Woken`, or a task whose poll begins. -/
inductive Turn
  | empty
  | stale
  | skipped (observed : TaskState)
  | started (ref : TaskRef)
deriving DecidableEq, Repr

def startPoll : Turn × Shard :=
  match shard.runQueue with
  | [] => (.empty, shard)
  | ref :: rest =>
    let shard := { shard with runQueue := rest }
    match shard.header ref.key with
    | none => (.stale, shard)
    | some header =>
      match header.state.tryStartPoll with
      | .error observed => (.skipped observed, shard)
      | .ok state =>
        (.started ref, shard.modify ref.key fun header => { header with state, hasPolled := true })

def pollOutcome (isReady : Bool) (state : TaskState) : PollOutcome :=
  if isReady then .completed
  else
    match state.suspend with
    | .error .woken => .rescheduled
    | _ => .suspended

def finishPoll (isReady : Bool) (submitted : Nat) : Shard :=
  match shard.header ref.key with
  | none => shard
  | some header =>
    let transition := if isReady then TaskState.complete else TaskState.suspend
    let next := shard.modify ref.key fun header =>
      { header with state := header.state.after transition }.landSubmitted submitted
    if pollOutcome isReady header.state = .rescheduled then next.enqueue ref else next

end Shard

end Kwokka
