import Kwokka.Completion
import Kwokka.ParkBracket
import Kwokka.Shard

/-! The run loop of an affine root: passes over the worker's own state until the
root settles, with an unbracketed park on an idle pass, against threads that wake
its tasks through clones of their wakers. -/

namespace Kwokka

/-- Where the loop is: the drains and the tick of `run_pass`, after the pass, or in the park. -/
inductive LoopState
  | completing
  | draining
  | advancing
  | ticking (remaining : Nat) (hasWorked : Bool)
  | polling (ref : TaskRef) (remaining : Nat)
  | arming (hasWorked : Bool)
  | spawning (hasWorked : Bool)
  | reaping (hasWorked : Bool)
  | passed (hasWorked : Bool)
  | blocked
  | finished
deriving DecidableEq, Repr

/-- Producer 0 of the inbox is the worker's own thread, which wakes only during a poll; the others
are other threads. A completion names the task it wakes, if any. -/
structure BlockOnWorld where
  shard : Shard
  root : SlabKey
  inbox : MpscWorld TaskRef
  signals : Nat → SignalState
  isPublished : Bool
  isParked : Bool
  isSignalled : Bool
  completions : List (Option TaskRef)
  clock : Nat
  worker : LoopState

inductive BlockOnEvent
  | wake (p : Nat) (ref : TaskRef)
  | wakeStep (p : Nat) (isSpurious : Bool)
  | signal (p : Nat)
  | post (completion : Option TaskRef)
  | elapse (ticks : Nat)
  /-- What the polled future does before it returns. -/
  | requestTimer (delayTicks : Nat)
  | pushSpawn
  | cancelChild (child : TaskRef)
  | finishPoll (isReady : Bool) (submitted : Nat)
  /-- A settled child that the reap frees; its parent's list decides which. -/
  | reap (key : SlabKey)
  | work
  | unpark
  /-- The next call, once the last one has ended. -/
  | blockOn

variable (w : BlockOnWorld)

namespace BlockOnWorld

def startRoot (shard : Shard) (root : SlabKey) : Shard :=
  (shard.modify root fun header => { header with isPinned := true }).wakeLocal ⟨shard.id, root⟩

def init (isPublished : Bool) (shard : Shard) (root : SlabKey) : BlockOnWorld where
  shard := startRoot shard root
  root := root
  inbox := .init
  signals := fun _ => .idle
  isPublished := isPublished
  isParked := false
  isSignalled := false
  completions := []
  clock := 0
  worker := .completing

def stepInbox (e : MpscEvent TaskRef) : BlockOnWorld :=
  { w with inbox := w.inbox.step ParkRing.wake.capacity e }

def setSignal (p : Nat) (st : SignalState) : BlockOnWorld :=
  { w with signals := Function.update w.signals p st }

def isPolling : Bool :=
  match w.worker with
  | .polling _ _ => true
  | _ => false

def pushResult (p : Nat) (isSpurious : Bool) : Option (Except TaskRef Unit) :=
  (w.inbox.ring.pushStep ParkRing.wake.capacity isSpurious (w.inbox.producers p)).2.2

def popResult : Option (Option (MaybeUninit TaskRef)) :=
  (w.inbox.ring.popStep ParkRing.wake.capacity w.inbox.consumer).2.2

/-- Only a published endpoint with the parked flag up resolves to a target. -/
def signalTarget : Bool := w.isPublished && w.isParked

/-- One batch; the read takes one completion more off the ring than it returns. -/
def drainCompletions : BlockOnWorld :=
  { w with
    shard := ((w.completions.take completionBatch).filterMap id).foldl Shard.wakeLocal w.shard
    completions := w.completions.drop (completionBatch + 1)
    isSignalled := false
    worker := .draining }

def drainWakes : BlockOnWorld :=
  match w.inbox.consumer with
  | .idle => w.stepInbox .callPop
  | _ =>
    match w.popResult with
    | some (some (some ref)) => { w.stepInbox .consume with shard := w.shard.wakeLocal ref }
    | some none => { w.stepInbox .consume with worker := .advancing }
    | _ => w.stepInbox .consume

def tickOne (remaining : Nat) (hasWorked : Bool) : BlockOnWorld :=
  match w.shard.startPoll with
  | (.empty, _) => { w with worker := .arming hasWorked }
  | (.stale, shard) => { w with shard, worker := .ticking remaining hasWorked }
  | (.skipped _, shard) => { w with shard, worker := .ticking remaining true }
  | (.started ref, shard) => { w with shard, worker := .polling ref remaining }

def drainSpawn (hasWorked : Bool) : BlockOnWorld :=
  match w.shard.spawnInbox with
  | [] => { w with worker := .reaping hasWorked }
  | _ :: rest =>
    match w.shard.tasks.insert (.new ⟨w.shard.id, w.shard.pipSeq⟩) with
    | .ok (key, tasks) =>
      let shard := { w.shard with tasks, spawnInbox := rest, pipSeq := w.shard.pipSeq + 1 }
      { w with shard := shard.wakeLocal ⟨w.shard.id, key⟩ }
    | _ => { w with worker := .finished }

/-- Any state but the three of a live task ends the loop, by its output or by a panic. -/
def isRootSettled : Bool :=
  match w.shard.header w.root with
  | some header =>
    match header.state with
    | .sleeping | .woken | .running => false
    | _ => true
  | none => true

/-- The slab once the output of a root that is done was taken; a call that panics takes nothing. -/
def takeRootOutput : Slab TaskHeader :=
  match w.shard.header w.root, w.shard.tasks.remove w.root with
  | some header, some (_, tasks) => if header.state = .done then tasks else w.shard.tasks
  | _, _ => w.shard.tasks

def endPass (hasWorked : Bool) : BlockOnWorld :=
  if w.isRootSettled then
    { w with shard := { w.shard with tasks := w.takeRootOutput }, worker := .finished }
  else { w with worker := if hasWorked then .completing else .blocked }

def work : BlockOnWorld :=
  match w.worker with
  | .completing => w.drainCompletions
  | .draining => w.drainWakes
  | .advancing =>
    let (hasWoken, shard) := w.shard.advanceTo w.clock
    { w with shard, worker := .ticking shard.runQueue.length hasWoken }
  | .ticking 0 hasWorked => { w with worker := .arming hasWorked }
  | .ticking (remaining + 1) hasWorked => w.tickOne remaining hasWorked
  | .arming hasWorked =>
    { w with shard := w.shard.drainTimerRequests w.clock, worker := .spawning hasWorked }
  | .spawning hasWorked => w.drainSpawn hasWorked
  | .reaping hasWorked => { w with worker := .passed hasWorked }
  | .passed hasWorked => w.endPass hasWorked
  | .polling _ _ | .blocked | .finished => w

def isSettled (state : TaskState) : Bool := state.isTerminal || state == .done

def reapKey (key : SlabKey) : BlockOnWorld :=
  match w.worker, w.shard.header key with
  | .reaping _, some header =>
    if isSettled header.state ∧ key ≠ w.root then
      match w.shard.tasks.remove key with
      | some (_, tasks) => { w with shard := { w.shard with tasks } }
      | none => w
    else w
  | _, _ => w

/-- The inbox is as the last call left it. -/
def blockOn : BlockOnWorld :=
  match w.worker with
  | .finished =>
    match w.shard.tasks.insert (.new ⟨w.shard.id, w.shard.pipSeq⟩) with
    | .ok (root, tasks) =>
      let shard := { w.shard with tasks, pipSeq := w.shard.pipSeq + 1 }
      { w with shard := startRoot shard root, root, worker := .completing }
    | _ => w
  | _ => w

def step : BlockOnEvent → BlockOnWorld
  | .wake p ref =>
    if w.signals p = .idle ∧ (p = 0 → w.isPolling) then w.stepInbox (.call p ref) else w
  | .wakeStep p isSpurious =>
    (w.stepInbox (.produce p isSpurious)).setSignal p
      (ParkWorld.signalAfter .wake (w.signals p) (w.pushResult p isSpurious))
  | .signal p =>
    match w.signals p with
    | .idle => w
    | .checking => w.setSignal p (if w.signalTarget then .raising else .idle)
    | .raising => { w with isSignalled := true }.setSignal p .idle
  | .post completion => { w with completions := w.completions ++ [completion] }
  | .elapse ticks => { w with clock := w.clock + ticks }
  | .requestTimer delayTicks =>
    match w.worker with
    | .polling ref _ => { w with shard := (w.shard.requestTimer ref delayTicks).2 }
    | _ => w
  | .pushSpawn =>
    match w.worker with
    | .polling ref _ => { w with shard := (w.shard.pushSpawn ref).2 }
    | _ => w
  | .cancelChild child =>
    match w.worker with
    | .polling ref _ =>
      if child.key.index = ref.key.index then w
      else
        { w with
          shard := w.shard.modify child.key fun header =>
            { header with state := header.state.after TaskState.cancel } }
    | _ => w
  | .finishPoll isReady submitted =>
    match w.worker with
    | .polling ref remaining =>
      if w.inbox.producers 0 = .idle ∧ w.signals 0 = .idle then
        { w with shard := w.shard.finishPoll ref isReady submitted, worker := .ticking remaining true }
      else w
    | _ => w
  | .reap key => w.reapKey key
  | .work => w.work
  | .unpark => if w.worker = .blocked then { w with worker := .completing } else w
  | .blockOn => w.blockOn

end BlockOnWorld

end Kwokka
