import Kwokka.StealShard
import Kwokka.Runs

/-! A crew of workers that steal from each other. Each worker runs passes over its
own state; what it shares with the others are four bounded queues: its wake inbox,
the steal requests to it, the replies to its own request, and the notes that a task
it shipped has settled. A step of a worker makes at most one access to a queue. -/

namespace Kwokka

def inboxCapacity : Nat := 256

def requestCapacity : Nat := 8

def handoffCapacity : Nat := 2

def noteCapacity : Nat := 256

/-- Where a worker is in its pass. The lead is `outside` between two calls of `block_on`; `dead` is
the panic of a full task slab or of a polled future. -/
inductive CrewPhase
  | outside
  | completing
  | noting
  | serving
  | replying (thief : Nat) (reply : HandoffMsg)
  | receiving
  | draining
  | firing (now : Nat) (hasWorked : Bool)
  | ticking (remaining : Nat) (hasWorked : Bool)
  | polling (ref : TaskRef) (remaining : Nat)
  | arming (hasWorked : Bool)
  | spawning (hasWorked : Bool)
  | reaping (hasWorked : Bool)
  | reporting (index : Nat) (hasWorked : Bool)
  | passed (hasWorked : Bool)
  | parking
  | blocked
  | dead
deriving DecidableEq, Repr

structure CrewWorker where
  shard : StealShard
  phase : CrewPhase
  inbox : List TaskRef
  requests : List StealRequest
  handoffs : List HandoffMsg
  notes : List SlabKey

/-- What happened so far: the tasks that settled, those whose slot was freed, those that a handoff
installed, and each slot promised to a request with how the promise ended. -/
structure CrewLog where
  settled : List Pip
  removed : List Pip
  relocated : List Pip
  reservations : List TaskRef
  installs : List TaskRef
  withdrawals : List TaskRef

def CrewLog.empty : CrewLog := ⟨[], [], [], [], [], []⟩

structure CrewWorld where
  lead : Nat
  count : Nat
  workers : Nat → CrewWorker
  root : Option SlabKey
  clock : Nat
  log : CrewLog

/-- What a completion does to the task slab; it names tasks of the worker whose ring it is on. -/
inductive CrewCompletion
  | stored (key : SlabKey) (result : Int) (flags : UInt32) (bufId : Option UInt16)
  | notified (key : SlabKey)
  | multishot (wake retire : Option SlabKey)
deriving DecidableEq, Repr

inductive CrewEvent
  /-- `schedule_wake`, on any thread. -/
  | wake (ref : TaskRef)
  | elapse (ticks : Nat)
  | spawnRoot
  | complete (v : Nat) (completion : CrewCompletion)
  /-- What the polled future does before it returns. -/
  | requestTimer (v delayTicks : Nat)
  | pushSpawn (v : Nat)
  /-- A scope that waits for its children looks at them. -/
  | pollScope (v : Nat)
  | finishPoll (v : Nat) (isReady : Bool) (submitted : Nat)
  | unwindPoll (v : Nat)
  /-- The next pending child; the mode of its scope says whether it is pinned. -/
  | spawn (v : Nat) (isPinned : Bool)
  | work (v : Nat)
  /-- A pop that answers `None` as the push at the front of its queue is not finished. -/
  | stall (v : Nat)
  | unpark (v : Nat)
deriving DecidableEq, Repr

variable (w : CrewWorld) (v : Nat)

namespace CrewWorld

def initWorker (lead count taskCapacity v : Nat) : CrewWorker where
  shard := .new v taskCapacity
  phase := if lead < v ∧ v < lead + count then .completing else .outside
  inbox := []
  requests := []
  handoffs := []
  notes := []

def init (lead count taskCapacity : Nat) : CrewWorld where
  lead := lead
  count := count
  workers := initWorker lead count taskCapacity
  root := none
  clock := 0
  log := .empty

def setWorker (worker : CrewWorker) : CrewWorld :=
  { w with workers := Function.update w.workers v worker }

def setShard (shard : StealShard) : CrewWorld :=
  w.setWorker v { w.workers v with shard }

def setPhase (phase : CrewPhase) : CrewWorld :=
  w.setWorker v { w.workers v with phase }

def enqueue (ref : TaskRef) : CrewWorld :=
  let target := w.workers ref.workerId
  if target.inbox.length < inboxCapacity then
    w.setWorker ref.workerId { target with inbox := target.inbox ++ [ref] }
  else w

def wakeOrForward (w : CrewWorld) (v : Nat) (ref : TaskRef) : CrewWorld :=
  let (forward, shard) := (w.workers v).shard.wakeOrForward ref
  match forward with
  | some newRef => (w.setShard v shard).enqueue newRef
  | none => w.setShard v shard

def completeOne (shard : StealShard) : CrewCompletion → StealShard
  | .stored key result flags bufId =>
    match shard.header key with
    | some _ => (shard.modify key (·.storeIoResult result flags bufId)).wakeLocal ⟨shard.id, key⟩
    | none => shard
  | .notified key => shard.wakeLocal ⟨shard.id, key⟩
  | .multishot wake retire =>
    let woken := wake.elim shard fun key => shard.wakeLocal ⟨shard.id, key⟩
    match retire with
    | some key =>
      match woken.header key with
      | some _ => woken.modify key (·.retireInFlightOp)
      | none => woken
    | none => woken

def drainNote : CrewWorld :=
  let worker := w.workers v
  match worker.notes with
  | [] => w.setPhase v .serving
  | key :: rest =>
    w.setWorker v { worker with notes := rest, shard := worker.shard.markSettled key }

def serveSteals : CrewWorld :=
  let worker := w.workers v
  match worker.requests with
  | [] => w.setPhase v .receiving
  | request :: rest =>
    let (reply, shard) := worker.shard.serveSteal request
    w.setWorker v { worker with requests := rest, shard, phase := .replying request.thiefId reply }

def pushHandoff (thief : Nat) (reply : HandoffMsg) : CrewWorld :=
  let target := w.workers thief
  if target.handoffs.length < handoffCapacity then
    w.setWorker thief { target with handoffs := target.handoffs ++ [reply] }
  else w

def logReceived (log : CrewLog) (dest : TaskRef) (reply : HandoffMsg) : Option TaskRef → CrewLog
  | none => { log with withdrawals := dest :: log.withdrawals }
  | some _ =>
    match reply with
    | .delivered _ _ task =>
      { log with
        installs := dest :: log.installs
        relocated := task.cell.pip :: log.relocated }
    | .declined _ => log

def receiveHandoff (w : CrewWorld) (v : Nat) : CrewWorld :=
  let worker := w.workers v
  match worker.handoffs with
  | [] => w.setPhase v .draining
  | reply :: rest =>
    let (installed, shard) := worker.shard.receiveHandoff reply
    let shard := installed.elim shard shard.wakeLocal
    { w.setWorker v { worker with
        handoffs := rest
        shard := { shard with pendingSteal := none } } with
      log := logReceived w.log reply.dest reply installed }

def drainWake (next : CrewPhase) : CrewWorld :=
  let worker := w.workers v
  match worker.inbox with
  | [] => w.setPhase v next
  | ref :: rest => (w.setWorker v { worker with inbox := rest }).wakeOrForward v ref

/-- The next timer due by `now`, or the polls once none is. -/
def fireTimer (v now : Nat) (hasWorked : Bool) : CrewWorld :=
  let worker := w.workers v
  let poll := w.setPhase v (.ticking worker.shard.runQueue.length hasWorked)
  match worker.shard.timers with
  | [] => poll
  | (deadline, ref) :: rest =>
    if deadline ≤ now then
      (w.setWorker v { worker with
        shard := { worker.shard with timers := rest }
        phase := .firing now true }).wakeOrForward v ref
    else poll

def tickOne (v remaining : Nat) (hasWorked : Bool) : CrewWorld :=
  let worker := w.workers v
  let (turn, shard) := worker.shard.toShard.startPoll
  let shard := { worker.shard with toShard := shard }
  match turn with
  | .empty => w.setPhase v (.arming hasWorked)
  | .stale => w.setWorker v { worker with shard, phase := .ticking remaining hasWorked }
  | .skipped _ => w.setWorker v { worker with shard, phase := .ticking remaining true }
  | .started ref => w.setWorker v { worker with shard, phase := .polling ref remaining }

def armTimer (hasWorked : Bool) : CrewWorld :=
  let worker := w.workers v
  match worker.shard.timerRequests with
  | [] => w.setPhase v (.spawning hasWorked)
  | request :: rest =>
    let shard : Shard := { worker.shard.toShard with timerRequests := rest }
    let deadline := min (w.clock + request.delayTicks) (2 ^ 64 - 1)
    w.setShard v { worker.shard with toShard := shard.register request.taskRef deadline }

def logRemoved (log : CrewLog) (header : Option TaskHeader) : CrewLog :=
  match header with
  | some header =>
    if header.state = .retired then log else { log with removed := header.pip :: log.removed }
  | none => log

def reapOne (hasWorked : Bool) : CrewWorld :=
  let worker := w.workers v
  let shard := worker.shard
  match shard.reapQueue with
  | [] => w.setPhase v (.reporting 0 hasWorked)
  | parent :: rest =>
    match shard.firstSettledChild parent with
    | some child =>
      { w.setShard v ((shard.removeChild parent child).release child.key) with
        log := logRemoved w.log (shard.header child.key) }
    | none => w.setShard v { shard with reapQueue := rest }

/-- One slot of the sweep for settled residents; a full note queue keeps the resident. -/
def reportOne (v index : Nat) (hasWorked : Bool) : CrewWorld :=
  let shard := (w.workers v).shard
  if index < shard.tasks.slots.length then
    let next := w.setPhase v (.reporting (index + 1) hasWorked)
    match shard.origins index with
    | none => next
    | some origin =>
      let victim := next.workers origin.victimId
      if shard.isResidentSettled index ∧ victim.notes.length < noteCapacity then
        let told := next.setWorker origin.victimId
          { victim with notes := victim.notes ++ [origin.victimKey] }
        { told.setShard v (shard.releaseResident index) with
          log := logRemoved w.log (shard.tasks.getByIndex index) }
      else next
  else w.setPhase v (.passed hasWorked)

def trySteal : CrewWorld :=
  let shard := (w.workers v).shard
  if w.count ≤ 1 ∨ shard.pendingSteal.isSome then w
  else
    let (victim, shard) := shard.nextVictim w.lead w.count
    let w := w.setShard v shard
    match victim with
    | none => w
    | some victim =>
      match shard.prepareSteal with
      | none => w
      | some (request, reserved) =>
        let target := w.workers victim
        let log := { w.log with reservations := request.dest :: w.log.reservations }
        if target.requests.length < requestCapacity then
          let w := w.setWorker victim { target with requests := target.requests ++ [request] }
          { w.setShard v { reserved with pendingSteal := some request.dest.key } with log }
        else
          { w.setShard v (reserved.unreserve request.dest.key) with
            log := { log with withdrawals := request.dest :: log.withdrawals } }

def isRootSettled : Bool :=
  w.root.any fun key => ((w.workers w.lead).shard.header key).any (·.state == .done)

def takeRootOutput : CrewWorld :=
  let worker := w.workers w.lead
  match w.root with
  | some key =>
    match worker.shard.tasks.remove key with
    | some (_, tasks) =>
      { w.setWorker w.lead { worker with
          shard := { worker.shard with tasks }
          phase := .outside } with
        root := none
        log := logRemoved w.log (worker.shard.header key) }
    | none => w
  | none => w

/-- After a pass: the lead looks at its root, and an idle sibling asks for work before it parks. -/
def endPass (hasWorked : Bool) : CrewWorld :=
  if v = w.lead ∧ w.isRootSettled then w.takeRootOutput
  else if hasWorked then w.setPhase v .completing
  else if v = w.lead then w.setPhase v .parking
  else (w.trySteal v).setPhase v .parking

/-- The bracketed park: an entry that came in meanwhile, or a peer's message, calls it off. -/
def park : CrewWorld :=
  let worker := w.workers v
  match worker.inbox with
  | ref :: rest =>
    (w.setWorker v { worker with inbox := rest, phase := .completing }).wakeOrForward v ref
  | [] =>
    w.setPhase v (if worker.requests.isEmpty ∧ worker.handoffs.isEmpty then .blocked
      else .completing)

def work : CrewWorld :=
  match (w.workers v).phase with
  | .completing => w.setPhase v .noting
  | .noting => w.drainNote v
  | .serving => w.serveSteals v
  | .replying thief reply => (w.pushHandoff thief reply).setPhase v .receiving
  | .receiving => w.receiveHandoff v
  | .draining => w.drainWake v (.firing w.clock false)
  | .firing now hasWorked => w.fireTimer v now hasWorked
  | .ticking 0 hasWorked => w.setPhase v (.arming hasWorked)
  | .ticking (remaining + 1) hasWorked => w.tickOne v remaining hasWorked
  | .arming hasWorked => w.armTimer v hasWorked
  | .spawning hasWorked =>
    if (w.workers v).shard.spawnInbox = [] then w.setPhase v (.reaping hasWorked) else w
  | .reaping hasWorked => w.reapOne v hasWorked
  | .reporting index hasWorked => w.reportOne v index hasWorked
  | .passed hasWorked => w.endPass v hasWorked
  | .parking => w.park v
  | .outside | .polling _ _ | .blocked | .dead => w

def stall : CrewWorld :=
  match (w.workers v).phase with
  | .noting => w.setPhase v .serving
  | .serving => w.setPhase v .receiving
  | .receiving => w.setPhase v .draining
  | .draining => w.setPhase v (.firing w.clock false)
  | .parking => w.setPhase v .blocked
  | _ => w

def drainSpawn (isPinned : Bool) : CrewWorld :=
  let worker := w.workers v
  match worker.phase, worker.shard.spawnInbox with
  | .spawning _, parent :: rest =>
    match { worker.shard with spawnInbox := rest }.spawn parent isPinned with
    | some shard => w.setShard v shard
    | none => w.setPhase v .dead
  | _, _ => w

def spawnRoot (w : CrewWorld) : CrewWorld :=
  let worker := w.workers w.lead
  if worker.phase = .outside then
    match worker.shard.spawnRoot with
    | some (key, shard) =>
      { w.setWorker w.lead { worker with shard, phase := .completing } with root := some key }
    | none => w.setPhase w.lead .dead
  else w

def finishPoll (w : CrewWorld) (v : Nat) (isReady : Bool) (submitted : Nat) : CrewWorld :=
  let worker := w.workers v
  match worker.phase with
  | .polling ref remaining =>
    let shard := worker.shard.toShard.finishPoll ref isReady submitted
    let settled := if isReady then ((worker.shard.header ref.key).map (·.pip)).toList else []
    { w.setWorker v { worker with
        shard := { worker.shard with toShard := shard }
        phase := .ticking remaining true } with
      log := { w.log with settled := settled ++ w.log.settled } }
  | _ => w

def requestTimer (w : CrewWorld) (v delayTicks : Nat) : CrewWorld :=
  let worker := w.workers v
  match worker.phase with
  | .polling ref _ =>
    w.setShard v { worker.shard with toShard := (worker.shard.toShard.requestTimer ref delayTicks).2 }
  | _ => w

def pushSpawn (w : CrewWorld) (v : Nat) : CrewWorld :=
  let worker := w.workers v
  match worker.phase with
  | .polling ref _ => w.setShard v { worker.shard with toShard := (worker.shard.toShard.pushSpawn ref).2 }
  | _ => w

def pollScope : CrewWorld :=
  let worker := w.workers v
  match worker.phase with
  | .polling ref _ =>
    if worker.shard.areChildrenAllSettled ((worker.shard.header ref.key).bind (·.firstChild)) then
      w.setShard v (worker.shard.pushReap ref)
    else w
  | _ => w

def step : CrewEvent → CrewWorld
  | .wake ref => w.enqueue ref
  | .elapse ticks => { w with clock := w.clock + ticks }
  | .spawnRoot => w.spawnRoot
  | .complete v completion =>
    if (w.workers v).phase = .completing then
      w.setShard v (completeOne (w.workers v).shard completion)
    else w
  | .requestTimer v delayTicks => w.requestTimer v delayTicks
  | .pushSpawn v => w.pushSpawn v
  | .pollScope v => w.pollScope v
  | .finishPoll v isReady submitted => w.finishPoll v isReady submitted
  | .unwindPoll v =>
    match (w.workers v).phase with
    | .polling _ _ => w.setPhase v .dead
    | _ => w
  | .spawn v isPinned => w.drainSpawn v isPinned
  | .work v => w.work v
  | .stall v => w.stall v
  | .unpark v => if (w.workers v).phase = .blocked then w.setPhase v .completing else w

end CrewWorld

end Kwokka
