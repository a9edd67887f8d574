import Kwokka.CompletionDrain
import Kwokka.IoFuture

/-! One worker driving completion futures over a ring: the cancel drain, the
completion drain, wakes and polls of a pass in the run loop's order, with the
kernel posting completions at any point in between. -/

namespace Kwokka

open Runs

/-- The worker's own state. A token resolves to its task header; `closed` and `recycled` record
the descriptors and provided buffers that disposals gave back. -/
structure IoShard where
  id : Nat
  tasks : UInt64 → Option TaskHeader
  inflight : InflightBufSlab
  cancelInbox : CancelInbox
  accepts : CancelSet acceptCancelCapacity
  providedRecvs : CancelSet providedRecvCancelCapacity
  connects : CancelSet connectCancelCapacity
  closed : List Int
  recycled : List UInt16

inductive Route
  | other
  | disposed
  | stored
deriving DecidableEq, Repr

namespace IoShard

variable (shard : IoShard) (token : UInt64)

def setTask (header : Option TaskHeader) : IoShard :=
  { shard with tasks := Function.update shard.tasks token header }

def modifyTask (f : TaskHeader → TaskHeader) : IoShard :=
  shard.setTask token ((shard.tasks token).map f)

def wakeLocal : IoShard :=
  shard.modifyTask token fun header => { header with state := header.state.after TaskState.wake }

def disposeAcceptResult (result : Int) : IoShard :=
  if 0 ≤ result then { shard with closed := shard.closed ++ [result] } else shard

def takeProvidedRecv : Bool × IoShard :=
  match shard.providedRecvs.take token with
  | (taken, providedRecvs) => (taken, { shard with providedRecvs })

def disposeCancelledAccept (result : Int) : Bool × IoShard :=
  match shard.accepts.take token with
  | (true, accepts) => (true, { shard with accepts }.disposeAcceptResult result)
  | (false, _) => (false, shard)

def disposeCancelledConnect : Bool × IoShard :=
  match shard.connects.take token with
  | (taken, connects) => (taken, { shard with connects })

/-- An empty set's early miss is the same answer as a `take` that finds nothing. -/
def disposeCancelledOp (result : Int) (bufId : Option UInt16) : Bool × IoShard :=
  match bufId with
  | some id =>
    match shard.takeProvidedRecv token with
    | (true, shard) => (true, { shard with recycled := shard.recycled ++ [id] })
    | (false, shard) => (false, shard)
  | none =>
    match shard.disposeCancelledConnect token with
    | (true, shard) => (true, shard)
    | (false, shard) =>
      match if result = 0 then shard.takeProvidedRecv token else (false, shard) with
      | (true, shard) => (true, shard)
      | (false, shard) =>
        match shard.disposeCancelledAccept token result with
        | (true, shard) => (true, shard)
        | (false, shard) => shard.takeProvidedRecv token

def reclaimDroppedSlot (opToken : UInt64) : IoShard :=
  { shard with inflight := (shard.inflight.freeByOpToken opToken).2 }

/-- Only `-ENOENT` says that no completion of the target is coming. -/
def reclaimCancelCompletion (userData : UInt64) (result : Int) : IoShard :=
  if result ≠ -2 then shard
  else
    { shard with
      inflight := shard.inflight.freeIfRetirePending (userData &&& 0xFFFF).toNat
        ((userData >>> 16) &&& 0xFFFF).toNat }

def markNotifExpected (opToken : UInt64) : IoShard :=
  { shard with inflight := shard.inflight.markNotifExpectedByOpToken opToken }

def reclaimNotif (opToken : UInt64) : IoShard :=
  match shard.inflight.freeByOpToken opToken with
  | (true, inflight) => { shard with inflight }
  | (false, inflight) => { shard with inflight := inflight.markNotifReadyByOpToken opToken }

def storeCompletion (c : Completion) : IoShard :=
  let shard := if c.hasMore then shard.markNotifExpected c.token else shard.reclaimDroppedSlot c.token
  let shard := shard.modifyTask c.token (·.storeIoResult c.result c.flags.bits c.bufId)
  shard.wakeLocal c.token

/-- One turn of the completion drain. The wake read is re-armed and the multishot registries are
served outside this state; their wakes are the extra wakes of a run. -/
def completeOne (c : Completion) : Route × IoShard :=
  if c.token = wakeFdUserData then (.other, shard)
  else if isMsgRingWake c.token then (.other, shard)
  else if isLinkTimeoutDiscard c.token then (.other, shard)
  else if c.isNotif then (.other, (shard.reclaimNotif c.token).wakeLocal c.token)
  else if isCancelSentinel c.token then (.other, shard.reclaimCancelCompletion c.token c.result)
  else if isMultishotSentinel c.token then (.other, shard)
  else if isRecvMultishotSentinel c.token then (.other, shard)
  else
    match shard.disposeCancelledOp c.token c.result c.bufId with
    | (true, shard) => (.disposed, shard)
    | (false, shard) => (.stored, shard.storeCompletion c)

/-- The bookkeeping half of `submit_cancel_for`; the cancel request itself goes to the ring. -/
def recordCancel (key : InflightSlotKey) : IoShard :=
  if isMultishotSentinel key.opToken then shard
  else if key.slot = acceptCancelSlot then { shard with accepts := shard.accepts.insert key.opToken }
  else if key.slot = providedRecvCancelSlot then
    { shard with providedRecvs := shard.providedRecvs.insert key.opToken }
  else if key.slot = connectCancelSlot then
    { shard with connects := shard.connects.insert key.opToken }
  else { shard with inflight := shard.inflight.markRetirePending key }

end IoShard

/-- How far the kernel got with a request: nothing posted, a first completion that announced a
notification, that notification, or an only completion. -/
inductive Stage
  | running
  | awaitingNotif
  | notified
  | posted
deriving DecidableEq, Repr

def Stage.isFinal : Stage → Bool
  | running | awaitingNotif => false
  | notified | posted => true

inductive OpRole
  | owned (future : Nat) (kind : FutureKind)
  | cancel (key : InflightSlotKey)
deriving DecidableEq, Repr

structure Request extends Submission where
  role : OpRole
deriving DecidableEq, Repr

/-- A request on the ring. The flags record which of its completions the worker handled. -/
structure KernelOp extends Request where
  stage : Stage
  isResultDrained : Bool
  isFinalDrained : Bool
deriving DecidableEq, Repr

inductive FutureStatus
  | live
  | resolved (output : Output)
  | dropped
deriving DecidableEq

def FutureStatus.isResolved : FutureStatus → Bool
  | resolved _ => true
  | live | dropped => false

/-- `op` is the last request the future put on the ring. -/
structure FutureEntry where
  owner : UInt64
  future : IoFuture
  status : FutureStatus
  op : Option Nat
deriving DecidableEq

/-- The poll in progress: the task, the completion captured for it, the operations it submitted
and the futures it polled so far. -/
structure Window where
  token : UInt64
  wakeSlot : Option WakeSlot
  submitted : Nat
  polled : List Nat
deriving DecidableEq

inductive Phase
  | cancels
  | completions
  | tick
deriving DecidableEq, Repr

/-- `batch` is what the completion drain has read but not handled. Queue entries carry the request
they belong to; `stored` lists the completions the drain put into a task header. -/
structure IoWorld where
  shard : IoShard
  phase : Phase
  batch : List (Option Nat × Completion)
  window : Option Window
  futures : List FutureEntry
  ops : List KernelOp
  cq : List (Option Nat × Cqe)
  stored : List (Nat × Completion)

def providedRecvRingEntries : Nat := 256

/-- Completions of the other classes: the wake read, ring messages, link timeouts, multishots. -/
def isForeign (userData : UInt64) : Bool :=
  userData == wakeFdUserData || isMsgRingWake userData || isLinkTimeoutDiscard userData ||
    isMultishotSentinel userData || isRecvMultishotSentinel userData

namespace Request

def ofSubmission (future : Nat) (kind : FutureKind) (submission : Submission) : Request :=
  ⟨submission, .owned future kind⟩

def ofCancel (key : InflightSlotKey) : Request :=
  ⟨⟨encodeCancelSentinel key, false, none⟩, .cancel key⟩

end Request

namespace KernelOp

def isTargetGone (ops : List KernelOp) (target : UInt64) : Bool :=
  ops.all fun op => op.userData != target || op.stage != .running

/-- What the kernel may post next for a request. A provided buffer is selected only for a
provided receive, and a cancel reports `-ENOENT` only when its target is gone. -/
def mayPost (op : KernelOp) (ops : List KernelOp) (cqe : Cqe) : Bool :=
  cqe.userData == op.userData &&
    match op.stage with
    | .running =>
      !isCqeNotif cqe.flags && (!isCqeMore cqe.flags || op.zeroCopy) &&
        match op.role with
        | .owned _ kind =>
          match bufferSelect cqe.flags with
          | some id => decide (kind = .providedRecv) && decide (id.toNat < providedRecvRingEntries)
          | none => true
        | .cancel key =>
          (bufferSelect cqe.flags).isNone && (cqe.result != -2 || isTargetGone ops key.opToken)
    | .awaitingNotif =>
      isCqeNotif cqe.flags && !isCqeMore cqe.flags && (bufferSelect cqe.flags).isNone
    | .notified | .posted => false

def posted (op : KernelOp) (cqe : Cqe) : KernelOp :=
  { op with
    stage := match op.stage with
      | .running => if isCqeMore cqe.flags then .awaitingNotif else .posted
      | _ => .notified }

def drained (op : KernelOp) (c : Completion) : KernelOp :=
  { op with
    isResultDrained := op.isResultDrained || !c.isNotif
    isFinalDrained := op.isFinalDrained || !c.hasMore }

def start (request : Request) : KernelOp := ⟨request, .running, false, false⟩

end KernelOp

def FutureEntry.polled (entry : FutureEntry) (step : IoFuture.Step) (nextOp : Nat) : FutureEntry :=
  { entry with
    future := step.future
    status := match step.poll with
      | .ready output => .resolved output
      | .pending => .live
    op := if step.seam.submitted = [] then entry.op else some nextOp }

namespace IoWorld

def init (id cap : Nat) : IoWorld where
  shard :=
    { id
      tasks := fun _ => none
      inflight := .new id cap
      cancelInbox := ⟨[]⟩
      accepts := .empty
      providedRecvs := .empty
      connects := .empty
      closed := []
      recycled := [] }
  phase := .cancels
  batch := []
  window := none
  futures := []
  ops := []
  cq := []
  stored := []

variable (w : IoWorld) (token : UInt64)

def post (o : Nat) (cqe : Cqe) : IoWorld :=
  match w.ops[o]? with
  | some op =>
    if op.mayPost w.ops cqe then
      { w with ops := w.ops.set o (op.posted cqe), cq := w.cq ++ [(some o, cqe)] }
    else w
  | none => w

def postForeign (cqe : Cqe) : IoWorld :=
  if isForeign cqe.userData && !isCqeNotif cqe.flags then { w with cq := w.cq ++ [(none, cqe)] }
  else w

/-- One turn of `drain_cancels`. `isAccepted` is the ring's answer to the cancel request. -/
def drainCancel (isAccepted : Bool) : IoWorld :=
  if w.phase = .cancels then
    match w.shard.cancelInbox.pop with
    | some (key, cancelInbox) =>
      { w with
        shard := { w.shard with cancelInbox }.recordCancel key
        ops := if isAccepted then w.ops ++ [.start (.ofCancel key)] else w.ops }
    | none => w
  else w

/-- What the drain leaves of the queue is its end, and what it has written lies at its front. -/
def readCompletions : IoWorld :=
  if w.phase = .cancels ∧ w.shard.cancelInbox.keys = [] then
    let (cq, count, out) := drainCompletions (w.cq.map Prod.snd) completionBatch
      (List.replicate completionBatch .default)
    { w with
      phase := .completions
      batch := (w.cq.map Prod.fst).zip (out.take count)
      cq := w.cq.drop (w.cq.length - cq.length) }
  else w

def complete : IoWorld :=
  if w.phase = .completions then
    match w.batch with
    | [] => { w with phase := .tick }
    | (o, c) :: batch =>
      let (route, shard) := w.shard.completeOne c
      { w with
        batch
        shard
        ops := match o with
          | some o => w.ops.modify o (·.drained c)
          | none => w.ops
        stored := match o, route with
          | some o, .stored => w.stored ++ [(o, c)]
          | _, _ => w.stored }
  else w

def isIdle : Bool := w.phase == .tick && w.window.isNone

/-- A wake that no completion caused: an expired timer, a cloned waker, a multishot stream. -/
def wake : IoWorld :=
  if w.isIdle then { w with shard := w.shard.wakeLocal token } else w

def spawn (pip : Pip) : IoWorld :=
  if w.isIdle && isTaskToken token && (w.shard.tasks token).isNone then
    { w with shard := w.shard.setTask token (some (.new pip)) }
  else w

def cancelTask : IoWorld :=
  match w.window with
  | some window =>
    if window.token = token then w
    else
      { w with
        shard := w.shard.modifyTask token fun header =>
          { header with state := header.state.after TaskState.cancel } }
  | none => w

def isSettled (header : TaskHeader) : Bool := header.state == .done || header.state.isTerminal

def reap : IoWorld :=
  if w.isIdle && (w.shard.tasks token).any isSettled then
    { w with shard := w.shard.setTask token none }
  else w

def startPoll : IoWorld :=
  if w.isIdle then
    match w.shard.tasks token with
    | some header =>
      match header.state.tryStartPoll with
      | .ok state =>
        { w with
          shard := w.shard.setTask token (some { header with state, hasPolled := true })
          window := some ⟨token, wakeSlotOf header.wakeData, 0, []⟩ }
      | .error _ => w
    | none => w
  else w

def create (kind : FutureKind) (len : Nat) : IoWorld :=
  match w.window with
  | some window =>
    { w with futures := w.futures ++ [⟨window.token, .new kind len, .live, none⟩] }
  | none => w

def seam (window : Window) (driver : SubmitResult) (sendZcSupported : Bool) :
    IoSeam :=
  ⟨w.shard.id, window.wakeSlot, w.shard.inflight, driver, sendZcSupported, []⟩

def pollFuture (f : Nat) (driver : SubmitResult) (sendZcSupported : Bool) : IoWorld :=
  match w.window, w.futures[f]? with
  | some window, some entry =>
    if entry.status = .live ∧ entry.owner = window.token then
      let step := entry.future.poll window.token (w.seam window driver sendZcSupported)
      { w with
        shard := { w.shard with inflight := step.seam.slab }
        window := some
          { window with
            submitted := window.submitted + step.seam.submitted.length
            polled := f :: window.polled }
        futures := w.futures.set f (entry.polled step w.ops.length)
        ops := w.ops ++ step.seam.submitted.map fun submission =>
          .start (.ofSubmission f entry.future.kind submission) }
    else w
  | _, _ => w

def endPoll (isReady : Bool) : IoWorld :=
  match w.window with
  | some window =>
    { w with
      window := none
      shard := w.shard.modifyTask window.token fun header =>
        { header with
          state := header.state.after
            (if isReady then TaskState.complete else TaskState.suspend) }.landSubmitted
          window.submitted }
  | none => w

def drop (f : Nat) : IoWorld :=
  match w.futures[f]? with
  | some entry =>
    if w.phase = .tick ∧ entry.status = .live then
      { w with
        futures := w.futures.set f { entry with status := .dropped }
        shard := match entry.future.submitted with
          | some key => { w.shard with cancelInbox := w.shard.cancelInbox.pushCancel key }
          | none => w.shard }
    else w
  | none => w

def endPass : IoWorld := if w.isIdle then { w with phase := .cancels } else w

inductive Event
  | post (o : Nat) (cqe : Cqe)
  | postForeign (cqe : Cqe)
  | drainCancel (isAccepted : Bool)
  | readCompletions
  | complete
  | wake (token : UInt64)
  | spawn (token : UInt64) (pip : Pip)
  | cancelTask (token : UInt64)
  | reap (token : UInt64)
  | startPoll (token : UInt64)
  | create (kind : FutureKind) (len : Nat)
  | pollFuture (f : Nat) (driver : SubmitResult) (sendZcSupported : Bool)
  | endPoll (isReady : Bool)
  | drop (f : Nat)
  | endPass

def step : Event → IoWorld
  | .post o cqe => w.post o cqe
  | .postForeign cqe => w.postForeign cqe
  | .drainCancel isAccepted => w.drainCancel isAccepted
  | .readCompletions => w.readCompletions
  | .complete => w.complete
  | .wake token => w.wake token
  | .spawn token pip => w.spawn token pip
  | .cancelTask token => w.cancelTask token
  | .reap token => w.reap token
  | .startPoll token => w.startPoll token
  | .create kind len => w.create kind len
  | .pollFuture f driver sendZcSupported => w.pollFuture f driver sendZcSupported
  | .endPoll isReady => w.endPoll isReady
  | .drop f => w.drop f
  | .endPass => w.endPass

theorem readCompletions_eq {w : IoWorld} (hphase : w.phase = .cancels)
    (hinbox : w.shard.cancelInbox.keys = []) :
    w.readCompletions =
      { w with
        phase := .completions
        batch := (w.cq.take completionBatch).map fun entry => (entry.1, translateCqe entry.2)
        cq := w.cq.drop (completionBatch + 1) } := by
  have hcap : min completionBatch (List.replicate completionBatch Completion.default).length =
      completionBatch := by simp
  have hdrop : w.cq.drop (w.cq.length - (w.cq.drop (completionBatch + 1)).length) =
      w.cq.drop (completionBatch + 1) := by
    rw [List.length_drop, List.drop_eq_drop_iff]
    omega
  have hzip : (w.cq.map Prod.fst).zip (((w.cq.map Prod.snd).take completionBatch).map translateCqe) =
      (w.cq.take completionBatch).map fun entry => (entry.1, translateCqe entry.2) := by
    apply List.ext_getElem?
    grind
  rw [readCompletions, if_pos ⟨hphase, hinbox⟩]
  simp only [drainCompletions_written, drainCompletions_queue, hcap, ← List.map_drop,
    List.length_map, hdrop, hzip]

end IoWorld

end Kwokka
