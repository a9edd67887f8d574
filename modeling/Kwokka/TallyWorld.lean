import Kwokka.AcceptMultishot
import Kwokka.IoDrain
import Kwokka.RecvMultishot

/-! The in-flight counter of a worker's tasks: every poll that returns lands the operations
it submitted on its task's header, and the completion drain takes them off again, class
by class. Which tasks are polled, and when futures and streams are dropped, is left
open. -/

namespace Kwokka

open Table Runs

/-- A cancel is submitted by the worker, not by a task's poll. -/
inductive TallyKind
  | single (kind : FutureKind)
  | accept (key : MultishotKey)
  | recv (key : MultishotKey)
  | cancel (userData : UInt64)
deriving DecidableEq, Repr

/-- `isDrained` says that the worker drained the completion carrying the operation's result. -/
structure TallyOp where
  owner : UInt64
  kind : TallyKind
  stage : Stage
  isDrained : Bool
deriving DecidableEq, Repr

namespace TallyOp

def start (owner : UInt64) (kind : TallyKind) : TallyOp := ⟨owner, kind, .running, false⟩

def userData (op : TallyOp) : UInt64 :=
  match op.kind with
  | .single _ => op.owner
  | .accept key => encodeMultishotSentinel key
  | .recv key => encodeRecvMultishotSentinel key
  | .cancel userData => userData

def isCounted (op : TallyOp) : Bool :=
  match op.kind with
  | .cancel _ => false
  | _ => true

/-- The only or first completion of a single-shot operation, the last one of a multishot. -/
def isResult (op : TallyOp) (c : Completion) : Bool :=
  match op.kind with
  | .single _ => !c.isNotif
  | .accept _ | .recv _ => !c.hasMore
  | .cancel _ => false

def mayPost (op : TallyOp) (c : Completion) : Bool :=
  c.token == op.userData &&
    match op.stage with
    | .running =>
      !c.isNotif &&
        match op.kind with
        | .single kind => !c.hasMore || kind == .sendZc
        | .accept _ | .recv _ => true
        | .cancel _ => !c.hasMore
    | .awaitingNotif => c.isNotif && !c.hasMore
    | .notified | .posted => false

def posted (op : TallyOp) (c : Completion) : TallyOp :=
  { op with
    stage := match op.stage with
      | .running =>
        if c.hasMore then
          match op.kind with
          | .single _ => .awaitingNotif
          | _ => .running
        else .posted
      | _ => .notified }

def drained (op : TallyOp) (c : Completion) : TallyOp :=
  { op with isDrained := op.isDrained || op.isResult c }

end TallyOp

namespace IoShard

def retireMultishotOwner (shard : IoShard) : Option Nat → IoShard
  | some owner => shard.modifyTask (UInt64.ofNat owner) (·.retireInFlightOp)
  | none => shard

def wakeMultishotOwner (shard : IoShard) : Option Nat → IoShard
  | some owner => shard.wakeLocal (UInt64.ofNat owner)
  | none => shard

end IoShard

/-- `window` is the task being polled, with the number of operations it submitted so far. -/
structure TallyWorld where
  shard : IoShard
  accepts : MultishotRegistry AcceptResult
  recvs : MultishotRegistry RecvResult
  window : Option (UInt64 × Nat)
  ops : List TallyOp
  queue : List (Nat × Completion)

/-- `cancelSingle` and `cancelStream` are turns of the cancel drain: for the key of a dropped
single-shot future, and for the stream of operation `o`. `next` polls that stream. -/
inductive TallyEvent
  | spawn (token : UInt64) (pip : Pip)
  | reap (token : UInt64)
  | startPoll (token : UInt64)
  | submit (kind : FutureKind)
  | startAccept (isAccepted : Bool)
  | startRecv (isAccepted : Bool)
  | endPoll
  | unwindPoll
  | next (o : Nat)
  | cancelSingle (key : InflightSlotKey) (isAccepted : Bool)
  | cancelStream (o : Nat) (isAccepted : Bool)
  | post (o : Nat) (c : Completion)
  | drain
  | skip
deriving DecidableEq

variable (w : TallyWorld) (token : UInt64)

namespace TallyWorld

def init (id cap : Nat) : TallyWorld where
  shard := (IoWorld.init id cap).shard
  accepts := .new id defaultMultishotCap defaultMultishotCap
  recvs := .new id defaultRecvMultishotCap defaultRecvMultishotCap
  window := none
  ops := []
  queue := []

def spawn (pip : Pip) : TallyWorld :=
  if w.window.isNone && isTaskToken token && (w.shard.tasks token).isNone then
    { w with shard := w.shard.setTask token (some (.new pip)) }
  else w

def reap : TallyWorld :=
  if w.window.isNone then { w with shard := w.shard.setTask token none } else w

def startPoll : TallyWorld :=
  if w.window.isNone && (w.shard.tasks token).isSome then { w with window := some (token, 0) }
  else w

def submitKind (count : Nat) (kind : TallyKind) : TallyWorld :=
  { w with window := some (token, count + 1), ops := w.ops ++ [.start token kind] }

def submit (kind : FutureKind) : TallyWorld :=
  match w.window with
  | some (token, count) => w.submitKind token count (.single kind)
  | none => w

/-- The first poll of a stream. A refused submission gives the slot back. -/
def startAccept (isAccepted : Bool) : TallyWorld :=
  match w.window with
  | some (token, count) =>
    match w.accepts.allocate token.toNat with
    | some (key, accepts) =>
      if isAccepted then { w with accepts }.submitKind token count (.accept key)
      else { w with accepts := accepts.free key }
    | none => w
  | none => w

def startRecv (isAccepted : Bool) : TallyWorld :=
  match w.window with
  | some (token, count) =>
    match w.recvs.allocate token.toNat with
    | some (key, recvs) =>
      if isAccepted then { w with recvs }.submitKind token count (.recv key)
      else { w with recvs := recvs.free key }
    | none => w
  | none => w

def endPoll : TallyWorld :=
  match w.window with
  | some (token, count) =>
    { w with
      window := none
      shard := w.shard.modifyTask token (·.landSubmitted count) }
  | none => w

/-- A poll that panics ends before its operations are landed. -/
def unwindPoll : TallyWorld := { w with window := none }

def next (o : Nat) : TallyWorld :=
  match w.ops[o]? with
  | some op =>
    match op.kind with
    | .accept key => { w with accepts := (multishotNext w.accepts key).2 }
    | .recv key => { w with recvs := (recvMultishotNext w.recvs key).2 }
    | _ => w
  | none => w

def pushCancel (isSubmitted : Bool) (owner userData : UInt64) : TallyWorld :=
  if isSubmitted then { w with ops := w.ops ++ [.start owner (.cancel userData)] } else w

def cancelSingle (key : InflightSlotKey) (isAccepted : Bool) : TallyWorld :=
  if w.window.isNone && isTaskToken key.opToken && decide (key.slot < 2 ^ 16) then
    { w with shard := w.shard.recordCancel key }.pushCancel isAccepted key.opToken
      (encodeCancelSentinel key)
  else w

def cancelStream (o : Nat) (isAccepted : Bool) : TallyWorld :=
  match w.window, w.ops[o]? with
  | none, some op =>
    match op.kind with
    | .accept key =>
      let out := submitMultishotCancel w.accepts key
      { w with accepts := out.registry }.pushCancel (out.isSubmitted && isAccepted) op.owner
        op.userData
    | .recv key =>
      let out := submitRecvMultishotCancel w.recvs key
      { w with recvs := out.registry }.pushCancel (out.isSubmitted && isAccepted) op.owner
        op.userData
    | _ => w
  | _, _ => w

def post (o : Nat) (c : Completion) : TallyWorld :=
  match w.ops[o]? with
  | some op =>
    if op.mayPost c then
      { w with ops := w.ops.set o (op.posted c), queue := w.queue ++ [(o, c)] }
    else w
  | none => w

def route (c : Completion) : TallyWorld :=
  if c.isNotif then w
  else if isMultishotSentinel c.token then
    let out := pushMultishotCompletion w.accepts c.token ⟨c.result, none⟩ c.hasMore
    { w with
      accepts := out.registry
      shard := (w.shard.wakeMultishotOwner out.wake).retireMultishotOwner out.retire }
  else if isRecvMultishotSentinel c.token then
    let out := pushRecvMultishotCompletion w.recvs c.token ⟨c.result, c.bufId.map (·.toNat)⟩
      c.hasMore
    { w with
      recvs := out.registry
      shard := (w.shard.wakeMultishotOwner out.wake).retireMultishotOwner out.retire }
  else w

def drain : TallyWorld :=
  match w.window, w.queue with
  | none, (o, c) :: queue =>
    { w with
      shard := (w.shard.completeOne c).2
      ops := w.ops.modify o (·.drained c)
      queue }.route c
  | _, _ => w

def step : TallyEvent → TallyWorld
  | .spawn token pip => w.spawn token pip
  | .reap token => w.reap token
  | .startPoll token => w.startPoll token
  | .submit kind => w.submit kind
  | .startAccept isAccepted => w.startAccept isAccepted
  | .startRecv isAccepted => w.startRecv isAccepted
  | .endPoll => w.endPoll
  | .unwindPoll => w.unwindPoll
  | .next o => w.next o
  | .cancelSingle key isAccepted => w.cancelSingle key isAccepted
  | .cancelStream o isAccepted => w.cancelStream o isAccepted
  | .post o c => w.post o c
  | .drain => w.drain
  | .skip => { w with queue := w.queue.tail }

def undrained : Nat :=
  w.ops.countP fun op => op.isCounted && op.owner == token && !op.isDrained

/-- Between two polls, every live task's counter is the number of its undrained operations. -/
def Tallied : Prop :=
  w.window = none → ∀ token header, w.shard.tasks token = some header →
    header.inFlightOps = w.undrained token

end TallyWorld

end Kwokka
