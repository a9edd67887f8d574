import Kwokka.Slab

/-! The task control block: its lifecycle states with the transitions between
them, and the fields the worker keeps beside the future. -/

namespace Kwokka

inductive TaskState
  | sleeping
  | woken
  | running
  | done
  | cancelled
  | failed
  | taken
  | retired
deriving DecidableEq, Repr

variable (header : TaskHeader) (s : TaskState)

namespace TaskState

def isTerminal : TaskState → Bool
  | cancelled | failed | taken | retired => true
  | sleeping | woken | running | done => false

/-- `AtomicTaskState::transition`: the compare-exchange, or the state it observed. -/
def transition (current expected next : TaskState) : Except TaskState TaskState :=
  if expected.isTerminal then .error current
  else if current = expected then .ok next
  else .error current

def wake : Except TaskState TaskState := s.transition sleeping woken

def tryStartPoll : Except TaskState TaskState := s.transition woken running

def complete : Except TaskState TaskState := s.transition running done

def suspend : Except TaskState TaskState := s.transition running sleeping

/-- `Done` keeps its output: a late cancel does not overwrite it. -/
def cancel : TaskState → Except TaskState TaskState
  | sleeping | woken | running => .ok cancelled
  | s => .error s

def after (transition : TaskState → Except TaskState TaskState) : TaskState :=
  match transition s with
  | .ok next => next
  | .error _ => s

@[simp]
theorem wake_eq_ok {s next : TaskState} : s.wake = .ok next ↔ s = sleeping ∧ next = woken := by
  cases s <;> simp [wake, transition, isTerminal, eq_comm]

@[simp]
theorem tryStartPoll_eq_ok {s next : TaskState} :
    s.tryStartPoll = .ok next ↔ s = woken ∧ next = running := by
  cases s <;> simp [tryStartPoll, transition, isTerminal, eq_comm]

theorem after_wake : s.after wake = if s = sleeping then woken else s := by
  cases s <;> rfl

theorem after_complete : s.after complete = if s = running then done else s := by
  cases s <;> rfl

theorem after_suspend :
    s.after suspend = if s = running then sleeping else s := by
  cases s <;> rfl

theorem after_cancel_ne {s : TaskState} : s.after cancel ≠ woken ∧ s.after cancel ≠ running := by
  cases s <;> decide

end TaskState

/-- A slab-path task handle: the routing worker and the slot key. -/
structure TaskRef where
  workerId : Nat
  key : SlabKey
deriving DecidableEq, Repr

structure Pip where
  workerId : Nat
  seq : Nat
deriving DecidableEq, Repr

/-- The completion a drain stored for the task's next poll. -/
structure WakeData where
  result : Int
  flags : UInt32
  bufId : UInt16
  hasResult : Bool
deriving DecidableEq, Repr

namespace WakeData

def noBuf : UInt16 := 0xFFFF

def empty : WakeData := ⟨0, 0, noBuf, false⟩

end WakeData

structure TaskHeader where
  state : TaskState
  pip : Pip
  firstChild : Option TaskRef
  nextSibling : Option TaskRef
  wakeData : WakeData
  inFlightOps : Nat
  isPinned : Bool
  isRemoteSettled : Bool
  hasPolled : Bool
  ioBound : Bool
  nextRunnable : Option TaskRef
deriving DecidableEq, Repr

namespace TaskHeader

def new (pip : Pip) : TaskHeader where
  state := .sleeping
  pip := pip
  firstChild := none
  nextSibling := none
  wakeData := .empty
  inFlightOps := 0
  isPinned := false
  isRemoteSettled := false
  hasPolled := false
  ioBound := false
  nextRunnable := none

def retireInFlightOp : TaskHeader :=
  { header with inFlightOps := header.inFlightOps - 1 }

def storeIoResult (result : Int) (flags : UInt32) (bufId : Option UInt16) : TaskHeader :=
  { header with
    wakeData := ⟨result, flags, bufId.getD WakeData.noBuf, true⟩ }.retireInFlightOp

/-- The fold after a poll that submitted operations; the counter is a saturating `u16`. -/
def landSubmitted (submitted : Nat) : TaskHeader :=
  if 0 < submitted then
    { header with inFlightOps := min (header.inFlightOps + submitted) (2 ^ 16 - 1), ioBound := true }
  else header

@[simp]
theorem landSubmitted_wakeData (submitted : Nat) :
    (header.landSubmitted submitted).wakeData = header.wakeData := by
  unfold landSubmitted
  split <;> rfl

@[simp]
theorem landSubmitted_state (submitted : Nat) :
    (header.landSubmitted submitted).state = header.state := by
  unfold landSubmitted
  split <;> rfl

end TaskHeader

end Kwokka
