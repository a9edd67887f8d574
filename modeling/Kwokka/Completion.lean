import Mathlib.Data.List.Basic

/-! Completion queue entries as the kernel posts them, and the `Completion`
values the ring backend translates them into. -/

namespace Kwokka

/-- A raw completion queue entry. The result is an `i32`, negative for `-errno`. -/
structure Cqe where
  userData : UInt64
  result : Int
  flags : UInt32
deriving DecidableEq, Repr

structure CqeFlags where
  bits : UInt32
deriving DecidableEq, Repr

namespace CqeFlags

def empty : CqeFlags := ⟨0⟩
def buffer : CqeFlags := ⟨1⟩
def more : CqeFlags := ⟨2⟩
def notif : CqeFlags := ⟨8⟩

def contains (f other : CqeFlags) : Bool := f.bits &&& other.bits == other.bits

def union (f other : CqeFlags) : CqeFlags := ⟨f.bits ||| other.bits⟩

end CqeFlags

structure Completion where
  token : UInt64
  result : Int
  flags : CqeFlags
  bufId : Option UInt16
deriving DecidableEq, Repr

namespace Completion

def default : Completion := ⟨0, 0, .empty, none⟩

def isNotif (c : Completion) : Bool := c.flags.contains .notif

def hasMore (c : Completion) : Bool := c.flags.contains .more

end Completion

/-- `cqueue::buffer_select` of the ring crate: the buffer id sits above bit 16
and is present when `IORING_CQE_F_BUFFER` is set. -/
def bufferSelect (flags : UInt32) : Option UInt16 :=
  if flags &&& 1 != 0 then some (flags >>> 16).toUInt16 else none

def isCqeMore (flags : UInt32) : Bool := flags &&& 2 != 0

def isCqeNotif (flags : UInt32) : Bool := flags &&& 8 != 0

def translateFlags (raw : UInt32) : CqeFlags :=
  let flags := CqeFlags.empty
  let flags := if (bufferSelect raw).isSome then flags.union .buffer else flags
  let flags := if isCqeMore raw then flags.union .more else flags
  if isCqeNotif raw then flags.union .notif else flags

def translateCqe (cqe : Cqe) : Completion :=
  { token := cqe.userData
    result := cqe.result
    flags := translateFlags cqe.flags
    bufId := bufferSelect cqe.flags }

theorem translateCqe_hasMore (cqe : Cqe) :
    (translateCqe cqe).hasMore = isCqeMore cqe.flags := by
  simp only [Completion.hasMore, translateCqe, translateFlags]
  cases (bufferSelect cqe.flags).isSome <;> cases isCqeMore cqe.flags <;>
    cases isCqeNotif cqe.flags <;> decide

theorem translateCqe_isNotif (cqe : Cqe) :
    (translateCqe cqe).isNotif = isCqeNotif cqe.flags := by
  simp only [Completion.isNotif, translateCqe, translateFlags]
  cases (bufferSelect cqe.flags).isSome <;> cases isCqeMore cqe.flags <;>
    cases isCqeNotif cqe.flags <;> decide

def completionBatch : Nat := 64

end Kwokka
