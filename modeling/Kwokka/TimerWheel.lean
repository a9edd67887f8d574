import Kwokka.Slab
import Mathlib.Data.Nat.Log

/-! The hierarchical timing wheel: six levels of 64 slots, each slot the head of
a doubly linked list threaded through the entry slab. Links hold slab indices;
loops that follow links or ticks carry fuel, and `none` is running out of it or
an overflowing tick. -/

namespace Kwokka

structure TimerEntry (τ : Type*) where
  deadlineTick : Nat
  taskRef : τ
  prev : Option Nat
  next : Option Nat
  level : Fin 6
  slot : Fin 64
deriving DecidableEq, Repr

structure WheelLevel where
  slots : Fin 64 → Option Nat
  populatedMask : BitVec 64

structure TimerWheel (τ : Type*) where
  currentTick : Nat
  levels : Fin 6 → WheelLevel
  entries : Slab (TimerEntry τ)

def WheelLevel.new : WheelLevel := ⟨fun _ => none, 0⟩

def leadingZeros (x : Nat) : Nat := if x = 0 then 64 else 63 - x.log2

def trailingZeros (x : Nat) : Nat := ((List.range 64).find? x.testBit).getD 64

def slotOf (tick level : Nat) : Fin 64 :=
  ⟨(tick >>> (level * 6)) &&& 0x3F, Nat.and_lt_two_pow _ (show 0x3F < 2 ^ 6 by decide)⟩

instance neZero6 : NeZero 6 := ⟨by decide⟩

def position (deadlineTick currentTick : Nat) : Fin 6 × Fin 64 :=
  let delta := deadlineTick - currentTick
  if delta = 0 then (0, slotOf currentTick 0)
  else
    let level := min ((63 - leadingZeros delta) / 6) 5
    (⟨level, by omega⟩, slotOf deadlineTick level)

namespace WheelSlot

variable {τ : Type*}

def pushFront (head : Option Nat) (idx : Nat) (entries : Slab (TimerEntry τ)) :
    Option Nat × Slab (TimerEntry τ) :=
  match entries.getByIndex idx with
  | none => (head, entries)
  | some _ =>
    let entries := entries.modifyByIndex idx fun e => { e with prev := none, next := head }
    let entries := match head with
      | some old => entries.modifyByIndex old fun e => { e with prev := some idx }
      | none => entries
    (some idx, entries)

/-- Returns the new head; the source's `bool` is whether that head is `none`. -/
def remove (head : Option Nat) (idx : Nat) (entries : Slab (TimerEntry τ)) :
    Option Nat × Slab (TimerEntry τ) :=
  match entries.getByIndex idx with
  | none => (head, entries)
  | some entry =>
    let prev := entry.prev
    let next := entry.next
    let (head, entries) := match prev with
      | some p => (head, entries.modifyByIndex p fun e => { e with next := next })
      | none => (next, entries)
    let entries := match next with
      | some n => entries.modifyByIndex n fun e => { e with prev := prev }
      | none => entries
    (head, entries.modifyByIndex idx fun e => { e with prev := none, next := none })

end WheelSlot

namespace TimerWheel

variable {τ : Type*}

def new (now capacity : Nat) : Outcome SlabError (TimerWheel τ) := do
  let entries ← Slab.new capacity
  return { currentTick := now, levels := fun _ => WheelLevel.new, entries := entries }

variable (w : TimerWheel τ) (level : Fin 6)

def head (slot : Fin 64) : Option Nat :=
  (w.levels level).slots slot

def modifyLevel (f : WheelLevel → WheelLevel) : TimerWheel τ :=
  { w with levels := Function.update w.levels level (f (w.levels level)) }

def setHead (slot : Fin 64) (h : Option Nat) : TimerWheel τ :=
  w.modifyLevel level fun l => { l with slots := Function.update l.slots slot h }

def setBit (slot : Fin 64) : TimerWheel τ :=
  w.modifyLevel level fun l =>
    { l with populatedMask := l.populatedMask ||| BitVec.twoPow 64 slot }

def clearBit (slot : Fin 64) : TimerWheel τ :=
  w.modifyLevel level fun l =>
    { l with populatedMask := l.populatedMask &&& ~~~ BitVec.twoPow 64 slot }

def insertAt (idx : Nat) (level : Fin 6) (slot : Fin 64) : TimerWheel τ :=
  let entries := w.entries.modifyByIndex idx fun e => { e with level := level, slot := slot }
  let pushed := WheelSlot.pushFront (w.head level slot) idx entries
  ({ w with entries := pushed.2 }.setHead level slot pushed.1).setBit level slot

def register (taskRef : τ) (deadlineTick : Nat) :
    Outcome SlabError (SlabKey × TimerWheel τ) := do
  let entry := { deadlineTick, taskRef, prev := none, next := none, level := 0, slot := 0 }
  let (key, entries) ← w.entries.insert entry
  let (level, slot) := position deadlineTick w.currentTick
  return (key, { w with entries := entries }.insertAt key.index level slot)

def removeFromSlot (idx : Nat) : TimerWheel τ :=
  match w.entries.getByIndex idx with
  | none => w
  | some entry =>
    let removed := WheelSlot.remove (w.head entry.level entry.slot) idx w.entries
    let w := { w with entries := removed.2 }.setHead entry.level entry.slot removed.1
    if removed.1 = none then w.clearBit entry.level entry.slot else w

def cancel (handle : SlabKey) : Bool × TimerWheel τ :=
  match w.entries.get handle with
  | none => (false, w)
  | some _ =>
    let w := w.removeFromSlot handle.index
    match w.entries.remove handle with
    | some (_, entries) => (true, { w with entries := entries })
    | none => (true, w)

def reposition (idx deadlineTick : Nat) : TimerWheel τ :=
  let entries := w.entries.modifyByIndex idx fun e => { e with prev := none, next := none }
  let (level, slot) := position deadlineTick w.currentTick
  { w with entries := entries }.insertAt idx level slot

def cascadeLoop (w : TimerWheel τ) : Nat → Option Nat → Option (TimerWheel τ)
  | _, none => some w
  | 0, some _ => none
  | fuel + 1, some idx =>
    match w.entries.getByIndex idx with
    | none => some w
    | some entry => cascadeLoop (w.reposition idx entry.deadlineTick) fuel entry.next

def cascadeLevel : Option (TimerWheel τ) :=
  let slot := slotOf w.currentTick level
  let first := w.head level slot
  ((w.setHead level slot none).clearBit level slot).cascadeLoop w.entries.slots.length first

/-- The `for lvl in 2..LEVEL_COUNT` loop, which stops at the first level that does not wrap. -/
def cascadeLevels (tz : Nat) : List (Fin 6) → TimerWheel τ → Option (TimerWheel τ)
  | [], w => some w
  | level :: levels, w =>
    if level.val * 6 ≤ tz then (w.cascadeLevel level).bind (cascadeLevels tz levels) else some w

def advanceOneTick : Option (TimerWheel τ) :=
  (checkedAdd w.currentTick 1).bind fun tick =>
    let w := { w with currentTick := tick }
    let tz := trailingZeros w.currentTick
    if 6 ≤ tz then (w.cascadeLevel 1).bind (cascadeLevels tz [2, 3, 4, 5]) else some w

def nextExpiryFrom (w : TimerWheel τ) : List (Fin 6) → Option Nat
  | [] => none
  | level :: levels =>
    let mask := (w.levels level).populatedMask
    if mask = 0 then nextExpiryFrom w levels
    else
      let rotated := mask.rotateRight (slotOf w.currentTick level)
      some (trailingZeros rotated.toNat * (1 <<< (level.val * 6)) + 1)

def nextExpiry : Option Nat := w.nextExpiryFrom (List.finRange 6)

end TimerWheel

structure ExpiredIter (τ : Type*) where
  wheel : TimerWheel τ
  targetTick : Nat
  currentDrain : Option Nat

/-- What one turn of the loop in `next` does: return an entry, go round again, or end. -/
inductive ExpiredTurn (τ : Type*)
  | yields (taskRef : τ) (rest : ExpiredIter τ)
  | continues (rest : ExpiredIter τ)
  | ends (wheel : TimerWheel τ)

namespace ExpiredIter

variable {τ : Type*}

def nextTick (it : ExpiredIter τ) (w : TimerWheel τ) : Option (ExpiredTurn τ) :=
  w.advanceOneTick.map fun w =>
    let slot := slotOf w.currentTick 0
    let drain := w.head 0 slot
    let w := w.setHead 0 slot none
    .continues { it with wheel := if drain.isSome then w.clearBit 0 slot else w
                         currentDrain := drain }

def turn (it : ExpiredIter τ) : Option (ExpiredTurn τ) :=
  match it.currentDrain with
  | some idx =>
    match it.wheel.entries.getByIndex idx with
    | none => some (.continues { it with currentDrain := none })
    | some entry =>
      let entries := match it.wheel.entries.removeByIndex idx with
        | some (_, entries) => entries
        | none => it.wheel.entries
      some (.yields entry.taskRef
        { it with wheel := { it.wheel with entries := entries }, currentDrain := entry.next })
  | none =>
    let w := it.wheel
    if it.targetTick ≤ w.currentTick then some (.ends w)
    else if (w.levels 0).populatedMask = 0 then
      (checkedAdd (w.currentTick ||| 0x3F) 1).bind fun nextL0Wrap =>
        if it.targetTick < nextL0Wrap then some (.ends { w with currentTick := it.targetTick })
        else it.nextTick { w with currentTick := nextL0Wrap - 1 }
    else it.nextTick w

def drain : Nat → ExpiredIter τ → Option (TimerWheel τ × List τ)
  | 0, _ => none
  | fuel + 1, it =>
    match it.turn with
    | some (.yields taskRef rest) => (drain fuel rest).map fun r => (r.1, taskRef :: r.2)
    | some (.continues rest) => drain fuel rest
    | some (.ends w) => some (w, [])
    | none => none

end ExpiredIter

/-- A fully drained `advance_to`. Every turn but the last yields an entry or moves a tick. -/
def TimerWheel.advanceTo {τ : Type*} (w : TimerWheel τ) (targetTick : Nat) :
    Option (TimerWheel τ × List τ) :=
  ExpiredIter.drain (w.entries.slots.length + (targetTick - w.currentTick) + 1)
    ⟨w, targetTick, none⟩

end Kwokka
