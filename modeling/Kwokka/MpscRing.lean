import Kwokka.Slab

/-! The bounded multi-producer single-consumer ring, one atomic operation at a
time, with any number of producers and one consumer interleaved. -/

namespace Kwokka

open Function

def wrappingAdd (a b : Nat) : Nat := (a + b) % 2 ^ 64

def wrappingSub (a b : Nat) : Nat := (a + (2 ^ 64 - b)) % 2 ^ 64

def usizeMax : Nat := 2 ^ 64 - 1

structure MpscSlot (α : Type*) where
  sequence : Nat
  cell : MaybeUninit α
deriving DecidableEq, Repr

structure MpscRing (α : Type*) where
  enqueuePos : Nat
  dequeuePos : Nat
  slots : Nat → MpscSlot α

inductive PushState (α : Type*)
  | idle
  /-- Before a load of `enqueue_pos`, the first or a reload. -/
  | loading (value : α)
  /-- Before the load of the slot's sequence. -/
  | looping (pos : Nat) (value : α)
  /-- The gap was zero; before the compare-exchange. -/
  | claiming (pos : Nat) (value : α)
  | writing (pos : Nat) (value : α)
  | publishing (pos : Nat)
deriving DecidableEq, Repr

inductive PopState (α : Type*)
  | idle
  | loading
  | looking (pos : Nat)
  | reading (pos : Nat)
  | freeing (pos : Nat) (value : MaybeUninit α)
  | advancing (pos : Nat) (value : MaybeUninit α)
deriving DecidableEq, Repr

def PopState.isIdle {α : Type*} : PopState α → Bool
  | .idle => true
  | _ => false

namespace MpscRing

variable {α : Type*}

def new : MpscRing α := ⟨0, 0, fun i => ⟨i, none⟩⟩

def slotIndex (N pos : Nat) : Nat := pos &&& (N - 1)

def slot (N : Nat) (ring : MpscRing α) (pos : Nat) : MpscSlot α := ring.slots (slotIndex N pos)

def setSlot (N : Nat) (ring : MpscRing α) (pos : Nat) (slot : MpscSlot α) : MpscRing α :=
  { ring with slots := update ring.slots (slotIndex N pos) slot }

/-- One atomic operation of `push`, up to the next one, and what the call returns if it ends.
A weak compare-exchange may fail although the position is still free. -/
def pushStep (N : Nat) (ring : MpscRing α) (isSpurious : Bool) :
    PushState α → MpscRing α × PushState α × Option (Except α Unit)
  | .idle => (ring, .idle, none)
  | .loading value => (ring, .looping ring.enqueuePos value, none)
  | .looping pos value =>
    let gap := wrappingSub (ring.slot N pos).sequence pos
    if gap = 0 then (ring, .claiming pos value, none)
    else if usizeMax / 2 < gap then (ring, .idle, some (.error value))
    else (ring, .loading value, none)
  | .claiming pos value =>
    if ring.enqueuePos = pos ∧ isSpurious = false then
      ({ ring with enqueuePos := wrappingAdd pos 1 }, .writing pos value, none)
    else (ring, .looping ring.enqueuePos value, none)
  | .writing pos value =>
    (ring.setSlot N pos { ring.slot N pos with cell := some value }, .publishing pos, none)
  | .publishing pos =>
    (ring.setSlot N pos { ring.slot N pos with sequence := wrappingAdd pos 1 }, .idle,
      some (.ok ()))

/-- One atomic operation of `pop`. -/
def popStep (N : Nat) (ring : MpscRing α) :
    PopState α → MpscRing α × PopState α × Option (Option (MaybeUninit α))
  | .idle => (ring, .idle, none)
  | .loading => (ring, .looking ring.dequeuePos, none)
  | .looking pos =>
    if usizeMax / 2 < wrappingSub (ring.slot N pos).sequence (wrappingAdd pos 1) then
      (ring, .idle, some none)
    else (ring, .reading pos, none)
  | .reading pos => (ring, .freeing pos (ring.slot N pos).cell, none)
  | .freeing pos value =>
    (ring.setSlot N pos { ring.slot N pos with sequence := wrappingAdd pos N },
      .advancing pos value, none)
  | .advancing pos value =>
    ({ ring with dequeuePos := wrappingAdd pos 1 }, .idle, some (some value))

def len (ring : MpscRing α) : Nat := wrappingSub ring.enqueuePos ring.dequeuePos

def isEmpty (ring : MpscRing α) : Bool := ring.len == 0

/-- The cells that `drop` drops, in order; `none` if `fuel` loops are not enough. -/
def dropLoop (N : Nat) (ring : MpscRing α) : Nat → Nat → Option (List (MaybeUninit α))
  | 0, _ => none
  | fuel + 1, pos =>
    if pos = ring.enqueuePos then some []
    else (dropLoop N ring fuel (wrappingAdd pos 1)).map ((ring.slot N pos).cell :: ·)

end MpscRing

/-- One call of `push`: the producer's `call`-th. -/
structure PushItem (α : Type*) where
  producer : Nat
  call : Nat
  value : α
deriving DecidableEq, Repr

/-- The ring in use. What is recorded beside it: each producer's arguments so far, the claimed
positions in order, the calls that returned and what `pop` returned, how many slots were handed
back to producers, and for the push in progress how many positions were claimed when it began
and whether the ring was full at some moment since. -/
structure MpscWorld (α : Type*) where
  ring : MpscRing α
  producers : Nat → PushState α
  consumer : PopState α
  asked : Nat → List α
  claims : List (PushItem α)
  accepted : List (Nat × Nat)
  refused : List (PushItem α × Bool)
  popped : List (MaybeUninit α)
  freed : Nat
  since : Nat → Nat
  sawFull : Nat → Bool

inductive MpscEvent (α : Type*)
  | call (p : Nat) (value : α)
  | produce (p : Nat) (isSpurious : Bool)
  | callPop
  | consume

namespace MpscWorld

variable {α : Type*}

def init : MpscWorld α where
  ring := .new
  producers := fun _ => .idle
  consumer := .idle
  asked := fun _ => []
  claims := []
  accepted := []
  refused := []
  popped := []
  freed := 0
  since := fun _ => 0
  sawFull := fun _ => false

def outstanding (w : MpscWorld α) : Nat := w.claims.length - w.freed

def lastCall (w : MpscWorld α) (p : Nat) : Nat := (w.asked p).length - 1

def observe (N : Nat) (w : MpscWorld α) : MpscWorld α :=
  { w with sawFull := fun p => w.sawFull p || decide (N ≤ w.outstanding) }

def call (w : MpscWorld α) (p : Nat) (value : α) : MpscWorld α :=
  { w with
    producers := update w.producers p (.loading value)
    asked := update w.asked p (w.asked p ++ [value])
    since := update w.since p w.claims.length
    sawFull := update w.sawFull p false }

def won : PushState α → PushState α → Option α
  | .claiming _ value, .writing _ _ => some value
  | _, _ => none

def produce (N : Nat) (w : MpscWorld α) (p : Nat) (isSpurious : Bool) : MpscWorld α :=
  let next := w.ring.pushStep N isSpurious (w.producers p)
  { w with
    ring := next.1
    producers := update w.producers p next.2.1
    claims := w.claims ++ ((won (w.producers p) next.2.1).map (PushItem.mk p (w.lastCall p))).toList
    accepted :=
      match next.2.2 with
      | some (.ok ()) => w.accepted ++ [(p, w.lastCall p)]
      | _ => w.accepted
    refused :=
      match next.2.2 with
      | some (.error value) => w.refused ++ [(⟨p, w.lastCall p, value⟩, w.sawFull p)]
      | _ => w.refused }

def consume (N : Nat) (w : MpscWorld α) : MpscWorld α :=
  let next := w.ring.popStep N w.consumer
  { w with
    ring := next.1
    consumer := next.2.1
    freed := match w.consumer with
      | .freeing _ _ => w.freed + 1
      | _ => w.freed
    popped := match next.2.2 with
      | some (some value) => w.popped ++ [value]
      | _ => w.popped }

def step (N : Nat) (w : MpscWorld α) : MpscEvent α → MpscWorld α
  | .call p value =>
    match w.producers p with
    | .idle => (w.call p value).observe N
    | _ => w
  | .produce p isSpurious => (w.produce N p isSpurious).observe N
  | .callPop =>
    match w.consumer with
    | .idle => { w with consumer := .loading }
    | _ => w
  | .consume => (w.consume N).observe N

end MpscWorld

end Kwokka
