import Kwokka.MpscQueue

/-! The park bracket: a worker that raises its parked flag, checks its rings once
more and parks, against producers that push and then look at the flag. -/

namespace Kwokka

open Runs

inductive ParkRing
  | wake
  | steal
  | handoff
deriving DecidableEq, Repr

def ParkRing.capacity : ParkRing → Nat
  | .wake => 256
  | .steal => 8
  | .handoff => 2

theorem ParkRing.isCapacity : ∀ ρ : ParkRing, IsCapacity ρ.capacity
  | .wake => ⟨⟨8, rfl⟩, by decide, by decide⟩
  | .steal => ⟨⟨3, rfl⟩, by decide, by decide⟩
  | .handoff => ⟨⟨1, rfl⟩, by decide, by decide⟩

/-- What a signal follows: a push on a ring, or the shutdown broadcast. -/
inductive SignalSource
  | ring (ρ : ParkRing)
  | shutdown
deriving DecidableEq, Repr

inductive SignalState
  | idle
  | checking
  | raising
deriving DecidableEq, Repr

inductive ParkState
  | running
  | checkingShutdown
  | popping
  | loadingEnqueue (ρ : ParkRing)
  | loadingDequeue (ρ : ParkRing) (enqueue : Nat)
  | blocked
  | clearing
deriving DecidableEq, Repr

/-- The worker's endpoint is published before it starts to loop, so the parked flag alone decides
what `signal_target` resolves to. -/
structure ParkWorld (α : Type*) where
  rings : ParkRing → MpscWorld α
  isShutdown : Bool
  isParked : Bool
  isSignalled : Bool
  worker : ParkState
  signals : SignalSource → Nat → SignalState

inductive ParkEvent (α : Type*)
  | push (ρ : ParkRing) (p : Nat) (value : α)
  | pushStep (ρ : ParkRing) (p : Nat) (isSpurious : Bool)
  | raiseShutdown (p : Nat)
  | signal (source : SignalSource) (p : Nat)
  /-- A running worker drains its rings, and reads the completions that signals posted. -/
  | pop (ρ : ParkRing)
  | popStep (ρ : ParkRing)
  | absorb
  /-- The worker enters the bracket, takes its next step in it, and leaves the park. -/
  | park
  | work
  | unpark

namespace ParkWorld

variable {α : Type*}

def init : ParkWorld α where
  rings := fun _ => .init
  isShutdown := false
  isParked := false
  isSignalled := false
  worker := .running
  signals := fun _ _ => .idle

def stepRing (w : ParkWorld α) (ρ : ParkRing) (e : MpscEvent α) : ParkWorld α :=
  { w with rings := Function.update w.rings ρ ((w.rings ρ).step ρ.capacity e) }

def setSignal (w : ParkWorld α) (source : SignalSource) (p : Nat) (st : SignalState) :
    ParkWorld α :=
  { w with signals := Function.update w.signals source (Function.update (w.signals source) p st) }

def pushResult (w : ParkWorld α) (ρ : ParkRing) (p : Nat) (isSpurious : Bool) :
    Option (Except α Unit) :=
  ((w.rings ρ).ring.pushStep ρ.capacity isSpurious ((w.rings ρ).producers p)).2.2

def popResult (w : ParkWorld α) : Option (Option (MaybeUninit α)) :=
  ((w.rings .wake).ring.popStep ParkRing.wake.capacity (w.rings .wake).consumer).2.2

/-- A delivered push is followed by a signal. A bounced handoff is too. -/
def signalAfter (ρ : ParkRing) (old : SignalState) : Option (Except α Unit) → SignalState
  | some (.ok ()) => .checking
  | some (.error _) => if ρ = .handoff then .checking else old
  | none => old

/-- The worker's next step inside the bracket; only the stealing one looks at the steal rings. -/
def work (isStealing : Bool) (w : ParkWorld α) : ParkWorld α :=
  match w.worker with
  | .checkingShutdown => { w with worker := if w.isShutdown then .clearing else .popping }
  | .popping =>
    match (w.rings .wake).consumer with
    | .idle => w.stepRing .wake .callPop
    | _ =>
      { w.stepRing .wake .consume with
        worker :=
          match w.popResult with
          | some (some _) => .clearing
          | some none => if isStealing then .loadingEnqueue .steal else .blocked
          | none => .popping }
  | .loadingEnqueue ρ => { w with worker := .loadingDequeue ρ (w.rings ρ).ring.enqueuePos }
  | .loadingDequeue ρ enqueue =>
    { w with
      worker :=
        if wrappingSub enqueue (w.rings ρ).ring.dequeuePos ≠ 0 then .clearing
        else if ρ = .steal then .loadingEnqueue .handoff
        else .blocked }
  | .clearing => { w with isParked := false, worker := .running }
  | .running | .blocked => w

def step (isStealing : Bool) (w : ParkWorld α) : ParkEvent α → ParkWorld α
  | .push ρ p value =>
    if w.signals (.ring ρ) p = .idle then w.stepRing ρ (.call p value) else w
  | .pushStep ρ p isSpurious =>
    (w.stepRing ρ (.produce p isSpurious)).setSignal (.ring ρ) p
      (signalAfter ρ (w.signals (.ring ρ) p) (w.pushResult ρ p isSpurious))
  | .raiseShutdown p =>
    if w.signals .shutdown p = .idle then
      { w with isShutdown := true }.setSignal .shutdown p .checking
    else w
  | .signal source p =>
    match w.signals source p with
    | .idle => w
    | .checking => w.setSignal source p (if w.isParked then .raising else .idle)
    | .raising => { w with isSignalled := true }.setSignal source p .idle
  | .pop ρ => if w.worker = .running then w.stepRing ρ .callPop else w
  | .popStep ρ => if w.worker = .running then w.stepRing ρ .consume else w
  | .absorb => if w.worker = .running then { w with isSignalled := false } else w
  | .park =>
    if w.worker = .running ∧ (w.rings .wake).consumer.isIdle ∧ (w.rings .steal).consumer.isIdle ∧
        (w.rings .handoff).consumer.isIdle then
      { w with isParked := true, worker := .checkingShutdown }
    else w
  | .work => w.work isStealing
  | .unpark => if w.worker = .blocked then { w with worker := .clearing } else w

end ParkWorld

end Kwokka
