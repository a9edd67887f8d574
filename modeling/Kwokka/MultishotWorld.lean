import Kwokka.Completion
import Kwokka.MultishotRegistry
import Kwokka.Runs

/-! One worker's multishot streams: the kernel posts completions and consumes
submissions, the worker drains cancels and completions between the polls that
read a stream or drop it. What differs between recv and accept is a
`MultishotProtocol`. -/

namespace Kwokka

open Function

/-- The outcome of routing one completion into a registry. `released` are the results no
consumer will take and the drain disposes of. -/
structure MultishotCompletion (ρ : Type) where
  registry : MultishotRegistry ρ
  wake : Option Nat
  retire : Option Nat
  released : List ρ

/-- What draining one cancel record does; `isSubmitted` when a cancel is handed to the driver. -/
structure MultishotCancel (ρ : Type) where
  registry : MultishotRegistry ρ
  isSubmitted : Bool
  released : List ρ

inductive MultishotNext (ρ : Type) where
  | item (value : ρ)
  | pending
  | ended

def MultishotNext.items {ρ : Type} : MultishotNext ρ → List ρ
  | .item value => [value]
  | _ => []

structure MultishotProtocol (ρ : Type) where
  encode : MultishotKey → UInt64
  routes : UInt64 → Bool
  pushCompletion : MultishotRegistry ρ → UInt64 → ρ → Bool → MultishotCompletion ρ
  submitCancel : MultishotRegistry ρ → MultishotKey → MultishotCancel ρ
  next : MultishotRegistry ρ → MultishotKey → MultishotNext ρ × MultishotRegistry ρ
  inboxCapacity : Nat
  isInboxShared : Bool

/-- A posted completion. `key` says which operation it is of and `isCancel` that it is the
cancel's own; the worker sees neither, only `userData`. -/
structure MultishotEntry (ρ : Type) where
  key : MultishotKey
  userData : UInt64
  value : ρ
  isMore : Bool
  isCancel : Bool
deriving DecidableEq, Repr

/-- The history of one submitted operation: every completion the kernel posted for it, how
many of them the worker drained, and whether a completion without `MORE` under its marker,
its own or its cancel's, was drained. -/
structure MultishotOp (ρ : Type) where
  owner : Nat
  posted : List (ρ × Bool)
  drained : Nat
  isSettled : Bool
deriving DecidableEq, Repr

def MultishotOp.isFinal {ρ : Type} (op : MultishotOp ρ) : Bool :=
  op.posted.getLast?.any fun c => !c.2

inductive StreamState where
  | idle
  | multishot (key : MultishotKey)
  | fallback
  | done
  | dropped
deriving DecidableEq, Repr

/-- A stream, with the key it was started under and everything it handed out. -/
structure MultishotStream (ρ : Type) where
  state : StreamState
  key : Option MultishotKey
  items : List ρ
deriving DecidableEq, Repr

/-- `inbox` holds `none` for the records other futures push to a shared ring. `issued`, `ops`
and `allocations` are history. -/
structure MultishotWorld (ρ : Type) where
  registry : MultishotRegistry ρ
  inbox : List (Option MultishotKey)
  streams : Nat → MultishotStream ρ
  issued : List MultishotKey
  ops : MultishotKey → MultishotOp ρ
  allocations : Nat → Nat
  cancels : List MultishotKey
  batch : List (MultishotEntry ρ)
  cq : List (MultishotEntry ρ)
  inFlight : Nat → Nat

inductive MultishotEvent (ρ : Type) where
  | next (stream owner : Nat) (isAccepted : Bool)
  | drop (stream : Nat)
  | pushOther
  | drainCancel (isAccepted : Bool)
  | post (key : MultishotKey) (value : ρ) (isMore : Bool)
  | postCancel (key : MultishotKey) (value : ρ)
  | read (own : Nat) (isOwnSkipped : Bool)
  | complete
deriving DecidableEq, Repr

namespace MultishotWorld

variable {ρ : Type}

def initial (registry : MultishotRegistry ρ) : MultishotWorld ρ :=
  { registry
    inbox := []
    streams := fun _ => ⟨.idle, none, []⟩
    issued := []
    ops := fun _ => ⟨0, [], 0, false⟩
    allocations := fun _ => 0
    cancels := []
    batch := []
    cq := []
    inFlight := fun _ => 0 }

variable (p : MultishotProtocol ρ) (w : MultishotWorld ρ)

/-- `start_multishot`, when the stream was not polled before. A full registry or a refused
submission degrades the stream to one operation per item. -/
def start (j owner : Nat) (isAccepted : Bool) : MultishotWorld ρ :=
  match (w.streams j).state with
  | .idle =>
    match w.registry.allocate owner with
    | none =>
      { w with streams := update w.streams j { w.streams j with state := .fallback } }
    | some (key, r) =>
      let allocations := update w.allocations key.slot (w.allocations key.slot + 1)
      if isAccepted then
        { w with
          registry := r
          streams := update w.streams j
            { w.streams j with state := .multishot key, key := some key }
          issued := key :: w.issued
          ops := update w.ops key ⟨owner, [], 0, false⟩
          allocations
          inFlight := update w.inFlight owner (w.inFlight owner + 1) }
      else
        { w with
          registry := r.free key
          streams := update w.streams j { w.streams j with state := .fallback }
          allocations }
  | _ => w

def advance (j : Nat) : MultishotNext ρ × MultishotRegistry ρ :=
  match (w.streams j).state with
  | .multishot key => p.next w.registry key
  | _ => (.pending, w.registry)

def poll (j : Nat) : MultishotWorld ρ :=
  match w.advance p j with
  | (.item value, r) =>
    { w with
      registry := r
      streams := update w.streams j
        { w.streams j with items := (w.streams j).items ++ [value] } }
  | (.pending, r) => { w with registry := r }
  | (.ended, r) =>
    { w with
      registry := r
      streams := update w.streams j { w.streams j with state := .done } }

def pushRecord (record : Option MultishotKey) : List (Option MultishotKey) :=
  if w.inbox.length < p.inboxCapacity then w.inbox ++ [record] else w.inbox

def dropStream (j : Nat) : MultishotWorld ρ :=
  { w with
    inbox :=
      match (w.streams j).state with
      | .multishot key => w.pushRecord p (some key)
      | _ => w.inbox
    streams := update w.streams j { w.streams j with state := .dropped } }

def drainCancel (isAccepted : Bool) : MultishotWorld ρ :=
  match w.inbox with
  | [] => w
  | none :: rest => { w with inbox := rest }
  | some key :: rest =>
    let out := p.submitCancel w.registry key
    { w with
      inbox := rest
      registry := out.registry
      cancels := if out.isSubmitted && isAccepted then w.cancels ++ [key] else w.cancels }

def post (key : MultishotKey) (value : ρ) (isMore : Bool) : MultishotWorld ρ :=
  if key ∈ w.issued ∧ (w.ops key).isFinal = false then
    { w with
      ops := update w.ops key
        { w.ops key with posted := (w.ops key).posted ++ [(value, isMore)] }
      cq := w.cq ++ [⟨key, p.encode key, value, isMore, false⟩] }
  else w

def postCancel (key : MultishotKey) (value : ρ) : MultishotWorld ρ :=
  if key ∈ w.cancels then
    { w with
      cancels := w.cancels.erase key
      cq := w.cq ++ [⟨key, p.encode key, value, false, true⟩] }
  else w

/-- Every kind of operation shares the ring: `own` of the places of a batch go to the
completions of this one, and the entry skipped behind a full batch may be another's. -/
def read (own : Nat) (isOwnSkipped : Bool) : MultishotWorld ρ :=
  { w with
    batch := w.cq.take (min own completionBatch)
    cq := w.cq.drop (min own completionBatch + isOwnSkipped.toNat) }

def skipped (own : Nat) (isOwnSkipped : Bool) : Option (MultishotEntry ρ) :=
  if isOwnSkipped then w.cq[min own completionBatch]? else none

def noteDrained (e : MultishotEntry ρ) : MultishotOp ρ :=
  { w.ops e.key with
    drained := (w.ops e.key).drained + if e.isCancel then 0 else 1
    isSettled := (w.ops e.key).isSettled || !e.isMore }

def retire (owner : Option Nat) : Nat → Nat :=
  match owner with
  | some t => update w.inFlight t (w.inFlight t - 1)
  | none => w.inFlight

def complete : MultishotWorld ρ :=
  match w.batch with
  | [] => w
  | e :: rest =>
    if p.routes e.userData then
      let out := p.pushCompletion w.registry e.userData e.value e.isMore
      { w with
        registry := out.registry
        batch := rest
        ops := update w.ops e.key (w.noteDrained e)
        inFlight := w.retire out.retire }
    else { w with batch := rest }

/-- A pass drains every cancel, then one batch of completions, then polls; the kernel posts at
any moment. -/
def step (w : MultishotWorld ρ) : MultishotEvent ρ → MultishotWorld ρ
  | .next j owner isAccepted =>
    if w.batch.isEmpty then (w.start j owner isAccepted).poll p j else w
  | .drop j => if w.batch.isEmpty then w.dropStream p j else w
  | .pushOther =>
    if w.batch.isEmpty && p.isInboxShared then { w with inbox := w.pushRecord p none } else w
  | .drainCancel isAccepted => if w.batch.isEmpty then w.drainCancel p isAccepted else w
  | .post key value isMore => w.post p key value isMore
  | .postCancel key value => w.postCancel p key value
  | .read own isOwnSkipped =>
    if w.batch.isEmpty && w.inbox.isEmpty then w.read own isOwnSkipped else w
  | .complete => w.complete p

def released (w : MultishotWorld ρ) : MultishotEvent ρ → List ρ
  | .drainCancel _ =>
    match w.batch, w.inbox with
    | [], some key :: _ => (p.submitCancel w.registry key).released
    | _, _ => []
  | .complete =>
    match w.batch with
    | [] => []
    | e :: _ =>
      if p.routes e.userData then
        (p.pushCompletion w.registry e.userData e.value e.isMore).released
      else []
  | _ => []

def yielded (w : MultishotWorld ρ) : MultishotEvent ρ → List ρ
  | .next j owner isAccepted =>
    if w.batch.isEmpty then ((w.start j owner isAccepted).advance p j).1.items else []
  | _ => []

end MultishotWorld

end Kwokka
