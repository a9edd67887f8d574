import Kwokka.CellLife
import Kwokka.Runs
import Kwokka.SlabView

/-! Task cells in the slabs of any number of workers: what polls, joins, cancels,
relocations, reaps and drops do to the future and the output each cell holds. Which task
is polled, stolen or reaped when is left open. -/

namespace Kwokka

open Runs

/-- An erased cell. `task` numbers the future it was built from, `copy` counts how often the
bytes were copied to another slab before. -/
structure TaskSlot where
  header : TaskHeader
  task : Nat
  copy : Nat
deriving DecidableEq, Repr

namespace TaskSlot

variable (slot : TaskSlot)

def setState (state : TaskState) : TaskSlot :=
  { slot with header := { slot.header with state } }

/-- What `poll_fn` does to the cell once the future returned. -/
def pollFn (isReady : Bool) : List CellAccess :=
  if isReady then [.write, .dropFuture] else []

def dropInPlaceFn : List CellAccess :=
  match slot.header.state with
  | .sleeping | .woken | .running | .cancelled => [.dropFuture]
  | .done => [.dropOutput]
  | .failed | .taken | .retired => []

/-- `take_output` and `take_output_shared`, which move the output out; any other state panics. -/
def takeOutput : Option TaskSlot :=
  match slot.header.state.transition .done .taken with
  | .ok state => some (slot.setState state)
  | .error _ => none

/-- The cell in transport and the husk left behind. `expected` is the state the retire
compare-exchange starts from. -/
def relocate (expected : TaskState) (slot : TaskSlot) : Option (TaskSlot × TaskSlot) :=
  if slot.header.inFlightOps ≠ 0 ∨ slot.header.firstChild.isSome ∨ slot.header.isPinned then none
  else if slot.header.state = expected then
    some ({ slot.setState .sleeping with copy := slot.copy + 1 }, slot.setState .retired)
  else none

def moveOut : Option (TaskSlot × TaskSlot) := slot.relocate .sleeping

def moveOutWoken : Option (TaskSlot × TaskSlot) := slot.relocate .woken

def isSettled : Bool :=
  if slot.header.state = .retired then slot.header.isRemoteSettled
  else slot.header.state.isTerminal || slot.header.state == .done

end TaskSlot

/-- `polling` is the slot a worker polls, `transit` the bodies between two slabs. `log` lists the
accesses to a task's future and output, each with the copy it went through. -/
structure CellWorld where
  slabs : Nat → Slab TaskSlot
  polling : Nat → Option SlabKey
  transit : List TaskSlot
  spawned : Nat
  log : Nat → List (Nat × CellAccess)

/-- `cancelChild` and `joinChild` happen inside a poll of worker `v`, `unwindPoll` is a poll
that panics, and `edit` is any write to the rest of a header. -/
inductive CellEvent
  | spawn (v : Nat) (pip : Pip)
  | wake (v : Nat) (key : SlabKey)
  | startPoll (v : Nat) (key : SlabKey)
  | endPoll (v : Nat) (isReady : Bool)
  | unwindPoll (v : Nat)
  | cancelChild (v : Nat) (child : SlabKey)
  | joinChild (v : Nat) (child : SlabKey)
  | takeRootOutput (v : Nat) (key : SlabKey)
  | moveOut (v : Nat) (key : SlabKey)
  | moveOutWoken (v : Nat) (key : SlabKey)
  | reserve (v : Nat)
  | unreserve (v : Nat) (key : SlabKey)
  | moveIn (i v : Nat) (dest : SlabKey)
  | dropTransit (i : Nat)
  | reap (v : Nat) (key : SlabKey)
  | reportSettled (v index : Nat)
  | edit (v : Nat) (key : SlabKey) (header : TaskHeader)
  | dropSlab (v : Nat)
deriving DecidableEq

namespace CellWorld

/-- Worker `v` has `capacity v` slots; a capacity that no slab can have is none. -/
def init (capacity : Nat → Nat) : CellWorld where
  slabs v :=
    match Slab.new (capacity v) with
    | .ok slab => slab
    | _ => ⟨[], freeSentinel, 0⟩
  polling _ := none
  transit := []
  spawned := 0
  log _ := []

variable (w : CellWorld) (v : Nat) (key : SlabKey)

def cell : Option TaskSlot := (w.slabs v).stored key

def setSlab (slab : Slab TaskSlot) : CellWorld :=
  { w with slabs := Function.update w.slabs v slab }

def setPolling (key : Option SlabKey) : CellWorld :=
  { w with polling := Function.update w.polling v key }

def record (slot : TaskSlot) (accesses : List CellAccess) : CellWorld :=
  { w with
    log := Function.update w.log slot.task
      (w.log slot.task ++ accesses.map fun access => (slot.copy, access)) }

def dropSlot (slot : TaskSlot) : CellWorld := w.record slot slot.dropInPlaceFn

def write (slot : TaskSlot) : CellWorld :=
  match (w.slabs v).getMut key fun _ => slot with
  | some slab => w.setSlab v slab
  | none => w

def spawn (pip : Pip) : CellWorld :=
  let slot : TaskSlot := ⟨.new pip, w.spawned, 0⟩
  let w := { w with spawned := w.spawned + 1 }
  match (w.slabs v).insert slot with
  | .ok (_, slab) => w.setSlab v slab
  | _ => w.dropSlot slot

def wake (w : CellWorld) (v : Nat) (key : SlabKey) : CellWorld :=
  match w.polling v, w.cell v key with
  | none, some slot => w.write v key (slot.setState (slot.header.state.after TaskState.wake))
  | _, _ => w

def startPoll : CellWorld :=
  match w.polling v, w.cell v key with
  | none, some slot =>
    match slot.header.state.tryStartPoll with
    | .ok state =>
      ((w.record slot [.poll]).write v key
        { slot with header := { slot.header with state, hasPolled := true } }).setPolling v (some key)
    | .error _ => w
  | _, _ => w

def endPoll (isReady : Bool) : CellWorld :=
  match w.polling v with
  | some key =>
    match w.cell v key with
    | some slot =>
      let transition := if isReady then TaskState.complete else TaskState.suspend
      ((w.record slot (TaskSlot.pollFn isReady)).write v key
        (slot.setState (slot.header.state.after transition))).setPolling v none
    | none => w.setPolling v none
  | none => w

def cancelChild (child : SlabKey) : CellWorld :=
  match w.polling v, w.cell v child with
  | some current, some slot =>
    if child.index = current.index then w
    else w.write v child (slot.setState (slot.header.state.after TaskState.cancel))
  | _, _ => w

def joinChild (child : SlabKey) : CellWorld :=
  match w.polling v, w.cell v child with
  | some current, some slot =>
    if child.index = current.index then w
    else
      match slot.takeOutput with
      | some taken => (w.record slot [.moveOutput]).write v child taken
      | none => w
  | _, _ => w

def removeSlot : CellWorld :=
  match (w.slabs v).remove key with
  | some (some slot, slab) => (w.setSlab v slab).dropSlot slot
  | _ => w

def takeRootOutput : CellWorld :=
  match w.polling v, w.cell v key with
  | none, some slot =>
    match slot.takeOutput with
    | some taken => ((w.record slot [.moveOutput]).write v key taken).removeSlot v key
    | none => w
  | _, _ => w

def ship (relocate : TaskSlot → Option (TaskSlot × TaskSlot)) :
    CellWorld :=
  match w.polling v, w.cell v key with
  | none, some slot =>
    match relocate slot with
    | some (body, husk) =>
      { (w.record slot [.moveFuture]).write v key husk with transit := w.transit ++ [body] }
    | none => w
  | _, _ => w

def reserve (w : CellWorld) (v : Nat) : CellWorld :=
  match w.polling v, (w.slabs v).reserve with
  | none, .ok (_, slab) => w.setSlab v slab
  | _, _ => w

def unreserve (w : CellWorld) (v : Nat) (key : SlabKey) : CellWorld :=
  match w.polling v with
  | none => w.setSlab v ((w.slabs v).unreserve key).2
  | some _ => w

/-- `receive_handoff`: a delivery whose promise no longer resolves drops the transport. -/
def moveIn (i v : Nat) (dest : SlabKey) : CellWorld :=
  match w.polling v, w.transit[i]? with
  | none, some slot =>
    let w := { w with transit := w.transit.eraseIdx i }
    match (w.slabs v).install dest slot with
    | some slab => w.setSlab v slab
    | none => (w.dropSlot slot).setSlab v ((w.slabs v).unreserve dest).2
  | _, _ => w

def dropTransit (i : Nat) : CellWorld :=
  match w.transit[i]? with
  | some slot => { w with transit := w.transit.eraseIdx i }.dropSlot slot
  | none => w

/-- The release of one settled child: a husk goes without running its drop glue. -/
def reap : CellWorld :=
  match w.polling v, w.cell v key with
  | none, some slot =>
    if slot.isSettled then
      if slot.header.state = .retired then w.setSlab v ((w.slabs v).retireSlot key).2
      else w.removeSlot v key
    else w
  | _, _ => w

/-- The release of one relocated resident whose settled note landed. -/
def reportSettled (v index : Nat) : CellWorld :=
  match w.polling v, (w.slabs v).getByIndex index with
  | none, some resident =>
    if resident.header.state.isTerminal || resident.header.state == .done then
      match (w.slabs v).removeByIndex index with
      | some (slot, slab) => (w.setSlab v slab).dropSlot slot
      | none => w
    else w
  | _, _ => w

def edit (header : TaskHeader) : CellWorld :=
  match w.cell v key with
  | some slot => w.write v key { slot with header := { header with state := slot.header.state } }
  | none => w

def dropSlab : CellWorld :=
  match w.polling v with
  | none =>
    (((w.slabs v).keys.filterMap (w.cell v)).foldl dropSlot w).setSlab v ⟨[], freeSentinel, 0⟩
  | some _ => w

def step : CellEvent → CellWorld
  | .spawn v pip => w.spawn v pip
  | .wake v key => w.wake v key
  | .startPoll v key => w.startPoll v key
  | .endPoll v isReady => w.endPoll v isReady
  | .unwindPoll v => w.setPolling v none
  | .cancelChild v child => w.cancelChild v child
  | .joinChild v child => w.joinChild v child
  | .takeRootOutput v key => w.takeRootOutput v key
  | .moveOut v key => w.ship v key TaskSlot.moveOut
  | .moveOutWoken v key => w.ship v key TaskSlot.moveOutWoken
  | .reserve v => w.reserve v
  | .unreserve v key => w.unreserve v key
  | .moveIn i v dest => w.moveIn i v dest
  | .dropTransit i => w.dropTransit i
  | .reap v key => w.reap v key
  | .reportSettled v index => w.reportSettled v index
  | .edit v key header => w.edit v key header
  | .dropSlab v => w.dropSlab v

/-- A slab or a transport still owns the task's body; a husk owns nothing. -/
def Holds (task : Nat) : Prop :=
  (∃ v key slot, w.cell v key = some slot ∧ slot.task = task ∧ slot.header.state ≠ .retired) ∨
    ∃ slot ∈ w.transit, slot.task = task

/-- No half of the task was accessed after it was moved or dropped, or before it was there; the
future was dropped at most once, the output moved out or dropped at most once, and both exactly
once by the time nothing owns the body. -/
structure DroppedOnce (w : CellWorld) (task : Nat) : Prop where
  allowed : (Life.of (w.log task)).isSome = true
  future : accessCount .dropFuture (w.log task) ≤ 1
  output : accessCount .moveOutput (w.log task) + accessCount .dropOutput (w.log task) ≤
    accessCount .write (w.log task)
  written : accessCount .write (w.log task) ≤ 1
  released : ¬ w.Holds task → accessCount .dropFuture (w.log task) = 1 ∧
    accessCount .moveOutput (w.log task) + accessCount .dropOutput (w.log task) =
      accessCount .write (w.log task)

end CellWorld

end Kwokka
