import Kwokka.Shard

/-! What a worker of a stealing crew does to its own state: the children lists,
the two ends of a steal, and the tables that say where a relocated task went and
where it came from. -/

namespace Kwokka

structure Origin where
  victimId : Nat
  victimKey : SlabKey
deriving DecidableEq, Repr

structure ForwardEntry where
  retiredGeneration : Generation
  newRef : TaskRef
deriving DecidableEq, Repr

/-- A task in transport; the pip it carries is its cell's. -/
structure StolenTask where
  cell : TaskHeader
  victimKey : SlabKey
deriving DecidableEq, Repr

inductive HandoffMsg
  | delivered (dest : TaskRef) (victimId : Nat) (task : StolenTask)
  | declined (dest : TaskRef)
deriving DecidableEq, Repr

structure StealRequest where
  thiefId : Nat
  dest : TaskRef
deriving DecidableEq, Repr

def HandoffMsg.dest : HandoffMsg → TaskRef
  | delivered dest _ _ => dest
  | declined dest => dest

def reapQueueCapacity : Nat := 64

def TaskState.isSettled (state : TaskState) : Bool := state.isTerminal || state == .done

def TaskHeader.isSettled (header : TaskHeader) : Bool :=
  if header.state = .retired then header.isRemoteSettled else header.state.isSettled

/-- The tables have one entry for each slot of the task slab. -/
structure StealShard extends Shard where
  reapQueue : List TaskRef
  forward : Nat → Option ForwardEntry
  origins : Nat → Option Origin
  pendingSteal : Option SlabKey
  stealCursor : Nat

variable (shard : StealShard)

namespace StealShard

def new (id taskCapacity : Nat) : StealShard where
  id := id
  tasks :=
    match Slab.new taskCapacity with
    | .ok tasks => tasks
    | _ => ⟨[], freeSentinel, 0⟩
  runQueue := []
  timers := []
  timerCapacity := taskCapacity
  timerRequests := []
  spawnInbox := []
  pipSeq := 1
  reapQueue := []
  forward := fun _ => none
  origins := fun _ => none
  pendingSteal := none
  stealCursor := 0

def modify (shard : StealShard) (key : SlabKey) (f : TaskHeader → TaskHeader) : StealShard :=
  { shard with toShard := shard.toShard.modify key f }

def wakeLocal (shard : StealShard) (ref : TaskRef) : StealShard :=
  { shard with toShard := shard.toShard.wakeLocal ref }

section Forward

def lookup (staleKey : SlabKey) : Option TaskRef :=
  (shard.forward staleKey.index).bind fun entry =>
    if entry.retiredGeneration = staleKey.generation then some entry.newRef else none

def record (victimKey : SlabKey) (dest : TaskRef) : StealShard :=
  { shard with
    forward := Function.update shard.forward victimKey.index (some ⟨victimKey.generation, dest⟩) }

def wakeOrForward (ref : TaskRef) : Option TaskRef × StealShard :=
  match shard.header ref.key with
  | some header =>
    if header.state = .retired then (shard.lookup ref.key, shard)
    else (none, shard.wakeLocal ref)
  | none => (shard.lookup ref.key, shard)

end Forward

section Children

/-- `iter_children` from a given child on: a child that no longer resolves ends it. -/
def childrenFrom (shard : StealShard) : Nat → Option TaskRef → List TaskRef
  | fuel + 1, some child =>
    match shard.header child.key with
    | some header => child :: shard.childrenFrom fuel header.nextSibling
    | none => []
  | _, _ => []

def children (first : Option TaskRef) : List TaskRef :=
  shard.childrenFrom shard.tasks.slots.length first

def iterChildren (parent : TaskRef) : List TaskRef :=
  shard.children ((shard.header parent.key).bind (·.firstChild))

def isChildSettled (child : TaskRef) : Bool :=
  (shard.header child.key).any (·.isSettled)

/-- The walk of a scope's poll, from the first child captured before the poll. -/
def areChildrenAllSettled (first : Option TaskRef) : Bool :=
  (shard.children first).all shard.isChildSettled

def pushChild (parent child : TaskRef) : StealShard :=
  match shard.header parent.key, shard.header child.key with
  | some header, some _ =>
    (shard.modify child.key fun c => { c with nextSibling := header.firstChild }).modify parent.key
      fun p => { p with firstChild := some child }
  | _, _ => shard

inductive RemovePosition
  | head
  | afterPrev (prev : TaskRef)
deriving DecidableEq, Repr

def locateAfter (child prev : TaskRef) : List TaskRef → Option RemovePosition
  | [] => none
  | next :: rest => if next = child then some (.afterPrev prev) else locateAfter child next rest

def locate (child : TaskRef) : List TaskRef → Option RemovePosition
  | [] => none
  | first :: rest => if first = child then some .head else locateAfter child first rest

def removeChild (parent child : TaskRef) : StealShard :=
  match locate child (shard.iterChildren parent), shard.header child.key with
  | some position, some header =>
    let unlinked :=
      match position with
      | .head => shard.modify parent.key fun p => { p with firstChild := header.nextSibling }
      | .afterPrev prev =>
        shard.modify prev.key fun p => { p with nextSibling := header.nextSibling }
    unlinked.modify child.key fun c => { c with nextSibling := none }
  | _, _ => shard

def firstSettledChild (parent : TaskRef) : Option TaskRef :=
  (shard.iterChildren parent).find? shard.isChildSettled

/-- Frees a settled child's slot; the slot of a husk holds no body to drop. -/
def release (key : SlabKey) : StealShard :=
  match shard.header key with
  | none => shard
  | some header =>
    if header.state = .retired then { shard with tasks := (shard.tasks.retireSlot key).2 }
    else
      match shard.tasks.remove key with
      | some (_, tasks) => { shard with tasks }
      | none => shard

def pushReap (parent : TaskRef) : StealShard :=
  if shard.reapQueue.length < reapQueueCapacity then
    { shard with reapQueue := shard.reapQueue ++ [parent] }
  else shard

end Children

section Victim

/-- `is_sleeping_candidate` for `Sleeping` and `is_woken_candidate` for `Woken`. -/
def isCandidate (state : TaskState) (key : SlabKey) (header : TaskHeader) :
    Bool :=
  header.state == state && header.hasPolled && !header.ioBound && !header.isPinned &&
    header.firstChild.isNone && header.inFlightOps == 0 && (shard.origins key.index).isNone

/-- `move_out` for `Sleeping` and `move_out_woken` for `Woken`; the claim is free, as only the
worker itself serves a request. -/
def moveOut (state : TaskState) (key : SlabKey) (header : TaskHeader) : Option StolenTask :=
  if header.inFlightOps ≠ 0 ∨ header.firstChild.isSome ∨ header.isPinned then none
  else if header.state = state then some ⟨{ header with state := .sleeping }, key⟩
  else none

def steal (state : TaskState) (key : SlabKey) : Option StolenTask :=
  (shard.header key).bind fun header =>
    if shard.isCandidate state key header then moveOut state key header else none

def retire (task : StolenTask) (dest : TaskRef) : StealShard :=
  (shard.modify task.victimKey fun header => { header with state := .retired }).record
    task.victimKey dest

def stealSleeping : Option StolenTask :=
  shard.tasks.keys.findSome? (shard.steal .sleeping)

/-- At most `fuel` candidates off the run queue; one that is refused goes to its back. -/
def stealWoken (shard : StealShard) : Nat → Option StolenTask × StealShard
  | 0 => (none, shard)
  | fuel + 1 =>
    match shard.runQueue with
    | [] => (none, shard)
    | ref :: rest =>
      let popped := { shard with runQueue := rest }
      match popped.steal .woken ref.key with
      | some task => (some task, popped)
      | none =>
        if (popped.header ref.key).isSome then
          stealWoken { popped with runQueue := rest ++ [ref] } fuel
        else stealWoken popped fuel

def serveSteal (request : StealRequest) : HandoffMsg × StealShard :=
  match shard.stealSleeping with
  | some task =>
    (.delivered request.dest shard.id task, shard.retire task request.dest)
  | none =>
    match shard.stealWoken shard.runQueue.length with
    | (some task, popped) =>
      (.delivered request.dest shard.id task, popped.retire task request.dest)
    | (none, rotated) => (.declined request.dest, rotated)

def markSettled (key : SlabKey) : StealShard :=
  match shard.header key with
  | some header =>
    if header.state = .retired then
      shard.modify key fun header => { header with isRemoteSettled := true }
    else shard
  | none => shard

end Victim

section Thief

def unreserve (shard : StealShard) (key : SlabKey) : StealShard :=
  { shard with tasks := (shard.tasks.unreserve key).2 }

/-- The slot promised to the request, or `none` when the slab is full. -/
def prepareSteal : Option (StealRequest × StealShard) :=
  match shard.tasks.reserve with
  | .ok (promised, tasks) => some (⟨shard.id, ⟨shard.id, promised⟩⟩, { shard with tasks })
  | _ => none

def receiveHandoff : HandoffMsg → Option TaskRef × StealShard
  | .delivered dest victimId task =>
    match shard.tasks.install dest.key task.cell with
    | none => (none, shard.unreserve dest.key)
    | some tasks =>
      (some dest,
        { shard with
          tasks
          origins := Function.update shard.origins dest.key.index
            (some ⟨victimId, task.victimKey⟩) })
  | .declined dest => (none, shard.unreserve dest.key)

def isResidentSettled (index : Nat) : Bool :=
  (shard.tasks.getByIndex index).any (·.state.isSettled)

def releaseResident (index : Nat) : StealShard :=
  { shard with
    origins := Function.update shard.origins index none
    tasks := ((shard.tasks.removeByIndex index).map (·.2)).getD shard.tasks }

def nextVictim (lead count : Nat) : Option Nat × StealShard :=
  let offsetOfSelf := shard.id - lead
  let next := (shard.stealCursor + 1) % count
  let next := if next = offsetOfSelf then (next + 1) % count else next
  (if next = offsetOfSelf then none else some (lead + next), { shard with stealCursor := next })

end Thief

section Spawn

/-- A child drained from the spawn inbox: inserted, linked under its parent and woken. `none` is the
panic of a full slab. -/
def spawn (parent : TaskRef) (isPinned : Bool) : Option StealShard :=
  let header := { TaskHeader.new ⟨shard.id, shard.pipSeq⟩ with isPinned }
  match shard.tasks.insert header with
  | .ok (key, tasks) =>
    let inserted := { shard with tasks, pipSeq := shard.pipSeq + 1 }
    some ((inserted.pushChild parent ⟨shard.id, key⟩).wakeLocal ⟨shard.id, key⟩)
  | _ => none

def spawnRoot : Option (SlabKey × StealShard) :=
  let header := { TaskHeader.new ⟨shard.id, shard.pipSeq⟩ with isPinned := true }
  match shard.tasks.insert header with
  | .ok (key, tasks) =>
    let inserted := { shard with tasks, pipSeq := shard.pipSeq + 1 }
    some (key, inserted.wakeLocal ⟨shard.id, key⟩)
  | _ => none

end Spawn

end StealShard

end Kwokka
