import Kwokka.CellKept

/-! The ways control can leave `block_on` of an affine runtime, and what is left of the root
then. Which steps a pass takes is left open; a panic ends the call at once. -/

namespace Kwokka

open Runs CellWorld

/-- `call` is the root of the call in progress, under its key, and `left` the roots of the calls
that control has left. -/
structure RootWorld where
  cells : CellWorld
  call : Option (SlabKey × Nat)
  left : List Nat

/-- The steps of a pass that only change task states: wakes, polls and what a poll does to other
tasks. -/
def CellEvent.isTurn : CellEvent → Bool
  | .wake 0 _ | .startPoll 0 _ | .endPoll 0 _ | .cancelChild 0 _ | .joinChild 0 _ | .edit 0 _ _ => true
  | _ => false

inductive RootEvent
  | blockOn (pip : Pip)
  | turn (e : CellEvent)
  | unwindPoll
  | drainSpawn (pip : Pip)
  | reap (key : SlabKey)
  | checkRoot
  | drop
deriving DecidableEq

namespace RootWorld

def init (capacity : Nat) : RootWorld := ⟨.init fun _ => capacity, none, []⟩

variable (w : RootWorld)

def leave (task : Nat) : RootWorld :=
  { w with call := none, left := w.left ++ [task] }

/-- The entry of `block_on`: `spawn_root` inserts, pins and wakes the root. -/
def spawnRoot (pip : Pip) : RootWorld :=
  match w.call with
  | some _ => w
  | none =>
    let task := w.cells.spawned
    let cells := w.cells.spawn 0 pip
    match (w.cells.slabs 0).insert ⟨.new pip, task, 0⟩ with
    | .ok (key, _) =>
      { w with
        cells := (cells.edit 0 key { TaskHeader.new pip with isPinned := true }).wake 0 key
        call := some (key, task) }
    | _ => { w with cells }.leave task

def turn (e : CellEvent) : RootWorld :=
  if w.call.isSome ∧ e.isTurn then { w with cells := w.cells.step e } else w

/-- No poll is caught: the panic of the root or of a child leaves the call. -/
def unwindPoll (w : RootWorld) : RootWorld :=
  match w.call, w.cells.polling 0 with
  | some (_, task), some _ => { w with cells := w.cells.step (.unwindPoll 0) }.leave task
  | _, _ => w

/-- One pending child of `drain_spawns`; a full slab panics. -/
def drainSpawn (pip : Pip) : RootWorld :=
  match w.call, w.cells.polling 0 with
  | some (_, task), none =>
    match (w.cells.slabs 0).insert ⟨.new pip, w.cells.spawned, 0⟩ with
    | .ok _ => { w with cells := w.cells.spawn 0 pip }
    | _ => { w with cells := w.cells.spawn 0 pip }.leave task
  | _, _ => w

/-- One slot of `reap_children`: a root is in no children list. -/
def reap (w : RootWorld) (key : SlabKey) : RootWorld :=
  match w.call, w.cells.cell 0 key with
  | some (_, task), some slot =>
    if slot.task = task ∨ slot.task ∈ w.left then w else { w with cells := w.cells.reap 0 key }
  | _, _ => w

def rootState : Option TaskState :=
  w.call.bind fun (key, _) => (w.cells.cell 0 key).map (·.header.state)

/-- `root_settled`, and `take_root_output` once it answers true. -/
def checkRoot : RootWorld :=
  match w.call, w.cells.polling 0 with
  | some (key, task), none =>
    match w.rootState with
    | some .done => { w with cells := w.cells.takeRootOutput 0 key }.leave task
    | some .sleeping | some .woken | some .running => w
    | _ => w.leave task
  | _, _ => w

def drop : RootWorld :=
  match w.call with
  | none => { w with cells := w.cells.dropSlab 0 }
  | some _ => w

def step : RootEvent → RootWorld
  | .blockOn pip => w.spawnRoot pip
  | .turn e => w.turn e
  | .unwindPoll => w.unwindPoll
  | .drainSpawn pip => w.drainSpawn pip
  | .reap key => w.reap key
  | .checkRoot => w.checkRoot
  | .drop => w.drop

/-- The root of every call that control has left was dropped once, and no slot holds it. -/
def Released : Prop :=
  ∀ task ∈ w.left, accessCount .dropFuture (w.cells.log task) = 1 ∧
    ∀ v key slot, w.cells.cell v key = some slot → slot.task ≠ task

/-- No poll panics, no child is drained into a full slab, and the root is neither cancelled nor
joined by another task. -/
def Calm : RootEvent → Prop
  | .unwindPoll => w.cells.polling 0 = none
  | .drainSpawn _ => w.call.isSome = true → (w.cells.slabs 0).freeHead ≠ freeSentinel
  | .checkRoot => w.rootState ≠ some .cancelled ∧ w.rootState ≠ some .taken
  | _ => True

instance (w : RootWorld) (e : RootEvent) : Decidable (w.Calm e) :=
  match e with
  | .unwindPoll => inferInstanceAs (Decidable (_ = none))
  | .drainSpawn _ => inferInstanceAs (Decidable (_ → _ ≠ _))
  | .checkRoot => inferInstanceAs (Decidable (_ ≠ _ ∧ _ ≠ _))
  | .blockOn _ | .turn _ | .reap _ | .drop => .isTrue trivial

end RootWorld

namespace CellWorld

variable {w w' w'' : CellWorld} {v : Nat} {key : SlabKey} {slot slot' : TaskSlot}

structure Rewritten (w w' : CellWorld) : Prop where
  kept : w'.Kept
  tasks : ∀ v key, (w'.cell v key).map TaskSlot.task = (w.cell v key).map TaskSlot.task
  plain : (∀ v key slot, w.cell v key = some slot → slot.Plain) →
    ∀ v key slot, w'.cell v key = some slot → slot.Plain
  spawned : w'.spawned = w.spawned
  transit : w'.transit = w.transit

theorem Rewritten.refl (h : w.Kept) : Rewritten w w :=
  ⟨h, fun _ _ => rfl, fun hplain => hplain, rfl, rfl⟩

theorem Rewritten.trans (h : Rewritten w w') (h' : Rewritten w' w'') : Rewritten w w'' :=
  ⟨h'.kept, fun v key => (h'.tasks v key).trans (h.tasks v key), fun hplain => h'.plain (h.plain hplain),
    h'.spawned.trans h.spawned, h'.transit.trans h.transit⟩

theorem Rewritten.put (hkept : w'.Kept) (hcell : w.cell v key = some slot)
    (hcells : w'.cell = putCell w.cell v key (some slot')) (htask : slot'.task = slot.task)
    (hplain : slot.Plain → slot'.Plain) (hspawned : w'.spawned = w.spawned)
    (htransit : w'.transit = w.transit) : Rewritten w w' := by
  refine ⟨hkept, ?_, ?_, hspawned, htransit⟩
  · intro u k
    rw [hcells, putCell]
    by_cases hu : u = v
    · subst hu
      by_cases hk : k = key
      · subst hk
        simp [hcell, htask]
      · simp [hk]
    · simp [hu]
  · intro hall u k s hs
    rw [hcells] at hs
    rcases putCell_eq_some.mp hs with ⟨-, hnew⟩ | ⟨-, hold⟩
    · cases hnew
      exact hplain (hall v key slot hcell)
    · exact hall u k s hold

theorem Rewrite.rewritten (h : w.Kept) (hrewrite : Rewrite w w') : Rewritten w w' := by
  have hkept := hrewrite.kept h
  cases hrewrite with
  | same => exact .refl h
  | @slot v key slot slot' accesses polling hcell htask hbody hplain haccess hlife =>
    obtain ⟨-, hcells, -⟩ := h.stocked.written hcell _ _ hbody haccess htask hlife
    obtain ⟨-, hspawned, htransit⟩ := write_frame (w.record slot accesses) v key slot'
    exact .put hkept hcell hcells htask hplain hspawned htransit

theorem Rewrite.turn (h : w.Kept) {e : CellEvent} (hturn : e.isTurn = true) :
    Rewrite w (w.step e) := by
  cases e with
  | wake v key => exact .wake w v key
  | startPoll v key => exact .startPoll w v key
  | endPoll v isReady => exact .endPoll h v isReady
  | cancelChild v child => exact .cancelChild w v child
  | joinChild v child => exact .joinChild w v child
  | edit v key header => exact .edit h v key header
  | _ => cases hturn

theorem spawn_cases (h : w.Kept) (v : Nat) (pip : Pip) :
    (w.spawn v pip).spawned = w.spawned + 1 ∧ (w.spawn v pip).transit = w.transit ∧
      (w.spawn v pip).polling = w.polling ∧
      (((w.slabs v).insert ⟨.new pip, w.spawned, 0⟩ = .err .full ∧ (w.spawn v pip).cell = w.cell) ∨
        ∃ key slab, (w.slabs v).insert ⟨.new pip, w.spawned, 0⟩ = .ok (key, slab) ∧
          w.cell v key = none ∧
          (w.spawn v pip).cell = putCell w.cell v key (some ⟨.new pip, w.spawned, 0⟩)) := by
  unfold spawn
  simp only
  rcases Slab.insert_shows (h.stocked.wf v) ⟨.new pip, w.spawned, 0⟩ with
    hfull | ⟨key, slab, hok, hvacant, -, hshows⟩
  · rw [hfull]
    exact ⟨rfl, rfl, rfl, .inl ⟨rfl, rfl⟩⟩
  · rw [hok]
    exact ⟨rfl, rfl, rfl, .inr ⟨key, slab, rfl, hvacant key.generation, cell_put hshows⟩⟩

theorem removeSlot_frame (w : CellWorld) (v : Nat) (key : SlabKey) :
    (w.removeSlot v key).spawned = w.spawned ∧ (w.removeSlot v key).transit = w.transit := by
  unfold removeSlot
  split <;> exact ⟨rfl, rfl⟩

theorem putCell_putCell (cells : Nat → SlabKey → Option TaskSlot) (old new : Option TaskSlot) :
    putCell (putCell cells v key old) v key new = putCell cells v key new := by
  simp [putCell]

theorem takeRootOutput_eq (h : w.Kept) (hpolling : w.polling v = none)
    (hcell : w.cell v key = some slot) (hdone : slot.header.state = .done) :
    (w.takeRootOutput v key).cell = putCell w.cell v key none ∧
      (w.takeRootOutput v key).spawned = w.spawned ∧
      (w.takeRootOutput v key).transit = w.transit ∧
      (w.takeRootOutput v key).polling = w.polling := by
  have htake : slot.takeOutput = some (slot.setState .taken) :=
    takeOutput_eq_some.mpr ⟨hdone, rfl⟩
  simp only [takeRootOutput, hpolling, hcell, htake]
  obtain ⟨hstocked, hcells, hsame⟩ := h.stocked.taken hcell hdone
  have hcell' : ((w.record slot [.moveOutput]).write v key (slot.setState .taken)).cell v key =
      some (slot.setState .taken) := by
    rw [hcells]
    exact putCell_eq_some.mpr (.inl ⟨⟨rfl, rfl⟩, rfl⟩)
  obtain ⟨-, hremoved, hsame'⟩ := hstocked.removed hcell'
  obtain ⟨-, hspawned, htransit⟩ := write_frame (w.record slot [.moveOutput]) v key (slot.setState .taken)
  obtain ⟨hspawned', htransit'⟩ :=
    removeSlot_frame ((w.record slot [.moveOutput]).write v key (slot.setState .taken)) v key
  refine ⟨?_, hspawned'.trans hspawned, htransit'.trans htransit, hsame'.trans hsame⟩
  rw [hremoved, hcells, putCell_putCell]

theorem reap_cases (h : w.Kept) (v : Nat) (key : SlabKey) :
    (w.reap v key).spawned = w.spawned ∧ (w.reap v key).transit = w.transit ∧
      (w.reap v key).polling = w.polling ∧
      ((w.reap v key).cell = w.cell ∨ (w.reap v key).cell = putCell w.cell v key none) := by
  unfold reap
  cases hpolling : w.polling v with
  | some => exact ⟨rfl, rfl, rfl, .inl rfl⟩
  | none =>
    cases hcell : w.cell v key with
    | none => exact ⟨rfl, rfl, rfl, .inl rfl⟩
    | some =>
      simp only
      split
      case isFalse => exact ⟨rfl, rfl, rfl, .inl rfl⟩
      case isTrue =>
        split
        case isFalse =>
          obtain ⟨hspawned, htransit⟩ := removeSlot_frame w v key
          obtain ⟨-, hcells, hsame⟩ := h.stocked.removed hcell
          exact ⟨hspawned, htransit, hsame, .inr hcells⟩
        case isTrue =>
          obtain ⟨slab, hretire, hshows⟩ := Slab.retireSlot_shows (h.stocked.wf v) hcell
          rw [hretire]
          exact ⟨rfl, rfl, rfl, .inr (cell_put hshows)⟩

theorem dropSlab_cases (w : CellWorld) (v : Nat) :
    (w.dropSlab v).spawned = w.spawned ∧ (w.dropSlab v).transit = w.transit ∧
      (w.dropSlab v).polling = w.polling ∧
      ∀ u key slot, (w.dropSlab v).cell u key = some slot → w.cell u key = some slot := by
  cases hpolling : w.polling v with
  | some => simp [dropSlab, hpolling]
  | none =>
    obtain ⟨hcells, hsame, hspawned, htransit⟩ := dropSlab_eq hpolling
    refine ⟨hspawned, htransit, hsame, ?_⟩
    intro u key slot hslot
    rw [hcells] at hslot
    by_cases hu : u = v
    · subst hu
      simp at hslot
    · rwa [Function.update_of_ne hu] at hslot

end CellWorld

namespace RootWorld

variable {w : RootWorld} {e : RootEvent}

/-- The slab keeps the root of the call in progress and no root of a call that was left. -/
structure Sound (w : RootWorld) : Prop where
  kept : w.cells.Kept
  plain : ∀ v key slot, w.cells.cell v key = some slot → slot.Plain
  transit : w.cells.transit = []
  idle : w.call = none → w.cells.polling 0 = none
  root : ∀ key task, w.call = some (key, task) →
    ∃ slot, w.cells.cell 0 key = some slot ∧ slot.task = task
  left : ∀ task ∈ w.left, task < w.cells.spawned ∧
    ∀ v key slot, w.cells.cell v key = some slot → slot.task ≠ task

section

variable (h : w.Sound)

include h

theorem Sound.released : w.Released := by
  intro task htask
  obtain ⟨hspawned, hcells⟩ := h.left task htask
  have hnot : ¬ w.cells.Holds task := by
    rintro (⟨v, key, slot, hcell, heq, -⟩ | ⟨slot, hslot, -⟩)
    · exact hcells v key slot hcell heq
    · simp [h.transit] at hslot
  exact ⟨((h.kept.stocked.droppedOnce hspawned).released hnot).1, hcells⟩

theorem Sound.rewritten {cells : CellWorld} (hcells : CellWorld.Rewritten w.cells cells)
    (hidle : w.call = none → cells.polling 0 = none) : { w with cells }.Sound := by
  have hback : ∀ v key slot', cells.cell v key = some slot' →
      ∃ slot, w.cells.cell v key = some slot ∧ slot.task = slot'.task := by
    intro v key slot' hslot'
    have htask := hcells.tasks v key
    rw [hslot', Option.map_some, eq_comm, Option.map_eq_some_iff] at htask
    exact htask
  refine ⟨hcells.kept, hcells.plain h.plain, hcells.transit.trans h.transit, hidle, ?_, ?_⟩
  · intro key task hcall
    obtain ⟨slot, hslot, htask⟩ := h.root key task hcall
    have hmap := hcells.tasks 0 key
    rw [hslot, Option.map_some, Option.map_eq_some_iff] at hmap
    obtain ⟨slot', hslot', heq⟩ := hmap
    exact ⟨slot', hslot', heq.trans htask⟩
  · intro task htask
    obtain ⟨hlt, hnone⟩ := h.left task htask
    refine ⟨by rw [hcells.spawned]; exact hlt, ?_⟩
    intro v key slot' hslot'
    obtain ⟨slot, hslot, heq⟩ := hback v key slot' hslot'
    rw [← heq]
    exact hnone v key slot hslot

theorem Sound.spawn (pip : Pip) : { w with cells := w.cells.spawn 0 pip }.Sound := by
  obtain ⟨hspawned, htransit, hpolling, hcells⟩ := spawn_cases h.kept 0 pip
  have hback : ∀ v key slot, (w.cells.spawn 0 pip).cell v key = some slot →
      slot = ⟨.new pip, w.cells.spawned, 0⟩ ∨ w.cells.cell v key = some slot := by
    intro v key slot hslot
    rcases hcells with ⟨-, hsame⟩ | ⟨free, slab, -, -, hput⟩
    · rw [hsame] at hslot
      exact .inr hslot
    · rw [hput] at hslot
      rcases putCell_eq_some.mp hslot with ⟨-, hnew⟩ | ⟨-, hold⟩
      · exact .inl (Option.some.inj hnew).symm
      · exact .inr hold
  refine ⟨h.kept.spawn 0 pip, ?_, htransit.trans h.transit, ?_, ?_, ?_⟩
  · intro v key slot hslot
    rcases hback v key slot hslot with rfl | hold
    · exact ⟨by simp [TaskHeader.new], by simp [TaskHeader.new]⟩
    · exact h.plain v key slot hold
  · intro hcall
    show (w.cells.spawn 0 pip).polling 0 = none
    rw [hpolling]
    exact h.idle hcall
  · intro key task hcall
    obtain ⟨slot, hslot, htask⟩ := h.root key task hcall
    refine ⟨slot, ?_, htask⟩
    rcases hcells with ⟨-, hsame⟩ | ⟨free, slab, -, hvacant, hput⟩
    · exact (congrFun (congrFun hsame 0) key).trans hslot
    · show (w.cells.spawn 0 pip).cell 0 key = some slot
      rw [hput]
      refine putCell_eq_some.mpr (.inr ⟨?_, hslot⟩)
      rintro ⟨-, rfl⟩
      rw [hvacant] at hslot
      cases hslot
  · intro task htask
    obtain ⟨hlt, hnone⟩ := h.left task htask
    refine ⟨by rw [hspawned]; omega, ?_⟩
    intro v key slot hslot
    rcases hback v key slot hslot with rfl | hold
    · exact fun heq => absurd heq (by simp; omega)
    · exact hnone v key slot hold

theorem Sound.leave {task : Nat} (hpolling : w.cells.polling 0 = none)
    (hlt : task < w.cells.spawned)
    (hnone : ∀ v key slot, w.cells.cell v key = some slot → slot.task ≠ task) :
    (w.leave task).Sound := by
  refine ⟨h.kept, h.plain, h.transit, fun _ => hpolling, fun key task hcall => (by cases hcall), ?_⟩
  intro other hother
  rcases List.mem_append.mp hother with hold | hnew
  · exact h.left other hold
  · obtain rfl := List.mem_singleton.mp hnew
    exact ⟨hlt, hnone⟩

theorem Sound.spawnRoot (pip : Pip) : (w.spawnRoot pip).Sound := by
  unfold RootWorld.spawnRoot
  cases hcall : w.call with
  | some => exact h
  | none =>
    have hspawn := h.spawn pip
    obtain ⟨hspawned, -, hpolling, hcells⟩ := spawn_cases h.kept 0 pip
    simp only
    rcases hcells with ⟨hfull, hsame⟩ | ⟨key, slab, hok, -, hput⟩
    · rw [hfull]
      apply hspawn.leave
      · show (w.cells.spawn 0 pip).polling 0 = none
        rw [hpolling]
        exact h.idle hcall
      · show w.cells.spawned < (w.cells.spawn 0 pip).spawned
        rw [hspawned]
        exact Nat.lt_succ_self _
      · intro v key slot hslot
        have hold : w.cells.cell v key = some slot := (congrFun (congrFun hsame v) key).symm.trans hslot
        have hknown := h.kept.stocked.custody.known v key slot hold
        omega
    · rw [hok]
      have hedit := (CellWorld.Rewrite.edit hspawn.kept 0 key
        { TaskHeader.new pip with isPinned := true }).rewritten hspawn.kept
      have hwake := (CellWorld.Rewrite.wake _ 0 key).rewritten hedit.kept
      have hentered : ({ w with
          cells := w.cells.spawn 0 pip, call := some (key, w.cells.spawned) } : RootWorld).Sound := by
        refine ⟨hspawn.kept, hspawn.plain, hspawn.transit, fun hnone => (by cases hnone), ?_, hspawn.left⟩
        intro root task heq
        cases heq
        refine ⟨⟨.new pip, w.cells.spawned, 0⟩, ?_, rfl⟩
        show (w.cells.spawn 0 pip).cell 0 key = _
        rw [hput]
        exact putCell_eq_some.mpr (.inl ⟨⟨rfl, rfl⟩, rfl⟩)
      exact hentered.rewritten (hedit.trans hwake) (fun hnone => by cases hnone)

theorem Sound.emptied {cells : CellWorld} (hkept : cells.Kept)
    (hspawned : cells.spawned = w.cells.spawned) (htransit : cells.transit = w.cells.transit)
    (hpolling : cells.polling = w.cells.polling)
    (hback : ∀ v key slot, cells.cell v key = some slot → w.cells.cell v key = some slot)
    (hroot : ∀ key task slot, w.call = some (key, task) → w.cells.cell 0 key = some slot →
      slot.task = task → cells.cell 0 key = some slot) : { w with cells }.Sound := by
  refine ⟨hkept, ?_, htransit.trans h.transit, ?_, ?_, ?_⟩
  · exact fun v key slot hslot => h.plain v key slot (hback v key slot hslot)
  · intro hcall
    show cells.polling 0 = none
    rw [hpolling]
    exact h.idle hcall
  · intro key task hcall
    obtain ⟨slot, hslot, htask⟩ := h.root key task hcall
    exact ⟨slot, hroot key task slot hcall hslot htask, htask⟩
  · intro task htask
    obtain ⟨hlt, hnone⟩ := h.left task htask
    refine ⟨by rw [hspawned]; exact hlt, ?_⟩
    exact fun v key slot hslot => hnone v key slot (hback v key slot hslot)

theorem Sound.drainSpawn (pip : Pip) (hcalm : w.Calm (.drainSpawn pip)) :
    (w.drainSpawn pip).Sound := by
  unfold RootWorld.drainSpawn
  split
  case h_2 => exact h
  case h_1 key task hcall hpolling =>
    have hfree : (w.cells.slabs 0).freeHead ≠ freeSentinel := hcalm (by simp [hcall])
    rcases Slab.insert_shows (h.kept.stocked.wf 0) ⟨.new pip, w.cells.spawned, 0⟩ with
      hfull | ⟨free, slab, hok, -⟩
    · simp only [Slab.insert, hfree, if_false] at hfull
      split at hfull
      · cases hfull
      · split at hfull <;> cases hfull
    · rw [hok]
      exact h.spawn pip

theorem Sound.reap (key : SlabKey) : (w.reap key).Sound := by
  unfold RootWorld.reap
  split
  case h_2 => exact h
  case h_1 root task slot hcall hslot =>
    split
    case isTrue => exact h
    case isFalse hchild =>
      push Not at hchild
      obtain ⟨hspawned, htransit, hpolling, hcells⟩ := reap_cases h.kept 0 key
      apply h.emptied (h.kept.reap 0 key) hspawned htransit hpolling
      · intro v k s hs
        rcases hcells with hsame | hput
        · rwa [hsame] at hs
        · rw [hput] at hs
          rcases putCell_eq_some.mp hs with ⟨-, hnew⟩ | ⟨-, hold⟩
          · cases hnew
          · exact hold
      · intro k t s hcall' hs htask
        rw [hcall] at hcall'
        cases hcall'
        rcases hcells with hsame | hput
        · rwa [hsame]
        · rw [hput]
          refine putCell_eq_some.mpr (.inr ⟨?_, hs⟩)
          rintro ⟨-, rfl⟩
          rw [hslot] at hs
          cases hs
          exact hchild.1 htask

theorem Sound.takeRootOutput {key : SlabKey} {task : Nat} {slot : TaskSlot}
    (hpolling : w.cells.polling 0 = none) (hslot : w.cells.cell 0 key = some slot)
    (htask : slot.task = task) (hdone : slot.header.state = .done) :
    ({ w with cells := w.cells.takeRootOutput 0 key }.leave task).Sound := by
  obtain ⟨hcells, hspawned, htransit, hsame⟩ :=
    takeRootOutput_eq h.kept hpolling hslot hdone
  have hback : ∀ v k s, (w.cells.takeRootOutput 0 key).cell v k = some s →
      ¬ (v = 0 ∧ k = key) ∧ w.cells.cell v k = some s := by
    intro v k s hs
    rw [hcells] at hs
    rcases putCell_eq_some.mp hs with ⟨-, hnew⟩ | hold
    · cases hnew
    · exact hold
  have hleft : ({ w with call := none } : RootWorld).Sound :=
    ⟨h.kept, h.plain, h.transit, fun _ => hpolling, fun _ _ hnone => (by cases hnone), h.left⟩
  have hemptied : ({ w with call := none, cells := w.cells.takeRootOutput 0 key } : RootWorld).Sound :=
    hleft.emptied (h.kept.takeRootOutput 0 key) hspawned htransit hsame
      (fun v k s hs => (hback v k s hs).2) (fun _ _ _ hnone => by cases hnone)
  refine hemptied.leave (hsame ▸ hpolling) ?_ ?_
  · show task < (w.cells.takeRootOutput 0 key).spawned
    rw [hspawned, ← htask]
    exact h.kept.stocked.custody.known 0 key slot hslot
  · intro v k s hs heq
    obtain ⟨hne, hold⟩ := hback v k s hs
    exact hne (h.kept.stocked.custody.sole v k s 0 key slot hold hslot (h.plain v k s hold).1
      (h.plain 0 key slot hslot).1 (heq.trans htask.symm))

theorem Sound.checkRoot (hcalm : w.Calm .checkRoot) : w.checkRoot.Sound := by
  unfold RootWorld.checkRoot
  split
  case h_2 => exact h
  case h_1 key task hcall hpolling =>
    obtain ⟨slot, hslot, htask⟩ := h.root key task hcall
    have hstate : w.rootState = some slot.header.state := by
      simp [rootState, hcall, hslot]
    obtain ⟨hretired, hfailed⟩ := h.plain 0 key slot hslot
    obtain ⟨hcancelled, htaken⟩ := hcalm
    rw [hstate] at hcancelled htaken ⊢
    cases hs : slot.header.state with
    | done => exact h.takeRootOutput hpolling hslot htask hs
    | cancelled => exact absurd (congrArg some hs) hcancelled
    | taken => exact absurd (congrArg some hs) htaken
    | retired => exact absurd hs hretired
    | failed => exact absurd hs hfailed
    | _ => exact h

theorem Sound.step (hcalm : w.Calm e) : (w.step e).Sound := by
  cases e with
  | blockOn pip => exact h.spawnRoot pip
  | turn e =>
    show (w.turn e).Sound
    unfold RootWorld.turn
    split
    case isFalse => exact h
    case isTrue hturn =>
      apply h.rewritten ((CellWorld.Rewrite.turn h.kept hturn.2).rewritten h.kept)
      intro hnone
      simp [hnone] at hturn
  | unwindPoll =>
    have heq : w.unwindPoll = w := by
      unfold RootWorld.unwindPoll
      rw [hcalm]
      cases w.call <;> rfl
    show w.unwindPoll.Sound
    rw [heq]
    exact h
  | drainSpawn pip => exact h.drainSpawn pip hcalm
  | reap key => exact h.reap key
  | checkRoot => exact h.checkRoot hcalm
  | drop =>
    show w.drop.Sound
    unfold RootWorld.drop
    cases hcall : w.call with
    | some => exact h
    | none =>
      obtain ⟨hspawned, htransit, hpolling, hback⟩ := w.cells.dropSlab_cases 0
      have hdropped := h.emptied (h.kept.dropSlab 0) hspawned htransit hpolling hback
        (fun _ _ _ hsome => by rw [hcall] at hsome; cases hsome)
      rwa [hcall] at hdropped

end

theorem Sound.init (capacity : Nat) : (RootWorld.init capacity).Sound := by
  have hkept := CellWorld.Kept.init fun _ => capacity
  have hcells : ∀ v key, (RootWorld.init capacity).cells.cell v key = none :=
    init_cell fun _ => capacity
  refine ⟨hkept, ?_, rfl, fun _ => rfl, fun _ _ hnone => (by cases hnone),
    fun _ hmem => (by cases hmem)⟩
  intro v key slot hslot
  rw [hcells] at hslot
  cases hslot

/-- In every run that meets the condition, a call is never left while a slot holds its root. -/
theorem root_dropped_before_exit (capacity : Nat) (es : List RootEvent)
    (h : Meets step Calm (init capacity) es) : (run step (init capacity) es).Released :=
  (h.invariant (fun _ _ hsound hcalm => hsound.step hcalm) (Sound.init capacity)).released

/-- A root that spawns a child, waits for it and returns; then a second one. -/
theorem root_dropped_before_exit_twice :
    let w := run step (init 2)
      [.blockOn ⟨0, 1⟩, .turn (.startPoll 0 ⟨0, 1⟩), .turn (.endPoll 0 false), .drainSpawn ⟨0, 2⟩,
        .checkRoot, .turn (.wake 0 ⟨1, 1⟩), .turn (.startPoll 0 ⟨1, 1⟩), .turn (.endPoll 0 true),
        .turn (.wake 0 ⟨0, 1⟩), .turn (.startPoll 0 ⟨0, 1⟩), .turn (.endPoll 0 true), .reap ⟨1, 1⟩,
        .checkRoot, .blockOn ⟨0, 3⟩, .turn (.startPoll 0 ⟨0, 3⟩), .turn (.endPoll 0 true),
        .checkRoot, .drop]
    w.left = [0, 2] ∧ w.Released :=
  ⟨by decide, root_dropped_before_exit 2 _ (by decide)⟩

/-- The root's poll panics: the call is over, its slot still holds the live future, and the drop
of the runtime is what drops it. -/
theorem panicking_root_outlives_call :
    ¬ (run step (init 2) [.blockOn ⟨0, 1⟩, .turn (.startPoll 0 ⟨0, 1⟩), .unwindPoll]).Released ∧
      (run step (init 2) [.blockOn ⟨0, 1⟩, .turn (.startPoll 0 ⟨0, 1⟩), .unwindPoll]).cells.log 0 =
        [(0, .poll)] ∧
      (run step (init 2)
        [.blockOn ⟨0, 1⟩, .turn (.startPoll 0 ⟨0, 1⟩), .unwindPoll, .drop]).cells.log 0 =
        [(0, .poll), (0, .dropFuture)] := by
  refine ⟨?_, by decide, by decide⟩
  intro h
  exact absurd (h 0 (by decide)).1 (by decide)

end RootWorld

end Kwokka
