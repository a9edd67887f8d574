import Kwokka.LinkedChain
import Kwokka.Runs
import Kwokka.Shard
import Kwokka.SlabView

/-! The local run queue, a list linked through the headers of the tasks on it. A task
whose slot is freed while it is queued takes its link with it. -/

namespace Kwokka

open Function LinkedChain

structure LocalRunQueue where
  head : Option TaskRef
  tail : Option TaskRef
  len : Nat
deriving DecidableEq, Repr

namespace LocalRunQueue

def new : LocalRunQueue := ⟨none, none, 0⟩

/-- A write through a key that no longer resolves is dropped. -/
def setNext (tasks : Slab TaskHeader) (key : SlabKey) (next : Option TaskRef) : Slab TaskHeader :=
  (tasks.getMut key fun header => { header with nextRunnable := next }).getD tasks

def push (queue : LocalRunQueue) (ref : TaskRef) (tasks : Slab TaskHeader) :
    LocalRunQueue × Slab TaskHeader :=
  match tasks.stored ref.key with
  | none => (queue, tasks)
  | some _ =>
    let tasks := setNext tasks ref.key none
    match queue.tail with
    | some tail => (⟨queue.head, some ref, queue.len + 1⟩, setNext tasks tail.key (some ref))
    | none => (⟨some ref, some ref, queue.len + 1⟩, tasks)

def next (tasks : Slab TaskHeader) (ref : TaskRef) : Option TaskRef :=
  (tasks.stored ref.key).bind (·.nextRunnable)

def pop (queue : LocalRunQueue) (tasks : Slab TaskHeader) : Option TaskRef × LocalRunQueue :=
  match queue.head with
  | none => (none, queue)
  | some head =>
    let next := next tasks head
    (some head, ⟨next, if next.isNone then none else queue.tail, queue.len - 1⟩)

/-- The links from head to tail spell out `refs`. -/
structure Holds (queue : LocalRunQueue) (tasks : Slab TaskHeader) (refs : List TaskRef) : Prop where
  chain : Chain (next tasks) queue.head refs
  tail : queue.tail = refs.getLast?
  len : queue.len = refs.length
  keys : (refs.map (·.key)).Nodup

variable {queue : LocalRunQueue} {tasks tasks' : Slab TaskHeader} {refs : List TaskRef} {ref : TaskRef}
  {key : SlabKey} {header : TaskHeader}

theorem setNext_shows (hwf : tasks.WF) (hkey : tasks.stored key = some header) (link : Option TaskRef) :
    (setNext tasks key link).Shows
      (update tasks.stored key (some { header with nextRunnable := link })) tasks.isReserved := by
  obtain ⟨tasks', hset, hshows⟩ :=
    tasks.getMut_shows hwf hkey fun header => { header with nextRunnable := link }
  rw [setNext, hset]
  exact hshows

theorem Holds.nodup (h : queue.Holds tasks refs) : refs.Nodup := h.keys.of_map _

theorem Holds.congr (h : queue.Holds tasks refs) (hnext : ∀ r ∈ refs, next tasks' r = next tasks r) :
    queue.Holds tasks' refs :=
  ⟨h.chain.congr hnext, h.tail, h.len, h.keys⟩

theorem Holds.pop_nil (h : queue.Holds tasks []) : queue.pop tasks = (none, queue) := by
  rw [pop, show queue.head = none from h.chain]

theorem Holds.pop_cons (h : queue.Holds tasks (ref :: refs)) :
    ∃ queue', queue.pop tasks = (some ref, queue') ∧ queue'.Holds tasks refs := by
  obtain ⟨hhead, hchain⟩ := h.chain
  refine ⟨_, by rw [pop, hhead], hchain, ?_, by simp [h.len], (List.nodup_cons.mp h.keys).2⟩
  cases refs with
  | nil => simp [show next tasks ref = none from hchain]
  | cons => simp [hchain.1, h.tail]

/-- The tables agree but for the links of the run queue. -/
def Relinked (tasks tasks' : Slab TaskHeader) : Prop :=
  ∀ k, (tasks'.stored k).map ({ · with nextRunnable := none }) =
    (tasks.stored k).map ({ · with nextRunnable := none })

theorem setNext_relinked (hwf : tasks.WF) (hkey : tasks.stored key = some header)
    (link : Option TaskRef) : Relinked tasks (setNext tasks key link) := by
  intro k
  rw [(setNext_shows hwf hkey link).stored]
  by_cases hk : k = key
  · rw [hk, update_self, hkey]
    rfl
  · rw [update_of_ne hk]

theorem next_setNext (hwf : tasks.WF) (hkey : tasks.stored key = some header) (link : Option TaskRef)
    (r : TaskRef) : next (setNext tasks key link) r = if r.key = key then link else next tasks r := by
  rw [next, (setNext_shows hwf hkey link).stored]
  split
  case isTrue heq => rw [heq, update_self, Option.bind_some]
  case isFalse hne => rw [update_of_ne hne, next]

theorem Holds.push (h : queue.Holds tasks refs) (hwf : tasks.WF)
    (href : tasks.stored ref.key = some header) (hnew : ∀ r ∈ refs, r.key ≠ ref.key)
    (hlast : ∀ last ∈ refs.getLast?, (tasks.stored last.key).isSome = true) :
    ∃ queue' tasks', queue.push ref tasks = (queue', tasks') ∧ tasks'.WF ∧
      queue'.Holds tasks' (refs ++ [ref]) ∧ Relinked tasks tasks' := by
  have hcleared := setNext_shows hwf href none
  have hkeys : ((refs ++ [ref]).map (·.key)).Nodup := by
    rw [List.map_append, List.map_singleton]
    refine List.nodup_append.mpr ⟨h.keys, List.nodup_singleton _, ?_⟩
    simpa using hnew
  have hlen : queue.len + 1 = (refs ++ [ref]).length := by rw [h.len, List.length_append]; rfl
  cases htail : refs.getLast? with
  | none =>
    obtain rfl : refs = [] := List.getLast?_eq_none_iff.mp htail
    have htail' : queue.tail = none := h.tail
    have hpush : queue.push ref tasks =
        (⟨some ref, some ref, queue.len + 1⟩, setNext tasks ref.key none) := by
      simp only [LocalRunQueue.push, href, htail']
    refine ⟨_, _, hpush, hcleared.wf, ⟨⟨rfl, ?_⟩, rfl, hlen, hkeys⟩, setNext_relinked hwf href none⟩
    rw [chain_nil, next_setNext hwf href, if_pos rfl]
  | some last =>
    have hmem : last ∈ refs := List.mem_of_getLast? htail
    obtain ⟨cell, hcell⟩ := Option.isSome_iff_exists.mp (hlast last htail)
    have hcell' : (setNext tasks ref.key none).stored last.key = some cell := by
      rw [hcleared.stored, update_of_ne (hnew last hmem), hcell]
    have hset := setNext_shows hcleared.wf hcell' (some ref)
    have hnext := next_setNext hcleared.wf hcell' (some ref)
    have htail' : queue.tail = some last := h.tail.trans htail
    have hpush : queue.push ref tasks = (⟨queue.head, some ref, queue.len + 1⟩,
        setNext (setNext tasks ref.key none) last.key (some ref)) := by
      simp only [LocalRunQueue.push, href, htail']
    refine ⟨_, _, hpush, hset.wf, ⟨?_, by simp, hlen, hkeys⟩, fun k =>
      (setNext_relinked hcleared.wf hcell' _ k).trans (setNext_relinked hwf href none k)⟩
    have hback : next (setNext (setNext tasks ref.key none) last.key (some ref)) ref = none := by
      rw [hnext, if_neg (hnew last hmem).symm, next_setNext hwf href, if_pos rfl]
    have hchain := h.chain.concat h.nodup hback fun r hr => ?_
    · cases refs with
      | nil => cases hmem
      | cons =>
        rw [h.chain.1] at hchain ⊢
        exact hchain
    · rw [hnext, next_setNext hwf href, if_neg (hnew r hr), htail]
      refine if_congr ⟨fun heq => ?_, fun heq => ?_⟩ rfl rfl
      · rw [List.inj_on_of_nodup_map h.keys hr hmem heq]
      · rw [Option.some.inj heq]

end LocalRunQueue

/-- A run queue and the slab its tasks are in, with the references pushed and popped so far. -/
structure QueueWorld where
  queue : LocalRunQueue
  tasks : Slab TaskHeader
  pushed : List TaskRef
  popped : List TaskRef

inductive QueueEvent
  | push (ref : TaskRef)
  | pop
  /-- A task is reaped, whether it is queued or not. -/
  | remove (key : SlabKey)
  | insert (pip : Pip)
deriving DecidableEq, Repr

namespace QueueWorld

def init (tasks : Slab TaskHeader) : QueueWorld := ⟨.new, tasks, [], []⟩

def step (w : QueueWorld) : QueueEvent → QueueWorld
  | .push ref =>
    let (queue, tasks) := w.queue.push ref w.tasks
    let pushed := if (w.tasks.stored ref.key).isSome then w.pushed ++ [ref] else w.pushed
    { w with queue, tasks, pushed }
  | .pop =>
    let (ref, queue) := w.queue.pop w.tasks
    { w with queue, popped := w.popped ++ ref.toList }
  | .remove key =>
    match w.tasks.stored key, w.tasks.remove key with
    | some _, some (_, tasks) => { w with tasks }
    | _, _ => w
  | .insert pip =>
    match w.tasks.insert (.new pip) with
    | .ok (_, tasks) => { w with tasks }
    | _ => w

/-- What was pushed and not popped yet. -/
def queued (w : QueueWorld) : List TaskRef := w.pushed.drop w.popped.length

/-- A task is pushed only while it is not queued, as on its transition to `Woken`, and the task queued
last is still there; of the queued tasks, only the last one is removed. -/
def isCareful (w : QueueWorld) : QueueEvent → Bool
  | .push ref => w.queued.all (·.key != ref.key) &&
      w.queued.getLast?.all fun last => (w.tasks.stored last.key).isSome
  | .remove key => w.queued.dropLast.all (·.key != key)
  | .pop | .insert _ => true

/-- Popped so far and reachable from the head make up what was pushed, in order. -/
structure Fifo (w : QueueWorld) : Prop where
  order : w.pushed = w.popped ++ w.queued
  holds : w.queue.Holds w.tasks w.queued

/-- The shard's list is what is queued, and its slab is the same but for the links. -/
structure Refines (w : QueueWorld) (shard : Shard) : Prop where
  queue : shard.runQueue = w.queued
  tasks : LocalRunQueue.Relinked shard.tasks w.tasks

/-- A push is what `enqueue` does to the shard's list, and a pop takes its front as `startPoll`
does. -/
def Follows (w : QueueWorld) : QueueEvent → Prop
  | .push ref => ∀ shard, w.Refines shard → (shard.header ref.key).isSome = true →
      (w.step (.push ref)).Refines (shard.enqueue ref)
  | .pop => ∀ shard, w.Refines shard → (w.queue.pop w.tasks).1 = shard.runQueue.head? ∧
      (w.step .pop).Refines { shard with runQueue := shard.runQueue.tail }
  | _ => True

variable {w w' : QueueWorld}

theorem queued_eq {refs : List TaskRef} (horder : w.pushed = w.popped ++ refs) : w.queued = refs := by
  rw [queued, horder, List.drop_left]

theorem Fifo.intro {refs : List TaskRef} (horder : w.pushed = w.popped ++ refs)
    (hholds : w.queue.Holds w.tasks refs) : w.Fifo := by
  have hqueued := queued_eq horder
  exact ⟨by rw [hqueued, horder], by rwa [hqueued]⟩

theorem Fifo.push (h : w.Fifo) (hwf : w.tasks.WF) {ref : TaskRef}
    (hcareful : w.isCareful (.push ref) = true) :
    ((w.step (.push ref)).tasks.WF ∧ (w.step (.push ref)).Fifo) ∧ w.Follows (.push ref) := by
  simp only [isCareful, Bool.and_eq_true, List.all_eq_true, bne_iff_ne, Option.all_eq_true] at hcareful
  have hsame : ∀ {shard}, w.Refines shard →
      (shard.header ref.key).isSome = (w.tasks.stored ref.key).isSome := fun hrefines => by
    simpa [Shard.header] using congrArg Option.isSome (hrefines.tasks ref.key).symm
  cases href : w.tasks.stored ref.key with
  | none =>
    simp only [step, LocalRunQueue.push, href]
    refine ⟨⟨hwf, h.order, h.holds⟩, fun shard hrefines hstored => ?_⟩
    simp [hsame hrefines, href] at hstored
  | some =>
    obtain ⟨queue, tasks, hpush, hwf', hholds, hlinks⟩ := h.holds.push hwf href hcareful.1 hcareful.2
    have horder : w.pushed ++ [ref] = w.popped ++ (w.queued ++ [ref]) := by
      rw [← List.append_assoc, ← h.order]
    simp only [Follows, step, hpush, href, Option.isSome_some, if_true]
    refine ⟨⟨hwf', .intro horder hholds⟩, fun shard hrefines _ => ⟨?_, fun k => ?_⟩⟩
    · rw [queued_eq horder, ← hrefines.queue]
      rfl
    · exact (hlinks k).trans (hrefines.tasks k)

theorem Fifo.pop (h : w.Fifo) : (w.step .pop).Fifo ∧ w.Follows .pop := by
  have hholds := h.holds
  have horder := h.order
  cases hqueued : w.queued with
  | nil =>
    rw [hqueued] at hholds horder
    simp only [Follows, step, hholds.pop_nil, Option.toList_none, List.append_nil]
    refine ⟨.intro horder hholds, fun shard hrefines => ?_⟩
    have hnil := hrefines.queue.trans hqueued
    exact ⟨by rw [hnil]; rfl, by rw [hnil]; exact hqueued.symm, hrefines.tasks⟩
  | cons ref refs =>
    rw [hqueued] at hholds horder
    obtain ⟨queue, hpop, hrest⟩ := hholds.pop_cons
    have horder' : w.pushed = w.popped ++ [ref] ++ refs := by
      rw [horder, List.append_assoc, List.singleton_append]
    simp only [Follows, step, hpop, Option.toList_some]
    refine ⟨.intro horder' hrest, fun shard hrefines => ?_⟩
    have hcons := hrefines.queue.trans hqueued
    exact ⟨by rw [hcons]; rfl, by rw [hcons]; exact (queued_eq horder').symm, hrefines.tasks⟩

theorem Fifo.congr (h : w.Fifo) {tasks : Slab TaskHeader} (hnext : ∀ r ∈ w.queued,
    LocalRunQueue.next tasks r = LocalRunQueue.next w.tasks r) : { w with tasks }.Fifo :=
  ⟨h.order, h.holds.congr hnext⟩

theorem Fifo.remove (h : w.Fifo) (hwf : w.tasks.WF) {key : SlabKey}
    (hcareful : w.isCareful (.remove key) = true) :
    (w.step (.remove key)).tasks.WF ∧ (w.step (.remove key)).Fifo := by
  cases hkey : w.tasks.stored key with
  | none =>
    simp only [step, hkey]
    exact ⟨hwf, h⟩
  | some =>
    obtain ⟨tasks, hremove, hshows⟩ := w.tasks.remove_shows hwf hkey
    simp only [step, hkey, hremove]
    refine ⟨hshows.wf, h.congr fun r hr => ?_⟩
    rw [LocalRunQueue.next, hshows.stored]
    by_cases hrk : r.key = key
    · -- only the last one can go, and it has no link to lose
      obtain ⟨init, last, hsplit⟩ := (List.eq_nil_or_concat w.queued).resolve_left
        (List.ne_nil_of_mem hr)
      rw [List.concat_eq_append] at hsplit
      simp only [isCareful, hsplit, List.dropLast_concat, List.all_eq_true, bne_iff_ne] at hcareful
      have hlast : r = last := by
        rw [hsplit] at hr
        rcases List.mem_append.mp hr with hinit | hlast
        · exact absurd hrk (hcareful r hinit)
        · exact List.mem_singleton.mp hlast
      have hchain := h.holds.chain
      rw [hsplit] at hchain
      rw [hrk, update_self, hlast, hchain.next_last]
      rfl
    · rw [update_of_ne hrk, LocalRunQueue.next]

theorem Fifo.insert (h : w.Fifo) (hwf : w.tasks.WF) (pip : Pip) :
    (w.step (.insert pip)).tasks.WF ∧ (w.step (.insert pip)).Fifo := by
  rcases w.tasks.insert_shows hwf (.new pip) with hfull | ⟨key, tasks, hok, hvacant, -, hshows⟩
  · simp only [step, hfull]
    exact ⟨hwf, h⟩
  · simp only [step, hok]
    refine ⟨hshows.wf, h.congr fun r _ => ?_⟩
    rw [LocalRunQueue.next, hshows.stored, LocalRunQueue.next]
    by_cases hrk : r.key = key
    · rw [hrk, update_self, show w.tasks.stored key = none from hvacant _]
      rfl
    · rw [update_of_ne hrk]

/-- A queue whose tasks stay in the slab until they are popped, its last one apart, is first in, first
out, and does what the list of a shard does. -/
theorem runQueue_fifo (tasks : Slab TaskHeader) (hwf : tasks.WF) (es : List QueueEvent)
    (hes : Runs.Meets step (fun w e => w.isCareful e = true) (init tasks) es) :
    (Runs.run step (init tasks) es).Fifo ∧ Runs.Meets step Follows (init tasks) es := by
  have hstep : ∀ (w : QueueWorld) e, w.tasks.WF ∧ w.Fifo → w.isCareful e = true →
      ((w.step e).tasks.WF ∧ (w.step e).Fifo) ∧ w.Follows e := by
    intro w e h hcareful
    cases e with
    | push => exact h.2.push h.1 hcareful
    | pop => exact ⟨⟨h.1, h.2.pop.1⟩, h.2.pop.2⟩
    | remove => exact ⟨h.2.remove h.1 hcareful, trivial⟩
    | insert pip => exact ⟨h.2.insert h.1 pip, trivial⟩
  have hinit : (init tasks).tasks.WF ∧ (init tasks).Fifo :=
    ⟨hwf, rfl, rfl, rfl, rfl, List.nodup_nil⟩
  have hkeep := fun w e h hcareful => (hstep w e h hcareful).1
  exact ⟨(hes.invariant hkeep hinit).2,
    hes.of_invariant hkeep (fun w e h hcareful => (hstep w e h hcareful).2) hinit⟩

def taskIn (index : Nat) : TaskRef := ⟨0, ⟨index, 1⟩⟩

def pushThree : List QueueEvent :=
  List.replicate 3 (.insert ⟨0, 1⟩) ++ [.push (taskIn 0), .push (taskIn 1), .push (taskIn 2)]

theorem runQueue_fifo_last : ∃ tasks, Slab.new 3 = .ok tasks ∧
    (Runs.run step (init tasks) (pushThree ++ [.remove (taskIn 2).key, .pop, .pop, .pop])).Fifo :=
  ⟨_, rfl, (runQueue_fifo _ (Slab.new_wf (show Slab.new 3 = .ok _ from rfl)) _ (by decide)).1⟩

/-- The head is reaped while it is queued: two tasks are left in the slab and counted, and none of
them is found. -/
theorem reaped_head_loses_queue : ∃ tasks, Slab.new 3 = .ok tasks ∧
    let w := Runs.run step (init tasks) (pushThree ++ [.remove (taskIn 0).key, .pop])
    w.queued = [taskIn 1, taskIn 2] ∧ (∀ ref ∈ w.queued, (w.tasks.stored ref.key).isSome = true) ∧
      w.queue.pop w.tasks = (none, w.queue) ∧ w.queue.len = 2 :=
  ⟨_, rfl, by decide⟩

end QueueWorld

end Kwokka
