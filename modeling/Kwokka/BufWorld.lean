import Kwokka.IoDrain
import Kwokka.IoQueue
import Kwokka.IoRequests

/-! A worker whose tasks use buffered operations only: futures are submitted,
harvested and dropped at any time, the cancel drain and the completion drain run
in between, and the kernel posts completions as it likes. -/

namespace Kwokka

open Table Runs InflightBufSlab

/-- What became of a future. A dropped one is `cancelled` once `drain_cancels` handled its key. -/
inductive Holder
  | live
  | dropped
  | cancelled
  | harvested
deriving DecidableEq, Repr

/-- A submitted future: the slot it was given and its request on the ring. -/
structure BufFuture where
  key : InflightSlotKey
  op : Nat
  holder : Holder
deriving DecidableEq, Repr

/-- `queue` holds the completions that are posted and not drained; `misses` are the cancels that
went to the ring when no running request carried their target any more. -/
structure BufWorld where
  shard : IoShard
  futures : List BufFuture
  ops : List KernelOp
  queue : List (Option Nat × Completion)
  misses : List Nat

/-- `skip` is the completion a full batch loses. -/
inductive BufEvent
  | submit (token : UInt64) (kind : FutureKind) (isAccepted : Bool)
  | harvest (f : Nat)
  | drop (f : Nat)
  | drainCancel (isAccepted : Bool)
  | post (o : Nat) (cqe : Cqe)
  | drain
  | skip
deriving DecidableEq

namespace BufFuture

def cancel (key : InflightSlotKey) (fut : BufFuture) : BufFuture :=
  if fut.key = key then { fut with holder := .cancelled } else fut

@[simp]
theorem key_cancel (fut : BufFuture) (key : InflightSlotKey) : (fut.cancel key).key = fut.key := by
  unfold cancel
  split <;> rfl

@[simp]
theorem op_cancel (fut : BufFuture) (key : InflightSlotKey) : (fut.cancel key).op = fut.op := by
  unfold cancel
  split <;> rfl

end BufFuture

variable (w : BufWorld)

namespace BufWorld

def init (id cap : Nat) : BufWorld := ⟨(IoWorld.init id cap).shard, [], [], [], []⟩

def setSlab (inflight : InflightBufSlab) : BufWorld :=
  { w with shard := { w.shard with inflight } }

def submitted (token : UInt64) (kind : FutureKind) (key : InflightSlotKey)
    (slab : InflightBufSlab) : BufWorld :=
  { w.setSlab slab with
    futures := w.futures ++ [⟨key, w.ops.length, .live⟩]
    ops := w.ops ++ [.start
      (.ofSubmission w.futures.length kind ⟨token, decide (kind = .sendZc), some key⟩)] }

/-- The first poll of a buffered future. A refused submission gives the slot back. -/
def submit (token : UInt64) (kind : FutureKind) (isAccepted : Bool) : BufWorld :=
  if isTaskToken token && kind.isBuffered then
    match w.shard.inflight.allocate token with
    | some (key, slab) =>
      if isAccepted then w.submitted token kind key slab else w.setSlab (slab.free key)
    | none => w
  else w

def harvested (f : Nat) (fut : BufFuture) : BufWorld :=
  { w.setSlab (w.shard.inflight.free fut.key) with
    futures := w.futures.set f { fut with holder := .harvested } }

def harvest (f : Nat) : BufWorld :=
  match w.futures[f]? with
  | some fut => if fut.holder = .live then w.harvested f fut else w
  | none => w

def dropped (f : Nat) (fut : BufFuture) : BufWorld :=
  { w with
    shard := { w.shard with cancelInbox := w.shard.cancelInbox.pushCancel fut.key }
    futures := w.futures.set f { fut with holder := .dropped } }

def drop (f : Nat) : BufWorld :=
  match w.futures[f]? with
  | some fut => if fut.holder = .live then w.dropped f fut else w
  | none => w

def cancelled (isAccepted : Bool) (key : InflightSlotKey) (cancelInbox : CancelInbox) : BufWorld :=
  { w with
    shard := { w.shard with cancelInbox }.recordCancel key
    futures := w.futures.map (·.cancel key)
    ops := if isAccepted then w.ops ++ [.start (.ofCancel key)] else w.ops
    misses := if isAccepted && KernelOp.isTargetGone w.ops key.opToken then
      w.misses ++ [w.ops.length] else w.misses }

def drainCancel (isAccepted : Bool) : BufWorld :=
  match w.shard.cancelInbox.pop with
  | some (key, cancelInbox) => w.cancelled isAccepted key cancelInbox
  | none => w

def posted (o : Nat) (op : KernelOp) (cqe : Cqe) : BufWorld :=
  { w with
    ops := w.ops.set o (op.posted cqe)
    queue := w.queue ++ [(some o, translateCqe cqe)] }

def post (o : Nat) (cqe : Cqe) : BufWorld :=
  match w.ops[o]? with
  | some op => if op.mayPost w.ops cqe then w.posted o op cqe else w
  | none => w

def drained (o : Nat) (c : Completion) (queue : List (Option Nat × Completion)) : BufWorld :=
  { w with
    shard := (w.shard.completeOne c).2
    ops := w.ops.modify o (·.drained c)
    queue }

def drain : BufWorld :=
  match w.queue with
  | (some o, c) :: queue => w.drained o c queue
  | _ => w

def step : BufEvent → BufWorld
  | .submit token kind isAccepted => w.submit token kind isAccepted
  | .harvest f => w.harvest f
  | .drop f => w.drop f
  | .drainCancel isAccepted => w.drainCancel isAccepted
  | .post o cqe => w.post o cqe
  | .drain => w.drain
  | .skip => { w with queue := w.queue.tail }

def requests : List Request := w.ops.map (·.toRequest)

end BufWorld

namespace InflightBufSlab

def held (slab : InflightBufSlab) (key : InflightSlotKey) : Option InflightSlot :=
  slab.slots[key.slot]?.filter fun slot =>
    slot.occupied && slot.generation == key.generation && slot.opToken == key.opToken

/-- One slab after another, seen from the allocation `key`: nothing, a flag, or its end. The last
index is what `key` holds afterwards. -/
inductive Move (slab : InflightBufSlab) (key : InflightSlotKey) :
    InflightBufSlab → Option InflightSlot → Prop
  | same : Move slab key slab (slab.held key)
  | marked (slot : InflightSlot) (f : InflightSlot → InflightSlot)
      (held : slab.held key = some slot) (keeps : InflightSlot.IsMark f) :
      Move slab key (slab.modify key.slot f) (some (f slot))
  | released (slot : InflightSlot) (held : slab.held key = some slot) :
      Move slab key (slab.modify key.slot .release) none

variable {slab slab' : InflightBufSlab} {key k : InflightSlotKey} {slot : InflightSlot}
  {i : Nat} {token : UInt64}

theorem held_eq_some :
    slab.held key = some slot ↔ slab.slots[key.slot]? = some slot ∧ slot.Holds key := by
  simp only [held, Option.filter_eq_some_iff, Bool.and_eq_true, beq_iff_eq]
  constructor
  · rintro ⟨hslot, ⟨hocc, hgen⟩, htok⟩
    exact ⟨hslot, hocc, hgen, htok⟩
  · rintro ⟨hslot, hocc, hgen, htok⟩
    exact ⟨hslot, ⟨hocc, hgen⟩, htok⟩

theorem held_eq_none (hslot : slab.slots[key.slot]? = some slot) (hnot : ¬ slot.Holds key) :
    slab.held key = none := by
  cases h : slab.held key with
  | none => rfl
  | some =>
    obtain ⟨hother, hholds⟩ := held_eq_some.mp h
    cases hslot.symm.trans hother
    exact absurd hholds hnot

variable {f : InflightSlot → InflightSlot}

theorem held_modify_ne (hne : key.slot ≠ i) : (slab.modify i f).held key = slab.held key := by
  simp [held, modify, Ne.symm hne]

theorem row_modify_self (hslot : slab.slots[i]? = some slot) :
    (slab.modify i f).slots[i]? = some (f slot) :=
  modify_eq_some.mpr (.inr ⟨rfl, slot, hslot, rfl⟩)

theorem held_modify_eq (hslot : slab.slots[i]? = some slot)
    (hbefore : key.slot = i → ¬ slot.Holds key) (hafter : key.slot = i → ¬ (f slot).Holds key) :
    (slab.modify i f).held key = slab.held key := by
  by_cases hi : key.slot = i
  · subst hi
    have hnew : (slab.modify key.slot f).slots[key.slot]? = some (f slot) := row_modify_self hslot
    rw [held_eq_none hslot (hbefore rfl), held_eq_none hnew (hafter rfl)]
  · exact held_modify_ne hi

theorem Move.unchanged {view : Option InflightSlot} (h : slab.held key = view) :
    slab.Move key slab view := h ▸ .same

theorem Move.own {view : Option InflightSlot} (h : Move slab key slab' view) :
    slab'.held key = view := by
  cases h with
  | same => rfl
  | marked slot f held keeps =>
    obtain ⟨hslot, hholds⟩ := held_eq_some.mp held
    obtain ⟨hocc, hgen, htok⟩ := keeps slot
    exact held_eq_some.mpr ⟨row_modify_self hslot, hocc.trans hholds.occupied,
      hgen.trans hholds.generation, htok.trans hholds.opToken⟩
  | released slot held =>
    obtain ⟨hslot, _⟩ := held_eq_some.mp held
    refine held_eq_none (row_modify_self hslot) ?_
    intro hholds
    simpa [InflightSlot.release] using hholds.occupied

end InflightBufSlab

namespace SlotsSound

variable {id : Nat} {slab slab' : InflightBufSlab} {requests : List Request} {o p : Nat}
  {r q : Request} {key k : InflightSlotKey} {slot : InflightSlot} {view : Option InflightSlot}

theorem holds_unique (h : SlotsSound id slab requests) (hr : requests[o]? = some r)
    (hq : requests[p]? = some q) (hkey : r.key = some key) (hk : q.key = some k)
    (hslot : key.slot = k.slot) (hholds : slot.Holds key) (hholds' : slot.Holds k) : o = p := by
  obtain ⟨hworker, _⟩ := h.keyed o r key hr hkey
  obtain ⟨hworker', _⟩ := h.keyed p q k hq hk
  have heq : key = k := by
    obtain ⟨s, g, w, t⟩ := key
    obtain ⟨s', g', w', t'⟩ := k
    have hgen := hholds.generation.symm.trans hholds'.generation
    have htok := hholds.opToken.symm.trans hholds'.opToken
    simp only at hslot hgen htok hworker hworker'
    rw [hslot, hgen, htok, hworker, hworker']
  exact h.unique o p r q k hr hq (heq ▸ hkey) hk

theorem move (h : SlotsSound id slab requests) (hmove : slab.Move key slab' view) :
    SlotsSound id slab' requests := by
  cases hmove with
  | same => exact h
  | marked slot f held keeps =>
    obtain ⟨hslot, hholds⟩ := held_eq_some.mp held
    exact h.mark hslot hholds.occupied keeps
  | released slot held => exact h.release (held_eq_some.mp held).1

theorem held_move (h : SlotsSound id slab requests) (hmove : slab.Move key slab' view)
    (hr : requests[o]? = some r) (hkey : r.key = some key) (hq : requests[p]? = some q)
    (hk : q.key = some k) (hne : o ≠ p) : slab'.held k = slab.held k := by
  cases hmove with
  | same => rfl
  | marked slot f held keeps =>
    obtain ⟨hslot, hholds⟩ := held_eq_some.mp held
    refine held_modify_eq hslot ?_ ?_
    · intro hi hholds'
      exact hne (h.holds_unique hr hq hkey hk hi.symm hholds hholds')
    · intro hi hholds'
      obtain ⟨hocc, hgen, htok⟩ := keeps slot
      have hbefore : slot.Holds k :=
        ⟨hocc ▸ hholds'.occupied, hgen ▸ hholds'.generation, htok ▸ hholds'.opToken⟩
      exact hne (h.holds_unique hr hq hkey hk hi.symm hholds hbefore)
  | released slot held =>
    obtain ⟨hslot, hholds⟩ := held_eq_some.mp held
    refine held_modify_eq hslot ?_ ?_
    · intro hi hholds'
      exact hne (h.holds_unique hr hq hkey hk hi.symm hholds hholds')
    · intro _ hholds'
      simpa [InflightSlot.release] using hholds'.occupied

variable {token : UInt64}

theorem held_allocate (h : SlotsSound id slab requests)
    (halloc : slab.allocate token = some (key, slab')) (hq : requests[p]? = some q)
    (hk : q.key = some k) : slab'.held k = slab.held k := by
  obtain ⟨slot, hslot, hfree, hkeyEq, rfl⟩ := allocate_spec halloc
  refine held_modify_eq hslot ?_ ?_
  · intro _ hholds
    rw [hholds.occupied] at hfree
    simp at hfree
  · intro hi hholds
    have hlt := h.key_ne_of_free hq hk (hi ▸ hslot) hfree
    have hgen : slot.generation = k.generation := hholds.generation
    omega

theorem held_allocated (h : SlotsSound id slab requests)
    (halloc : slab.allocate token = some (key, slab')) :
    ∃ slot, slab'.held key = some slot ∧ slot.retirePending = false ∧
      slot.notifExpected = false ∧ slot.notifReady = false := by
  obtain ⟨slot, hslot, hfree, hkeyEq, rfl⟩ := allocate_spec halloc
  obtain ⟨hret, hexp, hready⟩ := h.free _ slot hslot hfree
  refine ⟨slot.occupy token, held_eq_some.mpr
    ⟨row_modify_self hslot, rfl, ?_, ?_⟩, hret, hexp, hready⟩
  · rw [hkeyEq]
    rfl
  · rw [hkeyEq]
    rfl

theorem held_bounced (halloc : slab.allocate token = some (key, slab')) :
    (slab'.free key).held k = slab.held k := by
  obtain ⟨slot, hslot, hfree, _, _⟩ := allocate_spec halloc
  rw [free_allocate halloc]
  refine held_modify_eq hslot ?_ ?_
  · intro _ hholds
    rw [hholds.occupied] at hfree
    simp at hfree
  · intro _ hholds
    simpa [InflightSlot.release] using hholds.occupied

theorem isLive_iff_held (h : SlotsSound id slab requests) (hr : requests[o]? = some r)
    (hkey : r.key = some key) : slab.isLive key = true ↔ ∃ slot, slab.held key = some slot := by
  obtain ⟨hworker, _, slot, hslot, hstate⟩ := h.keyed o r key hr hkey
  constructor
  · intro hlive
    obtain ⟨_, other, hother, hocc, hgen⟩ := isLive_iff.mp hlive
    cases hslot.symm.trans hother
    refine ⟨slot, held_eq_some.mpr ⟨hslot, hstate.resolve_left ?_⟩⟩
    omega
  · rintro ⟨other, hheld⟩
    obtain ⟨hother, hholds⟩ := held_eq_some.mp hheld
    exact isLive_iff.mpr
      ⟨hworker.trans h.worker.symm, other, hother, hholds.occupied, hholds.generation⟩

end SlotsSound

end Kwokka
