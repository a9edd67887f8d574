import Kwokka.BufLedger
import Kwokka.IoSound

/-! What every run keeps whose drops reach the ring as cancels and in which one
allocation at a time answers to a task token: each future's flags say how far its
operation got, and a slot that went was harvested, or given up by a cancelled future. -/

namespace Kwokka

open Table Runs

def KernelOp.hasNotif (op : KernelOp) : Bool :=
  decide (op.stage = .awaitingNotif ∨ op.stage = .notified)

/-- Future `f` beside its request and what its key holds. -/
structure BufFuture.Row (fut : BufFuture) (f : Nat) (op : KernelOp) (view : Option InflightSlot) :
    Prop where
  key : op.key = some fut.key
  token : op.userData = fut.key.opToken
  task : isTaskToken fut.key.opToken = true
  role : ∃ kind, op.role = .owned f kind
  retire : ∀ slot, view = some slot → slot.retirePending = decide (fut.holder = .cancelled)
  expected : ∀ slot, view = some slot → slot.notifExpected = (op.isResultDrained && op.hasNotif)
  ready : ∀ slot, view = some slot →
    slot.notifReady = (op.isFinalDrained && decide (op.stage = .notified))
  harvested : fut.holder = .harvested → view = none
  freed : view = none → fut.holder = .harvested ∨ fut.holder = .cancelled

def Rows (futures : List BufFuture) (ops : List KernelOp) (slab : InflightBufSlab) : Prop :=
  ∀ (f : Nat) fut, futures[f]? = some fut →
    ∃ op, ops[fut.op]? = some op ∧ fut.Row f op (slab.held fut.key)

variable {fut : BufFuture} {f : Nat} {op : KernelOp} {view : Option InflightSlot}

theorem BufFuture.Row.not_cancel {key : InflightSlotKey} (h : fut.Row f op view) :
    op.toRequest ≠ .ofCancel key := by
  intro hcancel
  have hnone : op.key = none := congrArg (fun r : Request => r.key) hcancel
  rw [h.key] at hnone
  cases hnone

/-- A slot that stays is one that was there; one that goes belonged to a cancelled future. -/
theorem BufFuture.Row.remade {op' : KernelOp} {view' : Option InflightSlot} (h : fut.Row f op view)
    (hlater : op.Later op')
    (hkept : ∀ slot, view' = some slot → ∃ old, view = some old ∧
      slot.retirePending = old.retirePending ∧
      slot.notifExpected = (op'.isResultDrained && op'.hasNotif) ∧
      slot.notifReady = (op'.isFinalDrained && decide (op'.stage = .notified)))
    (hgone : ∀ slot, view = some slot → view' = none → slot.retirePending = true) :
    fut.Row f op' view' := by
  refine ⟨hlater.key.trans h.key, ?_, h.task, ?_, ?_, ?_, ?_, ?_, ?_⟩
  · exact (congrArg (fun r : Request => r.userData) hlater.request).trans h.token
  · rw [hlater.role]
    exact h.role
  · intro slot hslot
    obtain ⟨old, hold, hretire, _⟩ := hkept slot hslot
    exact hretire.trans (h.retire old hold)
  · intro slot hslot
    obtain ⟨_, _, _, hexpected, _⟩ := hkept slot hslot
    exact hexpected
  · intro slot hslot
    obtain ⟨_, _, _, _, hready⟩ := hkept slot hslot
    exact hready
  · intro hharvested
    cases hview : view' with
    | none => rfl
    | some slot =>
      obtain ⟨old, hold, _⟩ := hkept slot hview
      rw [h.harvested hharvested] at hold
      cases hold
  · intro hnone
    cases hview : view with
    | none => exact h.freed hview
    | some slot =>
      have hretire := hgone slot hview hnone
      rw [h.retire slot hview] at hretire
      exact .inr (of_decide_eq_true hretire)

theorem BufFuture.Row.posted {ops : List KernelOp} {cqe : Cqe} (h : fut.Row f op view)
    (hc : op.Coherent) (hmay : op.mayPost ops cqe = true) : fut.Row f (op.posted cqe) view := by
  have hdrained : op.isFinalDrained = false := (hc.queued_posted hmay).undrained
  refine h.remade (KernelOp.later_posted op cqe) ?_ ?_
  · intro slot hslot
    refine ⟨slot, hslot, rfl, ?_, ?_⟩
    · rw [h.expected slot hslot]
      rcases KernelOp.mayPost_stage hmay with hs | hs
      · simp [(hc.running hs).1]
      · simp [KernelOp.hasNotif, KernelOp.posted, hs]
    · rw [h.ready slot hslot]
      simp [hdrained]
  · intro slot hslot hnone
    cases hslot.symm.trans hnone

theorem BufFuture.Row.drained {c : Completion} (h : fut.Row f op view) (hq : op.Queued c) :
    fut.Row f (op.drained c) (IoShard.drainView c view) := by
  unfold IoShard.drainView
  cases hn : c.isNotif with
  | true =>
    obtain ⟨hstage, hmore⟩ := hq.notif hn
    refine h.remade (KernelOp.later_drained op c) ?_ ?_
    · intro slot hslot
      obtain ⟨old, hold, rfl⟩ := Option.map_eq_some_iff.mp hslot
      have hold := (Option.filter_eq_some_iff.mp hold).1
      refine ⟨old, hold, rfl, ?_, ?_⟩
      · simpa [KernelOp.drained, KernelOp.hasNotif, InflightSlot.armNotif, hn] using h.expected old hold
      · simp [KernelOp.drained, hmore, hstage, InflightSlot.armNotif]
    · intro slot hslot hnone
      simpa [hslot] using hnone
  | false =>
    cases hm : c.hasMore with
    | true =>
      obtain ⟨hresult, hstage⟩ := hq.more hn hm
      refine h.remade (KernelOp.later_drained op c) ?_ ?_
      · intro slot hslot
        obtain ⟨old, hold, rfl⟩ := Option.map_eq_some_iff.mp hslot
        have hnotif : (op.drained c).hasNotif = true := decide_eq_true hstage
        refine ⟨old, hold, rfl, ?_, ?_⟩
        · rw [hnotif]
          simp [KernelOp.drained, hn, InflightSlot.expectNotif]
        · simpa [KernelOp.drained, InflightSlot.expectNotif, hm] using h.ready old hold
      · intro slot hslot hnone
        simp [hslot] at hnone
    | false =>
      obtain ⟨hresult, hstage⟩ := hq.only hn hm
      refine h.remade (KernelOp.later_drained op c) ?_ ?_
      · intro slot hslot
        have hold := (Option.filter_eq_some_iff.mp hslot).1
        refine ⟨slot, hold, rfl, ?_, ?_⟩
        · rw [h.expected slot hold]
          simp [KernelOp.hasNotif, hstage]
        · rw [h.ready slot hold]
          simp [hstage]
      · intro slot hslot hnone
        simpa [hslot] using hnone

theorem BufFuture.Row.answered {result : Int} (h : fut.Row f op view) :
    fut.Row f op (IoShard.cancelView result view) := by
  unfold IoShard.cancelView
  split
  · refine h.remade (.refl op) ?_ ?_
    · intro slot hslot
      have hold := (Option.filter_eq_some_iff.mp hslot).1
      exact ⟨slot, hold, rfl, h.expected slot hold, h.ready slot hold⟩
    · intro slot hslot hnone
      have hrec : slot.isReclaimable = true := by simpa [hslot] using hnone
      rw [InflightSlot.isReclaimable, Bool.and_eq_true] at hrec
      exact hrec.1
  · exact h

namespace InflightBufSlab

variable {slab slab' : InflightBufSlab} {key : InflightSlotKey} {view : Option InflightSlot}
  {i : Nat} {slot : InflightSlot} {token : UInt64}

/-- No two occupied slots carry one token. -/
def Distinct (slab : InflightBufSlab) : Prop :=
  ∀ (i j : Nat) slot other, slab.slots[i]? = some slot →
    slab.slots[j]? = some other → slot.occupied = true → other.occupied = true →
    slot.opToken = other.opToken → i = j

theorem Distinct.sole (h : slab.Distinct) (hheld : slab.held key ≠ none) : slab.Sole key := by
  intro i slot hslot hocc htok
  obtain ⟨own, hown⟩ := Option.ne_none_iff_exists'.mp hheld
  obtain ⟨hrow, hholds⟩ := held_eq_some.mp hown
  obtain rfl := h i key.slot slot own hslot hrow hocc hholds.occupied
    (htok.trans hholds.opToken.symm)
  cases hslot.symm.trans hrow
  exact ⟨rfl, hholds⟩

theorem Distinct.modify (h : slab.Distinct) (hslot : slab.slots[i]? = some slot)
    {f : InflightSlot → InflightSlot} (hf : (f slot).occupied = true →
      slot.occupied = true ∧ (f slot).opToken = slot.opToken ∨
        ∀ other ∈ slab.slots, other.occupied = true → other.opToken ≠ (f slot).opToken) :
    (slab.modify i f).Distinct := by
  have hother : ∀ j other, slab.slots[j]? = some other →
      other.occupied = true → (f slot).occupied = true → (f slot).opToken = other.opToken →
      i = j := by
    intro j other hother hocc hocc' htok
    rcases hf hocc' with ⟨hocc', hsame⟩ | hfresh
    · exact h i j slot other hslot hother hocc' hocc (hsame.symm.trans htok)
    · exact absurd htok.symm (hfresh other (List.mem_of_getElem? hother) hocc)
  intro j k s t hs ht hocc hocc' htok
  rcases modify_eq_some.mp hs with ⟨_, hold⟩ | ⟨rfl, s, hrow, rfl⟩
  · rcases modify_eq_some.mp ht with ⟨_, hold'⟩ | ⟨rfl, t, hrow, rfl⟩
    · exact h j k s t hold hold' hocc hocc' htok
    · cases hslot.symm.trans hrow
      exact (hother j s hold hocc hocc' htok.symm).symm
  · rcases modify_eq_some.mp ht with ⟨_, hold⟩ | ⟨rfl, _⟩
    · cases hslot.symm.trans hrow
      exact hother k t hold hocc' hocc htok
    · rfl

theorem Distinct.move (h : slab.Distinct) (hmove : slab.Move key slab' view) :
    slab'.Distinct := by
  cases hmove with
  | same => exact h
  | marked slot f held keeps =>
    obtain ⟨hslot, hholds⟩ := held_eq_some.mp held
    exact h.modify hslot fun _ => .inl ⟨hholds.occupied, (keeps slot).2.2⟩
  | released slot held => exact h.modify (held_eq_some.mp held).1 nofun

theorem Move.held_ne_none (h : slab.Move key slab' view) (hview : view ≠ none) :
    slab.held key ≠ none := by
  cases h with
  | same => exact hview
  | marked slot f held => simp [held]
  | released slot held => simp [held]

end InflightBufSlab

section Lists

variable {futures : List BufFuture} {ops ops' : List KernelOp} {slab slab' : InflightBufSlab}
  {id f : Nat} {fut fut' : BufFuture} {op op' : KernelOp} {view : Option InflightSlot}

theorem Rows.index_inj (h : Rows futures ops slab) {g : Nat} (hf : futures[f]? = some fut)
    (hg : futures[g]? = some fut') (heq : fut.op = fut'.op) : f = g := by
  obtain ⟨op, hop, hrow⟩ := h f fut hf
  obtain ⟨op', hop', hrow'⟩ := h g fut' hg
  rw [heq] at hop
  cases hop.symm.trans hop'
  obtain ⟨kind, hrole⟩ := hrow.role
  obtain ⟨kind', hrole'⟩ := hrow'.role
  rw [hrole] at hrole'
  injection hrole'

theorem Rows.held_other (h : Rows futures ops slab)
    (hslots : SlotsSound id slab (ops.map (·.toRequest))) (hf : futures[f]? = some fut)
    (hmove : slab.Move fut.key slab' view) {g : Nat} (hg : futures[g]? = some fut') (hgf : g ≠ f) :
    slab'.held fut'.key = slab.held fut'.key := by
  obtain ⟨op, hop, hrow⟩ := h f fut hf
  obtain ⟨op', hop', hrow'⟩ := h g fut' hg
  have hindex : fut.op ≠ fut'.op := fun heq => hgf (h.index_inj hf hg heq).symm
  exact hslots.held_move hmove (map_row hop) hrow.key (map_row hop') hrow'.key hindex

theorem Rows.move (h : Rows futures ops slab) (hslots : SlotsSound id slab (ops.map (·.toRequest)))
    (hf : futures[f]? = some fut) (hmove : slab.Move fut.key slab' view)
    (hops : ∀ p a, p ≠ fut.op → a.key.isSome = true → ops[p]? = some a → ops'[p]? = some a)
    (hop' : ops'[fut.op]? = some op') (hkey : fut'.key = fut.key) (hindex : fut'.op = fut.op)
    (hrow : fut'.Row f op' view) : Rows (futures.set f fut') ops' slab' := by
  intro g other hg
  rcases set_eq_some.mp hg with ⟨hne, hg⟩ | ⟨rfl, _, rfl⟩
  · obtain ⟨a, ha, hrow'⟩ := h g other hg
    have hindex' : other.op ≠ fut.op := fun heq => hne (h.index_inj hg hf heq)
    refine ⟨a, hops other.op a hindex' (by simp [hrow'.key]) ha, ?_⟩
    rw [h.held_other hslots hf hmove hg hne]
    exact hrow'
  · rw [hkey, hindex, hmove.own]
    exact ⟨op', hop', hrow⟩

end Lists

namespace BufWorld

/-- No occupied slot carries the token of a submission; futures are harvested by their own
completions; every drop reaches the ring as a cancel; a cancel that was submitted after its target
had finished answers `-ENOENT`; no completion is lost. -/
def Orderly (w : BufWorld) : BufEvent → Prop
  | .submit token _ _ =>
    ∀ slot ∈ w.shard.inflight.slots, slot.occupied = true → slot.opToken ≠ token
  | .harvest f => ∀ fut ∈ w.futures[f]?, ∀ op ∈ w.ops[fut.op]?, op.isFinalDrained = true
  | .drop _ => w.shard.cancelInbox.keys.length < cancelInboxCapacity
  | .drainCancel isAccepted => isAccepted = true
  | .post o cqe => o ∈ w.misses → cqe.result = -2
  | .drain => ∀ op ∈ w.ops, op.isFinalDrained = false → op.IsRecent w.shard.inflight
  | .skip => False

instance decidableOrderly (w : BufWorld) : ∀ e, Decidable (w.Orderly e)
  | .submit .. => inferInstanceAs (Decidable (∀ _ ∈ w.shard.inflight.slots, _ → _))
  | .harvest f => inferInstanceAs (Decidable (∀ fut ∈ w.futures[f]?, ∀ _ ∈ w.ops[fut.op]?, _))
  | .drop _ => inferInstanceAs (Decidable (_ < _))
  | .drainCancel _ => inferInstanceAs (Decidable (_ = true))
  | .post o _ => inferInstanceAs (Decidable (o ∈ w.misses → _))
  | .drain => inferInstanceAs (Decidable (∀ _ ∈ w.ops, _ → _))
  | .skip => inferInstanceAs (Decidable False)

inductive Effect (w : BufWorld) : BufEvent → BufWorld → Prop
  | ignored (e : BufEvent) : Effect w e w
  | submitted (token : UInt64) (kind : FutureKind) (key : InflightSlotKey) (slab : InflightBufSlab)
      (task : isTaskToken token = true)
      (allocated : w.shard.inflight.allocate token = some (key, slab)) :
      Effect w (.submit token kind true) (w.submitted token kind key slab)
  | bounced (token : UInt64) (kind : FutureKind) (key : InflightSlotKey) (slab : InflightBufSlab)
      (allocated : w.shard.inflight.allocate token = some (key, slab)) :
      Effect w (.submit token kind false) (w.setSlab (slab.free key))
  | harvested (f : Nat) (fut : BufFuture) (found : w.futures[f]? = some fut)
      (live : fut.holder = .live) : Effect w (.harvest f) (w.harvested f fut)
  | dropped (f : Nat) (fut : BufFuture) (found : w.futures[f]? = some fut)
      (live : fut.holder = .live) : Effect w (.drop f) (w.dropped f fut)
  | cancelled (isAccepted : Bool) (key : InflightSlotKey) (keys : List InflightSlotKey)
      (popped : w.shard.cancelInbox.keys = key :: keys) :
      Effect w (.drainCancel isAccepted) (w.cancelled isAccepted key ⟨keys⟩)
  | posted (o : Nat) (op : KernelOp) (cqe : Cqe) (found : w.ops[o]? = some op)
      (may : op.mayPost w.ops cqe = true) : Effect w (.post o cqe) (w.posted o op cqe)
  | drained (o : Nat) (c : Completion) (queue : List (Option Nat × Completion))
      (head : w.queue = (some o, c) :: queue) : Effect w .drain (w.drained o c queue)
  | skipped : Effect w .skip { w with queue := w.queue.tail }

theorem step_effect (w : BufWorld) (e : BufEvent) : Effect w e (w.step e) := by
  cases e with
  | submit token kind isAccepted =>
    rw [step, submit]
    split
    · next h =>
      rw [Bool.and_eq_true] at h
      split
      · next key slab halloc =>
        cases isAccepted with
        | true => exact .submitted token kind key slab h.1 halloc
        | false => exact .bounced token kind key slab halloc
      · exact .ignored _
    · exact .ignored _
  | harvest f =>
    rw [step, harvest]
    split
    · next fut hf =>
      split
      · next hlive => exact .harvested f fut hf hlive
      · exact .ignored _
    · exact .ignored _
  | drop f =>
    rw [step, drop]
    split
    · next fut hf =>
      split
      · next hlive => exact .dropped f fut hf hlive
      · exact .ignored _
    · exact .ignored _
  | drainCancel isAccepted =>
    rw [step, drainCancel]
    split
    · next key inbox hpop =>
      obtain ⟨keys, hkeys, rfl⟩ := CancelInbox.pop_eq_some hpop
      exact .cancelled isAccepted key keys hkeys
    · exact .ignored _
  | post o cqe =>
    rw [step, post]
    split
    · next op hop =>
      split
      · next hmay => exact .posted o op cqe hop hmay
      · exact .ignored _
    · exact .ignored _
  | drain =>
    rw [step, drain]
    split
    · next o c queue hqueue => exact .drained o c queue hqueue
    · exact .ignored _
  | skip => exact .skipped

structure Ledger (w : BufWorld) : Prop where
  queue : QueueSound w.ops w.queue
  slots : SlotsSound w.shard.id w.shard.inflight w.requests
  unmarked : w.shard.Unmarked
  rows : Rows w.futures w.ops w.shard.inflight
  owned : ∀ o op, w.ops[o]? = some op →
    (∃ (f : Nat) (fut : BufFuture), w.futures[f]? = some fut ∧ fut.op = o) ∨
      ∃ (f : Nat) (fut : BufFuture), w.futures[f]? = some fut ∧ fut.holder = .cancelled ∧
        op.toRequest = .ofCancel fut.key
  inbox : ∀ key ∈ w.shard.cancelInbox.keys, ∃ (f : Nat) (fut : BufFuture),
    w.futures[f]? = some fut ∧ fut.key = key ∧ fut.holder = .dropped
  once : w.shard.cancelInbox.keys.Nodup
  distinct : w.shard.inflight.Distinct

/-- A slot is kept until its operation's last completion was handled. -/
def Keeps (w : BufWorld) : Prop :=
  ∀ (f : Nat) fut op, w.futures[f]? = some fut →
    w.ops[fut.op]? = some op → w.shard.inflight.held fut.key = none → op.isFinalDrained = true

theorem requests_start (ops : List KernelOp) (r : Request) :
    (ops ++ [KernelOp.start r]).map (·.toRequest) = ops.map (·.toRequest) ++ [r] := by
  rw [List.map_append]
  rfl

namespace Ledger

variable {w : BufWorld}

variable {f o : Nat} {fut : BufFuture} {key : InflightSlotKey} {slab : InflightBufSlab}
  {op : KernelOp} {c : Completion} {queue : List (Option Nat × Completion)}

variable (h : w.Ledger)

include h

theorem row (hf : w.futures[f]? = some fut) (hop : w.ops[fut.op]? = some op) :
    fut.Row f op (w.shard.inflight.held fut.key) := by
  obtain ⟨a, ha, hrow⟩ := h.rows f fut hf
  cases hop.symm.trans ha
  exact hrow

theorem key_inj {g : Nat} {fut' : BufFuture} (hf : w.futures[f]? = some fut)
    (hg : w.futures[g]? = some fut') (heq : fut.key = fut'.key) : f = g := by
  obtain ⟨op, hop, hrow⟩ := h.rows f fut hf
  obtain ⟨op', hop', hrow'⟩ := h.rows g fut' hg
  have hindex : fut.op = fut'.op := h.slots.unique _ _ _ _ fut.key (map_row hop) (map_row hop')
    hrow.key (heq ▸ hrow'.key)
  exact h.rows.index_inj hf hg hindex

theorem map_cancel (hf : w.futures[f]? = some fut) :
    w.futures.map (·.cancel fut.key) = w.futures.set f { fut with holder := .cancelled } := by
  apply List.ext_getElem?
  intro g
  rw [List.getElem?_map]
  by_cases hg : g = f
  · subst hg
    rw [hf, List.getElem?_set_self (lt_of_row hf)]
    simp [BufFuture.cancel]
  · rw [List.getElem?_set_ne (Ne.symm hg)]
    cases hother : w.futures[g]? with
    | none => rfl
    | some other =>
      have hne : other.key ≠ fut.key := fun heq => hg (h.key_inj hother hf heq)
      simp [BufFuture.cancel, hne]

omit h in
theorem init (id cap : Nat) : (BufWorld.init id cap).Ledger where
  queue := ⟨fun o op h => by simp [BufWorld.init] at h, fun o c h => by simp [BufWorld.init] at h,
    fun c h => by simp [BufWorld.init] at h, List.Pairwise.nil⟩
  slots := (IoWorld.init_sound id cap).slots
  unmarked := ⟨rfl, rfl, rfl⟩
  rows := fun f fut h => by simp [BufWorld.init] at h
  owned := fun o op h => by simp [BufWorld.init] at h
  inbox := fun key h => by simp [BufWorld.init, IoWorld.init] at h
  once := List.nodup_nil
  distinct := fun i j slot other hslot _ hocc => by
    simp only [BufWorld.init, IoWorld.init, InflightBufSlab.new, List.getElem?_replicate,
      Option.ite_none_right_eq_some, Option.some.injEq] at hslot
    obtain ⟨_, rfl⟩ := hslot
    cases hocc

theorem submitted {token : UInt64} {kind : FutureKind} (htask : isTaskToken token = true)
    (halloc : w.shard.inflight.allocate token = some (key, slab))
    (horderly : w.Orderly (.submit token kind true)) : (w.submitted token kind key slab).Ledger := by
  have hkeyToken : key.opToken = token := by
    obtain ⟨slot, _, _, hkey, _⟩ := InflightBufSlab.allocate_spec halloc
    rw [hkey]
  have hslots : SlotsSound w.shard.id slab ((w.ops ++ [KernelOp.start (.ofSubmission
      w.futures.length kind ⟨token, decide (kind = .sendZc), some key⟩)]).map (·.toRequest)) := by
    rw [requests_start]
    exact h.slots.allocate halloc rfl rfl
  have hheld : ∀ (p : Nat) a k, w.ops[p]? = some a →
      a.key = some k → slab.held k = w.shard.inflight.held k := fun p a k ha hk =>
    h.slots.held_allocate halloc (map_row ha) hk
  refine ⟨h.queue.start _, hslots, h.unmarked.slab slab, ?_, ?_, ?_, h.once, ?_⟩
  · intro f fut hf
    rcases concat_eq_some.mp hf with hf | ⟨rfl, rfl⟩
    · obtain ⟨op, hop, hrow⟩ := h.rows f fut hf
      refine ⟨op, append_of_row hop _, ?_⟩
      change fut.Row f op (slab.held fut.key)
      rw [hheld _ op fut.key hop hrow.key]
      exact hrow
    · obtain ⟨slot, hslot, hret, hexp, hready⟩ := h.slots.held_allocated halloc
      refine ⟨_, concat_eq_some.mpr (.inr ⟨rfl, rfl⟩), rfl, hkeyToken.symm, hkeyToken ▸ htask,
        ⟨kind, rfl⟩, ?_, ?_, ?_, ?_, ?_⟩
      · rintro other hother
        cases hslot.symm.trans hother
        exact hret
      · rintro other hother
        cases hslot.symm.trans hother
        exact hexp
      · rintro other hother
        cases hslot.symm.trans hother
        exact hready
      · intro hholder
        cases hholder
      · intro hnone
        cases hslot.symm.trans hnone
  · intro o op hop
    rcases concat_eq_some.mp hop with hop | ⟨rfl, rfl⟩
    · rcases h.owned o op hop with ⟨f, fut, hf, heq⟩ | ⟨f, fut, hf, hholder, heq⟩
      · exact .inl ⟨f, fut, append_of_row hf _, heq⟩
      · exact .inr ⟨f, fut, append_of_row hf _, hholder, heq⟩
    · exact .inl ⟨w.futures.length, _, concat_eq_some.mpr (.inr ⟨rfl, rfl⟩), rfl⟩
  · intro k hk
    obtain ⟨f, fut, hf, hkey, hholder⟩ := h.inbox k hk
    exact ⟨f, fut, append_of_row hf _, hkey, hholder⟩
  · obtain ⟨slot, hslot, _, _, rfl⟩ := InflightBufSlab.allocate_spec halloc
    exact h.distinct.modify hslot fun _ => .inr horderly

theorem bounced {token : UInt64} (halloc : w.shard.inflight.allocate token = some (key, slab)) :
    Ledger (w.setSlab (slab.free key)) := by
  have hheld : ∀ k, (slab.free key).held k = w.shard.inflight.held k := fun k =>
    SlotsSound.held_bounced halloc
  refine ⟨h.queue, h.slots.returned (.inr ⟨key, slab, halloc, rfl⟩), h.unmarked.slab _, ?_,
    h.owned, h.inbox, h.once, ?_⟩
  · intro f fut hf
    obtain ⟨op, hop, hrow⟩ := h.rows f fut hf
    refine ⟨op, hop, ?_⟩
    change fut.Row f op ((slab.free key).held fut.key)
    rw [hheld]
    exact hrow
  · obtain ⟨slot, hslot, _⟩ := InflightBufSlab.allocate_spec halloc
    change (slab.free key).Distinct
    rw [InflightBufSlab.free_allocate halloc]
    exact h.distinct.modify hslot nofun

section

variable (hf : w.futures[f]? = some fut)

include hf

theorem held_of_moved {view : Option InflightSlot} (hmove : w.shard.inflight.Move fut.key slab view)
    {p : Nat} {b : KernelOp} {k : InflightSlotKey} (hb : w.ops[p]? = some b) (hk : b.key = some k)
    (hkept : slab.held k ≠ none) :
    w.shard.inflight.held k ≠ none := by
  obtain ⟨op, hop, hrow⟩ := h.rows f fut hf
  by_cases hp : fut.op = p
  · subst hp
    cases hop.symm.trans hb
    cases hrow.key.symm.trans hk
    rw [hmove.own] at hkept
    exact hmove.held_ne_none hkept
  · rwa [h.slots.held_move hmove (map_row hop) hrow.key (map_row hb) hk hp] at hkept

theorem moved {holder : Holder} {view : Option InflightSlot} (hop : w.ops[fut.op]? = some op)
    (hmove : w.shard.inflight.Move fut.key slab view)
    (hrow : BufFuture.Row { fut with holder } f op view) :
    SlotsSound w.shard.id slab w.requests ∧
      Rows (w.futures.set f { fut with holder }) w.ops slab ∧ slab.Distinct :=
  ⟨h.slots.move hmove,
    h.rows.move h.slots hf hmove (fun _ _ _ _ ha => ha) hop rfl rfl hrow, h.distinct.move hmove⟩

theorem inbox_set {fut' : BufFuture} (hkey : key ∈ w.shard.cancelInbox.keys)
    (hne : fut.holder ≠ .dropped) :
    ∃ (g : Nat) (other : BufFuture), (w.futures.set f fut')[g]? = some other ∧ other.key = key ∧
      other.holder = .dropped := by
  obtain ⟨g, other, hg, hkey, hholder⟩ := h.inbox key hkey
  refine ⟨g, other, set_eq_some.mpr (.inl ⟨?_, hg⟩), hkey, hholder⟩
  rintro rfl
  cases hf.symm.trans hg
  exact hne hholder

theorem owned_set {holder : Holder} (hholder : fut.holder = .cancelled → holder = .cancelled)
    (hop : w.ops[o]? = some op) :
    (∃ (g : Nat) (other : BufFuture),
        (w.futures.set f { fut with holder })[g]? = some other ∧ other.op = o) ∨
      ∃ (g : Nat) (other : BufFuture), (w.futures.set f { fut with holder })[g]? = some other ∧
        other.holder = .cancelled ∧ op.toRequest = .ofCancel other.key := by
  have hset : (w.futures.set f { fut with holder })[f]? = some { fut with holder } :=
    set_eq_some.mpr (.inr ⟨rfl, lt_of_row hf, rfl⟩)
  rcases h.owned o op hop with ⟨g, other, hg, heq⟩ | ⟨g, other, hg, hcancelled, heq⟩
  · by_cases hgf : g = f
    · subst hgf
      cases hf.symm.trans hg
      exact .inl ⟨g, _, hset, heq⟩
    · exact .inl ⟨g, other, set_eq_some.mpr (.inl ⟨hgf, hg⟩), heq⟩
  · by_cases hgf : g = f
    · subst hgf
      cases hf.symm.trans hg
      exact .inr ⟨g, _, hset, hholder hcancelled, heq⟩
    · exact .inr ⟨g, other, set_eq_some.mpr (.inl ⟨hgf, hg⟩), hcancelled, heq⟩

theorem harvested (hlive : fut.holder = .live) : (w.harvested f fut).Ledger := by
  obtain ⟨op, hop, hrow⟩ := h.rows f fut hf
  have hmove := h.slots.free_move (map_row hop) hrow.key
  have hrow' : BufFuture.Row { fut with holder := .harvested } f op none :=
    ⟨hrow.key, hrow.token, hrow.task, hrow.role, nofun, nofun, nofun, fun _ => rfl,
      fun _ => .inl rfl⟩
  obtain ⟨hslots, hrows, hdistinct⟩ := h.moved hf hop hmove hrow'
  refine ⟨h.queue, hslots, h.unmarked.slab _, hrows, ?_, ?_, h.once, hdistinct⟩
  · intro o op hop
    exact h.owned_set hf (by simp [hlive]) hop
  · intro key hkey
    exact h.inbox_set hf hkey (by simp [hlive])

theorem dropped (hlive : fut.holder = .live) : (w.dropped f fut).Ledger := by
  obtain ⟨op, hop, hrow⟩ := h.rows f fut hf
  have hrow' : BufFuture.Row { fut with holder := .dropped } f op
      (w.shard.inflight.held fut.key) := by
    refine ⟨hrow.key, hrow.token, hrow.task, hrow.role, ?_, hrow.expected, hrow.ready, nofun, ?_⟩
    · intro slot hslot
      simpa [hlive] using hrow.retire slot hslot
    · intro hnone
      simpa [hlive] using hrow.freed hnone
  obtain ⟨hslots, hrows, hdistinct⟩ := h.moved hf hop .same hrow'
  refine ⟨h.queue, hslots, ⟨h.unmarked.accepts, h.unmarked.providedRecvs, h.unmarked.connects⟩,
    hrows, ?_, ?_, ?_, hdistinct⟩
  · intro o op hop
    exact h.owned_set hf (by simp [hlive]) hop
  · intro key hkey
    rcases CancelInbox.mem_pushCancel hkey with hkey | rfl
    · exact h.inbox_set hf hkey (by simp [hlive])
    · exact ⟨f, _, set_eq_some.mpr (.inr ⟨rfl, lt_of_row hf, rfl⟩), rfl, rfl⟩
  · refine CancelInbox.nodup_pushCancel h.once ?_
    intro hmem
    obtain ⟨g, other, hg, hkey, hholder⟩ := h.inbox fut.key hmem
    obtain rfl := h.key_inj hg hf hkey
    cases hf.symm.trans hg
    rw [hlive] at hholder
    cases hholder

end

theorem posted {cqe : Cqe} (hop : w.ops[o]? = some op)
    (hmay : op.mayPost w.ops cqe = true) : (w.posted o op cqe).Ledger := by
  have hslots : SlotsSound w.shard.id w.shard.inflight
      ((w.ops.set o (op.posted cqe)).map (·.toRequest)) := by
    have hrequests : (w.ops.set o (op.posted cqe)).map (·.toRequest) = w.requests :=
      map_set_of_row hop rfl
    rw [hrequests]
    exact h.slots
  refine ⟨h.queue.post hop hmay, hslots, h.unmarked, ?_, ?_, h.inbox, h.once, h.distinct⟩
  · intro f fut hf
    obtain ⟨a, ha, hrow⟩ := h.rows f fut hf
    by_cases hindex : fut.op = o
    · subst hindex
      cases hop.symm.trans ha
      refine ⟨_, set_eq_some.mpr (.inr ⟨rfl, lt_of_row hop, rfl⟩), ?_⟩
      exact hrow.posted (h.queue.coherent _ _ hop) hmay
    · exact ⟨a, set_eq_some.mpr (.inl ⟨hindex, ha⟩), hrow⟩
  · intro p a ha
    rcases set_eq_some.mp ha with ⟨_, ha⟩ | ⟨rfl, _, rfl⟩
    · exact h.owned p a ha
    · exact h.owned p op hop

theorem cancel_move {keys : List InflightSlotKey} (hpop : w.shard.cancelInbox.keys = key :: keys) :
    ∃ (f : Nat) (fut : BufFuture) (op : KernelOp) (inflight : InflightBufSlab),
      w.futures[f]? = some fut ∧ key = fut.key ∧ fut.holder = .dropped ∧
      w.ops[fut.op]? = some op ∧ fut.Row f op (w.shard.inflight.held fut.key) ∧
      { w.shard with cancelInbox := ⟨keys⟩ }.recordCancel key =
        { w.shard with cancelInbox := ⟨keys⟩, inflight } ∧
      w.shard.inflight.Move fut.key inflight ((w.shard.inflight.held fut.key).map .retire) := by
  obtain ⟨f, fut, hf, rfl, hdropped⟩ := h.inbox key (by simp [hpop])
  obtain ⟨op, hop, hrow⟩ := h.rows f fut hf
  have hslots : SlotsSound w.shard.id ({ w.shard with cancelInbox := ⟨keys⟩ } : IoShard).inflight
      w.requests := h.slots
  obtain ⟨inflight, hshard, hmove⟩ :=
    IoShard.recordCancel_owned hslots (map_row hop) hrow.key hrow.task
  exact ⟨f, fut, op, inflight, hf, rfl, hdropped, hop, hrow, hshard, hmove⟩

theorem cancelled {keys : List InflightSlotKey}
    (hpop : w.shard.cancelInbox.keys = key :: keys) : (w.cancelled true key ⟨keys⟩).Ledger := by
  obtain ⟨f, fut, op, inflight, hf, rfl, _, hop, hrow, hshard, hmove⟩ := h.cancel_move hpop
  have hrow' : BufFuture.Row { fut with holder := .cancelled } f op
      ((w.shard.inflight.held fut.key).map .retire) := by
    refine ⟨hrow.key, hrow.token, hrow.task, hrow.role, ?_, ?_, ?_, nofun, ?_⟩
    · intro slot hslot
      obtain ⟨old, _, rfl⟩ := Option.map_eq_some_iff.mp hslot
      rfl
    · intro slot hslot
      obtain ⟨old, hold, rfl⟩ := Option.map_eq_some_iff.mp hslot
      exact hrow.expected old hold
    · intro slot hslot
      obtain ⟨old, hold, rfl⟩ := Option.map_eq_some_iff.mp hslot
      exact hrow.ready old hold
    · exact fun _ => .inr rfl
  obtain ⟨hslots, hrows, hdistinct⟩ := h.moved hf hop hmove hrow'
  have hnodup : (fut.key :: keys).Nodup := hpop ▸ h.once
  rw [BufWorld.cancelled, hshard, h.map_cancel hf]
  have hslots' : SlotsSound w.shard.id inflight
      ((w.ops ++ [KernelOp.start (.ofCancel fut.key)]).map (·.toRequest)) := by
    rw [requests_start]
    exact hslots.append rfl
  refine ⟨h.queue.start _, hslots',
    ⟨h.unmarked.accepts, h.unmarked.providedRecvs, h.unmarked.connects⟩, ?_, ?_, ?_,
    (List.nodup_cons.mp hnodup).2, hdistinct⟩
  · intro g other hg
    obtain ⟨a, ha, hrow⟩ := hrows g other hg
    exact ⟨a, append_of_row ha _, hrow⟩
  · intro o a ha
    rcases concat_eq_some.mp ha with ha | ⟨rfl, rfl⟩
    · exact h.owned_set hf (fun _ => rfl) ha
    · exact .inr ⟨f, _, set_eq_some.mpr (.inr ⟨rfl, lt_of_row hf, rfl⟩), rfl, rfl⟩
  · intro key hkey
    obtain ⟨g, other, hg, hother, hholder⟩ := h.inbox key (by simp [hpop, hkey])
    refine ⟨g, other, set_eq_some.mpr (.inl ⟨?_, hg⟩), hother, hholder⟩
    rintro rfl
    cases hf.symm.trans hg
    exact (List.nodup_cons.mp hnodup).1 (hother ▸ hkey)

theorem head_cases (hhead : w.queue = (some o, c) :: queue) :
    ∃ op, w.ops[o]? = some op ∧ op.Queued c ∧
      ((∃ (f : Nat) (fut : BufFuture), w.futures[f]? = some fut ∧ fut.op = o ∧
          fut.Row f op (w.shard.inflight.held fut.key)) ∨
        ∃ (f : Nat) (fut : BufFuture), w.futures[f]? = some fut ∧ fut.holder = .cancelled ∧
          op.toRequest = .ofCancel fut.key) := by
  obtain ⟨op, hop, hqueued⟩ := h.queue.queued o c (by simp [hhead])
  refine ⟨op, hop, hqueued, ?_⟩
  rcases h.owned o op hop with ⟨f, fut, hf, rfl⟩ | hcancel
  · exact .inl ⟨f, fut, hf, rfl, h.row hf hop⟩
  · exact .inr hcancel

theorem cancelled_of (hop : w.ops[o]? = some op) (hcancel : op.toRequest = .ofCancel key) :
    ∃ (f : Nat) (fut : BufFuture), w.futures[f]? = some fut ∧ fut.holder = .cancelled ∧
      key = fut.key := by
  rcases h.owned o op hop with ⟨f, fut, hf, rfl⟩ | ⟨f, fut, hf, hholder, heq⟩
  · exact absurd hcancel (h.row hf hop).not_cancel
  · have hrole : OpRole.cancel key = .cancel fut.key :=
      congrArg Request.role (hcancel.symm.trans heq)
    injection hrole with hkey
    exact ⟨f, fut, hf, hholder, hkey⟩

theorem drain_move (hhead : w.queue = (some o, c) :: queue) (hkeeps : w.Keeps)
    (hrecent : w.Orderly .drain) :
    ∃ (op : KernelOp) (f : Nat) (fut : BufFuture) (inflight : InflightBufSlab)
      (tasks : UInt64 → Option TaskHeader) (view : Option InflightSlot),
      w.ops[o]? = some op ∧ op.Queued c ∧ w.futures[f]? = some fut ∧
      (w.shard.completeOne c).2 = { w.shard with inflight, tasks } ∧
      w.shard.inflight.Move fut.key inflight view ∧
      (fut.op = o ∧ view = IoShard.drainView c (w.shard.inflight.held fut.key) ∨
        fut.holder = .cancelled ∧ op.toRequest = .ofCancel fut.key ∧
          view = IoShard.cancelView c.result (w.shard.inflight.held fut.key)) := by
  obtain ⟨op, hop, hqueued, ⟨f, fut, hf, rfl, hrow⟩ | ⟨f, fut, hf, hholder, hcancel⟩⟩ :=
    h.head_cases hhead
  · have htoken : c.token = fut.key.opToken := hqueued.token.trans hrow.token
    have hheld : w.shard.inflight.held fut.key ≠ none := by
      intro hnone
      have hfinal := hkeeps f fut op hf hop hnone
      rw [hqueued.undrained] at hfinal
      cases hfinal
    have hsole := h.distinct.sole hheld
    obtain ⟨inflight, tasks, heq, hmove⟩ :=
      IoShard.completeOne_owned h.unmarked (htoken ▸ hrow.task) htoken hsole
    exact ⟨op, f, fut, inflight, tasks, _, hop, hqueued, hf, heq, hmove, .inl ⟨rfl, rfl⟩⟩
  · obtain ⟨target, htarget, hrow⟩ := h.rows f fut hf
    have hrole : op.role = .cancel fut.key := congrArg Request.role hcancel
    have htoken : c.token = encodeCancelSentinel fut.key :=
      hqueued.token.trans (congrArg (fun r : Request => r.userData) hcancel)
    have hn : c.isNotif = false := by
      cases hn : c.isNotif with
      | false => rfl
      | true =>
        have hzero : op.zeroCopy = false := congrArg (fun r : Request => r.zeroCopy) hcancel
        have := (h.queue.coherent o op hop).zeroCopy (.inr (hqueued.notif hn).1)
        rw [hzero] at this
        cases this
    have hfew := hrecent op (List.mem_of_getElem? hop) hqueued.undrained
    simp only [KernelOp.IsRecent, hrole] at hfew
    obtain ⟨inflight, heq, hmove⟩ :=
      IoShard.completeOne_cancelled h.slots (map_row htarget) hrow.key hn htoken hfew
    exact ⟨op, f, fut, inflight, w.shard.tasks, _, hop, hqueued, hf, heq, hmove,
      .inr ⟨hholder, hcancel, rfl⟩⟩

theorem drained (hhead : w.queue = (some o, c) :: queue) (hkeeps : w.Keeps)
    (hrecent : w.Orderly .drain) : (w.drained o c queue).Ledger := by
  obtain ⟨op, f, fut, inflight, tasks, view, hop, hqueued, hf, hshard, hmove, hwhich⟩ :=
    h.drain_move hhead hkeeps hrecent
  obtain ⟨target, htarget, hrow⟩ := h.rows f fut hf
  rw [BufWorld.drained, hshard]
  have hqueue : QueueSound (w.ops.modify o (·.drained c)) queue :=
    (hhead ▸ h.queue : QueueSound w.ops ((some o, c) :: queue)).drain hop
  have hslots : SlotsSound w.shard.id inflight
      ((w.ops.modify o (·.drained c)).map (·.toRequest)) := by
    have hrequests : (w.ops.modify o (·.drained c)).map (·.toRequest) = w.requests :=
      map_modify_of_eq fun _ => rfl
    rw [hrequests]
    exact h.slots.move hmove
  have hset : w.futures = w.futures.set f fut := by
    obtain ⟨hlt, rfl⟩ := List.getElem?_eq_some_iff.mp hf
    simp
  have hrows : Rows w.futures (w.ops.modify o (·.drained c)) inflight := by
    rw [hset]
    rcases hwhich with ⟨rfl, rfl⟩ | ⟨hholder, hcancel, rfl⟩
    · cases hop.symm.trans htarget
      refine h.rows.move h.slots hf hmove ?_ ?_ rfl rfl (hrow.drained hqueued)
      · intro p a hne _ ha
        exact modify_eq_some.mpr (.inl ⟨hne, ha⟩)
      · exact modify_eq_some.mpr (.inr ⟨rfl, op, hop, rfl⟩)
    · have hother : ∀ (p : Nat) a, a.key.isSome = true → w.ops[p]? = some a →
          (w.ops.modify o (·.drained c))[p]? = some a := by
        intro p a hsome ha
        refine modify_eq_some.mpr (.inl ⟨?_, ha⟩)
        rintro rfl
        cases hop.symm.trans ha
        simp [show op.key = none from congrArg (fun r : Request => r.key) hcancel] at hsome
      refine h.rows.move h.slots hf hmove (fun p a _ => hother p a)
        (hother fut.op target (by simp [hrow.key]) htarget) rfl rfl hrow.answered
  refine ⟨hqueue, hslots, ⟨h.unmarked.accepts, h.unmarked.providedRecvs, h.unmarked.connects⟩,
    hrows, ?_, h.inbox, h.once, h.distinct.move hmove⟩
  intro p b hb
  rcases modify_eq_some.mp hb with ⟨_, hb⟩ | ⟨rfl, a, ha, rfl⟩
  · exact h.owned p b hb
  · exact h.owned p a ha

theorem step {e : BufEvent} (hkeeps : w.Keeps) (horderly : w.Orderly e) : (w.step e).Ledger := by
  have heffect := step_effect w e
  generalize w.step e = w' at heffect
  cases heffect with
  | ignored => exact h
  | submitted token kind key slab task allocated => exact h.submitted task allocated horderly
  | bounced token kind key slab allocated => exact h.bounced allocated
  | harvested f fut found live => exact h.harvested found live
  | dropped f fut found live => exact h.dropped found live
  | cancelled isAccepted key keys popped =>
    obtain rfl : isAccepted = true := horderly
    exact h.cancelled popped
  | posted o op cqe found may => exact h.posted found may
  | drained o c queue head => exact h.drained head hkeeps horderly
  | skipped => exact absurd horderly id

end Ledger

end BufWorld

end Kwokka
