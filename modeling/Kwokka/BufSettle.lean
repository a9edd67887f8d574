import Kwokka.BufSound

/-! Runs in which cancels reach the ring and completions are drained in the order
of their posting: a slot is kept until the last completion of its operation was
handled, and a slot that is still kept then waits for an answer that frees it. -/

namespace Kwokka

open Table Runs KernelOp

namespace IoShard

variable {c : Completion} {view : Option InflightSlot} {result : Int}

theorem drainView_eq_none (h : drainView c view = none) :
    view = none ∨ c.isNotif = true ∨ c.hasMore = false := by
  unfold drainView at h
  split at h
  · next hn => exact .inr (.inl hn)
  · split at h
    · exact .inl (Option.map_eq_none_iff.mp h)
    · next hm => exact .inr (.inr (by simpa using hm))

theorem drainView_retired (hm : c.hasMore = false)
    (h : ∀ slot, view = some slot → slot.retirePending = true) : drainView c view = none := by
  have hfilter : (view.filter fun slot => !slot.retirePending) = none := by
    cases hview : view with
    | none => rfl
    | some slot => simp [h slot hview]
  simp [drainView, hm, hfilter]

theorem cancelView_eq_none (h : cancelView result view = none) :
    view = none ∨ result = -2 ∧ ∃ slot, view = some slot ∧ slot.isReclaimable = true := by
  unfold cancelView at h
  split at h
  · next hgone =>
    cases hview : view with
    | none => exact .inl rfl
    | some slot => exact .inr ⟨hgone, slot, rfl, by simpa [hview] using h⟩
  · exact .inl h

end IoShard

theorem BufFuture.Row.reclaimable {fut : BufFuture} {f : Nat} {op : KernelOp}
    {view : Option InflightSlot} {slot : InflightSlot} (h : fut.Row f op view)
    (hcoherent : op.Coherent) (hslot : view = some slot) (hholder : fut.holder = .cancelled)
    (hfinal : op.isFinalDrained = true) : slot.isReclaimable = true := by
  have hstage := hcoherent.final hfinal
  rw [InflightSlot.isReclaimable, h.retire slot hslot, h.expected slot hslot, h.ready slot hslot,
    hholder, hfinal]
  cases hs : op.stage with
  | notified => simp
  | posted => simp [hasNotif, hs]
  | _ => simp [hs, Stage.isFinal] at hstage

namespace BufWorld

structure Settling (w : BufWorld) : Prop where
  drained : w.Keeps
  posted : ∀ (o : Nat) op, w.ops[o]? = some op → op.stage = .posted →
    op.isResultDrained = true → op.isFinalDrained = true
  result : ∀ o op, w.ops[o]? = some op → op.stage ≠ .running →
    op.isResultDrained = true ∨ ∃ d, (some o, d) ∈ w.queue ∧ d.isNotif = false
  order : ∀ (i o p : Nat) c op target key,
    w.queue[i]? = some (some o, c) → w.ops[o]? = some op → op.toRequest = .ofCancel key →
    c.result = -2 → w.ops[p]? = some target → target.key = some key →
    target.isResultDrained = true ∨
      ∃ j d, j < i ∧ w.queue[j]? = some (some p, d) ∧ d.isNotif = false
  bound : ∀ o ∈ w.misses, o < w.ops.length
  miss : ∀ o c, (some o, c) ∈ w.queue → o ∈ w.misses → c.result = -2
  answer : ∀ (f o : Nat) fut op cancel, w.futures[f]? = some fut →
    w.ops[fut.op]? = some op → w.ops[o]? = some cancel → cancel.toRequest = .ofCancel fut.key →
    w.shard.inflight.held fut.key ≠ none → op.isFinalDrained = true →
    cancel.isFinalDrained = false ∧ o ∈ w.misses

namespace Settling

variable {w : BufWorld} {e : BufEvent}

theorem init (id cap : Nat) : (BufWorld.init id cap).Settling where
  drained := fun f fut op hf => by simp [BufWorld.init] at hf
  posted := fun o op hop => by simp [BufWorld.init] at hop
  result := fun o op hop => by simp [BufWorld.init] at hop
  order := fun i o p c op target key hi => by simp [BufWorld.init] at hi
  bound := fun o ho => by simp [BufWorld.init] at ho
  miss := fun o c hmem => by simp [BufWorld.init] at hmem
  answer := fun f o fut op cancel hf => by simp [BufWorld.init] at hf

variable {o f : Nat} {op : KernelOp} {fut : BufFuture} {key : InflightSlotKey}

variable (h : w.Settling)

include h

theorem isFinalDrained_of_reclaimable (hledger : w.Ledger) {c : Completion}
    {queue : List (Option Nat × Completion)} {target : KernelOp} {slot : InflightSlot}
    (hhead : w.queue = (some o, c) :: queue) (hop : w.ops[o]? = some op)
    (hcancel : op.toRequest = .ofCancel fut.key) (hgone : c.result = -2)
    (hf : w.futures[f]? = some fut) (htarget : w.ops[fut.op]? = some target)
    (hheld : w.shard.inflight.held fut.key = some slot) (hrec : slot.isReclaimable = true) :
    target.isFinalDrained = true := by
  have hrow := hledger.row hf htarget
  have hresult : target.isResultDrained = true := by
    rcases h.order 0 o fut.op c op target fut.key (by simp [hhead]) hop hcancel hgone htarget
      hrow.key with hdrained | ⟨j, _, hj, _⟩
    · exact hdrained
    · omega
  have hcoherent := hledger.queue.coherent _ target htarget
  rw [InflightSlot.isReclaimable, Bool.and_eq_true, Bool.or_eq_true, Bool.not_eq_true'] at hrec
  rcases hrec.2 with hunexpected | hready
  · rw [hrow.expected slot hheld, hresult, Bool.true_and] at hunexpected
    have hstage : target.stage = .posted := by
      have hnotif := of_decide_eq_false hunexpected
      cases hs : target.stage with
      | running =>
        rw [(hcoherent.running hs).1] at hresult
        cases hresult
      | awaitingNotif => exact absurd (.inl hs) hnotif
      | notified => exact absurd (.inr hs) hnotif
      | posted => rfl
    exact h.posted _ target htarget hstage hresult
  · rw [hrow.ready slot hheld, Bool.and_eq_true] at hready
    exact hready.1

/-- A request that joins the ring has posted nothing. -/
theorem start (hledger : w.Ledger) {r : Request} {misses : List Nat}
    (hfresh : ∀ (p : Nat) a k, w.ops[p]? = some a →
      r.key = some k → a.toRequest ≠ .ofCancel k)
    (hmisses : ∀ o, o ∈ misses → o ∈ w.misses ∨ o = w.ops.length)
    (hkeep : ∀ o ∈ w.misses, o ∈ misses)
    (hmissed : ∀ (f : Nat) fut op, w.futures[f]? = some fut →
      w.ops[fut.op]? = some op → r = .ofCancel fut.key → w.shard.inflight.held fut.key ≠ none →
      op.isFinalDrained = true → w.ops.length ∈ misses) :
    Settling { w with ops := w.ops ++ [.start r], misses } := by
  have hold : ∀ (f : Nat) fut op, w.futures[f]? = some fut →
      (w.ops ++ [.start r])[fut.op]? = some op → w.ops[fut.op]? = some op := by
    intro f fut op hf hop
    obtain ⟨a, ha, _⟩ := hledger.rows f fut hf
    rwa [append_of_row ha, ← ha] at hop
  refine ⟨?_, ?_, ?_, ?_, ?_, ?_, ?_⟩
  · intro f fut op hf hop hnone
    exact h.drained f fut op hf (hold f fut op hf hop) hnone
  · intro o op hop hstage hresult
    rcases concat_eq_some.mp hop with hop | ⟨_, rfl⟩
    · exact h.posted o op hop hstage hresult
    · cases hstage
  · intro o op hop hstage
    rcases concat_eq_some.mp hop with hop | ⟨_, rfl⟩
    · exact h.result o op hop hstage
    · exact absurd rfl hstage
  · intro i o p c op target k hi hop hcancel hgone htarget hk
    obtain ⟨a, ha, _⟩ := hledger.queue.queued o c (List.mem_of_getElem? hi)
    obtain rfl := Option.some.inj ((append_of_row ha _).symm.trans hop)
    rcases concat_eq_some.mp htarget with htarget | ⟨_, rfl⟩
    · exact h.order i o p c a target k hi ha hcancel hgone htarget hk
    · exact absurd hcancel (hfresh o a k ha hk)
  · intro o ho
    rw [List.length_append, List.length_singleton]
    rcases hmisses o ho with ho | rfl
    · exact Nat.lt_succ_of_lt (h.bound o ho)
    · exact Nat.lt_succ_self _
  · intro o c hmem ho
    obtain ⟨a, ha, _⟩ := hledger.queue.queued o c hmem
    exact h.miss o c hmem ((hmisses o ho).resolve_right (Nat.ne_of_lt (lt_of_row ha)))
  · intro f o fut op cancel hf hop hcancelOp hcancel hkept hfinal
    have hop := hold f fut op hf hop
    rcases concat_eq_some.mp hcancelOp with hcancelOp | ⟨rfl, rfl⟩
    · exact (h.answer f o fut op cancel hf hop hcancelOp hcancel hkept hfinal).imp id (hkeep o)
    · exact ⟨rfl, hmissed f fut op hf hop hcancel hkept hfinal⟩

theorem submitted (hledger : w.Ledger) {token : UInt64} {kind : FutureKind} {slab : InflightBufSlab}
    (halloc : w.shard.inflight.allocate token = some (key, slab)) :
    (w.submitted token kind key slab).Settling := by
  -- the new key was never handed out, so no cancel names it
  have hfresh : ∀ (p : Nat) a, w.ops[p]? = some a → a.toRequest ≠ .ofCancel key := by
    intro p a ha hcancel
    obtain ⟨f, fut, hf, _, heq⟩ := hledger.cancelled_of ha hcancel
    obtain ⟨b, hb, hrow⟩ := hledger.rows f fut hf
    obtain ⟨slot, hslot, hfree, hkeyEq, _⟩ := InflightBufSlab.allocate_spec halloc
    have hlt := hledger.slots.key_ne_of_free (map_row hb) (heq ▸ hrow.key) hslot hfree
    rw [hkeyEq] at hlt
    exact Nat.lt_irrefl _ hlt
  have hheld : ∀ (f : Nat) fut, w.futures[f]? = some fut →
      slab.held fut.key = w.shard.inflight.held fut.key := by
    intro f fut hf
    obtain ⟨op, hop, hrow⟩ := hledger.rows f fut hf
    exact hledger.slots.held_allocate halloc (map_row hop) hrow.key
  have hnot : ∀ k, Request.ofSubmission w.futures.length kind
      ⟨token, decide (kind = .sendZc), some key⟩ ≠ .ofCancel k := by
    intro k heq
    cases congrArg (fun r : Request => r.key) heq
  have hstart := h.start hledger (r := .ofSubmission w.futures.length kind
      ⟨token, decide (kind = .sendZc), some key⟩) (fun p a k ha hk => Option.some.inj hk ▸ hfresh p a ha)
    (fun o => .inl) (fun o => id) (fun f fut op _ _ heq => absurd heq (hnot fut.key))
  refine ⟨?_, hstart.posted, hstart.result, hstart.order, hstart.bound, h.miss, ?_⟩
  · intro f fut op hf hop hnone
    rcases concat_eq_some.mp hf with hf | ⟨rfl, rfl⟩
    · exact hstart.drained f fut op hf hop ((hheld f fut hf).symm.trans hnone)
    · obtain ⟨slot, hslot, _⟩ := hledger.slots.held_allocated halloc
      cases hslot.symm.trans hnone
  · intro f o fut op cancel hf hop hcancelOp hcancel hkept hfinal
    rcases concat_eq_some.mp hf with hf | ⟨_, rfl⟩
    · refine hstart.answer f o fut op cancel hf hop hcancelOp hcancel ?_ hfinal
      exact (hheld f fut hf) ▸ hkept
    · rcases concat_eq_some.mp hcancelOp with hcancelOp | ⟨_, rfl⟩
      · exact absurd hcancel (hfresh o cancel hcancelOp)
      · exact absurd hcancel (hnot key)

theorem reheld {shard : IoShard} {futures : List BufFuture}
    (hback : ∀ (f : Nat) fut', futures[f]? = some fut' →
      ∃ fut, w.futures[f]? = some fut ∧ fut'.key = fut.key ∧ fut'.op = fut.op)
    (hkept : ∀ (f : Nat) fut, w.futures[f]? = some fut →
      shard.inflight.held fut.key ≠ none → w.shard.inflight.held fut.key ≠ none)
    (hfreed : ∀ (f : Nat) fut op, w.futures[f]? = some fut →
      w.ops[fut.op]? = some op → shard.inflight.held fut.key = none →
      w.shard.inflight.held fut.key ≠ none → op.isFinalDrained = true) :
    Settling { w with shard, futures } := by
  refine ⟨?_, h.posted, h.result, h.order, h.bound, h.miss, ?_⟩
  · intro f fut' op hf' hop hnone
    obtain ⟨fut, hf, hkey, hindex⟩ := hback f fut' hf'
    rw [hkey] at hnone
    rw [hindex] at hop
    by_cases hbefore : w.shard.inflight.held fut.key = none
    · exact h.drained f fut op hf hop hbefore
    · exact hfreed f fut op hf hop hnone hbefore
  · intro f o fut' op cancel hf' hop hcancelOp hcancel hkept' hfinal
    obtain ⟨fut, hf, hkey, hindex⟩ := hback f fut' hf'
    rw [hkey] at hcancel hkept'
    rw [hindex] at hop
    exact h.answer f o fut op cancel hf hop hcancelOp hcancel (hkept f fut hf hkept') hfinal

omit h in
theorem back_set {g : Nat} {fut' : BufFuture} {holder : Holder} (hf : w.futures[f]? = some fut)
    (hg : (w.futures.set f { fut with holder })[g]? = some fut') :
    ∃ old, w.futures[g]? = some old ∧ fut'.key = old.key ∧ fut'.op = old.op := by
  rcases set_eq_some.mp hg with ⟨_, hg⟩ | ⟨rfl, _, rfl⟩
  · exact ⟨fut', hg, rfl, rfl⟩
  · exact ⟨fut, hf, rfl, rfl⟩

theorem bounced {token : UInt64} {slab : InflightBufSlab}
    (halloc : w.shard.inflight.allocate token = some (key, slab)) :
    Settling (w.setSlab (slab.free key)) := by
  have hheld : ∀ k, (slab.free key).held k = w.shard.inflight.held k := fun k =>
    SlotsSound.held_bounced halloc
  refine h.reheld (fun f fut hf => ⟨fut, hf, rfl, rfl⟩) ?_ ?_
  · intro f fut _ hkept
    exact hheld fut.key ▸ hkept
  · intro f fut op _ _ hnone hkept
    exact absurd ((hheld fut.key).symm.trans hnone) hkept

theorem harvested (hledger : w.Ledger) (hf : w.futures[f]? = some fut)
    (horderly : w.Orderly (.harvest f)) : (w.harvested f fut).Settling := by
  obtain ⟨op, hop, hrow⟩ := hledger.rows f fut hf
  have hmove := hledger.slots.free_move (map_row hop) hrow.key
  refine h.reheld (fun g fut' hg => back_set hf hg) ?_ ?_
  · intro g other hg hkept
    obtain ⟨a, ha, hrow'⟩ := hledger.rows g other hg
    exact hledger.held_of_moved hf hmove ha hrow'.key hkept
  · intro g other a hg ha hnone hkept
    by_cases hgf : g = f
    · subst hgf
      cases hf.symm.trans hg
      exact horderly fut hf a ha
    · have hsame := hledger.rows.held_other hledger.slots hf hmove hg hgf
      exact absurd (hsame.symm.trans hnone) hkept

theorem dropped (hf : w.futures[f]? = some fut) : (w.dropped f fut).Settling :=
  h.reheld (fun _ _ hg => back_set hf hg) (fun _ _ _ => id)
    fun _ _ _ _ _ hnone hkept => absurd hnone hkept

theorem isTargetGone (hledger : w.Ledger) (hf : w.futures[f]? = some fut)
    (hop : w.ops[fut.op]? = some op) (hheld : w.shard.inflight.held fut.key ≠ none)
    (hfinal : op.isFinalDrained = true) : KernelOp.isTargetGone w.ops fut.key.opToken = true := by
  rw [KernelOp.isTargetGone, List.all_eq_true]
  intro a ha
  obtain ⟨p, ha⟩ := List.getElem?_of_mem ha
  rw [Bool.or_eq_true, bne_iff_ne, bne_iff_ne]
  by_contra hrunning
  obtain ⟨htoken, hstage⟩ : a.userData = fut.key.opToken ∧ a.stage = .running := by
    simpa [not_or] using hrunning
  have hrow := hledger.row hf hop
  have hundrained := ((hledger.queue.coherent p a ha).running hstage).2
  rcases hledger.owned p a ha with ⟨g, other, hg, rfl⟩ | ⟨g, other, hg, _, hcancel⟩
  · -- the other request would hold the same slot, and so be the same
    have hrow' := hledger.row hg ha
    have hheld' : w.shard.inflight.held other.key ≠ none := by
      intro hnone
      rw [h.drained g other a hg ha hnone] at hundrained
      cases hundrained
    obtain ⟨slot, hslot⟩ := Option.ne_none_iff_exists'.mp hheld'
    obtain ⟨hslot, hholds'⟩ := InflightBufSlab.held_eq_some.mp hslot
    obtain ⟨hindex, hholds⟩ := hledger.distinct.sole hheld _ slot hslot hholds'.occupied
      (hholds'.opToken.trans (hrow'.token.symm.trans htoken))
    have hsame := hledger.slots.holds_unique (map_row ha) (map_row hop) hrow'.key hrow.key hindex
      hholds' hholds
    rw [hsame] at ha
    cases hop.symm.trans ha
    rw [hundrained] at hfinal
    cases hfinal
  · -- a cancel's own token is no task token
    have huser : a.userData = encodeCancelSentinel other.key :=
      congrArg (fun r : Request => r.userData) hcancel
    obtain ⟨b, hb, hrow'⟩ := hledger.rows g other hg
    have hslot := hledger.slots.slot_lt (map_row hb) hrow'.key
    have hsentinel : isCancelSentinel (encodeCancelSentinel other.key) = true :=
      isCancelSentinel_encode (by omega) (by omega)
    obtain ⟨_, _, _, hnot, _⟩ := isTaskToken.unmarked hrow.task
    rw [← huser, htoken, hnot] at hsentinel
    cases hsentinel

theorem cancelled (hledger : w.Ledger) {keys : List InflightSlotKey}
    (hpop : w.shard.cancelInbox.keys = key :: keys) : (w.cancelled true key ⟨keys⟩).Settling := by
  obtain ⟨f, fut, op, inflight, hf, rfl, _, hop, hrow, hshard, hmove⟩ := hledger.cancel_move hpop
  simp only [BufWorld.cancelled, if_true, Bool.true_and, hshard, hledger.map_cancel hf]
  have hheld : ∀ (g : Nat) other, w.futures[g]? = some other →
      (inflight.held other.key = none ↔ w.shard.inflight.held other.key = none) := by
    intro g other hg
    by_cases hgf : g = f
    · subst hgf
      cases hf.symm.trans hg
      rw [hmove.own, Option.map_eq_none_iff]
    · rw [hledger.rows.held_other hledger.slots hf hmove hg hgf]
  have hstart : Settling { w with
      ops := w.ops ++ [.start (.ofCancel fut.key)]
      misses := if KernelOp.isTargetGone w.ops fut.key.opToken then
        w.misses ++ [w.ops.length] else w.misses } := by
    refine h.start hledger (fun _ _ _ _ hkey => by cases hkey) ?_ ?_ ?_
    · intro o ho
      split at ho
      · simpa using ho
      · exact .inl ho
    · intro o ho
      split
      · exact List.mem_append_left _ ho
      · exact ho
    · intro g other a hg ha hcancel hkept hfinal
      have hrole : OpRole.cancel fut.key = .cancel other.key := congrArg Request.role hcancel
      injection hrole with hsame
      rw [hsame, if_pos (h.isTargetGone hledger hg ha hkept hfinal)]
      exact List.mem_append_right _ List.mem_cons_self
  refine hstart.reheld (fun g fut' hg => back_set hf hg) ?_ ?_
  · intro g other hg hkept hnone
    exact hkept ((hheld g other hg).mpr hnone)
  · intro g other a hg _ hnone hkept
    exact absurd ((hheld g other hg).mp hnone) hkept

theorem post (hledger : w.Ledger) {cqe : Cqe} (hop : w.ops[o]? = some op)
    (hmay : op.mayPost w.ops cqe = true) (horderly : w.Orderly (.post o cqe)) :
    (w.posted o op cqe).Settling := by
  have hcoherent := hledger.queue.coherent o op hop
  -- a posting changes the stage only
  have hback : ∀ (p : Nat) a, (w.ops.set o (op.posted cqe))[p]? = some a →
      ∃ b, w.ops[p]? = some b ∧ a.toRequest = b.toRequest ∧
        a.isResultDrained = b.isResultDrained ∧ a.isFinalDrained = b.isFinalDrained := by
    intro p a ha
    rcases set_eq_some.mp ha with ⟨_, ha⟩ | ⟨rfl, _, rfl⟩
    · exact ⟨a, ha, rfl, rfl, rfl⟩
    · exact ⟨op, hop, rfl, rfl, rfl⟩
  refine ⟨?_, ?_, ?_, ?_, ?_, ?_, ?_⟩
  · intro f fut a hf ha hnone
    obtain ⟨b, hb, _, _, hfinal⟩ := hback fut.op a ha
    rw [hfinal]
    exact h.drained f fut b hf hb hnone
  · intro p a ha hstage hresult
    rcases set_eq_some.mp ha with ⟨_, ha⟩ | ⟨rfl, _, rfl⟩
    · exact h.posted p a ha hstage hresult
    · rcases mayPost_stage hmay with hs | hs
      · rw [isResultDrained_posted, (hcoherent.running hs).1] at hresult
        cases hresult
      · simp [KernelOp.posted, hs] at hstage
  · intro p a ha hstage
    rcases set_eq_some.mp ha with ⟨_, ha⟩ | ⟨rfl, _, rfl⟩
    · refine (h.result p a ha hstage).imp id ?_
      rintro ⟨d, hd, hn⟩
      exact ⟨d, List.mem_append_left _ hd, hn⟩
    · rcases mayPost_stage hmay with hs | hs
      · refine .inr ⟨translateCqe cqe, List.mem_append_right _ List.mem_cons_self, ?_⟩
        rw [translateCqe_isNotif]
        exact (mayPost_running hmay hs).2.1
      · refine (h.result p op hop (by simp [hs])).imp id ?_
        rintro ⟨d, hd, hn⟩
        exact ⟨d, List.mem_append_left _ hd, hn⟩
  · intro i q p c a target key hi ha hcancel hgone htarget hkey
    obtain ⟨b, hb, hsame, _⟩ := hback q a ha
    obtain ⟨t, ht, hsameTarget, hresult, _⟩ := hback p target htarget
    have hcancel : b.toRequest = .ofCancel key := hsame ▸ hcancel
    have hkey : t.key = some key :=
      (congrArg (fun r : Request => r.key) hsameTarget).symm.trans hkey
    rw [hresult]
    rcases concat_eq_some.mp hi with hi | ⟨rfl, heq⟩
    · refine (h.order i q p c b t key hi hb hcancel hgone ht hkey).imp id ?_
      rintro ⟨j, d, hj, hd, hn⟩
      exact ⟨j, d, hj, append_of_row hd _, hn⟩
    · -- the answer posted last finds its target's result handled or queued before it
      obtain ⟨hindex, rfl⟩ := Prod.mk.inj heq
      cases hindex
      cases hop.symm.trans hb
      have hs : op.stage = .running := by
        refine (mayPost_stage hmay).resolve_right ?_
        intro hs
        have hzero : op.zeroCopy = false := congrArg (fun r : Request => r.zeroCopy) hcancel
        rw [hcoherent.zeroCopy (.inl hs)] at hzero
        cases hzero
      have hrole : op.role = .cancel key := congrArg Request.role hcancel
      have htargets := (mayPost_running hmay hs).2.2.2.2 key hrole hgone
      rw [KernelOp.isTargetGone, List.all_eq_true] at htargets
      obtain ⟨_, huser, _⟩ := hledger.slots.keyed p _ key (map_row ht) hkey
      have hrunning : t.stage ≠ .running := by
        simpa [huser.symm] using htargets t (List.mem_of_getElem? ht)
      refine (h.result p t ht hrunning).imp id ?_
      rintro ⟨d, hd, hn⟩
      obtain ⟨j, hj⟩ := List.getElem?_of_mem hd
      exact ⟨j, d, lt_of_row hj, append_of_row hj _, hn⟩
  · intro p hp
    rw [BufWorld.posted, List.length_set]
    exact h.bound p hp
  · intro p c hmem hp
    rcases List.mem_append.mp hmem with hmem | hmem
    · exact h.miss p c hmem hp
    · obtain ⟨hindex, rfl⟩ := Prod.mk.inj (List.mem_singleton.mp hmem)
      cases hindex
      exact horderly hp
  · intro f p fut a cancel hf ha hcancelOp hcancel hkept hfinal
    obtain ⟨b, hb, _, _, hfinalEq⟩ := hback fut.op a ha
    obtain ⟨c, hc, hsame, _, hundrained⟩ := hback p cancel hcancelOp
    rw [hundrained]
    exact h.answer f p fut b c hf hb hc (hsame ▸ hcancel) hkept (hfinalEq ▸ hfinal)

theorem drain (hledger : w.Ledger) {c : Completion} {queue : List (Option Nat × Completion)}
    (hhead : w.queue = (some o, c) :: queue) (hrecent : w.Orderly .drain) :
    (w.drained o c queue).Settling := by
  obtain ⟨op, f, fut, inflight, tasks, view, hop, hqueued, hf, hshard, hmove, hwhich⟩ :=
    hledger.drain_move hhead h.drained hrecent
  obtain ⟨target, htarget, hrow⟩ := hledger.rows f fut hf
  rw [BufWorld.drained, hshard]
  have hback : ∀ p a, (w.ops.modify o (·.drained c))[p]? = some a →
      ∃ b, w.ops[p]? = some b ∧ b.Later a ∧ (p ≠ o → a = b) ∧ (p = o → a = b.drained c) := by
    intro p a ha
    rcases modify_eq_some.mp ha with ⟨hne, ha⟩ | ⟨rfl, b, hb, rfl⟩
    · exact ⟨a, ha, .refl a, fun _ => rfl, fun heq => absurd heq hne⟩
    · exact ⟨b, hb, later_drained b c, fun hne => absurd rfl hne, fun _ => rfl⟩
  -- the head of the queue, if it is a result, counts as handled
  have hresult : ∀ p a d,
      (w.ops.modify o (·.drained c))[p]? = some a → (some p, d) = (some o, c) →
      d.isNotif = false → a.isResultDrained = true := by
    intro p a d ha heq hn
    obtain ⟨hindex, rfl⟩ := Prod.mk.inj heq
    obtain ⟨b, _, _, _, hdrained⟩ := hback p a ha
    rw [hdrained (Option.some.inj hindex)]
    simp [KernelOp.drained, hn]
  refine ⟨?_, ?_, ?_, ?_, ?_, ?_, ?_⟩
  · intro g other a hg ha hnone
    obtain ⟨b, hb, hlater, hkeep, hdrained⟩ := hback other.op a ha
    by_cases hgf : g = f
    · subst hgf
      cases hf.symm.trans hg
      cases htarget.symm.trans hb
      have hnone : view = none := hmove.own.symm.trans hnone
      rcases hwhich with ⟨hindex, rfl⟩ | ⟨_, hcancel, rfl⟩
      · rw [hdrained hindex]
        rcases IoShard.drainView_eq_none hnone with hbefore | hlast
        · rw [KernelOp.drained, h.drained g fut target hf htarget hbefore]
          rfl
        · rcases hlast with hn | hm
          · simp [KernelOp.drained, (hqueued.notif hn).2]
          · simp [KernelOp.drained, hm]
      · refine hlater.final ?_
        rcases IoShard.cancelView_eq_none hnone with hbefore | ⟨hgone, slot, hslot, hrec⟩
        · exact h.drained g fut target hf htarget hbefore
        · exact h.isFinalDrained_of_reclaimable hledger hhead hop hcancel hgone hf htarget hslot hrec
    · have hsame := hledger.rows.held_other hledger.slots hf hmove hg hgf
      exact hlater.final (h.drained g other b hg hb (hsame.symm.trans hnone))
  · intro p a ha hstage hres
    obtain ⟨b, hb, hlater, hkeep, hdrained⟩ := hback p a ha
    by_cases hp : p = o
    · subst hp
      cases hop.symm.trans hb
      rw [hdrained rfl] at hstage ⊢
      rw [stage_drained] at hstage
      have hm : c.hasMore = false := by
        cases hm : c.hasMore with
        | false => rfl
        | true =>
          cases hn : c.isNotif with
          | true => simpa [hm] using (hqueued.notif hn).2
          | false => rcases (hqueued.more hn hm).2 with hs | hs <;> simp [hstage] at hs
      simp [KernelOp.drained, hm]
    · rw [hkeep hp] at hstage hres ⊢
      exact h.posted p b hb hstage hres
  · intro p a ha hstage
    obtain ⟨b, hb, hlater, hkeep, hdrained⟩ := hback p a ha
    have hbefore : b.stage ≠ .running := by
      by_cases hp : p = o
      · rwa [hdrained hp] at hstage
      · rwa [hkeep hp] at hstage
    rcases h.result p b hb hbefore with hres | ⟨d, hd, hn⟩
    · exact .inl (hlater.result hres)
    · rw [hhead] at hd
      rcases List.mem_cons.mp hd with heq | hd
      · exact .inl (hresult p a d ha heq hn)
      · exact .inr ⟨d, hd, hn⟩
  · intro i q p d a t key hi ha hcancel hgone ht hkey
    obtain ⟨b, hb, hlater, _⟩ := hback q a ha
    obtain ⟨t', ht', hlater', _⟩ := hback p t ht
    have hi' : w.queue[i + 1]? = some (some q, d) := by rw [hhead]; exact hi
    rcases h.order (i + 1) q p d b t' key hi' hb (hlater.request ▸ hcancel) hgone ht'
      (hlater'.key.symm.trans hkey) with hres | ⟨j, x, hj, hx, hn⟩
    · exact .inl (hlater'.result hres)
    · rw [hhead] at hx
      cases j with
      | zero => exact .inl (hresult p t x ht (Option.some.inj hx).symm hn)
      | succ j => exact .inr ⟨j, x, Nat.lt_of_succ_lt_succ hj, hx, hn⟩
  · intro p hp
    rw [List.length_modify]
    exact h.bound p hp
  · intro p d hmem hp
    exact h.miss p d (hhead ▸ List.mem_cons_of_mem _ hmem) hp
  · intro g p other a cancel hg ha hcancelOp hcancel hkept hfinal
    obtain ⟨b, hb, hlater, hkeep, hdrained⟩ := hback other.op a ha
    obtain ⟨b', hb', hlater', hkeep', _⟩ := hback p cancel hcancelOp
    have hrow' := hledger.row hg hb
    have hkept' : w.shard.inflight.held other.key ≠ none :=
      hledger.held_of_moved hf hmove hb hrow'.key hkept
    have hcancel' : b'.toRequest = .ofCancel other.key := hlater'.request ▸ hcancel
    rcases hwhich with ⟨hindex, rfl⟩ | ⟨hholder, hcancelled, rfl⟩
    · -- a completion of an operation is none of a cancel
      have hp : p ≠ o := by
        rintro rfl
        cases hop.symm.trans hb'
        rw [hindex] at htarget
        cases hop.symm.trans htarget
        exact hrow.not_cancel hcancel'
      rw [hkeep' hp]
      by_cases hgf : g = f
      · exfalso
        subst hgf
        cases hf.symm.trans hg
        obtain ⟨f', fut', hf', hholder, heq⟩ := hledger.cancelled_of hb' hcancel'
        obtain rfl := hledger.key_inj hf' hf heq.symm
        cases hf.symm.trans hf'
        rw [hindex] at hb
        cases hop.symm.trans hb
        have hm : c.hasMore = false := by
          rw [hdrained hindex] at hfinal
          simpa [KernelOp.drained, hqueued.undrained] using hfinal
        apply hkept
        rw [hmove.own]
        refine IoShard.drainView_retired hm ?_
        intro slot hslot
        rw [hrow'.retire slot hslot, hholder]
        rfl
      · have hindex' : other.op ≠ o := fun heq =>
          hgf (hledger.rows.index_inj hg hf (heq.trans hindex.symm))
        rw [hkeep hindex'] at hfinal
        exact h.answer g p other b b' hg hb hb' hcancel' hkept' hfinal
    · have hindex : other.op ≠ o := by
        intro heq
        rw [heq] at hb
        cases hop.symm.trans hb
        exact hrow'.not_cancel hcancelled
      rw [hkeep hindex] at hfinal
      by_cases hgf : g = f
      · exfalso
        subst hgf
        cases hf.symm.trans hg
        obtain ⟨_, hmissed⟩ := h.answer g o fut b op hf hb hop hcancelled hkept' hfinal
        have hgone := h.miss o c (by simp [hhead]) hmissed
        apply hkept
        rw [hmove.own, IoShard.cancelView, if_pos hgone]
        obtain ⟨slot, hslot⟩ := Option.ne_none_iff_exists'.mp hkept'
        rw [hslot]
        have hrec := hrow'.reclaimable (hledger.queue.coherent _ b hb) hslot hholder hfinal
        simp [hrec]
      · have hp : p ≠ o := by
          rintro rfl
          cases hop.symm.trans hb'
          have hrole : OpRole.cancel fut.key = .cancel other.key :=
            congrArg Request.role (hcancelled.symm.trans hcancel')
          injection hrole with hsame
          exact hgf (hledger.key_inj hg hf hsame.symm)
        rw [hkeep' hp]
        exact h.answer g p other b b' hg hb hb' hcancel' hkept' hfinal

theorem step (hledger : w.Ledger) (horderly : w.Orderly e) :
    (w.step e).Settling := by
  have heffect := step_effect w e
  generalize w.step e = w' at heffect
  cases heffect with
  | ignored => exact h
  | submitted token kind key slab task allocated => exact h.submitted hledger allocated
  | bounced token kind key slab allocated => exact h.bounced allocated
  | harvested f fut found => exact h.harvested hledger found horderly
  | dropped f fut found => exact h.dropped found
  | cancelled isAccepted key keys popped =>
    obtain rfl : isAccepted = true := horderly
    exact h.cancelled hledger popped
  | posted o op cqe found may => exact h.post hledger found may horderly
  | drained o c queue head => exact h.drain hledger head horderly
  | skipped => exact absurd horderly id

end Settling

end BufWorld

end Kwokka
