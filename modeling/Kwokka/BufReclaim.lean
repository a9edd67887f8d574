import Kwokka.BufSettle

/-! Every slot is freed exactly once when one allocation at a time answers to a
token, cancels reach the ring and completions are drained in the order of their
posting: by the harvest of its own future, or by the drain, once the operation of a
dropped future is over. -/

namespace Kwokka

open Table Runs

namespace BufWorld

structure Sent (w : BufWorld) : Prop where
  inbox : ∀ (f : Nat) fut, w.futures[f]? = some fut → fut.holder = .dropped →
    fut.key ∈ w.shard.cancelInbox.keys
  ring : ∀ (f : Nat) fut, w.futures[f]? = some fut → fut.holder = .cancelled →
    .ofCancel fut.key ∈ w.requests

section Frames

variable {w : BufWorld} {e : BufEvent} {f : Nat} {fut : BufFuture}

theorem requests_step {r : Request} (h : r ∈ w.requests) : r ∈ (w.step e).requests := by
  have heffect := step_effect w e
  generalize w.step e = w' at heffect
  cases heffect with
  | submitted =>
    simp only [requests, submitted, List.map_append]
    exact List.mem_append_left _ h
  | cancelled isAccepted =>
    cases isAccepted with
    | false => exact h
    | true =>
      simp only [requests, cancelled, if_true, List.map_append]
      exact List.mem_append_left _ h
  | posted o op cqe found =>
    have hsame : (w.ops.set o (op.posted cqe)).map (·.toRequest) = w.requests :=
      map_set_of_row found rfl
    rwa [← hsame] at h
  | drained o c =>
    have hsame : (w.ops.modify o (·.drained c)).map (·.toRequest) = w.requests :=
      map_modify_of_eq fun _ => rfl
    rwa [← hsame] at h
  | _ => exact h

theorem futures_step (w : BufWorld) (e : BufEvent) (h : w.futures[f]? = some fut) :
    ∃ fut', (w.step e).futures[f]? = some fut' ∧ fut'.key = fut.key := by
  have heffect := step_effect w e
  generalize w.step e = w' at heffect
  have hset : ∀ g old holder, w.futures[g]? = some old →
      ∃ fut', (w.futures.set g { old with holder })[f]? = some fut' ∧ fut'.key = fut.key := by
    intro g old holder hg
    by_cases hgf : f = g
    · subst hgf
      cases h.symm.trans hg
      exact ⟨_, set_eq_some.mpr (.inr ⟨rfl, lt_of_row h, rfl⟩), rfl⟩
    · exact ⟨fut, set_eq_some.mpr (.inl ⟨hgf, h⟩), rfl⟩
  cases heffect with
  | submitted => exact ⟨fut, append_of_row h _, rfl⟩
  | harvested g old found => exact hset g old .harvested found
  | dropped g old found => exact hset g old .dropped found
  | cancelled isAccepted key => exact ⟨_, map_row h, fut.key_cancel key⟩
  | _ => exact ⟨fut, h, rfl⟩

theorem live_of_new (hnone : w.futures[f]? = none) (hf : (w.step e).futures[f]? = some fut) :
    fut.holder = .live := by
  have heffect := step_effect w e
  generalize w.step e = w' at hf heffect
  cases heffect with
  | submitted =>
    rcases concat_eq_some.mp hf with hf | ⟨_, rfl⟩
    · cases hnone.symm.trans hf
    · rfl
  | harvested g old found =>
    rcases set_eq_some.mp hf with ⟨_, hf⟩ | ⟨rfl, _, _⟩
    · cases hnone.symm.trans hf
    · cases hnone.symm.trans found
  | dropped g old found =>
    rcases set_eq_some.mp hf with ⟨_, hf⟩ | ⟨rfl, _, _⟩
    · cases hnone.symm.trans hf
    · cases hnone.symm.trans found
  | cancelled => simp [cancelled, hnone] at hf
  | _ => cases hnone.symm.trans hf

theorem drain_futures (w : BufWorld) : (w.step .drain).futures = w.futures := by
  have heffect := step_effect w .drain
  generalize w.step .drain = w' at heffect
  cases heffect <;> rfl

theorem Sent.kept {w' : BufWorld} (h : w.Sent) (hring : ∀ r ∈ w.requests, r ∈ w'.requests)
    (hinbox : ∀ key ∈ w.shard.cancelInbox.keys, key ∈ w'.shard.cancelInbox.keys)
    (hback : ∀ (f : Nat) fut, w'.futures[f]? = some fut →
      w.futures[f]? = some fut ∨ fut.holder = .live ∨ fut.holder = .harvested ∨
        fut.holder = .dropped ∧ fut.key ∈ w'.shard.cancelInbox.keys) : w'.Sent := by
  refine ⟨?_, ?_⟩
  · intro f fut hf hholder
    rcases hback f fut hf with hold | hother | hother | ⟨_, hmem⟩
    · exact hinbox _ (h.inbox f fut hold hholder)
    · cases hother.symm.trans hholder
    · cases hother.symm.trans hholder
    · exact hmem
  · intro f fut hf hholder
    rcases hback f fut hf with hold | hother | hother | ⟨hother, _⟩
    · exact hring _ (h.ring f fut hold hholder)
    · cases hother.symm.trans hholder
    · cases hother.symm.trans hholder
    · cases hother.symm.trans hholder

theorem Sent.step (h : w.Sent) (hledger : w.Ledger) (hkeeps : w.Keeps) (horderly : w.Orderly e) :
    (w.step e).Sent := by
  have hring : ∀ r ∈ w.requests, r ∈ (w.step e).requests := fun _ => requests_step
  have heffect := step_effect w e
  generalize w.step e = w' at hring heffect
  cases heffect with
  | submitted =>
    refine h.kept hring (fun _ hkey => hkey) fun f fut hf => ?_
    rcases concat_eq_some.mp hf with hf | ⟨_, rfl⟩
    · exact .inl hf
    · exact .inr (.inl rfl)
  | harvested =>
    refine h.kept hring (fun _ hkey => hkey) fun f fut hf => ?_
    rcases set_eq_some.mp hf with ⟨_, hf⟩ | ⟨_, _, rfl⟩
    · exact .inl hf
    · exact .inr (.inr (.inl rfl))
  | dropped g old =>
    have hpush : (w.shard.cancelInbox.pushCancel old.key).keys =
        w.shard.cancelInbox.keys ++ [old.key] := by
      rw [CancelInbox.pushCancel, if_neg (Nat.not_le_of_lt horderly)]
    refine h.kept hring ?_ fun f fut hf => ?_
    · intro key hkey
      exact hpush ▸ List.mem_append_left _ hkey
    · rcases set_eq_some.mp hf with ⟨_, hf⟩ | ⟨_, _, rfl⟩
      · exact .inl hf
      · exact .inr (.inr (.inr ⟨rfl, hpush ▸ List.mem_append_right _ List.mem_cons_self⟩))
  | cancelled isAccepted key keys popped =>
    obtain rfl : isAccepted = true := horderly
    have hinbox : (w.cancelled true key ⟨keys⟩).shard.cancelInbox = ⟨keys⟩ :=
      (IoShard.recordCancel_frame _ key).2.2.1
    refine ⟨?_, ?_⟩
    · intro f fut hf hholder
      rw [hinbox]
      rw [BufWorld.cancelled, List.getElem?_map, Option.map_eq_some_iff] at hf
      obtain ⟨old, hf, rfl⟩ := hf
      unfold BufFuture.cancel at hholder ⊢
      split at hholder
      · cases hholder
      · next hne =>
        rw [if_neg hne]
        have hmem := h.inbox f old hf hholder
        rw [popped] at hmem
        exact (List.mem_cons.mp hmem).resolve_left hne
    · intro f fut hf hholder
      rw [BufWorld.cancelled, List.getElem?_map, Option.map_eq_some_iff] at hf
      obtain ⟨old, hf, rfl⟩ := hf
      rw [BufFuture.key_cancel]
      by_cases hkey : old.key = key
      · subst hkey
        simp only [requests, BufWorld.cancelled, if_true, requests_start]
        exact List.mem_append_right _ List.mem_cons_self
      · simp only [BufFuture.cancel, if_neg hkey] at hholder
        exact hring _ (h.ring f old hf hholder)
  | drained o c queue head =>
    obtain ⟨_, _, _, inflight, tasks, _, _, _, _, hshard, _⟩ :=
      hledger.drain_move head hkeeps horderly
    refine h.kept hring (fun _ hkey => ?_) fun _ _ hf => .inl hf
    rwa [BufWorld.drained, hshard]
  | _ => exact h.kept hring (fun _ hkey => hkey) fun _ _ hf => .inl hf

end Frames

/-- The step is about the allocation of future `f`: its harvest, its cancel, a completion of its
operation or of its cancel. -/
def Concerns (w : BufWorld) (f : Nat) (fut : BufFuture) : BufEvent → Prop
  | .harvest g => g = f
  | .drainCancel _ => w.shard.cancelInbox.keys.head? = some fut.key
  | .drain => ∃ o c, w.queue.head? = some (some o, c) ∧
    (o = fut.op ∨ ∃ op, w.ops[o]? = some op ∧ op.toRequest = .ofCancel fut.key)
  | _ => False

/-- A step changes the slot of an allocation only if it is about that allocation, and frees it only
by the harvest of its future or, for a future that was dropped and cancelled, by a completion of
the operation or by the `-ENOENT` of its cancel, with the last completion handled by then. -/
structure Reclaims (w : BufWorld) (e : BufEvent) : Prop where
  own : ∀ f fut, w.futures[f]? = some fut →
    (w.step e).shard.inflight.held fut.key ≠ w.shard.inflight.held fut.key → w.Concerns f fut e
  freed : ∀ f fut, w.futures[f]? = some fut →
    w.shard.inflight.held fut.key ≠ none → (w.step e).shard.inflight.held fut.key = none →
    e = .harvest f ∨ e = .drain ∧ fut.holder = .cancelled ∧
      (∃ op, (w.step e).ops[fut.op]? = some op ∧ op.isFinalDrained = true) ∧
      ∃ o c, w.queue.head? = some (some o, c) ∧ (o = fut.op ∨
        c.result = -2 ∧ ∃ op, w.ops[o]? = some op ∧ op.toRequest = .ofCancel fut.key)

def isFreed (w : BufWorld) (f : Nat) : Bool :=
  w.futures[f]?.any fun fut => (w.shard.inflight.held fut.key).isNone

def frees : BufWorld → List BufEvent → Nat → Nat
  | _, [], _ => 0
  | w, e :: es, f =>
    (if w.futures[f]?.isSome && !w.isFreed f && (w.step e).isFreed f then 1 else 0) +
      frees (w.step e) es f

section Steps

variable {w : BufWorld} {e : BufEvent}

def Freeing (w : BufWorld) (f : Nat) (fut : BufFuture) (e : BufEvent) : Prop :=
  e = .harvest f ∨ e = .drain ∧ ∃ o c, w.queue.head? = some (some o, c) ∧ (o = fut.op ∨
    c.result = -2 ∧ ∃ op, w.ops[o]? = some op ∧ op.toRequest = .ofCancel fut.key)

/-- A step leaves an allocation what it holds, or is about it; then none comes back, and one that
goes has its reason. -/
theorem held_step (h : w.Ledger) (hkeeps : w.Keeps) (horderly : w.Orderly e) {f : Nat}
    {fut : BufFuture}
    (hf : w.futures[f]? = some fut) :
    (w.step e).shard.inflight.held fut.key = w.shard.inflight.held fut.key ∨
      w.Concerns f fut e ∧
      (w.shard.inflight.held fut.key = none → (w.step e).shard.inflight.held fut.key = none) ∧
      (w.shard.inflight.held fut.key ≠ none → (w.step e).shard.inflight.held fut.key = none →
        w.Freeing f fut e) := by
  obtain ⟨op, hop, hrow⟩ := h.rows f fut hf
  have heffect := step_effect w e
  generalize w.step e = w' at heffect
  cases heffect with
  | submitted token kind key slab task allocated =>
    exact .inl (h.slots.held_allocate allocated (map_row hop) hrow.key)
  | bounced token kind key slab allocated => exact .inl (SlotsSound.held_bounced allocated)
  | harvested g other found =>
    obtain ⟨a, ha, hrow'⟩ := h.rows g other found
    have hmove := h.slots.free_move (map_row ha) hrow'.key
    by_cases hgf : g = f
    · subst hgf
      cases hf.symm.trans found
      exact .inr ⟨rfl, fun _ => hmove.own, fun _ _ => .inl rfl⟩
    · exact .inl (h.rows.held_other h.slots found hmove hf (Ne.symm hgf))
  | cancelled isAccepted key keys popped =>
    obtain ⟨g, other, _, inflight, hg, rfl, _, _, _, hshard, hmove⟩ := h.cancel_move popped
    rw [BufWorld.cancelled, hshard]
    by_cases hgf : g = f
    · subst hgf
      cases hf.symm.trans hg
      refine .inr ⟨by simp [Concerns, popped], ?_, ?_⟩
      · intro hnone
        exact hmove.own.trans (by rw [hnone]; rfl)
      · intro hkept hnone
        exact absurd (Option.map_eq_none_iff.mp (hmove.own.symm.trans hnone)) hkept
    · exact .inl (h.rows.held_other h.slots hg hmove hf (Ne.symm hgf))
  | drained o c queue head =>
    obtain ⟨a, g, other, inflight, tasks, view, ha, _, hg, hshard, hmove, hwhich⟩ :=
      h.drain_move head hkeeps horderly
    rw [BufWorld.drained, hshard]
    by_cases hgf : g = f
    · subst hgf
      cases hf.symm.trans hg
      have hhead : w.queue.head? = some (some o, c) := by simp [head]
      refine .inr ⟨⟨o, c, hhead, ?_⟩, ?_, ?_⟩
      · exact hwhich.imp (fun h => h.1.symm) fun h => ⟨a, ha, h.2.1⟩
      · intro hnone
        by_contra hkept
        exact h.held_of_moved hg hmove hop hrow.key hkept hnone
      · intro hkept hnone
        refine .inr ⟨rfl, o, c, hhead, ?_⟩
        rcases hwhich with ⟨hindex, _⟩ | ⟨_, hcancel, rfl⟩
        · exact .inl hindex.symm
        · rcases IoShard.cancelView_eq_none (hmove.own.symm.trans hnone) with hnone | ⟨hgone, _⟩
          · exact absurd hnone hkept
          · exact .inr ⟨hgone, a, ha, hcancel⟩
    · exact .inl (h.rows.held_other h.slots hg hmove hf (Ne.symm hgf))
  | _ => exact .inl rfl

theorem Settling.reclaims (h : w.Settling) (hledger : w.Ledger) (horderly : w.Orderly e) :
    w.Reclaims e := by
  refine ⟨?_, ?_⟩
  · intro f fut hf hne
    exact ((held_step hledger h.drained horderly hf).resolve_left hne).1
  · intro f fut hf hkept hnone
    have hfreeing : w.Freeing f fut e := by
      rcases held_step hledger h.drained horderly hf with hsame | ⟨_, _, hcause⟩
      · exact absurd (hsame.symm.trans hnone) hkept
      · exact hcause hkept hnone
    rcases hfreeing with hharvest | ⟨rfl, hhead⟩
    · exact .inl hharvest
    · have hledger' := hledger.step h.drained horderly
      have hf' : (w.step .drain).futures[f]? = some fut := (drain_futures w).symm ▸ hf
      obtain ⟨op, hop, hrow⟩ := hledger'.rows f fut hf'
      obtain ⟨old, hold, hrow'⟩ := hledger.rows f fut hf
      refine .inr ⟨rfl, ?_, ⟨op, hop, ?_⟩, hhead⟩
      · exact (hrow.freed hnone).resolve_left fun hharvested =>
          hkept (hrow'.harvested hharvested)
      · exact (h.step hledger horderly).drained f fut op hf' hop hnone

theorem isFreed_step (h : w.Ledger) (hledger' : (w.step e).Ledger) (hkeeps : w.Keeps)
    (horderly : w.Orderly e) (f : Nat) :
    (if w.futures[f]?.isSome && !w.isFreed f && (w.step e).isFreed f then 1 else 0) +
      (w.isFreed f).toNat = ((w.step e).isFreed f).toNat := by
  cases hf : w.futures[f]? with
  | none =>
    have hbefore : w.isFreed f = false := by simp [isFreed, hf]
    have hafter : (w.step e).isFreed f = false := by
      rw [isFreed]
      cases hf' : (w.step e).futures[f]? with
      | none => rfl
      | some fut =>
        obtain ⟨op, _, hrow⟩ := hledger'.rows f fut hf'
        have hlive := live_of_new hf hf'
        cases hview : (w.step e).shard.inflight.held fut.key with
        | some => simp [hview]
        | none => simpa [hlive] using hrow.freed hview
    simp [hbefore, hafter]
  | some fut =>
    obtain ⟨fut', hf', hkey⟩ := futures_step w e hf
    have hbefore : w.isFreed f = (w.shard.inflight.held fut.key).isNone := by simp [isFreed, hf]
    have hafter : (w.step e).isFreed f = ((w.step e).shard.inflight.held fut.key).isNone := by
      simp [isFreed, hf', hkey]
    rw [hbefore, hafter]
    cases hview : w.shard.inflight.held fut.key with
    | some => cases ((w.step e).shard.inflight.held fut.key).isNone <;> rfl
    | none =>
      have hnone : (w.step e).shard.inflight.held fut.key = none := by
        rcases held_step h hkeeps horderly hf with hsame | ⟨_, hstays, _⟩
        · exact hsame.trans hview
        · exact hstays hview
      rw [hnone]
      rfl

end Steps

structure Reclaiming (w : BufWorld) : Prop where
  ledger : w.Ledger
  settling : w.Settling
  sent : w.Sent

section Runs

variable {w : BufWorld} {e : BufEvent} {es : List BufEvent}

theorem Reclaiming.step (h : w.Reclaiming) (horderly : w.Orderly e) : (w.step e).Reclaiming :=
  ⟨h.ledger.step h.settling.drained horderly, h.settling.step h.ledger horderly,
    h.sent.step h.ledger h.settling.drained horderly⟩

theorem Reclaiming.init (id cap : Nat) : (BufWorld.init id cap).Reclaiming :=
  ⟨.init id cap, .init id cap, fun f fut hf => by simp [BufWorld.init] at hf,
    fun f fut hf => by simp [BufWorld.init] at hf⟩

theorem Reclaiming.frees_eq (h : w.Reclaiming) (horderly : Meets BufWorld.step Orderly w es)
    (f : Nat) : frees w es f + (w.isFreed f).toNat =
      ((run BufWorld.step w es).isFreed f).toNat := by
  induction es generalizing w with
  | nil => simp [frees]
  | cons e es ih =>
    have hstep := h.step horderly.1
    have hfirst := isFreed_step h.ledger hstep.ledger h.settling.drained horderly.1 f
    have hrest := ih hstep horderly.2
    rw [run_cons, frees]
    omega

/-- Every slot is freed exactly once, by its own future or after it, and for its own reasons. -/
theorem slots_freed_once (id cap : Nat) (es : List BufEvent)
    (h : Meets step Orderly (init id cap) es) :
    Meets step Reclaims (init id cap) es ∧
      ∀ f fut, (run step (init id cap) es).futures[f]? = some fut →
        ∃ op, (run step (init id cap) es).ops[fut.op]? = some op ∧
          frees (init id cap) es f =
            (if (run step (init id cap) es).shard.inflight.held fut.key = none then 1 else 0) ∧
          (fut.holder = .harvested →
            (run step (init id cap) es).shard.inflight.held fut.key = none) ∧
          (fut.holder = .dropped →
            fut.key ∈ (run step (init id cap) es).shard.cancelInbox.keys) ∧
          (fut.holder = .cancelled → ∃ cancel ∈ (run step (init id cap) es).ops,
            cancel.toRequest = .ofCancel fut.key ∧
              (op.isFinalDrained = true → cancel.isFinalDrained = true →
                (run step (init id cap) es).shard.inflight.held fut.key = none)) := by
  refine ⟨?_, ?_⟩
  · exact h.of_invariant (fun _ _ => Reclaiming.step)
      (fun _ _ hw hc => hw.settling.reclaims hw.ledger hc) (.init id cap)
  intro f fut hf
  have hend := h.invariant (fun _ _ => Reclaiming.step) (.init id cap)
  have hcount := (Reclaiming.init id cap).frees_eq h f
  generalize run step (BufWorld.init id cap) es = w at hf hend hcount
  obtain ⟨op, hop, hrow⟩ := hend.ledger.rows f fut hf
  refine ⟨op, hop, ?_, hrow.harvested, hend.sent.inbox f fut hf, ?_⟩
  · have hstart : (BufWorld.init id cap).isFreed f = false := by simp [isFreed, BufWorld.init]
    have hfinal : w.isFreed f = (w.shard.inflight.held fut.key).isNone := by simp [isFreed, hf]
    rw [hstart, hfinal] at hcount
    cases hview : w.shard.inflight.held fut.key with
    | none => simpa [hview] using hcount
    | some => simpa [hview] using hcount
  · intro hholder
    obtain ⟨cancel, hmem, hcancel⟩ := List.mem_map.mp (hend.sent.ring f fut hf hholder)
    refine ⟨cancel, hmem, hcancel, ?_⟩
    intro hfinal hanswered
    by_contra hkept
    obtain ⟨o, hcancelOp⟩ := List.getElem?_of_mem hmem
    have hundrained := (hend.settling.answer f o fut op cancel hf hop hcancelOp hcancel hkept
      hfinal).1
    rw [hanswered] at hundrained
    cases hundrained

/-- What `Orderly` asks but for the harvests, and that no two unfinished operations share a token. -/
def Regular (w : BufWorld) : BufEvent → Prop
  | .harvest _ => True
  | .submit token kind isAccepted => w.Orderly (.submit token kind isAccepted) ∧
    ∀ op ∈ w.ops, op.userData = token → op.stage.isFinal = true
  | e => w.Orderly e

instance decidableRegular (w : BufWorld) : ∀ e, Decidable (w.Regular e)
  | .harvest _ => .isTrue trivial
  | .submit .. => inferInstanceAs (Decidable (_ ∧ ∀ _ ∈ w.ops, _ → _))
  | .drop f => w.decidableOrderly (.drop f)
  | .drainCancel isAccepted => w.decidableOrderly (.drainCancel isAccepted)
  | .post o cqe => w.decidableOrderly (.post o cqe)
  | .drain => w.decidableOrderly .drain
  | .skip => w.decidableOrderly .skip

/-- A zero-copy send that is dropped between its result and its notification. -/
theorem slots_freed_once_zeroCopy :
    Meets step Reclaims (init 0 1) [.submit 5 .sendZc true, .post 0 ⟨5, 100, 2⟩, .drain, .drop 0,
      .drainCancel true, .post 1 ⟨0xFFFFFFFF00000000, -2, 0⟩, .drain, .post 0 ⟨5, 0, 8⟩, .drain] :=
  (slots_freed_once 0 1 _ (by decide)).1

end Runs

/-- The second receive of a task resolves by the result of the first, before its own completion
is handled. That completion then frees the slot of the third receive, which is running. -/
def harvestsEarly : List BufEvent :=
  [.submit 5 .recv true, .post 0 ⟨5, 7, 0⟩, .drain, .harvest 0, .submit 5 .recv true,
    .post 1 ⟨5, 3, 0⟩, .harvest 1, .submit 5 .recv true, .drop 2, .drainCancel true]

theorem early_harvest_frees_running :
    Meets step Regular (init 0 2) (harvestsEarly ++ [.drain]) ∧
      ¬ Meets step Reclaims (init 0 2) (harvestsEarly ++ [.drain]) := by
  refine ⟨by decide, ?_⟩
  intro h
  have hlast := (meets_append.mp h).2.1
  obtain ⟨fut, hfut, hheld, hnone⟩ : ∃ fut,
      (run step (init 0 2) harvestsEarly).futures[2]? = some fut ∧
      (run step (init 0 2) harvestsEarly).shard.inflight.held fut.key ≠ none ∧
      ((run step (init 0 2) harvestsEarly).step .drain).shard.inflight.held fut.key = none :=
    ⟨_, rfl, by decide, by decide⟩
  have hstage : ∀ op ∈ ((run step (init 0 2) harvestsEarly).step .drain).ops[fut.op]?,
      op.isFinalDrained = false := by
    cases hfut
    decide
  rcases hlast.freed 2 fut hfut hheld hnone with hharvest | ⟨_, _, ⟨op, hop, hfinal⟩, _⟩
  · cases hharvest
  · rw [hstage op hop] at hfinal
    cases hfinal

end BufWorld

end Kwokka
