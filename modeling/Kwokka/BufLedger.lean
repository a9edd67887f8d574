import Kwokka.BufWorld

/-! Which allocation a step of the cancel drain or the completion drain touches.
The drains find a slot by the task token or by a cancel's own token; as long as one
allocation answers to a token, they find that one and no other. -/

namespace Kwokka

open Table Runs InflightBufSlab

namespace InflightBufSlab

variable {slab : InflightBufSlab} {key : InflightSlotKey} {slot : InflightSlot} {token : UInt64}

def Sole (slab : InflightBufSlab) (key : InflightSlotKey) : Prop :=
  ∀ i slot, slab.slots[i]? = some slot → slot.occupied = true →
    slot.opToken = key.opToken → i = key.slot ∧ slot.Holds key

theorem Sole.held (h : slab.Sole key) {i : Nat} (hslot : slab.slots[i]? = some slot)
    (hocc : slot.occupied = true) (htok : slot.opToken = key.opToken) :
    i = key.slot ∧ slab.held key = some slot := by
  obtain ⟨rfl, hholds⟩ := h i slot hslot hocc htok
  exact ⟨rfl, held_eq_some.mpr ⟨hslot, hholds⟩⟩

theorem retireMatch_eq_none (h : slab.retireMatch token = none) {i : Nat}
    (hslot : slab.slots[i]? = some slot) (hocc : slot.occupied = true)
    (htok : slot.opToken = token) : slot.retirePending = false := by
  have := List.findIdx?_eq_none_iff.mp h slot (List.mem_of_getElem? hslot)
  simpa [hocc, htok] using this

theorem freeByOpToken_false {slab' : InflightBufSlab}
    (h : slab.freeByOpToken token = (false, slab')) : slab' = slab := by
  unfold freeByOpToken at h
  split at h
  · simp at h
  · exact (Prod.mk.inj h).2.symm

theorem freeByOpToken_move (h : slab.Sole key) :
    slab.Move key (slab.freeByOpToken key.opToken).2
        ((slab.held key).filter fun slot => !slot.retirePending) ∧
      (slab.freeByOpToken key.opToken).1 = (slab.held key).any (·.retirePending) := by
  cases hmatch : slab.retireMatch key.opToken with
  | some =>
    obtain ⟨slot, hslot, hp, _⟩ := findIdx_spec hmatch
    simp only [Bool.and_eq_true, beq_iff_eq] at hp
    obtain ⟨rfl, hheld⟩ := h.held hslot hp.2.2 hp.2.1
    have heq : slab.freeByOpToken key.opToken = (true, slab.modify key.slot .release) := by
      simp [freeByOpToken, hmatch]
    rw [heq, hheld]
    simp only [Option.filter_some, hp.1, Bool.not_true, Bool.false_eq_true, if_false,
      Option.any_some, and_true]
    exact .released slot hheld
  | none =>
    have heq : slab.freeByOpToken key.opToken = (false, slab) := by simp [freeByOpToken, hmatch]
    have hkept : ∀ slot, slab.held key = some slot → slot.retirePending = false := by
      intro slot hheld
      obtain ⟨hslot, hholds⟩ := held_eq_some.mp hheld
      exact retireMatch_eq_none hmatch hslot hholds.occupied hholds.opToken
    rw [heq]
    cases hheld : slab.held key with
    | none => exact ⟨.unchanged hheld, rfl⟩
    | some slot =>
      simp only [Option.filter_some, hkept slot hheld, Bool.not_false, if_true, Option.any_some,
        and_true]
      exact .unchanged hheld

theorem tokenMatch_move (h : slab.Sole key) {f : InflightSlot → InflightSlot}
    (keeps : InflightSlot.IsMark f) :
    slab.Move key
      (match slab.tokenMatch key.opToken with
        | some i => slab.modify i f
        | none => slab)
      ((slab.held key).map f) := by
  rcases tokenMatch_spec with ⟨i, slot, heq, hslot, hocc, htok⟩ | ⟨heq, hnone⟩
  · obtain ⟨rfl, hheld⟩ := h.held hslot hocc htok
    rw [heq, hheld]
    exact .marked slot f hheld keeps
  · have hheld : slab.held key = none := by
      cases hheld : slab.held key with
      | none => rfl
      | some slot =>
        obtain ⟨hslot, hholds⟩ := held_eq_some.mp hheld
        exact absurd hholds.opToken (hnone _ slot hslot hholds.occupied)
    rw [heq, hheld]
    exact .unchanged hheld

theorem markNotifExpected_move (h : slab.Sole key) :
    slab.Move key (slab.markNotifExpectedByOpToken key.opToken)
      ((slab.held key).map .expectNotif) :=
  tokenMatch_move h InflightSlot.isMark_expectNotif

theorem markNotifReady_move (h : slab.Sole key) :
    slab.Move key (slab.markNotifReadyByOpToken key.opToken) ((slab.held key).map .armNotif) :=
  tokenMatch_move h InflightSlot.isMark_armNotif

end InflightBufSlab

/-- Whether an `-ENOENT` cancel frees the slot. -/
def InflightSlot.isReclaimable (slot : InflightSlot) : Bool :=
  slot.retirePending && (!slot.notifExpected || slot.notifReady)

namespace SlotsSound

variable {id : Nat} {slab : InflightBufSlab} {requests : List Request} {o : Nat} {r : Request}
  {key : InflightSlotKey}

theorem slot_lt (h : SlotsSound id slab requests) (hr : requests[o]? = some r)
    (hkey : r.key = some key) : key.slot < 2 ^ 8 := by
  obtain ⟨_, _, slot, hslot, _⟩ := h.keyed o r key hr hkey
  have hlt := lt_of_row hslot
  have hcap := h.cap
  simp only [InflightBufSlab.cap, defaultInflightCap] at hcap
  omega

theorem free_move (h : SlotsSound id slab requests) (hr : requests[o]? = some r)
    (hkey : r.key = some key) : slab.Move key (slab.free key) none := by
  unfold InflightBufSlab.free
  split
  · next hlive =>
    obtain ⟨slot, hheld⟩ := (h.isLive_iff_held hr hkey).mp hlive
    exact .released slot hheld
  · next hlive =>
    cases hheld : slab.held key with
    | none => exact .unchanged hheld
    | some slot => exact absurd ((h.isLive_iff_held hr hkey).mpr ⟨slot, hheld⟩) hlive

theorem markRetirePending_move (h : SlotsSound id slab requests) (hr : requests[o]? = some r)
    (hkey : r.key = some key) :
    slab.Move key (slab.markRetirePending key) ((slab.held key).map .retire) := by
  unfold InflightBufSlab.markRetirePending
  split
  · next hlive =>
    obtain ⟨slot, hheld⟩ := (h.isLive_iff_held hr hkey).mp hlive
    rw [hheld]
    exact .marked slot _ hheld InflightSlot.isMark_retire
  · next hlive =>
    cases hheld : slab.held key with
    | none => exact .unchanged hheld
    | some slot => exact absurd ((h.isLive_iff_held hr hkey).mpr ⟨slot, hheld⟩) hlive

/-- A cancel's token names the slot and 16 bits of the generation; while the slot was not reused
2^16 times since, those bits are the generation. -/
theorem freeIfRetirePending_move (h : SlotsSound id slab requests) (hr : requests[o]? = some r)
    (hkey : r.key = some key)
    (hfew : ∀ slot, slab.slots[key.slot]? = some slot →
      slot.generation < key.generation + 2 ^ 16) :
    slab.Move key (slab.freeIfRetirePending key.slot (key.generation % 2 ^ 16))
      ((slab.held key).filter fun slot => !slot.isReclaimable) := by
  obtain ⟨_, _, slot, hslot, hstate⟩ := h.keyed o r key hr hkey
  have hlt := hfew slot hslot
  rcases hstate with hstale | hholds
  · -- the slot has moved on, and by fewer than 2^16 generations
    have hheld : slab.held key = none :=
      held_eq_none hslot fun hholds => by have := hholds.generation; omega
    have hsame : slab.freeIfRetirePending key.slot (key.generation % 2 ^ 16) = slab := by
      rcases freeIfRetirePending_spec (key.generation % 2 ^ 16) with
        ⟨other, hother, _, _, hgen, _, _⟩ | heq
      · cases hslot.symm.trans hother
        omega
      · exact heq
    rw [hsame, hheld]
    exact .unchanged hheld
  · have hheld : slab.held key = some slot :=
      held_eq_some.mpr ⟨hslot, hholds⟩
    have hkept : (!slot.occupied || !slot.retirePending ||
        slot.generation % 2 ^ 16 != key.generation % 2 ^ 16 ||
        (slot.notifExpected && !slot.notifReady)) = !slot.isReclaimable := by
      simp only [hholds.occupied, hholds.generation, InflightSlot.isReclaimable, bne_self_eq_false]
      cases slot.retirePending <;> cases slot.notifExpected <;> cases slot.notifReady <;> rfl
    have heq : slab.freeIfRetirePending key.slot (key.generation % 2 ^ 16) =
        if !slot.isReclaimable then slab else slab.modify key.slot .release := by
      simp only [InflightBufSlab.freeIfRetirePending, hslot, hkept]
    rw [heq, hheld]
    cases hrec : slot.isReclaimable with
    | true =>
      simp only [Option.filter_some, hrec, Bool.not_true, Bool.false_eq_true, if_false]
      exact .released slot hheld
    | false =>
      simp only [Option.filter_some, hrec, Bool.not_false, if_true]
      exact .unchanged hheld

end SlotsSound

namespace IoShard

variable {shard : IoShard} {key : InflightSlotKey} {c : Completion}

theorem reclaimNotif_move (h : shard.inflight.Sole key) :
    shard.inflight.Move key (shard.reclaimNotif key.opToken).inflight
      (((shard.inflight.held key).filter fun slot => !slot.retirePending).map .armNotif) := by
  obtain ⟨hmove, hfreed⟩ := freeByOpToken_move h
  unfold reclaimNotif
  rcases hfree : shard.inflight.freeByOpToken key.opToken with ⟨wasFreed, inflight⟩
  rw [hfree] at hmove hfreed
  cases hheld : shard.inflight.held key with
  | none =>
    rw [hheld] at hmove hfreed
    obtain rfl : wasFreed = false := hfreed
    obtain rfl := freeByOpToken_false hfree
    simpa [hheld] using markNotifReady_move h
  | some slot =>
    rw [hheld] at hmove hfreed
    cases hret : slot.retirePending with
    | true =>
      obtain rfl : wasFreed = true := by simpa [hret] using hfreed
      simpa only [Option.filter_some, hret, Bool.not_true, Bool.false_eq_true, if_false,
        Option.map_none] using hmove
    | false =>
      obtain rfl : wasFreed = false := by simpa [hret] using hfreed
      obtain rfl := freeByOpToken_false hfree
      simpa only [Option.filter_some, hheld, hret, Bool.not_false, if_true, Option.map_some]
        using markNotifReady_move h

def drainView (c : Completion) (view : Option InflightSlot) : Option InflightSlot :=
  if c.isNotif then (view.filter fun slot => !slot.retirePending).map .armNotif
  else if c.hasMore then view.map .expectNotif
  else view.filter fun slot => !slot.retirePending

def cancelView (result : Int) (view : Option InflightSlot) : Option InflightSlot :=
  if result = -2 then view.filter fun slot => !slot.isReclaimable else view

structure Unmarked (shard : IoShard) : Prop where
  accepts : shard.accepts.tokens = []
  providedRecvs : shard.providedRecvs.tokens = []
  connects : shard.connects.tokens = []

theorem Unmarked.slab (h : shard.Unmarked) (inflight : InflightBufSlab) :
    ({ shard with inflight } : IoShard).Unmarked := ⟨h.accepts, h.providedRecvs, h.connects⟩

theorem completeOne_owned (hidle : shard.Unmarked) (htask : isTaskToken c.token = true)
    (htoken : c.token = key.opToken) (hsole : shard.inflight.Sole key) :
    ∃ inflight tasks, (shard.completeOne c).2 = { shard with inflight, tasks } ∧
      shard.inflight.Move key inflight (drainView c (shard.inflight.held key)) := by
  cases hn : c.isNotif with
  | true =>
    rw [completeOne_notif htask hn, htoken]
    refine ⟨_, _, congrArg (·.wakeLocal key.opToken) (reclaimNotif_eq shard key.opToken), ?_⟩
    simpa [drainView, hn] using reclaimNotif_move hsole
  | false =>
    have hunrecorded : shard.disposeCancelledOp c.token c.result c.bufId = (false, shard) := by
      rcases disposeCancelledOp_cases shard c with ⟨kind, shard', hdisposed, _⟩ | ⟨_, heq⟩
      · cases hdisposed with
        | recycled id _ hmem => simp [hidle.providedRecvs] at hmem
        | connect hmem => simp [hidle.connects] at hmem
        | provided hmem => simp [hidle.providedRecvs] at hmem
        | accept hmem => simp [hidle.accepts] at hmem
      · exact heq
    rw [completeOne_task htask hn, hunrecorded]
    have hrest : shard.storeCompletion c =
        { shard with
          inflight := (shard.storeCompletion c).inflight
          tasks := (shard.storeCompletion c).tasks } := by
      unfold storeCompletion
      cases c.hasMore <;> rfl
    refine ⟨_, _, hrest, ?_⟩
    rw [storeCompletion_inflight, htoken]
    cases hm : c.hasMore with
    | true => simpa [drainView, hn, hm] using markNotifExpected_move hsole
    | false => simpa [drainView, hn, hm] using (freeByOpToken_move hsole).1

theorem completeOne_cancelled {id o : Nat} {requests : List Request} {r : Request}
    (h : SlotsSound id shard.inflight requests) (hr : requests[o]? = some r)
    (hkey : r.key = some key) (hn : c.isNotif = false) (htoken : c.token = encodeCancelSentinel key)
    (hfew : ∀ slot, shard.inflight.slots[key.slot]? = some slot →
      slot.generation < key.generation + 2 ^ 16) :
    ∃ inflight, (shard.completeOne c).2 = { shard with inflight } ∧
      shard.inflight.Move key inflight (cancelView c.result (shard.inflight.held key)) := by
  have hslot := h.slot_lt hr hkey
  have hsentinel : isCancelSentinel c.token = true := by
    rw [htoken]
    exact isCancelSentinel_encode (by omega) (by omega)
  rw [completeOne_cancel hsentinel hn, htoken]
  by_cases hgone : c.result = -2
  · obtain ⟨hdecode, hlow⟩ : (encodeCancelSentinel key &&& 0xFFFF).toNat = key.slot ∧
        ((encodeCancelSentinel key >>> 16) &&& 0xFFFF).toNat = key.generation % 2 ^ 16 :=
      encodeCancelSentinel_decode (by omega)
    refine ⟨_, by rw [reclaimCancelCompletion, if_neg (by simpa using hgone), hdecode, hlow], ?_⟩
    rw [cancelView, if_pos hgone]
    exact h.freeIfRetirePending_move hr hkey hfew
  · refine ⟨shard.inflight, by rw [reclaimCancelCompletion, if_pos (by simpa using hgone)], ?_⟩
    rw [cancelView, if_neg hgone]
    exact .same

theorem recordCancel_owned {id o : Nat} {requests : List Request} {r : Request}
    (h : SlotsSound id shard.inflight requests) (hr : requests[o]? = some r)
    (hkey : r.key = some key) (htask : isTaskToken key.opToken = true) :
    ∃ inflight, shard.recordCancel key = { shard with inflight } ∧
      shard.inflight.Move key inflight ((shard.inflight.held key).map .retire) := by
  have hslot := h.slot_lt hr hkey
  obtain ⟨_, _, _, _, hmulti, _⟩ := isTaskToken.unmarked htask
  have haccept : key.slot ≠ acceptCancelSlot := by unfold acceptCancelSlot; omega
  have hprovided : key.slot ≠ providedRecvCancelSlot := by unfold providedRecvCancelSlot; omega
  have hconnect : key.slot ≠ connectCancelSlot := by unfold connectCancelSlot; omega
  refine ⟨shard.inflight.markRetirePending key, ?_, h.markRetirePending_move hr hkey⟩
  simp [recordCancel, hmulti, haccept, hprovided, hconnect]

end IoShard

def KernelOp.IsRecent (op : KernelOp) (slab : InflightBufSlab) : Prop :=
  match op.role with
  | .owned _ _ => True
  | .cancel key => ∀ slot ∈ slab.slots[key.slot]?, slot.generation < key.generation + 2 ^ 16

instance decidableIsRecent (op : KernelOp) (slab : InflightBufSlab) : Decidable (op.IsRecent slab) :=
  match h : op.role with
  | .owned _ _ => .isTrue (by rw [KernelOp.IsRecent, h]; trivial)
  | .cancel key =>
    decidable_of_iff (∀ slot ∈ slab.slots[key.slot]?, slot.generation < key.generation + 2 ^ 16)
      (by rw [KernelOp.IsRecent, h])

end Kwokka
