import Kwokka.BufLedger
import Kwokka.IoSound

/-! When the completion drain frees a slot, the kernel is done with its bytes: in a
worker whose tasks have one request at a time, the last completion of the operation
submitted on the slot was posted. -/

namespace Kwokka

open Table Runs InflightBufSlab

namespace InflightBufSlab

variable {slab slab' : InflightBufSlab} {key : InflightSlotKey} {i : Nat}
  {f : InflightSlot → InflightSlot} {token : UInt64}

def Ages (slab slab' : InflightBufSlab) : Prop :=
  ∀ (i : Nat) slot slot', slab.slots[i]? = some slot →
    slab'.slots[i]? = some slot' → slot.generation ≤ slot'.generation

theorem ages_refl : slab.Ages slab := by
  intro i slot slot' hslot hslot'
  cases hslot.symm.trans hslot'
  exact Nat.le_refl _

theorem ages_modify (hf : ∀ s, s.generation ≤ (f s).generation) : slab.Ages (slab.modify i f) := by
  intro j slot slot' hslot hslot'
  rcases modify_eq_some.mp hslot' with ⟨_, hslot'⟩ | ⟨rfl, old, hold, rfl⟩
  · exact ages_refl j slot slot' hslot hslot'
  · cases hslot.symm.trans hold
    exact hf slot

theorem ages_mark (hf : InflightSlot.IsMark f) : slab.Ages (slab.modify i f) :=
  ages_modify fun s => (hf s).2.1.ge

theorem ages_release : slab.Ages (slab.modify i .release) := ages_modify fun _ => Nat.le_succ _

theorem ages_free : slab.Ages (slab.free key) := by
  unfold free
  split
  · exact ages_release
  · exact ages_refl

/-- The slab after a completion under `token`: a flag is set, or a slot that carries it is freed. -/
inductive Handled (slab : InflightBufSlab) (token : UInt64) : InflightBufSlab → Prop
  | same : Handled slab token slab
  | marked (i : Nat) {f : InflightSlot → InflightSlot} (mark : InflightSlot.IsMark f) :
      Handled slab token (slab.modify i f)
  | freed {i : Nat} {slot : InflightSlot} (row : slab.slots[i]? = some slot)
      (carries : slot.opToken = token) : Handled slab token (slab.modify i .release)

theorem Handled.ages (h : slab.Handled token slab') : slab.Ages slab' := by
  cases h with
  | same => exact ages_refl
  | marked i mark => exact ages_mark mark
  | freed => exact ages_release

theorem held_mark (hf : InflightSlot.IsMark f) (hnone : (slab.modify i f).held key = none) :
    slab.held key = none := by
  cases hheld : slab.held key with
  | none => rfl
  | some slot =>
    by_cases hi : key.slot = i
    · subst hi
      rw [(Move.marked slot f hheld hf).own] at hnone
      cases hnone
    · rw [held_modify_ne hi, hheld] at hnone
      cases hnone

theorem slot_of_released (hheld : slab.held key ≠ none)
    (hnone : (slab.modify i .release).held key = none) : key.slot = i := by
  by_contra hne
  rw [held_modify_ne hne] at hnone
  exact hheld hnone

theorem Handled.carries (h : slab.Handled token slab') (hheld : slab.held key ≠ none)
    (hnone : slab'.held key = none) : key.opToken = token := by
  cases h with
  | same => exact absurd hnone hheld
  | marked i mark => exact absurd (held_mark mark hnone) hheld
  | freed row carries =>
    obtain rfl := slot_of_released hheld hnone
    obtain ⟨slot, hslot⟩ := Option.ne_none_iff_exists'.mp hheld
    obtain ⟨hrow, hholds⟩ := held_eq_some.mp hslot
    cases row.symm.trans hrow
    exact hholds.opToken.symm.trans carries

theorem freeByOpToken_handled : slab.Handled token (slab.freeByOpToken token).2 := by
  rcases freeByOpToken_spec with ⟨i, slot, hslot, _, _, htok, heq⟩ | heq
  · rw [heq]
    exact .freed hslot htok
  · rw [heq]
    exact .same

theorem tokenMatch_handled (hf : InflightSlot.IsMark f) :
    slab.Handled token (match slab.tokenMatch token with
      | some i => slab.modify i f
      | none => slab) := by
  split
  · exact .marked _ hf
  · exact .same

end InflightBufSlab

namespace IoShard

theorem reclaimNotif_handled (shard : IoShard) (token : UInt64) :
    shard.inflight.Handled token (shard.reclaimNotif token).inflight := by
  unfold reclaimNotif
  split
  · next inflight heq =>
    have hfreed := @InflightBufSlab.freeByOpToken_handled shard.inflight token
    rwa [heq] at hfreed
  · next inflight heq =>
    rw [freeByOpToken_false heq]
    exact tokenMatch_handled InflightSlot.isMark_armNotif

theorem storeCompletion_handled (shard : IoShard) (c : Completion) :
    shard.inflight.Handled c.token (shard.storeCompletion c).inflight := by
  rw [storeCompletion_inflight]
  split
  · exact tokenMatch_handled InflightSlot.isMark_expectNotif
  · exact freeByOpToken_handled

end IoShard

theorem IoFuture.PollEffect.ages {this : IoFuture} {token : UInt64} {seam : IoSeam}
    {step : IoFuture.Step} (h : PollEffect this token seam step) :
    seam.slab.Ages step.seam.slab := by
  cases h with
  | refused poll hasFallenBack slab idle returned =>
    rcases returned with rfl | ⟨key, slab', halloc, rfl⟩
    · exact ages_refl
    · rw [free_allocate halloc]
      exact ages_modify fun _ => Nat.le_succ _
  | slot key slab zeroCopy wasZeroCopy idle buffered zc allocated =>
    obtain ⟨_, _, _, _, rfl⟩ := allocate_spec allocated
    exact ages_modify fun _ => Nat.le_refl _
  | resolved =>
    split
    · exact ages_free
    · exact ages_refl
  | released => exact ages_free
  | fallback => exact ages_free
  | _ => exact ages_refl

def KernelOp.ReportsGone (op : KernelOp) (ops : List KernelOp) (result : Int) : Prop :=
  match op.role with
  | .owned _ _ => True
  | .cancel key => result = -2 →
    ∀ target ∈ ops, target.userData = key.opToken → target.stage.isFinal = true

instance decidableReportsGone (op : KernelOp) (ops : List KernelOp) (result : Int) :
    Decidable (op.ReportsGone ops result) :=
  match h : op.role with
  | .owned _ _ => .isTrue (by rw [KernelOp.ReportsGone, h]; trivial)
  | .cancel key =>
    decidable_of_iff (result = -2 →
      ∀ target ∈ ops, target.userData = key.opToken → target.stage.isFinal = true)
      (by rw [KernelOp.ReportsGone, h])

namespace IoWorld

def Event.polled : Event → Option Nat
  | .pollFuture f _ _ => some f
  | _ => none

/-- A request, of whatever kind, is made only when no occupied slot carries its task's token and
every earlier request under it has had its last completion handled. -/
def Apart (w : IoWorld) (e : Event) : Prop :=
  ∀ f ∈ e.polled, ∀ entry ∈ w.futures[f]?, entry.status = .live → entry.future.submitted = none →
    (∀ slot ∈ w.shard.inflight.slots, slot.occupied = true → slot.opToken ≠ entry.owner) ∧
      ∀ op ∈ w.ops, op.isPendingFor entry.owner = false
deriving Decidable

/-- A cancel that answered `-ENOENT` finds no unfinished request under its target's token, and no
slot is reused 2^16 times while a cancel's completion is outstanding. What is finished stays so:
an answer that was right when it was posted is right when it is handled. -/
def AnswersTruly (w : IoWorld) : Event → Prop
  | .complete => (∀ op ∈ w.ops, op.isFinalDrained = false → op.IsRecent w.shard.inflight) ∧
    ∀ entry ∈ w.batch.head?, ∀ o ∈ entry.1, ∀ op ∈ w.ops[o]?, op.ReportsGone w.ops entry.2.result
  | _ => True

instance decidableAnswersTruly (w : IoWorld) : ∀ e, Decidable (w.AnswersTruly e)
  | .complete => inferInstanceAs (Decidable (_ ∧ ∀ _ ∈ w.batch.head?, _))
  | .post .. | .postForeign .. | .drainCancel .. | .readCompletions | .wake .. | .spawn .. |
    .cancelTask .. | .reap .. | .startPoll .. | .create .. | .pollFuture .. | .endPoll .. |
    .drop .. | .endPass => .isTrue trivial

def KeepsApart (w : IoWorld) (e : Event) : Prop := w.Apart e ∧ w.AnswersTruly e
deriving Decidable

section Steps

variable {w w' : IoWorld} {e : Event} {o : Nat} {op : KernelOp} {key : InflightSlotKey}

theorem Effect.ages (he : Effect w e w') : w.shard.inflight.Ages w'.shard.inflight := by
  cases he with
  | @cancelDrained key keys =>
    rcases (IoShard.recordCancel_frame { w.shard with cancelInbox := ⟨keys⟩ } key).2.2.2 with heq | heq
    · rw [heq]
      exact ages_refl
    · rw [heq, markRetirePending]
      split
      · exact ages_mark InflightSlot.isMark_retire
      · exact ages_refl
  | @cancelAnswered o op key c =>
    unfold IoShard.reclaimCancelCompletion
    split
    · exact ages_refl
    · rcases freeIfRetirePending_spec ((c.token >>> 16) &&& 0xFFFF).toNat with
        ⟨_, _, _, _, _, _, heq⟩ | heq
      · rw [heq]
        exact ages_release
      · rw [heq]
        exact ages_refl
  | notified => exact (w.shard.reclaimNotif_handled _).ages
  | disposed _ _ _ _ _ _ disposal =>
    rw [disposal.frame.2.2.1]
    exact ages_refl
  | stored => exact (w.shard.storeCompletion_handled _).ages
  | polled opened row live owner effect => exact effect.ages
  | @dropped f entry => cases entry.future.submitted <;> exact ages_refl
  | _ => exact ages_refl

/-- An allocation that has ended does not come back. -/
theorem Sound.held_step (h : w.Sound) (he : Effect w e w') (hop : w.ops[o]? = some op)
    (hkey : op.key = some key) (hkept : w'.shard.inflight.held key ≠ none) :
    w.shard.inflight.held key ≠ none := by
  obtain ⟨slot', hheld⟩ := Option.ne_none_iff_exists'.mp hkept
  obtain ⟨hslot', hholds'⟩ := held_eq_some.mp hheld
  obtain ⟨_, _, slot, hslot, hstate⟩ := h.slots.keyed o _ key (map_row hop) hkey
  have hle := he.ages key.slot slot slot' hslot hslot'
  rw [hholds'.generation] at hle
  simp [held_eq_some.mpr ⟨hslot, hstate.resolve_left (Nat.not_lt.mpr hle)⟩]

/-- One request of a task at a time: whoever waits for a completion under the token of an occupied
slot is the request that holds it. -/
structure Attended (w : IoWorld) : Prop where
  sound : w.Sound
  alone : ∀ (o p : Nat) a b f kind key,
    w.ops[o]? = some a → w.ops[p]? = some b → a.role = .owned f kind → a.isFinalDrained = false →
    b.key = some key → w.shard.inflight.held key ≠ none → a.userData = key.opToken → o = p

theorem Attended.alone_step (hw : w.Attended) (h' : w'.Sound) (he : Effect w e w')
    (hapart : w.Apart e) (o p : Nat) (a b : KernelOp) (f : Nat) (kind : FutureKind)
    (key : InflightSlotKey) (ha : w'.ops[o]? = some a) (hb : w'.ops[p]? = some b)
    (hrole : a.role = .owned f kind) (hpending : a.isFinalDrained = false)
    (hkey : b.key = some key) (hheld : w'.shard.inflight.held key ≠ none)
    (htoken : a.userData = key.opToken) : o = p := by
  have h := hw.sound
  obtain ⟨_, huser, _⟩ := h'.slots.keyed p _ key (map_row hb) hkey
  rcases he.earlier ha with ⟨old, hold, hlater⟩ | ⟨rfl, hadded⟩
  · have hundrained : old.isFinalDrained = false := by
      cases hfinal : old.isFinalDrained with
      | false => rfl
      | true => rw [hlater.final hfinal] at hpending; cases hpending
    have htok : old.userData = key.opToken :=
      (congrArg (fun r : Request => r.userData) hlater.request).symm.trans htoken
    rcases he.earlier hb with ⟨old', hold', hlater'⟩ | ⟨rfl, hadded⟩
    · have hkey' : old'.key = some key := hlater'.key.symm.trans hkey
      exact hw.alone o p old old' f kind key hold hold' (hlater.role ▸ hrole) hundrained hkey'
        (h.held_step he hold' hkey' hheld) htok
    · cases hadded with
      | cancel => cases hkey
      | submission _ _ row live idle owner =>
        have hnot := (hapart _ rfl _ row live idle).2 old (List.mem_of_getElem? hold)
        have hthis : old.isPendingFor _ = true :=
          KernelOp.isPendingFor_iff.mpr ⟨htok.trans (huser.trans owner), hundrained⟩
        rw [hthis] at hnot
        cases hnot
  · cases hadded with
    | cancel => cases hrole
    | submission _ _ row live idle owner =>
      rcases he.earlier hb with ⟨old', hold', hlater'⟩ | ⟨rfl, _⟩
      · have hheld := h.held_step he hold' (hlater'.key.symm.trans hkey) hheld
        obtain ⟨slot, hslot⟩ := Option.ne_none_iff_exists'.mp hheld
        obtain ⟨hslot, hholds⟩ := held_eq_some.mp hslot
        refine absurd (hholds.opToken.trans (htoken.symm.trans owner)) ?_
        exact (hapart _ rfl _ row live idle).1 slot (List.mem_of_getElem? hslot) hholds.occupied
      · rfl

theorem Attended.step (h : w.Attended) (hc : w.KeepsApart e) : (w.step e).Attended :=
  have he := step_effect h.sound e
  have hsound := h.sound.step e
  ⟨hsound, h.alone_step hsound he hc.1⟩

theorem Attended.init (id cap : Nat) : (IoWorld.init id cap).Attended :=
  ⟨init_sound id cap, by simp [IoWorld.init]⟩

end Steps

end IoWorld

end Kwokka
