import Kwokka.MultishotRegistry
import Kwokka.Slab

/-! The classes of completions: the markers and the task tokens share one `u64` without meeting. -/

namespace Kwokka

inductive CompletionClass
  | wakeFd
  | cancel
  | multishot
  | recvMultishot
  | msgRingWake
  | linkTimeoutDiscard
deriving DecidableEq, Repr

namespace CompletionClass

def applies (userData : UInt64) : CompletionClass → Bool
  | wakeFd => userData == wakeFdUserData
  | cancel => isCancelSentinel userData
  | multishot => isMultishotSentinel userData
  | recvMultishot => isRecvMultishotSentinel userData
  | msgRingWake => isMsgRingWake userData
  | linkTimeoutDiscard => isLinkTimeoutDiscard userData

def base : CompletionClass → UInt64
  | wakeFd => cancelTokenBase
  | cancel => cancelTokenBase
  | multishot => multishotTokenBase
  | recvMultishot => recvMultishotTokenBase
  | msgRingWake => msgRingWakeUserData
  | linkTimeoutDiscard => linkTimeoutDiscardUserData

variable {userData : UInt64} {c c' : CompletionClass}

theorem applies_base (h : c.applies userData = true) : userData &&& cancelTokenHighMask = c.base := by
  cases c with
  | cancel => exact beq_iff_eq.mp (Bool.and_eq_true_iff.mp h).1
  | multishot => exact beq_iff_eq.mp h
  | recvMultishot => exact beq_iff_eq.mp h
  | _ =>
    rw [beq_iff_eq.mp h]
    rfl

theorem applies_unique (h : c.applies userData = true) (h' : c'.applies userData = true) : c = c' := by
  have hbase : c.base = c'.base := (applies_base h).symm.trans (applies_base h')
  have hwake : wakeFd.applies userData = true → cancel.applies userData = false := by
    intro hwake
    rw [beq_iff_eq.mp hwake]
    rfl
  cases c <;> cases c'
  case wakeFd.cancel => exact absurd h' (by rw [hwake h]; decide)
  case cancel.wakeFd => exact absurd h (by rw [hwake h']; decide)
  all_goals first | rfl | cases hbase

end CompletionClass

/-- `userData` is in class `c` and in no other, and names a slot and the low bits of a generation. -/
structure Marks (c : CompletionClass) (slot generation : Nat) (userData : UInt64) : Prop where
  only : ∀ c', c'.applies userData = true ↔ c' = c
  slot : multishotSentinelSlot userData = slot
  generation : multishotSentinelGeneration userData = generation % 2 ^ 16

/-- `SlabKey::new` and `to_bits`. -/
def slabKeyBits (index : UInt32) (generation : Generation) : UInt64 :=
  (UInt64.ofNat generation.val <<< 32) ||| index.toUInt64

/-- `TaskRef::from_slab`. -/
def fromSlab (workerId : UInt8) (index : UInt32) (generation : Generation) : UInt64 :=
  ((workerId &&& 127).toUInt64 <<< 56) ||| slabKeyBits index generation

theorem isTaskToken_fromSlab (workerId : UInt8) (index : UInt32) (generation : Generation) :
    isTaskToken (fromSlab workerId index generation) = true := by
  have hworker : (workerId &&& 127).toNat < 2 ^ 7 := by
    exact Nat.lt_of_le_of_lt Nat.and_le_right (by decide)
  have hindex := index.toNat_lt
  simp only [isTaskToken, fromSlab, slabKeyBits, decide_eq_true_eq, UInt64.toNat_or,
    UInt64.toNat_shiftLeft, UInt8.toNat_toUInt64, UInt32.toNat_toUInt64, UInt64.toNat_ofNat']
  refine Nat.or_lt_two_pow ?_ (Nat.or_lt_two_pow ?_ ?_)
  · rw [show (56 : UInt64).toNat % 64 = 56 from rfl, Nat.shiftLeft_eq]
    omega
  · rw [show (32 : UInt64).toNat % 64 = 32 from rfl, Nat.shiftLeft_eq]
    omega
  · omega

theorem marks_of_applies {c : CompletionClass} {slot generation : Nat} {userData : UInt64}
    (h : c.applies userData = true) (hslot : multishotSentinelSlot userData = slot)
    (hgeneration : multishotSentinelGeneration userData = generation % 2 ^ 16) :
    Marks c slot generation userData :=
  ⟨fun _ => ⟨fun h' => CompletionClass.applies_unique h' h, fun heq => heq ▸ h⟩, hslot, hgeneration⟩

theorem marks_cancel {key : InflightSlotKey} (hslot : key.slot < 2 ^ 16)
    (hcorner : key.slot = 2 ^ 16 - 1 → key.generation % 2 ^ 16 ≠ 2 ^ 16 - 1) :
    Marks .cancel key.slot key.generation (encodeCancelSentinel key) :=
  marks_of_applies (isCancelSentinel_encode hslot hcorner) (encodeCancelSentinel_decode hslot).1
    (encodeCancelSentinel_decode hslot).2

/-- Some state of the registry, which never changes its number of slots, issues the key. -/
def InflightBufSlab.Issues (slab : InflightBufSlab) (key : InflightSlotKey) : Prop :=
  ∃ slots token next, slots.length = slab.cap ∧
    ({ slab with slots } : InflightBufSlab).allocate token = some (key, next)

def MultishotRegistry.Issues {ρ : Type} (r : MultishotRegistry ρ) (key : MultishotKey) : Prop :=
  ∃ slots owner next, ({ r with slots } : MultishotRegistry ρ).allocate owner = some (key, next)

theorem InflightBufSlab.Issues.slot_lt {slab : InflightBufSlab} {key : InflightSlotKey}
    (h : slab.Issues key) : key.slot < slab.cap := by
  obtain ⟨slots, token, next, hlength, h⟩ := h
  simp only [allocate, Option.bind_eq_bind, Option.bind_eq_some_iff, Option.some.injEq,
    Prod.mk.injEq] at h
  obtain ⟨i, -, slot, hslot, rfl, -⟩ := h
  exact hlength ▸ (List.getElem?_eq_some_iff.mp hslot).1

theorem MultishotRegistry.Issues.slot_lt {ρ : Type} {r : MultishotRegistry ρ} {key : MultishotKey}
    (h : r.Issues key) : key.slot < r.cap := by
  obtain ⟨slots, owner, next, h⟩ := h
  unfold allocate at h
  split at h
  · cases h
  · next i hfree =>
    obtain ⟨rfl, -⟩ := h
    exact (firstFree_some hfree).1

theorem IsMarkerOf.marks {base userData : UInt64} {key : MultishotKey} {c : CompletionClass}
    (h : IsMarkerOf base key userData) (hc : c.applies userData = true) :
    Marks c key.slot key.generation userData := by
  refine marks_of_applies hc h.slot (h.generation.trans ?_)
  exact (Nat.mod_mod_of_dvd _ (by decide)).symm

theorem completion_classes_disjoint :
    (∀ userData (c c' : CompletionClass), c.applies userData = true →
      c'.applies userData = true → c = c') ∧
    (∀ workerId index generation (c : CompletionClass),
      c.applies (fromSlab workerId index generation) = false) ∧
    (∀ workerId cap key, (InflightBufSlab.new workerId cap).Issues key →
      Marks .cancel key.slot key.generation (encodeCancelSentinel key)) ∧
    (∀ ρ workerId cap key,
      (.new workerId cap defaultMultishotCap : MultishotRegistry ρ).Issues key →
      Marks .multishot key.slot key.generation (encodeMultishotSentinel key)) ∧
    (∀ ρ workerId cap key,
      (.new workerId cap defaultRecvMultishotCap : MultishotRegistry ρ).Issues key →
      Marks .recvMultishot key.slot key.generation (encodeRecvMultishotSentinel key)) ∧
    ∀ slot ∈ [acceptCancelSlot, providedRecvCancelSlot, connectCancelSlot], ∀ workerId
      token, Marks .cancel slot 0 (encodeCancelSentinel ⟨slot, 0, workerId, token⟩) := by
  refine ⟨fun _ _ _ => CompletionClass.applies_unique, ?_, ?_, ?_, ?_, ?_⟩
  · intro workerId index generation c
    obtain ⟨hwake, hmsg, htimeout, hcancel, hmultishot, hrecv⟩ :=
      isTaskToken.unmarked (isTaskToken_fromSlab workerId index generation)
    cases c with
    | wakeFd => exact beq_eq_false_iff_ne.mpr hwake
    | cancel => exact hcancel
    | multishot => exact hmultishot
    | recvMultishot => exact hrecv
    | msgRingWake => exact hmsg
    | linkTimeoutDiscard => exact htimeout
  · intro workerId cap key h
    have hcap : (InflightBufSlab.new workerId cap).cap ≤ 256 := by
      simp [InflightBufSlab.cap, InflightBufSlab.new, defaultInflightCap]
    have hslot := h.slot_lt
    exact marks_cancel (by omega) (by omega)
  · intro ρ workerId cap key h
    have hslot : key.slot < 8 := Nat.lt_of_lt_of_le h.slot_lt (Nat.min_le_right ..)
    have hmarker := isMarkerOf_encodeMultishotSentinel (show key.slot < 2 ^ 16 by omega)
    exact hmarker.marks (beq_iff_eq.mpr hmarker.high)
  · intro ρ workerId cap key h
    have hslot : key.slot < 256 := Nat.lt_of_lt_of_le h.slot_lt (Nat.min_le_right ..)
    have hmarker := isMarkerOf_encodeRecvMultishotSentinel (show key.slot < 2 ^ 16 by omega)
    exact hmarker.marks (beq_iff_eq.mpr hmarker.high)
  · intro slot hslot workerId token
    have hlt : slot < 2 ^ 16 := by
      revert slot
      decide
    exact @marks_cancel ⟨slot, 0, workerId, token⟩ hlt (fun _ => by simp)

end Kwokka
