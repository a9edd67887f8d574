import Kwokka.InflightSlab
import Mathlib.Data.List.Induction
import Mathlib.Data.List.Perm.Basic

/-! How a dropped operation is remembered until its completion arrives: the
`user_data` markers, the inbox a drop pushes to, and the token sets of the
operations that own no slot. -/

namespace Kwokka

def wakeFdUserData : UInt64 := 0xFFFFFFFFFFFFFFFF

def cancelTokenBase : UInt64 := 0xFFFFFFFF00000000

def cancelTokenHighMask : UInt64 := 0xFFFFFFFF00000000

def multishotTokenBase : UInt64 := 0xFFFFFFFE00000000

def recvMultishotTokenBase : UInt64 := 0xFFFFFFFD00000000

def msgRingWakeUserData : UInt64 := 0xFFFFFFFC00000000

def linkTimeoutDiscardUserData : UInt64 := 0xFFFFFFFB00000000

def encodeCancelSentinel (key : InflightSlotKey) : UInt64 :=
  cancelTokenBase ||| ((UInt64.ofNat key.generation &&& 0xFFFF) <<< 16) ||| UInt64.ofNat key.slot

def isCancelSentinel (userData : UInt64) : Bool :=
  userData &&& cancelTokenHighMask == cancelTokenBase && userData != wakeFdUserData

def isMultishotSentinel (userData : UInt64) : Bool :=
  userData &&& cancelTokenHighMask == multishotTokenBase

def isRecvMultishotSentinel (userData : UInt64) : Bool :=
  userData &&& cancelTokenHighMask == recvMultishotTokenBase

def isMsgRingWake (userData : UInt64) : Bool := userData == msgRingWakeUserData

def isLinkTimeoutDiscard (userData : UInt64) : Bool := userData == linkTimeoutDiscardUserData

def isTaskToken (userData : UInt64) : Bool := decide (userData.toNat < 2 ^ 63)

variable {userData base : UInt64} {high : Nat} {key : InflightSlotKey}

theorem le_of_and_eq {mask : UInt64} (h : userData &&& mask = base) :
    base.toNat ≤ userData.toNat := by
  rw [← h, UInt64.toNat_and]
  exact Nat.and_le_left

section TaskTokens

variable {userData : UInt64} (h : isTaskToken userData = true)

include h

theorem isTaskToken.and_ne {mask base : UInt64} (hbase : 2 ^ 63 ≤ base.toNat) :
    userData &&& mask ≠ base := by
  intro heq
  have := le_of_and_eq heq
  simp only [isTaskToken, decide_eq_true_eq] at h
  omega

theorem isTaskToken.ne {base : UInt64} (hbase : 2 ^ 63 ≤ base.toNat) : userData ≠ base := by
  rintro rfl
  simp only [isTaskToken, decide_eq_true_eq] at h
  omega

theorem isTaskToken.unmarked : userData ≠ wakeFdUserData ∧ isMsgRingWake userData = false ∧
    isLinkTimeoutDiscard userData = false ∧ isCancelSentinel userData = false ∧
    isMultishotSentinel userData = false ∧ isRecvMultishotSentinel userData = false := by
  refine ⟨isTaskToken.ne h (by decide), ?_, ?_, ?_, ?_, ?_⟩
  · simpa [isMsgRingWake] using isTaskToken.ne h (by decide)
  · simpa [isLinkTimeoutDiscard] using isTaskToken.ne h (by decide)
  · simp [isCancelSentinel, isTaskToken.and_ne h (by decide : 2 ^ 63 ≤ cancelTokenBase.toNat)]
  · simpa [isMultishotSentinel] using isTaskToken.and_ne h (by decide)
  · simpa [isRecvMultishotSentinel] using isTaskToken.and_ne h (by decide)

end TaskTokens

theorem toNat_marker {generation slot : Nat} (hbase : base.toNat = 2 ^ 32 * high)
    (hslot : slot < 2 ^ 16) :
    (base ||| ((UInt64.ofNat generation &&& 0xFFFF) <<< 16) ||| UInt64.ofNat slot).toNat =
      2 ^ 32 * high + (generation % 2 ^ 16 * 2 ^ 16 + slot) := by
  have hgen : (UInt64.ofNat generation &&& 0xFFFF).toNat = generation % 2 ^ 16 := by
    rw [UInt64.toNat_and, UInt64.toNat_ofNat', show (0xFFFF : UInt64).toNat = 2 ^ 16 - 1 from rfl,
      Nat.and_two_pow_sub_one_eq_mod]
    omega
  have hshift : ((UInt64.ofNat generation &&& 0xFFFF) <<< 16).toNat =
      2 ^ 16 * (generation % 2 ^ 16) := by
    rw [UInt64.toNat_shiftLeft, hgen, show (16 : UInt64).toNat % 64 = 16 from rfl,
      Nat.shiftLeft_eq]
    omega
  have hslot' : (UInt64.ofNat slot).toNat = slot := by
    rw [UInt64.toNat_ofNat']
    omega
  have hlow : 2 ^ 16 * (generation % 2 ^ 16) + slot < 2 ^ 32 := by omega
  rw [UInt64.toNat_or, UInt64.toNat_or, hshift, hslot', Nat.or_assoc,
    ← Nat.two_pow_add_eq_or_of_lt hslot, hbase, ← Nat.two_pow_add_eq_or_of_lt hlow]
  omega

theorem marker_decode {generation slot : Nat} (hslot : slot < 2 ^ 16)
    (hval : userData.toNat = 2 ^ 32 * high + (generation % 2 ^ 16 * 2 ^ 16 + slot)) :
    (userData &&& 0xFFFF).toNat = slot ∧
      ((userData >>> 16) &&& 0xFFFF).toNat = generation % 2 ^ 16 := by
  have hmask : (0xFFFF : UInt64).toNat = 2 ^ 16 - 1 := rfl
  constructor
  · rw [UInt64.toNat_and, hmask, Nat.and_two_pow_sub_one_eq_mod, hval]
    omega
  · rw [UInt64.toNat_and, hmask, Nat.and_two_pow_sub_one_eq_mod, UInt64.toNat_shiftRight, hval,
      show (16 : UInt64).toNat % 64 = 16 from rfl, Nat.shiftRight_eq_div_pow]
    omega

theorem and_highMask {low : Nat} (hhigh : high < 2 ^ 32) (hlow : low < 2 ^ 32) :
    (2 ^ 32 * high + low) &&& (2 ^ 32 * 0xFFFFFFFF) = 2 ^ 32 * high := by
  rw [Nat.two_pow_add_eq_or_of_lt hlow]
  apply Nat.eq_of_testBit_eq
  intro i
  rw [Nat.testBit_and, Nat.testBit_or, Nat.testBit_two_pow_mul, Nat.testBit_two_pow_mul]
  by_cases hi : 32 ≤ i
  · have hlow : low.testBit i = false :=
      Nat.testBit_lt_two_pow (Nat.lt_of_lt_of_le hlow (Nat.pow_le_pow_right (by decide) hi))
    have hmask : (0xFFFFFFFF : Nat).testBit (i - 32) = decide (i - 32 < 32) :=
      Nat.testBit_two_pow_sub_one 32 (i - 32)
    rw [hmask]
    by_cases hin : i - 32 < 32
    · simp [hi, hlow, hin]
    · have hout : high.testBit (i - 32) = false :=
        Nat.testBit_lt_two_pow (Nat.lt_of_lt_of_le hhigh (Nat.pow_le_pow_right (by decide)
          (by omega)))
      simp [hlow, hout]
  · simp [hi]

theorem marker_high {low : Nat} (hhigh : high < 2 ^ 32) (hlow : low < 2 ^ 32)
    (hbase : base.toNat = 2 ^ 32 * high) (hval : userData.toNat = 2 ^ 32 * high + low) :
    userData &&& cancelTokenHighMask = base := by
  apply UInt64.toNat_inj.mp
  have hmask : cancelTokenHighMask.toNat = 2 ^ 32 * 0xFFFFFFFF := rfl
  rw [UInt64.toNat_and, hval, hmask, hbase]
  exact and_highMask hhigh hlow

theorem toNat_encodeCancelSentinel (hslot : key.slot < 2 ^ 16) : (encodeCancelSentinel key).toNat =
      2 ^ 32 * 0xFFFFFFFF + (key.generation % 2 ^ 16 * 2 ^ 16 + key.slot) :=
  toNat_marker rfl hslot

theorem encodeCancelSentinel_decode (hslot : key.slot < 2 ^ 16) :
    (encodeCancelSentinel key &&& 0xFFFF).toNat = key.slot ∧
      ((encodeCancelSentinel key >>> 16) &&& 0xFFFF).toNat = key.generation % 2 ^ 16 :=
  marker_decode hslot (toNat_encodeCancelSentinel hslot)

theorem isCancelSentinel_encode (hslot : key.slot < 2 ^ 16)
    (hcorner : key.slot = 2 ^ 16 - 1 → key.generation % 2 ^ 16 ≠ 2 ^ 16 - 1) :
    isCancelSentinel (encodeCancelSentinel key) = true := by
  have hval := toNat_encodeCancelSentinel hslot
  have hne : encodeCancelSentinel key ≠ wakeFdUserData := by
    intro heq
    rw [heq, show wakeFdUserData.toNat = 2 ^ 64 - 1 from rfl] at hval
    omega
  have hhigh : encodeCancelSentinel key &&& cancelTokenHighMask = cancelTokenBase :=
    marker_high (by decide) (by omega) rfl hval
  simp [isCancelSentinel, hhigh, hne]

def defaultMultishotCap : Nat := 8

def cancelInboxCapacity : Nat := defaultInflightCap + defaultMultishotCap

/-- The ring of pending cancels, oldest first. A full ring drops the cancel. -/
structure CancelInbox where
  keys : List InflightSlotKey
deriving DecidableEq, Repr

namespace CancelInbox

def pushCancel (inbox : CancelInbox) (key : InflightSlotKey) : CancelInbox :=
  if cancelInboxCapacity ≤ inbox.keys.length then inbox else ⟨inbox.keys ++ [key]⟩

def pop (inbox : CancelInbox) : Option (InflightSlotKey × CancelInbox) :=
  match inbox.keys with
  | [] => none
  | key :: keys => some (key, ⟨keys⟩)

variable {inbox : CancelInbox} {key : InflightSlotKey}

theorem pop_eq_some {rest : CancelInbox} (h : inbox.pop = some (key, rest)) :
    ∃ keys, inbox.keys = key :: keys ∧ rest = ⟨keys⟩ := by
  unfold pop at h
  split at h
  · simp at h
  · next first keys hkeys =>
    cases h
    exact ⟨keys, hkeys, rfl⟩

theorem nodup_pushCancel (h : inbox.keys.Nodup) (hkey : key ∉ inbox.keys) :
    (inbox.pushCancel key).keys.Nodup := by
  unfold pushCancel
  split
  · exact h
  · exact List.nodup_append.mpr ⟨h, List.pairwise_singleton _ _, fun a ha b hb heq =>
      hkey (List.mem_singleton.mp hb ▸ heq ▸ ha)⟩

theorem mem_pushCancel {k : InflightSlotKey} (h : k ∈ (inbox.pushCancel key).keys) :
    k ∈ inbox.keys ∨ k = key := by
  unfold pushCancel at h
  split at h
  · exact .inl h
  · simpa using h

end CancelInbox

def acceptCancelCapacity : Nat := 32

def providedRecvCancelCapacity : Nat := defaultInflightCap

def connectCancelCapacity : Nat := 8

def acceptCancelSlot : Nat := 2 ^ 16 - 1

def providedRecvCancelSlot : Nat := 2 ^ 16 - 2

def connectCancelSlot : Nat := 2 ^ 16 - 3

/-- `AcceptCancelSet`, `ProvidedRecvCancelSet` and `ConnectCancelSet`, which differ in
their capacity: the tokens packed in `[0, len)`. -/
structure CancelSet (capacity : Nat) where
  tokens : List UInt64
deriving DecidableEq, Repr

namespace CancelSet

variable {capacity : Nat}

def empty : CancelSet capacity := ⟨[]⟩

def isEmpty (set : CancelSet capacity) : Bool := set.tokens.isEmpty

def insert (set : CancelSet capacity) (token : UInt64) : CancelSet capacity :=
  if set.tokens.length < capacity then ⟨set.tokens ++ [token]⟩ else set

def take (set : CancelSet capacity) (token : UInt64) : Bool × CancelSet capacity :=
  match set.tokens.findIdx? (· == token) with
  | some i => (true, ⟨(set.tokens.set i (set.tokens.getLastD 0)).dropLast⟩)
  | none => (false, set)

variable {set : CancelSet capacity} {token : UInt64}

theorem take_fst : (set.take token).1 = true ↔ token ∈ set.tokens := by
  cases h : set.tokens.findIdx? (· == token) with
  | none =>
    have hnone := List.findIdx?_eq_none_iff.mp h
    simp only [take, h, Bool.false_eq_true, false_iff]
    intro hmem
    simpa using hnone token hmem
  | some =>
    obtain ⟨hi, hp, _⟩ := List.findIdx?_eq_some_iff_getElem.mp h
    simp only [take, h, true_iff]
    exact (beq_iff_eq.mp hp) ▸ List.getElem_mem hi

theorem set_last_dropLast_perm {α : Type*} {xs : List α} {i : Nat} (hi : i < xs.length) (d : α) :
    (xs[i] :: (xs.set i (xs.getLastD d)).dropLast).Perm xs := by
  induction xs using List.reverseRecOn with
  | nil => simp at hi
  | append_singleton xs last _ =>
    have hlast : (xs ++ [last]).getLastD d = last := by simp [List.getLastD_eq_getLast?]
    rw [hlast]
    by_cases h : i < xs.length
    · rw [List.set_append_left i last h, List.dropLast_concat, List.getElem_append_left h]
      have hperm : (xs[i] :: xs.set i last).Perm (last :: xs) := by
        have hset := List.set_eq_take_append_cons_drop (l := xs) (i := i) (a := last)
        rw [if_pos h] at hset
        rw [hset]
        have hsplit : xs = xs.take i ++ xs[i] :: xs.drop (i + 1) := by simp
        refine ((List.perm_middle (a := last)).cons _).trans ?_
        refine (List.Perm.swap _ _ _).trans (List.Perm.cons _ ?_)
        conv => rhs; rw [hsplit]
        exact List.perm_middle.symm
      exact hperm.trans (List.perm_append_singleton last xs).symm
    · have hieq : i = xs.length := by simp at hi; omega
      subst hieq
      simpa using (List.perm_append_singleton last xs).symm

theorem take_perm (h : token ∈ set.tokens) :
    (token :: (set.take token).2.tokens).Perm set.tokens := by
  cases hfind : set.tokens.findIdx? (· == token) with
  | none =>
    have := List.findIdx?_eq_none_iff.mp hfind token h
    simp at this
  | some i =>
    obtain ⟨hi, hp, _⟩ := List.findIdx?_eq_some_iff_getElem.mp hfind
    have heq : set.tokens[i] = token := beq_iff_eq.mp hp
    have hperm := set_last_dropLast_perm hi 0
    simp only [take, hfind]
    rwa [heq] at hperm

theorem take_of_notMem (h : token ∉ set.tokens) : set.take token = (false, set) := by
  have hfst : (set.take token).1 = false := by
    cases hb : (set.take token).1
    · rfl
    · exact absurd (take_fst.mp hb) h
  unfold take at hfst ⊢
  split at hfst
  · simp at hfst
  · simp

end CancelSet

end Kwokka
