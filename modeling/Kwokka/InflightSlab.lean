import Kwokka.Table

/-! The per-worker registry of in-flight buffers. Each slot carries the bytes of
one submitted operation, the `user_data` it was submitted under, and a
generation that moves on whenever the slot is freed. -/

namespace Kwokka

/-- `generation` is the `u64` counter captured at allocation. -/
structure InflightSlotKey where
  slot : Nat
  generation : Nat
  workerId : Nat
  opToken : UInt64
deriving DecidableEq, Repr

/-- One slot's row of the occupancy, retire and notification bitmaps. -/
structure InflightSlot where
  occupied : Bool
  retirePending : Bool
  notifExpected : Bool
  notifReady : Bool
  generation : Nat
  opToken : UInt64
deriving DecidableEq, Repr

namespace InflightSlot

def empty : InflightSlot := ⟨false, false, false, false, 0, 0⟩

def occupy (opToken : UInt64) (slot : InflightSlot) : InflightSlot :=
  { slot with occupied := true, opToken }

def release (slot : InflightSlot) : InflightSlot :=
  { slot with
    occupied := false
    retirePending := false
    notifExpected := false
    notifReady := false
    generation := slot.generation + 1 }

def retire (slot : InflightSlot) : InflightSlot := { slot with retirePending := true }

def expectNotif (slot : InflightSlot) : InflightSlot := { slot with notifExpected := true }

def armNotif (slot : InflightSlot) : InflightSlot := { slot with notifReady := true }

/-- `f` changes flags only. -/
def IsMark (f : InflightSlot → InflightSlot) : Prop :=
  ∀ slot, (f slot).occupied = slot.occupied ∧ (f slot).generation = slot.generation ∧
    (f slot).opToken = slot.opToken

theorem isMark_retire : IsMark retire := fun _ => ⟨rfl, rfl, rfl⟩

theorem isMark_expectNotif : IsMark expectNotif := fun _ => ⟨rfl, rfl, rfl⟩

theorem isMark_armNotif : IsMark armNotif := fun _ => ⟨rfl, rfl, rfl⟩

end InflightSlot

def inflightBufStride : Nat := 4096

def defaultInflightCap : Nat := 256

/-- The bitmaps are scanned from slot 0 up, so the slots are a list in that order. -/
structure InflightBufSlab where
  workerId : Nat
  slots : List InflightSlot
deriving DecidableEq, Repr

namespace InflightBufSlab

def new (workerId cap : Nat) : InflightBufSlab :=
  ⟨workerId, List.replicate (min cap defaultInflightCap) .empty⟩

def cap (slab : InflightBufSlab) : Nat := slab.slots.length

def modify (slab : InflightBufSlab) (i : Nat) (f : InflightSlot → InflightSlot) :
    InflightBufSlab :=
  { slab with slots := slab.slots.modify i f }

def isLive (slab : InflightBufSlab) (key : InflightSlotKey) : Bool :=
  key.workerId == slab.workerId &&
    slab.slots[key.slot]?.any fun slot => slot.occupied && slot.generation == key.generation

def firstFree (slab : InflightBufSlab) : Option Nat :=
  slab.slots.findIdx? fun slot => !slot.occupied

def allocate (slab : InflightBufSlab) (opToken : UInt64) :
    Option (InflightSlotKey × InflightBufSlab) := do
  let i ← slab.firstFree
  let slot ← slab.slots[i]?
  some (⟨i, slot.generation, slab.workerId, opToken⟩, slab.modify i (·.occupy opToken))

def free (slab : InflightBufSlab) (key : InflightSlotKey) : InflightBufSlab :=
  if slab.isLive key then slab.modify key.slot .release else slab

def markRetirePending (slab : InflightBufSlab) (key : InflightSlotKey) : InflightBufSlab :=
  if slab.isLive key then slab.modify key.slot .retire else slab

def retireMatch (slab : InflightBufSlab) (opToken : UInt64) : Option Nat :=
  slab.slots.findIdx? fun slot => slot.retirePending && (slot.opToken == opToken && slot.occupied)

/-- Returns `was_freed` with the slab. -/
def freeByOpToken (slab : InflightBufSlab) (opToken : UInt64) : Bool × InflightBufSlab :=
  match slab.retireMatch opToken with
  | some i => (true, slab.modify i .release)
  | none => (false, slab)

def freeIfRetirePending (slab : InflightBufSlab) (i generationLow16 : Nat) : InflightBufSlab :=
  match slab.slots[i]? with
  | some slot =>
    if !slot.occupied || !slot.retirePending || slot.generation % 2 ^ 16 != generationLow16 ||
        (slot.notifExpected && !slot.notifReady) then slab
    else slab.modify i .release
  | none => slab

def tokenMatch (slab : InflightBufSlab) (opToken : UInt64) : Option Nat :=
  slab.slots.findIdx? fun slot => slot.occupied && slot.opToken == opToken

def markNotifExpectedByOpToken (slab : InflightBufSlab) (opToken : UInt64) : InflightBufSlab :=
  match slab.tokenMatch opToken with
  | some i => slab.modify i .expectNotif
  | none => slab

def markNotifReadyByOpToken (slab : InflightBufSlab) (opToken : UInt64) : InflightBufSlab :=
  match slab.tokenMatch opToken with
  | some i => slab.modify i .armNotif
  | none => slab

def isNotifReady (slab : InflightBufSlab) (key : InflightSlotKey) : Bool :=
  slab.isLive key && slab.slots[key.slot]?.any (·.notifReady)

variable {slab : InflightBufSlab} {i j : Nat} {slot : InflightSlot} {key : InflightSlotKey}
  {opToken : UInt64}

@[simp]
theorem length_modify (f : InflightSlot → InflightSlot) :
    (slab.modify i f).slots.length = slab.slots.length := by
  simp [modify]

theorem modify_eq_some {f : InflightSlot → InflightSlot} :
    (slab.modify i f).slots[j]? = some slot ↔
      (j ≠ i ∧ slab.slots[j]? = some slot) ∨
        (j = i ∧ ∃ old, slab.slots[i]? = some old ∧ slot = f old) := Table.modify_eq_some

theorem isLive_iff : slab.isLive key = true ↔ key.workerId = slab.workerId ∧
    ∃ slot, slab.slots[key.slot]? = some slot ∧ slot.occupied = true ∧
      slot.generation = key.generation := by
  cases h : slab.slots[key.slot]? <;> simp [isLive, h]

theorem findIdx_spec {p : InflightSlot → Bool} (h : slab.slots.findIdx? p = some i) :
    ∃ slot, slab.slots[i]? = some slot ∧ p slot = true ∧
      ∀ j other, j < i → slab.slots[j]? = some other → p other = false := by
  obtain ⟨hi, hp, hbefore⟩ := List.findIdx?_eq_some_iff_getElem.mp h
  refine ⟨slab.slots[i], List.getElem?_eq_getElem hi, hp, ?_⟩
  intro j other hj hother
  obtain ⟨hlt, rfl⟩ := List.getElem?_eq_some_iff.mp hother
  simpa using hbefore j hj

section

variable {slab' : InflightBufSlab} (h : slab.allocate opToken = some (key, slab'))

include h

theorem allocate_spec :
    ∃ slot, slab.slots[key.slot]? = some slot ∧ slot.occupied = false ∧
      key = ⟨key.slot, slot.generation, slab.workerId, opToken⟩ ∧
      slab' = slab.modify key.slot (·.occupy opToken) := by
  obtain ⟨i, hi, h⟩ := Option.bind_eq_some_iff.mp h
  obtain ⟨slot, hslot, h⟩ := Option.bind_eq_some_iff.mp h
  obtain ⟨found, hfound, hfree, _⟩ := findIdx_spec hi
  cases h
  obtain rfl := Option.some.inj (hfound.symm.trans hslot)
  exact ⟨found, hslot, by simpa using hfree, rfl, rfl⟩

theorem isLive_allocate : slab'.isLive key = true := by
  obtain ⟨slot, hslot, _, hkey, rfl⟩ := allocate_spec h
  apply isLive_iff.mpr
  refine ⟨by rw [hkey]; rfl, slot.occupy opToken, ?_, rfl, by rw [hkey]; rfl⟩
  exact modify_eq_some.mpr (.inr ⟨rfl, slot, hslot, rfl⟩)

theorem free_allocate :
    slab'.free key = slab.modify key.slot (fun slot => (slot.occupy opToken).release) := by
  obtain ⟨slot, hslot, _, hkey, hslab⟩ := allocate_spec h
  rw [free, if_pos (isLive_allocate h), hslab]
  simp only [modify, List.modify_modify_eq]
  rfl

end

theorem freeByOpToken_spec :
    (∃ i slot, slab.slots[i]? = some slot ∧ slot.occupied = true ∧ slot.retirePending = true ∧
        slot.opToken = opToken ∧ slab.freeByOpToken opToken = (true, slab.modify i .release)) ∨
      slab.freeByOpToken opToken = (false, slab) := by
  cases h : slab.retireMatch opToken with
  | none => exact .inr (by simp [freeByOpToken, h])
  | some i =>
    obtain ⟨slot, hslot, hp, _⟩ := findIdx_spec h
    simp only [Bool.and_eq_true, beq_iff_eq] at hp
    exact .inl ⟨i, slot, hslot, hp.2.2, hp.1, hp.2.1, by simp [freeByOpToken, h]⟩

theorem freeIfRetirePending_spec (low16 : Nat) :
    (∃ slot, slab.slots[i]? = some slot ∧ slot.occupied = true ∧ slot.retirePending = true ∧
        slot.generation % 2 ^ 16 = low16 ∧ (slot.notifExpected = true → slot.notifReady = true) ∧
        slab.freeIfRetirePending i low16 = slab.modify i .release) ∨
      slab.freeIfRetirePending i low16 = slab := by
  unfold freeIfRetirePending
  cases hslot : slab.slots[i]? with
  | none => exact .inr rfl
  | some slot =>
    dsimp only
    split
    · exact .inr rfl
    · next h =>
      simp only [Bool.or_eq_true, Bool.and_eq_true, Bool.not_eq_true', bne_iff_ne, not_or,
        not_and, Bool.not_eq_false, ne_eq, not_not] at h
      exact .inl ⟨slot, rfl, h.1.1.1, h.1.1.2, h.1.2, h.2, rfl⟩

theorem tokenMatch_spec :
    (∃ i slot, slab.tokenMatch opToken = some i ∧ slab.slots[i]? = some slot ∧
        slot.occupied = true ∧ slot.opToken = opToken) ∨
      slab.tokenMatch opToken = none ∧
        ∀ (j : Nat) other, slab.slots[j]? = some other →
          other.occupied = true → other.opToken ≠ opToken := by
  cases h : slab.tokenMatch opToken with
  | none =>
    refine .inr ⟨rfl, ?_⟩
    intro j other hother hocc htok
    have := List.findIdx?_eq_none_iff.mp h other (List.mem_of_getElem? hother)
    simp [hocc, htok] at this
  | some i =>
    obtain ⟨slot, hslot, hp, _⟩ := findIdx_spec h
    simp only [Bool.and_eq_true, beq_iff_eq] at hp
    exact .inl ⟨i, slot, rfl, hslot, hp.1, hp.2⟩

end InflightBufSlab

end Kwokka
