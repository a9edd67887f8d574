import Kwokka.LinkedChain
import Kwokka.Outcome
import Kwokka.Table
import Mathlib.Data.Fin.Basic
import Mathlib.Data.List.Count

/-! The generational slab: a fixed array of slots, an in-band free list, and keys
that stop resolving once their slot moves on. -/

namespace Kwokka

open LinkedChain

/-- A 24-bit wrapping counter. Slabs bump it on insert and on remove, so odd means occupied. -/
abbrev Generation := Fin (2 ^ 24)

instance Generation.neZero : NeZero (2 ^ 24) := ⟨by decide⟩

namespace Generation

def next (g : Generation) : Generation := g + 1

def isOccupied (g : Generation) : Bool := g.val % 2 == 1

theorem next_val (g : Generation) : g.next.val = (g.val + 1) % 2 ^ 24 := rfl

@[simp]
theorem isOccupied_next (g : Generation) : g.next.isOccupied = !g.isOccupied := by
  simp only [isOccupied, next_val]
  rcases Nat.mod_two_eq_zero_or_one g.val with h | h <;> simp [h] <;> omega

theorem next_ne (g : Generation) : g.next ≠ g := by
  intro h
  have := isOccupied_next g
  rw [h] at this
  simp at this

end Generation

structure SlabKey where
  index : Nat
  generation : Generation
deriving DecidableEq, Repr

def SlabKey.ofRaw (index raw : Nat) : SlabKey := ⟨index, Fin.ofNat (2 ^ 24) raw⟩

inductive SlabError
  | full
deriving DecidableEq, Repr

/-- `none` is memory that holds no initialized value. -/
abbrev MaybeUninit (α : Type*) := Option α

structure Slot (α : Type*) where
  generation : Generation
  nextFree : Nat
  data : MaybeUninit α
deriving DecidableEq, Repr

def freeSentinel : Nat := 2 ^ 32 - 1

/-- The slot holds a value exactly in an occupied generation, and is then on no list. -/
def Slot.Sound {α : Type*} (slot : Slot α) : Prop :=
  slot.generation.isOccupied = slot.data.isSome ∧
    (slot.generation.isOccupied → slot.nextFree = freeSentinel)

structure Slab (α : Type*) where
  slots : List (Slot α)
  freeHead : Nat
  len : Nat
deriving DecidableEq, Repr

namespace Slab

variable {α : Type*}

def new (capacity : Nat) : Outcome SlabError (Slab α) :=
  if freeSentinel < capacity then .panic
  else .ok
    { slots := (List.range capacity).map fun idx =>
        ⟨0, if idx + 1 < capacity then idx + 1 else freeSentinel, none⟩
      freeHead := if capacity = 0 then freeSentinel else 0
      len := 0 }

def insert (s : Slab α) (value : α) : Outcome SlabError (SlabKey × Slab α) :=
  let idx := s.freeHead
  if idx = freeSentinel then .err .full
  else
    match s.slots[idx]? with
    | none => .panic
    | some slot =>
      if slot.generation.isOccupied then .panic
      else
        .ok (⟨idx, slot.generation.next⟩,
          { slots := s.slots.set idx ⟨slot.generation.next, freeSentinel, some value⟩
            freeHead := slot.nextFree
            len := s.len + 1 })

/-- Only the generation is compared: a key in an empty slot's generation gets a reference to
whatever the slot holds. -/
def get (s : Slab α) (key : SlabKey) : Option (MaybeUninit α) :=
  (s.slots[key.index]?).bind fun slot =>
    if slot.generation = key.generation then some slot.data else none

def getMut (s : Slab α) (key : SlabKey) (f : α → α) : Option (Slab α) :=
  (s.slots[key.index]?).bind fun slot =>
    if slot.generation = key.generation then
      some { s with slots := s.slots.set key.index { slot with data := slot.data.map f } }
    else none

def slotPtr (s : Slab α) (key : SlabKey) : Option Nat :=
  (s.slots[key.index]?).bind fun slot =>
    if slot.generation = key.generation then some key.index else none

/-- `len` wraps below zero, as in a build without overflow checks. -/
def release (s : Slab α) (idx : Nat) (slot : Slot α) : Slab α :=
  { slots := s.slots.set idx ⟨slot.generation.next, s.freeHead, none⟩
    freeHead := idx
    len := (s.len + (2 ^ 64 - 1)) % 2 ^ 64 }

def remove (s : Slab α) (key : SlabKey) : Option (MaybeUninit α × Slab α) :=
  (s.slots[key.index]?).bind fun slot =>
    if slot.generation = key.generation then some (slot.data, s.release key.index slot)
    else none

def retireSlot (s : Slab α) (key : SlabKey) : Bool × Slab α :=
  match s.slots[key.index]? with
  | some slot =>
    if slot.generation = key.generation then (true, s.release key.index slot) else (false, s)
  | none => (false, s)

/-- Takes a slot off the free list for a value that arrives later. The slot marks itself by
pointing `nextFree` at its own index. -/
def reserve (s : Slab α) : Outcome SlabError (SlabKey × Slab α) :=
  let idx := s.freeHead
  if idx = freeSentinel then .err .full
  else
    match s.slots[idx]? with
    | none => .panic
    | some slot =>
      if slot.generation.isOccupied then .panic
      else
        .ok (⟨idx, slot.generation.next⟩,
          { s with
            slots := s.slots.set idx { slot with nextFree := idx }
            freeHead := slot.nextFree })

/-- `none` hands the value back. -/
def install (s : Slab α) (key : SlabKey) (value : α) : Option (Slab α) :=
  (s.slots[key.index]?).bind fun slot =>
    if slot.nextFree ≠ key.index ∨ slot.generation.next ≠ key.generation then none
    else
      some
        { s with
          slots := s.slots.set key.index ⟨slot.generation.next, freeSentinel, some value⟩
          len := s.len + 1 }

def unreserve (s : Slab α) (key : SlabKey) : Bool × Slab α :=
  match s.slots[key.index]? with
  | some slot =>
    if slot.nextFree ≠ key.index ∨ slot.generation.next ≠ key.generation then (false, s)
    else
      (true,
        { s with
          slots := s.slots.set key.index { slot with nextFree := s.freeHead }
          freeHead := key.index })
  | none => (false, s)

def getByIndex (s : Slab α) (idx : Nat) : Option α :=
  (s.slots[idx]?).bind fun slot => if slot.generation.isOccupied then slot.data else none

/-- The write through the reference `get_mut_by_index` returns. -/
def modifyByIndex (s : Slab α) (idx : Nat) (f : α → α) : Slab α :=
  match s.slots[idx]? with
  | some slot =>
    if slot.generation.isOccupied then
      { s with slots := s.slots.set idx { slot with data := slot.data.map f } }
    else s
  | none => s

def removeByIndex (s : Slab α) (idx : Nat) : Option (α × Slab α) :=
  (s.slots[idx]?).bind fun slot =>
    if slot.generation.isOccupied then slot.data.map fun value => (value, s.release idx slot)
    else none

def generationAt (s : Slab α) (idx : Nat) : Option Generation :=
  (s.slots[idx]?).map (·.generation)

def link (n : Nat) : Option Nat := if n = freeSentinel then none else some n

def freeLink (slots : List (Slot α)) (idx : Nat) : Option Nat :=
  (slots[idx]?).bind fun slot => link slot.nextFree

/-- The free list holds exactly the vacant slots that are not reserved. -/
def IsFreeList (slots : List (Slot α)) (head : Nat) (free : List Nat) : Prop :=
  Chain (freeLink slots) (link head) free ∧ free.Nodup ∧
    ∀ i, i ∈ free ↔ ∃ slot, slots[i]? = some slot ∧ slot.generation.isOccupied = false ∧
      slot.nextFree ≠ i

structure WF (s : Slab α) : Prop where
  capacity : s.slots.length ≤ freeSentinel
  sound : ∀ slot ∈ s.slots, slot.Sound
  free : ∃ free, IsFreeList s.slots s.freeHead free
  len : s.len = s.slots.countP (·.generation.isOccupied)

variable {slots : List (Slot α)} {i capacity : Nat} {slot old : Slot α} {s : Slab α}
  {g : Generation} {a : α} {key : SlabKey}

theorem freeLink_set (hi : i < slots.length) (j : Nat) : freeLink (slots.set i slot) j =
      if i = j then link slot.nextFree else freeLink slots j := by
  by_cases h : i = j
  · subst h
    simp [freeLink, hi]
  · simp [freeLink, h]

theorem sound_set (hs : ∀ sl ∈ slots, sl.Sound) (hslot : slot.Sound) :
    ∀ sl ∈ slots.set i slot, sl.Sound := by
  intro sl hsl
  rcases List.mem_or_eq_of_mem_set hsl with hold | rfl
  · exact hs sl hold
  · exact hslot

theorem countP_set_of_eq (hi : slots[i]? = some old)
    (ho : slot.generation.isOccupied = old.generation.isOccupied) :
    (slots.set i slot).countP (·.generation.isOccupied) =
      slots.countP (·.generation.isOccupied) := by
  obtain ⟨hlt, hget⟩ := List.getElem?_eq_some_iff.mp hi
  have hmem : old ∈ slots := hget ▸ List.getElem_mem hlt
  rw [List.countP_set hlt, hget, ho]
  cases h : old.generation.isOccupied with
  | false => simp
  | true =>
    have hpos : 0 < slots.countP (·.generation.isOccupied) := List.countP_pos_iff.mpr ⟨old, hmem, h⟩
    simp only [if_true]
    omega

theorem WF.keep (hs : s.WF) (hi : s.slots[i]? = some old) (hsound : slot.Sound)
    (hg : slot.generation = old.generation) (hn : slot.nextFree = old.nextFree) :
    WF { s with slots := s.slots.set i slot } := by
  obtain ⟨hlt, -⟩ := List.getElem?_eq_some_iff.mp hi
  obtain ⟨free, hchain, hnd, hmem⟩ := hs.free
  refine ⟨by simpa using hs.capacity, ?_, ⟨free, ?_, hnd, ?_⟩, ?_⟩
  · exact sound_set hs.sound hsound
  · refine hchain.congr fun j hj => ?_
    rw [freeLink_set hlt]
    split
    · next h => subst h; simp [freeLink, hi, hn]
    · rfl
  · intro j
    rw [hmem]
    by_cases h : i = j
    · subst h
      simp [List.getElem?_set_self hlt, hi, hg, hn]
    · simp [h]
  · exact hs.len.trans (countP_set_of_eq hi (by rw [hg])).symm

theorem WF.take (hs : s.WF) (hne : s.freeHead ≠ freeSentinel) (hi : s.slots[s.freeHead]? = some old)
    (hsound : slot.Sound) (hoff : slot.generation.isOccupied = true ∨ slot.nextFree = s.freeHead) :
    WF { slots := s.slots.set s.freeHead slot
         freeHead := old.nextFree
         len := s.len + if slot.generation.isOccupied then 1 else 0 } := by
  obtain ⟨hlt, hget⟩ := List.getElem?_eq_some_iff.mp hi
  obtain ⟨free, hchain, hnd, hmem⟩ := hs.free
  cases free with
  | nil => simp [link, hne] at hchain
  | cons i rest =>
    obtain ⟨hhead, hrest⟩ := hchain
    obtain rfl : s.freeHead = i := by simpa [link, hne] using hhead
    obtain ⟨hni, hnd'⟩ := List.nodup_cons.mp hnd
    have hold : old.generation.isOccupied = false := by
      obtain ⟨sl, hsl, hocc, -⟩ := (hmem s.freeHead).mp (by simp)
      rw [hi] at hsl
      exact Option.some.inj hsl ▸ hocc
    refine ⟨by simpa using hs.capacity, ?_, ⟨rest, ?_, hnd', ?_⟩, ?_⟩
    · exact sound_set hs.sound hsound
    · have hrest' : Chain (freeLink s.slots) (link old.nextFree) rest := by
        simpa [freeLink, hi] using hrest
      refine hrest'.congr fun j hj => ?_
      rw [freeLink_set hlt, if_neg (by rintro rfl; exact hni hj)]
    · intro j
      by_cases h : s.freeHead = j
      · subst h
        rcases hoff with hocc | hself
        · simp [hni, hlt, hocc]
        · simp [hni, hlt, hself]
      · have := hmem j
        simp only [List.mem_cons, Ne.symm h, false_or] at this
        simp [this, h]
    · simp only [List.countP_set hlt, hget, hold, hs.len]
      cases slot.generation.isOccupied <;> simp

theorem WF.head_row (hs : s.WF) (hne : s.freeHead ≠ freeSentinel) :
    ∃ slot, s.slots[s.freeHead]? = some slot ∧ slot.generation.isOccupied = false ∧
      slot.nextFree ≠ s.freeHead := by
  obtain ⟨free, hchain, -, hmem⟩ := hs.free
  cases free with
  | nil => simp [link, hne] at hchain
  | cons j =>
    obtain rfl : s.freeHead = j := by simpa [link, hne] using hchain.1
    exact (hmem s.freeHead).mp (by simp)

theorem WF.head_ne (hs : s.WF) (hi : s.slots[i]? = some slot)
    (hoff : slot.generation.isOccupied = true ∨ slot.nextFree = i) : s.freeHead ≠ i := by
  rintro rfl
  obtain ⟨hlt, -⟩ := List.getElem?_eq_some_iff.mp hi
  have hcap := hs.capacity
  obtain ⟨sl, hsl, hv, hself⟩ := hs.head_row (by omega)
  cases hi.symm.trans hsl
  rcases hoff with hocc | hnext
  · simp [hv] at hocc
  · exact hself hnext

theorem WF.off_of_full (hs : s.WF) (hfull : s.freeHead = freeSentinel)
    (hi : s.slots[i]? = some slot) : slot.generation.isOccupied = true ∨ slot.nextFree = i := by
  obtain ⟨free, hchain, -, hmem⟩ := hs.free
  have hnil : free = [] := by
    cases free with
    | nil => rfl
    | cons => simp [link, hfull] at hchain
  by_contra hfree
  simpa [hnil] using (hmem i).mpr ⟨slot, hi, by simpa using hfree⟩

theorem WF.give (hs : s.WF) (hi : s.slots[i]? = some old)
    (hoff : old.generation.isOccupied = true ∨ old.nextFree = i) (hg : g.isOccupied = false) :
    WF { slots := s.slots.set i ⟨g, s.freeHead, none⟩
         freeHead := i
         len := s.len - if old.generation.isOccupied then 1 else 0 } := by
  obtain ⟨hlt, hget⟩ := List.getElem?_eq_some_iff.mp hi
  obtain ⟨free, hchain, hnd, hmem⟩ := hs.free
  have hcap := hs.capacity
  have hni : i ∉ free := by
    rw [hmem]
    rintro ⟨sl, hsl, hocc, hnext⟩
    rw [hi] at hsl
    cases hsl
    simp [hocc, hnext] at hoff
  have hhead := hs.head_ne hi hoff
  refine ⟨by simpa using hcap, ?_, ⟨i :: free, ?_, List.nodup_cons.mpr ⟨hni, hnd⟩, ?_⟩, ?_⟩
  · exact sound_set hs.sound (by simp [Slot.Sound, hg])
  · refine ⟨?_, ?_⟩
    · have : i ≠ freeSentinel := by omega
      simp [link, this]
    · rw [freeLink_set hlt, if_pos rfl]
      refine hchain.congr fun j hj => ?_
      rw [freeLink_set hlt, if_neg (by rintro rfl; exact hni hj)]
  · intro j
    by_cases h : i = j
    · subst h
      simp [hlt, hg, hhead]
    · simp [hmem j, h, Ne.symm h]
  · simp only [List.countP_set hlt, hget, hs.len, hg]
    simp

theorem WF.len_le (hs : s.WF) : s.len ≤ s.slots.length := by
  rw [hs.len]
  exact List.countP_le_length

theorem WF.release (hs : s.WF) (hi : s.slots[i]? = some slot)
    (hocc : slot.generation.isOccupied = true) :
    (s.release i slot).WF ∧ (s.release i slot).len + 1 = s.len := by
  have hpos : 0 < s.len := by
    rw [hs.len, List.countP_pos_iff]
    exact ⟨slot, List.mem_of_getElem? hi, hocc⟩
  have hlen : (s.len + (2 ^ 64 - 1)) % 2 ^ 64 = s.len - 1 := by
    have hle := hs.len_le
    have hcap := hs.capacity
    unfold freeSentinel at hcap
    omega
  rw [Slab.release, hlen]
  refine ⟨?_, Nat.sub_add_cancel hpos⟩
  simpa [hocc] using hs.give (g := slot.generation.next) hi (.inl hocc) (by simp [hocc])

/-- No slot is reserved. -/
structure Plain (s : Slab α) : Prop extends WF s where
  unreserved : ∀ (i : Nat) slot, s.slots[i]? = some slot → slot.nextFree ≠ i

theorem Plain.set (hs : s.Plain) (hne : slot.nextFree ≠ i) :
    ∀ (j : Nat) sl, (s.slots.set i slot)[j]? = some sl → sl.nextFree ≠ j := by
  intro j sl hsl
  rcases Table.set_eq_some.mp hsl with ⟨-, hold⟩ | ⟨rfl, -, rfl⟩
  · exact hs.unreserved j sl hold
  · exact hne

theorem getByIndex_eq_some (hs : s.WF) :
    s.getByIndex i = some a ↔ ∃ slot, s.slots[i]? = some slot ∧ slot.data = some a := by
  simp only [getByIndex, Option.bind_eq_some_iff]
  refine exists_congr fun slot => and_congr_right fun hslot => ?_
  have hsound := (hs.sound slot (List.mem_of_getElem? hslot)).1
  split
  · rfl
  · next hocc =>
    have hnone : slot.data = none := by simpa [hocc] using hsound
    simp [hnone]

theorem get_eq_some (hs : s.WF) : s.get key = some (some a) ↔
      s.getByIndex key.index = some a ∧ s.generationAt key.index = some key.generation := by
  rw [getByIndex_eq_some hs]
  simp only [get, generationAt, Option.bind_eq_some_iff, Option.map_eq_some_iff]
  constructor
  · rintro ⟨slot, hslot, hdata⟩
    split at hdata
    · next hgen => exact ⟨⟨slot, hslot, Option.some.inj hdata⟩, slot, hslot, hgen⟩
    · cases hdata
  · rintro ⟨⟨slot, hslot, hdata⟩, slot', hslot', hgen⟩
    cases hslot.symm.trans hslot'
    exact ⟨slot, hslot, by simpa [hgen] using hdata⟩

theorem get_ne_uninit (hs : s.WF) (hocc : key.generation.isOccupied = true) :
    s.get key ≠ some none := by
  intro h
  obtain ⟨slot, hslot, hdata⟩ := Option.bind_eq_some_iff.mp h
  split at hdata
  · next hgen =>
    have hsound := (hs.sound slot (List.mem_of_getElem? hslot)).1
    rw [hgen, hocc, Option.some.inj hdata] at hsound
    cases hsound
  · cases hdata

theorem getByIndex_isSome (hs : s.WF) (hg : s.generationAt i = some g) :
    (s.getByIndex i).isSome = g.isOccupied := by
  simp only [generationAt, Option.map_eq_some_iff] at hg
  obtain ⟨slot, hslot, rfl⟩ := hg
  have hsound := (hs.sound slot (List.mem_of_getElem? hslot)).1
  simp only [getByIndex, hslot, Option.bind_some]
  split
  · next hocc => rw [← hsound]
  · next hocc => simp [hocc]

theorem generationAt_of_getByIndex (ha : s.getByIndex i = some a) :
    ∃ g, s.generationAt i = some g ∧ g.isOccupied = true := by
  simp only [getByIndex, Option.bind_eq_some_iff] at ha
  obtain ⟨slot, hslot, hdata⟩ := ha
  split at hdata
  · next hocc => exact ⟨slot.generation, by simp [generationAt, hslot], hocc⟩
  · cases hdata

theorem insert_ok {s' : Slab α} {value : α} (hs : s.Plain)
    (hins : s.insert value = .ok (key, s')) : s'.Plain ∧ s.getByIndex key.index = none ∧
      (∃ g, s.generationAt key.index = some g ∧ g.isOccupied = false ∧ key.generation = g.next) ∧
      (∀ i, s'.getByIndex i = if i = key.index then some value else s.getByIndex i) ∧
      (∀ i, s'.generationAt i =
        if i = key.index then some key.generation else s.generationAt i) := by
  simp only [insert] at hins
  split at hins
  · cases hins
  · next hne =>
    split at hins
    · cases hins
    · next slot hslot =>
      obtain ⟨hlt, -⟩ := List.getElem?_eq_some_iff.mp hslot
      split at hins
      · cases hins
      · next hocc =>
        have hvacant : slot.generation.isOccupied = false := by simpa using hocc
        cases hins
        have hsound : Slot.Sound ⟨slot.generation.next, freeSentinel, some value⟩ := by
          simp [Slot.Sound, hvacant]
        refine ⟨?_, ?_, ⟨slot.generation, ?_, hvacant, rfl⟩, ?_, ?_⟩
        · have hwf := hs.take hne hslot hsound (by simp [hvacant])
          exact ⟨by simpa [hvacant] using hwf, hs.set (Ne.symm hne)⟩
        · simp [getByIndex, hslot, hvacant]
        · simp [generationAt, hslot]
        · intro i
          by_cases h : i = s.freeHead
          · subst h
            simp [getByIndex, hlt, hvacant]
          · simp [getByIndex, h, Ne.symm h]
        · intro i
          by_cases h : i = s.freeHead
          · subst h
            simp [generationAt, hlt]
          · simp [generationAt, h, Ne.symm h]

theorem Plain.insert_cases (hs : s.Plain) (value : α) :
    (s.insert value = .err .full ∧ ∀ i < s.slots.length, (s.getByIndex i).isSome = true) ∨
      ∃ key s', s.insert value = .ok (key, s') ∧ key.index < s.slots.length := by
  by_cases hne : s.freeHead = freeSentinel
  · refine .inl ⟨by simp [insert, hne], fun i hi => ?_⟩
    have hrow := List.getElem?_eq_getElem hi
    have hocc := (hs.off_of_full hne hrow).resolve_right (hs.unreserved i _ hrow)
    have hsound := (hs.sound _ (List.mem_of_getElem? hrow)).1
    simpa [getByIndex, hrow, hocc] using hsound.symm
  · obtain ⟨slot, hi, hv, -⟩ := hs.head_row hne
    exact .inr ⟨⟨s.freeHead, slot.generation.next⟩,
      ⟨s.slots.set s.freeHead ⟨slot.generation.next, freeSentinel, some value⟩, slot.nextFree,
        s.len + 1⟩, by simp [insert, hne, hi, hv], Table.lt_of_row hi⟩

theorem removeByIndex_of_some (hs : s.Plain) (ha : s.getByIndex i = some a)
    (hg : s.generationAt i = some g) :
    ∃ s', s.removeByIndex i = some (a, s') ∧ s'.Plain ∧ s'.len + 1 = s.len ∧
      (∀ j, s'.getByIndex j = if j = i then none else s.getByIndex j) ∧
      (∀ j, s'.generationAt j = if j = i then some g.next else s.generationAt j) := by
  simp only [getByIndex, Option.bind_eq_some_iff] at ha
  obtain ⟨slot, hslot, hdata⟩ := ha
  split at hdata
  · next hocc =>
    obtain ⟨hlt, -⟩ := List.getElem?_eq_some_iff.mp hslot
    obtain rfl : slot.generation = g := by simpa [generationAt, hslot] using hg
    obtain ⟨hwf, hlen⟩ := hs.release hslot hocc
    refine ⟨s.release i slot, by simp [removeByIndex, hslot, hocc, hdata],
      ⟨hwf, hs.set (hs.head_ne hslot (.inl hocc))⟩, hlen, ?_, ?_⟩
    · intro j
      by_cases h : j = i
      · subst h
        simp [getByIndex, release, hlt]
      · simp [getByIndex, release, h, Ne.symm h]
    · intro j
      by_cases h : j = i
      · subst h
        simp [generationAt, release, hlt]
      · simp [generationAt, release, h, Ne.symm h]
  · cases hdata

theorem remove_of_get (hs : s.WF) (ha : s.get key = some (some a)) :
    s.remove key = (s.removeByIndex key.index).map fun removed => (some removed.1, removed.2) := by
  obtain ⟨hidx, hgen⟩ := (get_eq_some hs).mp ha
  obtain ⟨g, hg, hocc⟩ := generationAt_of_getByIndex hidx
  simp only [generationAt, Option.map_eq_some_iff] at hg hgen
  obtain ⟨slot, hslot, rfl⟩ := hg
  obtain ⟨slot', hslot', hgen⟩ := hgen
  cases hslot.symm.trans hslot'
  have hdata : slot.data = some a := by simpa [getByIndex, hslot, hocc] using hidx
  simp [remove, removeByIndex, hslot, hgen, hgen ▸ hocc, hdata]

theorem modifyByIndex_getByIndex (s : Slab α) (i j : Nat) (f : α → α) :
    (s.modifyByIndex i f).getByIndex j =
      if j = i then (s.getByIndex i).map f else s.getByIndex j := by
  unfold modifyByIndex
  cases hslot : s.slots[i]? with
  | none =>
    by_cases h : j = i
    · subst h
      simp [getByIndex, hslot]
    · simp [h]
  | some slot =>
    obtain ⟨hlt, hget⟩ := List.getElem?_eq_some_iff.mp hslot
    by_cases hocc : slot.generation.isOccupied <;> by_cases h : j = i
    · subst h
      simp [getByIndex, hget, hlt, hocc]
    · simp [getByIndex, hocc, h, Ne.symm h]
    · subst h
      simp [getByIndex, hslot, hocc]
    · simp [hocc, h]

theorem modifyByIndex_generationAt (s : Slab α) (i j : Nat) (f : α → α) :
    (s.modifyByIndex i f).generationAt j = s.generationAt j := by
  unfold modifyByIndex
  split
  · next slot hslot =>
    obtain ⟨hlt, hget⟩ := List.getElem?_eq_some_iff.mp hslot
    split
    · by_cases h : i = j
      · subst h
        simp [generationAt, hget, hlt]
      · simp [generationAt, h]
    · rfl
  · rfl

theorem modifyByIndex_len (s : Slab α) (i : Nat) (f : α → α) :
    (s.modifyByIndex i f).len = s.len := by
  unfold modifyByIndex
  split
  · split <;> rfl
  · rfl

theorem Plain.modifyByIndex (hs : s.Plain) (i : Nat) (f : α → α) : (s.modifyByIndex i f).Plain := by
  unfold Slab.modifyByIndex
  split
  · next slot hslot =>
    split
    · have hsound := hs.sound slot (List.mem_of_getElem? hslot)
      refine ⟨hs.keep hslot ?_ rfl rfl, hs.set (hs.unreserved i slot hslot)⟩
      simpa [Slot.Sound] using hsound
    · exact hs
  · exact hs

theorem new_ok (hnew : new capacity = .ok s) :
    s.slots.length = capacity ∧ capacity ≤ freeSentinel ∧ s.len = 0 ∧
      s.freeHead = (if capacity = 0 then freeSentinel else 0) ∧
      ∀ i < capacity, s.slots[i]? =
        some ⟨0, if i + 1 < capacity then i + 1 else freeSentinel, none⟩ := by
  simp only [new] at hnew
  split at hnew
  · cases hnew
  · next hcap =>
    cases hnew
    refine ⟨by simp, by omega, rfl, rfl, ?_⟩
    intro i hi
    simp [hi]

theorem new_chain (hnew : new capacity = .ok s) (k n : Nat) (hk : k + n = capacity) :
    Chain (freeLink s.slots) (link (if k < capacity then k else freeSentinel)) (List.range' k n) := by
  obtain ⟨-, hcap, -, -, hslots⟩ := new_ok hnew
  induction n generalizing k with
  | zero => simp [show ¬ k < capacity by omega, link]
  | succ n ih =>
    have hlt : k < capacity := by omega
    have hne : k ≠ freeSentinel := by omega
    refine ⟨by simp [hlt, hne, link], ?_⟩
    simpa [freeLink, hslots k hlt] using ih (k + 1) (by omega)

theorem new_wf (hnew : new capacity = .ok s) : s.WF := by
  obtain ⟨hlen, hcap, hzero, hhead, hslots⟩ := new_ok hnew
  have hsome : ∀ i slot, s.slots[i]? = some slot → i < capacity ∧
      slot = ⟨0, if i + 1 < capacity then i + 1 else freeSentinel, none⟩ := by
    intro i slot hi
    obtain ⟨hlt, -⟩ := List.getElem?_eq_some_iff.mp hi
    rw [hlen] at hlt
    exact ⟨hlt, Option.some.inj (hi.symm.trans (hslots i hlt))⟩
  have hvacant : ∀ slot ∈ s.slots, slot.generation = 0 ∧ slot.data = none := by
    intro slot hslot
    obtain ⟨i, hi⟩ := List.getElem?_of_mem hslot
    obtain ⟨-, rfl⟩ := hsome i slot hi
    exact ⟨rfl, rfl⟩
  have hzero' : Generation.isOccupied 0 = false := rfl
  refine ⟨by omega, ?_, ⟨List.range' 0 capacity, ?_, List.nodup_range', ?_⟩, ?_⟩
  · intro slot hslot
    obtain ⟨hg, hd⟩ := hvacant slot hslot
    simp [Slot.Sound, hg, hd, hzero']
  · have hchain := new_chain hnew 0 capacity (by omega)
    rw [hhead]
    by_cases h : capacity = 0
    · simpa [h] using hchain
    · simpa [h, Nat.pos_of_ne_zero h] using hchain
  · intro i
    constructor
    · intro hi
      have hlt : i < capacity := by simpa using hi
      refine ⟨_, hslots i hlt, rfl, ?_⟩
      dsimp only
      split <;> omega
    · rintro ⟨slot, hslot, -⟩
      have hlt := (hsome i slot hslot).1
      simpa using hlt
  · rw [hzero, eq_comm, List.countP_eq_zero]
    intro slot hslot
    simp [(hvacant slot hslot).1, hzero']

theorem new_plain (hnew : new capacity = .ok s) : s.Plain := by
  obtain ⟨hlen, hcap, -, -, hslots⟩ := new_ok hnew
  refine ⟨new_wf hnew, fun i slot hi => ?_⟩
  have hlt := Table.lt_of_row hi
  rw [hslots i (by omega)] at hi
  cases hi
  dsimp only
  split <;> omega

theorem new_getByIndex (hnew : new capacity = .ok s) (i : Nat) : s.getByIndex i = none := by
  obtain ⟨hlen, -, -, -, hslots⟩ := new_ok hnew
  by_cases hi : i < capacity
  · have hzero : Generation.isOccupied 0 = false := rfl
    simp [getByIndex, hslots i hi, hzero]
  · simp [getByIndex, List.getElem?_eq_none (show s.slots.length ≤ i by omega)]

end Slab

end Kwokka
