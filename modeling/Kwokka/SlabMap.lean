import Kwokka.Slab
import Mathlib.Logic.Function.Basic

/-! What a slab is for: a partial map from keys to values, with a set of keys
that are promised to values still to come. -/

namespace Kwokka

open LinkedChain Function

@[ext]
structure KeyMap (α : Type*) where
  stored : SlabKey → Option α
  reserved : SlabKey → Bool

namespace KeyMap

variable {α : Type*}

def empty : KeyMap α := ⟨fun _ => none, fun _ => false⟩

variable (m : KeyMap α) (key : SlabKey)

def IsFree (i : Nat) : Prop :=
  ∀ key, key.index = i → m.stored key = none ∧ m.reserved key = false

def store (value : α) : KeyMap α :=
  ⟨update m.stored key (some value), update m.reserved key false⟩

def erase : KeyMap α :=
  { m with stored := update m.stored key none }

def write (f : α → α) : KeyMap α :=
  { m with stored := update m.stored key ((m.stored key).map f) }

def promise : KeyMap α :=
  { m with reserved := update m.reserved key true }

def withdraw : KeyMap α :=
  { m with reserved := update m.reserved key false }

end KeyMap

namespace Slab

variable {α : Type*}

def stored (s : Slab α) (key : SlabKey) : Option α :=
  (s.slots[key.index]?).bind fun slot => if slot.generation = key.generation then slot.data else none

def isReserved (s : Slab α) (key : SlabKey) : Bool :=
  (s.slots[key.index]?).any fun slot =>
    slot.nextFree == key.index && slot.generation.next == key.generation &&
      !slot.generation.isOccupied

def toKeyMap (s : Slab α) : KeyMap α := ⟨s.stored, s.isReserved⟩

def Guards (s : Slab α) (key : SlabKey) : Prop :=
  key.generation.isOccupied = true ∨ ∀ slot ∈ s.slots[key.index]?, slot.generation ≠ key.generation

instance (s : Slab α) (key : SlabKey) : Decidable (s.Guards key) :=
  inferInstanceAs (Decidable (_ ∨ _))

/-- The slab that an operation leaves, by what its keys mean and what its counters read. -/
structure Becomes (s s' : Slab α) (map : KeyMap α) (generation : Nat → Option Generation) :
    Prop where
  wf : s'.WF
  length : s'.slots.length = s.slots.length
  map : s'.toKeyMap = map
  generation : ∀ i, s'.generationAt i = generation i

section Slots

variable {s : Slab α} {i : Nat} {old slot : Slot α} {key : SlabKey}

theorem stored_eq_some {a : α} : s.stored key = some a ↔ ∃ slot, s.slots[key.index]? = some slot ∧
    slot.generation = key.generation ∧ slot.data = some a := by
  simp only [stored, Option.bind_eq_some_iff]
  refine exists_congr fun slot => and_congr_right fun _ => ?_
  split <;> simp_all

theorem stored_of_row (h : s.slots[i]? = some slot) (g : Generation) :
    s.stored ⟨i, g⟩ = if slot.generation = g then slot.data else none := by
  simp [stored, h]

theorem isReserved_of_row (h : s.slots[i]? = some slot) (g : Generation) :
    s.isReserved ⟨i, g⟩ = (slot.nextFree == i && slot.generation.next == g &&
      !slot.generation.isOccupied) := by
  simp [isReserved, h]

theorem isReserved_iff : s.isReserved key = true ↔ ∃ slot, s.slots[key.index]? = some slot ∧
    slot.nextFree = key.index ∧ slot.generation.next = key.generation ∧
    slot.generation.isOccupied = false := by
  cases h : s.slots[key.index]? <;> simp [isReserved, h, and_assoc]

theorem toKeyMap_set {head len : Nat} (hi : s.slots[i]? = some old) :
    (Slab.mk (s.slots.set i slot) head len).toKeyMap =
      ⟨fun key => if key.index = i then (if slot.generation = key.generation then slot.data else none)
          else s.stored key,
        fun key => if key.index = i then slot.nextFree == i && slot.generation.next == key.generation
          && !slot.generation.isOccupied else s.isReserved key⟩ := by
  obtain ⟨hlt, -⟩ := List.getElem?_eq_some_iff.mp hi
  ext key : 2
  · by_cases h : key.index = i
    · simp [toKeyMap, stored, h, hlt]
    · simp [toKeyMap, stored, h, Ne.symm h]
  · by_cases h : key.index = i
    · simp [toKeyMap, isReserved, h, hlt]
    · simp [toKeyMap, isReserved, h, Ne.symm h]

theorem generationAt_set {head len : Nat} (hi : s.slots[i]? = some old) (j : Nat) :
    (Slab.mk (s.slots.set i slot) head len).generationAt j =
      if j = i then some slot.generation else s.generationAt j := by
  obtain ⟨hlt, -⟩ := List.getElem?_eq_some_iff.mp hi
  by_cases h : j = i
  · simp [generationAt, h, hlt]
  · simp [generationAt, h, Ne.symm h]

end Slots

section Specs

variable {s : Slab α} {i : Nat} {slot : Slot α} {key : SlabKey}

section

variable (hs : s.WF)

include hs

section

variable (hi : s.slots[i]? = some slot)

include hi

theorem WF.data_none (hv : slot.generation.isOccupied = false) : slot.data = none := by
  simpa [hv] using (hs.sound slot (List.mem_of_getElem? hi)).1

theorem WF.data_some (hocc : slot.generation.isOccupied = true) : ∃ a, slot.data = some a :=
  Option.isSome_iff_exists.mp (by simpa [hocc] using (hs.sound slot (List.mem_of_getElem? hi)).1)

theorem WF.vacant_of_self (hself : slot.nextFree = i) :
    slot.generation.isOccupied = false := by
  obtain ⟨hlt, -⟩ := List.getElem?_eq_some_iff.mp hi
  have hcap := hs.capacity
  by_contra hocc
  have := (hs.sound slot (List.mem_of_getElem? hi)).2 (by simpa using hocc)
  omega

theorem WF.fill (hself : slot.nextFree = i) (value : α) :
    WF { s with
      slots := s.slots.set i ⟨slot.generation.next, freeSentinel, some value⟩
      len := s.len + 1 } := by
  obtain ⟨hlt, hget⟩ := List.getElem?_eq_some_iff.mp hi
  obtain ⟨free, hchain, hnd, hmem⟩ := hs.free
  have hv := hs.vacant_of_self hi hself
  have hni : i ∉ free := by
    rw [hmem]
    rintro ⟨sl, hsl, -, hnext⟩
    cases hi.symm.trans hsl
    exact hnext hself
  refine ⟨by simpa using hs.capacity, ?_, ⟨free, ?_, hnd, ?_⟩, ?_⟩
  · exact sound_set hs.sound (by simp [Slot.Sound, hv])
  · apply hchain.congr
    intro j hj
    rw [freeLink_set hlt, if_neg (by rintro rfl; exact hni hj)]
  · intro j
    by_cases h : i = j
    · subst h
      simp [hni, hlt, hv]
    · simp [hmem j, h]
  · simp [List.countP_set hlt, hget, hv, hs.len]

theorem WF.isFree_iff :
    s.toKeyMap.IsFree i ↔ slot.generation.isOccupied = false ∧ slot.nextFree ≠ i := by
  constructor
  · intro hfree
    refine ⟨?_, fun hself => ?_⟩
    · by_contra hocc
      obtain ⟨a, ha⟩ := hs.data_some hi (by simpa using hocc)
      have := (hfree ⟨i, slot.generation⟩ rfl).1
      simp [toKeyMap, stored_of_row hi, ha] at this
    · have := (hfree ⟨i, slot.generation.next⟩ rfl).2
      simp [toKeyMap, isReserved_of_row hi, hself, hs.vacant_of_self hi hself] at this
  · rintro ⟨hv, hne⟩ ⟨j, g⟩ rfl
    simp [toKeyMap, stored_of_row hi, isReserved_of_row hi, hs.data_none hi hv, hne]

omit hi in
theorem WF.not_isFree (hfull : s.freeHead = freeSentinel) (hi : i < s.slots.length) :
    ¬ s.toKeyMap.IsFree i := by
  have hrow := List.getElem?_eq_getElem hi
  rw [hs.isFree_iff hrow]
  rintro ⟨hv, hself⟩
  rcases hs.off_of_full hfull hrow with hocc | hnext
  · simp [hv] at hocc
  · exact hself hnext

theorem toKeyMap_fill {head len : Nat} {value : α} (hv : slot.generation.isOccupied = false) :
    (Slab.mk (s.slots.set i ⟨slot.generation.next, freeSentinel, some value⟩) head len).toKeyMap =
      s.toKeyMap.store ⟨i, slot.generation.next⟩ value := by
  rw [toKeyMap_set hi]
  ext ⟨j, g⟩ : 2
  · by_cases h : j = i
    · subst h
      by_cases hg : slot.generation.next = g
      · subst hg
        simp [KeyMap.store]
      · simp [KeyMap.store, hg, Ne.symm hg, toKeyMap, stored_of_row hi,
          hs.data_none hi hv]
    · simp [KeyMap.store, h, toKeyMap]
  · by_cases h : j = i
    · subst h
      by_cases hg : slot.generation.next = g
      · subst hg
        simp [KeyMap.store, hv]
      · simp [KeyMap.store, Ne.symm hg, hg, toKeyMap, isReserved_of_row hi, hv]
    · simp [KeyMap.store, h, toKeyMap]

theorem release_becomes (hocc : slot.generation.isOccupied = true) :
    s.Becomes (s.release i slot) (s.toKeyMap.erase ⟨i, slot.generation⟩)
      fun j => if j = i then some slot.generation.next else s.generationAt j := by
  have hhead := hs.head_ne hi (.inl hocc)
  refine ⟨(hs.release hi hocc).1, by simp [release], ?_, fun j => generationAt_set hi j⟩
  · rw [release, toKeyMap_set hi]
    ext ⟨j, g⟩ : 2
    · by_cases h : j = i
      · subst h
        by_cases hg : slot.generation = g
        · simp [KeyMap.erase, hg]
        · simp [KeyMap.erase, Ne.symm hg, hg, toKeyMap, stored_of_row hi]
      · simp [KeyMap.erase, h, toKeyMap]
    · by_cases h : j = i
      · subst h
        simp [KeyMap.erase, toKeyMap, isReserved_of_row hi, hocc, hhead]
      · simp [KeyMap.erase, h, toKeyMap]

theorem write_becomes (f : α → α) :
    s.Becomes { s with slots := s.slots.set i { slot with data := slot.data.map f } }
      (s.toKeyMap.write ⟨i, slot.generation⟩ f) s.generationAt := by
  have hsound := hs.sound slot (List.mem_of_getElem? hi)
  refine ⟨hs.keep hi (by simpa [Slot.Sound] using hsound) rfl rfl, by simp, ?_, fun j => ?_⟩
  · rw [toKeyMap_set hi]
    ext ⟨j, g⟩ : 2
    · by_cases h : j = i
      · subst h
        by_cases hg : slot.generation = g
        · subst hg
          simp [KeyMap.write, toKeyMap, stored_of_row hi]
        · simp [KeyMap.write, Ne.symm hg, hg, toKeyMap, stored_of_row hi]
      · simp [KeyMap.write, h, toKeyMap]
    · by_cases h : j = i
      · subst h
        simp [KeyMap.write, toKeyMap, isReserved_of_row hi]
      · simp [KeyMap.write, h, toKeyMap]
  · rw [generationAt_set hi]
    split
    · next h => simp [generationAt, h, hi]
    · rfl

end

theorem insert_spec (value : α) :
    (s.insert value = .err .full ∧ ∀ j < s.slots.length, ¬ s.toKeyMap.IsFree j) ∨
    ∃ g s', s.insert value = .ok (⟨s.freeHead, Generation.next g⟩, s') ∧
      s.freeHead < s.slots.length ∧ s.toKeyMap.IsFree s.freeHead ∧
      s.generationAt s.freeHead = some g ∧ g.isOccupied = false ∧
      s.Becomes s' (s.toKeyMap.store ⟨s.freeHead, g.next⟩ value)
        fun j => if j = s.freeHead then some g.next else s.generationAt j := by
  by_cases hne : s.freeHead = freeSentinel
  · exact .inl ⟨by simp [insert, hne], fun j hj => hs.not_isFree hne hj⟩
  · obtain ⟨slot, hi, hv, hself⟩ := hs.head_row hne
    obtain ⟨hlt, -⟩ := List.getElem?_eq_some_iff.mp hi
    let filled : Slot α := ⟨slot.generation.next, freeSentinel, some value⟩
    refine .inr ⟨slot.generation, ⟨s.slots.set s.freeHead filled, slot.nextFree, s.len + 1⟩,
      by simp [insert, hne, hi, hv, filled], hlt, (hs.isFree_iff hi).mpr ⟨hv, hself⟩,
      by simp [generationAt, hi], hv, ?_, by simp, ?_, ?_⟩
    · have hsound : filled.Sound := by simp [Slot.Sound, filled, hv]
      simpa [filled, hv] using hs.take hne hi hsound (by simp [filled, hv])
    · exact toKeyMap_fill hs hi hv
    · exact fun j => generationAt_set hi j

theorem reserve_spec :
    (s.reserve = .err .full ∧ ∀ j < s.slots.length, ¬ s.toKeyMap.IsFree j) ∨
    ∃ g s', s.reserve = .ok (⟨s.freeHead, Generation.next g⟩, s') ∧
      s.freeHead < s.slots.length ∧ s.toKeyMap.IsFree s.freeHead ∧
      s.generationAt s.freeHead = some g ∧ g.isOccupied = false ∧
      s.Becomes s' (s.toKeyMap.promise ⟨s.freeHead, g.next⟩) s.generationAt := by
  by_cases hne : s.freeHead = freeSentinel
  · exact .inl ⟨by simp [reserve, hne], fun j hj => hs.not_isFree hne hj⟩
  · obtain ⟨slot, hi, hv, hself⟩ := hs.head_row hne
    obtain ⟨hlt, -⟩ := List.getElem?_eq_some_iff.mp hi
    have hdata := hs.data_none hi hv
    refine .inr ⟨slot.generation,
      ⟨s.slots.set s.freeHead { slot with nextFree := s.freeHead }, slot.nextFree, s.len⟩,
      by simp [reserve, hne, hi, hv], hlt, (hs.isFree_iff hi).mpr ⟨hv, hself⟩,
      by simp [generationAt, hi], hv, ?_, by simp, ?_, ?_⟩
    · have hsound : Slot.Sound { slot with nextFree := s.freeHead } := by
        simp [Slot.Sound, hv, hdata]
      simpa [hv] using hs.take hne hi hsound (.inr rfl)
    · rw [toKeyMap_set hi]
      ext ⟨j, g⟩ : 2
      · by_cases h : j = s.freeHead
        · simp [KeyMap.promise, h, toKeyMap, stored_of_row hi]
        · simp [KeyMap.promise, h, toKeyMap]
      · by_cases h : j = s.freeHead
        · subst h
          by_cases hg : slot.generation.next = g
          · subst hg
            simp [KeyMap.promise, hv]
          · simp [KeyMap.promise, beq_false_of_ne hg, Ne.symm hg, toKeyMap, isReserved_of_row hi]
        · simp [KeyMap.promise, h, toKeyMap]
    · intro j
      rw [generationAt_set hi]
      split
      · next h => simp [generationAt, h, hi]
      · rfl

theorem WF.not_reserved (hres : s.isReserved key = false) (hi : s.slots[key.index]? = some slot) :
    slot.nextFree ≠ key.index ∨ slot.generation.next ≠ key.generation := by
  by_contra h
  push Not at h
  simp [isReserved_iff.mpr ⟨slot, hi, h.1, h.2, hs.vacant_of_self hi h.1⟩] at hres

theorem install_spec (key : SlabKey) (value : α) :
    (s.install key value = none ∧ s.isReserved key = false) ∨
    ∃ g s', s.install key value = some s' ∧ s.isReserved key = true ∧
      s.generationAt key.index = some g ∧ g.isOccupied = false ∧ key.generation = g.next ∧
      s.Becomes s' (s.toKeyMap.store key value)
        fun j => if j = key.index then some g.next else s.generationAt j := by
  cases hres : s.isReserved key with
  | false =>
    refine .inl ⟨?_, rfl⟩
    cases hi : s.slots[key.index]? with
    | none => simp [install, hi]
    | some slot => simp [install, hi, hs.not_reserved hres hi]
  | true =>
    obtain ⟨slot, hi, hself, hgen, hv⟩ := isReserved_iff.mp hres
    obtain ⟨i, g⟩ := key
    subst hgen
    let filled : Slot α := ⟨slot.generation.next, freeSentinel, some value⟩
    refine .inr ⟨slot.generation, ⟨s.slots.set i filled, s.freeHead, s.len + 1⟩,
      by simp [install, hi, hself, filled], rfl, by simp [generationAt, hi], hv, rfl, ?_, by simp,
      ?_, ?_⟩
    · exact hs.fill hi hself value
    · exact toKeyMap_fill hs hi hv
    · exact fun j => generationAt_set hi j

theorem unreserve_spec (key : SlabKey) :
    (s.unreserve key = (false, s) ∧ s.isReserved key = false) ∨
    ∃ s', s.unreserve key = (true, s') ∧ s.isReserved key = true ∧
      s.Becomes s' (s.toKeyMap.withdraw key) s.generationAt := by
  cases hres : s.isReserved key with
  | false =>
    refine .inl ⟨?_, rfl⟩
    cases hi : s.slots[key.index]? with
    | none => simp [unreserve, hi]
    | some slot => simp [unreserve, hi, hs.not_reserved hres hi]
  | true =>
    obtain ⟨slot, hi, hself, hgen, hv⟩ := isReserved_iff.mp hres
    have hhead := hs.head_ne hi (.inr hself)
    have hdata := hs.data_none hi hv
    obtain ⟨i, g⟩ := key
    subst hgen
    refine .inr ⟨⟨s.slots.set i { slot with nextFree := s.freeHead }, i, s.len⟩,
      by simp [unreserve, hi, hself], rfl, ?_, by simp, ?_, ?_⟩
    · simpa [hv, hdata] using hs.give (g := slot.generation) hi (.inr hself) hv
    · rw [toKeyMap_set hi]
      ext ⟨j, g⟩ : 2
      · by_cases h : j = i
        · simp [KeyMap.withdraw, h, toKeyMap, stored_of_row hi]
        · simp [KeyMap.withdraw, h, toKeyMap]
      · by_cases h : j = i
        · subst h
          by_cases hg : slot.generation.next = g
          · subst hg
            simp [KeyMap.withdraw, hhead]
          · simp [KeyMap.withdraw, beq_false_of_ne hg, Ne.symm hg, toKeyMap, isReserved_of_row hi]
        · simp [KeyMap.withdraw, h, toKeyMap]
    · intro j
      rw [generationAt_set hi]
      split
      · next h => simp [generationAt, h, hi]
      · rfl

end

theorem Guards.row (hg : s.Guards key) (hs : s.WF) :
    (s.stored key = none ∧ ∀ slot ∈ s.slots[key.index]?, slot.generation ≠ key.generation) ∨
    ∃ slot a, s.slots[key.index]? = some slot ∧ slot.generation = key.generation ∧
      slot.generation.isOccupied = true ∧ slot.data = some a ∧ s.stored key = some a := by
  by_cases hrow : ∃ slot, s.slots[key.index]? = some slot ∧ slot.generation = key.generation
  · obtain ⟨slot, hi, hgen⟩ := hrow
    have hocc : slot.generation.isOccupied = true := by
      rcases hg with hocc | hne
      · rwa [hgen]
      · exact absurd hgen (hne slot hi)
    obtain ⟨a, ha⟩ := hs.data_some hi hocc
    exact .inr ⟨slot, a, hi, hgen, hocc, ha, stored_eq_some.mpr ⟨slot, hi, hgen, ha⟩⟩
  · refine .inl ⟨?_, fun slot hi hgen => hrow ⟨slot, hi, hgen⟩⟩
    rw [Option.eq_none_iff_forall_ne_some]
    intro a ha
    obtain ⟨slot, hi, hgen, -⟩ := stored_eq_some.mp ha
    exact hrow ⟨slot, hi, hgen⟩

theorem bind_miss {β : Type*} {next : Slot α → Option β}
    (hmiss : ∀ slot ∈ s.slots[key.index]?, slot.generation ≠ key.generation) :
    ((s.slots[key.index]?).bind fun slot =>
      if slot.generation = key.generation then next slot else none) = none := by
  rw [Option.bind_eq_none_iff]
  exact fun slot hi => if_neg (hmiss slot hi)

theorem Guards.get_eq (hg : s.Guards key) (hs : s.WF) : s.get key = (s.stored key).map some := by
  rcases hg.row hs with ⟨hnone, hmiss⟩ | ⟨slot, a, hi, hgen, -, ha, hsome⟩
  · rw [hnone]
    exact bind_miss hmiss
  · simp [get, hi, hgen, ha, hsome]

theorem Guards.slotPtr_eq (hg : s.Guards key) (hs : s.WF) :
    s.slotPtr key = (s.stored key).map fun _ => key.index := by
  rcases hg.row hs with ⟨hnone, hmiss⟩ | ⟨slot, a, hi, hgen, -, ha, hsome⟩
  · rw [hnone]
    exact bind_miss hmiss
  · simp [slotPtr, hi, hgen, hsome]

theorem Guards.getMut_spec (hg : s.Guards key) (hs : s.WF) (f : α → α) :
    (s.stored key = none ∧ s.getMut key f = none) ∨
    ∃ a s', s.stored key = some a ∧ s.getMut key f = some s' ∧
      s.Becomes s' (s.toKeyMap.write key f) s.generationAt := by
  rcases hg.row hs with ⟨hnone, hmiss⟩ | ⟨slot, a, hi, hgen, -, ha, hsome⟩
  · exact .inl ⟨hnone, bind_miss hmiss⟩
  · have hwrite := write_becomes hs hi f
    rw [hgen] at hwrite
    exact .inr ⟨a, _, hsome, by simp [getMut, hi, hgen], hwrite⟩

def Vacated (s : Slab α) (key : SlabKey) (s' : Slab α) : Prop :=
  s.Becomes s' (s.toKeyMap.erase key)
    fun j => if j = key.index then some key.generation.next else s.generationAt j

theorem Guards.remove_spec (hg : s.Guards key) (hs : s.WF) :
    (s.stored key = none ∧ s.remove key = none) ∨
    ∃ a s', s.stored key = some a ∧ s.remove key = some (some a, s') ∧
      s.generationAt key.index = some key.generation ∧ s.Vacated key s' := by
  rcases hg.row hs with ⟨hnone, hmiss⟩ | ⟨slot, a, hi, hgen, hocc, ha, hsome⟩
  · exact .inl ⟨hnone, bind_miss hmiss⟩
  · refine .inr ⟨a, s.release key.index slot, hsome, by simp [remove, hi, hgen, ha],
      by simp [generationAt, hi, hgen], ?_⟩
    simpa [Vacated, hgen] using release_becomes hs hi hocc

theorem Guards.retireSlot_spec (hg : s.Guards key) (hs : s.WF) :
    (s.stored key = none ∧ s.retireSlot key = (false, s)) ∨
    ∃ a s', s.stored key = some a ∧ s.retireSlot key = (true, s') ∧
      s.generationAt key.index = some key.generation ∧ s.Vacated key s' := by
  have hretire : s.retireSlot key = (s.remove key).elim (false, s) fun removed => (true, removed.2) := by
    unfold retireSlot remove
    cases s.slots[key.index]? with
    | none => rfl
    | some slot => by_cases hgen : slot.generation = key.generation <;> simp [hgen]
  rw [hretire]
  rcases hg.remove_spec hs with ⟨hnone, hremove⟩ | ⟨a, s', hsome, hremove, hrest⟩
  · exact .inl ⟨hnone, by rw [hremove]; rfl⟩
  · exact .inr ⟨a, s', hsome, by rw [hremove]; rfl, hrest⟩

theorem WF.getByIndex_spec (hs : s.WF) (i : Nat) :
    (s.getByIndex i = none ∧ ∀ g, s.stored ⟨i, g⟩ = none) ∨
    ∃ slot a, s.slots[i]? = some slot ∧ slot.generation.isOccupied = true ∧ slot.data = some a ∧
      s.getByIndex i = some a ∧ s.stored ⟨i, slot.generation⟩ = some a := by
  cases hi : s.slots[i]? with
  | none => exact .inl ⟨by simp [getByIndex, hi], fun g => by simp [stored, hi]⟩
  | some slot =>
    cases hocc : slot.generation.isOccupied with
    | false =>
      refine .inl ⟨by simp [getByIndex, hi, hocc], fun g => ?_⟩
      simp [stored_of_row hi, hs.data_none hi hocc]
    | true =>
      obtain ⟨a, ha⟩ := hs.data_some hi hocc
      refine .inr ⟨slot, a, rfl, hocc, ha, by simp [getByIndex, hi, hocc, ha], ?_⟩
      simp [stored_of_row hi, ha]

theorem WF.vacant_of_getByIndex (hs : s.WF) (hnone : s.getByIndex i = none)
    (hi : s.slots[i]? = some slot) : slot.generation.isOccupied = false := by
  cases hocc : slot.generation.isOccupied with
  | false => rfl
  | true =>
    obtain ⟨a, ha⟩ := hs.data_some hi hocc
    simp [getByIndex, hi, hocc, ha] at hnone

theorem WF.removeByIndex_spec (hs : s.WF) (i : Nat) :
    (s.removeByIndex i = none ∧ ∀ g, s.stored ⟨i, g⟩ = none) ∨
    ∃ g a s', s.generationAt i = some g ∧ g.isOccupied = true ∧ s.stored ⟨i, g⟩ = some a ∧
      s.removeByIndex i = some (a, s') ∧ s.Vacated ⟨i, g⟩ s' := by
  rcases hs.getByIndex_spec i with ⟨hnone, hmiss⟩ | ⟨slot, a, hi, hocc, ha, -, hsome⟩
  · refine .inl ⟨?_, hmiss⟩
    cases hi : s.slots[i]? with
    | none => simp [removeByIndex, hi]
    | some slot => simp [removeByIndex, hi, hs.vacant_of_getByIndex hnone hi]
  · refine .inr ⟨slot.generation, a, s.release i slot, by simp [generationAt, hi], hocc, hsome,
      by simp [removeByIndex, hi, hocc, ha], ?_⟩
    simpa [Vacated] using release_becomes hs hi hocc

theorem WF.modifyByIndex_spec (hs : s.WF) (i : Nat) (f : α → α) :
    (s.getByIndex i = none ∧ s.modifyByIndex i f = s ∧ ∀ g, s.stored ⟨i, g⟩ = none) ∨
    ∃ g a, s.generationAt i = some g ∧ s.stored ⟨i, g⟩ = some a ∧ s.getByIndex i = some a ∧
      s.Becomes (s.modifyByIndex i f) (s.toKeyMap.write ⟨i, g⟩ f) s.generationAt := by
  rcases hs.getByIndex_spec i with ⟨hnone, hmiss⟩ | ⟨slot, a, hi, hocc, ha, hget, hsome⟩
  · refine .inl ⟨hnone, ?_, hmiss⟩
    cases hi : s.slots[i]? with
    | none => simp [Slab.modifyByIndex, hi]
    | some slot => simp [Slab.modifyByIndex, hi, hs.vacant_of_getByIndex hnone hi]
  · refine .inr ⟨slot.generation, a, by simp [generationAt, hi], hsome, hget, ?_⟩
    simpa [Slab.modifyByIndex, hi, hocc] using write_becomes hs hi f

theorem stored_of_isReserved (h : s.isReserved key = true) :
    key.generation.isOccupied = true ∧ s.stored key = none := by
  obtain ⟨slot, hi, -, hgen, hv⟩ := isReserved_iff.mp h
  have hne : slot.generation ≠ key.generation := hgen ▸ (Generation.next_ne _).symm
  exact ⟨by simp [← hgen, hv], by simp [stored, hi, hne]⟩

theorem WF.exists_stored_iff (hs : s.WF) (hi : s.slots[i]? = some slot) :
    (∃ g a, s.stored ⟨i, g⟩ = some a) ↔ slot.generation.isOccupied = true := by
  constructor
  · rintro ⟨g, a, h⟩
    by_contra hv
    simp [stored_of_row hi, hs.data_none hi (by simpa using hv)] at h
  · intro hocc
    obtain ⟨a, ha⟩ := hs.data_some hi hocc
    exact ⟨slot.generation, a, by simp [stored_of_row hi, ha]⟩

theorem WF.exists_reserved_iff (hs : s.WF) (hi : s.slots[i]? = some slot) :
    (∃ g, s.isReserved ⟨i, g⟩ = true) ↔ slot.nextFree = i := by
  constructor
  · rintro ⟨g, h⟩
    obtain ⟨other, hrow, hself, -⟩ := isReserved_iff.mp h
    cases hi.symm.trans hrow
    exact hself
  · intro hself
    exact ⟨slot.generation.next, isReserved_iff.mpr ⟨slot, hi, hself, rfl, hs.vacant_of_self hi hself⟩⟩

def keys (s : Slab α) : List SlabKey :=
  s.slots.zipIdx.filterMap fun row =>
    if row.1.generation.isOccupied then some ⟨row.2, row.1.generation⟩ else none

theorem mem_keys (hs : s.WF) : key ∈ s.keys ↔ (s.stored key).isSome = true := by
  simp only [keys, List.mem_filterMap, Option.isSome_iff_exists, stored_eq_some]
  constructor
  · rintro ⟨⟨slot, i⟩, hrow, hkey⟩
    split at hkey
    · next hocc =>
      cases hkey
      have hi := List.mem_zipIdx_iff_getElem?.mp hrow
      obtain ⟨a, ha⟩ := hs.data_some hi hocc
      exact ⟨a, slot, hi, rfl, ha⟩
    · cases hkey
  · rintro ⟨a, slot, hi, hgen, ha⟩
    have hocc : slot.generation.isOccupied = true := by
      rw [(hs.sound slot (List.mem_of_getElem? hi)).1, ha]
      rfl
    exact ⟨(slot, key.index), List.mem_zipIdx_iff_getElem?.mpr hi, by simp [hgen, hgen ▸ hocc]⟩

theorem keys_length (hs : s.WF) : s.keys.length = s.len := by
  have hsome : (fun row : Slot α × Nat => Option.isSome (if row.1.generation.isOccupied
      then some (SlabKey.mk row.2 row.1.generation) else none)) =
        (fun slot : Slot α => slot.generation.isOccupied) ∘ Prod.fst := by
    funext row
    by_cases h : row.1.generation.isOccupied <;> simp [h]
  rw [keys, List.length_filterMap_eq_countP, hsome, ← List.countP_map, List.zipIdx_map_fst, hs.len]

theorem keys_nodup (s : Slab α) : s.keys.Nodup := by
  have hidx : (s.slots.zipIdx.map Prod.snd).Nodup := by
    rw [List.zipIdx_map_snd]
    exact List.nodup_range'
  have hrows : s.slots.zipIdx.Pairwise fun row row' => row.2 ≠ row'.2 := List.pairwise_map.mp hidx
  have hindex : ∀ (row : Slot α × Nat) key, (if row.1.generation.isOccupied
      then some (SlabKey.mk row.2 row.1.generation) else none) = some key → row.2 = key.index := by
    intro row key h
    split at h
    · exact congrArg SlabKey.index (Option.some.inj h)
    · cases h
  rw [keys, List.Nodup, List.pairwise_filterMap]
  refine hrows.imp ?_
  rintro row row' hne key hkey _ hkey' rfl
  exact hne ((hindex row key hkey).trans (hindex row' key hkey').symm)

end Specs

end Slab

end Kwokka
