import Kwokka.TimerWheel

/-! The slot lists of the wheel: every entry that is not being moved is on the
list of the slot it names, and the populated masks mark the slots in use. -/

namespace Kwokka

open WheelSlot

namespace TimerWheel

open LinkedChain

variable {τ : Type*}

def prevOf (w : TimerWheel τ) (idx : Nat) : Option Nat :=
  (w.entries.getByIndex idx).bind (·.prev)

def nextOf (w : TimerWheel τ) (idx : Nat) : Option Nat :=
  (w.entries.getByIndex idx).bind (·.next)

def populated (w : TimerWheel τ) (level : Fin 6) (slot : Fin 64) : Bool :=
  (w.levels level).populatedMask.getLsbD slot

@[simp]
theorem setHead_entries (w : TimerWheel τ) (l : Fin 6) (s : Fin 64) (h : Option Nat) :
    (w.setHead l s h).entries = w.entries := rfl

@[simp]
theorem setBit_entries (w : TimerWheel τ) (l : Fin 6) (s : Fin 64) :
    (w.setBit l s).entries = w.entries := rfl

@[simp]
theorem clearBit_entries (w : TimerWheel τ) (l : Fin 6) (s : Fin 64) :
    (w.clearBit l s).entries = w.entries := rfl

@[simp]
theorem setHead_currentTick (w : TimerWheel τ) (l : Fin 6) (s : Fin 64) (h : Option Nat) :
    (w.setHead l s h).currentTick = w.currentTick := rfl

@[simp]
theorem clearBit_currentTick (w : TimerWheel τ) (l : Fin 6) (s : Fin 64) :
    (w.clearBit l s).currentTick = w.currentTick := rfl

@[simp]
theorem insertAt_currentTick (w : TimerWheel τ) (idx : Nat) (l : Fin 6) (s : Fin 64) :
    (w.insertAt idx l s).currentTick = w.currentTick := rfl

theorem head_setHead (w : TimerWheel τ) (l l' : Fin 6) (s s' : Fin 64) (h : Option Nat) :
    (w.setHead l s h).head l' s' = if l' = l ∧ s' = s then h else w.head l' s' := by
  simp only [head, setHead, modifyLevel]
  by_cases hl : l' = l
  · subst hl
    by_cases hs : s' = s
    · subst hs
      simp
    · simp [hs]
  · simp [hl]

@[simp]
theorem head_setBit (w : TimerWheel τ) (l l' : Fin 6) (s s' : Fin 64) :
    (w.setBit l s).head l' s' = w.head l' s' := by
  by_cases hl : l' = l
  · subst hl
    simp [head, setBit, modifyLevel]
  · simp [head, setBit, modifyLevel, hl]

@[simp]
theorem head_clearBit (w : TimerWheel τ) (l l' : Fin 6) (s s' : Fin 64) :
    (w.clearBit l s).head l' s' = w.head l' s' := by
  by_cases hl : l' = l
  · subst hl
    simp [head, clearBit, modifyLevel]
  · simp [head, clearBit, modifyLevel, hl]

@[simp]
theorem populated_setHead (w : TimerWheel τ) (l l' : Fin 6) (s s' : Fin 64) (h : Option Nat) :
    (w.setHead l s h).populated l' s' = w.populated l' s' := by
  by_cases hl : l' = l
  · subst hl
    simp [populated, setHead, modifyLevel]
  · simp [populated, setHead, modifyLevel, hl]

theorem populated_setBit (w : TimerWheel τ) (l l' : Fin 6) (s s' : Fin 64) :
    (w.setBit l s).populated l' s' = if l' = l ∧ s' = s then true else w.populated l' s' := by
  by_cases hl : l' = l
  · subst hl
    by_cases hs : s' = s
    · subst hs
      simp [populated, setBit, modifyLevel]
    · have hv : s'.val ≠ s.val := fun h => hs (Fin.ext h)
      simp [populated, setBit, modifyLevel, hs, hv]
  · simp [populated, setBit, modifyLevel, hl]

theorem populated_clearBit (w : TimerWheel τ) (l l' : Fin 6) (s s' : Fin 64) :
    (w.clearBit l s).populated l' s' = if l' = l ∧ s' = s then false else w.populated l' s' := by
  by_cases hl : l' = l
  · subst hl
    by_cases hs : s' = s
    · subst hs
      simp [populated, clearBit, modifyLevel]
    · have hv : s'.val ≠ s.val := fun h => hs (Fin.ext h)
      simp [populated, clearBit, modifyLevel, hs, hv]
  · simp [populated, clearBit, modifyLevel, hl]

variable {w : TimerWheel τ} {l : Fin 6} {s : Fin 64} {loose : List Nat} {idx : Nat}
  {e : TimerEntry τ} {entries : Slab (TimerEntry τ)}

theorem clearBit_of_not_populated (hw : w.populated l s = false) : w.clearBit l s = w := by
  have hmask : (w.levels l).populatedMask &&& ~~~ BitVec.twoPow 64 s =
      (w.levels l).populatedMask := by
    apply BitVec.eq_of_getLsbD_eq
    intro i hi
    by_cases his : i = s.val
    · have hoff : (w.levels l).populatedMask.getLsbD i = false := his ▸ hw
      simp only [BitVec.getLsbD_and, hoff, Bool.false_and]
    · simp [hi, his]
  simp only [clearBit, modifyLevel, hmask, Function.update_eq_self]

/-- The entries that belong on the list of a slot, leaving out those being moved. -/
def OnSlot (w : TimerWheel τ) (loose : List Nat) (l : Fin 6) (s : Fin 64) (i : Nat) : Prop :=
  i ∉ loose ∧ ∃ e, w.entries.getByIndex i = some e ∧ e.level = l ∧ e.slot = s

def IsSlotList (w : TimerWheel τ) (loose : List Nat) (l : Fin 6) (s : Fin 64)
    (is : List Nat) : Prop :=
  Linked w.prevOf w.nextOf none (w.head l s) is ∧ is.Nodup ∧ ∀ i, i ∈ is ↔ w.OnSlot loose l s i

structure Links (w : TimerWheel τ) (loose : List Nat) : Prop where
  plain : w.entries.Plain
  lists : ∀ l s, ∃ is, w.IsSlotList loose l s is
  mask : ∀ l s, w.populated l s = (w.head l s).isSome

theorem IsSlotList.onSlot_head {is : List Nat} {i : Nat} (hl : w.IsSlotList loose l s is)
    (hi : w.head l s = some i) : w.OnSlot loose l s i := by
  obtain ⟨hlinked, -, hmem⟩ := hl
  cases is with
  | nil =>
    rw [hlinked] at hi
    cases hi
  | cons j =>
    obtain rfl : j = i := Option.some.inj (hlinked.1.symm.trans hi)
    exact (hmem j).mp (by simp)

theorem Links.onSlot_head {i : Nat} (hw : w.Links loose) (hi : w.head l s = some i) :
    w.OnSlot loose l s i := by
  obtain ⟨is, his⟩ := hw.lists l s
  exact his.onSlot_head hi

theorem insertAt_getByIndex (he : w.entries.getByIndex idx = some e) (hh : w.head l s ≠ some idx)
    (j : Nat) : (w.insertAt idx l s).entries.getByIndex j =
      if j = idx then some { e with level := l, slot := s, prev := none, next := w.head l s }
      else (w.entries.getByIndex j).map fun x =>
        { x with prev := if w.head l s = some j then some idx else x.prev } := by
  have hmod : (w.entries.modifyByIndex idx fun e => { e with level := l, slot := s }).getByIndex idx =
      some { e with level := l, slot := s } := by
    simp [Slab.modifyByIndex_getByIndex, he]
  cases hhead : w.head l s with
  | none =>
    by_cases hj : j = idx
    · subst hj
      simp [insertAt, pushFront, hhead, hmod, Slab.modifyByIndex_getByIndex]
    · simp [insertAt, pushFront, hhead, hmod, Slab.modifyByIndex_getByIndex, hj]
  | some old =>
    have hne : idx ≠ old := by
      rintro rfl
      exact hh hhead
    by_cases hj : j = idx
    · subst hj
      simp [insertAt, pushFront, hhead, hmod, Slab.modifyByIndex_getByIndex, hne]
    · by_cases ho : j = old
      · subst ho
        simp [insertAt, pushFront, hhead, hmod, Slab.modifyByIndex_getByIndex, hj]
      · simp [insertAt, pushFront, hhead, hmod, Slab.modifyByIndex_getByIndex, hj, ho,
          Ne.symm ho]

theorem pushFront_plain (hw : entries.Plain) (h : Option Nat) (idx : Nat) :
    (pushFront h idx entries).2.Plain := by
  simp only [pushFront]
  split
  · exact hw
  · cases h with
    | none => exact hw.modifyByIndex idx _
    | some old => exact (hw.modifyByIndex idx _).modifyByIndex old _

theorem pushFront_generationAt (entries : Slab (TimerEntry τ)) (h : Option Nat) (idx j : Nat) :
    (pushFront h idx entries).2.generationAt j = entries.generationAt j := by
  simp only [pushFront]
  split
  · rfl
  · cases h <;> simp [Slab.modifyByIndex_generationAt]

theorem insertAt_plain (hw : w.entries.Plain) (idx : Nat) (l : Fin 6) (s : Fin 64) :
    (w.insertAt idx l s).entries.Plain :=
  pushFront_plain (hw.modifyByIndex idx _) _ _

theorem insertAt_generationAt (w : TimerWheel τ) (idx : Nat) (l : Fin 6) (s : Fin 64) (j : Nat) :
    (w.insertAt idx l s).entries.generationAt j = w.entries.generationAt j :=
  (pushFront_generationAt _ _ _ _).trans (Slab.modifyByIndex_generationAt ..)

theorem insertAt_head (he : w.entries.getByIndex idx = some e) (l' : Fin 6) (s' : Fin 64) :
    (w.insertAt idx l s).head l' s' = if l' = l ∧ s' = s then some idx else w.head l' s' := by
  simp only [insertAt, head_setBit, head_setHead]
  have hpushed : (pushFront (w.head l s) idx
      (w.entries.modifyByIndex idx fun e => { e with level := l, slot := s })).1 = some idx := by
    simp [pushFront, Slab.modifyByIndex_getByIndex, he]
  simp only [hpushed]
  rfl

theorem insertAt_populated (l' : Fin 6) (s' : Fin 64) : (w.insertAt idx l s).populated l' s' =
      if l' = l ∧ s' = s then true else w.populated l' s' := by
  simp only [insertAt, populated_setBit, populated_setHead]
  rfl

theorem insertAt_nextOf (he : w.entries.getByIndex idx = some e) (hh : w.head l s ≠ some idx)
    (j : Nat) : (w.insertAt idx l s).nextOf j = if j = idx then w.head l s else w.nextOf j := by
  rw [nextOf, insertAt_getByIndex he hh]
  by_cases hj : j = idx
  · simp [hj]
  · cases hget : w.entries.getByIndex j <;> simp [hj, nextOf, hget]

theorem insertAt_prevOf {x : TimerEntry τ} (he : w.entries.getByIndex idx = some e)
    (hh : w.head l s ≠ some idx) {j : Nat} (hj : j ≠ idx) (hx : w.entries.getByIndex j = some x) :
    (w.insertAt idx l s).prevOf j = if w.head l s = some j then some idx else w.prevOf j := by
  rw [prevOf, insertAt_getByIndex he hh]
  simp [hj, prevOf, hx]

theorem insertAt_onSlot (he : w.entries.getByIndex idx = some e) (hh : w.head l s ≠ some idx)
    (hidx : idx ∉ loose) (l' : Fin 6) (s' : Fin 64) (i : Nat) :
    (w.insertAt idx l s).OnSlot loose l' s' i ↔
      (i = idx ∧ l' = l ∧ s' = s) ∨ w.OnSlot (idx :: loose) l' s' i := by
  simp only [OnSlot, insertAt_getByIndex he hh]
  by_cases hi : i = idx
  · subst hi
    simp [hidx, eq_comm]
  · cases hget : w.entries.getByIndex i <;> simp [hi]

theorem Links.insertAt (hw : w.Links (idx :: loose)) (he : w.entries.getByIndex idx = some e)
    (hidx : idx ∉ loose) (l : Fin 6) (s : Fin 64) : (w.insertAt idx l s).Links loose := by
  have hh : ∀ l' s', w.head l' s' ≠ some idx := by
    intro l' s' hhead
    exact (hw.onSlot_head hhead).1 (by simp)
  refine ⟨insertAt_plain hw.plain idx l s, ?_, ?_⟩
  · intro l' s'
    obtain ⟨is, hlinked, hnd, hmem⟩ := hw.lists l' s'
    have hne : ∀ j ∈ is, j ≠ idx := by
      intro j hj h
      exact ((hmem j).mp hj).1 (by simp [h])
    have hnext : ∀ j ∈ is, (w.insertAt idx l s).nextOf j = w.nextOf j := by
      intro j hj
      rw [insertAt_nextOf he (hh l s), if_neg (hne j hj)]
    have hprev : ∀ j ∈ is, (w.insertAt idx l s).prevOf j =
        if w.head l s = some j then some idx else w.prevOf j := by
      intro j hj
      obtain ⟨-, x, hx, -⟩ := (hmem j).mp hj
      exact insertAt_prevOf he (hh l s) (hne j hj) hx
    by_cases hslot : l' = l ∧ s' = s
    · obtain ⟨rfl, rfl⟩ := hslot
      refine ⟨idx :: is, ?_, List.nodup_cons.mpr ⟨fun h => hne idx h rfl, hnd⟩, ?_⟩
      · rw [insertAt_head he, if_pos ⟨rfl, rfl⟩]
        refine hlinked.pushFront hnd ?_ ?_ hprev hnext
        · simp [prevOf, insertAt_getByIndex he (hh l' s')]
        · rw [insertAt_nextOf he (hh l' s'), if_pos rfl]
      · intro i
        rw [insertAt_onSlot he (hh l' s') hidx, List.mem_cons, hmem]
        simp
    · refine ⟨is, ?_, hnd, ?_⟩
      · rw [insertAt_head he, if_neg hslot]
        refine hlinked.congr (fun j hj => ?_) hnext
        rw [hprev j hj, if_neg]
        intro hhead
        obtain ⟨-, x, hx, hxl, hxs⟩ := hw.onSlot_head hhead
        obtain ⟨-, y, hy, hyl, hys⟩ := (hmem j).mp hj
        cases hx.symm.trans hy
        exact hslot ⟨hyl.symm.trans hxl, hys.symm.trans hxs⟩
      · intro i
        rw [insertAt_onSlot he (hh l s) hidx, hmem]
        constructor
        · exact .inr
        · rintro (⟨-, hslot'⟩ | h)
          · exact absurd hslot' hslot
          · exact h
  · intro l' s'
    rw [insertAt_populated, insertAt_head he]
    split
    · rfl
    · exact hw.mask l' s'

theorem Links.change_loose {loose' : List Nat} (hw : w.Links loose) (hplain : entries.Plain)
    (hsub : ∀ i ∈ loose', i ∈ loose) (hout : ∀ i ∈ loose, i ∉ loose' → entries.getByIndex i = none)
    (hsame : ∀ i, i ∉ loose → entries.getByIndex i = w.entries.getByIndex i) :
    Links { w with entries := entries } loose' := by
  refine ⟨hplain, ?_, hw.mask⟩
  intro l s
  obtain ⟨is, hlinked, hnd, hmem⟩ := hw.lists l s
  have hget : ∀ j ∈ is, entries.getByIndex j = w.entries.getByIndex j := by
    intro j hj
    exact hsame j ((hmem j).mp hj).1
  refine ⟨is, hlinked.congr (fun j hj => ?_) (fun j hj => ?_), hnd, ?_⟩
  · simp [prevOf, hget j hj]
  · simp [nextOf, hget j hj]
  · intro i
    rw [hmem]
    by_cases hi : i ∈ loose
    · constructor
      · intro h
        exact absurd hi h.1
      · rintro ⟨hout', x, hx, -⟩
        have hnone := hout i hi hout'
        simp [hnone] at hx
    · have hi' : i ∉ loose' := fun h => hi (hsub i h)
      simp [OnSlot, hi, hi', hsame i hi]

theorem Links.detach (hw : w.Links []) (l : Fin 6) (s : Fin 64) :
    ∃ is, Chain w.nextOf (w.head l s) is ∧ is.Nodup ∧ (∀ i, i ∈ is ↔ w.OnSlot [] l s i) ∧
      ((w.setHead l s none).clearBit l s).Links is := by
  obtain ⟨is, hlinked, hnd, hmem⟩ := hw.lists l s
  refine ⟨is, hlinked.chain, hnd, hmem, hw.plain, ?_, ?_⟩
  · intro l' s'
    by_cases hslot : l' = l ∧ s' = s
    · refine ⟨[], ?_, List.nodup_nil, ?_⟩
      · simp [head_setHead, hslot]
      · intro i
        obtain ⟨rfl, rfl⟩ := hslot
        simp only [List.not_mem_nil, false_iff]
        rintro ⟨hni, x, hx, hxl⟩
        exact hni ((hmem i).mpr ⟨by simp, x, hx, hxl⟩)
    · obtain ⟨js, hlinked', hnd', hmem'⟩ := hw.lists l' s'
      refine ⟨js, ?_, hnd', ?_⟩
      · rw [head_clearBit, head_setHead, if_neg hslot]
        exact hlinked'
      · intro i
        rw [hmem']
        constructor
        · rintro ⟨-, x, hx, hxl, hxs⟩
          refine ⟨fun hi => ?_, x, hx, hxl, hxs⟩
          obtain ⟨-, y, hy, hyl, hys⟩ := (hmem i).mp hi
          cases hx.symm.trans hy
          exact hslot ⟨hxl.symm.trans hyl, hxs.symm.trans hys⟩
        · rintro ⟨-, x, hx⟩
          exact ⟨by simp, x, hx⟩
  · intro l' s'
    rw [populated_clearBit, head_clearBit, head_setHead, populated_setHead]
    split
    · rfl
    · exact hw.mask l' s'

theorem remove_getByIndex (he : entries.getByIndex idx = some e) (h : Option Nat) {j : Nat}
    (hj : j ≠ idx) : (remove h idx entries).2.getByIndex j =
      (entries.getByIndex j).map fun x =>
        { x with
          prev := if e.next = some j then e.prev else x.prev
          next := if e.prev = some j then e.next else x.next } := by
  simp only [remove, he]
  cases hp : e.prev with
  | none =>
    cases hn : e.next with
    | none => simp [Slab.modifyByIndex_getByIndex, hj]
    | some n =>
      by_cases hjn : j = n
      · subst hjn
        simp [Slab.modifyByIndex_getByIndex, hj]
      · simp [Slab.modifyByIndex_getByIndex, hj, hjn, Ne.symm hjn]
  | some p =>
    cases hn : e.next with
    | none =>
      by_cases hjp : j = p
      · subst hjp
        simp [Slab.modifyByIndex_getByIndex, hj]
      · simp [Slab.modifyByIndex_getByIndex, hj, hjp, Ne.symm hjp]
    | some n =>
      by_cases hjp : j = p <;> by_cases hjn : j = n
      · subst hjp
        subst hjn
        simp [Slab.modifyByIndex_getByIndex, hj, Function.comp_def]
      · subst hjp
        simp [Slab.modifyByIndex_getByIndex, hj, hjn, Ne.symm hjn]
      · subst hjn
        simp [Slab.modifyByIndex_getByIndex, hj, hjp, Ne.symm hjp]
      · simp [Slab.modifyByIndex_getByIndex, hj, hjn, hjp, Ne.symm hjn, Ne.symm hjp]

theorem remove_plain (hw : entries.Plain) (h : Option Nat) (idx : Nat) :
    (remove h idx entries).2.Plain := by
  simp only [remove]
  split
  · exact hw
  · next e _ =>
    cases e.prev <;> cases e.next <;>
      simp only [hw.modifyByIndex, Slab.Plain.modifyByIndex]

theorem remove_generationAt (entries : Slab (TimerEntry τ)) (h : Option Nat) (idx j : Nat) :
    (remove h idx entries).2.generationAt j = entries.generationAt j := by
  simp only [remove]
  split
  · rfl
  · next e _ => cases e.prev <;> cases e.next <;> simp [Slab.modifyByIndex_generationAt]

theorem remove_head (he : entries.getByIndex idx = some e) (h : Option Nat) :
    (remove h idx entries).1 = if e.prev = none then e.next else h := by
  simp only [remove, he]
  cases e.prev <;> simp

theorem removeFromSlot_entries (he : w.entries.getByIndex idx = some e) :
    (w.removeFromSlot idx).entries =
      (remove (w.head e.level e.slot) idx w.entries).2 := by
  simp only [removeFromSlot, he]
  split <;> rfl

theorem removeFromSlot_head (he : w.entries.getByIndex idx = some e) (l : Fin 6) (s : Fin 64) :
    (w.removeFromSlot idx).head l s =
      if l = e.level ∧ s = e.slot then if e.prev = none then e.next else w.head e.level e.slot
      else w.head l s := by
  have hhead := remove_head he (w.head e.level e.slot)
  generalize (if e.prev = none then e.next else w.head e.level e.slot) = new at hhead ⊢
  simp only [removeFromSlot, he, hhead]
  split
  · rw [head_clearBit, head_setHead]
    rfl
  · rw [head_setHead]
    rfl

theorem removeFromSlot_populated (he : w.entries.getByIndex idx = some e) (l : Fin 6) (s : Fin 64) :
    (w.removeFromSlot idx).populated l s =
      if (l = e.level ∧ s = e.slot) ∧ (w.removeFromSlot idx).head e.level e.slot = none then false
      else w.populated l s := by
  have hhead := remove_head he (w.head e.level e.slot)
  have hnew := removeFromSlot_head he e.level e.slot
  rw [if_pos ⟨rfl, rfl⟩] at hnew
  rw [hnew]
  generalize (if e.prev = none then e.next else w.head e.level e.slot) = new at hhead ⊢
  simp only [removeFromSlot, he, hhead]
  split
  · next hnone =>
    rw [populated_clearBit, populated_setHead]
    simp only [hnone, and_true]
    rfl
  · next hsome =>
    rw [populated_setHead]
    simp only [hsome, and_false, if_false]
    rfl

theorem Links.removeFromSlot (hw : w.Links []) (he : w.entries.getByIndex idx = some e) :
    (w.removeFromSlot idx).Links [idx] := by
  have hentries := removeFromSlot_entries he
  have hget : ∀ {j}, j ≠ idx → (w.removeFromSlot idx).entries.getByIndex j =
      (w.entries.getByIndex j).map fun x =>
        { x with
          prev := if e.next = some j then e.prev else x.prev
          next := if e.prev = some j then e.next else x.next } := by
    intro j hj
    rw [hentries]
    exact remove_getByIndex he _ hj
  have honSlot : ∀ l s j, (w.removeFromSlot idx).OnSlot [idx] l s j ↔
      j ≠ idx ∧ w.OnSlot [] l s j := by
    intro l s j
    by_cases hj : j = idx
    · simp [OnSlot, hj]
    · cases hx : w.entries.getByIndex j <;> simp [OnSlot, hj, hget hj, hx]
  have hprevIdx : w.prevOf idx = e.prev := by simp [prevOf, he]
  have hnextIdx : w.nextOf idx = e.next := by simp [nextOf, he]
  refine ⟨?_, ?_, ?_⟩
  · rw [hentries]
    exact remove_plain hw.plain _ _
  · intro l s
    obtain ⟨is, hlinked, hnd, hmem⟩ := hw.lists l s
    have hprev : ∀ j ∈ is, j ≠ idx → (w.removeFromSlot idx).prevOf j =
        if w.nextOf idx = some j then w.prevOf idx else w.prevOf j := by
      intro j hj hne
      obtain ⟨-, x, hx, -⟩ := (hmem j).mp hj
      rw [hprevIdx, hnextIdx]
      simp only [prevOf, hget hne, hx, Option.map_some, Option.bind_some]
    have hnext : ∀ j ∈ is, j ≠ idx → (w.removeFromSlot idx).nextOf j =
        if w.prevOf idx = some j then w.nextOf idx else w.nextOf j := by
      intro j hj hne
      obtain ⟨-, x, hx, -⟩ := (hmem j).mp hj
      rw [hprevIdx, hnextIdx]
      simp only [nextOf, hget hne, hx, Option.map_some, Option.bind_some]
    by_cases hslot : l = e.level ∧ s = e.slot
    · obtain ⟨rfl, rfl⟩ := hslot
      have hin : idx ∈ is := (hmem idx).mpr ⟨by simp, e, he, rfl, rfl⟩
      obtain ⟨xs, ys, rfl⟩ := List.append_of_mem hin
      have hsplit := List.nodup_middle.mp hnd
      have hne : ∀ j ∈ xs ++ ys, j ≠ idx := by
        intro j hj h
        exact (List.nodup_cons.mp hsplit).1 (h ▸ hj)
      have hsub : ∀ j ∈ xs ++ ys, j ∈ xs ++ idx :: ys := by
        intro j hj
        rcases List.mem_append.mp hj with h | h
        · exact List.mem_append_left _ h
        · exact List.mem_append_right _ (List.mem_cons_of_mem _ h)
      have hremoved := hlinked.remove hnd (by simp)
        (fun j hj => hprev j (hsub j hj) (hne j hj)) (fun j hj => hnext j (hsub j hj) (hne j hj))
      have hempty : xs = [] ↔ e.prev = none := by
        rw [← hprevIdx, hlinked.prev_eq, Option.or_none, List.getLast?_eq_none_iff]
      refine ⟨xs ++ ys, ?_, (List.nodup_cons.mp hsplit).2, ?_⟩
      · rw [removeFromSlot_head he, if_pos ⟨rfl, rfl⟩]
        simpa only [hempty, hnextIdx] using hremoved
      · intro j
        rw [honSlot, ← hmem]
        constructor
        · intro hj
          exact ⟨hne j hj, hsub j hj⟩
        · intro hj
          have hj2 := hj.2
          simp only [List.mem_append, List.mem_cons, hj.1, false_or] at hj2
          exact List.mem_append.mpr hj2
    · have hne : ∀ j ∈ is, j ≠ idx := by
        intro j hj h
        obtain ⟨-, x, hx, hxl, hxs⟩ := (hmem j).mp hj
        rw [h, he] at hx
        cases hx
        exact hslot ⟨hxl.symm, hxs.symm⟩
      have hother := hw.lists e.level e.slot
      obtain ⟨ks, hks, hksnd, hksmem⟩ := hother
      have hin : idx ∈ ks := (hksmem idx).mpr ⟨by simp, e, he, rfl, rfl⟩
      obtain ⟨xs, ys, rfl⟩ := List.append_of_mem hin
      have hdisjoint : ∀ j ∈ is, j ∉ xs ++ idx :: ys := by
        intro j hj hk
        obtain ⟨-, x, hx, hxl, hxs⟩ := (hmem j).mp hj
        obtain ⟨-, y, hy, hyl, hys⟩ := (hksmem j).mp hk
        cases hx.symm.trans hy
        exact hslot ⟨hxl.symm.trans hyl, hxs.symm.trans hys⟩
      have hnp : ∀ j ∈ is, w.prevOf idx ≠ some j := by
        intro j hj h
        rw [hks.prev_eq, Option.or_none] at h
        exact hdisjoint j hj (by simp [List.mem_of_mem_getLast? h])
      have hnn : ∀ j ∈ is, w.nextOf idx ≠ some j := by
        intro j hj h
        rw [hks.next_eq] at h
        exact hdisjoint j hj (by simp [List.mem_of_mem_head? h])
      refine ⟨is, ?_, hnd, ?_⟩
      · rw [removeFromSlot_head he, if_neg hslot]
        refine hlinked.congr (fun j hj => ?_) (fun j hj => ?_)
        · rw [hprev j hj (hne j hj), if_neg (hnn j hj)]
        · rw [hnext j hj (hne j hj), if_neg (hnp j hj)]
      · intro j
        rw [honSlot, ← hmem]
        exact ⟨fun hj => ⟨hne j hj, hj⟩, fun hj => hj.2⟩
  · intro l s
    rw [removeFromSlot_populated he]
    split
    · next h => rw [h.1.1, h.1.2, h.2, Option.isSome_none]
    · next h =>
      rw [hw.mask, removeFromSlot_head he]
      split
      · next hslot =>
        obtain ⟨rfl, rfl⟩ := hslot
        have hnew := removeFromSlot_head he e.level e.slot
        simp only [and_self, if_true] at hnew
        have hsome : (if e.prev = none then e.next else w.head e.level e.slot) ≠ none := by
          intro hnone
          exact h ⟨⟨rfl, rfl⟩, hnew.trans hnone⟩
        have hold : w.head e.level e.slot ≠ none := by
          intro hnone
          obtain ⟨is, hlinked, -, hmem⟩ := hw.lists e.level e.slot
          have hnil := hlinked.head_eq_none_iff.mp hnone
          have hin : idx ∈ is := (hmem idx).mpr ⟨by simp, e, he, rfl, rfl⟩
          simp [hnil] at hin
        rw [Option.isSome_iff_ne_none.mpr hsome, Option.isSome_iff_ne_none.mpr hold]
      · rfl

end TimerWheel

end Kwokka
