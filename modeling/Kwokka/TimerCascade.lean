import Kwokka.TimerLinks
import Kwokka.TimerPlacement
import Mathlib.Data.List.Perm.Subperm

/-! Cascading: moving the wheel one tick on redistributes the slots the cursors
reach and leaves every entry in its place for the new tick. -/

namespace Kwokka

namespace TimerWheel

open LinkedChain

variable {τ : Type*}

def timerAt (w : TimerWheel τ) (idx : Nat) : Option (Nat × τ) :=
  (w.entries.getByIndex idx).map fun e => (e.deadlineTick, e.taskRef)

structure SameTimers (w w' : TimerWheel τ) : Prop where
  timer : ∀ i, w'.timerAt i = w.timerAt i
  generation : ∀ i, w'.entries.generationAt i = w.entries.generationAt i
  len : w'.entries.len = w.entries.len

theorem SameTimers.refl (w : TimerWheel τ) : SameTimers w w := ⟨fun _ => rfl, fun _ => rfl, rfl⟩

variable {w : TimerWheel τ} {P : Fin 6 → Fin 64 → Nat → Prop} {l : Fin 6} {s : Fin 64}
  {now d k : Nat}

theorem SameTimers.trans {w' w'' : TimerWheel τ} (h : SameTimers w w') (h' : SameTimers w' w'') :
    SameTimers w w'' :=
  ⟨fun i => (h'.timer i).trans (h.timer i), fun i => (h'.generation i).trans (h.generation i),
    h'.len.trans h.len⟩

def EntriesAt (w : TimerWheel τ) (loose : List Nat) (P : Fin 6 → Fin 64 → Nat → Prop) : Prop :=
  ∀ i e, i ∉ loose → w.entries.getByIndex i = some e → P e.level e.slot e.deadlineTick

theorem EntriesAt.imp {loose : List Nat} {Q : Fin 6 → Fin 64 → Nat → Prop}
    (hw : w.EntriesAt loose P) (h : ∀ l s d, P l s d → Q l s d) : w.EntriesAt loose Q := by
  intro i e hi he
  exact h _ _ _ (hw i e hi he)

theorem timerAt_eq_some {i : Nat} {t : Nat × τ} : w.timerAt i = some t ↔
      ∃ e, w.entries.getByIndex i = some e ∧ e.deadlineTick = t.1 ∧ e.taskRef = t.2 := by
  simp [timerAt, Prod.ext_iff]

theorem pushFront_len (entries : Slab (TimerEntry τ)) (h : Option Nat) (idx : Nat) :
    (WheelSlot.pushFront h idx entries).2.len = entries.len := by
  simp only [WheelSlot.pushFront]
  split
  · rfl
  · cases h <;> simp [Slab.modifyByIndex_len]

theorem insertAt_len (w : TimerWheel τ) (idx : Nat) (l : Fin 6) (s : Fin 64) :
    (w.insertAt idx l s).entries.len = w.entries.len :=
  (pushFront_len _ _ _).trans (Slab.modifyByIndex_len ..)

theorem insertAt_timerAt {idx : Nat} {e : TimerEntry τ} (he : w.entries.getByIndex idx = some e)
    (hh : w.head l s ≠ some idx) (j : Nat) : (w.insertAt idx l s).timerAt j = w.timerAt j := by
  rw [timerAt, insertAt_getByIndex he hh]
  by_cases hj : j = idx
  · simp [hj, timerAt, he]
  · simp [hj, timerAt, Function.comp_def]

theorem reposition_spec {idx : Nat} {loose : List Nat} {e : TimerEntry τ}
    (hw : w.Links (idx :: loose)) (hidx : idx ∉ loose) (he : w.entries.getByIndex idx = some e)
    (hdue : w.currentTick ≤ e.deadlineTick) (hP : ∀ l s d, Settled w.currentTick l s d → P l s d)
    (hat : w.EntriesAt (idx :: loose) P) : (w.reposition idx e.deadlineTick).Links loose ∧
      SameTimers w (w.reposition idx e.deadlineTick) ∧
      (w.reposition idx e.deadlineTick).EntriesAt loose P ∧
      ∀ j ∈ loose, (w.reposition idx e.deadlineTick).nextOf j = w.nextOf j := by
  let cleared : TimerWheel τ :=
    { w with entries := w.entries.modifyByIndex idx fun e => { e with prev := none, next := none } }
  let p := position e.deadlineTick w.currentTick
  have heq : w.reposition idx e.deadlineTick = cleared.insertAt idx p.1 p.2 := rfl
  have hget : ∀ j, j ≠ idx → cleared.entries.getByIndex j = w.entries.getByIndex j := by
    intro j hj
    simp [cleared, Slab.modifyByIndex_getByIndex, hj]
  have hself : cleared.entries.getByIndex idx = some { e with prev := none, next := none } := by
    simp [cleared, Slab.modifyByIndex_getByIndex, he]
  have hclear : cleared.Links (idx :: loose) := by
    apply hw.change_loose (hw.plain.modifyByIndex idx _) (fun _ h => h)
    · intro i hi hni
      exact absurd hi hni
    · intro i hi
      exact hget i (fun h => hi (by simp [h]))
  have hhead : cleared.head p.1 p.2 ≠ some idx := by
    intro h
    exact (hclear.onSlot_head h).1 (by simp)
  have hnew := insertAt_getByIndex hself hhead
  rw [heq]
  refine ⟨hclear.insertAt hself hidx p.1 p.2, ⟨?_, ?_, ?_⟩, ?_, ?_⟩
  · intro j
    rw [insertAt_timerAt hself hhead]
    by_cases hj : j = idx
    · subst hj
      simp [timerAt, hself, he]
    · simp [timerAt, hget j hj]
  · intro j
    rw [insertAt_generationAt]
    exact Slab.modifyByIndex_generationAt ..
  · rw [insertAt_len]
    exact Slab.modifyByIndex_len ..
  · intro i x hi hx
    rw [hnew] at hx
    by_cases hj : i = idx
    · rw [if_pos hj] at hx
      cases hx
      exact hP _ _ _ (position_settled hdue)
    · rw [if_neg hj, hget i hj, Option.map_eq_some_iff] at hx
      obtain ⟨y, hy, rfl⟩ := hx
      exact hat i y (by simp [hi, hj]) hy
  · intro j hj
    have hne : j ≠ idx := fun h => hidx (h ▸ hj)
    rw [insertAt_nextOf hself hhead, if_neg hne]
    simp [nextOf, hget j hne]

theorem cascadeLoop_spec (detached : List Nat) (w : TimerWheel τ) (fuel : Nat) (start : Option Nat)
    (hw : w.Links detached) (hchain : Chain w.nextOf start detached) (hnd : detached.Nodup)
    (hlive : ∀ i ∈ detached, ∃ e, w.entries.getByIndex i = some e ∧
      w.currentTick ≤ e.deadlineTick) (hP : ∀ l s d, Settled w.currentTick l s d → P l s d)
    (hat : w.EntriesAt detached P) (hfuel : detached.length ≤ fuel) :
    ∃ w', w.cascadeLoop fuel start = some w' ∧ w'.Links [] ∧ SameTimers w w' ∧
      w'.currentTick = w.currentTick ∧ w'.EntriesAt [] P := by
  induction detached generalizing w fuel start with
  | nil =>
    refine ⟨w, ?_, hw, SameTimers.refl w, rfl, hat⟩
    rw [hchain]
    cases fuel <;> rfl
  | cons idx rest ih =>
    obtain ⟨hstart, hrest⟩ := hchain
    obtain ⟨hidx, hnd'⟩ := List.nodup_cons.mp hnd
    obtain ⟨e, he, hdue⟩ := hlive idx (by simp)
    obtain ⟨fuel, rfl⟩ : ∃ n, fuel = n + 1 := ⟨fuel - 1, by simp at hfuel; omega⟩
    obtain ⟨hlinks, hsame, hat', hnext⟩ := reposition_spec hw hidx he hdue hP hat
    have hnextIdx : w.nextOf idx = e.next := by simp [nextOf, he]
    have hchain' : Chain (w.reposition idx e.deadlineTick).nextOf e.next rest := by
      rw [hnextIdx] at hrest
      exact hrest.congr hnext
    have hlive' : ∀ i ∈ rest, ∃ x, (w.reposition idx e.deadlineTick).entries.getByIndex i = some x ∧
        (w.reposition idx e.deadlineTick).currentTick ≤ x.deadlineTick := by
      intro i hi
      obtain ⟨x, hx, hdx⟩ := hlive i (List.mem_cons_of_mem _ hi)
      have ht : (w.reposition idx e.deadlineTick).timerAt i = some (x.deadlineTick, x.taskRef) := by
        rw [hsame.timer]
        simp [timerAt, hx]
      obtain ⟨y, hy, hyd, -⟩ := timerAt_eq_some.mp ht
      exact ⟨y, hy, hyd ▸ hdx⟩
    obtain ⟨w', hrun, hlinks', hsame', htick', hat''⟩ :=
      ih (w.reposition idx e.deadlineTick) fuel e.next hlinks hchain' hnd' hlive' hP hat'
        (by simpa using hfuel)
    refine ⟨w', ?_, hlinks', hsame.trans hsame', htick', hat''⟩
    rw [hstart]
    simpa [cascadeLoop, he] using hrun

theorem length_le_slots {is : List Nat} (hnd : is.Nodup)
    (hlive : ∀ i ∈ is, ∃ e, w.entries.getByIndex i = some e) :
    is.length ≤ w.entries.slots.length := by
  have hsub : is ⊆ List.range w.entries.slots.length := by
    intro i hi
    obtain ⟨e, he⟩ := hlive i hi
    simp only [Slab.getByIndex, Option.bind_eq_some_iff] at he
    obtain ⟨slot, hslot, -⟩ := he
    obtain ⟨hlt, -⟩ := List.getElem?_eq_some_iff.mp hslot
    exact List.mem_range.mpr hlt
  simpa using (List.subperm_of_subset hnd hsub).length_le

theorem cascadeLevel_spec {Q : Fin 6 → Fin 64 → Nat → Prop} {level : Fin 6} (hw : w.Links [])
    (hat : w.EntriesAt [] Q) (hdue : ∀ l s d, Q l s d → w.currentTick ≤ d)
    (hP : ∀ l s d, Settled w.currentTick l s d → P l s d)
    (hkeep : ∀ l s d, Q l s d → ¬ (l = level ∧ s = slotOf w.currentTick level) → P l s d) :
    ∃ w', w.cascadeLevel level = some w' ∧ w'.Links [] ∧ SameTimers w w' ∧
      w'.currentTick = w.currentTick ∧ w'.EntriesAt [] P := by
  obtain ⟨is, hchain, hnd, hmem, hlinks⟩ := hw.detach level (slotOf w.currentTick level)
  have hlive : ∀ i ∈ is, ∃ e, w.entries.getByIndex i = some e ∧ w.currentTick ≤ e.deadlineTick := by
    intro i hi
    obtain ⟨-, e, he, -⟩ := (hmem i).mp hi
    exact ⟨e, he, hdue _ _ _ (hat i e (by simp) he)⟩
  have hlen : is.length ≤ w.entries.slots.length :=
    length_le_slots hnd fun i hi => (hlive i hi).imp fun _ h => h.1
  have hat' : ((w.setHead level (slotOf w.currentTick level) none).clearBit level
      (slotOf w.currentTick level)).EntriesAt is P := by
    intro i e hi he
    apply hkeep _ _ _ (hat i e (by simp) he)
    intro hslot
    exact hi ((hmem i).mpr ⟨by simp, e, he, hslot.1, hslot.2⟩)
  obtain ⟨w', hrun, hlinks', hsame, htick, hat''⟩ :=
    cascadeLoop_spec is _ _ _ hlinks hchain hnd hlive hP hat' hlen
  exact ⟨w', hrun, hlinks', ⟨hsame.timer, hsame.generation, hsame.len⟩, htick, hat''⟩

def Midway (now k : Nat) (l : Fin 6) (s : Fin 64) (d : Nat) : Prop :=
  Settled (now + 1) l s d ∨ (k < l.val ∧ Placed now l s d)

theorem Midway.of_placed (hp : Placed now l s d) : Midway now 0 l s d := by
  by_cases hl : l = 0
  · subst hl
    exact .inl hp.settled_zero
  · exact .inr ⟨Fin.pos_iff_ne_zero.mpr hl, hp⟩

theorem Midway.due (hm : Midway now k l s d) : now + 1 ≤ d := by
  rcases hm with (hp | ⟨-, -, hd⟩) | ⟨-, hp⟩
  · exact Nat.le_of_lt hp.lt
  · exact Nat.le_of_eq hd.symm
  · exact hp.lt

theorem Midway.next {level : Fin 6} (hm : Midway now k l s d) (hlevel : level.val = k + 1)
    (hslot : ¬ (l = level ∧ s = slotOf (now + 1) level)) : Midway now (k + 1) l s d := by
  rcases hm with hs | ⟨hk, hp⟩
  · exact .inl hs
  · by_cases hl : l = level
    · subst hl
      have hne : s ≠ slotOf (now + 1) l := fun h => hslot ⟨rfl, h⟩
      exact .inl (.inl (hp.tick_elsewhere hne))
    · have hval : l.val ≠ level.val := fun h => hl (Fin.ext h)
      exact .inr ⟨by omega, hp⟩

theorem Midway.stop (hm : Midway now k l s d) (hn : ¬ 64 ^ (k + 1) ∣ now + 1) :
    Settled (now + 1) l s d := by
  rcases hm with hs | ⟨hk, hp⟩
  · exact hs
  · have hdvd : ¬ 64 ^ l.val ∣ now + 1 := by
      intro h
      exact hn (Nat.dvd_trans (Nat.pow_dvd_pow 64 hk) h)
    exact .inl (hp.tick_inside hdvd)

theorem Midway.last (hm : Midway now 5 l s d) : Settled (now + 1) l s d := by
  rcases hm with hs | ⟨hk, -⟩
  · exact hs
  · have := l.isLt
    omega

theorem wraps_iff (hk : k ≤ 5) : k * 6 ≤ trailingZeros now ↔ 64 ^ k ∣ now := by
  rw [le_trailingZeros (by omega), Nat.mul_comm, Nat.pow_mul]

theorem cascadeLevels_spec (levels : List (Fin 6)) (k : Nat) (w : TimerWheel τ)
    (hlevels : levels.map Fin.val = List.range' (k + 1) (5 - k)) (hk : k ≤ 5)
    (htick : w.currentTick = now + 1) (hw : w.Links []) (hat : w.EntriesAt [] (Midway now k)) :
    ∃ w', cascadeLevels (trailingZeros (now + 1)) levels w = some w' ∧ w'.Links [] ∧
      SameTimers w w' ∧ w'.currentTick = now + 1 ∧ w'.EntriesAt [] (Settled (now + 1)) := by
  induction levels generalizing k w with
  | nil =>
    have hlen := congrArg List.length hlevels
    obtain rfl : k = 5 := by
      simp at hlen
      omega
    exact ⟨w, rfl, hw, SameTimers.refl w, htick, hat.imp fun _ _ _ h => h.last⟩
  | cons level levels ih =>
    have hlen := congrArg List.length hlevels
    obtain ⟨n, hn⟩ : ∃ n, 5 - k = n + 1 := ⟨5 - k - 1, by simp at hlen; omega⟩
    rw [hn, List.range'_succ, List.map_cons] at hlevels
    obtain ⟨hlevel, hrest⟩ := List.cons.inj hlevels
    unfold cascadeLevels
    split
    · obtain ⟨w₁, hrun, hlinks, hsame, htick₁, hat₁⟩ :
          ∃ w₁, w.cascadeLevel level = some w₁ ∧ w₁.Links [] ∧ SameTimers w w₁ ∧
            w₁.currentTick = w.currentTick ∧ w₁.EntriesAt [] (Midway now (k + 1)) :=
        cascadeLevel_spec hw hat (fun _ _ _ h => htick ▸ h.due)
          (fun _ _ _ h => .inl (htick ▸ h)) (fun _ _ _ h hslot => h.next hlevel (htick ▸ hslot))
      have hrange : levels.map Fin.val = List.range' (k + 1 + 1) (5 - (k + 1)) := by
        rw [hrest]
        congr 1
        omega
      obtain ⟨w₂, hrun₂, hlinks₂, hsame₂, htick₂, hat₂⟩ :=
        ih (k + 1) w₁ hrange (by omega) (htick₁.trans htick) hlinks hat₁
      refine ⟨w₂, ?_, hlinks₂, hsame.trans hsame₂, htick₂, hat₂⟩
      rw [hrun]
      exact hrun₂
    · next hwrap =>
      refine ⟨w, rfl, hw, SameTimers.refl w, htick, hat.imp fun _ _ _ h => h.stop ?_⟩
      rwa [wraps_iff (by omega), hlevel] at hwrap

theorem advanceOneTick_spec (hw : w.Links []) (hat : w.EntriesAt [] (Placed w.currentTick))
    (hfit : w.currentTick + 1 < 2 ^ 64) :
    ∃ w', w.advanceOneTick = some w' ∧ w'.Links [] ∧ SameTimers w w' ∧
      w'.currentTick = w.currentTick + 1 ∧ w'.EntriesAt [] (Settled (w.currentTick + 1)) := by
  have hmid : EntriesAt { w with currentTick := w.currentTick + 1 } [] (Midway w.currentTick 0) :=
    hat.imp fun _ _ _ h => .of_placed h
  obtain ⟨w', hrun, hlinks, hsame, htick, hat'⟩ :=
    cascadeLevels_spec [1, 2, 3, 4, 5] 0 { w with currentTick := w.currentTick + 1 } rfl (by omega)
      rfl ⟨hw.plain, hw.lists, hw.mask⟩ hmid
  refine ⟨w', ?_, hlinks, ⟨hsame.timer, hsame.generation, hsame.len⟩, htick, hat'⟩
  simp only [advanceOneTick, checkedAdd, if_pos hfit, Option.bind_some]
  exact hrun

end TimerWheel

end Kwokka
