import Kwokka.TimerCascade

/-! A fully drained advance yields exactly the entries due by its target, each at
the tick of its deadline, and leaves the others in their places. -/

namespace Kwokka

namespace TimerWheel

open LinkedChain

variable {τ : Type*}

/-- Between operations every entry is linked at its place for the current tick. -/
structure Sound (w : TimerWheel τ) : Prop where
  links : w.Links []
  placed : w.EntriesAt [] (Placed w.currentTick)

/-- What an advance to `bound` does to the timers of `w`: `es` lists the timers it yields. -/
structure Advanced (w : TimerWheel τ) (bound : Nat) (w' : TimerWheel τ)
    (es : List (Nat × Nat × τ)) : Prop where
  yields : ∀ i t, (i, t) ∈ es ↔ w.timerAt i = some t ∧ t.1 ≤ bound
  nodup : es.Nodup
  sorted : es.Pairwise fun a b => a.2.1 ≤ b.2.1
  gone : ∀ i t, w.timerAt i = some t → t.1 ≤ bound →
    w'.timerAt i = none ∧ w'.entries.generationAt i = (w.entries.generationAt i).map Generation.next
  kept : ∀ i, (∀ t, w.timerAt i = some t → bound < t.1) →
    w'.timerAt i = w.timerAt i ∧ w'.entries.generationAt i = w.entries.generationAt i

theorem Advanced.of_same {w w₁ w' : TimerWheel τ} {bound : Nat} {es : List (Nat × Nat × τ)}
    (hsame : SameTimers w w₁) (h : Advanced w₁ bound w' es) : Advanced w bound w' es := by
  refine ⟨?_, h.nodup, h.sorted, ?_, ?_⟩
  · intro i t
    rw [h.yields, hsame.timer]
  · intro i t hi ht
    have hgone := h.gone i t ((hsame.timer i).trans hi) ht
    rwa [hsame.generation] at hgone
  · intro i hi
    have hkept := h.kept i fun t ht => hi t ((hsame.timer i).symm.trans ht)
    rwa [hsame.timer, hsame.generation] at hkept

theorem Advanced.nothing_due {w w' : TimerWheel τ} {bound : Nat} (hsame : SameTimers w w')
    (hlate : ∀ i t, w.timerAt i = some t → bound < t.1) : Advanced w bound w' [] := by
  refine ⟨?_, List.nodup_nil, List.Pairwise.nil, ?_, fun i _ => ⟨hsame.timer i, hsame.generation i⟩⟩
  · intro i t
    simp only [List.not_mem_nil, false_iff]
    intro h
    have := hlate i t h.1
    omega
  · intro i t hi ht
    have := hlate i t hi
    omega

theorem Sound.late {w : TimerWheel τ} (hw : w.Sound) {i : Nat} {t : Nat × τ}
    (hi : w.timerAt i = some t) : w.currentTick < t.1 := by
  obtain ⟨e, he, hd, -⟩ := timerAt_eq_some.mp hi
  have hplaced := hw.placed i e (by simp) he
  rw [hd] at hplaced
  exact hplaced.lt

theorem Sound.skip {w : TimerWheel τ} (hw : w.Sound) (hmask : (w.levels 0).populatedMask = 0)
    {tick : Nat} (hle : w.currentTick ≤ tick) (hsame : tick / 64 = w.currentTick / 64) :
    Sound { w with currentTick := tick } := by
  refine ⟨⟨hw.links.plain, hw.links.lists, hw.links.mask⟩, ?_⟩
  intro i e hi he
  have hplaced := hw.placed i e hi he
  have hlevel : e.level ≠ 0 := by
    intro hzero
    obtain ⟨is, hlinked, -, hmem⟩ := hw.links.lists 0 e.slot
    have hin : i ∈ is := (hmem i).mpr ⟨hi, e, he, hzero, rfl⟩
    have hbit := hw.links.mask 0 e.slot
    have hoff : w.populated 0 e.slot = false := by simp [populated, hmask]
    have hnone : w.head 0 e.slot = none := by
      rw [hoff] at hbit
      exact Option.isNone_iff_eq_none.mp (by simpa using hbit.symm)
    have hnil := hlinked.head_eq_none_iff.mp hnone
    simp [hnil] at hin
  exact hplaced.skip hlevel hle hsame

end TimerWheel

/-- Targets below this keep every tick computation inside a `u64`. -/
def tickLimit : Nat := 2 ^ 64 - 64

namespace ExpiredIter

open LinkedChain TimerWheel

variable {τ : Type*}

structure Draining (it : ExpiredIter τ) (detached : List Nat) : Prop where
  links : it.wheel.Links detached
  chain : Chain it.wheel.nextOf it.currentDrain detached
  nodup : detached.Nodup
  due : ∀ i ∈ detached, ∃ e, it.wheel.entries.getByIndex i = some e ∧
    e.deadlineTick = it.wheel.currentTick
  placed : it.wheel.EntriesAt detached (Placed it.wheel.currentTick)

theorem nextTick_spec (it : ExpiredIter τ) {w : TimerWheel τ} (hw : w.Sound)
    (hfit : w.currentTick + 1 < 2 ^ 64) :
    ∃ rest detached, it.nextTick w = some (.continues rest) ∧ rest.Draining detached ∧
      rest.targetTick = it.targetTick ∧ SameTimers w rest.wheel ∧
      rest.wheel.currentTick = w.currentTick + 1 := by
  obtain ⟨w₁, hrun, hlinks, hsame, htick, hat⟩ := advanceOneTick_spec hw.links hw.placed hfit
  let slot := slotOf w₁.currentTick 0
  obtain ⟨is, hchain, hnd, hmem, hdetach⟩ := hlinks.detach 0 slot
  have hwheel : (if (w₁.head 0 slot).isSome then (w₁.setHead 0 slot none).clearBit 0 slot
      else w₁.setHead 0 slot none) = (w₁.setHead 0 slot none).clearBit 0 slot := by
    split
    · rfl
    · next hnone =>
      have hoff : (w₁.setHead 0 slot none).populated 0 slot = false := by
        rw [populated_setHead, hlinks.mask]
        simpa using hnone
      exact (clearBit_of_not_populated hoff).symm
  have hdue : ∀ i ∈ is, ∃ e, w₁.entries.getByIndex i = some e ∧ e.deadlineTick = w₁.currentTick := by
    intro i hi
    obtain ⟨-, e, he, hl, hs⟩ := (hmem i).mp hi
    have hsettled := hat i e (by simp) he
    rw [hl, hs, ← htick] at hsettled
    exact ⟨e, he, hsettled.due_of_slot rfl⟩
  have hplaced : w₁.EntriesAt is (Placed w₁.currentTick) := by
    intro i e hi he
    rcases hat i e (by simp) he with hp | ⟨hl, hs, -⟩
    · rwa [htick]
    · refine absurd ((hmem i).mpr ⟨by simp, e, he, hl, ?_⟩) hi
      rw [hs, ← htick]
  refine ⟨{ it with wheel := (w₁.setHead 0 slot none).clearBit 0 slot
                    currentDrain := w₁.head 0 slot }, is, ?_,
    ⟨hdetach, hchain, hnd, hdue, hplaced⟩, rfl, ⟨hsame.timer, hsame.generation, hsame.len⟩, htick⟩
  simp only [nextTick, hrun, Option.map_some]
  rw [hwheel]

theorem turn_yields {it : ExpiredIter τ} {idx : Nat} {detached : List Nat}
    (hit : it.Draining (idx :: detached)) :
    ∃ task rest, it.turn = some (.yields task rest) ∧ rest.Draining detached ∧
      rest.targetTick = it.targetTick ∧ rest.wheel.currentTick = it.wheel.currentTick ∧
      rest.wheel.entries.len + 1 = it.wheel.entries.len ∧
      it.wheel.timerAt idx = some (it.wheel.currentTick, task) ∧
      (∀ i, rest.wheel.timerAt i = if i = idx then none else it.wheel.timerAt i) ∧
      (∀ i, rest.wheel.entries.generationAt i =
        if i = idx then (it.wheel.entries.generationAt i).map Generation.next
        else it.wheel.entries.generationAt i) := by
  obtain ⟨hdrain, hrest⟩ := hit.chain
  obtain ⟨hidx, hnd⟩ := List.nodup_cons.mp hit.nodup
  obtain ⟨e, he, hdue⟩ := hit.due idx (by simp)
  obtain ⟨g, hg, -⟩ := Slab.generationAt_of_getByIndex he
  obtain ⟨entries, hremove, hplain, hlen, hget, hgen⟩ :=
    Slab.removeByIndex_of_some hit.links.plain he hg
  have hne : ∀ i ∈ detached, i ≠ idx := fun i hi h => hidx (h ▸ hi)
  have hnextIdx : it.wheel.nextOf idx = e.next := by simp [nextOf, he]
  let w : TimerWheel τ := { it.wheel with entries := entries }
  have hlinks : w.Links detached := by
    apply hit.links.change_loose hplain (fun i hi => List.mem_cons_of_mem _ hi)
    · intro i hi hni
      rcases List.mem_cons.mp hi with rfl | hmem
      · rw [hget, if_pos rfl]
      · exact absurd hmem hni
    · intro i hi
      rw [hget, if_neg fun h => hi (by simp [h])]
  have hchain : Chain w.nextOf e.next detached := by
    rw [hnextIdx] at hrest
    refine hrest.congr fun i hi => ?_
    simp [nextOf, w, hget, hne i hi]
  refine ⟨e.taskRef, { it with wheel := w, currentDrain := e.next }, ?_,
    ⟨hlinks, hchain, hnd, ?_, ?_⟩, rfl, rfl, hlen, ?_, ?_, ?_⟩
  · simp [turn, hdrain, he, hremove, w]
  · intro i hi
    obtain ⟨x, hx, hxd⟩ := hit.due i (List.mem_cons_of_mem _ hi)
    exact ⟨x, by simp [w, hget, hne i hi, hx], hxd⟩
  · intro i x hi hx
    have hi' : i ≠ idx := by
      intro h
      simp [w, hget, h] at hx
    have hx' : it.wheel.entries.getByIndex i = some x := by simpa [w, hget, hi'] using hx
    exact hit.placed i x (by simp [hi, hi']) hx'
  · simp [timerAt, he, hdue]
  · intro i
    by_cases hi : i = idx <;> simp [timerAt, w, hget, hi]
  · intro i
    by_cases hi : i = idx
    · simp [w, hgen, hi, hg]
    · simp [w, hgen, hi]

theorem drain_spec (fuel : Nat) (it : ExpiredIter τ) (detached : List Nat)
    (hit : it.Draining detached) (hfit : it.targetTick < tickLimit)
    (hfuel : it.wheel.entries.len + (it.targetTick - it.wheel.currentTick) + 1 ≤ fuel) :
    ∃ w' es, drain fuel it = some (w', es.map (·.2.2)) ∧ w'.Sound ∧
      w'.currentTick = max it.wheel.currentTick it.targetTick ∧
      Advanced it.wheel (max it.wheel.currentTick it.targetTick) w' es := by
  induction fuel generalizing it detached with
  | zero => omega
  | succ fuel ih =>
    cases detached with
    | cons idx detached =>
      obtain ⟨task, rest, hturn, hdrain, htarget, htick, hlen, hhead, htimer, hgen⟩ :=
        turn_yields hit
      obtain ⟨w', es, hrun, hsound, htick', hadv⟩ := ih rest detached hdrain (htarget ▸ hfit) (by
        omega)
      rw [htarget, htick] at htick' hadv
      have hbefore : ∀ p ∈ es, it.wheel.currentTick ≤ p.2.1 := by
        intro p hp
        obtain ⟨hp', -⟩ := (hadv.yields p.1 p.2).mp hp
        obtain ⟨x, hx, hxd, -⟩ := timerAt_eq_some.mp hp'
        by_cases hmem : p.1 ∈ detached
        · obtain ⟨y, hy, hyd⟩ := hdrain.due p.1 hmem
          cases hx.symm.trans hy
          omega
        · have hlt := (hdrain.placed p.1 x hmem hx).lt
          omega
      refine ⟨w', (idx, it.wheel.currentTick, task) :: es, ?_, hsound, htick', ?_, ?_, ?_, ?_, ?_⟩
      · simp [drain, hturn, hrun]
      · intro i t
        rw [List.mem_cons, hadv.yields, htimer]
        by_cases hi : i = idx
        · subst hi
          rw [if_pos rfl, hhead]
          constructor
          · intro h
            rcases h with h | h
            · obtain rfl := (Prod.mk.inj h).2
              exact ⟨rfl, Nat.le_max_left _ _⟩
            · cases h.1
          · intro h
            cases h.1
            exact .inl rfl
        · simp [hi]
      · refine List.nodup_cons.mpr ⟨fun hmem => ?_, hadv.nodup⟩
        have hgone := ((hadv.yields _ _).mp hmem).1
        simp [htimer] at hgone
      · exact List.pairwise_cons.mpr ⟨hbefore, hadv.sorted⟩
      · intro i t hi ht
        by_cases hidx : i = idx
        · have hkept := hadv.kept i fun t ht => by simp [htimer, hidx] at ht
          rw [htimer, hgen, if_pos hidx, if_pos hidx] at hkept
          exact hkept
        · have hgone := hadv.gone i t (by rw [htimer, if_neg hidx, hi]) ht
          rwa [hgen, if_neg hidx] at hgone
      · intro i hi
        have hidx : i ≠ idx := by
          intro h
          subst h
          have hlt : max it.wheel.currentTick it.targetTick < it.wheel.currentTick := hi _ hhead
          omega
        have hkept := hadv.kept i fun t ht => hi t (by rw [htimer, if_neg hidx] at ht; exact ht)
        rwa [htimer, hgen, if_neg hidx, if_neg hidx] at hkept
    | nil =>
      have hnone : it.currentDrain = none := hit.chain
      have hsound : it.wheel.Sound := ⟨hit.links, hit.placed⟩
      by_cases hend : it.targetTick ≤ it.wheel.currentTick
      · rw [Nat.max_eq_left hend]
        refine ⟨it.wheel, [], ?_, hsound, rfl, ?_⟩
        · simp [drain, turn, hnone, hend]
        · exact Advanced.nothing_due (SameTimers.refl _) fun _ _ h => hsound.late h
      · have hmax : max it.wheel.currentTick it.targetTick = it.targetTick :=
          Nat.max_eq_right (by omega)
        have hstep : ∀ w, w.Sound → SameTimers it.wheel w →
            it.wheel.currentTick ≤ w.currentTick → w.currentTick < it.targetTick →
            it.turn = it.nextTick w →
            ∃ w' es, drain (fuel + 1) it = some (w', es.map (·.2.2)) ∧ w'.Sound ∧
              w'.currentTick = it.targetTick ∧ Advanced it.wheel it.targetTick w' es := by
          intro w hw hsame hle hlt hturn
          obtain ⟨rest, detached, hnext, hdrain, htarget, hsame', htick⟩ := nextTick_spec it hw (by
              simp only [tickLimit] at hfit
              omega)
          obtain ⟨w', es, hrun, hsound', htick', hadv⟩ := ih rest detached hdrain (htarget ▸ hfit) (by
            rw [htarget, htick, hsame'.len, hsame.len]
            omega)
          rw [htarget, htick, Nat.max_eq_right (by omega)] at htick' hadv
          refine ⟨w', es, ?_, hsound', htick', hadv.of_same (hsame.trans hsame')⟩
          simp only [drain, hturn, hnext, hrun]
        rw [hmax]
        by_cases hmask : (it.wheel.levels 0).populatedMask = 0
        · have hwrap := or_63_succ it.wheel.currentTick
          have hadd : checkedAdd (it.wheel.currentTick ||| 0x3F) 1 =
              some ((it.wheel.currentTick ||| 0x3F) + 1) := by
            simp only [tickLimit] at hfit
            simp only [checkedAdd]
            rw [if_pos (by omega)]
          by_cases hfar : it.targetTick < (it.wheel.currentTick ||| 0x3F) + 1
          · have hskip : Sound { it.wheel with currentTick := it.targetTick } :=
              hsound.skip hmask (by omega) (by omega)
            refine ⟨_, [], ?_, hskip, rfl, ?_⟩
            · simp [drain, turn, hnone, hend, hmask, hadd, hfar]
            · exact Advanced.nothing_due ⟨fun _ => rfl, fun _ => rfl, rfl⟩ fun i t h => hskip.late
                (i := i) h
          · have hskip : Sound { it.wheel with currentTick := (it.wheel.currentTick ||| 0x3F) + 1 - 1 } :=
              hsound.skip hmask (by omega) (by omega)
            apply hstep _ hskip ⟨fun _ => rfl, fun _ => rfl, rfl⟩
            · show it.wheel.currentTick ≤ (it.wheel.currentTick ||| 0x3F) + 1 - 1
              omega
            · show (it.wheel.currentTick ||| 0x3F) + 1 - 1 < it.targetTick
              omega
            · simp [turn, hnone, hend, hmask, hadd, hfar]
        · apply hstep it.wheel hsound (SameTimers.refl _) (Nat.le_refl _) (by omega)
          simp only [turn, hnone, if_neg hend, if_neg hmask]

end ExpiredIter

theorem TimerWheel.advanceTo_spec {τ : Type*} {w : TimerWheel τ} (hw : w.Sound) {target : Nat}
    (hfit : target < tickLimit) :
    ∃ w' es, w.advanceTo target = some (w', es.map (·.2.2)) ∧ w'.Sound ∧
      w'.currentTick = max w.currentTick target ∧ w.Advanced (max w.currentTick target) w' es := by
  have hlen := hw.links.plain.len_le
  exact ExpiredIter.drain_spec _ ⟨w, target, none⟩ []
    ⟨hw.links, rfl, List.nodup_nil, by simp, hw.placed⟩ hfit (by simp only; omega)

end Kwokka
