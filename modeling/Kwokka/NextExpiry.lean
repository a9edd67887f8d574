import Kwokka.TimerLedger
import Mathlib.Order.Fin.Basic
import Mathlib.Tactic.Ring

/-! The park estimate of the wheel. It counts whole slots of the lowest level in
use, so it overshoots a deadline early in its slot and any nearer deadline that
still waits on a higher level. -/

namespace Kwokka

open Runs

variable {τ : Type*}

theorem trailingZeros_of_ne_zero {x : BitVec 64} (hx : x ≠ 0) :
    trailingZeros x.toNat < 64 ∧ x.getLsbD (trailingZeros x.toNat) = true ∧
      ∀ i < trailingZeros x.toNat, x.getLsbD i = false := by
  cases hfind : (List.range 64).find? x.toNat.testBit with
  | none =>
    have hnone : ∀ i < 64, x.toNat.testBit i = false := by
      simpa [List.find?_range_eq_none] using hfind
    refine absurd (BitVec.eq_of_getLsbD_eq fun i hi => ?_) hx
    exact (hnone i hi).trans (BitVec.getLsbD_zero).symm
  | some j =>
    obtain ⟨hbit, hj, hbefore⟩ := List.find?_range_eq_some.mp hfind
    have htz : trailingZeros x.toNat = j := by simp [trailingZeros, hfind]
    rw [htz]
    refine ⟨List.mem_range.mp hj, hbit, ?_⟩
    intro i hi
    have hclear := hbefore i hi
    simp only [Bool.not_eq_true'] at hclear
    exact hclear

theorem getLsbD_rotateRight_mod (x : BitVec 64) {c k : Nat} (hc : c < 64) (hk : k < 64) :
    (x.rotateRight c).getLsbD k = x.getLsbD ((c + k) % 64) := by
  rw [BitVec.getLsbD_rotateRight_of_lt hc]
  by_cases h : k < 64 - c
  · simp [h, Nat.mod_eq_of_lt (show c + k < 64 by omega)]
  · have hmod : (c + k) % 64 = k - (64 - c) := by omega
    simp [h, hk, hmod]

namespace TimerWheel

def cursorDistance (w : TimerWheel τ) (e : TimerEntry τ) : Nat :=
  (e.slot.val + 64 - (slotOf w.currentTick e.level).val) % 64

/-- Some entry on the lowest level in use is nearest in the slots of that level: every other
deadline is more slots ahead of the cursor, or as many and not earlier within its slot than the
cursor is within its own. -/
def CursorLeads (w : TimerWheel τ) : Prop :=
  ∃ i e, w.entries.getByIndex i = some e ∧ ∀ j x, w.entries.getByIndex j = some x →
    e.level ≤ x.level ∧
      (w.cursorDistance e < x.deadlineTick / 64 ^ e.level.val - w.currentTick / 64 ^ e.level.val ∨
        (w.cursorDistance e = x.deadlineTick / 64 ^ e.level.val - w.currentTick / 64 ^ e.level.val ∧
          w.currentTick % 64 ^ e.level.val ≤ x.deadlineTick % 64 ^ e.level.val))

variable {w : TimerWheel τ} {n : Nat}

theorem Sound.populated_iff (hw : w.Sound) {l : Fin 6} {s : Fin 64} :
    w.populated l s = true ↔ ∃ i e, w.entries.getByIndex i = some e ∧ e.level = l ∧ e.slot = s := by
  obtain ⟨is, hlinked, -, hmem⟩ := hw.links.lists l s
  rw [hw.links.mask, Option.isSome_iff_ne_none, ne_eq, hlinked.head_eq_none_iff]
  constructor
  · intro hne
    obtain ⟨i, hi⟩ := List.exists_mem_of_ne_nil _ hne
    obtain ⟨-, e, he⟩ := (hmem i).mp hi
    exact ⟨i, e, he⟩
  · intro h hnil
    obtain ⟨i, e, he⟩ := h
    have hi : i ∈ is := (hmem i).mpr ⟨by simp, e, he⟩
    simp [hnil] at hi

theorem Sound.mask_eq_zero_iff (hw : w.Sound) {l : Fin 6} :
    (w.levels l).populatedMask = 0 ↔ ∀ i e, w.entries.getByIndex i = some e → e.level ≠ l := by
  constructor
  · intro hzero i e he hl
    have hset := hw.populated_iff.mpr ⟨i, e, he, hl, rfl⟩
    simp [populated, hzero] at hset
  · intro h
    apply BitVec.eq_of_getLsbD_eq
    intro k hk
    by_contra hset
    have hbit : w.populated l ⟨k, hk⟩ = true := by simpa [populated] using hset
    obtain ⟨i, e, he, hl, -⟩ := hw.populated_iff.mp hbit
    exact h i e he hl

theorem nextExpiryFrom_eq_none {levels : List (Fin 6)} :
    w.nextExpiryFrom levels = none ↔ ∀ l ∈ levels, (w.levels l).populatedMask = 0 := by
  induction levels with
  | nil => simp [nextExpiryFrom]
  | cons l ls ih =>
    rw [nextExpiryFrom, List.forall_mem_cons, ← ih]
    split
    · next hzero => exact (and_iff_right hzero).symm
    · next hzero => simp only [hzero, false_and, reduceCtorEq]

theorem nextExpiryFrom_eq_some {levels : List (Fin 6)} (hs : levels.Pairwise (· < ·))
    (hn : w.nextExpiryFrom levels = some n) : ∃ l ∈ levels, (w.levels l).populatedMask ≠ 0 ∧
      (∀ l' ∈ levels, l' < l → (w.levels l').populatedMask = 0) ∧
      n = trailingZeros ((w.levels l).populatedMask.rotateRight (slotOf w.currentTick l)).toNat *
        64 ^ l.val + 1 := by
  induction levels with
  | nil => cases hn
  | cons l ls ih =>
    obtain ⟨hhead, htail⟩ := List.pairwise_cons.mp hs
    by_cases hzero : (w.levels l).populatedMask = 0
    · rw [nextExpiryFrom, if_pos hzero] at hn
      obtain ⟨l', hl', hne, hbefore, heq⟩ := ih htail hn
      refine ⟨l', List.mem_cons_of_mem _ hl', hne, ?_, heq⟩
      intro k hk hlt
      rcases List.mem_cons.mp hk with rfl | hrest
      · exact hzero
      · exact hbefore k hrest hlt
    · have hpow : 1 <<< (l.val * 6) = 64 ^ l.val := by
        rw [Nat.one_shiftLeft, Nat.mul_comm, Nat.pow_mul]
      rw [nextExpiryFrom, if_neg hzero] at hn
      refine ⟨l, by simp, hzero, ?_, ?_⟩
      · intro k hk hlt
        rcases List.mem_cons.mp hk with rfl | hrest
        · exact absurd hlt (lt_irrefl k)
        · exact absurd (hhead k hrest) (lt_asymm hlt)
      · rw [← Option.some.inj hn, hpow]

/-- The estimate counts the slots from the cursor to the nearest entry of the lowest level. -/
theorem Sound.nextExpiry_eq_some (hw : w.Sound) (hn : w.nextExpiry = some n) :
    ∃ i e, w.entries.getByIndex i = some e ∧ n = w.cursorDistance e * 64 ^ e.level.val + 1 ∧
      ∀ j x, w.entries.getByIndex j = some x → e.level ≤ x.level ∧
        (x.level = e.level → w.cursorDistance e ≤ w.cursorDistance x) := by
  obtain ⟨l, -, hne, hbefore, rfl⟩ :=
    nextExpiryFrom_eq_some (List.pairwise_lt_finRange 6) hn
  let c := slotOf w.currentTick l
  have hrot : (w.levels l).populatedMask.rotateRight c ≠ 0 := by
    intro hzero
    apply hne
    apply BitVec.eq_of_getLsbD_eq
    intro k hk
    have hbit := getLsbD_rotateRight_mod (w.levels l).populatedMask c.isLt
      (show (k + 64 - c.val) % 64 < 64 by omega)
    have hmod : (c.val + (k + 64 - c.val) % 64) % 64 = k := by
      omega
    rw [hzero, hmod] at hbit
    simpa using hbit.symm
  obtain ⟨hlt, hset, hclear⟩ := trailingZeros_of_ne_zero hrot
  generalize trailingZeros ((w.levels l).populatedMask.rotateRight c).toNat = d at hlt hset hclear
  rw [getLsbD_rotateRight_mod _ c.isLt hlt] at hset
  have hpop : w.populated l ⟨(c.val + d) % 64, by omega⟩ = true := hset
  obtain ⟨i, e, he, rfl, hslot⟩ := hw.populated_iff.mp hpop
  have hdist : w.cursorDistance e = d := by
    simp only [cursorDistance, hslot]
    change ((c.val + d) % 64 + 64 - c.val) % 64 = d
    omega
  refine ⟨i, e, he, by rw [hdist], ?_⟩
  intro j x hx
  have hlevel : e.level ≤ x.level := by
    by_contra hlow
    have hzero := hbefore x.level (List.mem_finRange _) (not_le.mp hlow)
    exact hw.mask_eq_zero_iff.mp hzero j x hx rfl
  refine ⟨hlevel, ?_⟩
  intro heq
  by_contra hnear
  have hfalse := hclear (w.cursorDistance x) (by omega)
  have hk : w.cursorDistance x < 64 := Nat.mod_lt _ (by omega)
  rw [getLsbD_rotateRight_mod _ c.isLt hk] at hfalse
  have hmod : (c.val + w.cursorDistance x) % 64 = x.slot.val := by
    simp only [cursorDistance, heq]
    change (c.val + (x.slot.val + 64 - c.val) % 64) % 64 = x.slot.val
    omega
  have htrue : w.populated e.level x.slot = true := hw.populated_iff.mpr ⟨j, x, hx, heq, rfl⟩
  rw [hmod] at hfalse
  have : w.populated e.level x.slot = false := hfalse
  simp [this] at htrue

theorem le_sub_iff_slots {a b k m : Nat} (hm : 0 < m) (hab : a ≤ b) :
    k * m ≤ b - a ↔ k < b / m - a / m ∨ (k = b / m - a / m ∧ a % m ≤ b % m) := by
  have ha := Nat.div_add_mod a m
  have hb := Nat.div_add_mod b m
  have hra := Nat.mod_lt a hm
  have hrb := Nat.mod_lt b hm
  have hdiv := Nat.div_le_div_right (c := m) hab
  obtain ⟨q, hq⟩ : ∃ q, b / m = a / m + q := ⟨b / m - a / m, by omega⟩
  have hmul : m * (b / m) = m * (a / m) + m * q := by rw [hq, Nat.mul_add]
  rcases Nat.lt_trichotomy k q with hlt | heq | hgt
  · obtain ⟨p, hp⟩ : ∃ p, q = k + 1 + p := ⟨q - k - 1, by omega⟩
    have hexp : m * q = k * m + m + m * p := by rw [hp]; ring
    omega
  · subst heq
    have hcomm : m * k = k * m := Nat.mul_comm m k
    omega
  · obtain ⟨p, hp⟩ : ∃ p, k = q + 1 + p := ⟨k - q - 1, by omega⟩
    have hexp : k * m = m * q + m + m * p := by rw [hp]; ring
    omega

theorem Sound.nextExpiry_eq_none (hw : w.Sound) :
    w.nextExpiry = none ↔ ∀ i, w.entries.getByIndex i = none := by
  rw [nextExpiry, nextExpiryFrom_eq_none]
  constructor
  · intro h i
    rw [Option.eq_none_iff_forall_ne_some]
    intro e he
    exact hw.mask_eq_zero_iff.mp (h e.level (List.mem_finRange _)) i e he rfl
  · intro h l _
    apply hw.mask_eq_zero_iff.mpr
    intro i e he
    simp [h i] at he

theorem Sound.nextExpiry_le_iff (hw : w.Sound) (hn : w.nextExpiry = some n) :
    (∀ j x, w.entries.getByIndex j = some x → n ≤ x.deadlineTick - w.currentTick + 1) ↔
      w.CursorLeads := by
  obtain ⟨i, e, he, rfl, hmin⟩ := hw.nextExpiry_eq_some hn
  have hslots : ∀ {e x : TimerEntry τ} {j : Nat}, w.entries.getByIndex j = some x →
      (w.cursorDistance e * 64 ^ e.level.val ≤ x.deadlineTick - w.currentTick ↔ _) :=
    fun hx => le_sub_iff_slots (Nat.pow_pos (by omega))
      (Nat.le_of_lt (hw.placed _ _ (by simp) hx).lt)
  constructor
  · intro h
    refine ⟨i, e, he, fun j x hx => ⟨(hmin j x hx).1, (hslots hx).mp ?_⟩⟩
    have := h j x hx
    omega
  · intro h j x hx
    obtain ⟨k, f, hf, hleads⟩ := h
    have hlevel : f.level = e.level := le_antisymm (hleads i e he).1 (hmin k f hf).1
    have hdist := (hmin k f hf).2 hlevel
    have hfar := (hslots hx).mpr (hleads j x hx).2
    have hmul : w.cursorDistance e * 64 ^ e.level.val ≤ w.cursorDistance f * 64 ^ f.level.val := by
      rw [hlevel]
      exact Nat.mul_le_mul_right _ hdist
    omega

end TimerWheel

namespace TimerRun

/-- The estimate is `None` exactly when nothing is registered, and a worker that parks for it
sleeps at most one tick past any registered deadline. -/
def WakesInTime (r : TimerRun τ) : Prop :=
  (r.wheel.nextExpiry = none ↔ ∀ n reg, ¬ r.Pending n reg) ∧
    ∀ k, r.wheel.nextExpiry = some k →
      ∀ n reg, r.Pending n reg → k ≤ reg.deadline - r.wheel.currentTick + 1

theorem Tracks.nextExpiry_none_iff {r : TimerRun τ} (hr : r.Tracks) :
    r.wheel.nextExpiry = none ↔ ∀ n reg, ¬ r.Pending n reg := by
  rw [hr.sound.nextExpiry_eq_none]
  constructor
  · intro h n reg hp
    have ht := (hr.pending n reg hp.1 hp.2).1
    simp [TimerWheel.timerAt, h] at ht
  · intro h i
    rw [Option.eq_none_iff_forall_ne_some]
    intro e he
    have ht : r.wheel.timerAt i = some (e.deadlineTick, e.taskRef) := by
      simp [TimerWheel.timerAt, he]
    obtain ⟨n, reg, hn, hp, -⟩ := hr.live i _ ht
    exact h n reg ⟨hn, hp⟩

theorem Tracks.forall_pending_iff {r : TimerRun τ} (hr : r.Tracks) {P : Nat → Prop} :
    (∀ n reg, r.Pending n reg → P reg.deadline) ↔
      ∀ j x, r.wheel.entries.getByIndex j = some x → P x.deadlineTick := by
  constructor
  · intro h j x hx
    have ht : r.wheel.timerAt j = some (x.deadlineTick, x.taskRef) := by
      simp [TimerWheel.timerAt, hx]
    obtain ⟨n, reg, hn, hp, -, heq⟩ := hr.timer_iff.mp ht
    have hd : reg.deadline = x.deadlineTick := congrArg Prod.fst heq
    exact hd ▸ h n reg ⟨hn, hp⟩
  · intro h n reg hp
    have ht := (hr.pending n reg hp.1 hp.2).1
    obtain ⟨x, hx, hd, -⟩ := TimerWheel.timerAt_eq_some.mp ht
    have hd' : x.deadlineTick = reg.deadline := hd
    exact hd' ▸ h _ x hx

/-- In every state a run reaches, the estimate keeps its promise exactly when nothing is
registered or the cursor leads. -/
theorem wakesInTime_iff {w : TimerWheel τ} {now capacity : Nat}
    (hnew : TimerWheel.new now capacity = .ok w) (ops : List (TimerOp τ))
    (hvalid : Meets step Valid (start w) ops) :
    (run step (start w) ops).WakesInTime ↔
      (∀ n reg, ¬ (run step (start w) ops).Pending n reg) ∨
        (run step (start w) ops).wheel.CursorLeads := by
  have hr : (run step (start w) ops).Tracks :=
    hvalid.invariant (fun _ _ => Tracks.step) (start_tracks hnew)
  generalize run step (start w) ops = r at hr ⊢
  have hnone := hr.nextExpiry_none_iff
  cases hexp : r.wheel.nextExpiry with
  | none =>
    rw [hexp] at hnone
    have hempty := hnone.mp rfl
    refine iff_of_true ⟨?_, ?_⟩ (.inl hempty)
    · rw [hexp]
      exact hnone
    · intro k hk
      rw [hexp] at hk
      cases hk
  | some k =>
    rw [hexp] at hnone
    have hsome : ¬ ∀ n reg, ¬ r.Pending n reg := fun h => by cases hnone.mpr h
    rw [or_iff_right hsome, ← hr.sound.nextExpiry_le_iff hexp]
    have hall := hr.forall_pending_iff (P := fun d => k ≤ d - r.wheel.currentTick + 1)
    rw [← hall]
    constructor
    · intro h
      exact h.2 k hexp
    · intro h
      refine ⟨by rw [hexp]; exact hnone, ?_⟩
      intro k' hk'
      rw [hexp] at hk'
      cases hk'
      exact h

/-- Timers on two levels, one of them cancelled, and an advance that moves the first down a
level. -/
def nearTimers : List (TimerOp Nat) :=
  [.register 7 70, .register 8 200, .register 9 5000, .cancel 1, .advanceTo 66]

theorem wakesInTime_iff_near_timer :
    ∃ w, TimerWheel.new 0 3 = .ok w ∧ (run step (start w) nearTimers).WakesInTime := by
  refine ⟨_, rfl, ?_⟩
  have hnew : (TimerWheel.new 0 3 : Outcome SlabError (TimerWheel Nat)) = .ok _ := rfl
  refine (wakesInTime_iff hnew _ (by decide +kernel)).mpr (.inr ⟨0, _, rfl, ?_⟩)
  intro j x hx
  match j with
  | 0 => cases hx; decide +kernel
  | 1 => cases hx
  | 2 => cases hx; decide +kernel
  | j + 3 => cases hx

/-- One timer at tick 64 and a wheel advanced to tick 63: one tick is left, but the estimate is a
whole level-1 slot. -/
theorem park_overshoots_level_one :
    ∃ w, TimerWheel.new 0 1 = .ok w ∧
      Meets step Valid (start w) [.register 7 64, .advanceTo 63] ∧
      ¬ (run step (start w) [.register 7 64, .advanceTo 63]).WakesInTime := by
  refine ⟨_, rfl, by decide +kernel, ?_⟩
  intro h
  have hlate := h.2 65 (by decide +kernel) 0 ⟨⟨0, 1⟩, 64, 7, 1⟩ ⟨by decide +kernel, by decide +kernel⟩
  revert hlate
  decide +kernel

end TimerRun

end Kwokka
