import Kwokka.Runs
import Kwokka.TimerAdvance

/-! Whole runs of the wheel against a ledger of registrations: which of them are
pending, cancelled or expired is kept apart from the wheel, and the wheel's
answers are compared with it. -/

namespace Kwokka

open Runs TimerWheel

variable {τ : Type*}

namespace TimerWheel

variable {w : TimerWheel τ} {key : SlabKey}

theorem new_sound {now capacity : Nat} (hnew : new now capacity = .ok w) :
    w.Sound ∧ w.currentTick = now ∧ (∀ i, w.timerAt i = none) ∧
      ∀ i g, w.entries.generationAt i = some g → g = 0 := by
  obtain ⟨entries, hslab, hw⟩ := Outcome.bind_eq_ok.mp hnew
  cases hw
  have hget := Slab.new_getByIndex hslab
  obtain ⟨hlen, -, -, -, hslots⟩ := Slab.new_ok hslab
  refine ⟨⟨⟨Slab.new_plain hslab, ?_, ?_⟩, ?_⟩, rfl, ?_, ?_⟩
  · intro l s
    refine ⟨[], rfl, List.nodup_nil, ?_⟩
    intro i
    simp [OnSlot, hget]
  · intro l s
    simp [populated, head, WheelLevel.new]
  · intro i e _ he
    rw [hget] at he
    cases he
  · intro i
    simp [timerAt, hget]
  · intro i g hg
    simp only [Slab.generationAt, Option.map_eq_some_iff] at hg
    obtain ⟨slot, hslot, rfl⟩ := hg
    obtain ⟨hlt, -⟩ := List.getElem?_eq_some_iff.mp hslot
    rw [hslots i (by omega)] at hslot
    cases hslot
    rfl

theorem register_spec {w' : TimerWheel τ} {task : τ} {deadline : Nat} (hw : w.Sound)
    (hlate : w.currentTick < deadline) (hreg : w.register task deadline = .ok (key, w')) :
    w'.Sound ∧ w'.currentTick = w.currentTick ∧ w.timerAt key.index = none ∧
      (∃ g, w.entries.generationAt key.index = some g ∧ key.generation = g.next) ∧
      (∀ i, w'.timerAt i = if i = key.index then some (deadline, task) else w.timerAt i) ∧
      (∀ i, w'.entries.generationAt i =
        if i = key.index then some key.generation else w.entries.generationAt i) := by
  obtain ⟨⟨key', entries⟩, hins, hret⟩ := Outcome.bind_eq_ok.mp hreg
  obtain ⟨hkey, hwheel⟩ := Prod.mk.inj (Outcome.ok.inj hret)
  subst hkey
  obtain ⟨hplain, hfree, ⟨g, hg, -, hnext⟩, hget, hgen⟩ := Slab.insert_ok hw.links.plain hins
  let p := position deadline w.currentTick
  let w₁ : TimerWheel τ := { w with entries := entries }
  have hw' : w' = w₁.insertAt key'.index p.1 p.2 := hwheel.symm
  have hself : ∃ e, w₁.entries.getByIndex key'.index = some e ∧ e.deadlineTick = deadline ∧
      e.taskRef = task := by
    simp [w₁, hget]
  obtain ⟨e, he, hed, het⟩ := hself
  have hloose : w₁.Links [key'.index] := by
    refine ⟨hplain, ?_, hw.links.mask⟩
    intro l s
    obtain ⟨is, hlinked, hnd, hmem⟩ := hw.links.lists l s
    have hne : ∀ i ∈ is, i ≠ key'.index := by
      intro i hi h
      obtain ⟨-, x, hx, -⟩ := (hmem i).mp hi
      rw [h, hfree] at hx
      cases hx
    refine ⟨is, hlinked.congr (fun i hi => ?_) (fun i hi => ?_), hnd, ?_⟩
    · simp [prevOf, w₁, hget, hne i hi]
    · simp [nextOf, w₁, hget, hne i hi]
    · intro i
      rw [hmem]
      by_cases hi : i = key'.index
      · simp [OnSlot, hi, hfree]
      · simp [OnSlot, w₁, hget, hi]
  have hhead : w₁.head p.1 p.2 ≠ some key'.index := by
    intro h
    exact (hloose.onSlot_head h).1 (by simp)
  have hfinal : ∀ i, (w₁.insertAt key'.index p.1 p.2).timerAt i =
      if i = key'.index then some (deadline, task) else w.timerAt i := by
    intro i
    rw [insertAt_timerAt he hhead]
    by_cases hi : i = key'.index
    · subst hi
      simp [timerAt, he, hed, het]
    · simp [timerAt, w₁, hget, hi]
  rw [hw']
  refine ⟨⟨hloose.insertAt he (by simp) p.1 p.2, ?_⟩, rfl, ?_, ⟨g, hg, hnext⟩, hfinal, ?_⟩
  · intro i x hi hx
    have hnew := insertAt_getByIndex he hhead i
    rw [hnew] at hx
    by_cases hidx : i = key'.index
    · rw [if_pos hidx] at hx
      cases hx
      simp only [hed]
      exact position_placed hlate
    · rw [if_neg hidx, Option.map_eq_some_iff] at hx
      obtain ⟨y, hy, rfl⟩ := hx
      have hy' : w.entries.getByIndex i = some y := by simpa [w₁, hget, hidx] using hy
      exact hw.placed i y hi hy'
  · simp [timerAt, hfree]
  · intro i
    exact (insertAt_generationAt _ _ _ _ _).trans (hgen i)

theorem cancel_of_live (hw : w.Sound) (hlive : (w.timerAt key.index).isSome)
    (hgen : w.entries.generationAt key.index = some key.generation) :
    ∃ w', w.cancel key = (true, w') ∧ w'.Sound ∧ w'.currentTick = w.currentTick ∧
      (∀ i, w'.timerAt i = if i = key.index then none else w.timerAt i) ∧
      (∀ i, w'.entries.generationAt i =
        if i = key.index then some key.generation.next else w.entries.generationAt i) := by
  obtain ⟨t, ht⟩ := Option.isSome_iff_exists.mp hlive
  obtain ⟨e, he, -⟩ := timerAt_eq_some.mp ht
  have hget := (Slab.get_eq_some hw.links.plain.toWF).mpr ⟨he, hgen⟩
  have hlinks := hw.links.removeFromSlot he
  let w₁ := w.removeFromSlot key.index
  have hentries := removeFromSlot_entries he
  have hgenAt : ∀ i, w₁.entries.generationAt i = w.entries.generationAt i := by
    intro i
    simp only [w₁, hentries]
    exact remove_generationAt ..
  have hself : ∃ x, w₁.entries.getByIndex key.index = some x := by
    have hsome := Slab.getByIndex_isSome hlinks.plain.toWF ((hgenAt _).trans hgen)
    have hocc := Slab.getByIndex_isSome hw.links.plain.toWF hgen
    rw [he] at hocc
    rw [← hocc] at hsome
    exact Option.isSome_iff_exists.mp hsome
  obtain ⟨x, hx⟩ := hself
  have hget₁ := (Slab.get_eq_some hlinks.plain.toWF).mpr ⟨hx, (hgenAt _).trans hgen⟩
  obtain ⟨entries, hremove, hplain, -, hafter, hafterGen⟩ :=
    Slab.removeByIndex_of_some hlinks.plain hx ((hgenAt _).trans hgen)
  have hremoved : w₁.entries.remove key = some (some x, entries) := by
    rw [Slab.remove_of_get hlinks.plain.toWF hget₁, hremove]
    rfl
  have hother : ∀ i, i ≠ key.index → ∀ y, w₁.entries.getByIndex i = some y →
      ∃ z, w.entries.getByIndex i = some z ∧ y.level = z.level ∧ y.slot = z.slot ∧
        y.deadlineTick = z.deadlineTick ∧ y.taskRef = z.taskRef := by
    intro i hi y hy
    simp only [w₁, hentries, remove_getByIndex he _ hi, Option.map_eq_some_iff] at hy
    obtain ⟨z, hz, rfl⟩ := hy
    exact ⟨z, hz, rfl, rfl, rfl, rfl⟩
  have htick : w₁.currentTick = w.currentTick := by
    simp only [w₁, removeFromSlot, he]
    split <;> rfl
  refine ⟨{ w₁ with entries := entries }, ?_, ⟨?_, ?_⟩, htick, ?_, ?_⟩
  · simp only [cancel, hget]
    rw [hremoved]
  · refine hlinks.change_loose hplain (by simp) ?_ ?_
    · intro i hi _
      rw [hafter, if_pos (by simpa using hi)]
    · intro i hi
      rw [hafter, if_neg (by simpa using hi)]
  · intro i y hi hy
    have hidx : i ≠ key.index := by
      intro h
      simp [hafter, h] at hy
    obtain ⟨z, hz, hl, hs, hd, -⟩ := hother i hidx y (by simpa [hafter, hidx] using hy)
    simp only [htick, hl, hs, hd]
    exact hw.placed i z hi hz
  · intro i
    by_cases hi : i = key.index
    · simp [timerAt, hafter, hi]
    · simp only [timerAt, hafter, if_neg hi, hentries, remove_getByIndex he _ hi]
      simp [Function.comp_def]
  · intro i
    rw [hafterGen, ← hgenAt i]

theorem cancel_of_stale (hw : w.Sound) (hodd : key.generation.isOccupied = true)
    (hstale : ¬ ((w.timerAt key.index).isSome ∧
      w.entries.generationAt key.index = some key.generation)) : w.cancel key = (false, w) := by
  have hnone : w.entries.get key = none := by
    rw [Option.eq_none_iff_forall_ne_some]
    intro data he
    cases data with
    | none => exact Slab.get_ne_uninit hw.links.plain.toWF hodd he
    | some =>
      obtain ⟨hidx, hgen⟩ := (Slab.get_eq_some hw.links.plain.toWF).mp he
      exact hstale ⟨by simp [timerAt, hidx], hgen⟩
  simp [cancel, hnone]

end TimerWheel

inductive Fate
  | pending
  | cancelled
  | expired
deriving DecidableEq, Repr

/-- A successful `register`. `use` says how many registrations the slab slot has held so far. -/
structure Registration (τ : Type*) where
  handle : SlabKey
  deadline : Nat
  task : τ
  use : Nat
deriving DecidableEq, Repr

structure TimerRun (τ : Type*) where
  wheel : TimerWheel τ
  regs : List (Registration τ)
  fate : Nat → Fate

/-- `cancel n` cancels through the handle that registration number `n` returned. -/
inductive TimerOp (τ : Type*)
  | register (task : τ) (deadline : Nat)
  | cancel (n : Nat)
  | advanceTo (target : Nat)
deriving DecidableEq, Repr

namespace TimerRun

def start (w : TimerWheel τ) : TimerRun τ := ⟨w, [], fun _ => .pending⟩

def uses (r : TimerRun τ) (idx : Nat) : Nat := r.regs.countP (·.handle.index = idx)

def Due (r : TimerRun τ) (target n : Nat) : Prop :=
  r.fate n = .pending ∧ ∃ reg ∈ r.regs[n]?, reg.deadline ≤ target

instance (r : TimerRun τ) (target n : Nat) : Decidable (r.Due target n) :=
  inferInstanceAs (Decidable (_ ∧ _))

/-- The ledger follows the meaning of the operations, not the wheel's answers: a pending
registration is cancelled by a cancel, and expires at the first advance that reaches it. -/
def step (r : TimerRun τ) : TimerOp τ → TimerRun τ
  | .register task deadline =>
    match r.wheel.register task deadline with
    | .ok (handle, w) =>
      { r with
        wheel := w
        regs := r.regs ++ [⟨handle, deadline, task, r.uses handle.index + 1⟩] }
    | _ => r
  | .cancel n =>
    match r.regs[n]? with
    | none => r
    | some reg =>
      { r with
        wheel := (r.wheel.cancel reg.handle).2
        fate := if r.fate n = .pending then Function.update r.fate n .cancelled else r.fate }
  | .advanceTo target =>
    match r.wheel.advanceTo target with
    | none => r
    | some (w, _) =>
      { r with
        wheel := w
        fate := fun n => if r.Due target n then .expired else r.fate n }

/-- Deadlines lie ahead, ticks stay in range, and a cancelled handle is not 2^23 reuses old. -/
def Valid (r : TimerRun τ) : TimerOp τ → Prop
  | .register _ deadline => r.wheel.currentTick < deadline ∧ deadline < tickLimit
  | .cancel n => ∀ reg ∈ r.regs[n]?, r.uses reg.handle.index - reg.use < 2 ^ 23
  | .advanceTo target => target < tickLimit

instance (r : TimerRun τ) : ∀ op, Decidable (r.Valid op)
  | .register _ _ => inferInstanceAs (Decidable (_ ∧ _))
  | .cancel n => inferInstanceAs (Decidable (∀ reg ∈ r.regs[n]?, _))
  | .advanceTo _ => inferInstanceAs (Decidable (_ < _))

def Pending (r : TimerRun τ) (n : Nat) (reg : Registration τ) : Prop :=
  r.regs[n]? = some reg ∧ r.fate n = .pending

/-- Some slot of the wheel holds no pending registration. -/
def HasRoom (r : TimerRun τ) : Prop :=
  ∃ i < r.wheel.entries.slots.length, ∀ n reg, r.Pending n reg → reg.handle.index ≠ i

/-- The wheel answers as the ledger says: an advance yields the due registrations, each once and
in deadline order, a cancel succeeds exactly on a pending one, and a registration is refused
exactly when every slot holds a pending one. -/
def Faithful (r : TimerRun τ) : TimerOp τ → Prop
  | .register task deadline =>
    match r.wheel.register task deadline with
    | .ok _ => r.HasRoom
    | .err error => error = .full ∧ ¬ r.HasRoom
    | .panic => False
  | .cancel n => ∀ reg ∈ r.regs[n]?,
      ((r.wheel.cancel reg.handle).1 = true ↔ r.fate n = .pending)
  | .advanceTo target => ∃ (w : TimerWheel τ) (es : List (Nat × Registration τ)),
      r.wheel.advanceTo target = some (w, es.map (·.2.task)) ∧ es.Nodup ∧
      (∀ n reg, (n, reg) ∈ es ↔ r.regs[n]? = some reg ∧ r.Due target n) ∧
      es.Pairwise fun a b => a.2.deadline ≤ b.2.deadline

structure Tracks (r : TimerRun τ) : Prop where
  sound : r.wheel.Sound
  generation : ∀ i g, r.wheel.entries.generationAt i = some g →
    2 * r.uses i % 2 ^ 24 = (g.val + if (r.wheel.timerAt i).isSome then 1 else 0) % 2 ^ 24
  handle : ∀ reg ∈ r.regs, 2 * reg.use % 2 ^ 24 = (reg.handle.generation.val + 1) % 2 ^ 24
  use_le : ∀ reg ∈ r.regs, reg.use ≤ r.uses reg.handle.index
  distinct : r.regs.Pairwise fun a b => a.handle.index = b.handle.index → a.use < b.use
  pending : ∀ n reg, r.regs[n]? = some reg → r.fate n = .pending →
    r.wheel.timerAt reg.handle.index = some (reg.deadline, reg.task) ∧
      reg.use = r.uses reg.handle.index
  live : ∀ i t, r.wheel.timerAt i = some t →
    ∃ n reg, r.regs[n]? = some reg ∧ r.fate n = .pending ∧ reg.handle.index = i
  fresh : ∀ n, r.regs.length ≤ n → r.fate n = .pending

theorem start_tracks {w : TimerWheel τ} {now capacity : Nat}
    (hnew : new now capacity = .ok w) : (start w).Tracks := by
  obtain ⟨hsound, -, hnone, hzero⟩ := new_sound hnew
  refine ⟨hsound, ?_, by simp [start], by simp [start], by simp [start], by simp [start], ?_,
    fun _ _ => rfl⟩
  · intro i g hg
    have := hzero i g hg
    simp [start, uses, hnone, this]
  · intro i t ht
    simp [start, hnone] at ht

variable {r : TimerRun τ} {n target : Nat} {reg : Registration τ}

theorem Tracks.eq_of_use (hr : r.Tracks) {m : Nat} {a b : Registration τ} (ha : r.regs[n]? = some a)
    (hb : r.regs[m]? = some b) (hidx : a.handle.index = b.handle.index) (huse : a.use = b.use) :
    n = m := by
  obtain ⟨hn, rfl⟩ := List.getElem?_eq_some_iff.mp ha
  obtain ⟨hm, rfl⟩ := List.getElem?_eq_some_iff.mp hb
  have hpair := List.pairwise_iff_getElem.mp hr.distinct
  rcases Nat.lt_trichotomy n m with hlt | heq | hgt
  · have := hpair n m hn hm hlt hidx
    omega
  · exact heq
  · have := hpair m n hm hn hgt hidx.symm
    omega

theorem Tracks.pending_unique (hr : r.Tracks) {m : Nat} {a b : Registration τ}
    (ha : r.regs[n]? = some a) (hb : r.regs[m]? = some b) (hn : r.fate n = .pending)
    (hm : r.fate m = .pending) (hidx : a.handle.index = b.handle.index) : n = m := by
  have hua := (hr.pending n a ha hn).2
  have hub := (hr.pending m b hb hm).2
  exact hr.eq_of_use ha hb hidx (by rw [hua, hub, hidx])

theorem Tracks.handle_isOccupied (hr : r.Tracks) (hreg : reg ∈ r.regs) :
    reg.handle.generation.isOccupied = true := by
  have := hr.handle reg hreg
  simp only [Generation.isOccupied, beq_iff_eq]
  omega

theorem Tracks.resolves_iff (hr : r.Tracks) (hreg : r.regs[n]? = some reg)
    (hreuse : r.uses reg.handle.index - reg.use < 2 ^ 23) :
    ((r.wheel.timerAt reg.handle.index).isSome ∧
      r.wheel.entries.generationAt reg.handle.index = some reg.handle.generation) ↔
      r.fate n = .pending := by
  have hmem := List.mem_of_getElem? hreg
  have hhandle := hr.handle reg hmem
  have hle := hr.use_le reg hmem
  constructor
  · intro h
    obtain ⟨t, ht⟩ := Option.isSome_iff_exists.mp h.1
    obtain ⟨m, b, hb, hm, hidx⟩ := hr.live _ t ht
    have hgen := hr.generation _ _ h.2
    rw [if_pos h.1] at hgen
    have huse : reg.use = r.uses reg.handle.index := by omega
    have hub := (hr.pending m b hb hm).2
    have hnm := hr.eq_of_use hreg hb hidx.symm (by rw [hub, huse, hidx])
    rw [hnm]
    exact hm
  · intro hp
    obtain ⟨htimer, huse⟩ := hr.pending n reg hreg hp
    obtain ⟨e, he, -⟩ := timerAt_eq_some.mp htimer
    obtain ⟨g, hg, -⟩ := Slab.generationAt_of_getByIndex he
    have hgen := hr.generation _ g hg
    rw [if_pos (by simp [htimer]), ← huse, hhandle] at hgen
    have hval : reg.handle.generation.val = g.val := by
      omega
    exact ⟨by simp [htimer], by rw [hg, Fin.ext hval]⟩

theorem Tracks.register (hr : r.Tracks) {task : τ} {deadline : Nat}
    (hv : r.Valid (.register task deadline)) : (r.step (.register task deadline)).Tracks := by
  simp only [step]
  split
  · next handle w hreg =>
    obtain ⟨hsound, -, hfree, ⟨g, hg, hnext⟩, htimer, hgen⟩ :=
      register_spec hr.sound hv.1 hreg
    let reg₀ : Registration τ := ⟨handle, deadline, task, r.uses handle.index + 1⟩
    let r' : TimerRun τ := { r with wheel := w, regs := r.regs ++ [reg₀] }
    have huses : ∀ i, r'.uses i = r.uses i + if i = handle.index then 1 else 0 := by
      intro i
      by_cases hi : i = handle.index
      · subst hi
        simp [uses, r', reg₀]
      · simp [uses, r', reg₀, hi, Ne.symm hi]
    have hgenOld := hr.generation _ g hg
    rw [hfree] at hgenOld
    simp only [Option.isSome_none, Bool.false_eq_true, if_false] at hgenOld
    change r'.Tracks
    refine ⟨hsound, ?_, ?_, ?_, ?_, ?_, ?_, ?_⟩
    · intro i g' hg'
      have hg'' := (hgen i).symm.trans hg'
      have ht : r'.wheel.timerAt i = _ := htimer i
      rw [huses, ht]
      by_cases hi : i = handle.index
      · rw [if_pos hi, Option.some.injEq] at hg''
        have hval : g'.val = (g.val + 1) % 2 ^ 24 := by rw [← hg'', hnext, Generation.next_val]
        simp only [hi, if_true, Option.isSome_some]
        omega
      · rw [if_neg hi] at hg''
        simpa only [if_neg hi, Nat.add_zero] using hr.generation i g' hg''
    · intro reg hreg'
      rcases List.mem_append.mp hreg' with hold | hnew
      · exact hr.handle reg hold
      · obtain rfl := List.mem_singleton.mp hnew
        have hval : handle.generation.val = (g.val + 1) % 2 ^ 24 := by
          rw [hnext, Generation.next_val]
        simp only [reg₀, hval]
        omega
    · intro reg hreg'
      rw [huses]
      rcases List.mem_append.mp hreg' with hold | hnew
      · have := hr.use_le reg hold
        omega
      · obtain rfl := List.mem_singleton.mp hnew
        simp [reg₀]
    · refine List.pairwise_append.mpr ⟨hr.distinct, List.pairwise_singleton _ _, ?_⟩
      intro a ha b hb hidx
      obtain rfl := List.mem_singleton.mp hb
      have hle := hr.use_le a ha
      have hidx' : a.handle.index = handle.index := hidx
      rw [hidx'] at hle
      exact Nat.lt_succ_of_le hle
    · intro n reg hn hp
      have ht : r'.wheel.timerAt reg.handle.index = _ := htimer reg.handle.index
      rw [huses, ht]
      by_cases hlt : n < r.regs.length
      · rw [List.getElem?_append_left hlt] at hn
        obtain ⟨hold, huse⟩ := hr.pending n reg hn hp
        have hne : reg.handle.index ≠ handle.index := by
          intro h
          rw [h, hfree] at hold
          cases hold
        simp [hne, hold, huse]
      · rw [List.getElem?_append_right (by omega)] at hn
        obtain rfl := List.mem_singleton.mp (List.mem_of_getElem? hn)
        simp [reg₀]
    · intro i t ht
      replace ht := (htimer i).symm.trans ht
      by_cases hi : i = handle.index
      · exact ⟨r.regs.length, reg₀, by simp [r'], hr.fresh _ (Nat.le_refl _), hi.symm⟩
      · rw [if_neg hi] at ht
        obtain ⟨n, reg, hn, hp, hidx⟩ := hr.live i t ht
        obtain ⟨hlt, -⟩ := List.getElem?_eq_some_iff.mp hn
        exact ⟨n, reg, (List.getElem?_append_left hlt).trans hn, hp, hidx⟩
    · intro n hn
      have hlen : r'.regs.length = r.regs.length + 1 := by simp [r']
      exact hr.fresh n (by omega)
  · exact hr

theorem Tracks.cancel (hr : r.Tracks) (hv : r.Valid (.cancel n)) : (r.step (.cancel n)).Tracks := by
  simp only [step]
  split
  · exact hr
  · next reg hreg =>
    have hiff := hr.resolves_iff hreg (hv reg hreg)
    by_cases hp : r.fate n = .pending
    · obtain ⟨hlive, hgen⟩ := hiff.mpr hp
      obtain ⟨w, hcancel, hsound, -, htimer, hgenAt⟩ :=
        cancel_of_live hr.sound hlive hgen
      have hfate : ∀ m, m ≠ n → Function.update r.fate n .cancelled m = r.fate m :=
        fun m h => Function.update_of_ne h _ _
      rw [hcancel, if_pos hp]
      refine ⟨hsound, ?_, hr.handle, hr.use_le, hr.distinct, ?_, ?_, ?_⟩
      · intro i g hg
        have hold := hr.generation i
        simp only [htimer, hgenAt] at hg ⊢
        by_cases hi : i = reg.handle.index
        · subst hi
          rw [if_pos rfl, Option.some.injEq] at hg
          have hg' := hold _ hgen
          rw [if_pos hlive] at hg'
          have hval : g.val = (reg.handle.generation.val + 1) % 2 ^ 24 := by
            rw [← hg, Generation.next_val]
          simp only [uses, if_true, Option.isSome_none, Bool.false_eq_true, if_false] at hg' ⊢
          omega
        · rw [if_neg hi] at hg ⊢
          exact hold g hg
      · intro m b hb hm
        have hne : m ≠ n := by
          intro h
          simp [h] at hm
        replace hm := (hfate m hne).symm.trans hm
        have hidx : b.handle.index ≠ reg.handle.index := by
          intro h
          exact hne (hr.pending_unique hb hreg hm hp h)
        have hold := hr.pending m b hb hm
        exact ⟨((htimer _).trans (if_neg hidx)).trans hold.1, hold.2⟩
      · intro i t ht
        simp only [htimer] at ht
        by_cases hi : i = reg.handle.index
        · rw [if_pos hi] at ht
          cases ht
        · rw [if_neg hi] at ht
          obtain ⟨m, b, hb, hm, hidx⟩ := hr.live i t ht
          have hne : m ≠ n := by
            intro h
            subst h
            cases hb.symm.trans hreg
            exact hi hidx.symm
          exact ⟨m, b, hb, (hfate m hne).trans hm, hidx⟩
      · intro m hm
        obtain ⟨hlt, -⟩ := List.getElem?_eq_some_iff.mp hreg
        have hlen : r.regs.length ≤ m := hm
        exact (hfate m (by omega)).trans (hr.fresh m hlen)
    · have hstale : r.wheel.cancel reg.handle = (false, r.wheel) :=
        cancel_of_stale hr.sound (hr.handle_isOccupied (List.mem_of_getElem? hreg))
          fun h => hp (hiff.mp h)
      rw [hstale, if_neg hp]
      exact hr

theorem Tracks.timer_iff (hr : r.Tracks) {i : Nat} {t : Nat × τ} :
    r.wheel.timerAt i = some t ↔ ∃ n reg, r.regs[n]? = some reg ∧ r.fate n = .pending ∧
      reg.handle.index = i ∧ (reg.deadline, reg.task) = t := by
  constructor
  · intro ht
    obtain ⟨n, reg, hn, hp, hidx⟩ := hr.live i t ht
    have hold := (hr.pending n reg hn hp).1
    rw [hidx, ht] at hold
    exact ⟨n, reg, hn, hp, hidx, (Option.some.inj hold).symm⟩
  · intro h
    obtain ⟨n, reg, hn, hp, rfl, rfl⟩ := h
    exact (hr.pending n reg hn hp).1

theorem Tracks.due_iff (hr : r.Tracks) (hreg : r.regs[n]? = some reg) :
    r.Due target n ↔ r.fate n = .pending ∧
      reg.deadline ≤ max r.wheel.currentTick target := by
  simp only [Due, hreg, Option.mem_def, Option.some.injEq, exists_eq_left']
  refine and_congr_right fun hp => ?_
  have hlate := hr.sound.late (hr.pending n reg hreg hp).1
  omega

theorem Tracks.advanceTo (hr : r.Tracks) (hv : r.Valid (.advanceTo target)) :
    (r.step (.advanceTo target)).Tracks := by
  obtain ⟨w, es, hrun, hsound, htick, hadv⟩ := advanceTo_spec hr.sound hv
  simp only [step, hrun]
  refine ⟨hsound, ?_, hr.handle, hr.use_le, hr.distinct, ?_, ?_, ?_⟩
  · intro i g hg
    simp only [uses]
    by_cases hgone : ∃ t, r.wheel.timerAt i = some t ∧ t.1 ≤ max r.wheel.currentTick target
    · obtain ⟨t, ht, hle⟩ := hgone
      obtain ⟨hnone, hnext⟩ := hadv.gone i t ht hle
      rw [hnext, Option.map_eq_some_iff] at hg
      obtain ⟨g₀, hg₀, rfl⟩ := hg
      have hold := hr.generation i g₀ hg₀
      simp only [ht, Option.isSome_some, if_true, uses] at hold
      simp only [hnone, Option.isSome_none, Bool.false_eq_true, if_false, Generation.next_val]
      omega
    · have hkept := hadv.kept i fun t ht => by
        by_contra hle
        exact hgone ⟨t, ht, by omega⟩
      rw [hkept.2] at hg
      rw [hkept.1]
      exact hr.generation i g hg
  · intro n reg hn hp
    by_cases hdue : r.Due target n
    · simp [hdue] at hp
    · simp only [hdue, if_false] at hp
      obtain ⟨ht, huse⟩ := hr.pending n reg hn hp
      have hlate : ¬ reg.deadline ≤ max r.wheel.currentTick target := fun hle =>
        hdue ((hr.due_iff hn).mpr ⟨hp, hle⟩)
      have hkept := hadv.kept reg.handle.index fun t ht' => by
        rw [ht, Option.some.injEq] at ht'
        subst ht'
        omega
      exact ⟨hkept.1.trans ht, huse⟩
  · intro i t ht
    have hlate : ∀ t', r.wheel.timerAt i = some t' → max r.wheel.currentTick target < t'.1 := by
      intro t' ht'
      by_contra hle
      have hgone := (hadv.gone i t' ht' (by omega)).1
      rw [hgone] at ht
      cases ht
    have hkept := (hadv.kept i hlate).1
    rw [hkept] at ht
    obtain ⟨n, reg, hn, hp, hidx, rfl⟩ := hr.timer_iff.mp ht
    have hdue : ¬ r.Due target n := by
      intro hdue
      have hle := ((hr.due_iff hn).mp hdue).2
      have := hlate _ ht
      omega
    exact ⟨n, reg, hn, by simp [hdue, hp], hidx⟩
  · intro n hn
    have hnone : r.regs[n]? = none := List.getElem?_eq_none hn
    have hdue : ¬ r.Due target n := by simp [Due, hnone]
    simp only [hdue, if_false]
    exact hr.fresh n hn

theorem Tracks.step {op : TimerOp τ} (hr : r.Tracks) (hv : r.Valid op) : (r.step op).Tracks := by
  cases op with
  | register => exact hr.register hv
  | cancel => exact hr.cancel hv
  | advanceTo => exact hr.advanceTo hv

def timerOf (q : Nat × Registration τ) : Nat × Nat × τ := (q.2.handle.index, q.2.deadline, q.2.task)

theorem Tracks.owners (hr : r.Tracks) (ps : List (Nat × Nat × τ))
    (hps : ∀ p ∈ ps, r.wheel.timerAt p.1 = some p.2) :
    ∃ qs : List (Nat × Registration τ), qs.map timerOf = ps ∧
      ∀ q ∈ qs, r.regs[q.1]? = some q.2 ∧ r.fate q.1 = .pending := by
  induction ps with
  | nil => exact ⟨[], rfl, by simp⟩
  | cons p ps ih =>
    obtain ⟨qs, hmap, hqs⟩ := ih fun x hx => hps x (List.mem_cons_of_mem _ hx)
    obtain ⟨n, reg, hn, hp, hidx, ht⟩ := hr.timer_iff.mp (hps p (by simp))
    refine ⟨(n, reg) :: qs, ?_, ?_⟩
    · have hhead : timerOf (n, reg) = p := Prod.ext hidx ht
      rw [List.map_cons, hhead, hmap]
    · intro q hq
      rcases List.mem_cons.mp hq with rfl | hrest
      · exact ⟨hn, hp⟩
      · exact hqs q hrest

theorem Tracks.faithful_advanceTo (hr : r.Tracks) (hv : r.Valid (.advanceTo target)) :
    r.Faithful (.advanceTo target) := by
  obtain ⟨w, ps, hrun, -, -, hadv⟩ := advanceTo_spec hr.sound hv
  obtain ⟨qs, rfl, hqs⟩ := hr.owners ps fun p hp => ((hadv.yields p.1 p.2).mp hp).1
  have hnodup : qs.Nodup := List.Nodup.of_map timerOf hadv.nodup
  have hsorted := hadv.sorted
  rw [List.pairwise_map] at hsorted
  refine ⟨w, qs, ?_, hnodup, ?_, hsorted⟩
  · rw [hrun, List.map_map]
    rfl
  · intro n reg
    constructor
    · intro hmem
      obtain ⟨hn, hp⟩ := hqs _ hmem
      have hdue := ((hadv.yields _ _).mp (List.mem_map_of_mem hmem)).2
      exact ⟨hn, (hr.due_iff hn).mpr ⟨hp, hdue⟩⟩
    · intro h
      obtain ⟨hp, hdue⟩ := (hr.due_iff h.1).mp h.2
      have ht := hr.timer_iff.mpr ⟨n, reg, h.1, hp, rfl, rfl⟩
      have hmem : timerOf (n, reg) ∈ qs.map timerOf := (hadv.yields _ _).mpr ⟨ht, hdue⟩
      obtain ⟨⟨m, b⟩, hq, htimer⟩ := List.mem_map.mp hmem
      obtain ⟨hm, hpm⟩ := hqs _ hq
      have hidx : b.handle.index = reg.handle.index := congrArg Prod.fst htimer
      obtain rfl : m = n := hr.pending_unique hm h.1 hpm hp hidx
      cases hm.symm.trans h.1
      exact hq

theorem Tracks.faithful_register (hr : r.Tracks) (task : τ) (deadline : Nat) :
    r.Faithful (.register task deadline) := by
  rcases hr.sound.links.plain.insert_cases ⟨deadline, task, none, none, 0, 0⟩ with
    ⟨hfull, hall⟩ | ⟨key, entries, hok, hlt⟩
  · simp only [Faithful, TimerWheel.register, hfull]
    refine ⟨trivial, ?_⟩
    rintro ⟨i, hi, hfree⟩
    obtain ⟨e, he⟩ := Option.isSome_iff_exists.mp (hall i hi)
    obtain ⟨n, reg, hn, hp, hidx⟩ := hr.live i (e.deadlineTick, e.taskRef)
      (TimerWheel.timerAt_eq_some.mpr ⟨e, he, rfl, rfl⟩)
    exact hfree n reg ⟨hn, hp⟩ hidx
  · simp only [Faithful, TimerWheel.register, hok]
    refine ⟨key.index, hlt, fun n reg hpending hidx => ?_⟩
    obtain ⟨-, hnone, -⟩ := Slab.insert_ok hr.sound.links.plain hok
    have htimer := (hr.pending n reg hpending.1 hpending.2).1
    simp [TimerWheel.timerAt, hidx, hnone] at htimer

theorem Tracks.faithful {op : TimerOp τ} (hr : r.Tracks) (hv : r.Valid op) : r.Faithful op := by
  cases op with
  | register task deadline => exact hr.faithful_register task deadline
  | cancel =>
    intro reg hreg
    rw [← hr.resolves_iff hreg (hv reg hreg)]
    constructor
    · intro htrue
      by_contra hstale
      have hodd := hr.handle_isOccupied (List.mem_of_getElem? hreg)
      rw [cancel_of_stale hr.sound hodd hstale] at htrue
      cases htrue
    · intro h
      obtain ⟨w, hcancel, -⟩ := cancel_of_live hr.sound h.1 h.2
      rw [hcancel]
  | advanceTo => exact hr.faithful_advanceTo hv

end TimerRun

/-- In every run of a fresh wheel, each registration that is not cancelled is yielded once, by the
first advance that reaches its deadline, in deadline order within that advance; a cancel succeeds
exactly while its registration is pending; and a registration is refused exactly when the wheel is
full of pending ones. -/
theorem TimerRun.run_faithful {w : TimerWheel τ} {now capacity : Nat}
    (hnew : new now capacity = .ok w) (ops : List (TimerOp τ))
    (hvalid : Meets step Valid (start w) ops) : Meets step Faithful (start w) ops :=
  hvalid.of_invariant (fun _ _ => Tracks.step) (fun _ _ => Tracks.faithful) (start_tracks hnew)

theorem TimerRun.run_faithful_two_timers :
    ∃ w, new 0 2 = .ok w ∧
      Meets step Faithful (start w)
        [.register 7 70, .register 8 5000, .register 9 90, .advanceTo 69, .cancel 0,
          .advanceTo 5000, .cancel 1] := by
  refine ⟨_, rfl, ?_⟩
  have hnew : (new 0 2 : Outcome SlabError (TimerWheel Nat)) = .ok _ := rfl
  exact run_faithful hnew _ (by decide +kernel)

end Kwokka
