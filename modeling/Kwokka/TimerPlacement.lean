import Kwokka.TimerWheel

/-! Where an entry belongs: the level and slot arithmetic of the wheel, and how a
correct place stays correct while the tick moves. -/

namespace Kwokka

theorem slotOf_val (tick level : Nat) : (slotOf tick level).val = tick / 64 ^ level % 64 := by
  have hpow : 2 ^ (level * 6) = 64 ^ level := by
    rw [Nat.mul_comm, Nat.pow_mul]
  have hand := Nat.and_two_pow_sub_one_eq_mod (tick >>> (level * 6)) 6
  simpa [slotOf, Nat.shiftRight_eq_div_pow, hpow] using hand

theorem slotOf_eq_iff {a b level : Nat} :
    slotOf a level = slotOf b level ↔ a / 64 ^ level % 64 = b / 64 ^ level % 64 := by
  rw [Fin.ext_iff, slotOf_val, slotOf_val]

theorem two_pow_dvd_iff_testBit {x k : Nat} :
    2 ^ k ∣ x ↔ ∀ i < k, x.testBit i = false := by
  constructor
  · rintro ⟨y, rfl⟩ i hi
    simp [Nat.testBit_two_pow_mul, Nat.not_le.mpr hi]
  · intro hbits
    apply Nat.dvd_of_mod_eq_zero
    apply Nat.eq_of_testBit_eq
    intro i
    by_cases hi : i < k
    · simp [hbits i hi]
    · simp [hi]

theorem le_trailingZeros {x k : Nat} (hk : k ≤ 64) : k ≤ trailingZeros x ↔ 2 ^ k ∣ x := by
  rw [two_pow_dvd_iff_testBit, trailingZeros]
  cases hfind : (List.range 64).find? x.testBit with
  | none =>
    have hnone : ∀ i < 64, x.testBit i = false := by simpa [List.find?_range_eq_none] using hfind
    simp only [Option.getD_none, hk, true_iff]
    intro i hi
    exact hnone i (by omega)
  | some j =>
    obtain ⟨hbit, hj, hbefore⟩ := List.find?_range_eq_some.mp hfind
    simp only [Option.getD_some]
    constructor
    · intro hkj i hi
      simpa using hbefore i (by omega)
    · intro hbits
      by_contra hlt
      have hfalse := hbits j (by omega)
      simp [hfalse] at hbit

/-- The place of a deadline at `now`: a slot of its level that the cursor has yet to reach, and,
below the top level, reaches within one turn. -/
def Placed (now : Nat) (level : Fin 6) (slot : Fin 64) (deadline : Nat) : Prop :=
  slot = slotOf deadline level ∧ now / 64 ^ level.val < deadline / 64 ^ level.val ∧
    (level.val < 5 → deadline < now + 64 ^ (level.val + 1))

variable {level : Fin 6} {deadline now : Nat} {slot : Fin 64}

theorem position_of_lt (h : now < deadline) :
    (position deadline now).1.val = min ((deadline - now).log2 / 6) 5 ∧
      (position deadline now).2 = slotOf deadline (position deadline now).1 := by
  have hne : deadline - now ≠ 0 := by omega
  have hlevel : min ((63 - leadingZeros (deadline - now)) / 6) 5 =
      min ((deadline - now).log2 / 6) 5 := by
    simp only [leadingZeros, hne, if_false]
    omega
  simp only [position, hne, if_false]
  exact ⟨hlevel, trivial⟩

theorem position_placed (h : now < deadline) :
    Placed now (position deadline now).1 (position deadline now).2 deadline := by
  obtain ⟨hlevel, hslot⟩ := position_of_lt h
  have hne : deadline - now ≠ 0 := by omega
  generalize (position deadline now).1 = level at hlevel hslot
  have hlow : 64 ^ level.val ≤ deadline - now := by
    have hpow : 64 ^ level.val = 2 ^ (6 * level.val) := by rw [Nat.pow_mul]
    rw [hpow, ← Nat.le_log2 hne]
    omega
  refine ⟨hslot, ?_, ?_⟩
  · have hstep : now + 64 ^ level.val ≤ deadline := by omega
    have hdiv := Nat.div_le_div_right (c := 64 ^ level.val) hstep
    rw [Nat.add_div_right _ (Nat.pow_pos (by omega))] at hdiv
    exact hdiv
  · intro hlt
    have hpow : 64 ^ (level.val + 1) = 2 ^ (6 * (level.val + 1)) := by rw [Nat.pow_mul]
    have hup : deadline - now < 64 ^ (level.val + 1) := by
      rw [hpow, ← Nat.log2_lt hne]
      omega
    omega

theorem Placed.lt (hp : Placed now level slot deadline) : now < deadline := by
  by_contra hle
  have hdiv := Nat.div_le_div_right (c := 64 ^ level.val) (Nat.not_lt.mp hle)
  have hlt := hp.2.1
  omega

theorem Placed.forward {now' : Nat} (hp : Placed now level slot deadline) (hle : now ≤ now')
    (hdiv : now' / 64 ^ level.val < deadline / 64 ^ level.val) :
    Placed now' level slot deadline := by
  refine ⟨hp.1, hdiv, ?_⟩
  intro hlt
  have hbound := hp.2.2 hlt
  omega

theorem succ_div_of_not_dvd {n : Nat} (hn : ¬ n ∣ now + 1) : (now + 1) / n = now / n := by
  rw [Nat.succ_div, if_neg hn, Nat.add_zero]

theorem Placed.tick_inside (hp : Placed now level slot deadline) (hn : ¬ 64 ^ level.val ∣ now + 1) :
    Placed (now + 1) level slot deadline := by
  have hdiv := hp.2.1
  rw [← succ_div_of_not_dvd hn] at hdiv
  exact hp.forward (Nat.le_succ now) hdiv

theorem Placed.tick_elsewhere (hp : Placed now level slot deadline)
    (hs : slot ≠ slotOf (now + 1) level) : Placed (now + 1) level slot deadline := by
  by_cases hn : 64 ^ level.val ∣ now + 1
  · have hdiv := hp.2.1
    have hsucc : (now + 1) / 64 ^ level.val = now / 64 ^ level.val + 1 := by
      rw [Nat.succ_div, if_pos hn]
    have hne : (now + 1) / 64 ^ level.val ≠ deadline / 64 ^ level.val := by
      intro he
      apply hs
      rw [hp.1, slotOf_eq_iff, he]
    exact hp.forward (Nat.le_succ now) (by omega)
  · exact hp.tick_inside hn

theorem Placed.due (hp : Placed now 0 slot deadline) (hs : slot = slotOf (now + 1) 0) :
    deadline = now + 1 := by
  obtain ⟨hslot, hlt, hbound⟩ := hp
  have hmod : deadline / 64 ^ 0 % 64 = (now + 1) / 64 ^ 0 % 64 :=
    slotOf_eq_iff.mp (hslot.symm.trans hs)
  have hlt' : now < deadline := by simpa using hlt
  have hbound' : deadline < now + 64 := by simpa using hbound
  omega

theorem Placed.skip {now' : Nat} (hp : Placed now level slot deadline) (hl : level ≠ 0)
    (hle : now ≤ now') (hsame : now' / 64 = now / 64) : Placed now' level slot deadline := by
  obtain ⟨k, hk⟩ : ∃ k, level.val = k + 1 := ⟨level.val - 1, by
    omega⟩
  have hdiv : now' / 64 ^ level.val = now / 64 ^ level.val := by
    rw [hk, Nat.pow_succ', ← Nat.div_div_eq_div_mul, ← Nat.div_div_eq_div_mul, hsame]
  exact hp.forward hle (hdiv ▸ hp.2.1)

def Settled (now : Nat) (level : Fin 6) (slot : Fin 64) (deadline : Nat) : Prop :=
  Placed now level slot deadline ∨ (level = 0 ∧ slot = slotOf now 0 ∧ deadline = now)

theorem position_settled (h : now ≤ deadline) :
    Settled now (position deadline now).1 (position deadline now).2 deadline := by
  rcases Nat.lt_or_eq_of_le h with hlt | rfl
  · exact .inl (position_placed hlt)
  · refine .inr ?_
    simp [position]

theorem Placed.settled_zero (hp : Placed now 0 slot deadline) :
    Settled (now + 1) 0 slot deadline := by
  by_cases hs : slot = slotOf (now + 1) 0
  · exact .inr ⟨rfl, hs, hp.due hs⟩
  · exact .inl (hp.tick_elsewhere hs)

theorem Settled.due_of_slot {d : Nat} {s : Fin 64} (hs : Settled now 0 s d)
    (hslot : s = slotOf now 0) : d = now := by
  rcases hs with hp | ⟨-, -, hd⟩
  · have hlt := hp.lt
    have hbound : d < now + 64 := by simpa using hp.2.2 (by decide)
    have hmod : d / 64 ^ 0 % 64 = now / 64 ^ 0 % 64 := slotOf_eq_iff.mp (hp.1.symm.trans hslot)
    omega
  · exact hd

theorem or_63_succ (now : Nat) : (now ||| 0x3F) + 1 = (now / 64 + 1) * 64 := by
  have hbits : now ||| 0x3F = now / 64 * 64 + 63 := by
    apply Nat.eq_of_testBit_eq
    intro i
    have hsplit : now / 64 * 64 + 63 = 2 ^ 6 * (now / 64) + 63 := by omega
    rw [hsplit, Nat.testBit_or, Nat.testBit_two_pow_mul_add _ (by decide)]
    by_cases hi : i < 6
    · have h63 : Nat.testBit 63 i = true := by
        have : i = 0 ∨ i = 1 ∨ i = 2 ∨ i = 3 ∨ i = 4 ∨ i = 5 := by omega
        rcases this with rfl | rfl | rfl | rfl | rfl | rfl <;> rfl
      simp [hi, h63]
    · have h63 : Nat.testBit 63 i = false := by
        apply Nat.testBit_lt_two_pow
        calc 63 < 2 ^ 6 := by decide
          _ ≤ 2 ^ i := Nat.pow_le_pow_right (by omega) (by omega)
      have hdiv : (now / 64).testBit (i - 6) = now.testBit i := by
        rw [show 64 = 2 ^ 6 from rfl, Nat.testBit_div_two_pow]
        congr 1
        omega
      simp [hi, h63, hdiv]
  omega

end Kwokka
