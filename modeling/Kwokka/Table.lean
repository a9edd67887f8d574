import Mathlib.Algebra.GroupWithZero.Nat
import Mathlib.Data.List.Basic

/-! Lists used as tables: a row is read by its index, rows are appended or
updated in place. -/

namespace Table

variable {α β : Type*} {xs : List α} {i j : Nat} {x y : α}

theorem lt_of_row (h : xs[i]? = some x) : i < xs.length := (List.getElem?_eq_some_iff.mp h).1

theorem concat_eq_some : (xs ++ [x])[i]? = some y ↔ xs[i]? = some y ∨ i = xs.length ∧ y = x := by
  rcases Nat.lt_trichotomy i xs.length with h | h | h
  · rw [List.getElem?_append_left h]
    simp [Nat.ne_of_lt h]
  · subst h
    simp [eq_comm]
  · have hnone : xs[i]? = none := List.getElem?_eq_none (Nat.le_of_lt h)
    have hnone' : (xs ++ [x])[i]? = none := List.getElem?_eq_none (by simp; omega)
    rw [hnone, hnone']
    simp
    omega

theorem append_of_row (h : xs[i]? = some x) (ys : List α) : (xs ++ ys)[i]? = some x := by
  rwa [List.getElem?_append_left (lt_of_row h)]

theorem set_eq_some : (xs.set i x)[j]? = some y ↔
    j ≠ i ∧ xs[j]? = some y ∨ j = i ∧ i < xs.length ∧ y = x := by
  by_cases h : i = j
  · subst h
    by_cases hi : i < xs.length <;> simp [hi, eq_comm]
  · have h' : j ≠ i := Ne.symm h
    simp [h, h']

theorem modify_eq_some {f : α → α} : (xs.modify i f)[j]? = some y ↔
    j ≠ i ∧ xs[j]? = some y ∨ j = i ∧ ∃ old, xs[i]? = some old ∧ y = f old := by
  rw [List.getElem?_modify]
  by_cases h : i = j
  · subst h
    cases hj : xs[i]? <;> simp [eq_comm]
  · have h' : j ≠ i := Ne.symm h
    cases hj : xs[j]? <;> simp [h, h']

theorem map_set_of_row {g : α → β} (h : xs[i]? = some x) (hg : g y = g x) :
    (xs.set i y).map g = xs.map g := by
  obtain ⟨hi, rfl⟩ := List.getElem?_eq_some_iff.mp h
  rw [List.map_set, hg, ← List.getElem_map g (h := by simpa using hi), List.set_getElem_self]

theorem map_modify_of_eq {f : α → α} {g : α → β} (hg : ∀ x, g (f x) = g x) :
    (xs.modify i f).map g = xs.map g := by
  induction xs generalizing i with
  | nil => simp
  | cons x xs ih => cases i <;> simp [hg, ih]

theorem countP_set_of_row (p : α → Bool) (h : xs[i]? = some x) :
    (xs.set i y).countP p + (if p x then 1 else 0) = xs.countP p + if p y then 1 else 0 := by
  induction xs generalizing i with
  | nil => cases h
  | cons z xs ih =>
    cases i with
    | zero =>
      cases h
      simp only [List.set_cons_zero, List.countP_cons]
      omega
    | succ i =>
      have htail := ih (i := i) h
      simp only [List.set_cons_succ, List.countP_cons]
      omega

theorem modify_of_row {f : α → α} (h : xs[i]? = some x) : xs.modify i f = xs.set i (f x) := by
  apply List.ext_getElem?
  intro j
  by_cases hij : i = j
  · subst hij
    obtain ⟨hi, rfl⟩ := List.getElem?_eq_some_iff.mp h
    simp [hi]
  · simp [hij]

theorem row_unique {f : α → Option β} {b : β} (hnodup : (xs.filterMap f).Nodup)
    (hi : xs[i]? = some x) (hj : xs[j]? = some y) (hx : f x = some b) (hy : f y = some b) :
    i = j := by
  have hpairs := List.pairwise_filterMap.mp hnodup
  have hlt : ∀ {i j : Nat} {x y : α}, xs[i]? = some x → xs[j]? = some y → f x = some b →
      f y = some b → ¬ i < j := by
    intro i j x y hi hj hx hy hij
    obtain ⟨hi', rfl⟩ := List.getElem?_eq_some_iff.mp hi
    obtain ⟨hj', rfl⟩ := List.getElem?_eq_some_iff.mp hj
    exact List.pairwise_iff_getElem.mp hpairs i j hi' hj' hij b hx b hy rfl
  have hle := hlt hi hj hx hy
  have hge := hlt hj hi hy hx
  omega

theorem mem_eraseIdx_of_nodup {f : α → β} (hnodup : (xs.map f).Nodup) (hi : xs[i]? = some x) :
    y ∈ xs.eraseIdx i ↔ y ∈ xs ∧ f y ≠ f x := by
  rw [List.mem_eraseIdx_iff_getElem?]
  constructor
  · rintro ⟨j, hj, hji⟩
    refine ⟨List.mem_of_getElem? hji, ?_⟩
    intro heq
    have hnodup' : (xs.filterMap fun x => some (f x)).Nodup := by
      rwa [List.filterMap_eq_map']
    exact hj (row_unique hnodup' hji hi rfl (congrArg some heq.symm))
  · rintro ⟨hmem, hne⟩
    obtain ⟨j, hj⟩ := List.mem_iff_getElem?.mp hmem
    refine ⟨j, ?_, hj⟩
    rintro rfl
    rw [hi] at hj
    cases hj
    exact hne rfl

theorem map_row {g : α → β} (h : xs[i]? = some x) : (xs.map g)[i]? = some (g x) := by
  rw [List.getElem?_map, h]
  rfl

end Table
