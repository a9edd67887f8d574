import Mathlib.Data.List.Basic
import Mathlib.Data.List.Nodup

/-! Singly and doubly linked lists threaded through a store of nodes. The store
is seen through its link functions only, so a lemma about one list holds in any
store that keeps the links of the nodes on it. -/

namespace LinkedChain

variable {κ : Type*}

def Chain (next : κ → Option κ) : Option κ → List κ → Prop
  | head, [] => head = none
  | head, i :: is => head = some i ∧ Chain next (next i) is

def Linked (prev next : κ → Option κ) (before : Option κ) : Option κ → List κ → Prop
  | head, [] => head = none
  | head, i :: is => head = some i ∧ prev i = before ∧ Linked prev next (some i) (next i) is

variable {prev next prev' next' : κ → Option κ} {before head : Option κ} {is js : List κ} {i : κ}

@[simp]
theorem chain_nil : Chain next head [] ↔ head = none := Iff.rfl

@[simp]
theorem chain_cons : Chain next head (i :: is) ↔ head = some i ∧ Chain next (next i) is := Iff.rfl

@[simp]
theorem linked_nil : Linked prev next before head [] ↔ head = none := Iff.rfl

theorem Chain.congr (hc : Chain next head is) (hn : ∀ i ∈ is, next' i = next i) :
    Chain next' head is := by
  induction is generalizing head with
  | nil => exact hc
  | cons i is ih =>
    refine ⟨hc.1, ?_⟩
    rw [hn i (by simp)]
    exact ih hc.2 fun j hj => hn j (List.mem_cons_of_mem _ hj)

theorem Chain.unique (hi : Chain next head is) (hj : Chain next head js) : is = js := by
  induction is generalizing head js with
  | nil =>
    cases js with
    | nil => rfl
    | cons => exact absurd (hi.symm.trans hj.1) (by simp)
  | cons i is ih =>
    cases js with
    | nil => exact absurd (hj.symm.trans hi.1) (by simp)
    | cons =>
      cases hi.1.symm.trans hj.1
      rw [ih hi.2 hj.2]

theorem Chain.remove [DecidableEq κ] {xs ys : List κ} (hc : Chain next head (xs ++ i :: ys))
    (hnd : (xs ++ i :: ys).Nodup)
    (hn : ∀ j ∈ xs ++ ys, next' j = if xs.getLast? = some j then next i else next j) :
    Chain next' (if xs = [] then next i else head) (xs ++ ys) := by
  induction xs generalizing head with
  | nil =>
    refine (show Chain next (next i) ys from hc.2).congr fun j hj => ?_
    rw [hn j hj, if_neg (by simp)]
  | cons x xs ih =>
    refine ⟨by simpa using hc.1, ?_⟩
    have hnd' := List.nodup_cons.mp hnd
    have hx := hn x (by simp)
    cases xs with
    | nil =>
      rw [hx, if_pos (by simp)]
      refine (show Chain next (next i) ys from hc.2.2).congr fun j hj => ?_
      rw [hn j (by simp [hj]), if_neg]
      rintro hlast
      obtain rfl : x = j := by simpa using hlast
      exact hnd'.1 (by simp [hj])
    | cons y zs =>
      have hne : ((x :: y :: zs).getLast?) = (y :: zs).getLast? := by simp
      rw [hx, if_neg]
      · refine ih hc.2 hnd'.2 fun j hj => ?_
        rw [hn j (List.mem_cons_of_mem _ hj), hne]
      · rw [hne]
        intro hlast
        have hmem : x ∈ y :: zs := List.mem_of_getLast? hlast
        exact hnd'.1 (List.mem_append_left _ hmem)

theorem Chain.next_last (hc : Chain next head (is ++ [i])) : next i = none := by
  induction is generalizing head with
  | nil => exact hc.2
  | cons x xs ih => exact ih hc.2

theorem Chain.concat [DecidableEq κ] (hc : Chain next head is) (hnd : is.Nodup) (hi : next' i = none)
    (hn : ∀ j ∈ is, next' j = if is.getLast? = some j then some i else next j) :
    Chain next' (head.or (some i)) (is ++ [i]) := by
  induction is generalizing head with
  | nil =>
    cases hc
    exact ⟨rfl, hi⟩
  | cons x xs ih =>
    obtain ⟨rfl, hc⟩ := hc
    have hx := hn x (by simp)
    refine ⟨rfl, ?_⟩
    cases xs with
    | nil =>
      rw [hx, if_pos (by simp)]
      exact ⟨rfl, hi⟩
    | cons y ys =>
      have hlast : (x :: y :: ys).getLast? = (y :: ys).getLast? := by simp
      rw [hlast] at hn hx
      have hne : (y :: ys).getLast? ≠ some x := by
        intro h
        exact (List.nodup_cons.mp hnd).1 (List.mem_of_getLast? h)
      have hnext := ih hc (List.nodup_cons.mp hnd).2 fun j hj => hn j (List.mem_cons_of_mem _ hj)
      rw [hx, if_neg hne]
      rw [hc.1] at hnext ⊢
      exact hnext

theorem Linked.chain (hl : Linked prev next before head is) : Chain next head is := by
  induction is generalizing head before with
  | nil => exact hl
  | cons i is ih => exact ⟨hl.1, ih hl.2.2⟩

theorem Linked.head_eq_none_iff (hl : Linked prev next before head is) :
    head = none ↔ is = [] := by
  cases is with
  | nil => simpa using hl
  | cons => simp [hl.1]

theorem Linked.congr (hl : Linked prev next before head is)
    (hp : ∀ i ∈ is, prev' i = prev i) (hn : ∀ i ∈ is, next' i = next i) :
    Linked prev' next' before head is := by
  induction is generalizing head before with
  | nil => exact hl
  | cons i is ih =>
    refine ⟨hl.1, (hp i (by simp)).trans hl.2.1, ?_⟩
    rw [hn i (by simp)]
    exact ih hl.2.2 (fun j hj => hp j (List.mem_cons_of_mem _ hj))
      (fun j hj => hn j (List.mem_cons_of_mem _ hj))

theorem Linked.prev_eq {xs ys : List κ} (hl : Linked prev next before head (xs ++ i :: ys)) :
    prev i = xs.getLast?.or before := by
  induction xs generalizing head before with
  | nil => simpa using hl.2.1
  | cons x xs ih =>
    rw [ih hl.2.2, List.getLast?_cons]
    cases xs.getLast? <;> rfl

theorem Linked.next_eq {xs ys : List κ} (hl : Linked prev next before head (xs ++ i :: ys)) :
    next i = ys.head? := by
  induction xs generalizing head before with
  | nil =>
    cases ys with
    | nil => exact hl.2.2
    | cons => exact hl.2.2.1
  | cons x xs ih => exact ih hl.2.2

variable [DecidableEq κ]

theorem Linked.rebase {after : Option κ} (hl : Linked prev next before head is) (hnd : is.Nodup)
    (hp : ∀ j ∈ is, prev' j = if head = some j then after else prev j)
    (hn : ∀ j ∈ is, next' j = next j) : Linked prev' next' after head is := by
  cases is with
  | nil => exact hl
  | cons i =>
    obtain ⟨hi, -, hrest⟩ := hl
    have hni := (List.nodup_cons.mp hnd).1
    refine ⟨hi, by simp [hp i, hi], ?_⟩
    rw [hn i (by simp)]
    refine hrest.congr (fun j hj => ?_) (fun j hj => hn j (List.mem_cons_of_mem _ hj))
    have hne : i ≠ j := fun h => hni (h ▸ hj)
    simp [hp j (List.mem_cons_of_mem _ hj), hi, hne]

theorem Linked.pushFront (hl : Linked prev next none head is) (hnd : is.Nodup)
    (hpi : prev' i = none) (hni : next' i = head)
    (hp : ∀ j ∈ is, prev' j = if head = some j then some i else prev j)
    (hn : ∀ j ∈ is, next' j = next j) : Linked prev' next' none (some i) (i :: is) := by
  refine ⟨rfl, hpi, ?_⟩
  rw [hni]
  exact hl.rebase hnd hp hn

theorem Linked.remove {xs ys : List κ} (hl : Linked prev next before head (xs ++ i :: ys))
    (hnd : (xs ++ i :: ys).Nodup) (hb : ∀ j ∈ xs ++ i :: ys, before ≠ some j)
    (hp : ∀ j ∈ xs ++ ys, prev' j = if next i = some j then prev i else prev j)
    (hn : ∀ j ∈ xs ++ ys, next' j = if prev i = some j then next i else next j) :
    Linked prev' next' before (if xs = [] then next i else head) (xs ++ ys) := by
  induction xs generalizing head before with
  | nil =>
    obtain ⟨-, hpi, hrest⟩ := hl
    refine hrest.rebase (List.nodup_cons.mp hnd).2 (fun j hj => ?_) (fun j hj => ?_)
    · rw [hp j hj, hpi]
    · rw [hn j hj, hpi, if_neg (hb j (List.mem_cons_of_mem _ hj))]
  | cons x xs ih =>
    obtain ⟨hx, hpx, hrest⟩ := hl
    obtain ⟨hxn, hnd'⟩ := List.nodup_cons.mp hnd
    have hb' : ∀ j ∈ xs ++ i :: ys, some x ≠ some j := fun j hj h =>
      hxn (Option.some.inj h ▸ hj)
    have htail := ih hrest hnd' hb' (fun j hj => hp j (List.mem_cons_of_mem _ hj))
      (fun j hj => hn j (List.mem_cons_of_mem _ hj))
    have hprev := Linked.prev_eq hrest
    have hnext := Linked.next_eq hrest
    refine ⟨by simpa using hx, ?_, ?_⟩
    · have hne : next i ≠ some x := by
        rw [hnext]
        intro h
        exact hxn (by simp [List.mem_of_mem_head? h])
      simpa [hp x (by simp), hne] using hpx
    · rw [hn x (by simp), hprev]
      cases hlast : xs.getLast? with
      | none =>
        obtain rfl : xs = [] := List.getLast?_eq_none_iff.mp hlast
        simpa using htail
      | some z =>
        have hz : z ∈ xs := List.mem_of_mem_getLast? hlast
        have hzx : z ≠ x := fun h => hxn (by simp [← h, hz])
        have hxs : xs ≠ [] := by rintro rfl; simp at hlast
        simpa [hzx, hxs] using htail

end LinkedChain
