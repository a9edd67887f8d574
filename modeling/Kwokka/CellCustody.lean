import Kwokka.CellWorld
import Kwokka.Table

/-! Every task body has one owner, a slab slot that is no husk or a transport, and its
state says which half of the cell is live. -/

namespace Kwokka

open Table Runs

namespace TaskSlot

def life (slot : TaskSlot) : Life :=
  match slot.header.state with
  | .sleeping | .woken | .running | .cancelled => .future slot.copy
  | .done => .output slot.copy
  | .failed | .taken | .retired => .gone

def IsBody (slot : TaskSlot) : Prop := slot.header.state ≠ .retired

/-- The states a slot of a worker that nobody steals from can be in. -/
def Plain (slot : TaskSlot) : Prop := slot.header.state ≠ .retired ∧ slot.header.state ≠ .failed

theorem dropInPlaceFn_life (slot : TaskSlot) :
    (slot.dropInPlaceFn.map fun access => (slot.copy, access)).foldlM Life.after slot.life =
      some .gone := by
  unfold dropInPlaceFn life
  cases slot.header.state <;> simp [Life.after]

end TaskSlot

def putCell (cells : Nat → SlabKey → Option TaskSlot) (v : Nat) (key : SlabKey)
    (slot : Option TaskSlot) : Nat → SlabKey → Option TaskSlot :=
  Function.update cells v (Function.update (cells v) key slot)

theorem putCell_eq_some {cells : Nat → SlabKey → Option TaskSlot} {v v' : Nat} {key key' : SlabKey}
    {new : Option TaskSlot} {slot : TaskSlot} : putCell cells v key new v' key' = some slot ↔
      (v' = v ∧ key' = key) ∧ new = some slot ∨
        ¬ (v' = v ∧ key' = key) ∧ cells v' key' = some slot := by
  unfold putCell
  by_cases hv : v' = v
  · subst hv
    by_cases hk : key' = key
    · subst hk
      simp
    · simp [hk]
  · simp [hv]

structure Custody (cells : Nat → SlabKey → Option TaskSlot) (transit : List TaskSlot)
    (spawned : Nat) (log : Nat → List (Nat × CellAccess)) : Prop where
  known : ∀ v key slot, cells v key = some slot → slot.task < spawned
  carried : ∀ slot ∈ transit, slot.task < spawned ∧ slot.header.state = .sleeping
  sole : ∀ v key slot v' key' slot', cells v key = some slot → cells v' key' = some slot' →
    slot.IsBody → slot'.IsBody → slot.task = slot'.task → v = v' ∧ key = key'
  apart : ∀ v key slot, cells v key = some slot → slot.IsBody → ∀ body ∈ transit,
    body.task ≠ slot.task
  nodup : (transit.map TaskSlot.task).Nodup
  lives : ∀ v key slot, cells v key = some slot → slot.IsBody →
    Life.of (log slot.task) = some slot.life
  carries : ∀ slot ∈ transit, Life.of (log slot.task) = some slot.life
  gone : ∀ t < spawned, (∀ v key slot, cells v key = some slot → slot.IsBody → slot.task ≠ t) →
    (∀ body ∈ transit, body.task ≠ t) → Life.of (log t) = some .gone
  fresh : ∀ t, spawned ≤ t → log t = []

namespace Custody

variable {cells : Nat → SlabKey → Option TaskSlot} {transit : List TaskSlot} {spawned : Nat}
  {log log' : Nat → List (Nat × CellAccess)} {v : Nat} {key : SlabKey} {slot slot' : TaskSlot}
  {i : Nat}

theorem putCell_of_vacant {u : Nat} {k : SlabKey} {s : TaskSlot} {new : Option TaskSlot}
    (hcell : cells v key = none) (hs : cells u k = some s) :
    putCell cells v key new u k = some s := by
  refine putCell_eq_some.mpr (.inr ⟨?_, hs⟩)
  rintro ⟨rfl, rfl⟩
  cases hcell.symm.trans hs

theorem putCell_of_ne {u : Nat} {k : SlabKey} {s : TaskSlot} {new : Option TaskSlot}
    (hcell : cells v key = some slot) (hs : cells u k = some s) (hne : s ≠ slot) :
    putCell cells v key new u k = some s := by
  refine putCell_eq_some.mpr (.inr ⟨?_, hs⟩)
  rintro ⟨rfl, rfl⟩
  exact hne (Option.some.inj (hs.symm.trans hcell))

variable (h : Custody cells transit spawned log)

include h

theorem known_put (htask : slot'.task < spawned) (u : Nat) (k : SlabKey) (s : TaskSlot)
    (hs : putCell cells v key (some slot') u k = some s) : s.task < spawned := by
  rcases putCell_eq_some.mp hs with ⟨-, ⟨⟩⟩ | ⟨-, hs⟩
  · exact htask
  · exact h.known u k s hs

theorem sole_put (hother : ∀ u k s, ¬ (u = v ∧ k = key) → cells u k = some s → s.IsBody →
    s.task ≠ slot'.task) (u : Nat) (k : SlabKey) (s : TaskSlot) (u' : Nat) (k' : SlabKey)
    (s' : TaskSlot) (hs : putCell cells v key (some slot') u k = some s)
    (hs' : putCell cells v key (some slot') u' k' = some s') (hb : s.IsBody) (hb' : s'.IsBody)
    (heq : s.task = s'.task) : u = u' ∧ k = k' := by
  rcases putCell_eq_some.mp hs with ⟨hk, hnew⟩ | ⟨hne, hold⟩
  · cases hnew
    rcases putCell_eq_some.mp hs' with ⟨hk', -⟩ | ⟨hne', hold'⟩
    · exact ⟨hk.1.trans hk'.1.symm, hk.2.trans hk'.2.symm⟩
    · exact absurd heq.symm (hother u' k' s' hne' hold' hb')
  · rcases putCell_eq_some.mp hs' with ⟨-, hnew'⟩ | ⟨-, hold'⟩
    · cases hnew'
      exact absurd heq (hother u k s hne hold hb)
    · exact h.sole u k s u' k' s' hold hold' hb hb' heq

theorem fresh_of {t : Nat} (ht : t < spawned) (hother : ∀ t', t' ≠ t → log' t' = log t')
    (t' : Nat) (ht' : spawned ≤ t') : log' t' = [] := by
  rw [hother t' (by omega)]
  exact h.fresh t' ht'

theorem write (hcell : cells v key = some slot) (hbody : slot.IsBody) (hbody' : slot'.IsBody)
    (htask : slot'.task = slot.task) (hlife : Life.of (log' slot.task) = some slot'.life)
    (hother : ∀ t, t ≠ slot.task → log' t = log t) :
    Custody (putCell cells v key (some slot')) transit spawned log' := by
  have hlog : ∀ u k s, ¬ (u = v ∧ k = key) → cells u k = some s → s.IsBody → s.task ≠ slot.task :=
    fun u k s hne hs hb heq => hne (h.sole u k s v key slot hs hcell hb hbody heq)
  constructor
  · exact h.known_put (htask ▸ h.known v key slot hcell)
  · exact h.carried
  · exact h.sole_put (htask ▸ hlog)
  · intro u k s hs hb
    rcases putCell_eq_some.mp hs with ⟨-, ⟨⟩⟩ | ⟨-, hs⟩
    · rw [htask]
      exact h.apart v key slot hcell hbody
    · exact h.apart u k s hs hb
  · exact h.nodup
  · intro u k s hs hb
    rcases putCell_eq_some.mp hs with ⟨-, ⟨⟩⟩ | ⟨hne, hs⟩
    · rw [htask]
      exact hlife
    · rw [hother _ (hlog u k s hne hs hb)]
      exact h.lives u k s hs hb
  · intro s hs
    rw [hother _ (h.apart v key slot hcell hbody s hs)]
    exact h.carries s hs
  · intro t ht hcells htransit
    have hne : t ≠ slot.task := by
      rintro rfl
      exact hcells v key slot' (putCell_eq_some.mpr (.inl ⟨⟨rfl, rfl⟩, rfl⟩)) hbody' htask
    rw [hother t hne]
    apply h.gone t ht _ htransit
    intro u k s hs hb heq
    refine hcells u k s (putCell_of_ne hcell hs ?_) hb heq
    rintro rfl
    exact hne heq.symm
  · exact h.fresh_of (h.known v key slot hcell) hother

theorem release (hcell : cells v key = some slot)
    (hlife : slot.IsBody → Life.of (log' slot.task) = some .gone)
    (hhusk : ¬ slot.IsBody → log' slot.task = log slot.task)
    (hother : ∀ t, t ≠ slot.task → log' t = log t) :
    Custody (putCell cells v key none) transit spawned log' := by
  have hcells : ∀ u k s, putCell cells v key none u k = some s →
      ¬ (u = v ∧ k = key) ∧ cells u k = some s := by
    intro u k s hs
    rcases putCell_eq_some.mp hs with ⟨-, ⟨⟩⟩ | hs
    exact hs
  have hlog : ∀ u k s, ¬ (u = v ∧ k = key) → cells u k = some s → s.IsBody →
      log' s.task = log s.task := by
    intro u k s hne hs hb
    by_cases htask : s.task = slot.task
    · rw [htask]
      apply hhusk
      intro hbody
      exact hne (h.sole u k s v key slot hs hcell hb hbody htask)
    · exact hother _ htask
  constructor
  · exact fun u k s hs => h.known u k s (hcells u k s hs).2
  · exact h.carried
  · exact fun u k s u' k' s' hs hs' =>
      h.sole u k s u' k' s' (hcells u k s hs).2 (hcells u' k' s' hs').2
  · exact fun u k s hs => h.apart u k s (hcells u k s hs).2
  · exact h.nodup
  · intro u k s hs hb
    obtain ⟨hne, hs⟩ := hcells u k s hs
    rw [hlog u k s hne hs hb]
    exact h.lives u k s hs hb
  · intro s hs
    have hsame : log' s.task = log s.task := by
      by_cases htask : s.task = slot.task
      · rw [htask]
        exact hhusk fun hbody => h.apart v key slot hcell hbody s hs htask
      · exact hother _ htask
    rw [hsame]
    exact h.carries s hs
  · intro t ht hnone htransit
    by_cases hbody : slot.IsBody ∧ t = slot.task
    · obtain ⟨hbody, rfl⟩ := hbody
      exact hlife hbody
    · have hsame : log' t = log t := by
        by_cases htask : t = slot.task
        · rw [htask]
          exact hhusk fun hb => hbody ⟨hb, htask⟩
        · exact hother t htask
      rw [hsame]
      apply h.gone t ht _ htransit
      intro u k s hs hb heq
      refine hnone u k s (putCell_of_ne hcell hs ?_) hb heq
      rintro rfl
      exact hbody ⟨hb, heq.symm⟩
  · exact h.fresh_of (h.known v key slot hcell) hother

theorem writeHusk (hcell : cells v key = some slot) (hhusk : ¬ slot.IsBody)
    (hhusk' : ¬ slot'.IsBody) (htask : slot'.task = slot.task) :
    Custody (putCell cells v key (some slot')) transit spawned log := by
  have hcells : ∀ u k s, putCell cells v key (some slot') u k = some s → s.IsBody →
      cells u k = some s := by
    intro u k s hs hb
    rcases putCell_eq_some.mp hs with ⟨-, ⟨⟩⟩ | ⟨-, hs⟩
    · exact absurd hb hhusk'
    · exact hs
  constructor
  · exact h.known_put (htask ▸ h.known v key slot hcell)
  · exact h.carried
  · intro u k s u' k' s' hs hs' hb hb'
    exact h.sole u k s u' k' s' (hcells u k s hs hb) (hcells u' k' s' hs' hb') hb hb'
  · exact fun u k s hs hb => h.apart u k s (hcells u k s hs hb) hb
  · exact h.nodup
  · exact fun u k s hs hb => h.lives u k s (hcells u k s hs hb) hb
  · exact h.carries
  · intro t ht hnone htransit
    apply h.gone t ht _ htransit
    intro u k s hs hb
    refine hnone u k s (putCell_of_ne hcell hs ?_) hb
    rintro rfl
    exact hhusk hb
  · exact h.fresh

theorem ship {body : TaskSlot} (hcell : cells v key = some slot) (hbody : slot.IsBody)
    (hhusk : ¬ slot'.IsBody) (htask : slot'.task = slot.task) (htask' : body.task = slot.task)
    (hstate : body.header.state = .sleeping) (hlife : Life.of (log' slot.task) = some body.life)
    (hother : ∀ t, t ≠ slot.task → log' t = log t) :
    Custody (putCell cells v key (some slot')) (transit ++ [body]) spawned log' := by
  have hcells : ∀ u k s, putCell cells v key (some slot') u k = some s → s.IsBody →
      cells u k = some s ∧ s.task ≠ slot.task := by
    intro u k s hs hb
    rcases putCell_eq_some.mp hs with ⟨-, ⟨⟩⟩ | ⟨hne, hs⟩
    · exact absurd hb hhusk
    · exact ⟨hs, fun heq => hne (h.sole u k s v key slot hs hcell hb hbody heq)⟩
  constructor
  · exact h.known_put (htask ▸ h.known v key slot hcell)
  · intro s hs
    rcases List.mem_append.mp hs with hold | hnew
    · exact h.carried s hold
    · rw [List.mem_singleton.mp hnew, htask']
      exact ⟨h.known v key slot hcell, hstate⟩
  · intro u k s u' k' s' hs hs' hb hb'
    exact h.sole u k s u' k' s' (hcells u k s hs hb).1 (hcells u' k' s' hs' hb').1 hb hb'
  · intro u k s hs hb b hmem
    rcases List.mem_append.mp hmem with hold | hnew
    · exact h.apart u k s (hcells u k s hs hb).1 hb b hold
    · rw [List.mem_singleton.mp hnew, htask']
      exact (hcells u k s hs hb).2.symm
  · rw [List.map_append, List.nodup_append]
    refine ⟨h.nodup, List.nodup_singleton _, ?_⟩
    intro t ht t' ht' heq
    obtain ⟨b, hb, rfl⟩ := List.mem_map.mp ht
    rw [List.mem_singleton.mp ht', htask'] at heq
    exact h.apart v key slot hcell hbody b hb heq
  · intro u k s hs hb
    obtain ⟨hold, hne⟩ := hcells u k s hs hb
    rw [hother _ hne]
    exact h.lives u k s hold hb
  · intro s hs
    rcases List.mem_append.mp hs with hold | hnew
    · rw [hother _ (h.apart v key slot hcell hbody s hold)]
      exact h.carries s hold
    · rw [List.mem_singleton.mp hnew, htask']
      exact hlife
  · intro t ht hnone htransit
    have hne : t ≠ slot.task := by
      rintro rfl
      exact htransit body (List.mem_append_right _ (List.mem_singleton_self _)) htask'
    rw [hother t hne]
    apply h.gone t ht
    · intro u k s hs hb heq
      refine hnone u k s (putCell_of_ne hcell hs ?_) hb heq
      rintro rfl
      exact hne heq.symm
    · exact fun b hb => htransit b (List.mem_append_left _ hb)
  · exact h.fresh_of (h.known v key slot hcell) hother

theorem install (hi : transit[i]? = some slot) (hcell : cells v key = none) :
    Custody (putCell cells v key (some slot)) (transit.eraseIdx i) spawned log := by
  have hmem := List.mem_of_getElem? hi
  obtain ⟨hknown, hstate⟩ := h.carried slot hmem
  have hbody : slot.IsBody := by simp [TaskSlot.IsBody, hstate]
  have herase : ∀ b, b ∈ transit.eraseIdx i ↔ b ∈ transit ∧ b.task ≠ slot.task := fun b =>
    mem_eraseIdx_of_nodup h.nodup hi
  constructor
  · exact h.known_put hknown
  · exact fun s hs => h.carried s ((herase s).mp hs).1
  · exact h.sole_put fun u k s _ hs hb => (h.apart u k s hs hb slot hmem).symm
  · intro u k s hs hb b hmem'
    obtain ⟨hmem', hne⟩ := (herase b).mp hmem'
    rcases putCell_eq_some.mp hs with ⟨-, ⟨⟩⟩ | ⟨-, hs⟩
    · exact hne
    · exact h.apart u k s hs hb b hmem'
  · exact h.nodup.sublist ((List.eraseIdx_sublist _ _).map _)
  · intro u k s hs hb
    rcases putCell_eq_some.mp hs with ⟨-, ⟨⟩⟩ | ⟨-, hs⟩
    · exact h.carries slot hmem
    · exact h.lives u k s hs hb
  · exact fun s hs => h.carries s ((herase s).mp hs).1
  · intro t ht hnone htransit
    have hne : slot.task ≠ t :=
      hnone v key slot (putCell_eq_some.mpr (.inl ⟨⟨rfl, rfl⟩, rfl⟩)) hbody
    apply h.gone t ht
    · exact fun u k s hs => hnone u k s (putCell_of_vacant hcell hs)
    · intro b hb heq
      by_cases hbt : b.task = slot.task
      · exact hne (hbt.symm.trans heq)
      · exact htransit b ((herase b).mpr ⟨hb, hbt⟩) heq
  · exact h.fresh

theorem discard (hi : transit[i]? = some slot) (hlife : Life.of (log' slot.task) = some .gone)
    (hother : ∀ t, t ≠ slot.task → log' t = log t) :
    Custody cells (transit.eraseIdx i) spawned log' := by
  have hmem := List.mem_of_getElem? hi
  have herase : ∀ b, b ∈ transit.eraseIdx i ↔ b ∈ transit ∧ b.task ≠ slot.task := fun b =>
    mem_eraseIdx_of_nodup h.nodup hi
  constructor
  · exact h.known
  · exact fun s hs => h.carried s ((herase s).mp hs).1
  · exact h.sole
  · exact fun u k s hs hb b hmem' => h.apart u k s hs hb b ((herase b).mp hmem').1
  · exact h.nodup.sublist ((List.eraseIdx_sublist _ _).map _)
  · intro u k s hs hb
    rw [hother _ (h.apart u k s hs hb slot hmem).symm]
    exact h.lives u k s hs hb
  · intro s hs
    obtain ⟨hold, hne⟩ := (herase s).mp hs
    rw [hother _ hne]
    exact h.carries s hold
  · intro t ht hnone htransit
    by_cases hne : t = slot.task
    · rw [hne]
      exact hlife
    · rw [hother t hne]
      apply h.gone t ht hnone
      intro b hb heq
      exact htransit b ((herase b).mpr ⟨hb, fun hbt => hne (heq.symm.trans hbt)⟩) heq
  · exact h.fresh_of (h.carried slot hmem).1 hother

theorem insert (hcell : cells v key = none) (htask : slot.task = spawned)
    (hlife : slot.life = .future 0) :
    Custody (putCell cells v key (some slot)) transit (spawned + 1) log := by
  constructor
  · intro u k s hs
    rcases putCell_eq_some.mp hs with ⟨-, ⟨⟩⟩ | ⟨-, hs⟩
    · omega
    · have hlt := h.known u k s hs
      omega
  · intro s hs
    obtain ⟨hlt, hstate⟩ := h.carried s hs
    exact ⟨by omega, hstate⟩
  · refine h.sole_put fun u k s _ hs _ => ?_
    have hlt := h.known u k s hs
    omega
  · intro u k s hs hb b hmem
    rcases putCell_eq_some.mp hs with ⟨-, ⟨⟩⟩ | ⟨-, hs⟩
    · have hlt := (h.carried b hmem).1
      omega
    · exact h.apart u k s hs hb b hmem
  · exact h.nodup
  · intro u k s hs hb
    rcases putCell_eq_some.mp hs with ⟨-, ⟨⟩⟩ | ⟨-, hs⟩
    · rw [htask, h.fresh spawned (Nat.le_refl _), hlife]
      rfl
    · exact h.lives u k s hs hb
  · exact h.carries
  · intro t ht hnone htransit
    have hbody : slot.IsBody := by
      intro hretired
      simp [TaskSlot.life, hretired] at hlife
    have hne : slot.task ≠ t :=
      hnone v key slot (putCell_eq_some.mpr (.inl ⟨⟨rfl, rfl⟩, rfl⟩)) hbody
    refine h.gone t (by omega) (fun u k s hs => ?_) htransit
    exact hnone u k s (putCell_of_vacant hcell hs)
  · exact fun t ht => h.fresh t (by omega)

theorem refuse (hlife : Life.of (log' spawned) = some .gone)
    (hother : ∀ t, t ≠ spawned → log' t = log t) :
    Custody cells transit (spawned + 1) log' := by
  constructor
  · intro u k s hs
    have hlt := h.known u k s hs
    omega
  · intro s hs
    obtain ⟨hlt, hstate⟩ := h.carried s hs
    exact ⟨by omega, hstate⟩
  · exact h.sole
  · exact h.apart
  · exact h.nodup
  · intro u k s hs hb
    have hlt := h.known u k s hs
    rw [hother _ (by omega)]
    exact h.lives u k s hs hb
  · intro s hs
    have hlt := (h.carried s hs).1
    rw [hother _ (by omega)]
    exact h.carries s hs
  · intro t ht hnone htransit
    by_cases hne : t = spawned
    · rw [hne]
      exact hlife
    · rw [hother t hne]
      exact h.gone t (by omega) hnone htransit
  · intro t ht
    rw [hother t (by omega)]
    exact h.fresh t (by omega)

end Custody

end Kwokka
