import Kwokka.SlabRuns

/-! The slab operations by what they do to the two tables behind the keys: the
values stored and the keys promised. -/

namespace Kwokka

open Function

namespace Slab

variable {α : Type*} {s s' : Slab α} {key : SlabKey} {a : α}

/-- `s'` is a sound slab with these tables. -/
structure Shows (s' : Slab α) (stored : SlabKey → Option α) (reserved : SlabKey → Bool) :
    Prop where
  wf : s'.WF
  stored : s'.stored = stored
  reserved : s'.isReserved = reserved

theorem Becomes.shows {map : KeyMap α} {generation : Nat → Option Generation}
    (h : s.Becomes s' map generation) : s'.Shows map.stored map.reserved :=
  ⟨h.wf, congrArg KeyMap.stored h.map, congrArg KeyMap.reserved h.map⟩

theorem new_shows {capacity : Nat} (hnew : new capacity = .ok s) :
    s.Shows (fun _ => none) (fun _ => false) := by
  have hmap : s.toKeyMap = KeyMap.empty := (SlabRun.start_tracked hnew).map.symm
  exact ⟨new_wf hnew, congrArg KeyMap.stored hmap, congrArg KeyMap.reserved hmap⟩

theorem empty_shows : (⟨[], freeSentinel, 0⟩ : Slab α).Shows (fun _ => none) (fun _ => false) := by
  have hnew : Slab.new 0 = .ok (⟨[], freeSentinel, 0⟩ : Slab α) := rfl
  exact new_shows hnew

theorem WF.guards (hs : s.WF) (ha : s.stored key = some a) : s.Guards key :=
  .inl (stored_isOccupied hs ha)

theorem stored_inj {key' : SlabKey} {b : α} (ha : s.stored key = some a) (hb : s.stored key' = some b)
    (hi : key.index = key'.index) : key = key' ∧ a = b := by
  obtain ⟨slot, hrow, hgen, hdata⟩ := stored_eq_some.mp ha
  obtain ⟨slot', hrow', hgen', hdata'⟩ := stored_eq_some.mp hb
  rw [← hi, hrow] at hrow'
  cases hrow'
  cases key
  cases key'
  simp_all

theorem not_isReserved (hs : s.WF) (ha : s.stored key = some a) (g : Generation) :
    s.isReserved ⟨key.index, g⟩ = false := by
  obtain ⟨slot, hi, hgen, hdata⟩ := stored_eq_some.mp ha
  have hocc := stored_isOccupied hs ha
  rw [isReserved_of_row hi, hgen, hocc]
  simp

theorem insert_shows (hs : s.WF) (value : α) : s.insert value = .err .full ∨
    ∃ key s', s.insert value = .ok (key, s') ∧ (∀ g, s.stored ⟨key.index, g⟩ = none) ∧
      (∀ g, s.isReserved ⟨key.index, g⟩ = false) ∧
      s'.Shows (update s.stored key (some value)) s.isReserved := by
  rcases insert_spec hs value with ⟨hfull, -⟩ | ⟨g, s', hok, -, hfree, -, -, hbecomes⟩
  · exact .inl hfull
  · have hfree' : ∀ g, s.stored ⟨s.freeHead, g⟩ = none ∧ s.isReserved ⟨s.freeHead, g⟩ = false :=
      fun g => hfree ⟨s.freeHead, g⟩ rfl
    refine .inr ⟨_, s', hok, fun g => (hfree' g).1, fun g => (hfree' g).2, hbecomes.wf,
      hbecomes.shows.stored, hbecomes.shows.reserved.trans ?_⟩
    exact update_eq_self_iff.mpr (hfree' _).2.symm

theorem getMut_shows (hs : s.WF) (ha : s.stored key = some a) (f : α → α) :
    ∃ s', s.getMut key f = some s' ∧
      s'.Shows (update s.stored key (some (f a))) s.isReserved := by
  rcases (hs.guards ha).getMut_spec hs f with ⟨hnone, -⟩ | ⟨b, s', hb, hsome, hbecomes⟩
  · rw [hnone] at ha
    cases ha
  · refine ⟨s', hsome, hbecomes.wf, ?_, hbecomes.shows.reserved⟩
    rw [hbecomes.shows.stored]
    show update s.stored key ((s.stored key).map f) = _
    rw [ha]
    rfl

theorem remove_shows (hs : s.WF) (ha : s.stored key = some a) :
    ∃ s', s.remove key = some (some a, s') ∧
      s'.Shows (update s.stored key none) s.isReserved := by
  rcases (hs.guards ha).remove_spec hs with ⟨hnone, -⟩ | ⟨b, s', hb, hsome, -, hbecomes⟩
  · rw [hnone] at ha
    cases ha
  · rw [ha] at hb
    cases hb
    exact ⟨s', hsome, Becomes.shows hbecomes⟩

theorem retireSlot_shows (hs : s.WF) (ha : s.stored key = some a) :
    ∃ s', s.retireSlot key = (true, s') ∧
      s'.Shows (update s.stored key none) s.isReserved := by
  rcases (hs.guards ha).retireSlot_spec hs with ⟨hnone, -⟩ | ⟨b, s', hb, hsome, -, hbecomes⟩
  · rw [hnone] at ha
    cases ha
  · exact ⟨s', hsome, Becomes.shows hbecomes⟩

theorem removeByIndex_shows (hs : s.WF) (i : Nat) :
    (s.removeByIndex i = none ∧ s.getByIndex i = none) ∨
    ∃ g a s', s.stored ⟨i, g⟩ = some a ∧ s.getByIndex i = some a ∧
      s.removeByIndex i = some (a, s') ∧
      s'.Shows (update s.stored ⟨i, g⟩ none) s.isReserved := by
  rcases hs.removeByIndex_spec i with ⟨hnone, hmiss⟩ | ⟨g, a, s', -, -, ha, hsome, hbecomes⟩
  · rcases hs.getByIndex_spec i with ⟨hget, -⟩ | ⟨slot, a, -, -, -, -, ha⟩
    · exact .inl ⟨hnone, hget⟩
    · rw [hmiss] at ha
      cases ha
  · rcases hs.getByIndex_spec i with ⟨-, hmiss⟩ | ⟨slot, b, -, -, -, hget, hb⟩
    · rw [hmiss] at ha
      cases ha
    · obtain ⟨-, rfl⟩ := stored_inj ha hb rfl
      exact .inr ⟨g, a, s', ha, hget, hsome, Becomes.shows hbecomes⟩

theorem reserve_shows (hs : s.WF) : s.reserve = .err .full ∨
    ∃ key s', s.reserve = .ok (key, s') ∧ (∀ g, s.stored ⟨key.index, g⟩ = none) ∧
      (∀ g, s.isReserved ⟨key.index, g⟩ = false) ∧
      s'.Shows s.stored (update s.isReserved key true) := by
  rcases reserve_spec hs with ⟨hfull, -⟩ | ⟨g, s', hok, -, hfree, -, -, hbecomes⟩
  · exact .inl hfull
  · exact .inr ⟨_, s', hok, fun g => (hfree ⟨s.freeHead, g⟩ rfl).1,
      fun g => (hfree ⟨s.freeHead, g⟩ rfl).2, hbecomes.shows⟩

theorem install_shows (hs : s.WF) (key : SlabKey) (value : α) :
    (s.install key value = none ∧ s.isReserved key = false) ∨
    ∃ s', s.install key value = some s' ∧ s.isReserved key = true ∧ s.stored key = none ∧
      s'.Shows (update s.stored key (some value))
        (update s.isReserved key false) := by
  rcases install_spec hs key value with hmiss | ⟨g, s', hsome, hres, -, -, -, hbecomes⟩
  · exact .inl hmiss
  · exact .inr ⟨s', hsome, hres, (stored_of_isReserved hres).2, hbecomes.shows⟩

theorem unreserve_shows (hs : s.WF) (key : SlabKey) :
    (s.unreserve key = (false, s) ∧ s.isReserved key = false) ∨
    ∃ s', s.unreserve key = (true, s') ∧ s.isReserved key = true ∧
      s'.Shows s.stored (update s.isReserved key false) := by
  rcases unreserve_spec hs key with hmiss | ⟨s', hok, hres, hbecomes⟩
  · exact .inl hmiss
  · exact .inr ⟨s', hok, hres, hbecomes.shows⟩

end Slab

end Kwokka
