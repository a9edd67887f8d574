import Kwokka.CellCustody

/-! Every run keeps the custody of the task bodies, so each future is dropped once and
each output is moved out or dropped once. -/

namespace Kwokka

open Table Runs Function TaskSlot TaskState

theorem Life.of_record {xs : List (Nat × CellAccess)} {life : Life} (h : Life.of xs = some life)
    (ys : List (Nat × CellAccess)) : Life.of (xs ++ ys) = ys.foldlM Life.after life := by
  rw [of_append, h]
  rfl

namespace CellWorld

variable {w : CellWorld} {v : Nat} {key : SlabKey} {slot slot' : TaskSlot}
  {accesses : List CellAccess}

theorem cell_setSlab (w : CellWorld) (v : Nat) (slab : Slab TaskSlot) :
    (w.setSlab v slab).cell = update w.cell v slab.stored := by
  funext u
  by_cases hu : u = v
  · subst hu
    funext k
    simp [cell, setSlab]
  · funext k
    simp [cell, setSlab, hu]

theorem cell_put {slab : Slab TaskSlot} {new : Option TaskSlot} {isReserved : SlabKey → Bool}
    (hshows : slab.Shows (update (w.cell v) key new) isReserved) :
    (w.setSlab v slab).cell = putCell w.cell v key new := by
  rw [cell_setSlab, hshows.stored]
  rfl

theorem record_log (w : CellWorld) (slot : TaskSlot) (accesses : List CellAccess) :
    (w.record slot accesses).log slot.task =
      w.log slot.task ++ accesses.map fun access => (slot.copy, access) := by
  simp [record]

theorem record_nil (w : CellWorld) (slot : TaskSlot) : w.record slot [] = w := by
  simp [record]

theorem record_log_of_ne {t : Nat} (ht : t ≠ slot.task) :
    (w.record slot accesses).log t = w.log t := by
  simp [record, ht]

theorem dropSlot_log_body (hlife : Life.of (w.log slot.task) = some slot.life) :
    Life.of ((w.dropSlot slot).log slot.task) = some .gone := by
  rw [dropSlot, record_log, Life.of_record hlife]
  exact slot.dropInPlaceFn_life

theorem dropSlot_log_husk (hhusk : ¬ slot.IsBody) :
    (w.dropSlot slot).log slot.task = w.log slot.task := by
  have hretired : slot.header.state = .retired := not_not.mp hhusk
  rw [dropSlot, record_log, dropInPlaceFn, hretired]
  simp

structure Stocked (w : CellWorld) : Prop where
  wf : ∀ v, (w.slabs v).WF
  custody : Custody w.cell w.transit w.spawned w.log

def Polled (w : CellWorld) : Prop :=
  ∀ v key, w.polling v = some key →
    ∃ slot, w.cell v key = some slot ∧ slot.header.state = .running

theorem wf_setSlab {slab : Slab TaskSlot} (h : ∀ v, (w.slabs v).WF) (hslab : slab.WF) :
    ∀ u, ((w.setSlab v slab).slabs u).WF := by
  intro u
  by_cases hu : u = v
  · subst hu
    simpa [setSlab] using hslab
  · simpa [setSlab, hu] using h u

theorem write_eq (h : ∀ v, (w.slabs v).WF) (hcell : w.cell v key = some slot) (slot' : TaskSlot) :
    ∃ slab, w.write v key slot' = w.setSlab v slab ∧ slab.WF ∧
      (w.setSlab v slab).cell = putCell w.cell v key (some slot') := by
  obtain ⟨slab, hget, hshows⟩ := Slab.getMut_shows (h v) hcell fun _ => slot'
  exact ⟨slab, by rw [write, hget], hshows.wf, cell_put hshows⟩

theorem Stocked.written (h : w.Stocked) (hcell : w.cell v key = some slot)
    (accesses : List CellAccess) (slot' : TaskSlot) (hbody : slot'.IsBody ↔ slot.IsBody)
    (haccess : slot.IsBody ∨ accesses = []) (htask : slot'.task = slot.task)
    (hlife : (accesses.map fun access => (slot.copy, access)).foldlM Life.after slot.life =
      some slot'.life) :
    ((w.record slot accesses).write v key slot').Stocked ∧
      ((w.record slot accesses).write v key slot').cell = putCell w.cell v key (some slot') ∧
      ((w.record slot accesses).write v key slot').polling = w.polling := by
  have hwf : ∀ u, ((w.record slot accesses).slabs u).WF := h.wf
  have hcell' : (w.record slot accesses).cell v key = some slot := hcell
  obtain ⟨slab, heq, hslab, hcells⟩ := write_eq hwf hcell' slot'
  rw [heq]
  refine ⟨⟨wf_setSlab hwf hslab, ?_⟩, hcells, rfl⟩
  rw [hcells]
  by_cases hb : slot.IsBody
  · apply h.custody.write hcell hb (hbody.mpr hb) htask
    · show Life.of ((w.record slot accesses).log slot.task) = _
      rw [record_log, Life.of_record (h.custody.lives v key slot hcell hb)]
      exact hlife
    · intro t ht
      exact record_log_of_ne ht
  · obtain rfl := haccess.resolve_left hb
    rw [record_nil]
    exact h.custody.writeHusk hcell hb (fun hb' => hb (hbody.mp hb')) htask

theorem Stocked.dropped {slab : Slab TaskSlot} (h : w.Stocked) (hcell : w.cell v key = some slot)
    (hshows : slab.Shows (update (w.cell v) key none) ((w.slabs v).isReserved)) :
    ((w.setSlab v slab).dropSlot slot).Stocked ∧
      ((w.setSlab v slab).dropSlot slot).cell = putCell w.cell v key none ∧
      ((w.setSlab v slab).dropSlot slot).polling = w.polling := by
  have hcells : ((w.setSlab v slab).dropSlot slot).cell = putCell w.cell v key none := cell_put hshows
  refine ⟨⟨wf_setSlab h.wf hshows.wf, ?_⟩, hcells, rfl⟩
  rw [hcells]
  apply h.custody.release hcell
  · intro hbody
    exact dropSlot_log_body (w := w.setSlab v slab) (h.custody.lives v key slot hcell hbody)
  · exact dropSlot_log_husk (w := w.setSlab v slab)
  · intro t ht
    exact record_log_of_ne ht

theorem Stocked.removed (h : w.Stocked) (hcell : w.cell v key = some slot) :
    (w.removeSlot v key).Stocked ∧ (w.removeSlot v key).cell = putCell w.cell v key none ∧
      (w.removeSlot v key).polling = w.polling := by
  obtain ⟨slab, hremove, hshows⟩ := Slab.remove_shows (h.wf v) hcell
  have heq : w.removeSlot v key = (w.setSlab v slab).dropSlot slot := by
    rw [removeSlot, hremove]
  rw [heq]
  exact h.dropped hcell hshows

structure Kept (w : CellWorld) : Prop where
  stocked : w.Stocked
  polled : w.Polled

theorem Polled.put {w' : CellWorld} {new : Option TaskSlot} (h : w.Polled)
    (hcell : w'.cell = putCell w.cell v key new) (hpolling : w'.polling = w.polling)
    (hne : w.polling v ≠ some key) : w'.Polled := by
  intro u k hu
  rw [hpolling] at hu
  obtain ⟨slot, hslot, hrunning⟩ := h u k hu
  refine ⟨slot, ?_, hrunning⟩
  rw [hcell]
  apply putCell_eq_some.mpr
  right
  refine ⟨?_, hslot⟩
  rintro ⟨rfl, rfl⟩
  exact hne hu

theorem takeOutput_eq_some : slot.takeOutput = some slot' ↔
    slot.header.state = .done ∧ slot' = slot.setState .taken := by
  unfold takeOutput
  cases slot.header.state <;> simp [transition, isTerminal, eq_comm]

theorem write_frame (w : CellWorld) (v : Nat) (key : SlabKey) (slot : TaskSlot) :
    (w.write v key slot).polling = w.polling ∧ (w.write v key slot).spawned = w.spawned ∧
      (w.write v key slot).transit = w.transit := by
  unfold CellWorld.write
  split <;> exact ⟨rfl, rfl, rfl⟩

/-- What a wake, the start or end of a poll, a cancel, a join and an edit do: at most one slot
changes, and no slot becomes a husk or stops being one. -/
inductive Rewrite (w : CellWorld) : CellWorld → Prop
  | same : Rewrite w w
  | slot {v : Nat} {key : SlabKey} {slot slot' : TaskSlot} {accesses : List CellAccess}
      (polling : Nat → Option SlabKey) (hcell : w.cell v key = some slot)
      (htask : slot'.task = slot.task) (hbody : slot'.IsBody ↔ slot.IsBody)
      (hplain : slot.Plain → slot'.Plain) (haccess : slot.IsBody ∨ accesses = [])
      (hlife : (accesses.map fun access => (slot.copy, access)).foldlM Life.after slot.life =
        some slot'.life)
      (hpolled : ∀ u k, polling u = some k →
        if u = v ∧ k = key then slot'.header.state = .running else w.polling u = some k) :
      Rewrite w { (w.record slot accesses).write v key slot' with polling }

theorem Rewrite.kept {w' : CellWorld} (h : w.Kept) (hrewrite : Rewrite w w') : w'.Kept := by
  cases hrewrite with
  | same => exact h
  | slot polling hcell htask hbody hplain haccess hlife hpolled =>
    obtain ⟨hstocked, hcells, -⟩ := h.stocked.written hcell _ _ hbody haccess htask hlife
    refine ⟨⟨hstocked.wf, hstocked.custody⟩, ?_⟩
    intro u k hu
    have hnext := hpolled u k hu
    show ∃ s, (write _ _ _ _).cell u k = some s ∧ _
    rw [hcells]
    split at hnext
    case isTrue hk => exact ⟨_, putCell_eq_some.mpr (.inl ⟨hk, rfl⟩), hnext⟩
    case isFalse hk =>
      obtain ⟨s, hs, hrunning⟩ := h.polled u k hnext
      exact ⟨s, putCell_eq_some.mpr (.inr ⟨hk, hs⟩), hrunning⟩

theorem Rewrite.written (hcell : w.cell v key = some slot) (htask : slot'.task = slot.task)
    (hbody : slot'.IsBody ↔ slot.IsBody) (hplain : slot.Plain → slot'.Plain)
    (haccess : slot.IsBody ∨ accesses = [])
    (hlife : (accesses.map fun access => (slot.copy, access)).foldlM Life.after slot.life =
      some slot'.life)
    (hpolled : w.polling v = some key → slot'.header.state = .running) :
    Rewrite w ((w.record slot accesses).write v key slot') := by
  have heq : { (w.record slot accesses).write v key slot' with polling := w.polling } =
      (w.record slot accesses).write v key slot' := by
    unfold write
    split <;> rfl
  rw [← heq]
  refine .slot w.polling hcell htask hbody hplain haccess hlife fun u k hu => ?_
  split
  case isTrue hk =>
    obtain ⟨rfl, rfl⟩ := hk
    exact hpolled hu
  case isFalse => exact hu

theorem Rewrite.restated (hcell : w.cell v key = some slot) (slot' : TaskSlot)
    (htask : slot'.task = slot.task)
    (hsame : (slot'.IsBody ↔ slot.IsBody) ∧ (slot.Plain → slot'.Plain) ∧ slot.life = slot'.life)
    (hpolled : w.polling v = some key → slot'.header.state = .running) :
    Rewrite w (w.write v key slot') := by
  have hrewrite := written hcell htask hsame.1 hsame.2.1 (.inr rfl) (congrArg some hsame.2.2) hpolled
  rwa [record_nil] at hrewrite

theorem Rewrite.wake (w : CellWorld) (v : Nat) (key : SlabKey) : Rewrite w (w.wake v key) := by
  unfold CellWorld.wake
  cases hpolling : w.polling v with
  | some => exact .same
  | none =>
    cases hcell : w.cell v key with
    | none => exact .same
    | some slot =>
      refine .restated hcell _ rfl ?_ (by simp [hpolling])
      cases hstate : slot.header.state <;> simp [TaskSlot.IsBody, TaskSlot.Plain, life,
        setState, after_wake, hstate]

theorem Rewrite.startPoll (w : CellWorld) (v : Nat) (key : SlabKey) :
    Rewrite w (w.startPoll v key) := by
  unfold CellWorld.startPoll
  cases hpolling : w.polling v with
  | some => exact .same
  | none =>
    cases hcell : w.cell v key with
    | none => exact .same
    | some slot =>
      cases hstart : slot.header.state.tryStartPoll with
      | error => simpa only [hstart] using .same
      | ok state =>
        obtain ⟨hwoken, rfl⟩ := tryStartPoll_eq_ok.mp hstart
        simp only [hstart]
        refine .slot _ hcell rfl ?_ ?_ (.inl ?_) ?_ fun u k hu => ?_
        · simp [TaskSlot.IsBody, hwoken]
        · simp [TaskSlot.Plain]
        · simp [TaskSlot.IsBody, hwoken]
        · simp [life, hwoken, Life.after]
        · rw [(write_frame _ _ _ _).1] at hu
          by_cases huv : u = v
          · subst huv
            have hk : key = k := by simpa using hu
            simp [hk]
          · simpa [huv, record] using hu

theorem Rewrite.endPoll (h : w.Kept) (v : Nat) (isReady : Bool) :
    Rewrite w (w.endPoll v isReady) := by
  unfold CellWorld.endPoll
  cases hpolling : w.polling v with
  | none => exact .same
  | some key =>
    obtain ⟨slot, hcell, hrunning⟩ := h.polled v key hpolling
    simp only [hcell]
    refine .slot _ hcell rfl ?_ ?_ (.inl ?_) ?_ fun u k hu => ?_
    · cases isReady <;> simp [TaskSlot.IsBody, setState, hrunning, after_complete,
        after_suspend]
    · cases isReady <;> simp [TaskSlot.Plain, setState, hrunning, after_complete,
        after_suspend]
    · simp [TaskSlot.IsBody, hrunning]
    · cases isReady <;> simp [pollFn, life, setState, hrunning,
        after_complete, after_suspend, Life.after]
    · rw [(write_frame _ _ _ _).1] at hu
      by_cases huv : u = v
      · subst huv
        simp at hu
      · simpa [huv, record] using hu

theorem Rewrite.cancelChild (w : CellWorld) (v : Nat) (child : SlabKey) :
    Rewrite w (w.cancelChild v child) := by
  unfold CellWorld.cancelChild
  cases hpolling : w.polling v with
  | none => exact .same
  | some =>
    cases hcell : w.cell v child with
    | none => exact .same
    | some slot =>
      simp only
      split
      case isTrue => exact .same
      case isFalse hne =>
        refine .restated hcell _ rfl ?_ ?_
        · cases hstate : slot.header.state <;> simp [TaskSlot.IsBody, TaskSlot.Plain, life,
            setState, after, cancel, hstate]
        · rw [hpolling]
          rintro ⟨⟩
          exact absurd rfl hne

theorem Rewrite.joinChild (w : CellWorld) (v : Nat) (child : SlabKey) :
    Rewrite w (w.joinChild v child) := by
  unfold CellWorld.joinChild
  cases hpolling : w.polling v with
  | none => exact .same
  | some =>
    cases hcell : w.cell v child with
    | none => exact .same
    | some slot =>
      simp only
      split
      case isTrue => exact .same
      case isFalse hne =>
        cases htake : slot.takeOutput with
        | none => exact .same
        | some taken =>
          obtain ⟨hdone, rfl⟩ := takeOutput_eq_some.mp htake
          refine .written hcell rfl ?_ ?_ (.inl ?_) ?_ ?_
          · simp [TaskSlot.IsBody, setState, hdone]
          · simp [TaskSlot.Plain, setState]
          · simp [TaskSlot.IsBody, hdone]
          · simp [life, setState, hdone, Life.after]
          · rw [hpolling]
            rintro ⟨⟩
            exact absurd rfl hne

theorem Rewrite.edit (h : w.Kept) (v : Nat) (key : SlabKey) (header : TaskHeader) :
    Rewrite w (w.edit v key header) := by
  unfold CellWorld.edit
  cases hcell : w.cell v key with
  | none => exact .same
  | some slot =>
    refine .restated hcell _ rfl ⟨Iff.rfl, id, rfl⟩ fun hpolling => ?_
    obtain ⟨s, hs, hrunning⟩ := h.polled v key hpolling
    cases hcell.symm.trans hs
    exact hrunning

section

variable (h : w.Kept)

include h

theorem Kept.put {w' : CellWorld} {new : Option TaskSlot}
    (hchange : w'.Stocked ∧ w'.cell = putCell w.cell v key new ∧ w'.polling = w.polling)
    (hne : w.polling v ≠ some key) : w'.Kept :=
  ⟨hchange.1, h.polled.put hchange.2.1 hchange.2.2 hne⟩

theorem Kept.spawn (v : Nat) (pip : Pip) : (w.spawn v pip).Kept := by
  have hlife : (⟨.new pip, w.spawned, 0⟩ : TaskSlot).life = .future 0 := rfl
  unfold CellWorld.spawn
  simp only
  rcases Slab.insert_shows (h.stocked.wf v) ⟨.new pip, w.spawned, 0⟩ with
    hfull | ⟨key, slab, hok, hvacant, -, hshows⟩
  · rw [hfull]
    refine ⟨⟨h.stocked.wf, ?_⟩, h.polled⟩
    apply h.stocked.custody.refuse
    · show Life.of ((update w.log w.spawned _) w.spawned) = _
      rw [update_self, h.stocked.custody.fresh _ (Nat.le_refl _)]
      rfl
    · intro t ht
      exact update_of_ne ht _ _
  · rw [hok]
    have hcell : w.cell v key = none := hvacant key.generation
    have hcells : ({ w with spawned := w.spawned + 1 }.setSlab v slab).cell =
        putCell w.cell v key (some ⟨.new pip, w.spawned, 0⟩) := cell_put hshows
    refine ⟨⟨wf_setSlab h.stocked.wf hshows.wf, ?_⟩, ?_⟩
    · rw [hcells]
      exact h.stocked.custody.insert hcell rfl hlife
    · apply h.polled.put hcells rfl
      intro hpolling
      obtain ⟨slot, hslot, -⟩ := h.polled v key hpolling
      rw [hcell] at hslot
      cases hslot

omit h in
theorem Polled.clear (h : ∀ u k, u ≠ v → w.polling u = some k →
    ∃ slot, w.cell u k = some slot ∧ slot.header.state = .running) :
    (w.setPolling v none).Polled := by
  intro u k hu
  by_cases huv : u = v
  · subst huv
    simp [setPolling] at hu
  · exact h u k huv (by simpa [setPolling, huv] using hu)

theorem Kept.unwindPoll (v : Nat) : (w.setPolling v none).Kept :=
  ⟨⟨h.stocked.wf, h.stocked.custody⟩, Polled.clear fun u k _ => h.polled u k⟩

omit h in
theorem Stocked.taken (h : w.Stocked) (hcell : w.cell v key = some slot)
    (hdone : slot.header.state = .done) :
    ((w.record slot [.moveOutput]).write v key (slot.setState .taken)).Stocked ∧
      ((w.record slot [.moveOutput]).write v key (slot.setState .taken)).cell =
        putCell w.cell v key (some (slot.setState .taken)) ∧
      ((w.record slot [.moveOutput]).write v key (slot.setState .taken)).polling = w.polling := by
  apply h.written hcell
  · simp [TaskSlot.IsBody, setState, hdone]
  · simp [TaskSlot.IsBody, hdone]
  · rfl
  · simp [life, setState, hdone, Life.after]

theorem Kept.takeRootOutput (v : Nat) (key : SlabKey) :
    (w.takeRootOutput v key).Kept := by
  unfold CellWorld.takeRootOutput
  cases hpolling : w.polling v with
  | some => exact h
  | none =>
    cases hcell : w.cell v key with
    | none => exact h
    | some slot =>
      cases htake : slot.takeOutput with
      | none => simpa only [htake] using h
      | some taken =>
        obtain ⟨hdone, rfl⟩ := takeOutput_eq_some.mp htake
        simp only [htake]
        obtain ⟨hstocked, hcells, hsame⟩ := h.stocked.taken hcell hdone
        have hkept : ((w.record slot [.moveOutput]).write v key (slot.setState .taken)).Kept :=
          h.put ⟨hstocked, hcells, hsame⟩ (by simp [hpolling])
        have hcell' : ((w.record slot [.moveOutput]).write v key (slot.setState .taken)).cell v key =
            some (slot.setState .taken) := by
          rw [hcells]
          exact putCell_eq_some.mpr (.inl ⟨⟨rfl, rfl⟩, rfl⟩)
        apply hkept.put (hstocked.removed hcell')
        rw [hsame, hpolling]
        simp

omit h in
theorem relocate_eq_some {expected : TaskState} {body husk : TaskSlot}
    (h : slot.relocate expected = some (body, husk)) : slot.header.state = expected ∧
      body = { slot.setState .sleeping with copy := slot.copy + 1 } ∧ husk = slot.setState .retired := by
  unfold relocate at h
  split at h
  · cases h
  split at h
  · next hstate =>
    cases h
    exact ⟨hstate, rfl, rfl⟩
  · cases h

theorem Kept.ship {expected : TaskState} (v : Nat) (key : SlabKey)
    (hexpected : expected = .sleeping ∨ expected = .woken) :
    (w.ship v key (relocate expected)).Kept := by
  unfold CellWorld.ship
  cases hpolling : w.polling v with
  | some => exact h
  | none =>
    cases hcell : w.cell v key with
    | none => exact h
    | some slot =>
      cases hrelocate : slot.relocate expected with
      | none => simpa only [hrelocate] using h
      | some parts =>
        obtain ⟨body, husk⟩ := parts
        obtain ⟨hstate, rfl, rfl⟩ := relocate_eq_some hrelocate
        simp only [hrelocate]
        have hlife : slot.life = .future slot.copy := by
          rcases hexpected with rfl | rfl <;> simp [life, hstate]
        have hbody : slot.IsBody := by
          rcases hexpected with rfl | rfl <;> simp [TaskSlot.IsBody, hstate]
        have hwf : ∀ u, ((w.record slot [.moveFuture]).slabs u).WF := h.stocked.wf
        have hcell' : (w.record slot [.moveFuture]).cell v key = some slot := hcell
        obtain ⟨slab, heq, hslab, hcells⟩ := write_eq hwf hcell' (slot.setState .retired)
        rw [heq]
        refine ⟨⟨wf_setSlab hwf hslab, ?_⟩, ?_⟩
        · show Custody ((w.record slot [.moveFuture]).setSlab v slab).cell _ _ _
          rw [hcells]
          refine h.stocked.custody.ship hcell hbody ?_ rfl rfl rfl ?_ ?_
          · simp [TaskSlot.IsBody, setState]
          · show Life.of ((w.record slot [.moveFuture]).log slot.task) = _
            rw [record_log, Life.of_record (h.stocked.custody.lives v key slot hcell hbody), hlife]
            simp [Life.after, life, setState]
          · intro t ht
            exact record_log_of_ne ht
        · exact h.polled.put hcells rfl (by simp [hpolling])

theorem Kept.restocked {slab : Slab TaskSlot} (hwf : slab.WF)
    (hstored : slab.stored = (w.slabs v).stored) : (w.setSlab v slab).Kept := by
  have hcells : (w.setSlab v slab).cell = w.cell := by
    rw [cell_setSlab, hstored]
    exact update_eq_self v w.cell
  refine ⟨⟨wf_setSlab h.stocked.wf hwf, ?_⟩, ?_⟩
  · rw [hcells]
    exact h.stocked.custody
  · intro u k hu
    rw [hcells]
    exact h.polled u k hu

theorem Kept.reserve (v : Nat) : (w.reserve v).Kept := by
  unfold CellWorld.reserve
  cases hpolling : w.polling v with
  | some => exact h
  | none =>
    rcases Slab.reserve_shows (h.stocked.wf v) with hfull | ⟨key, slab, hok, -, -, hshows⟩
    · rw [hfull]
      exact h
    · rw [hok]
      exact h.restocked hshows.wf hshows.stored

theorem Kept.unreserved (v : Nat) (key : SlabKey) :
    (w.setSlab v ((w.slabs v).unreserve key).2).Kept := by
  rcases Slab.unreserve_shows (h.stocked.wf v) key with ⟨hmiss, -⟩ | ⟨slab, hok, -, hshows⟩
  · rw [hmiss]
    exact h.restocked (h.stocked.wf v) rfl
  · rw [hok]
    exact h.restocked hshows.wf hshows.stored

theorem Kept.unreserve (v : Nat) (key : SlabKey) : (w.unreserve v key).Kept := by
  unfold CellWorld.unreserve
  cases hpolling : w.polling v with
  | some => exact h
  | none => exact h.unreserved v key

theorem Kept.dropTransit (i : Nat) : (w.dropTransit i).Kept := by
  unfold CellWorld.dropTransit
  cases hi : w.transit[i]? with
  | none => exact h
  | some slot =>
    refine ⟨⟨h.stocked.wf, ?_⟩, h.polled⟩
    apply h.stocked.custody.discard hi
    · exact dropSlot_log_body (w := w) (h.stocked.custody.carries slot (List.mem_of_getElem? hi))
    · intro t ht
      exact record_log_of_ne (w := w) ht

theorem Kept.moveIn (i v : Nat) (dest : SlabKey) : (w.moveIn i v dest).Kept := by
  unfold CellWorld.moveIn
  cases hpolling : w.polling v with
  | some => exact h
  | none =>
    cases hi : w.transit[i]? with
    | none => exact h
    | some slot =>
      simp only
      rcases Slab.install_shows (h.stocked.wf v) dest slot with
        ⟨hmiss, -⟩ | ⟨slab, hok, -, hvacant, hshows⟩
      · rw [hmiss]
        have hdrop := h.dropTransit i
        rw [CellWorld.dropTransit, hi] at hdrop
        exact hdrop.unreserved v dest
      · rw [hok]
        have hcells : ({ w with transit := w.transit.eraseIdx i }.setSlab v slab).cell =
            putCell w.cell v dest (some slot) := cell_put hshows
        refine ⟨⟨wf_setSlab h.stocked.wf hshows.wf, ?_⟩, ?_⟩
        · rw [hcells]
          exact h.stocked.custody.install hi hvacant
        · exact h.polled.put hcells rfl (by simp [hpolling])

theorem Kept.reap (v : Nat) (key : SlabKey) : (w.reap v key).Kept := by
  unfold CellWorld.reap
  cases hpolling : w.polling v with
  | some => exact h
  | none =>
    cases hcell : w.cell v key with
    | none => exact h
    | some =>
      simp only
      split
      case isFalse => exact h
      case isTrue =>
        split
        case isFalse => exact h.put (h.stocked.removed hcell) (by simp [hpolling])
        case isTrue hretired =>
          obtain ⟨slab, hretire, hshows⟩ := Slab.retireSlot_shows (h.stocked.wf v) hcell
          rw [hretire]
          have hcells : (w.setSlab v slab).cell = putCell w.cell v key none := cell_put hshows
          refine ⟨⟨wf_setSlab h.stocked.wf hshows.wf, ?_⟩, ?_⟩
          · rw [hcells]
            exact h.stocked.custody.release hcell (fun hbody => absurd hretired hbody)
              (fun _ => rfl) (fun _ _ => rfl)
          · exact h.polled.put hcells rfl (by simp [hpolling])

theorem Kept.reportSettled (v index : Nat) : (w.reportSettled v index).Kept := by
  unfold CellWorld.reportSettled
  cases hpolling : w.polling v with
  | some => exact h
  | none =>
    rcases Slab.removeByIndex_shows (h.stocked.wf v) index with
      ⟨-, hget⟩ | ⟨g, slot, slab, hcell, hget, hremove, hshows⟩
    · rw [hget]
      exact h
    · rw [hget, hremove]
      simp only
      split
      case isFalse => exact h
      case isTrue => exact h.put (h.stocked.dropped hcell hshows) (by simp [hpolling])

end

theorem dropAll_frame (slots : List TaskSlot) (w : CellWorld) :
    (slots.foldl dropSlot w).slabs = w.slabs ∧ (slots.foldl dropSlot w).polling = w.polling ∧
      (slots.foldl dropSlot w).spawned = w.spawned ∧
      (slots.foldl dropSlot w).transit = w.transit := by
  induction slots generalizing w with
  | nil => exact ⟨rfl, rfl, rfl, rfl⟩
  | cons slot slots ih => exact ih (w.dropSlot slot)

theorem Custody.dropAll {cells : Nat → SlabKey → Option TaskSlot} {keys : List SlabKey}
    (hcells : ∀ k ∈ keys, (cells v k).isSome = true) (hnodup : keys.Nodup)
    (h : Custody cells w.transit w.spawned w.log) :
    Custody (update cells v fun key => if key ∈ keys then none else cells v key)
      ((keys.filterMap (cells v)).foldl dropSlot w).transit
      ((keys.filterMap (cells v)).foldl dropSlot w).spawned
      ((keys.filterMap (cells v)).foldl dropSlot w).log := by
  induction keys generalizing cells w with
  | nil => simpa using h
  | cons key keys ih =>
    obtain ⟨slot, hslot⟩ := Option.isSome_iff_exists.mp (hcells key List.mem_cons_self)
    obtain ⟨hnot, hnodup⟩ := List.nodup_cons.mp hnodup
    rw [List.filterMap_cons_some hslot, List.foldl_cons]
    have hdrop : Custody (putCell cells v key none) (w.dropSlot slot).transit
        (w.dropSlot slot).spawned (w.dropSlot slot).log := by
      apply h.release hslot
      · exact fun hbody => dropSlot_log_body (h.lives v key slot hslot hbody)
      · exact dropSlot_log_husk
      · exact fun t ht => record_log_of_ne ht
    have hrest : ∀ k ∈ keys, putCell cells v key none v k = cells v k := by
      intro k hk
      have hne : k ≠ key := fun heq => hnot (heq ▸ hk)
      simp [putCell, hne]
    have hnext := ih (fun k hk => by rw [hrest k hk]; exact hcells k (List.mem_cons_of_mem _ hk))
      hnodup hdrop
    have hmap : keys.filterMap (putCell cells v key none v) = keys.filterMap (cells v) :=
      List.filterMap_congr hrest
    rw [hmap] at hnext
    have htable : (update (putCell cells v key none) v fun k =>
        if k ∈ keys then none else putCell cells v key none v k) =
        update cells v fun k => if k ∈ key :: keys then none else cells v k := by
      funext u k
      by_cases hu : u = v
      · subst hu
        by_cases hk : k = key <;> simp [putCell, hk]
      · simp [putCell, hu]
    rwa [htable] at hnext

theorem dropSlab_eq (hpolling : w.polling v = none) :
    (w.dropSlab v).cell = update w.cell v (fun _ => none) ∧ (w.dropSlab v).polling = w.polling ∧
      (w.dropSlab v).spawned = w.spawned ∧ (w.dropSlab v).transit = w.transit := by
  obtain ⟨hslabs, hframe⟩ := dropAll_frame ((w.slabs v).keys.filterMap (w.cell v)) w
  simp only [CellWorld.dropSlab, hpolling]
  refine ⟨?_, hframe⟩
  rw [cell_setSlab, Slab.empty_shows.stored]
  congr 1
  funext u k
  rw [cell, hslabs]
  rfl

theorem Kept.dropSlab (h : w.Kept) (v : Nat) : (w.dropSlab v).Kept := by
  cases hpolling : w.polling v with
  | some =>
    simp only [CellWorld.dropSlab, hpolling]
    exact h
  | none =>
    obtain ⟨hcells, hsame, -, -⟩ := dropSlab_eq hpolling
    have hkeys : ∀ k ∈ (w.slabs v).keys, (w.cell v k).isSome = true :=
      fun k hk => (Slab.mem_keys (h.stocked.wf v)).mp hk
    have hdropped := Custody.dropAll hkeys (w.slabs v).keys_nodup h.stocked.custody
    obtain ⟨hslabs, -⟩ := dropAll_frame ((w.slabs v).keys.filterMap (w.cell v)) w
    have htable : (update w.cell v fun key =>
        if key ∈ (w.slabs v).keys then none else w.cell v key) =
        update w.cell v fun _ => none := by
      congr
      funext key
      split
      case isTrue => rfl
      case isFalse hkey =>
        rw [Slab.mem_keys (h.stocked.wf v)] at hkey
        exact Option.not_isSome_iff_eq_none.mp hkey
    rw [htable] at hdropped
    refine ⟨⟨?_, ?_⟩, ?_⟩
    · simp only [CellWorld.dropSlab, hpolling]
      exact wf_setSlab (by rw [hslabs]; exact h.stocked.wf) Slab.empty_shows.wf
    · rw [hcells]
      simp only [CellWorld.dropSlab, hpolling]
      exact hdropped
    · intro u k hu
      rw [hsame] at hu
      have hne : u ≠ v := by
        rintro rfl
        simp [hpolling] at hu
      rw [hcells, update_of_ne hne]
      exact h.polled u k hu

theorem Kept.step (h : w.Kept) (e : CellEvent) : (w.step e).Kept := by
  cases e with
  | spawn v pip => exact h.spawn v pip
  | wake v key => exact (Rewrite.wake w v key).kept h
  | startPoll v key => exact (Rewrite.startPoll w v key).kept h
  | endPoll v isReady => exact (Rewrite.endPoll h v isReady).kept h
  | unwindPoll v => exact h.unwindPoll v
  | cancelChild v child => exact (Rewrite.cancelChild w v child).kept h
  | joinChild v child => exact (Rewrite.joinChild w v child).kept h
  | takeRootOutput v key => exact h.takeRootOutput v key
  | moveOut v key => exact h.ship v key (.inl rfl)
  | moveOutWoken v key => exact h.ship v key (.inr rfl)
  | reserve v => exact h.reserve v
  | unreserve v key => exact h.unreserve v key
  | moveIn i v dest => exact h.moveIn i v dest
  | dropTransit i => exact h.dropTransit i
  | reap v key => exact h.reap v key
  | reportSettled v index => exact h.reportSettled v index
  | edit v key header => exact (Rewrite.edit h v key header).kept h
  | dropSlab v => exact h.dropSlab v

theorem init_shows (capacity : Nat → Nat) (v : Nat) :
    ((init capacity).slabs v).Shows (fun _ => none) (fun _ => false) := by
  simp only [init]
  split
  · next slab hnew => exact Slab.new_shows hnew
  · exact Slab.empty_shows

theorem init_cell (capacity : Nat → Nat) (v : Nat) (key : SlabKey) :
    (init capacity).cell v key = none := by
  rw [cell, (init_shows capacity v).stored]

theorem Kept.init (capacity : Nat → Nat) : (CellWorld.init capacity).Kept := by
  have hcells : (CellWorld.init capacity).cell = fun _ _ => none :=
    funext fun v => funext fun key => init_cell capacity v key
  refine ⟨⟨fun v => (init_shows capacity v).wf, ?_⟩, by simp [Polled, CellWorld.init]⟩
  rw [hcells]
  show Custody (fun _ _ => none) [] 0 fun _ => []
  constructor <;> simp

theorem Stocked.droppedOnce (h : w.Stocked) {task : Nat} (htask : task < w.spawned) :
    w.DroppedOnce task := by
  by_cases hholds : w.Holds task
  case neg =>
    have hgone : Life.of (w.log task) = some .gone := by
      apply h.custody.gone task htask
      · exact fun v key slot hcell hbody heq => hholds (.inl ⟨v, key, slot, hcell, heq, hbody⟩)
      · exact fun body hbody heq => hholds (.inr ⟨body, hbody, heq⟩)
    have hcounted := Life.counted hgone
    have hfuture := hcounted.future
    have houtput := hcounted.output
    simp only [Life.hasFuture, Life.hasOutput, Bool.false_eq_true, if_false, Nat.add_zero]
      at hfuture houtput
    exact ⟨by simp [hgone], by omega, by omega, hcounted.written, fun _ => by omega⟩
  case pos =>
    have hlife : ∃ life, Life.of (w.log task) = some life := by
      rcases hholds with ⟨v, key, slot, hcell, rfl, hbody⟩ | ⟨slot, hslot, rfl⟩
      · exact ⟨_, h.custody.lives v key slot hcell hbody⟩
      · exact ⟨_, h.custody.carries slot hslot⟩
    obtain ⟨life, hlife⟩ := hlife
    have hcounted := Life.counted hlife
    have hfuture := hcounted.future
    have houtput := hcounted.output
    exact ⟨by simp [hlife], by omega, by omega, hcounted.written, fun hnot => absurd hholds hnot⟩

theorem dropSlabs_eq (vs : List Nat) (hidle : ∀ v ∈ vs, w.polling v = none) :
    (run step w (vs.map .dropSlab)).transit = w.transit ∧
      ∀ v key slot, (run step w (vs.map .dropSlab)).cell v key = some slot →
        v ∉ vs ∧ w.cell v key = some slot := by
  induction vs generalizing w with
  | nil => simp
  | cons u vs ih =>
    obtain ⟨hcells, hsame, -, htransit⟩ := dropSlab_eq (hidle u List.mem_cons_self)
    obtain ⟨htransit', hcells'⟩ := ih (w := w.dropSlab u) fun v hv =>
      hsame ▸ hidle v (List.mem_cons_of_mem _ hv)
    refine ⟨htransit'.trans htransit, fun v key slot hslot => ?_⟩
    obtain ⟨hnot, hslot⟩ := hcells' v key slot hslot
    rw [hcells] at hslot
    by_cases hv : v = u
    · subst hv
      simp at hslot
    · rw [update_of_ne hv] at hslot
      exact ⟨by simp [hv, hnot], hslot⟩

/-- Every future and every output that any number of workers hold is dropped once, and after the
slabs of some workers are dropped only the other workers and the transports hold any. -/
theorem future_and_output_dropped_once (capacity : Nat → Nat) (es : List CellEvent) :
    let w := run step (init capacity) es
    (∀ task < w.spawned, w.DroppedOnce task) ∧
      ∀ vs : List Nat, (∀ v ∈ vs, w.polling v = none) → ∀ task,
        (run step w (vs.map .dropSlab)).Holds task →
        (∃ v key, v ∉ vs ∧ (w.cell v key).isSome = true) ∨ ∃ slot ∈ w.transit, slot.task = task := by
  intro w
  have hstep : ∀ (w : CellWorld) e, w.Kept → (w.step e).Kept :=
    fun w e hw => hw.step e
  have hkept : w.Kept := run_invariant hstep (Kept.init capacity) es
  refine ⟨fun task htask => hkept.stocked.droppedOnce htask, fun vs hidle task => ?_⟩
  obtain ⟨htransit, hcells⟩ := dropSlabs_eq vs hidle
  rintro (⟨v, key, slot, hslot, -⟩ | ⟨slot, hslot, htask⟩)
  · obtain ⟨hnot, hslot⟩ := hcells v key slot hslot
    exact .inl ⟨v, key, hnot, by simp [hslot]⟩
  · exact .inr ⟨slot, htransit ▸ hslot, htask⟩

/-- A task polled on one worker and relocated to another, which completes and drops it. -/
theorem dropped_once_relocated :
    let w := run step (init fun _ => 4) [.spawn 0 ⟨0, 1⟩, .wake 0 ⟨0, 1⟩, .startPoll 0 ⟨0, 1⟩,
      .endPoll 0 false, .reserve 1, .moveOut 0 ⟨0, 1⟩, .moveIn 0 1 ⟨0, 1⟩, .wake 1 ⟨0, 1⟩,
      .startPoll 1 ⟨0, 1⟩, .endPoll 1 true, .reportSettled 1 0]
    w.log 0 = [(0, .poll), (0, .moveFuture), (1, .poll), (1, .write), (1, .dropFuture),
      (1, .dropOutput)] ∧ w.DroppedOnce 0 ∧
      ((run step w [.dropSlab 0, .dropSlab 1]).Holds 0 →
        (∃ v key, v ∉ [0, 1] ∧ (w.cell v key).isSome = true) ∨ ∃ slot ∈ w.transit, slot.task = 0) :=
  ⟨by decide, (future_and_output_dropped_once _ _).1 0 (by decide),
    (future_and_output_dropped_once _ _).2 [0, 1] (by decide) 0⟩

/-- No two workers poll one task, and none polls a task that is in transit. -/
theorem one_poller_per_task (capacity : Nat → Nat) (es : List CellEvent) (task : Nat) :
    let w := run step (init capacity) es
    let polls := fun v => ∃ key slot, w.polling v = some key ∧ w.cell v key = some slot ∧ slot.task = task
    (∀ u v, polls u → polls v → u = v) ∧ ∀ v, polls v → ∀ body ∈ w.transit, body.task ≠ task := by
  intro w polls
  have h : w.Kept := run_invariant (fun (w : CellWorld) e (hw : w.Kept) => hw.step e)
    (Kept.init capacity) es
  have hbody : ∀ {v key slot}, w.polling v = some key → w.cell v key = some slot → slot.IsBody := by
    intro v key slot hkey hslot
    obtain ⟨_, hrunning, hstate⟩ := h.polled v key hkey
    cases hslot.symm.trans hrunning
    simp [TaskSlot.IsBody, hstate]
  constructor
  · rintro u v ⟨_, _, hu, hslot, rfl⟩ ⟨_, _, hv, hslot', htask⟩
    exact (h.stocked.custody.sole _ _ _ _ _ _ hslot hslot' (hbody hu hslot)
      (hbody hv hslot') htask.symm).1
  · rintro v ⟨key, slot, hv, hslot, rfl⟩
    exact h.stocked.custody.apart v key slot hslot (hbody hv hslot)

end CellWorld

end Kwokka
