import Kwokka.CrewFamily

/-! What each step of a worker does to the table of its task slab, with everything it
leaves alone spelled out. -/

namespace Kwokka

open LinkedChain Function TaskHeader StealShard

namespace StealShard

variable {shard : StealShard} {key : SlabKey} {header : TaskHeader} {ref : TaskRef}

theorem new_shows (id taskCapacity : Nat) :
    (new id taskCapacity).tasks.Shows (fun _ => none) (fun _ => false) := by
  unfold new
  dsimp only
  split
  case h_1 tasks hnew => exact Slab.new_shows hnew
  case h_2 => exact Slab.empty_shows

section

variable (hwf : shard.tasks.WF)

include hwf

theorem modify_eq (hkey : shard.header key = some header)
    (f : TaskHeader → TaskHeader) : ∃ tasks, shard.modify key f = { shard with tasks } ∧
      tasks.Shows (update shard.tasks.stored key (some (f header)))
        shard.tasks.isReserved := by
  obtain ⟨tasks, hget, hshows⟩ := Slab.getMut_shows hwf hkey f
  refine ⟨tasks, ?_, hshows⟩
  unfold modify Shard.modify
  rw [hget]

theorem wakeLocal_eq (ref : TaskRef) (hkey : shard.header ref.key = some header)
    (hsleeping : header.state = .sleeping) : ∃ tasks,
      shard.wakeLocal ref = { shard with tasks, runQueue := shard.runQueue ++ [ref] } ∧
      tasks.Shows (update shard.tasks.stored ref.key
        (some { header with state := .woken })) shard.tasks.isReserved := by
  obtain ⟨tasks, hmodify, hshows⟩ := modify_eq hwf hkey fun header => { header with state := .woken }
  refine ⟨tasks, ?_, hshows⟩
  have hwake : header.state.wake = .ok .woken := TaskState.wake_eq_ok.mpr ⟨hsleeping, rfl⟩
  have hshard : (shard.toShard.setState ref.key .woken) = { shard.toShard with tasks } :=
    congrArg toShard hmodify
  unfold wakeLocal Shard.wakeLocal
  simp only [hkey, hwake, hshard, Shard.enqueue]

theorem wakeLocal_cases (ref : TaskRef) : shard.wakeLocal ref = shard ∨
    ∃ header tasks, shard.header ref.key = some header ∧ header.state = .sleeping ∧
      shard.wakeLocal ref = { shard with tasks, runQueue := shard.runQueue ++ [ref] } ∧
      tasks.Shows (update shard.tasks.stored ref.key
        (some { header with state := .woken })) shard.tasks.isReserved := by
  by_cases hsleeping : ∃ header, shard.header ref.key = some header ∧ header.state = .sleeping
  · obtain ⟨header, hkey, hstate⟩ := hsleeping
    obtain ⟨tasks, heq, hshows⟩ := wakeLocal_eq hwf ref hkey hstate
    exact .inr ⟨header, tasks, hkey, hstate, heq, hshows⟩
  · refine .inl (wakeLocal_of_awake fun header hkey hstate => hsleeping ⟨header, hkey, hstate⟩)

theorem markSettled_cases (key : SlabKey) : shard.markSettled key = shard ∨
    ∃ header tasks, shard.header key = some header ∧ header.state = .retired ∧
      shard.markSettled key = { shard with tasks } ∧
      tasks.Shows (update shard.tasks.stored key
        (some { header with isRemoteSettled := true })) shard.tasks.isReserved := by
  unfold markSettled
  cases hkey : shard.toShard.header key with
  | none => exact .inl rfl
  | some header =>
    simp only
    split
    case isFalse => exact .inl rfl
    case isTrue hretired =>
      obtain ⟨tasks, heq, hshows⟩ := modify_eq hwf hkey fun header =>
        { header with isRemoteSettled := true }
      exact .inr ⟨header, tasks, rfl, hretired, heq, hshows⟩

theorem finishPoll_eq (hkey : shard.header ref.key = some header)
    (hrunning : header.state = .running) (isReady : Bool) (submitted : Nat) : ∃ tasks,
      shard.toShard.finishPoll ref isReady submitted = { shard.toShard with tasks } ∧
      tasks.Shows (update shard.tasks.stored ref.key
        (some ({ header with
          state := if isReady then .done else .sleeping }.landSubmitted submitted)))
        shard.tasks.isReserved := by
  have hafter : header.state.after (if isReady then TaskState.complete else TaskState.suspend) =
      if isReady then .done else .sleeping := by
    rw [hrunning]
    cases isReady <;> rfl
  obtain ⟨tasks, hmodify, hshows⟩ := modify_eq hwf hkey fun header =>
    { header with
      state := header.state.after (if isReady then TaskState.complete else TaskState.suspend)
    }.landSubmitted submitted
  rw [hafter] at hshows
  refine ⟨tasks, ?_, hshows⟩
  have hoverdue : Shard.pollOutcome isReady header.state ≠ .rescheduled := by
    rw [hrunning]
    cases isReady <;> decide
  unfold Shard.finishPoll
  simp only [hkey, if_neg hoverdue]
  exact congrArg toShard hmodify

theorem release_eq (hkey : shard.header key = some header) : ∃ tasks,
    shard.release key = { shard with tasks } ∧
      tasks.Shows (update shard.tasks.stored key none) shard.tasks.isReserved := by
  unfold release
  simp only [hkey]
  split
  case isTrue =>
    obtain ⟨tasks, hretire, hshows⟩ := Slab.retireSlot_shows hwf hkey
    rw [hretire]
    exact ⟨tasks, rfl, hshows⟩
  case isFalse =>
    obtain ⟨tasks, hremove, hshows⟩ := Slab.remove_shows hwf hkey
    rw [hremove]
    exact ⟨tasks, rfl, hshows⟩

end

section Steal

theorem steal_eq_some {state : TaskState} {task : StolenTask} (h : shard.steal state key = some task) :
    ∃ header, shard.header key = some header ∧ shard.isCandidate state key header = true ∧
      task = ⟨{ header with state := .sleeping }, key⟩ := by
  obtain ⟨header, hkey, hsteal⟩ := Option.bind_eq_some_iff.mp h
  refine ⟨header, hkey, ?_⟩
  split at hsteal
  case isFalse => cases hsteal
  case isTrue hcandidate =>
    refine ⟨hcandidate, ?_⟩
    unfold moveOut at hsteal
    split at hsteal
    · cases hsteal
    split at hsteal
    · exact (Option.some.inj hsteal).symm
    · cases hsteal

theorem stealSleeping_eq_some {task : StolenTask} (h : shard.stealSleeping = some task) :
    ∃ key header, shard.header key = some header ∧ shard.isCandidate .sleeping key header = true ∧
      task = ⟨{ header with state := .sleeping }, key⟩ := by
  obtain ⟨key, -, hsteal⟩ := List.exists_of_findSome?_eq_some h
  exact ⟨key, steal_eq_some hsteal⟩

theorem stealWoken_eq (fuel : Nat) (shard : StealShard) : ∃ queue,
    (shard.stealWoken fuel).2 = { shard with runQueue := queue } ∧
      (∀ ref ∈ queue, ref ∈ shard.runQueue) ∧
      (∀ task, (shard.stealWoken fuel).1 = some task → ∃ key header,
        shard.header key = some header ∧ shard.isCandidate .woken key header = true ∧
        task = ⟨{ header with state := .sleeping }, key⟩) ∧
      ∀ ref ∈ shard.runQueue, (shard.header ref.key).isSome = true →
        (∀ task, (shard.stealWoken fuel).1 = some task → task.victimKey ≠ ref.key) → ref ∈ queue := by
  induction fuel generalizing shard with
  | zero => exact ⟨shard.runQueue, rfl, fun _ href => href, fun _ h => (by cases h),
    fun _ href _ _ => href⟩
  | succ fuel ih =>
    cases hqueue : shard.runQueue with
    | nil =>
      refine ⟨[], ?_, fun _ href => (by cases href), ?_, fun _ href => (by cases href)⟩
      · simp only [stealWoken, hqueue]
        rw [← hqueue]
      · intro task htask
        simp only [stealWoken, hqueue] at htask
        cases htask
    | cons first rest =>
      cases hsteal : ({ shard with runQueue := rest } : StealShard).steal .woken first.key with
      | some task =>
        have heq : shard.stealWoken (fuel + 1) = (some task, { shard with runQueue := rest }) := by
          simp only [stealWoken, hqueue, hsteal]
        rw [heq]
        obtain ⟨header, hkey, hcandidate, rfl⟩ := steal_eq_some hsteal
        refine ⟨rest, rfl, fun ref href => List.mem_cons_of_mem _ href, ?_, ?_⟩
        · intro other hother
          cases hother
          exact ⟨first.key, header, hkey, hcandidate, rfl⟩
        · intro ref href _ hother
          rcases List.mem_cons.mp href with rfl | hrest
          · exact absurd rfl (hother _ rfl)
          · exact hrest
      | none =>
        by_cases hsome : (({ shard with runQueue := rest } : StealShard).header first.key).isSome = true
        · have heq : shard.stealWoken (fuel + 1) =
              stealWoken { shard with runQueue := rest ++ [first] } fuel := by
            simp only [stealWoken, hqueue, hsteal, if_pos hsome]
          rw [heq]
          obtain ⟨queue, hresult, hsub, htask, hkeep⟩ := ih { shard with runQueue := rest ++ [first] }
          refine ⟨queue, hresult, ?_, htask, ?_⟩
          · intro ref href
            have hmem := hsub ref href
            simp only [List.mem_append, List.mem_singleton] at hmem
            rw [List.mem_cons]
            tauto
          · intro ref href hstored hother
            apply hkeep ref _ hstored hother
            rcases List.mem_cons.mp href with rfl | hrest
            · simp
            · exact List.mem_append_left _ hrest
        · have heq : shard.stealWoken (fuel + 1) = stealWoken { shard with runQueue := rest } fuel := by
            simp only [stealWoken, hqueue, hsteal, if_neg hsome]
          rw [heq]
          obtain ⟨queue, hresult, hsub, htask, hkeep⟩ := ih { shard with runQueue := rest }
          refine ⟨queue, hresult, fun ref href => List.mem_cons_of_mem _ (hsub ref href), htask, ?_⟩
          intro ref href hstored hother
          rcases List.mem_cons.mp href with rfl | hrest
          · exact absurd hstored hsome
          · exact hkeep ref hrest hstored hother

structure Turned (shard : StealShard) (queue : List TaskRef) (taken : Option SlabKey) : Prop where
  sub : ∀ ref ∈ queue, ref ∈ shard.runQueue
  keep : ∀ ref ∈ shard.runQueue, (shard.header ref.key).isSome = true → taken ≠ some ref.key →
    ref ∈ queue

theorem retire_eq (hwf : shard.tasks.WF) (hkey : shard.header key = some header) (cell : TaskHeader)
    (dest : TaskRef) : ∃ tasks, shard.retire ⟨cell, key⟩ dest =
      { shard with
        tasks
        forward := update shard.forward key.index (some ⟨key.generation, dest⟩) } ∧
      tasks.Shows (update shard.tasks.stored key (some { header with state := .retired }))
        shard.tasks.isReserved := by
  obtain ⟨tasks, heq, hshows⟩ := modify_eq hwf hkey fun header => { header with state := .retired }
  refine ⟨tasks, ?_, hshows⟩
  unfold retire
  simp only [heq, record]

theorem serveSteal_cases (hwf : shard.tasks.WF) (request : StealRequest) :
    (∃ queue, shard.serveSteal request = (.declined request.dest, { shard with runQueue := queue }) ∧
      shard.Turned queue none) ∨
    ∃ key header state tasks queue, (state = .sleeping ∨ state = .woken) ∧
      shard.header key = some header ∧ shard.isCandidate state key header = true ∧
      shard.serveSteal request =
        (.delivered request.dest shard.id ⟨{ header with state := .sleeping }, key⟩,
          { shard with
            runQueue := queue
            tasks
            forward := update shard.forward key.index (some ⟨key.generation, request.dest⟩) }) ∧
      tasks.Shows (update shard.tasks.stored key (some { header with state := .retired }))
        shard.tasks.isReserved ∧
      shard.Turned queue (some key) := by
  cases hsleeping : shard.stealSleeping with
  | some =>
    obtain ⟨key, header, hkey, hcandidate, rfl⟩ := stealSleeping_eq_some hsleeping
    obtain ⟨tasks, heq, hshows⟩ := retire_eq hwf hkey { header with state := .sleeping } request.dest
    refine .inr ⟨key, header, .sleeping, tasks, shard.runQueue, .inl rfl, hkey, hcandidate, ?_, hshows,
      fun _ href => href, fun _ href _ _ => href⟩
    simp only [serveSteal, hsleeping, heq]
  | none =>
    obtain ⟨queue, hresult, hsub, htask, hkeep⟩ := stealWoken_eq shard.runQueue.length shard
    cases hwoken : shard.stealWoken shard.runQueue.length with
    | mk taken popped =>
      rw [hwoken] at hresult htask hkeep
      dsimp only at hresult htask hkeep
      cases taken with
      | none =>
        refine .inl ⟨queue, ?_, hsub, fun ref href hsome _ => hkeep ref href hsome (by simp)⟩
        simp only [serveSteal, hsleeping, hwoken]
        rw [← hresult]
      | some task =>
        obtain ⟨key, header, hkey, hcandidate, rfl⟩ := htask task rfl
        have hwf' : popped.tasks.WF := by
          rw [hresult]
          exact hwf
        have hkey' : popped.header key = some header := by
          rw [hresult]
          exact hkey
        obtain ⟨tasks, heq, hshows⟩ :=
          retire_eq hwf' hkey' { header with state := .sleeping } request.dest
        have hpopped : popped.tasks = shard.tasks := by rw [hresult]
        rw [hpopped] at hshows
        refine .inr ⟨key, header, .woken, tasks, queue, .inr rfl, hkey, hcandidate, ?_, hshows, hsub, ?_⟩
        · simp only [serveSteal, hsleeping, hwoken, heq]
          rw [hresult]
        · intro ref href hsome hne
          apply hkeep ref href hsome
          intro other hother
          cases hother
          exact fun heq => hne (congrArg some heq)

end Steal

section Thief

theorem stored_of_reserved (hwf : shard.tasks.WF) (hreserved : shard.tasks.isReserved key = true)
    (g : Generation) : shard.tasks.stored ⟨key.index, g⟩ = none := by
  by_contra hne
  obtain ⟨header, hsome⟩ := Option.ne_none_iff_exists'.mp hne
  have hnot := Slab.not_isReserved hwf hsome key.generation
  simp only at hnot
  rw [hreserved] at hnot
  cases hnot

theorem unreserve_eq (hwf : shard.tasks.WF) (key : SlabKey) : ∃ tasks,
    shard.unreserve key = { shard with tasks } ∧
      tasks.Shows shard.tasks.stored (update shard.tasks.isReserved key false) := by
  rcases Slab.unreserve_shows hwf key with ⟨hmiss, hfalse⟩ | ⟨tasks, hok, -, hshows⟩
  · refine ⟨shard.tasks, ?_, hwf, rfl, ?_⟩
    · rw [unreserve, hmiss]
    · exact (update_eq_self_iff.mpr hfalse.symm).symm
  · refine ⟨tasks, ?_, hshows⟩
    rw [unreserve, hok]

theorem receiveHandoff_delivered (hwf : shard.tasks.WF) (dest : TaskRef) (victimId : Nat)
    (task : StolenTask) :
    (shard.tasks.isReserved dest.key = true ∧ ∃ tasks,
      shard.receiveHandoff (.delivered dest victimId task) = (some dest,
        { shard with
          tasks
          origins := update shard.origins dest.key.index (some ⟨victimId, task.victimKey⟩) }) ∧
      tasks.Shows (update shard.tasks.stored dest.key (some task.cell))
        (update shard.tasks.isReserved dest.key false)) ∨
    (shard.tasks.isReserved dest.key = false ∧
      shard.receiveHandoff (.delivered dest victimId task) = (none, shard.unreserve dest.key)) := by
  rcases Slab.install_shows hwf dest.key task.cell with ⟨hmiss, hfalse⟩ | ⟨tasks, hok, htrue, -, hshows⟩
  · right
    refine ⟨hfalse, ?_⟩
    simp only [receiveHandoff, hmiss]
  · left
    refine ⟨htrue, tasks, ?_, hshows⟩
    simp only [receiveHandoff, hok]

theorem releaseResident_cases (hwf : shard.tasks.WF) (index : Nat)
    (hsettled : shard.isResidentSettled index = true) : ∃ g header tasks,
      shard.header ⟨index, g⟩ = some header ∧ header.state.isSettled = true ∧
      shard.tasks.getByIndex index = some header ∧
      shard.releaseResident index =
        { shard with tasks, origins := update shard.origins index none } ∧
      tasks.Shows (update shard.tasks.stored ⟨index, g⟩ none) shard.tasks.isReserved := by
  rcases Slab.removeByIndex_shows hwf index with
    ⟨-, hget⟩ | ⟨g, header, tasks, hcell, hget, hremove, hshows⟩
  · simp [isResidentSettled, hget] at hsettled
  · refine ⟨g, header, tasks, hcell, ?_, hget, ?_, hshows⟩
    · simpa [isResidentSettled, hget] using hsettled
    · rw [releaseResident, hremove]
      rfl

theorem prepareSteal_cases (hwf : shard.tasks.WF) : shard.prepareSteal = none ∨
    ∃ key tasks, shard.prepareSteal = some (⟨shard.id, ⟨shard.id, key⟩⟩, { shard with tasks }) ∧
      (∀ g, shard.tasks.stored ⟨key.index, g⟩ = none) ∧
      (∀ g, shard.tasks.isReserved ⟨key.index, g⟩ = false) ∧
      tasks.Shows shard.tasks.stored (update shard.tasks.isReserved key true) := by
  unfold prepareSteal
  rcases Slab.reserve_shows hwf with hfull | ⟨key, tasks, hok, hvacant, hfree, hshows⟩
  · rw [hfull]
    exact .inl rfl
  · rw [hok]
    exact .inr ⟨key, tasks, rfl, hvacant, hfree, hshows⟩

end Thief

section Spawn

theorem spawnRoot_eq {shard' : StealShard} (hwf : shard.tasks.WF)
    (h : shard.spawnRoot = some (key, shard')) : ∃ tasks,
      shard' = { shard with
        tasks, pipSeq := shard.pipSeq + 1, runQueue := shard.runQueue ++ [⟨shard.id, key⟩] } ∧
      (∀ g, shard.tasks.stored ⟨key.index, g⟩ = none) ∧
      (∀ g, shard.tasks.isReserved ⟨key.index, g⟩ = false) ∧
      tasks.Shows (update shard.tasks.stored key
        (some { TaskHeader.new ⟨shard.id, shard.pipSeq⟩ with isPinned := true, state := .woken }))
        shard.tasks.isReserved := by
  unfold spawnRoot at h
  simp only at h
  rcases Slab.insert_shows hwf { TaskHeader.new ⟨shard.id, shard.pipSeq⟩ with isPinned := true } with
    hfull | ⟨key', inserted, hok, hvacant, hfree, hshows⟩
  · rw [hfull] at h
    cases h
  · rw [hok] at h
    cases h
    have hkey : ({ shard with tasks := inserted, pipSeq := shard.pipSeq + 1 } : StealShard).header key =
        some { TaskHeader.new ⟨shard.id, shard.pipSeq⟩ with isPinned := true } := by
      show inserted.stored key = _
      rw [hshows.stored, update_self]
    obtain ⟨tasks, heq, hwoken⟩ := wakeLocal_eq hshows.wf ⟨shard.id, key⟩ hkey rfl
    refine ⟨tasks, heq, hvacant, hfree, hwoken.wf, ?_, ?_⟩
    · rw [hwoken.stored]
      show update inserted.stored key _ = _
      rw [hshows.stored, update_idem]
    · rw [hwoken.reserved]
      exact hshows.reserved

theorem pushChild_eq (parent child : TaskRef) {c p : TaskHeader} (hwf : shard.tasks.WF)
    (hparent : shard.header parent.key = some p) (hchild : shard.header child.key = some c)
    (hne : parent.key ≠ child.key) : ∃ tasks, shard.pushChild parent child = { shard with tasks } ∧
      tasks.Shows (update (update shard.tasks.stored child.key
        (some { c with nextSibling := p.firstChild })) parent.key
        (some { p with firstChild := some child })) shard.tasks.isReserved := by
  obtain ⟨linked, hlink, hlinked⟩ := modify_eq hwf hchild fun c => { c with nextSibling := p.firstChild }
  have hparent' : ({ shard with tasks := linked } : StealShard).header parent.key = some p := by
    show linked.stored parent.key = _
    rw [hlinked.stored, update_of_ne hne]
    exact hparent
  obtain ⟨tasks, heq, hshows⟩ := modify_eq hlinked.wf hparent' fun p =>
    { p with firstChild := some child }
  refine ⟨tasks, ?_, hshows.wf, ?_, ?_⟩
  · unfold pushChild
    simp only [hparent, hchild, hlink, heq]
  · rw [hshows.stored]
    show update linked.stored parent.key _ = _
    rw [hlinked.stored]
  · rw [hshows.reserved]
    exact hlinked.reserved

theorem spawn_eq {shard' : StealShard} {parent : TaskRef} {p : TaskHeader} {isPinned : Bool}
    (hwf : shard.tasks.WF) (hparent : shard.header parent.key = some p)
    (h : shard.spawn parent isPinned = some shard') : ∃ key tasks,
      shard' = { shard with
        tasks, pipSeq := shard.pipSeq + 1, runQueue := shard.runQueue ++ [⟨shard.id, key⟩] } ∧
      (∀ g, shard.tasks.stored ⟨key.index, g⟩ = none) ∧
      (∀ g, shard.tasks.isReserved ⟨key.index, g⟩ = false) ∧
      tasks.Shows (update (update shard.tasks.stored key
        (some { TaskHeader.new ⟨shard.id, shard.pipSeq⟩ with
          isPinned, nextSibling := p.firstChild, state := .woken })) parent.key
        (some { p with firstChild := some ⟨shard.id, key⟩ })) shard.tasks.isReserved := by
  unfold spawn at h
  simp only at h
  rcases Slab.insert_shows hwf { TaskHeader.new ⟨shard.id, shard.pipSeq⟩ with isPinned } with
    hfull | ⟨key, inserted, hok, hvacant, hfree, hshows⟩
  · rw [hfull] at h
    cases h
  rw [hok] at h
  dsimp only at h
  have hne : parent.key ≠ key := by
    rintro rfl
    have hsome : shard.tasks.stored parent.key = some p := hparent
    rw [show parent.key = ⟨parent.key.index, parent.key.generation⟩ from rfl, hvacant] at hsome
    cases hsome
  have hchild : ({ shard with tasks := inserted, pipSeq := shard.pipSeq + 1 } : StealShard).header key =
      some { TaskHeader.new ⟨shard.id, shard.pipSeq⟩ with isPinned } := by
    show inserted.stored key = _
    rw [hshows.stored, update_self]
  have hparent' : ({ shard with tasks := inserted, pipSeq := shard.pipSeq + 1 } : StealShard).header
      parent.key = some p := by
    show inserted.stored parent.key = _
    rw [hshows.stored, update_of_ne hne]
    exact hparent
  obtain ⟨linked, hlink, hlinked⟩ := pushChild_eq parent ⟨shard.id, key⟩ hshows.wf hparent' hchild hne
  have hlinkedKey : ({ shard with tasks := linked, pipSeq := shard.pipSeq + 1 } : StealShard).header key =
      some { TaskHeader.new ⟨shard.id, shard.pipSeq⟩ with isPinned, nextSibling := p.firstChild } := by
    show linked.stored key = _
    rw [hlinked.stored, update_of_ne (Ne.symm hne), update_self]
  obtain ⟨tasks, heq, hwoken⟩ := wakeLocal_eq hlinked.wf ⟨shard.id, key⟩ hlinkedKey rfl
  refine ⟨key, tasks, ?_, hvacant, hfree, hwoken.wf, ?_, ?_⟩
  · rw [hlink] at h
    rw [← Option.some.inj h]
    exact heq
  · rw [hwoken.stored]
    show update linked.stored key _ = _
    rw [hlinked.stored]
    show update (update (update inserted.stored key _) _ _) key _ = _
    rw [hshows.stored]
    funext k
    by_cases hk : k = key
    · subst hk
      simp [Ne.symm hne]
    · by_cases hkp : k = parent.key
      · subst hkp
        simp [hk]
      · simp [hk, hkp]
  · rw [hwoken.reserved]
    exact hlinked.reserved.trans hshows.reserved

end Spawn

section Walk

theorem childrenFrom_eq {kids : List TaskRef} {first : Option TaskRef} (fuel : Nat)
    (hchain : Chain (sibling shard.tasks.stored) first kids)
    (hstored : ∀ ref ∈ kids, (shard.header ref.key).isSome = true) (hfuel : kids.length ≤ fuel) :
    shard.childrenFrom fuel first = kids := by
  induction kids generalizing fuel first with
  | nil =>
    obtain rfl : first = none := hchain
    cases fuel <;> rfl
  | cons ref kids ih =>
    obtain ⟨rfl, hrest⟩ := hchain
    cases fuel with
    | zero => simp at hfuel
    | succ fuel =>
      obtain ⟨header, hheader⟩ := Option.isSome_iff_exists.mp (hstored ref List.mem_cons_self)
      have hnext : sibling shard.tasks.stored ref = header.nextSibling := by
        have hcell : shard.tasks.stored ref.key = some header := hheader
        simp [sibling, hcell]
      rw [hnext] at hrest
      unfold childrenFrom
      simp only [hheader]
      rw [ih fuel hrest (fun r hr => hstored r (List.mem_cons_of_mem _ hr)) (by simpa using hfuel)]

theorem length_le_slots {v : Nat} {kids : List TaskRef} (hnodup : kids.Nodup)
    (hstored : ∀ ref ∈ kids, ref.workerId = v ∧ (shard.header ref.key).isSome = true) :
    kids.length ≤ shard.tasks.slots.length := by
  have hinj : ∀ ref ∈ kids, ∀ ref' ∈ kids, ref.key.index = ref'.key.index → ref = ref' := by
    intro ref href ref' href' heq
    obtain ⟨hv, hsome⟩ := hstored ref href
    obtain ⟨hv', hsome'⟩ := hstored ref' href'
    obtain ⟨header, hheader⟩ := Option.isSome_iff_exists.mp hsome
    obtain ⟨header', hheader'⟩ := Option.isSome_iff_exists.mp hsome'
    have hkey := (Slab.stored_inj hheader hheader' heq).1
    cases ref
    cases ref'
    simp_all
  have hmap : (kids.map fun ref => ref.key.index).Nodup := by
    refine (List.nodup_map_iff_inj_on hnodup).mpr ?_
    exact fun ref href ref' href' heq => hinj ref href ref' href' heq
  have hsub : (kids.map fun ref => ref.key.index) ⊆ List.range shard.tasks.slots.length := by
    intro i hi
    obtain ⟨ref, href, rfl⟩ := List.mem_map.mp hi
    obtain ⟨header, hheader⟩ := Option.isSome_iff_exists.mp (hstored ref href).2
    obtain ⟨slot, hslot, -⟩ := Slab.stored_eq_some.mp hheader
    rw [List.mem_range]
    exact (List.getElem?_eq_some_iff.mp hslot).1
  have hle := (List.subperm_of_subset hmap hsub).length_le
  simpa using hle

def kids (shard : StealShard) (key : SlabKey) : List TaskRef := shard.iterChildren ⟨shard.id, key⟩

theorem iterChildren_eq {v : Nat} {origins : Nat → Option Origin} {kids : SlabKey → List TaskRef}
    (h : Family v shard.tasks.stored origins kids) (parent : TaskRef) :
    shard.iterChildren parent = kids parent.key := by
  unfold iterChildren children
  cases hparent : shard.toShard.header parent.key with
  | none =>
    rw [h.bare parent.key hparent]
    cases hlen : shard.tasks.slots.length <;> rfl
  | some header =>
    refine childrenFrom_eq _ (h.chain parent.key header hparent) ?_ ?_
    · exact fun ref href => (h.child parent.key ref href).2.1
    · have hstored : ∀ ref ∈ kids parent.key,
          ref.workerId = v ∧ (shard.header ref.key).isSome = true := fun ref href =>
        ⟨(h.child parent.key ref href).1, (h.child parent.key ref href).2.1⟩
      exact length_le_slots (h.nodup parent.key) hstored

theorem kids_eq {v : Nat} {origins : Nat → Option Origin} {kids : SlabKey → List TaskRef}
    (h : Family v shard.tasks.stored origins kids) : shard.kids = kids :=
  funext fun key => iterChildren_eq h ⟨shard.id, key⟩

theorem locateAfter_eq {child : TaskRef} {xs ys : List TaskRef} (prev : TaskRef) (hnot : child ∉ xs) :
    locateAfter child prev (xs ++ child :: ys) = some (.afterPrev ((prev :: xs).getLast (by simp))) := by
  induction xs generalizing prev with
  | nil => simp [locateAfter]
  | cons x xs ih =>
    obtain ⟨hne, hrest⟩ : child ≠ x ∧ child ∉ xs := by simpa using hnot
    simp only [List.cons_append, locateAfter, if_neg (Ne.symm hne)]
    rw [ih x hrest]
    simp

theorem locate_eq {child : TaskRef} {xs ys : List TaskRef} (hnot : child ∉ xs) :
    locate child (xs ++ child :: ys) = some (match xs.getLast? with
      | none => .head
      | some prev => .afterPrev prev) := by
  cases xs with
  | nil => simp [locate]
  | cons x xs =>
    obtain ⟨hne, hrest⟩ : child ≠ x ∧ child ∉ xs := by simpa using hnot
    simp only [List.cons_append, locate, if_neg (Ne.symm hne)]
    rw [locateAfter_eq x hrest, List.getLast?_eq_some_getLast (List.cons_ne_nil x xs)]

theorem modify_map (hwf : shard.tasks.WF) (hkey : (shard.header key).isSome = true)
    (f : TaskHeader → TaskHeader) : ∃ tasks, shard.modify key f = { shard with tasks } ∧
      tasks.Shows (fun k => if k = key then (shard.tasks.stored k).map f else shard.tasks.stored k)
        shard.tasks.isReserved := by
  obtain ⟨header, hheader⟩ := Option.isSome_iff_exists.mp hkey
  obtain ⟨tasks, heq, hshows⟩ := modify_eq hwf hheader f
  refine ⟨tasks, heq, hshows.wf, ?_, hshows.reserved⟩
  rw [hshows.stored]
  funext k
  by_cases hk : k = key
  · subst hk
    have hcell : shard.tasks.stored k = some header := hheader
    simp [hcell]
  · simp [hk]

theorem modify_modify {q : SlabKey} (hwf : shard.tasks.WF) (hq : (shard.header q).isSome = true)
    (hkey : (shard.header key).isSome = true) (f g : TaskHeader → TaskHeader) : ∃ tasks,
      (shard.modify q f).modify key g = { shard with tasks } ∧ tasks.WF ∧
      tasks.isReserved = shard.tasks.isReserved ∧
      ∀ k, tasks.stored k = (shard.tasks.stored k).map fun header =>
        (if k = key then g else id) ((if k = q then f else id) header) := by
  obtain ⟨first, hfirst, hshows⟩ := modify_map hwf hq f
  have hkey' : (({ shard with tasks := first } : StealShard).header key).isSome = true := by
    show (first.stored key).isSome = true
    rw [hshows.stored]
    dsimp only
    split
    · rw [Option.isSome_map]
      exact hkey
    · exact hkey
  obtain ⟨tasks, hsecond, hshows'⟩ := modify_map hshows.wf hkey' g
  refine ⟨tasks, by rw [hfirst, hsecond], hshows'.wf, hshows'.reserved.trans hshows.reserved, ?_⟩
  intro k
  rw [hshows'.stored]
  show (if k = key then (first.stored k).map g else first.stored k) = _
  rw [hshows.stored]
  dsimp only
  split <;> split <;> simp [Function.comp_def]

end Walk

end StealShard

theorem TaskRef.ext_of {a b : TaskRef} (hworker : a.workerId = b.workerId) (hkey : a.key = b.key) :
    a = b := by
  cases a
  cases b
  simp_all

def TaskHeader.unlinked (header : TaskHeader) : TaskHeader :=
  { header with firstChild := none, nextSibling := none }

namespace StealShard

variable {shard : StealShard} {v : Nat} {kids : SlabKey → List TaskRef} {parent child : TaskRef}
  {xs ys : List TaskRef}

theorem removeChild_shape (hfamily : Family v shard.tasks.stored shard.origins kids)
    (hkids : kids parent.key = xs ++ child :: ys) {header : TaskHeader}
    (hheader : shard.header child.key = some header) : ∃ q f, (shard.header q).isSome = true ∧
      shard.removeChild parent child =
        (shard.modify q f).modify child.key (fun c => { c with nextSibling := none }) ∧
      ∀ k h, ((if k = q then f else id) h).unlinked = h.unlinked ∧
        ((if k = q then f else id) h).firstChild =
          (if k = parent.key ∧ xs = [] then header.nextSibling else h.firstChild) ∧
        ∀ ref, ref.workerId = v → ref.key = k → ((if k = q then f else id) h).nextSibling =
          if xs.getLast? = some ref then header.nextSibling else h.nextSibling := by
  have hnodup := hfamily.nodup parent.key
  rw [hkids] at hnodup
  have hnot : child ∉ xs := fun hmem =>
    (List.nodup_append.mp hnodup).2.2 child hmem child List.mem_cons_self rfl
  have hwalk : shard.iterChildren parent = xs ++ child :: ys :=
    (iterChildren_eq hfamily parent).trans hkids
  unfold removeChild
  rw [hwalk, locate_eq hnot]
  simp only [hheader]
  cases hlast : xs.getLast? with
  | none =>
    obtain rfl : xs = [] := List.getLast?_eq_none_iff.mp hlast
    refine ⟨parent.key, fun p => { p with firstChild := header.nextSibling }, ?_, rfl, fun k h => ?_⟩
    · by_contra hnone
      rw [Option.not_isSome_iff_eq_none] at hnone
      rw [hfamily.bare parent.key hnone] at hkids
      cases hkids
    · by_cases hk : k = parent.key <;> simp [hk, unlinked]
  | some prev =>
    have hprev : prev ∈ kids parent.key := by
      rw [hkids]
      exact List.mem_append_left _ (List.mem_of_getLast? hlast)
    have hxs : xs ≠ [] := by
      rintro rfl
      cases hlast
    obtain ⟨hworker, hsome, -⟩ := hfamily.child parent.key prev hprev
    refine ⟨prev.key, fun p => { p with nextSibling := header.nextSibling }, hsome, rfl, fun k h => ?_⟩
    have hsame : ∀ ref, ref.workerId = v → ref.key = k → (k = prev.key ↔ prev = ref) := by
      rintro ref hv rfl
      exact ⟨fun heq => TaskRef.ext_of (hworker.trans hv.symm) heq.symm, fun heq => by rw [heq]⟩
    by_cases hk : k = prev.key
    · refine ⟨by simp [hk, unlinked], by simp [hk, hxs], fun ref hv href => ?_⟩
      simp [hk, (hsame ref hv href).mp hk]
    · refine ⟨by simp [hk], by simp [hk, hxs], fun ref hv href => ?_⟩
      have hne : prev ≠ ref := fun heq => hk ((hsame ref hv href).mpr heq)
      simp [hk, hne]

theorem removeChild_eq (hwf : shard.tasks.WF)
    (hfamily : Family v shard.tasks.stored shard.origins kids)
    (hkids : kids parent.key = xs ++ child :: ys) : ∃ tasks,
      shard.removeChild parent child = { shard with tasks } ∧ tasks.WF ∧
      tasks.isReserved = shard.tasks.isReserved ∧
      (∀ k, (tasks.stored k).map unlinked =
        (shard.tasks.stored k).map unlinked) ∧
      Family v tasks.stored shard.origins (update kids parent.key (xs ++ ys)) := by
  have hmem : child ∈ kids parent.key := by
    rw [hkids]
    simp
  obtain ⟨hworker, hchild, -⟩ := hfamily.child parent.key child hmem
  obtain ⟨header, hheader⟩ := Option.isSome_iff_exists.mp hchild
  have hsibling : sibling shard.tasks.stored child = header.nextSibling := by
    simp [sibling, hheader]
  obtain ⟨q, f, hq, hshape, hf⟩ := removeChild_shape hfamily hkids hheader
  obtain ⟨tasks, heq, hwf', hreserved, hstored⟩ := modify_modify hwf hq hchild f
    (fun c => { c with nextSibling := none })
  refine ⟨tasks, hshape.trans heq, hwf', hreserved, fun k => ?_, hfamily.unlink hkids ?_ ?_ ?_⟩
  · rw [hstored, Option.map_map]
    congr 1
    funext h
    refine Eq.trans ?_ (hf k h).1
    simp only [Function.comp_apply]
    split <;> rfl
  · intro k
    rw [hstored, Option.isSome_map]
  · intro k h hk
    rw [hstored] at hk
    obtain ⟨old, hold, rfl⟩ := Option.map_eq_some_iff.mp hk
    rw [hsibling, hold]
    refine Eq.trans ?_ (hf k old).2.1
    split <;> rfl
  · intro ref hv hne
    have hkc : ref.key ≠ child.key := fun heq => hne (TaskRef.ext_of (hv.trans hworker.symm) heq)
    rw [hsibling, sibling, sibling, hstored]
    simp only [hkc, if_false, id]
    cases hcell : shard.tasks.stored ref.key with
    | some old => exact (hf ref.key old).2.2 ref hv rfl
    | none =>
      have hnot : xs.getLast? ≠ some ref := by
        intro hlast
        have hin : ref ∈ kids parent.key := by
          rw [hkids]
          exact List.mem_append_left _ (List.mem_of_getLast? hlast)
        have hsome := (hfamily.child parent.key ref hin).2.1
        rw [hcell] at hsome
        cases hsome
      simp [hnot]

theorem mem_of_update_nil {k key : SlabKey} {ref : TaskRef} (h : ref ∈ update kids key [] k) :
    ref ∈ kids k := by
  rw [update_apply] at h
  split at h
  · cases h
  · exact h

theorem isChildSettled_congr {shard' : StealShard} {ref : TaskRef}
    (h : (shard'.tasks.stored ref.key).map unlinked =
      (shard.tasks.stored ref.key).map unlinked) :
    shard'.isChildSettled ref = shard.isChildSettled ref := by
  have hany := congrArg (Option.any fun header => header.isSettled) h
  simp only [Option.any_map] at hany
  exact hany

theorem reapOne_eq (hwf : shard.tasks.WF)
    (hfamily : Family v shard.tasks.stored shard.origins kids)
    (hchild : shard.firstSettledChild parent = some child) :
    ∃ xs ys header tasks, kids parent.key = xs ++ child :: ys ∧
      (∀ ref ∈ xs, shard.isChildSettled ref = false) ∧
      shard.header child.key = some header ∧ header.isSettled = true ∧
      (shard.removeChild parent child).release child.key = { shard with tasks } ∧
      tasks.WF ∧ tasks.isReserved = shard.tasks.isReserved ∧ tasks.stored child.key = none ∧
      (∀ k, k ≠ child.key → (tasks.stored k).map unlinked =
        (shard.tasks.stored k).map unlinked) ∧
      Family v tasks.stored shard.origins
        (update (update kids parent.key (xs ++ ys)) child.key []) ∧
      ∀ k ref, ref ∈ update (update kids parent.key (xs ++ ys)) child.key [] k → ref ∈ kids k := by
  unfold firstSettledChild at hchild
  rw [iterChildren_eq hfamily parent] at hchild
  obtain ⟨hsettled, xs, ys, hkids, hbefore⟩ := List.find?_eq_some_iff_append.mp hchild
  have hmem : child ∈ kids parent.key := List.mem_of_find?_eq_some hchild
  obtain ⟨hworker, hstored, hnative⟩ := hfamily.child parent.key child hmem
  obtain ⟨header, hheader⟩ := Option.isSome_iff_exists.mp hstored
  obtain ⟨unlinked, hremove, hwf, hreserved, hkept, hunlinked⟩ := removeChild_eq hwf hfamily hkids
  obtain ⟨left, hleft⟩ : ∃ left, ({ shard with tasks := unlinked } : StealShard).header child.key =
      some left := by
    apply Option.isSome_iff_exists.mp
    have hsome := congrArg Option.isSome (hkept child.key)
    simp only [Option.isSome_map] at hsome
    exact hsome.trans hstored
  have hwf' : ({ shard with tasks := unlinked } : StealShard).tasks.WF := hwf
  obtain ⟨tasks, hrelease, hshows⟩ := release_eq hwf' hleft
  refine ⟨xs, ys, header, tasks, hkids, fun ref href => by simpa using hbefore ref href, hheader, ?_, ?_,
    hshows.wf, hshows.reserved.trans hreserved, ?_, ?_, ?_, ?_⟩
  · have hcell : shard.toShard.header child.key = some header := hheader
    simpa [isChildSettled, hcell] using hsettled
  · rw [hremove, hrelease]
  · rw [hshows.stored, update_self]
  · intro k hk
    rw [hshows.stored, update_of_ne hk]
    exact hkept k
  · have hnodup := hfamily.nodup parent.key
    rw [hkids] at hnodup
    have hnot : child ∉ xs ++ ys := (List.nodup_cons.mp (List.perm_middle.nodup_iff.mp hnodup)).1
    have hself : (⟨v, child.key⟩ : TaskRef) = child := TaskRef.ext_of hworker.symm rfl
    rw [hshows.stored]
    refine hunlinked.free ?_ hnative (fun i _ => rfl) ?_
    · intro k
      rw [hself, update_apply]
      split
      case isTrue => exact hnot
      case isFalse hk => exact fun hother => hk (hfamily.sole k parent.key child hother hmem)
    · intro k hindex hk
      obtain ⟨other, hother⟩ := Option.isSome_iff_exists.mp hk
      exact (Slab.stored_inj hother hleft hindex).1
  · intro k ref href
    have hin := mem_of_update_nil href
    rw [update_apply] at hin
    split at hin
    case isFalse => exact hin
    case isTrue hk =>
      rw [hk, hkids]
      exact ((List.sublist_cons_self child ys).append_left xs).subset hin

end StealShard

end Kwokka
