import Kwokka.CrewCore

/-! What holds of each worker of a crew at any time: its children lists are well formed, the
parents named in its inboxes are still stored, and the root is on no list. -/

namespace Kwokka

open Function

namespace StealShard

variable {shard shard' : StealShard} {v : Nat} {key : SlabKey} {header : TaskHeader}
  {kids : SlabKey → List TaskRef}

namespace Rewrites

theorem header_eq (h : shard.Rewrites shard') (hkey : shard.header key = some header) :
    ∃ header', shard'.header key = some header' ∧ header.Keeps header' := by
  have hcell := h.cell key
  rw [hkey] at hcell
  generalize hnew : shard'.header key = new at hcell
  cases hcell with
  | some hkeeps => exact ⟨_, rfl, hkeeps⟩

theorem isSome_eq (h : shard.Rewrites shard') (key : SlabKey) :
    (shard'.header key).isSome = (shard.header key).isSome := by
  have hcell := h.cell key
  generalize shard.header key = old at *
  generalize shard'.header key = new at *
  cases hcell <;> rfl

theorem family (h : shard.Rewrites shard') (hfamily : Family v shard.tasks.stored shard.origins kids) :
    Family v shard'.tasks.stored shard'.origins kids := by
  rw [h.origins]
  refine hfamily.congr fun k => ?_
  have hcell := h.cell k
  change Option.Rel _ (shard.tasks.stored k) (shard'.tasks.stored k) at hcell
  generalize shard.tasks.stored k = old at *
  generalize shard'.tasks.stored k = new at *
  cases hcell with
  | none => rfl
  | some hkeeps => simp [hkeeps.firstChild, hkeeps.nextSibling]

end Rewrites

theorem family_self (h : Family v shard.tasks.stored shard.origins kids) :
    Family v shard.tasks.stored shard.origins shard.kids := by
  rw [kids_eq h]
  exact h

theorem receive_cases {reply : HandoffMsg} {installed : Option TaskRef} (hwf : shard.tasks.WF)
    (hloose : reply.Loose) (hreceive : shard.receiveHandoff reply = (installed, shard')) :
    (installed = none ∧ ∃ tasks, shard' = { shard with tasks } ∧ tasks.Shows shard.tasks.stored
      (update shard.tasks.isReserved reply.dest.key false)) ∨
    ∃ dest victimId task tasks, reply = .delivered dest victimId task ∧
      shard.tasks.isReserved dest.key = true ∧ installed = some dest ∧
      shard'.wakeLocal dest = { shard with
        tasks
        runQueue := shard.runQueue ++ [dest]
        origins := update shard.origins dest.key.index (some ⟨victimId, task.victimKey⟩) } ∧
      tasks.Shows (update shard.tasks.stored dest.key (some { task.cell with state := .woken }))
        (update shard.tasks.isReserved dest.key false) := by
  have hwithdraw : ∀ dest : TaskRef, ∃ tasks, shard.unreserve dest.key = { shard with tasks } ∧
      tasks.Shows shard.tasks.stored (update shard.tasks.isReserved dest.key false) :=
    fun dest => unreserve_eq hwf dest.key
  cases reply with
  | declined dest =>
    cases hreceive
    exact .inl ⟨rfl, hwithdraw dest⟩
  | delivered dest victimId task =>
    rcases receiveHandoff_delivered hwf dest victimId task with
      ⟨hreserved, tasks, heq, hshows⟩ | ⟨-, heq⟩
    · rw [hreceive] at heq
      cases heq
      have hkey : ({ shard with
          tasks
          origins := update shard.origins dest.key.index
            (some ⟨victimId, task.victimKey⟩) } : StealShard).header dest.key = some task.cell := by
        show tasks.stored dest.key = _
        rw [hshows.stored, update_self]
      obtain ⟨woken, hwake, hwoken⟩ := wakeLocal_eq hshows.wf dest hkey hloose.2
      refine .inr ⟨dest, victimId, task, woken, rfl, hreserved, rfl, hwake, hwoken.wf, ?_, ?_⟩
      · rw [hwoken.stored]
        show update tasks.stored dest.key _ = _
        rw [hshows.stored, update_idem]
      · exact hwoken.reserved.trans hshows.reserved
    · rw [hreceive] at heq
      cases heq
      exact .inl ⟨rfl, hwithdraw dest⟩

end StealShard

structure Kin (v : Nat) (view : CrewView) : Prop where
  wf : view.shard.tasks.WF
  id : view.shard.id = v
  family : Family v view.shard.tasks.stored view.shard.origins view.shard.kids
  running : ∀ ref n, view.phase = .polling ref n →
    ∃ header, view.shard.header ref.key = some header ∧ header.state = .running
  spawns : ∀ ref ∈ view.shard.spawnInbox, (view.shard.header ref.key).isSome = true
  noSpawns : view.phase.holdsSpawns = true ∨ view.shard.spawnInbox = []
  noReaps : view.phase.holdsReaps = true ∨ view.shard.reapQueue = []
  root : ∀ key, view.root = some key → (view.shard.header key).isSome = true ∧
    view.shard.origins key.index = none ∧ ∀ k, ⟨v, key⟩ ∉ view.shard.kids k
  outside : view.phase = .outside → view.root = none

namespace Kin

open StealShard

variable {e : CrewEvent} {v : Nat} {view : CrewView} {shard : StealShard} {phase : CrewPhase}

theorem rewrite (h : Kin v view) (hrewrites : view.shard.Rewrites shard)
    (hrunning : ∀ ref n, phase = .polling ref n →
      ∃ header, shard.header ref.key = some header ∧ header.state = .running)
    (hspawns : phase.holdsSpawns = true ∨ shard.spawnInbox = [])
    (hreaps : phase.holdsReaps = true ∨ shard.reapQueue = [])
    (houtside : phase = .outside → view.phase = .outside) :
    Kin v { view with shard, phase } := by
  have hfamily := hrewrites.family h.family
  have hkids := kids_eq hfamily
  refine ⟨hrewrites.wf, hrewrites.id.trans h.id, family_self hfamily, hrunning, ?_, hspawns, hreaps, ?_,
    fun hphase => h.outside (houtside hphase)⟩
  · intro ref href
    rw [hrewrites.isSome_eq]
    rw [hrewrites.spawnInbox] at href
    exact h.spawns ref href
  · intro key hroot
    obtain ⟨hsome, horigin, hlone⟩ := h.root key hroot
    refine ⟨(hrewrites.isSome_eq key).trans hsome, ?_, ?_⟩
    · rw [hrewrites.origins]
      exact horigin
    · rw [hkids]
      exact hlone

theorem quiet (h : Kin v view) (hrewrites : view.shard.Rewrites shard)
    (hpasses : CrewPhase.Passes view.shard view.phase phase) : Kin v { view with shard, phase } := by
  refine h.rewrite hrewrites ?_ ?_ ?_ hpasses.outside
  · intro ref n hphase
    obtain ⟨header, hheader, hrunning⟩ := h.running ref n (hpasses.polling ref n hphase)
    obtain ⟨header', hheader', hkeeps⟩ := hrewrites.header_eq hheader
    exact ⟨header', hheader', hkeeps.running hrunning⟩
  · rw [hrewrites.spawnInbox]
    rcases h.noSpawns with hholds | hempty
    · exact hpasses.spawns hholds
    · exact .inr hempty
  · rw [hrewrites.reapQueue]
    rcases h.noReaps with hholds | hempty
    · exact hpasses.reaps hholds
    · exact .inr hempty

theorem record (h : Kin v view) (hwf : shard.tasks.WF)
    (hstored : shard.tasks.stored = view.shard.tasks.stored) (hid : shard.id = view.shard.id)
    (horigins : shard.origins = view.shard.origins)
    (hinbox : ∀ ref ∈ shard.spawnInbox, (view.shard.header ref.key).isSome = true)
    (hspawns : phase.holdsSpawns = true ∨ shard.spawnInbox = [])
    (hreaps : phase.holdsReaps = true ∨ shard.reapQueue = [])
    (hphase : phase = view.phase ∨ phase.isPolling = false ∧ phase.isOutside = false) :
    Kin v { view with shard, phase } := by
  have hfamily : Family v shard.tasks.stored shard.origins view.shard.kids := by
    rw [hstored, horigins]
    exact h.family
  have hheader : shard.header = view.shard.header := hstored
  refine ⟨hwf, hid.trans h.id, family_self hfamily, ?_, ?_, hspawns, hreaps, ?_, ?_⟩
  · rintro ref n rfl
    rcases hphase with hsame | ⟨⟨⟩, -⟩
    rw [hheader]
    exact h.running ref n hsame.symm
  · intro ref href
    rw [hheader]
    exact hinbox ref href
  · intro key hroot
    rw [kids_eq hfamily, hheader, horigins]
    exact h.root key hroot
  · rintro rfl
    rcases hphase with hsame | ⟨-, ⟨⟩⟩
    exact h.outside hsame.symm

theorem edit (h : Kin v view) {key : SlabKey} {header header' : TaskHeader}
    (hkey : view.shard.header key = some header)
    (htable : shard.tasks.Shows (update view.shard.tasks.stored key (some header'))
      view.shard.tasks.isReserved) (hfirst : header'.firstChild = header.firstChild)
    (hnext : header'.nextSibling = header.nextSibling) (hid : shard.id = view.shard.id)
    (horigins : shard.origins = view.shard.origins) (hinbox : shard.spawnInbox = view.shard.spawnInbox)
    (hspawns : phase.holdsSpawns = true ∨ shard.spawnInbox = [])
    (hreaps : phase.holdsReaps = true ∨ shard.reapQueue = [])
    (hpolling : phase.isPolling = false) (houtside : phase.isOutside = false) :
    Kin v { view with shard, phase } := by
  have hfamily : Family v shard.tasks.stored shard.origins view.shard.kids := by
    rw [htable.stored, horigins]
    exact h.family.edit hkey hfirst hnext
  have hsome : ∀ k, (shard.header k).isSome = (view.shard.header k).isSome := by
    intro k
    show (shard.tasks.stored k).isSome = _
    rw [htable.stored, update_apply]
    split
    case isTrue hk => rw [hk, hkey, Option.isSome_some, Option.isSome_some]
    case isFalse => rfl
  refine ⟨htable.wf, hid.trans h.id, family_self hfamily, (by rintro ref n rfl; cases hpolling), ?_,
    hspawns, hreaps, ?_, (by rintro rfl; cases houtside)⟩
  · intro ref href
    rw [hsome]
    rw [hinbox] at href
    exact h.spawns ref href
  · intro k hroot
    obtain ⟨hstored, horigin, hlone⟩ := h.root k hroot
    rw [kids_eq hfamily, hsome, horigins]
    exact ⟨hstored, horigin, hlone⟩

section Lists

theorem spawn_list (h : Kin v view) {isPinned : Bool} {parent : TaskRef} {rest : List TaskRef}
    (hinbox : view.shard.spawnInbox = parent :: rest)
    (hspawn : { view.shard with spawnInbox := rest }.spawn parent isPinned = some shard) :
    ∃ key p tasks, view.shard.header parent.key = some p ∧
      (∀ g, view.shard.tasks.stored ⟨key.index, g⟩ = none) ∧
      (∀ g, view.shard.tasks.isReserved ⟨key.index, g⟩ = false) ∧
      shard = { view.shard with
        tasks, spawnInbox := rest, pipSeq := view.shard.pipSeq + 1
        runQueue := view.shard.runQueue ++ [⟨v, key⟩] } ∧
      tasks.Shows (update (update view.shard.tasks.stored key
        (some { TaskHeader.new ⟨v, view.shard.pipSeq⟩ with
          isPinned, nextSibling := p.firstChild, state := .woken })) parent.key
        (some { p with firstChild := some ⟨v, key⟩ })) view.shard.tasks.isReserved ∧
      Family v shard.tasks.stored shard.origins
        (update view.shard.kids parent.key (⟨v, key⟩ :: view.shard.kids parent.key)) := by
  have hstored := h.spawns parent (by rw [hinbox]; exact List.mem_cons_self)
  obtain ⟨p, hp⟩ := Option.isSome_iff_exists.mp hstored
  have hwf : ({ view.shard with spawnInbox := rest } : StealShard).tasks.WF := h.wf
  obtain ⟨key, tasks, heq, hvacant, hfree, hshows⟩ := spawn_eq hwf hp hspawn
  rw [h.id] at heq hshows
  refine ⟨key, p, tasks, hp, hvacant, hfree, by simp only [heq, h.id], hshows, ?_⟩
  have hne : parent.key ≠ key := by
    rintro rfl
    have hsome : view.shard.tasks.stored ⟨parent.key.index, parent.key.generation⟩ = some p := hp
    rw [hvacant] at hsome
    cases hsome
  have hinsert : Family v (update view.shard.tasks.stored key
      (some { TaskHeader.new ⟨v, view.shard.pipSeq⟩ with isPinned, state := .woken }))
      view.shard.origins view.shard.kids := h.family.insert hvacant rfl (fun i _ => rfl)
  have hfresh : ∀ k, ⟨v, key⟩ ∉ view.shard.kids k := by
    intro k hmem
    have hsome := (h.family.child k _ hmem).2.1
    rw [show key = ⟨key.index, key.generation⟩ from rfl, hvacant] at hsome
    cases hsome
  have hlink := hinsert.link (update_self key _ _)
    ((update_of_ne hne _ _).trans hp) hne (h.family.origin_of_free hvacant) hfresh
  rw [update_idem] at hlink
  rw [heq, hshows.stored]
  exact hlink

theorem free_list (h : Kin v view) {key : SlabKey} {header : TaskHeader} {tasks : Slab TaskHeader}
    (origins : Nat → Option Origin) (hkey : view.shard.header key = some header)
    (hlone : ∀ k, ⟨v, key⟩ ∉ view.shard.kids k) (hnone : origins key.index = none)
    (horigins : ∀ i, i ≠ key.index → origins i = view.shard.origins i)
    (hshows : tasks.Shows (update view.shard.tasks.stored key none)
      view.shard.tasks.isReserved) :
    Family v tasks.stored origins (update view.shard.kids key []) := by
  rw [hshows.stored]
  refine h.family.free hlone hnone horigins ?_
  intro k hindex hk
  obtain ⟨other, hother⟩ := Option.isSome_iff_exists.mp hk
  exact (Slab.stored_inj hother hkey hindex).1

theorem lone_of_origin (h : Kin v view) {key : SlabKey} {origin : Origin}
    (horigin : view.shard.origins key.index = some origin) (k : SlabKey) :
    ⟨v, key⟩ ∉ view.shard.kids k := by
  intro hmem
  have hnone := (h.family.child k _ hmem).2.2
  rw [horigin] at hnone
  cases hnone

end Lists

theorem spawnInbox_eq (h : Kin v view) (hphase : view.phase.holdsSpawns = false) :
    view.shard.spawnInbox = [] := by
  rcases h.noSpawns with hholds | hempty
  · rw [hphase] at hholds
    cases hholds
  · exact hempty

theorem reapQueue_eq (h : Kin v view) (hphase : view.phase.holdsReaps = false) :
    view.shard.reapQueue = [] := by
  rcases h.noReaps with hholds | hempty
  · rw [hphase] at hholds
    cases hholds
  · exact hempty

theorem insert (h : Kin v view) {key : SlabKey} {header : TaskHeader} {root : Option SlabKey}
    (hvacant : ∀ g, view.shard.tasks.stored ⟨key.index, g⟩ = none) (hfirst : header.firstChild = none)
    (hwf : shard.tasks.WF)
    (hstored : shard.tasks.stored = update view.shard.tasks.stored key (some header))
    (hid : shard.id = view.shard.id)
    (horigins : ∀ i, i ≠ key.index → shard.origins i = view.shard.origins i)
    (hinbox : shard.spawnInbox = []) (hqueue : shard.reapQueue = [])
    (hpolling : phase.isPolling = false) (houtside : phase.isOutside = false)
    (hroot : root = view.root ∨ root = some key ∧ shard.origins key.index = none) :
    Kin v ⟨shard, phase, root⟩ := by
  have hfamily : Family v shard.tasks.stored shard.origins view.shard.kids := by
    rw [hstored]
    exact h.family.insert hvacant hfirst horigins
  have hother : ∀ k, (view.shard.header k).isSome = true → k.index ≠ key.index ∧ k ≠ key := by
    intro k hk
    have hindex : k.index ≠ key.index := by
      intro heq
      have hnone := hvacant k.generation
      rw [← heq] at hnone
      change view.shard.header k = none at hnone
      rw [hnone] at hk
      cases hk
    exact ⟨hindex, fun heq => hindex (by rw [heq])⟩
  have hfresh : ∀ k, ⟨v, key⟩ ∉ view.shard.kids k := by
    intro k hmem
    exact (hother key (h.family.child k _ hmem).2.1).2 rfl
  refine ⟨hwf, hid.trans h.id, family_self hfamily, (by rintro ref n rfl; cases hpolling), ?_, .inr
    hinbox, .inr hqueue, ?_, (by rintro rfl; cases houtside)⟩
  · intro ref href
    rw [hinbox] at href
    cases href
  · intro k hk
    rw [kids_eq hfamily]
    show (shard.tasks.stored k).isSome = true ∧ _
    rw [hstored]
    rcases hroot with rfl | ⟨rfl, hnone⟩
    · obtain ⟨hsome, horigin, hlone⟩ := h.root k hk
      obtain ⟨hindex, hne⟩ := hother k hsome
      rw [update_of_ne hne, horigins _ hindex]
      exact ⟨hsome, horigin, hlone⟩
    · cases hk
      exact ⟨by simp, hnone, hfresh⟩

theorem release (h : Kin v view) (key : SlabKey) {tasks : Slab TaskHeader} {origins : Nat → Option Origin}
    {root : Option SlabKey} {kids : SlabKey → List TaskRef} (hwf : tasks.WF)
    (hfamily : Family v tasks.stored origins kids)
    (hkept : ∀ k, k ≠ key → (tasks.stored k).isSome = (view.shard.tasks.stored k).isSome)
    (hkids : ∀ k ref, ref ∈ kids k → ref ∈ view.shard.kids k)
    (horigins : ∀ i, view.shard.origins i = none → origins i = none)
    (hinbox : view.shard.spawnInbox = []) (hreaps : phase.holdsReaps = true ∨ view.shard.reapQueue = [])
    (hpolling : phase.isPolling = false)
    (hroot : root = none ∨ root = view.root ∧ root ≠ some key ∧ phase.isOutside = false) :
    Kin v ⟨{ view.shard with tasks, origins }, phase, root⟩ := by
  refine ⟨hwf, h.id, family_self hfamily, (by rintro ref n rfl; cases hpolling), ?_, .inr hinbox,
    hreaps, ?_, ?_⟩
  · intro ref href
    change ref ∈ view.shard.spawnInbox at href
    rw [hinbox] at href
    cases href
  · intro k hk
    rcases hroot with rfl | ⟨rfl, hne, -⟩
    · cases hk
    · obtain ⟨hsome, horigin, hlone⟩ := h.root k hk
      refine ⟨?_, horigins _ horigin, ?_⟩
      · have hkey : k ≠ key := by
          rintro rfl
          exact hne hk
        exact (hkept k hkey).trans hsome
      · intro k' hmem
        have hwalk : ({ view.shard with tasks, origins } : StealShard).kids = kids := kids_eq hfamily
        rw [hwalk] at hmem
        exact hlone k' (hkids k' _ hmem)
  · rintro rfl
    rcases hroot with rfl | ⟨-, -, ⟨⟩⟩
    rfl

theorem parked (h : Kin v view) {hasWorked : Bool} (hphase : view.phase = .passed hasWorked)
    (hwf : shard.tasks.WF) (hstored : shard.tasks.stored = view.shard.tasks.stored)
    (hid : shard.id = view.shard.id) (horigins : shard.origins = view.shard.origins)
    (hinbox : shard.spawnInbox = view.shard.spawnInbox)
    (hqueue : shard.reapQueue = view.shard.reapQueue) : Kin v { view with shard, phase := .parking } := by
  have hnone := h.spawnInbox_eq (by rw [hphase]; rfl)
  have hempty := h.reapQueue_eq (by rw [hphase]; rfl)
  refine h.record hwf hstored hid horigins ?_ (.inr (hinbox.trans hnone)) (.inr (hqueue.trans hempty))
    (.inr ⟨rfl, rfl⟩)
  rw [hinbox]
  exact h.spawns

theorem act {desk desk' : CrewDesk} {log log' : CrewLog} {letter : Option (Nat × Letter)}
    (h : Kin v desk.toCrewView) (hloose : ∀ reply ∈ desk.handoffs, reply.Loose)
    (hact : CrewAct e v desk log desk' log' letter) : Kin v desk'.toCrewView := by
  cases hact with
  | quiet shard phase hrewrites hpasses => exact h.quiet hrewrites hpasses
  | start shard n hasWorked ref header hphase hrewrites hheader hrunning =>
    refine h.rewrite hrewrites ?_ (.inl rfl) (.inl rfl) (fun hout => by cases hout)
    intro ref' n' heq
    cases heq
    exact ⟨header, hheader, hrunning⟩
  | note key rest hphase =>
    rcases markSettled_cases h.wf key with heq | ⟨header, tasks, hkey, hretired, heq, hshows⟩
    · rw [heq]
      exact h
    · rw [heq]
      exact h.edit hkey hshows rfl rfl rfl rfl rfl h.noSpawns h.noReaps (by rw [hphase]; rfl)
        (by rw [hphase]; rfl)
  | pushSpawn ref n hphase =>
    obtain ⟨header, hheader, hrunning⟩ := h.running ref n hphase
    refine h.record h.wf rfl rfl rfl ?_ (.inl (by rw [hphase]; rfl)) h.noReaps (.inl rfl)
    intro ref' href
    rcases List.mem_append.mp href with hold | hnew
    · exact h.spawns ref' hold
    · rw [List.mem_singleton.mp hnew]
      exact Option.isSome_iff_exists.mpr ⟨header, hheader⟩
  | pollScope ref n hphase =>
    exact h.record h.wf rfl rfl rfl h.spawns h.noSpawns (.inl (by rw [hphase]; rfl)) (.inl rfl)
  | spawn hasWorked isPinned parent rest shard hphase hinbox hspawn =>
    obtain ⟨key, p, tasks, hp, hvacant, -, heq, hshows, hfamily⟩ := h.spawn_list hinbox hspawn
    have hkept : ∀ k, (desk.shard.header k).isSome = true →
        (shard.header k).isSome = true ∧ k ≠ key := by
      intro k hk
      have hne : k ≠ key := by
        rintro rfl
        change (desk.shard.tasks.stored ⟨k.index, k.generation⟩).isSome = true at hk
        rw [hvacant] at hk
        cases hk
      refine ⟨?_, hne⟩
      show (shard.tasks.stored k).isSome = true
      rw [heq, hshows.stored]
      by_cases hkp : k = parent.key
      · rw [hkp, update_self]
        rfl
      · rw [update_of_ne hkp, update_of_ne hne]
        exact hk
    refine ⟨?_, ?_, family_self hfamily, ?_, ?_, ?_, ?_, ?_, h.outside⟩
    · rw [heq]
      exact hshows.wf
    · rw [heq]
      exact h.id
    · intro ref n hpolling
      rw [hphase] at hpolling
      cases hpolling
    · intro ref href
      rw [heq] at href
      refine (hkept ref.key (h.spawns ref ?_)).1
      rw [hinbox]
      exact List.mem_cons_of_mem _ href
    · left
      rw [hphase]
      rfl
    · left
      rw [hphase]
      rfl
    · intro k hroot
      obtain ⟨hsome, horigin, hlone⟩ := h.root k hroot
      obtain ⟨hsome', hne⟩ := hkept k hsome
      refine ⟨hsome', ?_, ?_⟩
      · rw [heq]
        exact horigin
      · intro k' hmem
        rw [kids_eq hfamily] at hmem
        by_cases hk' : k' = parent.key
        · subst hk'
          rw [update_self] at hmem
          rcases List.mem_cons.mp hmem with hnew | hold
          · exact hne (congrArg TaskRef.key hnew)
          · exact hlone _ hold
        · rw [update_of_ne hk'] at hmem
          exact hlone k' hmem
  | skipReap hasWorked parent rest hphase =>
    exact h.record h.wf rfl rfl rfl h.spawns h.noSpawns (.inl (by rw [hphase]; rfl)) (.inl rfl)
  | serve request rest reply shard hphase hrequests hserve =>
    have hinbox := h.spawnInbox_eq (by rw [hphase]; rfl)
    have hqueue := h.reapQueue_eq (by rw [hphase]; rfl)
    rcases serveSteal_cases h.wf request with
      ⟨queue, heq, -⟩ | ⟨key, header, state, tasks, queue, -, hkey, -, heq, hshows, -⟩
    · rw [hserve] at heq
      cases heq
      exact h.record h.wf rfl rfl rfl h.spawns (.inr hinbox) (.inr hqueue) (.inr ⟨rfl, rfl⟩)
    · rw [hserve] at heq
      cases heq
      exact h.edit hkey hshows rfl rfl rfl rfl rfl (.inr hinbox) (.inr hqueue) rfl rfl
  | receive reply rest installed shard hphase hhandoffs hreceive =>
    have hinbox := h.spawnInbox_eq (by rw [hphase]; rfl)
    have hqueue := h.reapQueue_eq (by rw [hphase]; rfl)
    have hreply : reply.Loose := hloose reply (by rw [hhandoffs]; exact List.mem_cons_self)
    rcases receive_cases h.wf hreply hreceive with ⟨rfl, tasks, rfl, hshows⟩ |
      ⟨dest, victimId, task, tasks, rfl, hreserved, rfl, hwake, hshows⟩
    · exact h.record hshows.wf hshows.stored rfl rfl h.spawns h.noSpawns h.noReaps (.inl rfl)
    · simp only [Option.elim_some, hwake]
      refine h.insert (stored_of_reserved h.wf hreserved) ?_ hshows.wf hshows.stored rfl
        (fun i hi => update_of_ne hi _ _) hinbox hqueue (by rw [hphase]; rfl) (by rw [hphase]; rfl)
        (.inl rfl)
      exact hreply.1
  | finish ref n isReady submitted hevent hphase =>
    obtain ⟨header, hheader, hrunning⟩ := h.running ref n hphase
    obtain ⟨tasks, heq, hshows⟩ := finishPoll_eq h.wf hheader hrunning isReady submitted
    rw [heq]
    refine h.edit hheader hshows ?_ ?_ rfl rfl rfl (.inl rfl) (.inl rfl) rfl rfl
    · unfold TaskHeader.landSubmitted
      split <;> rfl
    · unfold TaskHeader.landSubmitted
      split <;> rfl
  | reap hasWorked parent child rest hphase hqueue hchild =>
    obtain ⟨xs, ys, header, tasks, hkids, -, hheader, -, heq, hwf, -, hgone, hkept, hfamily, hsub⟩ :=
      reapOne_eq h.wf h.family hchild
    have hmem : child ∈ desk.shard.kids parent.key := by
      rw [hkids]
      simp
    rw [heq]
    refine h.release child.key hwf hfamily ?_ hsub (fun i hi => hi)
      (h.spawnInbox_eq (by rw [hphase]; rfl)) (.inl (by rw [hphase]; rfl)) (by rw [hphase]; rfl)
      (.inr ⟨rfl, ?_, by rw [hphase]; rfl⟩)
    · intro k hk
      have hsome := congrArg Option.isSome (hkept k hk)
      simpa only [Option.isSome_map] using hsome
    · intro hroot
      have hworker := (h.family.child parent.key child hmem).1
      apply (h.root child.key hroot).2.2 parent.key
      rw [show (⟨v, child.key⟩ : TaskRef) = child from TaskRef.ext_of hworker.symm rfl]
      exact hmem
  | report index hasWorked origin hphase horigin hsettled =>
    obtain ⟨g, header, tasks, hheader, -, -, heq, hshows⟩ := releaseResident_cases h.wf index hsettled
    have hfamily := h.free_list (update desk.shard.origins index none) hheader
      (h.lone_of_origin horigin) (by simp) (fun i hi => update_of_ne hi _ _) hshows
    rw [heq]
    refine h.release ⟨index, g⟩ hshows.wf hfamily ?_ (fun _ _ => mem_of_update_nil) ?_
      (h.spawnInbox_eq (by rw [hphase]; rfl))
      (.inr (h.reapQueue_eq (by rw [hphase]; rfl))) rfl (.inr ⟨rfl, ?_, rfl⟩)
    · intro k hk
      rw [hshows.stored, update_of_ne hk]
    · intro i hi
      by_cases hindex : i = index
      · rw [hindex, update_self]
      · rwa [update_of_ne hindex]
    · intro hroot
      have hnone := (h.root _ hroot).2.1
      rw [horigin] at hnone
      cases hnone
  | reply thief reply hphase =>
    exact h.record h.wf rfl rfl rfl h.spawns (.inr (h.spawnInbox_eq (by rw [hphase]; rfl)))
      (.inr (h.reapQueue_eq (by rw [hphase]; rfl))) (.inr ⟨rfl, rfl⟩)
  | ask victim cursor key tasks hasWorked hphase hpending hvacant hfree hshows =>
    exact h.parked hphase hshows.wf hshows.stored rfl rfl rfl rfl
  | bounce cursor key tasks hasWorked hphase hpending hshows =>
    exact h.parked hphase hshows.wf hshows.stored rfl rfl rfl rfl
  | takeRoot hasWorked key header tasks hphase hroot hheader hdone hshows =>
    obtain ⟨-, hnone, hlone⟩ := h.root key hroot
    have hfamily := h.free_list desk.shard.origins hheader hlone hnone (fun i _ => rfl) hshows
    refine h.release key hshows.wf hfamily ?_ (fun _ _ => mem_of_update_nil) (fun i hi => hi)
      (h.spawnInbox_eq (by rw [hphase]; rfl)) (.inr (h.reapQueue_eq (by rw [hphase]; rfl))) rfl (.inl rfl)
    intro k hk
    rw [hshows.stored, update_of_ne hk]
  | spawnRoot key shard hphase hspawn =>
    obtain ⟨tasks, heq, hvacant, -, hshows⟩ := spawnRoot_eq h.wf hspawn
    rw [heq]
    exact h.insert hvacant rfl hshows.wf hshows.stored rfl (fun i _ => rfl)
      (h.spawnInbox_eq (by rw [hphase]; rfl)) (h.reapQueue_eq (by rw [hphase]; rfl)) rfl rfl
      (.inr ⟨rfl, h.family.origin_of_free hvacant⟩)

end Kin

structure Hale (v : Nat) (desk : CrewDesk) : Prop where
  kin : Kin v desk.toCrewView
  handoffs : ∀ reply ∈ desk.handoffs, reply.Loose
  replying : ∀ thief reply, desk.phase = .replying thief reply → reply.Loose

namespace Hale

open StealShard

variable {e : CrewEvent} {v u : Nat} {desk desk' : CrewDesk} {log log' : CrewLog}
  {letter : Option (Nat × Letter)}

theorem serve_loose (h : Hale v desk) (request : StealRequest) :
    (desk.shard.serveSteal request).1.Loose := by
  rcases serveSteal_cases h.kin.wf request with
    ⟨queue, heq, -⟩ | ⟨key, header, state, tasks, queue, -, hkey, hcandidate, heq, -⟩
  · rw [heq]
    trivial
  · rw [heq]
    refine ⟨?_, rfl⟩
    simp only [isCandidate, Bool.and_eq_true, Option.isNone_iff_eq_none] at hcandidate
    exact hcandidate.1.1.2

theorem act (h : Hale v desk) (hact : CrewAct e v desk log desk' log' letter) : Hale v desk' := by
  refine ⟨h.kin.act h.handoffs hact, fun reply hreply => h.handoffs reply
    (hact.handoffs_subset hreply), ?_⟩
  intro thief reply hreplying
  rcases hact.replying hreplying with hold | ⟨request, rfl⟩
  · exact h.replying thief reply hold
  · exact h.serve_loose request

theorem deliver (h : Hale u desk)
    (hletter : ∀ thief reply, letter = some (thief, .handoff reply) → reply.Loose) :
    Hale u (desk.deliver u letter) := by
  have hview := desk.deliver_view u letter
  refine ⟨by rw [hview]; exact h.kin, ?_, ?_⟩
  · intro reply hreply
    rcases CrewDesk.mem_handoffs_deliver hreply with hold | hnew
    · exact h.handoffs reply hold
    · exact hletter u reply hnew
  · rw [hview]
    exact h.replying

end Hale

namespace CrewWorld

variable {w : CrewWorld} {e : CrewEvent}

theorem wf_of_hale (h : ∀ u, Hale u (w.desk u)) (u : Nat) : (w.workers u).shard.tasks.WF := (h u).kin.wf

theorem hale_step (h : ∀ u, Hale u (w.desk u)) (e : CrewEvent) : ∀ u, Hale u ((w.step e).desk u) := by
  obtain ⟨v, desk, letter, hmoves⟩ := (w.step_cases e).moves (wf_of_hale h)
  refine hmoves.forall h ((h v).act hmoves.act) fun u desk' hdesk => hdesk.deliver ?_
  intro thief reply hletter
  exact (h v).replying thief reply (hmoves.act.handoff_sent hletter)

theorem hale_init (lead count taskCapacity : Nat) (u : Nat) :
    Hale u ((init lead count taskCapacity).desk u) := by
  have hshows := StealShard.new_shows u taskCapacity
  have hphase : ((init lead count taskCapacity).workers u).phase = .completing ∨
      ((init lead count taskCapacity).workers u).phase = .outside := by
    show (if lead < u ∧ u < lead + count then _ else _) = _ ∨
      (if lead < u ∧ u < lead + count then _ else _) = _
    split <;> simp
  have hroot : (init lead count taskCapacity).rootAt u = none := by
    unfold rootAt
    split <;> rfl
  have hfamily : Family u (StealShard.new u taskCapacity).tasks.stored
      (StealShard.new u taskCapacity).origins (fun _ => []) := by
    rw [hshows.stored]
    exact Family.empty u
  refine ⟨⟨hshows.wf, rfl, StealShard.family_self hfamily, ?_, ?_, .inr rfl, .inr rfl, ?_,
    fun _ => hroot⟩, ?_, ?_⟩
  · intro ref n hpolling
    rcases hphase with hcompleting | houtside
    · cases hcompleting.symm.trans hpolling
    · cases houtside.symm.trans hpolling
  · intro ref href
    cases href
  · intro key hkey
    cases hroot.symm.trans hkey
  · intro reply hreply
    cases hreply
  · intro thief reply hreplying
    rcases hphase with hcompleting | houtside
    · cases hcompleting.symm.trans hreplying
    · cases houtside.symm.trans hreplying

theorem hale_run (lead count taskCapacity : Nat) (es : List CrewEvent) (u : Nat) :
    Hale u ((Runs.run step (init lead count taskCapacity) es).desk u) := by
  have hstep : ∀ (w : CrewWorld) e, (∀ u, Hale u (w.desk u)) →
      ∀ u, Hale u ((w.step e).desk u) := fun w e h => hale_step h e
  exact Runs.run_invariant hstep (hale_init lead count taskCapacity) es u

end CrewWorld

end Kwokka
