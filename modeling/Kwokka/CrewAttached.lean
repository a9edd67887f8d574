import Kwokka.CrewKin

/-! Whether the slot of a child can be lost: a task that returns with all its children
recorded for the reaper never leaves one behind, and a task that does not may. -/

namespace Kwokka

open Function StealShard

namespace StealShard

variable {shard shard' : StealShard} {v : Nat} {key : SlabKey} {header : TaskHeader}

def isOver (shard : StealShard) (key : SlabKey) : Bool :=
  (shard.header key).any (·.state.isSettled)

theorem isOver_def (shard : StealShard) (key : SlabKey) :
    shard.isOver key = (shard.tasks.stored key).any (·.state.isSettled) := rfl

theorem isChildSettled_def (shard : StealShard) (ref : TaskRef) :
    shard.isChildSettled ref = (shard.tasks.stored ref.key).any (·.isSettled) := rfl

theorem isOver_eq (hkey : shard.header key = some header) :
    shard.isOver key = header.state.isSettled := by
  rw [isOver_def, show shard.tasks.stored key = _ from hkey, Option.any_some]

theorem isOver_of_none (hkey : shard.header key = none) : shard.isOver key = false := by
  rw [isOver_def, show shard.tasks.stored key = _ from hkey, Option.any_none]

theorem isChildSettled_eq {ref : TaskRef} (hkey : shard.header ref.key = some header) :
    shard.isChildSettled ref = header.isSettled := by
  rw [isChildSettled_def, show shard.tasks.stored ref.key = _ from hkey, Option.any_some]

theorem isOver_of_isChildSettled {ref : TaskRef} (h : shard.isChildSettled ref = true) :
    shard.isOver ref.key = true := by
  obtain ⟨header, hheader, hsettled⟩ := (Option.any_eq_true _ _).mp h
  rw [isOver_eq hheader]
  unfold TaskHeader.isSettled at hsettled
  split at hsettled
  case isTrue hretired =>
    rw [hretired]
    rfl
  case isFalse => exact hsettled

theorem Rewrites.isOver (h : shard.Rewrites shard') (key : SlabKey) :
    shard'.isOver key = shard.isOver key := by
  have hcell := h.cell key
  unfold StealShard.isOver
  generalize shard.header key = old, shard'.header key = new at hcell ⊢
  cases hcell with
  | none => rfl
  | some hkeeps => exact hkeeps.over_eq

theorem Rewrites.isChildSettled (h : shard.Rewrites shard') (ref : TaskRef) :
    shard'.isChildSettled ref = shard.isChildSettled ref := by
  have hcell := h.cell ref.key
  unfold StealShard.isChildSettled
  generalize shard.header ref.key = old, shard'.header ref.key = new at hcell ⊢
  cases hcell with
  | none => rfl
  | some hkeeps => exact hkeeps.isSettled_eq

/-- A task may return: it asked for no more children, and those it has wait for the reaper. -/
def Collected (shard : StealShard) (ref : TaskRef) : Prop :=
  (∀ pending ∈ shard.spawnInbox, pending.key ≠ ref.key) ∧
    (shard.iterChildren ref = [] ∨ ref ∈ shard.reapQueue)

end StealShard

structure Tidy (v : Nat) (view : CrewView) : Prop where
  ended : ∀ key, view.shard.isOver key = true →
    (∀ ref ∈ view.shard.spawnInbox, ref.key ≠ key) ∧
      (view.shard.kids key = [] ∨ ∃ ref ∈ view.shard.reapQueue, ref.key = key)
  ready : ∀ ref ∈ view.shard.reapQueue, (view.phase.isTick = true ∨ view.shard.isOver ref.key = true) →
    ∀ child ∈ view.shard.kids ref.key, view.shard.isChildSettled child = true
  order : ∀ pre ref post, view.shard.reapQueue = pre ++ ref :: post →
    ∀ child ∈ view.shard.kids ref.key, view.shard.isOver child.key = true →
      view.shard.kids child.key = [] ∨ ∃ before ∈ pre, before.key = child.key
  attached : ∀ key, (view.shard.header key).isSome = true → view.shard.origins key.index = none →
    view.root ≠ some key → ∃ parent, ⟨v, key⟩ ∈ view.shard.kids parent

namespace Tidy

open StealShard

variable {e : CrewEvent} {v : Nat} {view view' : CrewView}

theorem keep (h : Tidy v view) (hkids : view'.shard.kids = view.shard.kids)
    (hqueue : view'.shard.reapQueue = view.shard.reapQueue)
    (hover : ∀ key, view'.shard.isOver key = true → view.shard.isOver key = true ∨
      (∀ ref ∈ view'.shard.spawnInbox, ref.key ≠ key) ∧
      (view.shard.kids key = [] ∨ ∃ ref ∈ view.shard.reapQueue, ref.key = key) ∧
      ∀ ref ∈ view.shard.reapQueue, view.phase.isTick = true ∧
        ∀ child ∈ view.shard.kids ref.key, child.key ≠ key)
    (hsettled : ∀ ref, view.shard.isChildSettled ref = true → view'.shard.isChildSettled ref = true)
    (hinbox : ∀ ref ∈ view'.shard.spawnInbox, ref ∈ view.shard.spawnInbox ∨
      view'.shard.isOver ref.key = false)
    (htick : view'.phase.isTick = true → view.phase.isTick = true ∨ view.shard.reapQueue = [])
    (hattached : ∀ key, (view'.shard.header key).isSome = true → view'.shard.origins key.index = none →
      view'.root ≠ some key → (view.shard.header key).isSome = true ∧
        view.shard.origins key.index = none ∧ view.root ≠ some key) :
    Tidy v view' := by
  refine ⟨?_, ?_, ?_, ?_⟩
  · intro key hkey
    rw [hkids, hqueue]
    rcases hover key hkey with hold | ⟨hspawn, hreap, -⟩
    · obtain ⟨hspawn, hreap⟩ := h.ended key hold
      refine ⟨?_, hreap⟩
      intro ref href heq
      rcases hinbox ref href with hin | hnot
      · exact hspawn ref hin heq
      · rw [heq, hkey] at hnot
        cases hnot
    · exact ⟨hspawn, hreap⟩
  · intro ref href hcond child hchild
    rw [hqueue] at href
    rw [hkids] at hchild
    apply hsettled
    refine h.ready ref href ?_ child hchild
    rcases hcond with htick' | hover'
    · rcases htick htick' with hold | hempty
      · exact .inl hold
      · rw [hempty] at href
        cases href
    · rcases hover ref.key hover' with hold | ⟨-, -, hnew⟩
      · exact .inr hold
      · exact .inl (hnew ref href).1
  · intro pre ref post hsplit child hchild hchildOver
    rw [hqueue] at hsplit
    rw [hkids] at hchild ⊢
    rcases hover child.key hchildOver with hold | ⟨-, -, hnew⟩
    · exact h.order pre ref post hsplit child hchild hold
    · have href : ref ∈ view.shard.reapQueue := by
        rw [hsplit]
        simp
      exact absurd rfl ((hnew ref href).2 child hchild)
  · intro key hkey horigin hroot
    obtain ⟨hstored, hnative, hother⟩ := hattached key hkey horigin hroot
    rw [hkids]
    exact h.attached key hstored hnative hother

section Steps

variable {desk : CrewDesk} {shard : StealShard} {phase : CrewPhase}

theorem rewrite (h : Tidy v view) (hkin : Kin v view) (hrewrites : view.shard.Rewrites shard)
    (htick : phase.isTick = true → view.phase.isTick = true ∨ view.shard.reapQueue = []) :
    Tidy v { view with shard, phase } := by
  refine h.keep (kids_eq (hrewrites.family hkin.family)) hrewrites.reapQueue ?_ ?_ ?_ htick ?_
  · intro key hover
    rw [hrewrites.isOver] at hover
    exact .inl hover
  · intro ref hsettled
    rw [hrewrites.isChildSettled]
    exact hsettled
  · intro ref href
    rw [hrewrites.spawnInbox] at href
    exact .inl href
  · intro key hsome horigin hroot
    rw [hrewrites.isSome_eq] at hsome
    rw [hrewrites.origins] at horigin
    exact ⟨hsome, horigin, hroot⟩

theorem record (h : Tidy v view) (hkin : Kin v view)
    (hstored : shard.tasks.stored = view.shard.tasks.stored)
    (horigins : shard.origins = view.shard.origins)
    (hinbox : shard.spawnInbox = view.shard.spawnInbox)
    (hqueue : shard.reapQueue = view.shard.reapQueue)
    (htick : phase.isTick = true → view.phase.isTick = true) : Tidy v { view with shard, phase } := by
  have hheader : shard.header = view.shard.header := hstored
  have hfamily : Family v shard.tasks.stored view.shard.origins view.shard.kids := by
    rw [hstored]
    exact hkin.family
  refine h.keep (kids_eq hfamily) hqueue ?_ ?_ ?_ (fun ht => .inl (htick ht)) ?_
  · intro key hover
    simp only [isOver, hheader] at hover
    exact .inl hover
  · intro ref hsettled
    simp only [isChildSettled, hheader]
    exact hsettled
  · intro ref href
    simp only [hinbox] at href
    exact .inl href
  · intro key hsome horigin hroot
    simp only [hheader, horigins] at hsome horigin
    exact ⟨hsome, horigin, hroot⟩

variable {key : SlabKey} {header : TaskHeader} {parent : TaskRef} {rest : List TaskRef}

theorem isOver_update
    (hstored : shard.tasks.stored = update view.shard.tasks.stored key (some header))
    (k : SlabKey) :
    shard.isOver k = if k = key then header.state.isSettled else view.shard.isOver k := by
  rw [isOver_def, hstored, update_apply]
  split <;> rfl

theorem isChildSettled_update
    (hstored : shard.tasks.stored = update view.shard.tasks.stored key (some header))
    (ref : TaskRef) : shard.isChildSettled ref = if ref.key = key then header.isSettled
      else view.shard.isChildSettled ref := by
  rw [isChildSettled_def, hstored, update_apply]
  split <;> rfl

variable (h : Tidy v view)

include h

theorem edit (hkin : Kin v view) {header' : TaskHeader} (hkey : view.shard.header key = some header)
    (hstored : shard.tasks.stored = update view.shard.tasks.stored key (some header'))
    (hfirst : header'.firstChild = header.firstChild)
    (hnext : header'.nextSibling = header.nextSibling)
    (horigins : shard.origins = view.shard.origins)
    (hinbox : shard.spawnInbox = view.shard.spawnInbox)
    (hqueue : shard.reapQueue = view.shard.reapQueue)
    (hsettled : header.isSettled = true → header'.isSettled = true)
    (hover : header'.state.isSettled = true → header.state.isSettled = true ∨
      (∀ ref ∈ view.shard.spawnInbox, ref.key ≠ key) ∧
      (view.shard.kids key = [] ∨ ∃ ref ∈ view.shard.reapQueue, ref.key = key) ∧
      ∀ ref ∈ view.shard.reapQueue, view.phase.isTick = true ∧
        ∀ child ∈ view.shard.kids ref.key, child.key ≠ key)
    (htick : phase.isTick = true → view.phase.isTick = true) :
    Tidy v { view with shard, phase } := by
  have hfamily : Family v shard.tasks.stored view.shard.origins view.shard.kids := by
    rw [hstored]
    exact hkin.family.edit hkey hfirst hnext
  refine h.keep (kids_eq hfamily) hqueue ?_ ?_ ?_ (fun ht => .inl (htick ht)) ?_
  · intro k hk
    rw [isOver_update hstored] at hk
    split at hk
    case isFalse => exact .inl hk
    case isTrue heq =>
      subst heq
      rcases hover hk with hold | hnew
      · rw [isOver_eq hkey]
        exact .inl hold
      · dsimp only
        rw [hinbox]
        exact .inr hnew
  · intro ref hold
    rw [isChildSettled_update hstored]
    split
    case isFalse => exact hold
    case isTrue heq =>
      rw [← heq] at hkey
      rw [isChildSettled_eq hkey] at hold
      exact hsettled hold
  · intro ref href
    simp only [hinbox] at href
    exact .inl href
  · intro k hsome horigin hroot
    simp only [horigins] at horigin
    refine ⟨?_, horigin, hroot⟩
    change (shard.tasks.stored k).isSome = true at hsome
    rw [hstored] at hsome
    by_cases hk : k = key
    · rw [hk, hkey]
      rfl
    · rwa [update_of_ne hk] at hsome

theorem pushSpawn (hkin : Kin v view) {ref : TaskRef} {n : Nat}
    (hphase : view.phase = .polling ref n) :
    Tidy v { view with shard := { view.shard with spawnInbox := view.shard.spawnInbox ++ [ref] } } := by
  obtain ⟨header, hheader, hrunning⟩ := hkin.running ref n hphase
  have hwalk : ({ view.shard with spawnInbox := view.shard.spawnInbox ++ [ref] } : StealShard).kids =
      view.shard.kids := kids_eq hkin.family
  refine h.keep hwalk rfl (fun key hover => .inl hover) (fun child hsettled => hsettled) ?_ .inl
    (fun key hsome horigin hroot => ⟨hsome, horigin, hroot⟩)
  intro ref' href
  rcases List.mem_append.mp href with hold | hnew
  · exact .inl hold
  · right
    rw [List.mem_singleton.mp hnew]
    have hover := isOver_eq hheader
    rw [hrunning] at hover
    exact hover

theorem pollScope (hkin : Kin v view) {ref : TaskRef}
    (hsettled : ∀ child ∈ view.shard.iterChildren ref, view.shard.isChildSettled child = true) :
    Tidy v { view with shard := { view.shard with reapQueue := view.shard.reapQueue ++ [ref] } } := by
  rw [iterChildren_eq hkin.family] at hsettled
  have hwalk : ({ view.shard with reapQueue := view.shard.reapQueue ++ [ref] } : StealShard).kids =
      view.shard.kids := kids_eq hkin.family
  refine ⟨?_, ?_, ?_, ?_⟩
  · intro key hover
    obtain ⟨hspawn, hreap⟩ := h.ended key hover
    refine ⟨hspawn, ?_⟩
    rw [hwalk]
    rcases hreap with hnil | ⟨queued, hmem, heq⟩
    · exact .inl hnil
    · exact .inr ⟨queued, List.mem_append_left _ hmem, heq⟩
  · intro queued hmem hcond child hchild
    rw [hwalk] at hchild
    rcases List.mem_append.mp hmem with hold | hnew
    · exact h.ready queued hold hcond child hchild
    · rw [List.mem_singleton.mp hnew] at hchild
      exact hsettled child hchild
  · intro pre queued post hsplit child hchild hover
    rw [hwalk] at hchild ⊢
    change view.shard.reapQueue ++ [ref] = pre ++ queued :: post at hsplit
    rcases List.eq_nil_or_concat post with rfl | ⟨post, last, rfl⟩
    · obtain ⟨hpre, -⟩ := List.append_inj' hsplit rfl
      rw [← hpre]
      exact (h.ended child.key hover).2
    · rw [List.concat_eq_append, ← List.cons_append, ← List.append_assoc] at hsplit
      obtain ⟨hpre, -⟩ := List.append_inj' hsplit rfl
      exact h.order pre queued post hpre child hchild hover
  · intro key hsome horigin hroot
    rw [hwalk]
    exact h.attached key hsome horigin hroot

theorem skipReap (hkin : Kin v view) (hqueue : view.shard.reapQueue = parent :: rest)
    (hnone : view.shard.firstSettledChild parent = none) :
    Tidy v { view with shard := { view.shard with reapQueue := rest } } := by
  have hwalk : ({ view.shard with reapQueue := rest } : StealShard).kids = view.shard.kids :=
    kids_eq hkin.family
  -- A parent that is over has no child left once the reaper finds none settled.
  have hbare : view.shard.isOver parent.key = true → view.shard.kids parent.key = [] := by
    intro hover
    have hready := h.ready parent (by rw [hqueue]; exact List.mem_cons_self) (.inr hover)
    unfold firstSettledChild at hnone
    rw [iterChildren_eq hkin.family] at hnone
    refine List.eq_nil_iff_forall_not_mem.mpr fun child hchild => ?_
    exact List.find?_eq_none.mp hnone child hchild (hready child hchild)
  refine ⟨?_, ?_, ?_, ?_⟩
  · intro key hover
    obtain ⟨hspawn, hreap⟩ := h.ended key hover
    refine ⟨hspawn, ?_⟩
    rw [hwalk]
    rcases hreap with hnil | ⟨queued, hmem, rfl⟩
    · exact .inl hnil
    · rw [hqueue] at hmem
      rcases List.mem_cons.mp hmem with rfl | hrest
      · exact .inl (hbare hover)
      · exact .inr ⟨queued, hrest, rfl⟩
  · intro queued hmem hcond child hchild
    rw [hwalk] at hchild
    exact h.ready queued (by rw [hqueue]; exact List.mem_cons_of_mem _ hmem) hcond child hchild
  · intro pre queued post hsplit child hchild hover
    rw [hwalk] at hchild ⊢
    change rest = pre ++ queued :: post at hsplit
    have hsplit' : view.shard.reapQueue = (parent :: pre) ++ queued :: post := by
      rw [hqueue, hsplit]
      rfl
    rcases h.order (parent :: pre) queued post hsplit' child hchild hover with hnil | ⟨before, hmem, heq⟩
    · exact .inl hnil
    · rcases List.mem_cons.mp hmem with rfl | hpre
      · left
        rw [← heq]
        exact hbare (by rw [heq]; exact hover)
      · exact .inr ⟨before, hpre, heq⟩
  · intro key hsome horigin hroot
    rw [hwalk]
    exact h.attached key hsome horigin hroot

theorem spawn (hkin : Kin v view) {hasWorked isPinned : Bool}
    (hphase : view.phase = .spawning hasWorked) (hinbox : view.shard.spawnInbox = parent :: rest)
    (hspawn : { view.shard with spawnInbox := rest }.spawn parent isPinned = some shard) :
    Tidy v { view with shard } := by
  obtain ⟨key, p, tasks, hp, hvacant, -, heq, hshows, hfamily⟩ := hkin.spawn_list hinbox hspawn
  have hwalk := kids_eq hfamily
  have hparent : view.shard.isOver parent.key = false := by
    by_contra hover
    rw [Bool.not_eq_false] at hover
    exact (h.ended parent.key hover).1 parent (by rw [hinbox]; exact List.mem_cons_self) rfl
  have hcell : view.shard.tasks.stored parent.key = some p := hp
  have hnone : view.shard.tasks.stored key = none := hvacant key.generation
  have hover : ∀ k, shard.isOver k = true → view.shard.isOver k = true ∧ k ≠ key ∧ k ≠ parent.key := by
    intro k hk
    rw [isOver_def, heq, hshows.stored, update_apply, update_apply] at hk
    split at hk
    case isTrue =>
      rw [isOver_def, hcell] at hparent
      exact absurd (hparent.symm.trans hk) (by simp)
    case isFalse hkp =>
      split at hk
      case isTrue => cases hk
      case isFalse hkk => exact ⟨hk, hkk, hkp⟩
  have hsettled : ∀ ref, view.shard.isChildSettled ref = true → shard.isChildSettled ref = true := by
    intro ref href
    rw [isChildSettled_def] at href
    rw [isChildSettled_def, heq, hshows.stored, update_apply, update_apply]
    split
    case isTrue hkp =>
      rw [hkp, hcell] at href
      exact href
    case isFalse =>
      split
      case isTrue hkk =>
        rw [hkk, hnone] at href
        cases href
      case isFalse => exact href
  have hqueue : shard.reapQueue = view.shard.reapQueue := by rw [heq]
  have hkids : ∀ k, k ≠ parent.key → shard.kids k = view.shard.kids k := by
    intro k hk
    rw [hwalk, update_of_ne hk]
  refine ⟨?_, ?_, ?_, ?_⟩
  · intro k hk
    obtain ⟨hold, -, hkp⟩ := hover k hk
    obtain ⟨hspawns, hreap⟩ := h.ended k hold
    refine ⟨?_, ?_⟩
    · intro ref href
      apply hspawns
      rw [hinbox]
      have hrest : shard.spawnInbox = rest := by rw [heq]
      rw [hrest] at href
      exact List.mem_cons_of_mem _ href
    · dsimp only
      rw [hkids k hkp, hqueue]
      exact hreap
  · intro ref href hcond child hchild
    rcases hcond with htick | hrefOver
    · dsimp only at htick
      rw [hphase] at htick
      cases htick
    · obtain ⟨hold, -, hkp⟩ := hover ref.key hrefOver
      dsimp only at href hchild
      rw [hqueue] at href
      rw [hkids _ hkp] at hchild
      exact hsettled child (h.ready ref href (.inr hold) child hchild)
  · intro pre ref post hsplit child hchild hchildOver
    dsimp only at hsplit hchild ⊢
    rw [hqueue] at hsplit
    obtain ⟨hold, hkk, hkp⟩ := hover child.key hchildOver
    rw [hkids _ hkp]
    refine h.order pre ref post hsplit child ?_ hold
    rw [hwalk] at hchild
    by_cases href : ref.key = parent.key
    · rw [href, update_self] at hchild
      rcases List.mem_cons.mp hchild with rfl | hmem
      · exact absurd rfl hkk
      · rw [href]
        exact hmem
    · rwa [update_of_ne href] at hchild
  · intro k hsome horigin hroot
    dsimp only at hsome horigin hroot ⊢
    rw [hwalk]
    by_cases hkk : k = key
    · exact ⟨parent.key, by rw [hkk, update_self]; exact List.mem_cons_self⟩
    · have hstored : (view.shard.header k).isSome = true := by
        change (shard.tasks.stored k).isSome = true at hsome
        rw [heq, hshows.stored, update_apply, update_of_ne hkk] at hsome
        split at hsome
        case isTrue hkp =>
          rw [hkp, hp]
          rfl
        case isFalse => exact hsome
      rw [heq] at horigin
      obtain ⟨other, hmem⟩ := h.attached k hstored horigin hroot
      refine ⟨other, ?_⟩
      rw [update_apply]
      split
      case isTrue hother =>
        rw [hother] at hmem
        exact List.mem_cons_of_mem _ hmem
      case isFalse => exact hmem

theorem free {tasks : Slab TaskHeader} {origins : Nat → Option Origin} {root : Option SlabKey}
    (hshows : tasks.Shows (update view.shard.tasks.stored key none)
      view.shard.tasks.isReserved)
    (hfamily : Family v tasks.stored origins (update view.shard.kids key []))
    (hqueue : view.shard.reapQueue = []) (hover : view.shard.isOver key = true)
    (hattached : ∀ k, k ≠ key → (view.shard.header k).isSome = true → origins k.index = none →
      root ≠ some k → view.shard.origins k.index = none ∧ view.root ≠ some k) :
    Tidy v ⟨{ view.shard with tasks, origins }, phase, root⟩ := by
  have hbare : view.shard.kids key = [] := by
    rcases (h.ended key hover).2 with hnil | ⟨ref, hmem, -⟩
    · exact hnil
    · rw [hqueue] at hmem
      cases hmem
  have hwalk : ({ view.shard with tasks, origins } : StealShard).kids = view.shard.kids := by
    have hkids : ({ view.shard with tasks, origins } : StealShard).kids =
        update view.shard.kids key [] := kids_eq hfamily
    rw [hkids]
    exact update_eq_self_iff.mpr hbare.symm
  refine ⟨?_, ?_, ?_, ?_⟩
  · intro k hk
    rw [isOver_def, hshows.stored, update_apply] at hk
    dsimp only
    rw [hwalk]
    split at hk
    · cases hk
    · exact h.ended k hk
  · intro ref href
    dsimp only at href
    rw [hqueue] at href
    cases href
  · intro pre ref post hsplit
    dsimp only at hsplit
    rw [hqueue] at hsplit
    simp at hsplit
  · intro k hsome horigin hroot
    dsimp only
    rw [hwalk]
    change (tasks.stored k).isSome = true at hsome
    rw [hshows.stored, update_apply] at hsome
    split at hsome
    case isTrue => cases hsome
    case isFalse hkk =>
      obtain ⟨hnative, hother⟩ := hattached k hkk hsome horigin hroot
      exact h.attached k hsome hnative hother

theorem reap (hkin : Kin v view) {child : TaskRef} (hqueue : view.shard.reapQueue = parent :: rest)
    (hchild : view.shard.firstSettledChild parent = some child) :
    Tidy v { view with shard := (view.shard.removeChild parent child).release child.key } := by
  obtain ⟨xs, ys, header, tasks, hkids, -, hheader, hsettled, heq, -, -, hgone, hkept, hfamily, hsub⟩ :=
    reapOne_eq hkin.wf hkin.family hchild
  rw [heq]
  have hmem : child ∈ view.shard.kids parent.key := by
    rw [hkids]
    simp
  have hchildOver : view.shard.isOver child.key = true := by
    apply isOver_of_isChildSettled
    rw [isChildSettled_eq hheader]
    exact hsettled
  -- The parent is the first the reaper meets, so its settled child has no children.
  have hbare : view.shard.kids child.key = [] := by
    rcases h.order [] parent rest hqueue child hmem hchildOver with hnil | ⟨before, hbefore, -⟩
    · exact hnil
    · cases hbefore
  have hwalk : ({ view.shard with tasks } : StealShard).kids = update
      (update view.shard.kids parent.key (xs ++ ys)) child.key [] := kids_eq hfamily
  rw [← hwalk] at hsub
  have hnil : ∀ k, view.shard.kids k = [] → ({ view.shard with tasks } : StealShard).kids k = [] := by
    intro k hk
    refine List.eq_nil_iff_forall_not_mem.mpr fun ref href => ?_
    have hin := hsub k ref href
    rw [hk] at hin
    cases hin
  have hover : ∀ k, ({ view.shard with tasks } : StealShard).isOver k = true →
      view.shard.isOver k = true := by
    intro k hk
    by_cases hkc : k = child.key
    · rw [hkc]
      exact hchildOver
    · have hmap := congrArg (Option.any (fun header => header.state.isSettled)) (hkept k hkc)
      simp only [Option.any_map] at hmap
      exact hmap.symm.trans hk
  have hkeep : ∀ ref, ref.key ≠ child.key → view.shard.isChildSettled ref = true →
      ({ view.shard with tasks } : StealShard).isChildSettled ref = true := by
    exact fun ref hkc href => (isChildSettled_congr (hkept ref.key hkc)).trans href
  have hapart : ∀ k ref, ref ∈ ({ view.shard with tasks } : StealShard).kids k →
      ref.key ≠ child.key := by
    intro k ref href hkc
    have hsome := (hfamily.child k ref (by rw [← hwalk]; exact href)).2.1
    rw [hkc, hgone] at hsome
    cases hsome
  refine ⟨?_, ?_, ?_, ?_⟩
  · intro k hk
    obtain ⟨hspawn, hreap⟩ := h.ended k (hover k hk)
    exact ⟨hspawn, hreap.imp_left (hnil k)⟩
  · intro ref href hcond other hother
    refine hkeep other (hapart ref.key other hother) (h.ready ref href ?_ other (hsub _ _ hother))
    exact hcond.imp_right (hover _)
  · intro pre ref post hsplit other hother hotherOver
    exact (h.order pre ref post hsplit other (hsub _ _ hother) (hover _ hotherOver)).imp_left (hnil _)
  · intro k hsome horigin hroot
    have hkc : k ≠ child.key := by
      rintro rfl
      change (tasks.stored child.key).isSome = true at hsome
      rw [hgone] at hsome
      cases hsome
    have hstored : (view.shard.header k).isSome = true := by
      have hmap := congrArg Option.isSome (hkept k hkc)
      simp only [Option.isSome_map] at hmap
      exact hmap.symm.trans hsome
    obtain ⟨other, hin⟩ := h.attached k hstored horigin hroot
    have hoc : other ≠ child.key := by
      rintro rfl
      rw [hbare] at hin
      cases hin
    refine ⟨other, ?_⟩
    dsimp only
    rw [hwalk, update_of_ne hoc, update_apply]
    split
    case isFalse => exact hin
    case isTrue hkp =>
      rw [hkp, hkids] at hin
      have hne : (⟨v, k⟩ : TaskRef) ≠ child := fun heq => hkc (congrArg TaskRef.key heq)
      simpa [hne] using hin

end Steps

theorem insert (h : Tidy v view) (hkin : Kin v view) {key : SlabKey} {header : TaskHeader}
    {root : Option SlabKey} {shard : StealShard} {phase : CrewPhase}
    (hvacant : ∀ g, view.shard.tasks.stored ⟨key.index, g⟩ = none) (hfirst : header.firstChild = none)
    (hlive : header.state.isSettled = false)
    (hstored : shard.tasks.stored = update view.shard.tasks.stored key (some header))
    (horigins : ∀ i, i ≠ key.index → shard.origins i = view.shard.origins i)
    (hinbox : shard.spawnInbox = view.shard.spawnInbox)
    (hqueue : shard.reapQueue = view.shard.reapQueue) (hempty : view.shard.reapQueue = [])
    (hexempt : shard.origins key.index ≠ none ∨ root = some key)
    (hroot : ∀ k, k ≠ key → root ≠ some k → view.root ≠ some k) : Tidy v ⟨shard, phase, root⟩ := by
  have hfamily : Family v shard.tasks.stored shard.origins view.shard.kids := by
    rw [hstored]
    exact hkin.family.insert hvacant hfirst horigins
  have hnone : ∀ k, k.index = key.index → view.shard.header k = none := by
    intro k hindex
    have hfree := hvacant k.generation
    rw [← hindex] at hfree
    exact hfree
  refine h.keep (kids_eq hfamily) hqueue ?_ ?_ ?_ (fun _ => .inr hempty) ?_
  · intro k hk
    rw [isOver_update hstored] at hk
    split at hk
    case isTrue =>
      rw [hlive] at hk
      cases hk
    case isFalse => exact .inl hk
  · intro ref href
    rw [isChildSettled_update hstored]
    split
    case isFalse => exact href
    case isTrue heq =>
      have hover := isOver_of_isChildSettled href
      rw [isOver_of_none (hnone ref.key (by rw [heq]))] at hover
      cases hover
  · intro ref href
    simp only [hinbox] at href
    exact .inl href
  · intro k hsome horigin hother
    dsimp only at hsome horigin hother
    have hk : k ≠ key := by
      rintro rfl
      rcases hexempt with hne | heq
      · exact hne horigin
      · exact hother heq
    have hstored' : (view.shard.header k).isSome = true := by
      change (shard.tasks.stored k).isSome = true at hsome
      rwa [hstored, update_of_ne hk] at hsome
    have hindex : k.index ≠ key.index := by
      intro heq
      rw [hnone k heq] at hstored'
      cases hstored'
    rw [horigins _ hindex] at horigin
    exact ⟨hstored', horigin, hroot k hk hother⟩

theorem serve (h : Tidy v view) (hkin : Kin v view) {request : StealRequest} {reply : HandoffMsg}
    {shard : StealShard} {phase : CrewPhase} (hphase : view.phase = .serving)
    (hphase' : phase.isTick = false)
    (hserve : view.shard.serveSteal request = (reply, shard)) : Tidy v { view with shard, phase } := by
  have hinbox := hkin.spawnInbox_eq (by rw [hphase]; rfl)
  have hqueue := hkin.reapQueue_eq (by rw [hphase]; rfl)
  have htick : phase.isTick = true → view.phase.isTick = true := by
    intro ht
    rw [hphase'] at ht
    cases ht
  rcases serveSteal_cases hkin.wf request with
    ⟨queue, heq, -⟩ | ⟨key, header, state, tasks, queue, hstate, hkey, hcandidate, heq, hshows, -⟩
  · rw [hserve] at heq
    cases heq
    exact h.record hkin rfl rfl rfl rfl htick
  · rw [hserve] at heq
    cases heq
    have hbare : view.shard.kids key = [] := by
      have hchain := hkin.family.chain key header hkey
      simp only [isCandidate, Bool.and_eq_true, Option.isNone_iff_eq_none, beq_iff_eq] at hcandidate
      rw [hcandidate.1.1.2] at hchain
      exact LinkedChain.Chain.unique hchain rfl
    refine h.edit hkin hkey hshows.stored rfl rfl rfl rfl rfl ?_ ?_ htick
    · intro hsettled
      simp only [isCandidate, Bool.and_eq_true, beq_iff_eq] at hcandidate
      have hlive := hcandidate.1.1.1.1.1.1
      unfold TaskHeader.isSettled at hsettled
      rcases hstate with rfl | rfl <;> simp [hlive, TaskState.isSettled, TaskState.isTerminal] at hsettled
    · intro _
      right
      rw [hinbox, hqueue]
      exact ⟨by simp, .inl hbare, by simp⟩

theorem finish (h : Tidy v view) (hkin : Kin v view) {ref : TaskRef} {n : Nat} {isReady : Bool}
    {submitted : Nat} (hphase : view.phase = .polling ref n)
    (hcollected : isReady = true → view.shard.Collected ref) :
    Tidy v { view with
      shard := { view.shard with toShard := view.shard.toShard.finishPoll ref isReady submitted }
      phase := .ticking n true } := by
  obtain ⟨header, hheader, hrunning⟩ := hkin.running ref n hphase
  obtain ⟨tasks, heq, hshows⟩ := finishPoll_eq hkin.wf hheader hrunning isReady submitted
  have hunsettled : header.isSettled = false := by
    simp [TaskHeader.isSettled, hrunning, TaskState.isSettled, TaskState.isTerminal]
  rw [heq]
  refine h.edit hkin hheader hshows.stored ?_ ?_ rfl rfl rfl ?_ ?_ ?_
  · unfold TaskHeader.landSubmitted
    split <;> rfl
  · unfold TaskHeader.landSubmitted
    split <;> rfl
  · intro hsettled
    rw [hunsettled] at hsettled
    cases hsettled
  · intro hover
    rw [TaskHeader.landSubmitted_state] at hover
    cases isReady with
    | false => cases hover
    | true =>
      obtain ⟨hspawn, hreap⟩ := hcollected rfl
      have htick : view.phase.isTick = true := by
        rw [hphase]
        rfl
      rw [iterChildren_eq hkin.family] at hreap
      refine .inr ⟨hspawn, ?_, ?_⟩
      · rcases hreap with hnil | hmem
        · exact .inl hnil
        · exact .inr ⟨ref, hmem, rfl⟩
      · intro parent hparent
        refine ⟨htick, fun child hchild hkey => ?_⟩
        have hsettled := h.ready parent hparent (.inl htick) child hchild
        rw [← hkey] at hheader
        rw [isChildSettled_eq hheader, hunsettled] at hsettled
        cases hsettled
  · intro _
    rw [hphase]
    rfl

theorem act {desk desk' : CrewDesk} {log log' : CrewLog} {letter : Option (Nat × Letter)}
    (hhale : Hale v desk) (h : Tidy v desk.toCrewView)
    (hcollected : ∀ ref n submitted, e = .finishPoll v true submitted → desk.phase = .polling ref n →
      desk.shard.Collected ref)
    (hact : CrewAct e v desk log desk' log' letter) : Tidy v desk'.toCrewView := by
  have hkin := hhale.kin
  cases hact with
  | quiet shard phase hrewrites hpasses =>
    refine h.rewrite hkin hrewrites fun htick => ?_
    rcases hpasses.tick htick with hold | hholds
    · exact .inl hold
    · exact .inr (hkin.reapQueue_eq hholds)
  | start shard n hasWorked ref header hphase hrewrites =>
    refine h.rewrite hkin hrewrites fun _ => .inl ?_
    rw [hphase]
    rfl
  | note key =>
    rcases markSettled_cases hkin.wf key with heq | ⟨header, tasks, hkey, hretired, heq, hshows⟩
    · rw [heq]
      exact h
    · rw [heq]
      refine h.edit hkin hkey hshows.stored rfl rfl rfl rfl rfl ?_ (fun hover => .inl hover)
        (fun ht => ht)
      intro _
      simp [TaskHeader.isSettled, hretired]
  | pushSpawn ref n hphase => exact h.pushSpawn hkin hphase
  | pollScope ref n hphase hsettled => exact h.pollScope hkin hsettled
  | spawn hasWorked isPinned parent rest shard hphase hinbox hspawn =>
    exact h.spawn hkin hphase hinbox hspawn
  | skipReap hasWorked parent rest hphase hqueue hnone => exact h.skipReap hkin hqueue hnone
  | serve request rest reply shard hphase hrequests hserve => exact h.serve hkin hphase rfl hserve
  | reply =>
    refine h.record hkin rfl rfl rfl rfl fun ht => ?_
    cases ht
  | receive reply rest installed shard hphase hhandoffs hreceive =>
    have hreply : reply.Loose := hhale.handoffs reply (by rw [hhandoffs]; exact List.mem_cons_self)
    rcases receive_cases hkin.wf hreply hreceive with ⟨rfl, tasks, rfl, hshows⟩ |
      ⟨dest, victimId, task, tasks, rfl, hreserved, rfl, hwake, hshows⟩
    · exact h.record hkin hshows.stored rfl rfl rfl (fun ht => ht)
    · simp only [Option.elim_some, hwake]
      refine h.insert hkin (stored_of_reserved hkin.wf hreserved) ?_ rfl hshows.stored
        (fun i hi => update_of_ne hi _ _) rfl rfl (hkin.reapQueue_eq (by rw [hphase]; rfl))
        (.inl ?_) (fun k _ hroot => hroot)
      · exact hreply.1
      · simp
  | finish ref n isReady submitted hevent hphase =>
    refine h.finish hkin hphase fun hready => ?_
    subst hready
    exact hcollected ref n submitted hevent hphase
  | reap hasWorked parent child rest hphase hqueue hchild => exact h.reap hkin hqueue hchild
  | report index hasWorked origin hphase horigin hsettled =>
    obtain ⟨g, header, tasks, hheader, hover, -, heq, hshows⟩ :=
      releaseResident_cases hkin.wf index hsettled
    have hfamily := hkin.free_list (update desk.shard.origins index none) hheader
      (hkin.lone_of_origin horigin) (by simp) (fun i hi => update_of_ne hi _ _) hshows
    rw [heq]
    refine h.free hshows hfamily (hkin.reapQueue_eq (by rw [hphase]; rfl)) ?_ ?_
    · rw [isOver_eq hheader]
      exact hover
    · intro k hk hsome hnone hroot
      refine ⟨?_, hroot⟩
      have hindex : k.index ≠ index := by
        intro hindex
        obtain ⟨other, hother⟩ := Option.isSome_iff_exists.mp hsome
        exact hk (Slab.stored_inj hother hheader hindex).1
      rwa [update_of_ne hindex] at hnone
  | ask victim cursor key tasks hasWorked hphase hpending hvacant hfree hshows =>
    refine h.record hkin hshows.stored rfl rfl rfl fun ht => ?_
    cases ht
  | bounce cursor key tasks hasWorked hphase hpending hshows =>
    refine h.record hkin hshows.stored rfl rfl rfl fun ht => ?_
    cases ht
  | takeRoot hasWorked key header tasks hphase hroot hheader hdone hshows =>
    obtain ⟨-, hnone, hlone⟩ := hkin.root key hroot
    have hfamily := hkin.free_list desk.shard.origins hheader hlone hnone (fun i _ => rfl) hshows
    refine h.free hshows hfamily (hkin.reapQueue_eq (by rw [hphase]; rfl)) ?_ ?_
    · rw [isOver_eq hheader, hdone]
      rfl
    · intro k hk _ hnative _
      refine ⟨hnative, fun hother => hk ?_⟩
      exact Option.some.inj (hother.symm.trans hroot)
  | spawnRoot key shard hphase hspawn =>
    obtain ⟨tasks, heq, hvacant, -, hshows⟩ := spawnRoot_eq hkin.wf hspawn
    rw [heq]
    refine h.insert hkin hvacant ?_ rfl hshows.stored (fun i _ => rfl) rfl rfl
      (hkin.reapQueue_eq (by rw [hphase]; rfl)) (.inr rfl) ?_
    · rfl
    · intro k _ _ hother
      rw [hkin.outside hphase] at hother
      cases hother

theorem deliver {desk : CrewDesk} (h : Tidy v desk.toCrewView)
    (letter : Option (Nat × Letter)) : Tidy v (desk.deliver v letter).toCrewView := by
  rw [CrewDesk.deliver_view]
  exact h

end Tidy

namespace CrewWorld

/-- A poll returns `Ready` only from a task that left no child behind. -/
def Collects (w : CrewWorld) : CrewEvent → Prop
  | .finishPoll v true _ =>
    match (w.workers v).phase with
    | .polling ref _ => (w.workers v).shard.Collected ref
    | _ => True
  | _ => True

instance decidableCollected (shard : StealShard) (ref : TaskRef) : Decidable (shard.Collected ref) :=
  inferInstanceAs (Decidable (_ ∧ _))

instance decidableCollects (w : CrewWorld) (e : CrewEvent) : Decidable (w.Collects e) :=
  decidable_of_iff ((match e with
    | .finishPoll v true _ =>
      match (w.workers v).phase with
      | .polling ref _ => decide ((w.workers v).shard.Collected ref)
      | _ => true
    | _ => true) = true) (by
      unfold Collects
      split
      · split <;> simp
      · simp)

variable {w : CrewWorld}

end CrewWorld

end Kwokka
