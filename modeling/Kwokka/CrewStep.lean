import Kwokka.CrewWorld

/-! What one step of a crew can do, case by case: most change a single worker, the others
also send a message to a second one or write to the log. -/

namespace Kwokka

open CrewWorld

inductive CrewPhase.Next (shard : StealShard) : CrewPhase → CrewPhase → Prop
  | noting : Next shard .completing .noting
  | serving : Next shard .noting .serving
  | receiving : Next shard .serving .receiving
  | draining : Next shard .receiving .draining
  | firing (now : Nat) : Next shard .draining (.firing now false)
  | ticking (now : Nat) (hasWorked : Bool) (n : Nat) :
      Next shard (.firing now hasWorked) (.ticking n hasWorked)
  | arming (n : Nat) (hasWorked : Bool) : Next shard (.ticking n hasWorked) (.arming hasWorked)
  | spawning (hasWorked : Bool) : Next shard (.arming hasWorked) (.spawning hasWorked)
  | reaping (hasWorked : Bool) (hinbox : shard.spawnInbox = []) :
      Next shard (.spawning hasWorked) (.reaping hasWorked)
  | reporting (hasWorked : Bool) (hqueue : shard.reapQueue = []) :
      Next shard (.reaping hasWorked) (.reporting 0 hasWorked)
  | reported (index : Nat) (hasWorked : Bool) :
      Next shard (.reporting index hasWorked) (.reporting (index + 1) hasWorked)
  | passed (index : Nat) (hasWorked : Bool) :
      Next shard (.reporting index hasWorked) (.passed hasWorked)
  | repeating (hasWorked : Bool) : Next shard (.passed hasWorked) .completing
  | parking (hasWorked : Bool) : Next shard (.passed hasWorked) .parking
  | blocked : Next shard .parking .blocked
  | resuming : Next shard .parking .completing
  | unparked : Next shard .blocked .completing
  | dead (hasWorked : Bool) : Next shard (.spawning hasWorked) .dead
  | refused : Next shard .outside .dead
  | unwound (ref : TaskRef) (n : Nat) : Next shard (.polling ref n) .dead

inductive CrewTurn (worker : CrewWorker) : CrewWorker → Prop
  | advance (next : CrewPhase) (hnext : worker.phase.Next worker.shard next) :
      CrewTurn worker { worker with phase := next }
  | complete (completion : CrewCompletion) (hphase : worker.phase = .completing) :
      CrewTurn worker { worker with shard := completeOne worker.shard completion }
  | note (key : SlabKey) (rest : List SlabKey) (hphase : worker.phase = .noting)
      (hnotes : worker.notes = key :: rest) :
      CrewTurn worker { worker with notes := rest, shard := worker.shard.markSettled key }
  | wake (ref : TaskRef) (rest : List TaskRef) (next : CrewPhase)
      (hphase : worker.phase = .draining ∧ next = .draining ∨
        worker.phase = .parking ∧ next = .completing) (hinbox : worker.inbox = ref :: rest) :
      CrewTurn worker
        { worker with inbox := rest, phase := next, shard := worker.shard.wakeLocal ref }
  | fire (now : Nat) (hasWorked : Bool) (deadline : Nat) (ref : TaskRef) (rest : List (Nat × TaskRef))
      (hphase : worker.phase = .firing now hasWorked)
      (htimers : worker.shard.timers = (deadline, ref) :: rest) (hdue : deadline ≤ now) :
      CrewTurn worker
        { worker with
          phase := .firing now true, shard := { worker.shard with timers := rest }.wakeLocal ref }
  | skip (n : Nat) (hasWorked hasWorked' : Bool) (ref : TaskRef) (rest : List TaskRef)
      (hphase : worker.phase = .ticking (n + 1) hasWorked)
      (hqueue : worker.shard.runQueue = ref :: rest)
      (hskip : ∀ header, worker.shard.header ref.key = some header → header.state ≠ .woken) :
      CrewTurn worker
        { worker with
          phase := .ticking n hasWorked', shard := { worker.shard with runQueue := rest } }
  | start (n : Nat) (hasWorked : Bool) (ref : TaskRef) (rest : List TaskRef) (header : TaskHeader)
      (hphase : worker.phase = .ticking (n + 1) hasWorked)
      (hqueue : worker.shard.runQueue = ref :: rest)
      (hheader : worker.shard.header ref.key = some header) (hwoken : header.state = .woken) :
      CrewTurn worker
        { worker with
          phase := .polling ref n
          shard := { worker.shard with runQueue := rest }.modify ref.key fun header =>
            { header with state := .running, hasPolled := true } }
  | requestTimer (ref : TaskRef) (n delayTicks : Nat) (hphase : worker.phase = .polling ref n) :
      CrewTurn worker
        { worker with
          shard := { worker.shard with
            toShard := (worker.shard.toShard.requestTimer ref delayTicks).2 } }
  | pushSpawn (ref : TaskRef) (n : Nat) (hphase : worker.phase = .polling ref n) :
      CrewTurn worker
        { worker with
          shard := { worker.shard with toShard := (worker.shard.toShard.pushSpawn ref).2 } }
  | pollScope (ref : TaskRef) (n : Nat) (hphase : worker.phase = .polling ref n)
      (hsettled : worker.shard.areChildrenAllSettled
        ((worker.shard.header ref.key).bind (·.firstChild)) = true) :
      CrewTurn worker { worker with shard := worker.shard.pushReap ref }
  | arm (hasWorked : Bool) (request : TimerRequest) (rest : List TimerRequest) (deadline : Nat)
      (hphase : worker.phase = .arming hasWorked)
      (hrequests : worker.shard.timerRequests = request :: rest) :
      CrewTurn worker
        { worker with
          shard := { worker.shard with
            toShard := { worker.shard.toShard with timerRequests := rest }.register request.taskRef
              deadline } }
  | spawn (hasWorked isPinned : Bool) (parent : TaskRef) (rest : List TaskRef) (shard : StealShard)
      (hphase : worker.phase = .spawning hasWorked)
      (hinbox : worker.shard.spawnInbox = parent :: rest)
      (hspawn : { worker.shard with spawnInbox := rest }.spawn parent isPinned = some shard) :
      CrewTurn worker { worker with shard }
  | skipReap (hasWorked : Bool) (parent : TaskRef) (rest : List TaskRef)
      (hphase : worker.phase = .reaping hasWorked)
      (hqueue : worker.shard.reapQueue = parent :: rest)
      (hnone : worker.shard.firstSettledChild parent = none) :
      CrewTurn worker { worker with shard := { worker.shard with reapQueue := rest } }

namespace CrewWorld

def Forwards (shard : StealShard) (ref newRef : TaskRef) : Prop :=
  (∀ header, shard.header ref.key = some header → header.state = .retired) ∧
    shard.lookup ref.key = some newRef

inductive CrewStep (w : CrewWorld) (e : CrewEvent) : CrewWorld → Prop
  | same : CrewStep w e w
  | elapse (ticks : Nat) : CrewStep w e { w with clock := w.clock + ticks }
  | send (ref : TaskRef) (hevent : e = .wake ref) : CrewStep w e (w.enqueue ref)
  | turn (v : Nat) (worker : CrewWorker) (hturn : CrewTurn (w.workers v) worker) :
      CrewStep w e (w.setWorker v worker)
  | forward (v : Nat) (ref newRef : TaskRef) (rest : List TaskRef) (next : CrewPhase)
      (hphase : (w.workers v).phase = .draining ∧ next = .draining ∨
        (w.workers v).phase = .parking ∧ next = .completing)
      (hinbox : (w.workers v).inbox = ref :: rest)
      (hforward : Forwards (w.workers v).shard ref newRef) :
      CrewStep w e ((w.setWorker v { w.workers v with inbox := rest, phase := next }).enqueue newRef)
  | forwardTimer (v : Nat) (ref newRef : TaskRef) (now : Nat) (hasWorked : Bool) (deadline : Nat)
      (rest : List (Nat × TaskRef)) (hphase : (w.workers v).phase = .firing now hasWorked)
      (htimers : (w.workers v).shard.timers = (deadline, ref) :: rest) (hdue : deadline ≤ now)
      (hforward : Forwards (w.workers v).shard ref newRef) :
      CrewStep w e ((w.setWorker v { w.workers v with
        phase := .firing now true
        shard := { (w.workers v).shard with timers := rest } }).enqueue newRef)
  | serve (v : Nat) (request : StealRequest) (rest : List StealRequest) (reply : HandoffMsg)
      (shard : StealShard) (hphase : (w.workers v).phase = .serving)
      (hrequests : (w.workers v).requests = request :: rest)
      (hserve : (w.workers v).shard.serveSteal request = (reply, shard)) :
      CrewStep w e (w.setWorker v { w.workers v with
        requests := rest, shard, phase := .replying request.thiefId reply })
  | reply (v thief : Nat) (reply : HandoffMsg) (hphase : (w.workers v).phase = .replying thief reply) :
      CrewStep w e ((w.pushHandoff thief reply).setPhase v .receiving)
  | receive (v : Nat) (reply : HandoffMsg) (rest : List HandoffMsg) (installed : Option TaskRef)
      (shard : StealShard) (hphase : (w.workers v).phase = .receiving)
      (hhandoffs : (w.workers v).handoffs = reply :: rest)
      (hreceive : (w.workers v).shard.receiveHandoff reply = (installed, shard)) :
      CrewStep w e { w.setWorker v { w.workers v with
        handoffs := rest
        shard := { installed.elim shard shard.wakeLocal with pendingSteal := none } } with
        log := logReceived w.log reply.dest reply installed }
  | finish (v : Nat) (ref : TaskRef) (n : Nat) (isReady : Bool) (submitted : Nat)
      (hevent : e = .finishPoll v isReady submitted) (hphase : (w.workers v).phase = .polling ref n) :
      CrewStep w e (w.finishPoll v isReady submitted)
  | reap (v : Nat) (hasWorked : Bool) (parent child : TaskRef) (rest : List TaskRef)
      (hphase : (w.workers v).phase = .reaping hasWorked)
      (hqueue : (w.workers v).shard.reapQueue = parent :: rest)
      (hchild : (w.workers v).shard.firstSettledChild parent = some child) :
      CrewStep w e { w.setShard v
        (((w.workers v).shard.removeChild parent child).release child.key) with
        log := logRemoved w.log ((w.workers v).shard.header child.key) }
  | report (v index : Nat) (hasWorked : Bool) (origin : Origin)
      (hphase : (w.workers v).phase = .reporting index hasWorked)
      (hindex : index < (w.workers v).shard.tasks.slots.length)
      (horigin : (w.workers v).shard.origins index = some origin)
      (hsettled : (w.workers v).shard.isResidentSettled index = true)
      (hroom : (w.workers origin.victimId).notes.length < noteCapacity) :
      CrewStep w e (w.reportOne v index hasWorked)
  | ask (v : Nat) (hasWorked : Bool) (hphase : (w.workers v).phase = .passed hasWorked)
      (hlead : v ≠ w.lead) : CrewStep w e ((w.trySteal v).setPhase v .parking)
  | takeRoot (hasWorked : Bool) (hphase : (w.workers w.lead).phase = .passed hasWorked)
      (hsettled : w.isRootSettled = true) : CrewStep w e w.takeRootOutput
  | spawnRoot (key : SlabKey) (shard : StealShard) (hphase : (w.workers w.lead).phase = .outside)
      (hspawn : (w.workers w.lead).shard.spawnRoot = some (key, shard)) :
      CrewStep w e { w.setWorker w.lead { w.workers w.lead with shard, phase := .completing } with
        root := some key }

variable {w : CrewWorld} {v : Nat}

@[simp]
theorem setWorker_self (w : CrewWorld) (v : Nat) : w.setWorker v (w.workers v) = w := by
  simp [setWorker]

@[simp]
theorem setWorker_setWorker (w : CrewWorld) (v : Nat) (worker worker' : CrewWorker) :
    (w.setWorker v worker).setWorker v worker' = w.setWorker v worker' := by
  simp [setWorker]

@[simp]
theorem workers_setWorker (w : CrewWorld) (v : Nat) (worker : CrewWorker) :
    (w.setWorker v worker).workers v = worker := by
  simp [setWorker]

theorem workers_setWorker_of_ne {u : Nat} (worker : CrewWorker) (h : u ≠ v) :
    (w.setWorker v worker).workers u = w.workers u := by
  simp [setWorker, h]

end CrewWorld

namespace StealShard

theorem wakeLocal_of_awake {shard : StealShard} {ref : TaskRef}
    (h : ∀ header, shard.header ref.key = some header → header.state ≠ .sleeping) :
    shard.wakeLocal ref = shard := by
  unfold StealShard.wakeLocal Shard.wakeLocal
  cases hheader : shard.toShard.header ref.key with
  | none => rfl
  | some header =>
    have hne := h header hheader
    cases hwake : header.state.wake with
    | error => simp only [hwake]
    | ok => exact absurd (TaskState.wake_eq_ok.mp hwake).1 hne

theorem wakeOrForward_cases (shard : StealShard) (ref : TaskRef) :
    (∃ newRef, CrewWorld.Forwards shard ref newRef ∧ shard.wakeOrForward ref = (some newRef, shard)) ∨
      shard.wakeOrForward ref = (none, shard.wakeLocal ref) := by
  have hgone : (∀ header, shard.header ref.key = some header → header.state = .retired) →
      (∃ newRef, CrewWorld.Forwards shard ref newRef ∧
        (shard.lookup ref.key, shard) = (some newRef, shard)) ∨
        (shard.lookup ref.key, shard) = (none, shard.wakeLocal ref) := by
    intro hretired
    have hsame : shard.wakeLocal ref = shard := by
      apply wakeLocal_of_awake
      intro header hheader
      simp [hretired header hheader]
    cases hlookup : shard.lookup ref.key with
    | some newRef => exact .inl ⟨newRef, ⟨hretired, hlookup⟩, rfl⟩
    | none =>
      rw [hsame]
      exact .inr rfl
  unfold wakeOrForward
  cases hheader : shard.toShard.header ref.key with
  | none =>
    apply hgone
    intro header hsome
    rw [hheader] at hsome
    cases hsome
  | some =>
    simp only
    split
    case isTrue hretired =>
      apply hgone
      intro other hother
      rw [hheader] at hother
      cases hother
      exact hretired
    case isFalse => exact .inr rfl

end StealShard

namespace CrewWorld

variable {w : CrewWorld} {e : CrewEvent} {v : Nat}

theorem wakeOrForward_eq (w : CrewWorld) (v : Nat) (ref : TaskRef) :
    (∃ newRef, Forwards (w.workers v).shard ref newRef ∧ w.wakeOrForward v ref = w.enqueue newRef) ∨
      w.wakeOrForward v ref = w.setShard v ((w.workers v).shard.wakeLocal ref) := by
  unfold wakeOrForward
  rcases (w.workers v).shard.wakeOrForward_cases ref with ⟨newRef, hforward, heq⟩ | heq
  · refine .inl ⟨newRef, hforward, ?_⟩
    simp only [heq]
    congr 1
    exact setWorker_self w v
  · right
    simp only [heq]

theorem CrewStep.popWake {ref : TaskRef} {rest : List TaskRef} {next : CrewPhase}
    (hphase : (w.workers v).phase = .draining ∧ next = .draining ∨
      (w.workers v).phase = .parking ∧ next = .completing)
    (hinbox : (w.workers v).inbox = ref :: rest) :
    CrewStep w e
      ((w.setWorker v { w.workers v with inbox := rest, phase := next }).wakeOrForward v ref) := by
  rcases (w.setWorker v { w.workers v with inbox := rest, phase := next }).wakeOrForward_eq v ref with
    ⟨newRef, hforward, heq⟩ | heq
  · rw [workers_setWorker] at hforward
    rw [heq]
    exact .forward v ref newRef rest next hphase hinbox hforward
  · rw [heq, setShard, workers_setWorker, setWorker_setWorker]
    exact .turn v _ (.wake ref rest next hphase hinbox)

theorem CrewStep.drainWake (hphase : (w.workers v).phase = .draining) (now : Nat) :
    CrewStep w e (w.drainWake v (.firing now false)) := by
  unfold CrewWorld.drainWake
  dsimp only
  cases hinbox : (w.workers v).inbox with
  | nil =>
    refine .turn v _ (.advance _ ?_)
    rw [hphase]
    exact .firing now
  | cons =>
    have hpop := CrewStep.popWake (e := e) (.inl ⟨hphase, rfl⟩) hinbox
    simpa only [← hphase] using hpop

theorem CrewStep.fireTimer {now : Nat} {hasWorked : Bool}
    (hphase : (w.workers v).phase = .firing now hasWorked) :
    CrewStep w e (w.fireTimer v now hasWorked) := by
  have htick : CrewStep w e (w.setPhase v (.ticking (w.workers v).shard.runQueue.length hasWorked)) := by
    refine .turn v _ (.advance _ ?_)
    rw [hphase]
    exact .ticking now hasWorked _
  unfold CrewWorld.fireTimer
  dsimp only
  cases htimers : (w.workers v).shard.timers with
  | nil => exact htick
  | cons timer rest =>
    obtain ⟨deadline, ref⟩ := timer
    simp only
    split
    case isFalse => exact htick
    case isTrue hdue =>
      rcases (w.setWorker v { w.workers v with
          shard := { (w.workers v).shard with timers := rest }
          phase := .firing now true }).wakeOrForward_eq v ref with ⟨newRef, hforward, heq⟩ | heq
      · rw [workers_setWorker] at hforward
        rw [heq]
        exact .forwardTimer v ref newRef now hasWorked deadline rest hphase htimers hdue hforward
      · rw [heq, setShard, workers_setWorker, setWorker_setWorker]
        exact .turn v _ (.fire now hasWorked deadline ref rest hphase htimers hdue)

theorem CrewStep.tickOne {n : Nat} {hasWorked : Bool}
    (hphase : (w.workers v).phase = .ticking (n + 1) hasWorked) :
    CrewStep w e (w.tickOne v n hasWorked) := by
  unfold CrewWorld.tickOne Shard.startPoll
  dsimp only
  cases hqueue : (w.workers v).shard.runQueue with
  | nil =>
    refine .turn v _ (.advance _ ?_)
    rw [hphase]
    exact .arming _ hasWorked
  | cons ref rest =>
    simp only
    cases hheader : ({ (w.workers v).shard.toShard with runQueue := rest } : Shard).header ref.key with
    | none =>
      refine .turn v _ (.skip n hasWorked hasWorked ref rest hphase hqueue ?_)
      intro header hsome
      have hnone : (w.workers v).shard.header ref.key = none := hheader
      rw [hnone] at hsome
      cases hsome
    | some header =>
      simp only
      cases hstart : header.state.tryStartPoll with
      | error =>
        refine .turn v _ (.skip n hasWorked true ref rest hphase hqueue ?_)
        intro other hother
        have hsome : (w.workers v).shard.header ref.key = some header := hheader
        rw [hsome] at hother
        cases hother
        intro hwoken
        rw [TaskState.tryStartPoll_eq_ok.mpr ⟨hwoken, rfl⟩] at hstart
        cases hstart
      | ok =>
        obtain ⟨hwoken, rfl⟩ := TaskState.tryStartPoll_eq_ok.mp hstart
        exact .turn v _ (.start n hasWorked ref rest header hphase hqueue hheader hwoken)

theorem CrewStep.reportOne {index : Nat} {hasWorked : Bool}
    (hphase : (w.workers v).phase = .reporting index hasWorked) :
    CrewStep w e (w.reportOne v index hasWorked) := by
  have hnext : CrewStep w e (w.setPhase v (.reporting (index + 1) hasWorked)) := by
    refine .turn v _ (.advance _ ?_)
    rw [hphase]
    exact .reported index hasWorked
  by_cases hindex : index < (w.workers v).shard.tasks.slots.length
  case neg =>
    rw [CrewWorld.reportOne, if_neg hindex]
    refine .turn v _ (.advance _ ?_)
    rw [hphase]
    exact .passed index hasWorked
  case pos =>
    cases horigin : (w.workers v).shard.origins index with
    | none => simpa only [CrewWorld.reportOne, if_pos hindex, horigin] using hnext
    | some origin =>
      by_cases hreport : (w.workers v).shard.isResidentSettled index ∧
          (w.workers origin.victimId).notes.length < noteCapacity
      · exact .report v index hasWorked origin hphase hindex horigin hreport.1 hreport.2
      · have hsame : ((w.setPhase v (.reporting (index + 1) hasWorked)).workers origin.victimId).notes =
            (w.workers origin.victimId).notes := by
          by_cases hv : origin.victimId = v
          · rw [hv, setPhase, workers_setWorker]
          · rw [setPhase, workers_setWorker_of_ne _ hv]
        simpa only [CrewWorld.reportOne, if_pos hindex, horigin, hsame, if_neg hreport] using hnext

theorem CrewStep.endPass {hasWorked : Bool} (hphase : (w.workers v).phase = .passed hasWorked) :
    CrewStep w e (w.endPass v hasWorked) := by
  have hadvance : ∀ next, CrewPhase.Next (w.workers v).shard (.passed hasWorked) next →
      CrewStep w e (w.setPhase v next) := by
    intro next hnext
    refine .turn v _ (.advance _ ?_)
    rw [hphase]
    exact hnext
  unfold CrewWorld.endPass
  split
  case isTrue hroot =>
    obtain ⟨rfl, hsettled⟩ := hroot
    exact .takeRoot hasWorked hphase hsettled
  case isFalse =>
    split
    case isTrue => exact hadvance _ (.repeating hasWorked)
    case isFalse =>
      split
      case isTrue => exact hadvance _ (.parking hasWorked)
      case isFalse hlead => exact .ask v hasWorked hphase hlead

theorem CrewStep.park (hphase : (w.workers v).phase = .parking) : CrewStep w e (w.park v) := by
  unfold CrewWorld.park
  dsimp only
  cases hinbox : (w.workers v).inbox with
  | cons => exact CrewStep.popWake (.inr ⟨hphase, rfl⟩) hinbox
  | nil =>
    refine .turn v _ (.advance _ ?_)
    rw [hphase]
    split
    · exact .blocked
    · exact .resuming

theorem CrewStep.advance {next : CrewPhase}
    (hnext : (w.workers v).phase.Next (w.workers v).shard next) : CrewStep w e (w.setPhase v next) :=
  .turn v _ (.advance next hnext)

theorem CrewStep.work (w : CrewWorld) (v : Nat) : CrewStep w e (w.work v) := by
  unfold CrewWorld.work
  split <;> rename_i hphase
  · exact .advance (hphase ▸ .noting)
  · unfold drainNote
    dsimp only
    cases hnotes : (w.workers v).notes with
    | nil => exact .advance (hphase ▸ .serving)
    | cons key rest => exact .turn v _ (.note key rest hphase hnotes)
  · unfold serveSteals
    dsimp only
    cases hrequests : (w.workers v).requests with
    | nil => exact .advance (hphase ▸ .receiving)
    | cons request rest => exact .serve v request rest _ _ hphase hrequests rfl
  · exact .reply v _ _ hphase
  · unfold receiveHandoff
    dsimp only
    cases hhandoffs : (w.workers v).handoffs with
    | nil => exact .advance (hphase ▸ .draining)
    | cons reply rest => exact .receive v reply rest _ _ hphase hhandoffs rfl
  · exact .drainWake hphase w.clock
  · exact .fireTimer hphase
  · exact .advance (hphase ▸ .arming 0 _)
  · exact .tickOne hphase
  · unfold armTimer
    dsimp only
    cases hrequests : (w.workers v).shard.timerRequests with
    | nil => exact .advance (hphase ▸ .spawning _)
    | cons request rest => exact .turn v _ (.arm _ request rest _ hphase hrequests)
  · split
    case isTrue hinbox => exact .advance (hphase ▸ .reaping _ hinbox)
    case isFalse => exact .same
  · unfold reapOne
    dsimp only
    cases hqueue : (w.workers v).shard.reapQueue with
    | nil => exact .advance (hphase ▸ .reporting _ hqueue)
    | cons parent rest =>
      dsimp only
      cases hchild : (w.workers v).shard.firstSettledChild parent with
      | some child => exact .reap v _ parent child rest hphase hqueue hchild
      | none => exact .turn v _ (.skipReap _ parent rest hphase hqueue hchild)
  · exact .reportOne hphase
  · exact .endPass hphase
  · exact .park hphase
  all_goals exact .same

theorem CrewStep.stall (w : CrewWorld) (v : Nat) : CrewStep w e (w.stall v) := by
  unfold CrewWorld.stall
  split <;> rename_i hphase
  · exact .advance (hphase ▸ .serving)
  · exact .advance (hphase ▸ .receiving)
  · exact .advance (hphase ▸ .draining)
  · exact .advance (hphase ▸ .firing w.clock)
  · exact .advance (hphase ▸ .blocked)
  · exact .same

theorem CrewStep.drainSpawn (w : CrewWorld) (v : Nat) (isPinned : Bool) :
    CrewStep w e (w.drainSpawn v isPinned) := by
  unfold CrewWorld.drainSpawn
  dsimp only
  split
  case h_2 => exact .same
  case h_1 hasWorked parent rest hphase hinbox =>
    cases hspawn : { (w.workers v).shard with spawnInbox := rest }.spawn parent isPinned with
    | some shard => exact .turn v _ (.spawn hasWorked isPinned parent rest shard hphase hinbox hspawn)
    | none => exact .advance (hphase ▸ .dead hasWorked)

theorem step_cases (w : CrewWorld) (e : CrewEvent) : CrewStep w e (w.step e) := by
  cases e with
  | wake ref => exact .send ref rfl
  | elapse ticks => exact .elapse ticks
  | spawnRoot =>
    simp only [step, spawnRoot]
    split
    case isFalse => exact .same
    case isTrue hphase =>
      cases hspawn : (w.workers w.lead).shard.spawnRoot with
      | some result => exact .spawnRoot result.1 result.2 hphase hspawn
      | none => exact .advance (hphase ▸ .refused)
  | complete v completion =>
    simp only [step]
    split
    case isTrue hphase => exact .turn v _ (.complete completion hphase)
    case isFalse => exact .same
  | requestTimer v delayTicks =>
    simp only [step, requestTimer]
    split
    case h_1 ref n hphase => exact .turn v _ (.requestTimer ref n delayTicks hphase)
    case h_2 => exact .same
  | pushSpawn v =>
    simp only [step, pushSpawn]
    split
    case h_1 ref n hphase => exact .turn v _ (.pushSpawn ref n hphase)
    case h_2 => exact .same
  | pollScope v =>
    simp only [step, pollScope]
    split
    case h_1 ref n hphase =>
      split
      case isTrue hsettled => exact .turn v _ (.pollScope ref n hphase hsettled)
      case isFalse => exact .same
    case h_2 => exact .same
  | finishPoll v isReady submitted =>
    cases hphase : (w.workers v).phase with
    | polling ref n => exact .finish v ref n isReady submitted rfl hphase
    | _ =>
      simp only [step, finishPoll, hphase]
      exact .same
  | unwindPoll v =>
    simp only [step]
    split
    case h_1 ref n hphase => exact .advance (hphase ▸ .unwound ref n)
    case h_2 => exact .same
  | spawn v isPinned => exact .drainSpawn w v isPinned
  | work v => exact .work w v
  | stall v => exact .stall w v
  | unpark =>
    simp only [step]
    split
    case isTrue hphase => exact .advance (hphase ▸ .unparked)
    case isFalse => exact .same

end CrewWorld

end Kwokka
