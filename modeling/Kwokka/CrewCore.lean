import Kwokka.CrewShard

/-! What a step of a crew does to the task slab of the one worker that takes it. Most steps
keep every task in its slot and on its list; the others are named one by one. -/

namespace Kwokka

open Function CrewWorld

def TaskState.Stirs (s s' : TaskState) : Prop :=
  s' = s ∨ s = .sleeping ∧ (s' = .woken ∨ s' = .running) ∨ s = .woken ∧ s' = .running

theorem TaskState.Stirs.trans {s s' s'' : TaskState} (h : s.Stirs s') (h' : s'.Stirs s'') :
    s.Stirs s'' := by
  unfold TaskState.Stirs at *
  cases s <;> simp_all <;> grind

structure TaskHeader.Keeps (header header' : TaskHeader) : Prop where
  pip : header'.pip = header.pip
  firstChild : header'.firstChild = header.firstChild
  nextSibling : header'.nextSibling = header.nextSibling
  isPinned : header'.isPinned = header.isPinned
  isRemoteSettled : header'.isRemoteSettled = header.isRemoteSettled
  state : header.state.Stirs header'.state

namespace TaskHeader.Keeps

variable {header header' header'' : TaskHeader}

theorem refl (header : TaskHeader) : header.Keeps header := ⟨rfl, rfl, rfl, rfl, rfl, .inl rfl⟩

theorem trans (h : header.Keeps header') (h' : header'.Keeps header'') : header.Keeps header'' where
  pip := h'.pip.trans h.pip
  firstChild := h'.firstChild.trans h.firstChild
  nextSibling := h'.nextSibling.trans h.nextSibling
  isPinned := h'.isPinned.trans h.isPinned
  isRemoteSettled := h'.isRemoteSettled.trans h.isRemoteSettled
  state := h.state.trans h'.state

theorem storeIoResult (header : TaskHeader) (result : Int) (flags : UInt32) (bufId : Option UInt16) :
    header.Keeps (header.storeIoResult result flags bufId) := ⟨rfl, rfl, rfl, rfl, rfl, .inl rfl⟩

theorem retireInFlightOp (header : TaskHeader) : header.Keeps header.retireInFlightOp :=
  ⟨rfl, rfl, rfl, rfl, rfl, .inl rfl⟩

theorem running (h : header.Keeps header') (hrunning : header.state = .running) :
    header'.state = .running := by
  rcases h.state with hsame | ⟨hsleeping, -⟩ | ⟨hwoken, -⟩
  · rw [hsame, hrunning]
  · rw [hrunning] at hsleeping
    cases hsleeping
  · rw [hrunning] at hwoken
    cases hwoken

theorem retired_iff (h : header.Keeps header') : header'.state = .retired ↔ header.state = .retired := by
  rcases h.state with hsame | ⟨hsleeping, hwoken | hrunning⟩ | ⟨hwoken, hrunning⟩
  · rw [hsame]
  all_goals simp [*]

theorem over_eq (h : header.Keeps header') : header'.state.isSettled = header.state.isSettled := by
  rcases h.state with hsame | ⟨hsleeping, hwoken | hrunning⟩ | ⟨hwoken, hrunning⟩
  · rw [hsame]
  all_goals
    simp only [*]
    rfl

theorem isSettled_eq (h : header.Keeps header') : header'.isSettled = header.isSettled := by
  unfold TaskHeader.isSettled
  by_cases hretired : header.state = .retired
  · rw [if_pos hretired, if_pos (h.retired_iff.mpr hretired), h.isRemoteSettled]
  · rw [if_neg hretired, if_neg (fun hr => hretired (h.retired_iff.mp hr)), h.over_eq]

end TaskHeader.Keeps

structure StealShard.Rewrites (shard shard' : StealShard) : Prop where
  wf : shard'.tasks.WF
  id : shard'.id = shard.id
  reserved : shard'.tasks.isReserved = shard.tasks.isReserved
  spawnInbox : shard'.spawnInbox = shard.spawnInbox
  reapQueue : shard'.reapQueue = shard.reapQueue
  forward : shard'.forward = shard.forward
  origins : shard'.origins = shard.origins
  pendingSteal : shard'.pendingSteal = shard.pendingSteal
  pipSeq : shard'.pipSeq = shard.pipSeq
  cell : ∀ key, Option.Rel TaskHeader.Keeps (shard.header key) (shard'.header key)

namespace StealShard.Rewrites

variable {shard shard' shard'' : StealShard} {key : SlabKey}

theorem of_eq (hwf : shard'.tasks.WF) (htasks : shard'.tasks = shard.tasks) (hid : shard'.id = shard.id)
    (hspawn : shard'.spawnInbox = shard.spawnInbox) (hreap : shard'.reapQueue = shard.reapQueue)
    (hforward : shard'.forward = shard.forward) (horigins : shard'.origins = shard.origins)
    (hpending : shard'.pendingSteal = shard.pendingSteal) (hpip : shard'.pipSeq = shard.pipSeq) :
    shard.Rewrites shard' where
  wf := hwf
  id := hid
  reserved := by rw [htasks]
  spawnInbox := hspawn
  reapQueue := hreap
  forward := hforward
  origins := horigins
  pendingSteal := hpending
  pipSeq := hpip
  cell key := by
    have hheader : shard'.header key = shard.header key := by
      show shard'.tasks.stored key = shard.tasks.stored key
      rw [htasks]
    rw [hheader]
    cases shard.header key with
    | none => exact .none
    | some header => exact .some (.refl header)

theorem refl (hwf : shard.tasks.WF) : shard.Rewrites shard :=
  .of_eq hwf rfl rfl rfl rfl rfl rfl rfl rfl

theorem trans (h : shard.Rewrites shard') (h' : shard'.Rewrites shard'') : shard.Rewrites shard'' where
  wf := h'.wf
  id := h'.id.trans h.id
  reserved := h'.reserved.trans h.reserved
  spawnInbox := h'.spawnInbox.trans h.spawnInbox
  reapQueue := h'.reapQueue.trans h.reapQueue
  forward := h'.forward.trans h.forward
  origins := h'.origins.trans h.origins
  pendingSteal := h'.pendingSteal.trans h.pendingSteal
  pipSeq := h'.pipSeq.trans h.pipSeq
  cell key := by
    have hfirst := h.cell key
    have hsecond := h'.cell key
    cases hheader : shard'.header key with
    | none =>
      rw [hheader] at hfirst hsecond
      cases hold : shard.header key with
      | none =>
        cases hnew : shard''.header key with
        | none => exact .none
        | some =>
          rw [hnew] at hsecond
          cases hsecond
      | some =>
        rw [hold] at hfirst
        cases hfirst
    | some =>
      rw [hheader] at hfirst hsecond
      generalize hold : shard.header key = old at hfirst
      generalize hnew : shard''.header key = new at hsecond
      cases hfirst with
      | some hkeeps =>
        cases hsecond with
        | some hkeeps' => exact .some (hkeeps.trans hkeeps')

theorem write {header header' : TaskHeader} {tasks : Slab TaskHeader} (runQueue : List TaskRef)
    (hkey : shard.header key = some header) (hkeeps : header.Keeps header')
    (hshows : tasks.Shows (update shard.tasks.stored key (some header'))
      shard.tasks.isReserved) :
    shard.Rewrites { shard with tasks, runQueue } where
  wf := hshows.wf
  id := rfl
  reserved := hshows.reserved
  spawnInbox := rfl
  reapQueue := rfl
  forward := rfl
  origins := rfl
  pendingSteal := rfl
  pipSeq := rfl
  cell k := by
    show Option.Rel _ (shard.tasks.stored k) (tasks.stored k)
    rw [hshows.stored]
    by_cases hk : k = key
    · subst hk
      have hcell : shard.tasks.stored k = some header := hkey
      rw [hcell, update_self]
      exact .some hkeeps
    · rw [update_of_ne hk]
      cases shard.tasks.stored k with
      | none => exact .none
      | some header => exact .some (.refl header)

theorem modify {header : TaskHeader} (hwf : shard.tasks.WF) (hkey : shard.header key = some header)
    (f : TaskHeader → TaskHeader) (hf : header.Keeps (f header)) :
    shard.Rewrites (shard.modify key f) := by
  obtain ⟨tasks, heq, hshows⟩ := modify_eq hwf hkey f
  rw [heq]
  exact write shard.runQueue hkey hf hshows

theorem wakeLocal (hwf : shard.tasks.WF) (ref : TaskRef) : shard.Rewrites (shard.wakeLocal ref) := by
  rcases wakeLocal_cases hwf ref with heq | ⟨header, tasks, hkey, hsleeping, heq, hshows⟩
  · rw [heq]
    exact .refl hwf
  · rw [heq]
    refine write _ hkey ?_ hshows
    exact ⟨rfl, rfl, rfl, rfl, rfl, .inr (.inl ⟨hsleeping, .inl rfl⟩)⟩

end StealShard.Rewrites

namespace CrewPhase

def isTick : CrewPhase → Bool
  | .ticking _ _ | .polling _ _ | .arming _ => true
  | _ => false

def holdsSpawns : CrewPhase → Bool
  | .spawning _ | .dead => true
  | phase => phase.isTick

def holdsReaps : CrewPhase → Bool
  | .reaping _ => true
  | phase => phase.holdsSpawns

def isPolling : CrewPhase → Bool
  | .polling _ _ => true
  | _ => false

def isOutside : CrewPhase → Bool
  | .outside => true
  | _ => false

structure Passes (shard : StealShard) (phase phase' : CrewPhase) : Prop where
  spawns : phase.holdsSpawns = true → phase'.holdsSpawns = true ∨ shard.spawnInbox = []
  reaps : phase.holdsReaps = true → phase'.holdsReaps = true ∨ shard.reapQueue = []
  tick : phase'.isTick = true → phase.isTick = true ∨ phase.holdsReaps = false
  outside : phase' = .outside → phase = .outside
  polling : ∀ ref n, phase' = .polling ref n → phase = .polling ref n
  replying : ∀ thief reply, phase' = .replying thief reply → phase = .replying thief reply

theorem Passes.refl (shard : StealShard) (phase : CrewPhase) : Passes shard phase phase :=
  ⟨.inl, .inl, .inl, id, fun _ _ h => h, fun _ _ h => h⟩

theorem Next.passes {shard : StealShard} {phase phase' : CrewPhase} (h : phase.Next shard phase') :
    Passes shard phase phase' := by
  cases h <;> constructor <;> simp_all [holdsSpawns, holdsReaps, isTick]

end CrewPhase

def HandoffMsg.Loose : HandoffMsg → Prop
  | .delivered _ _ task => task.cell.firstChild = none ∧ task.cell.state = .sleeping
  | .declined _ => True

/-- What the steps of one worker read and write of their own, the root of `block_on` included. -/
structure CrewView where
  shard : StealShard
  phase : CrewPhase
  root : Option SlabKey

structure CrewDesk extends CrewView where
  requests : List StealRequest
  handoffs : List HandoffMsg
  notes : List SlabKey

inductive Letter
  | request (request : StealRequest)
  | handoff (reply : HandoffMsg)
  | note (key : SlabKey)

/-- A request and a note are sent only where there is room; a reply is not held back. -/
def CrewDesk.post (desk : CrewDesk) : Letter → CrewDesk
  | .request request => { desk with requests := desk.requests ++ [request] }
  | .handoff reply =>
    if desk.handoffs.length < handoffCapacity then { desk with handoffs := desk.handoffs ++ [reply] }
    else desk
  | .note key => { desk with notes := desk.notes ++ [key] }

def CrewDesk.deliver (desk : CrewDesk) (u : Nat) : Option (Nat × Letter) → CrewDesk
  | none => desk
  | some (target, letter) => if u = target then desk.post letter else desk

theorem CrewDesk.deliver_view (desk : CrewDesk) (u : Nat) (letter : Option (Nat × Letter)) :
    (desk.deliver u letter).toCrewView = desk.toCrewView := by
  unfold deliver
  split
  · rfl
  · split
    · unfold post
      split
      · rfl
      · split <;> rfl
      · rfl
    · rfl

theorem CrewDesk.deliver_with (desk : CrewDesk) (view : CrewView) (u : Nat)
    (letter : Option (Nat × Letter)) :
    ({ desk with toCrewView := view } : CrewDesk).deliver u letter =
      { desk.deliver u letter with toCrewView := view } := by
  unfold deliver
  split
  · rfl
  · split
    · unfold post
      split
      · rfl
      · dsimp only
        split <;> rfl
      · rfl
    · rfl

theorem CrewDesk.mem_handoffs_deliver {desk : CrewDesk} {u : Nat} {letter : Option (Nat × Letter)}
    {reply : HandoffMsg} (h : reply ∈ (desk.deliver u letter).handoffs) :
    reply ∈ desk.handoffs ∨ letter = some (u, .handoff reply) := by
  unfold deliver at h
  split at h
  · exact .inl h
  · split at h
    case isFalse => exact .inl h
    case isTrue target letter hu =>
      subst hu
      unfold post at h
      split at h
      · exact .inl h
      · split at h
        · rcases List.mem_append.mp h with hold | hnew
          · exact .inl hold
          · rw [List.mem_singleton.mp hnew]
            exact .inr rfl
        · exact .inl h
      · exact .inl h

def CrewWorker.desk (worker : CrewWorker) (root : Option SlabKey) : CrewDesk where
  shard := worker.shard
  phase := worker.phase
  root := root
  requests := worker.requests
  handoffs := worker.handoffs
  notes := worker.notes

def CrewWorld.rootAt (w : CrewWorld) (v : Nat) : Option SlabKey := if v = w.lead then w.root else none

def CrewWorld.desk (w : CrewWorld) (v : Nat) : CrewDesk := (w.workers v).desk (w.rootAt v)

inductive CrewAct (e : CrewEvent) (v : Nat) (desk : CrewDesk) (log : CrewLog) :
    CrewDesk → CrewLog → Option (Nat × Letter) → Prop
  | quiet (shard : StealShard) (phase : CrewPhase) (hrewrites : desk.shard.Rewrites shard)
      (hpasses : CrewPhase.Passes desk.shard desk.phase phase) :
      CrewAct e v desk log { desk with shard, phase } log none
  | start (shard : StealShard) (n : Nat) (hasWorked : Bool) (ref : TaskRef) (header : TaskHeader)
      (hphase : desk.phase = .ticking (n + 1) hasWorked) (hrewrites : desk.shard.Rewrites shard)
      (hheader : shard.header ref.key = some header) (hrunning : header.state = .running) :
      CrewAct e v desk log { desk with shard, phase := .polling ref n } log none
  | note (key : SlabKey) (rest : List SlabKey) (hphase : desk.phase = .noting)
      (hnotes : desk.notes = key :: rest) :
      CrewAct e v desk log { desk with shard := desk.shard.markSettled key, notes := rest } log none
  | pushSpawn (ref : TaskRef) (n : Nat) (hphase : desk.phase = .polling ref n) :
      CrewAct e v desk log
        { desk with shard := { desk.shard with spawnInbox := desk.shard.spawnInbox ++ [ref] } } log none
  | pollScope (ref : TaskRef) (n : Nat) (hphase : desk.phase = .polling ref n)
      (hsettled : ∀ child ∈ desk.shard.iterChildren ref, desk.shard.isChildSettled child = true) :
      CrewAct e v desk log
        { desk with shard := { desk.shard with reapQueue := desk.shard.reapQueue ++ [ref] } } log none
  | spawn (hasWorked isPinned : Bool) (parent : TaskRef) (rest : List TaskRef) (shard : StealShard)
      (hphase : desk.phase = .spawning hasWorked) (hinbox : desk.shard.spawnInbox = parent :: rest)
      (hspawn : { desk.shard with spawnInbox := rest }.spawn parent isPinned = some shard) :
      CrewAct e v desk log { desk with shard } log none
  | skipReap (hasWorked : Bool) (parent : TaskRef) (rest : List TaskRef)
      (hphase : desk.phase = .reaping hasWorked) (hqueue : desk.shard.reapQueue = parent :: rest)
      (hnone : desk.shard.firstSettledChild parent = none) :
      CrewAct e v desk log { desk with shard := { desk.shard with reapQueue := rest } } log none
  | serve (request : StealRequest) (rest : List StealRequest) (reply : HandoffMsg) (shard : StealShard)
      (hphase : desk.phase = .serving) (hrequests : desk.requests = request :: rest)
      (hserve : desk.shard.serveSteal request = (reply, shard)) :
      CrewAct e v desk log
        { desk with shard, requests := rest, phase := .replying request.thiefId reply } log none
  | reply (thief : Nat) (reply : HandoffMsg) (hphase : desk.phase = .replying thief reply) :
      CrewAct e v desk log { desk with phase := .receiving } log (some (thief, .handoff reply))
  | receive (reply : HandoffMsg) (rest : List HandoffMsg) (installed : Option TaskRef)
      (shard : StealShard) (hphase : desk.phase = .receiving) (hhandoffs : desk.handoffs = reply :: rest)
      (hreceive : desk.shard.receiveHandoff reply = (installed, shard)) :
      CrewAct e v desk log
        { desk with
          handoffs := rest
          shard := { installed.elim shard shard.wakeLocal with pendingSteal := none } }
        (logReceived log reply.dest reply installed) none
  | finish (ref : TaskRef) (n : Nat) (isReady : Bool) (submitted : Nat)
      (hevent : e = .finishPoll v isReady submitted) (hphase : desk.phase = .polling ref n) :
      CrewAct e v desk log
        { desk with
          shard := { desk.shard with toShard := desk.shard.toShard.finishPoll ref isReady submitted }
          phase := .ticking n true }
        { log with
          settled := (if isReady then ((desk.shard.header ref.key).map (·.pip)).toList else []) ++
            log.settled } none
  | reap (hasWorked : Bool) (parent child : TaskRef) (rest : List TaskRef)
      (hphase : desk.phase = .reaping hasWorked) (hqueue : desk.shard.reapQueue = parent :: rest)
      (hchild : desk.shard.firstSettledChild parent = some child) :
      CrewAct e v desk log
        { desk with shard := (desk.shard.removeChild parent child).release child.key }
        (logRemoved log (desk.shard.header child.key)) none
  | report (index : Nat) (hasWorked : Bool) (origin : Origin)
      (hphase : desk.phase = .reporting index hasWorked)
      (horigin : desk.shard.origins index = some origin)
      (hsettled : desk.shard.isResidentSettled index = true) :
      CrewAct e v desk log
        { desk with
          shard := desk.shard.releaseResident index, phase := .reporting (index + 1) hasWorked }
        (logRemoved log (desk.shard.tasks.getByIndex index))
        (some (origin.victimId, .note origin.victimKey))
  | ask (victim cursor : Nat) (key : SlabKey) (tasks : Slab TaskHeader) (hasWorked : Bool)
      (hphase : desk.phase = .passed hasWorked) (hpending : desk.shard.pendingSteal = none)
      (hvacant : ∀ g, desk.shard.tasks.stored ⟨key.index, g⟩ = none)
      (hfree : ∀ g, desk.shard.tasks.isReserved ⟨key.index, g⟩ = false)
      (hshows : tasks.Shows desk.shard.tasks.stored
        (update desk.shard.tasks.isReserved key true)) :
      CrewAct e v desk log
        { desk with
          shard := { desk.shard with tasks, stealCursor := cursor, pendingSteal := some key }
          phase := .parking }
        { log with reservations := ⟨desk.shard.id, key⟩ :: log.reservations }
        (some (victim, .request ⟨desk.shard.id, ⟨desk.shard.id, key⟩⟩))
  | bounce (cursor : Nat) (key : SlabKey) (tasks : Slab TaskHeader) (hasWorked : Bool)
      (hphase : desk.phase = .passed hasWorked) (hpending : desk.shard.pendingSteal = none)
      (hshows : tasks.Shows desk.shard.tasks.stored desk.shard.tasks.isReserved) :
      CrewAct e v desk log
        { desk with shard := { desk.shard with tasks, stealCursor := cursor }, phase := .parking }
        { log with
          reservations := ⟨desk.shard.id, key⟩ :: log.reservations
          withdrawals := ⟨desk.shard.id, key⟩ :: log.withdrawals } none
  | takeRoot (hasWorked : Bool) (key : SlabKey) (header : TaskHeader) (tasks : Slab TaskHeader)
      (hphase : desk.phase = .passed hasWorked) (hroot : desk.root = some key)
      (hheader : desk.shard.header key = some header) (hdone : header.state = .done)
      (hshows : tasks.Shows (update desk.shard.tasks.stored key none)
        desk.shard.tasks.isReserved) :
      CrewAct e v desk log
        { desk with shard := { desk.shard with tasks }, phase := .outside, root := none }
        (logRemoved log (desk.shard.header key)) none
  | spawnRoot (key : SlabKey) (shard : StealShard) (hphase : desk.phase = .outside)
      (hspawn : desk.shard.spawnRoot = some (key, shard)) :
      CrewAct e v desk log { desk with shard, phase := .completing, root := some key } log none

namespace CrewAct

variable {e : CrewEvent} {v : Nat} {desk desk' : CrewDesk} {log log' : CrewLog}
  {letter : Option (Nat × Letter)}

theorem handoffs_subset (h : CrewAct e v desk log desk' log' letter) :
    desk'.handoffs ⊆ desk.handoffs := by
  cases h with
  | receive reply rest installed shard hphase hhandoffs =>
    rw [hhandoffs]
    exact List.subset_cons_self reply rest
  | _ => exact fun _ hreply => hreply

theorem replying (h : CrewAct e v desk log desk' log' letter) {thief : Nat} {reply : HandoffMsg}
    (hreplying : desk'.phase = .replying thief reply) : desk.phase = .replying thief reply ∨
      ∃ request, (desk.shard.serveSteal request).1 = reply := by
  cases h with
  | quiet shard phase hrewrites hpasses => exact .inl (hpasses.replying thief reply hreplying)
  | serve request rest reply' shard hphase hrequests hserve =>
    cases hreplying
    exact .inr ⟨request, by rw [hserve]⟩
  | note | pushSpawn | pollScope | spawn | skipReap | receive | reap => exact .inl hreplying
  | start | reply | finish | report | ask | bounce | takeRoot | spawnRoot => cases hreplying

theorem handoff_sent (h : CrewAct e v desk log desk' log' letter) {thief : Nat} {reply : HandoffMsg}
    (hletter : letter = some (thief, .handoff reply)) : desk.phase = .replying thief reply := by
  cases h with
  | reply thief' reply' hphase =>
    cases hletter
    exact hphase
  | _ => cases hletter

end CrewAct

theorem CrewWorld.completeOne_rewrites {shard : StealShard} (hwf : shard.tasks.WF)
    (completion : CrewCompletion) : shard.Rewrites (completeOne shard completion) := by
  cases completion with
  | stored key result flags bufId =>
    unfold completeOne
    dsimp only
    split
    case h_2 => exact .refl hwf
    case h_1 header hkey =>
      have hmodify := StealShard.Rewrites.modify hwf hkey (·.storeIoResult result flags bufId)
        (.storeIoResult header result flags bufId)
      exact hmodify.trans (.wakeLocal hmodify.wf _)
  | notified => exact .wakeLocal hwf _
  | multishot wake retire =>
    have hwoken : shard.Rewrites (wake.elim shard fun key => shard.wakeLocal ⟨shard.id, key⟩) := by
      cases wake with
      | none => exact .refl hwf
      | some => exact .wakeLocal hwf _
    unfold completeOne
    cases retire with
    | none => exact hwoken
    | some =>
      dsimp only
      split
      case h_1 header hkey => exact hwoken.trans (.modify hwoken.wf hkey _ (.retireInFlightOp header))
      case h_2 => exact hwoken

namespace CrewTurn

variable {e : CrewEvent} {v : Nat} {worker worker' : CrewWorker} {root : Option SlabKey} {log : CrewLog}

theorem act (hwf : worker.shard.tasks.WF) (h : CrewTurn worker worker') :
    CrewAct e v (worker.desk root) log (worker'.desk root) log none := by
  cases h with
  | advance next hnext => exact .quiet _ _ (.refl hwf) hnext.passes
  | complete completion =>
    exact .quiet _ _ (completeOne_rewrites hwf completion) (.refl _ _)
  | note key rest hphase hnotes => exact .note key rest hphase hnotes
  | wake ref rest next hphase =>
    refine .quiet _ _ (.wakeLocal hwf ref) ?_
    show CrewPhase.Passes _ worker.phase next
    rcases hphase with ⟨hphase, rfl⟩ | ⟨hphase, rfl⟩
    · rw [hphase]
      exact .refl _ _
    · rw [hphase]
      exact CrewPhase.Next.resuming.passes
  | fire now hasWorked deadline ref rest hphase =>
    have htimer : worker.shard.Rewrites { worker.shard with timers := rest } :=
      .of_eq hwf rfl rfl rfl rfl rfl rfl rfl rfl
    refine .quiet _ _ (htimer.trans (.wakeLocal htimer.wf ref)) ?_
    show CrewPhase.Passes _ worker.phase _
    rw [hphase]
    constructor <;> simp [CrewPhase.holdsSpawns, CrewPhase.holdsReaps, CrewPhase.isTick]
  | skip n hasWorked hasWorked' ref rest hphase =>
    refine .quiet _ _ (.of_eq hwf rfl rfl rfl rfl rfl rfl rfl rfl) ?_
    show CrewPhase.Passes _ worker.phase _
    rw [hphase]
    constructor <;> simp [CrewPhase.holdsSpawns, CrewPhase.holdsReaps, CrewPhase.isTick]
  | start n hasWorked ref rest header hphase hqueue hheader hwoken =>
    have hpop : worker.shard.Rewrites { worker.shard with runQueue := rest } :=
      .of_eq hwf rfl rfl rfl rfl rfl rfl rfl rfl
    obtain ⟨tasks, heq, hshows⟩ := StealShard.modify_eq hpop.wf hheader fun header =>
      { header with state := .running, hasPolled := true }
    have hkeeps : header.Keeps { header with state := .running, hasPolled := true } :=
      ⟨rfl, rfl, rfl, rfl, rfl, .inr (.inr ⟨hwoken, rfl⟩)⟩
    refine .start _ n hasWorked ref { header with state := .running, hasPolled := true } hphase
      (hpop.trans (.modify hpop.wf hheader _ hkeeps)) ?_ rfl
    rw [heq]
    show tasks.stored ref.key = _
    rw [hshows.stored, update_self]
  | requestTimer =>
    refine .quiet _ _ ?_ (.refl _ _)
    unfold Shard.requestTimer
    split
    · exact .of_eq hwf rfl rfl rfl rfl rfl rfl rfl rfl
    · exact .refl hwf
  | pushSpawn ref n hphase =>
    unfold Shard.pushSpawn
    split
    · exact .pushSpawn ref n hphase
    · exact .quiet _ _ (.refl hwf) (.refl _ _)
  | pollScope ref n hphase hsettled =>
    unfold StealShard.pushReap
    split
    · exact .pollScope ref n hphase (List.all_eq_true.mp hsettled)
    · exact .quiet _ _ (.refl hwf) (.refl _ _)
  | arm =>
    refine .quiet _ _ ?_ (.refl _ _)
    unfold Shard.register
    dsimp only
    split <;> exact .of_eq hwf rfl rfl rfl rfl rfl rfl rfl rfl
  | spawn hasWorked isPinned parent rest shard hphase hinbox hspawn =>
    exact .spawn hasWorked isPinned parent rest shard hphase hinbox hspawn
  | skipReap hasWorked parent rest hphase hqueue hnone =>
    exact .skipReap hasWorked parent rest hphase hqueue hnone

end CrewTurn

namespace CrewWorld

variable {w w' : CrewWorld} {e : CrewEvent} {u v : Nat}

structure Moves (w w' : CrewWorld) (e : CrewEvent) (v : Nat) (desk : CrewDesk)
    (letter : Option (Nat × Letter)) : Prop where
  act : CrewAct e v (w.desk v) w.log desk w'.log letter
  desks : ∀ u, w'.desk u = (if u = v then desk else w.desk u).deliver u letter

section Desk

theorem desk_setWorker (w : CrewWorld) (v : Nat) (worker : CrewWorker) (u : Nat) :
    (w.setWorker v worker).desk u = if u = v then worker.desk (w.rootAt v) else w.desk u := by
  by_cases hu : u = v
  · subst hu
    rw [if_pos rfl, desk, workers_setWorker]
    rfl
  · rw [if_neg hu, desk, workers_setWorker_of_ne worker hu]
    rfl

theorem desk_setShard (w : CrewWorld) (v : Nat) (shard : StealShard) (u : Nat) :
    (w.setShard v shard).desk u = if u = v then { w.desk v with shard } else w.desk u :=
  desk_setWorker w v _ u

theorem desk_setPhase (w : CrewWorld) (v : Nat) (phase : CrewPhase) (u : Nat) :
    (w.setPhase v phase).desk u = if u = v then { w.desk v with phase } else w.desk u :=
  desk_setWorker w v _ u

theorem desk_leadRoot (w : CrewWorld) (worker : CrewWorker) (root : Option SlabKey) (u : Nat) :
    ({ w.setWorker w.lead worker with root } : CrewWorld).desk u =
      if u = w.lead then worker.desk root else w.desk u := by
  by_cases hu : u = w.lead
  · subst hu
    simp [desk, rootAt, setWorker]
  · simp [desk, rootAt, setWorker, hu]

theorem desk_post (w : CrewWorld) (target : Nat) (letter : Letter) {worker : CrewWorker}
    (hworker : worker.desk (w.rootAt target) = (w.desk target).post letter) (u : Nat) :
    (w.setWorker target worker).desk u = (w.desk u).deliver u (some (target, letter)) := by
  rw [desk_setWorker, CrewDesk.deliver]
  by_cases hu : u = target
  · subst hu
    rw [if_pos rfl, if_pos rfl]
    exact hworker
  · rw [if_neg hu, if_neg hu]

theorem desk_enqueue (w : CrewWorld) (ref : TaskRef) (u : Nat) : (w.enqueue ref).desk u = w.desk u := by
  unfold enqueue
  dsimp only
  split
  · rw [desk_setWorker]
    split
    case isTrue hu =>
      subst hu
      rfl
    case isFalse => rfl
  · rfl

@[simp]
theorem log_enqueue (w : CrewWorld) (ref : TaskRef) : (w.enqueue ref).log = w.log := by
  unfold enqueue
  dsimp only
  split <;> rfl

@[simp]
theorem log_pushHandoff (w : CrewWorld) (thief : Nat) (reply : HandoffMsg) :
    (w.pushHandoff thief reply).log = w.log := by
  unfold pushHandoff
  dsimp only
  split <;> rfl

theorem desk_pushHandoff (w : CrewWorld) (thief : Nat) (reply : HandoffMsg) (u : Nat) :
    (w.pushHandoff thief reply).desk u = (w.desk u).deliver u (some (thief, .handoff reply)) := by
  by_cases hroom : (w.workers thief).handoffs.length < handoffCapacity
  · rw [pushHandoff, if_pos hroom]
    apply desk_post
    have hroom' : (w.desk thief).handoffs.length < handoffCapacity := hroom
    simp only [CrewDesk.post, if_pos hroom']
    rfl
  · rw [pushHandoff, if_neg hroom, CrewDesk.deliver]
    split
    case isFalse => rfl
    case isTrue hu =>
      subst hu
      have hroom' : ¬(w.desk u).handoffs.length < handoffCapacity := hroom
      simp only [CrewDesk.post, if_neg hroom']

end Desk

section Steal

theorem setShard_push (w : CrewWorld) (v victim : Nat) (shard shard' : StealShard)
    (requests : CrewWorker → List StealRequest)
    (hrequests : ∀ worker shard, requests { worker with shard } = requests worker) :
    ((w.setShard v shard).setWorker victim { (w.setShard v shard).workers victim with
      requests := requests ((w.setShard v shard).workers victim) }).setShard v shard' =
    (w.setWorker victim { w.workers victim with requests := requests (w.workers victim) }).setShard v
      shard' := by
  unfold setShard setWorker
  dsimp only
  congr 1
  funext u
  by_cases hv : victim = v
  · subst hv
    simp [hrequests]
  · by_cases hu : u = v
    · subst hu
      simp [Ne.symm hv]
    · by_cases hvictim : u = victim
      · subst hvictim
        simp [hu]
      · simp [hu, hvictim]

inductive Asked (w : CrewWorld) (v : Nat) : CrewWorld → Prop
  | idle (cursor : Nat) : Asked w v (w.setShard v { (w.workers v).shard with stealCursor := cursor })
  | sent (victim cursor : Nat) (key : SlabKey) (tasks : Slab TaskHeader)
      (hpending : (w.workers v).shard.pendingSteal = none)
      (hvacant : ∀ g, (w.workers v).shard.tasks.stored ⟨key.index, g⟩ = none)
      (hfree : ∀ g, (w.workers v).shard.tasks.isReserved ⟨key.index, g⟩ = false)
      (hshows : tasks.Shows (w.workers v).shard.tasks.stored
        (update (w.workers v).shard.tasks.isReserved key true)) :
      Asked w v { (w.setWorker victim { w.workers victim with
          requests := (w.workers victim).requests ++
            [⟨(w.workers v).shard.id, ⟨(w.workers v).shard.id, key⟩⟩] }).setShard v
          { (w.workers v).shard with tasks, stealCursor := cursor, pendingSteal := some key } with
        log := { w.log with
          reservations := ⟨(w.workers v).shard.id, key⟩ :: w.log.reservations } }
  | bounced (cursor : Nat) (key : SlabKey) (tasks : Slab TaskHeader)
      (hpending : (w.workers v).shard.pendingSteal = none)
      (hshows : tasks.Shows (w.workers v).shard.tasks.stored (w.workers v).shard.tasks.isReserved) :
      Asked w v { w.setShard v { (w.workers v).shard with tasks, stealCursor := cursor } with
        log := { w.log with
          reservations := ⟨(w.workers v).shard.id, key⟩ :: w.log.reservations
          withdrawals := ⟨(w.workers v).shard.id, key⟩ :: w.log.withdrawals } }

theorem trySteal_cases (hwf : (w.workers v).shard.tasks.WF) : Asked w v (w.trySteal v) := by
  have hidle : Asked w v w := by
    have h := Asked.idle (w := w) (v := v) (w.workers v).shard.stealCursor
    rwa [setShard, setWorker_self] at h
  unfold trySteal
  dsimp only
  split
  case isTrue => exact hidle
  case isFalse hbusy =>
    have hpending : (w.workers v).shard.pendingSteal = none := by
      simp only [not_or, Option.not_isSome_iff_eq_none] at hbusy
      exact hbusy.2
    obtain ⟨victim, cursor, hnext⟩ : ∃ victim cursor, (w.workers v).shard.nextVictim w.lead w.count =
      (victim, { (w.workers v).shard with stealCursor := cursor }) := ⟨_, _, rfl⟩
    rw [hnext]
    dsimp only
    cases victim with
    | none => exact .idle cursor
    | some victim =>
      dsimp only
      have hwf' : ({ (w.workers v).shard with stealCursor := cursor } : StealShard).tasks.WF := hwf
      rcases StealShard.prepareSteal_cases hwf' with hfull | ⟨key, tasks, hok, hvacant, hfree, hshows⟩
      · rw [hfull]
        exact .idle cursor
      · rw [hok]
        dsimp only
        split
        case isTrue =>
          have hpush := setShard_push w v victim { (w.workers v).shard with stealCursor := cursor }
            { (w.workers v).shard with tasks, stealCursor := cursor, pendingSteal := some key }
            (fun worker => worker.requests ++
              [⟨(w.workers v).shard.id, ⟨(w.workers v).shard.id, key⟩⟩]) (fun _ _ => rfl)
          rw [hpush]
          exact .sent victim cursor key tasks hpending hvacant hfree hshows
        case isFalse =>
          have hwf'' : ({ (w.workers v).shard with tasks, stealCursor := cursor } :
              StealShard).tasks.WF := hshows.wf
          obtain ⟨tasks', hundo, hshows'⟩ := StealShard.unreserve_eq hwf'' key
          rw [hundo, setShard, setShard, workers_setWorker, setWorker_setWorker]
          refine .bounced cursor key tasks' hpending ⟨hshows'.wf, ?_, ?_⟩
          · exact hshows'.stored.trans hshows.stored
          · rw [hshows'.reserved]
            show update tasks.isReserved key false = _
            rw [hshows.reserved, update_idem]
            exact update_eq_self_iff.mpr (hfree key.generation).symm

end Steal

theorem takeRootOutput_eq (hwf : (w.workers w.lead).shard.tasks.WF) (h : w.isRootSettled = true) :
    ∃ key header tasks, w.root = some key ∧ (w.workers w.lead).shard.header key = some header ∧
      header.state = .done ∧
      tasks.Shows (update (w.workers w.lead).shard.tasks.stored key none)
        (w.workers w.lead).shard.tasks.isReserved ∧
      w.takeRootOutput = { w.setWorker w.lead { w.workers w.lead with
          shard := { (w.workers w.lead).shard with tasks }
          phase := .outside } with
        root := none
        log := logRemoved w.log ((w.workers w.lead).shard.header key) } := by
  unfold isRootSettled at h
  cases hroot : w.root with
  | none => simp [hroot] at h
  | some key =>
    cases hheader : (w.workers w.lead).shard.toShard.header key with
    | none => simp [hroot, hheader] at h
    | some header =>
      have hdone : header.state = .done := by simpa [hroot, hheader] using h
      obtain ⟨tasks, hremove, hshows⟩ := Slab.remove_shows hwf hheader
      refine ⟨key, header, tasks, rfl, hheader, hdone, hshows, ?_⟩
      unfold takeRootOutput
      simp only [hroot, hremove, hheader]

theorem reportOne_eq {index : Nat} {hasWorked : Bool} {origin : Origin}
    (hindex : index < (w.workers v).shard.tasks.slots.length)
    (horigin : (w.workers v).shard.origins index = some origin)
    (hsettled : (w.workers v).shard.isResidentSettled index = true)
    (hroom : (w.workers origin.victimId).notes.length < noteCapacity) :
    w.reportOne v index hasWorked =
      { ((w.setPhase v (.reporting (index + 1) hasWorked)).setWorker origin.victimId
          { (w.setPhase v (.reporting (index + 1) hasWorked)).workers origin.victimId with
            notes := ((w.setPhase v (.reporting (index + 1) hasWorked)).workers
              origin.victimId).notes ++ [origin.victimKey] }).setShard v
          ((w.workers v).shard.releaseResident index) with
        log := logRemoved w.log ((w.workers v).shard.tasks.getByIndex index) } := by
  have hnotes : ((w.setPhase v (.reporting (index + 1) hasWorked)).workers origin.victimId).notes =
      (w.workers origin.victimId).notes := by
    by_cases hv : origin.victimId = v
    · rw [hv, setPhase, workers_setWorker]
    · rw [setPhase, workers_setWorker_of_ne _ hv]
  unfold reportOne
  simp only [if_pos hindex, horigin, hsettled, hnotes, hroom, and_self, if_true]

theorem Moves.rest (hwf : (w.workers v).shard.tasks.WF) (hlog : w'.log = w.log)
    (hdesks : ∀ u, w'.desk u = w.desk u) : Moves w w' e v (w.desk v) none := by
  refine ⟨?_, fun u => ?_⟩
  · rw [hlog]
    exact .quiet _ _ (.refl hwf) (.refl _ _)
  · rw [hdesks]
    by_cases hu : u = v
    · rw [if_pos hu, hu]
      rfl
    · rw [if_neg hu]
      rfl

theorem Moves.of_setWorker {worker : CrewWorker} {log : CrewLog}
    (hact : CrewAct e v (w.desk v) w.log (worker.desk (w.rootAt v)) log none) :
    Moves w { w.setWorker v worker with log } e v (worker.desk (w.rootAt v)) none :=
  ⟨hact, desk_setWorker w v worker⟩

theorem Moves.forall {P : Nat → CrewDesk → Prop} {desk : CrewDesk} {letter : Option (Nat × Letter)}
    (h : Moves w w' e v desk letter) (hall : ∀ u, P u (w.desk u)) (hown : P v desk)
    (hdeliver : ∀ u desk, P u desk → P u (desk.deliver u letter)) : ∀ u, P u (w'.desk u) := by
  intro u
  rw [h.desks]
  apply hdeliver
  by_cases hu : u = v
  · rw [if_pos hu, hu]
    exact hown
  · rw [if_neg hu]
    exact hall u

theorem Moves.enqueue {desk : CrewDesk} {letter : Option (Nat × Letter)} (h : Moves w w' e v desk letter)
    (ref : TaskRef) : Moves w (w'.enqueue ref) e v desk letter :=
  ⟨by rw [log_enqueue]; exact h.act, fun u => (desk_enqueue w' ref u).trans (h.desks u)⟩

theorem deliver_own (w : CrewWorld) (v : Nat) (letter : Option (Nat × Letter)) (view : CrewView)
    (u : Nat) :
    (if u = v then { (w.desk v).deliver v letter with toCrewView := view }
      else (w.desk u).deliver u letter) =
      (if u = v then { w.desk v with toCrewView := view } else w.desk u).deliver u letter := by
  by_cases hu : u = v
  · subst hu
    rw [if_pos rfl, if_pos rfl]
    exact ((w.desk u).deliver_with view u letter).symm
  · rw [if_neg hu, if_neg hu]

theorem Asked.moves {hasWorked : Bool} (hwf : (w.workers v).shard.tasks.WF)
    (hphase : (w.workers v).phase = .passed hasWorked) (h : Asked w v w') :
    ∃ desk letter, Moves w (w'.setPhase v .parking) e v desk letter := by
  have hshard : ∀ shard, (w.setShard v shard).setPhase v .parking =
      w.setWorker v { w.workers v with shard, phase := .parking } := by
    intro shard
    rw [setPhase, setShard, workers_setWorker, setWorker_setWorker]
  cases h with
  | idle cursor =>
    rw [hshard]
    refine ⟨{ w.desk v with
      shard := { (w.workers v).shard with stealCursor := cursor }, phase := .parking }, none, ?_⟩
    refine .of_setWorker (.quiet _ _ (.of_eq hwf rfl rfl rfl rfl rfl rfl rfl rfl) ?_)
    show CrewPhase.Passes _ (w.workers v).phase _
    rw [hphase]
    exact (CrewPhase.Next.parking hasWorked).passes
  | bounced cursor key tasks hpending hshows =>
    refine ⟨{ w.desk v with
      shard := { (w.workers v).shard with tasks, stealCursor := cursor }, phase := .parking }, none,
        ?_, ?_⟩
    · exact .bounce cursor key tasks hasWorked hphase hpending hshows
    · intro u
      show (((w.setShard v _).setPhase v .parking)).desk u = _
      rw [hshard]
      exact desk_setWorker w v _ u
  | sent victim cursor key tasks hpending hvacant hfree hshows =>
    refine ⟨{ w.desk v with
      shard := { (w.workers v).shard with tasks, stealCursor := cursor, pendingSteal := some key }
      phase := .parking },
      some (victim, .request ⟨(w.workers v).shard.id, ⟨(w.workers v).shard.id, key⟩⟩), ?_, ?_⟩
    · exact .ask victim cursor key tasks hasWorked hphase hpending hvacant hfree hshows
    · intro u
      show ((setShard _ v _).setPhase v .parking).desk u = _
      rw [desk_setPhase, desk_setShard, desk_setShard, if_pos rfl,
        desk_post _ victim (.request ⟨(w.workers v).shard.id, ⟨(w.workers v).shard.id, key⟩⟩) rfl,
        desk_post _ victim (.request ⟨(w.workers v).shard.id, ⟨(w.workers v).shard.id, key⟩⟩) rfl]
      by_cases hu : u = v
      · rw [if_pos hu, if_pos hu, hu]
        have hsent := (w.desk v).deliver_with
          { (w.desk v).toCrewView with
            shard := { (w.workers v).shard with tasks, stealCursor := cursor, pendingSteal := some key }
            phase := .parking } v
          (some (victim, .request ⟨(w.workers v).shard.id, ⟨(w.workers v).shard.id, key⟩⟩))
        refine Eq.trans ?_ hsent.symm
        dsimp only
        rw [CrewDesk.deliver_view]
      · rw [if_neg hu, if_neg hu, if_neg hu]

theorem CrewStep.moves (hwf : ∀ u, (w.workers u).shard.tasks.WF) (h : CrewStep w e w') :
    ∃ v desk letter, Moves w w' e v desk letter := by
  cases h with
  | send ref =>
    exact ⟨0, _, none, .rest (hwf 0) (log_enqueue w ref) (desk_enqueue w ref)⟩
  | turn v worker hturn => exact ⟨v, _, none, .of_setWorker (hturn.act (hwf v))⟩
  | forward v ref newRef rest next hphase =>
    have hmoves : Moves w (w.setWorker v { w.workers v with inbox := rest, phase := next }) e v
        { w.desk v with phase := next } none := by
      refine .of_setWorker (.quiet _ _ (.refl (hwf v)) ?_)
      show CrewPhase.Passes _ (w.workers v).phase next
      rcases hphase with ⟨hphase, rfl⟩ | ⟨hphase, rfl⟩
      · rw [hphase]
        exact .refl _ _
      · rw [hphase]
        exact CrewPhase.Next.resuming.passes
    exact ⟨v, _, none, hmoves.enqueue newRef⟩
  | forwardTimer v ref newRef now hasWorked deadline rest hphase =>
    have hmoves : Moves w (w.setWorker v { w.workers v with
        phase := .firing now true
        shard := { (w.workers v).shard with timers := rest } }) e v
        { w.desk v with
          phase := .firing now true, shard := { (w.workers v).shard with timers := rest } } none := by
      refine .of_setWorker (.quiet _ _ (.of_eq (hwf v) rfl rfl rfl rfl rfl rfl rfl rfl) ?_)
      show CrewPhase.Passes _ (w.workers v).phase _
      rw [hphase]
      constructor <;> simp [CrewPhase.holdsSpawns, CrewPhase.holdsReaps, CrewPhase.isTick]
    exact ⟨v, _, none, hmoves.enqueue newRef⟩
  | serve v request rest reply shard hphase hrequests hserve =>
    exact ⟨v, _, none, .of_setWorker (.serve request rest reply shard hphase hrequests hserve)⟩
  | reply v thief reply hphase =>
    refine ⟨v, { w.desk v with phase := .receiving }, some (thief, .handoff reply), ?_, fun u => ?_⟩
    · show CrewAct e v (w.desk v) w.log _ (w.pushHandoff thief reply).log _
      rw [log_pushHandoff]
      exact .reply thief reply hphase
    · rw [desk_setPhase, desk_pushHandoff, desk_pushHandoff]
      have hown := deliver_own w v (some (thief, .handoff reply))
        { (w.desk v).toCrewView with phase := .receiving } u
      rw [← hown, ← (w.desk v).deliver_view v (some (thief, .handoff reply))]
  | receive v reply rest installed shard hphase hhandoffs hreceive =>
    exact ⟨v, _, none,
      .of_setWorker (.receive reply rest installed shard hphase hhandoffs hreceive)⟩
  | finish v ref n isReady submitted hevent hphase =>
    unfold finishPoll
    simp only [hphase]
    exact ⟨v, _, none, .of_setWorker (.finish ref n isReady submitted hevent hphase)⟩
  | reap v hasWorked parent child rest hphase hqueue hchild =>
    exact ⟨v, _, none, .of_setWorker (.reap hasWorked parent child rest hphase hqueue hchild)⟩
  | report v index hasWorked origin hphase hindex horigin hsettled hroom =>
    refine ⟨v, { w.desk v with
      shard := (w.workers v).shard.releaseResident index, phase := .reporting (index + 1) hasWorked },
      some (origin.victimId, .note origin.victimKey), ?_, fun u => ?_⟩
    · rw [reportOne_eq hindex horigin hsettled hroom]
      exact .report index hasWorked origin hphase horigin hsettled
    · rw [reportOne_eq hindex horigin hsettled hroom]
      show ((setWorker _ _ _).setShard v _).desk u = _
      rw [desk_setShard, desk_post _ _ (.note origin.victimKey) rfl, desk_post _ _
        (.note origin.victimKey) rfl, desk_setPhase, desk_setPhase, if_pos rfl]
      by_cases hu : u = v
      · rw [if_pos hu, if_pos hu, hu]
        have hphased := (w.desk v).deliver_with
          { (w.desk v).toCrewView with phase := .reporting (index + 1) hasWorked } v
          (some (origin.victimId, .note origin.victimKey))
        have hboth := (w.desk v).deliver_with
          { (w.desk v).toCrewView with
            shard := (w.workers v).shard.releaseResident index
            phase := .reporting (index + 1) hasWorked } v
          (some (origin.victimId, .note origin.victimKey))
        rw [hphased, hboth]
      · rw [if_neg hu, if_neg hu, if_neg hu]
  | ask v hasWorked hphase =>
    exact ⟨v, (trySteal_cases (hwf v)).moves (hwf v) hphase⟩
  | takeRoot hasWorked hphase hsettled =>
    obtain ⟨key, header, tasks, hroot, hheader, hdone, hshows, heq⟩ := takeRootOutput_eq (hwf _) hsettled
    have hroot' : (w.desk w.lead).root = some key := by simp [desk, CrewWorker.desk, rootAt, hroot]
    refine ⟨w.lead, { w.desk w.lead with
      shard := { (w.workers w.lead).shard with tasks }, phase := .outside, root := none }, none, ?_, ?_⟩
    · rw [heq]
      exact .takeRoot hasWorked key header tasks hphase hroot' hheader hdone hshows
    · intro u
      rw [heq]
      exact desk_leadRoot w _ none u
  | spawnRoot key shard hphase hspawn =>
    exact ⟨w.lead, { w.desk w.lead with shard, phase := .completing, root := some key }, none,
      .spawnRoot key shard hphase hspawn, desk_leadRoot w _ (some key)⟩
  | _ => exact ⟨0, _, none, .rest (hwf 0) rfl fun u => rfl⟩

end CrewWorld

end Kwokka
