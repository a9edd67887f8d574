import Kwokka.IoDrain
import Kwokka.IoRequests

/-! What one event can do to a worker, and the bookkeeping that every run keeps
whatever the tasks and the kernel do. -/

namespace Kwokka

open Table Runs IoShard

variable {op : KernelOp} {c : Completion}

namespace IoWorld

def queue (w : IoWorld) : List (Option Nat × Completion) :=
  w.batch ++ w.cq.map fun entry => (entry.1, translateCqe entry.2)

def requests (w : IoWorld) : List Request := w.ops.map KernelOp.toRequest

structure WindowSound (w : IoWorld) (window : Window) : Prop where
  phase : w.phase = .tick
  running : ∃ header, w.shard.tasks window.token = some header ∧ header.state = .running ∧
    window.wakeSlot = wakeSlotOf header.wakeData

structure Sound (w : IoWorld) : Prop where
  queue : QueueSound w.ops w.queue
  owner : OwnerSound w.shard.id w.requests w.futures
  slots : SlotsSound w.shard.id w.shard.inflight w.requests
  token : ∀ token header, w.shard.tasks token = some header →
    isTaskToken token = true
  window : ∀ window, w.window = some window → w.WindowSound window
  batch : w.phase ≠ .completions → w.batch = []
  inbox : ∀ key ∈ w.shard.cancelInbox.keys, CancelOf w.shard.id w.requests key
  quiet : w.phase = .completions → w.shard.cancelInbox.keys = []

inductive Effect (w : IoWorld) : Event → IoWorld → Prop
  | ignored (e : Event) : Effect w e w
  | posted {o : Nat} {op : KernelOp} {cqe : Cqe} (row : w.ops[o]? = some op)
      (may : op.mayPost w.ops cqe = true) :
      Effect w (.post o cqe)
        { w with ops := w.ops.set o (op.posted cqe), cq := w.cq ++ [(some o, cqe)] }
  | postedForeign {cqe : Cqe} (foreign : isForeign cqe.userData = true)
      (notif : isCqeNotif cqe.flags = false) :
      Effect w (.postForeign cqe) { w with cq := w.cq ++ [(none, cqe)] }
  | cancelDrained {key : InflightSlotKey} {keys : List InflightSlotKey} (isAccepted : Bool)
      (phase : w.phase = .cancels) (inbox : w.shard.cancelInbox.keys = key :: keys) :
      Effect w (.drainCancel isAccepted)
        { w with
          shard := { w.shard with cancelInbox := ⟨keys⟩ }.recordCancel key
          ops := if isAccepted then w.ops ++ [.start (.ofCancel key)] else w.ops }
  | read (phase : w.phase = .cancels) (inbox : w.shard.cancelInbox.keys = []) :
      Effect w .readCompletions
        { w with
          phase := .completions
          batch := (w.cq.take completionBatch).map fun entry => (entry.1, translateCqe entry.2)
          cq := w.cq.drop (completionBatch + 1) }
  | drained (phase : w.phase = .completions) (batch : w.batch = []) :
      Effect w .complete { w with phase := .tick }
  | skipped {c : Completion} {batch : List (Option Nat × Completion)}
      (phase : w.phase = .completions) (head : w.batch = (none, c) :: batch) :
      Effect w .complete { w with batch }
  | cancelAnswered {o : Nat} {op : KernelOp} {key : InflightSlotKey} {c : Completion}
      {batch : List (Option Nat × Completion)} (phase : w.phase = .completions)
      (head : w.batch = (some o, c) :: batch) (row : w.ops[o]? = some op) (queued : op.Queued c)
      (role : op.role = .cancel key) :
      Effect w .complete
        { w with
          batch
          shard := w.shard.reclaimCancelCompletion c.token c.result
          ops := w.ops.modify o (·.drained c) }
  | notified {o f : Nat} {op : KernelOp} {kind : FutureKind} {c : Completion}
      {batch : List (Option Nat × Completion)} (phase : w.phase = .completions)
      (head : w.batch = (some o, c) :: batch) (row : w.ops[o]? = some op) (queued : op.Queued c)
      (role : op.role = .owned f kind) (notif : c.isNotif = true) :
      Effect w .complete
        { w with
          batch
          shard := (w.shard.reclaimNotif c.token).wakeLocal c.token
          ops := w.ops.modify o (·.drained c) }
  | disposed {o f : Nat} {op : KernelOp} {kind record : FutureKind} {c : Completion}
      {batch : List (Option Nat × Completion)} {shard : IoShard} (phase : w.phase = .completions)
      (head : w.batch = (some o, c) :: batch) (row : w.ops[o]? = some op) (queued : op.Queued c)
      (role : op.role = .owned f kind) (notif : c.isNotif = false)
      (disposal : w.shard.Disposal c record shard) :
      Effect w .complete { w with batch, shard, ops := w.ops.modify o (·.drained c) }
  | stored {o f : Nat} {op : KernelOp} {kind : FutureKind} {c : Completion}
      {batch : List (Option Nat × Completion)} (phase : w.phase = .completions)
      (head : w.batch = (some o, c) :: batch) (row : w.ops[o]? = some op) (queued : op.Queued c)
      (role : op.role = .owned f kind) (notif : c.isNotif = false)
      (unrecorded : w.shard.Unrecorded c) :
      Effect w .complete
        { w with
          batch
          shard := w.shard.storeCompletion c
          ops := w.ops.modify o (·.drained c)
          stored := w.stored ++ [(o, c)] }
  | woken (token : UInt64) (idle : w.isIdle = true) :
      Effect w (.wake token) { w with shard := w.shard.wakeLocal token }
  | spawned {token : UInt64} (pip : Pip) (idle : w.isIdle = true)
      (isTask : isTaskToken token = true) (absent : w.shard.tasks token = none) :
      Effect w (.spawn token pip) { w with shard := w.shard.setTask token (some (.new pip)) }
  | taskCancelled {token : UInt64} {window : Window} (opened : w.window = some window)
      (other : window.token ≠ token) :
      Effect w (.cancelTask token)
        { w with
          shard := w.shard.modifyTask token fun header =>
            { header with state := header.state.after TaskState.cancel } }
  | reaped (token : UInt64) (idle : w.isIdle = true) :
      Effect w (.reap token) { w with shard := w.shard.setTask token none }
  | pollStarted {token : UInt64} {header : TaskHeader} (idle : w.isIdle = true)
      (task : w.shard.tasks token = some header) (woken : header.state = .woken) :
      Effect w (.startPoll token)
        { w with
          shard := w.shard.setTask token (some { header with state := .running, hasPolled := true })
          window := some ⟨token, wakeSlotOf header.wakeData, 0, []⟩ }
  | created {window : Window} (kind : FutureKind) (len : Nat) (opened : w.window = some window) :
      Effect w (.create kind len)
        { w with futures := w.futures ++ [⟨window.token, .new kind len, .live, none⟩] }
  | polled {f : Nat} {entry : FutureEntry} {window : Window} {driver : SubmitResult}
      {sendZcSupported : Bool} {step : IoFuture.Step} (opened : w.window = some window)
      (row : w.futures[f]? = some entry) (live : entry.status = .live)
      (owner : entry.owner = window.token)
      (effect : IoFuture.PollEffect entry.future entry.owner
        (w.seam window driver sendZcSupported) step) :
      Effect w (.pollFuture f driver sendZcSupported)
        { w with
          shard := { w.shard with inflight := step.seam.slab }
          window := some
            { window with
              submitted := window.submitted + step.seam.submitted.length
              polled := f :: window.polled }
          futures := w.futures.set f (entry.polled step w.ops.length)
          ops := w.ops ++ step.seam.submitted.map fun submission =>
            .start (.ofSubmission f entry.future.kind submission) }
  | pollEnded {window : Window} (isReady : Bool) (opened : w.window = some window) :
      Effect w (.endPoll isReady)
        { w with
          window := none
          shard := w.shard.modifyTask window.token fun header =>
            { header with
              state := header.state.after
                (if isReady then TaskState.complete else TaskState.suspend) }.landSubmitted
              window.submitted }
  | dropped {f : Nat} {entry : FutureEntry} (phase : w.phase = .tick)
      (row : w.futures[f]? = some entry) (live : entry.status = .live) :
      Effect w (.drop f)
        { w with
          futures := w.futures.set f { entry with status := .dropped }
          shard := match entry.future.submitted with
            | some key => { w.shard with cancelInbox := w.shard.cancelInbox.pushCancel key }
            | none => w.shard }
  | passEnded (idle : w.isIdle = true) : Effect w .endPass { w with phase := .cancels }

section Effects

variable {w : IoWorld}

theorem Sound.isCancelSentinel (h : w.Sound) {o : Nat} {key : InflightSlotKey}
    (hop : w.ops[o]? = some op) (hq : op.Queued c) (hrole : op.role = .cancel key) :
    isCancelSentinel c.token = true ∧ c.isNotif = false ∧ c.token = encodeCancelSentinel key := by
  obtain ⟨hreq, hcancel⟩ := h.owner.cancel o op.toRequest key (map_row hop) hrole
  have htoken : c.token = encodeCancelSentinel key := by rw [hq.token, hreq]; rfl
  obtain ⟨hslot, hcorner⟩ := h.slots.cancelOf_slot hcancel
  have hzc : op.zeroCopy = false := by rw [hreq]; rfl
  refine ⟨htoken ▸ isCancelSentinel_encode hslot hcorner, ?_, htoken⟩
  cases hn : c.isNotif with
  | false => rfl
  | true =>
    have := (h.queue.coherent o op hop).zeroCopy (.inr (hq.notif hn).1)
    simp [hzc] at this

theorem requests_row {o : Nat} {r : Request} (h : w.requests[o]? = some r) :
    ∃ op, w.ops[o]? = some op ∧ op.toRequest = r := by
  rw [requests, List.getElem?_map] at h
  exact Option.map_eq_some_iff.mp h

theorem Sound.kind_of_notif (h : w.Sound) {o f : Nat} {kind : FutureKind}
    (hop : w.ops[o]? = some op) (hq : op.Queued c) (hrole : op.role = .owned f kind)
    (hn : c.isNotif = true) : kind = .sendZc := by
  have hzc := (h.queue.coherent o op hop).zeroCopy (.inr (hq.notif hn).1)
  exact (h.owner.owned o op.toRequest f kind (map_row hop) hrole).1.zeroCopy hzc

theorem complete_effect (h : w.Sound) : Effect w .complete w.complete := by
  unfold complete
  split
  · next hphase =>
    split
    · next hbatch => exact .drained hphase hbatch
    · next o c batch hbatch =>
      have hmem : (o, c) ∈ w.queue := by simp [queue, hbatch]
      cases o with
      | none =>
        obtain ⟨hf, hn⟩ := h.queue.foreign c hmem
        simp only [completeOne_foreign hf hn]
        exact .skipped hphase hbatch
      | some o =>
        obtain ⟨op, hop, hq⟩ := h.queue.queued o c hmem
        cases hrole : op.role with
        | cancel =>
          obtain ⟨hcancel, hn, _⟩ := h.isCancelSentinel hop hq hrole
          simp only [completeOne_cancel hcancel hn]
          exact .cancelAnswered hphase hbatch hop hq hrole
        | owned f kind =>
          have ht : isTaskToken c.token = true :=
            hq.token ▸ (h.owner.owned o op.toRequest f kind (map_row hop) hrole).1.token
          cases hn : c.isNotif with
          | true =>
            simp only [completeOne_notif ht hn]
            exact .notified hphase hbatch hop hq hrole hn
          | false =>
            rcases w.shard.disposeCancelledOp_cases c with ⟨record, shard, hd, heq⟩ | ⟨hun, heq⟩
            · simp only [completeOne_task ht hn, heq]
              exact .disposed hphase hbatch hop hq hrole hn hd
            · simp only [completeOne_task ht hn, heq]
              exact .stored hphase hbatch hop hq hrole hn hun
  · exact .ignored _

theorem pollFuture_effect (f : Nat) (driver : SubmitResult) (sendZcSupported : Bool) :
    Effect w (.pollFuture f driver sendZcSupported) (w.pollFuture f driver sendZcSupported) := by
  unfold pollFuture
  split
  · next window entry hwindow hf =>
    split
    · next hpoll =>
      refine .polled hwindow hf hpoll.1 hpoll.2 ?_
      rw [hpoll.2]
      exact IoFuture.poll_effect _ _ _
    · exact .ignored _
  · exact .ignored _

theorem startPoll_effect (token : UInt64) : Effect w (.startPoll token) (w.startPoll token) := by
  unfold startPoll
  split
  · next hidle =>
    split
    · next header htask =>
      split
      · next state hstate =>
        obtain ⟨hwoken, rfl⟩ := TaskState.tryStartPoll_eq_ok.mp hstate
        exact .pollStarted hidle htask hwoken
      · exact .ignored _
    · exact .ignored _
  · exact .ignored _

theorem step_effect (h : w.Sound) (e : Event) : Effect w e (w.step e) := by
  cases e with
  | post o cqe =>
    show Effect w _ (w.post o cqe)
    unfold post
    split
    · next op hop =>
      split
      · next hmay => exact .posted hop hmay
      · exact .ignored _
    · exact .ignored _
  | postForeign cqe =>
    show Effect w _ (w.postForeign cqe)
    unfold postForeign
    split
    · next hforeign =>
      simp only [Bool.and_eq_true, Bool.not_eq_true'] at hforeign
      exact .postedForeign hforeign.1 hforeign.2
    · exact .ignored _
  | drainCancel isAccepted =>
    show Effect w _ (w.drainCancel isAccepted)
    unfold drainCancel CancelInbox.pop
    split
    · next hphase =>
      cases hkeys : w.shard.cancelInbox.keys with
      | nil => exact .ignored _
      | cons => exact .cancelDrained isAccepted hphase hkeys
    · exact .ignored _
  | readCompletions =>
    show Effect w _ w.readCompletions
    by_cases hread : w.phase = .cancels ∧ w.shard.cancelInbox.keys = []
    · rw [readCompletions_eq hread.1 hread.2]
      exact .read hread.1 hread.2
    · rw [readCompletions, if_neg hread]
      exact .ignored _
  | complete => exact complete_effect h
  | wake token =>
    show Effect w _ (w.wake token)
    unfold wake
    split
    · next hidle => exact .woken token hidle
    · exact .ignored _
  | spawn token pip =>
    show Effect w _ (w.spawn token pip)
    unfold spawn
    split
    · next hspawn =>
      simp only [Bool.and_eq_true, Option.isNone_iff_eq_none] at hspawn
      exact .spawned pip hspawn.1.1 hspawn.1.2 hspawn.2
    · exact .ignored _
  | cancelTask token =>
    show Effect w _ (w.cancelTask token)
    unfold cancelTask
    split
    · next window hwindow =>
      split
      · exact .ignored _
      · next hother => exact .taskCancelled hwindow hother
    · exact .ignored _
  | reap token =>
    show Effect w _ (w.reap token)
    unfold reap
    split
    · next hreap => exact .reaped token (Bool.and_eq_true_iff.mp hreap).1
    · exact .ignored _
  | startPoll token => exact startPoll_effect token
  | create kind len =>
    show Effect w _ (w.create kind len)
    unfold create
    split
    · next window hwindow => exact .created kind len hwindow
    · exact .ignored _
  | pollFuture f driver sendZcSupported => exact pollFuture_effect f driver sendZcSupported
  | endPoll isReady =>
    show Effect w _ (w.endPoll isReady)
    unfold endPoll
    split
    · next window hwindow => exact .pollEnded isReady hwindow
    · exact .ignored _
  | drop f =>
    show Effect w _ (w.drop f)
    unfold drop
    split
    · next entry hf =>
      split
      · next hdrop => exact .dropped hdrop.1 hf hdrop.2
      · exact .ignored _
    · exact .ignored _
  | endPass =>
    show Effect w _ w.endPass
    unfold endPass
    split
    · next hidle => exact .passEnded hidle
    · exact .ignored _

end Effects

section Preservation

variable {w w' : IoWorld} {e : Event}

theorem isIdle_iff : w.isIdle = true ↔ w.phase = .tick ∧ w.window = none := by
  simp [isIdle]

theorem Sound.window_eq_none (h : w.Sound) (hphase : w.phase ≠ .tick) : w.window = none := by
  cases hwindow : w.window with
  | none => rfl
  | some window => exact absurd (h.window window hwindow).phase hphase

section Requests

variable {shard : IoShard} {phase : Phase} {batch : List (Option Nat × Completion)}
  {window : Option Window} {futures : List FutureEntry} {cq : List (Option Nat × Cqe)}
  {stored : List (Nat × Completion)} {o : Nat}

theorem requests_posted {cqe : Cqe} (hop : w.ops[o]? = some op) :
    requests ⟨shard, phase, batch, window, futures, w.ops.set o (op.posted cqe), cq, stored⟩ =
      w.requests :=
  map_set_of_row hop rfl

theorem requests_drained :
    requests ⟨shard, phase, batch, window, futures, w.ops.modify o (·.drained c), cq, stored⟩ =
      w.requests :=
  map_modify_of_eq fun _ => rfl

theorem requests_polled {f : Nat} {kind : FutureKind} {submitted : List Submission} :
    requests ⟨shard, phase, batch, window, futures, w.ops ++ submitted.map fun submission =>
      KernelOp.start (.ofSubmission f kind submission), cq, stored⟩ =
        w.requests ++ submitted.map (.ofSubmission f kind) := by
  simp [requests, KernelOp.start, Function.comp_def]

theorem requests_cancelled {key : InflightSlotKey} {isAccepted : Bool} :
    requests ⟨shard, phase, batch, window, futures,
      if isAccepted then w.ops ++ [KernelOp.start (.ofCancel key)] else w.ops, cq, stored⟩ =
        w.requests ++ if isAccepted then [.ofCancel key] else [] := by
  cases isAccepted <;> simp [requests, KernelOp.start]

end Requests

theorem Effect.later (he : Effect w e w') {o : Nat} (hop : w.ops[o]? = some op) :
    ∃ op', w'.ops[o]? = some op' ∧ op.Later op' := by
  have hdrained : ∀ p c,
      ∃ op', (w.ops.modify p (·.drained c))[o]? = some op' ∧ op.Later op' := by
    intro p c
    by_cases hop' : o = p
    · subst hop'
      exact ⟨_, modify_eq_some.mpr (.inr ⟨rfl, op, hop, rfl⟩), op.later_drained c⟩
    · exact ⟨op, modify_eq_some.mpr (.inl ⟨hop', hop⟩), .refl op⟩
  cases he with
  | @posted p q cqe row =>
    by_cases hop' : o = p
    · subst hop'
      obtain rfl := Option.some.inj (row.symm.trans hop)
      exact ⟨_, set_eq_some.mpr (.inr ⟨rfl, lt_of_row hop, rfl⟩), q.later_posted cqe⟩
    · exact ⟨op, set_eq_some.mpr (.inl ⟨hop', hop⟩), .refl op⟩
  | cancelDrained isAccepted =>
    cases isAccepted with
    | true => exact ⟨op, append_of_row hop _, .refl op⟩
    | false => exact ⟨op, hop, .refl op⟩
  | cancelAnswered => exact hdrained _ _
  | notified => exact hdrained _ _
  | disposed => exact hdrained _ _
  | stored => exact hdrained _ _
  | polled => exact ⟨op, append_of_row hop _, .refl op⟩
  | _ => exact ⟨op, hop, .refl op⟩

inductive Added (w : IoWorld) : Event → KernelOp → Prop
  | cancel (isAccepted : Bool) (key : InflightSlotKey) :
      Added w (.drainCancel isAccepted) (.start (.ofCancel key))
  | submission {f : Nat} {entry : FutureEntry} {submission : Submission} (driver : SubmitResult)
      (sendZcSupported : Bool) (row : w.futures[f]? = some entry) (live : entry.status = .live)
      (idle : entry.future.submitted = none) (owner : submission.userData = entry.owner) :
      Added w (.pollFuture f driver sendZcSupported)
        (.start (.ofSubmission f entry.future.kind submission))

theorem Effect.earlier (he : Effect w e w') {o : Nat} {op' : KernelOp}
    (hop : w'.ops[o]? = some op') : (∃ op, w.ops[o]? = some op ∧ op.Later op') ∨
      o = w.ops.length ∧ Added w e op' := by
  have hdrained : ∀ {p : Nat} {c : Completion}, (w.ops.modify p (·.drained c))[o]? = some op' →
      ∃ op, w.ops[o]? = some op ∧ op.Later op' := by
    intro p c hop
    rcases modify_eq_some.mp hop with ⟨_, hop⟩ | ⟨rfl, old, hold, rfl⟩
    · exact ⟨op', hop, .refl op'⟩
    · exact ⟨old, hold, old.later_drained c⟩
  cases he with
  | @posted p q cqe row =>
    rcases set_eq_some.mp hop with ⟨_, hop⟩ | ⟨rfl, _, rfl⟩
    · exact .inl ⟨op', hop, .refl op'⟩
    · exact .inl ⟨q, row, q.later_posted cqe⟩
  | @cancelDrained key keys isAccepted =>
    cases isAccepted with
    | true =>
      rcases concat_eq_some.mp hop with hop | ⟨rfl, rfl⟩
      · exact .inl ⟨op', hop, .refl op'⟩
      · exact .inr ⟨rfl, .cancel true key⟩
    | false => exact .inl ⟨op', hop, .refl op'⟩
  | cancelAnswered => exact .inl (hdrained hop)
  | notified => exact .inl (hdrained hop)
  | disposed => exact .inl (hdrained hop)
  | stored => exact .inl (hdrained hop)
  | @polled f entry window driver sendZcSupported step opened row live owner effect =>
    rcases effect.submitted_cases rfl with hnone | ⟨hidle, submission, hone, huser⟩
    · rw [hnone, List.map_nil, List.append_nil] at hop
      exact .inl ⟨op', hop, .refl op'⟩
    · rw [hone] at hop
      rcases concat_eq_some.mp hop with hop | ⟨rfl, rfl⟩
      · exact .inl ⟨op', hop, .refl op'⟩
      · exact .inr ⟨rfl, .submission driver sendZcSupported row live hidle huser⟩
  | _ => exact .inl ⟨op', hop, .refl op'⟩

variable (h : w.Sound)

include h

section

variable (he : Effect w e w')

include he

theorem Sound.queue_step : QueueSound w'.ops w'.queue := by
  -- handling the head of the batch
  have hdrain : ∀ {o : Nat} {op : KernelOp} {c : Completion} {batch},
      w.batch = (some o, c) :: batch → w.ops[o]? = some op →
      QueueSound (w.ops.modify o (·.drained c))
        (batch ++ w.cq.map fun entry => (entry.1, translateCqe entry.2)) := by
    intro o op c batch hbatch hop
    have hqueue := h.queue
    rw [IoWorld.queue, hbatch] at hqueue
    exact hqueue.drain hop
  cases he with
  | posted row may =>
    have hpost := h.queue.post row may
    simpa [IoWorld.queue] using hpost
  | @postedForeign cqe foreign notif =>
    have hpost := h.queue.postForeign (c := translateCqe cqe) foreign
      ((translateCqe_isNotif cqe).trans notif)
    simpa [IoWorld.queue] using hpost
  | cancelDrained isAccepted =>
    cases isAccepted with
    | true => exact h.queue.start _
    | false => exact h.queue
  | read =>
    apply h.queue.sublist
    simp only [IoWorld.queue, ← List.map_append]
    have hsub : (w.cq.take completionBatch ++ w.cq.drop (completionBatch + 1)).Sublist w.cq := by
      conv => rhs; rw [← List.take_append_drop completionBatch w.cq]
      exact (List.Sublist.refl _).append (List.drop_sublist_drop_left w.cq (Nat.le_succ _))
    exact (hsub.map _).trans (List.sublist_append_right _ _)
  | skipped phase head =>
    apply h.queue.sublist
    rw [IoWorld.queue, IoWorld.queue, head]
    exact List.sublist_cons_self _ _
  | cancelAnswered phase head row => exact hdrain head row
  | notified phase head row => exact hdrain head row
  | disposed phase head row => exact hdrain head row
  | stored phase head row => exact hdrain head row
  | @polled f entry window driver sendZcSupported step =>
    have hstarts := h.queue.starts (step.seam.submitted.map (.ofSubmission f entry.future.kind))
    simpa [IoWorld.queue, Function.comp_def] using hstarts
  | _ => exact h.queue

theorem Sound.owner_step :
    OwnerSound w'.shard.id w'.requests w'.futures := by
  cases he with
  | posted row =>
    rw [requests_posted row]
    exact h.owner
  | @cancelDrained key keys isAccepted phase inbox =>
    rw [requests_cancelled, (recordCancel_frame _ key).1]
    cases isAccepted with
    | true => exact h.owner.cancelled (h.inbox key (inbox ▸ List.mem_cons_self))
    | false => simpa using h.owner
  | cancelAnswered =>
    rw [requests_drained]
    simpa using h.owner
  | notified =>
    rw [requests_drained]
    simpa using h.owner
  | disposed _ _ _ _ _ _ disposal =>
    rw [requests_drained, disposal.frame.1]
    exact h.owner
  | stored =>
    rw [requests_drained]
    simpa using h.owner
  | @created window kind len opened =>
    obtain ⟨header, htask, _⟩ := (h.window window opened).running
    exact h.owner.create kind len (h.token _ header htask)
  | polled opened row live owner effect =>
    have hpoll := h.owner.poll row live rfl rfl effect
    rw [requests_polled]
    simpa [requests] using hpoll
  | @dropped f entry phase row =>
    have hdropped := h.owner.dropped row
    cases entry.future.submitted <;> exact hdropped
  | _ => exact h.owner

theorem Sound.slots_step :
    SlotsSound w'.shard.id w'.shard.inflight w'.requests := by
  cases he with
  | posted row =>
    rw [requests_posted row]
    exact h.slots
  | @cancelDrained key keys isAccepted =>
    obtain ⟨hid, _, _, hslab⟩ := recordCancel_frame { w.shard with cancelInbox := ⟨keys⟩ } key
    have hrecord : SlotsSound w.shard.id
        ({ w.shard with cancelInbox := ⟨keys⟩ }.recordCancel key).inflight w.requests := by
      rcases hslab with hslab | hslab
      · rw [hslab]
        exact h.slots
      · rw [hslab]
        exact h.slots.markRetirePending key
    rw [requests_cancelled, hid]
    cases isAccepted with
    | true => exact hrecord.append rfl
    | false => simpa using hrecord
  | @cancelAnswered =>
    rw [requests_drained, (reclaimCancelCompletion_frame _ _ _).1]
    unfold reclaimCancelCompletion
    split
    · exact h.slots
    · exact h.slots.freeIfRetirePending _ _
  | @notified o f op kind c =>
    have hfreed := h.slots.freeByOpToken c.token
    rw [requests_drained, (wakeLocal_frame _ _).1, (wakeLocal_frame _ _).2.1,
      (reclaimNotif_frame _ _).1]
    unfold reclaimNotif
    split
    · next heq => rwa [heq] at hfreed
    · next heq =>
      rw [heq] at hfreed
      exact hfreed.markNotifReady c.token
  | disposed _ _ _ _ _ _ disposal =>
    rw [requests_drained, disposal.frame.1, disposal.frame.2.2.1]
    exact h.slots
  | @stored o f op kind c =>
    rw [requests_drained, (storeCompletion_frame _ _).1, storeCompletion_inflight]
    split
    · exact h.slots.markNotifExpected c.token
    · exact h.slots.freeByOpToken c.token
  | @polled f entry window driver sendZcSupported step opened row live owner effect =>
    rw [requests_polled]
    exact h.slots.poll f rfl rfl effect
  | @dropped f entry => cases entry.future.submitted <;> exact h.slots
  | _ => exact h.slots

theorem Sound.inbox_step :
    ∀ key ∈ w'.shard.cancelInbox.keys, CancelOf w'.shard.id w'.requests key := by
  cases he with
  | posted row =>
    rw [requests_posted row]
    exact h.inbox
  | @cancelDrained key keys isAccepted phase inbox =>
    obtain ⟨hid, _, hinbox, _⟩ :=
      recordCancel_frame { w.shard with cancelInbox := ⟨keys⟩ } key
    rw [requests_cancelled, hid, hinbox]
    intro k hk
    exact (h.inbox k (inbox ▸ List.mem_cons_of_mem _ hk)).append _
  | cancelAnswered =>
    rw [requests_drained]
    simpa using h.inbox
  | notified =>
    rw [requests_drained]
    simpa using h.inbox
  | disposed _ _ _ _ _ _ disposal =>
    rw [requests_drained, disposal.frame.1, disposal.frame.2.2.2]
    exact h.inbox
  | stored =>
    rw [requests_drained]
    simpa using h.inbox
  | polled =>
    rw [requests_polled]
    intro key hkey
    exact (h.inbox key hkey).append _
  | @dropped f entry phase row =>
    cases hkey : entry.future.submitted with
    | none => exact h.inbox
    | some =>
      intro k hk
      rcases CancelInbox.mem_pushCancel hk with hk | rfl
      · exact h.inbox k hk
      · obtain ⟨o, r, _, hr, _, _, hcancel⟩ := (h.owner.entry f entry row).submitted k hkey
        exact ⟨o, r, hr, hcancel⟩
  | _ => exact h.inbox

theorem Sound.token_step :
    ∀ token header, w'.shard.tasks token = some header →
      isTaskToken token = true := by
  -- a header is only ever changed where one was, except by a spawn
  have hmodify : ∀ {shard : IoShard} t f,
      shard.tasks = w.shard.tasks → ∀ token header,
        (shard.modifyTask t f).tasks token = some header → isTaskToken token = true := by
    intro shard t f heq token header htask
    rcases modifyTask_eq_some.mp htask with ⟨_, htask⟩ | ⟨rfl, old, hold, _⟩
    · exact h.token token header (heq ▸ htask)
    · exact h.token token old (heq ▸ hold)
  cases he with
  | cancelDrained =>
    rw [(recordCancel_frame _ _).2.1]
    exact h.token
  | cancelAnswered =>
    rw [(reclaimCancelCompletion_frame _ _ _).2.1]
    exact h.token
  | notified => exact hmodify _ _ (reclaimNotif_frame _ _).2.1
  | disposed _ _ _ _ _ _ disposal =>
    rw [disposal.frame.2.1]
    exact h.token
  | @stored o f op kind c =>
    rw [storeCompletion_eq]
    intro token header htask
    rcases modifyTask_eq_some.mp htask with ⟨_, htask⟩ | ⟨rfl, old, hold, _⟩
    · exact hmodify _ _ rfl token header htask
    · exact hmodify _ _ rfl c.token old hold
  | woken => exact hmodify _ _ rfl
  | spawned pip idle isTask =>
    intro token header htask
    rcases setTask_eq_some.mp htask with ⟨_, htask⟩ | ⟨rfl, _⟩
    · exact h.token token header htask
    · exact isTask
  | taskCancelled => exact hmodify _ _ rfl
  | reaped =>
    intro token header htask
    rcases setTask_eq_some.mp htask with ⟨_, htask⟩ | ⟨_, hnone⟩
    · exact h.token token header htask
    · cases hnone
  | pollStarted idle task =>
    intro token header htask
    rcases setTask_eq_some.mp htask with ⟨_, htask⟩ | ⟨rfl, _⟩
    · exact h.token token header htask
    · exact h.token _ _ task
  | pollEnded => exact hmodify _ _ rfl
  | @dropped f entry => cases entry.future.submitted <;> exact h.token
  | _ => exact h.token

theorem Sound.window_step :
    ∀ window, w'.window = some window → w'.WindowSound window := by
  -- outside a poll there is no window to speak of
  have hnone : w.window = none → ∀ {v : IoWorld}, v.window = w.window →
      ∀ window, v.window = some window → v.WindowSound window := by
    intro hw v hv window hsome
    rw [hv, hw] at hsome
    cases hsome
  -- nothing that the window shows has changed
  have hsame : ∀ {v : IoWorld}, v.window = w.window → v.phase = w.phase →
      (∀ window, w.window = some window →
        v.shard.tasks window.token = w.shard.tasks window.token) →
      ∀ window, v.window = some window → v.WindowSound window := by
    intro v hwin hphase htasks window hsome
    rw [hwin] at hsome
    obtain ⟨hp, hrun⟩ := h.window window hsome
    exact ⟨hphase.trans hp, by rwa [htasks window hsome]⟩
  have hcompleting : w.phase = .completions → w.window = none :=
    fun hphase => h.window_eq_none (by simp [hphase])
  cases he with
  | cancelDrained =>
    exact hsame rfl rfl fun _ _ => by rw [(recordCancel_frame _ _).2.1]
  | read phase => exact hnone (h.window_eq_none (by simp [phase])) rfl
  | drained phase => exact hnone (hcompleting phase) rfl
  | cancelAnswered phase => exact hnone (hcompleting phase) rfl
  | notified phase => exact hnone (hcompleting phase) rfl
  | disposed phase => exact hnone (hcompleting phase) rfl
  | stored phase => exact hnone (hcompleting phase) rfl
  | woken token idle => exact hnone (isIdle_iff.mp idle).2 rfl
  | spawned pip idle => exact hnone (isIdle_iff.mp idle).2 rfl
  | reaped token idle => exact hnone (isIdle_iff.mp idle).2 rfl
  | passEnded idle => exact hnone (isIdle_iff.mp idle).2 rfl
  | @taskCancelled token window opened other =>
    refine hsame rfl rfl ?_
    intro window' hopen
    cases opened.symm.trans hopen
    simp [modifyTask, setTask, other]
  | @pollStarted token header idle =>
    rintro window ⟨⟩
    exact ⟨(isIdle_iff.mp idle).1, { header with state := .running, hasPolled := true },
      by simp [setTask], rfl, rfl⟩
  | @polled f entry window driver sendZcSupported step opened =>
    rintro window ⟨⟩
    obtain ⟨hp, hrun⟩ := h.window _ opened
    exact ⟨hp, hrun⟩
  | pollEnded =>
    rintro window ⟨⟩
  | @dropped f entry =>
    refine hsame rfl rfl ?_
    intro _ _
    cases entry.future.submitted <;> rfl
  | _ => exact hsame rfl rfl fun _ _ => rfl

theorem Sound.batch_step :
    w'.phase ≠ .completions → w'.batch = [] := by
  cases he with
  | read => intro hphase; simp at hphase
  | drained phase batch => intro _; exact batch
  | skipped phase => intro hphase; exact absurd phase hphase
  | cancelAnswered phase => intro hphase; exact absurd phase hphase
  | notified phase => intro hphase; exact absurd phase hphase
  | disposed phase => intro hphase; exact absurd phase hphase
  | stored phase => intro hphase; exact absurd phase hphase
  | passEnded idle =>
    intro _
    exact h.batch (by simp [(isIdle_iff.mp idle).1])
  | _ => exact h.batch

theorem Sound.quiet_step :
    w'.phase = .completions → w'.shard.cancelInbox.keys = [] := by
  cases he with
  | cancelDrained isAccepted phase => intro hphase; simp [phase] at hphase
  | read phase inbox => intro _; exact inbox
  | drained => intro hphase; simp at hphase
  | cancelAnswered phase =>
    intro _
    rw [(reclaimCancelCompletion_frame _ _ _).2.2]
    exact h.quiet phase
  | notified phase =>
    intro _
    rw [(wakeLocal_frame _ _).2.2, (reclaimNotif_frame _ _).2.2]
    exact h.quiet phase
  | disposed phase _ _ _ _ _ disposal =>
    intro _
    rw [disposal.frame.2.2.2]
    exact h.quiet phase
  | stored phase =>
    intro _
    rw [(storeCompletion_frame _ _).2]
    exact h.quiet phase
  | dropped phase => intro hphase; simp [phase] at hphase
  | passEnded => intro hphase; simp at hphase
  | _ => exact h.quiet

end

theorem Sound.step (e : Event) : (w.step e).Sound :=
  have he := step_effect h e
  ⟨h.queue_step he, h.owner_step he, h.slots_step he, h.token_step he, h.window_step he,
    h.batch_step he, h.inbox_step he, h.quiet_step he⟩

end Preservation

theorem init_sound (id cap : Nat) : (init id cap).Sound := by
  refine ⟨?_, ?_, ?_, ?_, ?_, ?_, ?_, ?_⟩
  · exact ⟨by simp [init], by simp [init, queue], by simp [init, queue], by simp [init, queue]⟩
  · exact ⟨by simp [init, requests], by simp [init, requests], by simp [init]⟩
  · refine ⟨rfl, ?_, by simp [init, requests], ?_, ?_, by simp [init, requests]⟩
    · simp [init, InflightBufSlab.new, InflightBufSlab.cap]
    · intro i slot hslot hocc
      obtain ⟨_, rfl⟩ := by simpa [init, InflightBufSlab.new, List.getElem?_replicate] using hslot
      simp [InflightSlot.empty] at hocc
    · intro i slot hslot _
      obtain ⟨_, rfl⟩ := by simpa [init, InflightBufSlab.new, List.getElem?_replicate] using hslot
      exact ⟨rfl, rfl, rfl⟩
  · simp [init]
  · simp [init]
  · simp [init]
  · simp [init]
  · simp [init]

end IoWorld

end Kwokka
