import Kwokka.IoSound
import Mathlib

/-! Which completion a future resolves with. The completion travels through the
one wake slot of its task, which a later poll finds again unless another
completion has overwritten it. -/

namespace Kwokka

open Table Runs IoShard

structure FutureEntry.InFlight (entry : FutureEntry) (o : Nat) : Prop where
  live : entry.status = .live
  op : entry.op = some o
  guarded : entry.future.submitted.isSome = true

def Completion.wakeData (c : Completion) : WakeData :=
  ⟨c.result, c.flags.bits, c.bufId.getD WakeData.noBuf, true⟩

def Completion.wakeSlot (c : Completion) : WakeSlot := ⟨c.result, c.flags.bits, c.bufId⟩

theorem wakeSlotOf_wakeData {c : Completion}
    (hbuf : ∀ id ∈ c.bufId, id.toNat < providedRecvRingEntries) :
    wakeSlotOf c.wakeData = some c.wakeSlot := by
  have hid : ∀ id, id.toNat < providedRecvRingEntries → id ≠ WakeData.noBuf := by
    rintro id hlt rfl
    exact absurd hlt (by decide)
  cases h : c.bufId with
  | none => simp [wakeSlotOf, Completion.wakeData, Completion.wakeSlot, h]
  | some id =>
    have hne := hid id (hbuf id (by rw [h]; rfl))
    simp [wakeSlotOf, Completion.wakeData, Completion.wakeSlot, h, hne]

namespace IoWorld

def IsTurnOf (w : IoWorld) (f : Nat) (entry : FutureEntry) : Prop :=
  (entry.future.submitted = none → ∀ g < w.futures.length, g ≠ f → ∀ other ∈ w.futures[g]?,
    other.owner = entry.owner → other.op.isSome = true → other.status.isResolved = true) ∧
  (entry.future.submitted.isSome = true → ∀ window ∈ w.window, f ∉ window.polled)

instance decidableIsTurnOf (w : IoWorld) (f : Nat) (entry : FutureEntry) :
    Decidable (w.IsTurnOf f entry) := instDecidableAnd

/-- A task awaits its operations one after another: it makes a request only when every other
future that made one has resolved, and it polls a pending future once per poll of its own. -/
def AwaitsInTurn (w : IoWorld) : Event → Prop
  | .pollFuture f _ _ => ∀ entry ∈ w.futures[f]?, w.IsTurnOf f entry
  | _ => True

instance decidableAwaitsInTurn (w : IoWorld) : ∀ e, Decidable (w.AwaitsInTurn e)
  | .pollFuture f _ _ => inferInstanceAs (Decidable (∀ entry ∈ w.futures[f]?, w.IsTurnOf f entry))
  | .post .. | .postForeign .. | .drainCancel .. | .readCompletions | .complete | .wake .. |
    .spawn .. | .cancelTask .. | .reap .. | .startPoll .. | .create .. | .endPoll .. | .drop .. |
    .endPass => inferInstanceAs (Decidable True)

/-- No wake but its own completion reaches a task that sleeps on an operation while its wake slot
still holds an earlier completion. -/
def WakesFresh (w : IoWorld) : Event → Prop
  | .wake token => ∀ header ∈ w.shard.tasks token, header.state = .sleeping →
      header.wakeData.hasResult = true → ∀ entry ∈ w.futures, entry.owner = token →
        entry.status = .live → entry.future.submitted = none
  | _ => True

instance decidableWakesFresh (w : IoWorld) : ∀ e, Decidable (w.WakesFresh e)
  | .wake token => inferInstanceAs (Decidable
      (∀ _ ∈ w.shard.tasks token, _ → _ → ∀ _ ∈ w.futures, _ → _ → _))
  | .post .. | .postForeign .. | .drainCancel .. | .readCompletions | .complete | .spawn .. |
    .cancelTask .. | .reap .. | .startPoll .. | .create .. | .pollFuture .. | .endPoll .. |
    .drop .. | .endPass => inferInstanceAs (Decidable True)

/-- A future that resolves after it made a request does so with the stored completion of that
very request. -/
def ResolvesOwn (w : IoWorld) : Event → Prop
  | .pollFuture f driver sendZcSupported => ∀ entry entry' output,
      w.futures[f]? = some entry → entry.status = .live → entry.future.submitted.isSome = true →
      (w.pollFuture f driver sendZcSupported).futures[f]? = some entry' →
      entry'.status = .resolved output →
        ∃ o op c, entry.op = some o ∧
          w.ops[o]? = some op ∧ op.role = .owned f entry.future.kind ∧ (o, c) ∈ w.stored ∧
          output = entry.future.kind.output c.wakeSlot
  | _ => True

/-- Every future is a receive, a send, an accept, a connect or a provided receive. -/
def SingleShot : Event → Prop
  | .create kind _ => kind ≠ .sendZc
  | _ => True

instance decidableSingleShot : ∀ e, Decidable (SingleShot e)
  | .create kind _ => inferInstanceAs (Decidable (kind ≠ .sendZc))
  | .post .. | .postForeign .. | .drainCancel .. | .readCompletions | .complete | .wake .. |
    .spawn .. | .cancelTask .. | .reap .. | .startPoll .. | .pollFuture .. | .endPoll .. |
    .drop .. | .endPass => inferInstanceAs (Decidable True)

def HasFinished (w : IoWorld) (o : Nat) : Prop :=
  ∃ op, w.ops[o]? = some op ∧ op.isFinalDrained = true

def StoresDrained (w : IoWorld) : Prop :=
  ∀ o c, (o, c) ∈ w.stored → ∃ op, w.ops[o]? = some op ∧ op.isResultDrained = true ∧
    (c.hasMore = true → op.zeroCopy = true) ∧ (c.hasMore = false → op.isFinalDrained = true) ∧
    ∀ id ∈ c.bufId, id.toNat < providedRecvRingEntries

def AwaitsLatest (w : IoWorld) : Prop :=
  ∀ (o : Nat) op f kind, w.ops[o]? = some op → op.role = .owned f kind →
    op.isFinalDrained = false → ∃ entry, w.futures[f]? = some entry ∧ entry.op = some o

def AwaitsAlone (w : IoWorld) : Prop :=
  ∀ (f g : Nat) entry other, w.futures[f]? = some entry →
    w.futures[g]? = some other → g ≠ f → entry.status = .live → entry.op.isSome = true →
    other.owner = entry.owner → other.op.isSome = true → other.status.isResolved = true

def IdlesFinished (w : IoWorld) : Prop :=
  ∀ (f : Nat) entry o, w.futures[f]? = some entry →
    entry.future.submitted = none → entry.op = some o → w.HasFinished o

/-- While nothing is stored for a request, its task is not polled again on an old result. -/
def HidesOld (w : IoWorld) : Prop :=
  ∀ f entry o header, w.futures[f]? = some entry →
    entry.InFlight o → (∀ c, (o, c) ∉ w.stored) →
    w.shard.tasks entry.owner = some header → header.wakeData.hasResult = true →
      header.state ≠ .woken ∧
        ∀ window, w.window = some window → window.token = entry.owner → f ∈ window.polled

def ShowsStored (w : IoWorld) : Prop :=
  ∀ (f : Nat) entry o c header,
    w.futures[f]? = some entry → entry.InFlight o → (o, c) ∈ w.stored →
    w.shard.tasks entry.owner = some header → header.wakeData.hasResult = true →
      header.wakeData = c.wakeData

structure InTurn (w : IoWorld) : Prop where
  stored : w.StoresDrained
  latest : w.AwaitsLatest
  alone : w.AwaitsAlone
  settled : w.IdlesFinished
  unstored : w.HidesOld
  shown : w.ShowsStored

/-- A notification reaches the drain only after the completion that announced it was stored, and
a released zero-copy send has finished. -/
structure NotifsFollow (w : IoWorld) : Prop where
  stored : ∀ o c batch, w.batch = (some o, c) :: batch → c.isNotif = true → ∃ c', (o, c') ∈ w.stored
  released : ∀ (f : Nat) entry o key, w.futures[f]? = some entry → entry.InFlight o →
    entry.future.submitted = some key → entry.future.kind = .sendZc →
    w.shard.inflight.isNotifReady key = true → w.HasFinished o

section Steps

variable {w w' : IoWorld} {e : Event}

theorem InTurn.stored_step (hs : w.Sound) (h : w.InTurn) (he : Effect w e w') :
    w'.StoresDrained := by
  have hkept : ∀ o c, (o, c) ∈ w.stored → ∃ op, w'.ops[o]? = some op ∧
      op.isResultDrained = true ∧ (c.hasMore = true → op.zeroCopy = true) ∧
      (c.hasMore = false → op.isFinalDrained = true) ∧
      ∀ id ∈ c.bufId, id.toNat < providedRecvRingEntries := by
    intro o c hmem
    obtain ⟨op, hop, hresult, hmore, hfinal, hbuf⟩ := h.stored o c hmem
    obtain ⟨op', hop', hlater⟩ := he.later hop
    have hzc : op'.zeroCopy = op.zeroCopy := congrArg (fun r : Request => r.zeroCopy) hlater.request
    exact ⟨op', hop', hlater.result hresult, fun hm => hzc.trans (hmore hm),
      fun hm => hlater.final (hfinal hm), hbuf⟩
  cases he with
  | @stored o f op kind c batch phase head row queued role notif =>
    intro o' c' hmem
    rcases List.mem_append.mp hmem with hmem | hmem
    · exact hkept o' c' hmem
    · obtain ⟨rfl, rfl⟩ : o' = o ∧ c' = c := by simpa using hmem
      refine ⟨op.drained c', modify_eq_some.mpr (.inr ⟨rfl, op, row, rfl⟩), ?_, ?_, ?_, ?_⟩
      · simp [KernelOp.drained, notif]
      · intro hm
        exact (hs.queue.coherent o' op row).zeroCopy (queued.more notif hm).2
      · intro hm
        simp [KernelOp.drained, hm]
      · exact fun id hid => (queued.buffer id hid).2
  | _ => exact hkept

theorem InTurn.latest_step (h : w.InTurn) (he : Effect w e w') : w'.AwaitsLatest := by
  intro o op' f kind hop' hrole hfinal
  rcases he.earlier hop' with ⟨op, hop, hlater⟩ | ⟨rfl, hadded⟩
  · have hfinal' : op.isFinalDrained = false := by
      cases hf : op.isFinalDrained with
      | false => rfl
      | true => simp [hlater.final hf] at hfinal
    obtain ⟨entry, hf, hentry⟩ := h.latest o op f kind hop (hlater.role ▸ hrole) hfinal'
    cases he with
    | created => exact ⟨entry, append_of_row hf _, hentry⟩
    | @polled g polled window driver sendZcSupported step opened row live owner effect =>
      by_cases hgf : f = g
      · subst hgf
        obtain rfl := Option.some.inj (row.symm.trans hf)
        refine ⟨_, set_eq_some.mpr (.inr ⟨rfl, lt_of_row row, rfl⟩), ?_⟩
        rcases effect.submitted_cases rfl with hnone | ⟨hidle, submission, hone, _⟩
        · simp [FutureEntry.polled, hnone, hentry]
        · obtain ⟨op'', hop'', hfinal''⟩ := h.settled f polled o row hidle hentry
          cases hop.symm.trans hop''
          simp [hfinal''] at hfinal'
      · exact ⟨entry, set_eq_some.mpr (.inl ⟨hgf, hf⟩), hentry⟩
    | @dropped g other phase row =>
      by_cases hgf : f = g
      · subst hgf
        cases row.symm.trans hf
        exact ⟨_, set_eq_some.mpr (.inr ⟨rfl, lt_of_row row, rfl⟩), hentry⟩
      · exact ⟨entry, set_eq_some.mpr (.inl ⟨hgf, hf⟩), hentry⟩
    | _ => exact ⟨entry, hf, hentry⟩
  · cases hadded with
    | cancel => cases hrole
    | submission driver sendZcSupported row live idle owner =>
      obtain ⟨rfl, rfl⟩ := OpRole.owned.inj hrole
      cases he with
      | ignored => simp at hop'
      | @polled g polled window driver sendZcSupported step opened row' live owner effect =>
        refine ⟨_, set_eq_some.mpr (.inr ⟨rfl, lt_of_row row', rfl⟩), ?_⟩
        rcases effect.submitted_cases rfl with hnone | ⟨_, submission, hone, _⟩
        · simp [hnone] at hop'
        · simp [FutureEntry.polled, hone]

theorem InTurn.alone_step (h : w.InTurn) (hc : w.AwaitsInTurn e) (he : Effect w e w') :
    w'.AwaitsAlone := by
  intro f g entry other hf hg hne hlive hop howner hop'
  cases he with
  | created =>
    rcases concat_eq_some.mp hf with hf | ⟨_, rfl⟩
    · rcases concat_eq_some.mp hg with hg | ⟨_, rfl⟩
      · exact h.alone f g entry other hf hg hne hlive hop howner hop'
      · simp at hop'
    · simp at hop
  | @polled p polled window driver sendZcSupported step opened row live owner effect =>
    obtain ⟨hidle, _⟩ := hc polled (by rw [row]; rfl)
    rcases set_eq_some.mp hf with ⟨hfp, hf₀⟩ | ⟨rfl, _, rfl⟩
    · rcases set_eq_some.mp hg with ⟨_, hg₀⟩ | ⟨rfl, _, rfl⟩
      · exact h.alone f g entry other hf₀ hg₀ hne hlive hop howner hop'
      · -- the other live future would have had to resolve first
        rcases effect.submitted_cases rfl with hnone | ⟨hsub, submission, hone, _⟩
        · have hsame : polled.op.isSome = true := by simpa [FutureEntry.polled, hnone] using hop'
          have := h.alone f g entry polled hf₀ row hne hlive hop howner hsame
          simp [live, FutureStatus.isResolved] at this
        · have := hidle hsub f (lt_of_row hf₀) hne.symm entry (by rw [hf₀]; rfl) howner.symm hop
          simp [hlive, FutureStatus.isResolved] at this
    · rcases set_eq_some.mp hg with ⟨_, hg₀⟩ | ⟨rfl, _, rfl⟩
      · rcases effect.submitted_cases rfl with hnone | ⟨hsub, submission, hone, _⟩
        · have hsame : polled.op.isSome = true := by simpa [FutureEntry.polled, hnone] using hop
          exact h.alone f g polled other row hg₀ hne live hsame howner hop'
        · exact hidle hsub g (lt_of_row hg₀) hne other (by rw [hg₀]; rfl) howner hop'
      · exact absurd rfl hne
  | @dropped p gone phase row live =>
    rcases set_eq_some.mp hf with ⟨hfp, hf₀⟩ | ⟨rfl, _, rfl⟩
    · rcases set_eq_some.mp hg with ⟨_, hg₀⟩ | ⟨rfl, _, rfl⟩
      · exact h.alone f g entry other hf₀ hg₀ hne hlive hop howner hop'
      · have := h.alone f g entry gone hf₀ row hne hlive hop howner hop'
        simp [live, FutureStatus.isResolved] at this
    · simp at hlive
  | _ => exact h.alone f g entry other hf hg hne hlive hop howner hop'

variable {f o : Nat} {entry : FutureEntry}

theorem InTurn.captured (hs : w.Sound) (h : w.InTurn) {driver : SubmitResult}
    {sendZcSupported : Bool} (hc : w.AwaitsInTurn (.pollFuture f driver sendZcSupported))
    {window : Window} {slot : WakeSlot} (hwindow : w.window = some window)
    (hf : w.futures[f]? = some entry) (howner : entry.owner = window.token)
    (hflight : entry.InFlight o) (hslot : window.wakeSlot = some slot) :
    ∃ c, (o, c) ∈ w.stored ∧ slot = c.wakeSlot := by
  obtain ⟨header, htask, hrunning, hshows⟩ := (hs.window window hwindow).running
  rw [hslot] at hshows
  have hresult : header.wakeData.hasResult = true := by
    cases hr : header.wakeData.hasResult with
    | true => rfl
    | false => simp [wakeSlotOf, hr] at hshows
  by_cases hstored : ∃ c, (o, c) ∈ w.stored
  · obtain ⟨c, hmem⟩ := hstored
    have hdata := h.shown f entry o c header hf hflight hmem (howner ▸ htask) hresult
    obtain ⟨_, _, _, _, _, hbuf⟩ := h.stored o c hmem
    rw [hdata, wakeSlotOf_wakeData hbuf] at hshows
    exact ⟨c, hmem, Option.some.inj hshows⟩
  · have hpolled := (h.unstored f entry o header hf hflight (fun c hmem => hstored ⟨c, hmem⟩)
      (howner ▸ htask) hresult).2 window hwindow howner.symm
    exact absurd hpolled ((hc entry (by rw [hf]; rfl)).2 hflight.guarded window (by rw [hwindow]; rfl))

theorem InTurn.final_of_stored (hs : w.Sound) (h : w.InTurn) {c : Completion}
    (hf : w.futures[f]? = some entry) (hflight : entry.InFlight o) (hmem : (o, c) ∈ w.stored)
    (hmore : entry.future.kind = .sendZc → (CqeFlags.mk c.wakeSlot.flags).contains .more = false) :
    w.HasFinished o := by
  obtain ⟨op, hop, _, hzc, hfinal, _⟩ := h.stored o c hmem
  refine ⟨op, hop, hfinal ?_⟩
  obtain ⟨key, hkey⟩ := Option.isSome_iff_exists.mp hflight.guarded
  obtain ⟨o', r, ho', hr, hrole, _⟩ := (hs.owner.entry f entry hf).submitted key hkey
  cases hflight.op.symm.trans ho'
  obtain ⟨op', hop', rfl⟩ := requests_row hr
  cases hop.symm.trans hop'
  cases hm : c.hasMore with
  | false => rfl
  | true =>
    have hkind := (hs.owner.owned o op.toRequest f _ hr hrole).1.zeroCopy (hzc hm)
    have := hmore hkind
    simp [Completion.hasMore, Completion.wakeSlot] at hm this
    simp [hm] at this

theorem InTurn.settled_step (hs : w.Sound) (h : w.InTurn) (hn : w.NotifsFollow)
    (hc : w.AwaitsInTurn e) (he : Effect w e w') : w'.IdlesFinished := by
  intro f entry o hf hidle hop
  -- what had finished before the step still has
  have hkept : w.HasFinished o → w'.HasFinished o := by
    rintro ⟨op, hop, hfinal⟩
    obtain ⟨op', hop', hlater⟩ := he.later hop
    exact ⟨op', hop', hlater.final hfinal⟩
  apply hkept
  cases he with
  | created =>
    rcases concat_eq_some.mp hf with hf | ⟨_, rfl⟩
    · exact h.settled f entry o hf hidle hop
    · simp at hop
  | @polled p polled window driver sendZcSupported step opened row live owner effect =>
    rcases set_eq_some.mp hf with ⟨_, hf⟩ | ⟨rfl, _, rfl⟩
    · exact h.settled f entry o hf hidle hop
    · have hwaits : ∀ key, polled.future.submitted = some key → step.seam.submitted = [] →
          polled.InFlight o := by
        intro key hkey hnone
        refine ⟨live, ?_, by rw [hkey]; rfl⟩
        simpa [FutureEntry.polled, hnone] using hop
      cases effect with
      | refused poll hasFallenBack slab idle =>
        exact h.settled f polled o row idle (by simpa [FutureEntry.polled, seam] using hop)
      | waiting key primary inFlight => simp [FutureEntry.polled, inFlight] at hidle
      | resolved key slot inFlight captured final =>
        have hnone : (if polled.future.kind.isBuffered then
            (w.seam window driver sendZcSupported).freeSlot key
          else w.seam window driver sendZcSupported).submitted = [] := by split <;> rfl
        have hflight := hwaits key inFlight hnone
        obtain ⟨c, hmem, rfl⟩ := h.captured hs hc opened row owner hflight captured
        exact h.final_of_stored hs row hflight hmem final
      | released key primary inFlight zc stash ready =>
        exact hn.released f polled o key row (hwaits key inFlight rfl) inFlight zc ready
      | fallback key slot inFlight zc captured final =>
        have hflight := hwaits key inFlight rfl
        obtain ⟨c, hmem, rfl⟩ := h.captured hs hc opened row owner hflight captured
        exact h.final_of_stored hs row hflight hmem fun _ => final
      | _ => simp [FutureEntry.polled] at hidle
  | @dropped p gone phase row =>
    rcases set_eq_some.mp hf with ⟨_, hf⟩ | ⟨rfl, _, rfl⟩
    · exact h.settled f entry o hf hidle hop
    · exact h.settled f gone o row hidle hop
  | _ => exact h.settled f entry o hf hidle hop

theorem InTurn.head_own (hs : w.Sound) (h : w.InTurn) {g p : Nat} {op : KernelOp}
    {kind : FutureKind} {c : Completion} (hf : w.futures[f]? = some entry)
    (hflight : entry.InFlight o) (hop : w.ops[p]? = some op) (hq : op.Queued c)
    (hrole : op.role = .owned g kind) (htoken : entry.owner = c.token) : p = o := by
  obtain ⟨other, hg, hlast⟩ := h.latest p op g kind hop hrole hq.undrained
  by_cases hgf : g = f
  · subst hgf
    cases hf.symm.trans hg
    exact Option.some.inj (hlast.symm.trans hflight.op)
  · -- another future of the task has resolved, and its request with it
    have howner : other.owner = entry.owner := by
      obtain ⟨_, other', hg', _, howner, _⟩ := hs.owner.owned p op.toRequest g kind (map_row hop) hrole
      cases hg.symm.trans hg'
      rw [howner, htoken, hq.token]
    have hresolved := h.alone f g entry other hf hg hgf hflight.live (by rw [hflight.op]; rfl)
      howner (by rw [hlast]; rfl)
    have hidle := (hs.owner.entry g other hg).resolved hresolved
    obtain ⟨op', hop', hfinal⟩ := h.settled g other p hg hidle hlast
    cases hop.symm.trans hop'
    simp [hq.undrained] at hfinal

theorem Effect.wakeData (he : Effect w e w') (hstored : w'.stored = w.stored) {token : UInt64}
    {header' : TaskHeader} (htask : w'.shard.tasks token = some header')
    (hresult : header'.wakeData.hasResult = true) :
    ∃ header, w.shard.tasks token = some header ∧ header.wakeData = header'.wakeData := by
  have hmodify : ∀ {shard : IoShard} {t : UInt64} {f : TaskHeader → TaskHeader},
      shard.tasks = w.shard.tasks → (shard.modifyTask t f).tasks token = some header' →
      (∀ header, (f header).wakeData = header.wakeData) →
        ∃ header, w.shard.tasks token = some header ∧ header.wakeData = header'.wakeData := by
    intro shard t f hsame htask hdata
    rcases modifyTask_eq_some.mp htask with ⟨_, htask⟩ | ⟨rfl, old, hold, rfl⟩
    · exact ⟨header', hsame ▸ htask, rfl⟩
    · exact ⟨old, hsame ▸ hold, (hdata old).symm⟩
  cases he with
  | cancelDrained =>
    rw [(recordCancel_frame _ _).2.1] at htask
    exact ⟨header', htask, rfl⟩
  | cancelAnswered =>
    rw [(reclaimCancelCompletion_frame _ _ _).2.1] at htask
    exact ⟨header', htask, rfl⟩
  | notified => exact hmodify (reclaimNotif_frame _ _).2.1 htask fun _ => rfl
  | disposed _ _ _ _ _ _ disposal =>
    rw [disposal.frame.2.1] at htask
    exact ⟨header', htask, rfl⟩
  | stored => simp at hstored
  | woken => exact hmodify rfl htask fun _ => rfl
  | spawned =>
    rcases setTask_eq_some.mp htask with ⟨_, htask⟩ | ⟨_, hnew⟩
    · exact ⟨header', htask, rfl⟩
    · cases hnew
      simp [TaskHeader.new, WakeData.empty] at hresult
  | taskCancelled => exact hmodify rfl htask fun _ => rfl
  | reaped =>
    rcases setTask_eq_some.mp htask with ⟨_, htask⟩ | ⟨_, hnew⟩
    · exact ⟨header', htask, rfl⟩
    · cases hnew
  | @pollStarted t header idle task =>
    rcases setTask_eq_some.mp htask with ⟨_, htask⟩ | ⟨rfl, hnew⟩
    · exact ⟨header', htask, rfl⟩
    · cases hnew
      exact ⟨header, task, rfl⟩
  | pollEnded =>
    refine hmodify rfl htask fun header => ?_
    rw [TaskHeader.landSubmitted_wakeData]
  | @dropped f entry =>
    refine ⟨header', ?_, rfl⟩
    revert htask
    cases entry.future.submitted <;> exact id
  | _ => exact ⟨header', htask, rfl⟩

theorem Effect.inFlight (he : Effect w e w') {entry' : FutureEntry}
    (hf : w'.futures[f]? = some entry') (hflight : entry'.InFlight o) :
    (∃ entry, w.futures[f]? = some entry ∧ entry.InFlight o ∧ entry.owner = entry'.owner) ∨
      o = w.ops.length := by
  cases he with
  | created =>
    rcases concat_eq_some.mp hf with hf | ⟨_, rfl⟩
    · exact .inl ⟨entry', hf, hflight, rfl⟩
    · simpa using hflight.op
  | @polled p polled window driver sendZcSupported step opened row live owner effect =>
    rcases set_eq_some.mp hf with ⟨_, hf₀⟩ | ⟨rfl, _, rfl⟩
    · exact .inl ⟨entry', hf₀, hflight, rfl⟩
    · cases effect with
      | refused poll hasFallenBack slab idle =>
        have hguard := hflight.guarded
        simp [FutureEntry.polled, idle] at hguard
      | slot => right; simpa [FutureEntry.polled, seam] using hflight.op.symm
      | slotless => right; simpa [FutureEntry.polled, seam] using hflight.op.symm
      | waiting key primary inFlight =>
        refine .inl ⟨polled, row, ⟨live, ?_, by rw [inFlight]; rfl⟩, rfl⟩
        simpa [FutureEntry.polled, seam] using hflight.op
      | _ => simpa [FutureEntry.polled] using hflight.guarded
  | @dropped p gone phase row live =>
    rcases set_eq_some.mp hf with ⟨_, hf₀⟩ | ⟨rfl, _, rfl⟩
    · exact .inl ⟨entry', hf₀, hflight, rfl⟩
    · simpa using hflight.live
  | _ => exact .inl ⟨entry', hf, hflight, rfl⟩

theorem Sound.inFlight_token (hs : w.Sound) {op : KernelOp} (hf : w.futures[f]? = some entry)
    (hflight : entry.InFlight o) (hop : w.ops[o]? = some op) :
    op.userData = entry.owner ∧ op.role = .owned f entry.future.kind := by
  obtain ⟨key, hkey⟩ := Option.isSome_iff_exists.mp hflight.guarded
  obtain ⟨o', r, ho', hr, hrole, huser, _⟩ := (hs.owner.entry f entry hf).submitted key hkey
  cases hflight.op.symm.trans ho'
  obtain ⟨op', hop', rfl⟩ := requests_row hr
  cases hop.symm.trans hop'
  exact ⟨huser, hrole⟩

theorem InTurn.shown_step (hs : w.Sound) (h : w.InTurn) (he : Effect w e w') :
    w'.ShowsStored := by
  intro f entry o c header hf hflight hmem htask hresult
  by_cases hstored : w'.stored = w.stored
  · obtain ⟨old, htask₀, hdata⟩ := he.wakeData hstored htask hresult
    rw [hstored] at hmem
    rcases he.inFlight hf hflight with ⟨entry₀, hf₀, hflight₀, howner⟩ | rfl
    · rw [← hdata]
      exact h.shown f entry₀ o c old hf₀ hflight₀ hmem (howner ▸ htask₀) (hdata ▸ hresult)
    · obtain ⟨op, hop, _⟩ := h.stored _ c hmem
      simp at hop
  · cases he with
    | @stored p g op kind c₁ batch phase head row queued role notif =>
      rcases storeCompletion_tasks htask with ⟨hne, htask₀⟩ | ⟨htoken, hdata⟩
      · rcases List.mem_append.mp hmem with hold | hnew
        · exact h.shown f entry o c header hf hflight hold htask₀ hresult
        · obtain ⟨rfl, rfl⟩ : o = p ∧ c = c₁ := by simpa using hnew
          rw [queued.token] at hne
          exact absurd (hs.inFlight_token hf hflight row).1.symm hne
      · obtain rfl := h.head_own hs hf hflight row queued role htoken
        rcases List.mem_append.mp hmem with hold | hnew
        · obtain ⟨op', hop', hresult', _⟩ := h.stored p c hold
          cases row.symm.trans hop'
          simp [queued.result notif] at hresult'
        · obtain ⟨_, rfl⟩ : p = p ∧ c = c₁ := by simpa using hnew
          exact hdata
    | _ => exact absurd rfl hstored

theorem InTurn.unstored_step (hs : w.Sound) (h : w.InTurn) (hn : w.NotifsFollow)
    (hc : w.WakesFresh e) (he : Effect w e w') : w'.HidesOld := by
  intro f entry o header hf hflight hun htask hresult
  cases he with
  | cancelDrained =>
    rw [(recordCancel_frame _ _).2.1] at htask
    exact h.unstored f entry o header hf hflight hun htask hresult
  | cancelAnswered =>
    rw [(reclaimCancelCompletion_frame _ _ _).2.1] at htask
    exact h.unstored f entry o header hf hflight hun htask hresult
  | @notified p g op kind c batch phase head row queued role notif =>
    rcases modifyTask_eq_some.mp htask with ⟨hne, htask₀⟩ | ⟨htoken, old, hold, rfl⟩
    · rw [(reclaimNotif_frame _ _).2.1] at htask₀
      exact h.unstored f entry o header hf hflight hun htask₀ hresult
    · -- the notification is the waited-for request's, whose completion is stored
      obtain rfl := h.head_own hs hf hflight row queued role htoken
      obtain ⟨c', hmem⟩ := hn.stored p c batch head notif
      exact absurd hmem (hun c')
  | disposed _ _ _ _ _ _ disposal =>
    rw [disposal.frame.2.1] at htask
    exact h.unstored f entry o header hf hflight hun htask hresult
  | @stored p g op kind c batch phase head row queued role =>
    rcases storeCompletion_tasks htask with ⟨hne, htask₀⟩ | ⟨htoken, _⟩
    · exact h.unstored f entry o header hf hflight
        (fun c' hmem => hun c' (List.mem_append_left _ hmem)) htask₀ hresult
    · obtain rfl := h.head_own hs hf hflight row queued role htoken
      exact absurd (List.mem_append_right _ List.mem_cons_self) (hun c)
  | woken =>
    rcases modifyTask_eq_some.mp htask with ⟨_, htask₀⟩ | ⟨htoken, old, hold, rfl⟩
    · exact h.unstored f entry o header hf hflight hun htask₀ hresult
    · have hasleep : old.state ≠ .sleeping := by
        intro hsleep
        have hidle := hc old (by rw [hold]; rfl) hsleep hresult entry (List.mem_of_getElem? hf)
          htoken hflight.live
        simpa [hidle] using hflight.guarded
      have hsame : old.state.after TaskState.wake = old.state := by
        rw [TaskState.after_wake, if_neg hasleep]
      rw [hsame]
      exact h.unstored f entry o old hf hflight hun (htoken ▸ hold) hresult
  | spawned =>
    rcases setTask_eq_some.mp htask with ⟨_, htask₀⟩ | ⟨_, hnew⟩
    · exact h.unstored f entry o header hf hflight hun htask₀ hresult
    · cases hnew
      simp [TaskHeader.new, WakeData.empty] at hresult
  | @taskCancelled token window opened other =>
    rcases modifyTask_eq_some.mp htask with ⟨_, htask₀⟩ | ⟨htoken, old, hold, rfl⟩
    · exact h.unstored f entry o header hf hflight hun htask₀ hresult
    · refine ⟨TaskState.after_cancel_ne.1, ?_⟩
      intro window' hwindow htoken'
      cases opened.symm.trans hwindow
      exact absurd (htoken'.trans htoken) other
  | reaped =>
    rcases setTask_eq_some.mp htask with ⟨_, htask₀⟩ | ⟨_, hnew⟩
    · exact h.unstored f entry o header hf hflight hun htask₀ hresult
    · cases hnew
  | @pollStarted token old idle task woken =>
    rcases setTask_eq_some.mp htask with ⟨hne, htask₀⟩ | ⟨rfl, hnew⟩
    · refine ⟨(h.unstored f entry o header hf hflight hun htask₀ hresult).1, ?_⟩
      rintro window ⟨⟩ htoken
      exact absurd htoken.symm hne
    · cases hnew
      exact absurd woken (h.unstored f entry o old hf hflight hun task hresult).1
  | created =>
    rcases concat_eq_some.mp hf with hf₀ | ⟨_, rfl⟩
    · exact h.unstored f entry o header hf₀ hflight hun htask hresult
    · simpa using hflight.op
  | @polled p polled window driver sendZcSupported step opened row live owner =>
    rcases set_eq_some.mp hf with ⟨_, hf₀⟩ | ⟨rfl, _, rfl⟩
    · obtain ⟨hstate, hpolled⟩ := h.unstored f entry o header hf₀ hflight hun htask hresult
      refine ⟨hstate, ?_⟩
      rintro window' ⟨⟩ htoken
      exact List.mem_cons_of_mem _ (hpolled window opened htoken)
    · obtain ⟨running, htask₀, hrunning, _⟩ := (hs.window window opened).running
      have htask₁ : w.shard.tasks window.token = some header := owner ▸ htask
      cases htask₀.symm.trans htask₁
      refine ⟨by simp [hrunning], ?_⟩
      rintro window' ⟨⟩ _
      exact List.mem_cons_self
  | @pollEnded window isReady opened =>
    obtain ⟨running, htask₀, hrunning, _⟩ := (hs.window window opened).running
    refine ⟨?_, by simp⟩
    rcases modifyTask_eq_some.mp htask with ⟨_, htask₁⟩ | ⟨htoken, old, hold, rfl⟩
    · exact (h.unstored f entry o header hf hflight hun htask₁ hresult).1
    · cases htask₀.symm.trans hold
      cases isReady <;> simp [hrunning, TaskState.after_complete, TaskState.after_suspend]
  | @dropped p gone phase row live =>
    rcases set_eq_some.mp hf with ⟨_, hf₀⟩ | ⟨rfl, _, rfl⟩
    · refine h.unstored f entry o header hf₀ hflight hun ?_ hresult
      revert htask
      cases gone.future.submitted <;> exact id
    · simpa using hflight.live
  | _ => exact h.unstored f entry o header hf hflight hun htask hresult

theorem InTurn.step (hs : w.Sound) (h : w.InTurn) (hn : w.NotifsFollow) (ha : w.AwaitsInTurn e)
    (hw : w.WakesFresh e) : (w.step e).InTurn :=
  have he := step_effect hs e
  ⟨h.stored_step hs he, h.latest_step he, h.alone_step ha he, h.settled_step hs hn ha he,
    h.unstored_step hs hn hw he, h.shown_step hs he⟩

theorem init_inTurn (id cap : Nat) : (init id cap).InTurn := by
  constructor <;>
    simp [init, StoresDrained, AwaitsLatest, AwaitsAlone, IdlesFinished, HidesOld, ShowsStored]

end Steps

section SingleShot

variable {w w' : IoWorld} {e : Event}

structure Awaiting (w : IoWorld) : Prop where
  sound : w.Sound
  inTurn : w.InTurn
  kinds : ∀ entry ∈ w.futures, entry.future.kind ≠ .sendZc

theorem Awaiting.notifsFollow (h : w.Awaiting) : w.NotifsFollow := by
  constructor
  · intro o c batch hbatch hn
    have hmem : (some o, c) ∈ w.queue := by simp [IoWorld.queue, hbatch]
    obtain ⟨op, hop, hq⟩ := h.sound.queue.queued o c hmem
    cases hrole : op.role with
    | cancel => simp [(h.sound.isCancelSentinel hop hq hrole).2.1] at hn
    | owned f kind =>
      have hkind := h.sound.kind_of_notif hop hq hrole hn
      obtain ⟨_, entry, hf, hkind', _⟩ :=
        h.sound.owner.owned o op.toRequest f kind (map_row hop) hrole
      exact absurd (hkind'.trans hkind) (h.kinds entry (List.mem_of_getElem? hf))
  · intro f entry o key hf _ _ hkind
    exact absurd hkind (h.kinds entry (List.mem_of_getElem? hf))

theorem Awaiting.kinds_step (h : w.Awaiting) (hc : SingleShot e) (he : Effect w e w') :
    ∀ entry ∈ w'.futures, entry.future.kind ≠ .sendZc := by
  intro entry hmem
  cases he with
  | created =>
    rcases List.mem_append.mp hmem with hmem | hmem
    · exact h.kinds entry hmem
    · obtain rfl := List.mem_singleton.mp hmem
      exact hc
  | @polled f polled window driver sendZcSupported step opened row live owner effect =>
    rcases List.mem_or_eq_of_mem_set hmem with hmem | rfl
    · exact h.kinds entry hmem
    · have hkind : step.future.kind = polled.future.kind := by cases effect <;> rfl
      exact hkind ▸ h.kinds polled (List.mem_of_getElem? row)
  | @dropped f gone phase row =>
    rcases List.mem_or_eq_of_mem_set hmem with hmem | rfl
    · exact h.kinds entry hmem
    · exact h.kinds gone (List.mem_of_getElem? row)
  | _ => exact h.kinds entry hmem

theorem Awaiting.step (h : w.Awaiting) (hc : SingleShot e) (ha : w.AwaitsInTurn e)
    (hw : w.WakesFresh e) : (w.step e).Awaiting :=
  ⟨h.sound.step e, h.inTurn.step h.sound h.notifsFollow ha hw,
    h.kinds_step hc (step_effect h.sound e)⟩

theorem Awaiting.resolvesOwn (h : w.Awaiting) (ha : w.AwaitsInTurn e) : w.ResolvesOwn e := by
  cases e with
  | pollFuture f driver sendZcSupported =>
    intro entry entry' output hf hlive hguard hf' hresolved
    have he := pollFuture_effect (w := w) f driver sendZcSupported
    revert hf'
    generalize w.pollFuture f driver sendZcSupported = after at he
    intro hf'
    cases he with
    | ignored =>
      cases hf.symm.trans hf'
      simp [hlive] at hresolved
    | @polled _ _ window _ _ step opened row live owner effect =>
      cases hf.symm.trans row
      rcases set_eq_some.mp hf' with ⟨hne, _⟩ | ⟨_, _, rfl⟩
      · exact absurd rfl hne
      obtain ⟨key, hkey⟩ := Option.isSome_iff_exists.mp hguard
      obtain ⟨o, r, hop, hr, hrole, _⟩ := (h.sound.owner.entry f entry hf).submitted key hkey
      obtain ⟨op, hrow, rfl⟩ := requests_row hr
      have hzc := h.kinds entry (List.mem_of_getElem? hf)
      cases effect with
      | resolved key slot inFlight captured =>
        obtain ⟨c, hmem, rfl⟩ :=
          h.inTurn.captured h.sound ha opened hf owner ⟨hlive, hop, hguard⟩ captured
        refine ⟨o, op, c, hop, hrow, hrole, hmem, ?_⟩
        simpa [FutureEntry.polled] using hresolved.symm
      | refused _ _ _ idle => simp [idle] at hkey
      | slot _ _ _ _ idle => simp [idle] at hkey
      | slotless _ idle => simp [idle] at hkey
      | waiting => simp [FutureEntry.polled] at hresolved
      | released _ _ _ zc => exact absurd zc hzc
      | fallback _ _ _ zc => exact absurd zc hzc
  | _ => trivial

end SingleShot

/-- When no stray wake reaches a task that sleeps on an operation with an old completion in its
wake slot, every future awaited in turn resolves with the completion of its own request. -/
theorem await_resolves_own (id cap : Nat) (es : List Event)
    (h : Meets step (fun w e => SingleShot e ∧ w.AwaitsInTurn e) (init id cap) es)
    (hw : Meets step WakesFresh (init id cap) es) : Meets step ResolvesOwn (init id cap) es := by
  have hinit : (init id cap).Awaiting :=
    ⟨init_sound id cap, init_inTurn id cap, by simp [init]⟩
  exact (meets_and.mpr ⟨h, hw⟩).of_invariant (fun _ _ hi hc => hi.step hc.1.1 hc.1.2 hc.2)
    (fun _ _ hi hc => hi.resolvesOwn hc.1.2) hinit

/-- Task 5 resolves a receive and makes its second request in the same poll. -/
def resolvesFirst : List Event :=
  [.readCompletions, .complete, .spawn 5 ⟨0, 0⟩, .wake 5, .startPoll 5, .create .recv 16,
    .pollFuture 0 .submitted false, .endPoll false, .endPass, .post 0 ⟨5, 7, 0⟩, .readCompletions,
    .complete, .complete, .startPoll 5, .pollFuture 0 .submitted false, .create .recv 16,
    .pollFuture 1 .submitted false, .endPoll false, .endPass]

/-- The second request is answered before the task is woken. -/
def awaitsTwice : List Event :=
  resolvesFirst ++ [.post 1 ⟨5, 3, 0⟩, .readCompletions, .complete, .complete, .wake 5, .startPoll 5,
    .pollFuture 1 .submitted false]

theorem await_resolves_own_twice :
    Meets step (fun w e => SingleShot e ∧ w.AwaitsInTurn e) (init 0 2) awaitsTwice ∧
      Meets step WakesFresh (init 0 2) awaitsTwice ∧
      (run step (init 0 2) awaitsTwice).futures.map (·.status) =
        [.resolved (.bytes (.ok 7)), .resolved (.bytes (.ok 3))] ∧
      Meets step ResolvesOwn (init 0 2) awaitsTwice :=
  have h : Meets step (fun w e => SingleShot e ∧ w.AwaitsInTurn e) (init 0 2) awaitsTwice := by
    decide +kernel
  have hw : Meets step WakesFresh (init 0 2) awaitsTwice := by decide +kernel
  ⟨h, hw, by decide +kernel, await_resolves_own 0 2 awaitsTwice h hw⟩

/-- A timer wakes the task while its second request is still running. -/
def wokenWhileWaiting : List Event :=
  resolvesFirst ++ [.readCompletions, .complete, .wake 5, .startPoll 5]

/-- The second receive resolves with the seven bytes of the first. -/
theorem stray_wake_resolves_twice : ¬ ∀ id cap es,
    Meets step (fun w e => SingleShot e ∧ w.AwaitsInTurn e) (init id cap) es →
      Meets step ResolvesOwn (init id cap) es := by
  intro h
  have hmeets := h 0 2 (wokenWhileWaiting ++ [.pollFuture 1 .submitted false]) (by decide +kernel)
  have hlast := (meets_append.mp hmeets).2.1
  have hentry : (run step (init 0 2) wokenWhileWaiting).futures[1]? = some
      ⟨5, ⟨.recv, 16, some ⟨0, 1, 0, 5⟩, none, false, false⟩, .live, some 1⟩ := by decide +kernel
  have hentry' : ((run step (init 0 2) wokenWhileWaiting).pollFuture 1 .submitted
      false).futures[1]? = some
      ⟨5, ⟨.recv, 16, none, none, false, false⟩, .resolved (.bytes (.ok 7)), some 1⟩ := by
    decide +kernel
  obtain ⟨o, op, c, ho, hop, _, hmem, _⟩ := hlast _ _ _ hentry rfl rfl hentry' rfl
  cases ho
  have hstored : ∀ p ∈ (run step (init 0 2) wokenWhileWaiting).stored, p.1 ≠ 1 := by decide +kernel
  exact hstored _ hmem rfl

end IoWorld

end Kwokka
