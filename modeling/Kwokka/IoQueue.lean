import Kwokka.IoWorker

/-! What the completions still to be handled say about the requests they belong
to: every request posts one result, possibly followed by one notification, and
the worker handles them in that order. -/

namespace Kwokka

open Table

structure KernelOp.Queued (op : KernelOp) (c : Completion) : Prop where
  token : c.token = op.userData
  undrained : op.isFinalDrained = false
  notif : c.isNotif = true → op.stage = .notified ∧ c.hasMore = false
  more : c.isNotif = false → c.hasMore = true →
    op.isResultDrained = false ∧ (op.stage = .awaitingNotif ∨ op.stage = .notified)
  only : c.isNotif = false → c.hasMore = false → op.isResultDrained = false ∧ op.stage = .posted
  buffer : ∀ id ∈ c.bufId, (∃ f, op.role = .owned f .providedRecv) ∧
    id.toNat < providedRecvRingEntries

/-- The request was made under `token` and its final completion has not been handled. -/
def KernelOp.isPendingFor (op : KernelOp) (token : UInt64) : Bool :=
  op.userData == token && !op.isFinalDrained

structure KernelOp.Coherent (op : KernelOp) : Prop where
  zeroCopy : op.stage = .awaitingNotif ∨ op.stage = .notified → op.zeroCopy = true
  running : op.stage = .running → op.isResultDrained = false ∧ op.isFinalDrained = false
  final : op.isFinalDrained = true → op.stage.isFinal = true

def Precedes (a b : Option Nat × Completion) : Prop :=
  ∀ o, a.1 = some o → b.1 = some o → a.2.isNotif = false ∧ b.2.isNotif = true

structure QueueSound (ops : List KernelOp) (queue : List (Option Nat × Completion)) : Prop where
  coherent : ∀ (o : Nat) op, ops[o]? = some op → op.Coherent
  queued : ∀ o c, (some o, c) ∈ queue →
    ∃ op, ops[o]? = some op ∧ op.Queued c
  foreign : ∀ c, (none, c) ∈ queue →
    isForeign c.token = true ∧ c.isNotif = false
  ordered : queue.Pairwise Precedes

structure KernelOp.Later (op op' : KernelOp) : Prop where
  request : op'.toRequest = op.toRequest
  result : op.isResultDrained = true → op'.isResultDrained = true
  final : op.isFinalDrained = true → op'.isFinalDrained = true
  stage : op.stage.isFinal = true → op'.stage.isFinal = true

namespace KernelOp

variable {op : KernelOp} {ops : List KernelOp} {cqe : Cqe} {c : Completion}

@[simp]
theorem toRequest_posted : (op.posted cqe).toRequest = op.toRequest := rfl

@[simp]
theorem toRequest_drained : (op.drained c).toRequest = op.toRequest := rfl

@[simp]
theorem stage_drained : (op.drained c).stage = op.stage := rfl

@[simp]
theorem isFinalDrained_posted : (op.posted cqe).isFinalDrained = op.isFinalDrained := rfl

@[simp]
theorem isResultDrained_posted : (op.posted cqe).isResultDrained = op.isResultDrained := rfl

theorem isPendingFor_iff {token : UInt64} :
    op.isPendingFor token = true ↔ op.userData = token ∧ op.isFinalDrained = false := by
  simp [isPendingFor]

@[simp]
theorem isPendingFor_posted {token : UInt64} :
    (op.posted cqe).isPendingFor token = op.isPendingFor token := rfl

theorem isPendingFor_of_drained {token : UInt64}
    (h : (op.drained c).isPendingFor token = true) : op.isPendingFor token = true := by
  simp only [isPendingFor_iff, drained, Bool.or_eq_false_iff] at h ⊢
  exact ⟨h.1, h.2.1⟩

theorem Queued.isPendingFor (h : op.Queued c) : op.isPendingFor op.userData = true :=
  isPendingFor_iff.mpr ⟨rfl, h.undrained⟩

theorem Queued.stage_ne_running (h : op.Queued c) : op.stage ≠ .running := by
  cases hn : c.isNotif with
  | true => simp [(h.notif hn).1]
  | false =>
    cases hm : c.hasMore with
    | true => rcases (h.more hn hm).2 with hs | hs <;> simp [hs]
    | false => simp [(h.only hn hm).2]

theorem Queued.result (h : op.Queued c) (hn : c.isNotif = false) : op.isResultDrained = false := by
  cases hm : c.hasMore with
  | true => exact (h.more hn hm).1
  | false => exact (h.only hn hm).1

theorem mayPost_running (h : op.mayPost ops cqe = true) (hs : op.stage = .running) :
    cqe.userData = op.userData ∧ isCqeNotif cqe.flags = false ∧
      (isCqeMore cqe.flags = true → op.zeroCopy = true) ∧
      (∀ id ∈ bufferSelect cqe.flags, (∃ f, op.role = .owned f .providedRecv) ∧
        id.toNat < providedRecvRingEntries) ∧
      (∀ key, op.role = .cancel key → cqe.result = -2 → isTargetGone ops key.opToken = true) := by
  simp only [mayPost, hs, Bool.and_eq_true, beq_iff_eq, Bool.not_eq_true', Bool.or_eq_true] at h
  obtain ⟨htok, ⟨hnotif, hmore⟩, hrole⟩ := h
  refine ⟨htok, hnotif, fun hm => by simpa [hm] using hmore, ?_, ?_⟩
  · intro id hid
    cases hr : op.role with
    | owned f =>
      simp only [hr, Option.mem_def.mp hid, Bool.and_eq_true, decide_eq_true_eq] at hrole
      exact ⟨⟨f, by rw [hrole.1]⟩, hrole.2⟩
    | cancel => simp [hr, Option.mem_def.mp hid] at hrole
  · intro key hr hres
    simp only [hr, Bool.and_eq_true, Bool.or_eq_true, bne_iff_ne] at hrole
    exact hrole.2.resolve_left (by simp [hres])

theorem mayPost_awaitingNotif (h : op.mayPost ops cqe = true) (hs : op.stage = .awaitingNotif) :
    cqe.userData = op.userData ∧ isCqeNotif cqe.flags = true ∧ isCqeMore cqe.flags = false ∧
      bufferSelect cqe.flags = none := by
  simp only [mayPost, hs, Bool.and_eq_true, beq_iff_eq, Bool.not_eq_true',
    Option.isNone_iff_eq_none] at h
  exact ⟨h.1, h.2.1.1, h.2.1.2, h.2.2⟩

theorem mayPost_stage (h : op.mayPost ops cqe = true) :
    op.stage = .running ∨ op.stage = .awaitingNotif := by
  cases hs : op.stage <;> simp [mayPost, hs] at h ⊢

theorem Later.refl (op : KernelOp) : op.Later op := ⟨rfl, id, id, id⟩

theorem Later.role {op' : KernelOp} (h : op.Later op') : op'.role = op.role :=
  congrArg Request.role h.request

theorem Later.key {op' : KernelOp} (h : op.Later op') : op'.key = op.key :=
  congrArg (fun r : Request => r.key) h.request

theorem later_posted (op : KernelOp) (cqe : Cqe) : op.Later (op.posted cqe) := by
  refine ⟨rfl, id, id, ?_⟩
  intro hfinal
  cases hs : op.stage <;> simp [hs, Stage.isFinal, posted] at hfinal ⊢

theorem later_drained (op : KernelOp) (c : Completion) : op.Later (op.drained c) := by
  refine ⟨rfl, ?_, ?_, id⟩
  · intro h
    simp [drained, h]
  · intro h
    simp [drained, h]

theorem Coherent.queued_posted (hc : op.Coherent) (h : op.mayPost ops cqe = true) :
    (op.posted cqe).Queued (translateCqe cqe) := by
  have hdrained : op.isFinalDrained = false := by
    cases hf : op.isFinalDrained with
    | false => rfl
    | true => rcases mayPost_stage h with hs | hs <;> simpa [hs, Stage.isFinal] using hc.final hf
  rcases mayPost_stage h with hs | hs
  · obtain ⟨htok, hnotif, _, hbuf, _⟩ := mayPost_running h hs
    have hnotif' : (translateCqe cqe).isNotif = false := by rw [translateCqe_isNotif, hnotif]
    refine ⟨htok, hdrained, ?_, ?_, ?_, hbuf⟩
    · intro hn
      simp [hnotif'] at hn
    · intro _ hm
      rw [translateCqe_hasMore] at hm
      exact ⟨(hc.running hs).1, .inl (by simp [posted, hs, hm])⟩
    · intro _ hm
      rw [translateCqe_hasMore] at hm
      exact ⟨(hc.running hs).1, by simp [posted, hs, hm]⟩
  · obtain ⟨htok, hnotif, hmore, hbuf⟩ := mayPost_awaitingNotif h hs
    have hnotif' : (translateCqe cqe).isNotif = true := by rw [translateCqe_isNotif, hnotif]
    refine ⟨htok, hdrained, ?_, ?_, ?_, ?_⟩
    · intro _
      exact ⟨by simp [posted, hs], by rw [translateCqe_hasMore, hmore]⟩
    · intro hn
      simp [hnotif'] at hn
    · intro hn
      simp [hnotif'] at hn
    · intro id hid
      simp [translateCqe, hbuf] at hid

theorem Coherent.posted (hc : op.Coherent) (h : op.mayPost ops cqe = true) :
    (op.posted cqe).Coherent := by
  have hq := hc.queued_posted h
  refine ⟨?_, fun hs => absurd hs hq.stage_ne_running, ?_⟩
  · intro _
    rcases mayPost_stage h with hs | hs
    · have hrun := (mayPost_running h hs).2.2.1
      cases hm : isCqeMore cqe.flags with
      | true => exact hrun hm
      | false => simp_all [KernelOp.posted]
    · exact hc.zeroCopy (.inl hs)
  · intro hf
    rw [hq.undrained] at hf
    simp at hf

end KernelOp

namespace QueueSound

variable {ops : List KernelOp} {queue : List (Option Nat × Completion)} {o : Nat} {op : KernelOp}
  {cqe : Cqe} {c : Completion}

section

variable (h : QueueSound ops queue)

include h

theorem queued_of_eq {ops' : List KernelOp} {p : Nat} (hmem : (some p, c) ∈ queue)
    (heq : ops'[p]? = ops[p]?) :
    ∃ op, ops'[p]? = some op ∧ op.Queued c := by
  rw [heq]
  exact h.queued p c hmem

theorem post (hop : ops[o]? = some op) (hpost : op.mayPost ops cqe = true) :
    QueueSound (ops.set o (op.posted cqe)) (queue ++ [(some o, translateCqe cqe)]) := by
  have hc := h.coherent o op hop
  have hset : (ops.set o (op.posted cqe))[o]? = some (op.posted cqe) :=
    set_eq_some.mpr (.inr ⟨rfl, lt_of_row hop, rfl⟩)
  -- a request that may still post has no completion waiting except its announced result
  have hbefore : ∀ d, (some o, d) ∈ queue → op.stage = .awaitingNotif ∧ d.isNotif = false ∧
      d.hasMore = true ∧ op.Queued d := by
    intro d hd
    obtain ⟨op', hop', hq⟩ := h.queued o d hd
    cases hop.symm.trans hop'
    have hs := (KernelOp.mayPost_stage hpost).resolve_left hq.stage_ne_running
    have hn : d.isNotif = false := by
      cases hn : d.isNotif with
      | false => rfl
      | true => simpa [hs] using (hq.notif hn).1
    have hm : d.hasMore = true := by
      cases hm : d.hasMore with
      | true => rfl
      | false => simpa [hs] using (hq.only hn hm).2
    exact ⟨hs, hn, hm, hq⟩
  refine ⟨?_, ?_, ?_, ?_⟩
  · intro p op' hp
    rcases set_eq_some.mp hp with ⟨_, hp⟩ | ⟨_, _, rfl⟩
    · exact h.coherent p op' hp
    · exact hc.posted hpost
  · intro p d hmem
    rcases List.mem_append.mp hmem with hold | hnew
    · by_cases hpo : p = o
      · subst hpo
        obtain ⟨hs, hn, hm, hq⟩ := hbefore d hold
        refine ⟨_, hset, hq.token, hq.undrained, ?_, ?_, ?_, hq.buffer⟩
        · intro hn'
          simp [hn] at hn'
        · intro _ _
          exact ⟨hq.result hn, .inr (by simp [KernelOp.posted, hs])⟩
        · intro _ hm'
          simp [hm] at hm'
      · exact h.queued_of_eq hold (List.getElem?_set_ne (Ne.symm hpo))
    · obtain ⟨hpo, rfl⟩ : p = o ∧ d = translateCqe cqe := by simpa using hnew
      subst hpo
      exact ⟨_, hset, hc.queued_posted hpost⟩
  · intro d hmem
    exact h.foreign d (by simpa using hmem)
  · refine List.pairwise_append.mpr ⟨h.ordered, List.pairwise_singleton _ _, ?_⟩
    intro a ha b hb p hap hbp
    obtain rfl := List.mem_singleton.mp hb
    obtain ⟨a₁, d⟩ := a
    obtain rfl : a₁ = some p := hap
    cases hbp
    obtain ⟨hs, hn, _, _⟩ := hbefore d ha
    exact ⟨hn, by simpa [translateCqe_isNotif] using (KernelOp.mayPost_awaitingNotif hpost hs).2.1⟩

theorem postForeign (hf : isForeign c.token = true)
    (hn : c.isNotif = false) : QueueSound ops (queue ++ [(none, c)]) := by
  refine ⟨h.coherent, ?_, ?_, ?_⟩
  · intro p d hmem
    exact h.queued p d (by simpa using hmem)
  · intro d hmem
    rcases List.mem_append.mp hmem with hmem | hmem
    · exact h.foreign d hmem
    · obtain rfl : d = c := by simpa using hmem
      exact ⟨hf, hn⟩
  · refine List.pairwise_append.mpr ⟨h.ordered, List.pairwise_singleton _ _, ?_⟩
    intro a _ b hb p _ hbp
    obtain rfl := List.mem_singleton.mp hb
    simp at hbp

theorem sublist {queue' : List (Option Nat × Completion)}
    (hsub : queue'.Sublist queue) : QueueSound ops queue' :=
  ⟨h.coherent, fun p d hmem => h.queued p d (hsub.subset hmem),
    fun d hmem => h.foreign d (hsub.subset hmem), h.ordered.sublist hsub⟩

theorem start (request : Request) :
    QueueSound (ops ++ [.start request]) queue := by
  refine ⟨?_, ?_, h.foreign, h.ordered⟩
  · intro p op' hp
    rcases concat_eq_some.mp hp with hp | ⟨_, rfl⟩
    · exact h.coherent p op' hp
    · exact ⟨by simp [KernelOp.start], fun _ => ⟨rfl, rfl⟩, by simp [KernelOp.start]⟩
  · intro p d hmem
    obtain ⟨op', hp, hq⟩ := h.queued p d hmem
    exact ⟨op', append_of_row hp _, hq⟩

theorem starts (requests : List Request) :
    QueueSound (ops ++ requests.map .start) queue := by
  induction requests generalizing ops with
  | nil => simpa using h
  | cons request requests ih =>
    rw [List.map_cons, List.append_cons]
    exact ih (h.start request)

end

theorem drain (h : QueueSound ops ((some o, c) :: queue)) (hop : ops[o]? = some op) :
    QueueSound (ops.modify o (·.drained c)) queue := by
  obtain ⟨op', hop', hq⟩ := h.queued o c List.mem_cons_self
  cases hop.symm.trans hop'
  have hc := h.coherent o op hop
  obtain ⟨hhead, htail⟩ := List.pairwise_cons.mp h.ordered
  refine ⟨?_, ?_, fun d hmem => h.foreign d (List.mem_cons_of_mem _ hmem), htail⟩
  · intro p op' hp
    rcases modify_eq_some.mp hp with ⟨_, hp⟩ | ⟨rfl, old, hold, rfl⟩
    · exact h.coherent p op' hp
    · cases hop.symm.trans hold
      refine ⟨hc.zeroCopy, fun hs => absurd hs hq.stage_ne_running, ?_⟩
      intro hf
      simp only [KernelOp.drained, hq.undrained, Bool.false_or, Bool.not_eq_true'] at hf
      cases hn : c.isNotif with
      | true => simp [KernelOp.drained, (hq.notif hn).1, Stage.isFinal]
      | false => simp [KernelOp.drained, (hq.only hn hf).2, Stage.isFinal]
  · intro p d hmem
    by_cases hpo : p = o
    · subst hpo
      -- what is left of this request is the notification its result announced
      obtain ⟨hn, hd⟩ := hhead (some p, d) hmem p rfl rfl
      obtain ⟨op', hop', hqd⟩ := h.queued p d (List.mem_cons_of_mem _ hmem)
      cases hop.symm.trans hop'
      have hm : c.hasMore = true := by
        cases hm : c.hasMore with
        | true => rfl
        | false =>
          have hposted := (hq.only hn hm).2
          simp [(hqd.notif hd).1] at hposted
      refine ⟨op.drained c, modify_eq_some.mpr (.inr ⟨rfl, op, hop, rfl⟩), hqd.token, ?_,
        hqd.notif, ?_, ?_, hqd.buffer⟩
      · simp [KernelOp.drained, hq.undrained, hm]
      · intro hn'
        simp [hd] at hn'
      · intro hn'
        simp [hd] at hn'
    · refine h.queued_of_eq (List.mem_cons_of_mem _ hmem) ?_
      simp [Ne.symm hpo]

end QueueSound

end Kwokka
