import Kwokka.TallySlots

/-! What the counters, the operations, the completion queue and the multishot slots
agree on in every state of a run, and that everything but the completion drain keeps it. -/

namespace Kwokka

open Table Runs TallyOp MultishotRegistry

namespace IoShard

def inFlight (shard : IoShard) (token : UInt64) : Option Nat :=
  (shard.tasks token).map (·.inFlightOps)

variable {shard : IoShard} {token t : UInt64} {c : Completion}

theorem inFlight_modifyTask {f : TaskHeader → TaskHeader}
    (hf : ∀ header, (f header).inFlightOps = header.inFlightOps) :
    (shard.modifyTask token f).inFlight = shard.inFlight := by
  funext t
  by_cases ht : t = token
  · subst ht
    cases h : shard.tasks t <;> simp [inFlight, modifyTask, setTask, h, hf]
  · simp [inFlight, modifyTask, setTask, ht]

theorem inFlight_wakeLocal : (shard.wakeLocal token).inFlight = shard.inFlight :=
  inFlight_modifyTask fun _ => rfl

theorem inFlight_wakeMultishotOwner (owner : Option Nat) :
    (shard.wakeMultishotOwner owner).inFlight = shard.inFlight := by
  cases owner with
  | none => rfl
  | some => exact inFlight_wakeLocal

theorem inFlight_retire : (shard.modifyTask token (·.retireInFlightOp)).inFlight t =
    if t = token then (shard.inFlight t).map (· - 1) else shard.inFlight t := by
  by_cases ht : t = token
  · subst ht
    cases h : shard.tasks t <;> simp [inFlight, modifyTask, setTask, h, TaskHeader.retireInFlightOp]
  · simp [inFlight, modifyTask, setTask, ht]

theorem inFlight_of_tasks {shard' : IoShard} (h : shard'.tasks = shard.tasks) :
    shard'.inFlight = shard.inFlight := by
  funext t
  rw [inFlight, inFlight, h]

theorem inFlight_storeCompletion : (shard.storeCompletion c).inFlight t =
    if t = c.token then (shard.inFlight t).map (· - 1) else shard.inFlight t := by
  rw [storeCompletion_eq, inFlight_wakeLocal]
  by_cases ht : t = c.token
  · subst ht
    cases h : shard.tasks c.token <;>
      simp [inFlight, modifyTask, setTask, h, TaskHeader.storeIoResult, TaskHeader.retireInFlightOp]
  · simp [inFlight, modifyTask, setTask, ht]

theorem disposeCancelledOp_of_unrecorded (h : shard.Unrecorded c) :
    shard.disposeCancelledOp c.token c.result c.bufId = (false, shard) := by
  have htake := takeProvidedRecv_of_notMem h.provided
  unfold disposeCancelledOp
  cases hbuf : c.bufId with
  | some => simp only [htake]
  | none =>
    obtain ⟨hconnect, haccept⟩ := h.other hbuf
    simp only [disposeCancelledConnect_of_notMem hconnect, htake, ite_self,
      disposeCancelledAccept_of_notMem c.result haccept]

theorem inFlight_completeOne_task (ht : isTaskToken c.token = true) (hn : c.isNotif = false)
    (hfree : shard.inFlight c.token = none ∨ shard.Unrecorded c) :
    (shard.completeOne c).2.inFlight t =
      if t = c.token then (shard.inFlight t).map (· - 1) else shard.inFlight t := by
  rw [completeOne_task ht hn]
  rcases hfree with hnone | hunrecorded
  · rcases shard.disposeCancelledOp_cases c with ⟨kind, shard', hdisposal, heq⟩ | ⟨_, heq⟩
    · rw [heq, inFlight_of_tasks hdisposal.frame.2.1]
      by_cases htoken : t = c.token
      · subst htoken
        simp [hnone]
      · simp [htoken]
    · rw [heq]
      exact inFlight_storeCompletion
  · rw [disposeCancelledOp_of_unrecorded hunrecorded]
    exact inFlight_storeCompletion

theorem inFlight_completeOne_notif (ht : isTaskToken c.token = true) (hn : c.isNotif = true) :
    (shard.completeOne c).2.inFlight = shard.inFlight := by
  rw [completeOne_notif ht hn, inFlight_wakeLocal]
  exact inFlight_of_tasks (reclaimNotif_frame _ _).2.1

theorem inFlight_completeOne_marker
    (hm : isCancelSentinel c.token = true ∨ isForeign c.token = true) (hn : c.isNotif = false) :
    (shard.completeOne c).2.inFlight = shard.inFlight := by
  rcases hm with hcancel | hforeign
  · rw [completeOne_cancel hcancel hn]
    exact inFlight_of_tasks (reclaimCancelCompletion_frame _ _ _).2.1
  · rw [completeOne_foreign hforeign hn]

theorem inFlight_landSubmitted {count n : Nat} (h : shard.inFlight token = some n)
    (hsmall : n + count < 2 ^ 16) : (shard.modifyTask token (·.landSubmitted count)).inFlight t =
      if t = token then some (n + count) else shard.inFlight t := by
  by_cases ht : t = token
  · subst ht
    obtain ⟨header, hheader, rfl⟩ := Option.map_eq_some_iff.mp h
    have hland : (header.landSubmitted count).inFlightOps = header.inFlightOps + count := by
      unfold TaskHeader.landSubmitted
      split
      · exact Nat.min_eq_left (by omega)
      · omega
    simp [inFlight, modifyTask, setTask, hheader, hland]
  · simp [inFlight, modifyTask, setTask, ht]

end IoShard

namespace TallyOp

def acceptKey (op : TallyOp) : Option MultishotKey :=
  match op.kind with
  | .accept key => some key
  | _ => none

def recvKey (op : TallyOp) : Option MultishotKey :=
  match op.kind with
  | .recv key => some key
  | _ => none

variable {op op' : TallyOp}

theorem isCounted_of_acceptKey (h : op.acceptKey ≠ none) : op.isCounted = true := by
  unfold isCounted
  unfold acceptKey at h
  cases hkind : op.kind <;> simp_all

theorem isCounted_of_recvKey (h : op.recvKey ≠ none) : op.isCounted = true := by
  unfold isCounted
  unfold recvKey at h
  cases hkind : op.kind <;> simp_all

def isMarker (userData : UInt64) : Bool := isCancelSentinel userData || isForeign userData

structure Sound (op : TallyOp) : Prop where
  task : op.isCounted = true → isTaskToken op.owner = true
  marker : ∀ userData, op.kind = .cancel userData → isMarker userData = true
  awaiting : op.stage = .awaitingNotif → ∃ kind, op.kind = .single kind
  drained : op.isDrained = true → op.stage ≠ .running

structure Queued (op : TallyOp) (c : Completion) : Prop where
  token : c.token = op.userData
  notif : c.isNotif = true → ∃ kind, op.kind = .single kind
  result : op.isResult c = true → op.isDrained = false ∧ op.stage ≠ .running

structure Same (op op' : TallyOp) : Prop where
  owner : op'.owner = op.owner
  kind : op'.kind = op.kind

theorem Same.isResult (h : op.Same op') (c : Completion) : op'.isResult c = op.isResult c := by
  rw [TallyOp.isResult, TallyOp.isResult, h.kind]

theorem Same.acceptKey (h : op.Same op') : op'.acceptKey = op.acceptKey := by
  rw [TallyOp.acceptKey, TallyOp.acceptKey, h.kind]

theorem Same.recvKey (h : op.Same op') : op'.recvKey = op.recvKey := by
  rw [TallyOp.recvKey, TallyOp.recvKey, h.kind]

theorem posted_same (op : TallyOp) (c : Completion) : op.Same (op.posted c) := ⟨rfl, rfl⟩

theorem drained_same (op : TallyOp) (c : Completion) : op.Same (op.drained c) := ⟨rfl, rfl⟩

end TallyOp

namespace TallyWorld

def IsLive (w : TallyWorld) (token : UInt64) : Prop := (w.shard.inFlight token).isSome = true

def submitted (w : TallyWorld) (token : UInt64) : Nat :=
  match w.window with
  | some (t, count) => if t = token then count else 0
  | none => 0

def ResultsOnce (ops : List TallyOp) (queue : List (Nat × Completion)) : Prop :=
  queue.Pairwise fun a b => a.1 = b.1 → ∀ op, ops[a.1]? = some op →
    op.isResult a.2 = true → op.isResult b.2 = false

structure Ledger (w : TallyWorld) : Prop where
  tokens : ∀ t, w.IsLive t → isTaskToken t = true
  polled : ∀ t n, w.window = some (t, n) → w.IsLive t
  count : ∀ t n, w.shard.inFlight t = some n → n + w.submitted t = w.undrained t
  rows : ∀ op ∈ w.ops, op.Sound
  queued : ∀ e ∈ w.queue, ∃ op, w.ops[e.1]? = some op ∧ op.Queued e.2
  once : ResultsOnce w.ops w.queue
  accepts : Backed (fun s => s.terminal = none) acceptKey w.IsLive w.ops w.accepts
  recvs : Backed StashesLast recvKey w.IsLive w.ops w.recvs

variable {w : TallyWorld}

theorem submitted_none (h : w.window = none) (t : UInt64) : w.submitted t = 0 := by
  rw [submitted, h]

theorem submitted_some {token : UInt64} {count : Nat} (h : w.window = some (token, count))
    (t : UInt64) : w.submitted t = if token = t then count else 0 := by
  rw [submitted, h]

theorem Ledger.tallied (h : w.Ledger) : w.Tallied := by
  intro hwindow token header hheader
  have hcount := h.count token header.inFlightOps (by rw [IoShard.inFlight, hheader]; rfl)
  rwa [submitted_none hwindow, Nat.add_zero] at hcount

theorem undrained_append {op : TallyOp} (ops : List TallyOp) (t : UInt64) :
    (ops ++ [op]).countP (fun op => op.isCounted && op.owner == t && !op.isDrained) =
      ops.countP (fun op => op.isCounted && op.owner == t && !op.isDrained) +
        if op.isCounted && op.owner == t && !op.isDrained then 1 else 0 := by
  rw [List.countP_append, List.countP_singleton]

/-- A world in which the same tasks live. -/
theorem Ledger.relive {w' : TallyWorld} (h : w.Ledger)
    (hsome : ∀ t, (w'.shard.inFlight t).isSome = (w.shard.inFlight t).isSome)
    (hpolled : ∀ t n, w'.window = some (t, n) → w.IsLive t)
    (hcount : ∀ t n, w'.shard.inFlight t = some n → n + w'.submitted t = w'.undrained t)
    (hrows : ∀ op ∈ w'.ops, op.Sound)
    (hqueued : ∀ e ∈ w'.queue, ∃ op, w'.ops[e.1]? = some op ∧ op.Queued e.2)
    (honce : ResultsOnce w'.ops w'.queue)
    (haccepts : Backed (fun s => s.terminal = none) acceptKey w.IsLive w'.ops w'.accepts)
    (hrecvs : Backed StashesLast recvKey w.IsLive w'.ops w'.recvs) : w'.Ledger := by
  have hlive : w'.IsLive = w.IsLive := by
    funext t
    rw [IsLive, IsLive, hsome]
  rw [← hlive] at hpolled haccepts hrecvs
  exact ⟨hlive ▸ h.tokens, hpolled, hcount, hrows, hqueued, honce, haccepts, hrecvs⟩

theorem ResultsOnce.of_rows {ops ops' : List TallyOp} {queue : List (Nat × Completion)}
    (h : ResultsOnce ops queue) (hqueue : ∀ e ∈ queue, e.1 < ops.length)
    (hrows : ∀ o op', ops'[o]? = some op' → o < ops.length →
      ∃ op, ops[o]? = some op ∧ op.Same op') : ResultsOnce ops' queue := by
  refine List.Pairwise.imp_of_mem ?_ h
  intro a b ha _ hab heq op' hop' hresult
  obtain ⟨op, hop, hsame⟩ := hrows a.1 op' hop' (hqueue a ha)
  rw [hsame.isResult] at hresult ⊢
  exact hab heq op hop hresult

theorem Ledger.queue_lt (h : w.Ledger) : ∀ e ∈ w.queue, e.1 < w.ops.length := by
  intro e he
  obtain ⟨op, hop, -⟩ := h.queued e he
  exact lt_of_row hop

section Submit

variable {token : UInt64} {count : Nat} {kind : TallyKind}

variable {accepts : MultishotRegistry AcceptResult} {recvs : MultishotRegistry RecvResult}

theorem Ledger.appended {op : TallyOp} {window : Option (UInt64 × Nat)} {shard : IoShard}
    (h : w.Ledger) (hsound : op.Sound) (hshard : shard.inFlight = w.shard.inFlight)
    (hpolled : ∀ t n, window = some (t, n) → w.IsLive t)
    (hcount : ∀ t, w.IsLive t → ({ w with window } : TallyWorld).submitted t = w.submitted t +
      if op.isCounted && op.owner == t && !op.isDrained then 1 else 0)
    (haccepts : Backed (fun s => s.terminal = none) acceptKey w.IsLive (w.ops ++ [op])
      accepts) (hrecvs : Backed StashesLast recvKey w.IsLive (w.ops ++ [op]) recvs) :
    Ledger { w with shard, window, accepts, recvs, ops := w.ops ++ [op] } := by
  refine h.relive (fun t => by rw [hshard]) hpolled ?_ ?_ ?_ ?_ haccepts hrecvs
  · intro t n hn
    rw [hshard] at hn
    have hold := h.count t n hn
    have hnew := hcount t (by rw [IsLive, hn]; rfl)
    show n + ({ w with window } : TallyWorld).submitted t = (w.ops ++ [op]).countP _
    rw [undrained_append, hnew, ← Nat.add_assoc, hold]
    rfl
  · intro op' hop'
    rcases List.mem_append.mp hop' with hold | hnew
    · exact h.rows op' hold
    · rw [List.mem_singleton.mp hnew]
      exact hsound
  · intro e he
    obtain ⟨op', hop', hq⟩ := h.queued e he
    exact ⟨op', append_of_row hop' _, hq⟩
  · apply h.once.of_rows h.queue_lt
    intro o op' hop' hlt
    rw [List.getElem?_append_left hlt] at hop'
    exact ⟨op', hop', rfl, rfl⟩

theorem start_sound (htask : isTaskToken token = true)
    (hcounted : (start token kind).isCounted = true) :
    (start token kind).Sound where
  task _ := htask
  marker userData hkind := by
    have hkind' : kind = .cancel userData := hkind
    simp [isCounted, start, hkind'] at hcounted
  awaiting hstage := by simp [start] at hstage
  drained hdrained := by simp [start] at hdrained

theorem Ledger.submitKind (h : w.Ledger) (hwindow : w.window = some (token, count))
    (hcounted : (start token kind).isCounted = true)
    (haccepts : Backed (fun s => s.terminal = none) acceptKey w.IsLive
      (w.ops ++ [.start token kind]) accepts)
    (hrecvs : Backed StashesLast recvKey w.IsLive (w.ops ++ [.start token kind]) recvs) :
    ({ w with accepts, recvs }.submitKind token count kind).Ledger := by
  have hlive := h.polled token count hwindow
  apply h.appended (start_sound (h.tokens token hlive) hcounted) rfl _ _ haccepts hrecvs
  · rintro t n ⟨⟩
    exact hlive
  · intro t _
    have hdrained : (start token kind).isDrained = false := rfl
    have howner : (start token kind).owner = token := rfl
    simp only [submitted, hwindow, hcounted, hdrained, howner, Bool.true_and, Bool.not_false,
      Bool.and_true, beq_iff_eq]
    by_cases ht : token = t <;> simp [ht]

theorem Ledger.submit (h : w.Ledger) (kind : FutureKind) : (w.submit kind).Ledger := by
  unfold TallyWorld.submit
  cases hwindow : w.window with
  | none => exact h
  | some =>
    exact h.submitKind hwindow rfl (h.accepts.other rfl) (h.recvs.other rfl)

theorem Ledger.registries (h : w.Ledger)
    (haccepts : Backed (fun s => s.terminal = none) acceptKey w.IsLive w.ops accepts)
    (hrecvs : Backed StashesLast recvKey w.IsLive w.ops recvs) :
    Ledger { w with accepts, recvs } :=
  ⟨h.tokens, h.polled, h.count, h.rows, h.queued, h.once, haccepts, hrecvs⟩

theorem Ledger.startAccept (h : w.Ledger) (isAccepted : Bool) :
    (w.startAccept isAccepted).Ledger := by
  unfold TallyWorld.startAccept allocate
  cases hwindow : w.window with
  | none => exact h
  | some window =>
    cases hfree : w.accepts.firstFree with
    | none => exact h
    | some i =>
      obtain ⟨hi, hvacant⟩ := firstFree_some hfree
      cases isAccepted with
      | true =>
        have hkey : (start window.1 (.accept ⟨i, (w.accepts.slots i).frees,
            w.accepts.workerId⟩)).acceptKey = some ⟨i, _, _⟩ := rfl
        exact h.submitKind hwindow rfl
          (h.accepts.opened acceptProtocol_lawful.opened hi hvacant hkey) (h.recvs.other rfl)
      | false =>
        have hback := h.accepts.refused acceptProtocol_lawful.freed hvacant window.1.toNat
        rw [← free_opened hi] at hback
        have hledger := h.registries hback h.recvs
        rwa [hwindow] at hledger

theorem Ledger.startRecv (h : w.Ledger) (isAccepted : Bool) : (w.startRecv isAccepted).Ledger := by
  unfold TallyWorld.startRecv allocate
  cases hwindow : w.window with
  | none => exact h
  | some window =>
    cases hfree : w.recvs.firstFree with
    | none => exact h
    | some i =>
      obtain ⟨hi, hvacant⟩ := firstFree_some hfree
      cases isAccepted with
      | true =>
        have hkey : (start window.1 (.recv ⟨i, (w.recvs.slots i).frees,
            w.recvs.workerId⟩)).recvKey = some ⟨i, _, _⟩ := rfl
        exact h.submitKind hwindow rfl (h.accepts.other rfl)
          (h.recvs.opened recvProtocol_lawful.opened hi hvacant hkey)
      | false =>
        have hback := h.recvs.refused recvProtocol_lawful.freed hvacant window.1.toNat
        rw [← free_opened hi] at hback
        have hledger := h.registries h.accepts hback
        rwa [hwindow] at hledger

end Submit

theorem Ledger.next (h : w.Ledger) (o : Nat) : (w.next o).Ledger := by
  unfold TallyWorld.next
  cases hop : w.ops[o]? with
  | none => exact h
  | some op =>
    cases hkind : op.kind with
    | accept key =>
      simp only [hkind]
      have hkeeps : MultishotRegistry.Keeps _ _ _ _ (multishotNext w.accepts key).2 :=
        .next acceptProtocol_lawful h.accepts.slots h.accepts.valid
      exact h.registries (h.accepts.moved hkeeps fun _ _ _ _ _ _ => id) h.recvs
    | recv key =>
      simp only [hkind]
      have hkeeps : MultishotRegistry.Keeps _ _ _ _ (recvMultishotNext w.recvs key).2 :=
        .next recvProtocol_lawful h.recvs.slots h.recvs.valid
      exact h.registries h.accepts (h.recvs.moved hkeeps fun _ _ _ _ _ _ => id)
    | _ => simpa only [hkind] using h

section Polls

variable {token : UInt64}

theorem Ledger.spawn (h : w.Ledger) (pip : Pip) (hfresh : w.undrained token = 0) :
    (w.spawn token pip).Ledger := by
  unfold TallyWorld.spawn
  split
  case isFalse => exact h
  case isTrue hcond =>
    simp only [Bool.and_eq_true, Option.isNone_iff_eq_none] at hcond
    obtain ⟨⟨hwindow, htask⟩, hnone⟩ := hcond
    have hinFlight : ∀ t, (w.shard.setTask token (some (.new pip))).inFlight t =
        if t = token then some 0 else w.shard.inFlight t := by
      intro t
      by_cases ht : t = token <;> simp [IoShard.inFlight, IoShard.setTask, ht, TaskHeader.new]
    have hlive : ∀ t, ({ w with shard := w.shard.setTask token (some (.new pip)) } : TallyWorld).IsLive t
        → t = token ∨ w.IsLive t := by
      intro t ht
      rw [IsLive, hinFlight] at ht
      by_cases heq : t = token
      · exact .inl heq
      · rw [if_neg heq] at ht
        exact .inr ht
    have hopen : ∀ op ∈ w.ops, op.isDrained = false → op.isCounted = true → op.owner ≠ token := by
      intro op hop hdrained hcounted heq
      have hnot := List.countP_eq_zero.mp hfresh op hop
      simp [hdrained, hcounted, heq] at hnot
    constructor
    · intro t ht
      rcases hlive t ht with rfl | hold
      · exact htask
      · exact h.tokens t hold
    · intro t n hpoll
      rw [hwindow] at hpoll
      cases hpoll
    · intro t n hn
      rw [hinFlight] at hn
      show n + w.submitted t = w.undrained t
      by_cases heq : t = token
      · rw [if_pos heq] at hn
        cases hn
        rw [heq, hfresh, submitted_none hwindow]
      · rw [if_neg heq] at hn
        exact h.count t n hn
    · exact h.rows
    · exact h.queued
    · exact h.once
    · apply h.accepts.relive
      intro op hop hdrained hkey ht
      have hcounted := isCounted_of_acceptKey hkey
      rcases hlive _ ht with heq | hold
      · exact absurd heq (hopen op hop hdrained hcounted)
      · exact hold
    · apply h.recvs.relive
      intro op hop hdrained hkey ht
      have hcounted := isCounted_of_recvKey hkey
      rcases hlive _ ht with heq | hold
      · exact absurd heq (hopen op hop hdrained hcounted)
      · exact hold

theorem Ledger.reap (h : w.Ledger) : (w.reap token).Ledger := by
  unfold TallyWorld.reap
  split
  case isFalse => exact h
  case isTrue hcond =>
    have hwindow := Option.isNone_iff_eq_none.mp hcond
    have hinFlight : ∀ t n, (w.shard.setTask token none).inFlight t = some n →
        w.shard.inFlight t = some n := by
      intro t n hn
      by_cases ht : t = token
      · simp [IoShard.inFlight, IoShard.setTask, ht] at hn
      · simpa [IoShard.inFlight, IoShard.setTask, ht] using hn
    have hlive : ∀ t, ({ w with shard := w.shard.setTask token none } : TallyWorld).IsLive t →
        w.IsLive t := by
      intro t ht
      obtain ⟨n, hn⟩ := Option.isSome_iff_exists.mp ht
      exact Option.isSome_iff_exists.mpr ⟨n, hinFlight t n hn⟩
    constructor
    · exact fun t ht => h.tokens t (hlive t ht)
    · intro t n hpoll
      rw [hwindow] at hpoll
      cases hpoll
    · exact fun t n hn => h.count t n (hinFlight t n hn)
    · exact h.rows
    · exact h.queued
    · exact h.once
    · exact h.accepts.relive fun op _ _ _ ht => hlive _ ht
    · exact h.recvs.relive fun op _ _ _ ht => hlive _ ht

theorem Ledger.startPoll (h : w.Ledger) : (w.startPoll token).Ledger := by
  unfold TallyWorld.startPoll
  split
  case isFalse => exact h
  case isTrue hcond =>
    simp only [Bool.and_eq_true, Option.isNone_iff_eq_none] at hcond
    obtain ⟨hwindow, htask⟩ := hcond
    refine ⟨h.tokens, ?_, ?_, h.rows, h.queued, h.once, h.accepts, h.recvs⟩
    · rintro t n ⟨⟩
      rw [IsLive, IoShard.inFlight, Option.isSome_map]
      exact htask
    · intro t n hn
      have hold := h.count t n hn
      rw [submitted_none hwindow] at hold
      rw [submitted_some rfl, ite_self]
      exact hold

theorem Ledger.endPoll (h : w.Ledger) (hsmall : ∀ token count n, w.window = some (token, count) →
      w.shard.inFlight token = some n → n + count < 2 ^ 16) : w.endPoll.Ledger := by
  unfold TallyWorld.endPoll
  cases hwindow : w.window with
  | none => exact h
  | some window =>
    obtain ⟨token, count⟩ := window
    obtain ⟨n, hn⟩ := Option.isSome_iff_exists.mp (h.polled token count hwindow)
    have hland := fun t => IoShard.inFlight_landSubmitted (t := t) hn (hsmall token count n hwindow hn)
    refine h.relive ?_ nofun ?_ h.rows h.queued h.once h.accepts h.recvs
    · intro t
      rw [hland]
      by_cases ht : t = token
      · simp [ht, hn]
      · simp [ht]
    · intro t m hm
      rw [hland] at hm
      show m + 0 = w.undrained t
      by_cases ht : t = token
      · rw [if_pos ht] at hm
        cases hm
        have hold := h.count token n hn
        rw [submitted_some hwindow, if_pos rfl] at hold
        rw [ht, ← hold, Nat.add_zero]
      · rw [if_neg ht] at hm
        have hold := h.count t m hm
        rwa [submitted_some hwindow, if_neg (Ne.symm ht)] at hold

theorem Ledger.unwindPoll (h : w.Ledger) (hidle : ∀ window ∈ w.window, window.2 = 0) :
    w.unwindPoll.Ledger := by
  refine h.relive (fun _ => rfl) nofun ?_ h.rows h.queued h.once h.accepts h.recvs
  intro t n hn
  have hold := h.count t n hn
  show n + 0 = w.undrained t
  cases hwindow : w.window with
  | none => rwa [submitted_none hwindow] at hold
  | some window =>
    obtain ⟨token, count⟩ := window
    obtain rfl : count = 0 := hidle _ hwindow
    rwa [submitted_some hwindow, ite_self] at hold

end Polls

section Cancels

theorem Ledger.reshard {shard : IoShard} (h : w.Ledger)
    (hshard : shard.inFlight = w.shard.inFlight) : Ledger { w with shard } := by
  refine h.relive (fun t => by rw [hshard]) h.polled ?_ h.rows h.queued h.once h.accepts h.recvs
  rw [hshard]
  exact h.count

theorem Ledger.pushCancel {owner userData : UInt64} (h : w.Ledger) (isSubmitted : Bool)
    (hmarker : isMarker userData = true) :
    (w.pushCancel isSubmitted owner userData).Ledger := by
  unfold TallyWorld.pushCancel
  split
  case isFalse => exact h
  case isTrue =>
    have hsound : (start owner (.cancel userData)).Sound :=
      { task := fun hcounted => by simp [start, isCounted] at hcounted
        marker := fun userData' hkind => by cases hkind; exact hmarker
        awaiting := fun hstage => by simp [start] at hstage
        drained := fun hdrained => by simp [start] at hdrained }
    exact h.appended hsound rfl h.polled (fun _ _ => rfl) (h.accepts.other rfl) (h.recvs.other rfl)

theorem isMarker_encodeCancelSentinel {key : InflightSlotKey} (hslot : key.slot < 2 ^ 16) :
    isMarker (encodeCancelSentinel key) = true := by
  -- one key encodes to the wake descriptor's own marker
  by_cases heq : encodeCancelSentinel key = wakeFdUserData
  · rw [isMarker, heq]
    rfl
  · have hval := toNat_encodeCancelSentinel hslot
    have hhigh : encodeCancelSentinel key &&& cancelTokenHighMask = cancelTokenBase :=
      marker_high (by decide) (by omega) rfl hval
    simp [isMarker, isCancelSentinel, hhigh, heq]

theorem Ledger.cancelSingle (h : w.Ledger) (key : InflightSlotKey) (isAccepted : Bool) :
    (w.cancelSingle key isAccepted).Ledger := by
  unfold TallyWorld.cancelSingle
  split
  case isFalse => exact h
  case isTrue hcond =>
    simp only [Bool.and_eq_true, decide_eq_true_eq] at hcond
    have hshard := h.reshard (IoShard.inFlight_of_tasks (w.shard.recordCancel_frame key).2.1)
    exact hshard.pushCancel _ (isMarker_encodeCancelSentinel hcond.2)

theorem isForeign_of_marker {key : MultishotKey} {userData : UInt64}
    (h : IsMarkerOf multishotTokenBase key userData ∨
      IsMarkerOf recvMultishotTokenBase key userData) : isForeign userData = true := by
  rcases h with h | h <;>
    simp [isForeign, isMultishotSentinel, isRecvMultishotSentinel, h.high]

theorem Ledger.cancelStream (h : w.Ledger) (o : Nat) (isAccepted : Bool) :
    (w.cancelStream o isAccepted).Ledger := by
  unfold TallyWorld.cancelStream
  cases hwindow : w.window with
  | some => exact h
  | none =>
    cases hop : w.ops[o]? with
    | none => exact h
    | some op =>
      have hmem := List.mem_of_getElem? hop
      cases hkind : op.kind with
      | accept key =>
        simp only [hkind]
        have hkey : op.acceptKey = some key := by rw [acceptKey, hkind]
        have hkeeps : MultishotRegistry.Keeps _ _ _ _ (submitMultishotCancel w.accepts key).registry :=
          .cancel acceptProtocol_lawful h.accepts.slots h.accepts.valid
            fun hopen => submitMultishotCancel_isTerminated.trans hopen
        have hmoved := h.registries (h.accepts.moved hkeeps fun _ _ _ _ _ _ => id) h.recvs
        rw [hwindow] at hmoved
        apply hmoved.pushCancel
        rw [isMarker, userData, hkind, isForeign_of_marker
          (.inl (isMarkerOf_encodeMultishotSentinel (h.accepts.slot_lt hmem hkey))), Bool.or_true]
      | recv key =>
        simp only [hkind]
        have hkey : op.recvKey = some key := by rw [recvKey, hkind]
        have hkeeps : MultishotRegistry.Keeps _ _ _ _
            (submitRecvMultishotCancel w.recvs key).registry :=
          .cancel recvProtocol_lawful h.recvs.slots h.recvs.valid
            submitRecvMultishotCancel_isTerminated
        have hmoved := h.registries h.accepts (h.recvs.moved hkeeps fun _ _ _ _ _ _ => id)
        rw [hwindow] at hmoved
        apply hmoved.pushCancel
        rw [isMarker, userData, hkind, isForeign_of_marker
          (.inr (isMarkerOf_encodeRecvMultishotSentinel (h.recvs.slot_lt hmem hkey))), Bool.or_true]
      | _ => simpa only [hkind] using h

end Cancels

section Queue

theorem Ledger.skip (h : w.Ledger) : Ledger { w with queue := w.queue.tail } where
  tokens := h.tokens
  polled := h.polled
  count := h.count
  rows := h.rows
  queued e he := h.queued e (List.mem_of_mem_tail he)
  once := h.once.tail
  accepts := h.accepts
  recvs := h.recvs

structure Advances (ops ops' : List TallyOp) : Prop where
  length : ops'.length = ops.length
  row : ∀ (o : Nat) op', ops'[o]? = some op' → ∃ op, ops[o]? = some op ∧ op.Same op' ∧
    (op'.isDrained = false → op.isDrained = false)

variable {op : TallyOp} {c : Completion}

theorem Advances.set {ops : List TallyOp} {o : Nat} {op' : TallyOp} (hop : ops[o]? = some op)
    (hsame : op.Same op') (hdrained : op'.isDrained = false → op.isDrained = false) :
    Advances ops (ops.set o op') where
  length := by rw [List.length_set]
  row o' x hx := by
    rcases set_eq_some.mp hx with ⟨-, hx⟩ | ⟨rfl, -, rfl⟩
    · exact ⟨x, hx, ⟨rfl, rfl⟩, fun hd => hd⟩
    · exact ⟨op, hop, hsame, hdrained⟩

section Keys

variable {keyOf : TallyOp → Option MultishotKey} {ops ops' : List TallyOp}
  (hkey : ∀ op op', op.Same op' → keyOf op' = keyOf op) (hadv : Advances ops ops')

include hkey hadv

theorem Advances.keys : ops'.filterMap keyOf = ops.filterMap keyOf := by
  have hmap : ops'.map keyOf = ops.map keyOf := by
    apply List.ext_getElem?
    intro o
    rw [List.getElem?_map, List.getElem?_map]
    cases hop' : ops'[o]? with
    | some op' =>
      obtain ⟨op, hop, hsame, -⟩ := hadv.row o op' hop'
      rw [hop, Option.map_some, Option.map_some, hkey op op' hsame]
    | none =>
      have hle := List.getElem?_eq_none_iff.mp hop'
      rw [List.getElem?_eq_none (hadv.length ▸ hle)]
  have h := congrArg (List.filterMap id) hmap
  simpa only [List.filterMap_map, Function.id_comp] using h

theorem Advances.backed {ρ : Type} {valid : MultishotSlot ρ → Prop} {live : UInt64 → Prop}
    {r : MultishotRegistry ρ} (h : Backed valid keyOf live ops r) :
    Backed valid keyOf live ops' r := by
  apply h.relabel (hadv.keys hkey)
  intro op' hmem
  obtain ⟨o, hlt, rfl⟩ := List.getElem_of_mem hmem
  obtain ⟨op, hop, hsame, hdrained⟩ := hadv.row o _ (List.getElem?_eq_getElem hlt)
  exact ⟨op, List.mem_of_getElem? hop, hkey _ _ hsame, hsame.owner, hdrained⟩

end Keys

theorem posted_stage_ne (c : Completion) (h : op.stage ≠ .running) :
    (op.posted c).stage ≠ .running := by
  unfold posted
  cases hstage : op.stage <;> simp_all

theorem mayPost_result (hsound : op.Sound) (hpost : op.mayPost c = true)
    (hresult : op.isResult c = true) : op.stage = .running ∧ (op.posted c).stage ≠ .running := by
  unfold mayPost at hpost
  cases hstage : op.stage with
  | running =>
    refine ⟨rfl, ?_⟩
    cases hkind : op.kind <;> cases hmore : c.hasMore <;>
      simp_all [isResult, posted]
  | awaitingNotif =>
    obtain ⟨kind, hkind⟩ := hsound.awaiting hstage
    simp_all [isResult]
  | _ => simp [hstage] at hpost

theorem mayPost_queued (hsound : op.Sound) (hpost : op.mayPost c = true) :
    (op.posted c).Queued c where
  token := by
    simp only [mayPost, Bool.and_eq_true, beq_iff_eq] at hpost
    exact hpost.1
  notif hnotif := by
    unfold mayPost at hpost
    cases hstage : op.stage with
    | running => simp [hstage, hnotif] at hpost
    | awaitingNotif => exact hsound.awaiting hstage
    | _ => simp [hstage] at hpost
  result hresult := by
    obtain ⟨hrunning, hne⟩ := mayPost_result hsound hpost hresult
    refine ⟨?_, hne⟩
    have hnot : op.isDrained ≠ true := fun hdrained => hsound.drained hdrained hrunning
    exact Bool.eq_false_iff.mpr hnot

theorem posted_sound (hsound : op.Sound) : (op.posted c).Sound where
  task := hsound.task
  marker := hsound.marker
  awaiting hstage := by
    cases hkind : op.kind with
    | single kind => exact ⟨kind, hkind⟩
    | _ =>
      unfold posted at hstage
      cases hold : op.stage <;> cases hmore : c.hasMore <;> simp_all
  drained hdrained := posted_stage_ne c (hsound.drained hdrained)

theorem Ledger.post (h : w.Ledger) (o : Nat) (c : Completion) : (w.post o c).Ledger := by
  unfold TallyWorld.post
  cases hop : w.ops[o]? with
  | none => exact h
  | some op =>
    simp only
    split
    case isFalse => exact h
    case isTrue hpost =>
      have hsound := h.rows op (List.mem_of_getElem? hop)
      have hadv : Advances w.ops (w.ops.set o (op.posted c)) :=
        .set hop (op.posted_same c) fun hdrained => hdrained
      have hundrained : ∀ t, (w.ops.set o (op.posted c)).countP
          (fun op => op.isCounted && op.owner == t && !op.isDrained) = w.undrained t := by
        intro t
        have hset := countP_set_of_row (y := op.posted c)
          (fun op => op.isCounted && op.owner == t && !op.isDrained) hop
        exact Nat.add_right_cancel hset
      constructor
      · exact h.tokens
      · exact h.polled
      · intro t n hn
        exact (h.count t n hn).trans (hundrained t).symm
      · intro op' hop'
        rcases List.mem_or_eq_of_mem_set hop' with hold | rfl
        · exact h.rows op' hold
        · exact posted_sound hsound
      · intro e he
        rcases List.mem_append.mp he with hold | hnew
        · obtain ⟨op', hop', hq⟩ := h.queued e hold
          by_cases heq : e.1 = o
          · rw [heq, hop] at hop'
            cases hop'
            refine ⟨op.posted c, set_eq_some.mpr (.inr ⟨heq, lt_of_row hop, rfl⟩), hq.token, hq.notif, ?_⟩
            intro hresult
            exact ⟨(hq.result hresult).1, posted_stage_ne c (hq.result hresult).2⟩
          · exact ⟨op', set_eq_some.mpr (.inl ⟨heq, hop'⟩), hq⟩
        · rw [List.mem_singleton.mp hnew]
          exact ⟨op.posted c, set_eq_some.mpr (.inr ⟨rfl, lt_of_row hop, rfl⟩),
            mayPost_queued hsound hpost⟩
      · refine List.pairwise_append.mpr ⟨?_, List.pairwise_singleton _ _, ?_⟩
        · apply h.once.of_rows h.queue_lt
          intro o' op' hop' _
          obtain ⟨old, hold, hsame, -⟩ := hadv.row o' op' hop'
          exact ⟨old, hold, hsame⟩
        · intro e he b hb heq op' hop' hresult
          rw [List.mem_singleton.mp hb] at heq ⊢
          obtain ⟨old, hold, hq⟩ := h.queued e he
          obtain ⟨old', hold', hsame, -⟩ := hadv.row e.1 op' hop'
          have heq' : e.1 = o := heq
          rw [heq', hop] at hold hold'
          cases hold
          cases hold'
          rw [hsame.isResult] at hresult ⊢
          -- two results would mean that the operation posted again after it was over
          cases hagain : op.isResult c with
          | false => rfl
          | true => exact absurd (mayPost_result hsound hpost hagain).1 (hq.result hresult).2
      · exact hadv.backed (fun _ _ hsame => hsame.acceptKey) h.accepts
      · exact hadv.backed (fun _ _ hsame => hsame.recvKey) h.recvs

end Queue

end TallyWorld

end Kwokka
