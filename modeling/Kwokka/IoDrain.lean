import Kwokka.IoWorker

/-! What handling one completion does to a worker's state, class by class. -/

namespace Kwokka

theorem CancelSet.take_of_mem {capacity : Nat} {set : CancelSet capacity} {token : UInt64}
    (h : token ∈ set.tokens) : set.take token = (true, (set.take token).2) :=
  Prod.ext (take_fst.mpr h) rfl

namespace IoShard

inductive Disposal (shard : IoShard) (c : Completion) : FutureKind → IoShard → Prop
  | recycled (id : UInt16) (buffer : c.bufId = some id)
      (recorded : c.token ∈ shard.providedRecvs.tokens) :
      Disposal shard c .providedRecv
        { shard with
          providedRecvs := (shard.providedRecvs.take c.token).2
          recycled := shard.recycled ++ [id] }
  | provided (recorded : c.token ∈ shard.providedRecvs.tokens) :
      Disposal shard c .providedRecv
        { shard with providedRecvs := (shard.providedRecvs.take c.token).2 }
  | connect (recorded : c.token ∈ shard.connects.tokens) :
      Disposal shard c .connect { shard with connects := (shard.connects.take c.token).2 }
  | accept (recorded : c.token ∈ shard.accepts.tokens) :
      Disposal shard c .accept
        ({ shard with accepts := (shard.accepts.take c.token).2 }.disposeAcceptResult c.result)

/-- No record answers to the completion. A completion that carries a buffer is only ever looked up
among the provided receives. -/
structure Unrecorded (shard : IoShard) (c : Completion) : Prop where
  provided : c.token ∉ shard.providedRecvs.tokens
  other : c.bufId = none → c.token ∉ shard.connects.tokens ∧ c.token ∉ shard.accepts.tokens

variable {shard : IoShard} {token : UInt64}

theorem takeProvidedRecv_of_notMem (h : token ∉ shard.providedRecvs.tokens) :
    shard.takeProvidedRecv token = (false, shard) := by
  rw [takeProvidedRecv, CancelSet.take_of_notMem h]

theorem takeProvidedRecv_of_mem (h : token ∈ shard.providedRecvs.tokens) :
    shard.takeProvidedRecv token =
      (true, { shard with providedRecvs := (shard.providedRecvs.take token).2 }) := by
  rw [takeProvidedRecv, CancelSet.take_of_mem h]

theorem disposeCancelledConnect_of_notMem (h : token ∉ shard.connects.tokens) :
    shard.disposeCancelledConnect token = (false, shard) := by
  rw [disposeCancelledConnect, CancelSet.take_of_notMem h]

theorem disposeCancelledConnect_of_mem (h : token ∈ shard.connects.tokens) :
    shard.disposeCancelledConnect token =
      (true, { shard with connects := (shard.connects.take token).2 }) := by
  rw [disposeCancelledConnect, CancelSet.take_of_mem h]

theorem disposeCancelledAccept_of_notMem (result : Int) (h : token ∉ shard.accepts.tokens) :
    shard.disposeCancelledAccept token result = (false, shard) := by
  rw [disposeCancelledAccept, CancelSet.take_of_notMem h]

theorem disposeCancelledAccept_of_mem (result : Int) (h : token ∈ shard.accepts.tokens) :
    shard.disposeCancelledAccept token result =
      (true, { shard with accepts := (shard.accepts.take token).2 }.disposeAcceptResult result) := by
  rw [disposeCancelledAccept, CancelSet.take_of_mem h]

theorem disposeCancelledOp_cases (shard : IoShard) (c : Completion) :
    (∃ kind shard', shard.Disposal c kind shard' ∧
        shard.disposeCancelledOp c.token c.result c.bufId = (true, shard')) ∨
      shard.Unrecorded c ∧
        shard.disposeCancelledOp c.token c.result c.bufId = (false, shard) := by
  unfold disposeCancelledOp
  by_cases hprovided : c.token ∈ shard.providedRecvs.tokens
  · have htake := takeProvidedRecv_of_mem hprovided
    cases hbuf : c.bufId with
    | some id => exact .inl ⟨_, _, .recycled id hbuf hprovided, by simp only [htake]⟩
    | none =>
      by_cases hconnect : c.token ∈ shard.connects.tokens
      · exact .inl ⟨_, _, .connect hconnect, by simp only [disposeCancelledConnect_of_mem hconnect]⟩
      · simp only [disposeCancelledConnect_of_notMem hconnect]
        by_cases hzero : c.result = 0
        · exact .inl ⟨_, _, .provided hprovided, by simp only [hzero, if_true, htake]⟩
        · simp only [if_neg hzero]
          by_cases haccept : c.token ∈ shard.accepts.tokens
          · exact .inl ⟨_, _, .accept haccept, by
              simp only [disposeCancelledAccept_of_mem c.result haccept]⟩
          · exact .inl ⟨_, _, .provided hprovided, by
              simp only [disposeCancelledAccept_of_notMem c.result haccept, htake]⟩
  · have htake := takeProvidedRecv_of_notMem hprovided
    cases hbuf : c.bufId with
    | some => exact .inr ⟨⟨hprovided, fun hnone => by simp [hbuf] at hnone⟩, by simp only [htake]⟩
    | none =>
      by_cases hconnect : c.token ∈ shard.connects.tokens
      · exact .inl ⟨_, _, .connect hconnect, by simp only [disposeCancelledConnect_of_mem hconnect]⟩
      · simp only [disposeCancelledConnect_of_notMem hconnect, htake, ite_self]
        by_cases haccept : c.token ∈ shard.accepts.tokens
        · exact .inl ⟨_, _, .accept haccept, by
            simp only [disposeCancelledAccept_of_mem c.result haccept]⟩
        · exact .inr ⟨⟨hprovided, fun _ => ⟨hconnect, haccept⟩⟩, by
            simp only [disposeCancelledAccept_of_notMem c.result haccept, htake]⟩

theorem Disposal.frame {shard' : IoShard} {c : Completion} {kind : FutureKind}
    (h : shard.Disposal c kind shard') : shard'.id = shard.id ∧ shard'.tasks = shard.tasks ∧
      shard'.inflight = shard.inflight ∧ shard'.cancelInbox = shard.cancelInbox := by
  cases h with
  | accept =>
    unfold disposeAcceptResult
    split <;> exact ⟨rfl, rfl, rfl, rfl⟩
  | _ => exact ⟨rfl, rfl, rfl, rfl⟩

theorem Disposal.closed {shard' : IoShard} {c : Completion} {kind : FutureKind}
    (h : shard.Disposal c kind shard') : shard'.closed = shard.closed ∨
      kind = .accept ∧ shard'.closed = shard.closed ++ [c.result] := by
  cases h with
  | accept =>
    unfold disposeAcceptResult
    split
    · exact .inr ⟨rfl, rfl⟩
    · exact .inl rfl
  | _ => exact .inl rfl

section Frames

variable {shard : IoShard} {token t : UInt64} {header : TaskHeader} {key : InflightSlotKey}
  {c : Completion}

theorem setTask_eq_some {new : Option TaskHeader} : (shard.setTask token new).tasks t = some header ↔
    t ≠ token ∧ shard.tasks t = some header ∨ t = token ∧ new = some header := by
  by_cases h : t = token <;> simp [setTask, h]

theorem modifyTask_eq_some {f : TaskHeader → TaskHeader} :
    (shard.modifyTask token f).tasks t = some header ↔
      t ≠ token ∧ shard.tasks t = some header ∨
        t = token ∧ ∃ old, shard.tasks token = some old ∧ f old = header := by
  rw [modifyTask, setTask_eq_some, Option.map_eq_some_iff]

theorem reclaimNotif_eq (shard : IoShard) (token : UInt64) : shard.reclaimNotif token =
    { shard with inflight := (shard.reclaimNotif token).inflight } := by
  unfold reclaimNotif
  split <;> rfl

theorem reclaimCancelCompletion_eq (shard : IoShard) (token : UInt64) (result : Int) :
    shard.reclaimCancelCompletion token result =
      { shard with inflight := (shard.reclaimCancelCompletion token result).inflight } := by
  unfold reclaimCancelCompletion
  split <;> rfl

theorem storeCompletion_eq (shard : IoShard) (c : Completion) : shard.storeCompletion c =
    ({ shard with inflight := (shard.storeCompletion c).inflight }.modifyTask c.token
      fun header => header.storeIoResult c.result c.flags.bits c.bufId).wakeLocal c.token := by
  unfold storeCompletion
  cases c.hasMore <;> rfl

theorem storeCompletion_tasks
    (h : (shard.storeCompletion c).tasks t = some header) :
    t ≠ c.token ∧ shard.tasks t = some header ∨
      t = c.token ∧ header.wakeData = ⟨c.result, c.flags.bits, c.bufId.getD WakeData.noBuf, true⟩ := by
  rw [storeCompletion_eq] at h
  rcases modifyTask_eq_some.mp h with ⟨hne, h⟩ | ⟨rfl, woken, hwoken, rfl⟩
  · rcases modifyTask_eq_some.mp h with ⟨_, h⟩ | ⟨heq, _⟩
    · exact .inl ⟨hne, h⟩
    · exact absurd heq hne
  · rcases modifyTask_eq_some.mp hwoken with ⟨hne, _⟩ | ⟨_, old, _, rfl⟩
    · exact absurd rfl hne
    · exact .inr ⟨rfl, rfl⟩

theorem storeCompletion_inflight (shard : IoShard) (c : Completion) :
    (shard.storeCompletion c).inflight =
      if c.hasMore then shard.inflight.markNotifExpectedByOpToken c.token
      else (shard.inflight.freeByOpToken c.token).2 := by
  unfold storeCompletion
  cases c.hasMore <;> rfl

@[simp]
theorem reclaimNotif_frame (shard : IoShard) (token : UInt64) :
    (shard.reclaimNotif token).id = shard.id ∧
      (shard.reclaimNotif token).tasks = shard.tasks ∧
      (shard.reclaimNotif token).cancelInbox = shard.cancelInbox := by
  rw [reclaimNotif_eq]
  exact ⟨rfl, rfl, rfl⟩

@[simp]
theorem reclaimCancelCompletion_frame (shard : IoShard) (token : UInt64) (result : Int) :
    (shard.reclaimCancelCompletion token result).id = shard.id ∧
      (shard.reclaimCancelCompletion token result).tasks = shard.tasks ∧
      (shard.reclaimCancelCompletion token result).cancelInbox = shard.cancelInbox := by
  rw [reclaimCancelCompletion_eq]
  exact ⟨rfl, rfl, rfl⟩

@[simp]
theorem storeCompletion_frame (shard : IoShard) (c : Completion) :
    (shard.storeCompletion c).id = shard.id ∧
      (shard.storeCompletion c).cancelInbox = shard.cancelInbox := by
  rw [storeCompletion_eq]
  exact ⟨rfl, rfl⟩

@[simp]
theorem wakeLocal_frame (shard : IoShard) (token : UInt64) :
    (shard.wakeLocal token).id = shard.id ∧ (shard.wakeLocal token).inflight = shard.inflight ∧
      (shard.wakeLocal token).cancelInbox = shard.cancelInbox := ⟨rfl, rfl, rfl⟩

theorem recordCancel_frame (shard : IoShard) (key : InflightSlotKey) :
    (shard.recordCancel key).id = shard.id ∧ (shard.recordCancel key).tasks = shard.tasks ∧
      (shard.recordCancel key).cancelInbox = shard.cancelInbox ∧
      ((shard.recordCancel key).inflight = shard.inflight ∨
        (shard.recordCancel key).inflight = shard.inflight.markRetirePending key) := by
  unfold recordCancel
  split
  · exact ⟨rfl, rfl, rfl, .inl rfl⟩
  split
  · exact ⟨rfl, rfl, rfl, .inl rfl⟩
  split
  · exact ⟨rfl, rfl, rfl, .inl rfl⟩
  split
  · exact ⟨rfl, rfl, rfl, .inl rfl⟩
  · exact ⟨rfl, rfl, rfl, .inr rfl⟩

end Frames

section Classes

variable {shard : IoShard} {c : Completion}

theorem completeOne_foreign (hf : isForeign c.token = true) (hn : c.isNotif = false) :
    shard.completeOne c = (.other, shard) := by
  have hcancel : isMultishotSentinel c.token = true ∨ isRecvMultishotSentinel c.token = true →
      isCancelSentinel c.token = false := by
    simp only [isMultishotSentinel, isRecvMultishotSentinel, isCancelSentinel, beq_iff_eq]
    rintro (h | h) <;> rw [h] <;> rfl
  unfold completeOne
  split
  · rfl
  split
  · rfl
  split
  · rfl
  next hfd hmsg hlink =>
    have hmulti : isMultishotSentinel c.token = true ∨ isRecvMultishotSentinel c.token = true := by
      simpa [isForeign, hfd, hmsg, hlink] using hf
    simp only [hn, hcancel hmulti, Bool.false_eq_true, if_false]
    rcases hmulti with h | h <;> simp [h]

theorem completeOne_cancel (hc : isCancelSentinel c.token = true) (hn : c.isNotif = false) :
    shard.completeOne c = (.other, shard.reclaimCancelCompletion c.token c.result) := by
  have hfd : c.token ≠ wakeFdUserData := by
    intro h
    simp [h, isCancelSentinel] at hc
  have hmsg : isMsgRingWake c.token = false := by
    cases h : isMsgRingWake c.token with
    | false => rfl
    | true => rw [eq_of_beq h] at hc; exact absurd hc (by decide)
  have hlink : isLinkTimeoutDiscard c.token = false := by
    cases h : isLinkTimeoutDiscard c.token with
    | false => rfl
    | true => rw [eq_of_beq h] at hc; exact absurd hc (by decide)
  simp [completeOne, hfd, hmsg, hlink, hn, hc]

theorem completeOne_notif (ht : isTaskToken c.token = true) (hn : c.isNotif = true) :
    shard.completeOne c = (.other, (shard.reclaimNotif c.token).wakeLocal c.token) := by
  obtain ⟨hfd, hmsg, hlink, _⟩ := isTaskToken.unmarked ht
  simp [completeOne, hfd, hmsg, hlink, hn]

theorem completeOne_task (ht : isTaskToken c.token = true) (hn : c.isNotif = false) :
    shard.completeOne c =
      match shard.disposeCancelledOp c.token c.result c.bufId with
      | (true, shard) => (.disposed, shard)
      | (false, shard) => (.stored, shard.storeCompletion c) := by
  obtain ⟨hfd, hmsg, hlink, hcancel, hmulti, hrecv⟩ := isTaskToken.unmarked ht
  rcases hdisp : shard.disposeCancelledOp c.token c.result c.bufId with ⟨_ | _, next⟩ <;>
    simp [completeOne, hfd, hmsg, hlink, hn, hcancel, hmulti, hrecv, hdisp]

end Classes

end IoShard

end Kwokka
