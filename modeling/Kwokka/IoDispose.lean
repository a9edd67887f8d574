import Kwokka.IoSound
import Mathlib.Data.List.Perm.Subperm

/-! Completions of dropped futures that own no slot. The worker keeps the task
tokens of dropped accepts, connects and provided receives, and the next
completion under a recorded token is disposed of. -/

namespace Kwokka

open Table Runs

structure DropRecord where
  kind : FutureKind
  token : UInt64
deriving DecidableEq, Repr

def recordOf (key : InflightSlotKey) : Option DropRecord :=
  if key.slot = acceptCancelSlot then some ⟨.accept, key.opToken⟩
  else if key.slot = providedRecvCancelSlot then some ⟨.providedRecv, key.opToken⟩
  else if key.slot = connectCancelSlot then some ⟨.connect, key.opToken⟩
  else none

def IoShard.records (shard : IoShard) : List DropRecord :=
  shard.cancelInbox.keys.filterMap recordOf ++ (shard.accepts.tokens.map (.mk .accept) ++
    (shard.providedRecvs.tokens.map (.mk .providedRecv) ++ shard.connects.tokens.map (.mk .connect)))

/-- Request `o` is the one unfinished request under `token`, and its future was dropped. -/
structure AwaitsDisposal (ops : List KernelOp) (futures : List FutureEntry) (kind : FutureKind)
    (token : UInt64) (o : Nat) : Prop where
  dropped : ∃ op f entry, ops[o]? = some op ∧
    op.role = .owned f kind ∧ op.isPendingFor token = true ∧ futures[f]? = some entry ∧
    entry.status = .dropped
  only : ∀ p op, ops[p]? = some op → op.isPendingFor token = true → p = o

structure RecordsSound (records : List DropRecord) (ops : List KernelOp)
    (futures : List FutureEntry) : Prop where
  nodup : (records.map DropRecord.token).Nodup
  awaits : ∀ kind token, ⟨kind, token⟩ ∈ records →
    kind.isBuffered = false ∧ ∃ o, AwaitsDisposal ops futures kind token o

section Records

variable {shard : IoShard} {c : Completion} {key : InflightSlotKey}

theorem recordOf_marker {kind : FutureKind} {marker : Nat} (h : kind.marker = some marker)
    (generation workerId : Nat) (token : UInt64) :
    recordOf ⟨marker, generation, workerId, token⟩ = some ⟨kind, token⟩ := by
  cases kind <;> cases h <;> rfl

theorem count_records (r : DropRecord) : shard.records.count r =
    (shard.cancelInbox.keys.filterMap recordOf).count r +
      ((shard.accepts.tokens.map (.mk .accept)).count r +
        ((shard.providedRecvs.tokens.map (.mk .providedRecv)).count r +
          (shard.connects.tokens.map (.mk .connect)).count r)) := by
  simp only [IoShard.records, List.count_append]

theorem count_insert_le {capacity : Nat} (set : CancelSet capacity) (kind : FutureKind)
    (token : UInt64) (r : DropRecord) :
    ((set.insert token).tokens.map (.mk kind)).count r ≤
      [DropRecord.mk kind token].count r + (set.tokens.map (.mk kind)).count r := by
  unfold CancelSet.insert
  split
  · simp only [List.map_append, List.count_append, List.map_cons, List.map_nil]
    omega
  · omega

theorem count_take {capacity : Nat} {set : CancelSet capacity} {token : UInt64} (kind : FutureKind)
    (h : token ∈ set.tokens) (r : DropRecord) :
    [DropRecord.mk kind token].count r + ((set.take token).2.tokens.map (.mk kind)).count r =
      (set.tokens.map (.mk kind)).count r := by
  rw [← ((CancelSet.take_perm h).map (.mk kind)).count_eq r, ← List.count_append]
  rfl

theorem records_recordCancel {keys : List InflightSlotKey}
    (hkeys : shard.cancelInbox.keys = key :: keys) :
    ({ shard with cancelInbox := ⟨keys⟩ }.recordCancel key).records.Subperm shard.records := by
  apply List.subperm_iff_count.mpr
  intro r
  have hcons : (shard.cancelInbox.keys.filterMap recordOf).count r =
      (recordOf key).toList.count r + (keys.filterMap recordOf).count r := by
    rw [hkeys, List.filterMap_cons]
    cases recordOf key with
    | none => simp
    | some =>
      rw [← List.count_append]
      rfl
  unfold IoShard.recordCancel
  rw [count_records, count_records, hcons]
  split
  · dsimp only
    omega
  split
  · next hslot =>
    have hinsert := count_insert_le shard.accepts .accept key.opToken r
    have hrecord : recordOf key = some ⟨.accept, key.opToken⟩ := by simp [recordOf, hslot]
    rw [hrecord]
    dsimp only [Option.toList]
    omega
  split
  · next hslot =>
    have hinsert := count_insert_le shard.providedRecvs .providedRecv key.opToken r
    have hrecord : recordOf key = some ⟨.providedRecv, key.opToken⟩ := by
      simp [recordOf, hslot, providedRecvCancelSlot, acceptCancelSlot]
    rw [hrecord]
    dsimp only [Option.toList]
    omega
  split
  · next hslot =>
    have hinsert := count_insert_le shard.connects .connect key.opToken r
    have hrecord : recordOf key = some ⟨.connect, key.opToken⟩ := by
      simp [recordOf, hslot, providedRecvCancelSlot, acceptCancelSlot, connectCancelSlot]
    rw [hrecord]
    dsimp only [Option.toList]
    omega
  · dsimp only
    omega

theorem records_pushCancel (shard : IoShard) (key : InflightSlotKey) :
    { shard with cancelInbox := shard.cancelInbox.pushCancel key }.records.Subperm
      ((recordOf key).toList ++ shard.records) := by
  apply List.subperm_iff_count.mpr
  intro r
  rw [List.count_append, count_records, count_records]
  unfold CancelInbox.pushCancel
  split
  · dsimp only
    omega
  · have hone : ([key].filterMap recordOf).count r = (recordOf key).toList.count r := by
      cases hkey : recordOf key <;> simp [hkey]
    simp only [List.filterMap_append, List.count_append, hone]
    omega

theorem IoShard.Disposal.records {kind : FutureKind} {shard' : IoShard}
    (h : shard.Disposal c kind shard') :
    (⟨kind, c.token⟩ :: shard'.records).Perm shard.records := by
  apply List.perm_iff_count.mpr
  intro r
  rw [← List.singleton_append, List.count_append, count_records, count_records]
  cases h with
  | recycled id buffer recorded =>
    have htake := count_take .providedRecv recorded r
    dsimp only
    omega
  | provided recorded =>
    have htake := count_take .providedRecv recorded r
    dsimp only
    omega
  | connect recorded =>
    have htake := count_take .connect recorded r
    dsimp only
    omega
  | accept recorded =>
    have htake := count_take .accept recorded r
    unfold IoShard.disposeAcceptResult
    split <;> dsimp only <;> omega

end Records

namespace RecordsSound

variable {records records' : List DropRecord} {ops : List KernelOp}
  {futures : List FutureEntry} {o : Nat} {op : KernelOp} {kind : FutureKind} {token : UInt64}

variable (h : RecordsSound records ops futures)

include h

theorem forget (hsub : records'.Subperm records) :
    RecordsSound records' ops futures := by
  obtain ⟨middle, hperm, hsublist⟩ := hsub
  refine ⟨?_, fun kind token hmem => h.awaits kind token (hsublist.subset (hperm.mem_iff.mpr hmem))⟩
  exact (hperm.map DropRecord.token).nodup_iff.mp (h.nodup.sublist (hsublist.map DropRecord.token))

theorem owner_dropped (hop : ops[o]? = some op) (hpending : op.isPendingFor token = true)
    (hmem : ⟨kind, token⟩ ∈ records) :
    kind.isBuffered = false ∧ ∃ f entry, op.role = .owned f kind ∧ futures[f]? = some entry ∧
      entry.status = .dropped := by
  obtain ⟨hslotless, o', ⟨op', f, entry, hop', hrole, _, hf, hdropped⟩, honly⟩ :=
    h.awaits kind token hmem
  obtain rfl := honly o op hop hpending
  cases hop.symm.trans hop'
  exact ⟨hslotless, f, entry, hrole, hf, hdropped⟩

theorem requests {ops' : List KernelOp}
    (hrow : ∀ kind token, ⟨kind, token⟩ ∈ records → ∀ (o : Nat) op,
      ops[o]? = some op → op.isPendingFor token = true →
        ∃ op', ops'[o]? = some op' ∧ op'.role = op.role ∧ op'.isPendingFor token = true)
    (hback : ∀ kind token, ⟨kind, token⟩ ∈ records → ∀ (o : Nat) op',
      ops'[o]? = some op' → op'.isPendingFor token = true →
        ∃ op, ops[o]? = some op ∧ op.isPendingFor token = true) :
    RecordsSound records ops' futures := by
  refine ⟨h.nodup, fun kind token hmem => ?_⟩
  obtain ⟨hslotless, o, ⟨op, f, entry, hop, hrole, hpending, hf, hdropped⟩, honly⟩ :=
    h.awaits kind token hmem
  obtain ⟨op', hop', hrole', hpending'⟩ := hrow kind token hmem o op hop hpending
  refine ⟨hslotless, o, ⟨op', f, entry, hop', hrole'.trans hrole, hpending', hf, hdropped⟩, ?_⟩
  intro p q hq hqpending
  obtain ⟨old, hold, hpold⟩ := hback kind token hmem p q hq hqpending
  exact honly p old hold hpold

theorem entries {futures' : List FutureEntry}
    (hkept : ∀ (f : Nat) entry, futures[f]? = some entry →
      entry.status = .dropped → ∃ entry', futures'[f]? = some entry' ∧ entry'.status = .dropped) :
    RecordsSound records ops futures' := by
  refine ⟨h.nodup, fun kind token hmem => ?_⟩
  obtain ⟨hslotless, o, ⟨op, f, entry, hop, hrole, hpending, hf, hdropped⟩, honly⟩ :=
    h.awaits kind token hmem
  obtain ⟨entry', hf', hdropped'⟩ := hkept f entry hf hdropped
  exact ⟨hslotless, o, ⟨op, f, entry', hop, hrole, hpending, hf', hdropped'⟩, honly⟩

theorem posted (hop : ops[o]? = some op) (cqe : Cqe) :
    RecordsSound records (ops.set o (op.posted cqe)) futures := by
  apply h.requests
  · intro _ token _ p q hq hpending
    by_cases hpo : p = o
    · subst hpo
      cases hop.symm.trans hq
      exact ⟨op.posted cqe, set_eq_some.mpr (.inr ⟨rfl, lt_of_row hop, rfl⟩), rfl, hpending⟩
    · exact ⟨q, set_eq_some.mpr (.inl ⟨hpo, hq⟩), rfl, hpending⟩
  · intro _ token _ p q hq hpending
    rcases set_eq_some.mp hq with ⟨_, hq⟩ | ⟨rfl, _, rfl⟩
    · exact ⟨q, hq, hpending⟩
    · exact ⟨op, hop, hpending⟩

theorem start {request : Request} (hfresh : ∀ kind, ⟨kind, request.userData⟩ ∉ records) :
    RecordsSound records (ops ++ [.start request]) futures := by
  apply h.requests
  · intro _ token _ p q hq hpending
    exact ⟨q, append_of_row hq _, rfl, hpending⟩
  · intro kind token hmem p q hq hpending
    rcases concat_eq_some.mp hq with hq | ⟨_, rfl⟩
    · exact ⟨q, hq, hpending⟩
    · obtain rfl := (KernelOp.isPendingFor_iff.mp hpending).1
      exact absurd hmem (hfresh kind)

theorem drained {c : Completion} (hop : ops[o]? = some op)
    (hfresh : ∀ kind, ⟨kind, op.userData⟩ ∉ records) :
    RecordsSound records (ops.modify o (·.drained c)) futures := by
  apply h.requests
  · intro kind token hmem p q hq hpending
    by_cases hpo : p = o
    · subst hpo
      cases hop.symm.trans hq
      obtain rfl := (KernelOp.isPendingFor_iff.mp hpending).1
      exact absurd hmem (hfresh kind)
    · exact ⟨q, modify_eq_some.mpr (.inl ⟨hpo, hq⟩), rfl, hpending⟩
  · intro _ token _ p q hq hpending
    rcases modify_eq_some.mp hq with ⟨_, hq⟩ | ⟨rfl, old, hold, rfl⟩
    · exact ⟨q, hq, hpending⟩
    · exact ⟨old, hold, KernelOp.isPendingFor_of_drained hpending⟩

theorem disposed {c : Completion} (hop : ops[o]? = some op)
    (hperm : (⟨kind, op.userData⟩ :: records').Perm records) :
    RecordsSound records' (ops.modify o (·.drained c)) futures := by
  have hnodup := (hperm.map DropRecord.token).nodup_iff.mpr h.nodup
  have hsub : records'.Subperm records := List.Subperm.cons_self.trans hperm.subperm
  refine (h.forget hsub).drained hop ?_
  intro other hmem
  exact (List.nodup_cons.mp hnodup).1 (List.mem_map.mpr ⟨_, hmem, rfl⟩)

theorem dropped {f : Nat} {entry : FutureEntry} (hop : ops[o]? = some op)
    (hrole : op.role = .owned f kind) (hpending : op.isPendingFor token = true)
    (hslotless : kind.isBuffered = false)
    (honly : ∀ p q, ops[p]? = some q → q.isPendingFor token = true → p = o)
    (hf : futures[f]? = some entry) (hlive : entry.status = .live) :
    RecordsSound (⟨kind, token⟩ :: records) ops
      (futures.set f { entry with status := .dropped }) := by
  have hset : (futures.set f { entry with status := .dropped })[f]? =
      some { entry with status := .dropped } := set_eq_some.mpr (.inr ⟨rfl, lt_of_row hf, rfl⟩)
  have hold : RecordsSound records ops (futures.set f { entry with status := .dropped }) := by
    apply h.entries
    intro g other hg hdropped
    by_cases hgf : g = f
    · subst hgf
      exact ⟨_, hset, rfl⟩
    · exact ⟨other, set_eq_some.mpr (.inl ⟨hgf, hg⟩), hdropped⟩
  refine ⟨?_, ?_⟩
  · -- an older record of the token would name this request, whose future was live
    refine List.nodup_cons.mpr ⟨?_, h.nodup⟩
    intro hmem
    obtain ⟨record, hrecord, htoken⟩ := List.mem_map.mp hmem
    obtain rfl : record.token = token := htoken
    obtain ⟨_, g, other, hrole', hg, hdropped⟩ := h.owner_dropped hop hpending hrecord
    obtain ⟨rfl, _⟩ := OpRole.owned.inj (hrole.symm.trans hrole')
    cases hf.symm.trans hg
    simp [hlive] at hdropped
  · intro kind' token' hmem
    rcases List.mem_cons.mp hmem with heq | hmem
    · obtain ⟨rfl, rfl⟩ := DropRecord.mk.inj heq
      exact ⟨hslotless, o, ⟨op, f, _, hop, hrole, hpending, hset, rfl⟩, honly⟩
    · exact hold.awaits kind' token' hmem

end RecordsSound

namespace IoWorld

def pendingOps (w : IoWorld) (token : UInt64) : List Nat :=
  (List.range w.ops.length).filter fun o => w.ops[o]?.any (·.isPendingFor token)

theorem mem_pendingOps {w : IoWorld} {token : UInt64} {o : Nat} :
    o ∈ w.pendingOps token ↔ ∃ op, w.ops[o]? = some op ∧ op.isPendingFor token = true := by
  simp only [pendingOps, List.mem_filter, List.mem_range]
  constructor
  · rintro ⟨hlt, hany⟩
    rw [List.getElem?_eq_getElem hlt] at hany ⊢
    exact ⟨_, rfl, hany⟩
  · rintro ⟨op, hop, hpending⟩
    exact ⟨lt_of_row hop, by rw [hop]; exact hpending⟩

def isDroppedSlotless (w : IoWorld) (o : Nat) : Bool :=
  w.ops[o]?.any fun op =>
    match op.role with
    | .owned f kind => !kind.isBuffered && w.futures[f]?.any (·.status == .dropped)
    | .cancel _ => false

/-- A slotless future is dropped only while its request is the one unfinished request of its task,
and its task makes no further request until that one has finished. -/
def DropsAlone (w : IoWorld) : Event → Prop
  | .drop f => ∀ entry ∈ w.futures[f]?, entry.status = .live →
      entry.future.kind.isBuffered = false → entry.future.submitted.isSome = true →
        ∀ o ∈ entry.op, w.pendingOps entry.owner = [o]
  | .pollFuture f _ _ => ∀ entry ∈ w.futures[f]?, entry.status = .live →
      entry.future.submitted = none →
        ∀ o ∈ w.pendingOps entry.owner, w.isDroppedSlotless o = false
  | _ => True

instance decidableDropsAlone (w : IoWorld) : ∀ e, Decidable (w.DropsAlone e)
  | .drop f =>
    inferInstanceAs (Decidable (∀ entry ∈ w.futures[f]?, _ → _ → _ → ∀ _ ∈ entry.op, _))
  | .pollFuture f _ _ =>
    inferInstanceAs (Decidable (∀ entry ∈ w.futures[f]?, _ → _ → ∀ _ ∈ w.pendingOps entry.owner, _))
  | .post .. | .postForeign .. | .drainCancel .. | .readCompletions | .complete | .wake .. |
    .spawn .. | .cancelTask .. | .reap .. | .startPoll .. | .create .. | .endPoll .. | .endPass =>
    .isTrue trivial

/-- A completion that a disposal consumes was posted for a request whose future had been dropped,
and a descriptor that is closed with it is that request's result and came from an accept. -/
def DisposesDropped (w : IoWorld) : Event → Prop
  | .complete => ∀ (entry : Option Nat × Completion) (batch : List (Option Nat × Completion)),
      w.phase = .completions → w.batch = entry :: batch →
      (w.shard.completeOne entry.2).1 = .disposed →
        ∃ o op f kind future,
          entry.1 = some o ∧ w.ops[o]? = some op ∧ op.role = .owned f kind ∧
          w.futures[f]? = some future ∧ future.status = .dropped ∧
          (w.complete.shard.closed = w.shard.closed ∨
            kind = .accept ∧ w.complete.shard.closed = w.shard.closed ++ [entry.2.result])
  | _ => True

section Run

variable {w w' : IoWorld} {e : Event}

structure Recorded (w : IoWorld) : Prop where
  sound : w.Sound
  records : RecordsSound w.shard.records w.ops w.futures

theorem Recorded.unrecorded (h : w.Recorded) {o f : Nat} {op : KernelOp} {kind : FutureKind}
    {c : Completion} (hphase : w.phase = .completions) (hop : w.ops[o]? = some op)
    (hq : op.Queued c) (hrole : op.role = .owned f kind) (hun : w.shard.Unrecorded c)
    (record : FutureKind) : ⟨record, op.userData⟩ ∉ w.shard.records := by
  intro hmem
  obtain ⟨hslotless, g, entry, hrole', _⟩ := h.records.owner_dropped hop hq.isPendingFor hmem
  obtain ⟨rfl, rfl⟩ := OpRole.owned.inj (hrole.symm.trans hrole')
  have hinbox := h.sound.quiet hphase
  simp only [IoShard.records, hinbox, List.filterMap_nil, List.nil_append, List.mem_append,
    List.mem_map, DropRecord.mk.injEq, ← hq.token] at hmem
  rcases hmem with ⟨t, ht, hkind, rfl⟩ | ⟨t, ht, _, rfl⟩ | ⟨t, ht, hkind, rfl⟩
  · -- a buffer is only ever selected for a provided receive, so an accept is looked up
    cases hbuf : c.bufId with
    | none => exact (hun.other hbuf).2 ht
    | some id =>
      obtain ⟨⟨g, hrole'⟩, _⟩ := hq.buffer id (by rw [hbuf]; rfl)
      rw [hrole] at hrole'
      simp [← hkind] at hrole'
  · exact hun.provided ht
  · cases hbuf : c.bufId with
    | none => exact (hun.other hbuf).1 ht
    | some id =>
      obtain ⟨⟨g, hrole'⟩, _⟩ := hq.buffer id (by rw [hbuf]; rfl)
      rw [hrole] at hrole'
      simp [← hkind] at hrole'

theorem Recorded.notRecorded_of_role (h : w.Recorded) {o : Nat} {op : KernelOp} {c : Completion}
    (hop : w.ops[o]? = some op) (hq : op.Queued c)
    (hrole : ∀ f kind, op.role = .owned f kind → kind.isBuffered = true) (record : FutureKind) :
    ⟨record, op.userData⟩ ∉ w.shard.records := by
  intro hmem
  obtain ⟨hslotless, g, entry, hrole', _⟩ := h.records.owner_dropped hop hq.isPendingFor hmem
  have := hrole g record hrole'
  simp [hslotless] at this

theorem Recorded.isTaskToken (h : w.Recorded) {kind : FutureKind} {token : UInt64}
    (hmem : ⟨kind, token⟩ ∈ w.shard.records) : isTaskToken token = true := by
  obtain ⟨_, o, ⟨op, f, entry, hop, hrole, hpending, _⟩, _⟩ := h.records.awaits kind token hmem
  rw [← (KernelOp.isPendingFor_iff.mp hpending).1]
  exact (h.sound.owner.owned o op.toRequest f kind (map_row hop) hrole).1.token

theorem Sound.recordOf_buffered (h : w.Sound) {o : Nat} {r : Request} {key : InflightSlotKey}
    (hr : w.requests[o]? = some r) (hkey : r.key = some key) : recordOf key = none := by
  obtain ⟨_, _, slot, hslot, _⟩ := h.slots.keyed o r key hr hkey
  have hlt := lt_of_row hslot
  have hcap := h.slots.cap
  simp only [InflightBufSlab.cap, defaultInflightCap] at hcap
  unfold recordOf acceptCancelSlot providedRecvCancelSlot connectCancelSlot
  rw [if_neg (by omega), if_neg (by omega), if_neg (by omega)]

theorem Recorded.records_drop (h : w.Recorded) {f : Nat} {entry : FutureEntry}
    (hc : w.DropsAlone (.drop f)) (hf : w.futures[f]? = some entry) (hlive : entry.status = .live)
    {key : InflightSlotKey} (hkey : entry.future.submitted = some key) :
    RecordsSound ((recordOf key).toList ++ w.shard.records) w.ops
      (w.futures.set f { entry with status := .dropped }) := by
  obtain ⟨o, r, hopidx, hr, hrole, huser, hcancel⟩ :=
    (h.sound.owner.entry f entry hf).submitted key hkey
  cases hmarker : entry.future.kind.marker with
  | none =>
    have hown : r.key = some key := by simpa [Request.cancelKey, hrole, hmarker] using hcancel
    rw [h.sound.recordOf_buffered hr hown]
    apply h.records.entries
    intro g other hg hdropped
    by_cases hgf : g = f
    · subst hgf
      exact ⟨_, set_eq_some.mpr (.inr ⟨rfl, lt_of_row hf, rfl⟩), rfl⟩
    · exact ⟨other, set_eq_some.mpr (.inl ⟨hgf, hg⟩), hdropped⟩
  | some marker =>
    have hslotless : entry.future.kind.isBuffered = false := by
      simp [FutureKind.isBuffered, hmarker]
    obtain rfl : ⟨marker, 0, w.shard.id, r.userData⟩ = key := by
      simpa [Request.cancelKey, hrole, hmarker] using hcancel
    have halone := hc entry (by rw [hf]; rfl) hlive hslotless (by rw [hkey]; rfl) o (by rw [hopidx]; rfl)
    obtain ⟨op, hop, rfl⟩ := requests_row hr
    have hmem : o ∈ w.pendingOps entry.owner := by simp [halone]
    obtain ⟨op', hop', hpending⟩ := mem_pendingOps.mp hmem
    cases hop.symm.trans hop'
    rw [recordOf_marker hmarker, huser]
    refine h.records.dropped hop hrole hpending hslotless ?_ hf hlive
    intro p q hq hqpending
    have hmem : p ∈ w.pendingOps entry.owner := mem_pendingOps.mpr ⟨q, hq, hqpending⟩
    simpa [halone] using hmem

theorem Recorded.records_step (h : w.Recorded) (hc : w.DropsAlone e) (he : Effect w e w') :
    RecordsSound w'.shard.records w'.ops w'.futures := by
  cases he with
  | posted row => exact h.records.posted row _
  | @cancelDrained key keys isAccepted phase inbox =>
    have hsub := records_recordCancel inbox
    have hforget := h.records.forget hsub
    cases isAccepted with
    | false => exact hforget
    | true =>
      apply hforget.start
      intro kind hmem
      -- the cancel request's token is no task token
      have htask := h.isTaskToken (hsub.subset hmem)
      obtain ⟨hslot, hcorner⟩ :=
        h.sound.slots.cancelOf_slot (h.sound.inbox key (inbox ▸ List.mem_cons_self))
      have hsentinel := isCancelSentinel_encode hslot hcorner
      have hnot := (isTaskToken.unmarked htask).2.2.2.1
      simp [Request.ofCancel, hsentinel] at hnot
  | cancelAnswered phase head row queued role =>
    rw [IoShard.reclaimCancelCompletion_eq]
    refine h.records.drained row (h.notRecorded_of_role row queued ?_)
    intro f kind hrole
    simp [role] at hrole
  | notified phase head row queued role notif =>
    rw [IoShard.reclaimNotif_eq]
    refine h.records.drained row (h.notRecorded_of_role row queued ?_)
    intro f' kind' hrole
    rw [h.sound.kind_of_notif row queued hrole notif]
    rfl
  | disposed phase head row queued role notif disposal =>
    have hperm := disposal.records
    rw [queued.token] at hperm
    exact h.records.disposed row hperm
  | stored phase head row queued role notif unrecorded =>
    rw [IoShard.storeCompletion_eq]
    exact h.records.drained row (h.unrecorded phase row queued role unrecorded)
  | created =>
    apply h.records.entries
    intro f entry hf hdropped
    exact ⟨entry, append_of_row hf _, hdropped⟩
  | @polled f entry window driver sendZcSupported step opened row live owner effect =>
    have hentries : RecordsSound w.shard.records w.ops
        (w.futures.set f (entry.polled step w.ops.length)) := by
      apply h.records.entries
      intro g other hg hdropped
      have hgf : g ≠ f := by
        rintro rfl
        cases row.symm.trans hg
        simp [live] at hdropped
      exact ⟨other, set_eq_some.mpr (.inl ⟨hgf, hg⟩), hdropped⟩
    rcases effect.submitted_cases rfl with hnone | ⟨hidle, submission, hone, huser⟩
    · rw [hnone, List.map_nil, List.append_nil]
      exact hentries
    · rw [hone]
      apply hentries.start
      intro kind hmem
      -- a record of the task would name a dropped request that is still unfinished
      have hmem' : ⟨kind, entry.owner⟩ ∈ w.shard.records := huser ▸ hmem
      obtain ⟨hslotless, o, ⟨op, g, other, hop, hrole, hpending, hg, hdropped⟩, _⟩ :=
        h.records.awaits kind entry.owner hmem'
      have hnot := hc entry (by rw [row]; rfl) live hidle o
        (mem_pendingOps.mpr ⟨op, hop, hpending⟩)
      simp [isDroppedSlotless, hop, hrole, hslotless, hg, hdropped] at hnot
  | @dropped f entry phase row live =>
    cases hkey : entry.future.submitted with
    | none =>
      apply h.records.entries
      intro g other hg hdropped
      by_cases hgf : g = f
      · subst hgf
        exact ⟨_, set_eq_some.mpr (.inr ⟨rfl, lt_of_row row, rfl⟩), rfl⟩
      · exact ⟨other, set_eq_some.mpr (.inl ⟨hgf, hg⟩), hdropped⟩
    | some key => exact (h.records_drop hc row live hkey).forget (records_pushCancel _ key)
  | _ => exact h.records

theorem Recorded.step (h : w.Recorded) (hc : w.DropsAlone e) : (w.step e).Recorded :=
  ⟨h.sound.step e, h.records_step hc (step_effect h.sound e)⟩

theorem init_recorded (id cap : Nat) : (init id cap).Recorded :=
  ⟨init_sound id cap, by constructor <;> simp [init, IoShard.records, CancelSet.empty]⟩

theorem Sound.disposed_spec (h : w.Sound) (hphase : w.phase = .completions)
    {o : Option Nat} {c : Completion} {batch : List (Option Nat × Completion)}
    (hbatch : w.batch = (o, c) :: batch) (hroute : (w.shard.completeOne c).1 = .disposed) :
    ∃ p op f kind record, o = some p ∧
      w.ops[p]? = some op ∧ op.Queued c ∧ op.role = .owned f kind ∧
      w.shard.Disposal c record w.complete.shard := by
  have hmem : (o, c) ∈ w.queue := by simp [IoWorld.queue, hbatch]
  have hshard : w.complete.shard = (w.shard.completeOne c).2 := by simp [complete, hphase, hbatch]
  rw [hshard]
  cases o with
  | none =>
    obtain ⟨hf, hn⟩ := h.queue.foreign c hmem
    simp [IoShard.completeOne_foreign hf hn] at hroute
  | some p =>
    obtain ⟨op, hop, hq⟩ := h.queue.queued p c hmem
    cases hrole : op.role with
    | cancel =>
      obtain ⟨hcancel, hn, _⟩ := h.isCancelSentinel hop hq hrole
      simp [IoShard.completeOne_cancel hcancel hn] at hroute
    | owned f kind =>
      have ht : Kwokka.isTaskToken c.token = true :=
        hq.token ▸ (h.owner.owned p op.toRequest f kind (map_row hop) hrole).1.token
      cases hn : c.isNotif with
      | true => simp [IoShard.completeOne_notif ht hn] at hroute
      | false =>
        rw [IoShard.completeOne_task ht hn] at hroute ⊢
        rcases w.shard.disposeCancelledOp_cases c with ⟨record, shard, hd, heq⟩ | ⟨_, heq⟩
        · rw [heq]
          exact ⟨p, op, f, kind, record, rfl, hop, hq, hrole, hd⟩
        · simp [heq] at hroute

theorem Recorded.disposesDropped (h : w.Recorded) (e : Event) : w.DisposesDropped e := by
  cases e with
  | complete =>
    rintro ⟨o, c⟩ batch hphase hbatch hroute
    obtain ⟨p, op, f, kind, record, rfl, hop, hq, hrole, hd⟩ :=
      h.sound.disposed_spec hphase hbatch hroute
    have hmem : ⟨record, op.userData⟩ ∈ w.shard.records := by
      rw [← hq.token]
      exact hd.records.mem_iff.mp List.mem_cons_self
    obtain ⟨_, g, entry, hrole', hg, hdropped⟩ := h.records.owner_dropped hop hq.isPendingFor hmem
    exact ⟨p, op, g, record, entry, rfl, hop, hrole', hg, hdropped, hd.closed⟩
  | _ => trivial

end Run

/-- In every run that drops slotless futures alone, only completions of dropped futures are
disposed of. -/
theorem disposal_consumes_dropped (id cap : Nat) (es : List Event)
    (h : Meets step DropsAlone (init id cap) es) :
    Meets step DisposesDropped (init id cap) es :=
  h.of_invariant (fun _ _ hw hc => hw.step hc) (fun _ e hw _ => hw.disposesDropped e)
    (init_recorded id cap)

/-- Task 5 drops an accept in flight, waits for its completion to be disposed of, and only then
makes its next request. -/
def dropsInFlight : List Event :=
  [.readCompletions, .complete, .spawn 5 ⟨0, 0⟩, .wake 5, .startPoll 5, .create .accept 0,
    .pollFuture 0 .submitted false, .drop 0, .endPoll false, .endPass, .drainCancel true,
    .post 0 ⟨5, 7, 0⟩, .readCompletions, .complete, .complete, .wake 5, .startPoll 5,
    .create .recv 16, .pollFuture 1 .submitted false, .endPoll false, .endPass]

theorem disposal_consumes_dropped_in_flight : Meets step DropsAlone (init 0 2) dropsInFlight ∧
    (run step (init 0 2) dropsInFlight).shard.closed = [7] ∧
    Meets step DisposesDropped (init 0 2) dropsInFlight :=
  have h : Meets step DropsAlone (init 0 2) dropsInFlight := by decide +kernel
  ⟨h, by decide +kernel, disposal_consumes_dropped 0 2 dropsInFlight h⟩

/-- The completion of task 5's accept is already stored when the accept is dropped, so the record
its cancel leaves waits for the task's next completion. -/
def dropsAfterStore : List Event :=
  [.readCompletions, .complete, .spawn 5 ⟨0, 0⟩, .wake 5, .startPoll 5, .create .accept 0,
    .pollFuture 0 .submitted false, .endPoll false, .endPass, .post 0 ⟨5, 7, 0⟩, .readCompletions,
    .complete, .complete, .startPoll 5, .drop 0, .create .recv 16, .pollFuture 1 .submitted false,
    .endPoll false, .endPass, .drainCancel true, .post 1 ⟨5, 3, 0⟩, .readCompletions]

/-- The receive of a live future is swallowed, and descriptor 3 is closed: its byte count. -/
theorem disposal_swallows_live : ¬ ∀ id cap es,
    Meets step DisposesDropped (init id cap) es := by
  intro h
  have hlast := (meets_append.mp (h 0 2 (dropsAfterStore ++ [.complete]))).2.1
  obtain ⟨o, op, f, kind, future, ho, hop, hrole, hf, hdropped, _⟩ :=
    hlast (some 1, ⟨5, 3, .empty, none⟩) [] (by decide +kernel) (by decide +kernel)
      (by decide +kernel)
  cases ho
  have hop' : (run step (init 0 2) dropsAfterStore).ops[1]? = some
      ⟨⟨⟨5, false, some ⟨0, 0, 0, 5⟩⟩, .owned 1 .recv⟩, .posted, false, false⟩ := by decide +kernel
  cases hop'.symm.trans hop
  obtain ⟨rfl, rfl⟩ := OpRole.owned.inj hrole
  have hf' : (run step (init 0 2) dropsAfterStore).futures[1]?.map (·.status) = some .live := by
    decide +kernel
  rw [hf] at hf'
  simp [hdropped] at hf'

end IoWorld

end Kwokka
