import Kwokka.TallyLedger

/-! The counter of every live task is the number of its operations whose result was
not drained, in every run in which no record of a dropped future swallows a result and
no cancel's own completion is taken for the end of a stream. -/

namespace Kwokka

open Table Runs TallyOp

def TallyOp.charge (op : TallyOp) (c : Completion) (t : UInt64) (n : Nat) : Nat :=
  if op.isResult c = true ∧ op.owner = t then n - 1 else n

theorem TallyOp.charge_eq (op : TallyOp) (c : Completion) (t : UInt64) :
    op.charge c t = fun n => if op.isResult c = true ∧ op.owner = t then n - 1 else n := rfl

def MultishotRegistry.Ends {ρ : Type} (r : MultishotRegistry ρ) (c : Completion)
    (slot generation : Nat) (k : MultishotKey) : Prop :=
  c.hasMore = false ∧ k.slot = slot ∧ r.IsCurrent k ∧ k.occupancy % 2 ^ 16 = generation

namespace TallyWorld

def Spares (w : TallyWorld) (ops : List TallyOp) (keyOf : TallyOp → Option MultishotKey)
    (ended : MultishotKey → Prop) : Prop :=
  ∀ op ∈ ops, ∀ k, keyOf op = some k → op.isDrained = false → w.IsLive op.owner → ¬ ended k

/-- To take the owner that answers to a stream's completion off its counter is to count the
completion of `op`. -/
def Charges (w : TallyWorld) (op : TallyOp) (c : Completion) (answer : Option Nat) : Prop :=
  ∀ t, (w.shard.inFlight t).map (fun n =>
    if (if c.hasMore then none else answer).map UInt64.ofNat = some t then n - 1 else n) =
      (w.shard.inFlight t).map (op.charge c t)

variable {w : TallyWorld}

section Drain

variable {o : Nat} {c : Completion} {op : TallyOp} {queue : List (Nat × Completion)}

theorem undrained_drained (hop : w.ops[o]? = some op)
    (hcounted : op.isResult c = true → op.isCounted = true)
    (hopen : op.isResult c = true → op.isDrained = false) (t : UInt64) :
    (w.ops.set o (op.drained c)).countP (fun op => op.isCounted && op.owner == t && !op.isDrained) +
      (if op.isResult c = true ∧ op.owner = t then 1 else 0) = w.undrained t := by
  have hset := countP_set_of_row (y := op.drained c)
    (fun op => op.isCounted && op.owner == t && !op.isDrained) hop
  rw [undrained]
  cases hresult : op.isResult c with
  | false =>
    have hsame : op.drained c = op := by simp [drained, hresult]
    rw [hsame] at hset ⊢
    simpa using hset
  | true =>
    have hdrained : (op.drained c).isDrained = true := by simp [drained, hresult]
    simp only [hcounted hresult, hopen hresult, hdrained] at hset
    by_cases ht : op.owner = t
    · simpa [ht] using hset
    · simpa [ht] using hset

theorem Ledger.head (h : w.Ledger) (hqueue : w.queue = (o, c) :: queue)
    (hop : w.ops[o]? = some op) : op.Queued c := by
  obtain ⟨op', hop', hq⟩ := h.queued (o, c) (hqueue ▸ List.mem_cons_self)
  rw [show w.ops[o]? = some op from hop] at hop'
  cases hop'
  exact hq

theorem Ledger.head_result (h : w.Ledger) (hqueue : w.queue = (o, c) :: queue)
    (hop : w.ops[o]? = some op) (hkind : ∀ kind, op.kind ≠ .single kind) : c.isNotif = false := by
  cases hn : c.isNotif with
  | false => rfl
  | true =>
    obtain ⟨kind, hsingle⟩ := (h.head hqueue hop).notif hn
    exact absurd hsingle (hkind kind)

section Head

variable (h : w.Ledger) (hwindow : w.window = none) (hqueue : w.queue = (o, c) :: queue)
  (hop : w.ops[o]? = some op)

include h hwindow hqueue hop

theorem Ledger.settle {shard : IoShard} {accepts : MultishotRegistry AcceptResult}
    {recvs : MultishotRegistry RecvResult} {overAccept overRecv : MultishotKey → Prop}
    (hcount : ∀ t, shard.inFlight t = (w.shard.inFlight t).map (op.charge c t))
    (haccepts : MultishotRegistry.Keeps (fun s => s.terminal = none)
      (w.ops.filterMap acceptKey) overAccept w.accepts accepts)
    (hrecvs : MultishotRegistry.Keeps StashesLast (w.ops.filterMap recvKey) overRecv
      w.recvs recvs)
    (hoverAccept : w.Spares (w.ops.set o (op.drained c)) acceptKey overAccept)
    (hoverRecv : w.Spares (w.ops.set o (op.drained c)) recvKey overRecv) :
    Ledger { w with shard, accepts, recvs, ops := w.ops.set o (op.drained c), queue } := by
  have hmem := List.mem_of_getElem? hop
  have hsound := h.rows op hmem
  have hq := h.head hqueue hop
  have hadv : Advances w.ops (w.ops.set o (op.drained c)) := by
    apply Advances.set hop (op.drained_same c)
    simp only [drained, Bool.or_eq_false_iff]
    exact fun hdrained => hdrained.1
  have hone := h.once
  rw [hqueue, ResultsOnce, List.pairwise_cons] at hone
  rw [← hadv.keys fun _ _ hsame => hsame.acceptKey] at haccepts
  rw [← hadv.keys fun _ _ hsame => hsame.recvKey] at hrecvs
  refine h.relive (fun t => by rw [hcount, Option.isSome_map]) h.polled ?_ ?_ ?_ ?_
    ((hadv.backed (fun _ _ hsame => hsame.acceptKey) h.accepts).moved haccepts hoverAccept)
    ((hadv.backed (fun _ _ hsame => hsame.recvKey) h.recvs).moved hrecvs hoverRecv)
  · intro t n hn
    obtain ⟨m, hm, rfl⟩ := Option.map_eq_some_iff.mp ((hcount t).symm.trans hn)
    have hold := h.count t m hm
    rw [submitted_none hwindow] at hold
    have hcounted : op.isResult c = true → op.isCounted = true := by
      cases hkind : op.kind <;> simp [isResult, isCounted, hkind]
    have hset := undrained_drained hop hcounted (fun hresult => (hq.result hresult).1) t
    have hzero : ({ w with shard, accepts, recvs, ops := w.ops.set o (op.drained c), queue } :
        TallyWorld).submitted t = 0 := submitted_none hwindow t
    rw [hzero, charge]
    show _ = (w.ops.set o (op.drained c)).countP _
    split at hset <;> split <;> first | omega | contradiction
  · intro op' hop'
    rcases List.mem_or_eq_of_mem_set hop' with hold | rfl
    · exact h.rows op' hold
    · refine ⟨hsound.task, hsound.marker, hsound.awaiting, ?_⟩
      intro hdrained
      cases hresult : op.isResult c with
      | true => exact (hq.result hresult).2
      | false =>
        simp only [drained, hresult, Bool.or_false] at hdrained
        exact hsound.drained hdrained
  · intro e he
    obtain ⟨op', hop', hq'⟩ := h.queued e (hqueue ▸ List.mem_cons_of_mem _ he)
    by_cases heq : e.1 = o
    · rw [heq, hop] at hop'
      cases hop'
      refine ⟨op.drained c, set_eq_some.mpr (.inr ⟨heq, lt_of_row hop, rfl⟩), hq'.token, hq'.notif, ?_⟩
      intro hresult
      -- the head was no result of this operation, or `e` would be its second one
      have hhead : op.isResult c = false := by
        cases hc : op.isResult c with
        | false => rfl
        | true =>
          have hnot := hone.1 e he heq.symm op hop hc
          have hresult' : op.isResult e.2 = true := hresult
          rw [hnot] at hresult'
          cases hresult'
      refine ⟨?_, (hq'.result hresult).2⟩
      show (op.isDrained || op.isResult c) = false
      rw [hhead, (hq'.result hresult).1]
      rfl
    · exact ⟨op', set_eq_some.mpr (.inl ⟨heq, hop'⟩), hq'⟩
  · apply ResultsOnce.of_rows hone.2
    · intro e he
      exact h.queue_lt e (hqueue ▸ List.mem_cons_of_mem _ he)
    · intro o' op' hop' _
      obtain ⟨old, hold, hsame, -⟩ := hadv.row o' op' hop'
      exact ⟨old, hold, hsame⟩

end Head

def answers (w : TallyWorld) (userData : UInt64) : Option Nat :=
  let slot := multishotSentinelSlot userData
  let generation := multishotSentinelGeneration userData
  if isMultishotSentinel userData then w.accepts.owner slot generation
  else if isRecvMultishotSentinel userData then w.recvs.owner slot generation
  else none

/-- The completion of `op` about to be drained takes one operation off the counter exactly when
it is `op`'s result: no cancel record answers to a task's result, a stream's slot was not reused
`2 ^ 16` times behind its last completion, and a stream's cancel finds the stream's slot
vacated, or no task that is still counting. -/
def Retires (w : TallyWorld) (op : TallyOp) (c : Completion) : Prop :=
  match op.kind with
  | .single _ => c.isNotif = true ∨ w.shard.inFlight c.token = none ∨ w.shard.Unrecorded c
  | .accept key => c.hasMore = true ∨ (w.accepts.slots key.slot).frees < key.occupancy + 2 ^ 16
  | .recv key => c.hasMore = true ∨ (w.recvs.slots key.slot).frees < key.occupancy + 2 ^ 16
  | .cancel userData => ∀ owner ∈ w.answers userData, ∀ n ∈ w.shard.inFlight (.ofNat owner), n = 0

theorem inFlight_settled (shard : IoShard) (wake retire : Option Nat) (t : UInt64) :
    ((shard.wakeMultishotOwner wake).retireMultishotOwner retire).inFlight t =
      (shard.inFlight t).map fun n => if retire.map UInt64.ofNat = some t then n - 1 else n := by
  cases retire with
  | none => simp [IoShard.retireMultishotOwner, IoShard.inFlight_wakeMultishotOwner]
  | some owner =>
    rw [IoShard.retireMultishotOwner, IoShard.inFlight_retire, IoShard.inFlight_wakeMultishotOwner]
    by_cases ht : t = UInt64.ofNat owner
    · simp [ht]
    · simp [ht, Ne.symm ht]

section Streams

variable {ρ : Type} {valid : MultishotSlot ρ → Prop} {keyOf : TallyOp → Option MultishotKey}
  {r : MultishotRegistry ρ} {key : MultishotKey} {retire : Option Nat}

theorem count_retired (h : Backed valid keyOf w.IsLive w.ops r) (hop : w.ops[o]? = some op)
    (hkey : keyOf op = some key) (hresult : op.isResult c = !c.hasMore)
    (hopen : op.isResult c = true → op.isDrained = false)
    (hreuse : c.hasMore = true ∨ (r.slots key.slot).frees < key.occupancy + 2 ^ 16) :
    w.Charges op c (r.owner key.slot (key.occupancy % 2 ^ 16)) := by
  intro t
  cases hmore : c.hasMore with
  | true =>
    rw [hmore] at hresult
    simp [charge_eq, hresult]
  | false =>
    rw [hmore] at hresult hreuse
    have hreuse' := hreuse.resolve_left (by simp)
    have hdrained := hopen (by simpa using hresult)
    rcases h.answer hop hkey hreuse' hdrained with hsome | ⟨hnone, hdead⟩
    · rw [hsome]
      simp [charge_eq, hresult]
    · rw [hnone]
      by_cases ht : op.owner = t
      · subst ht
        have hgone : w.shard.inFlight op.owner = none := by
          simpa [IsLive] using hdead
        simp [hgone]
      · simp [charge_eq, ht]

theorem over_retired (h : Backed valid keyOf w.IsLive w.ops r) (hop : w.ops[o]? = some op)
    (hkey : keyOf op = some key) (hresult : op.isResult c = !c.hasMore)
    (hreuse : c.hasMore = true ∨ (r.slots key.slot).frees < key.occupancy + 2 ^ 16) :
    w.Spares (w.ops.set o (op.drained c)) keyOf
      (r.Ends c key.slot (key.occupancy % 2 ^ 16)) := by
  rintro op' hmem k hk hdrained - ⟨hmore, hslot, hc, hgen⟩
  have hreuse' := hreuse.resolve_left (by simp [hmore])
  obtain ⟨o', hrow⟩ := List.mem_iff_getElem?.mp hmem
  rcases set_eq_some.mp hrow with ⟨hne, hop'⟩ | ⟨-, -, rfl⟩
  · exact h.marker_unique hop hkey hreuse' hop' hne hk hslot hc hgen
  · simp [drained, hresult, hmore] at hdrained

end Streams

theorem drain_accept (hwindow : w.window = none) (hqueue : w.queue = (o, c) :: queue)
    (hop : w.ops[o]? = some op) (hn : c.isNotif = false)
    (hmulti : isMultishotSentinel c.token = true) :
    w.drain =
      let out := pushMultishotCompletion w.accepts c.token ⟨c.result, none⟩ c.hasMore
      { w with
        shard := (w.shard.wakeMultishotOwner out.wake).retireMultishotOwner out.retire
        accepts := out.registry
        ops := w.ops.set o (op.drained c)
        queue } := by
  have hforeign : isForeign c.token = true := by simp [isForeign, hmulti]
  simp [drain, hwindow, hqueue, route, hn, hmulti, modify_of_row hop,
    IoShard.completeOne_foreign hforeign hn]

theorem drain_recv (hwindow : w.window = none) (hqueue : w.queue = (o, c) :: queue)
    (hop : w.ops[o]? = some op) (hn : c.isNotif = false)
    (hmulti : isMultishotSentinel c.token = false)
    (hrecv : isRecvMultishotSentinel c.token = true) :
    w.drain =
      let out := pushRecvMultishotCompletion w.recvs c.token ⟨c.result, c.bufId.map (·.toNat)⟩ c.hasMore
      { w with
        shard := (w.shard.wakeMultishotOwner out.wake).retireMultishotOwner out.retire
        recvs := out.registry
        ops := w.ops.set o (op.drained c)
        queue } := by
  have hforeign : isForeign c.token = true := by simp [isForeign, hrecv]
  simp [drain, hwindow, hqueue, route, hn, hmulti, hrecv, modify_of_row hop,
    IoShard.completeOne_foreign hforeign hn]

section Routes

variable (h : w.Ledger) (hwindow : w.window = none) (hqueue : w.queue = (o, c) :: queue)
  (hop : w.ops[o]? = some op)

include h hwindow hqueue hop

theorem Ledger.drainPlain (hplain : c.isNotif = true ∨
      isMultishotSentinel c.token = false ∧ isRecvMultishotSentinel c.token = false)
    (hcount : ∀ t, (w.shard.completeOne c).2.inFlight t = (w.shard.inFlight t).map (op.charge c t)) :
    w.drain.Ledger := by
  have hdrain : w.drain = { w with
      shard := (w.shard.completeOne c).2, ops := w.ops.set o (op.drained c), queue } := by
    rcases hplain with hn | ⟨hmulti, hrecv⟩
    · simp [drain, hwindow, hqueue, route, hn, modify_of_row hop]
    · simp [drain, hwindow, hqueue, route, hmulti, hrecv, modify_of_row hop]
  rw [hdrain]
  exact h.settle hwindow hqueue hop hcount (.refl h.accepts.slots h.accepts.valid)
    (.refl h.recvs.slots h.recvs.valid) (fun _ _ _ _ _ _ => id) (fun _ _ _ _ _ _ => id)

theorem Ledger.drainSingle {kind : FutureKind} (hkind : op.kind = .single kind)
    (hretires : w.Retires op c) : w.drain.Ledger := by
  have htoken : c.token = op.owner := by rw [(h.head hqueue hop).token, userData, hkind]
  have htask : isTaskToken c.token = true := by
    rw [htoken]
    exact (h.rows op (List.mem_of_getElem? hop)).task (by rw [isCounted, hkind])
  obtain ⟨_, _, _, _, hmulti, hrecv⟩ := isTaskToken.unmarked htask
  apply h.drainPlain hwindow hqueue hop (.inr ⟨hmulti, hrecv⟩)
  intro t
  cases hn : c.isNotif with
  | true =>
    rw [IoShard.inFlight_completeOne_notif htask hn]
    simp [charge_eq, isResult, hkind, hn]
  | false =>
    have hfree : w.shard.inFlight c.token = none ∨ w.shard.Unrecorded c := by
      simpa [Retires, hkind, hn] using hretires
    rw [IoShard.inFlight_completeOne_task htask hn hfree, htoken]
    by_cases ht : t = op.owner
    · simp [charge_eq, isResult, hkind, hn, ht]
    · simp [charge_eq, isResult, hkind, hn, ht, Ne.symm ht]

theorem Ledger.pushAccept (hn : c.isNotif = false) (hmulti : isMultishotSentinel c.token = true)
    (hcount : w.Charges op c (w.accepts.owner (multishotSentinelSlot c.token)
      (multishotSentinelGeneration c.token)))
    (hover : w.Spares (w.ops.set o (op.drained c)) acceptKey (w.accepts.Ends c
      (multishotSentinelSlot c.token) (multishotSentinelGeneration c.token))) :
    w.drain.Ledger := by
  obtain ⟨hkeeps, hretire⟩ := MultishotRegistry.Keeps.push acceptProtocol_lawful h.accepts.slots
    h.accepts.valid c.token ⟨c.result, none⟩ c.hasMore
  rw [drain_accept hwindow hqueue hop hn hmulti]
  refine h.settle hwindow hqueue hop ?_ hkeeps (.refl h.recvs.slots h.recvs.valid)
    hover (fun _ _ _ _ _ _ => id)
  intro t
  rw [inFlight_settled]
  exact hretire ▸ hcount t

theorem Ledger.pushRecv (hn : c.isNotif = false) (hmulti : isMultishotSentinel c.token = false)
    (hrecv : isRecvMultishotSentinel c.token = true)
    (hcount : w.Charges op c (w.recvs.owner (multishotSentinelSlot c.token)
      (multishotSentinelGeneration c.token)))
    (hover : w.Spares (w.ops.set o (op.drained c)) recvKey (w.recvs.Ends c
      (multishotSentinelSlot c.token) (multishotSentinelGeneration c.token))) :
    w.drain.Ledger := by
  obtain ⟨hkeeps, hretire⟩ := MultishotRegistry.Keeps.push recvProtocol_lawful h.recvs.slots
    h.recvs.valid c.token ⟨c.result, c.bufId.map (·.toNat)⟩ c.hasMore
  rw [drain_recv hwindow hqueue hop hn hmulti hrecv]
  refine h.settle hwindow hqueue hop ?_ (.refl h.accepts.slots h.accepts.valid) hkeeps
    (fun _ _ _ _ _ _ => id) hover
  intro t
  rw [inFlight_settled]
  exact hretire ▸ hcount t

theorem Ledger.drainAccept {key : MultishotKey} (hkind : op.kind = .accept key)
    (hretires : w.Retires op c) : w.drain.Ledger := by
  have hq := h.head hqueue hop
  have hn := h.head_result hqueue hop (by simp [hkind])
  have hkey : op.acceptKey = some key := by rw [acceptKey, hkind]
  have hmarker : IsMarkerOf multishotTokenBase key c.token := by
    rw [hq.token, userData, hkind]
    exact isMarkerOf_encodeMultishotSentinel (h.accepts.slot_lt (List.mem_of_getElem? hop) hkey)
  have hmulti : isMultishotSentinel c.token = true := by simp [isMultishotSentinel, hmarker.high]
  have hreuse : c.hasMore = true ∨ (w.accepts.slots key.slot).frees < key.occupancy + 2 ^ 16 := by
    simpa only [Retires, hkind] using hretires
  have hresult : op.isResult c = !c.hasMore := by rw [isResult, hkind]
  apply h.pushAccept hwindow hqueue hop hn hmulti
  · rw [hmarker.slot, hmarker.generation]
    exact count_retired h.accepts hop hkey hresult (fun hr => (hq.result hr).1) hreuse
  · rw [hmarker.slot, hmarker.generation]
    exact over_retired h.accepts hop hkey hresult hreuse

theorem Ledger.drainRecv {key : MultishotKey} (hkind : op.kind = .recv key)
    (hretires : w.Retires op c) : w.drain.Ledger := by
  have hq := h.head hqueue hop
  have hn := h.head_result hqueue hop (by simp [hkind])
  have hkey : op.recvKey = some key := by rw [recvKey, hkind]
  have hmarker : IsMarkerOf recvMultishotTokenBase key c.token := by
    rw [hq.token, userData, hkind]
    exact isMarkerOf_encodeRecvMultishotSentinel (h.recvs.slot_lt (List.mem_of_getElem? hop) hkey)
  have hmulti : isMultishotSentinel c.token = false := by
    rw [isMultishotSentinel, hmarker.high]
    rfl
  have hrecv : isRecvMultishotSentinel c.token = true := by
    simp [isRecvMultishotSentinel, hmarker.high]
  have hreuse : c.hasMore = true ∨ (w.recvs.slots key.slot).frees < key.occupancy + 2 ^ 16 := by
    simpa only [Retires, hkind] using hretires
  have hresult : op.isResult c = !c.hasMore := by rw [isResult, hkind]
  apply h.pushRecv hwindow hqueue hop hn hmulti hrecv
  · rw [hmarker.slot, hmarker.generation]
    exact count_retired h.recvs hop hkey hresult (fun hr => (hq.result hr).1) hreuse
  · rw [hmarker.slot, hmarker.generation]
    exact over_retired h.recvs hop hkey hresult hreuse

end Routes

theorem Ledger.over_cancel {ρ : Type} {valid : MultishotSlot ρ → Prop}
    {keyOf : TallyOp → Option MultishotKey} {r : MultishotRegistry ρ} {userData : UInt64}
    (h : w.Ledger) (hback : Backed valid keyOf w.IsLive w.ops r) (hop : w.ops[o]? = some op)
    (hresult : op.isResult c = false)
    (hcounted : ∀ op k, keyOf op = some k → op.isCounted = true) (hwindow : w.window = none)
    (hzero : ∀ owner ∈ r.owner (multishotSentinelSlot userData)
      (multishotSentinelGeneration userData), ∀ n ∈ w.shard.inFlight (.ofNat owner), n = 0) :
    w.Spares (w.ops.set o (op.drained c)) keyOf (r.Ends c (multishotSentinelSlot userData)
      (multishotSentinelGeneration userData)) := by
  have hsame : op.drained c = op := by simp [drained, hresult]
  rintro op' hset k hk hdrained hlive ⟨-, hslot, hc, hgen⟩
  have hmem : op' ∈ w.ops := by
    rcases List.mem_or_eq_of_mem_set hset with hold | rfl
    · exact hold
    · rw [hsame]
      exact List.mem_of_getElem? hop
  have howner := hback.slots.owner_eq (Backed.key_mem hmem hk) hc
  rw [hback.owned op' hmem k hk hc, hslot, hgen] at howner
  obtain ⟨n, hn⟩ := Option.isSome_iff_exists.mp hlive
  have hn' : n ∈ w.shard.inFlight (.ofNat op'.owner.toNat) := by
    rw [UInt64.ofNat_toNat]
    exact hn
  have hcount := h.count op'.owner n hn
  rw [hzero _ howner n hn', submitted_none hwindow] at hcount
  have hnot := List.countP_eq_zero.mp hcount.symm op' hmem
  simp [hdrained, hcounted op' k hk] at hnot

theorem count_cancel {answer : Option Nat} (hresult : op.isResult c = false)
    (hzero : ∀ owner ∈ answer, ∀ n ∈ w.shard.inFlight (.ofNat owner), n = 0) :
    w.Charges op c answer := by
  have hlast : ∀ owner ∈ if c.hasMore then none else answer,
      ∀ n ∈ w.shard.inFlight (.ofNat owner), n = 0 := by
    split
    · nofun
    · exact hzero
  intro t
  generalize (if c.hasMore then none else answer) = retire at hlast ⊢
  cases hn : w.shard.inFlight t with
  | none => rfl
  | some n =>
    have hsame : (if retire.map UInt64.ofNat = some t then n - 1 else n) = n := by
      split
      case isFalse => rfl
      case isTrue hretire =>
        obtain ⟨owner, howner, rfl⟩ := Option.map_eq_some_iff.mp hretire
        rw [hlast owner howner n hn]
    rw [Option.map_some, Option.map_some, hsame]
    simp [charge_eq, hresult]

theorem Ledger.drainCancel {userData : UInt64} (h : w.Ledger) (hwindow : w.window = none)
    (hqueue : w.queue = (o, c) :: queue) (hop : w.ops[o]? = some op)
    (hkind : op.kind = .cancel userData) (hretires : w.Retires op c) : w.drain.Ledger := by
  have hn := h.head_result hqueue hop (by simp [hkind])
  have htoken : c.token = userData := by rw [(h.head hqueue hop).token, TallyOp.userData, hkind]
  have hresult : op.isResult c = false := by rw [isResult, hkind]
  have hzero : ∀ owner ∈ w.answers c.token, ∀ n ∈ w.shard.inFlight (.ofNat owner), n = 0 := by
    simpa only [Retires, hkind, htoken] using hretires
  cases hmulti : isMultishotSentinel c.token with
  | true =>
    rw [answers, hmulti, if_pos rfl] at hzero
    refine h.pushAccept hwindow hqueue hop hn hmulti (count_cancel hresult hzero) ?_
    exact h.over_cancel h.accepts hop hresult
      (fun _ _ hk => isCounted_of_acceptKey (by simp [hk])) hwindow hzero
  | false =>
    cases hrecv : isRecvMultishotSentinel c.token with
    | true =>
      rw [answers, hmulti, hrecv, if_neg (by simp), if_pos rfl] at hzero
      refine h.pushRecv hwindow hqueue hop hn hmulti hrecv (count_cancel hresult hzero) ?_
      exact h.over_cancel h.recvs hop hresult
        (fun _ _ hk => isCounted_of_recvKey (by simp [hk])) hwindow hzero
    | false =>
      have hmarker := (h.rows op (List.mem_of_getElem? hop)).marker userData hkind
      have hshard : (w.shard.completeOne c).2.inFlight = w.shard.inFlight := by
        apply IoShard.inFlight_completeOne_marker _ hn
        rw [htoken]
        simpa [isMarker] using hmarker
      apply h.drainPlain hwindow hqueue hop (.inr ⟨hmulti, hrecv⟩)
      intro t
      simp [hshard, charge_eq, hresult]

end Drain

/-- No step spawns a task under a token whose earlier operations are still out, overflows a
counter, unwinds a poll that made a request, or drains a completion that is counted for what it
is not. -/
def Counts (w : TallyWorld) : TallyEvent → Prop
  | .spawn token _ => w.undrained token = 0
  | .endPoll =>
    match w.window with
    | some (token, count) => ∀ n ∈ w.shard.inFlight token, n + count < 2 ^ 16
    | none => True
  | .unwindPoll => ∀ window ∈ w.window, window.2 = 0
  | .drain =>
    match w.queue with
    | (o, c) :: _ => ∀ op ∈ w.ops[o]?, w.Retires op c
    | [] => True
  | _ => True

instance decidableRetires (w : TallyWorld) (op : TallyOp) (c : Completion) :
    Decidable (w.Retires op c) :=
  match hkind : op.kind with
  | .single _ =>
    have := decidable_of_iff (c.token ∉ w.shard.providedRecvs.tokens ∧ (c.bufId = none →
      c.token ∉ w.shard.connects.tokens ∧ c.token ∉ w.shard.accepts.tokens))
      ⟨fun h => ⟨h.1, h.2⟩, fun h : w.shard.Unrecorded c => ⟨h.provided, h.other⟩⟩
    decidable_of_iff (c.isNotif = true ∨ w.shard.inFlight c.token = none ∨ w.shard.Unrecorded c)
      (by rw [Retires, hkind])
  | .accept key =>
    decidable_of_iff (c.hasMore = true ∨
      (w.accepts.slots key.slot).frees < key.occupancy + 2 ^ 16) (by rw [Retires, hkind])
  | .recv key =>
    decidable_of_iff (c.hasMore = true ∨
      (w.recvs.slots key.slot).frees < key.occupancy + 2 ^ 16) (by rw [Retires, hkind])
  | .cancel userData =>
    decidable_of_iff (∀ owner ∈ w.answers userData,
      ∀ n ∈ w.shard.inFlight (.ofNat owner), n = 0) (by rw [Retires, hkind])

instance decidableCounts (w : TallyWorld) : ∀ e, Decidable (w.Counts e)
  | .spawn token _ => inferInstanceAs (Decidable (w.undrained token = 0))
  | .endPoll =>
    match hwindow : w.window with
    | some (token, count) =>
      decidable_of_iff (∀ n ∈ w.shard.inFlight token, n + count < 2 ^ 16)
        (by simp only [Counts, hwindow])
    | none => .isTrue (by simp only [Counts, hwindow])
  | .unwindPoll => inferInstanceAs (Decidable (∀ _ ∈ w.window, _))
  | .drain =>
    match hqueue : w.queue with
    | (o, c) :: _ =>
      decidable_of_iff (∀ op ∈ w.ops[o]?, w.Retires op c) (by simp only [Counts, hqueue])
    | [] => .isTrue (by simp only [Counts, hqueue])
  | .reap _ | .startPoll _ | .submit _ | .startAccept _ | .startRecv _ | .next _
  | .cancelSingle _ _ | .cancelStream _ _ | .post _ _ | .skip => .isTrue trivial

theorem Ledger.drain (h : w.Ledger) (hcounts : w.Counts .drain) : w.drain.Ledger := by
  cases hwindow : w.window with
  | some => simpa [TallyWorld.drain, hwindow] using h
  | none =>
    cases hqueue : w.queue with
    | nil => simpa [TallyWorld.drain, hwindow, hqueue] using h
    | cons e =>
      obtain ⟨o, c⟩ := e
      obtain ⟨op, hop, hq⟩ := h.queued (o, c) (hqueue ▸ List.mem_cons_self)
      have hretires : w.Retires op c := by
        simp only [Counts, hqueue] at hcounts
        exact hcounts op hop
      cases hkind : op.kind with
      | single => exact h.drainSingle hwindow hqueue hop hkind hretires
      | accept => exact h.drainAccept hwindow hqueue hop hkind hretires
      | recv => exact h.drainRecv hwindow hqueue hop hkind hretires
      | cancel => exact h.drainCancel hwindow hqueue hop hkind hretires

theorem Ledger.step (h : w.Ledger) {e : TallyEvent} (hcounts : w.Counts e) : (w.step e).Ledger := by
  cases e with
  | spawn token pip => exact h.spawn pip hcounts
  | reap => exact h.reap
  | startPoll => exact h.startPoll
  | submit kind => exact h.submit kind
  | startAccept isAccepted => exact h.startAccept isAccepted
  | startRecv isAccepted => exact h.startRecv isAccepted
  | endPoll =>
    apply h.endPoll
    intro token count n hwindow hn
    simp only [Counts, hwindow] at hcounts
    exact hcounts n hn
  | unwindPoll => exact h.unwindPoll hcounts
  | next o => exact h.next o
  | cancelSingle key isAccepted => exact h.cancelSingle key isAccepted
  | cancelStream o isAccepted => exact h.cancelStream o isAccepted
  | post o c => exact h.post o c
  | drain => exact h.drain hcounts
  | skip => exact h.skip

theorem Ledger.init (id cap : Nat) : (init id cap).Ledger where
  tokens t ht := by simp [IsLive, IoShard.inFlight, TallyWorld.init, IoWorld.init] at ht
  polled t n hwindow := by cases hwindow
  count t n hn := by simp [IoShard.inFlight, TallyWorld.init, IoWorld.init] at hn
  rows op hop := by cases hop
  queued e he := by cases he
  once := List.Pairwise.nil
  accepts :=
    { slots := .initial _ _ _
      valid := fun _ => rfl
      small := Nat.le_trans (Nat.min_le_right ..) (by decide)
      owned := fun op hop => by cases hop
      runs := fun op hop => by cases hop }
  recvs :=
    { slots := .initial _ _ _
      valid := fun _ hsome => Bool.noConfusion hsome
      small := Nat.le_trans (Nat.min_le_right ..) (by decide)
      owned := fun op hop => by cases hop
      runs := fun op hop => by cases hop }

/-- In every run that meets the condition, the counters are right whenever no poll is in
progress. -/
theorem inFlightOps_eq_undrained (id cap : Nat) (es : List TallyEvent)
    (h : Meets step Counts (init id cap) es) : (run step (init id cap) es).Tallied :=
  (h.invariant (fun _ _ hledger hcounts => hledger.step hcounts) (Ledger.init id cap)).tallied

/-- A zero-copy send and an accept stream, which is cancelled after its last completion. -/
theorem inFlightOps_eq_undrained_streamed :
    (run step (init 0 4)
      [.spawn 1 ⟨0, 1⟩, .startPoll 1, .submit .sendZc, .startAccept true, .endPoll,
        .post 0 ⟨1, 9, .more, none⟩, .drain, .post 1 ⟨encodeMultishotSentinel ⟨0, 0, 0⟩, -24,
          .empty, none⟩,
        .drain, .next 1, .next 1, .cancelStream 1 true,
        .post 2 ⟨encodeMultishotSentinel ⟨0, 0, 0⟩, -2, .empty, none⟩, .drain,
        .post 0 ⟨1, 0, .notif, none⟩, .drain]).Tallied :=
  inFlightOps_eq_undrained 0 4 _ (by decide)

/-- The result of a dropped accept is disposed of and stays on the counter; a stream's cancel
is answered first and takes the stream off it while the stream still runs; a poll that panics
leaves its receive off it. -/
theorem dropped_accept_stays_counted :
    ¬ (run step (init 0 4)
        [.spawn 1 ⟨0, 1⟩, .startPoll 1, .submit .accept, .endPoll,
          .cancelSingle ⟨acceptCancelSlot, 0, 0, 1⟩ true, .post 0 ⟨1, 7, .empty, none⟩,
          .drain]).Tallied ∧
      ¬ (run step (init 0 4)
        [.spawn 1 ⟨0, 1⟩, .startPoll 1, .startAccept true, .endPoll, .cancelStream 0 true,
          .post 1 ⟨encodeMultishotSentinel ⟨0, 0, 0⟩, 0, .empty, none⟩, .drain]).Tallied ∧
      ¬ (run step (init 0 4)
        [.spawn 1 ⟨0, 1⟩, .startPoll 1, .submit .recv, .unwindPoll]).Tallied := by
  refine ⟨?_, ?_, ?_⟩
  all_goals
    intro h
    have heq := h rfl 1 _ rfl
    exact absurd heq (by decide)

end TallyWorld

end Kwokka
