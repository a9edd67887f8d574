import Kwokka.CancelRecords
import Kwokka.Completion
import Kwokka.TaskHeader

/-! The single-shot completion futures. The first poll submits the operation
through the worker's seam; a later poll resolves with whatever completion the
seam captured from the task header. -/

namespace Kwokka

inductive FutureKind
  | recv
  | send
  | sendZc
  | accept
  | connect
  | providedRecv
deriving DecidableEq, Repr

namespace FutureKind

def marker : FutureKind → Option Nat
  | recv | send | sendZc => none
  | accept => some acceptCancelSlot
  | connect => some connectCancelSlot
  | providedRecv => some providedRecvCancelSlot

def isBuffered (kind : FutureKind) : Bool := kind.marker.isNone

theorem marker_lt {kind : FutureKind} {marker : Nat} (h : kind.marker = some marker) :
    marker < 2 ^ 16 := by
  cases kind <;> cases h <;> decide

end FutureKind

inductive SubmitResult
  | submitted
  | queueFull
  | unsupported
deriving DecidableEq, Repr

structure WakeSlot where
  result : Int
  flags : UInt32
  bufId : Option UInt16
deriving DecidableEq, Repr

def wakeSlotOf (wakeData : WakeData) : Option WakeSlot :=
  if wakeData.hasResult then
    some ⟨wakeData.result, wakeData.flags,
      if wakeData.bufId != WakeData.noBuf then some wakeData.bufId else none⟩
  else none

/-- One request handed to the ring. `zeroCopy` marks a `SEND_ZC`, whose first completion may
announce a notification; `key` is the in-flight slot whose bytes the kernel was given. -/
structure Submission where
  userData : UInt64
  zeroCopy : Bool
  key : Option InflightSlotKey
deriving DecidableEq, Repr

/-- What a future reaches during one poll. `driver` is the answer the ring gives to a submit. -/
structure IoSeam where
  workerId : Nat
  wakeSlot : Option WakeSlot
  slab : InflightBufSlab
  driver : SubmitResult
  sendZcSupported : Bool
  submitted : List Submission
deriving DecidableEq, Repr

namespace IoSeam

def completionResult (seam : IoSeam) : Option WakeSlot := seam.wakeSlot

def submit (seam : IoSeam) (request : Submission) : SubmitResult × IoSeam :=
  match seam.driver with
  | .submitted => (.submitted, { seam with submitted := seam.submitted ++ [request] })
  | refusal => (refusal, seam)

def freeSlot (seam : IoSeam) (key : InflightSlotKey) : IoSeam :=
  { seam with slab := seam.slab.free key }

end IoSeam

inductive SubmitOutcome
  | submitted (key : InflightSlotKey)
  | refused
  | unavailable
deriving DecidableEq, Repr

/-- Allocates a slot, stages the bytes and submits; the slot is freed on every other path.
`isStaged` is whether the bytes fit the slot. -/
def submitSlot (seam : IoSeam) (token : UInt64) (isStaged zeroCopy : Bool) :
    SubmitOutcome × IoSeam :=
  match seam.slab.allocate token with
  | none => (.unavailable, seam)
  | some (key, slab) =>
    let seam := { seam with slab }
    if !isStaged then (.unavailable, seam.freeSlot key)
    else
      match seam.submit ⟨token, zeroCopy, some key⟩ with
      | (.submitted, seam) => (.submitted key, seam)
      | (_, seam) => (.refused, seam.freeSlot key)

structure ProvidedBuf where
  bufId : Option UInt16
  len : Nat
deriving DecidableEq, Repr

inductive IoError
  | os (errno : Int)
  | invalidData
  | unsupported
deriving DecidableEq, Repr

inductive Output
  | bytes (result : Except IoError Nat)
  | raw (result : Int)
  | provided (result : Except IoError ProvidedBuf)
deriving DecidableEq

def bytesFromCqe (result : Int) : Except IoError Nat :=
  if result < 0 then .error (.os (-result)) else .ok result.toNat

def resolveProvidedRecv (result : Int) (bufId : Option UInt16) : Except IoError ProvidedBuf :=
  if result < 0 then .error (.os (-result))
  else
    match bufId with
    | some id => .ok ⟨some id, result.toNat⟩
    | none => if result = 0 then .ok ⟨none, 0⟩ else .error .invalidData

def FutureKind.output : FutureKind → WakeSlot → Output
  | recv, slot | send, slot | sendZc, slot => .bytes (bytesFromCqe slot.result)
  | accept, slot | connect, slot => .raw slot.result
  | providedRecv, slot => .provided (resolveProvidedRecv slot.result slot.bufId)

inductive Poll (α : Type*)
  | ready (value : α)
  | pending
deriving DecidableEq

/-- `submitted` is the drop guard: the key whose cancel a drop queues, `some` exactly while the
operation is in flight. `len` is the buffer's capacity or initialized length. The last three
fields belong to `SendZcFuture`. -/
structure IoFuture where
  kind : FutureKind
  len : Nat
  submitted : Option InflightSlotKey
  primary : Option (Except IoError Nat)
  wasZeroCopy : Bool
  hasFallenBack : Bool
deriving DecidableEq

namespace IoFuture

def new (kind : FutureKind) (len : Nat) : IoFuture := ⟨kind, len, none, none, false, false⟩

structure Step where
  poll : Poll Output
  future : IoFuture
  seam : IoSeam
deriving DecidableEq

def resolveSlot (this : IoFuture) (seam : IoSeam) (key : InflightSlotKey) : Step :=
  match seam.completionResult with
  | some slot => ⟨.ready (this.kind.output slot), { this with submitted := none }, seam.freeSlot key⟩
  | none => ⟨.pending, this, seam⟩

def refuse (this : IoFuture) (seam : IoSeam) : Step := ⟨.ready (.bytes (bytesFromCqe (-22))), this, seam⟩

def recvPoll (this : IoFuture) (token : UInt64) (seam : IoSeam) : Step :=
  match this.submitted with
  | some key => this.resolveSlot seam key
  | none =>
    if inflightBufStride < this.len then this.refuse seam
    else
      match submitSlot seam token true false with
      | (.submitted key, seam) => ⟨.pending, { this with submitted := some key }, seam⟩
      | (_, seam) => this.refuse seam

def sendPoll (this : IoFuture) (token : UInt64) (seam : IoSeam) : Step :=
  match this.submitted with
  | some key => this.resolveSlot seam key
  | none =>
    match submitSlot seam token (decide (this.len ≤ inflightBufStride)) false with
    | (.submitted key, seam) => ⟨.pending, { this with submitted := some key }, seam⟩
    | (_, seam) => this.refuse seam

/-- The second half of a zero-copy completion poll: wait until the kernel released the slot. -/
def awaitNotif (this : IoFuture) (seam : IoSeam) (key : InflightSlotKey)
    (primary : Except IoError Nat) : Step :=
  if seam.slab.isNotifReady key then
    ⟨.ready (.bytes primary), { this with submitted := none, primary := none }, seam.freeSlot key⟩
  else ⟨.pending, { this with primary := some primary }, seam⟩

def sendZcResolve (this : IoFuture) (seam : IoSeam) (key : InflightSlotKey) : Step :=
  match this.primary with
  | some primary => this.awaitNotif seam key primary
  | none =>
    match seam.completionResult with
    | none => ⟨.pending, this, seam⟩
    | some slot =>
      if !(CqeFlags.mk slot.flags).contains .more then
        if this.wasZeroCopy && !this.hasFallenBack && slot.result == -22 then
          ⟨.pending, { this with submitted := none, hasFallenBack := true, wasZeroCopy := false },
            seam.freeSlot key⟩
        else ⟨.ready (this.kind.output slot), { this with submitted := none }, seam.freeSlot key⟩
      else this.awaitNotif seam key (bytesFromCqe slot.result)

def sendZcPoll (this : IoFuture) (token : UInt64) (seam : IoSeam) : Step :=
  match this.submitted with
  | some key => this.sendZcResolve seam key
  | none =>
    let isZeroCopy := !this.hasFallenBack && seam.sendZcSupported
    match submitSlot seam token (decide (this.len ≤ inflightBufStride)) isZeroCopy with
    | (.submitted key, seam) =>
      ⟨.pending, { this with submitted := some key, wasZeroCopy := isZeroCopy }, seam⟩
    | (.refused, seam) =>
      if isZeroCopy && !this.hasFallenBack then ⟨.pending, { this with hasFallenBack := true }, seam⟩
      else this.refuse seam
    | (.unavailable, seam) => this.refuse seam

/-- The slotless futures: the drop guard names the task token under a marker slot. -/
def slotlessPoll (this : IoFuture) (marker : Nat) (refusal : SubmitResult → Output)
    (token : UInt64) (seam : IoSeam) : Step :=
  match this.submitted with
  | some _ =>
    match seam.completionResult with
    | some slot => ⟨.ready (this.kind.output slot), { this with submitted := none }, seam⟩
    | none => ⟨.pending, this, seam⟩
  | none =>
    match seam.submit ⟨token, false, none⟩ with
    | (.submitted, seam) =>
      ⟨.pending, { this with submitted := some ⟨marker, 0, seam.workerId, token⟩ }, seam⟩
    | (result, seam) => ⟨.ready (refusal result), this, seam⟩

def acceptPoll (this : IoFuture) : UInt64 → IoSeam → Step :=
  this.slotlessPoll acceptCancelSlot fun _ => .raw (-22)

def connectPoll (this : IoFuture) : UInt64 → IoSeam → Step :=
  this.slotlessPoll connectCancelSlot fun _ => .raw (-22)

def providedRecvPoll (this : IoFuture) : UInt64 → IoSeam → Step :=
  this.slotlessPoll providedRecvCancelSlot fun
    | .unsupported => .provided (.error .unsupported)
    | _ => .provided (.error (.os 22))

def poll (this : IoFuture) : UInt64 → IoSeam → Step :=
  match this.kind with
  | .recv => this.recvPoll
  | .send => this.sendPoll
  | .sendZc => this.sendZcPoll
  | .accept => this.acceptPoll
  | .connect => this.connectPoll
  | .providedRecv => this.providedRecvPoll

inductive PollEffect (this : IoFuture) (token : UInt64) (seam : IoSeam) : Step → Prop
  | refused (poll : Poll Output) (hasFallenBack : Bool) (slab : InflightBufSlab)
      (idle : this.submitted = none)
      (returned : slab = seam.slab ∨ ∃ key slab', seam.slab.allocate token = some (key, slab') ∧
        slab = slab'.free key) :
      PollEffect this token seam ⟨poll, { this with hasFallenBack }, { seam with slab }⟩
  | slot (key : InflightSlotKey) (slab : InflightBufSlab) (zeroCopy wasZeroCopy : Bool)
      (idle : this.submitted = none) (buffered : this.kind.isBuffered = true)
      (zc : zeroCopy = true → this.kind = .sendZc)
      (allocated : seam.slab.allocate token = some (key, slab)) :
      PollEffect this token seam ⟨.pending, { this with submitted := some key, wasZeroCopy },
        { seam with slab, submitted := seam.submitted ++ [⟨token, zeroCopy, some key⟩] }⟩
  | slotless (marker : Nat) (idle : this.submitted = none)
      (marked : this.kind.marker = some marker) :
      PollEffect this token seam
        ⟨.pending, { this with submitted := some ⟨marker, 0, seam.workerId, token⟩ },
          { seam with submitted := seam.submitted ++ [⟨token, false, none⟩] }⟩
  | waiting (key : InflightSlotKey) (primary : Option (Except IoError Nat))
      (inFlight : this.submitted = some key)
      (stash : primary = this.primary ∨ this.kind = .sendZc ∧
        ∃ slot, seam.wakeSlot = some slot ∧ primary = some (bytesFromCqe slot.result)) :
      PollEffect this token seam ⟨.pending, { this with primary }, seam⟩
  | resolved (key : InflightSlotKey) (slot : WakeSlot) (inFlight : this.submitted = some key)
      (captured : seam.wakeSlot = some slot)
      (final : this.kind = .sendZc → (CqeFlags.mk slot.flags).contains .more = false) :
      PollEffect this token seam ⟨.ready (this.kind.output slot), { this with submitted := none },
        if this.kind.isBuffered then seam.freeSlot key else seam⟩
  | released (key : InflightSlotKey) (primary : Except IoError Nat)
      (inFlight : this.submitted = some key) (zc : this.kind = .sendZc)
      (stash : this.primary = some primary ∨
        ∃ slot, seam.wakeSlot = some slot ∧ primary = bytesFromCqe slot.result)
      (ready : seam.slab.isNotifReady key = true) :
      PollEffect this token seam ⟨.ready (.bytes primary),
        { this with submitted := none, primary := none }, seam.freeSlot key⟩
  | fallback (key : InflightSlotKey) (slot : WakeSlot) (inFlight : this.submitted = some key)
      (zc : this.kind = .sendZc) (captured : seam.wakeSlot = some slot)
      (final : (CqeFlags.mk slot.flags).contains .more = false) :
      PollEffect this token seam ⟨.pending,
        { this with submitted := none, hasFallenBack := true, wasZeroCopy := false },
        seam.freeSlot key⟩

section Effects

variable {this : IoFuture} {token : UInt64} {seam : IoSeam}

theorem submitSlot_cases (seam : IoSeam) (token : UInt64) (isStaged zeroCopy : Bool) :
    (∃ key slab, seam.slab.allocate token = some (key, slab) ∧
        submitSlot seam token isStaged zeroCopy = (.submitted key,
          { seam with slab, submitted := seam.submitted ++ [⟨token, zeroCopy, some key⟩] })) ∨
      ∃ outcome slab, (∀ key, outcome ≠ .submitted key) ∧
        (slab = seam.slab ∨ ∃ key slab', seam.slab.allocate token = some (key, slab') ∧
          slab = slab'.free key) ∧
        submitSlot seam token isStaged zeroCopy = (outcome, { seam with slab }) := by
  unfold submitSlot
  cases h : seam.slab.allocate token with
  | none => exact .inr ⟨.unavailable, seam.slab, by simp, .inl rfl, rfl⟩
  | some allocated =>
    obtain ⟨key, slab⟩ := allocated
    have hback : slab.free key = seam.slab ∨ ∃ key' slab',
        some (key, slab) = some (key', slab') ∧ slab.free key = slab'.free key' :=
      .inr ⟨key, slab, rfl, rfl⟩
    cases isStaged with
    | false => exact .inr ⟨.unavailable, slab.free key, by simp, hback, rfl⟩
    | true =>
      cases hd : seam.driver with
      | submitted => exact .inl ⟨key, slab, rfl, by simp [IoSeam.submit]⟩
      | _ =>
        exact .inr ⟨.refused, slab.free key, by simp, hback, by simp [IoSeam.submit, IoSeam.freeSlot]⟩

theorem resolveSlot_effect {key : InflightSlotKey} (h : this.submitted = some key)
    (hk : this.kind.isBuffered = true) (hzc : this.kind ≠ .sendZc) :
    PollEffect this token seam (this.resolveSlot seam key) := by
  unfold resolveSlot IoSeam.completionResult
  cases hw : seam.wakeSlot with
  | none => exact .waiting key this.primary h (.inl rfl)
  | some slot =>
    have hstep : PollEffect this token seam _ := .resolved key slot h hw fun hz => absurd hz hzc
    rwa [if_pos hk] at hstep

theorem refuse_effect (h : this.submitted = none) {slab : InflightBufSlab}
    (returned : slab = seam.slab ∨ ∃ key slab', seam.slab.allocate token = some (key, slab') ∧
      slab = slab'.free key) : PollEffect this token seam (this.refuse { seam with slab }) :=
  .refused _ this.hasFallenBack slab h returned

theorem recvPoll_effect (hk : this.kind = .recv) :
    PollEffect this token seam (this.recvPoll token seam) := by
  unfold recvPoll
  cases h : this.submitted with
  | some => exact resolveSlot_effect h (by rw [hk]; rfl) (by simp [hk])
  | none =>
    dsimp only
    split
    · exact refuse_effect h (.inl rfl)
    · rcases submitSlot_cases seam token true false with
        ⟨key, slab, halloc, heq⟩ | ⟨outcome, slab, hne, hback, heq⟩
      · rw [heq]
        exact .slot key slab false this.wasZeroCopy h (by rw [hk]; rfl) (by simp) halloc
      · rw [heq]
        cases outcome with
        | submitted key => exact absurd rfl (hne key)
        | _ => exact refuse_effect h hback

theorem sendPoll_effect (hk : this.kind = .send) :
    PollEffect this token seam (this.sendPoll token seam) := by
  unfold sendPoll
  cases h : this.submitted with
  | some => exact resolveSlot_effect h (by rw [hk]; rfl) (by simp [hk])
  | none =>
    rcases submitSlot_cases seam token
      (decide (this.len ≤ inflightBufStride)) false with
      ⟨key, slab, halloc, heq⟩ | ⟨outcome, slab, hne, hback, heq⟩
    · simp only [heq]
      exact .slot key slab false this.wasZeroCopy h (by rw [hk]; rfl) (by simp) halloc
    · simp only [heq]
      cases outcome with
      | submitted key => exact absurd rfl (hne key)
      | _ => exact refuse_effect h hback

theorem awaitNotif_effect {key : InflightSlotKey} {primary : Except IoError Nat}
    (h : this.submitted = some key) (hk : this.kind = .sendZc)
    (hstash : this.primary = some primary ∨
      ∃ slot, seam.wakeSlot = some slot ∧ primary = bytesFromCqe slot.result) :
    PollEffect this token seam (this.awaitNotif seam key primary) := by
  unfold awaitNotif
  split
  · next hready => exact .released key primary h hk hstash hready
  · refine .waiting key (some primary) h ?_
    rcases hstash with hp | ⟨slot, hw, hp⟩
    · exact .inl hp.symm
    · exact .inr ⟨hk, slot, hw, by rw [hp]⟩

theorem sendZcResolve_effect {key : InflightSlotKey} (h : this.submitted = some key)
    (hk : this.kind = .sendZc) : PollEffect this token seam (this.sendZcResolve seam key) := by
  unfold sendZcResolve IoSeam.completionResult
  cases hp : this.primary with
  | some => exact awaitNotif_effect h hk (.inl hp)
  | none =>
    cases hw : seam.wakeSlot with
    | none => exact .waiting key this.primary h (.inl rfl)
    | some slot =>
      dsimp only
      split
      · next hmore =>
        have hfinal : (CqeFlags.mk slot.flags).contains .more = false := by simpa using hmore
        split
        · have hstep : PollEffect this token seam _ := .fallback key slot h hk hw hfinal
          rwa [hp] at hstep
        · have hstep : PollEffect this token seam _ := .resolved key slot h hw fun _ => hfinal
          rwa [if_pos (by rw [hk]; rfl), hp] at hstep
      · exact awaitNotif_effect h hk (.inr ⟨slot, hw, rfl⟩)

theorem sendZcPoll_effect (hk : this.kind = .sendZc) :
    PollEffect this token seam (this.sendZcPoll token seam) := by
  unfold sendZcPoll
  cases h : this.submitted with
  | some => exact sendZcResolve_effect h hk
  | none =>
    rcases submitSlot_cases seam token
      (decide (this.len ≤ inflightBufStride)) (!this.hasFallenBack && seam.sendZcSupported) with
      ⟨key, slab, halloc, heq⟩ | ⟨outcome, slab, hne, hback, heq⟩
    · simp only [heq]
      exact .slot key slab _ _ h (by rw [hk]; rfl) (fun _ => hk) halloc
    · simp only [heq]
      cases outcome with
      | submitted key => exact absurd rfl (hne key)
      | unavailable => exact refuse_effect h hback
      | refused =>
        dsimp only
        split
        · have hstep : PollEffect this token seam _ := .refused .pending true slab h hback
          rwa [h] at hstep
        · exact refuse_effect h hback

theorem slotlessPoll_effect {marker : Nat} {refusal : SubmitResult → Output}
    (hk : this.kind.marker = some marker) :
    PollEffect this token seam (this.slotlessPoll marker refusal token seam) := by
  have hbuf : this.kind.isBuffered = false := by simp [FutureKind.isBuffered, hk]
  unfold slotlessPoll IoSeam.completionResult
  cases h : this.submitted with
  | some key =>
    cases hw : seam.wakeSlot with
    | none => exact .waiting key this.primary h (.inl rfl)
    | some slot =>
      have hzc : this.kind ≠ .sendZc := by
        intro hz
        simp [hz, FutureKind.marker] at hk
      have hstep : PollEffect this token seam _ := .resolved key slot h hw fun hz => absurd hz hzc
      rwa [if_neg (by simp [hbuf])] at hstep
  | none =>
    cases hd : seam.driver with
    | submitted =>
      simp only [IoSeam.submit, hd]
      exact hd ▸ PollEffect.slotless marker h hk
    | queueFull =>
      simp only [IoSeam.submit, hd]
      exact .refused (.ready (refusal .queueFull)) this.hasFallenBack seam.slab h (.inl rfl)
    | unsupported =>
      simp only [IoSeam.submit, hd]
      exact .refused (.ready (refusal .unsupported)) this.hasFallenBack seam.slab h (.inl rfl)

theorem poll_effect (this : IoFuture) (token : UInt64) (seam : IoSeam) :
    PollEffect this token seam (this.poll token seam) := by
  unfold poll
  cases hk : this.kind with
  | recv => exact recvPoll_effect hk
  | send => exact sendPoll_effect hk
  | sendZc => exact sendZcPoll_effect hk
  | _ => exact slotlessPoll_effect (by rw [hk]; rfl)

theorem PollEffect.submitted_cases {step : Step} (h : PollEffect this token seam step)
    (hseam : seam.submitted = []) : step.seam.submitted = [] ∨
      this.submitted = none ∧ ∃ submission, step.seam.submitted = [submission] ∧
        submission.userData = token := by
  cases h with
  | slot key slab zeroCopy wasZeroCopy idle =>
    exact .inr ⟨idle, ⟨token, zeroCopy, some key⟩, by simp [hseam], rfl⟩
  | slotless marker idle => exact .inr ⟨idle, ⟨token, false, none⟩, by simp [hseam], rfl⟩
  | resolved =>
    left
    split
    · exact hseam
    · exact hseam
  | _ => exact .inl hseam

end Effects

end IoFuture

end Kwokka
