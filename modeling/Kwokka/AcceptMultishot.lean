import Kwokka.MultishotStock

/-! Multishot accept. A nonnegative result is a descriptor the kernel created for
this process, so each one has to reach a consumer or be closed. -/

namespace Kwokka

open MultishotRegistry

/-- An accept status. `descriptor` numbers the descriptor the kernel created with it; the
worker sees `result` only. -/
structure AcceptResult where
  result : Int
  descriptor : Option Nat
deriving DecidableEq, Repr

inductive MultishotPush where
  | queued
  | overflowed
  | stale
deriving DecidableEq, Repr

namespace MultishotSlab

variable (r : MultishotRegistry AcceptResult)

def push (slot generationLow16 : Nat) (v : AcceptResult) (isMore : Bool) :
    MultishotPush × MultishotRegistry AcceptResult :=
  if r.isSlotLive slot generationLow16 then
    let s := { r.slots slot with isTerminated := (r.slots slot).isTerminated || !isMore }
    if multishotFifoDepth ≤ s.fifo.length then (.overflowed, r.set slot s)
    else (.queued, r.set slot { s with fifo := s.fifo ++ [v] })
  else (.stale, r)

end MultishotSlab

def pushMultishotCompletion (r : MultishotRegistry AcceptResult) (userData : UInt64)
    (v : AcceptResult) (isMore : Bool) : MultishotCompletion AcceptResult :=
  let slot := multishotSentinelSlot userData
  let generation := multishotSentinelGeneration userData
  let owner := r.owner slot generation
  let retire := if isMore then none else owner
  if r.isCancelPending slot generation then
    -- the stream is gone: an intermediate result is closed, the last one frees the slot
    if isMore then ⟨r, none, retire, [v]⟩ else ⟨r.freeBySlot slot generation, none, retire, []⟩
  else
    match MultishotSlab.push r slot generation v isMore with
    | (.queued, r') => ⟨r', owner, retire, []⟩
    | (.overflowed, r') | (.stale, r') => ⟨r', none, retire, if isMore then [v] else []⟩

def submitMultishotCancel (r : MultishotRegistry AcceptResult) (key : MultishotKey) :
    MultishotCancel AcceptResult :=
  let popped := r.popAll key (r.slots key.slot).fifo.length
  ⟨popped.2.markCancelPending key, true, popped.1⟩

def multishotNext (r : MultishotRegistry AcceptResult) (key : MultishotKey) :
    MultishotNext AcceptResult × MultishotRegistry AcceptResult :=
  match r.pop key with
  | some (v, r') => (.item v, r')
  | none => if r.isTerminated key then (.ended, r.free key) else (.pending, r)

def acceptProtocol : MultishotProtocol AcceptResult where
  encode := encodeMultishotSentinel
  routes := isMultishotSentinel
  pushCompletion := pushMultishotCompletion
  submitCancel := submitMultishotCancel
  next := multishotNext
  inboxCapacity := cancelInboxCapacity
  isInboxShared := true

section Laws

variable {r : MultishotRegistry AcceptResult} {key : MultishotKey}

theorem contents_of_terminal {s : MultishotSlot AcceptResult} (h : s.terminal = none) :
    s.contents = s.fifo := by
  simp [MultishotSlot.contents, h]

def acceptDiscard (v : AcceptResult) (isMore : Bool) : List AcceptResult := if isMore then [v] else []

theorem pushMultishotCompletion_effect (hvalid : ∀ i, (r.slots i).terminal = none)
    (userData : UInt64) (v : AcceptResult) (isMore : Bool) :
    PushEffect (fun s => s.terminal = none) id acceptDiscard r (multishotSentinelSlot userData)
      (multishotSentinelGeneration userData) v isMore
      (pushMultishotCompletion r userData v isMore) := by
  unfold pushMultishotCompletion
  generalize multishotSentinelSlot userData = slot
  generalize multishotSentinelGeneration userData = generation
  cases hlive : r.isSlotLive slot generation with
  | false =>
    apply PushEffect.stale hlive <;>
      simp [isCancelPending, owner, MultishotSlab.push, hlive,
        acceptDiscard]
  | true =>
    cases hpending : (r.slots slot).isCancelPending with
    | true =>
      apply PushEffect.cancelled hlive hpending <;> cases isMore <;>
        simp [isCancelPending, owner,
          freeBySlot, hlive, hpending, acceptDiscard]
    | false =>
      by_cases hfull : multishotFifoDepth ≤ (r.slots slot).fifo.length
      · apply PushEffect.overflowed hlive hpending hfull <;> cases isMore <;>
          simp [isCancelPending, owner, MultishotSlab.push,
            hlive, hpending, hfull, acceptDiscard]
      · have hterminal := hvalid slot
        apply PushEffect.queued
          { r.slots slot with
            isTerminated := (r.slots slot).isTerminated || !isMore
            fifo := (r.slots slot).fifo ++ [v] } hlive hpending hterminal ⟨rfl, rfl, rfl, rfl⟩ rfl
        · intro u hu
          simpa [MultishotSlot.contents, hterminal, or_comm] using hu
        · simp [MultishotSlot.contents, hterminal]
        all_goals
          simp [isCancelPending, owner, MultishotSlab.push,
            hlive, hpending, hfull]

theorem submitMultishotCancel_effect (hvalid : ∀ i, (r.slots i).terminal = none) :
    CancelEffect (fun s => s.terminal = none) r key (submitMultishotCancel r key) := by
  unfold submitMultishotCancel
  cases hlive : r.isLive key with
  | false =>
    rw [popAll_stale hlive]
    apply CancelEffect.stale hlive <;> simp [markCancelPending, hlive]
  | true =>
    have hterminal := hvalid key.slot
    have hframe : (r.slots key.slot).SameFrame { r.slots key.slot with fifo := [] } :=
      ⟨rfl, rfl, rfl, rfl⟩
    have hlive' := (isLive_set_frame hframe).trans hlive
    rw [popAll_live hlive (Nat.le_refl _)]
    apply CancelEffect.marked
      { r.slots key.slot with fifo := [], isCancelPending := true } hlive hterminal
    · exact (isLive_iff.mp hlive).2.2.1
    · rfl
    · rfl
    · rfl
    · simp [MultishotSlot.contents, hterminal]
    · simp [markCancelPending, hlive']
    · rfl
    · rw [contents_of_terminal hterminal]

theorem multishotNext_effect (hvalid : ∀ i, (r.slots i).terminal = none) :
    NextEffect (fun s => s.terminal = none) r key (multishotNext r key) := by
  unfold multishotNext
  have hterminal := hvalid key.slot
  have hcontents := contents_of_terminal hterminal
  cases hlive : r.isLive key with
  | false =>
    simp only [pop, isTerminated, hlive, Bool.false_and,
      Bool.false_eq_true, if_false]
    exact .stale hlive
  | true =>
    cases hfifo : (r.slots key.slot).fifo with
    | cons v =>
      simp only [pop, hlive, if_true, hfifo]
      refine .item v _ hlive hterminal ⟨rfl, rfl, rfl, rfl⟩ rfl ?_
      simp [MultishotSlot.contents, hterminal, hfifo]
    | nil =>
      rw [hfifo] at hcontents
      cases hterm : (r.slots key.slot).isTerminated with
      | true =>
        simp only [pop, isTerminated, free,
          hlive, hterm, if_true, hfifo, Bool.and_self]
        exact .ended hlive hterm hcontents
      | false =>
        simp only [pop, isTerminated, hlive, hterm, if_true,
          hfifo, Bool.and_false, Bool.false_eq_true, if_false]
        exact .waiting hlive hterm hcontents

theorem acceptProtocol_lawful :
    acceptProtocol.Lawful multishotTokenBase (fun s => s.terminal = none) id acceptDiscard where
  marker _ hslot := isMarkerOf_encodeMultishotSentinel hslot
  routes _ hhigh := by simp [acceptProtocol, isMultishotSentinel, hhigh]
  opened _ _ := rfl
  freed _ := rfl
  ended _ _ h := h
  push _ userData v isMore hvalid := pushMultishotCompletion_effect hvalid userData v isMore
  cancel _ _ hvalid := submitMultishotCancel_effect hvalid
  next _ _ hvalid := multishotNext_effect hvalid

end Laws

/-- The worker with the descriptors the kernel created so far, numbered in order: those handed
to a consumer and those closed. `none` stands for a number that is no such descriptor. -/
structure AcceptWorld where
  core : MultishotWorld AcceptResult
  reported : Nat
  accepted : List (Option Nat)
  closed : List (Option Nat)

/-- `adopt_accepted_fd` over a list of results: a nonnegative one is taken for a descriptor. -/
def adoptAcceptedFds (vs : List AcceptResult) : List (Option Nat) :=
  (vs.filter fun v => decide (0 ≤ v.result)).map AcceptResult.descriptor

namespace AcceptWorld

def initial (workerId cap : Nat) : AcceptWorld :=
  ⟨.initial (.new workerId cap defaultMultishotCap), 0, [], []⟩

/-- What the kernel does: a nonnegative status of an accept brings a fresh descriptor, a
cancel's own completion carries zero or an errno. -/
def isPossible (w : AcceptWorld) : MultishotEvent AcceptResult → Bool
  | .post _ v _ => v.descriptor == if 0 ≤ v.result then some w.reported else none
  | .postCancel _ v => v.descriptor.isNone && decide (v.result ≤ 0)
  | _ => true

def reports (w : AcceptWorld) : MultishotEvent AcceptResult → Nat
  | .post key v _ =>
    if key ∈ w.core.issued ∧ (w.core.ops key).isFinal = false ∧ 0 ≤ v.result then 1 else 0
  | _ => 0

def step (w : AcceptWorld) (e : MultishotEvent AcceptResult) : AcceptWorld :=
  if w.isPossible e then
    { core := w.core.step acceptProtocol e
      reported := w.reported + w.reports e
      accepted := w.accepted ++ adoptAcceptedFds (w.core.yielded acceptProtocol e)
      closed := w.closed ++ adoptAcceptedFds (w.core.released acceptProtocol e) }
  else w

/-- The step neither reads past its batch, nor drops a stream into a full inbox, nor drains a
last completion with a descriptor whose slot is freed, being cancelled or full; and the slot
of a drained completion was not reused `2 ^ 16` times. -/
def Disposes (w : AcceptWorld) : MultishotEvent AcceptResult → Prop
  | .read own isOwnSkipped => w.core.skipped own isOwnSkipped = none
  | .drop j => w.core.HasRoom acceptProtocol (.drop j)
  | .complete =>
    match w.core.batch with
    | [] => True
    | e :: _ =>
      (w.core.registry.slots e.key.slot).frees < e.key.occupancy + 2 ^ 16 ∧
        (e.isMore = false → e.value.descriptor.isSome = true →
          w.core.registry.isSlotLive e.key.slot (e.key.occupancy % 2 ^ 16) = true ∧
            (w.core.registry.slots e.key.slot).isCancelPending = false ∧
              (w.core.registry.slots e.key.slot).fifo.length < multishotFifoDepth)
  | _ => True

def mark (d : Nat) (v : AcceptResult) : Nat := if v.descriptor = some d then 1 else 0

/-- How often descriptor `d` is waiting in the completion queue or a slot, was handed out and
was closed, taken together. -/
def places (w : AcceptWorld) (d : Nat) : Nat :=
  w.core.carried (mark d) + w.accepted.count (some d) + w.closed.count (some d)

/-- Every descriptor the kernel reported is in one place; what was handed out or closed is one
of them; a queue is waited for by its stream or by a cancel record; and once nothing is left
to drain or to read, each descriptor was handed out or closed, once. -/
structure Accounted (w : AcceptWorld) : Prop where
  once : ∀ d < w.reported, w.places d = 1
  genuine : ∀ x ∈ w.accepted ++ w.closed, ∃ d < w.reported, x = some d
  claimed : ∀ i, (w.core.registry.slots i).contents ≠ [] → ∃ k, k.slot = i ∧
    ((∃ j, (w.core.streams j).state = .multishot k) ∨ some k ∈ w.core.inbox)
  settled : w.core.entries = [] → w.core.inbox = [] →
    (∀ j k, (w.core.streams j).state ≠ .multishot k) →
    ∀ d < w.reported, w.accepted.count (some d) + w.closed.count (some d) = 1

end AcceptWorld

end Kwokka
