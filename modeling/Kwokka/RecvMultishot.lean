import Kwokka.IoFuture
import Kwokka.MultishotStock

/-! Multishot recv. A completion names a provided buffer the kernel selected, and
whoever ends up with the completion owns the buffer until it is recycled to the
ring. -/

namespace Kwokka

def noBuffer : Nat := 2 ^ 16 - 1

/-- A byte count or negative errno, and the buffer the completion consumed. -/
structure RecvResult where
  result : Int
  bufId : Option Nat
deriving DecidableEq, Repr

/-- A queued id is a `u16` in which `noBuffer` reads back as none. -/
def RecvResult.stored (v : RecvResult) : RecvResult :=
  { v with bufId := v.bufId.filter (· != noBuffer) }

inductive RecvMultishotPush where
  | queued
  | terminal
  | overflowed
  | stale
deriving DecidableEq, Repr

namespace RecvMultishotSlab

variable (r : MultishotRegistry RecvResult)

def push (slot generationLow16 : Nat) (v : RecvResult) (isMore : Bool) :
    RecvMultishotPush × MultishotRegistry RecvResult :=
  if r.isSlotLive slot generationLow16 then
    if isMore then
      if multishotFifoDepth ≤ (r.slots slot).fifo.length then (.overflowed, r)
      else (.queued, r.set slot { r.slots slot with fifo := (r.slots slot).fifo ++ [v] })
    else (.terminal, r.set slot { r.slots slot with isTerminated := true, terminal := some v })
  else (.stale, r)

end RecvMultishotSlab

def pushRecvMultishotCompletion (r : MultishotRegistry RecvResult) (userData : UInt64)
    (v : RecvResult) (isMore : Bool) : MultishotCompletion RecvResult :=
  let slot := multishotSentinelSlot userData
  let generation := multishotSentinelGeneration userData
  let owner := r.owner slot generation
  let retire := if isMore then none else owner
  if r.isCancelPending slot generation then
    -- the stream is gone: the buffer goes back on every completion
    { registry := if isMore then r else r.freeBySlot slot generation
      wake := none
      retire
      released := [v] }
  else
    match RecvMultishotSlab.push r slot generation v.stored isMore with
    | (.queued, r') | (.terminal, r') => ⟨r', owner, retire, []⟩
    | (.overflowed, r') | (.stale, r') => ⟨r', none, retire, [v]⟩

def submitRecvMultishotCancel (r : MultishotRegistry RecvResult) (key : MultishotKey) :
    MultishotCancel RecvResult :=
  let popped := r.popAll key (r.slots key.slot).fifo.length
  let stash := popped.2.takeStash key
  -- a terminated operation posts nothing that could still free the slot
  if stash.2.isTerminated key then ⟨stash.2.free key, false, popped.1 ++ stash.1⟩
  else ⟨stash.2.markCancelPending key, true, popped.1 ++ stash.1⟩

def recvMultishotNext (r : MultishotRegistry RecvResult) (key : MultishotKey) :
    MultishotNext RecvResult × MultishotRegistry RecvResult :=
  match r.pop key with
  | some (v, r') => (.item v, r')
  | none =>
    match r.takeTerminal key with
    | some (v, r') => (.item v, r')
    | none => if r.isTerminated key then (.ended, r.free key) else (.pending, r)

def recvCancelInboxCapacity : Nat := defaultRecvMultishotCap

def recvProtocol : MultishotProtocol RecvResult where
  encode := encodeRecvMultishotSentinel
  routes := isRecvMultishotSentinel
  pushCompletion := pushRecvMultishotCompletion
  submitCancel := submitRecvMultishotCancel
  next := recvMultishotNext
  inboxCapacity := recvCancelInboxCapacity
  isInboxShared := false

section Laws

open MultishotRegistry

variable {r : MultishotRegistry RecvResult} {key : MultishotKey}

def StashesLast (s : MultishotSlot RecvResult) : Prop :=
  s.terminal.isSome = true → s.isTerminated = true

def recvDiscard (v : RecvResult) (_isMore : Bool) : List RecvResult := [v]

theorem pushRecvMultishotCompletion_effect (hvalid : ∀ i, StashesLast (r.slots i))
    (userData : UInt64) (v : RecvResult) (isMore : Bool) :
    PushEffect StashesLast RecvResult.stored recvDiscard r (multishotSentinelSlot userData)
      (multishotSentinelGeneration userData) v isMore
      (pushRecvMultishotCompletion r userData v isMore) := by
  unfold pushRecvMultishotCompletion
  generalize multishotSentinelSlot userData = slot
  generalize multishotSentinelGeneration userData = generation
  cases hlive : r.isSlotLive slot generation with
  | false =>
    apply PushEffect.stale hlive <;>
      simp [isCancelPending, owner, RecvMultishotSlab.push, hlive, recvDiscard]
  | true =>
    cases hpending : (r.slots slot).isCancelPending with
    | true =>
      apply PushEffect.cancelled hlive hpending <;> cases isMore <;>
        simp [isCancelPending, owner, freeBySlot, hlive, hpending, recvDiscard]
    | false =>
      cases isMore with
      | true =>
        by_cases hfull : multishotFifoDepth ≤ (r.slots slot).fifo.length
        · have hself : { r.slots slot with isTerminated := (r.slots slot).isTerminated || !true } =
              r.slots slot := by simp only [Bool.not_true, Bool.or_false]
          apply PushEffect.overflowed hlive hpending hfull
          · rw [hself, set_same]
            simp [isCancelPending, RecvMultishotSlab.push, hlive, hpending, hfull]
          all_goals
            simp [isCancelPending, RecvMultishotSlab.push, hlive, hpending, hfull, recvDiscard]
        · apply PushEffect.queued
            { r.slots slot with fifo := (r.slots slot).fifo ++ [v.stored] } hlive hpending
            (hvalid slot) ⟨rfl, rfl, rfl, rfl⟩ (by simp)
          · intro u hu
            simp only [MultishotSlot.contents, List.mem_append, List.mem_singleton] at hu ⊢
            tauto
          · intro hnone
            simp [MultishotSlot.contents, hnone]
          all_goals
            simp [isCancelPending, owner, RecvMultishotSlab.push, hlive, hpending, hfull]
      | false =>
        apply PushEffect.queued
          { r.slots slot with isTerminated := true, terminal := some v.stored } hlive hpending
          (fun _ => rfl) ⟨rfl, rfl, rfl, rfl⟩ (by simp)
        · intro u hu
          simp only [MultishotSlot.contents, List.mem_append, Option.mem_toList] at hu ⊢
          rcases hu with hu | hu
          · exact .inr (.inl hu)
          · injection hu with hu
            exact .inl hu.symm
        · intro hnone
          simp [MultishotSlot.contents, hnone]
        all_goals simp [isCancelPending, owner, RecvMultishotSlab.push, hlive, hpending]

theorem submitRecvMultishotCancel_live (hlive : r.isLive key = true) :
    submitRecvMultishotCancel r key =
      let s := { r.slots key.slot with fifo := [], terminal := none }
      if (r.slots key.slot).isTerminated then
        ⟨r.set key.slot s.freed, false, (r.slots key.slot).contents⟩
      else
        ⟨r.set key.slot { s with isCancelPending := true }, true,
          (r.slots key.slot).contents⟩ := by
  have hpop : (r.slots key.slot).SameFrame { r.slots key.slot with fifo := [] } :=
    ⟨rfl, rfl, rfl, rfl⟩
  have hlive₁ := (isLive_set_frame hpop).trans hlive
  unfold submitRecvMultishotCancel
  rw [popAll_live hlive (Nat.le_refl _)]
  simp only [takeStash_live hlive₁, set_set, set_slots_self]
  obtain ⟨s, hs⟩ : ∃ s : MultishotSlot RecvResult,
      s = { r.slots key.slot with fifo := [], terminal := none } := ⟨_, rfl⟩
  have hframe : (r.slots key.slot).SameFrame s := hs ▸ ⟨rfl, rfl, rfl, rfl⟩
  have hterm : s.isTerminated = (r.slots key.slot).isTerminated := hs ▸ rfl
  have hlive₂ := (isLive_set_frame hframe).trans hlive
  rw [← hs, isTerminated, hlive₂, set_slots_self, hterm, Bool.true_and, free, markCancelPending,
    if_pos hlive₂, if_pos hlive₂, set_slots_self, set_set, set_set]
  subst hs
  rfl

theorem submitRecvMultishotCancel_effect :
    CancelEffect StashesLast r key (submitRecvMultishotCancel r key) := by
  cases hlive : r.isLive key with
  | false =>
    have hout : submitRecvMultishotCancel r key = ⟨r, true, []⟩ := by
      simp [submitRecvMultishotCancel, popAll_stale hlive, takeStash_stale hlive, isTerminated,
        markCancelPending, hlive]
    rw [hout]
    exact .stale hlive rfl rfl rfl
  | true =>
    rw [submitRecvMultishotCancel_live hlive]
    cases hterm : (r.slots key.slot).isTerminated with
    | true => exact .freed hlive hterm rfl rfl rfl
    | false =>
      have hoccupied := (isLive_iff.mp hlive).2.2.1
      have hstash : StashesLast
          { r.slots key.slot with fifo := [], terminal := none, isCancelPending := true } :=
        fun hsome => Bool.noConfusion hsome
      exact .marked _ hlive hstash hoccupied rfl rfl rfl rfl rfl rfl rfl

theorem recvMultishotNext_effect (hvalid : ∀ i, StashesLast (r.slots i)) :
    NextEffect StashesLast r key (recvMultishotNext r key) := by
  unfold recvMultishotNext
  cases hlive : r.isLive key with
  | false =>
    simp only [pop, takeTerminal, isTerminated, hlive, Bool.false_and, Bool.false_eq_true,
      if_false]
    exact .stale hlive
  | true =>
    cases hfifo : (r.slots key.slot).fifo with
    | cons v =>
      simp only [pop, hlive, if_true, hfifo]
      refine .item v _ hlive (hvalid key.slot) ⟨rfl, rfl, rfl, rfl⟩ rfl ?_
      simp [MultishotSlot.contents, hfifo]
    | nil =>
      cases hterminal : (r.slots key.slot).terminal with
      | some v =>
        simp only [pop, takeTerminal, hlive, if_true, hfifo, hterminal]
        refine .item v _ hlive (fun hsome => by simp at hsome) ⟨rfl, rfl, rfl, rfl⟩ rfl ?_
        simp [MultishotSlot.contents, hfifo, hterminal]
      | none =>
        have hempty : (r.slots key.slot).contents = [] := by
          simp [MultishotSlot.contents, hfifo, hterminal]
        cases hterm : (r.slots key.slot).isTerminated with
        | true =>
          simp only [pop, takeTerminal, isTerminated, free, hlive, hterm, if_true, hfifo,
            hterminal, Bool.and_self]
          exact .ended hlive hterm hempty
        | false =>
          simp only [pop, takeTerminal, isTerminated, hlive, hterm, if_true, hfifo, hterminal,
            Bool.and_false, Bool.false_eq_true, if_false]
          exact .waiting hlive hterm hempty

theorem recvProtocol_lawful :
    recvProtocol.Lawful recvMultishotTokenBase StashesLast RecvResult.stored recvDiscard where
  marker _ hslot := isMarkerOf_encodeRecvMultishotSentinel hslot
  routes _ hhigh := by simp [recvProtocol, isRecvMultishotSentinel, hhigh]
  opened _ _ hsome := by simp [MultishotSlot.opened] at hsome
  freed _ hsome := by simp [MultishotSlot.freed] at hsome
  ended _ _ h hsome := by simp [h hsome]
  push _ userData v isMore hvalid := pushRecvMultishotCompletion_effect hvalid userData v isMore
  cancel _ _ _ := submitRecvMultishotCancel_effect
  next _ _ hvalid := recvMultishotNext_effect hvalid

end Laws

def RecvResult.item (v : RecvResult) : Except IoError ProvidedBuf :=
  resolveProvidedRecv v.result (v.bufId.map UInt16.ofNat)

def itemBufId : Except IoError ProvidedBuf → Option Nat
  | .ok buf => buf.bufId.map UInt16.toNat
  | .error _ => none

/-- A worker with its provided buffers: `ring` are the ids the kernel may select, `views` those
of the live `ProvidedBuf`s. `selected` and `recycled` are history. -/
structure RecvWorld where
  core : MultishotWorld RecvResult
  entries : Nat
  ring : List Nat
  views : List Nat
  selected : List Nat
  recycled : List Nat

inductive RecvEvent where
  | stream (e : MultishotEvent RecvResult)
  | dropView (id : Nat)
deriving DecidableEq, Repr

namespace RecvWorld

def initial (workerId cap entries : Nat) : RecvWorld :=
  { core := .initial (.new workerId cap defaultRecvMultishotCap)
    entries
    ring := List.range entries
    views := []
    selected := []
    recycled := [] }

variable (w : RecvWorld)

/-- What the kernel does: it selects a buffer from the ring for a nonnegative result only, and
a cancel's own completion carries a status and no buffer. -/
def isPossible : MultishotEvent RecvResult → Bool
  | .post _ v _ => v.bufId.all fun id => decide (id ∈ w.ring) && decide (0 ≤ v.result)
  | .postCancel _ v => v.bufId.isNone && decide (v.result ≤ 0)
  | _ => true

def selects : MultishotEvent RecvResult → List Nat
  | .post key v _ =>
    if key ∈ w.core.issued ∧ (w.core.ops key).isFinal = false then v.bufId.toList else []
  | _ => []

def recycle (ids : List Nat) : RecvWorld :=
  { w with
    ring := w.ring ++ ids
    recycled := w.recycled ++ ids }

def step (w : RecvWorld) : RecvEvent → RecvWorld
  | .stream e =>
    if w.isPossible e then
      let yielded := (w.core.yielded recvProtocol e).map RecvResult.item
      let chosen : RecvWorld :=
        { w with
          core := w.core.step recvProtocol e
          ring := w.ring.diff (w.selects e)
          views := w.views ++ yielded.filterMap itemBufId
          selected := w.selected ++ w.selects e }
      chosen.recycle ((w.core.released recvProtocol e).filterMap RecvResult.bufId)
    else w
  | .dropView id =>
    if id ∈ w.views ∧ w.core.batch.isEmpty then
      ({ w with views := w.views.erase id } : RecvWorld).recycle [id]
    else w

end RecvWorld

end Kwokka
