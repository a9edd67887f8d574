import Kwokka.Bytes
import Kwokka.Outcome

/-! The wire nodes of the pipeline IR: word and record readers, and the fixed-layout
entries a `ConductorSpec` body is made of. Offsets are 64-bit; a failing read is an
error, never an abort. -/

namespace Kwokka.Ir

open Bytes Outcome

inductive IrError where
  | badMagic
  | unsupportedVersion (found : UInt16)
  | truncated
  | outOfBounds
  | misaligned
  | badTag (tag : UInt16)
  | ordinalOutOfRange
  | registryUnsorted
deriving DecidableEq, Repr

inductive NodeTag where
  | conductorSpec
  | stageNode
  | edge
  | policyRetry
  | policyBreaker
  | policyLimiter
  | policyTimeout
  | registryEntry
  | configBinding
deriving DecidableEq, Repr

def NodeTag.toU16 : NodeTag → UInt16
  | conductorSpec => 1
  | stageNode => 2
  | edge => 3
  | policyRetry => 4
  | policyBreaker => 5
  | policyLimiter => 6
  | policyTimeout => 7
  | registryEntry => 8
  | configBinding => 9

def NodeTag.fromU16 (value : UInt16) : Option NodeTag :=
  match value with
  | 1 => some conductorSpec
  | 2 => some stageNode
  | 3 => some edge
  | 4 => some policyRetry
  | 5 => some policyBreaker
  | 6 => some policyLimiter
  | 7 => some policyTimeout
  | 8 => some registryEntry
  | 9 => some configBinding
  | _ => none

theorem NodeTag.fromU16_toU16 (tag : NodeTag) : fromU16 tag.toU16 = some tag := by
  cases tag <;> rfl

def readLe (width : Nat) (bytes : List UInt8) (offset : Nat) : Outcome IrError Nat := do
  let stop ← ofOption .truncated (checkedAdd offset width)
  let chunk ← ofOption .truncated (slice bytes offset stop)
  return leNat chunk

def readU8 (bytes : List UInt8) (offset : Nat) : Outcome IrError UInt8 :=
  ofOption .truncated bytes[offset]?

def readU16 (bytes : List UInt8) (offset : Nat) : Outcome IrError UInt16 := do
  return UInt16.ofNat (← readLe 2 bytes offset)

def readU32 (bytes : List UInt8) (offset : Nat) : Outcome IrError UInt32 := do
  return UInt32.ofNat (← readLe 4 bytes offset)

def readU64 (bytes : List UInt8) (offset : Nat) : Outcome IrError UInt64 := do
  return UInt64.ofNat (← readLe 8 bytes offset)

theorem readLe_of_at {bytes chunk : List UInt8} {offset : Nat} (h : At bytes offset chunk)
    (hlt : offset + chunk.length < 2 ^ 64) :
    readLe chunk.length bytes offset = .ok (leNat chunk) := by
  rw [readLe, checkedAdd_of_lt hlt, ofOption_some, ok_bind, h.slice_eq rfl]
  rfl

structure RecordView where
  tag : NodeTag
  body : List UInt8
deriving DecidableEq, Repr

def recordHeaderLen : Nat := 8

def recordAlign : Nat := 8

def readRecord (bytes : List UInt8) (offset : Nat) : Outcome IrError RecordView := do
  require .misaligned (offset % recordAlign = 0)
  let tagRaw ← readU16 bytes offset
  let lenOffset ← ofOption .truncated (checkedAdd offset 4)
  let len := (← readU32 bytes lenOffset).toNat
  require .outOfBounds (recordHeaderLen ≤ len)
  require .misaligned (len % recordAlign = 0)
  let stop ← ofOption .outOfBounds (checkedAdd offset len)
  let bodyStart ← ofOption .outOfBounds (checkedAdd offset recordHeaderLen)
  let body ← ofOption .outOfBounds (slice bytes bodyStart stop)
  let tag ← ofOption (.badTag tagRaw) (NodeTag.fromU16 tagRaw)
  return { tag, body }

structure LimiterView where
  capacity : UInt32
  refillTokens : UInt32
  refillPeriodNs : UInt64
deriving DecidableEq, Repr

def LimiterView.len : Nat := 16

def LimiterView.parse (body : List UInt8) : Outcome IrError LimiterView := do
  require .truncated (body.length = len)
  return {
    capacity := ← readU32 body 0
    refillTokens := ← readU32 body 4
    refillPeriodNs := ← readU64 body 8 }

structure TimeoutView where
  durationNs : UInt64
deriving DecidableEq, Repr

def TimeoutView.len : Nat := 8

def TimeoutView.parse (body : List UInt8) : Outcome IrError TimeoutView := do
  require .truncated (body.length = len)
  return { durationNs := ← readU64 body 0 }

structure RetryView where
  maxAttempts : UInt32
  backoffKind : UInt8
  jitterKind : UInt8
  baseDelayNs : UInt64
  maxDelayNs : UInt64
deriving DecidableEq, Repr

def RetryView.len : Nat := 24

def RetryView.parse (body : List UInt8) : Outcome IrError RetryView := do
  require .truncated (body.length = len)
  return {
    maxAttempts := ← readU32 body 0
    backoffKind := ← readU8 body 4
    jitterKind := ← readU8 body 5
    baseDelayNs := ← readU64 body 8
    maxDelayNs := ← readU64 body 16 }

structure BreakerView where
  windowKind : UInt8
  failureRatePercent : UInt8
  minimumCalls : UInt32
  windowSpan : UInt64
  halfOpenMaxCalls : UInt32
  halfOpenSuccessThreshold : UInt32
  openDurationNs : UInt64
deriving DecidableEq, Repr

def BreakerView.len : Nat := 32

def BreakerView.parse (body : List UInt8) : Outcome IrError BreakerView := do
  require .truncated (body.length = len)
  return {
    windowKind := ← readU8 body 0
    failureRatePercent := ← readU8 body 1
    minimumCalls := ← readU32 body 4
    windowSpan := ← readU64 body 8
    halfOpenMaxCalls := ← readU32 body 16
    halfOpenSuccessThreshold := ← readU32 body 20
    openDurationNs := ← readU64 body 24 }

inductive PolicyKind where
  | limiter
  | timeout
  | retry
  | breaker
deriving DecidableEq, Repr

namespace PolicyKind

def count : Nat := 4

def all : List PolicyKind := [limiter, timeout, retry, breaker]

def nodeTag : PolicyKind → NodeTag
  | limiter => .policyLimiter
  | timeout => .policyTimeout
  | retry => .policyRetry
  | breaker => .policyBreaker

def slotField : PolicyKind → Nat
  | limiter => 0
  | timeout => 4
  | retry => 8
  | breaker => 12

def validateBody (kind : PolicyKind) (body : List UInt8) : Outcome IrError Unit :=
  match kind with
  | limiter => do let _ ← LimiterView.parse body
  | timeout => do let _ ← TimeoutView.parse body
  | retry => do let _ ← RetryView.parse body
  | breaker => do let _ ← BreakerView.parse body

theorem mem_all (kind : PolicyKind) : kind ∈ all := by
  cases kind <;> simp [all]

end PolicyKind

structure EdgeView where
  fromOrdinal : UInt16
  toOrdinal : UInt16
  inputIndex : UInt16
deriving DecidableEq, Repr

def EdgeView.len : Nat := 8

def EdgeView.parse (bytes : List UInt8) : Option EdgeView :=
  match bytes with
  | [f0, f1, t0, t1, i0, i1, _, _] =>
    some {
      fromOrdinal := UInt16.ofNat (leNat [f0, f1])
      toOrdinal := UInt16.ofNat (leNat [t0, t1])
      inputIndex := UInt16.ofNat (leNat [i0, i1]) }
  | _ => none

structure ScalarValue where
  kind : UInt8
  value : UInt64
deriving DecidableEq, Repr

def ScalarValue.len : Nat := 16

def ScalarValue.parse (body : List UInt8) : Outcome IrError ScalarValue := do
  require .truncated (body.length = len)
  return {
    kind := ← readU8 body 0
    value := ← readU64 body 8 }

structure ConfigBindingView where
  nodeOrdinal : UInt16
  fieldTag : UInt16
  key : List UInt8
  default : ScalarValue
deriving DecidableEq, Repr

def ConfigBindingView.len : Nat := 32

def ConfigBindingView.scalarOffset : Nat := 16

def ConfigBindingView.parse (body entry : List UInt8) : Outcome IrError ConfigBindingView := do
  require .truncated (entry.length = len)
  let nodeOrdinal ← readU16 entry 0
  let fieldTag ← readU16 entry 2
  let keyLen := (← readU32 entry 4).toNat
  let keyOffset := (← readU32 entry 8).toNat
  let keyEnd ← ofOption .outOfBounds (checkedAdd keyOffset keyLen)
  let key ← ofOption .outOfBounds (slice body keyOffset keyEnd)
  let scalar ← ofOption .outOfBounds (slice entry scalarOffset len)
  let default ← ScalarValue.parse scalar
  return { nodeOrdinal, fieldTag, key, default }

/-- The name table and sorted index of the stage names; `body` holds the name bytes. -/
structure RegistryView where
  body : List UInt8
  nameTable : List UInt8
  sortedIndex : List UInt8
  count : UInt32
deriving DecidableEq, Repr

namespace RegistryView

def nameEntryLen : Nat := 8

def sortedEntryLen : Nat := 2

def stageCount (view : RegistryView) : UInt32 := view.count

def name (view : RegistryView) (ordinal : Nat) : Option (List UInt8) :=
  if view.count.toNat ≤ ordinal then none
  else do
    let offset ← checkedMul ordinal nameEntryLen
    let stop ← checkedAdd offset nameEntryLen
    let entry ← slice view.nameTable offset stop
    let strOffset := leNat (entry.take 4)
    let strLen := leNat (entry.drop 4)
    let strEnd ← checkedAdd strOffset strLen
    slice view.body strOffset strEnd

def sortedOrdinal (view : RegistryView) (rank : Nat) : Option UInt16 := do
  let offset ← checkedMul rank sortedEntryLen
  let stop ← checkedAdd offset sortedEntryLen
  let entry ← slice view.sortedIndex offset stop
  return UInt16.ofNat (leNat entry)

/-- The binary search between `low` and `high`; each round at least halves the range,
so `fuel` is never used up. -/
def lookupLoop (view : RegistryView) (name : List UInt8) :
    (fuel low high : Nat) → Outcome Unit (Option Nat)
  | 0, _, _ => .panic
  | fuel + 1, low, high =>
    if low < high then
      let mid := low + (high - low) / 2
      match view.sortedOrdinal mid with
      | none => .ok none
      | some ordinal =>
        match view.name ordinal.toNat with
        | none => .ok none
        | some probe =>
          if name = probe then .ok (some ordinal.toNat)
          else if name < probe then view.lookupLoop name fuel low mid
          else view.lookupLoop name fuel (mid + 1) high
    else .ok none

def lookup (view : RegistryView) (name : List UInt8) : Outcome Unit (Option Nat) :=
  view.lookupLoop name (view.stageCount.toNat + 1) 0 view.stageCount.toNat

end RegistryView

end Kwokka.Ir
