import Kwokka.IrCheck

/-! Encoding a drafted pipeline as IR bytes: the layout of the sections, and the writer
that fills a caller's buffer. A write that leaves the buffer is `none`, the abort of
slice indexing. -/

namespace Kwokka.Ir

open Bytes Outcome

structure StageSpec where
  limiter : Option LimiterView
  timeout : Option TimeoutView
  retry : Option RetryView
  breaker : Option BreakerView
deriving DecidableEq, Repr

structure RegistrySpec where
  names : List (List UInt8)
  sorted : List UInt16
deriving DecidableEq, Repr

structure ConfigBindingSpec where
  nodeOrdinal : UInt16
  fieldTag : UInt16
  key : List UInt8
  defaultValue : ScalarValue
deriving DecidableEq, Repr

structure ConductorBlob where
  stages : List StageSpec
  edges : List EdgeView
  registry : Option RegistrySpec
  config : List ConfigBindingSpec
deriving DecidableEq, Repr

inductive WriteError where
  | bufferTooSmall (needed available : Nat)
  | specTooLarge
  | registryArity (names sorted stages : Nat)
deriving DecidableEq, Repr

structure Layout where
  total : Nat
  specRecordLen : Nat
  stageCount : UInt32
  edgeCount : UInt32
  edgeTableOff : Nat
  policyHeapOff : Nat
  registryOff : Nat
  configOff : Nat
  heapOff : Nat
deriving DecidableEq, Repr

variable (buf : List UInt8) (payload : Nat) (layout : Layout) (blob : ConductorBlob)

def u32TryFrom (value : Nat) : Option UInt32 :=
  if value < 2 ^ 32 then some (UInt32.ofNat value) else none

def addOrTooLarge (a b : Nat) : Outcome WriteError Nat := ofOption .specTooLarge (checkedAdd a b)

def mulOrTooLarge (a b : Nat) : Outcome WriteError Nat := ofOption .specTooLarge (checkedMul a b)

/-- `bumped & !7` clears the remainder. -/
def align8 (value : Nat) : Outcome WriteError Nat := do
  let bumped ← addOrTooLarge value 7
  return bumped - bumped % 8

def validateRegistryArity : Outcome WriteError Unit :=
  match blob.registry with
  | none => .ok ()
  | some registry =>
    require (.registryArity registry.names.length registry.sorted.length blob.stages.length)
      (registry.names.length = blob.stages.length ∧ registry.sorted.length = blob.stages.length)

def registryLen (stageCount : Nat) : Outcome WriteError Nat := do
  let names ← mulOrTooLarge stageCount RegistryView.nameEntryLen
  let sorted ← mulOrTooLarge stageCount RegistryView.sortedEntryLen
  align8 (← addOrTooLarge names sorted)

def stringHeapLen : Outcome WriteError Nat := do
  let names := (blob.registry.map RegistrySpec.names).getD []
  let total ← names.foldlM (fun total name => addOrTooLarge total name.length) 0
  blob.config.foldlM (fun total binding => addOrTooLarge total binding.key.length) total

namespace StageSpec

def recordBodyLens (stage : StageSpec) : List (Option Nat) :=
  [stage.limiter.map fun _ => LimiterView.len, stage.timeout.map fun _ => TimeoutView.len,
    stage.retry.map fun _ => RetryView.len, stage.breaker.map fun _ => BreakerView.len]

def payloadLen (stage : StageSpec) : Outcome WriteError Nat :=
  (stage.recordBodyLens.filterMap id).foldlM
    (fun total len => addOrTooLarge total (recordHeaderLen + len)) 0

end StageSpec

def placeRegistry (afterPolicies : Nat) : Outcome WriteError (Nat × Nat) :=
  if blob.registry.isSome then do
    let len ← registryLen blob.stages.length
    let stop ← addOrTooLarge afterPolicies len
    return (afterPolicies, stop)
  else .ok (0, afterPolicies)

def placeConfig (afterRegistry : Nat) : Outcome WriteError (Nat × Nat) :=
  if blob.config.isEmpty then .ok (0, afterRegistry)
  else do
    let entriesLen ← mulOrTooLarge blob.config.length ConfigBindingView.len
    let len ← addOrTooLarge configHeaderLen entriesLen
    let stop ← addOrTooLarge afterRegistry len
    return (afterRegistry, stop)

def Layout.compute : Outcome WriteError Layout := do
  let stageCount ← ofOption .specTooLarge (u32TryFrom blob.stages.length)
  let edgeCount ← ofOption .specTooLarge (u32TryFrom blob.edges.length)
  validateRegistryArity blob
  let stageTableLen ← mulOrTooLarge blob.stages.length stageEntryLen
  let edgeTableOff ← addOrTooLarge conductorHeaderLen stageTableLen
  let edgeTableLen ← mulOrTooLarge blob.edges.length EdgeView.len
  let policyHeapOff ← addOrTooLarge edgeTableOff edgeTableLen
  let afterPolicies ← blob.stages.foldlM
    (fun afterPolicies stage => do addOrTooLarge afterPolicies (← stage.payloadLen)) policyHeapOff
  let registry ← placeRegistry blob afterPolicies
  let config ← placeConfig blob registry.2
  let heapOff := config.2
  let bodyLen ← align8 (← addOrTooLarge heapOff (← stringHeapLen blob))
  let specRecordLen ← addOrTooLarge recordHeaderLen bodyLen
  let total ← addOrTooLarge headerLen specRecordLen
  let _ ← ofOption .specTooLarge (u32TryFrom total)
  return { total, specRecordLen, stageCount, edgeCount, edgeTableOff, policyHeapOff,
           registryOff := registry.1, configOff := config.1, heapOff }

def bodyOffset : Nat := headerLen + recordHeaderLen

def putU16 (offset : Nat) (value : UInt16) : Option (List UInt8) :=
  put buf offset (leBytes 2 value.toNat)

def putU32 (offset : Nat) (value : UInt32) : Option (List UInt8) :=
  put buf offset (leBytes 4 value.toNat)

def putU64 (offset : Nat) (value : UInt64) : Option (List UInt8) :=
  put buf offset (leBytes 8 value.toNat)

/-- `u32::try_from(value).unwrap_or(u32::MAX)`. -/
def putOffset (offset value : Nat) : Option (List UInt8) :=
  put buf offset (leBytes 4 (min value (2 ^ 32 - 1)))

def writeHeader : Option (List UInt8) := do
  let buf ← put buf 0 magic
  let buf ← putU16 buf 4 version
  let buf ← putU16 buf 6 0
  let buf ← putOffset buf 8 layout.total
  let buf ← putOffset buf 12 headerLen
  let buf ← putU16 buf headerLen NodeTag.conductorSpec.toU16
  let buf ← putU16 buf (headerLen + 2) 0
  let buf ← putOffset buf (headerLen + 4) layout.specRecordLen
  let buf ← putU32 buf bodyOffset layout.stageCount
  let buf ← putU32 buf (bodyOffset + 4) layout.edgeCount
  let buf ← putOffset buf (bodyOffset + 8) conductorHeaderLen
  let buf ← putOffset buf (bodyOffset + 12) layout.edgeTableOff
  let buf ← putOffset buf (bodyOffset + 16) layout.registryOff
  putOffset buf (bodyOffset + 20) layout.configOff

def writeSlots (entry : Nat) : (slot payload : Nat) → List (Option Nat) → List UInt8 →
    Option (List UInt8 × Nat)
  | _, payload, [], buf => some (buf, payload)
  | slot, payload, some len :: rest, buf => do
    let buf ← putOffset buf (entry + slot * 4) payload
    writeSlots entry (slot + 1) (payload + (recordHeaderLen + len)) rest buf
  | slot, payload, none :: rest, buf => do
    let buf ← putOffset buf (entry + slot * 4) 0
    writeSlots entry (slot + 1) payload rest buf

def writeStages (table : Nat) : (i payload : Nat) → List StageSpec → List UInt8 →
    Option (List UInt8)
  | _, _, [], buf => some buf
  | i, payload, stage :: rest, buf => do
    let (buf, payload) ← writeSlots (table + i * stageEntryLen) 0 payload stage.recordBodyLens buf
    writeStages table (i + 1) payload rest buf

def writeStageTable (stages : List StageSpec) :
    Option (List UInt8) :=
  writeStages (bodyOffset + conductorHeaderLen) 0 layout.policyHeapOff stages buf

def writeEdges (table : Nat) : (j : Nat) → List EdgeView → List UInt8 → Option (List UInt8)
  | _, [], buf => some buf
  | j, edge :: rest, buf => do
    let entry := table + j * EdgeView.len
    let buf ← putU16 buf entry edge.fromOrdinal
    let buf ← putU16 buf (entry + 2) edge.toOrdinal
    let buf ← putU16 buf (entry + 4) edge.inputIndex
    let buf ← putU16 buf (entry + 6) 0
    writeEdges table (j + 1) rest buf

def writeEdgeTable (edges : List EdgeView) :
    Option (List UInt8) :=
  writeEdges (bodyOffset + layout.edgeTableOff) 0 edges buf

def writeFrame (tag : NodeTag) (bodyLen : Nat) :
    Option (List UInt8) := do
  let record := bodyOffset + payload
  let buf ← putU16 buf record tag.toU16
  let buf ← putU16 buf (record + 2) 0
  putOffset buf (record + 4) (recordHeaderLen + bodyLen)

def writeLimiter (v : LimiterView) : Option (List UInt8) := do
  let body := bodyOffset + payload + recordHeaderLen
  let buf ← writeFrame buf payload .policyLimiter LimiterView.len
  let buf ← putU32 buf body v.capacity
  let buf ← putU32 buf (body + 4) v.refillTokens
  putU64 buf (body + 8) v.refillPeriodNs

def writeTimeout (v : TimeoutView) : Option (List UInt8) := do
  let body := bodyOffset + payload + recordHeaderLen
  let buf ← writeFrame buf payload .policyTimeout TimeoutView.len
  putU64 buf body v.durationNs

def writeRetry (v : RetryView) : Option (List UInt8) := do
  let body := bodyOffset + payload + recordHeaderLen
  let buf ← writeFrame buf payload .policyRetry RetryView.len
  let buf ← putU32 buf body v.maxAttempts
  let buf ← put buf (body + 4) [v.backoffKind]
  let buf ← put buf (body + 5) [v.jitterKind]
  let buf ← putU16 buf (body + 6) 0
  let buf ← putU64 buf (body + 8) v.baseDelayNs
  putU64 buf (body + 16) v.maxDelayNs

def writeBreaker (v : BreakerView) : Option (List UInt8) := do
  let body := bodyOffset + payload + recordHeaderLen
  let buf ← writeFrame buf payload .policyBreaker BreakerView.len
  let buf ← put buf body [v.windowKind]
  let buf ← put buf (body + 1) [v.failureRatePercent]
  let buf ← putU16 buf (body + 2) 0
  let buf ← putU32 buf (body + 4) v.minimumCalls
  let buf ← putU64 buf (body + 8) v.windowSpan
  let buf ← putU32 buf (body + 16) v.halfOpenMaxCalls
  let buf ← putU32 buf (body + 20) v.halfOpenSuccessThreshold
  putU64 buf (body + 24) v.openDurationNs

/-- One `if let Some(v)` of the record writer: the record, then the payload cursor. -/
def writePolicy {α : Type} (policy : Option α) (len : Nat)
    (write : List UInt8 → Nat → α → Option (List UInt8)) (buf : List UInt8) (payload : Nat) :
    Option (List UInt8 × Nat) :=
  match policy with
  | none => some (buf, payload)
  | some v => do
    let buf ← write buf payload v
    return (buf, payload + (recordHeaderLen + len))

def writeStageRecords (stage : StageSpec) (buf : List UInt8) (payload : Nat) :
    Option (List UInt8 × Nat) := do
  let (buf, payload) ← writePolicy stage.limiter LimiterView.len writeLimiter buf payload
  let (buf, payload) ← writePolicy stage.timeout TimeoutView.len writeTimeout buf payload
  let (buf, payload) ← writePolicy stage.retry RetryView.len writeRetry buf payload
  writePolicy stage.breaker BreakerView.len writeBreaker buf payload

def writeRecords : (payload : Nat) → List StageSpec → List UInt8 → Option (List UInt8)
  | _, [], buf => some buf
  | payload, stage :: rest, buf => do
    let (buf, payload) ← writeStageRecords stage buf payload
    writeRecords payload rest buf

def writePolicyRecords (stages : List StageSpec) :
    Option (List UInt8) :=
  writeRecords layout.policyHeapOff stages buf

/-- Returns the buffer; the heap cursor moves by the length of `bytes`. -/
def writeBytes (heap : Nat) (bytes : List UInt8) : Option (List UInt8) :=
  put buf (bodyOffset + heap) bytes

def writeNames (nameTable : Nat) : (i heap : Nat) → List (List UInt8) → List UInt8 →
    Option (List UInt8 × Nat)
  | _, heap, [], buf => some (buf, heap)
  | i, heap, name :: rest, buf => do
    let entry := nameTable + i * RegistryView.nameEntryLen
    let buf ← putOffset buf entry heap
    let buf ← putOffset buf (entry + 4) name.length
    let buf ← writeBytes buf heap name
    writeNames nameTable (i + 1) (heap + name.length) rest buf

def writeSorted (sortedTable : Nat) : (k : Nat) → List UInt16 → List UInt8 →
    Option (List UInt8)
  | _, [], buf => some buf
  | k, ordinal :: rest, buf => do
    let buf ← putU16 buf (sortedTable + k * RegistryView.sortedEntryLen) ordinal
    writeSorted sortedTable (k + 1) rest buf

def writeRegistry (registry : RegistrySpec) (heap : Nat) :
    Option (List UInt8 × Nat) := do
  let nameTable := bodyOffset + layout.registryOff
  let sortedTable := nameTable + layout.stageCount.toNat * RegistryView.nameEntryLen
  let (buf, heap) ← writeNames nameTable 0 heap registry.names buf
  let buf ← writeSorted sortedTable 0 registry.sorted buf
  return (buf, heap)

def writeBindings (entries : Nat) : (i heap : Nat) → List ConfigBindingSpec → List UInt8 →
    Option (List UInt8)
  | _, _, [], buf => some buf
  | i, heap, binding :: rest, buf => do
    let entry := entries + i * ConfigBindingView.len
    let buf ← putU16 buf entry binding.nodeOrdinal
    let buf ← putU16 buf (entry + 2) binding.fieldTag
    let buf ← putOffset buf (entry + 4) binding.key.length
    let buf ← putOffset buf (entry + 8) heap
    let buf ← putU32 buf (entry + 12) 0
    let buf ← putU64 buf (entry + 16) binding.defaultValue.kind.toUInt64
    let buf ← putU64 buf (entry + 24) binding.defaultValue.value
    let buf ← writeBytes buf heap binding.key
    writeBindings entries (i + 1) (heap + binding.key.length) rest buf

def writeConfig (config : List ConfigBindingSpec) (heap : Nat) : Option (List UInt8) := do
  let start := bodyOffset + layout.configOff
  let buf ← putOffset buf start config.length
  let buf ← putU32 buf (start + 4) 0
  writeBindings (start + configHeaderLen) 0 heap config buf

def writeRegistryIfAny (registry : Option RegistrySpec) (heap : Nat) : Option (List UInt8 × Nat) :=
  match registry with
  | none => some (buf, heap)
  | some registry => writeRegistry buf layout registry heap

def writeSections :
    Option (List UInt8) := do
  let buf ← put buf 0 (List.replicate layout.total 0)
  let buf ← writeHeader buf layout
  let buf ← writeStageTable buf layout blob.stages
  let buf ← writeEdgeTable buf layout blob.edges
  let buf ← writePolicyRecords buf layout blob.stages
  let (buf, heap) ← writeRegistryIfAny buf layout blob.registry layout.heapOff
  if blob.config.isEmpty then return buf else writeConfig buf layout blob.config heap

def writeConductor :
    Outcome WriteError (Nat × List UInt8) := do
  let layout ← Layout.compute blob
  require (.bufferTooSmall layout.total buf.length) (layout.total ≤ buf.length)
  let buf ← expect (writeSections buf layout blob)
  return (layout.total, buf)

end Kwokka.Ir
