import Kwokka.IrNode

/-! Bounds-checking an untrusted `ConductorSpec` body, the view that survives it,
and the validation of a whole blob. Additions the source leaves unchecked and array
indexing abort here when they are out of range; so does a scan that outruns its
fuel. -/

namespace Kwokka.Ir

open Bytes Outcome ConfigBindingView

def stageCountField : Nat := 0

def edgeCountField : Nat := 4

def stageTableOffsetField : Nat := 8

def edgeTableOffsetField : Nat := 12

def registryTableOffsetField : Nat := 16

def configTableOffsetField : Nat := 20

def conductorHeaderLen : Nat := 24

def stageEntryLen : Nat := PolicyKind.count * 4

def configHeaderLen : Nat := 8

structure Span where
  offset : Nat
  len : Nat
deriving DecidableEq, Repr

def Span.stop (span : Span) : Outcome IrError Nat := expect (checkedAdd span.offset span.len)

def rangesOverlap (left right : Span) : Outcome IrError Bool := do
  let rightStop ← right.stop
  if left.offset < rightStop then
    let leftStop ← left.stop
    return decide (right.offset < leftStop)
  else return false

def overlapsAny (span : Span) : List Span → Outcome IrError Bool
  | [] => .ok false
  | other :: rest => do
    if ← rangesOverlap span other then return true else overlapsAny span rest

def sliceTable (body : List UInt8) (offsetField : Nat) (count : UInt32) (entryLen : Nat) :
    Outcome IrError (Nat × List UInt8) := do
  let tableOffset := (← readU32 body offsetField).toNat
  require .outOfBounds (conductorHeaderLen ≤ tableOffset)
  let span ← ofOption .outOfBounds (checkedMul count.toNat entryLen)
  let stop ← ofOption .outOfBounds (checkedAdd tableOffset span)
  let table ← ofOption .outOfBounds (slice body tableOffset stop)
  return (tableOffset, table)

def checkEntriesFrom (entryLen : Nat) (check : List UInt8 → Outcome IrError Unit)
    (table : List UInt8) : (fuel offset : Nat) → Outcome IrError Unit
  | 0, _ => .panic
  | fuel + 1, offset =>
    if offset < table.length then do
      let stop ← ofOption .outOfBounds (checkedAdd offset entryLen)
      let entry ← ofOption .outOfBounds (slice table offset stop)
      check entry
      checkEntriesFrom entryLen check table fuel (offset + entryLen)
    else .ok ()

def checkEntries (entryLen : Nat) (check : List UInt8 → Outcome IrError Unit)
    (table : List UInt8) : Outcome IrError Unit :=
  checkEntriesFrom entryLen check table (table.length + 1) 0

def checkEdgeOrdinals (edgeTable : List UInt8) (stageCount : UInt32) : Outcome IrError Unit :=
  checkEntries EdgeView.len (fun entry => do
    let edge ← ofOption .outOfBounds (EdgeView.parse entry)
    require .ordinalOutOfRange
      (edge.fromOrdinal.toNat < stageCount.toNat ∧ edge.toOrdinal.toNat < stageCount.toNat))
    edgeTable

def recordSpanAt (body entry : List UInt8) (kind : PolicyKind) :
    Outcome IrError (Option Span) := do
  let slotOffset := (← readU32 entry kind.slotField).toNat
  if slotOffset = 0 then return none
  else do
    require .outOfBounds (conductorHeaderLen ≤ slotOffset)
    let record ← readRecord body slotOffset
    let len ← ofOption .outOfBounds (checkedAdd recordHeaderLen record.body.length)
    return some { offset := slotOffset, len }

def checkPolicySlot (body entry : List UInt8) (kind : PolicyKind) (sections : List Span) :
    Outcome IrError Unit := do
  match ← recordSpanAt body entry kind with
  | none => return ()
  | some recordSpan => do
    let record ← readRecord body recordSpan.offset
    require (.badTag record.tag.toU16) (record.tag = kind.nodeTag)
    kind.validateBody record.body
    let overlaps ← overlapsAny recordSpan sections
    require .outOfBounds (overlaps = false)

def checkStagePolicies (body stageTable : List UInt8) (sections : List Span) :
    Outcome IrError Unit :=
  checkEntries stageEntryLen (fun entry =>
    PolicyKind.all.forM fun kind => checkPolicySlot body entry kind sections) stageTable

def nthRecordSpan (body stageTable : List UInt8) (n : Nat) : Outcome IrError (Option Span) := do
  let offset ← ofOption .outOfBounds (checkedMul (n / PolicyKind.count) stageEntryLen)
  let stop ← ofOption .outOfBounds (checkedAdd offset stageEntryLen)
  let entry ← ofOption .outOfBounds (slice stageTable offset stop)
  let kind ← expect PolicyKind.all[n % PolicyKind.count]?
  recordSpanAt body entry kind

def checkRecordOverlaps (body stageTable : List UInt8) : Outcome IrError Unit := do
  let total ← ofOption .outOfBounds (checkedMul (stageTable.length / stageEntryLen) PolicyKind.count)
  (List.range total).forM fun a => do
    match ← nthRecordSpan body stageTable a with
    | none => return ()
    | some spanA =>
      (List.range' (a + 1) (total - (a + 1))).forM fun b => do
        match ← nthRecordSpan body stageTable b with
        | none => return ()
        | some spanB =>
          let overlap ← rangesOverlap spanA spanB
          require .outOfBounds (overlap = false)

structure ParsedRegistry where
  view : RegistryView
  nameTable : List UInt8
  nameSpan : Span
  sortedSpan : Span

def checkRegistryNames (view : RegistryView) (stageCount : UInt32) : Outcome IrError Unit :=
  (List.range stageCount.toNat).forM fun ordinal =>
    require .outOfBounds ((view.name ordinal).isSome = true)

def checkSortedOrdinals (sortedIndex : List UInt8) (stageCount : UInt32) : Outcome IrError Unit :=
  checkEntries RegistryView.sortedEntryLen (fun entry =>
    require .ordinalOutOfRange ((UInt16.ofNat (leNat entry)).toNat < stageCount.toNat)) sortedIndex

def parseRegistry (body : List UInt8) (stageCount : UInt32) :
    Outcome IrError (Option ParsedRegistry) := do
  let registryOffset := (← readU32 body registryTableOffsetField).toNat
  if registryOffset = 0 then return none
  else do
    let (nameOffset, nameTable) ←
      sliceTable body registryTableOffsetField stageCount RegistryView.nameEntryLen
    let sortedOffset ← ofOption .outOfBounds (checkedAdd nameOffset nameTable.length)
    let sortedLen ← ofOption .outOfBounds
      (checkedMul stageCount.toNat RegistryView.sortedEntryLen)
    let sortedEnd ← ofOption .outOfBounds (checkedAdd sortedOffset sortedLen)
    let sortedIndex ← ofOption .outOfBounds (slice body sortedOffset sortedEnd)
    let view : RegistryView := { body, nameTable, sortedIndex, count := stageCount }
    checkRegistryNames view stageCount
    checkSortedOrdinals sortedIndex stageCount
    return some {
      view
      nameTable
      nameSpan := { offset := nameOffset, len := nameTable.length }
      sortedSpan := { offset := sortedOffset, len := sortedIndex.length } }

structure ParsedConfig where
  count : UInt32
  entries : List UInt8
  sectionSpan : Span

def checkConfigEntries (body entries : List UInt8) (stageCount : UInt32) : Outcome IrError Unit :=
  checkEntries len (fun entry => do
    let binding ← parse body entry
    require .ordinalOutOfRange (binding.nodeOrdinal.toNat < stageCount.toNat)) entries

def parseConfig (body : List UInt8) (stageCount : UInt32) :
    Outcome IrError (Option ParsedConfig) := do
  let configOffset := (← readU32 body configTableOffsetField).toNat
  if configOffset = 0 then return none
  else do
    require .outOfBounds (conductorHeaderLen ≤ configOffset)
    let count ← readU32 body configOffset
    let entriesOffset ← ofOption .outOfBounds (checkedAdd configOffset configHeaderLen)
    let entriesLen ← ofOption .outOfBounds (checkedMul count.toNat len)
    let entriesEnd ← ofOption .outOfBounds (checkedAdd entriesOffset entriesLen)
    let entries ← ofOption .outOfBounds (slice body entriesOffset entriesEnd)
    checkConfigEntries body entries stageCount
    let sectionLen ← ofOption .outOfBounds (checkedAdd configHeaderLen entriesLen)
    return some { count, entries, sectionSpan := { offset := configOffset, len := sectionLen } }

def checkSectionsDisjoint : List Span → Outcome IrError Unit
  | [] => .ok ()
  | first :: rest => do
    rest.forM fun other => do
      let overlap ← rangesOverlap first other
      require .outOfBounds (overlap = false)
    checkSectionsDisjoint rest

def heapFloor (sections : List Span) (body stageTable : List UInt8) : Outcome IrError Nat := do
  let floor ← sections.foldlM (fun floor span => do return max floor (← span.stop)) 0
  let total ← ofOption .outOfBounds (checkedMul (stageTable.length / stageEntryLen) PolicyKind.count)
  (List.range total).foldlM (fun floor n => do
    match ← nthRecordSpan body stageTable n with
    | none => return floor
    | some span => return max floor (← span.stop)) floor

def checkNamesInHeap (nameTable : List UInt8) (floor : Nat) : Outcome IrError Unit :=
  checkEntries RegistryView.nameEntryLen (fun entry => do
    require .outOfBounds (floor ≤ (← readU32 entry 0).toNat)) nameTable

def checkKeysInHeap (entries : List UInt8) (floor : Nat) : Outcome IrError Unit :=
  checkEntries len (fun entry => do
    require .outOfBounds (floor ≤ (← readU32 entry 8).toNat)) entries

def checkSortedOrderFrom (view : RegistryView) :
    (rank remaining : Nat) → (previous : Option (List UInt8)) → Outcome IrError Unit
  | _, 0, _ => .ok ()
  | rank, remaining + 1, previous => do
    let ordinal ← ofOption .outOfBounds (view.sortedOrdinal rank)
    let name ← ofOption .outOfBounds (view.name ordinal.toNat)
    require .registryUnsorted (∀ prev ∈ previous, ¬ name < prev)
    checkSortedOrderFrom view (rank + 1) remaining (some name)

def checkSortedOrder (view : RegistryView) (stageCount : UInt32) : Outcome IrError Unit :=
  checkSortedOrderFrom view 0 stageCount.toNat none

/-- Also the fields of the source's `Parsed`, which `ConductorView::parse` copies. -/
structure ConductorView where
  body : List UInt8
  stageCount : UInt32
  edgeCount : UInt32
  stageTable : List UInt8
  edgeTable : List UInt8
  registry : Option RegistryView
  configCount : UInt32
  configEntries : List UInt8
deriving DecidableEq, Repr

variable (view : ConductorView)

def sectionSpans (stage edge : Span) (registry : Option ParsedRegistry)
    (config : Option ParsedConfig) : List Span :=
  [stage, edge] ++ (registry.map fun reg => [reg.nameSpan, reg.sortedSpan]).getD [] ++
    (config.map fun cfg => [cfg.sectionSpan]).getD []

def checkRegistryHeap (registry : Option ParsedRegistry) (stageCount : UInt32) (floor : Nat) :
    Outcome IrError Unit :=
  match registry with
  | none => .ok ()
  | some reg => do
    checkNamesInHeap reg.nameTable floor
    checkSortedOrder reg.view stageCount

def checkConfigHeap (config : Option ParsedConfig) (floor : Nat) : Outcome IrError Unit :=
  match config with
  | none => .ok ()
  | some cfg => checkKeysInHeap cfg.entries floor

def parse (body : List UInt8) : Outcome IrError ConductorView := do
  let stageCount ← readU32 body stageCountField
  let edgeCount ← readU32 body edgeCountField
  let (stageOff, stageTable) ← sliceTable body stageTableOffsetField stageCount stageEntryLen
  let (edgeOff, edgeTable) ← sliceTable body edgeTableOffsetField edgeCount EdgeView.len
  let registry ← parseRegistry body stageCount
  let config ← parseConfig body stageCount
  let sections := sectionSpans { offset := stageOff, len := stageTable.length }
    { offset := edgeOff, len := edgeTable.length } registry config
  checkSectionsDisjoint sections
  checkEdgeOrdinals edgeTable stageCount
  checkStagePolicies body stageTable sections
  checkRecordOverlaps body stageTable
  let floor ← heapFloor sections body stageTable
  checkRegistryHeap registry stageCount floor
  checkConfigHeap config floor
  return {
    body
    stageCount
    edgeCount
    stageTable
    edgeTable
    registry := registry.map ParsedRegistry.view
    configCount := (config.map ParsedConfig.count).getD 0
    configEntries := (config.map ParsedConfig.entries).getD [] }

structure StageView where
  body : List UInt8
  entry : List UInt8
deriving DecidableEq, Repr

namespace StageView

def policyBody (stage : StageView) (kind : PolicyKind) : Option (List UInt8) := do
  let slotOffset ← (readU32 stage.entry kind.slotField).toOption
  if slotOffset = 0 then none
  else do
    let record ← (readRecord stage.body slotOffset.toNat).toOption
    if record.tag = kind.nodeTag then some record.body else none

def limiter (stage : StageView) : Option LimiterView := do
  (LimiterView.parse (← stage.policyBody .limiter)).toOption

def timeout (stage : StageView) : Option TimeoutView := do
  (TimeoutView.parse (← stage.policyBody .timeout)).toOption

def retry (stage : StageView) : Option RetryView := do
  (RetryView.parse (← stage.policyBody .retry)).toOption

def breaker (stage : StageView) : Option BreakerView := do
  (BreakerView.parse (← stage.policyBody .breaker)).toOption

end StageView

namespace ConductorView

def tableEntry (table : List UInt8) (entryLen index : Nat) : Option (List UInt8) := do
  let offset ← checkedMul index entryLen
  let stop ← checkedAdd offset entryLen
  slice table offset stop

def stage (ordinal : Nat) : Option StageView :=
  if view.stageCount.toNat ≤ ordinal then none
  else do
    let entry ← tableEntry view.stageTable stageEntryLen ordinal
    return { body := view.body, entry }

def edge (index : Nat) : Option EdgeView := do
  EdgeView.parse (← tableEntry view.edgeTable EdgeView.len index)

def edges : List EdgeView :=
  (List.range view.edgeCount.toNat).filterMap view.edge

def configBinding (index : Nat) : Option ConfigBindingView := do
  let entry ← tableEntry view.configEntries len index
  (ConfigBindingView.parse view.body entry).toOption

def configBindings : List ConfigBindingView :=
  (List.range view.configCount.toNat).filterMap view.configBinding

end ConductorView

structure KwokkaIr where
  bytes : List UInt8
deriving DecidableEq, Repr

def magic : List UInt8 := [0x4B, 0x57, 0x49, 0x52]

def version : UInt16 := 1

def headerLen : Nat := 16

def rootOffsetField : Nat := 12

def readRoot (bytes : List UInt8) : Outcome IrError ConductorView := do
  let rootOffset := (← readU32 bytes rootOffsetField).toNat
  let root ← readRecord bytes rootOffset
  require (.badTag root.tag.toU16) (root.tag = .conductorSpec)
  parse root.body

def KwokkaIr.conductor (ir : KwokkaIr) : Outcome IrError ConductorView := readRoot ir.bytes

def validate (bytes : List UInt8) : Outcome IrError KwokkaIr := do
  require .truncated (headerLen ≤ bytes.length)
  require .badMagic (slice bytes 0 magic.length = some magic)
  let found ← readU16 bytes 4
  require (.unsupportedVersion found) (found ≤ version)
  let totalLen := (← readU32 bytes 8).toNat
  require .truncated (totalLen = bytes.length)
  let _ ← readRoot bytes
  return { bytes }

end Kwokka.Ir
