import Kwokka.IrWriter

/-! The byte strings that the writer's loops leave in the buffer, section by section. -/

namespace Kwokka.Ir

open Bytes Outcome Writes WritesBoth

variable (layout : Layout) (payload : Nat) (tag : NodeTag)

def offsetBytes (value : Nat) : List UInt8 := leBytes 4 (min value (2 ^ 32 - 1))

@[simp]
theorem length_offsetBytes (value : Nat) : (offsetBytes value).length = 4 := length_leBytes _ _

def headerBytes : List UInt8 :=
  magic ++ (leBytes 2 version.toNat ++ (leBytes 2 0 ++ (offsetBytes layout.total ++
    (offsetBytes headerLen ++ (leBytes 2 NodeTag.conductorSpec.toU16.toNat ++ (leBytes 2 0 ++
      offsetBytes layout.specRecordLen))))))

def bodyHeaderBytes : List UInt8 :=
  leBytes 4 layout.stageCount.toNat ++ (leBytes 4 layout.edgeCount.toNat ++
    (offsetBytes conductorHeaderLen ++ (offsetBytes layout.edgeTableOff ++
      (offsetBytes layout.registryOff ++ offsetBytes layout.configOff))))

theorem length_headerBytes : (headerBytes layout).length = 24 := by
  simp [headerBytes, magic]

theorem length_bodyHeaderBytes : (bodyHeaderBytes layout).length = 24 := by
  simp [bodyHeaderBytes]

theorem writeHeader_writes :
    Writes (fun buf => writeHeader buf layout) id 0
      (headerBytes layout ++ bodyHeaderBytes layout) := by
  refine (put 0 magic).seq 4 ?_ rfl
  refine (put 4 _).seq 6 ?_ (by simp)
  refine (put 6 _).seq 8 ?_ (by simp)
  refine (put 8 _).seq 12 ?_ (by simp)
  refine (put 12 _).seq headerLen ?_ (by simp [headerLen])
  refine (put headerLen _).seq (headerLen + 2) ?_ (by simp)
  refine (Writes.put (headerLen + 2) _).seq (headerLen + 4) ?_ (by simp)
  refine (Writes.put (headerLen + 4) _).seq bodyOffset ?_ (by simp [bodyOffset, recordHeaderLen])
  refine (put bodyOffset _).seq (bodyOffset + 4) ?_ (by simp)
  refine (Writes.put (bodyOffset + 4) _).seq (bodyOffset + 8) ?_ (by simp)
  refine (Writes.put (bodyOffset + 8) _).seq (bodyOffset + 12) ?_ (by simp)
  refine (Writes.put (bodyOffset + 12) _).seq (bodyOffset + 16) ?_ (by simp)
  exact (Writes.put (bodyOffset + 16) _).seq (bodyOffset + 20) (Writes.put _ _) (by simp)

def slotWords : Nat → List (Option Nat) → List Nat
  | _, [] => []
  | payload, some len :: rest => payload :: slotWords (payload + (recordHeaderLen + len)) rest
  | payload, none :: rest => 0 :: slotWords payload rest

def slotEnd : Nat → List (Option Nat) → Nat
  | payload, [] => payload
  | payload, some len :: rest => slotEnd (payload + (recordHeaderLen + len)) rest
  | payload, none :: rest => slotEnd payload rest

def slotBytes (lens : List (Option Nat)) : List UInt8 :=
  ((slotWords payload lens).map offsetBytes).flatten

theorem length_slotWords (lens : List (Option Nat)) :
    (slotWords payload lens).length = lens.length := by
  induction lens generalizing payload with
  | nil => rfl
  | cons len lens ih => cases len <;> simp [slotWords, ih]

theorem slotWords_append (lens lens' : List (Option Nat)) :
    slotWords payload (lens ++ lens') =
      slotWords payload lens ++ slotWords (slotEnd payload lens) lens' := by
  induction lens generalizing payload with
  | nil => rfl
  | cons len lens ih => cases len <;> simp [slotWords, slotEnd, ih]

theorem length_slotBytes (lens : List (Option Nat)) :
    (slotBytes payload lens).length = lens.length * 4 := by
  have hwords : ∀ e ∈ (slotWords payload lens).map offsetBytes, e.length = 4 := by simp
  rw [slotBytes, length_flatten_of_length_eq hwords, List.length_map, length_slotWords]

theorem slotBytes_append (lens lens' : List (Option Nat)) :
    slotBytes payload (lens ++ lens') =
      slotBytes payload lens ++ slotBytes (slotEnd payload lens) lens' := by
  simp [slotBytes, slotWords_append]

theorem writeSlots_writes (entry slot payload : Nat) (lens : List (Option Nat)) :
    Writes (writeSlots entry slot payload lens) (fun buf => (buf, slotEnd payload lens))
      (entry + slot * 4) (slotBytes payload lens) := by
  induction lens generalizing slot payload with
  | nil => exact nil _ _
  | cons len lens ih =>
    cases len with
    | none => exact (Writes.put _ _).seq (entry + (slot + 1) * 4) (ih _ _) (by simp; omega)
    | some => exact (Writes.put _ _).seq (entry + (slot + 1) * 4) (ih _ _) (by simp; omega)

theorem writeStages_writes (table i payload : Nat) (stages : List StageSpec) :
    Writes (writeStages table i payload stages) id (table + i * stageEntryLen)
      (slotBytes payload (stages.flatMap StageSpec.recordBodyLens)) := by
  induction stages generalizing i payload with
  | nil => exact nil id _
  | cons stage stages ih =>
    have hslots := writeSlots_writes (table + i * stageEntryLen) 0 payload stage.recordBodyLens
    have hlen : (slotBytes payload stage.recordBodyLens).length = stageEntryLen :=
      length_slotBytes _ _
    rw [List.flatMap_cons, slotBytes_append]
    refine seq (by simpa using hslots) (table + (i + 1) * stageEntryLen) (ih (i + 1) _) ?_
    rw [hlen, Nat.succ_mul, Nat.add_assoc]

def edgeBytes (edge : EdgeView) : List UInt8 :=
  leBytes 2 edge.fromOrdinal.toNat ++ (leBytes 2 edge.toOrdinal.toNat ++
    (leBytes 2 edge.inputIndex.toNat ++ leBytes 2 0))

theorem length_edgeBytes (edge : EdgeView) : (edgeBytes edge).length = EdgeView.len := by
  simp [edgeBytes, EdgeView.len]

theorem writeEdges_writes (table j : Nat) (edges : List EdgeView) :
    Writes (writeEdges table j edges) id (table + j * EdgeView.len)
      (edges.map edgeBytes).flatten := by
  induction edges generalizing j with
  | nil => exact nil id _
  | cons edge edges ih =>
    refine (Writes.put _ _).seq (table + j * EdgeView.len + 2) ?_ (by simp)
    refine (Writes.put _ _).seq (table + j * EdgeView.len + 4) ?_ (by simp)
    refine (Writes.put _ _).seq (table + j * EdgeView.len + 6) ?_ (by simp)
    refine (Writes.put _ _).seq (table + (j + 1) * EdgeView.len) (ih (j + 1)) ?_
    simp [EdgeView.len]
    omega

def frameBytes (bodyLen : Nat) : List UInt8 :=
  leBytes 2 tag.toU16.toNat ++ (leBytes 2 0 ++ offsetBytes (recordHeaderLen + bodyLen))

def recordBytes (body : List UInt8) : List UInt8 :=
  frameBytes tag body.length ++ body

theorem length_frameBytes (bodyLen : Nat) : (frameBytes tag bodyLen).length = 8 := by
  simp [frameBytes]

theorem length_recordBytes (body : List UInt8) :
    (recordBytes tag body).length = recordHeaderLen + body.length := by
  rw [recordBytes, List.length_append, length_frameBytes, recordHeaderLen]

def limiterBytes (v : LimiterView) : List UInt8 :=
  leBytes 4 v.capacity.toNat ++ (leBytes 4 v.refillTokens.toNat ++ leBytes 8 v.refillPeriodNs.toNat)

def timeoutBytes (v : TimeoutView) : List UInt8 := leBytes 8 v.durationNs.toNat

def retryBytes (v : RetryView) : List UInt8 :=
  leBytes 4 v.maxAttempts.toNat ++ ([v.backoffKind] ++ ([v.jitterKind] ++ (leBytes 2 0 ++
    (leBytes 8 v.baseDelayNs.toNat ++ leBytes 8 v.maxDelayNs.toNat))))

def breakerBytes (v : BreakerView) : List UInt8 :=
  [v.windowKind] ++ ([v.failureRatePercent] ++ (leBytes 2 0 ++ (leBytes 4 v.minimumCalls.toNat ++
    (leBytes 8 v.windowSpan.toNat ++ (leBytes 4 v.halfOpenMaxCalls.toNat ++
      (leBytes 4 v.halfOpenSuccessThreshold.toNat ++ leBytes 8 v.openDurationNs.toNat))))))

theorem length_limiterBytes (v : LimiterView) : (limiterBytes v).length = LimiterView.len := by
  simp [limiterBytes, LimiterView.len]

theorem length_timeoutBytes (v : TimeoutView) : (timeoutBytes v).length = TimeoutView.len := by
  simp [timeoutBytes, TimeoutView.len]

theorem length_retryBytes (v : RetryView) : (retryBytes v).length = RetryView.len := by
  simp [retryBytes, RetryView.len]

theorem length_breakerBytes (v : BreakerView) : (breakerBytes v).length = BreakerView.len := by
  simp [breakerBytes, BreakerView.len]

theorem writeFrame_writes (bodyLen : Nat) :
    Writes (fun buf => writeFrame buf payload tag bodyLen) id (bodyOffset + payload)
      (frameBytes tag bodyLen) := by
  refine (Writes.put _ _).seq (bodyOffset + payload + 2) ?_ (by simp)
  exact (Writes.put _ _).seq (bodyOffset + payload + 4) (Writes.put _ _) (by simp)

theorem writes_record {write : List UInt8 → Option (List UInt8)} {payload : Nat} {tag : NodeTag}
    {body : List UInt8} {len : Nat} (hlen : body.length = len)
    (hbody : Writes write id (bodyOffset + payload + recordHeaderLen) body) :
    Writes (fun buf => writeFrame buf payload tag len >>= write) id (bodyOffset + payload)
      (recordBytes tag body) := by
  rw [recordBytes, hlen]
  exact (writeFrame_writes payload tag len).seq _ hbody (by rw [length_frameBytes, recordHeaderLen])

theorem writeLimiter_writes (v : LimiterView) :
    Writes (fun buf => writeLimiter buf payload v) id (bodyOffset + payload)
      (recordBytes .policyLimiter (limiterBytes v)) := by
  refine writes_record (length_limiterBytes v) ?_
  refine (Writes.put _ _).seq (bodyOffset + payload + recordHeaderLen + 4) ?_ (by simp)
  exact (Writes.put _ _).seq (bodyOffset + payload + recordHeaderLen + 8) (Writes.put _ _) (by simp)

theorem writeTimeout_writes (v : TimeoutView) :
    Writes (fun buf => writeTimeout buf payload v) id (bodyOffset + payload)
      (recordBytes .policyTimeout (timeoutBytes v)) :=
  writes_record (length_timeoutBytes v) (put _ _)

theorem writeRetry_writes (v : RetryView) :
    Writes (fun buf => writeRetry buf payload v) id (bodyOffset + payload)
      (recordBytes .policyRetry (retryBytes v)) := by
  refine writes_record (length_retryBytes v) ?_
  refine (Writes.put _ _).seq (bodyOffset + payload + recordHeaderLen + 4) ?_ (by simp)
  refine (Writes.put _ _).seq (bodyOffset + payload + recordHeaderLen + 5) ?_ (by simp)
  refine (Writes.put _ _).seq (bodyOffset + payload + recordHeaderLen + 6) ?_ (by simp)
  refine (Writes.put _ _).seq (bodyOffset + payload + recordHeaderLen + 8) ?_ (by simp)
  exact (Writes.put _ _).seq (bodyOffset + payload + recordHeaderLen + 16) (Writes.put _ _) (by simp)

theorem writeBreaker_writes (v : BreakerView) :
    Writes (fun buf => writeBreaker buf payload v) id (bodyOffset + payload)
      (recordBytes .policyBreaker (breakerBytes v)) := by
  refine writes_record (length_breakerBytes v) ?_
  refine (Writes.put _ _).seq (bodyOffset + payload + recordHeaderLen + 1) ?_ (by simp)
  refine (Writes.put _ _).seq (bodyOffset + payload + recordHeaderLen + 2) ?_ (by simp)
  refine (Writes.put _ _).seq (bodyOffset + payload + recordHeaderLen + 4) ?_ (by simp)
  refine (Writes.put _ _).seq (bodyOffset + payload + recordHeaderLen + 8) ?_ (by simp)
  refine (Writes.put _ _).seq (bodyOffset + payload + recordHeaderLen + 16) ?_ (by simp)
  refine (Writes.put _ _).seq (bodyOffset + payload + recordHeaderLen + 20) ?_ (by simp)
  exact (Writes.put _ _).seq (bodyOffset + payload + recordHeaderLen + 24) (Writes.put _ _) (by simp)

/-- A slot of the policy table: its kind, and the body of the record it points to. -/
abbrev Slot := PolicyKind × Option (List UInt8)

def Slot.record (slot : Slot) : List UInt8 :=
  (slot.2.map (recordBytes slot.1.nodeTag)).getD []

def Slot.bodyLen (slot : Slot) : Option Nat := slot.2.map List.length

def StageSpec.policyBytes (stage : StageSpec) : PolicyKind → Option (List UInt8)
  | .limiter => stage.limiter.map limiterBytes
  | .timeout => stage.timeout.map timeoutBytes
  | .retry => stage.retry.map retryBytes
  | .breaker => stage.breaker.map breakerBytes

def StageSpec.slots (stage : StageSpec) : List Slot :=
  PolicyKind.all.map fun kind => (kind, stage.policyBytes kind)

theorem StageSpec.recordBodyLens_eq (stage : StageSpec) :
    stage.recordBodyLens = stage.slots.map Slot.bodyLen := by
  simp [recordBodyLens, slots, PolicyKind.all, Slot.bodyLen, policyBytes, Function.comp_def,
    length_limiterBytes, length_timeoutBytes, length_retryBytes, length_breakerBytes]

theorem slotEnd_eq (slots : List Slot) :
    slotEnd payload (slots.map Slot.bodyLen) = payload + (slots.map Slot.record).flatten.length := by
  induction slots generalizing payload with
  | nil => rfl
  | cons slot slots ih =>
    obtain ⟨kind, body⟩ := slot
    cases body with
    | none => simp [Slot.bodyLen, Slot.record, slotEnd, ih]
    | some =>
      simp [Slot.bodyLen, Slot.record, slotEnd, ih, length_recordBytes]
      omega

theorem writePolicy_writes {α : Type} {write : List UInt8 → Nat → α → Option (List UInt8)}
    {tag : NodeTag} {encode : α → List UInt8} {len : Nat} (policy : Option α) (payload : Nat)
    (hwrite : ∀ v, Writes (fun buf => write buf payload v) id (bodyOffset + payload)
      (recordBytes tag (encode v)))
    (hlen : ∀ v, (encode v).length = len) :
    Writes (fun buf => writePolicy policy len write buf payload)
      (fun buf => (buf, payload + ((policy.map fun v => recordBytes tag (encode v)).getD []).length))
      (bodyOffset + payload) ((policy.map fun v => recordBytes tag (encode v)).getD []) := by
  cases policy with
  | none => exact nil _ _
  | some v =>
    intro buf hle
    simp only [writePolicy, hwrite v buf hle, Option.map_id, id, Option.map_some, Option.getD_some,
      length_recordBytes, hlen v]
    cases put buf (bodyOffset + payload) (recordBytes tag (encode v)) <;> rfl

theorem writeStageRecords_writes (stage : StageSpec) (payload : Nat) :
    Writes (fun buf => writeStageRecords stage buf payload)
      (fun buf => (buf, payload + (stage.slots.map Slot.record).flatten.length))
      (bodyOffset + payload) (stage.slots.map Slot.record).flatten := by
  let limiter := (stage.limiter.map fun v => recordBytes .policyLimiter (limiterBytes v)).getD []
  let timeout := (stage.timeout.map fun v => recordBytes .policyTimeout (timeoutBytes v)).getD []
  let retry := (stage.retry.map fun v => recordBytes .policyRetry (retryBytes v)).getD []
  let breaker := (stage.breaker.map fun v => recordBytes .policyBreaker (breakerBytes v)).getD []
  have hrecords : (stage.slots.map Slot.record).flatten =
      limiter ++ (timeout ++ (retry ++ breaker)) := by
    simp [StageSpec.slots, PolicyKind.all, Slot.record, StageSpec.policyBytes, PolicyKind.nodeTag,
      limiter, timeout, retry, breaker, Function.comp_def]
  have hend : payload + (limiter ++ (timeout ++ (retry ++ breaker))).length =
      payload + limiter.length + timeout.length + retry.length + breaker.length := by
    simp only [List.length_append]
    omega
  rw [hrecords, hend]
  refine (writePolicy_writes stage.limiter payload (writeLimiter_writes payload)
    length_limiterBytes).seq (bodyOffset + (payload + limiter.length)) ?_ (Nat.add_assoc _ _ _).symm
  refine (writePolicy_writes stage.timeout _ (writeTimeout_writes _) length_timeoutBytes).seq
    (bodyOffset + (payload + limiter.length + timeout.length)) ?_ (Nat.add_assoc _ _ _).symm
  refine (writePolicy_writes stage.retry _ (writeRetry_writes _) length_retryBytes).seq
    (bodyOffset + (payload + limiter.length + timeout.length + retry.length)) ?_
    (Nat.add_assoc _ _ _).symm
  exact writePolicy_writes stage.breaker _ (writeBreaker_writes _) length_breakerBytes

def policySlots (stages : List StageSpec) : List Slot := stages.flatMap StageSpec.slots

theorem writeRecords_writes (stages : List StageSpec) :
    Writes (writeRecords payload stages) id (bodyOffset + payload)
      ((policySlots stages).map Slot.record).flatten := by
  induction stages generalizing payload with
  | nil => exact nil id _
  | cons stage stages ih =>
    rw [policySlots, List.flatMap_cons, List.map_append, List.flatten_append]
    exact (writeStageRecords_writes stage payload).seq
      (bodyOffset + (payload + (stage.slots.map Slot.record).flatten.length)) (ih _)
      (Nat.add_assoc _ _ _).symm

def heapEntries {β : Type} (encode : Nat → β → List UInt8) (run : β → List UInt8) :
    Nat → List β → List (List UInt8)
  | _, [] => []
  | heap, row :: rows => encode heap row :: heapEntries encode run (heap + (run row).length) rows

theorem heapEntries_getElem? {β : Type} {encode : Nat → β → List UInt8} {run : β → List UInt8}
    {heap i : Nat} {rows : List β} {row : β} (h : rows[i]? = some row) :
    (heapEntries encode run heap rows)[i]? =
      some (encode (heap + ((rows.map run).take i).flatten.length) row) := by
  induction rows generalizing heap i with
  | nil => simp at h
  | cons head rows ih =>
    cases i with
    | zero =>
      obtain rfl : head = row := by simpa using h
      simp [heapEntries]
    | succ i =>
      have hoff : heap + (run head).length + ((rows.map run).take i).flatten.length =
          heap + (((head :: rows).map run).take (i + 1)).flatten.length := by
        simp only [List.map_cons, List.take_succ_cons, List.flatten_cons, List.length_append]
        omega
      rw [heapEntries, List.getElem?_cons_succ, ih (by simpa using h), hoff]

theorem length_heapEntries {β : Type} (encode : Nat → β → List UInt8) (run : β → List UInt8)
    (heap : Nat) (rows : List β) : (heapEntries encode run heap rows).length = rows.length := by
  induction rows generalizing heap with
  | nil => rfl
  | cons head rows ih => rw [heapEntries, List.length_cons, ih, List.length_cons]

theorem length_of_mem_heapEntries {β : Type} {encode : Nat → β → List UInt8}
    {run : β → List UInt8} {len heap : Nat} {rows : List β}
    (hlen : ∀ heap row, (encode heap row).length = len) :
    ∀ e ∈ heapEntries encode run heap rows, e.length = len := by
  intro e he
  obtain ⟨i, hi⟩ := List.mem_iff_getElem?.mp he
  have hlt : i < rows.length := by
    rw [← length_heapEntries encode run heap]
    exact (List.getElem?_eq_some_iff.mp hi).1
  rw [heapEntries_getElem? (List.getElem?_eq_getElem hlt)] at hi
  cases hi
  exact hlen _ _

def nameBytes (heap : Nat) (name : List UInt8) : List UInt8 :=
  offsetBytes heap ++ offsetBytes name.length

theorem length_nameBytes (heap : Nat) (name : List UInt8) :
    (nameBytes heap name).length = RegistryView.nameEntryLen := by
  simp [nameBytes, RegistryView.nameEntryLen]

def nameEntries (heap : Nat) (names : List (List UInt8)) : List (List UInt8) :=
  heapEntries nameBytes id heap names

theorem length_of_mem_nameEntries (heap : Nat) (names : List (List UInt8)) :
    ∀ e ∈ nameEntries heap names, e.length = RegistryView.nameEntryLen :=
  length_of_mem_heapEntries length_nameBytes

theorem length_nameEntries (heap : Nat) (names : List (List UInt8)) :
    (nameEntries heap names).flatten.length = names.length * 8 := by
  rw [length_flatten_of_length_eq (length_of_mem_nameEntries heap names), nameEntries,
    length_heapEntries, RegistryView.nameEntryLen]

theorem writeNames_writes (nameTable i heap : Nat) (names : List (List UInt8))
    (hapart : nameTable + (i + names.length) * 8 ≤ bodyOffset + heap) :
    WritesBoth (writeNames nameTable i heap names) (fun buf => (buf, heap + names.flatten.length))
      (nameTable + i * 8) (nameEntries heap names).flatten (bodyOffset + heap) names.flatten := by
  induction names generalizing i heap with
  | nil =>
    exact nil _ hapart
  | cons name names ih =>
    rw [List.length_cons] at hapart
    have hrest := ih (i + 1) (heap + name.length) (by omega)
    have hend : heap + (name :: names).flatten.length = heap + name.length + names.flatten.length := by
      rw [List.flatten_cons, List.length_append, Nat.add_assoc]
    rw [hend]
    simp only [nameEntries, heapEntries, nameBytes, List.flatten_cons, List.append_assoc]
    refine table (put _ _) (nameTable + i * 8 + 4) ?_ (by simp) (by omega)
    refine table (put _ _) (nameTable + (i + 1) * 8) ?_ (by simp; omega) (by omega)
    refine WritesBoth.heap (put _ _) (bodyOffset + (heap + name.length)) hrest
      (Nat.add_assoc _ _ _).symm ?_
    rw [← nameEntries, length_nameEntries]
    omega

def sortedBytes (sorted : List UInt16) : List (List UInt8) :=
  sorted.map fun ordinal => leBytes 2 ordinal.toNat

theorem length_sortedBytes (sorted : List UInt16) :
    (sortedBytes sorted).flatten.length = sorted.length * 2 := by
  have hlen : ∀ e ∈ sortedBytes sorted, e.length = 2 := by simp [sortedBytes]
  rw [length_flatten_of_length_eq hlen, sortedBytes, List.length_map]

theorem writeSorted_writes (sortedTable k : Nat) (sorted : List UInt16) :
    Writes (writeSorted sortedTable k sorted) id (sortedTable + k * 2)
      (sortedBytes sorted).flatten := by
  induction sorted generalizing k with
  | nil => exact nil id _
  | cons ordinal sorted ih =>
    refine (Writes.put _ _).seq (sortedTable + (k + 1) * 2) (ih (k + 1)) ?_
    simp [RegistryView.sortedEntryLen]
    omega

def bindingBytes (heap : Nat) (binding : ConfigBindingSpec) : List UInt8 :=
  leBytes 2 binding.nodeOrdinal.toNat ++ (leBytes 2 binding.fieldTag.toNat ++
    (offsetBytes binding.key.length ++ (offsetBytes heap ++ (leBytes 4 0 ++
      (leBytes 8 binding.defaultValue.kind.toUInt64.toNat ++
        leBytes 8 binding.defaultValue.value.toNat)))))

theorem length_bindingBytes (heap : Nat) (binding : ConfigBindingSpec) :
    (bindingBytes heap binding).length = ConfigBindingView.len := by
  simp [bindingBytes, ConfigBindingView.len]

def bindingEntries (heap : Nat) (config : List ConfigBindingSpec) : List (List UInt8) :=
  heapEntries bindingBytes ConfigBindingSpec.key heap config

def keyBytes (config : List ConfigBindingSpec) : List (List UInt8) :=
  config.map ConfigBindingSpec.key

theorem length_of_mem_bindingEntries (heap : Nat) (config : List ConfigBindingSpec) :
    ∀ e ∈ bindingEntries heap config, e.length = ConfigBindingView.len :=
  length_of_mem_heapEntries length_bindingBytes

theorem length_bindingEntries (heap : Nat) (config : List ConfigBindingSpec) :
    (bindingEntries heap config).flatten.length = config.length * 32 := by
  rw [length_flatten_of_length_eq (length_of_mem_bindingEntries heap config),
    bindingEntries, length_heapEntries, ConfigBindingView.len]

theorem writeBindings_writes (entries i heap : Nat) (config : List ConfigBindingSpec)
    (hapart : entries + (i + config.length) * 32 ≤ bodyOffset + heap) :
    WritesBoth (writeBindings entries i heap config) id (entries + i * 32)
      (bindingEntries heap config).flatten (bodyOffset + heap) (keyBytes config).flatten := by
  induction config generalizing i heap with
  | nil =>
    exact nil id hapart
  | cons binding config ih =>
    rw [List.length_cons] at hapart
    have hrest := ih (i + 1) (heap + binding.key.length) (by omega)
    simp only [bindingEntries, heapEntries, bindingBytes, keyBytes, List.map_cons,
      List.flatten_cons, List.append_assoc]
    refine table (put _ _) (entries + i * 32 + 2) ?_ (by simp) (by omega)
    refine table (put _ _) (entries + i * 32 + 4) ?_ (by simp) (by omega)
    refine table (put _ _) (entries + i * 32 + 8) ?_ (by simp) (by omega)
    refine table (put _ _) (entries + i * 32 + 12) ?_ (by simp) (by omega)
    refine table (put _ _) (entries + i * 32 + 16) ?_ (by simp) (by omega)
    refine table (put _ _) (entries + i * 32 + 24) ?_ (by simp) (by omega)
    refine table (put _ _) (entries + (i + 1) * 32) ?_ (by simp; omega) (by omega)
    refine WritesBoth.heap (put _ _) (bodyOffset + (heap + binding.key.length)) hrest
      (Nat.add_assoc _ _ _).symm ?_
    rw [← bindingEntries, length_bindingEntries]
    omega

end Kwokka.Ir
