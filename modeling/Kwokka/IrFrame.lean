import Kwokka.IrReadBack

/-! What writing a conductor does to the caller's buffer. Every size is checked before
the first write, and from then on the writer is a list of writes inside the bytes it
has cleared: nothing behind them changes, and nothing that stood there before shows. -/

namespace Kwokka.Ir

open Bytes Outcome

/-- `write_conductor` with the buffer it borrows: `none` is an index out of range. -/
def writeConductorIn (buf : List UInt8) (blob : ConductorBlob) :
    Option (Except WriteError Nat × List UInt8) :=
  match Layout.compute blob with
  | .ok layout =>
    if buf.length < layout.total then
      some (.error (.bufferTooSmall layout.total buf.length), buf)
    else (writeSections buf layout blob).map fun out => (.ok layout.total, out)
  | .err error => some (.error error, buf)
  | .panic => none

theorem writeConductor_eq (buf : List UInt8) (blob : ConductorBlob) :
    writeConductor buf blob =
      match writeConductorIn buf blob with
      | some (.ok n, out) => .ok (n, out)
      | some (.error error, _) => .err error
      | none => .panic := by
  unfold writeConductor writeConductorIn
  cases Layout.compute blob with
  | ok layout =>
    by_cases hlen : buf.length < layout.total
    · simp [require, hlen, Nat.not_le.mpr hlen]
    · simp only [ok_bind, require_of _ (Nat.not_lt.mp hlen), if_neg hlen]
      cases writeSections buf layout blob <;> rfl
  | _ => rfl

/-- A field the writer stores: plain bytes, or a `usize` cut down to 32 bits. -/
inductive Field
  | raw (bytes : List UInt8)
  | offset (value : Nat)

def Field.bytes : Field → List UInt8
  | raw bytes => bytes
  | offset value => offsetBytes value

def fieldBytes (fields : List Field) : List UInt8 := fields.flatMap Field.bytes

def headerFields (layout : Layout) : List Field :=
  [.raw magic, .raw (leBytes 2 version.toNat), .raw (leBytes 2 0), .offset layout.total,
    .offset headerLen, .raw (leBytes 2 NodeTag.conductorSpec.toU16.toNat), .raw (leBytes 2 0),
    .offset layout.specRecordLen, .raw (leBytes 4 layout.stageCount.toNat),
    .raw (leBytes 4 layout.edgeCount.toNat), .offset conductorHeaderLen,
    .offset layout.edgeTableOff, .offset layout.registryOff, .offset layout.configOff]

def stageFields (layout : Layout) (blob : ConductorBlob) : List Field :=
  (slotWords layout.policyHeapOff ((policySlots blob.stages).map Slot.bodyLen)).map .offset

def Slot.fields : Slot → List Field
  | (kind, some body) =>
    [.raw (leBytes 2 kind.nodeTag.toU16.toNat), .raw (leBytes 2 0),
      .offset (recordHeaderLen + body.length), .raw body]
  | (_, none) => []

def heapFields {β : Type} (encode : Nat → β → List Field) (run : β → List UInt8) :
    Nat → List β → List Field
  | _, [] => []
  | heap, row :: rows => encode heap row ++ heapFields encode run (heap + (run row).length) rows

def nameFields (heap : Nat) (name : List UInt8) : List Field :=
  [.offset heap, .offset name.length]

def bindingFields (heap : Nat) (binding : ConfigBindingSpec) : List Field :=
  [.raw (leBytes 2 binding.nodeOrdinal.toNat), .raw (leBytes 2 binding.fieldTag.toNat),
    .offset binding.key.length, .offset heap, .raw (leBytes 4 0),
    .raw (leBytes 8 binding.defaultValue.kind.toUInt64.toNat),
    .raw (leBytes 8 binding.defaultValue.value.toNat)]

def frontPatches (layout : Layout) (blob : ConductorBlob) : List (Nat × List Field) :=
  [(0, headerFields layout), (bodyOffset + conductorHeaderLen, stageFields layout blob),
    (bodyOffset + layout.edgeTableOff, [.raw (blob.edges.map edgeBytes).flatten]),
    (bodyOffset + layout.policyHeapOff, (policySlots blob.stages).flatMap Slot.fields)]

def registryPatches (layout : Layout) : Option RegistrySpec → List (Nat × List Field)
  | none => []
  | some registry =>
    [(bodyOffset + layout.registryOff, heapFields nameFields id layout.heapOff registry.names),
      (bodyOffset + layout.heapOff, [.raw registry.names.flatten]),
      (bodyOffset + layout.registryOff + layout.stageCount.toNat * RegistryView.nameEntryLen,
        [.raw (sortedBytes registry.sorted).flatten])]

def configPatches (layout : Layout) (config : List ConfigBindingSpec) (heap : Nat) :
    List (Nat × List Field) :=
  if config.isEmpty then []
  else
    [(bodyOffset + layout.configOff, .offset config.length :: .raw (leBytes 4 0) ::
        heapFields bindingFields ConfigBindingSpec.key heap config),
      (bodyOffset + heap, [.raw (keyBytes config).flatten])]

def Layout.patches (layout : Layout) (blob : ConductorBlob) : List (Nat × List Field) :=
  frontPatches layout blob ++ registryPatches layout blob.registry ++
    configPatches layout blob.config (layout.heapOff + blob.names.flatten.length)

def patchBytes (patches : List (Nat × List Field)) : List (Nat × List UInt8) :=
  patches.map fun patch => (patch.1, fieldBytes patch.2)

section Encoding

@[simp]
theorem fieldBytes_nil : fieldBytes [] = [] := rfl

@[simp]
theorem fieldBytes_cons (field : Field) (fields : List Field) :
    fieldBytes (field :: fields) = field.bytes ++ fieldBytes fields := rfl

@[simp]
theorem fieldBytes_append (fields fields' : List Field) :
    fieldBytes (fields ++ fields') = fieldBytes fields ++ fieldBytes fields' := by
  simp [fieldBytes]

theorem fieldBytes_header (layout : Layout) :
    fieldBytes (headerFields layout) = headerBytes layout ++ bodyHeaderBytes layout := by
  simp [headerFields, Field.bytes, headerBytes, bodyHeaderBytes]

theorem fieldBytes_stages (layout : Layout) (blob : ConductorBlob) :
    fieldBytes (stageFields layout blob) = stageTableBytes layout blob := by
  rw [fieldBytes, stageFields, stageTableBytes, slotBytes, List.flatMap_map]
  rfl

theorem fieldBytes_slots (slots : List Slot) :
    fieldBytes (slots.flatMap Slot.fields) = (slots.map Slot.record).flatten := by
  induction slots with
  | nil => rfl
  | cons slot slots ih =>
    rw [List.flatMap_cons, fieldBytes_append, ih, List.map_cons, List.flatten_cons]
    obtain ⟨kind, body⟩ := slot
    cases body with
    | none => rfl
    | some => simp [Slot.fields, Slot.record, Field.bytes, recordBytes, frameBytes]

theorem fieldBytes_heap {β : Type} {encode : Nat → β → List Field} {bytes : Nat → β → List UInt8}
    {run : β → List UInt8} (h : ∀ heap row, fieldBytes (encode heap row) = bytes heap row)
    (heap : Nat) (rows : List β) :
    fieldBytes (heapFields encode run heap rows) = (heapEntries bytes run heap rows).flatten := by
  induction rows generalizing heap with
  | nil => rfl
  | cons row rows ih =>
    rw [heapFields, fieldBytes_append, h, ih, heapEntries, List.flatten_cons]

theorem fieldBytes_names (heap : Nat) (names : List (List UInt8)) :
    fieldBytes (heapFields nameFields id heap names) = (nameEntries heap names).flatten :=
  fieldBytes_heap (fun heap name => by simp [nameFields, Field.bytes, nameBytes]) heap names

theorem fieldBytes_bindings (heap : Nat) (config : List ConfigBindingSpec) :
    fieldBytes (heapFields bindingFields ConfigBindingSpec.key heap config) =
      (bindingEntries heap config).flatten :=
  fieldBytes_heap (fun heap binding => by simp [bindingFields, Field.bytes, bindingBytes])
    heap config

end Encoding

variable {layout : Layout} {blob : ConductorBlob}

theorem writeRegistryIfAny_patches (hfits : layout.Fits blob) :
    Patches (fun buf => writeRegistryIfAny buf layout blob.registry layout.heapOff)
      (fun buf => (buf, layout.heapOff + blob.names.flatten.length)) layout.total
      (patchBytes (registryPatches layout blob.registry)) := by
  have hoffsets := hfits.offsets
  have hstage := hfits.stageCount
  have hbodyOffset : bodyOffset = 24 := rfl
  cases hreg : blob.registry with
  | none =>
    have hnames : blob.names = [] := by rw [ConductorBlob.names, hreg]; rfl
    rw [hnames]
    exact Patches.nil (fun buf => (buf, layout.heapOff)) layout.total
  | some reg =>
    obtain ⟨hoff, hbefore, _⟩ := hfits.registryOff reg hreg
    obtain ⟨hnamesLen, _⟩ := hfits.arity reg hreg
    rw [names_of_mem hreg]
    have hnames := writeNames_writes (bodyOffset + layout.registryOff) 0 layout.heapOff reg.names
      (by omega)
    rw [Nat.zero_mul, Nat.add_zero, ← fieldBytes_names] at hnames
    have hsorted := writeSorted_writes
      (bodyOffset + layout.registryOff + layout.stageCount.toNat * RegistryView.nameEntryLen) 0
      reg.sorted
    have hpatches : patchBytes (registryPatches layout (some reg)) =
        [(bodyOffset + layout.registryOff, fieldBytes (heapFields nameFields id layout.heapOff
            reg.names)), (bodyOffset + layout.heapOff, reg.names.flatten)] ++
          ([(bodyOffset + layout.registryOff + layout.stageCount.toNat * RegistryView.nameEntryLen,
            (sortedBytes reg.sorted).flatten)] ++ []) := by
      simp [patchBytes, registryPatches, Field.bytes]
    rw [hpatches]
    refine (Patches.of_writesBoth hnames (by omega)).seq ?_
    refine (Patches.of_writes hsorted (by simp only [RegistryView.nameEntryLen]; omega)).seq ?_
    exact Patches.nil (fun buf => (buf, layout.heapOff + reg.names.flatten.length)) layout.total

theorem writeConfig_patches (hfits : layout.Fits blob) :
    Patches (fun buf =>
        if blob.config.isEmpty then some buf
        else writeConfig buf layout blob.config (layout.heapOff + blob.names.flatten.length))
      id layout.total
      (patchBytes (configPatches layout blob.config
        (layout.heapOff + blob.names.flatten.length))) := by
  have hoffsets := hfits.offsets
  have hbodyOffset : bodyOffset = 24 := rfl
  cases hempty : blob.config.isEmpty with
  | true =>
    rw [configPatches, if_pos hempty]
    exact Patches.nil id layout.total
  | false =>
    have hne : blob.config ≠ [] := by
      rintro hnil
      simp [hnil] at hempty
    obtain ⟨_, hconfig⟩ := hfits.configOff hne
    have hboth := writeConfig_writes layout blob.config
      (layout.heapOff + blob.names.flatten.length) (by omega)
    have hpatches : patchBytes (configPatches layout blob.config
        (layout.heapOff + blob.names.flatten.length)) =
        [(bodyOffset + layout.configOff, offsetBytes blob.config.length ++ (leBytes 4 0 ++
            (bindingEntries (layout.heapOff + blob.names.flatten.length) blob.config).flatten)),
          (bodyOffset + (layout.heapOff + blob.names.flatten.length),
            (keyBytes blob.config).flatten)] := by
      simp [patchBytes, configPatches, hempty, Field.bytes, fieldBytes_bindings]
    rw [hpatches]
    exact Patches.of_writesBoth hboth (by omega)

theorem frontPatches_bytes (layout : Layout) (blob : ConductorBlob) :
    patchBytes (frontPatches layout blob) =
      [(0, headerBytes layout ++ bodyHeaderBytes layout),
        (bodyOffset + conductorHeaderLen, stageTableBytes layout blob),
        (bodyOffset + layout.edgeTableOff, (blob.edges.map edgeBytes).flatten),
        (bodyOffset + layout.policyHeapOff, ((policySlots blob.stages).map Slot.record).flatten)] := by
  simp [patchBytes, frontPatches, fieldBytes_header, fieldBytes_stages, fieldBytes_slots,
    Field.bytes]

theorem patchBytes_append (patches patches' : List (Nat × List Field)) :
    patchBytes (patches ++ patches') = patchBytes patches ++ patchBytes patches' := by
  simp [patchBytes]

theorem writeSections_patches (hfits : layout.Fits blob) :
    Patches (fun buf => writeSections buf layout blob) id layout.total
      ((0, List.replicate layout.total 0) :: patchBytes (layout.patches blob)) := by
  have hoffsets := hfits.offsets
  have hbodyOffset : bodyOffset = 24 := rfl
  have hstages := writeStages_writes (bodyOffset + conductorHeaderLen) 0 layout.policyHeapOff
    blob.stages
  rw [recordBodyLens_policySlots, ← stageTableBytes, Nat.zero_mul, Nat.add_zero] at hstages
  have hedges := writeEdges_writes (bodyOffset + layout.edgeTableOff) 0 blob.edges
  rw [Layout.patches, List.append_assoc, patchBytes_append, patchBytes_append, frontPatches_bytes]
  refine (Patches.of_writes (Writes.put 0 _) (Nat.zero_le _)).seq ?_
  refine (Patches.of_writes (writeHeader_writes layout) (Nat.zero_le _)).seq ?_
  refine (Patches.of_writes hstages (by simp only [conductorHeaderLen]; omega)).seq ?_
  refine (Patches.of_writes hedges (by omega)).seq ?_
  refine (Patches.of_writes (writeRecords_writes layout.policyHeapOff blob.stages) (by omega)).seq ?_
  exact (writeRegistryIfAny_patches hfits).seq (writeConfig_patches hfits)

section Within

theorem registryPatches_within (hfits : layout.Fits blob) :
    ∀ p ∈ patchBytes (registryPatches layout blob.registry), p.1 + p.2.length ≤ layout.total := by
  have hstrings := hfits.strings
  have htotal := hfits.total
  have hstage := hfits.stageCount
  have hbodyOffset : bodyOffset = 24 := rfl
  cases hreg : blob.registry with
  | none => simp [patchBytes, registryPatches]
  | some reg =>
    obtain ⟨_, hbefore, _⟩ := hfits.registryOff reg hreg
    obtain ⟨hnamesLen, hsortedLen⟩ := hfits.arity reg hreg
    have hentries := length_nameEntries layout.heapOff reg.names
    have hsorted := length_sortedBytes reg.sorted
    rw [names_of_mem hreg] at hstrings
    simp only [patchBytes, registryPatches, List.map_cons, List.map_nil, fieldBytes_names,
      fieldBytes_cons, fieldBytes_nil, Field.bytes, List.append_nil, List.forall_mem_cons,
      RegistryView.nameEntryLen]
    exact ⟨by omega, by omega, by omega, by simp⟩

theorem configPatches_within (hfits : layout.Fits blob) :
    ∀ p ∈ patchBytes (configPatches layout blob.config
      (layout.heapOff + blob.names.flatten.length)), p.1 + p.2.length ≤ layout.total := by
  have hoffsets := hfits.offsets
  have hbodyOffset : bodyOffset = 24 := rfl
  unfold configPatches
  split
  · simp [patchBytes]
  · next hempty =>
    obtain ⟨_, hconfig⟩ := hfits.configOff fun hnil => hempty (List.isEmpty_iff.mpr hnil)
    have hentries := length_bindingEntries (layout.heapOff + blob.names.flatten.length) blob.config
    simp only [patchBytes, List.map_cons, List.map_nil, fieldBytes_bindings, fieldBytes_cons,
      fieldBytes_nil, Field.bytes, List.append_nil, List.forall_mem_cons, List.length_append,
      length_offsetBytes, length_leBytes]
    exact ⟨by omega, by omega, by simp⟩

theorem frontPatches_within (hfits : layout.Fits blob) :
    ∀ p ∈ patchBytes (frontPatches layout blob), p.1 + p.2.length ≤ layout.total := by
  have hoffsets := hfits.offsets
  have hbodyOffset : bodyOffset = 24 := rfl
  have hedges := length_edgeTable blob.edges
  have hstages := length_stageTableBytes layout blob
  have hrecords : ((policySlots blob.stages).map Slot.record).flatten.length =
    recordsLen blob.stages := rfl
  simp only [frontPatches_bytes, List.forall_mem_cons, List.length_append, length_headerBytes,
    length_bodyHeaderBytes, conductorHeaderLen]
  exact ⟨by omega, by omega, by omega, by omega, by simp⟩

theorem patches_within (hfits : layout.Fits blob) :
    ∀ p ∈ patchBytes (layout.patches blob), p.1 + p.2.length ≤ layout.total := by
  intro p hp
  rw [Layout.patches, patchBytes_append, patchBytes_append] at hp
  obtain hp | hp := List.mem_append.mp hp
  · obtain hp | hp := List.mem_append.mp hp
    · exact frontPatches_within hfits p hp
    · exact registryPatches_within hfits p hp
  · exact configPatches_within hfits p hp

end Within

section Offsets

theorem le_slotEnd {payload w : Nat} {lens : List (Option Nat)} (h : w ∈ slotWords payload lens) :
    w ≤ slotEnd payload lens := by
  induction lens generalizing payload with
  | nil => simp [slotWords] at h
  | cons len lens ih =>
    cases len with
    | none =>
      obtain rfl | h := List.mem_cons.mp h
      · exact Nat.zero_le _
      · exact ih h
    | some =>
      obtain rfl | h := List.mem_cons.mp h
      · rw [slotEnd, slotEnd_eq_sum]
        omega
      · exact ih h

theorem le_heapEnd {β : Type} {encode : Nat → β → List Field} {run : β → List UInt8} {v : Nat}
    (hrow : ∀ heap row, .offset v ∈ encode heap row → v ≤ heap + (run row).length)
    {heap : Nat} {rows : List β} (h : .offset v ∈ heapFields encode run heap rows) :
    v ≤ heap + (rows.map run).flatten.length := by
  induction rows generalizing heap with
  | nil => simp [heapFields] at h
  | cons row rows ih =>
    rw [List.map_cons, List.flatten_cons, List.length_append]
    obtain h | h := List.mem_append.mp h
    · have := hrow heap row h
      omega
    · have := ih h
      omega

theorem slot_offset_le {slots : List Slot} {v : Nat}
    (h : .offset v ∈ slots.flatMap Slot.fields) : v ≤ (slots.map Slot.record).flatten.length := by
  obtain ⟨⟨kind, body⟩, hslot, h⟩ := List.mem_flatMap.mp h
  have hle : (Slot.record (kind, body)).length ≤ (slots.map Slot.record).flatten.length :=
    (List.sublist_flatten_of_mem (List.mem_map_of_mem hslot)).length_le
  cases body with
  | none => simp [Slot.fields] at h
  | some body =>
    have hrecord : (Slot.record (kind, some body)).length = recordHeaderLen + body.length :=
      length_recordBytes _ _
    simp [Slot.fields] at h
    omega

theorem frontPatches_offset_lt (hfits : layout.Fits blob) :
    ∀ patch ∈ frontPatches layout blob, ∀ v, .offset v ∈ patch.2 → v < 2 ^ 32 := by
  have hoffsets := hfits.offsets
  have hlt := hfits.total_lt
  have hregistry : layout.registryOff ≤ layout.heapOff := by
    cases hreg : blob.registry with
    | none => rw [hfits.no_registry hreg]; exact Nat.zero_le _
    | some reg => have := hfits.registryOff reg hreg; omega
  have hconfig : layout.configOff ≤ layout.heapOff := by
    by_cases hempty : blob.config = []
    · rw [hfits.no_config hempty]; exact Nat.zero_le _
    · have := hfits.configOff hempty; omega
  simp only [frontPatches, List.forall_mem_cons]
  refine ⟨?_, ?_, by simp, ?_, by simp⟩
  · intro v hv
    simp [headerFields, headerLen, conductorHeaderLen] at hv
    omega
  · intro v hv
    obtain ⟨w, hw, hv⟩ := List.mem_map.mp hv
    obtain rfl := Field.offset.inj hv
    have hle := le_slotEnd hw
    rw [slotEnd_eq, ← recordsLen] at hle
    omega
  · intro v hv
    have hle := slot_offset_le hv
    rw [← recordsLen] at hle
    omega

theorem registryPatches_offset_lt (hfits : layout.Fits blob) :
    ∀ patch ∈ registryPatches layout blob.registry, ∀ v, .offset v ∈ patch.2 → v < 2 ^ 32 := by
  have hstrings := hfits.strings
  have htotal := hfits.total
  have hlt := hfits.total_lt
  cases hreg : blob.registry with
  | none => simp [registryPatches]
  | some =>
    rw [names_of_mem hreg] at hstrings
    simp only [registryPatches, List.forall_mem_cons]
    refine ⟨?_, by simp, by simp, by simp⟩
    intro v hv
    have hrow : ∀ heap name, .offset v ∈ nameFields heap name → v ≤ heap + (id name).length := by
      intro heap name h
      simp [nameFields] at h
      simp only [id]
      omega
    have hle := le_heapEnd hrow hv
    rw [List.map_id] at hle
    omega

theorem configPatches_offset_lt (hfits : layout.Fits blob) :
    ∀ patch ∈ configPatches layout blob.config (layout.heapOff + blob.names.flatten.length),
      ∀ v, .offset v ∈ patch.2 → v < 2 ^ 32 := by
  have hoffsets := hfits.offsets
  have hlt := hfits.total_lt
  unfold configPatches
  split
  · simp
  · next hempty =>
    obtain ⟨_, hconfig⟩ := hfits.configOff fun hnil => hempty (List.isEmpty_iff.mpr hnil)
    simp only [List.forall_mem_cons]
    refine ⟨?_, by simp, by simp⟩
    intro v hv
    simp only [List.mem_cons, Field.offset.injEq, reduceCtorEq, false_or] at hv
    obtain rfl | hv := hv
    · omega
    · have hrow : ∀ heap binding, .offset v ∈ bindingFields heap binding →
          v ≤ heap + binding.key.length := by
        intro heap binding h
        simp [bindingFields] at h
        omega
      have hle := le_heapEnd hrow hv
      rw [← keyBytes] at hle
      omega

theorem patches_offset_lt (hfits : layout.Fits blob) :
    ∀ patch ∈ layout.patches blob, ∀ v, .offset v ∈ patch.2 → v < 2 ^ 32 := by
  intro patch hpatch
  obtain hpatch | hpatch := List.mem_append.mp hpatch
  · obtain hpatch | hpatch := List.mem_append.mp hpatch
    · exact frontPatches_offset_lt hfits patch hpatch
    · exact registryPatches_offset_lt hfits patch hpatch
  · exact configPatches_offset_lt hfits patch hpatch

end Offsets

section Total

theorem addOrTooLarge_ne_panic (a b : Nat) : addOrTooLarge a b ≠ .panic := ofOption_ne_panic _ _

theorem mulOrTooLarge_ne_panic (a b : Nat) : mulOrTooLarge a b ≠ .panic := ofOption_ne_panic _ _

theorem align8_ne_panic (value : Nat) : align8 value ≠ .panic := by
  simp [align8, addOrTooLarge_ne_panic]

theorem foldlM_ne_panic {β : Type} {l : List β} {f : Nat → β → Outcome WriteError Nat} {init : Nat}
    (h : ∀ a b, f a b ≠ .panic) : l.foldlM f init ≠ .panic := by
  refine (Ensures.foldlM (I := fun _ => True) trivial fun a b _ _ => ?_).ne_panic
  have hne := h a b
  cases hf : f a b with
  | panic => exact absurd hf hne
  | _ => trivial

theorem Layout.compute_ne_panic (blob : ConductorBlob) : Layout.compute blob ≠ .panic := by
  have harity : validateRegistryArity blob ≠ .panic := by
    unfold validateRegistryArity
    split <;> simp
  have hpayload : ∀ stage : StageSpec, stage.payloadLen ≠ .panic := fun stage =>
    foldlM_ne_panic fun _ _ => addOrTooLarge_ne_panic _ _
  have hpolicies : ∀ start, blob.stages.foldlM (fun after stage => do
      addOrTooLarge after (← stage.payloadLen)) start ≠ .panic := fun start =>
    foldlM_ne_panic fun after stage => by simp [hpayload, addOrTooLarge_ne_panic]
  have hregistryLen : ∀ count, registryLen count ≠ .panic := by
    simp [registryLen, mulOrTooLarge_ne_panic, addOrTooLarge_ne_panic, align8_ne_panic]
  have hregistry : ∀ start, placeRegistry blob start ≠ .panic := by
    intro start
    unfold placeRegistry
    split <;> simp [hregistryLen, addOrTooLarge_ne_panic]
  have hconfig : ∀ start, placeConfig blob start ≠ .panic := by
    intro start
    unfold placeConfig
    split <;> simp [mulOrTooLarge_ne_panic, addOrTooLarge_ne_panic]
  have hstrings : stringHeapLen blob ≠ .panic := by
    simp [stringHeapLen, foldlM_ne_panic, addOrTooLarge_ne_panic]
  simp [Layout.compute, harity, hpolicies, hregistry, hconfig, hstrings, mulOrTooLarge_ne_panic,
    addOrTooLarge_ne_panic, align8_ne_panic]

end Total

theorem writeSections_eq (hfits : layout.Fits blob) :
    ∃ image, image.length = layout.total ∧
      putAll (List.replicate layout.total 0) (patchBytes (layout.patches blob)) = some image ∧
      ∀ buf, layout.total ≤ buf.length →
        writeSections buf layout blob = some (image ++ buf.drop layout.total) := by
  have hwithin : ∀ p ∈ patchBytes (layout.patches blob),
      p.1 + p.2.length ≤ (List.replicate layout.total (0 : UInt8)).length := by
    rw [List.length_replicate]
    exact patches_within hfits
  obtain ⟨image, himage⟩ := putAll_eq_some hwithin
  refine ⟨image, by rw [putAll_length himage, List.length_replicate], himage, ?_⟩
  intro buf hroom
  have hclear : put buf 0 (List.replicate layout.total 0) =
      some (List.replicate layout.total 0 ++ buf.drop layout.total) := by
    rw [put, if_pos (by simpa using hroom)]
    simp
  have hwrites := writeSections_patches hfits buf hroom
  rw [putAll, hclear, Option.bind_some, putAll_append_right _ hwithin, himage] at hwrites
  exact hwrites

structure Wrote (blob : ConductorBlob) (buf out : List UInt8) (n : Nat) : Prop where
  aligned : n % 8 = 0
  stored : ∃ total, readU32 (out.take n) 8 = .ok total ∧ total.toNat = n
  behind : n ≤ buf.length ∧ out.length = buf.length ∧ out.drop n = buf.drop n
  offsets : ∃ layout, Layout.compute blob = .ok layout ∧
    putAll (List.replicate n 0) (patchBytes (layout.patches blob)) = some (out.take n) ∧
    ∀ patch ∈ layout.patches blob, ∀ value, .offset value ∈ patch.2 → value < 2 ^ 32
  fresh : ∀ buf', n ≤ buf'.length →
    ∃ out', writeConductorIn buf' blob = some (.ok n, out') ∧ out'.take n = out.take n

theorem wrote_of_room {buf : List UInt8} (hlayout : Layout.compute blob = .ok layout)
    (hroom : layout.total ≤ buf.length) :
    ∃ out, writeConductorIn buf blob = some (.ok layout.total, out) ∧
      Wrote blob buf out layout.total := by
  have hfits := Layout.compute_fits hlayout
  have hspec := hfits.aligned
  have htotal := hfits.total
  have htotalLt := hfits.total_lt
  obtain ⟨image, himage, hclean, hwrites⟩ := writeSections_eq hfits
  have hwrite : ∀ buf', layout.total ≤ buf'.length → writeConductorIn buf' blob =
      some (.ok layout.total, image ++ buf'.drop layout.total) := by
    intro buf' hroom'
    simp only [writeConductorIn, hlayout, if_neg (Nat.not_lt.mpr hroom'), hwrites buf' hroom',
      Option.map_some]
  have htake : ∀ rest, (image ++ rest).take layout.total = image := by
    intro rest
    rw [← himage, List.take_left]
  refine ⟨_, hwrite buf hroom, by omega, ?_, ?_, ⟨layout, hlayout, ?_, patches_offset_lt hfits⟩, ?_⟩
  · have hwritten := writeSections_written hfits hroom (hwrites buf hroom)
    have htotalAt : At (image ++ buf.drop layout.total) 8 (offsetBytes layout.total) := by
      have hheader := hwritten.front.left.left.left.left
      have hword := hheader.right.right.right.left
      simpa [magic] using hword
    refine ⟨UInt32.ofNat layout.total, readU32_offset (htotalAt.take ?_) htotalLt ?_,
      toNat_ofNat_u32 htotalLt⟩
    · have := hfits.strings
      simp only [length_offsetBytes]
      omega
    · rw [htake, himage]
      omega
  · refine ⟨hroom, by simp; omega, ?_⟩
    rw [← himage, List.drop_left]
  · rw [htake]
    exact hclean
  · intro buf' hroom'
    exact ⟨_, hwrite buf' hroom', by rw [htake, htake]⟩

theorem writeConductorIn_cases (buf : List UInt8) (blob : ConductorBlob) :
    ∃ result out, writeConductorIn buf blob = some (result, out) ∧
      match result with
      | .error _ => out = buf
      | .ok n => Wrote blob buf out n := by
  cases hlayout : Layout.compute blob with
  | err error => exact ⟨.error error, buf, by simp only [writeConductorIn, hlayout], rfl⟩
  | panic => exact absurd hlayout (Layout.compute_ne_panic blob)
  | ok layout =>
    by_cases hroom : buf.length < layout.total
    · refine ⟨.error (.bufferTooSmall layout.total buf.length), buf, ?_, rfl⟩
      simp only [writeConductorIn, hlayout, if_pos hroom]
    · obtain ⟨out, hwrite, hwrote⟩ := wrote_of_room hlayout (Nat.not_lt.mp hroom)
      exact ⟨.ok layout.total, out, hwrite, hwrote⟩

/-- Writing a conductor never leaves the buffer; it fails without a trace, or it replaces the front of
the buffer by bytes that depend on the blob alone. -/
theorem writeConductor_frame (buf : List UInt8) (blob : ConductorBlob) :
    ∃ result out, writeConductorIn buf blob = some (result, out) ∧
      match result with
      | .error error => writeConductor buf blob = .err error ∧ out = buf
      | .ok n => writeConductor buf blob = .ok (n, out) ∧ Wrote blob buf out n := by
  obtain ⟨result, out, hin, hframe⟩ := writeConductorIn_cases buf blob
  have heq := writeConductor_eq buf blob
  rw [hin] at heq
  refine ⟨result, out, hin, ?_⟩
  cases result with
  | error => exact ⟨heq, hframe⟩
  | ok => exact ⟨heq, hframe⟩

end Kwokka.Ir
