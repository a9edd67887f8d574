import Kwokka.IrEncoding

/-! The layout the writer computes, and the sections that stand in the buffer once it
has written them. -/

namespace Kwokka.Ir

open Bytes Outcome

theorem addOrTooLarge_eq_ok {a b c : Nat} (h : addOrTooLarge a b = .ok c) : c = a + b := by
  cases hadd : checkedAdd a b with
  | none => simp [addOrTooLarge, hadd, ofOption] at h
  | some sum =>
    obtain rfl : sum = c := by simpa [addOrTooLarge, hadd, ofOption] using h
    exact checkedAdd_eq_some hadd

theorem mulOrTooLarge_eq_ok {a b c : Nat} (h : mulOrTooLarge a b = .ok c) : c = a * b := by
  cases hmul : checkedMul a b with
  | none => simp [mulOrTooLarge, hmul, ofOption] at h
  | some product =>
    obtain rfl : product = c := by simpa [mulOrTooLarge, hmul, ofOption] using h
    exact checkedMul_eq_some hmul

theorem align8_eq_ok {value aligned : Nat} (h : align8 value = .ok aligned) :
    value ≤ aligned ∧ aligned % 8 = 0 := by
  obtain ⟨bumped, hbumped, h⟩ := bind_eq_ok.mp h
  obtain rfl : bumped - bumped % 8 = aligned := by simpa using h
  have := addOrTooLarge_eq_ok hbumped
  omega

theorem u32TryFrom_eq_ok {value : Nat} {word : UInt32}
    (h : ofOption WriteError.specTooLarge (u32TryFrom value) = .ok word) :
    word.toNat = value ∧ value < 2 ^ 32 := by
  unfold u32TryFrom at h
  split at h
  · next hlt =>
    obtain rfl : UInt32.ofNat value = word := by simpa [ofOption] using h
    exact ⟨UInt32.toNat_ofNat_of_lt hlt, hlt⟩
  · simp [ofOption] at h

theorem slotEnd_eq_sum (payload : Nat) (lens : List (Option Nat)) :
    slotEnd payload lens =
      payload + ((lens.filterMap id).map (recordHeaderLen + ·)).sum := by
  induction lens generalizing payload with
  | nil => rfl
  | cons len lens ih =>
    cases len with
    | none => simp [slotEnd, ih]
    | some => simp [slotEnd, ih, Nat.add_assoc]

theorem payloadLen_eq_ok {stage : StageSpec} {len : Nat} (h : stage.payloadLen = .ok len) :
    len = (stage.slots.map Slot.record).flatten.length := by
  have hsum : len = 0 + ((stage.recordBodyLens.filterMap id).map (recordHeaderLen + ·)).sum :=
    foldlM_add (fun _ _ _ hr => addOrTooLarge_eq_ok hr) h
  have hend := slotEnd_eq_sum 0 stage.recordBodyLens
  have hslots := slotEnd_eq 0 stage.slots
  rw [StageSpec.recordBodyLens_eq] at hend hsum
  omega

def recordsLen (stages : List StageSpec) : Nat :=
  ((policySlots stages).map Slot.record).flatten.length

theorem sum_payloads (stages : List StageSpec) :
    (stages.map fun stage => (stage.slots.map Slot.record).flatten.length).sum =
      recordsLen stages := by
  induction stages with
  | nil => rfl
  | cons stage stages ih =>
    rw [List.map_cons, List.sum_cons, ih, recordsLen, recordsLen, policySlots, policySlots,
      List.flatMap_cons, List.map_append, List.flatten_append, List.length_append]

def ConductorBlob.names (blob : ConductorBlob) : List (List UInt8) :=
  (blob.registry.map RegistrySpec.names).getD []

variable {blob : ConductorBlob} {layout : Layout} {buf out : List UInt8}

theorem stringHeapLen_eq_ok {len : Nat} (h : stringHeapLen blob = .ok len) :
    len = blob.names.flatten.length + (keyBytes blob.config).flatten.length := by
  obtain ⟨namesLen, hnames, h⟩ := bind_eq_ok.mp h
  have hnamesLen : namesLen = 0 + (blob.names.map List.length).sum :=
    foldlM_add (fun _ _ _ hr => addOrTooLarge_eq_ok hr) hnames
  have hkeysLen : len = namesLen + (blob.config.map fun binding => binding.key.length).sum :=
    foldlM_add (fun _ _ _ hr => addOrTooLarge_eq_ok hr) h
  rw [hkeysLen, hnamesLen, keyBytes, List.length_flatten, List.length_flatten, List.map_map,
    Nat.zero_add]
  rfl

structure Layout.Fits (layout : Layout) (blob : ConductorBlob) : Prop where
  stageCount : layout.stageCount.toNat = blob.stages.length
  edgeCount : layout.edgeCount.toNat = blob.edges.length
  arity : ∀ reg ∈ blob.registry, reg.names.length = blob.stages.length ∧
    reg.sorted.length = blob.stages.length
  edgeTableOff : layout.edgeTableOff = 24 + blob.stages.length * 16
  policyHeapOff : layout.policyHeapOff = layout.edgeTableOff + blob.edges.length * 8
  heapOff : layout.policyHeapOff + recordsLen blob.stages ≤ layout.heapOff
  no_registry : blob.registry = none → layout.registryOff = 0
  registryOff : ∀ reg ∈ blob.registry,
    layout.registryOff = layout.policyHeapOff + recordsLen blob.stages ∧
    layout.registryOff + blob.stages.length * 10 ≤ layout.heapOff ∧
    (blob.config ≠ [] → layout.registryOff + blob.stages.length * 10 ≤ layout.configOff)
  no_config : blob.config = [] → layout.configOff = 0
  configOff : blob.config ≠ [] →
    layout.policyHeapOff + recordsLen blob.stages ≤ layout.configOff ∧
    layout.configOff + 8 + blob.config.length * 32 = layout.heapOff
  strings : layout.heapOff + blob.names.flatten.length +
    (keyBytes blob.config).flatten.length + 8 ≤ layout.specRecordLen
  aligned : layout.specRecordLen % 8 = 0
  total : layout.total = 16 + layout.specRecordLen
  total_lt : layout.total < 2 ^ 32

theorem Layout.Fits.offsets (h : layout.Fits blob) :
    layout.edgeTableOff = 24 + blob.stages.length * 16 ∧
    layout.policyHeapOff = layout.edgeTableOff + blob.edges.length * 8 ∧
    layout.policyHeapOff + recordsLen blob.stages ≤ layout.heapOff ∧
    layout.heapOff + blob.names.flatten.length + (keyBytes blob.config).flatten.length + 8 ≤
      layout.specRecordLen ∧ layout.total = 16 + layout.specRecordLen :=
  ⟨h.edgeTableOff, h.policyHeapOff, h.heapOff, h.strings, h.total⟩

theorem placeRegistry_eq_ok {after : Nat} {placed : Nat × Nat}
    (h : placeRegistry blob after = .ok placed) :
    after ≤ placed.2 ∧ (blob.registry = none → placed.1 = 0) ∧
    ∀ reg ∈ blob.registry, placed.1 = after ∧ placed.1 + blob.stages.length * 10 ≤ placed.2 := by
  unfold placeRegistry at h
  split at h
  · next hsome =>
    obtain ⟨len, hlen, h⟩ := bind_eq_ok.mp h
    obtain ⟨stop, hstop, h⟩ := bind_eq_ok.mp h
    obtain rfl : (after, stop) = placed := by simpa using h
    obtain ⟨names, hnames, hlen⟩ := bind_eq_ok.mp hlen
    obtain ⟨sorted, hsorted, hlen⟩ := bind_eq_ok.mp hlen
    obtain ⟨both, hboth, hlen⟩ := bind_eq_ok.mp hlen
    have h1 := mulOrTooLarge_eq_ok hnames
    have h2 := mulOrTooLarge_eq_ok hsorted
    have h3 := addOrTooLarge_eq_ok hboth
    have h4 := align8_eq_ok hlen
    have h5 := addOrTooLarge_eq_ok hstop
    simp only [RegistryView.nameEntryLen, RegistryView.sortedEntryLen] at h1 h2
    refine ⟨by omega, ?_, fun reg _ => ⟨rfl, by omega⟩⟩
    intro hnone
    rw [hnone] at hsome
    exact absurd hsome (by simp)
  · next hnone =>
    obtain rfl : (0, after) = placed := by simpa using h
    refine ⟨Nat.le_refl _, fun _ => rfl, ?_⟩
    intro reg hreg
    rw [Option.mem_def.mp hreg] at hnone
    exact absurd rfl hnone

theorem placeConfig_eq_ok {after : Nat} {placed : Nat × Nat}
    (h : placeConfig blob after = .ok placed) :
    after ≤ placed.2 ∧ (blob.config = [] → placed.1 = 0) ∧
    (blob.config ≠ [] → placed.1 = after ∧ placed.1 + 8 + blob.config.length * 32 = placed.2) := by
  unfold placeConfig at h
  split at h
  · next hempty =>
    obtain rfl : (0, after) = placed := by simpa using h
    exact ⟨Nat.le_refl _, fun _ => rfl, fun hne => absurd (List.isEmpty_iff.mp hempty) hne⟩
  · next hne =>
    simp only [bind_eq_ok] at h
    obtain ⟨entriesLen, hentries, len, hlen, stop, hstop, h⟩ := h
    obtain rfl : (after, stop) = placed := by simpa using h
    have h1 := mulOrTooLarge_eq_ok hentries
    have h2 := addOrTooLarge_eq_ok hlen
    have h3 := addOrTooLarge_eq_ok hstop
    simp only [ConfigBindingView.len, configHeaderLen] at h1 h2
    refine ⟨by omega, fun hempty => absurd (List.isEmpty_iff.mpr hempty) hne, fun _ => ⟨rfl, ?_⟩⟩
    change after + 8 + blob.config.length * 32 = stop
    omega

theorem validateRegistryArity_eq_ok (h : validateRegistryArity blob = .ok ()) :
    ∀ reg ∈ blob.registry, reg.names.length = blob.stages.length ∧
      reg.sorted.length = blob.stages.length := by
  intro reg hreg
  unfold validateRegistryArity at h
  rw [Option.mem_def.mp hreg] at h
  exact (Ensures.require _).of_ok h

theorem Layout.compute_fits (h : Layout.compute blob = .ok layout) : layout.Fits blob := by
  obtain ⟨stageCount, hstages, h⟩ := bind_eq_ok.mp h
  simp only [bind_eq_ok] at h
  obtain ⟨edgeCount, hedges, _, harity, stageTableLen, hstageLen, edgeTableOff, hedgeOff,
    edgeTableLen, hedgeLen, policyHeapOff, hheapOff, afterPolicies, hpolicies, registry, hregistry,
    config, hconfig, stringsLen, hstrings, unaligned, hunaligned, bodyLen, hbody,
    specRecordLen, hspec, total, htotal, _, htotalLt, h⟩ := h
  cases h
  have e1 := mulOrTooLarge_eq_ok hstageLen
  have e2 := addOrTooLarge_eq_ok hedgeOff
  have e3 := mulOrTooLarge_eq_ok hedgeLen
  have e4 := addOrTooLarge_eq_ok hheapOff
  have e5 := addOrTooLarge_eq_ok hunaligned
  have e6 := align8_eq_ok hbody
  have e7 := addOrTooLarge_eq_ok hspec
  have e8 := addOrTooLarge_eq_ok htotal
  have hpayload : afterPolicies = policyHeapOff + recordsLen blob.stages := by
    rw [← sum_payloads]
    refine foldlM_add ?_ hpolicies
    intro acc stage r hr
    obtain ⟨len, hlen, hr⟩ := bind_eq_ok.mp hr
    rw [addOrTooLarge_eq_ok hr, payloadLen_eq_ok hlen]
  have hstringsLen := stringHeapLen_eq_ok hstrings
  obtain ⟨hregLe, hregNone, hregSome⟩ := placeRegistry_eq_ok hregistry
  obtain ⟨hcfgLe, hcfgNone, hcfgSome⟩ := placeConfig_eq_ok hconfig
  simp only [stageEntryLen, PolicyKind.count, conductorHeaderLen, EdgeView.len, recordHeaderLen,
    headerLen] at e1 e2 e3 e4 e7 e8
  refine ⟨(u32TryFrom_eq_ok hstages).1, (u32TryFrom_eq_ok hedges).1,
    validateRegistryArity_eq_ok harity, ?_, ?_, ?_, hregNone, ?_, hcfgNone, ?_, ?_, ?_, e8,
    (u32TryFrom_eq_ok htotalLt).2⟩ <;> dsimp only
  · omega
  · omega
  · omega
  · intro reg hreg
    obtain ⟨hoff, hlen⟩ := hregSome reg hreg
    refine ⟨by omega, by omega, fun hne => ?_⟩
    have := (hcfgSome hne).1
    omega
  · intro hne
    have := hcfgSome hne
    omega
  · omega
  · omega

theorem names_of_mem {reg : RegistrySpec} (h : reg ∈ blob.registry) : blob.names = reg.names := by
  rw [ConductorBlob.names, Option.mem_def.mp h]
  rfl

theorem writeRegistryIfAny_spec {heap : Nat} (hfits : layout.Fits blob)
    (hlen : layout.total ≤ buf.length)
    (h : writeRegistryIfAny buf layout blob.registry layout.heapOff = some (out, heap)) :
    out.length = buf.length ∧ heap = layout.heapOff + blob.names.flatten.length ∧
    (∀ offset xs, At buf offset xs →
      offset + xs.length ≤ bodyOffset + (layout.policyHeapOff + recordsLen blob.stages) →
      At out offset xs) ∧
    ∀ reg ∈ blob.registry,
      At out (bodyOffset + layout.registryOff)
        ((nameEntries layout.heapOff reg.names).flatten ++ (sortedBytes reg.sorted).flatten) ∧
      At out (bodyOffset + layout.heapOff) reg.names.flatten := by
  have hoffsets := hfits.offsets
  have hbodyOffset : bodyOffset = 24 := rfl
  cases hreg : blob.registry with
  | none =>
    rw [hreg] at h
    obtain ⟨rfl, rfl⟩ : buf = out ∧ layout.heapOff = heap := by simpa [writeRegistryIfAny] using h
    refine ⟨rfl, by simp [ConductorBlob.names, hreg], fun _ _ hat _ => hat, ?_⟩
    intro reg hmem
    cases hmem
  | some reg =>
    obtain ⟨hoff, hbefore, _⟩ := hfits.registryOff reg hreg
    obtain ⟨hnamesLen, hsortedLen⟩ := hfits.arity reg hreg
    have hnames := names_of_mem hreg
    have hentries := length_nameEntries layout.heapOff reg.names
    have hsorted := length_sortedBytes reg.sorted
    rw [hreg] at h
    obtain ⟨⟨mid, cursor⟩, hwriteNames, h⟩ := Option.bind_eq_some_iff.mp h
    obtain ⟨out', hwriteSorted, h⟩ := Option.bind_eq_some_iff.mp h
    obtain ⟨rfl, rfl⟩ : out' = out ∧ cursor = heap := by simpa using h
    -- the names go to the table and the heap, the ordinals behind the table
    have hboth := writeNames_writes (bodyOffset + layout.registryOff) 0 layout.heapOff reg.names
      (by omega)
    obtain ⟨b1, b2, hput1, hput2, hwrap⟩ := hboth.eq_some (by omega) hwriteNames
    obtain ⟨rfl, rfl⟩ : b2 = mid ∧ layout.heapOff + reg.names.flatten.length = cursor := by
      simpa using hwrap
    obtain ⟨_, hlen1⟩ := put_length hput1
    obtain ⟨hin2, hlen2⟩ := put_length hput2
    have hsortedAt := writeSorted_writes
      (bodyOffset + layout.registryOff + layout.stageCount.toNat * RegistryView.nameEntryLen) 0
      reg.sorted
    have hstage := hfits.stageCount
    simp only [RegistryView.nameEntryLen] at hsortedAt hwriteSorted
    obtain ⟨b3, hput3, rfl⟩ := hsortedAt.eq_some (by omega) hwriteSorted
    obtain ⟨_, hlen3⟩ := put_length hput3
    refine ⟨by simp only [id]; omega, by rw [hnames], ?_, ?_⟩
    · intro offset xs hat hbelow
      have h1 := hat.put hput1 (by omega)
      have h2 := h1.put hput2 (by omega)
      exact h2.put hput3 (by omega)
    · intro reg' hmem
      cases hmem
      have h1 := ((put_at hput1).put hput2 (by omega)).put hput3 (by omega)
      refine ⟨h1.append ?_, (put_at hput2).put hput3 (by omega)⟩
      have h3 := put_at hput3
      rw [hentries, hnamesLen, ← hstage]
      simpa using h3

theorem writeConfig_writes (layout : Layout) (config : List ConfigBindingSpec) (heap : Nat)
    (h : layout.configOff + 8 + config.length * 32 ≤ heap) :
    WritesBoth (fun buf => writeConfig buf layout config heap) id
      (bodyOffset + layout.configOff) (offsetBytes config.length ++
        (leBytes 4 0 ++ (bindingEntries heap config).flatten))
      (bodyOffset + heap) (keyBytes config).flatten := by
  refine WritesBoth.table (Writes.put _ _) (bodyOffset + layout.configOff + 4) ?_ (by simp)
    (by omega)
  refine WritesBoth.table (Writes.put _ _) (bodyOffset + layout.configOff + 8) ?_ (by simp)
    (by omega)
  have hbindings := writeBindings_writes (bodyOffset + layout.configOff + configHeaderLen) 0 heap
    config (by simp only [configHeaderLen]; omega)
  rwa [Nat.zero_mul, Nat.add_zero] at hbindings

theorem writeConfig_spec {heap : Nat} (hfits : layout.Fits blob) (hlen : layout.total ≤ buf.length)
    (hheap : heap = layout.heapOff + blob.names.flatten.length) (hne : blob.config ≠ [])
    (h : writeConfig buf layout blob.config heap = some out) : out.length = buf.length ∧
    (∀ offset xs, At buf offset xs →
      (offset + xs.length ≤ bodyOffset + layout.configOff ∨
        bodyOffset + layout.heapOff ≤ offset ∧ offset + xs.length ≤ bodyOffset + heap) →
      At out offset xs) ∧
    At out (bodyOffset + layout.configOff) (offsetBytes blob.config.length ++
      (leBytes 4 0 ++ (bindingEntries heap blob.config).flatten)) ∧
    At out (bodyOffset + heap) (keyBytes blob.config).flatten := by
  have hoffsets := hfits.offsets
  have hbodyOffset : bodyOffset = 24 := rfl
  obtain ⟨_, hconfig⟩ := hfits.configOff hne
  have hboth := writeConfig_writes layout blob.config heap (by omega)
  obtain ⟨mid, out', hput1, hput2, rfl⟩ := hboth.eq_some (by omega) h
  obtain ⟨_, hlen1⟩ := put_length hput1
  obtain ⟨_, hlen2⟩ := put_length hput2
  have hentries := length_bindingEntries heap blob.config
  have hsection : (offsetBytes blob.config.length ++
      (leBytes 4 0 ++ (bindingEntries heap blob.config).flatten)).length =
      8 + blob.config.length * 32 := by
    simp only [List.length_append, length_offsetBytes, length_leBytes, hentries]
    omega
  refine ⟨by simp only [id]; omega, ?_, (put_at hput1).put hput2 (by omega), put_at hput2⟩
  intro offset xs hat hapart
  exact (hat.put hput1 (by omega)).put hput2 (by omega)

def stageTableBytes (layout : Layout) (blob : ConductorBlob) : List UInt8 :=
  slotBytes layout.policyHeapOff ((policySlots blob.stages).map Slot.bodyLen)

def frontBytes (layout : Layout) (blob : ConductorBlob) : List UInt8 :=
  headerBytes layout ++ bodyHeaderBytes layout ++
    stageTableBytes layout blob ++ (blob.edges.map edgeBytes).flatten ++
      ((policySlots blob.stages).map Slot.record).flatten

theorem recordBodyLens_policySlots (stages : List StageSpec) :
    stages.flatMap StageSpec.recordBodyLens = (policySlots stages).map Slot.bodyLen := by
  rw [policySlots, List.map_flatMap]
  exact congrArg (stages.flatMap ·) (funext StageSpec.recordBodyLens_eq)

theorem length_policySlots (stages : List StageSpec) :
    (policySlots stages).length = stages.length * 4 := by
  induction stages with
  | nil => rfl
  | cons stage stages ih =>
    rw [policySlots, List.flatMap_cons, List.length_append, ← policySlots, ih, List.length_cons]
    simp only [StageSpec.slots, List.length_map, PolicyKind.all, List.length_cons, List.length_nil]
    omega

theorem length_stageTableBytes (layout : Layout) (blob : ConductorBlob) :
    (stageTableBytes layout blob).length = blob.stages.length * 16 := by
  rw [stageTableBytes, length_slotBytes, List.length_map, length_policySlots]
  omega

theorem length_edgeTable (edges : List EdgeView) :
    (edges.map edgeBytes).flatten.length = edges.length * 8 := by
  have hlen : ∀ e ∈ edges.map edgeBytes, e.length = EdgeView.len :=
    List.forall_mem_map.mpr fun edge _ => length_edgeBytes edge
  rw [length_flatten_of_length_eq hlen, List.length_map, EdgeView.len]

theorem writeFront_eq (hfits : layout.Fits blob) {b0 b1 b2 b3 b4 : List UInt8}
    (h1 : writeHeader b0 layout = some b1) (h2 : writeStageTable b1 layout blob.stages = some b2)
    (h3 : writeEdgeTable b2 layout blob.edges = some b3)
    (h4 : writePolicyRecords b3 layout blob.stages = some b4) (hlen : layout.total ≤ b0.length) :
    put b0 0 (frontBytes layout blob) = some b4 := by
  have hoffsets := hfits.offsets
  have hbodyOffset : bodyOffset = 24 := rfl
  have hheaderLen : (headerBytes layout ++ bodyHeaderBytes layout).length = 48 := by
    rw [List.length_append, length_headerBytes, length_bodyHeaderBytes]
  have hslotsLen := length_stageTableBytes layout blob
  have hedgesLen := length_edgeTable blob.edges
  obtain ⟨_, hput1, rfl⟩ := (writeHeader_writes layout).eq_some (Nat.zero_le _) h1
  obtain ⟨_, hlen1⟩ := put_length hput1
  have hstages := writeStages_writes (bodyOffset + conductorHeaderLen) 0 layout.policyHeapOff
    blob.stages
  rw [recordBodyLens_policySlots, ← stageTableBytes, Nat.zero_mul] at hstages
  simp only [id] at h2 hlen1
  obtain ⟨_, hput2, rfl⟩ := hstages.eq_some (by simp only [conductorHeaderLen]; omega) h2
  obtain ⟨_, hlen2⟩ := put_length hput2
  simp only [id] at h3 hlen2
  have hedges := writeEdges_writes (bodyOffset + layout.edgeTableOff) 0 blob.edges
  obtain ⟨_, hput3, rfl⟩ := hedges.eq_some (by omega) h3
  obtain ⟨_, hlen3⟩ := put_length hput3
  simp only [id] at h4 hlen3
  obtain ⟨_, hput4, rfl⟩ := (writeRecords_writes layout.policyHeapOff blob.stages).eq_some
    (by omega) h4
  have p2 := put_trans hput1 hput2 (by rw [hheaderLen]; rfl)
  have p3 := put_trans p2 hput3 (by rw [List.length_append, hheaderLen, hslotsLen]; omega)
  exact put_trans p3 hput4 (by
    rw [List.length_append, List.length_append, hheaderLen, hslotsLen, hedgesLen]; omega)

structure Layout.Written (layout : Layout) (blob : ConductorBlob) (out : List UInt8) : Prop where
  total_le : layout.total ≤ out.length
  front : At out 0 (frontBytes layout blob)
  registry : ∀ reg ∈ blob.registry,
    At out (bodyOffset + layout.registryOff)
      ((nameEntries layout.heapOff reg.names).flatten ++ (sortedBytes reg.sorted).flatten) ∧
    At out (bodyOffset + layout.heapOff) reg.names.flatten
  config : blob.config ≠ [] →
    At out (bodyOffset + layout.configOff) (offsetBytes blob.config.length ++ (leBytes 4 0 ++
      (bindingEntries (layout.heapOff + blob.names.flatten.length) blob.config).flatten)) ∧
    At out (bodyOffset + (layout.heapOff + blob.names.flatten.length))
      (keyBytes blob.config).flatten

theorem length_frontBytes (hfits : layout.Fits blob) : (frontBytes layout blob).length =
      bodyOffset + (layout.policyHeapOff + recordsLen blob.stages) := by
  have hoffsets := hfits.offsets
  simp only [frontBytes, List.length_append, length_headerBytes, length_bodyHeaderBytes,
    length_stageTableBytes, length_edgeTable, recordsLen,
    bodyOffset, headerLen, recordHeaderLen]
  omega

theorem writeSections_written (hfits : layout.Fits blob) (hlen : layout.total ≤ buf.length)
    (h : writeSections buf layout blob = some out) : layout.Written blob out := by
  obtain ⟨b0, hzero, h⟩ := Option.bind_eq_some_iff.mp h
  obtain ⟨b1, h1, h⟩ := Option.bind_eq_some_iff.mp h
  obtain ⟨b2, h2, h⟩ := Option.bind_eq_some_iff.mp h
  obtain ⟨b3, h3, h⟩ := Option.bind_eq_some_iff.mp h
  obtain ⟨b4, h4, h⟩ := Option.bind_eq_some_iff.mp h
  obtain ⟨⟨b5, heap⟩, h5, h⟩ := Option.bind_eq_some_iff.mp h
  obtain ⟨_, hlen0⟩ := put_length hzero
  have hfront := writeFront_eq hfits h1 h2 h3 h4 (by omega)
  obtain ⟨_, hlen4⟩ := put_length hfront
  have hfrontLen := length_frontBytes hfits
  obtain ⟨hlen5, hcursor, hkeep5, hregistry⟩ := writeRegistryIfAny_spec hfits (by omega) h5
  have hfront5 := hkeep5 _ _ (put_at hfront) (by omega)
  by_cases hempty : blob.config = []
  · obtain rfl : b5 = out := by simpa [hempty] using h
    exact ⟨by omega, hfront5, hregistry, fun hne => absurd hempty hne⟩
  · have hconfig : writeConfig b5 layout blob.config heap = some out := by
      simpa [hempty] using h
    obtain ⟨hlen6, hkeep6, hentries, hkeys⟩ :=
      writeConfig_spec hfits (by omega) hcursor hempty hconfig
    obtain ⟨hbefore, _⟩ := hfits.configOff hempty
    subst hcursor
    refine ⟨by omega, hkeep6 _ _ hfront5 (by omega), ?_, fun _ => ⟨hentries, hkeys⟩⟩
    intro reg hreg
    obtain ⟨htable, hnames⟩ := hregistry reg hreg
    obtain ⟨_, _, hconfigOff⟩ := hfits.registryOff reg hreg
    obtain ⟨hnamesLen, hsortedLen⟩ := hfits.arity reg hreg
    have hsame := names_of_mem hreg
    have hconfigOff := hconfigOff hempty
    have htableLen : ((nameEntries layout.heapOff reg.names).flatten ++
        (sortedBytes reg.sorted).flatten).length = blob.stages.length * 10 := by
      rw [List.length_append, length_nameEntries, length_sortedBytes, hnamesLen, hsortedLen]
      omega
    refine ⟨hkeep6 _ _ htable (by omega), hkeep6 _ _ hnames (Or.inr ?_)⟩
    rw [hsame]
    omega

end Kwokka.Ir
