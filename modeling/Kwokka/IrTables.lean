import Kwokka.IrSlots

/-! The registry and config tables of a written body, and the outcome of `parse` on it. -/

namespace Kwokka.Ir

open Bytes Outcome

variable {layout : Layout} {blob : ConductorBlob} {body : List UInt8}

theorem Layout.Encoded.words (hfits : layout.Fits blob) (h : layout.Encoded blob body) :
    readU32 body 0 = .ok layout.stageCount ∧ readU32 body 4 = .ok layout.edgeCount ∧
    readU32 body 8 = .ok (UInt32.ofNat 24) ∧
    readU32 body 12 = .ok (UInt32.ofNat layout.edgeTableOff) ∧
    readU32 body 16 = .ok (UInt32.ofNat layout.registryOff) ∧
    readU32 body 20 = .ok (UInt32.ofNat layout.configOff) := by
  have hlt := h.length_lt hfits
  have hedges := h.edges.le
  have hlen := h.length
  have hstrings := hfits.strings
  have h0 := h.header
  have h4 := h0.right
  have h8 := h4.right
  have h12 := h8.right
  have h16 := h12.right
  have h20 := h16.right
  have hregistry : layout.registryOff ≤ layout.heapOff := by
    cases hreg : blob.registry with
    | none => rw [hfits.no_registry hreg]; exact Nat.zero_le _
    | some reg =>
      have := (hfits.registryOff reg hreg).2.1
      omega
  have hconfig : layout.configOff ≤ layout.heapOff := by
    by_cases hempty : blob.config = []
    · rw [hfits.no_config hempty]; exact Nat.zero_le _
    · have := (hfits.configOff hempty).2
      omega
  exact ⟨readU32_of_at h0.left (by omega), readU32_of_at h4.left (by omega),
    readU32_offset h8.left (by decide) (by omega), readU32_offset h12.left (by omega) (by omega),
    readU32_offset h16.left (by omega) (by omega), readU32_offset h20 (by omega) (by omega)⟩

def registryView (layout : Layout) (body : List UInt8) (reg : RegistrySpec) : RegistryView where
  body := body
  nameTable := (nameEntries layout.heapOff reg.names).flatten
  sortedIndex := (sortedBytes reg.sorted).flatten
  count := layout.stageCount

theorem leNat_offsetBytes {value : Nat} (h : value < 2 ^ 32) : leNat (offsetBytes value) = value := by
  rw [offsetBytes, leNat_leBytes]
  omega

theorem registryView_name (hfits : layout.Fits blob) (h : layout.Encoded blob body)
    {reg : RegistrySpec} (hreg : reg ∈ blob.registry) {i : Nat} {name : List UInt8}
    (hi : reg.names[i]? = some name) : (registryView layout body reg).name i = some name := by
  have hlt := h.length_lt hfits
  obtain ⟨htable, hheap⟩ := h.registry reg hreg
  have htableLe := htable.left.le
  rw [length_nameEntries] at htableLe
  have hiLt : i < reg.names.length := (List.getElem?_eq_some_iff.mp hi).1
  have hcount : i < layout.stageCount.toNat := by
    rw [hfits.stageCount, ← (hfits.arity reg hreg).1]
    exact hiLt
  -- the entry of the name, and the run of the heap it points to
  have hentry := (At.self (nameEntries layout.heapOff reg.names).flatten).entry
    (length_of_mem_nameEntries _ _) (heapEntries_getElem? hi)
  rw [List.map_id, Nat.zero_add] at hentry
  have hname := hheap.flatten hi
  generalize layout.heapOff + (reg.names.take i).flatten.length = start at hentry hname
  have hnameLe := hname.le
  have hslice : slice (nameEntries layout.heapOff reg.names).flatten (i * 8) (i * 8 + 8) =
      some (nameBytes start name) := hentry.slice_eq (by rw [length_nameBytes]; rfl)
  have htake : (nameBytes start name).take 4 = offsetBytes start :=
    List.take_left' (length_offsetBytes _)
  have hdrop : (nameBytes start name).drop 4 = offsetBytes name.length :=
    List.drop_left' (length_offsetBytes _)
  have hmul : checkedMul i 8 = some (i * 8) := checkedMul_of_lt (by omega)
  have hadd : checkedAdd (i * 8) 8 = some (i * 8 + 8) := checkedAdd_of_lt (by omega)
  have hend : checkedAdd start name.length = some (start + name.length) :=
    checkedAdd_of_lt (by omega)
  have hoffset : leNat (offsetBytes start) = start := leNat_offsetBytes (by omega)
  have hlength : leNat (offsetBytes name.length) = name.length := leNat_offsetBytes (by omega)
  simp [RegistryView.name, registryView, RegistryView.nameEntryLen, Nat.not_le.mpr hcount, hmul,
    hadd, hslice, htake, hdrop, hoffset, hlength, hend, hname.slice_eq rfl]

theorem registryView_sortedOrdinal {reg : RegistrySpec} {rank : Nat} {ordinal : UInt16}
    (hlt : rank < 2 ^ 32) (h : reg.sorted[rank]? = some ordinal) :
    (registryView layout body reg).sortedOrdinal rank = some ordinal := by
  have hlen : ∀ e ∈ sortedBytes reg.sorted, e.length = 2 := by simp [sortedBytes]
  have hentry := (At.self (sortedBytes reg.sorted).flatten).entry hlen
    (e := leBytes 2 ordinal.toNat) (i := rank) (by simp [sortedBytes, h])
  rw [Nat.zero_add] at hentry
  have hslice : slice (sortedBytes reg.sorted).flatten (rank * 2) (rank * 2 + 2) = some _ :=
    hentry.slice_eq (by simp)
  rw [sortedOrdinal_eq hlt hslice, ofNat_leNat_leBytes]

theorem checkSortedOrdinals_ok {sorted : List UInt16} {count : UInt32}
    (hshort : sorted.length * 2 < 2 ^ 64) :
    checkSortedOrdinals (sortedBytes sorted).flatten count = .ok () ↔
      ∀ ordinal ∈ sorted, ordinal.toNat < count.toNat := by
  have hlen : ∀ e ∈ sortedBytes sorted, e.length = RegistryView.sortedEntryLen := by
    simp [sortedBytes, RegistryView.sortedEntryLen]
  rw [checkSortedOrdinals, checkEntries_flatten (by decide) hlen (by rwa [length_sortedBytes]),
    forM_eq_ok, sortedBytes, List.forall_mem_map]
  refine forall₂_congr fun ordinal _ => ?_
  rw [require_eq_ok, ofNat_leNat_leBytes]

def parsedRegistry (layout : Layout) (body : List UInt8) (reg : RegistrySpec) : ParsedRegistry where
  view := registryView layout body reg
  nameTable := (nameEntries layout.heapOff reg.names).flatten
  nameSpan := { offset := layout.registryOff, len := reg.names.length * 8 }
  sortedSpan := { offset := layout.registryOff + reg.names.length * 8, len := reg.sorted.length * 2 }

variable (hfits : layout.Fits blob)

include hfits

variable (h : layout.Encoded blob body)

include h

theorem parseRegistry_eq {reg : RegistrySpec} (hreg : reg ∈ blob.registry) :
    parseRegistry body layout.stageCount =
      checkSortedOrdinals (sortedBytes reg.sorted).flatten layout.stageCount >>= fun _ =>
        .ok (some (parsedRegistry layout body reg)) := by
  have hlt := h.length_lt hfits
  have hoffsets := hfits.offsets
  obtain ⟨_, _, _, _, hword, _⟩ := h.words hfits
  obtain ⟨hoff, _, _⟩ := hfits.registryOff reg hreg
  obtain ⟨hnamesLen, hsortedLen⟩ := hfits.arity reg hreg
  obtain ⟨htable, _⟩ := h.registry reg hreg
  have htableLe := htable.le
  have hstages := hfits.stageCount
  have hnameTableLen := length_nameEntries layout.heapOff reg.names
  have hsortedTableLen := length_sortedBytes reg.sorted
  have hoffset : (UInt32.ofNat layout.registryOff).toNat = layout.registryOff :=
    toNat_ofNat_u32 (by omega)
  have hnames : sliceTable body registryTableOffsetField layout.stageCount
      RegistryView.nameEntryLen =
      .ok (layout.registryOff, (nameEntries layout.heapOff reg.names).flatten) := by
    rw [← hoffset]
    refine sliceTable_of_at hword ?_ (by rw [hoffset]; exact htable.left) ?_ (by omega)
    · simp only [conductorHeaderLen]; omega
    · rw [hnameTableLen, hnamesLen, hstages, RegistryView.nameEntryLen]
  have hsorted : slice body (layout.registryOff + reg.names.length * 8)
      (layout.registryOff + reg.names.length * 8 + layout.stageCount.toNat * 2) =
      some (sortedBytes reg.sorted).flatten := by
    have hat := htable.right
    rw [hnameTableLen] at hat
    exact hat.slice_eq (by omega)
  have hnamed : checkRegistryNames (registryView layout body reg) layout.stageCount = .ok () := by
    refine forM_eq_ok.mpr fun ordinal hordinal => require_of _ ?_
    have hordinalLt := List.mem_range.mp hordinal
    rw [registryView_name hfits h hreg (List.getElem?_eq_getElem (by omega))]
    rfl
  rw [parseRegistry, registryTableOffsetField, hword, ok_bind]
  rw [hoffset, if_neg (by omega), ← registryTableOffsetField, hnames, ok_bind]
  dsimp only [RegistryView.sortedEntryLen]
  rw [hnameTableLen, checkedAdd_of_lt (by omega), ofOption_some, ok_bind,
    checkedMul_of_lt (by omega), ofOption_some, ok_bind, checkedAdd_of_lt (by omega), ofOption_some,
    ok_bind, hsorted, ofOption_some, ok_bind]
  change (checkRegistryNames (registryView layout body reg) layout.stageCount >>= _) = _
  rw [hnamed, ok_bind, hsortedTableLen]
  rfl

theorem parseRegistry_none
    (hnone : blob.registry = none) : parseRegistry body layout.stageCount = .ok none := by
  obtain ⟨_, _, _, _, hword, _⟩ := h.words hfits
  rw [hfits.no_registry hnone] at hword
  rw [parseRegistry, registryTableOffsetField, hword, ok_bind]
  rfl

def keysOff (layout : Layout) (blob : ConductorBlob) : Nat :=
  layout.heapOff + blob.names.flatten.length

def configTable (layout : Layout) (blob : ConductorBlob) : List UInt8 :=
  (bindingEntries (keysOff layout blob) blob.config).flatten

def parsedConfig (layout : Layout) (blob : ConductorBlob) : ParsedConfig where
  count := UInt32.ofNat blob.config.length
  entries := configTable layout blob
  sectionSpan := { offset := layout.configOff, len := 8 + blob.config.length * 32 }

theorem binding_parse_entry {i : Nat} {binding : ConfigBindingSpec}
    (hi : blob.config[i]? = some binding) :
    (bindingEntries (keysOff layout blob) blob.config)[i]? =
      some (bindingBytes (keysOff layout blob + ((keyBytes blob.config).take i).flatten.length)
        binding) ∧
    ConfigBindingView.parse body
      (bindingBytes (keysOff layout blob + ((keyBytes blob.config).take i).flatten.length)
        binding) = .ok binding.toView := by
  have hne : blob.config ≠ [] := by
    intro hempty
    rw [hempty] at hi
    cases hi
  have hkey : (keyBytes blob.config)[i]? = some binding.key := by
    rw [keyBytes, List.getElem?_map, hi]
    rfl
  exact ⟨heapEntries_getElem? hi,
    binding_parse_bytes ((h.config hne).2.flatten hkey) (h.length_lt hfits)⟩

theorem checkConfigEntries_ok (hshort : blob.config.length * 32 < 2 ^ 64) :
    checkConfigEntries body (configTable layout blob) layout.stageCount = .ok () ↔
      ∀ binding ∈ blob.config, binding.nodeOrdinal.toNat < blob.stages.length := by
  have hlen := length_bindingEntries (keysOff layout blob) blob.config
  rw [checkConfigEntries, configTable, checkEntries_flatten (by decide)
    (length_of_mem_bindingEntries _ _) (by rwa [hlen]), forM_eq_ok]
  constructor
  · intro hall binding hbinding
    obtain ⟨i, hi⟩ := List.mem_iff_getElem?.mp hbinding
    obtain ⟨hentry, hparse⟩ := binding_parse_entry hfits h hi
    have hcheck := hall _ (List.mem_of_getElem? hentry)
    rw [hparse, ok_bind, require_eq_ok, hfits.stageCount] at hcheck
    exact hcheck
  · intro hall entry hentry
    obtain ⟨i, hi⟩ := List.mem_iff_getElem?.mp hentry
    have hlt : i < blob.config.length := by
      rw [← length_heapEntries bindingBytes ConfigBindingSpec.key (keysOff layout blob)]
      exact (List.getElem?_eq_some_iff.mp hi).1
    obtain ⟨hsame, hparse⟩ := binding_parse_entry hfits h (List.getElem?_eq_getElem hlt)
    cases hi.symm.trans hsame
    rw [hparse, ok_bind, require_eq_ok, hfits.stageCount]
    exact hall _ (List.getElem_mem hlt)

theorem parseConfig_eq (hne : blob.config ≠ []) :
    parseConfig body layout.stageCount =
      checkConfigEntries body (configTable layout blob) layout.stageCount >>= fun _ =>
        .ok (some (parsedConfig layout blob)) := by
  have hlt := h.length_lt hfits
  have hoffsets := hfits.offsets
  obtain ⟨_, _, _, _, _, hword⟩ := h.words hfits
  obtain ⟨hoff, _⟩ := hfits.configOff hne
  obtain ⟨hsection, _⟩ := h.config hne
  have hle := hsection.le
  have hlen := length_bindingEntries (keysOff layout blob) blob.config
  have hentries := hsection.right.right
  simp only [List.length_append, length_offsetBytes, length_leBytes, keysOff] at hle hlen hentries
  have hoffset : (UInt32.ofNat layout.configOff).toNat = layout.configOff :=
    toNat_ofNat_u32 (by omega)
  have hcount : (UInt32.ofNat blob.config.length).toNat = blob.config.length :=
    toNat_ofNat_u32 (by omega)
  have hread : readU32 body layout.configOff = .ok (UInt32.ofNat blob.config.length) :=
    readU32_offset hsection.left (by omega) (by omega)
  have hslice : slice body (layout.configOff + 8) (layout.configOff + 8 + blob.config.length * 32) =
      some (configTable layout blob) :=
    hentries.slice_eq (by rw [hlen])
  rw [parseConfig, configTableOffsetField, hword, ok_bind]
  dsimp only [configHeaderLen, ConfigBindingView.len]
  rw [hoffset, if_neg (by omega), require_of _ (by simp only [conductorHeaderLen]; omega), ok_bind,
    hread, ok_bind, checkedAdd_of_lt (by omega), ofOption_some, ok_bind, hcount,
    checkedMul_of_lt (by omega), ofOption_some, ok_bind, checkedAdd_of_lt (by omega), ofOption_some,
    ok_bind, hslice, ofOption_some, ok_bind]
  congr 1
  funext _
  rw [checkedAdd_of_lt (by omega), ofOption_some, ok_bind]
  rfl

theorem parseConfig_none
    (hempty : blob.config = []) : parseConfig body layout.stageCount = .ok none := by
  obtain ⟨_, _, _, _, _, hword⟩ := h.words hfits
  rw [hfits.no_config hempty] at hword
  rw [parseConfig, configTableOffsetField, hword, ok_bind]
  rfl

end Kwokka.Ir
