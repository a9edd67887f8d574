import Kwokka.IrTables

/-! The validator accepts a written body exactly when the caller's ordinals and names are
in order. -/

namespace Kwokka.Ir

open Bytes Outcome

def RegistrySpec.sortedNames (reg : RegistrySpec) : List (List UInt8) :=
  reg.sorted.filterMap fun ordinal => reg.names[ordinal.toNat]?

/-- The conditions on a caller's input that the writer does not check. -/
structure ConductorBlob.WellFormed (blob : ConductorBlob) : Prop where
  edges : ∀ edge ∈ blob.edges, edge.fromOrdinal.toNat < blob.stages.length ∧
    edge.toOrdinal.toNat < blob.stages.length
  config : ∀ binding ∈ blob.config, binding.nodeOrdinal.toNat < blob.stages.length
  sorted_lt : ∀ reg ∈ blob.registry, ∀ ordinal ∈ reg.sorted, ordinal.toNat < blob.stages.length
  sorted_le : ∀ reg ∈ blob.registry, reg.sortedNames.Pairwise (· ≤ ·)

theorem checkSortedOrderFrom_ok {view : RegistryView} {names : List (List UInt8)} {rank : Nat}
    {previous : Option (List UInt8)}
    (hnames : ∀ i name, names[i]? = some name → view.nameAtRank (rank + i) = some name) :
    checkSortedOrderFrom view rank names.length previous = .ok () ↔
      (∀ prev ∈ previous, ∀ name ∈ names.head?, prev ≤ name) ∧ names.Pairwise (· ≤ ·) := by
  induction names generalizing rank previous with
  | nil => simp [checkSortedOrderFrom]
  | cons name names ih =>
    obtain ⟨ordinal, hordinal, hname⟩ :=
      Option.bind_eq_some_iff.mp (hnames 0 name (by simp))
    rw [Nat.add_zero] at hordinal
    have hrest : checkSortedOrderFrom view (rank + 1) names.length (some name) = .ok () ↔ _ :=
      ih fun i other hother => by
        rw [Nat.add_assoc, Nat.add_comm 1 i]
        exact hnames (i + 1) other (by simpa using hother)
    rw [List.length_cons, checkSortedOrderFrom, hordinal, ofOption_some, ok_bind, hname,
      ofOption_some, ok_bind, bind_eq_ok, List.pairwise_cons]
    constructor
    · intro h
      obtain ⟨_, hprev, h⟩ := h
      obtain ⟨hhead, hpairwise⟩ := hrest.mp h
      refine ⟨fun prev hmem other hother => ?_, ?_, hpairwise⟩
      · cases hother
        exact require_eq_ok.mp hprev prev hmem
      · intro other hother
        cases names with
        | nil => cases hother
        | cons next =>
          have hnext := hhead name rfl next rfl
          rcases List.mem_cons.mp hother with rfl | hother
          · exact hnext
          · exact List.le_trans hnext ((List.pairwise_cons.mp hpairwise).1 other hother)
    · intro h
      obtain ⟨hprev, hhead, hpairwise⟩ := h
      refine ⟨(), require_of _ fun prev hmem => hprev prev hmem name rfl, hrest.mpr ⟨?_, hpairwise⟩⟩
      intro prev hmem other hother
      cases hmem
      exact hhead other (List.mem_of_mem_head? hother)

theorem getElem?_filterMap_of_isSome {α β : Type} {f : α → Option β} {l : List α}
    (h : ∀ a ∈ l, (f a).isSome = true) (i : Nat) : (l.filterMap f)[i]? = l[i]?.bind f := by
  induction l generalizing i with
  | nil => rfl
  | cons a l ih =>
    obtain ⟨b, hb⟩ := Option.isSome_iff_exists.mp (h a List.mem_cons_self)
    rw [List.filterMap_cons_some hb]
    cases i with
    | zero => simp [hb]
    | succ i => simpa using ih (fun c hc => h c (List.mem_cons_of_mem _ hc)) i

section Written

variable {layout : Layout} {blob : ConductorBlob} {body : List UInt8}

variable {reg : RegistrySpec} {floor : Nat}

theorem sortedNames_getElem? (hlt : ∀ ordinal ∈ reg.sorted, ordinal.toNat < reg.names.length)
    (rank : Nat) : reg.sortedNames[rank]? =
      reg.sorted[rank]?.bind fun ordinal => reg.names[ordinal.toNat]? := by
  refine getElem?_filterMap_of_isSome (fun ordinal hordinal => ?_) rank
  rw [List.getElem?_eq_getElem (hlt ordinal hordinal)]
  rfl

theorem registryView_nameAtRank (hfits : layout.Fits blob) (h : layout.Encoded blob body)
    (hreg : reg ∈ blob.registry) (hlt : ∀ ordinal ∈ reg.sorted, ordinal.toNat < blob.stages.length)
    {rank : Nat} {name : List UInt8} (hname : reg.sortedNames[rank]? = some name) :
    (registryView layout body reg).nameAtRank rank = some name := by
  have hnamesLen := (hfits.arity reg hreg).1
  rw [sortedNames_getElem? (fun o ho => by rw [hnamesLen]; exact hlt o ho)] at hname
  obtain ⟨ordinal, hordinal, hname⟩ := Option.bind_eq_some_iff.mp hname
  have hrank : rank < 2 ^ 32 := by
    have hrankLt := (List.getElem?_eq_some_iff.mp hordinal).1
    have hcount := layout.stageCount.toNat_lt
    rw [(hfits.arity reg hreg).2, ← hfits.stageCount] at hrankLt
    omega
  simp only [RegistryView.nameAtRank, registryView_sortedOrdinal hrank hordinal,
    Option.bind_eq_bind, Option.bind_some, registryView_name hfits h hreg hname]

theorem length_sortedNames (hlt : ∀ ordinal ∈ reg.sorted, ordinal.toNat < reg.names.length) :
    reg.sortedNames.length = reg.sorted.length := by
  refine List.filterMap_length_eq_length.mpr fun ordinal hordinal => ?_
  rw [List.getElem?_eq_getElem (hlt ordinal hordinal)]
  rfl

theorem checkSortedOrder_ok (hfits : layout.Fits blob) (h : layout.Encoded blob body)
    (hreg : reg ∈ blob.registry)
    (hlt : ∀ ordinal ∈ reg.sorted, ordinal.toNat < blob.stages.length) :
    checkSortedOrder (registryView layout body reg) layout.stageCount = .ok () ↔
      reg.sortedNames.Pairwise (· ≤ ·) := by
  obtain ⟨hnamesLen, hsortedLen⟩ := hfits.arity reg hreg
  have hlen : layout.stageCount.toNat = reg.sortedNames.length := by
    rw [length_sortedNames (fun o ho => by rw [hnamesLen]; exact hlt o ho), hsortedLen,
      hfits.stageCount]
  rw [checkSortedOrder, hlen, checkSortedOrderFrom_ok fun i name hname => by
    rw [Nat.zero_add]
    exact registryView_nameAtRank hfits h hreg hlt hname]
  simp

theorem checkEdgeOrdinals_ok {edges : List EdgeView} {count : UInt32}
    (hshort : edges.length * 8 < 2 ^ 64) :
    checkEdgeOrdinals (edges.map edgeBytes).flatten count = .ok () ↔
      ∀ edge ∈ edges, edge.fromOrdinal.toNat < count.toNat ∧ edge.toOrdinal.toNat < count.toNat := by
  have hlen : ∀ e ∈ edges.map edgeBytes, e.length = EdgeView.len :=
    List.forall_mem_map.mpr fun edge _ => length_edgeBytes edge
  rw [checkEdgeOrdinals, checkEntries_flatten (by decide) hlen (by rwa [length_edgeTable]),
    forM_eq_ok, List.forall_mem_map]
  refine forall₂_congr fun edge _ => ?_
  rw [edge_parse_bytes, ofOption_some, ok_bind, require_eq_ok]

def configOf (layout : Layout) (blob : ConductorBlob) : Option ParsedConfig :=
  if blob.config = [] then none else some (parsedConfig layout blob)

def writtenSections (layout : Layout) (blob : ConductorBlob) (body : List UInt8) : List Span :=
  sectionSpans { offset := 24, len := blob.stages.length * 16 }
    { offset := layout.edgeTableOff, len := blob.edges.length * 8 }
    (blob.registry.map (parsedRegistry layout body)) (configOf layout blob)

def Span.Before (left right : Span) : Prop := left.offset + left.len ≤ right.offset

variable (hfits : layout.Fits blob)

include hfits

theorem writtenSections_before (body : List UInt8) :
    (writtenSections layout blob body).Pairwise Span.Before := by
  have hoffsets := hfits.offsets
  unfold writtenSections sectionSpans configOf
  cases hreg : blob.registry with
  | none =>
    by_cases hempty : blob.config = []
    · simp [hempty, Span.Before]
      omega
    · have hconfig := hfits.configOff hempty
      simp [hempty, Span.Before, parsedConfig]
      omega
  | some reg =>
    obtain ⟨hoff, _, hbefore⟩ := hfits.registryOff reg hreg
    obtain ⟨hnamesLen, hsortedLen⟩ := hfits.arity reg hreg
    by_cases hempty : blob.config = []
    · simp [hempty, Span.Before, parsedRegistry]
      omega
    · have hbefore := hbefore hempty
      simp [hempty, Span.Before, parsedRegistry, parsedConfig]
      omega

theorem writtenSections_around (body : List UInt8) :
    ∀ s ∈ writtenSections layout blob body, AroundRecords layout blob layout.heapOff s := by
  have hoffsets := hfits.offsets
  intro s hs
  rw [writtenSections, sectionSpans, List.mem_append, List.mem_append] at hs
  rcases hs with (hs | hs) | hs
  · rcases List.mem_pair.mp hs with rfl | rfl
    · refine ⟨?_, Or.inl ?_⟩ <;> simp only [Span.Within] <;> omega
    · refine ⟨?_, Or.inl ?_⟩ <;> simp only [Span.Within] <;> omega
  · cases hreg : blob.registry with
    | none =>
      rw [hreg] at hs
      exact absurd hs List.not_mem_nil
    | some reg =>
      rw [hreg] at hs
      obtain ⟨hoff, hend, _⟩ := hfits.registryOff reg hreg
      obtain ⟨hnamesLen, hsortedLen⟩ := hfits.arity reg hreg
      rcases List.mem_pair.mp hs with rfl | rfl
      · refine ⟨?_, Or.inr ?_⟩ <;> simp only [Span.Within, parsedRegistry] <;> omega
      · refine ⟨?_, Or.inr ?_⟩ <;> simp only [Span.Within, parsedRegistry] <;> omega
  · by_cases hempty : blob.config = []
    · rw [configOf, if_pos hempty] at hs
      exact absurd hs List.not_mem_nil
    · rw [configOf, if_neg hempty] at hs
      obtain ⟨hoff, hend⟩ := hfits.configOff hempty
      obtain rfl := List.mem_singleton.mp hs
      refine ⟨?_, Or.inr ?_⟩ <;> simp only [Span.Within, parsedConfig] <;> omega

omit hfits in
theorem checkSectionsDisjoint_ok {sections : List Span} {limit : Nat} (hlimit : limit < 2 ^ 64)
    (hwithin : ∀ s ∈ sections, s.Within limit) (hbefore : sections.Pairwise Span.Before) :
    checkSectionsDisjoint sections = .ok () := by
  induction sections with
  | nil => rfl
  | cons first rest ih =>
    obtain ⟨hfirst, hrest⟩ := List.pairwise_cons.mp hbefore
    have hwithinRest : ∀ s ∈ rest, s.Within limit := fun s hs => hwithin s (List.mem_cons_of_mem _ hs)
    rw [checkSectionsDisjoint, forM_eq_ok.mpr, ok_bind, ih hwithinRest hrest]
    intro other hother
    have hapart : ¬ first.Overlaps other := fun hover => Nat.not_lt.mpr (hfirst other hother) hover.2
    rw [rangesOverlap_eq (hwithin first List.mem_cons_self) (hwithinRest other hother) hlimit,
      ok_bind, require_of _ (by simpa using hapart)]

section

variable (h : layout.Encoded blob body)

include h

theorem checkNamesInHeap_ok (hreg : reg ∈ blob.registry) (hfloor : floor ≤ layout.heapOff) :
    checkNamesInHeap (nameEntries layout.heapOff reg.names).flatten floor = .ok () := by
  have hlt := h.length_lt hfits
  obtain ⟨htable, hheap⟩ := h.registry reg hreg
  have htableLe := htable.left.le
  rw [checkNamesInHeap, checkEntries_flatten (by decide) (length_of_mem_nameEntries _ _) (by omega)]
  refine forM_eq_ok.mpr fun entry hentry => ?_
  obtain ⟨i, hi⟩ := List.mem_iff_getElem?.mp hentry
  have hiLt : i < reg.names.length := by
    rw [← length_heapEntries nameBytes id layout.heapOff]
    exact (List.getElem?_eq_some_iff.mp hi).1
  obtain ⟨name, hname⟩ : ∃ name, reg.names[i]? = some name := ⟨_, List.getElem?_eq_getElem hiLt⟩
  have hnameLe := (hheap.flatten hname).le
  rw [nameEntries, heapEntries_getElem? hname, List.map_id] at hi
  cases hi
  have hword := (At.self (nameBytes (layout.heapOff + (reg.names.take i).flatten.length) name)).left
  have hentryLen := length_nameBytes (layout.heapOff + (reg.names.take i).flatten.length) name
  rw [RegistryView.nameEntryLen] at hentryLen
  rw [readU32_offset hword (by omega) (by omega), ok_bind, toNat_ofNat_u32 (by omega),
    require_of _ (by omega)]

theorem checkKeysInHeap_ok (hne : blob.config ≠ []) (hfloor : floor ≤ layout.heapOff) :
    checkKeysInHeap (configTable layout blob) floor = .ok () := by
  have hlt := h.length_lt hfits
  obtain ⟨hsection, hkeys⟩ := h.config hne
  have htableLe := hsection.right.right.le
  rw [checkKeysInHeap, configTable, checkEntries_flatten (by decide)
    (length_of_mem_bindingEntries _ _) (by rw [keysOff]; omega)]
  refine forM_eq_ok.mpr fun entry hentry => ?_
  obtain ⟨i, hi⟩ := List.mem_iff_getElem?.mp hentry
  have hiLt : i < blob.config.length := by
    rw [← length_heapEntries bindingBytes ConfigBindingSpec.key (keysOff layout blob)]
    exact (List.getElem?_eq_some_iff.mp hi).1
  obtain ⟨binding, hbinding⟩ : ∃ binding, blob.config[i]? = some binding :=
    ⟨_, List.getElem?_eq_getElem hiLt⟩
  have hkey : (keyBytes blob.config)[i]? = some binding.key := by
    rw [keyBytes, List.getElem?_map, hbinding]
    rfl
  have hkeyLe := (hkeys.flatten hkey).le
  rw [bindingEntries, heapEntries_getElem? hbinding, ← keyBytes, keysOff] at hi
  cases hi
  have hentryLen := length_bindingBytes (layout.heapOff + blob.names.flatten.length +
    ((keyBytes blob.config).take i).flatten.length) binding
  rw [ConfigBindingView.len] at hentryLen
  have hword := (At.self (bindingBytes (layout.heapOff + blob.names.flatten.length +
    ((keyBytes blob.config).take i).flatten.length) binding)).right.right.right.left
  simp only [length_leBytes, length_offsetBytes] at hword
  rw [readU32_offset hword (by omega) (by omega), ok_bind, toNat_ofNat_u32 (by omega),
    require_of _ (by omega)]

def writtenView (layout : Layout) (blob : ConductorBlob) (body : List UInt8) : ConductorView where
  body := body
  stageCount := layout.stageCount
  edgeCount := layout.edgeCount
  stageTable := stageTableBytes layout blob
  edgeTable := (blob.edges.map edgeBytes).flatten
  registry := blob.registry.map (registryView layout body)
  configCount := UInt32.ofNat blob.config.length
  configEntries := configTable layout blob

theorem parseRegistry_ok_iff {registry : Option ParsedRegistry} :
    parseRegistry body layout.stageCount = .ok registry ↔
      (∀ reg ∈ blob.registry, ∀ ordinal ∈ reg.sorted, ordinal.toNat < blob.stages.length) ∧
      registry = blob.registry.map (parsedRegistry layout body) := by
  cases hreg : blob.registry with
  | none =>
    rw [parseRegistry_none hfits h hreg]
    simp [eq_comm]
  | some reg =>
    have hlt := h.length_lt hfits
    have hle := (h.registry reg hreg).1.right.le
    rw [length_sortedBytes] at hle
    rw [parseRegistry_eq hfits h hreg, bind_eq_ok]
    constructor
    · intro hok
      obtain ⟨_, hcheck, hvalue⟩ := hok
      rw [checkSortedOrdinals_ok (by omega), hfits.stageCount] at hcheck
      refine ⟨fun found hfound => ?_, (Outcome.ok.inj hvalue).symm⟩
      cases hfound
      exact hcheck
    · intro hok
      obtain ⟨hsorted, rfl⟩ := hok
      refine ⟨(), (checkSortedOrdinals_ok (by omega)).mpr ?_, rfl⟩
      rw [hfits.stageCount]
      exact hsorted reg rfl

theorem parseConfig_ok_iff {config : Option ParsedConfig} :
    parseConfig body layout.stageCount = .ok config ↔
      (∀ binding ∈ blob.config, binding.nodeOrdinal.toNat < blob.stages.length) ∧
      config = configOf layout blob := by
  by_cases hempty : blob.config = []
  · rw [parseConfig_none hfits h hempty, configOf, if_pos hempty]
    simp [hempty, eq_comm]
  · have hlt := h.length_lt hfits
    have hle := (h.config hempty).1.right.right.le
    rw [length_bindingEntries] at hle
    rw [parseConfig_eq hfits h hempty, configOf, if_neg hempty, bind_eq_ok]
    constructor
    · intro hok
      obtain ⟨_, hcheck, hvalue⟩ := hok
      exact ⟨(checkConfigEntries_ok hfits h (by omega)).mp hcheck, (Outcome.ok.inj hvalue).symm⟩
    · intro hok
      obtain ⟨hconfig, rfl⟩ := hok
      exact ⟨(), (checkConfigEntries_ok hfits h (by omega)).mpr hconfig, rfl⟩

theorem checkRegistryHeap_ok
    (hsorted : ∀ reg ∈ blob.registry, ∀ ordinal ∈ reg.sorted, ordinal.toNat < blob.stages.length)
    (hfloor : floor ≤ layout.heapOff) :
    checkRegistryHeap (blob.registry.map (parsedRegistry layout body)) layout.stageCount floor =
      .ok () ↔ ∀ reg ∈ blob.registry, reg.sortedNames.Pairwise (· ≤ ·) := by
  cases hreg : blob.registry with
  | none => simp [checkRegistryHeap]
  | some reg =>
    change (checkNamesInHeap (nameEntries layout.heapOff reg.names).flatten floor >>= fun _ =>
      checkSortedOrder (registryView layout body reg) layout.stageCount) = _ ↔ _
    rw [checkNamesInHeap_ok hfits h hreg hfloor, ok_bind,
      checkSortedOrder_ok hfits h hreg (hsorted reg hreg)]
    simp

theorem checkConfigHeap_ok
    (hfloor : floor ≤ layout.heapOff) : checkConfigHeap (configOf layout blob) floor = .ok () := by
  unfold configOf
  split
  · rfl
  · next hne => exact checkKeysInHeap_ok hfits h hne hfloor

end

omit hfits in
theorem writtenView_eq (layout : Layout) (blob : ConductorBlob) (body : List UInt8) :
    { body, stageCount := layout.stageCount, edgeCount := layout.edgeCount,
      stageTable := stageTableBytes layout blob,
      edgeTable := (blob.edges.map edgeBytes).flatten,
      registry := (blob.registry.map (parsedRegistry layout body)).map ParsedRegistry.view,
      configCount := ((configOf layout blob).map ParsedConfig.count).getD 0,
      configEntries := ((configOf layout blob).map ParsedConfig.entries).getD [] } =
      writtenView layout blob body := by
  have hregistry : (blob.registry.map (parsedRegistry layout body)).map ParsedRegistry.view =
      blob.registry.map (registryView layout body) := by
    rw [Option.map_map]
    rfl
  have hconfig : ((configOf layout blob).map ParsedConfig.count).getD 0 =
      UInt32.ofNat blob.config.length ∧
      ((configOf layout blob).map ParsedConfig.entries).getD [] = configTable layout blob := by
    unfold configOf
    split
    · next hempty =>
      rw [configTable, hempty]
      exact ⟨rfl, rfl⟩
    · exact ⟨rfl, rfl⟩
  rw [hregistry, hconfig.1, hconfig.2, writtenView]

theorem parse_ok_iff (h : layout.Encoded blob body) {view : ConductorView} :
    parse body = .ok view ↔ blob.WellFormed ∧ view = writtenView layout blob body := by
  have hlt := h.length_lt hfits
  have hlen := h.length
  have hoffsets := hfits.offsets
  have hedgesLe := h.edges.le
  have hedgesLen := length_edgeTable blob.edges
  obtain ⟨hstageCount, hedgeCount, hstageOffset, hedgeOffset, _, _⟩ := h.words hfits
  have hedgeOffNat : (UInt32.ofNat layout.edgeTableOff).toNat = layout.edgeTableOff :=
    toNat_ofNat_u32 (by omega)
  have hstageTable : sliceTable body stageTableOffsetField layout.stageCount stageEntryLen =
      .ok (24, stageTableBytes layout blob) :=
    sliceTable_of_at hstageOffset (by decide) h.stages
      (by rw [length_stageTableBytes, hfits.stageCount]; rfl) (by omega)
  have hedgeTable : sliceTable body edgeTableOffsetField layout.edgeCount EdgeView.len =
      .ok (layout.edgeTableOff, (blob.edges.map edgeBytes).flatten) := by
    rw [← hedgeOffNat]
    refine sliceTable_of_at hedgeOffset ?_ (by rw [hedgeOffNat]; exact h.edges) ?_ (by omega)
    · simp only [conductorHeaderLen]; omega
    · rw [hfits.edgeCount, EdgeView.len, hedgesLen]
  have hsections : sectionSpans
      { offset := 24, len := (stageTableBytes layout blob).length }
      { offset := layout.edgeTableOff, len := (blob.edges.map edgeBytes).flatten.length }
      (blob.registry.map (parsedRegistry layout body)) (configOf layout blob) =
      writtenSections layout blob body := by
    rw [writtenSections, hedgesLen, length_stageTableBytes]
  have haround := writtenSections_around hfits body
  have hwithin : ∀ s ∈ writtenSections layout blob body, s.Within body.length :=
    fun s hs => Nat.le_trans (haround s hs).1 (by omega)
  obtain ⟨floor, hfloor, hfloorLe⟩ := heapFloor_ok hfits h fun s hs => (haround s hs).1
  have hdisjoint := checkSectionsDisjoint_ok (by omega) hwithin (writtenSections_before hfits body)
  have hpolicies := checkStagePolicies_ok hfits h
    fun s hs => ⟨hwithin s hs, (haround s hs).2⟩
  have hedgesOk : checkEdgeOrdinals (blob.edges.map edgeBytes).flatten layout.stageCount = .ok () ↔
      _ := checkEdgeOrdinals_ok (by omega)
  rw [hfits.stageCount] at hedgesOk
  rw [parse, stageCountField, hstageCount, ok_bind, edgeCountField, hedgeCount, ok_bind,
    hstageTable, ok_bind]
  dsimp only
  rw [hedgeTable, ok_bind]
  -- the framing passes; what remains are the ordinals and the order of the names
  constructor
  · intro hok
    obtain ⟨registry, hregistry, hok⟩ := bind_eq_ok.mp hok
    obtain ⟨hsorted, rfl⟩ := (parseRegistry_ok_iff hfits h).mp hregistry
    obtain ⟨config, hconfig, hok⟩ := bind_eq_ok.mp hok
    obtain ⟨hordinals, rfl⟩ := (parseConfig_ok_iff hfits h).mp hconfig
    rw [hsections, hdisjoint, ok_bind] at hok
    obtain ⟨_, hedges, hok⟩ := bind_eq_ok.mp hok
    rw [hpolicies, ok_bind, checkRecordOverlaps_ok hfits h, ok_bind, hfloor, ok_bind] at hok
    obtain ⟨_, horder, hok⟩ := bind_eq_ok.mp hok
    rw [checkConfigHeap_ok hfits h hfloorLe, ok_bind, writtenView_eq] at hok
    exact ⟨⟨hedgesOk.mp hedges, hordinals, hsorted,
      (checkRegistryHeap_ok hfits h hsorted hfloorLe).mp horder⟩, (Outcome.ok.inj hok).symm⟩
  · intro hok
    obtain ⟨hwf, rfl⟩ := hok
    rw [(parseRegistry_ok_iff hfits h).mpr ⟨hwf.sorted_lt, rfl⟩, ok_bind,
      (parseConfig_ok_iff hfits h).mpr ⟨hwf.config, rfl⟩, ok_bind, hsections, hdisjoint, ok_bind,
      hedgesOk.mpr hwf.edges, ok_bind, hpolicies, ok_bind, checkRecordOverlaps_ok hfits h, ok_bind,
      hfloor, ok_bind, (checkRegistryHeap_ok hfits h hwf.sorted_lt hfloorLe).mpr hwf.sorted_le,
      ok_bind, checkConfigHeap_ok hfits h hfloorLe, ok_bind, writtenView_eq]
    rfl

end Written

end Kwokka.Ir
