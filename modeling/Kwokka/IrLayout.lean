import Kwokka.IrAccess

/-! Where the parts of an accepted body lie: the tables, the records they refer to,
and the string heap behind all of them. -/

namespace Kwokka.Ir

open Bytes Outcome ConfigBindingView RegistryView ConductorView

def Span.Disjoint (left right : Span) : Prop :=
  ∀ i, left.offset ≤ i → i < left.offset + left.len → right.offset ≤ i →
    ¬ i < right.offset + right.len

theorem Span.Disjoint.of_not_overlaps {left right : Span} (h : ¬ left.Overlaps right) :
    left.Disjoint right := by
  intro i hleft hleft' hright hright'
  exact h ⟨by omega, by omega⟩

def PolicyKind.index : PolicyKind → Nat
  | limiter => 0
  | timeout => 1
  | retry => 2
  | breaker => 3

def RegistryView.nameRef (view : RegistryView) (ordinal : Nat) : Option Span := do
  let entry ← tableEntry view.nameTable nameEntryLen ordinal
  return ⟨leNat (entry.take 4), leNat (entry.drop 4)⟩

namespace ConductorView

variable (view : ConductorView)

def headerWord (field : Nat) : Nat :=
  ((readU32 view.body field).toOption.map UInt32.toNat).getD 0

def registrySpans : List Span :=
  match view.registry with
  | none => []
  | some reg =>
    let offset := view.headerWord registryTableOffsetField
    [⟨offset, reg.nameTable.length⟩, ⟨offset + reg.nameTable.length, reg.sortedIndex.length⟩]

def configSpans : List Span :=
  let offset := view.headerWord configTableOffsetField
  if offset = 0 then [] else [⟨offset, configHeaderLen + view.configEntries.length⟩]

def sections : List Span :=
  ⟨0, conductorHeaderLen⟩ ::
    ([⟨view.headerWord stageTableOffsetField, view.stageTable.length⟩,
      ⟨view.headerWord edgeTableOffsetField, view.edgeTable.length⟩] ++
      view.registrySpans ++ view.configSpans)

def recordSpan (ordinal : Nat) (kind : PolicyKind) : Option Span := do
  let stage ← view.stage ordinal
  (← (recordSpanAt view.body stage.entry kind).toOption)

def keyRef (index : Nat) : Option Span := do
  let entry ← tableEntry view.configEntries len index
  return ⟨(← (readU32 entry 8).toOption).toNat, (← (readU32 entry 4).toOption).toNat⟩

structure InHeap (view : ConductorView) (string : Span) : Prop where
  inside : string.Within view.body.length
  after_sections : ∀ s ∈ view.sections, s.offset + s.len ≤ string.offset
  after_records : ∀ ordinal kind, ∀ s ∈ view.recordSpan ordinal kind,
    s.offset + s.len ≤ string.offset

structure Laid (view : ConductorView) : Prop where
  stages_at : At view.body (view.headerWord stageTableOffsetField) view.stageTable
  edges_at : At view.body (view.headerWord edgeTableOffsetField) view.edgeTable
  registry_at : ∀ reg ∈ view.registry,
    At view.body (view.headerWord registryTableOffsetField) reg.nameTable ∧
      At view.body (view.headerWord registryTableOffsetField + reg.nameTable.length) reg.sortedIndex
  config_at : view.headerWord configTableOffsetField ≠ 0 →
    At view.body (view.headerWord configTableOffsetField + configHeaderLen) view.configEntries
  sections_inside : ∀ s ∈ view.sections, s.Within view.body.length
  sections_disjoint : view.sections.Pairwise Span.Disjoint
  records_inside : ∀ ordinal kind, ∀ r ∈ view.recordSpan ordinal kind,
    r.Within view.body.length ∧ ∀ s ∈ view.sections, r.Disjoint s
  records_disjoint : ∀ ordinal kind ordinal' kind', ∀ r ∈ view.recordSpan ordinal kind,
    ∀ r' ∈ view.recordSpan ordinal' kind', (ordinal, kind) ≠ (ordinal', kind') → r.Disjoint r'
  names : ∀ reg ∈ view.registry, ∀ ordinal < view.stageCount.toNat, ∃ string name,
    reg.nameRef ordinal = some string ∧ reg.name ordinal = some name ∧
      At view.body string.offset name ∧ name.length = string.len ∧ view.InHeap string
  keys : ∀ index < view.configCount.toNat, ∃ string binding,
    view.keyRef index = some string ∧ view.configBinding index = some binding ∧
      At view.body string.offset binding.key ∧ binding.key.length = string.len ∧
      view.InHeap string

end ConductorView

theorem PolicyKind.all_index (kind : PolicyKind) : all[kind.index]? = some kind := by
  cases kind <;> rfl

theorem PolicyKind.index_lt (kind : PolicyKind) : kind.index < count := by
  cases kind <;> decide

theorem PolicyKind.index_inj {kind kind' : PolicyKind} (h : kind.index = kind'.index) :
    kind = kind' := by
  have hall := kind.all_index
  rw [h, kind'.all_index] at hall
  exact (Option.some.inj hall).symm

section Records

variable {body entry stageTable : List UInt8} {sections : List Span} {kind : PolicyKind} {span : Span}

theorem recordSpanAt_header (h : recordSpanAt body entry kind = .ok (some span)) :
    conductorHeaderLen ≤ span.offset := by
  obtain ⟨slotOffset, -, h⟩ := bind_eq_ok.mp h
  dsimp only at h
  split at h
  · cases h
  · simp only [bind_eq_ok] at h
    obtain ⟨_, hheader, record, -, len, -, h⟩ := h
    cases Outcome.ok.inj h
    exact require_eq_ok.mp hheader

theorem checkPolicySlot_apart (hsections : ∀ s ∈ sections, s.Within body.length)
    (hbody : body.length < 2 ^ 64) (h : checkPolicySlot body entry kind sections = .ok ())
    (hspan : recordSpanAt body entry kind = .ok (some span)) :
    ∀ s ∈ sections, ¬ span.Overlaps s := by
  have hwithin := (recordSpanAt_ensures body entry kind).of_ok hspan span rfl
  rw [checkPolicySlot, hspan, ok_bind] at h
  obtain ⟨record, -, h⟩ := bind_eq_ok.mp h
  obtain ⟨_, -, h⟩ := bind_eq_ok.mp h
  obtain ⟨_, -, h⟩ := bind_eq_ok.mp h
  rw [overlapsAny_eq hwithin hsections hbody, ok_bind] at h
  have hnone := of_decide_eq_false (require_eq_ok.mp h)
  exact fun s hs hover => hnone ⟨s, hs, hover⟩

theorem checkStagePolicies_apart (hsections : ∀ s ∈ sections, s.Within body.length)
    (hbody : body.length < 2 ^ 64)
    (h : checkStagePolicies body stageTable sections = .ok ()) {k : Nat}
    (hk : k * stageEntryLen < stageTable.length)
    (hentry : slice stageTable (k * stageEntryLen) (k * stageEntryLen + stageEntryLen) = some entry)
    (hspan : recordSpanAt body entry kind = .ok (some span)) :
    ∀ s ∈ sections, ¬ span.Overlaps s := by
  have hscan : Ensures (checkStagePolicies body stageTable sections) fun _ =>
      ∀ k, k * stageEntryLen < stageTable.length → ∃ entry,
        slice stageTable (k * stageEntryLen) (k * stageEntryLen + stageEntryLen) = some entry ∧
        ∀ kind span, recordSpanAt body entry kind = .ok (some span) →
          ∀ s ∈ sections, ¬ span.Overlaps s := by
    apply checkEntries_ensures (by decide)
    intro entry _
    refine .mono (.forM (Q := fun kind => checkPolicySlot body entry kind sections = .ok ())
      fun kind _ => ?_) fun _ hall kind span => ?_
    · have hslot := checkPolicySlot_ensures entry kind hsections hbody
      cases hc : checkPolicySlot body entry kind sections with
      | ok => rfl
      | err => trivial
      | panic => exact absurd hc hslot.ne_panic
    · exact checkPolicySlot_apart hsections hbody (hall kind (PolicyKind.mem_all kind))
  obtain ⟨found, hfound, hapart⟩ := hscan.of_ok h k hk
  cases hentry.symm.trans hfound
  exact hapart kind span hspan

theorem nthRecordSpan_at {ordinal : Nat} (hordinal : ordinal < 2 ^ 32)
    (hentry : slice stageTable (ordinal * stageEntryLen) (ordinal * stageEntryLen + stageEntryLen) =
      some entry) :
    nthRecordSpan body stageTable (ordinal * PolicyKind.count + kind.index) =
      recordSpanAt body entry kind := by
  have hlt : kind.index < 4 := kind.index_lt
  have hcount : PolicyKind.count = 4 := rfl
  have hlen : stageEntryLen = 16 := rfl
  have hdiv : (ordinal * PolicyKind.count + kind.index) / PolicyKind.count = ordinal := by
    rw [hcount]
    omega
  have hmod : (ordinal * PolicyKind.count + kind.index) % PolicyKind.count = kind.index := by
    rw [hcount]
    omega
  have hmul : checkedMul ordinal stageEntryLen = some (ordinal * stageEntryLen) :=
    checkedMul_of_lt (by rw [hlen]; omega)
  have hadd : checkedAdd (ordinal * stageEntryLen) stageEntryLen =
      some (ordinal * stageEntryLen + stageEntryLen) := checkedAdd_of_lt (by rw [hlen]; omega)
  simp only [nthRecordSpan, hdiv, hmod, hmul, hadd, hentry, kind.all_index, ofOption_some,
    expect_some, ok_bind]

theorem checkRecordOverlaps_apart {total a b : Nat} {spanA spanB : Span}
    (hbody : body.length < 2 ^ 64) (htotal : stageTable.length / stageEntryLen * PolicyKind.count = total)
    (h : checkRecordOverlaps body stageTable = .ok ()) (hab : a < b) (hb : b < total)
    (hA : nthRecordSpan body stageTable a = .ok (some spanA))
    (hB : nthRecordSpan body stageTable b = .ok (some spanB)) : ¬ spanA.Overlaps spanB := by
  obtain ⟨total', htotal', h⟩ := bind_eq_ok.mp h
  have hsame := checkedMul_eq_some (ofOption_eq_ok.mp htotal')
  rw [htotal] at hsame
  subst hsame
  have hrow := (forM_eq_ok.mp h) a (List.mem_range.mpr (by omega))
  rw [hA, ok_bind] at hrow
  have hcell := (forM_eq_ok.mp hrow) b (List.mem_range'_1.mpr (by omega))
  rw [hB, ok_bind] at hcell
  have hwithinA := (nthRecordSpan_ensures body stageTable a).of_ok hA spanA rfl
  have hwithinB := (nthRecordSpan_ensures body stageTable b).of_ok hB spanB rfl
  change (rangesOverlap spanA spanB >>= _) = _ at hcell
  rw [rangesOverlap_eq hwithinA hwithinB hbody, ok_bind] at hcell
  exact of_decide_eq_false (require_eq_ok.mp hcell)

end Records

section Heap

theorem foldlM_le {β : Type} {l : List β} {step : Nat → β → Outcome IrError Nat} {B : β → Nat → Prop}
    (hstep : ∀ floor x floor', x ∈ l → step floor x = .ok floor' →
      floor ≤ floor' ∧ ∀ n, B x n → n ≤ floor') {init floor : Nat}
    (h : l.foldlM step init = .ok floor) :
    init ≤ floor ∧ ∀ x ∈ l, ∀ n, B x n → n ≤ floor := by
  induction l generalizing init with
  | nil =>
    cases h
    exact ⟨Nat.le_refl _, fun x hx => absurd hx List.not_mem_nil⟩
  | cons first rest ih =>
    rw [List.foldlM_cons] at h
    obtain ⟨mid, hmid, h⟩ := bind_eq_ok.mp h
    obtain ⟨hle, hfirst⟩ := hstep init first mid List.mem_cons_self hmid
    obtain ⟨hmidLe, hrest⟩ :=
      ih (fun floor x floor' hx => hstep floor x floor' (List.mem_cons_of_mem _ hx)) h
    refine ⟨Nat.le_trans hle hmidLe, fun x hx n hn => ?_⟩
    rcases List.mem_cons.mp hx with rfl | hx
    · exact Nat.le_trans (hfirst n hn) hmidLe
    · exact hrest x hx n hn

theorem heapFloor_le {body stageTable : List UInt8} {sections : List Span} {floor total : Nat}
    (hsections : ∀ s ∈ sections, s.Within body.length) (hbody : body.length < 2 ^ 64)
    (htotal : stageTable.length / stageEntryLen * PolicyKind.count = total)
    (h : heapFloor sections body stageTable = .ok floor) :
    (∀ s ∈ sections, s.offset + s.len ≤ floor) ∧
      ∀ n < total, ∀ span, nthRecordSpan body stageTable n = .ok (some span) →
        span.offset + span.len ≤ floor := by
  obtain ⟨low, hlow, h⟩ := bind_eq_ok.mp h
  obtain ⟨total', htotal', h⟩ := bind_eq_ok.mp h
  have hsame := checkedMul_eq_some (ofOption_eq_ok.mp htotal')
  rw [htotal] at hsame
  subst hsame
  have hfirst := foldlM_le (B := fun s n => n = s.offset + s.len) (fun floor s floor' hs hstep => by
    rw [Span.stop_eq (hsections s hs) hbody, ok_bind] at hstep
    cases hstep
    exact ⟨Nat.le_max_left _ _, fun n hn => hn ▸ Nat.le_max_right _ _⟩) hlow
  have hsecond := foldlM_le
    (B := fun k n => ∃ span, nthRecordSpan body stageTable k = .ok (some span) ∧
      n = span.offset + span.len) (fun floor k floor' hk hstep => by
    obtain ⟨found, hfound, hstep⟩ := bind_eq_ok.mp hstep
    cases found with
    | none =>
      cases hstep
      refine ⟨Nat.le_refl _, ?_⟩
      rintro n ⟨span, hspan, -⟩
      rw [hfound] at hspan
      cases hspan
    | some span =>
      have hwithin := (nthRecordSpan_ensures body stageTable k).of_ok hfound span rfl
      change (span.stop >>= _) = _ at hstep
      rw [Span.stop_eq hwithin hbody, ok_bind] at hstep
      cases hstep
      refine ⟨Nat.le_max_left _ _, ?_⟩
      rintro n ⟨other, hother, rfl⟩
      rw [hfound] at hother
      cases Outcome.ok.inj hother
      exact Nat.le_max_right _ _) h
  refine ⟨fun s hs => Nat.le_trans (hfirst.2 s hs _ rfl) hsecond.1, fun n hn span hspan => ?_⟩
  exact hsecond.2 n (List.mem_range.mpr hn) _ ⟨span, hspan, rfl⟩

end Heap

section Tables

variable {body : List UInt8} {stageCount : UInt32}

theorem sliceTable_eq_ok {field entryLen offset : Nat} {count : UInt32} {table : List UInt8}
    (h : sliceTable body field count entryLen = .ok (offset, table)) :
    ∃ word, readU32 body field = .ok word ∧ word.toNat = offset ∧ conductorHeaderLen ≤ offset := by
  obtain ⟨word, hword, h⟩ := bind_eq_ok.mp h
  simp only [bind_eq_ok] at h
  obtain ⟨_, hheader, span, -, stop, -, found, -, h⟩ := h
  cases h
  exact ⟨word, hword, rfl, require_eq_ok.mp hheader⟩

theorem parseRegistry_eq_ok {found : Option ParsedRegistry}
    (h : parseRegistry body stageCount = .ok found) :
    ∃ word, readU32 body registryTableOffsetField = .ok word ∧
      ∀ reg ∈ found, conductorHeaderLen ≤ word.toNat ∧ reg.view.nameTable = reg.nameTable ∧
        reg.nameTable.length = stageCount.toNat * nameEntryLen ∧
        reg.nameSpan = ⟨word.toNat, reg.nameTable.length⟩ ∧
        reg.sortedSpan = ⟨word.toNat + reg.nameTable.length, reg.view.sortedIndex.length⟩ ∧
        At body word.toNat reg.nameTable ∧
        At body (word.toNat + reg.nameTable.length) reg.view.sortedIndex := by
  obtain ⟨word, hword, h⟩ := bind_eq_ok.mp h
  refine ⟨word, hword, fun reg hreg => ?_⟩
  subst hreg
  dsimp only at h
  split at h
  · cases h
  · obtain ⟨⟨nameOffset, nameTable⟩, htable, h⟩ := bind_eq_ok.mp h
    obtain ⟨word', hword', hoffset, hheader⟩ := sliceTable_eq_ok htable
    cases hword.symm.trans hword'
    subst hoffset
    obtain ⟨hnameAt, -, hlen⟩ := (sliceTable_ensures _ _ _ _).of_ok htable
    simp only [bind_eq_ok] at h
    obtain ⟨sortedOffset, hsorted, sortedLen, -, sortedEnd, -, sortedIndex, hindex, _, -, _, -,
      h⟩ := h
    cases Outcome.ok.inj h
    have hat := checkedAdd_eq_some (ofOption_eq_ok.mp hsorted)
    subst hat
    have hslice := ofOption_eq_ok.mp hindex
    exact ⟨hheader, rfl, hlen, rfl, rfl, hnameAt, At.of_slice hslice⟩

theorem parseConfig_eq_ok {found : Option ParsedConfig}
    (h : parseConfig body stageCount = .ok found) :
    ∃ word, readU32 body configTableOffsetField = .ok word ∧ (found = none ↔ word.toNat = 0) ∧
      ∀ cfg ∈ found, conductorHeaderLen ≤ word.toNat ∧
        cfg.sectionSpan = ⟨word.toNat, configHeaderLen + cfg.entries.length⟩ ∧
        At body (word.toNat + configHeaderLen) cfg.entries := by
  obtain ⟨word, hword, h⟩ := bind_eq_ok.mp h
  refine ⟨word, hword, ?_⟩
  dsimp only at h
  split at h
  · next hzero =>
    cases h
    exact ⟨by simp [hzero], fun cfg hcfg => by cases hcfg⟩
  · next hne =>
    simp only [bind_eq_ok] at h
    obtain ⟨_, hheader, count, -, entriesOffset, hoffset, entriesLen, -, entriesEnd, hend,
      entries, hentries, _, -, sectionLen, hsection, h⟩ := h
    cases h
    have hoffset := checkedAdd_eq_some (ofOption_eq_ok.mp hoffset)
    have hend := checkedAdd_eq_some (ofOption_eq_ok.mp hend)
    have hsection := checkedAdd_eq_some (ofOption_eq_ok.mp hsection)
    have hslice := ofOption_eq_ok.mp hentries
    have hlen := (slice_eq_some hslice).2.2.1
    refine ⟨by simp [hne], fun cfg hcfg => ?_⟩
    cases hcfg
    refine ⟨require_eq_ok.mp hheader, ?_, hoffset ▸ At.of_slice hslice⟩
    rw [hsection, hlen, hend]
    simp

end Tables

section Strings

theorem readU32_take {entry : List UInt8} (h : 4 ≤ entry.length) :
    readU32 entry 0 = .ok (UInt32.ofNat (leNat (entry.take 4))) ∧
      (UInt32.ofNat (leNat (entry.take 4))).toNat = leNat (entry.take 4) := by
  have hslice : slice entry 0 4 = some (entry.take 4) := by
    simp [slice, h]
  have hlt := leNat_lt (entry.take 4)
  rw [List.length_take, Nat.min_eq_left h] at hlt
  refine ⟨?_, Nat.mod_eq_of_lt hlt⟩
  simp [readU32, readLe, checkedAdd, hslice]

theorem RegistryView.name_eq {view : RegistryView} {ordinal : Nat} {string : Span} {name : List UInt8}
    (href : view.nameRef ordinal = some string) (hname : view.name ordinal = some name) :
    At view.body string.offset name ∧ name.length = string.len := by
  obtain ⟨entry, hentry, href⟩ := Option.bind_eq_some_iff.mp href
  cases href
  obtain ⟨offset, hoffset, hentry⟩ := Option.bind_eq_some_iff.mp hentry
  obtain ⟨stop, hstop, hentry⟩ := Option.bind_eq_some_iff.mp hentry
  rw [RegistryView.name] at hname
  split at hname
  · cases hname
  · obtain ⟨offset', hoffset', hname⟩ := Option.bind_eq_some_iff.mp hname
    obtain ⟨stop', hstop', hname⟩ := Option.bind_eq_some_iff.mp hname
    obtain ⟨entry', hentry', hname⟩ := Option.bind_eq_some_iff.mp hname
    obtain ⟨strEnd, hend, hname⟩ := Option.bind_eq_some_iff.mp hname
    cases hoffset.symm.trans hoffset'
    cases hstop.symm.trans hstop'
    cases hentry.symm.trans hentry'
    have hlen := (slice_eq_some hname).2.2.1
    have hend := checkedAdd_eq_some hend
    exact ⟨At.of_slice hname, by dsimp only; omega⟩

theorem configBinding_key {body entry : List UInt8} {binding : ConfigBindingView} {len offset : UInt32}
    (h : ConfigBindingView.parse body entry = .ok binding) (hlen : readU32 entry 4 = .ok len)
    (hoffset : readU32 entry 8 = .ok offset) :
    At body offset.toNat binding.key ∧ binding.key.length = len.toNat := by
  obtain ⟨_, -, h⟩ := bind_eq_ok.mp h
  simp only [bind_eq_ok] at h
  obtain ⟨_, -, _, -, len', hlen', offset', hoffset', keyEnd, hend, key, hkey, _, -, _, -, h⟩ := h
  cases h
  cases hlen.symm.trans hlen'
  cases hoffset.symm.trans hoffset'
  have hend := checkedAdd_eq_some (ofOption_eq_ok.mp hend)
  have hslice := ofOption_eq_ok.mp hkey
  have hkeyLen := (slice_eq_some hslice).2.2.1
  exact ⟨At.of_slice hslice, by dsimp only; omega⟩

end Strings

/-- What the checks of an accepted body computed on the way to its view. -/
structure Parts where
  stageOff : Nat
  edgeOff : Nat
  registry : Option ParsedRegistry
  config : Option ParsedConfig
  floor : Nat

def Parts.spans (parts : Parts) (view : ConductorView) : List Span :=
  sectionSpans ⟨parts.stageOff, view.stageTable.length⟩ ⟨parts.edgeOff, view.edgeTable.length⟩
    parts.registry parts.config

structure Parts.Checked (parts : Parts) (body : List UInt8) (view : ConductorView) : Prop where
  body_eq : view.body = body
  stage : sliceTable body stageTableOffsetField view.stageCount stageEntryLen =
    .ok (parts.stageOff, view.stageTable)
  edge : sliceTable body edgeTableOffsetField view.edgeCount EdgeView.len =
    .ok (parts.edgeOff, view.edgeTable)
  registry : parseRegistry body view.stageCount = .ok parts.registry
  config : parseConfig body view.stageCount = .ok parts.config
  disjoint : checkSectionsDisjoint (parts.spans view) = .ok ()
  policies : checkStagePolicies body view.stageTable (parts.spans view) = .ok ()
  overlaps : checkRecordOverlaps body view.stageTable = .ok ()
  floor : heapFloor (parts.spans view) body view.stageTable = .ok parts.floor
  registryHeap : checkRegistryHeap parts.registry view.stageCount parts.floor = .ok ()
  configHeap : checkConfigHeap parts.config parts.floor = .ok ()
  registry_eq : view.registry = parts.registry.map ParsedRegistry.view
  entries_eq : view.configEntries = (parts.config.map ParsedConfig.entries).getD []
  count_eq : view.configCount = (parts.config.map ParsedConfig.count).getD 0

theorem parse_eq_ok {body : List UInt8} {view : ConductorView} (h : parse body = .ok view) :
    ∃ parts : Parts, parts.Checked body view := by
  obtain ⟨stageCount, -, h⟩ := bind_eq_ok.mp h
  simp only [bind_eq_ok] at h
  obtain ⟨edgeCount, -, ⟨stageOff, stageTable⟩, hstage, ⟨edgeOff, edgeTable⟩, hedge,
    registry, hregistry, config, hconfig, _, hdisjoint, _, -, _, hpolicies, _, hoverlaps,
    floor, hfloor, _, hregistryHeap, _, hconfigHeap, h⟩ := h
  cases h
  exact ⟨⟨stageOff, edgeOff, registry, config, floor⟩, rfl, hstage, hedge, hregistry, hconfig,
    hdisjoint, hpolicies, hoverlaps, hfloor, hregistryHeap, hconfigHeap, rfl, rfl, rfl⟩

namespace Parts.Checked

variable {parts : Parts} {body : List UInt8} {view : ConductorView} {s : Span}

variable (h : parts.Checked body view)

include h

theorem headerWord_eq {field : Nat} {word : UInt32}
    (hword : readU32 body field = .ok word) : view.headerWord field = word.toNat := by
  simp [headerWord, h.body_eq, hword]

theorem sections_eq :
    view.sections = ⟨0, conductorHeaderLen⟩ :: parts.spans view := by
  obtain ⟨stageWord, hstage, hstageOff, -⟩ := sliceTable_eq_ok h.stage
  obtain ⟨edgeWord, hedge, hedgeOff, -⟩ := sliceTable_eq_ok h.edge
  obtain ⟨registryWord, hregistry, hreg⟩ := parseRegistry_eq_ok h.registry
  obtain ⟨configWord, hconfig, hnone, hcfg⟩ := parseConfig_eq_ok h.config
  have hregistrySpans : view.registrySpans =
      (parts.registry.map fun reg => [reg.nameSpan, reg.sortedSpan]).getD [] := by
    rw [registrySpans, h.registry_eq, h.headerWord_eq hregistry]
    cases hfound : parts.registry with
    | none => rfl
    | some reg =>
      obtain ⟨-, htable, -, hname, hsorted, -⟩ := hreg reg hfound
      simp [hname, hsorted, htable]
  have hconfigSpans : view.configSpans =
      (parts.config.map fun cfg => [cfg.sectionSpan]).getD [] := by
    rw [configSpans, h.entries_eq, h.headerWord_eq hconfig]
    cases hfound : parts.config with
    | none => simp [hnone.mp hfound]
    | some cfg =>
      have hne : configWord.toNat ≠ 0 := fun hzero => by simp [hnone.mpr hzero] at hfound
      simp [hne, (hcfg cfg hfound).2.1]
  rw [sections, hregistrySpans, hconfigSpans, h.headerWord_eq hstage,
    h.headerWord_eq hedge, hstageOff, hedgeOff]
  rfl

theorem spans_within : ∀ s ∈ parts.spans view, s.Within body.length :=
  sectionSpans_within ((sliceTable_ensures _ _ _ _).of_ok h.stage).1.le
    ((sliceTable_ensures _ _ _ _).of_ok h.edge).1.le
    (fun reg hreg => ((parseRegistry_ensures _ _).of_ok h.registry reg hreg).2)
    (fun cfg hcfg => ((parseConfig_ensures _ _).of_ok h.config cfg hcfg).1)

theorem spans_header (hs : s ∈ parts.spans view) :
    conductorHeaderLen ≤ s.offset := by
  obtain ⟨-, -, -, hstage⟩ := sliceTable_eq_ok h.stage
  obtain ⟨-, -, -, hedge⟩ := sliceTable_eq_ok h.edge
  obtain ⟨registryWord, -, hreg⟩ := parseRegistry_eq_ok h.registry
  obtain ⟨configWord, -, -, hcfg⟩ := parseConfig_eq_ok h.config
  rw [Parts.spans, sectionSpans, List.mem_append, List.mem_append] at hs
  rcases hs with (hs | hs) | hs
  · rcases List.mem_pair.mp hs with rfl | rfl
    · exact hstage
    · exact hedge
  · cases hfound : parts.registry with
    | none => simp [hfound] at hs
    | some reg =>
      obtain ⟨hheader, -, -, hname, hsorted, -⟩ := hreg reg hfound
      rw [hfound] at hs
      rcases List.mem_pair.mp hs with rfl | rfl
      · rw [hname]
        exact hheader
      · rw [hsorted]
        exact Nat.le_add_right_of_le hheader
  · cases hfound : parts.config with
    | none => simp [hfound] at hs
    | some cfg =>
      rw [hfound] at hs
      obtain rfl := List.mem_singleton.mp hs
      rw [(hcfg cfg hfound).2.1]
      exact (hcfg cfg hfound).1

theorem header_le : conductorHeaderLen ≤ body.length := by
  have hword := (readU32_ensures body configTableOffsetField)
  obtain ⟨word, hconfig, -⟩ := parseConfig_eq_ok h.config
  exact hword.of_ok hconfig

theorem stage_length :
    view.stageTable.length = view.stageCount.toNat * stageEntryLen :=
  ((sliceTable_ensures _ _ _ _).of_ok h.stage).2.2

theorem total_eq :
    view.stageTable.length / stageEntryLen * PolicyKind.count =
      view.stageCount.toNat * PolicyKind.count := by
  rw [h.stage_length, Nat.mul_div_cancel _ (by decide)]

theorem recordSpan_eq {ordinal : Nat} {kind : PolicyKind} (hs : s ∈ view.recordSpan ordinal kind) :
    ordinal < view.stageCount.toNat ∧ ∃ entry,
      slice view.stageTable (ordinal * stageEntryLen) (ordinal * stageEntryLen + stageEntryLen) =
        some entry ∧ recordSpanAt body entry kind = .ok (some s) ∧
      nthRecordSpan body view.stageTable (ordinal * PolicyKind.count + kind.index) = .ok (some s) := by
  obtain ⟨stage, hstage, hs⟩ := Option.bind_eq_some_iff.mp hs
  obtain ⟨found, hfound, rfl⟩ := Option.bind_eq_some_iff.mp hs
  rw [ConductorView.stage] at hstage
  split at hstage
  · cases hstage
  · next hlt =>
    have hlt := Nat.lt_of_not_le hlt
    have hbound := view.stageCount.toNat_lt
    obtain ⟨entry, hentry, hstage⟩ := Option.bind_eq_some_iff.mp hstage
    cases hstage
    have hslice : slice view.stageTable (ordinal * stageEntryLen)
        (ordinal * stageEntryLen + stageEntryLen) = some entry := by
      obtain ⟨offset, hoffset, hentry⟩ := Option.bind_eq_some_iff.mp hentry
      obtain ⟨stop, hstop, hentry⟩ := Option.bind_eq_some_iff.mp hentry
      rw [checkedAdd_eq_some hstop, checkedMul_eq_some hoffset] at hentry
      exact hentry
    have hspan : recordSpanAt body entry kind = .ok (some s) := by
      rw [h.body_eq] at hfound
      cases hread : recordSpanAt body entry kind with
      | ok => simpa [hread] using hfound
      | _ => simp [hread, Outcome.toOption] at hfound
    refine ⟨hlt, entry, hslice, hspan, ?_⟩
    rw [nthRecordSpan_at (by omega) hslice, hspan]

omit h in
theorem place_lt {ordinal count : Nat} (kind : PolicyKind) (h : ordinal < count) :
    ordinal * PolicyKind.count + kind.index < count * PolicyKind.count := by
  have hlt : kind.index < 4 := kind.index_lt
  have hcount : PolicyKind.count = 4 := rfl
  rw [hcount]
  omega

variable (hbody : body.length < 2 ^ 64)

include hbody

theorem records_disjoint {ordinal ordinal' : Nat} {kind kind' : PolicyKind} {r r' : Span}
    (hr : r ∈ view.recordSpan ordinal kind) (hr' : r' ∈ view.recordSpan ordinal' kind')
    (hne : (ordinal, kind) ≠ (ordinal', kind')) : r.Disjoint r' := by
  obtain ⟨hlt, -, -, -, hA⟩ := h.recordSpan_eq hr
  obtain ⟨hlt', -, -, -, hB⟩ := h.recordSpan_eq hr'
  have hindex := kind.index_lt
  have hindex' := kind'.index_lt
  have hcount : PolicyKind.count = 4 := rfl
  have hplace : ordinal * PolicyKind.count + kind.index ≠ ordinal' * PolicyKind.count + kind'.index := by
    intro heq
    rw [hcount] at heq hindex hindex'
    have hordinal : ordinal = ordinal' := by omega
    have hkind : kind.index = kind'.index := by omega
    exact hne (Prod.ext hordinal (PolicyKind.index_inj hkind))
  rcases Nat.lt_or_gt_of_ne hplace with hab | hab
  · exact .of_not_overlaps
      (checkRecordOverlaps_apart hbody h.total_eq h.overlaps hab (place_lt kind' hlt') hA hB)
  · have hapart := checkRecordOverlaps_apart hbody h.total_eq h.overlaps hab (place_lt kind hlt) hB hA
    intro i hleft hleft' hright hright'
    exact Span.Disjoint.of_not_overlaps hapart i hright hright' hleft hleft'

theorem inHeap (hs : s.Within body.length) (hfloor : parts.floor ≤ s.offset) : view.InHeap s := by
  obtain ⟨hsections, hrecords⟩ := heapFloor_le h.spans_within hbody h.total_eq h.floor
  refine ⟨by rw [h.body_eq]; exact hs, ?_, ?_⟩
  · intro other hother
    rw [h.sections_eq] at hother
    rcases List.mem_cons.mp hother with rfl | hother
    · -- the stage table starts behind the header
      obtain ⟨-, -, -, hstage⟩ := sliceTable_eq_ok h.stage
      have hfirst := hsections ⟨parts.stageOff, view.stageTable.length⟩
        (by simp [Parts.spans, sectionSpans])
      dsimp only at hfirst ⊢
      omega
    · exact Nat.le_trans (hsections other hother) hfloor
  · intro ordinal kind record hrecord
    obtain ⟨hlt, -, -, -, hplace⟩ := h.recordSpan_eq hrecord
    exact Nat.le_trans (hrecords _ (place_lt kind hlt) record hplace) hfloor

theorem name_inHeap {reg : ParsedRegistry} (hreg : reg ∈ parts.registry) {ordinal : Nat}
    (hlt : ordinal < view.stageCount.toNat) {name : List UInt8}
    (hname : reg.view.name ordinal = some name) :
    ∃ string, reg.view.nameRef ordinal = some string ∧ At body string.offset name ∧
      name.length = string.len ∧ view.InHeap string := by
  obtain ⟨_, -, hparsed⟩ := parseRegistry_eq_ok h.registry
  obtain ⟨-, htable, hlen, -⟩ := hparsed reg hreg
  obtain ⟨hsound, -, -⟩ := (parseRegistry_ensures _ _).of_ok h.registry reg hreg
  have hbound := view.stageCount.toNat_lt
  have hentryLen : nameEntryLen = 8 := rfl
  have hnames : checkNamesInHeap reg.nameTable parts.floor = .ok () := by
    have hheap := h.registryHeap
    rw [show parts.registry = some reg from hreg, checkRegistryHeap] at hheap
    obtain ⟨_, hnames, -⟩ := bind_eq_ok.mp hheap
    exact hnames
  have hscan : Ensures (checkNamesInHeap reg.nameTable parts.floor) fun _ =>
      ∀ k, k * nameEntryLen < reg.nameTable.length → ∃ entry,
        slice reg.nameTable (k * nameEntryLen)
          (k * nameEntryLen + nameEntryLen) = some entry ∧
        parts.floor ≤ leNat (entry.take 4) := by
    apply checkEntries_ensures (by decide)
    intro entry hentry
    obtain ⟨hread, hnat⟩ := readU32_take (show 4 ≤ entry.length by omega)
    rw [hread, ok_bind]
    exact (Ensures.require _).mono fun _ hfloor => hnat ▸ hfloor
  obtain ⟨entry, hentry, hfloor⟩ := hscan.of_ok hnames ordinal (by rw [hlen, hentryLen]; omega)
  have hfound : tableEntry reg.view.nameTable nameEntryLen ordinal = some entry := by
    rw [htable, tableEntry_eq (by rw [hentryLen]; omega), hentry]
  have href : reg.view.nameRef ordinal = some ⟨leNat (entry.take 4), leNat (entry.drop 4)⟩ := by
    simp [nameRef, hfound]
  obtain ⟨hat, hnameLen⟩ := name_eq href hname
  rw [hsound.body_eq] at hat
  refine ⟨_, href, hat, hnameLen, h.inHeap hbody ?_ hfloor⟩
  have hle := hat.le
  rw [hnameLen] at hle
  exact hle

theorem key_inHeap {entry : List UInt8} {index : Nat} {binding : ConfigBindingView}
    (hlt : index < view.configCount.toNat)
    (hslice : slice view.configEntries (index * len)
      (index * len + len) = some entry)
    (hbinding : ConfigBindingView.parse body entry = .ok binding) :
    ∃ string, view.keyRef index = some string ∧ At body string.offset binding.key ∧
      binding.key.length = string.len ∧ view.InHeap string := by
  have hbound := view.configCount.toNat_lt
  have hentryLen : len = 32 := rfl
  cases hconfig : parts.config with
  | none =>
    have hzero := h.count_eq
    rw [hconfig] at hzero
    rw [hzero] at hlt
    exact absurd hlt (Nat.not_lt_zero _)
  | some cfg =>
    have hentries : view.configEntries = cfg.entries := by rw [h.entries_eq, hconfig]; rfl
    have hcount : view.configCount = cfg.count := by rw [h.count_eq, hconfig]; rfl
    obtain ⟨-, -, hlen, -⟩ := (parseConfig_ensures _ _).of_ok h.config cfg hconfig
    have hkeys : checkKeysInHeap cfg.entries parts.floor = .ok () := by
      have hheap := h.configHeap
      rwa [hconfig] at hheap
    have hscan : Ensures (checkKeysInHeap cfg.entries parts.floor) fun _ =>
        ∀ k, k * len < cfg.entries.length → ∃ entry,
          slice cfg.entries (k * len)
            (k * len + len) = some entry ∧
          ∃ offset, readU32 entry 8 = .ok offset ∧ parts.floor ≤ offset.toNat := by
      apply checkEntries_ensures (by decide)
      intro entry _
      refine .bind_of_ne_panic (readU32_ne_panic _ _) fun offset hoffset => ?_
      exact (Ensures.require _).mono fun _ hfloor => ⟨offset, hoffset, hfloor⟩
    obtain ⟨entry', hentry', offset, hoffset, hfloor⟩ :=
      hscan.of_ok hkeys index (by rw [hlen, ← hcount, hentryLen]; omega)
    rw [hentries] at hslice
    cases hslice.symm.trans hentry'
    have hfound : tableEntry view.configEntries len index = some entry := by
      rw [hentries, tableEntry_eq (by rw [hentryLen]; omega), hslice]
    have hwords : ∃ len, readU32 entry 4 = .ok len := by
      obtain ⟨_, -, hparse⟩ := bind_eq_ok.mp hbinding
      obtain ⟨_, -, hparse⟩ := bind_eq_ok.mp hparse
      obtain ⟨_, -, hparse⟩ := bind_eq_ok.mp hparse
      obtain ⟨len, hword, -⟩ := bind_eq_ok.mp hparse
      exact ⟨len, hword⟩
    obtain ⟨len, hword⟩ := hwords
    obtain ⟨hat, hkeyLen⟩ := configBinding_key hbinding hword hoffset
    have href : view.keyRef index = some ⟨offset.toNat, len.toNat⟩ := by
      simp [keyRef, hfound, hoffset, hword]
    refine ⟨_, href, hat, hkeyLen, h.inHeap hbody ?_ hfloor⟩
    have hle := hat.le
    rw [hkeyLen] at hle
    exact hle

theorem laid (hsound : view.Sound body) :
    view.Laid := by
  have hpairwise := (checkSectionsDisjoint_ensures h.spans_within hbody).of_ok h.disjoint
  refine ⟨?_, ?_, ?_, ?_, ?_, ?_, ?_, ?_, ?_, ?_⟩
  · obtain ⟨word, hword, hoff, -⟩ := sliceTable_eq_ok h.stage
    rw [h.headerWord_eq hword, hoff, h.body_eq]
    exact ((sliceTable_ensures _ _ _ _).of_ok h.stage).1
  · obtain ⟨word, hword, hoff, -⟩ := sliceTable_eq_ok h.edge
    rw [h.headerWord_eq hword, hoff, h.body_eq]
    exact ((sliceTable_ensures _ _ _ _).of_ok h.edge).1
  · intro reg hreg
    obtain ⟨word, hword, hparsed⟩ := parseRegistry_eq_ok h.registry
    rw [h.registry_eq] at hreg
    obtain ⟨parsed, hfound, rfl⟩ := Option.map_eq_some_iff.mp hreg
    obtain ⟨-, htable, -, -, -, hnames, hsorted⟩ := hparsed parsed hfound
    rw [h.headerWord_eq hword, h.body_eq, htable]
    exact ⟨hnames, hsorted⟩
  · intro hne
    obtain ⟨word, hword, hnone, hparsed⟩ := parseConfig_eq_ok h.config
    rw [h.headerWord_eq hword] at hne ⊢
    cases hconfig : parts.config with
    | none => exact absurd (hnone.mp hconfig) hne
    | some cfg =>
      rw [h.body_eq, h.entries_eq, hconfig]
      exact (hparsed cfg hconfig).2.2
  · intro s hs
    rw [h.sections_eq] at hs
    rw [h.body_eq]
    rcases List.mem_cons.mp hs with rfl | hs
    · have hle := h.header_le
      change 0 + conductorHeaderLen ≤ body.length
      omega
    · exact h.spans_within s hs
  · rw [h.sections_eq, List.pairwise_cons]
    refine ⟨fun s hs => ?_, hpairwise.imp Span.Disjoint.of_not_overlaps⟩
    have hheader := h.spans_header hs
    intro i _ hlt hle
    dsimp only at hlt
    omega
  · intro ordinal kind r hr
    obtain ⟨hlt, entry, hentry, hspan, -⟩ := h.recordSpan_eq hr
    have hin : ordinal * stageEntryLen < view.stageTable.length := by
      rw [h.stage_length]
      exact Nat.mul_lt_mul_of_pos_right hlt (by decide)
    refine ⟨by rw [h.body_eq]; exact (recordSpanAt_ensures body entry kind).of_ok hspan r rfl, ?_⟩
    intro s hs
    rw [h.sections_eq] at hs
    rcases List.mem_cons.mp hs with rfl | hs
    · have hheader := recordSpanAt_header hspan
      intro i hle _ _ hlt
      dsimp only at hlt
      omega
    · exact .of_not_overlaps
        (checkStagePolicies_apart h.spans_within hbody h.policies hin hentry hspan s hs)
  · intro ordinal kind ordinal' kind' r hr r' hr' hne
    exact h.records_disjoint hbody hr hr' hne
  · intro reg hreg ordinal hlt
    obtain ⟨name, hname⟩ := Option.isSome_iff_exists.mp
      ((hsound.registry reg hreg).1.name_isSome ordinal hlt)
    rw [h.registry_eq] at hreg
    obtain ⟨parsed, hparsed, rfl⟩ := Option.map_eq_some_iff.mp hreg
    obtain ⟨string, href, hat, hlen, hheap⟩ := h.name_inHeap hbody hparsed hlt hname
    exact ⟨string, name, href, hname, h.body_eq ▸ hat, hlen, hheap⟩
  · intro index hlt
    obtain ⟨entry, hslice, binding, hbinding, -⟩ := hsound.config index hlt
    obtain ⟨string, href, hat, hlen, hheap⟩ := h.key_inHeap hbody hlt hslice hbinding
    have hbound := view.configCount.toNat_lt
    have hentryLen : ConfigBindingView.len = 32 := rfl
    have hentry : tableEntry view.configEntries ConfigBindingView.len index = some entry := by
      rw [tableEntry_eq (by rw [hentryLen]; omega), hslice]
    have hfound : view.configBinding index = some binding := by
      simp [configBinding, hentry, h.body_eq, hbinding]
    exact ⟨string, binding, href, hfound, h.body_eq ▸ hat, hlen, hheap⟩

end Parts.Checked

theorem validate_parsed {bytes : List UInt8} {ir : KwokkaIr} {view : ConductorView}
    (hvalid : validate bytes = .ok ir) (hview : ir.conductor = .ok view) :
    parse view.body = .ok view ∧ view.body.length < 2 ^ 64 := by
  obtain ⟨_, -, h⟩ := bind_eq_ok.mp hvalid
  simp only [bind_eq_ok] at h
  obtain ⟨_, -, found, -, _, -, totalLen, -, _, htotal, _, -, h⟩ := h
  cases h
  have htotal := require_eq_ok.mp htotal
  have hbound := totalLen.toNat_lt
  obtain ⟨rootOffset, -, h⟩ := bind_eq_ok.mp hview
  obtain ⟨root, hroot, h⟩ := bind_eq_ok.mp h
  obtain ⟨_, -, hparse⟩ := bind_eq_ok.mp h
  have hinside := ((readRecord_ensures _ _).of_ok hroot).2
  have hshort : root.body.length < 2 ^ 64 := by
    have hle : root.body.length ≤ bytes.length := hinside.length_le
    omega
  have hbody := ((parse_ensures hshort).of_ok hparse).body_eq
  rw [hbody]
  exact ⟨hparse, hshort⟩

/-- The header, the tables and the policy records of an accepted body are apart from each other, and
its names and keys are behind all of them. -/
theorem validate_laid (bytes : List UInt8) (ir : KwokkaIr) (hvalid : validate bytes = .ok ir) :
    ∃ view, ir.conductor = .ok view ∧ view.Laid := by
  obtain ⟨view, hview, -⟩ := (validate_ensures bytes).of_ok hvalid
  obtain ⟨hparse, hshort⟩ := validate_parsed hvalid hview
  obtain ⟨parts, hchecked⟩ := parse_eq_ok hparse
  exact ⟨view, hview, hchecked.laid hshort ((parse_ensures hshort).of_ok hparse)⟩

theorem validate_laid_timeout : validate timeoutBlob = .ok ⟨timeoutBlob⟩ ∧
    ∃ view, KwokkaIr.conductor ⟨timeoutBlob⟩ = .ok view ∧ view.Laid :=
  have hvalid : validate timeoutBlob = .ok ⟨timeoutBlob⟩ := by decide +kernel
  ⟨hvalid, validate_laid timeoutBlob _ hvalid⟩

end Kwokka.Ir
