import Kwokka.IrSound

/-! Every accessor of a validated blob: what it returns, and that it stays inside the
validated bytes. -/

namespace Kwokka.Ir

open Bytes Outcome

theorem tableEntry_eq {table : List UInt8} {entryLen index : Nat}
    (h : index * entryLen + entryLen < 2 ^ 64) :
    ConductorView.tableEntry table entryLen index =
      slice table (index * entryLen) (index * entryLen + entryLen) := by
  rw [ConductorView.tableEntry, checkedMul_of_lt (by omega)]
  simp [checkedAdd_of_lt h]

def StageView.hasPolicy (stage : StageView) : PolicyKind → Bool
  | .limiter => stage.limiter.isSome
  | .timeout => stage.timeout.isSome
  | .retry => stage.retry.isSome
  | .breaker => stage.breaker.isSome

variable {stage : StageView} {kind : PolicyKind} {body bytes : List UInt8}

theorem StageView.policyBody_of_zero (hslot : readU32 stage.entry kind.slotField = .ok 0) :
    stage.policyBody kind = none := by
  simp [policyBody, hslot]

theorem StageView.policyBody_of_record {slotOffset : UInt32} {record : RecordView}
    (hslot : readU32 stage.entry kind.slotField = .ok slotOffset) (hne : slotOffset ≠ 0)
    (hrecord : readRecord stage.body slotOffset.toNat = .ok record)
    (htag : record.tag = kind.nodeTag) : stage.policyBody kind = some record.body := by
  simp [policyBody, hslot, hne, hrecord, htag]

theorem StageView.hasPolicy_of_none (h : stage.policyBody kind = none) :
    stage.hasPolicy kind = false := by
  cases kind with
  | limiter => simp [hasPolicy, limiter, h]
  | timeout => simp [hasPolicy, timeout, h]
  | retry => simp [hasPolicy, retry, h]
  | breaker => simp [hasPolicy, breaker, h]

theorem StageView.hasPolicy_of_valid (h : stage.policyBody kind = some body)
    (hvalid : kind.validateBody body = .ok ()) : stage.hasPolicy kind = true := by
  cases kind with
  | limiter =>
    obtain ⟨view, hview, _⟩ := bind_eq_ok.mp hvalid
    simp [hasPolicy, limiter, h, hview]
  | timeout =>
    obtain ⟨view, hview, _⟩ := bind_eq_ok.mp hvalid
    simp [hasPolicy, timeout, h, hview]
  | retry =>
    obtain ⟨view, hview, _⟩ := bind_eq_ok.mp hvalid
    simp [hasPolicy, retry, h, hview]
  | breaker =>
    obtain ⟨view, hview, _⟩ := bind_eq_ok.mp hvalid
    simp [hasPolicy, breaker, h, hview]

theorem StageView.hasPolicy_iff (h : SlotSound stage.body stage.entry kind) :
    ∃ slotOffset, readU32 stage.entry kind.slotField = .ok slotOffset ∧
      (stage.hasPolicy kind = true ↔ slotOffset ≠ 0) := by
  obtain ⟨slotOffset, hslot, hrecord⟩ := h
  refine ⟨slotOffset, hslot, ?_⟩
  by_cases hzero : slotOffset = 0
  · subst hzero
    simp [hasPolicy_of_none (policyBody_of_zero hslot)]
  · obtain ⟨record, hread, htag, hvalid⟩ := hrecord hzero
    have hbody := policyBody_of_record hslot hzero hread htag
    simp [hasPolicy_of_valid hbody hvalid, hzero]

theorem StageView.policyBody_infix (h : stage.policyBody kind = some body) :
    body <:+: stage.body := by
  simp only [policyBody, Option.bind_eq_bind, Option.bind_eq_some_iff] at h
  obtain ⟨slotOffset, _, h⟩ := h
  split at h
  · exact absurd h (by simp)
  · obtain ⟨record, hrecord, h⟩ := Option.bind_eq_some_iff.mp h
    split at h
    · cases h
      cases hread : readRecord stage.body slotOffset.toNat with
      | ok =>
        rw [hread] at hrecord
        cases hrecord
        exact ((readRecord_ensures _ _).of_ok hread).2
      | _ => rw [hread] at hrecord; exact absurd hrecord (by simp [Outcome.toOption])
    · exact absurd h (by simp)

theorem RegistryView.name_infix {view : RegistryView} {ordinal : Nat} {name : List UInt8}
    (h : view.name ordinal = some name) : name <:+: view.body := by
  unfold RegistryView.name at h
  split at h
  · exact absurd h (by simp)
  · simp only [Option.bind_eq_bind, Option.bind_eq_some_iff] at h
    obtain ⟨offset, _, stop, _, entry, _, strEnd, _, h⟩ := h
    exact (slice_eq_some h).2.2.2

namespace ConductorView.Sound

variable {view : ConductorView} {body : List UInt8}

variable (h : view.Sound body)

include h

theorem stage_eq {ordinal : Nat} (hlt : ordinal < view.stageCount.toNat) :
    ∃ entry, view.stage ordinal = some { body, entry } ∧ entry <:+: body ∧
      ∀ kind, SlotSound body entry kind := by
  obtain ⟨entry, hentry, hslots⟩ := h.stages ordinal hlt
  have hcount := view.stageCount.toNat_lt
  have hlen : stageEntryLen = 16 := rfl
  have htable : tableEntry view.stageTable stageEntryLen ordinal = some entry := by
    rw [tableEntry_eq (by rw [hlen]; omega), hentry]
  refine ⟨entry, ?_, (slice_eq_some hentry).2.2.2.trans h.inside.1, hslots⟩
  simp [stage, Nat.not_le.mpr hlt, htable, h.body_eq]

theorem stage_isSome_iff (ordinal : Nat) :
    (view.stage ordinal).isSome = true ↔ ordinal < view.stageCount.toNat := by
  by_cases hlt : ordinal < view.stageCount.toNat
  · obtain ⟨entry, hentry, _⟩ := h.stage_eq hlt
    simp [hentry, hlt]
  · simp [stage, Nat.not_lt.mp hlt]

theorem edge_eq {index : Nat} (hlt : index < view.edgeCount.toNat) :
    ∃ edge, view.edge index = some edge ∧ edge.fromOrdinal.toNat < view.stageCount.toNat ∧
      edge.toOrdinal.toNat < view.stageCount.toNat := by
  obtain ⟨entry, hentry, edge, hedge, hordinals⟩ := h.edges index hlt
  have hcount := view.edgeCount.toNat_lt
  have hlen : EdgeView.len = 8 := rfl
  have htable : tableEntry view.edgeTable EdgeView.len index = some entry := by
    rw [tableEntry_eq (by rw [hlen]; omega), hentry]
  exact ⟨edge, by simp [ConductorView.edge, htable, hedge], hordinals⟩

theorem configBinding_eq {index : Nat} (hlt : index < view.configCount.toNat) :
    ∃ binding, view.configBinding index = some binding ∧ binding.key <:+: body ∧
      binding.nodeOrdinal.toNat < view.stageCount.toNat := by
  obtain ⟨entry, hentry, binding, hbinding, hordinal⟩ := h.config index hlt
  have hcount := view.configCount.toNat_lt
  have hlen : ConfigBindingView.len = 32 := rfl
  have htable : tableEntry view.configEntries ConfigBindingView.len index = some entry := by
    rw [tableEntry_eq (by rw [hlen]; omega), hentry]
  refine ⟨binding, ?_, (configBinding_parse_ensures body entry).of_ok hbinding, hordinal⟩
  simp [configBinding, htable, h.body_eq, hbinding]

theorem edges_length : view.edges.length = view.edgeCount.toNat := by
  have hall : ∀ index ∈ List.range view.edgeCount.toNat, (view.edge index).isSome = true := by
    intro index hindex
    obtain ⟨edge, hedge, _⟩ := h.edge_eq (List.mem_range.mp hindex)
    simp [hedge]
  rw [ConductorView.edges, List.filterMap_length_eq_length.mpr hall, List.length_range]

theorem configBindings_length :
    view.configBindings.length = view.configCount.toNat := by
  have hall : ∀ index ∈ List.range view.configCount.toNat,
      (view.configBinding index).isSome = true := by
    intro index hindex
    obtain ⟨binding, hbinding, _⟩ := h.configBinding_eq (List.mem_range.mp hindex)
    simp [hbinding]
  rw [configBindings, List.filterMap_length_eq_length.mpr hall, List.length_range]

theorem mem_edges {edge : EdgeView} (hmem : edge ∈ view.edges) :
    edge.fromOrdinal.toNat < view.stageCount.toNat ∧
      edge.toOrdinal.toNat < view.stageCount.toNat := by
  obtain ⟨index, hindex, hedge⟩ := List.mem_filterMap.mp hmem
  obtain ⟨found, hfound, hordinals⟩ := h.edge_eq (List.mem_range.mp hindex)
  cases hedge.symm.trans hfound
  exact hordinals

theorem mem_configBindings {binding : ConfigBindingView} (hmem : binding ∈ view.configBindings) :
    binding.key <:+: body ∧ binding.nodeOrdinal.toNat < view.stageCount.toNat := by
  obtain ⟨index, hindex, hbinding⟩ := List.mem_filterMap.mp hmem
  obtain ⟨found, hfound, hkey⟩ := h.configBinding_eq (List.mem_range.mp hindex)
  cases hbinding.symm.trans hfound
  exact hkey

end ConductorView.Sound

theorem readRecord_eq_ok {offset : Nat} {record : RecordView}
    (h : readRecord bytes offset = .ok record) : offset % recordAlign = 0 ∧
    (∃ tagRaw, readU16 bytes offset = .ok tagRaw ∧ NodeTag.fromU16 tagRaw = some record.tag) ∧
    ∃ len, readU32 bytes (offset + 4) = .ok len ∧
      slice bytes (offset + recordHeaderLen) (offset + len.toNat) = some record.body := by
  obtain ⟨_, halign, h⟩ := bind_eq_ok.mp h
  simp only [bind_eq_ok] at h
  obtain ⟨tagRaw, htag, lenOffset, hlenOffset, len, hlen, _, _, _, _, stop, hstop,
    bodyStart, hstart, body, hbody, tag, hknown, h⟩ := h
  obtain rfl : { tag, body } = record := by simpa using h
  have hlenAt := checkedAdd_eq_some (ofOption_eq_ok.mp hlenOffset)
  have hstopAt := checkedAdd_eq_some (ofOption_eq_ok.mp hstop)
  have hstartAt := checkedAdd_eq_some (ofOption_eq_ok.mp hstart)
  have hslice := ofOption_eq_ok.mp hbody
  have hfrom := ofOption_eq_ok.mp hknown
  subst hlenAt hstopAt hstartAt
  exact ⟨(Ensures.require IrError.misaligned).of_ok halign, ⟨tagRaw, htag, hfrom⟩, len, hlen, hslice⟩

/-- Behind the header, since offset 0 is the magic and a record at offset 8 would have
the root offset as its length, and so an empty body. -/
theorem headerLen_le_rootOffset {rootOffset : UInt32} {root : RecordView} {view : ConductorView}
    (hmagic : At bytes 0 magic) (hoffset : readU32 bytes rootOffsetField = .ok rootOffset)
    (hroot : readRecord bytes rootOffset.toNat = .ok root) (hview : parse root.body = .ok view) :
    headerLen ≤ rootOffset.toNat := by
  obtain ⟨halign, ⟨tagRaw, htag, hknown⟩, len, hlen, hbody⟩ := readRecord_eq_ok hroot
  have hcases : rootOffset.toNat = 0 ∨ rootOffset.toNat = 8 ∨ headerLen ≤ rootOffset.toNat := by
    simp only [recordAlign, headerLen] at *
    omega
  rcases hcases with hzero | height | hge
  · have hword : At bytes 0 [0x4B, 0x57] := 
      (show At bytes 0 ([0x4B, 0x57] ++ [0x49, 0x52]) from hmagic).left
    have hread : readU16 bytes 0 = .ok 0x574B := by
      have hle := readLe_of_at hword (by simp)
      exact (congrArg (· >>= fun n => .ok (UInt16.ofNat n)) hle).trans rfl
    rw [hzero, hread] at htag
    cases htag
    exact absurd hknown (by simp [NodeTag.fromU16])
  · rw [height] at hlen hbody
    have hsame : rootOffset = len := Outcome.ok.inj (hoffset.symm.trans hlen)
    rw [← hsame, height] at hbody
    have hempty : root.body = [] := by
      have := (slice_eq_some hbody).2.2.1
      exact List.eq_nil_of_length_eq_zero this
    have hshort : parse [] = .err .truncated := rfl
    rw [hempty, hshort] at hview
    cases hview
  · exact hge

/-- What the accessors of a validated blob `bytes` return. -/
structure ConductorView.Accessible (view : ConductorView) (bytes : List UInt8) : Prop where
  root_inside : ∃ rootOffset, readU32 bytes rootOffsetField = .ok rootOffset ∧
    headerLen ≤ rootOffset.toNat ∧ At bytes (rootOffset.toNat + recordHeaderLen) view.body
  stage_isSome : ∀ ordinal, (view.stage ordinal).isSome = true ↔ ordinal < view.stageCount.toNat
  policy_isSome : ∀ ordinal stage, view.stage ordinal = some stage → ∀ kind,
    ∃ slotOffset, readU32 stage.entry kind.slotField = .ok slotOffset ∧
      (stage.hasPolicy kind = true ↔ slotOffset ≠ 0)
  edges_length : view.edges.length = view.edgeCount.toNat
  configBindings_length : view.configBindings.length = view.configCount.toNat
  edge_ordinals : ∀ edge ∈ view.edges, edge.fromOrdinal.toNat < view.stageCount.toNat ∧
    edge.toOrdinal.toNat < view.stageCount.toNat
  config_ordinals : ∀ binding ∈ view.configBindings,
    binding.nodeOrdinal.toNat < view.stageCount.toNat
  name_isSome : ∀ reg ∈ view.registry, ∀ ordinal < view.stageCount.toNat,
    (reg.name ordinal).isSome = true
  stages_inside : ∀ ordinal stage, view.stage ordinal = some stage → stage.entry <:+: bytes ∧
    ∀ kind body, stage.policyBody kind = some body → body <:+: bytes
  edges_inside : view.edgeTable <:+: bytes
  keys_inside : ∀ binding ∈ view.configBindings, binding.key <:+: bytes
  names_inside : ∀ reg ∈ view.registry, ∀ ordinal, ∀ name ∈ reg.name ordinal, name <:+: bytes

theorem ConductorView.Sound.accessible {view : ConductorView} (h : view.Sound body)
    (hinside : body <:+: bytes)
    (hroot : ∃ rootOffset, readU32 bytes rootOffsetField = .ok rootOffset ∧
      headerLen ≤ rootOffset.toNat ∧ At bytes (rootOffset.toNat + recordHeaderLen) body) :
    view.Accessible bytes := by
  have hstage : ∀ ordinal stage, view.stage ordinal = some stage → stage.body = body ∧
      stage.entry <:+: body ∧ ∀ kind, SlotSound body stage.entry kind := by
    intro ordinal stage hstage
    have hlt := (h.stage_isSome_iff ordinal).mp (by simp [hstage])
    obtain ⟨entry, hentry, hin, hslots⟩ := h.stage_eq hlt
    cases hstage.symm.trans hentry
    exact ⟨rfl, hin, hslots⟩
  refine ⟨by rw [h.body_eq]; exact hroot, h.stage_isSome_iff, ?_, h.edges_length,
    h.configBindings_length, fun edge => h.mem_edges, fun binding hmem => (h.mem_configBindings hmem).2,
    fun reg hreg => (h.registry reg hreg).1.name_isSome, ?_, h.inside.2.1.trans hinside,
    fun binding hmem => (h.mem_configBindings hmem).1.trans hinside, ?_⟩
  · intro ordinal stage hfound kind
    obtain ⟨hbody, _, hslots⟩ := hstage ordinal stage hfound
    exact StageView.hasPolicy_iff (by rw [hbody]; exact hslots kind)
  · intro ordinal stage hfound
    obtain ⟨hbody, hin, _⟩ := hstage ordinal stage hfound
    refine ⟨hin.trans hinside, fun kind found hpolicy => ?_⟩
    have hpolicyIn := StageView.policyBody_infix hpolicy
    rw [hbody] at hpolicyIn
    exact hpolicyIn.trans hinside
  · intro reg hreg ordinal name hname
    have hnameIn := RegistryView.name_infix hname
    rw [(h.registry reg hreg).1.body_eq] at hnameIn
    exact hnameIn.trans hinside

theorem readRoot_ensures (hmagic : At bytes 0 magic) (hshort : bytes.length < 2 ^ 64) :
    Ensures (readRoot bytes) fun view => view.Accessible bytes := by
  refine .bind_of_ne_panic (readU32_ne_panic _ _) fun rootOffset hoffset => ?_
  refine .bind_of_ne_panic (readRecord_ensures _ _).ne_panic fun root hroot => ?_
  obtain ⟨hat, hinside⟩ := (readRecord_ensures _ _).of_ok hroot
  have hsound := parse_ensures (Nat.lt_of_le_of_lt hinside.length_le hshort)
  refine .bind (.require _) fun _ _ => ?_
  cases hview : parse root.body with
  | ok =>
    have hafter := headerLen_le_rootOffset hmagic hoffset hroot hview
    exact (hsound.of_ok hview).accessible hinside ⟨rootOffset, hoffset, hafter, hat⟩
  | err => trivial
  | panic => exact absurd hview hsound.ne_panic

theorem validate_ensures (bytes : List UInt8) :
    Ensures (validate bytes) fun ir =>
      ∃ view, ir.conductor = .ok view ∧ view.Accessible bytes := by
  refine .bind (.require _) fun _ _ => ?_
  refine .bind (.require _) fun _ hmagic => ?_
  refine .bind (readU16_ensures _ _) fun found _ => ?_
  refine .bind (.require _) fun _ _ => ?_
  refine .bind (readU32_ensures _ _) fun totalLen _ => ?_
  refine .bind (.require _) fun _ htotal => ?_
  have hshort : bytes.length < 2 ^ 64 := by
    have := totalLen.toNat_lt
    omega
  have hroot := readRoot_ensures (At.of_slice hmagic) hshort
  refine .bind_of_ne_panic hroot.ne_panic fun view hview => ?_
  exact ⟨view, hview, hroot.of_ok hview⟩

/-- Validation of arbitrary bytes does not abort, and the view of an accepted blob reads
back every count it announces from inside the blob. -/
theorem validate_accessible (bytes : List UInt8) :
    validate bytes ≠ .panic ∧ ∀ ir, validate bytes = .ok ir →
      ∃ view, ir.conductor = .ok view ∧ view.Accessible bytes :=
  ⟨(validate_ensures bytes).ne_panic, fun _ hir => (validate_ensures bytes).of_ok hir⟩

/-- Two stages `b` and `a` with an edge between them; the first has a timeout, bound to key `t`. -/
def timeoutBlob : List UInt8 :=
  magic ++ [1, 176, 16, 1, 160, 2, 1, 24, 56, 80, 104,
    -- the slots of the stages, the edge, and the timeout's record
    0, 64, 0, 0, 0, 0, 0, 0, 0x10000, 0, 7, 16, 5000, 0,
    -- the names with their sorted index, and the binding
    144, 1, 145, 1, 1, 0, 1, 0, 0x1000000, 1, 146, 0, 2, 0, 5000, 0].flatMap (leBytes 4) ++
    [98, 97, 116, 0, 0, 0, 0, 0]

theorem validate_accessible_timeout :
    validate timeoutBlob = .ok ⟨timeoutBlob⟩ ∧
      ∃ view, KwokkaIr.conductor ⟨timeoutBlob⟩ = .ok view ∧ view.Accessible timeoutBlob :=
  have hvalid : validate timeoutBlob = .ok ⟨timeoutBlob⟩ := by decide +kernel
  ⟨hvalid, (validate_accessible timeoutBlob).2 _ hvalid⟩

end Kwokka.Ir
