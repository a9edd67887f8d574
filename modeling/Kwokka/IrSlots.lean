import Kwokka.IrParsed

/-! The policy slots and records of a written body: where each record starts, that its
slot reads back, and that the overlap checks pass. -/

namespace Kwokka.Ir

open Bytes Outcome

def recordStart (payload : Nat) (slots : List Slot) (n : Nat) : Nat :=
  payload + ((slots.take n).map Slot.record).flatten.length

variable {n i j : Nat} {slots : List Slot} {slot : Slot} {stages : List StageSpec}
  {kind : PolicyKind}

theorem slotWords_getElem? (payload : Nat) (h : slots[n]? = some slot) :
    (slotWords payload (slots.map Slot.bodyLen))[n]? =
      some (if slot.2 = none then 0 else recordStart payload slots n) := by
  induction slots generalizing payload n with
  | nil => simp at h
  | cons head slots ih =>
    obtain ⟨kind, body⟩ := head
    cases n with
    | zero =>
      obtain rfl : (kind, body) = slot := by simpa using h
      cases body <;> simp [Slot.bodyLen, slotWords, recordStart]
    | succ n =>
      have hrest : slots[n]? = some slot := by simpa using h
      cases body with
      | none =>
        simpa [Slot.bodyLen, slotWords, recordStart, Slot.record] using ih payload hrest
      | some body =>
        have hstart : recordStart (payload + (recordHeaderLen + body.length)) slots n =
            recordStart payload ((kind, some body) :: slots) (n + 1) := by
          simp only [recordStart, List.take_succ_cons, List.map_cons, List.flatten_cons,
            List.length_append, Slot.record, Option.map_some, Option.getD_some, length_recordBytes]
          omega
        have hword := ih (payload + (recordHeaderLen + body.length)) hrest
        rw [hstart] at hword
        simpa [Slot.bodyLen, slotWords] using hword

theorem recordStart_succ (payload : Nat) (h : slots[n]? = some slot) :
    recordStart payload slots (n + 1) = recordStart payload slots n + slot.record.length := by
  rw [recordStart, recordStart, List.take_add_one, h, Option.toList_some, List.map_append,
    List.flatten_append, List.length_append, List.map_singleton, List.flatten_singleton,
    Nat.add_assoc]

theorem recordStart_mono (payload : Nat) (slots : List Slot) {a b : Nat} (h : a ≤ b) :
    recordStart payload slots a ≤ recordStart payload slots b := by
  have htake : slots.take a = (slots.take b).take a := by rw [List.take_take, Nat.min_eq_left h]
  rw [recordStart, recordStart, htake]
  conv_rhs => rw [← List.take_append_drop a (slots.take b)]
  rw [List.map_append, List.flatten_append, List.length_append]
  omega

theorem recordStart_le_end (payload : Nat) (slots : List Slot) (n : Nat) :
    recordStart payload slots n ≤ payload + (slots.map Slot.record).flatten.length := by
  by_cases hle : n ≤ slots.length
  · have hmono := recordStart_mono payload slots hle
    rwa [show recordStart payload slots slots.length =
      payload + (slots.map Slot.record).flatten.length by rw [recordStart, List.take_length]] at hmono
  · exact Nat.le_of_eq (by rw [recordStart, List.take_of_length_le (by omega)])

theorem policySlots_getElem? {stage : StageSpec} (hi : stages[i]? = some stage)
    (hj : PolicyKind.all[j]? = some kind) :
    (policySlots stages)[i * 4 + j]? = some (kind, stage.policyBytes kind) := by
  have hlt : j < 4 := (List.getElem?_eq_some_iff.mp hj).1
  induction stages generalizing i with
  | nil => simp at hi
  | cons head stages ih =>
    have hlen : head.slots.length = 4 := by simp [StageSpec.slots, PolicyKind.all]
    rw [policySlots, List.flatMap_cons]
    cases i with
    | zero =>
      obtain rfl : head = stage := by simpa using hi
      rw [List.getElem?_append_left (by omega), Nat.zero_mul, Nat.zero_add, StageSpec.slots,
        List.getElem?_map, hj]
      rfl
    | succ i =>
      rw [List.getElem?_append_right (by omega), ← policySlots, hlen,
        show (i + 1) * 4 + j - 4 = i * 4 + j by omega]
      exact ih (by simpa using hi)

theorem mem_policySlots (h : slot ∈ policySlots stages) :
    ∃ stage : StageSpec, slot.2 = stage.policyBytes slot.1 := by
  obtain ⟨stage, _, hslot⟩ := List.mem_flatMap.mp h
  obtain ⟨kind, _, rfl⟩ := List.mem_map.mp hslot
  exact ⟨stage, rfl⟩

theorem record_aligned (h : slot ∈ policySlots stages) : slot.record.length % 8 = 0 := by
  obtain ⟨stage, hbody⟩ := mem_policySlots h
  obtain ⟨kind, body⟩ := slot
  cases body with
  | none => rfl
  | some =>
    have := length_policyBytes hbody.symm
    simp only [Slot.record, Option.map_some, Option.getD_some, length_recordBytes, recordHeaderLen]
    omega

theorem records_aligned (h : ∀ slot ∈ slots, slot.record.length % 8 = 0) :
    (slots.map Slot.record).flatten.length % 8 = 0 := by
  induction slots with
  | nil => rfl
  | cons slot slots ih =>
    have hhead := h slot List.mem_cons_self
    have htail := ih fun s hs => h s (List.mem_cons_of_mem _ hs)
    rw [List.map_cons, List.flatten_cons, List.length_append]
    omega

variable {layout : Layout} {blob : ConductorBlob} {body : List UInt8}

variable (hfits : layout.Fits blob)

include hfits

theorem Layout.Encoded.length_lt (h : layout.Encoded blob body) :
    body.length < 2 ^ 32 := by
  have hlen := h.length
  have htotal := hfits.total
  have hlt := hfits.total_lt
  omega

theorem recordStart_aligned (n : Nat) :
    recordStart layout.policyHeapOff (policySlots blob.stages) n % 8 = 0 := by
  have hoffsets := hfits.offsets
  have hrecords : (((policySlots blob.stages).take n).map Slot.record).flatten.length % 8 = 0 :=
    records_aligned fun slot hslot => record_aligned (List.mem_of_mem_take hslot)
  rw [recordStart]
  omega

theorem readRecord_slot (h : layout.Encoded blob body) {record : List UInt8}
    (hslot : (policySlots blob.stages)[n]? = some (kind, some record)) :
    readRecord body (recordStart layout.policyHeapOff (policySlots blob.stages) n) =
      .ok { tag := kind.nodeTag, body := record } := by
  have hrecord : ((policySlots blob.stages).map Slot.record)[n]? =
      some (recordBytes kind.nodeTag record) := by
    rw [List.getElem?_map, hslot]
    rfl
  have hat := h.records.flatten hrecord
  rw [← List.map_take] at hat
  obtain ⟨stage, hbody⟩ := mem_policySlots (List.mem_of_getElem? hslot)
  exact readRecord_of_at hat (recordStart_aligned hfits n) (length_policyBytes hbody.symm).1
    (h.length_lt hfits)

def slotSpan (layout : Layout) (blob : ConductorBlob) (n : Nat) (slot : Slot) : Option Span :=
  slot.2.map fun body =>
    { offset := recordStart layout.policyHeapOff (policySlots blob.stages) n
      len := recordHeaderLen + body.length }

omit hfits in
theorem slotSpan_within {span : Span} (hslot : (policySlots blob.stages)[n]? = some slot)
    (hspan : slotSpan layout blob n slot = some span) :
    span.offset = recordStart layout.policyHeapOff (policySlots blob.stages) n ∧
    span.offset + span.len = recordStart layout.policyHeapOff (policySlots blob.stages) (n + 1) ∧
    layout.policyHeapOff ≤ span.offset ∧
    span.offset + span.len ≤ layout.policyHeapOff + recordsLen blob.stages := by
  obtain ⟨record, hrecord, rfl⟩ := Option.map_eq_some_iff.mp hspan
  have hnext := recordStart_succ layout.policyHeapOff hslot
  have hend := recordStart_le_end layout.policyHeapOff (policySlots blob.stages) (n + 1)
  have hlen : slot.record.length = recordHeaderLen + record.length := by
    rw [Slot.record, hrecord, Option.map_some, Option.getD_some, length_recordBytes]
  rw [recordsLen]
  refine ⟨rfl, ?_, Nat.le_add_right _ _, ?_⟩ <;> dsimp only <;> omega

omit hfits in
theorem all_getElem?_slotField (h : PolicyKind.all[j]? = some kind) : kind.slotField = j * 4 := by
  obtain ⟨hlt, hkind⟩ := List.getElem?_eq_some_iff.mp h
  have hlt : j < 4 := hlt
  obtain rfl | rfl | rfl | rfl : j = 0 ∨ j = 1 ∨ j = 2 ∨ j = 3 := by omega
  all_goals (rw [← hkind]; rfl)

theorem readU32_slot (h : layout.Encoded blob body) {entry : List UInt8}
    (hslot : (policySlots blob.stages)[i * 4 + j]? = some slot)
    (hentry : slice (stageTableBytes layout blob) (i * 16) (i * 16 + 16) = some entry)
    (hj : j < 4) :
    readU32 entry (j * 4) = .ok (UInt32.ofNat (if slot.2 = none then 0 else
      recordStart layout.policyHeapOff (policySlots blob.stages) (i * 4 + j))) := by
  have hword := slotWords_getElem? layout.policyHeapOff hslot
  have hentryLen := (slice_eq_some hentry).2.2.1
  have hat : At (stageTableBytes layout blob)
      ((i * 4 + j) * 4) (offsetBytes (if slot.2 = none then 0 else
        recordStart layout.policyHeapOff (policySlots blob.stages) (i * 4 + j))) := by
    have hself := At.self (stageTableBytes layout blob)
    have hentries : ∀ e ∈ (slotWords layout.policyHeapOff
        ((policySlots blob.stages).map Slot.bodyLen)).map offsetBytes, e.length = 4 := by simp
    have hget := hself.entry hentries (by rw [List.getElem?_map, hword]; rfl)
    rwa [Nat.zero_add] at hget
  have hin : At entry (j * 4) _ := (At.of_slice hentry).inside
    (by rwa [show i * 16 + j * 4 = (i * 4 + j) * 4 by omega]) (by rw [length_offsetBytes]; omega)
  refine readU32_offset hin ?_ (by omega)
  have hend := recordStart_le_end layout.policyHeapOff (policySlots blob.stages) (i * 4 + j)
  have hrecords := h.records.le
  have hlt := h.length_lt hfits
  split <;> omega

theorem recordSpanAt_eq (h : layout.Encoded blob body) {stage : StageSpec} {entry : List UInt8}
    (hi : blob.stages[i]? = some stage) (hj : PolicyKind.all[j]? = some kind)
    (hentry : slice (stageTableBytes layout blob) (i * 16) (i * 16 + 16) = some entry) :
    recordSpanAt body entry kind =
      .ok (slotSpan layout blob (i * 4 + j) (kind, stage.policyBytes kind)) := by
  have hslot := policySlots_getElem? hi hj
  have hjlt : j < 4 := (List.getElem?_eq_some_iff.mp hj).1
  have hlt := h.length_lt hfits
  have hread := readU32_slot hfits h hslot hentry hjlt
  rw [recordSpanAt, all_getElem?_slotField hj, hread, ok_bind]
  cases hbytes : stage.policyBytes kind with
  | none =>
    rfl
  | some record =>
    rw [hbytes] at hslot
    obtain ⟨_, hend, hfirst, hlast⟩ := slotSpan_within hslot
      (show slotSpan layout blob (i * 4 + j) (kind, some record) = some _ from rfl)
    have hoffsets := hfits.offsets
    have hrecords := h.records.le
    rw [← recordsLen] at hrecords
    dsimp only at hend hfirst hlast
    simp only [reduceCtorEq, if_false]
    rw [toNat_ofNat_u32 (by omega), if_neg (by omega),
      require_of _ (by simp only [conductorHeaderLen]; omega), ok_bind,
      readRecord_slot hfits h hslot, ok_bind, checkedAdd_of_lt (by dsimp only; omega),
      ofOption_some, ok_bind]
    rfl

omit hfits in
theorem checkEntriesFrom_of_slices {entryLen count : Nat}
    {check : List UInt8 → Outcome IrError Unit} {table : List UInt8} (hpos : 0 < entryLen)
    (hlen : table.length = count * entryLen) (hshort : table.length < 2 ^ 64)
    (hcheck : ∀ i < count, ∀ entry,
      slice table (i * entryLen) (i * entryLen + entryLen) = some entry → check entry = .ok ())
    (fuel k : Nat) (hk : k ≤ count) (hfuel : count - k < fuel) :
    checkEntriesFrom entryLen check table fuel (k * entryLen) = .ok () := by
  induction fuel generalizing k with
  | zero => exact absurd hfuel (Nat.not_lt_zero _)
  | succ fuel ih =>
    rw [checkEntriesFrom]
    by_cases hlt : k < count
    · have hnext : (k + 1) * entryLen ≤ count * entryLen := Nat.mul_le_mul_right _ hlt
      rw [Nat.succ_mul] at hnext
      obtain ⟨entry, hentry⟩ : ∃ entry,
          slice table (k * entryLen) (k * entryLen + entryLen) = some entry :=
        slice_of_le (by omega) (by omega)
      rw [if_pos (by omega), checkedAdd_of_lt (by omega), ofOption_some, ok_bind, hentry,
        ofOption_some, ok_bind, hcheck k hlt entry hentry, ok_bind, ← Nat.succ_mul]
      exact ih (k + 1) hlt (by omega)
    · obtain rfl : k = count := by omega
      rw [if_neg (by omega)]

def AroundRecords (layout : Layout) (blob : ConductorBlob) (limit : Nat) (span : Span) : Prop :=
  span.Within limit ∧ (span.offset + span.len ≤ layout.policyHeapOff ∨
    layout.policyHeapOff + recordsLen blob.stages ≤ span.offset)

variable (h : layout.Encoded blob body)

include h

theorem checkStagePolicies_ok {sections : List Span}
    (hsections : ∀ s ∈ sections, AroundRecords layout blob body.length s) :
    checkStagePolicies body
      (stageTableBytes layout blob) sections =
      .ok () := by
  have hlt := h.length_lt hfits
  have htable := h.stages.le
  refine checkEntriesFrom_of_slices (by decide) (length_stageTableBytes layout blob) (by omega) ?_ _ 0
    (Nat.zero_le _) (by
      have := length_stageTableBytes layout blob
      omega)
  intro i hi entry hentry
  obtain ⟨stage, hstage⟩ : ∃ stage, blob.stages[i]? = some stage :=
    ⟨_, List.getElem?_eq_getElem hi⟩
  refine forM_eq_ok.mpr fun kind hkind => ?_
  obtain ⟨j, hj⟩ := List.mem_iff_getElem?.mp hkind
  have hslot := policySlots_getElem? hstage hj
  rw [checkPolicySlot, recordSpanAt_eq hfits h hstage hj hentry, ok_bind]
  cases hbytes : stage.policyBytes kind with
  | none => rfl
  | some record =>
    rw [hbytes] at hslot
    have hrecords := h.records.le
    obtain ⟨_, hend, hfirst, hlast⟩ := slotSpan_within hslot
      (show slotSpan layout blob (i * 4 + j) (kind, some record) = some _ from rfl)
    have hnone : ¬ ∃ s ∈ sections, Span.Overlaps
        { offset := recordStart layout.policyHeapOff (policySlots blob.stages) (i * 4 + j)
          len := recordHeaderLen + record.length } s := by
      intro hover
      obtain ⟨s, hs, hleft, hright⟩ := hover
      have haround := (hsections s hs).2
      dsimp only at hleft hright hfirst hlast
      omega
    dsimp only [slotSpan, Option.map_some]
    rw [readRecord_slot hfits h hslot, ok_bind, require_of (IrError.badTag _) rfl, ok_bind,
      validateBody_policyBytes hbytes, ok_bind,
      overlapsAny_eq (Nat.le_trans hlast hrecords) (fun s hs => (hsections s hs).1) (by omega),
      ok_bind, require_of _ (by simpa using hnone)]

theorem nthRecordSpan_eq (hslot : (policySlots blob.stages)[n]? = some slot) : nthRecordSpan body
      (stageTableBytes layout blob) n =
      .ok (slotSpan layout blob n slot) := by
  have hlt := h.length_lt hfits
  have htable := h.stages.le
  have htableLen := length_stageTableBytes layout blob
  have hn : n < blob.stages.length * 4 := by
    rw [← length_policySlots]
    exact (List.getElem?_eq_some_iff.mp hslot).1
  obtain ⟨stage, hstage⟩ : ∃ stage, blob.stages[n / 4]? = some stage :=
    ⟨_, List.getElem?_eq_getElem (by omega)⟩
  obtain ⟨kind, hkind⟩ : ∃ kind, PolicyKind.all[n % 4]? = some kind :=
    ⟨_, List.getElem?_eq_getElem (Nat.mod_lt _ (by decide))⟩
  have hsame := policySlots_getElem? hstage hkind
  rw [show n / 4 * 4 + n % 4 = n by omega, hslot] at hsame
  cases hsame
  obtain ⟨entry, hentry⟩ : ∃ entry,
      slice (stageTableBytes layout blob)
        (n / 4 * 16) (n / 4 * 16 + 16) = some entry := slice_of_le (by omega) (by omega)
  have hspan := recordSpanAt_eq hfits h hstage hkind hentry
  rw [show n / 4 * 4 + n % 4 = n by omega] at hspan
  simp only [nthRecordSpan, stageEntryLen, PolicyKind.count]
  rw [checkedMul_of_lt (by omega), ofOption_some, ok_bind, checkedAdd_of_lt (by omega),
    ofOption_some, ok_bind, hentry, ofOption_some, ok_bind, hkind, expect_some, ok_bind, hspan]

theorem slot_total :
    checkedMul ((stageTableBytes layout blob).length / stageEntryLen) PolicyKind.count =
      some (policySlots blob.stages).length := by
  have hlt := h.length_lt hfits
  have htable := h.stages.le
  have htableLen := length_stageTableBytes layout blob
  have hdiv : blob.stages.length * 16 / stageEntryLen = blob.stages.length :=
    Nat.mul_div_cancel _ (by decide)
  rw [htableLen, hdiv, length_policySlots]
  exact checkedMul_of_lt (by simp only [PolicyKind.count]; omega)

theorem checkRecordOverlaps_ok :
    checkRecordOverlaps body
      (stageTableBytes layout blob) = .ok () := by
  have hlt := h.length_lt hfits
  have hrecords := h.records.le
  rw [checkRecordOverlaps, slot_total hfits h, ofOption_some, ok_bind]
  refine forM_eq_ok.mpr fun a ha => ?_
  obtain ⟨slotA, hslotA⟩ : ∃ slot, (policySlots blob.stages)[a]? = some slot :=
    ⟨_, List.getElem?_eq_getElem (List.mem_range.mp ha)⟩
  rw [nthRecordSpan_eq hfits h hslotA, ok_bind]
  cases hspanA : slotSpan layout blob a slotA with
  | none => rfl
  | some spanA =>
    refine forM_eq_ok.mpr fun b hb => ?_
    obtain ⟨hab, hbLt⟩ := List.mem_range'_1.mp hb
    obtain ⟨slotB, hslotB⟩ : ∃ slot, (policySlots blob.stages)[b]? = some slot :=
      ⟨_, List.getElem?_eq_getElem (by omega)⟩
    rw [nthRecordSpan_eq hfits h hslotB, ok_bind]
    cases hspanB : slotSpan layout blob b slotB with
    | none => rfl
    | some spanB =>
      -- the records stand in the order of their slots
      obtain ⟨_, hendA, _, hlastA⟩ := slotSpan_within hslotA hspanA
      obtain ⟨hstartB, _, _, hlastB⟩ := slotSpan_within hslotB hspanB
      have hmono := recordStart_mono layout.policyHeapOff (policySlots blob.stages) hab
      have hapart : ¬ spanA.Overlaps spanB := by
        intro hover
        have := hover.2
        omega
      change (rangesOverlap spanA spanB >>= _) = _
      rw [rangesOverlap_eq (Nat.le_trans hlastA hrecords) (Nat.le_trans hlastB hrecords)
        (by omega), ok_bind, require_of _ (by simpa using hapart)]

theorem heapFloor_ok {sections : List Span} (hsections : ∀ s ∈ sections, s.Within layout.heapOff) :
    ∃ floor, heapFloor sections body
      (stageTableBytes layout blob) = .ok floor ∧
      floor ≤ layout.heapOff := by
  have hlt := h.length_lt hfits
  have hstrings := hfits.strings
  have hlen := h.length
  have hheap := hfits.heapOff
  have hstop : ∀ span : Span, span.Within layout.heapOff →
      ∃ stop, span.stop = .ok stop ∧ stop ≤ layout.heapOff :=
    fun span hspan => ⟨_, Span.stop_eq hspan (by omega), hspan⟩
  obtain ⟨first, hfirst, hfirstLe⟩ : ∃ floor,
      sections.foldlM (fun floor span => do return max floor (← span.stop)) 0 =
        (.ok floor : Outcome IrError Nat) ∧ floor ≤ layout.heapOff := by
    refine foldlM_returns (Nat.zero_le _) fun floor span hspan hfloor => ?_
    obtain ⟨stop, hspanStop, hle⟩ := hstop span (hsections span hspan)
    exact ⟨max floor stop, by rw [hspanStop]; rfl, Nat.max_le.mpr ⟨hfloor, hle⟩⟩
  rw [heapFloor, hfirst, ok_bind, slot_total hfits h, ofOption_some, ok_bind]
  refine foldlM_returns hfirstLe fun floor n hn hfloor => ?_
  obtain ⟨slot, hslot⟩ : ∃ slot, (policySlots blob.stages)[n]? = some slot :=
    ⟨_, List.getElem?_eq_getElem (List.mem_range.mp hn)⟩
  rw [nthRecordSpan_eq hfits h hslot, ok_bind]
  cases hspan : slotSpan layout blob n slot with
  | none => exact ⟨floor, rfl, hfloor⟩
  | some span =>
    obtain ⟨_, _, _, hlast⟩ := slotSpan_within hslot hspan
    obtain ⟨stop, hspanStop, hle⟩ := hstop span (Nat.le_trans hlast hheap)
    refine ⟨max floor stop, ?_, Nat.max_le.mpr ⟨hfloor, hle⟩⟩
    change (span.stop >>= _) = _
    rw [hspanStop]
    rfl

end Kwokka.Ir
