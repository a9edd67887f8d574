import Kwokka.IrCheck

/-! What the checks establish about a body, by pre- and postconditions: no reader
aborts, every span lies inside the body, and every entry of every table reads back. -/

namespace Kwokka.Ir

open Bytes Outcome ConfigBindingView RegistryView

variable (bytes : List UInt8) (offset : Nat)

theorem readLe_ensures (width : Nat) (bytes : List UInt8) (offset : Nat) :
    Ensures (readLe width bytes offset) fun _ => offset + width ≤ bytes.length := by
  refine .bind (.ofOption _ fun _ => checkedAdd_eq_some) fun stop hstop => ?_
  refine .bind (.ofOption _ fun chunk h => slice_eq_some h) fun chunk hchunk => ?_
  change offset + width ≤ bytes.length
  omega

@[simp]
theorem readU8_ne_panic : readU8 bytes offset ≠ .panic :=
  ofOption_ne_panic _ _

theorem readU16_ensures :
    Ensures (readU16 bytes offset) fun _ => offset + 2 ≤ bytes.length :=
  .bind (readLe_ensures 2 bytes offset) fun _ h => h

theorem readU32_ensures :
    Ensures (readU32 bytes offset) fun _ => offset + 4 ≤ bytes.length :=
  .bind (readLe_ensures 4 bytes offset) fun _ h => h

@[simp]
theorem readU32_ne_panic : readU32 bytes offset ≠ .panic :=
  (readU32_ensures bytes offset).ne_panic

@[simp]
theorem readU64_ne_panic : readU64 bytes offset ≠ .panic := by
  simp [readU64, (readLe_ensures 8 bytes offset).ne_panic]

theorem readRecord_ensures :
    Ensures (readRecord bytes offset) fun record =>
      At bytes (offset + recordHeaderLen) record.body ∧ record.body <:+: bytes := by
  refine .bind (.require _) fun _ _ => ?_
  refine .bind (readU16_ensures _ _) fun tagRaw _ => ?_
  refine .bind_ofOption fun lenOffset _ => ?_
  refine .bind (readU32_ensures _ _) fun len _ => ?_
  refine .bind (.require _) fun _ _ => ?_
  refine .bind (.require _) fun _ _ => ?_
  refine .bind_ofOption fun stop _ => ?_
  refine .bind (.ofOption _ fun _ => checkedAdd_eq_some) fun bodyStart hstart => ?_
  refine .bind_ofOption fun body hbody => ?_
  refine .bind_ofOption fun tag _ => ?_
  subst hstart
  exact ⟨At.of_slice hbody, (slice_eq_some hbody).2.2.2⟩

theorem validateBody_ne_panic (kind : PolicyKind) (body : List UInt8) :
    kind.validateBody body ≠ .panic := by
  cases kind with
  | limiter => simp [PolicyKind.validateBody, LimiterView.parse]
  | timeout => simp [PolicyKind.validateBody, TimeoutView.parse]
  | retry => simp [PolicyKind.validateBody, RetryView.parse]
  | breaker => simp [PolicyKind.validateBody, BreakerView.parse]

theorem scalar_parse_ne_panic (body : List UInt8) : ScalarValue.parse body ≠ .panic := by
  simp [ScalarValue.parse]

theorem configBinding_parse_ensures (body entry : List UInt8) :
    Ensures (ConfigBindingView.parse body entry) fun binding => binding.key <:+: body := by
  refine .bind (.require _) fun _ _ => ?_
  refine .bind (readU16_ensures _ _) fun _ _ => ?_
  refine .bind (readU16_ensures _ _) fun _ _ => ?_
  refine .bind (readU32_ensures _ _) fun _ _ => ?_
  refine .bind (readU32_ensures _ _) fun _ _ => ?_
  refine .bind_ofOption fun keyEnd _ => ?_
  refine .bind (.ofOption _ fun _ h => slice_eq_some h) fun key hkey => ?_
  refine .bind_ofOption fun scalar _ => ?_
  exact .bind_of_ne_panic (scalar_parse_ne_panic scalar) fun _ _ => hkey.2.2.2

def Span.Within (span : Span) (limit : Nat) : Prop := span.offset + span.len ≤ limit

def Span.Overlaps (left right : Span) : Prop :=
  left.offset < right.offset + right.len ∧ right.offset < left.offset + left.len

instance (left right : Span) : Decidable (left.Overlaps right) := by
  unfold Span.Overlaps; infer_instance

variable {limit : Nat} {sections : List Span} {body : List UInt8}

theorem Span.stop_eq {span : Span} (h : span.Within limit) (hlimit : limit < 2 ^ 64) :
    span.stop = .ok (span.offset + span.len) := by
  have hlt : span.offset + span.len < 2 ^ 64 := Nat.lt_of_le_of_lt h hlimit
  rw [Span.stop, checkedAdd_of_lt hlt]
  rfl

theorem rangesOverlap_eq {left right : Span} (hleft : left.Within limit)
    (hright : right.Within limit) (hlimit : limit < 2 ^ 64) :
    rangesOverlap left right = .ok (decide (left.Overlaps right)) := by
  rw [rangesOverlap, Span.stop_eq hright hlimit, ok_bind, Span.stop_eq hleft hlimit]
  unfold Span.Overlaps
  by_cases hlt : left.offset < right.offset + right.len
  · simp [hlt]
  · simp [hlt]

theorem overlapsAny_eq {span : Span} (hspan : span.Within limit)
    (hsections : ∀ s ∈ sections, s.Within limit) (hlimit : limit < 2 ^ 64) :
    overlapsAny span sections = .ok (decide (∃ s ∈ sections, span.Overlaps s)) := by
  induction sections with
  | nil => simp [overlapsAny]
  | cons first rest ih =>
    have hfirst := rangesOverlap_eq hspan (hsections first List.mem_cons_self) hlimit
    have hrest := ih fun s hs => hsections s (List.mem_cons_of_mem _ hs)
    rw [overlapsAny, hfirst, ok_bind, hrest]
    by_cases hover : span.Overlaps first
    · simp [hover]
    · simp [hover]

theorem recordSpanAt_ensures (body entry : List UInt8) (kind : PolicyKind) :
    Ensures (recordSpanAt body entry kind) fun found =>
      ∀ span ∈ found, span.Within body.length := by
  refine .bind (readU32_ensures _ _) fun slotOffset _ => ?_
  dsimp only
  split
  · intro span hspan
    cases hspan
  · refine .bind (.require _) fun _ _ => ?_
    refine .bind (readRecord_ensures _ _) fun record hrecord => ?_
    refine .bind (.ofOption _ fun _ => checkedAdd_eq_some) fun len hlen => ?_
    intro span hspan
    cases hspan
    have hle := hrecord.1.le
    change slotOffset.toNat + len ≤ body.length
    omega

theorem nthRecordSpan_ensures (body stageTable : List UInt8) (n : Nat) :
    Ensures (nthRecordSpan body stageTable n) fun found =>
      ∀ span ∈ found, span.Within body.length := by
  refine .bind_ofOption fun offset _ => ?_
  refine .bind_ofOption fun stop _ => ?_
  refine .bind_ofOption fun entry _ => ?_
  have hindex : n % PolicyKind.count < PolicyKind.all.length := Nat.mod_lt _ (by decide)
  rw [List.getElem?_eq_getElem hindex]
  exact recordSpanAt_ensures body entry _

/-- The slot of `kind` is empty, or holds a record of that kind with a body of its layout. -/
def SlotSound (body entry : List UInt8) (kind : PolicyKind) : Prop :=
  ∃ slotOffset, readU32 entry kind.slotField = .ok slotOffset ∧
    (slotOffset ≠ 0 → ∃ record, readRecord body slotOffset.toNat = .ok record ∧
      record.tag = kind.nodeTag ∧ kind.validateBody record.body = .ok ())

theorem checkPolicySlot_ensures (entry : List UInt8) (kind : PolicyKind)
    (hsections : ∀ s ∈ sections, s.Within body.length) (hbody : body.length < 2 ^ 64) :
    Ensures (checkPolicySlot body entry kind sections) fun _ => SlotSound body entry kind := by
  refine .bind_of_ne_panic (recordSpanAt_ensures body entry kind).ne_panic fun found hfound => ?_
  have hwithin := (recordSpanAt_ensures body entry kind).of_ok hfound
  -- the slot offset that `recordSpanAt` read
  obtain ⟨slotOffset, hslot, hfound⟩ := bind_eq_ok.mp hfound
  by_cases hzero : slotOffset.toNat = 0
  · rw [if_pos hzero] at hfound
    obtain rfl : none = found := by simpa using hfound
    refine ⟨slotOffset, hslot, fun hne => absurd ?_ hne⟩
    exact UInt32.toNat_inj.mp hzero
  · rw [if_neg hzero] at hfound
    simp only [bind_eq_ok] at hfound
    obtain ⟨_, _, record, hrecord, len, _, hfound⟩ := hfound
    obtain rfl : some { offset := slotOffset.toNat, len := len } = found := by simpa using hfound
    change Ensures (readRecord body slotOffset.toNat >>= _) _
    rw [hrecord, ok_bind]
    refine .bind (.require _) fun _ htag => ?_
    refine .bind_of_ne_panic (validateBody_ne_panic kind record.body) fun _ hvalid => ?_
    rw [overlapsAny_eq (hwithin _ rfl) hsections hbody, ok_bind]
    exact (Ensures.require _).mono fun _ _ => ⟨slotOffset, hslot, fun _ =>
      ⟨record, hrecord, htag, hvalid⟩⟩

theorem checkEntriesFrom_ensures {entryLen : Nat} {check : List UInt8 → Outcome IrError Unit}
    {Q : List UInt8 → Prop} (hlen : 0 < entryLen)
    (hcheck : ∀ entry, entry.length = entryLen → Ensures (check entry) fun _ => Q entry)
    (table : List UInt8) (fuel first : Nat) (hfuel : 0 < fuel)
    (hleft : table.length < fuel + first * entryLen) :
    Ensures (checkEntriesFrom entryLen check table fuel (first * entryLen)) fun _ =>
      ∀ k, first ≤ k → k * entryLen < table.length →
        ∃ entry, slice table (k * entryLen) (k * entryLen + entryLen) = some entry ∧ Q entry := by
  induction fuel generalizing first with
  | zero => exact absurd hfuel (Nat.lt_irrefl 0)
  | succ fuel ih =>
    rw [checkEntriesFrom]
    split
    · next hin =>
      refine .bind (.ofOption _ fun _ => checkedAdd_eq_some) fun stop hstop => ?_
      refine .bind_ofOption fun entry hentry => ?_
      obtain ⟨_, _, hentryLen, _⟩ := slice_eq_some hentry
      refine .bind (hcheck entry (by omega)) fun _ hQ => ?_
      have hnext : first * entryLen + entryLen = (first + 1) * entryLen := (Nat.succ_mul _ _).symm
      rw [hnext]
      refine (ih (first + 1) (by omega) (by omega)).mono fun _ hrest k hk hkin => ?_
      rcases Nat.eq_or_lt_of_le hk with rfl | hk
      · exact ⟨entry, by rw [← hstop, hentry], hQ⟩
      · exact hrest k hk hkin
    · next hout =>
      intro k hk hkin
      have := Nat.mul_le_mul_right entryLen hk
      omega

theorem checkEntries_ensures {entryLen : Nat} {check : List UInt8 → Outcome IrError Unit}
    {table : List UInt8} {Q : List UInt8 → Prop} (hlen : 0 < entryLen)
    (hcheck : ∀ entry, entry.length = entryLen → Ensures (check entry) fun _ => Q entry) :
    Ensures (checkEntries entryLen check table) fun _ =>
      ∀ k, k * entryLen < table.length →
        ∃ entry, slice table (k * entryLen) (k * entryLen + entryLen) = some entry ∧ Q entry := by
  have h := checkEntriesFrom_ensures hlen hcheck table (table.length + 1) 0 (Nat.succ_pos _) (by omega)
  rw [Nat.zero_mul] at h
  exact h.mono fun _ hall k hk => hall k (Nat.zero_le k) hk

theorem sliceTable_ensures (body : List UInt8) (offsetField : Nat) (count : UInt32)
    (entryLen : Nat) :
    Ensures (sliceTable body offsetField count entryLen) fun found =>
      At body found.1 found.2 ∧ found.2 <:+: body ∧ found.2.length = count.toNat * entryLen := by
  refine .bind (readU32_ensures _ _) fun tableOffset _ => ?_
  refine .bind (.require _) fun _ _ => ?_
  refine .bind (.ofOption _ fun _ => checkedMul_eq_some) fun span hspan => ?_
  refine .bind (.ofOption _ fun _ => checkedAdd_eq_some) fun stop hstop => ?_
  refine .bind_ofOption fun table htable => ?_
  obtain ⟨_, _, hlen, hinfix⟩ := slice_eq_some htable
  exact ⟨At.of_slice htable, hinfix, by rw [hlen]; omega⟩

theorem checkEdgeOrdinals_ensures (edgeTable : List UInt8) (stageCount : UInt32) :
    Ensures (checkEdgeOrdinals edgeTable stageCount) fun _ =>
      ∀ k, k * EdgeView.len < edgeTable.length → ∃ entry,
        slice edgeTable (k * EdgeView.len) (k * EdgeView.len + EdgeView.len) = some entry ∧
        ∃ edge, EdgeView.parse entry = some edge ∧
          edge.fromOrdinal.toNat < stageCount.toNat ∧ edge.toOrdinal.toNat < stageCount.toNat := by
  apply checkEntries_ensures (by decide)
  intro entry _
  refine .bind_ofOption fun edge hedge => ?_
  exact (Ensures.require _).mono fun _ hin => ⟨edge, hedge, hin⟩

theorem checkStagePolicies_ensures (stageTable : List UInt8)
    (hsections : ∀ s ∈ sections, s.Within body.length) (hbody : body.length < 2 ^ 64) :
    Ensures (checkStagePolicies body stageTable sections) fun _ =>
      ∀ k, k * stageEntryLen < stageTable.length → ∃ entry,
        slice stageTable (k * stageEntryLen) (k * stageEntryLen + stageEntryLen) = some entry ∧
        ∀ kind, SlotSound body entry kind := by
  apply checkEntries_ensures (by decide)
  intro entry _
  refine .mono (.forM fun kind _ =>
    checkPolicySlot_ensures entry kind hsections hbody) fun _ hall kind => ?_
  exact hall kind (PolicyKind.mem_all kind)

theorem checkSectionsDisjoint_ensures (hsections : ∀ s ∈ sections, s.Within limit)
    (hlimit : limit < 2 ^ 64) : Ensures (checkSectionsDisjoint sections) fun _ =>
      sections.Pairwise fun left right => ¬ left.Overlaps right := by
  induction sections with
  | nil => exact List.Pairwise.nil
  | cons first rest ih =>
    have hrest : ∀ s ∈ rest, s.Within limit := fun s hs => hsections s (List.mem_cons_of_mem _ hs)
    refine .bind (.forM (Q := fun other => ¬ first.Overlaps other) fun other hother => ?_)
      fun _ hfirst => (ih hrest).mono fun _ htail => List.pairwise_cons.mpr ⟨hfirst, htail⟩
    rw [rangesOverlap_eq (hsections first List.mem_cons_self) (hrest other hother) hlimit, ok_bind]
    exact (Ensures.require _).mono fun _ h => of_decide_eq_false h

theorem checkRecordOverlaps_ensures (stageTable : List UInt8) (hbody : body.length < 2 ^ 64) :
    Ensures (checkRecordOverlaps body stageTable) fun _ => True := by
  refine .bind_ofOption fun total _ => ?_
  refine .mono (.forM (Q := fun _ => True) fun a _ => ?_) fun _ _ => trivial
  refine .bind (nthRecordSpan_ensures body stageTable a) fun foundA hA => ?_
  cases foundA with
  | none => trivial
  | some spanA =>
    refine .mono (.forM (Q := fun _ => True) fun b _ => ?_) fun _ _ => trivial
    refine .bind (nthRecordSpan_ensures body stageTable b) fun foundB hB => ?_
    cases foundB with
    | none => trivial
    | some spanB =>
      change Ensures (rangesOverlap spanA spanB >>= _) _
      rw [rangesOverlap_eq (hA spanA rfl) (hB spanB rfl) hbody, ok_bind]
      exact (Ensures.require _).mono fun _ _ => trivial

theorem heapFloor_ensures (stageTable : List UInt8)
    (hsections : ∀ s ∈ sections, s.Within body.length) (hbody : body.length < 2 ^ 64) :
    Ensures (heapFloor sections body stageTable) fun _ => True := by
  refine .bind (.foldlM (I := fun _ => True) trivial fun floor span hspan _ => ?_)
    fun floor _ => ?_
  · rw [Span.stop_eq (hsections span hspan) hbody]
    trivial
  · refine .bind_ofOption fun total _ => ?_
    refine .foldlM (I := fun _ => True) trivial fun floor n _ _ => ?_
    refine .bind (nthRecordSpan_ensures body stageTable n) fun found hfound => ?_
    cases found with
    | none => trivial
    | some span =>
      change Ensures (span.stop >>= _) _
      rw [Span.stop_eq (hfound span rfl) hbody]
      trivial

def RegistryView.nameAtRank (view : RegistryView) (rank : Nat) : Option (List UInt8) := do
  view.name (← view.sortedOrdinal rank).toNat

theorem checkSortedOrderFrom_ensures (view : RegistryView) (rank remaining : Nat)
    (previous : Option (List UInt8)) :
    Ensures (checkSortedOrderFrom view rank remaining previous) fun _ =>
      (∀ r, rank ≤ r → r < rank + remaining → (view.nameAtRank r).isSome = true) ∧
      (∀ prev ∈ previous, 0 < remaining → ∀ name ∈ view.nameAtRank rank, ¬ name < prev) ∧
      ∀ r, rank ≤ r → r + 1 < rank + remaining → ∀ prev ∈ view.nameAtRank r,
        ∀ name ∈ view.nameAtRank (r + 1), ¬ name < prev := by
  induction remaining generalizing rank previous with
  | zero =>
    refine ⟨?_, ?_, ?_⟩
    · intro r h h'; omega
    · intro _ _ h; exact absurd h (Nat.lt_irrefl 0)
    · intro r h h'; omega
  | succ remaining ih =>
    refine .bind_ofOption fun ordinal hordinal => ?_
    refine .bind_ofOption fun name hname => ?_
    have hrank : view.nameAtRank rank = some name := by
      simp [nameAtRank, hordinal, hname]
    refine .bind (.require _) fun _ hprev => ?_
    refine (ih (rank + 1) (some name)).mono fun _ hrest => ?_
    obtain ⟨hsome, hnext, hordered⟩ := hrest
    refine ⟨?_, ?_, ?_⟩
    · intro r hle hlt
      rcases Nat.eq_or_lt_of_le hle with rfl | hle
      · rw [hrank]; rfl
      · exact hsome r hle (by omega)
    · intro prev hmem _ other hother
      rw [hrank] at hother
      cases hother
      exact hprev prev hmem
    · intro r hle hlt prev hmem
      rcases Nat.eq_or_lt_of_le hle with rfl | hle
      · rw [hrank] at hmem
        exact hnext prev hmem (by omega)
      · exact hordered r hle (by omega) prev hmem

theorem sortedOrdinal_eq {view : RegistryView} {rank : Nat} {entry : List UInt8}
    (hrank : rank < 2 ^ 32)
    (h : slice view.sortedIndex (rank * sortedEntryLen)
      (rank * sortedEntryLen + sortedEntryLen) = some entry) :
    view.sortedOrdinal rank = some (UInt16.ofNat (leNat entry)) := by
  simp only [sortedEntryLen] at h
  have hmul : checkedMul rank 2 = some (rank * 2) := checkedMul_of_lt (by omega)
  have hadd : checkedAdd (rank * 2) 2 = some (rank * 2 + 2) := checkedAdd_of_lt (by omega)
  simp [sortedOrdinal, sortedEntryLen, hmul, hadd, h]

/-- A registry over `stageCount` names, all of them inside the body, with a sorted index
of ordinals below the count. -/
structure RegistryView.Sound (view : RegistryView) (body : List UInt8) (stageCount : UInt32) :
    Prop where
  body_eq : view.body = body
  count_eq : view.count = stageCount
  inside : view.nameTable <:+: body ∧ view.sortedIndex <:+: body
  name_isSome : ∀ ordinal < stageCount.toNat, (view.name ordinal).isSome = true
  sorted_lt : ∀ rank < stageCount.toNat, ∃ ordinal, view.sortedOrdinal rank = some ordinal ∧
    ordinal.toNat < stageCount.toNat

theorem parseRegistry_ensures (body : List UInt8) (stageCount : UInt32) :
    Ensures (parseRegistry body stageCount) fun found => ∀ reg ∈ found,
      reg.view.Sound body stageCount ∧ reg.nameSpan.Within body.length ∧
      reg.sortedSpan.Within body.length := by
  refine .bind (readU32_ensures _ _) fun registryOffset _ => ?_
  dsimp only
  split
  · intro reg hreg
    cases hreg
  · refine .bind (sliceTable_ensures _ _ _ _) fun names hnames => ?_
    obtain ⟨nameOffset, nameTable⟩ := names
    obtain ⟨hat, hinside, hlen⟩ := hnames
    refine .bind (.ofOption _ fun _ => checkedAdd_eq_some) fun sortedOffset _ => ?_
    refine .bind (.ofOption _ fun _ => checkedMul_eq_some) fun sortedLen hsortedLen => ?_
    refine .bind (.ofOption _ fun _ => checkedAdd_eq_some) fun sortedEnd hend => ?_
    refine .bind_ofOption fun sortedIndex hsorted => ?_
    obtain ⟨_, hstop, hsortedIndexLen, hsortedInside⟩ := slice_eq_some hsorted
    refine .bind (.forM fun _ _ => .require _) fun _ hnamed => ?_
    refine .bind (checkEntries_ensures (by decide) fun _ _ => .require _)
      fun _ hordinals => ?_
    intro reg hreg
    cases hreg
    have hentryLen : sortedEntryLen = 2 := rfl
    have hcount := stageCount.toNat_lt
    rw [hentryLen] at hsortedLen hordinals
    refine ⟨⟨rfl, rfl, ⟨hinside, hsortedInside⟩, ?_, ?_⟩, hat.le, ?_⟩
    · intro ordinal hordinal
      exact hnamed ordinal (List.mem_range.mpr hordinal)
    · intro rank hrank
      obtain ⟨entry, hentry, hlt⟩ := hordinals rank (by omega)
      exact ⟨_, sortedOrdinal_eq (by omega) hentry, hlt⟩
    · change sortedOffset + sortedIndex.length ≤ body.length
      omega

theorem parseConfig_ensures (body : List UInt8) (stageCount : UInt32) :
    Ensures (parseConfig body stageCount) fun found => ∀ cfg ∈ found,
      cfg.sectionSpan.Within body.length ∧ cfg.entries <:+: body ∧
      cfg.entries.length = cfg.count.toNat * len ∧
      ∀ k, k * len < cfg.entries.length → ∃ entry,
        slice cfg.entries (k * len)
          (k * ConfigBindingView.len + ConfigBindingView.len) = some entry ∧
        ∃ binding, ConfigBindingView.parse body entry = .ok binding ∧
          binding.nodeOrdinal.toNat < stageCount.toNat := by
  refine .bind (readU32_ensures _ _) fun configOffset _ => ?_
  dsimp only
  split
  · intro cfg hcfg
    cases hcfg
  · refine .bind (.require _) fun _ _ => ?_
    refine .bind (readU32_ensures _ _) fun count _ => ?_
    refine .bind (.ofOption _ fun _ => checkedAdd_eq_some) fun entriesOffset hoffset => ?_
    refine .bind (.ofOption _ fun _ => checkedMul_eq_some) fun entriesLen hlen => ?_
    refine .bind (.ofOption _ fun _ => checkedAdd_eq_some) fun entriesEnd hend => ?_
    refine .bind (.ofOption _ fun _ h => slice_eq_some h) fun entries hentries => ?_
    obtain ⟨_, hstop, hentriesLen, hinside⟩ := hentries
    have hscan : Ensures (checkConfigEntries body entries stageCount) fun _ =>
        ∀ k, k * len < entries.length → ∃ entry,
          slice entries (k * len)
            (k * ConfigBindingView.len + ConfigBindingView.len) = some entry ∧
          ∃ binding, ConfigBindingView.parse body entry = .ok binding ∧
            binding.nodeOrdinal.toNat < stageCount.toNat := by
      apply checkEntries_ensures (by decide)
      intro entry _
      refine .bind_of_ne_panic (configBinding_parse_ensures body entry).ne_panic
        fun binding hbinding => ?_
      exact (Ensures.require _).mono fun _ hlt => ⟨binding, hbinding, hlt⟩
    refine .bind hscan fun _ hbindings => ?_
    refine .bind (.ofOption _ fun _ => checkedAdd_eq_some) fun sectionLen hsection => ?_
    intro cfg hcfg
    cases hcfg
    have hcountLen : entries.length = count.toNat * ConfigBindingView.len := by omega
    refine ⟨?_, hinside, hcountLen, hbindings⟩
    change configOffset.toNat + sectionLen ≤ body.length
    omega

structure ConductorView.Sound (view : ConductorView) (body : List UInt8) : Prop where
  body_eq : view.body = body
  inside : view.stageTable <:+: body ∧ view.edgeTable <:+: body ∧ view.configEntries <:+: body
  stages : ∀ k < view.stageCount.toNat, ∃ entry,
    slice view.stageTable (k * stageEntryLen) (k * stageEntryLen + stageEntryLen) = some entry ∧
    ∀ kind, SlotSound body entry kind
  edges : ∀ k < view.edgeCount.toNat, ∃ entry,
    slice view.edgeTable (k * EdgeView.len) (k * EdgeView.len + EdgeView.len) = some entry ∧
    ∃ edge, EdgeView.parse entry = some edge ∧ edge.fromOrdinal.toNat < view.stageCount.toNat ∧
      edge.toOrdinal.toNat < view.stageCount.toNat
  registry : ∀ reg ∈ view.registry, reg.Sound body view.stageCount ∧
    ∀ r, r + 1 < view.stageCount.toNat → ∀ prev ∈ reg.nameAtRank r,
      ∀ name ∈ reg.nameAtRank (r + 1), ¬ name < prev
  config : ∀ k < view.configCount.toNat, ∃ entry,
    slice view.configEntries (k * len)
      (k * ConfigBindingView.len + ConfigBindingView.len) = some entry ∧
    ∃ binding, ConfigBindingView.parse body entry = .ok binding ∧
      binding.nodeOrdinal.toNat < view.stageCount.toNat

theorem sectionSpans_within {stage edge : Span} {registry : Option ParsedRegistry}
    {config : Option ParsedConfig} (hstage : stage.Within limit) (hedge : edge.Within limit)
    (hregistry : ∀ reg ∈ registry, reg.nameSpan.Within limit ∧ reg.sortedSpan.Within limit)
    (hconfig : ∀ cfg ∈ config, cfg.sectionSpan.Within limit) :
    ∀ s ∈ sectionSpans stage edge registry config, s.Within limit := by
  intro s hs
  rw [sectionSpans, List.mem_append, List.mem_append] at hs
  rcases hs with (hs | hs) | hs
  · rcases List.mem_pair.mp hs with rfl | rfl
    · exact hstage
    · exact hedge
  · cases registry with
    | none => exact absurd hs List.not_mem_nil
    | some reg =>
      rcases List.mem_pair.mp hs with rfl | rfl
      · exact (hregistry reg rfl).1
      · exact (hregistry reg rfl).2
  · cases config with
    | none => exact absurd hs List.not_mem_nil
    | some cfg =>
      obtain rfl := List.mem_singleton.mp hs
      exact hconfig cfg rfl

theorem checkRegistryHeap_ensures (registry : Option ParsedRegistry) (stageCount : UInt32)
    (floor : Nat) :
    Ensures (checkRegistryHeap registry stageCount floor) fun _ => ∀ reg ∈ registry,
      ∀ r, r + 1 < stageCount.toNat → ∀ prev ∈ reg.view.nameAtRank r,
        ∀ name ∈ reg.view.nameAtRank (r + 1), ¬ name < prev := by
  cases registry with
  | none =>
    intro reg hreg
    cases hreg
  | some reg =>
    refine .bind (checkEntries_ensures (Q := fun _ => True) (by decide) fun entry _ => ?_)
      fun _ _ => ?_
    · refine .bind (readU32_ensures _ _) fun _ _ => ?_
      exact (Ensures.require _).mono fun _ _ => trivial
    · refine (checkSortedOrderFrom_ensures reg.view 0 stageCount.toNat none).mono fun _ h => ?_
      intro found hfound r hr
      cases hfound
      exact h.2.2 r (Nat.zero_le r) (by omega)

theorem checkConfigHeap_ensures (config : Option ParsedConfig) (floor : Nat) :
    Ensures (checkConfigHeap config floor) fun _ => True := by
  cases config with
  | none => trivial
  | some =>
    refine .mono (checkEntries_ensures (Q := fun _ => True) (by decide) fun entry _ => ?_)
      fun _ _ => trivial
    refine .bind (readU32_ensures _ _) fun _ _ => ?_
    exact (Ensures.require _).mono fun _ _ => trivial

theorem parse_ensures (hbody : body.length < 2 ^ 64) :
    Ensures (parse body) fun view => view.Sound body := by
  refine .bind (readU32_ensures _ _) fun stageCount _ => ?_
  refine .bind (readU32_ensures _ _) fun edgeCount _ => ?_
  refine .bind (sliceTable_ensures _ _ _ _) fun stages hstages => ?_
  obtain ⟨stageOff, stageTable⟩ := stages
  obtain ⟨hstageAt, hstageIn, hstageLen⟩ := hstages
  refine .bind (sliceTable_ensures _ _ _ _) fun edges hedges => ?_
  obtain ⟨edgeOff, edgeTable⟩ := edges
  obtain ⟨hedgeAt, hedgeIn, hedgeLen⟩ := hedges
  refine .bind (parseRegistry_ensures body stageCount) fun registry hregistry => ?_
  refine .bind (parseConfig_ensures body stageCount) fun config hconfig => ?_
  have hsections : ∀ s ∈ sectionSpans ⟨stageOff, stageTable.length⟩ ⟨edgeOff, edgeTable.length⟩
      registry config, s.Within body.length :=
    sectionSpans_within hstageAt.le hedgeAt.le (fun reg hreg => (hregistry reg hreg).2)
      (fun cfg hcfg => (hconfig cfg hcfg).1)
  refine .bind (checkSectionsDisjoint_ensures hsections hbody) fun _ _ => ?_
  refine .bind (checkEdgeOrdinals_ensures edgeTable stageCount) fun _ hordinals => ?_
  refine .bind (checkStagePolicies_ensures stageTable hsections hbody) fun _ hslots => ?_
  refine .bind (checkRecordOverlaps_ensures stageTable hbody) fun _ _ => ?_
  refine .bind (heapFloor_ensures stageTable hsections hbody) fun floor _ => ?_
  refine .bind (checkRegistryHeap_ensures registry stageCount floor) fun _ hsorted => ?_
  refine .bind (checkConfigHeap_ensures config floor) fun _ _ => ?_
  have hentry : ∀ {count len k : Nat}, 0 < len → k < count → k * len < count * len :=
    fun hlen hk => Nat.mul_lt_mul_of_pos_right hk hlen
  refine ⟨rfl, ⟨hstageIn, hedgeIn, ?_⟩, ?_, ?_, ?_, ?_⟩
  · cases config with
    | none => exact List.nil_infix
    | some cfg => exact (hconfig cfg rfl).2.1
  · intro k hk
    exact hslots k (by rw [hstageLen]; exact hentry (by decide) hk)
  · intro k hk
    exact hordinals k (by rw [hedgeLen]; exact hentry (by decide) hk)
  · intro reg hreg
    obtain ⟨parsed, hparsed, rfl⟩ := Option.map_eq_some_iff.mp hreg
    exact ⟨(hregistry parsed hparsed).1, hsorted parsed hparsed⟩
  · intro k hk
    cases config with
    | none => exact absurd hk (Nat.not_lt_zero k)
    | some cfg =>
      obtain ⟨_, _, hlen, hbindings⟩ := hconfig cfg rfl
      exact hbindings k (by rw [hlen]; exact hentry (by decide) hk)

end Kwokka.Ir
