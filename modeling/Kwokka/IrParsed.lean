import Kwokka.IrReadBack
import Kwokka.IrSound

/-! The validator on a written body: every framing check passes, and what remains of
`parse` are the four checks on the caller's ordinals and names. -/

namespace Kwokka.Ir

open Bytes Outcome

theorem checkEntriesFrom_flatten {entryLen : Nat} {check : List UInt8 → Outcome IrError Unit}
    (hpos : 0 < entryLen) (done rest : List (List UInt8)) (fuel : Nat)
    (hrest : ∀ e ∈ rest, e.length = entryLen) (hfuel : rest.length < fuel)
    (hshort : (done ++ rest).flatten.length < 2 ^ 64) :
    checkEntriesFrom entryLen check (done ++ rest).flatten fuel done.flatten.length =
      rest.forM check := by
  induction rest generalizing done fuel with
  | nil =>
    obtain ⟨fuel, rfl⟩ : ∃ n, fuel = n + 1 := ⟨fuel - 1, by omega⟩
    rw [checkEntriesFrom, if_neg (by simp)]
    rfl
  | cons entry rest ih =>
    obtain ⟨fuel, rfl⟩ : ∃ n, fuel = n + 1 := ⟨fuel - 1, by omega⟩
    have hentry := hrest entry List.mem_cons_self
    have hsplit : (done ++ entry :: rest).flatten = done.flatten ++ (entry ++ rest.flatten) := by
      rw [List.flatten_append, List.flatten_cons]
    have hlen : (done ++ entry :: rest).flatten.length =
        done.flatten.length + (entryLen + rest.flatten.length) := by
      rw [hsplit, List.length_append, List.length_append, hentry]
    have hat : At (done ++ entry :: rest).flatten done.flatten.length entry := by
      have h := (At.self (done.flatten ++ (entry ++ rest.flatten))).right.left
      rw [Nat.zero_add] at h
      rwa [hsplit]
    have hnext : (done ++ [entry]).flatten.length = done.flatten.length + entryLen := by
      rw [List.flatten_append, List.length_append, List.flatten_singleton, hentry]
    have hih := ih (done ++ [entry]) fuel (fun e he => hrest e (List.mem_cons_of_mem _ he))
      (by simpa using hfuel) (by simpa using hshort)
    rw [hnext, List.append_assoc, List.singleton_append] at hih
    rw [checkEntriesFrom, if_pos (by omega), checkedAdd_of_lt (by omega), ofOption_some, ok_bind,
      hat.slice_eq (by omega), ofOption_some, ok_bind, hih]
    rfl

theorem checkEntries_flatten {entryLen : Nat} {check : List UInt8 → Outcome IrError Unit}
    {entries : List (List UInt8)} (hpos : 0 < entryLen) (hlen : ∀ e ∈ entries, e.length = entryLen)
    (hshort : entries.flatten.length < 2 ^ 64) :
    checkEntries entryLen check entries.flatten = entries.forM check := by
  have hcount : entries.length ≤ entries.flatten.length := by
    rw [length_flatten_of_length_eq hlen]
    exact Nat.le_mul_of_pos_right _ hpos
  exact checkEntriesFrom_flatten hpos [] entries _ hlen (Nat.lt_succ_of_le hcount) hshort

theorem sliceTable_of_at {body table : List UInt8} {offsetField entryLen : Nat}
    {count offset : UInt32} (hread : readU32 body offsetField = .ok offset)
    (hoffset : conductorHeaderLen ≤ offset.toNat) (hat : At body offset.toNat table)
    (hlen : table.length = count.toNat * entryLen) (hshort : body.length < 2 ^ 64) :
    sliceTable body offsetField count entryLen = .ok (offset.toNat, table) := by
  have hle := hat.le
  rw [sliceTable, hread, ok_bind]
  dsimp only
  rw [require_of _ hoffset, ok_bind, checkedMul_of_lt (by omega), ofOption_some, ok_bind,
    checkedAdd_of_lt (by omega), ofOption_some, ok_bind, hat.slice_eq (by omega), ofOption_some,
    ok_bind, pure_eq]

structure Layout.Encoded (layout : Layout) (blob : ConductorBlob) (body : List UInt8) : Prop where
  length : layout.specRecordLen = 8 + body.length
  header : At body 0 (bodyHeaderBytes layout)
  stages : At body 24 (stageTableBytes layout blob)
  edges : At body layout.edgeTableOff (blob.edges.map edgeBytes).flatten
  records : At body layout.policyHeapOff ((policySlots blob.stages).map Slot.record).flatten
  registry : ∀ reg ∈ blob.registry,
    At body layout.registryOff
      ((nameEntries layout.heapOff reg.names).flatten ++ (sortedBytes reg.sorted).flatten) ∧
    At body layout.heapOff reg.names.flatten
  config : blob.config ≠ [] →
    At body layout.configOff (offsetBytes blob.config.length ++ (leBytes 4 0 ++
      (bindingEntries (layout.heapOff + blob.names.flatten.length) blob.config).flatten)) ∧
    At body (layout.heapOff + blob.names.flatten.length) (keyBytes blob.config).flatten

theorem validate_of_header {layout : Layout} {bytes body : List UInt8}
    (hheader : At bytes 0 (headerBytes layout)) (hbody : At bytes 24 body)
    (hlen : bytes.length = layout.total) (htotal : layout.total = 16 + layout.specRecordLen)
    (hspec : layout.specRecordLen = 8 + body.length) (haligned : layout.specRecordLen % 8 = 0)
    (hlt : layout.total < 2 ^ 32) :
    readRoot bytes = parse body ∧ validate bytes = parse body >>= fun _ => .ok ⟨bytes⟩ := by
  have hversion := hheader.right
  have htotalWord := hversion.right.right
  have hrootWord := htotalWord.right
  have hframe := hrootWord.right
  have hrecordAt : At bytes 16 (recordBytes .conductorSpec body) := by
    have hword : offsetBytes layout.specRecordLen = offsetBytes (recordHeaderLen + body.length) := by
      rw [hspec, recordHeaderLen]
    rw [hword] at hframe
    exact At.append hframe hbody
  have hrecord := readRecord_of_at hrecordAt (by decide) (by omega) (by omega)
  have hrootOffset : readU32 bytes 12 = .ok (UInt32.ofNat 16) :=
    readU32_offset hrootWord.left (by decide) (by omega)
  have hroot : readRoot bytes = parse body := by
    rw [readRoot, rootOffsetField, hrootOffset, ok_bind]
    dsimp only
    rw [show (UInt32.ofNat 16).toNat = 16 from rfl, hrecord, ok_bind,
      require_of (IrError.badTag _) rfl, ok_bind]
  refine ⟨hroot, ?_⟩
  have hmagic : slice bytes 0 magic.length = some magic := hheader.left.slice_eq (by simp)
  have hfound : readU16 bytes 4 = .ok version := readU16_of_at hversion.left (by omega)
  have htotalLen : readU32 bytes 8 = .ok (UInt32.ofNat layout.total) :=
    readU32_offset htotalWord.left hlt (by omega)
  rw [validate, require_of _ (by simp only [headerLen]; omega), ok_bind, require_of _ hmagic,
    ok_bind, hfound, ok_bind, require_of _ (UInt16.le_refl _), ok_bind, htotalLen, ok_bind]
  dsimp only
  rw [toNat_ofNat_u32 hlt, require_of _ hlen.symm, ok_bind, hroot]
  rfl

theorem Layout.Written.encoded {layout : Layout} {blob : ConductorBlob} {out : List UInt8}
    (hfits : layout.Fits blob) (h : layout.Written blob out) :
    ∃ body, layout.Encoded blob body ∧
      readRoot (out.take layout.total) = parse body ∧
      validate (out.take layout.total) = parse body >>= fun _ => .ok ⟨out.take layout.total⟩ := by
  have hoffsets := hfits.offsets
  have htotal := hfits.total
  have hlenLe := h.total_le
  have hbodyOffset : bodyOffset = 24 := rfl
  have hbytesLen : (out.take layout.total).length = layout.total := by simp; omega
  obtain ⟨body, hbody⟩ : ∃ body, slice (out.take layout.total) 24 layout.total = some body :=
    slice_of_le (by omega) (by omega)
  have hbodyLen := (slice_eq_some hbody).2.2.1
  have hbodyAt := At.of_slice hbody
  have hin : ∀ {offset xs}, At out (bodyOffset + offset) xs → offset + xs.length ≤ body.length →
      At body offset xs := by
    intro offset xs hat hle
    exact hbodyAt.inside (hat.take (by omega)) hle
  have hrecords := h.front.right
  have hedges := h.front.left.right
  have hslots := h.front.left.left.right
  have hheader := h.front.left.left.left
  simp only [List.length_append, length_headerBytes, length_bodyHeaderBytes,
    length_stageTableBytes, length_edgeTable] at hrecords hedges hslots
  have hbodyHeader := hheader.right
  have hslotsLen := length_stageTableBytes layout blob
  have hedgesLen := length_edgeTable blob.edges
  have hvalid := validate_of_header (hheader.left.take (by rw [length_headerBytes]; omega)) hbodyAt
    hbytesLen htotal (by omega) hfits.aligned hfits.total_lt
  refine ⟨body, ⟨by omega, hin hbodyHeader ?_, hin hslots ?_, hin ?_ ?_, hin ?_ ?_, ?_, ?_⟩, hvalid⟩
  · rw [length_bodyHeaderBytes]; omega
  · omega
  · have hoff : bodyOffset + layout.edgeTableOff = 0 + (24 + 24 + blob.stages.length * 16) := by
      omega
    rwa [hoff]
  · omega
  · have hoff : bodyOffset + layout.policyHeapOff =
        0 + (24 + 24 + blob.stages.length * 16 + blob.edges.length * 8) := by
      omega
    rwa [hoff]
  · rw [← recordsLen]; omega
  · intro reg hreg
    obtain ⟨htable, hnames⟩ := h.registry reg hreg
    obtain ⟨_, hregEnd, _⟩ := hfits.registryOff reg hreg
    obtain ⟨hnamesLen, hsortedLen⟩ := hfits.arity reg hreg
    have hsame := names_of_mem hreg
    refine ⟨hin htable ?_, hin hnames (by rw [← hsame]; omega)⟩
    rw [List.length_append, length_nameEntries, length_sortedBytes, hnamesLen, hsortedLen]
    omega
  · intro hne
    obtain ⟨hentries, hkeys⟩ := h.config hne
    obtain ⟨_, hconfigEnd⟩ := hfits.configOff hne
    refine ⟨hin hentries ?_, hin hkeys (by omega)⟩
    simp only [List.length_append, length_offsetBytes, length_leBytes, length_bindingEntries]
    omega

end Kwokka.Ir
