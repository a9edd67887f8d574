import Kwokka.IrWritten

/-! Reading back single nodes from the bytes the writer produced. -/

namespace Kwokka.Ir

open Bytes Outcome

section Words

variable {bytes : List UInt8} {offset : Nat}

theorem readLe_leBytes {width value : Nat} (h : At bytes offset (leBytes width value))
    (hlen : bytes.length < 2 ^ 64) : readLe width bytes offset = .ok (value % 256 ^ width) := by
  have hle := h.le
  have hread := readLe_of_at h (by omega)
  rwa [length_leBytes, leNat_leBytes] at hread

theorem readU8_of_at {value : UInt8} (h : At bytes offset [value]) :
    readU8 bytes offset = .ok value := by
  rw [readU8, h.getElem?, ofOption_some]

theorem readU16_of_at {value : UInt16} (h : At bytes offset (leBytes 2 value.toNat))
    (hlen : bytes.length < 2 ^ 64) : readU16 bytes offset = .ok value := by
  have hlt : value.toNat < 256 ^ 2 := value.toNat_lt
  rw [readU16, readLe_leBytes h hlen, ok_bind, Nat.mod_eq_of_lt hlt, pure_eq, UInt16.ofNat_toNat]

theorem readU32_of_at {value : UInt32} (h : At bytes offset (leBytes 4 value.toNat))
    (hlen : bytes.length < 2 ^ 64) : readU32 bytes offset = .ok value := by
  have hlt : value.toNat < 256 ^ 4 := value.toNat_lt
  rw [readU32, readLe_leBytes h hlen, ok_bind, Nat.mod_eq_of_lt hlt, pure_eq, UInt32.ofNat_toNat]

theorem readU64_of_at {value : UInt64} (h : At bytes offset (leBytes 8 value.toNat))
    (hlen : bytes.length < 2 ^ 64) : readU64 bytes offset = .ok value := by
  have hlt : value.toNat < 256 ^ 8 := value.toNat_lt
  rw [readU64, readLe_leBytes h hlen, ok_bind, Nat.mod_eq_of_lt hlt, pure_eq, UInt64.ofNat_toNat]

theorem toNat_ofNat_u32 {value : Nat} (h : value < 2 ^ 32) : (UInt32.ofNat value).toNat = value := by
  rw [UInt32.toNat_ofNat', Nat.mod_eq_of_lt h]

theorem readU32_offset {value : Nat} (h : At bytes offset (offsetBytes value))
    (hvalue : value < 2 ^ 32) (hlen : bytes.length < 2 ^ 64) :
    readU32 bytes offset = .ok (UInt32.ofNat value) := by
  have hword : min value (2 ^ 32 - 1) = (UInt32.ofNat value).toNat := by
    rw [toNat_ofNat_u32 hvalue]
    omega
  rw [offsetBytes, hword] at h
  exact readU32_of_at h hlen

end Words

theorem limiter_parse_bytes (v : LimiterView) : LimiterView.parse (limiterBytes v) = .ok v := by
  have hlen := length_limiterBytes v
  have hshort : (limiterBytes v).length < 2 ^ 64 := by rw [hlen, LimiterView.len]; decide
  have h := At.self (limiterBytes v)
  have h4 := h.right
  have h8 := h4.right
  simp only [length_leBytes] at h4 h8
  rw [LimiterView.parse, require_of _ hlen, ok_bind, readU32_of_at h.left hshort, ok_bind,
    readU32_of_at h4.left hshort, ok_bind, readU64_of_at h8 hshort, ok_bind, pure_eq]

theorem timeout_parse_bytes (v : TimeoutView) : TimeoutView.parse (timeoutBytes v) = .ok v := by
  have hlen := length_timeoutBytes v
  have hshort : (timeoutBytes v).length < 2 ^ 64 := by rw [hlen, TimeoutView.len]; decide
  have h := At.self (timeoutBytes v)
  rw [TimeoutView.parse, require_of _ hlen, ok_bind, readU64_of_at h hshort, ok_bind, pure_eq]

theorem retry_parse_bytes (v : RetryView) : RetryView.parse (retryBytes v) = .ok v := by
  have hlen := length_retryBytes v
  have hshort : (retryBytes v).length < 2 ^ 64 := by rw [hlen, RetryView.len]; decide
  have h := At.self (retryBytes v)
  have h4 := h.right
  have h5 := h4.right
  have h8 := h5.right.right
  have h16 := h8.right
  simp only [length_leBytes, List.length_singleton] at h4 h5 h8 h16
  rw [RetryView.parse, require_of _ hlen, ok_bind, readU32_of_at h.left hshort, ok_bind,
    readU8_of_at h4.left, ok_bind, readU8_of_at h5.left, ok_bind, readU64_of_at h8.left hshort,
    ok_bind, readU64_of_at h16 hshort, ok_bind, pure_eq]

theorem breaker_parse_bytes (v : BreakerView) : BreakerView.parse (breakerBytes v) = .ok v := by
  have hlen := length_breakerBytes v
  have hshort : (breakerBytes v).length < 2 ^ 64 := by rw [hlen, BreakerView.len]; decide
  have h := At.self (breakerBytes v)
  have h1 := h.right
  have h4 := h1.right.right
  have h8 := h4.right
  have h16 := h8.right
  have h20 := h16.right
  have h24 := h20.right
  simp only [length_leBytes, List.length_singleton] at h1 h4 h8 h16 h20 h24
  rw [BreakerView.parse, require_of _ hlen, ok_bind, readU8_of_at h.left, ok_bind,
    readU8_of_at h1.left, ok_bind, readU32_of_at h4.left hshort, ok_bind,
    readU64_of_at h8.left hshort, ok_bind, readU32_of_at h16.left hshort, ok_bind,
    readU32_of_at h20.left hshort, ok_bind, readU64_of_at h24 hshort, ok_bind, pure_eq]

theorem validateBody_policyBytes {stage : StageSpec} {kind : PolicyKind} {body : List UInt8}
    (h : stage.policyBytes kind = some body) : kind.validateBody body = .ok () := by
  cases kind with
  | limiter =>
    obtain ⟨v, _, rfl⟩ := Option.map_eq_some_iff.mp h
    simp [PolicyKind.validateBody, limiter_parse_bytes]
  | timeout =>
    obtain ⟨v, _, rfl⟩ := Option.map_eq_some_iff.mp h
    simp [PolicyKind.validateBody, timeout_parse_bytes]
  | retry =>
    obtain ⟨v, _, rfl⟩ := Option.map_eq_some_iff.mp h
    simp [PolicyKind.validateBody, retry_parse_bytes]
  | breaker =>
    obtain ⟨v, _, rfl⟩ := Option.map_eq_some_iff.mp h
    simp [PolicyKind.validateBody, breaker_parse_bytes]

theorem length_policyBytes {stage : StageSpec} {kind : PolicyKind} {body : List UInt8}
    (h : stage.policyBytes kind = some body) : body.length % 8 = 0 ∧ body.length ≤ 32 := by
  cases kind with
  | limiter =>
    obtain ⟨v, _, rfl⟩ := Option.map_eq_some_iff.mp h
    simp [length_limiterBytes, LimiterView.len]
  | timeout =>
    obtain ⟨v, _, rfl⟩ := Option.map_eq_some_iff.mp h
    simp [length_timeoutBytes, TimeoutView.len]
  | retry =>
    obtain ⟨v, _, rfl⟩ := Option.map_eq_some_iff.mp h
    simp [length_retryBytes, RetryView.len]
  | breaker =>
    obtain ⟨v, _, rfl⟩ := Option.map_eq_some_iff.mp h
    simp [length_breakerBytes, BreakerView.len]

theorem ofNat_leNat_leBytes (value : UInt16) :
    UInt16.ofNat (leNat (leBytes 2 value.toNat)) = value := by
  have hlt : value.toNat < 256 ^ 2 := value.toNat_lt
  rw [leNat_leBytes, Nat.mod_eq_of_lt hlt, UInt16.ofNat_toNat]

theorem edge_parse_bytes (edge : EdgeView) : EdgeView.parse (edgeBytes edge) = some edge := by
  have hfrom := ofNat_leNat_leBytes edge.fromOrdinal
  have hto := ofNat_leNat_leBytes edge.toOrdinal
  have hindex := ofNat_leNat_leBytes edge.inputIndex
  simp only [leBytes] at hfrom hto hindex
  simp only [edgeBytes, leBytes, List.cons_append, List.nil_append, EdgeView.parse, hfrom, hto, hindex]

theorem readRecord_of_at {bytes body : List UInt8} {offset : Nat} {tag : NodeTag}
    (h : At bytes offset (recordBytes tag body)) (hoffset : offset % 8 = 0)
    (hbody : body.length % 8 = 0) (hlen : bytes.length < 2 ^ 32) :
    readRecord bytes offset = .ok { tag, body } := by
  have hle := h.le
  rw [length_recordBytes, recordHeaderLen] at hle
  have hframe := h.left
  have hbodyAt := h.right
  have hword := hframe.right.right
  rw [length_frameBytes] at hbodyAt
  have hsize : (UInt32.ofNat (recordHeaderLen + body.length)).toNat =
      recordHeaderLen + body.length :=
    toNat_ofNat_u32 (by simp only [recordHeaderLen]; omega)
  have hslice : slice bytes (offset + recordHeaderLen) (offset + (recordHeaderLen + body.length)) =
      some body := hbodyAt.slice_eq (by simp only [recordHeaderLen]; omega)
  have hread : readU32 bytes (offset + 4) = .ok (UInt32.ofNat (recordHeaderLen + body.length)) :=
    readU32_offset hword (by simp only [recordHeaderLen]; omega) (by omega)
  rw [readRecord, require_of _ (by simpa [recordAlign] using hoffset), ok_bind, readU16_of_at
    hframe.left (by omega), ok_bind,
    checkedAdd_of_lt (by omega), ofOption_some, ok_bind, hread, ok_bind]
  dsimp only
  rw [hsize, require_of _ (Nat.le_add_right _ _), ok_bind,
    require_of _ (by simp only [recordHeaderLen, recordAlign]; omega), ok_bind,
    checkedAdd_of_lt (by simp only [recordHeaderLen]; omega), ofOption_some, ok_bind,
    checkedAdd_of_lt (by simp only [recordHeaderLen]; omega), ofOption_some, ok_bind, hslice,
    ofOption_some, ok_bind, NodeTag.fromU16_toU16, ofOption_some, ok_bind, pure_eq]

def ConfigBindingSpec.toView (binding : ConfigBindingSpec) : ConfigBindingView where
  nodeOrdinal := binding.nodeOrdinal
  fieldTag := binding.fieldTag
  key := binding.key
  default := binding.defaultValue

theorem scalar_parse_bytes (scalar : ScalarValue) :
    ScalarValue.parse (leBytes 8 scalar.kind.toUInt64.toNat ++ leBytes 8 scalar.value.toNat) =
      .ok scalar := by
  have hkind : At (leBytes 8 scalar.kind.toUInt64.toNat ++ leBytes 8 scalar.value.toNat) 0
      [scalar.kind] := by
    refine ⟨by simp, ?_⟩
    intro i hi
    obtain rfl : i = 0 := by simpa using hi
    simp [leBytes]
  have hvalue := (At.self (leBytes 8 scalar.kind.toUInt64.toNat ++
    leBytes 8 scalar.value.toNat)).right
  rw [length_leBytes] at hvalue
  rw [ScalarValue.parse, require_of _ (by simp [ScalarValue.len]), ok_bind, readU8_of_at hkind,
    ok_bind, readU64_of_at hvalue (by simp), ok_bind, pure_eq]

theorem binding_parse_bytes {body : List UInt8} {heap : Nat} {binding : ConfigBindingSpec}
    (h : At body heap binding.key) (hlen : body.length < 2 ^ 32) :
    ConfigBindingView.parse body (bindingBytes heap binding) = .ok binding.toView := by
  have hle := h.le
  have hentry := length_bindingBytes heap binding
  have hshort : (bindingBytes heap binding).length < 2 ^ 64 := by
    rw [hentry, ConfigBindingView.len]; decide
  have h0 := At.self (bindingBytes heap binding)
  have h2 := h0.right
  have h4 := h2.right
  have h8 := h4.right
  have h16 := h8.right.right
  simp only [length_leBytes, length_offsetBytes] at h2 h4 h8 h16
  have hkeyLen : (UInt32.ofNat binding.key.length).toNat = binding.key.length :=
    toNat_ofNat_u32 (by omega)
  have hkeyOff : (UInt32.ofNat heap).toNat = heap := toNat_ofNat_u32 (by omega)
  have hscalar : slice (bindingBytes heap binding) ConfigBindingView.scalarOffset
      ConfigBindingView.len = some _ := h16.slice_eq (by simp [ConfigBindingView.len])
  rw [ConfigBindingView.parse, require_of _ hentry, ok_bind, readU16_of_at h0.left hshort, ok_bind,
    readU16_of_at h2.left hshort, ok_bind, readU32_offset h4.left (by omega) hshort, ok_bind]
  dsimp only
  rw [readU32_offset h8.left (by omega) hshort, ok_bind]
  rw [hkeyLen, hkeyOff, checkedAdd_of_lt (by omega), ofOption_some, ok_bind, h.slice_eq rfl,
    ofOption_some, ok_bind, hscalar, ofOption_some, ok_bind,
    scalar_parse_bytes, ok_bind, pure_eq]
  rfl

end Kwokka.Ir
