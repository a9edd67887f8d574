import Kwokka.IoFuture
import Kwokka.SockAddr

/-! The in-flight slot of a datagram operation: its header, its `iovec`, the address and
the payload, one behind the other. Nothing clears the address between two operations, and
a receive reads it back without the length the kernel reported for it. -/

namespace Kwokka

open Bytes SockAddr

section Unpack

variable (buf : List UInt8)

/-- The array is read at fixed indices inside it. -/
def bytesAt (start width : Nat) : List UInt8 :=
  (List.range width).map fun i => buf.getD (start + i) 0

def packedFamily : Nat := leNat (bytesAt buf 0 2)

def beAt (start width : Nat) : Nat := leNat (bytesAt buf start width).reverse

def unpackV4 : SocketAddrV4 where
  ip := ⟨(bytesAt buf 4 4).toArray, by simp [bytesAt]⟩
  port := UInt16.ofNat (beAt buf 2 2)

def unpackV6 : SocketAddrV6 where
  ip := ⟨(bytesAt buf 8 16).toArray, by simp [bytesAt]⟩
  port := UInt16.ofNat (beAt buf 2 2)
  flowinfo := UInt32.ofNat (beAt buf 4 4)
  scopeId := UInt32.ofNat (leNat (bytesAt buf 24 4))

def SockAddr.unpack : Option SockAddr :=
  if packedFamily buf = afInet then some (.v4 (unpackV4 buf))
  else if packedFamily buf = afInet6 then some (.v6 (unpackV6 buf))
  else none

/-- How many bytes `unpack` reads of an address of this family. -/
def unpackLen (family : Nat) : Nat :=
  if family = afInet then 8 else if family = afInet6 then 28 else 2

/-- Whether a name settles what `unpack` makes of it, whatever follows it. Of a name of one byte
that is so when the byte is the low one of neither family. -/
def isSettledName : List UInt8 → Bool
  | [] => false
  | [low] => low.toNat != afInet && low.toNat != afInet6
  | name => unpackLen (packedFamily name) ≤ name.length

theorem packedFamily_eq :
    packedFamily buf = (buf.getD 0 0).toNat + 256 * (buf.getD 1 0).toNat := by
  simp [packedFamily, bytesAt, leNat, List.range_succ]

theorem bytesAt_append {name : List UInt8} {start width : Nat} (rest : List UInt8)
    (h : start + width ≤ name.length) :
    bytesAt (name ++ rest) start width = bytesAt name start width := by
  refine List.map_congr_left fun i hi => ?_
  have hlt := List.mem_range.mp hi
  rw [List.getD_eq_getElem?_getD, List.getElem?_append_left (by omega), List.getD_eq_getElem?_getD]

theorem packedFamily_append {name : List UInt8} (rest : List UInt8) (h : 2 ≤ name.length) :
    packedFamily (name ++ rest) = packedFamily name := by
  rw [packedFamily, bytesAt_append rest h, packedFamily]

theorem unpack_settled {name : List UInt8} (rest rest' : List UInt8)
    (h : isSettledName name = true) :
    unpack (name ++ rest) = unpack (name ++ rest') := by
  match name, h with
  | [low], h =>
    have hnone : ∀ rest, unpack ([low] ++ rest) = none := by
      intro rest
      obtain ⟨hinet, hinet6⟩ : low.toNat ≠ 2 ∧ low.toNat ≠ 10 := by
        simpa [isSettledName, afInet, afInet6] using h
      have hlt := low.toNat_lt
      have hfamily : packedFamily ([low] ++ rest) = low.toNat + 256 * (rest.getD 0 0).toNat := by
        rw [packedFamily_eq]
        rfl
      rw [unpack, hfamily, if_neg (by unfold afInet; omega),
        if_neg (by unfold afInet6; omega)]
    rw [hnone, hnone]
  | low :: high :: tail, h =>
    have hlen := of_decide_eq_true h
    have htwo : 2 ≤ (low :: high :: tail).length := by simp
    simp only [unpack, packedFamily_append _ htwo]
    generalize low :: high :: tail = name at hlen
    unfold unpackLen at hlen
    split
    case isTrue hinet =>
      rw [if_pos hinet] at hlen
      simp (disch := omega) only [unpackV4, beAt, bytesAt_append]
    case isFalse hinet =>
      rw [if_neg hinet] at hlen
      split
      case isFalse => rfl
      case isTrue hinet6 =>
        rw [if_pos hinet6] at hlen
        simp (disch := omega) only [unpackV6, beAt, bytesAt_append]

theorem getD_past {name : List UInt8} {i : Nat} (byte : UInt8) (h : name.length ≤ i)
    (hi : i < 128) : (name ++ List.replicate (128 - name.length) byte).getD i 0 = byte := by
  rw [List.getD_eq_getElem?_getD, List.getElem?_append_right h,
    List.getElem?_replicate_of_lt (by omega)]
  rfl

theorem leNat_mod_ne (a b c a' b' c' : UInt8) :
    leNat [a, b, c, 0] % 2 ^ 32 ≠ leNat [a', b', c', 1] % 2 ^ 32 := by
  have ha := a.toNat_lt
  have hb := b.toNat_lt
  have hc := c.toNat_lt
  have ha' := a'.toNat_lt
  have hb' := b'.toNat_lt
  have hc' := c'.toNat_lt
  simp [leNat]
  omega

/-- Behind a name that settles nothing, zeros and ones are read differently, or a family is. -/
theorem unpack_unsettled {name : List UInt8} (h : isSettledName name = false) :
    ∃ rest rest', rest.length = 128 - name.length ∧ rest'.length = 128 - name.length ∧
      unpack (name ++ rest) ≠ unpack (name ++ rest') := by
  match name, h with
  | [], _ => exact ⟨2 :: List.replicate 127 0, List.replicate 128 0, by decide +kernel⟩
  | [low], h =>
    refine ⟨List.replicate 127 0, List.replicate 127 1, by simp, by simp, ?_⟩
    have hlow : low = 2 ∨ low = 10 := by
      simp only [← UInt8.toNat_inj]
      simpa [isSettledName, afInet, afInet6, or_iff_not_imp_left] using h
    rcases hlow with rfl | rfl <;> decide +kernel
  | low :: high :: tail, h =>
    have hlen := of_decide_eq_false h
    have htwo : 2 ≤ (low :: high :: tail).length := by simp
    generalize low :: high :: tail = name at hlen htwo
    refine ⟨List.replicate _ 0, List.replicate _ 1, List.length_replicate, List.length_replicate, ?_⟩
    simp only [unpack, packedFamily_append _ htwo]
    unfold unpackLen at hlen
    split
    case isTrue hinet =>
      -- the last byte of the address lies behind the name
      rw [if_pos hinet] at hlen
      intro hsame
      have hip := congrArg (·.ip[3]) (v4.inj (Option.some.inj hsame))
      simp [unpackV4, bytesAt, List.range_succ] at hip
      rw [← List.getD_eq_getElem?_getD, ← List.getD_eq_getElem?_getD,
        getD_past _ (by omega) (by omega), getD_past _ (by omega) (by omega)] at hip
      cases hip
    case isFalse hinet =>
      rw [if_neg hinet] at hlen
      split
      case isFalse hinet6 =>
        rw [if_neg hinet6] at hlen
        exact absurd htwo hlen
      case isTrue hinet6 =>
        rw [if_pos hinet6] at hlen
        intro hsame
        have hscope := congrArg (·.scopeId.toNat) (v6.inj (Option.some.inj hsame))
        simp only [unpackV6, bytesAt, List.range_succ, List.range_zero, List.nil_append,
          List.cons_append, List.map_cons, List.map_nil, UInt32.toNat_ofNat', Nat.reduceAdd,
          getD_past _ (show name.length ≤ 27 by omega) (by omega)] at hscope
        exact leNat_mod_ne _ _ _ _ _ _ hscope

end Unpack

section Layout

/-- `size_of::<libc::msghdr>()` and, below, `size_of::<libc::iovec>()` on a 64-bit target. -/
def iovecOffset : Nat := 56

def iovecSize : Nat := 16

def addrOffset : Nat := iovecOffset + iovecSize

def recvNamelen : Nat := 128

def payloadOffset : Nat := addrOffset + recvNamelen

theorem addrOffset_eq : addrOffset = 72 := rfl

theorem payloadOffset_eq : payloadOffset = 200 := rfl

def maxMsgInlineCap : Nat := inflightBufStride - payloadOffset

/-- `base` is the address of the slot; a write that leaves it is `none`. -/
def writeLayout (base : Nat) (slot : List UInt8) (iovLen addrLen : Nat) : Option (List UInt8) :=
  putAll slot
    [(iovecOffset, leBytes 8 (base + payloadOffset) ++ leBytes 8 iovLen),
      (0, leBytes 8 (base + addrOffset) ++ leBytes 8 addrLen ++ leBytes 8 (base + iovecOffset) ++
        leBytes 8 1 ++ leBytes 24 0)]

def writeSendHeader (base : Nat) (slot : List UInt8) (payloadLen : Nat) (addr : SockAddr) :
    Option (List UInt8) := do
  let (addrLen, packed) ← addr.packInto (List.replicate recvNamelen 0)
  writeLayout base (← put slot addrOffset packed) payloadLen addrLen

def buildSendMsg (base : Nat) (slot src : List UInt8) (addr : SockAddr) : Option (List UInt8) :=
  if maxMsgInlineCap < src.length then none
  else do writeSendHeader base (← put slot payloadOffset src) src.length addr

def buildRecvMsg (base : Nat) (slot : List UInt8) (cap : Nat) : Option (List UInt8) :=
  writeLayout base slot (min cap maxMsgInlineCap) recvNamelen

def addrRegion (slot : List UInt8) : List UInt8 := (slot.drop addrOffset).take recvNamelen

def readSender (slot : List UInt8) : Option SockAddr := unpack (addrRegion slot)

end Layout

section Receive

/-- The kernel's answer to a `recvmsg`: the sender's name and the payload as it wrote them. -/
structure MsgReply where
  result : Int
  name : List UInt8
  payload : List UInt8

/-- A destination buffer: its storage, as long as its capacity, and how much of it is set. -/
structure MsgBuf where
  storage : List UInt8
  init : Nat

structure MsgOutput where
  result : Except IoError Nat
  sender : Option SockAddr
  buf : MsgBuf

/-- The kernel sets `msg_namelen` to what it wrote. -/
def kernelRecv (slot : List UInt8) (reply : MsgReply) : Option (List UInt8) :=
  putAll slot [(8, leBytes 4 reply.name.length), (addrOffset, reply.name), (payloadOffset, reply.payload)]

/-- The kernel writes no more than it was offered. -/
structure MsgReply.Fits (reply : MsgReply) (buf : MsgBuf) : Prop where
  name : reply.name.length ≤ recvNamelen
  payload : reply.payload.length ≤ min buf.storage.length maxMsgInlineCap
  count : 0 ≤ reply.result → reply.result = reply.payload.length

def harvestMsgPayload (slot : List UInt8) (len : Nat) (dst : MsgBuf) : MsgBuf :=
  let count := min (min len maxMsgInlineCap) dst.storage.length
  ⟨(slot.drop payloadOffset).take count ++ dst.storage.drop count, count⟩

/-- The completion poll of a `RecvMsgFuture`. -/
def resolveRecvMsg (slot : List UInt8) (result : Int) (buf : MsgBuf) : MsgOutput :=
  match bytesFromCqe result with
  | .ok count => ⟨.ok count, readSender slot, harvestMsgPayload slot count buf⟩
  | .error error => ⟨.error error, none, buf⟩

/-- A `RecvMsgFuture` in the slot it was given, from its first poll to its output. -/
def recvMsg (base : Nat) (slot : List UInt8) (buf : MsgBuf) (reply : MsgReply) : Option MsgOutput :=
  if maxMsgInlineCap < buf.storage.length then some ⟨bytesFromCqe (-22), none, buf⟩
  else do
    let slot ← kernelRecv (← buildRecvMsg base slot buf.storage.length) reply
    return resolveRecvMsg slot reply.result buf

/-- An earlier operation in the slot; `write` is what any other one, or the kernel, wrote there. -/
inductive SlotUse
  | sendMsg (src : List UInt8) (addr : SockAddr)
  | recvMsg (cap : Nat) (reply : MsgReply)
  | write (offset : Nat) (bytes : List UInt8)

def SlotUse.apply (base : Nat) (slot : List UInt8) : SlotUse → Option (List UInt8)
  | sendMsg src addr => buildSendMsg base slot src addr
  | recvMsg cap reply => do kernelRecv (← buildRecvMsg base slot cap) reply
  | write offset bytes => put slot offset bytes

/-- The slot after its earlier occupants; the mapping starts zeroed. -/
def occupied (base : Nat) (uses : List SlotUse) : Option (List UInt8) :=
  uses.foldlM (SlotUse.apply base) (List.replicate inflightBufStride 0)

/-- The receive reports no sender, or the kernel's name settles it. -/
def MsgReply.Settles (reply : MsgReply) (buf : MsgBuf) : Prop :=
  maxMsgInlineCap < buf.storage.length ∨ reply.result < 0 ∨ isSettledName reply.name = true
deriving Decidable

/-- What a reply that settles the sender says by itself. -/
def MsgReply.report (reply : MsgReply) (buf : MsgBuf) : MsgOutput :=
  if maxMsgInlineCap < buf.storage.length then ⟨bytesFromCqe (-22), none, buf⟩
  else
    match bytesFromCqe reply.result with
    | .ok count =>
      ⟨.ok count, unpack reply.name,
        ⟨reply.payload ++ buf.storage.drop reply.payload.length, reply.payload.length⟩⟩
    | .error error => ⟨.error error, none, buf⟩

variable {base : Nat} {slot out : List UInt8} {buf : MsgBuf} {reply : MsgReply}

theorem SlotUse.apply_length {u : SlotUse} (h : u.apply base slot = some out) :
    out.length = slot.length := by
  cases u with
  | write => exact (put_length h).2
  | recvMsg =>
    obtain ⟨mid, hmid, h⟩ := Option.bind_eq_some_iff.mp h
    rw [putAll_length h, putAll_length hmid]
  | sendMsg =>
    simp only [SlotUse.apply, buildSendMsg] at h
    split at h
    case isTrue => cases h
    case isFalse =>
      obtain ⟨one, hone, h⟩ := Option.bind_eq_some_iff.mp h
      obtain ⟨packed, -, h⟩ := Option.bind_eq_some_iff.mp h
      obtain ⟨two, htwo, h⟩ := Option.bind_eq_some_iff.mp h
      rw [putAll_length h, (put_length htwo).2, (put_length hone).2]

theorem occupied_length {uses : List SlotUse} (h : occupied base uses = some slot) :
    slot.length = inflightBufStride := by
  have hfold : ∀ start, uses.foldlM (SlotUse.apply base) start = some slot →
      slot.length = start.length := by
    clear h
    induction uses with
    | nil =>
      intro start hstart
      rw [Option.some.inj hstart]
    | cons u uses ih =>
      intro start hstart
      obtain ⟨mid, hmid, hrest⟩ := Option.bind_eq_some_iff.mp hstart
      rw [ih mid hrest, SlotUse.apply_length hmid]
  rw [hfold _ h, List.length_replicate]

theorem at_addrRegion (h : slot.length = inflightBufStride) : At slot addrOffset (addrRegion slot) := by
  have hslice : slice slot addrOffset payloadOffset = some (addrRegion slot) :=
    if_pos ⟨by decide, by rw [h]; decide⟩
  exact .of_slice hslice

theorem length_addrRegion (h : slot.length = inflightBufStride) :
    (addrRegion slot).length = recvNamelen := by
  rw [addrRegion, List.length_take, List.length_drop, h]
  rfl

theorem writeLayout_eq (base : Nat) (h : slot.length = inflightBufStride) (iovLen addrLen : Nat) :
    ∃ out, writeLayout base slot iovLen addrLen = some out ∧ addrRegion out = addrRegion slot := by
  obtain ⟨out, hout⟩ : ∃ out, writeLayout base slot iovLen addrLen = some out := by
    apply putAll_eq_some
    simp [h, inflightBufStride, iovecOffset]
  refine ⟨out, hout, ?_⟩
  have hat := (at_addrRegion h).putAll hout (by simp [addrOffset_eq, iovecOffset])
  have hsame := hat.drop_take
  rwa [length_addrRegion h] at hsame

theorem kernelRecv_eq (h : slot.length = inflightBufStride)
    (hname : reply.name.length ≤ recvNamelen) (hpayload : reply.payload.length ≤ maxMsgInlineCap) :
    ∃ out, kernelRecv slot reply = some out ∧
      addrRegion out = reply.name ++ (addrRegion slot).drop reply.name.length ∧
      At out payloadOffset reply.payload := by
  have hregion := length_addrRegion h
  have hsplit := at_addrRegion h
  rw [← List.take_append_drop reply.name.length (addrRegion slot)] at hsplit
  have htake : ((addrRegion slot).take reply.name.length).length = reply.name.length := by
    rw [List.length_take, hregion, Nat.min_eq_left hname]
  have hrest := hsplit.right
  rw [htake] at hrest
  have hlen : ((addrRegion slot).drop reply.name.length).length = recvNamelen - reply.name.length := by
    rw [List.length_drop, hregion]
  simp only [recvNamelen, maxMsgInlineCap, inflightBufStride, payloadOffset_eq] at hname hpayload hlen h
  obtain ⟨out, hout⟩ : ∃ out, kernelRecv slot reply = some out := by
    apply putAll_eq_some
    simp [h, addrOffset_eq, payloadOffset_eq]
    omega
  refine ⟨out, hout, ?_, putAll_at [_, _] hout (by simp)⟩
  have hnamed : At out addrOffset reply.name :=
    putAll_at [_] hout (by simp [addrOffset_eq, payloadOffset_eq]; omega)
  have hkept := hrest.putAll hout (by simp [addrOffset_eq, payloadOffset_eq, hlen]; omega)
  have hat := (hnamed.append hkept).drop_take
  rwa [List.length_append, hlen, Nat.add_sub_cancel' hname] at hat

theorem recvMsg_eq (base : Nat) (h : slot.length = inflightBufStride) (hfits : reply.Fits buf)
    (hcap : ¬ maxMsgInlineCap < buf.storage.length) :
    ∃ out, recvMsg base slot buf reply = some (resolveRecvMsg out reply.result buf) ∧
      addrRegion out = reply.name ++ (addrRegion slot).drop reply.name.length ∧
      At out payloadOffset reply.payload := by
  obtain ⟨header, hheader, hregion⟩ := writeLayout_eq base h
    (min buf.storage.length maxMsgInlineCap) recvNamelen
  obtain ⟨out, hout, hname, hat⟩ := kernelRecv_eq ((putAll_length hheader).trans h) hfits.name
    (hfits.payload.trans (Nat.min_le_right _ _))
  rw [hregion] at hname
  refine ⟨out, ?_, hname, hat⟩
  simp only [recvMsg, if_neg hcap, buildRecvMsg, hheader, Option.bind_eq_bind, Option.bind_some, hout]
  rfl

theorem harvestMsgPayload_eq (hat : At slot payloadOffset reply.payload)
    (hpayload : reply.payload.length ≤ min buf.storage.length maxMsgInlineCap) :
    harvestMsgPayload slot reply.payload.length buf =
      ⟨reply.payload ++ buf.storage.drop reply.payload.length, reply.payload.length⟩ := by
  have hcount : min (min reply.payload.length maxMsgInlineCap) buf.storage.length =
      reply.payload.length := by omega
  rw [harvestMsgPayload, hcount, hat.drop_take]

theorem MsgReply.Fits.toNat_result (h : reply.Fits buf) (hresult : ¬ reply.result < 0) :
    reply.result.toNat = reply.payload.length := by
  have hcount := h.count (by omega)
  omega

theorem recvMsg_reads (base : Nat) (h : slot.length = inflightBufStride) (hfits : reply.Fits buf)
    (hcap : ¬ maxMsgInlineCap < buf.storage.length) (hresult : ¬ reply.result < 0) :
    recvMsg base slot buf reply = some ⟨.ok reply.payload.length,
      unpack (reply.name ++ (addrRegion slot).drop reply.name.length),
      ⟨reply.payload ++ buf.storage.drop reply.payload.length, reply.payload.length⟩⟩ := by
  obtain ⟨out, hout, hname, hat⟩ := recvMsg_eq base h hfits hcap
  rw [hout, resolveRecvMsg]
  simp only [bytesFromCqe, if_neg hresult, hfits.toNat_result hresult,
    harvestMsgPayload_eq hat hfits.payload, readSender, hname]

theorem recvMsg_eq_report (base : Nat) (h : slot.length = inflightBufStride)
    (hfits : reply.Fits buf) (hsettles : reply.Settles buf) :
    recvMsg base slot buf reply = some (reply.report buf) := by
  unfold MsgReply.report
  split
  case isTrue hcap => rw [recvMsg, if_pos hcap]
  case isFalse hcap =>
    by_cases hneg : reply.result < 0
    · obtain ⟨out, hout, _⟩ := recvMsg_eq base h hfits hcap
      simp only [hout, resolveRecvMsg, bytesFromCqe, if_pos hneg]
    · have hname := unpack_settled ((addrRegion slot).drop reply.name.length) []
        ((hsettles.resolve_left hcap).resolve_left hneg)
      rw [recvMsg_reads base h hfits hcap hneg, hname, List.append_nil]
      simp only [bytesFromCqe, if_neg hneg, hfits.toNat_result hneg]

/-- Anything may stand in a slot: a plain receive that fills it leaves what arrived. -/
theorem occupied_write (base : Nat) (h : slot.length = inflightBufStride) :
    occupied base [.write 0 slot] = some slot := by
  have hput : put (List.replicate inflightBufStride 0) 0 slot = some slot := by
    rw [put, if_pos (by simp [h])]
    simp [h]
  simp only [occupied, List.foldlM_cons, List.foldlM_nil, SlotUse.apply, hput, Option.bind_eq_bind,
    Option.bind_some]
  rfl

theorem exists_addrRegion (base : Nat) {region : List UInt8} (h : region.length = recvNamelen) :
    ∃ uses slot, occupied base uses = some slot ∧ addrRegion slot = region := by
  have hlen : (List.replicate addrOffset 0 ++ region ++ List.replicate maxMsgInlineCap 0).length =
      inflightBufStride := by
    simp only [List.length_append, List.length_replicate, h]
    rfl
  refine ⟨_, _, occupied_write base hlen, ?_⟩
  rw [addrRegion, List.append_assoc, List.drop_left' (by simp), List.take_left' h]

/-- A receive says the same after every two histories of its slot exactly when the kernel's answer
settles the sender, and then it says what the kernel answered. -/
theorem recvMsg_ignores_history_iff (hfits : reply.Fits buf) :
    ((∀ uses uses' slot slot', occupied base uses = some slot →
      occupied base uses' = some slot' →
      recvMsg base slot buf reply = recvMsg base slot' buf reply) ↔ reply.Settles buf) ∧
    (reply.Settles buf → ∀ uses slot,
      occupied base uses = some slot → recvMsg base slot buf reply = some (reply.report buf)) := by
  have hreport : reply.Settles buf → ∀ uses slot,
      occupied base uses = some slot → recvMsg base slot buf reply = some (reply.report buf) :=
    fun hsettles uses slot hslot => recvMsg_eq_report base (occupied_length hslot) hfits hsettles
  refine ⟨⟨fun hsame => ?_, ?_⟩, hreport⟩
  · by_contra hnot
    simp only [MsgReply.Settles, not_or, Bool.not_eq_true] at hnot
    obtain ⟨hcap, hresult, hname⟩ := hnot
    obtain ⟨rest, rest', hlen, hlen', hne⟩ := unpack_unsettled hname
    have hregion : ∀ rest, rest.length = 128 - reply.name.length →
        (reply.name ++ rest).length = recvNamelen := by
      intro rest hrest
      have hfit := hfits.name
      rw [List.length_append, hrest]
      unfold recvNamelen at hfit ⊢
      omega
    obtain ⟨uses, slot, hslot, hread⟩ := exists_addrRegion base (hregion rest hlen)
    obtain ⟨uses', slot', hslot', hread'⟩ := exists_addrRegion base (hregion rest' hlen')
    have houtput := hsame uses uses' slot slot' hslot hslot'
    rw [recvMsg_reads base (occupied_length hslot) hfits hcap hresult,
      recvMsg_reads base (occupied_length hslot') hfits hcap hresult, hread, hread',
      List.drop_left, List.drop_left] at houtput
    exact hne (congrArg (·.sender) (Option.some.inj houtput))
  · intro hsettles uses uses' slot slot' hslot hslot'
    rw [hreport hsettles uses slot hslot, hreport hsettles uses' slot' hslot']

theorem buildSendMsg_eq (base : Nat) (h : slot.length = inflightBufStride) {packed : List UInt8}
    {addr : SockAddr} {addrLen : Nat}
    (hpack : addr.packInto (List.replicate recvNamelen 0) = some (addrLen, packed))
    (hpacked : packed.length = recvNamelen) :
    ∃ out, buildSendMsg base slot [] addr = some out ∧ addrRegion out = packed := by
  obtain ⟨one, hone⟩ : ∃ one, put slot payloadOffset [] = some one :=
    put_eq_some (by simp [h, payloadOffset_eq, inflightBufStride])
  have honelen := (put_length hone).2.trans h
  obtain ⟨two, htwo⟩ : ∃ two, put one addrOffset packed = some two :=
    put_eq_some (by simp [honelen, hpacked, addrOffset_eq, recvNamelen, inflightBufStride])
  obtain ⟨out, hout, hregion⟩ := writeLayout_eq base ((put_length htwo).2.trans honelen) 0 addrLen
  have hat := (put_at htwo).drop_take
  rw [hpacked] at hat
  refine ⟨out, ?_, hregion.trans hat⟩
  simp only [buildSendMsg, List.length_nil, Nat.not_lt_zero, if_false, hone, Option.bind_eq_bind,
    Option.bind_some, writeSendHeader, hpack, htwo, hout]

def loopback : SockAddr := .v4 ⟨#v[127, 0, 0, 1], 53⟩

theorem occupied_sendMsg : ∃ slot, occupied 0 [.sendMsg [] loopback] = some slot ∧
    addrRegion slot = loopback.wire ++ List.replicate 112 0 := by
  have hpack : loopback.packInto (List.replicate recvNamelen 0) =
      some (16, loopback.wire ++ List.replicate 112 0) := packV4_eq _ List.length_replicate
  have hfresh : (List.replicate inflightBufStride (0 : UInt8)).length = inflightBufStride :=
    List.length_replicate
  obtain ⟨slot, hslot, hregion⟩ := buildSendMsg_eq 0 hfresh hpack
    (by simp [loopback, wire, recvNamelen])
  refine ⟨slot, ?_, hregion⟩
  simp only [occupied, List.foldlM_cons, List.foldlM_nil, SlotUse.apply, hslot, Option.bind_eq_bind,
    Option.bind_some]
  rfl

/-- The kernel names its peer in full; the slot was used for a `sendmsg`, or filled with ones. -/
theorem recvMsg_ignores_history_named : ∃ slot slot',
    occupied 0 [.sendMsg [] loopback] = some slot ∧
      occupied 0 [.write 0 (List.replicate inflightBufStride 1)] = some slot' ∧
      addrRegion slot ≠ addrRegion slot' ∧
      recvMsg 0 slot ⟨[0], 0⟩ ⟨0, loopback.wire, []⟩ =
        recvMsg 0 slot' ⟨[0], 0⟩ ⟨0, loopback.wire, []⟩ := by
  obtain ⟨slot, hslot, hregion⟩ := occupied_sendMsg
  have hslot' := @occupied_write (List.replicate inflightBufStride 1) 0 List.length_replicate
  have hfits : MsgReply.Fits ⟨0, loopback.wire, []⟩ ⟨[0], 0⟩ :=
    ⟨by decide, by decide, fun _ => rfl⟩
  refine ⟨slot, _, hslot, hslot', ?_, ?_⟩
  · rw [hregion]
    decide +kernel
  · exact (recvMsg_ignores_history_iff hfits).1.mpr (by decide) _ _ _ _ hslot hslot'

/-- The answer of a socket that names no sender. -/
def namelessReply : MsgReply := ⟨0, [], []⟩

/-- The peer of an earlier `sendmsg` is reported as the sender of a receive that has none; in a
slot nobody used the same answer names none. -/
theorem stale_peer_reported : ∃ slot out fresh,
    occupied 0 [.sendMsg [] loopback] = some slot ∧
      recvMsg 0 slot ⟨[0], 0⟩ namelessReply = some out ∧ out.sender = some loopback ∧
      recvMsg 0 (List.replicate inflightBufStride 0) ⟨[0], 0⟩ namelessReply = some fresh ∧
      fresh.sender = none := by
  have hfits : namelessReply.Fits ⟨[0], 0⟩ := ⟨by decide, by decide, fun _ => rfl⟩
  obtain ⟨slot, hslot, hregion⟩ := occupied_sendMsg
  have hout := recvMsg_reads 0 (occupied_length hslot) hfits (by decide) (by decide)
  have hfresh := @recvMsg_reads (List.replicate inflightBufStride 0) _ _ 0
    List.length_replicate hfits (by decide) (by decide)
  refine ⟨slot, _, _, hslot, hout, ?_, hfresh, by decide +kernel⟩
  change unpack (addrRegion slot) = some loopback
  rw [hregion, unpack_settled _ [] (by decide)]
  decide

end Receive

end Kwokka
