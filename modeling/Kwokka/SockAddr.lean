import Kwokka.Bytes

/-! Socket addresses and the bytes the kernel is handed for them. An address family
fixes the layout, except that a Unix name starts one byte later in the abstract
namespace than on the filesystem: the byte in between tells the two apart. -/

namespace Kwokka

open Bytes

def sunPathMax : Nat := 107

def sockaddrStorageLen : Nat := 128

def afUnix : Nat := 1

def afInet : Nat := 2

def afInet6 : Nat := 10

@[ext]
structure SocketAddrV4 where
  ip : Vector UInt8 4
  port : UInt16
deriving DecidableEq

@[ext]
structure SocketAddrV6 where
  ip : Vector UInt8 16
  port : UInt16
  flowinfo : UInt32
  scopeId : UInt32
deriving DecidableEq

inductive UnixAddr
  | ofPath (buf : Vector UInt8 sunPathMax) (len : UInt8)
  | ofAbstract (buf : Vector UInt8 sunPathMax) (len : UInt8)
  | unnamed
deriving DecidableEq

inductive AddrError
  | pathTooLong
  | abstractTooLong
deriving DecidableEq, Repr

inductive SockAddr
  | v4 (addr : SocketAddrV4)
  | v6 (addr : SocketAddrV6)
  | unix (addr : UnixAddr)
deriving DecidableEq

namespace UnixAddr

def padded (bytes : List UInt8) : Vector UInt8 sunPathMax :=
  Vector.ofFn fun i => bytes.getD i 0

def path (bytes : List UInt8) : Except AddrError UnixAddr :=
  if sunPathMax < bytes.length then .error .pathTooLong
  else .ok (ofPath (padded bytes) (UInt8.ofNat bytes.length))

def abstract_ (name : List UInt8) : Except AddrError UnixAddr :=
  if sunPathMax < name.length then .error .abstractTooLong
  else .ok (ofAbstract (padded name) (UInt8.ofNat name.length))

def pathBytes : UnixAddr → Option (List UInt8)
  | ofPath buf len => some (buf.toList.take len.toNat)
  | ofAbstract _ _ | unnamed => none

def abstractName : UnixAddr → Option (List UInt8)
  | ofAbstract buf len => some (buf.toList.take len.toNat)
  | ofPath _ _ | unnamed => none

end UnixAddr

section Pack

def beBytes (width value : Nat) : List UInt8 := (leBytes width value).reverse

/-- Native byte order is little-endian, as on the targets the runtime supports. A write past the
buffer is the slice panic, `none`. -/
def packV4 (addr : SocketAddrV4) (out : List UInt8) : Option (Nat × List UInt8) := do
  let out ← put (out.map fun _ => 0) 0 (leBytes 2 afInet)
  let out ← put out 2 (beBytes 2 addr.port.toNat)
  let out ← put out 4 addr.ip.toList
  return (16, out)

def packV6 (addr : SocketAddrV6) (out : List UInt8) : Option (Nat × List UInt8) := do
  let out ← put (out.map fun _ => 0) 0 (leBytes 2 afInet6)
  let out ← put out 2 (beBytes 2 addr.port.toNat)
  let out ← put out 4 (beBytes 4 addr.flowinfo.toNat)
  let out ← put out 8 addr.ip.toList
  let out ← put out 24 (leBytes 4 addr.scopeId.toNat)
  return (28, out)

def packUnix (addr : UnixAddr) (out : List UInt8) : Option (Nat × List UInt8) := do
  let out ← put (out.map fun _ => 0) 0 (leBytes 2 afUnix)
  match addr with
  | .ofPath buf len =>
    let bytes ← slice buf.toList 0 len.toNat
    let out ← put out 2 bytes
    return (2 + len.toNat + 1, out)
  | .ofAbstract buf len =>
    let bytes ← slice buf.toList 0 len.toNat
    let out ← put out 3 bytes
    return (2 + 1 + len.toNat, out)
  | .unnamed => return (2, out)

def SockAddr.packInto : SockAddr → List UInt8 → Option (Nat × List UInt8)
  | v4 addr, out => packV4 addr out
  | v6 addr, out => packV6 addr out
  | unix addr, out => packUnix addr out

end Pack

inductive SockAddr.Built : SockAddr → Prop
  | v4 (addr : SocketAddrV4) : Built (.v4 addr)
  | v6 (addr : SocketAddrV6) : Built (.v6 addr)
  | path {bytes : List UInt8} {addr : UnixAddr} (h : UnixAddr.path bytes = .ok addr) :
    Built (.unix addr)
  | abstract_ {name : List UInt8} {addr : UnixAddr} (h : UnixAddr.abstract_ name = .ok addr) :
    Built (.unix addr)
  | unnamed : Built (.unix .unnamed)

section Wire

/-- What follows the family of a Unix address: a path is ended by a zero byte, and a zero byte opens
an abstract name. -/
def UnixAddr.sunPath : UnixAddr → List UInt8
  | ofPath buf len => buf.toList.take len.toNat ++ [0]
  | ofAbstract buf len => 0 :: buf.toList.take len.toNat
  | unnamed => []

def SockAddr.wire : SockAddr → List UInt8
  | v4 addr =>
    leBytes 2 afInet ++ beBytes 2 addr.port.toNat ++ addr.ip.toList ++ List.replicate 8 0
  | v6 addr =>
    leBytes 2 afInet6 ++ beBytes 2 addr.port.toNat ++ beBytes 4 addr.flowinfo.toNat ++
      addr.ip.toList ++ leBytes 4 addr.scopeId.toNat
  | unix addr => leBytes 2 afUnix ++ addr.sunPath

@[simp]
theorem length_beBytes (width value : Nat) : (beBytes width value).length = width := by
  simp [beBytes]

theorem leBytes_inj {width a b : Nat} (ha : a < 256 ^ width) (hb : b < 256 ^ width)
    (h : leBytes width a = leBytes width b) : a = b := by
  have hnat := congrArg leNat h
  rwa [leNat_leBytes, leNat_leBytes, Nat.mod_eq_of_lt ha, Nat.mod_eq_of_lt hb] at hnat

theorem beBytes_inj {width a b : Nat} (ha : a < 256 ^ width) (hb : b < 256 ^ width)
    (h : beBytes width a = beBytes width b) : a = b :=
  leBytes_inj ha hb (List.reverse_injective h)

theorem toList_padded (bytes : List UInt8) (h : bytes.length ≤ sunPathMax) :
    (UnixAddr.padded bytes).toList.take bytes.length = bytes := by
  apply List.ext_getElem?
  intro i
  by_cases hi : i < bytes.length
  · rw [List.getElem?_take_of_lt hi, List.getElem?_eq_getElem (by simp; omega)]
    simp [UnixAddr.padded, hi]
  · rw [List.getElem?_eq_none (by simp; omega), List.getElem?_eq_none (by omega)]

theorem toNat_len {bytes : List UInt8} (h : bytes.length ≤ sunPathMax) :
    (UInt8.ofNat bytes.length).toNat = bytes.length := by
  unfold sunPathMax at h
  simp only [UInt8.toNat_ofNat']
  omega

theorem path_eq_ok {bytes : List UInt8} {addr : UnixAddr} (h : UnixAddr.path bytes = .ok addr) :
    bytes.length ≤ sunPathMax ∧
      addr = .ofPath (UnixAddr.padded bytes) (UInt8.ofNat bytes.length) := by
  unfold UnixAddr.path at h
  split at h
  · exact absurd h (by simp)
  · exact ⟨by omega, (Except.ok.inj h).symm⟩

theorem abstract_eq_ok {name : List UInt8} {addr : UnixAddr}
    (h : UnixAddr.abstract_ name = .ok addr) :
    name.length ≤ sunPathMax ∧
      addr = .ofAbstract (UnixAddr.padded name) (UInt8.ofNat name.length) := by
  unfold UnixAddr.abstract_ at h
  split at h
  · exact absurd h (by simp)
  · exact ⟨by omega, (Except.ok.inj h).symm⟩

variable {buf : Vector UInt8 sunPathMax} {len : UInt8} {out : List UInt8}

theorem length_wire_path (hlen : len.toNat ≤ sunPathMax) :
    (SockAddr.unix (.ofPath buf len)).wire.length = 2 + len.toNat + 1 := by
  simp [SockAddr.wire, UnixAddr.sunPath, hlen]
  omega

theorem length_wire_abstract (hlen : len.toNat ≤ sunPathMax) :
    (SockAddr.unix (.ofAbstract buf len)).wire.length = 2 + 1 + len.toNat := by
  simp [SockAddr.wire, UnixAddr.sunPath, hlen]
  omega

theorem put_past {xs ys : List UInt8} {offset room : Nat} (gap : Nat)
    (hoffset : offset = xs.length + gap) (h : gap + ys.length ≤ room) :
    put (xs ++ List.replicate room 0) offset ys =
      some (xs ++ List.replicate gap 0 ++ ys ++ List.replicate (room - (gap + ys.length)) 0) := by
  subst hoffset
  have htake : (xs ++ List.replicate room 0).take (xs.length + gap) =
      xs ++ List.replicate gap (0 : UInt8) := by
    rw [List.take_length_add_append, List.take_replicate, Nat.min_eq_left (by omega)]
  have hdrop : (xs ++ List.replicate room 0).drop (xs.length + gap + ys.length) =
      List.replicate (room - (gap + ys.length)) (0 : UInt8) := by
    rw [Nat.add_assoc, List.drop_length_add_append, List.drop_replicate]
  rw [put, if_pos (by simp; omega), htake, hdrop]

theorem fill_eq (h : out.length = sockaddrStorageLen) :
    (out.map fun _ => (0 : UInt8)) = [] ++ List.replicate 128 0 := by
  rw [List.map_const', h, List.nil_append]
  rfl

theorem packV4_eq (addr : SocketAddrV4) (h : out.length = sockaddrStorageLen) :
    packV4 addr out = some (16, (SockAddr.v4 addr).wire ++ List.replicate 112 0) := by
  unfold packV4
  rw [fill_eq h, put_past 0 (by simp) (by simp)]
  simp only [Option.bind_eq_bind, Option.bind_some]
  rw [put_past 0 (by simp) (by simp)]
  simp only [Option.bind_some]
  rw [put_past 0 (by simp) (by simp)]
  simp [SockAddr.wire]

theorem packV6_eq (addr : SocketAddrV6) (h : out.length = sockaddrStorageLen) :
    packV6 addr out = some (28, (SockAddr.v6 addr).wire ++ List.replicate 100 0) := by
  unfold packV6
  rw [fill_eq h, put_past 0 (by simp) (by simp)]
  simp only [Option.bind_eq_bind, Option.bind_some]
  rw [put_past 0 (by simp) (by simp)]
  simp only [Option.bind_some]
  rw [put_past 0 (by simp) (by simp)]
  simp only [Option.bind_some]
  rw [put_past 0 (by simp) (by simp)]
  simp only [Option.bind_some]
  rw [put_past 0 (by simp) (by simp)]
  simp [SockAddr.wire]

theorem name_slice (buf : Vector UInt8 sunPathMax) (hlen : len.toNat ≤ sunPathMax) :
    slice buf.toList 0 len.toNat = some (buf.toList.take len.toNat) ∧
      (buf.toList.take len.toNat).length = len.toNat ∧ len.toNat ≤ 107 := by
  have hroom : len.toNat ≤ 107 := hlen
  rw [slice, if_pos (by simp; omega)]
  exact ⟨rfl, by simp; omega, hroom⟩

theorem packUnix_path_eq (hlen : len.toNat ≤ sunPathMax) (h : out.length = sockaddrStorageLen) :
    packUnix (.ofPath buf len) out = some (2 + len.toNat + 1,
      (SockAddr.unix (.ofPath buf len)).wire ++ List.replicate (125 - len.toNat) 0) := by
  obtain ⟨hslice, hname, hroom⟩ := name_slice buf hlen
  have hzeros : List.replicate (126 - len.toNat) (0 : UInt8) =
      [0] ++ List.replicate (125 - len.toNat) 0 := by
    rw [show 126 - len.toNat = 125 - len.toNat + 1 by omega, List.replicate_succ]
    rfl
  unfold packUnix
  rw [fill_eq h, put_past 0 (by simp) (by simp)]
  simp only [Option.bind_eq_bind, Option.bind_some, hslice]
  rw [put_past 0 (by simp) (by simp only [hname, length_leBytes]; omega)]
  simp only [hname, length_leBytes]
  rw [show 128 - (0 + 2) - (0 + len.toNat) = 126 - len.toNat by omega, hzeros]
  simp [SockAddr.wire, UnixAddr.sunPath]

theorem packUnix_abstract_eq (hlen : len.toNat ≤ sunPathMax) (h : out.length = sockaddrStorageLen) :
    packUnix (.ofAbstract buf len) out = some (2 + 1 + len.toNat,
      (SockAddr.unix (.ofAbstract buf len)).wire ++ List.replicate (125 - len.toNat) 0) := by
  obtain ⟨hslice, hname, hroom⟩ := name_slice buf hlen
  unfold packUnix
  rw [fill_eq h, put_past 0 (by simp) (by simp)]
  simp only [Option.bind_eq_bind, Option.bind_some, hslice]
  rw [put_past 1 (by simp) (by simp only [hname, length_leBytes]; omega)]
  simp only [hname, length_leBytes]
  rw [show 128 - (0 + 2) - (1 + len.toNat) = 125 - len.toNat by omega]
  simp [SockAddr.wire, UnixAddr.sunPath]

theorem packUnix_unnamed_eq (h : out.length = sockaddrStorageLen) :
    packUnix .unnamed out = some (2, (SockAddr.unix .unnamed).wire ++ List.replicate 126 0) := by
  unfold packUnix
  rw [fill_eq h, put_past 0 (by simp) (by simp)]
  simp [SockAddr.wire, UnixAddr.sunPath]

theorem SockAddr.Built.packInto_eq {a : SockAddr} (ha : a.Built)
    (h : out.length = sockaddrStorageLen) :
    ∃ rest, a.packInto out = some (a.wire.length, a.wire ++ rest) := by
  cases ha with
  | v4 addr =>
    have hwire : (SockAddr.v4 addr).wire.length = 16 := by simp [SockAddr.wire]
    rw [hwire]
    exact ⟨_, packV4_eq addr h⟩
  | v6 addr =>
    have hwire : (SockAddr.v6 addr).wire.length = 28 := by simp [SockAddr.wire]
    rw [hwire]
    exact ⟨_, packV6_eq addr h⟩
  | @path bytes addr hpath =>
    obtain ⟨hlen, rfl⟩ := path_eq_ok hpath
    rw [← toNat_len hlen] at hlen
    rw [length_wire_path hlen]
    exact ⟨_, packUnix_path_eq hlen h⟩
  | @abstract_ name addr hname =>
    obtain ⟨hlen, rfl⟩ := abstract_eq_ok hname
    rw [← toNat_len hlen] at hlen
    rw [length_wire_abstract hlen]
    exact ⟨_, packUnix_abstract_eq hlen h⟩
  | unnamed => exact ⟨_, packUnix_unnamed_eq h⟩

end Wire

section Injective

/-- The path with its terminator reads as the abstract name behind its marker. -/
def SockAddr.aliases : SockAddr → SockAddr → Bool
  | unix a, unix b =>
    a.pathBytes.any fun bytes => b.abstractName.any fun name => bytes ++ [0] == 0 :: name
  | _, _ => false

theorem SockAddr.aliases_path {buf buf' : Vector UInt8 sunPathMax} {len len' : UInt8} :
    (unix (.ofPath buf len)).aliases (.unix (.ofAbstract buf' len')) =
      ((UnixAddr.ofPath buf len).sunPath == (UnixAddr.ofAbstract buf' len').sunPath) := rfl

variable {bytes : List UInt8}

theorem sunPath_path (hlen : bytes.length ≤ sunPathMax) :
    (UnixAddr.ofPath (UnixAddr.padded bytes) (UInt8.ofNat bytes.length)).sunPath = bytes ++ [0] := by
  rw [UnixAddr.sunPath, toNat_len hlen, toList_padded bytes hlen]

theorem sunPath_abstract {name : List UInt8} (hlen : name.length ≤ sunPathMax) :
    (UnixAddr.ofAbstract (UnixAddr.padded name) (UInt8.ofNat name.length)).sunPath = 0 :: name := by
  rw [UnixAddr.sunPath, toNat_len hlen, toList_padded name hlen]

theorem sunPath_inj {a b : UnixAddr} (ha : (SockAddr.unix a).Built) (hb : (SockAddr.unix b).Built)
    (hab : (SockAddr.unix a).aliases (.unix b) = false)
    (hba : (SockAddr.unix b).aliases (.unix a) = false) (h : a.sunPath = b.sunPath) : a = b := by
  cases ha with
  | @path bytes _ hpath =>
    obtain ⟨hlen, rfl⟩ := path_eq_ok hpath
    cases hb with
    | @path bytes' _ hpath' =>
      obtain ⟨hlen', rfl⟩ := path_eq_ok hpath'
      rw [sunPath_path hlen, sunPath_path hlen'] at h
      rw [List.append_cancel_right h]
    | @abstract_ name _ hname =>
      obtain ⟨_, rfl⟩ := abstract_eq_ok hname
      rw [SockAddr.aliases_path, beq_eq_false_iff_ne] at hab
      exact absurd h hab
    | unnamed => exact absurd h (by simp [UnixAddr.sunPath])
  | @abstract_ name _ hname =>
    obtain ⟨hlen, rfl⟩ := abstract_eq_ok hname
    cases hb with
    | @path bytes _ hpath =>
      obtain ⟨_, rfl⟩ := path_eq_ok hpath
      rw [SockAddr.aliases_path, beq_eq_false_iff_ne] at hba
      exact absurd h.symm hba
    | @abstract_ name' _ hname' =>
      obtain ⟨hlen', rfl⟩ := abstract_eq_ok hname'
      rw [sunPath_abstract hlen, sunPath_abstract hlen'] at h
      rw [(List.cons.inj h).2]
    | unnamed => exact absurd h (by simp [UnixAddr.sunPath])
  | unnamed =>
    cases hb with
    | @path bytes _ hpath =>
      obtain ⟨hlen, rfl⟩ := path_eq_ok hpath
      exact absurd h (by simp [UnixAddr.sunPath])
    | @abstract_ name _ hname =>
      obtain ⟨hlen, rfl⟩ := abstract_eq_ok hname
      exact absurd h (by simp [UnixAddr.sunPath])
    | unnamed => rfl

theorem toNat_port_inj {p q : UInt16} (h : beBytes 2 p.toNat = beBytes 2 q.toNat) : p = q :=
  UInt16.toNat_inj.mp (beBytes_inj p.toNat_lt q.toNat_lt h)

theorem wire_v4_inj {a b : SocketAddrV4} (h : (SockAddr.v4 a).wire = (SockAddr.v4 b).wire) :
    a = b := by
  obtain ⟨h, -⟩ := List.append_inj h (by simp)
  obtain ⟨h, hip⟩ := List.append_inj h (by simp)
  obtain ⟨-, hport⟩ := List.append_inj h (by simp)
  exact SocketAddrV4.ext (Vector.toList_inj.mp hip) (toNat_port_inj hport)

theorem wire_v6_inj {a b : SocketAddrV6} (h : (SockAddr.v6 a).wire = (SockAddr.v6 b).wire) :
    a = b := by
  obtain ⟨h, hscope⟩ := List.append_inj h (by simp)
  obtain ⟨h, hip⟩ := List.append_inj h (by simp)
  obtain ⟨h, hflow⟩ := List.append_inj h (by simp)
  obtain ⟨-, hport⟩ := List.append_inj h (by simp)
  have hflow : a.flowinfo = b.flowinfo :=
    UInt32.toNat_inj.mp (beBytes_inj a.flowinfo.toNat_lt b.flowinfo.toNat_lt hflow)
  have hscope : a.scopeId = b.scopeId :=
    UInt32.toNat_inj.mp (leBytes_inj a.scopeId.toNat_lt b.scopeId.toNat_lt hscope)
  exact SocketAddrV6.ext (Vector.toList_inj.mp hip) (toNat_port_inj hport) hflow hscope

def SockAddr.familyBytes : SockAddr → List UInt8
  | v4 _ => leBytes 2 afInet
  | v6 _ => leBytes 2 afInet6
  | unix _ => leBytes 2 afUnix

theorem wire_family (a : SockAddr) : a.wire.take 2 = a.familyBytes := by
  cases a <;> rfl

theorem wire_inj {a b : SockAddr} (ha : a.Built) (hb : b.Built)
    (hab : a.aliases b = false) (hba : b.aliases a = false) (h : a.wire = b.wire) : a = b := by
  have hfamily : a.familyBytes = b.familyBytes := by rw [← wire_family, ← wire_family, h]
  match a, b with
  | .v4 a, .v4 b => rw [wire_v4_inj h]
  | .v6 a, .v6 b => rw [wire_v6_inj h]
  | .unix a, .unix b => rw [sunPath_inj ha hb hab hba (List.append_cancel_left h)]
  | .v4 _, .v6 _ | .v4 _, .unix _ | .v6 _, .v4 _ | .v6 _, .unix _ | .unix _, .v4 _
  | .unix _, .v6 _ => simp [SockAddr.familyBytes, leBytes, afInet, afInet6, afUnix] at hfamily

theorem SockAddr.wire_of_aliases {a b : SockAddr} (h : a.aliases b = true) :
    a.wire = b.wire ∧ a ≠ b := by
  match a, b with
  | .unix (.ofPath _ _), .unix (.ofAbstract _ _) =>
    rw [SockAddr.aliases_path, beq_iff_eq] at h
    exact ⟨congrArg (leBytes 2 afUnix ++ ·) h, nofun⟩

theorem SockAddr.Built.packs_same_iff {a b : SockAddr} (ha : a.Built) (hb : b.Built)
    {bufA bufB : List UInt8} (hbufA : bufA.length = sockaddrStorageLen)
    (hbufB : bufB.length = sockaddrStorageLen) :
    (∃ n outA outB, a.packInto bufA = some (n, outA) ∧ b.packInto bufB = some (n, outB) ∧
      outA.take n = outB.take n) ↔ a.wire = b.wire := by
  obtain ⟨restA, hwireA⟩ := ha.packInto_eq hbufA
  obtain ⟨restB, hwireB⟩ := hb.packInto_eq hbufB
  constructor
  · rintro ⟨n, outA, outB, hpackA, hpackB, hsame⟩
    obtain ⟨rfl, rfl⟩ := Prod.mk.inj (Option.some.inj (hpackA.symm.trans hwireA))
    obtain ⟨hlen, rfl⟩ := Prod.mk.inj (Option.some.inj (hpackB.symm.trans hwireB))
    rwa [List.take_left, hlen, List.take_left] at hsame
  · intro hwire
    refine ⟨a.wire.length, _, _, hwireA, hwire ▸ hwireB, ?_⟩
    rw [List.take_left, hwire, List.take_left]

/-- The bytes of two addresses tell them apart, except for a path and an abstract name that read
the same behind the family. -/
theorem packInto_injective_iff {a b : SockAddr} (ha : a.Built) (hb : b.Built)
    {bufA bufB : List UInt8} (hbufA : bufA.length = sockaddrStorageLen)
    (hbufB : bufB.length = sockaddrStorageLen) :
    ((∃ n outA outB, a.packInto bufA = some (n, outA) ∧ b.packInto bufB = some (n, outB) ∧
      outA.take n = outB.take n) → a = b) ↔ a.aliases b = false ∧ b.aliases a = false := by
  rw [ha.packs_same_iff hb hbufA hbufB]
  constructor
  · intro hinj
    constructor
    · refine Bool.eq_false_iff.mpr fun halias => ?_
      obtain ⟨hwire, hne⟩ := SockAddr.wire_of_aliases halias
      exact hne (hinj hwire)
    · refine Bool.eq_false_iff.mpr fun halias => ?_
      obtain ⟨hwire, hne⟩ := SockAddr.wire_of_aliases halias
      exact hne (hinj hwire.symm).symm
  · rintro ⟨hab, hba⟩
    exact wire_inj ha hb hab hba

/-- The path `"\0kwokka"`, which names the abstract socket `"kwokka\0"`. -/
def nulPath : UnixAddr := .ofPath (UnixAddr.padded [0, 107, 119, 111, 107, 107, 97]) 7

def nulName : UnixAddr := .ofAbstract (UnixAddr.padded [107, 119, 111, 107, 107, 97, 0]) 7

/-- The abstract name `"kwokkas"`, which differs from that path in its last byte. -/
def nearName : UnixAddr := .ofAbstract (UnixAddr.padded [107, 119, 111, 107, 107, 97, 115]) 7

theorem packInto_injective_nearName :
    UnixAddr.path [0, 107, 119, 111, 107, 107, 97] = .ok nulPath ∧
      UnixAddr.abstract_ [107, 119, 111, 107, 107, 97, 115] = .ok nearName ∧
      ((∃ n outA outB, (SockAddr.unix nulPath).packInto (List.replicate 128 0) = some (n, outA) ∧
        (SockAddr.unix nearName).packInto (List.replicate 128 255) = some (n, outB) ∧
        outA.take n = outB.take n) → SockAddr.unix nulPath = SockAddr.unix nearName) :=
  have hpath : UnixAddr.path [0, 107, 119, 111, 107, 107, 97] = .ok nulPath := rfl
  have hname : UnixAddr.abstract_ [107, 119, 111, 107, 107, 97, 115] = .ok nearName := rfl
  ⟨hpath, hname, (packInto_injective_iff (.path hpath) (.abstract_ hname)
    (List.length_replicate ..) (List.length_replicate ..)).mpr (by decide +kernel)⟩

theorem nulPath_packs_as_abstract :
    UnixAddr.path [0, 107, 119, 111, 107, 107, 97] = .ok nulPath ∧
      UnixAddr.abstract_ [107, 119, 111, 107, 107, 97, 0] = .ok nulName ∧
      (SockAddr.unix nulPath).packInto (List.replicate 128 0) =
        (SockAddr.unix nulName).packInto (List.replicate 128 0) ∧
      ((SockAddr.unix nulPath).packInto (List.replicate 128 0)).isSome ∧
      SockAddr.unix nulPath ≠ SockAddr.unix nulName := by
  refine ⟨rfl, rfl, ?_, ?_, by simp [nulPath, nulName]⟩
  · decide +kernel
  · decide +kernel

end Injective

end Kwokka
