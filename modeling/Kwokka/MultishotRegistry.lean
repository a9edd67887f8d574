import Kwokka.CancelRecords

/-! The per-worker registries of multishot operations. One submission posts many
completions under one `user_data`, so each operation owns a slot with a queue of
results; a generation per slot tells a late completion from the slot's new
operation. -/

namespace Kwokka

def multishotFifoDepth : Nat := 64

def defaultRecvMultishotCap : Nat := 256

/-- `MultishotSlotKey` and `RecvMultishotSlotKey`. The `u64` generation of the source is the
number of frees the slot had seen, modulo `2 ^ 64`; the key keeps the number itself. -/
structure MultishotKey where
  slot : Nat
  occupancy : Nat
  workerId : Nat
deriving DecidableEq, Repr

def MultishotKey.generation (key : MultishotKey) : Nat := key.occupancy % 2 ^ 64

/-- What both registries keep for one slot. `terminal` is the stashed last completion of the
recv registry; the accept registry never fills it. -/
structure MultishotSlot (ρ : Type) where
  isOccupied : Bool
  isTerminated : Bool
  terminal : Option ρ
  isCancelPending : Bool
  frees : Nat
  ownerToken : Nat
  fifo : List ρ
deriving DecidableEq, Repr

namespace MultishotSlot

variable {ρ : Type}

def vacant : MultishotSlot ρ := ⟨false, false, none, false, 0, 0, []⟩

def generation (s : MultishotSlot ρ) : Nat := s.frees % 2 ^ 64

def opened (s : MultishotSlot ρ) (ownerToken : Nat) : MultishotSlot ρ :=
  { s with
    isOccupied := true
    isTerminated := false
    terminal := none
    isCancelPending := false
    ownerToken
    fifo := [] }

def freed (s : MultishotSlot ρ) : MultishotSlot ρ :=
  { s with
    isOccupied := false
    isTerminated := false
    terminal := none
    isCancelPending := false
    frees := s.frees + 1
    fifo := [] }

def contents (s : MultishotSlot ρ) : List ρ := s.fifo ++ s.terminal.toList

structure SameFrame (s s' : MultishotSlot ρ) : Prop where
  occupied : s'.isOccupied = s.isOccupied
  pending : s'.isCancelPending = s.isCancelPending
  frees : s'.frees = s.frees
  owner : s'.ownerToken = s.ownerToken

end MultishotSlot

/-- `MultishotSlab` and `RecvMultishotSlab`, up to the type of a queued result. -/
structure MultishotRegistry (ρ : Type) where
  slots : Nat → MultishotSlot ρ
  workerId : Nat
  cap : Nat

namespace MultishotRegistry

variable {ρ : Type} (r : MultishotRegistry ρ)

def new (workerId cap limit : Nat) : MultishotRegistry ρ :=
  ⟨fun _ => .vacant, workerId, min cap limit⟩

def set (i : Nat) (s : MultishotSlot ρ) : MultishotRegistry ρ :=
  { r with slots := Function.update r.slots i s }

def isLive (key : MultishotKey) : Bool :=
  key.workerId == r.workerId && decide (key.slot < r.cap) && (r.slots key.slot).isOccupied &&
    (r.slots key.slot).generation == key.generation

def isSlotLive (slot generationLow16 : Nat) : Bool :=
  decide (slot < r.cap) && (r.slots slot).isOccupied &&
    (r.slots slot).generation % 2 ^ 16 == generationLow16

def firstFree : Option Nat := (List.range r.cap).find? fun i => !(r.slots i).isOccupied

def allocate (ownerToken : Nat) : Option (MultishotKey × MultishotRegistry ρ) :=
  match r.firstFree with
  | none => none
  | some i => some (⟨i, (r.slots i).frees, r.workerId⟩, r.set i ((r.slots i).opened ownerToken))

def pop (key : MultishotKey) : Option (ρ × MultishotRegistry ρ) :=
  if r.isLive key then
    match (r.slots key.slot).fifo with
    | [] => none
    | v :: rest => some (v, r.set key.slot { r.slots key.slot with fifo := rest })
  else none

def takeTerminal (key : MultishotKey) : Option (ρ × MultishotRegistry ρ) :=
  if r.isLive key then
    match (r.slots key.slot).terminal with
    | none => none
    | some v => some (v, r.set key.slot { r.slots key.slot with terminal := none })
  else none

def owner (slot generationLow16 : Nat) : Option Nat :=
  if r.isSlotLive slot generationLow16 then some (r.slots slot).ownerToken else none

def isTerminated (key : MultishotKey) : Bool := r.isLive key && (r.slots key.slot).isTerminated

def markCancelPending (key : MultishotKey) : MultishotRegistry ρ :=
  if r.isLive key then r.set key.slot { r.slots key.slot with isCancelPending := true } else r

def free (key : MultishotKey) : MultishotRegistry ρ :=
  if r.isLive key then r.set key.slot (r.slots key.slot).freed else r

def isCancelPending (slot generationLow16 : Nat) : Bool :=
  r.isSlotLive slot generationLow16 && (r.slots slot).isCancelPending

def freeBySlot (slot generationLow16 : Nat) : MultishotRegistry ρ :=
  if r.isSlotLive slot generationLow16 then r.set slot (r.slots slot).freed else r

/-- The loop that pops a dropped stream's queue empty, with the queue's length as its bound. -/
def popAll (key : MultishotKey) : Nat → MultishotRegistry ρ → List ρ × MultishotRegistry ρ
  | 0, r => ([], r)
  | n + 1, r =>
    match r.pop key with
    | none => ([], r)
    | some (v, r') => ((v :: (popAll key n r').1), (popAll key n r').2)

/-- The stashed completion a dropped stream will never take, if there is one. -/
def takeStash (key : MultishotKey) : List ρ × MultishotRegistry ρ :=
  match r.takeTerminal key with
  | none => ([], r)
  | some (v, r') => ([v], r')

@[simp]
theorem set_cap (i : Nat) (s : MultishotSlot ρ) : (r.set i s).cap = r.cap := rfl

@[simp]
theorem set_workerId (i : Nat) (s : MultishotSlot ρ) : (r.set i s).workerId = r.workerId := rfl

@[simp]
theorem set_slots_self (i : Nat) (s : MultishotSlot ρ) : (r.set i s).slots i = s :=
  Function.update_self ..

theorem set_slots_of_ne {i j : Nat} (h : j ≠ i) (s : MultishotSlot ρ) :
    (r.set i s).slots j = r.slots j := Function.update_of_ne h ..

theorem forall_set {P : Nat → MultishotSlot ρ → Prop} {i : Nat} {s : MultishotSlot ρ}
    (h : ∀ j, P j (r.slots j)) (hs : P i s) (j : Nat) : P j ((r.set i s).slots j) := by
  by_cases hji : j = i
  · subst hji
    simpa using hs
  · rw [set_slots_of_ne r hji]
    exact h j

@[simp]
theorem set_set (i : Nat) (s s' : MultishotSlot ρ) : (r.set i s).set i s' = r.set i s' := by
  simp [set]

@[simp]
theorem set_same (i : Nat) : r.set i (r.slots i) = r := by simp [set]

variable {r} {key : MultishotKey} {slot generationLow16 : Nat}

theorem isLive_iff : r.isLive key = true ↔ key.workerId = r.workerId ∧ key.slot < r.cap ∧
    (r.slots key.slot).isOccupied = true ∧ (r.slots key.slot).generation = key.generation := by
  simp [isLive, and_assoc]

theorem isSlotLive_iff : r.isSlotLive slot generationLow16 = true ↔ slot < r.cap ∧
    (r.slots slot).isOccupied = true ∧
      (r.slots slot).generation % 2 ^ 16 = generationLow16 := by
  simp [isSlotLive, and_assoc]

theorem isLive_set_frame {s : MultishotSlot ρ} (h : (r.slots key.slot).SameFrame s) :
    (r.set key.slot s).isLive key = r.isLive key := by
  have hgen : s.generation = (r.slots key.slot).generation := by
    rw [MultishotSlot.generation, MultishotSlot.generation, h.frees]
  rw [isLive, set_slots_self, h.occupied, hgen]
  rfl

theorem firstFree_some {i : Nat} (h : r.firstFree = some i) :
    i < r.cap ∧ (r.slots i).isOccupied = false := by
  have hmem := List.mem_of_find?_eq_some h
  have hfree := List.find?_some h
  exact ⟨List.mem_range.mp hmem, by simpa using hfree⟩

theorem popAll_live {n : Nat} (hlive : r.isLive key = true)
    (hn : (r.slots key.slot).fifo.length ≤ n) :
    popAll key n r = ((r.slots key.slot).fifo,
      r.set key.slot { r.slots key.slot with fifo := [] }) := by
  induction n generalizing r with
  | zero =>
    have hnil : (r.slots key.slot).fifo = [] := List.length_eq_zero_iff.mp (Nat.le_zero.mp hn)
    have hself : { r.slots key.slot with fifo := [] } = r.slots key.slot := by rw [← hnil]
    rw [hself, hnil, set_same]
    rfl
  | succ n ih =>
    cases hfifo : (r.slots key.slot).fifo with
    | nil =>
      have hself : { r.slots key.slot with fifo := [] } = r.slots key.slot := by rw [← hfifo]
      rw [hself, set_same]
      simp [popAll, pop, hlive, hfifo]
    | cons v rest =>
      have hframe : (r.slots key.slot).SameFrame { r.slots key.slot with fifo := rest } :=
        ⟨rfl, rfl, rfl, rfl⟩
      have hlive' := (isLive_set_frame hframe).trans hlive
      have hlen : rest.length ≤ n := by simpa [hfifo] using hn
      simp [popAll, pop, hlive, hfifo, ih hlive' (by simpa using hlen)]

theorem popAll_stale {n : Nat} (hlive : r.isLive key = false) : popAll key n r = ([], r) := by
  cases n <;> simp [popAll, pop, hlive]

theorem takeStash_live (hlive : r.isLive key = true) :
    r.takeStash key = ((r.slots key.slot).terminal.toList,
      r.set key.slot { r.slots key.slot with terminal := none }) := by
  cases hterminal : (r.slots key.slot).terminal with
  | none =>
    have hself : { r.slots key.slot with terminal := none } = r.slots key.slot := by
      rw [← hterminal]
    rw [hself, set_same]
    simp [takeStash, takeTerminal, hlive, hterminal]
  | some => simp [takeStash, takeTerminal, hlive, hterminal]

theorem takeStash_stale (hlive : r.isLive key = false) : r.takeStash key = ([], r) := by
  simp [takeStash, takeTerminal, hlive]

end MultishotRegistry

def encodeMultishotSentinel (key : MultishotKey) : UInt64 :=
  multishotTokenBase ||| ((UInt64.ofNat key.generation &&& 0xFFFF) <<< 16) ||| UInt64.ofNat key.slot

def encodeRecvMultishotSentinel (key : MultishotKey) : UInt64 :=
  recvMultishotTokenBase ||| ((UInt64.ofNat key.generation &&& 0xFFFF) <<< 16) |||
    UInt64.ofNat key.slot

def multishotSentinelSlot (userData : UInt64) : Nat := (userData &&& 0xFFFF).toNat

def multishotSentinelGeneration (userData : UInt64) : Nat := ((userData >>> 16) &&& 0xFFFF).toNat

/-- `userData` is routed to the registry `base` stands for and names `key`'s slot there. -/
structure IsMarkerOf (base : UInt64) (key : MultishotKey) (userData : UInt64) : Prop where
  high : userData &&& cancelTokenHighMask = base
  slot : multishotSentinelSlot userData = key.slot
  generation : multishotSentinelGeneration userData = key.occupancy % 2 ^ 16

theorem isMarkerOf_marker {base : UInt64} {high : Nat} {key : MultishotKey} (hhigh : high < 2 ^ 32)
    (hbase : base.toNat = 2 ^ 32 * high) (hslot : key.slot < 2 ^ 16) :
    IsMarkerOf base key (base ||| ((UInt64.ofNat key.generation &&& 0xFFFF) <<< 16) |||
      UInt64.ofNat key.slot) := by
  have hval := @toNat_marker base high key.generation key.slot hbase hslot
  obtain ⟨hs, hg⟩ := marker_decode hslot hval
  have hlow : key.generation % 2 ^ 16 = key.occupancy % 2 ^ 16 :=
    Nat.mod_mod_of_dvd _ (by decide)
  exact ⟨marker_high hhigh (by omega) hbase hval, hs, hg.trans hlow⟩

theorem isMarkerOf_encodeMultishotSentinel {key : MultishotKey} (hslot : key.slot < 2 ^ 16) :
    IsMarkerOf multishotTokenBase key (encodeMultishotSentinel key) :=
  isMarkerOf_marker (by decide : 0xFFFFFFFE < 2 ^ 32) rfl hslot

theorem isMarkerOf_encodeRecvMultishotSentinel {key : MultishotKey} (hslot : key.slot < 2 ^ 16) :
    IsMarkerOf recvMultishotTokenBase key (encodeRecvMultishotSentinel key) :=
  isMarkerOf_marker (by decide : 0xFFFFFFFD < 2 ^ 32) rfl hslot

end Kwokka
