import Kwokka.Outcome
import Kwokka.Runs
import Kwokka.Slab
import Mathlib.Data.List.Basic
import Mathlib.Data.Nat.Bitwise

/-! The bump arena: a cursor over one block of memory, rounded up to each request's
alignment, and a registry of destructors that a reset runs from the last one back. -/

namespace Kwokka

def isizeMax : Nat := 2 ^ 63 - 1

def isPowerOfTwo (n : Nat) : Prop := 2 ^ n.log2 = n

instance (n : Nat) : Decidable (isPowerOfTwo n) := inferInstanceAs (Decidable (2 ^ n.log2 = n))

/-- A standard-library `Layout`: the size, rounded up to the alignment, is an `isize`. -/
structure AllocLayout where
  size : Nat
  align : Nat
  power : isPowerOfTwo align
  fits : size + (align - 1) ≤ isizeMax
deriving DecidableEq

def AllocLayout.fromSizeAlign (size align : Nat) : Option AllocLayout :=
  if h : isPowerOfTwo align ∧ size + (align - 1) ≤ isizeMax then some ⟨size, align, h.1, h.2⟩
  else none

inductive ArenaPhase
  | build
  | frozen
deriving DecidableEq, Repr

inductive ArenaError
  | zeroCapacity
  | invalidAlignment (alignment : Nat)
  | exhausted (requested available : Nat)
  | dropRegistryFull (capacity : Nat)
  | wrongPhase (current : ArenaPhase)
deriving DecidableEq, Repr

structure DropEntry where
  ptr : Nat
  dropFn : Nat
deriving DecidableEq, Repr

/-- Addresses are numbers; what a `usize` cannot hold is `none`. -/
structure BumpAllocator where
  buffer : Nat
  capacity : Nat
  alignment : Nat
  cursor : Nat
  drops : List DropEntry
  dropCapacity : Nat
  phase : ArenaPhase
  generation : Generation
deriving DecidableEq

def checkedSub (a b : Nat) : Option Nat := if b ≤ a then some (a - b) else none

/-- `(addr + align - 1) & !(align - 1)`. -/
def alignUp (addr align : Nat) : Option Nat := do
  let bumped ← checkedAdd addr align
  let bumped ← checkedSub bumped 1
  return bumped &&& (2 ^ 64 - 1 - (align - 1))

namespace BumpAllocator

/-- `raw` is the block the global allocator returned. -/
def fromBuilder (raw bytes dropSlots alignment : Nat) : Except ArenaError BumpAllocator :=
  if bytes = 0 then .error .zeroCapacity
  else if ¬ isPowerOfTwo alignment then .error (.invalidAlignment alignment)
  else
    match AllocLayout.fromSizeAlign bytes alignment with
    | none => .error (.exhausted bytes 0)
    | some _ =>
      .ok { buffer := raw, capacity := bytes, alignment, cursor := 0, drops := [],
            dropCapacity := dropSlots, phase := .build, generation := 0 }

def exhausted (arena : BumpAllocator) (requested : Nat) : Option ArenaError :=
  (checkedSub arena.capacity arena.cursor).map (.exhausted requested)

variable (arena : BumpAllocator)

def refuse (requested : Nat) :
    Option (Except ArenaError Nat × BumpAllocator) :=
  (arena.exhausted requested).map fun error => (.error error, arena)

def allocRaw (layout : AllocLayout) :
    Option (Except ArenaError Nat × BumpAllocator) :=
  if arena.phase ≠ .build then some (.error (.wrongPhase arena.phase), arena)
  else if arena.alignment < layout.align then
    (checkedAdd layout.size layout.align).bind arena.refuse
  else
    (alignUp arena.cursor layout.align).bind fun aligned =>
      match checkedAdd aligned layout.size with
      | none => arena.refuse layout.size
      | some newCursor =>
        if arena.capacity < newCursor then (checkedSub newCursor arena.cursor).bind arena.refuse
        else
          (checkedAdd arena.buffer aligned).map fun ptr =>
            (.ok ptr, { arena with cursor := newCursor })

def alloc (layout : AllocLayout) :
    Option (Except ArenaError Nat × BumpAllocator) :=
  arena.allocRaw layout

def allocWithDrop (layout : AllocLayout) (dropFn : Nat) :
    Option (Except ArenaError Nat × BumpAllocator) :=
  if arena.dropCapacity ≤ arena.drops.length then
    some (.error (.dropRegistryFull arena.dropCapacity), arena)
  else
    (arena.allocRaw layout).map fun
      | (.ok ptr, arena) => (.ok ptr, { arena with drops := arena.drops ++ [⟨ptr, dropFn⟩] })
      | (.error error, arena) => (.error error, arena)

/-- `count` values of a type with the layout `elem`. -/
def allocSlice (elem : AllocLayout) (count : Nat) :
    Option (Except ArenaError Nat × BumpAllocator) :=
  match checkedMul elem.size count with
  | none => arena.refuse (2 ^ 64 - 1)
  | some bytes =>
    match AllocLayout.fromSizeAlign bytes elem.align with
    | none => arena.refuse bytes
    | some layout => arena.allocRaw layout

def freeze : BumpAllocator := { arena with phase := .frozen }

def popDrops : Nat → List DropEntry → List DropEntry × List DropEntry
  | 0, drops => ([], drops)
  | fuel + 1, drops =>
    match drops.getLast? with
    | none => ([], drops)
    | some entry =>
      let rest := popDrops fuel drops.dropLast
      (entry :: rest.1, rest.2)

def runDrops : List DropEntry × BumpAllocator :=
  let popped := popDrops arena.drops.length arena.drops
  (popped.1, { arena with drops := popped.2 })

def reset : List DropEntry × BumpAllocator :=
  let (calls, arena) := arena.runDrops
  (calls, { arena with cursor := 0, phase := .build, generation := arena.generation.next })

end BumpAllocator

/-- A call of `alloc`, `alloc_with_drop` or `alloc_slice`. -/
inductive AllocRequest
  | value (layout : AllocLayout)
  | withDrop (layout : AllocLayout) (dropFn : Nat)
  | slice (elem : AllocLayout) (count : Nat)
deriving DecidableEq

namespace AllocRequest

def size : AllocRequest → Nat
  | value layout | withDrop layout _ => layout.size
  | slice elem count => elem.size * count

def align : AllocRequest → Nat
  | value layout | withDrop layout _ => layout.align
  | slice elem _ => elem.align

def drops (ptr : Nat) : AllocRequest → List DropEntry
  | withDrop _ dropFn => [⟨ptr, dropFn⟩]
  | value _ | slice _ _ => []

end AllocRequest

def BumpAllocator.answer (arena : BumpAllocator) :
    AllocRequest → Option (Except ArenaError Nat × BumpAllocator)
  | .value layout => arena.alloc layout
  | .withDrop layout dropFn => arena.allocWithDrop layout dropFn
  | .slice elem count => arena.allocSlice elem count

section Layout

theorem and_mask {x k : Nat} (hx : x < 2 ^ 64) (hk : k ≤ 64) :
    x &&& (2 ^ 64 - 1 - (2 ^ k - 1)) = x / 2 ^ k * 2 ^ k := by
  have hpow : 2 ^ k ≤ 2 ^ 64 := Nat.pow_le_pow_right (by decide) hk
  have hmask : 2 ^ 64 - 1 - (2 ^ k - 1) = 2 ^ 64 - (2 ^ k - 1 + 1) := by omega
  apply Nat.eq_of_testBit_eq
  intro i
  rw [hmask, Nat.testBit_and, Nat.testBit_two_pow_sub_succ (by omega),
    Nat.testBit_two_pow_sub_one, Nat.testBit_mul_two_pow, Nat.testBit_div_two_pow]
  by_cases hi : k ≤ i
  · have hback : k + (i - k) = i := by omega
    by_cases h64 : i < 64
    · simp [hi, h64]
    · have hhigh : x.testBit i = false := Nat.testBit_lt_two_pow
        (Nat.lt_of_lt_of_le hx (Nat.pow_le_pow_right (by decide) (by omega)))
      simp [hi, h64, hhigh]
  · simp [hi]
    omega

theorem isPowerOfTwo.pos {n : Nat} (h : isPowerOfTwo n) : 0 < n := by
  rw [← h]
  exact Nat.two_pow_pos _

theorem isPowerOfTwo.dvd {m n : Nat} (hm : isPowerOfTwo m) (hn : isPowerOfTwo n) (h : m ≤ n) :
    m ∣ n := by
  rw [← hm, ← hn] at h ⊢
  exact Nat.pow_dvd_pow 2 ((Nat.pow_le_pow_iff_right (by decide)).mp h)

theorem alignUp_eq {addr align : Nat} (hpower : isPowerOfTwo align) (h : addr + align < 2 ^ 64) :
    ∃ aligned, alignUp addr align = some aligned ∧ align ∣ aligned ∧ addr ≤ aligned ∧
      aligned < addr + align := by
  have hpos := hpower.pos
  have hk : align.log2 ≤ 64 := by
    have hle : 2 ^ align.log2 ≤ 2 ^ 64 := by rw [hpower]; omega
    exact (Nat.pow_le_pow_iff_right (by decide)).mp hle
  have hmask : (addr + align - 1) &&& (2 ^ 64 - 1 - (align - 1)) =
      (addr + align - 1) / align * align := by
    have hand := and_mask (show addr + align - 1 < 2 ^ 64 by omega) hk
    rwa [hpower] at hand
  have hdiv := Nat.div_add_mod (addr + align - 1) align
  have hmod := Nat.mod_lt (addr + align - 1) hpos
  refine ⟨(addr + align - 1) / align * align, ?_, Nat.dvd_mul_left _ _, ?_, ?_⟩
  · simp only [alignUp, checkedAdd_of_lt h, checkedSub, Option.bind_eq_bind, Option.bind_some,
      if_pos (show 1 ≤ addr + align by omega), hmask]
    rfl
  · rw [Nat.mul_comm]
    omega
  · rw [Nat.mul_comm]
    omega

theorem fromSizeAlign_eq_some {size align : Nat} {layout : AllocLayout}
    (h : AllocLayout.fromSizeAlign size align = some layout) :
    layout.size = size ∧ layout.align = align := by
  unfold AllocLayout.fromSizeAlign at h
  split at h
  · cases h
    exact ⟨rfl, rfl⟩
  · exact absurd h (by simp)

end Layout

namespace BumpAllocator

structure Sound (arena : BumpAllocator) : Prop where
  power : isPowerOfTwo arena.alignment
  fits : arena.capacity + (arena.alignment - 1) ≤ isizeMax
  cursor_le : arena.cursor ≤ arena.capacity
  aligned : arena.alignment ∣ arena.buffer
  block : arena.buffer + arena.capacity < 2 ^ 64

variable {arena : BumpAllocator}

theorem refuse_eq (hs : arena.Sound) (requested : Nat) :
    ∃ error, arena.refuse requested = some (.error error, arena) := by
  refine ⟨.exhausted requested (arena.capacity - arena.cursor), ?_⟩
  simp [refuse, exhausted, checkedSub, hs.cursor_le]

theorem allocRaw_cases (hs : arena.Sound) (layout : AllocLayout) :
    (∃ error, arena.allocRaw layout = some (.error error, arena)) ∨
    ∃ ptr cursor, arena.allocRaw layout = some (.ok ptr, { arena with cursor }) ∧
      layout.align ∣ ptr ∧ arena.buffer + arena.cursor ≤ ptr ∧
      ptr + layout.size = arena.buffer + cursor ∧ cursor ≤ arena.capacity := by
  have hlayout := layout.fits
  have hfits := hs.fits
  have hcursor := hs.cursor_le
  have hblock := hs.block
  unfold isizeMax at hlayout hfits
  unfold allocRaw
  split
  · exact .inl ⟨_, rfl⟩
  · split
    · rw [checkedAdd_of_lt (by omega), Option.bind_some]
      exact .inl (refuse_eq hs _)
    · next halign =>
      obtain ⟨aligned, haligned, hdvd, hle, hlt⟩ :=
        alignUp_eq layout.power (show arena.cursor + layout.align < 2 ^ 64 by omega)
      rw [haligned, Option.bind_some]
      split
      · exact .inl (refuse_eq hs _)
      · next newCursor hnew =>
        have hnew := checkedAdd_eq_some hnew
        split
        · rw [checkedSub, if_pos (by omega), Option.bind_some]
          exact .inl (refuse_eq hs _)
        · refine .inr ⟨arena.buffer + aligned, newCursor, ?_, ?_, by omega, by omega, by omega⟩
          · rw [checkedAdd_of_lt (by omega)]
            rfl
          · exact Nat.dvd_add ((layout.power.dvd hs.power (by omega)).trans hs.aligned) hdvd

theorem answer_cases (hs : arena.Sound) (request : AllocRequest) :
    (∃ error, arena.answer request = some (.error error, arena)) ∨
    ∃ ptr cursor, arena.answer request =
        some (.ok ptr, { arena with cursor, drops := arena.drops ++ request.drops ptr }) ∧
      request.align ∣ ptr ∧ arena.buffer + arena.cursor ≤ ptr ∧
      ptr + request.size = arena.buffer + cursor ∧ cursor ≤ arena.capacity := by
  cases request with
  | value layout =>
    obtain hfail | ⟨ptr, cursor, hok, hrest⟩ := allocRaw_cases hs layout
    · exact .inl hfail
    · refine .inr ⟨ptr, cursor, ?_, hrest⟩
      simpa [answer, alloc, AllocRequest.drops] using hok
  | withDrop layout =>
    unfold answer allocWithDrop
    dsimp only
    split
    · exact .inl ⟨_, rfl⟩
    · obtain ⟨error, hfail⟩ | ⟨ptr, cursor, hok, hrest⟩ := allocRaw_cases hs layout
      · rw [hfail]
        exact .inl ⟨error, rfl⟩
      · rw [hok]
        exact .inr ⟨ptr, cursor, rfl, hrest⟩
  | slice =>
    unfold answer allocSlice
    dsimp only
    split
    · exact .inl (refuse_eq hs _)
    · next bytes hbytes =>
      split
      · exact .inl (refuse_eq hs _)
      · next layout hlayout =>
        obtain ⟨hsize, halign⟩ := fromSizeAlign_eq_some hlayout
        rw [checkedMul_eq_some hbytes] at hsize
        obtain hfail | ⟨ptr, cursor, hok, hdvd, hle, hend, hroom⟩ := allocRaw_cases hs layout
        · exact .inl hfail
        · rw [halign] at hdvd
          rw [hsize] at hend
          refine .inr ⟨ptr, cursor, ?_, hdvd, hle, hend, hroom⟩
          simpa [AllocRequest.drops] using hok

theorem popDrops_eq {fuel : Nat} {drops : List DropEntry} (h : drops.length = fuel) :
    popDrops fuel drops = (drops.reverse, []) := by
  induction fuel generalizing drops with
  | zero =>
    obtain rfl := List.eq_nil_of_length_eq_zero h
    rfl
  | succ fuel ih =>
    obtain rfl | ⟨rest, entry, rfl⟩ := List.eq_nil_or_concat drops
    · cases h
    · have hrest := @ih rest (by simpa using h)
      simp [popDrops, hrest]

theorem runDrops_eq (arena : BumpAllocator) :
    arena.runDrops = (arena.drops.reverse, { arena with drops := [] }) := by
  simp [runDrops, popDrops_eq rfl]

theorem reset_eq (arena : BumpAllocator) :
    arena.reset = (arena.drops.reverse, { arena with
      drops := [], cursor := 0, phase := .build, generation := arena.generation.next }) := by
  rw [reset, runDrops_eq]

/-- What the global allocator promises of the block it returns. -/
structure Granted (raw bytes alignment : Nat) : Prop where
  aligned : alignment ∣ raw
  block : raw + bytes < 2 ^ 64

theorem fromBuilder_eq_ok {raw bytes dropSlots alignment : Nat}
    (h : fromBuilder raw bytes dropSlots alignment = .ok arena) (hraw : Granted raw bytes alignment) :
    arena.Sound ∧ arena.buffer = raw ∧ arena.capacity = bytes ∧ arena.drops = [] := by
  unfold fromBuilder at h
  split at h
  · exact absurd h (by simp)
  · split at h
    · exact absurd h (by simp)
    · next hpower =>
      split at h
      · exact absurd h (by simp)
      · next layout hlayout =>
        obtain ⟨hsize, halign⟩ := fromSizeAlign_eq_some hlayout
        have hfits := layout.fits
        rw [hsize, halign] at hfits
        obtain rfl := Except.ok.inj h
        exact ⟨⟨not_not.mp hpower, hfits, Nat.zero_le _, hraw.aligned, hraw.block⟩, rfl, rfl, rfl⟩

end BumpAllocator

structure Region where
  addr : Nat
  size : Nat
  align : Nat
deriving DecidableEq, Repr

def Region.Apart (r r' : Region) : Prop :=
  ∀ a, ¬ ((r.addr ≤ a ∧ a < r.addr + r.size) ∧ r'.addr ≤ a ∧ a < r'.addr + r'.size)

inductive ArenaOp
  | request (request : AllocRequest)
  | freeze
  | reset
deriving DecidableEq

/-- The arena beside a record of what it has been asked for: the regions handed out and the
destructors registered since the last reset, those registered in each span between resets before,
and the destructors called so far. -/
structure ArenaWorld where
  arena : BumpAllocator
  regions : List Region
  registered : List DropEntry
  closed : List (List DropEntry)
  ran : List DropEntry
  overflowed : Bool

namespace ArenaWorld

def init (arena : BumpAllocator) : ArenaWorld where
  arena := arena
  regions := []
  registered := []
  closed := []
  ran := []
  overflowed := false

def step (w : ArenaWorld) : ArenaOp → ArenaWorld
  | .request request =>
    match w.arena.answer request with
    | some (.ok ptr, arena) =>
      { w with
        arena
        regions := w.regions ++ [⟨ptr, request.size, request.align⟩]
        registered := w.registered ++ request.drops ptr }
    | some (.error _, arena) => { w with arena }
    | none => { w with overflowed := true }
  | .freeze => { w with arena := w.arena.freeze }
  | .reset =>
    { w with
      arena := w.arena.reset.2
      regions := []
      registered := []
      closed := w.closed ++ [w.registered]
      ran := w.ran ++ w.arena.reset.1 }

def run (w : ArenaWorld) (ops : List ArenaOp) : ArenaWorld := Runs.run step w ops

/-- The regions fill the block in the order they were handed out, up to the cursor. -/
structure Inv (raw bytes : Nat) (w : ArenaWorld) : Prop where
  sound : w.arena.Sound
  buffer : w.arena.buffer = raw
  capacity : w.arena.capacity = bytes
  regions : ∀ r ∈ w.regions, r.align ∣ r.addr ∧ raw ≤ r.addr ∧ r.addr + r.size ≤ raw + w.arena.cursor
  ordered : w.regions.Pairwise fun r r' => r.addr + r.size ≤ r'.addr
  drops : w.arena.drops = w.registered
  ran : w.ran = (w.closed.map List.reverse).flatten
  overflowed : w.overflowed = false

variable {w : ArenaWorld} {raw bytes : Nat}

theorem inv_request (h : w.Inv raw bytes) (request : AllocRequest) :
    (w.step (.request request)).Inv raw bytes := by
  have hbuffer := h.buffer
  have hcapacity := h.capacity
  obtain ⟨error, hfail⟩ | ⟨ptr, cursor, hok, hdvd, hle, hend, hroom⟩ :=
    BumpAllocator.answer_cases h.sound request
  · rw [step, hfail]
    exact h
  · rw [step, hok]
    refine ⟨⟨h.sound.power, h.sound.fits, hroom, h.sound.aligned, h.sound.block⟩, hbuffer, hcapacity,
      ?_, ?_, ?_, h.ran, h.overflowed⟩
    · intro r hr
      obtain hr | hr := List.mem_append.mp hr
      · obtain ⟨halign, hlow, hhigh⟩ := h.regions r hr
        refine ⟨halign, hlow, ?_⟩
        change r.addr + r.size ≤ raw + cursor
        omega
      · obtain rfl := List.mem_singleton.mp hr
        refine ⟨hdvd, ?_, ?_⟩
        · change raw ≤ ptr
          omega
        · change ptr + request.size ≤ raw + cursor
          omega
    · refine List.pairwise_append.mpr ⟨h.ordered, List.pairwise_singleton _ _, ?_⟩
      intro r hr r' hr'
      obtain rfl := List.mem_singleton.mp hr'
      obtain ⟨_, _, hhigh⟩ := h.regions r hr
      change r.addr + r.size ≤ ptr
      omega
    · change w.arena.drops ++ request.drops ptr = w.registered ++ request.drops ptr
      rw [h.drops]

theorem inv_reset (h : w.Inv raw bytes) : (w.step .reset).Inv raw bytes := by
  rw [step, BumpAllocator.reset_eq]
  refine ⟨⟨h.sound.power, h.sound.fits, Nat.zero_le _, h.sound.aligned, h.sound.block⟩, h.buffer,
    h.capacity, by simp, List.Pairwise.nil, rfl, ?_, h.overflowed⟩
  simp [h.ran, h.drops]

theorem inv_step (w : ArenaWorld) (op : ArenaOp) (h : w.Inv raw bytes) :
    (w.step op).Inv raw bytes := by
  cases op with
  | request request => exact inv_request h request
  | freeze =>
    exact ⟨⟨h.sound.power, h.sound.fits, h.sound.cursor_le, h.sound.aligned, h.sound.block⟩,
      h.buffer, h.capacity, h.regions, h.ordered, h.drops, h.ran, h.overflowed⟩
  | reset => exact inv_reset h

structure Orderly (raw bytes : Nat) (w : ArenaWorld) : Prop where
  aligned : ∀ r ∈ w.regions, r.align ∣ r.addr
  inside : ∀ r ∈ w.regions, raw ≤ r.addr ∧ r.addr + r.size ≤ raw + bytes
  apart : w.regions.Pairwise Region.Apart
  answered : w.overflowed = false
  failed : ∀ request error arena, w.arena.answer request = some (.error error, arena) →
    arena = w.arena
  total : ∀ request, w.arena.answer request ≠ none
  ran : w.ran = (w.closed.map List.reverse).flatten
  due : w.arena.reset.1 = w.registered.reverse ∧ w.arena.runDrops.1 = w.registered.reverse

theorem Inv.orderly (h : w.Inv raw bytes) : w.Orderly raw bytes := by
  have hroom := h.sound.cursor_le
  have hcapacity := h.capacity
  refine ⟨fun r hr => (h.regions r hr).1, ?_, ?_, h.overflowed, ?_, ?_, h.ran, ?_⟩
  · intro r hr
    obtain ⟨_, hlow, hhigh⟩ := h.regions r hr
    omega
  · refine h.ordered.imp fun hle a ha => ?_
    omega
  · intro request error arena hanswer
    obtain ⟨error', hfail⟩ | ⟨ptr, cursor, hok, _⟩ := BumpAllocator.answer_cases h.sound request
    · rw [hfail] at hanswer
      exact (Prod.mk.inj (Option.some.inj hanswer)).2.symm
    · rw [hok] at hanswer
      cases (Prod.mk.inj (Option.some.inj hanswer)).1
  · intro request hnone
    obtain ⟨error, hfail⟩ | ⟨ptr, cursor, hok, _⟩ := BumpAllocator.answer_cases h.sound request
    · rw [hfail] at hnone
      cases hnone
    · rw [hok] at hnone
      cases hnone
  · rw [BumpAllocator.reset_eq, BumpAllocator.runDrops_eq, h.drops]
    exact ⟨rfl, rfl⟩

/-- Whatever is asked of an arena, its regions are aligned, apart and inside the block, a failed call
leaves it as it was, and each destructor is called once, from the last one back. -/
theorem arena_orderly {arena : BumpAllocator} {dropSlots alignment : Nat}
    (hbuild : BumpAllocator.fromBuilder raw bytes dropSlots alignment = .ok arena)
    (hraw : BumpAllocator.Granted raw bytes alignment) (ops : List ArenaOp) :
    ((init arena).run ops).Orderly raw bytes := by
  obtain ⟨hsound, hbuffer, hcapacity, hdrops⟩ := BumpAllocator.fromBuilder_eq_ok hbuild hraw
  have hinit : (init arena).Inv raw bytes :=
    ⟨hsound, hbuffer, hcapacity, by simp [init], List.Pairwise.nil, hdrops, rfl, rfl⟩
  have hstep : ∀ w op, Inv raw bytes w → Inv raw bytes (step w op) := inv_step
  exact (Runs.run_invariant hstep hinit ops).orderly

def smallArena : BumpAllocator where
  buffer := 4096
  capacity := 64
  alignment := 16
  cursor := 0
  drops := []
  dropCapacity := 2
  phase := .build
  generation := 0

def wordLayout : AllocLayout := ⟨8, 8, by decide, by decide⟩

def byteLayout : AllocLayout := ⟨1, 1, by decide, by decide⟩

def smallOps : List ArenaOp :=
  [.request (.withDrop byteLayout 7), .request (.withDrop wordLayout 9),
    .request (.slice wordLayout 9), .reset, .request (.value byteLayout)]

theorem arena_orderly_small :
    BumpAllocator.fromBuilder 4096 64 2 16 = .ok smallArena ∧
      ((init smallArena).run smallOps).ran = [⟨4104, 9⟩, ⟨4096, 7⟩] ∧
      ((init smallArena).run smallOps).Orderly 4096 64 := by
  have hbuild : BumpAllocator.fromBuilder 4096 64 2 16 = .ok smallArena := by decide
  exact ⟨hbuild, by decide, arena_orderly hbuild ⟨by decide, by decide⟩ smallOps⟩

end ArenaWorld

end Kwokka
