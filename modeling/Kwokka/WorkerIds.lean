import Kwokka.Runs
import Kwokka.Table
import Mathlib.Data.List.Nodup

/-! The process-wide bitmap of worker ids. Claims search a snapshot of a word and commit
by compare-exchange; threads interleave at every access to a word. A claim that finds
no room has seen each word without room at some moment of the call. -/

namespace Kwokka

open Function

abbrev Word := BitVec 64

def workerIdMax : Nat := 127

def WorkerId.new (raw : Nat) : Option Nat := if workerIdMax < raw then none else some raw

inductive ClaimKind
  | one
  | block (count : Nat)
deriving DecidableEq, Repr

namespace ClaimKind

def count : ClaimKind → Nat
  | one => 1
  | block count => count

def isServed : ClaimKind → Bool
  | one => true
  | block count => count ≠ 0 && count ≤ 64

end ClaimKind

def Word.trailingZeros (bits : Word) : Nat := ((List.range 64).find? bits.getLsbD).getD 64

def runMask (count : Nat) : Word := if count = 64 then BitVec.allOnes 64 else (1#64 <<< count) - 1#64

/-- The search of `claim_block`: the lowest shift at which the run is free. -/
def scan (count : Nat) (bits : Word) : (fuel shift : Nat) → Option Nat
  | 0, _ => none
  | fuel + 1, shift =>
    if shift + count ≤ 64 then
      if bits &&& (runMask count <<< shift) ≠ 0 then scan count bits fuel (shift + 1) else some shift
    else none

namespace ClaimKind

def candidate : ClaimKind → Word → Option Nat
  | one, bits => if bits = BitVec.allOnes 64 then none else some (Word.trailingZeros (~~~bits))
  | block count, bits => scan count bits 65 0

def mask : ClaimKind → Nat → Word
  | one, shift => 1#64 <<< shift
  | block count, shift => runMask count <<< shift

def NoRoom (kind : ClaimKind) (bits : Word) : Prop :=
  ∀ shift, shift + kind.count ≤ 64 → ∃ i < kind.count, bits.getLsbD (shift + i) = true

end ClaimKind

structure ClaimCall where
  kind : ClaimKind
  began : Nat
deriving DecidableEq, Repr

/-- Where a thread stands: before the load of a word, or before the compare-exchange that follows
the snapshot it holds. -/
inductive ClaimPc
  | idle
  | load (call : ClaimCall) (word : Nat)
  | attempt (call : ClaimCall) (word : Nat) (bits : Word)
deriving DecidableEq, Repr

/-- A claim that was granted, and those of its ids that have not been released. -/
structure Claim where
  kind : ClaimKind
  start : Nat
  ids : List Nat
deriving DecidableEq, Repr

def Claim.granted (claim : Claim) : List Nat := List.range' claim.start claim.kind.count

structure Returned where
  call : ClaimCall
  ended : Nat
  result : Option Nat
deriving DecidableEq, Repr

/-- `history` has the words at every moment, the present one last. -/
structure IdWorld where
  words : Nat → Word
  pcs : Nat → ClaimPc
  claims : List Claim
  returned : List Returned
  history : List (Nat → Word)

inductive IdEvent
  | call (thread : Nat) (kind : ClaimKind)
  | load (thread : Nat)
  | exchange (thread : Nat) (isSpurious : Bool)
  | release (index id : Nat)
  | releaseBlock (index start count : Nat)
deriving DecidableEq, Repr

namespace IdWorld

def init : IdWorld where
  words := fun _ => 0
  pcs := fun _ => .idle
  claims := []
  returned := []
  history := [fun _ => 0]

variable (w : IdWorld)

def now : Nat := w.history.length - 1

def goto (thread : Nat) (pc : ClaimPc) : IdWorld :=
  { w with pcs := update w.pcs thread pc }

def answer (thread : Nat) (call : ClaimCall) (result : Option Nat) : IdWorld :=
  { w.goto thread .idle with returned := w.returned ++ [⟨call, w.now, result⟩] }

def observe (thread : Nat) (call : ClaimCall) (word : Nat) (bits : Word) : IdWorld :=
  match call.kind.candidate bits with
  | some _ => w.goto thread (.attempt call word bits)
  | none => if word + 1 < 2 then w.goto thread (.load call (word + 1)) else w.answer thread call none

def grant (thread : Nat) (call : ClaimCall) (word shift : Nat) : IdWorld :=
  let words := update w.words word (w.words word ||| call.kind.mask shift)
  let start := word * 64 + shift
  match WorkerId.new start with
  | some start =>
    { w.answer thread call (some start) with
      words
      claims := w.claims ++ [⟨call.kind, start, List.range' start call.kind.count⟩] }
  | none => { w.answer thread call none with words }

/-- `fetch_and` of the mask's complement, for ids that the claim at `index` holds. -/
def free (index start count : Nat) (mask : Word) : IdWorld :=
  { w with
    words := update w.words (start / 64) (w.words (start / 64) &&& ~~~mask)
    claims := w.claims.modify index fun claim =>
      { claim with ids := claim.ids.filter (· ∉ List.range' start count) } }

def Holds (index start count : Nat) : Prop :=
  ∃ claim ∈ w.claims[index]?, ∀ id ∈ List.range' start count, id ∈ claim.ids

instance (w : IdWorld) (index start count : Nat) : Decidable (w.Holds index start count) :=
  inferInstanceAs (Decidable (∃ claim ∈ w.claims[index]?, _))

def act : IdEvent → IdWorld
  | .call thread kind =>
    match w.pcs thread with
    | .idle =>
      if kind.isServed then w.goto thread (.load ⟨kind, w.now⟩ 0)
      else w.answer thread ⟨kind, w.now⟩ none
    | _ => w
  | .load thread =>
    match w.pcs thread with
    | .load call word => w.observe thread call word (w.words word)
    | _ => w
  | .exchange thread isSpurious =>
    match w.pcs thread with
    | .attempt call word bits =>
      match call.kind.candidate bits with
      | some shift =>
        if w.words word = bits ∧ isSpurious = false then w.grant thread call word shift
        else w.observe thread call word (w.words word)
      | none => w
    | _ => w
  -- a caller releases only ids that it holds
  | .release index id =>
    if w.Holds index id 1 then w.free index id 1 (1#64 <<< (id % 64)) else w
  | .releaseBlock index start count =>
    if (ClaimKind.block count).isServed ∧ w.Holds index start count then
      w.free index start count (runMask count <<< (start % 64))
    else w

def step (e : IdEvent) : IdWorld :=
  let next := w.act e
  { next with history := next.history ++ [next.words] }

def run (es : List IdEvent) : IdWorld := Runs.run step init es

/-- The answers that name a start, in the order of the calls' returns. -/
def grants : List (ClaimKind × Nat) :=
  w.returned.filterMap fun r => r.result.map fun start => (r.call.kind, start)

def occupied (id : Nat) : Bool := (w.words (id / 64)).getLsbD (id % 64)

end IdWorld

variable {kind : ClaimKind} {bits : Word} {shift : Nat}

section Bits

theorem getLsbD_runMask {count : Nat} (h : count ≤ 64) (i : Nat) :
    (runMask count).getLsbD i = decide (i < count) := by
  unfold runMask
  split
  · next hfull =>
    rw [BitVec.getLsbD_allOnes, hfull]
  · next hne =>
    have hlt : 2 ^ count < 2 ^ 64 := Nat.pow_lt_pow_right (by decide) (by omega)
    have hpos : 0 < 2 ^ count := Nat.two_pow_pos count
    have hnat : ((1#64 <<< count) - 1#64).toNat = 2 ^ count - 1 := by
      rw [BitVec.toNat_sub, BitVec.toNat_shiftLeft]
      simp [Nat.shiftLeft_eq]
      omega
    rw [BitVec.getLsbD, hnat, Nat.testBit_two_pow_sub_one]

theorem ClaimKind.getLsbD_mask (h : shift + kind.count ≤ 64)
    (i : Nat) : (kind.mask shift).getLsbD i = decide (shift ≤ i ∧ i < shift + kind.count) := by
  cases kind with
  | one =>
    change shift + 1 ≤ 64 at h
    change (1#64 <<< shift).getLsbD i = decide (shift ≤ i ∧ i < shift + 1)
    rw [BitVec.getLsbD_shiftLeft, BitVec.getLsbD_one, Bool.eq_iff_iff]
    simp only [Bool.and_eq_true, decide_eq_true_eq, Bool.not_eq_true', decide_eq_false_iff_not]
    omega
  | block count =>
    change shift + count ≤ 64 at h
    change (runMask count <<< shift).getLsbD i = decide (shift ≤ i ∧ i < shift + count)
    rw [BitVec.getLsbD_shiftLeft, getLsbD_runMask (by omega), Bool.eq_iff_iff]
    simp only [Bool.and_eq_true, decide_eq_true_eq, Bool.not_eq_true', decide_eq_false_iff_not]
    omega

theorem and_eq_zero_iff (bits other : Word) :
    bits &&& other = 0 ↔ ∀ i < 64, other.getLsbD i = true → bits.getLsbD i = false := by
  constructor
  · intro h i hi hother
    have hbit := congrArg (fun b : Word => b.getLsbD i) h
    simpa [hother] using hbit
  · intro h
    apply BitVec.eq_of_getLsbD_eq
    intro i hi
    cases hother : other.getLsbD i with
    | false => simp [hother]
    | true => simp [h i hi hother]

theorem scan_eq_some {count fuel shift found : Nat} (h : scan count bits fuel shift = some found) :
    found + count ≤ 64 ∧ bits &&& (runMask count <<< found) = 0 := by
  induction fuel generalizing shift with
  | zero => cases h
  | succ fuel ih =>
    unfold scan at h
    split at h
    · next hroom =>
      split at h
      · exact ih h
      · next hfree =>
        cases h
        exact ⟨hroom, not_not.mp hfree⟩
    · cases h

theorem scan_eq_none {count fuel shift : Nat} (hfuel : 65 ≤ shift + fuel)
    (h : scan count bits fuel shift = none) :
    ∀ found, shift ≤ found → found + count ≤ 64 → bits &&& (runMask count <<< found) ≠ 0 := by
  induction fuel generalizing shift with
  | zero =>
    intro found hle hroom
    omega
  | succ fuel ih =>
    intro found hle hroom
    unfold scan at h
    rw [if_pos (by omega)] at h
    split at h
    · next hbusy =>
      obtain rfl | hlt := Nat.eq_or_lt_of_le hle
      · exact hbusy
      · exact ih (by omega) h found hlt hroom
    · cases h

theorem Word.trailingZeros_spec (h : bits ≠ 0) :
    Word.trailingZeros bits < 64 ∧ bits.getLsbD (Word.trailingZeros bits) = true := by
  unfold Word.trailingZeros
  cases hfind : (List.range 64).find? bits.getLsbD with
  | some =>
    have hmem := List.mem_of_find?_eq_some hfind
    exact ⟨List.mem_range.mp hmem, List.find?_some hfind⟩
  | none =>
    refine absurd (BitVec.eq_of_getLsbD_eq fun i hi => ?_) h
    have hnone := List.find?_eq_none.mp hfind i (List.mem_range.mpr hi)
    simpa using hnone

theorem ClaimKind.candidate_eq_some
    (h : kind.candidate bits = some shift) : shift + kind.count ≤ 64 ∧
      ∀ i, shift ≤ i → i < shift + kind.count → bits.getLsbD i = false := by
  cases kind with
  | one =>
    simp only [candidate] at h
    split at h
    · cases h
    · next hne =>
      cases h
      have hfree : ~~~bits ≠ 0 := by
        intro hzero
        apply hne
        rw [← BitVec.not_not (b := bits), hzero]
        rfl
      obtain ⟨hlt, hbit⟩ := Word.trailingZeros_spec hfree
      refine ⟨hlt, fun i hle hlti => ?_⟩
      obtain rfl : i = Word.trailingZeros (~~~bits) := by simp only [count] at hlti; omega
      simpa [BitVec.getLsbD_not, hlt] using hbit
  | block count =>
    obtain ⟨hroom, hfree⟩ := scan_eq_some h
    refine ⟨hroom, fun i hle hlt => ?_⟩
    have hlt64 : i < 64 := Nat.lt_of_lt_of_le hlt hroom
    refine (and_eq_zero_iff _ _).mp hfree i hlt64 ?_
    have hmask := @getLsbD_mask (.block count) shift hroom i
    rw [show runMask count <<< shift = mask (.block count) shift from rfl, hmask]
    simpa using ⟨hle, hlt⟩

theorem ClaimKind.candidate_eq_none (h : kind.candidate bits = none) : kind.NoRoom bits := by
  intro shift hroom
  cases kind with
  | one =>
    simp only [candidate] at h
    split at h
    · next hfull =>
      simp only [count] at hroom
      refine ⟨0, by simp [count], ?_⟩
      rw [hfull, BitVec.getLsbD_allOnes]
      simp
      omega
    · cases h
  | block count =>
    have hbusy := scan_eq_none (by decide) h shift (Nat.zero_le _) hroom
    by_contra hnone
    apply hbusy
    refine (and_eq_zero_iff _ _).mpr fun i hlt hmask => ?_
    rw [show runMask count <<< shift = mask (.block count) shift from rfl,
      @getLsbD_mask (.block count) shift hroom i] at hmask
    obtain ⟨hle, hlti⟩ := of_decide_eq_true hmask
    by_contra hbit
    have hback : shift + (i - shift) = i := by omega
    refine hnone ⟨i - shift, by omega, ?_⟩
    rw [hback]
    simpa using hbit

end Bits

namespace IdWorld

def SawNoRoom (history : List (Nat → Word)) (kind : ClaimKind) (word began ended : Nat) : Prop :=
  ∃ t, began ≤ t ∧ t ≤ ended ∧ ∃ words, history[t]? = some words ∧ kind.NoRoom (words word)

structure Searching (history : List (Nat → Word)) (call : ClaimCall) (word : Nat) : Prop where
  served : call.kind.isServed = true
  began : call.began ≤ history.length - 1
  word_lt : word < 2
  passed : ∀ earlier < word,
    SawNoRoom history call.kind earlier call.began (history.length - 1)

def PcSound (history : List (Nat → Word)) : ClaimPc → Prop
  | .idle => True
  | .load call word => Searching history call word
  | .attempt call word _ => Searching history call word

structure Claim.Placed (claim : Claim) : Prop where
  served : claim.kind.isServed = true
  within : claim.start % 64 + claim.kind.count ≤ 64
  start_lt : claim.start < 128
  ids : ∀ id ∈ claim.ids, id ∈ claim.granted

structure Body (w : IdWorld) : Prop where
  history : 0 < w.history.length
  placed : ∀ claim ∈ w.claims, Claim.Placed claim
  occupied : ∀ id < 128, w.occupied id = true ↔ ∃ claim ∈ w.claims, id ∈ claim.ids
  disjoint : w.claims.Pairwise fun claim other => ∀ id ∈ claim.ids, id ∉ other.ids
  pcs : ∀ thread, PcSound w.history (w.pcs thread)
  returned : ∀ r ∈ w.returned, r.result = none → r.call.kind.isServed = true →
    ∀ word < 2, SawNoRoom w.history r.call.kind word r.call.began r.ended
  answered : w.grants = w.claims.map fun claim => (claim.kind, claim.start)

structure Inv (w : IdWorld) : Prop extends Body w where
  present : w.history[w.now]? = some w.words

theorem SawNoRoom.mono {history : List (Nat → Word)} {word began ended ended' : Nat}
    {words : Nat → Word} (h : SawNoRoom history kind word began ended) (hle : ended ≤ ended') :
    SawNoRoom (history ++ [words]) kind word began ended' := by
  obtain ⟨t, hbegan, hended, then_, hthen, hroom⟩ := h
  refine ⟨t, hbegan, by omega, then_, ?_, hroom⟩
  rw [List.getElem?_append_left (List.getElem?_eq_some_iff.mp hthen).1, hthen]

theorem Searching.append {history : List (Nat → Word)} {call : ClaimCall} {word : Nat}
    (h : Searching history call word) (words : Nat → Word) :
    Searching (history ++ [words]) call word := by
  have hnow : history.length - 1 ≤ (history ++ [words]).length - 1 := by
    rw [List.length_append]
    omega
  refine ⟨h.served, Nat.le_trans h.began hnow, h.word_lt, fun earlier hlt => ?_⟩
  exact (h.passed earlier hlt).mono hnow

theorem Body.append {w : IdWorld} (h : w.Body) :
    Inv { w with history := w.history ++ [w.words] } := by
  refine ⟨⟨by simp, h.placed, h.occupied, h.disjoint, ?_, ?_, h.answered⟩, ?_⟩
  · intro thread
    have hpc := h.pcs thread
    change PcSound (w.history ++ [w.words]) (w.pcs thread)
    cases hthread : w.pcs thread with
    | idle => trivial
    | _ =>
      rw [hthread] at hpc
      exact Searching.append hpc _
  · intro r hr hnone hserved word hword
    exact (h.returned r hr hnone hserved word hword).mono (Nat.le_refl _)
  · simp [now]

variable {w : IdWorld} {thread : Nat} {call : ClaimCall} {word : Nat}

theorem body_goto (h : w.Body) {pc : ClaimPc} (hpc : PcSound w.history pc) : (w.goto thread pc).Body := by
  refine ⟨h.history, h.placed, h.occupied, h.disjoint, fun other => ?_, h.returned, h.answered⟩
  change PcSound w.history (update w.pcs thread pc other)
  by_cases hother : other = thread
  · rw [hother, update_self]
    exact hpc
  · rw [update_of_ne hother]
    exact h.pcs other

theorem body_answer (h : w.Body) (hrefused : call.kind.isServed = true →
      ∀ word < 2, SawNoRoom w.history call.kind word call.began w.now) :
    (w.answer thread call none).Body := by
  have hgoto : (w.goto thread .idle).Body := body_goto h trivial
  refine ⟨hgoto.history, hgoto.placed, hgoto.occupied, hgoto.disjoint, hgoto.pcs, ?_, ?_⟩
  · intro r hr
    obtain hr | hr := List.mem_append.mp hr
    · exact h.returned r hr
    · obtain rfl := List.mem_singleton.mp hr
      exact fun _ => hrefused
  · refine Eq.trans ?_ h.answered
    simp [grants, answer]

theorem Inv.sawNoRoom (h : w.Inv) (hcall : Searching w.history call word)
    (hroom : call.kind.NoRoom (w.words word)) :
    SawNoRoom w.history call.kind word call.began w.now :=
  ⟨w.now, hcall.began, Nat.le_refl _, w.words, h.present, hroom⟩

theorem body_observe (h : w.Inv) (hcall : Searching w.history call word) :
    (w.observe thread call word (w.words word)).Body := by
  unfold observe
  cases hcandidate : call.kind.candidate (w.words word) with
  | some => exact body_goto h.toBody hcall
  | none =>
    have hsaw := h.sawNoRoom hcall (ClaimKind.candidate_eq_none hcandidate)
    have hpassed : ∀ earlier < word + 1, SawNoRoom w.history call.kind earlier call.began w.now := by
      intro earlier hlt
      obtain hlt | rfl := Nat.lt_succ_iff_lt_or_eq.mp hlt
      · exact hcall.passed earlier hlt
      · exact hsaw
    dsimp only
    split
    · next hword => exact body_goto h.toBody ⟨hcall.served, hcall.began, hword, hpassed⟩
    · next hword =>
      refine body_answer h.toBody fun _ other hother => hpassed other ?_
      have := hcall.word_lt
      omega

theorem ClaimKind.count_pos (h : kind.isServed = true) : 1 ≤ kind.count := by
  cases kind with
  | one => exact Nat.le_refl _
  | block count =>
    simp only [ClaimKind.isServed, Bool.and_eq_true, decide_eq_true_eq] at h
    simp only [ClaimKind.count]
    omega

theorem mem_run_iff {word shift count id : Nat} (h : shift + count ≤ 64) :
    id ∈ List.range' (word * 64 + shift) count ↔
      id / 64 = word ∧ shift ≤ id % 64 ∧ id % 64 < shift + count := by
  rw [List.mem_range'_1]
  omega

theorem body_grant (h : w.Body) (hcall : Searching w.history call word)
    (hcandidate : call.kind.candidate (w.words word) = some shift) :
    (w.grant thread call word shift).Body := by
  obtain ⟨hroom, hfree⟩ := ClaimKind.candidate_eq_some hcandidate
  have hpos := ClaimKind.count_pos hcall.served
  have hword := hcall.word_lt
  have hnew : WorkerId.new (word * 64 + shift) = some (word * 64 + shift) :=
    if_neg (by simp only [workerIdMax]; omega)
  have hgoto : (w.goto thread .idle).Body := body_goto h trivial
  have hoccupied : ∀ id, (w.grant thread call word shift).occupied id =
      (w.occupied id || decide (id ∈ List.range' (word * 64 + shift) call.kind.count)) := by
    intro id
    have hwords : (w.grant thread call word shift).words =
        update w.words word (w.words word ||| call.kind.mask shift) := by
      simp only [grant, hnew]
    rw [occupied, hwords, occupied]
    by_cases hsame : id / 64 = word
    · rw [hsame, update_self, BitVec.getLsbD_or, ClaimKind.getLsbD_mask hroom]
      simp only [mem_run_iff hroom, hsame, true_and]
    · rw [update_of_ne hsame]
      simp [mem_run_iff hroom, hsame]
  have hunheld : ∀ claim ∈ w.claims, ∀ id ∈ claim.ids,
      id ∉ List.range' (word * 64 + shift) call.kind.count := by
    intro claim hclaim id hid hrun
    obtain ⟨hsame, hlow, hhigh⟩ := (mem_run_iff hroom).mp hrun
    have hset := (h.occupied id (by omega)).mpr ⟨claim, hclaim, hid⟩
    rw [occupied, hsame, hfree _ hlow hhigh] at hset
    cases hset
  simp only [grant, hnew] at hoccupied ⊢
  refine ⟨hgoto.history, ?_, ?_, ?_, hgoto.pcs, ?_, ?_⟩
  · intro claim hclaim
    obtain hclaim | hclaim := List.mem_append.mp hclaim
    · exact h.placed claim hclaim
    · obtain rfl := List.mem_singleton.mp hclaim
      refine ⟨hcall.served, ?_, ?_, fun id hid => hid⟩
      · change (word * 64 + shift) % 64 + call.kind.count ≤ 64
        omega
      · change word * 64 + shift < 128
        omega
  · intro id hid
    rw [hoccupied id, Bool.or_eq_true, h.occupied id hid, decide_eq_true_eq]
    simp only [List.mem_append, List.mem_singleton, or_and_right, exists_or, exists_eq_left]
  · refine List.pairwise_append.mpr ⟨h.disjoint, List.pairwise_singleton _ _, ?_⟩
    intro claim hclaim other hother
    obtain rfl := List.mem_singleton.mp hother
    exact hunheld claim hclaim
  · intro r hr hnone
    obtain hr | hr := List.mem_append.mp hr
    · exact h.returned r hr hnone
    · obtain rfl := List.mem_singleton.mp hr
      cases hnone
  · have hbefore := h.answered
    simp only [grants, answer, List.filterMap_append, List.map_append] at hbefore ⊢
    rw [hbefore]
    rfl

theorem Body.apart (h : w.Body) {i j id : Nat} {claim other : Claim} (hij : i ≠ j)
    (hi : w.claims[i]? = some claim) (hj : w.claims[j]? = some other) (hid : id ∈ claim.ids) :
    id ∉ other.ids := by
  obtain ⟨hilt, rfl⟩ := List.getElem?_eq_some_iff.mp hi
  obtain ⟨hjlt, rfl⟩ := List.getElem?_eq_some_iff.mp hj
  have hpairs := List.pairwise_iff_getElem.mp h.disjoint
  intro hid'
  obtain hlt | hlt := Nat.lt_or_gt_of_ne hij
  · exact hpairs i j hilt hjlt hlt id hid hid'
  · exact hpairs j i hjlt hilt hlt id hid' hid

theorem free_getElem? {index start count j : Nat} {mask : Word} :
    (w.free index start count mask).claims[j]? = (w.claims[j]?).map fun claim =>
      if index = j then { claim with ids := claim.ids.filter (· ∉ List.range' start count) }
      else claim := by
  simp only [free, List.getElem?_modify]
  by_cases hj : index = j <;> simp [hj]

section Release

variable {index start count : Nat} {mask : Word}

theorem Body.holds_within (h : w.Body) (hpos : 1 ≤ count) (hheld : w.Holds index start count) :
    start % 64 + count ≤ 64 ∧ start < 128 := by
  obtain ⟨claim, hclaim, hids⟩ := hheld
  have hplaced := h.placed claim (List.mem_of_getElem? hclaim)
  have hfirst := hplaced.ids start (hids start (by rw [List.mem_range'_1]; omega))
  have hlast := hplaced.ids (start + count - 1)
    (hids (start + count - 1) (by rw [List.mem_range'_1]; omega))
  have hwithin := hplaced.within
  have hlt := hplaced.start_lt
  rw [Claim.granted, List.mem_range'_1] at hfirst hlast
  omega

theorem free_occupied (hwithin : start % 64 + count ≤ 64)
    (hmask : ∀ i, mask.getLsbD i = decide (start % 64 ≤ i ∧ i < start % 64 + count)) (id : Nat) :
    (w.free index start count mask).occupied id =
      (w.occupied id && decide (id ∉ List.range' start count)) := by
  have hrun : id ∈ List.range' start count ↔
      id / 64 = start / 64 ∧ start % 64 ≤ id % 64 ∧ id % 64 < start % 64 + count := by
    have hsplit : start / 64 * 64 + start % 64 = start := by omega
    rw [← mem_run_iff hwithin, hsplit]
  have hlt : id % 64 < 64 := Nat.mod_lt _ (by decide)
  simp only [free, occupied]
  by_cases hsame : id / 64 = start / 64
  · rw [hsame, update_self, BitVec.getLsbD_and, BitVec.getLsbD_not, hmask]
    simp only [hrun, hsame, true_and, hlt, decide_true, Bool.true_and, decide_not]
  · rw [update_of_ne hsame]
    simp [hrun, hsame]

theorem body_free (h : w.Body) (hpos : 1 ≤ count) (hheld : w.Holds index start count)
    (hmask : ∀ i, mask.getLsbD i = decide (start % 64 ≤ i ∧ i < start % 64 + count)) :
    (w.free index start count mask).Body := by
  obtain ⟨hwithin, _⟩ := h.holds_within hpos hheld
  obtain ⟨held, hindex, hids⟩ := hheld
  refine ⟨h.history, ?_, ?_, ?_, h.pcs, h.returned, ?_⟩
  · intro claim hclaim
    obtain ⟨j, hj⟩ := List.mem_iff_getElem?.mp hclaim
    rw [free_getElem?] at hj
    obtain ⟨before, hbefore, rfl⟩ := Option.map_eq_some_iff.mp hj
    have hplaced := h.placed before (List.mem_of_getElem? hbefore)
    split
    · exact ⟨hplaced.served, hplaced.within, hplaced.start_lt,
        fun id hid => hplaced.ids id (List.mem_of_mem_filter hid)⟩
    · exact hplaced
  · intro id hid
    rw [free_occupied hwithin hmask, Bool.and_eq_true, h.occupied id hid, decide_eq_true_eq]
    constructor
    · intro hboth
      obtain ⟨⟨claim, hclaim, hmem⟩, hout⟩ := hboth
      obtain ⟨j, hj⟩ := List.mem_iff_getElem?.mp hclaim
      refine ⟨_, List.mem_of_getElem? (i := j) (by rw [free_getElem?, hj]; rfl), ?_⟩
      split
      · exact List.mem_filter.mpr ⟨hmem, decide_eq_true hout⟩
      · exact hmem
    · intro hafter
      obtain ⟨claim, hclaim, hmem⟩ := hafter
      obtain ⟨j, hj⟩ := List.mem_iff_getElem?.mp hclaim
      rw [free_getElem?] at hj
      obtain ⟨before, hbefore, rfl⟩ := Option.map_eq_some_iff.mp hj
      split at hmem
      · obtain ⟨hmem, hout⟩ := List.mem_filter.mp hmem
        exact ⟨⟨before, List.mem_of_getElem? hbefore, hmem⟩, of_decide_eq_true hout⟩
      · next hne =>
        refine ⟨⟨before, List.mem_of_getElem? hbefore, hmem⟩, fun hrun => ?_⟩
        exact h.apart hne hindex hbefore (hids id hrun) hmem
  · refine List.pairwise_iff_getElem.mpr fun i j hi hj hij id hid hid' => ?_
    have hgeti := List.getElem?_eq_getElem hi
    have hgetj := List.getElem?_eq_getElem hj
    rw [free_getElem?] at hgeti hgetj
    obtain ⟨before, hbefore, hafter⟩ := Option.map_eq_some_iff.mp hgeti
    obtain ⟨before', hbefore', hafter'⟩ := Option.map_eq_some_iff.mp hgetj
    rw [← hafter] at hid
    rw [← hafter'] at hid'
    have hmem : id ∈ before.ids := by
      split at hid
      · exact List.mem_of_mem_filter hid
      · exact hid
    have hmem' : id ∈ before'.ids := by
      split at hid'
      · exact List.mem_of_mem_filter hid'
      · exact hid'
    exact h.apart (Nat.ne_of_lt hij) hbefore hbefore' hmem hmem'
  · refine h.answered.trans (Eq.symm ?_)
    exact Table.map_modify_of_eq fun _ => rfl

end Release

theorem body_release {index id : Nat} (h : w.Body) (hheld : w.Holds index id 1) :
    (w.free index id 1 (1#64 <<< (id % 64))).Body := by
  obtain ⟨hwithin, _⟩ := h.holds_within (Nat.le_refl 1) hheld
  exact body_free h (Nat.le_refl 1) hheld (@ClaimKind.getLsbD_mask .one (id % 64) hwithin)

theorem body_releaseBlock {index start count : Nat} (h : w.Body)
    (hserved : (ClaimKind.block count).isServed = true) (hheld : w.Holds index start count) :
    (w.free index start count (runMask count <<< (start % 64))).Body := by
  have hpos := ClaimKind.count_pos hserved
  obtain ⟨hwithin, _⟩ := h.holds_within hpos hheld
  exact body_free h hpos hheld (@ClaimKind.getLsbD_mask (.block count) (start % 64) hwithin)

theorem body_act (h : w.Inv) (e : IdEvent) : (w.act e).Body := by
  cases e with
  | call thread =>
    simp only [act]
    cases hpc : w.pcs thread with
    | idle =>
      dsimp only
      split
      · next hserved =>
        exact body_goto h.toBody ⟨hserved, Nat.le_refl _, by decide, by simp⟩
      · next hrefused =>
        exact body_answer h.toBody fun hserved => absurd hserved hrefused
    | _ => exact h.toBody
  | load thread =>
    have hsound := h.pcs thread
    simp only [act]
    cases hpc : w.pcs thread with
    | load =>
      rw [hpc] at hsound
      exact body_observe h hsound
    | _ => exact h.toBody
  | exchange thread =>
    have hsound := h.pcs thread
    simp only [act]
    cases hpc : w.pcs thread with
    | attempt call word bits =>
      rw [hpc] at hsound
      dsimp only
      cases hcandidate : call.kind.candidate bits with
      | none => exact h.toBody
      | some =>
        dsimp only
        split
        · next hsame =>
          rw [← hsame.1] at hcandidate
          exact body_grant h.toBody hsound hcandidate
        · exact body_observe h hsound
    | _ => exact h.toBody
  | release =>
    simp only [act]
    split
    · next hheld => exact body_release h.toBody hheld
    · exact h.toBody
  | releaseBlock =>
    simp only [act]
    split
    · next hheld => exact body_releaseBlock h.toBody hheld.1 hheld.2
    · exact h.toBody

theorem inv_init : init.Inv := by
  refine ⟨⟨by decide, by simp [init], ?_, List.Pairwise.nil, fun _ => trivial, by simp [init], rfl⟩, rfl⟩
  intro id _
  simp [init, occupied]

theorem inv_run (es : List IdEvent) : (run es).Inv := by
  have hstep : ∀ w e, Inv w → Inv (step w e) := fun w e h => (body_act h e).append
  exact Runs.run_invariant hstep inv_init es

/-- What holds of the bitmap and its claims after any interleaving. The claims are the answered
calls, one by one. -/
structure Exclusive (w : IdWorld) : Prop where
  disjoint : w.claims.Pairwise fun claim other => ∀ id ∈ claim.ids, id ∉ other.ids
  range : ∀ claim ∈ w.claims, ∀ id ∈ claim.ids, id ≤ 127
  contiguous : ∀ claim ∈ w.claims, (∀ id ∈ claim.ids, id ∈ claim.granted) ∧
    ∀ id ∈ claim.granted, id ≤ 127 ∧ id / 64 = claim.start / 64
  occupied : ∀ id < 128, w.occupied id = true ↔ ∃ claim ∈ w.claims, id ∈ claim.ids
  release : ∀ index id, w.Holds index id 1 → ∀ other,
    (w.step (.release index id)).occupied other = (w.occupied other && decide (other ≠ id))
  releaseBlock : ∀ index start count, 1 ≤ count → count ≤ 64 → w.Holds index start count →
    ∀ other, (w.step (.releaseBlock index start count)).occupied other =
      (w.occupied other && decide (other ∉ List.range' start count))
  refused : ∀ r ∈ w.returned, r.result = none → 1 ≤ r.call.kind.count → r.call.kind.count ≤ 64 →
    ∀ word < 2, SawNoRoom w.history r.call.kind word r.call.began r.ended
  answered : w.grants = w.claims.map fun claim => (claim.kind, claim.start)

theorem isServed_iff (kind : ClaimKind) :
    kind.isServed = true ↔ 1 ≤ kind.count ∧ kind.count ≤ 64 := by
  cases kind with
  | one => simp [ClaimKind.isServed, ClaimKind.count]
  | block count =>
    simp only [ClaimKind.isServed, ClaimKind.count, Bool.and_eq_true, decide_eq_true_eq]
    omega

/-- However the accesses of any number of threads interleave, live claims are disjoint runs inside
one word, a release frees what was released, and a refused claim saw each word without room. -/
theorem claims_exclusive (es : List IdEvent) : (run es).Exclusive := by
  have h := inv_run es
  have hgranted : ∀ claim ∈ (run es).claims, ∀ id ∈ claim.granted,
      id ≤ 127 ∧ id / 64 = claim.start / 64 := by
    intro claim hclaim id hid
    have hplaced := h.placed claim hclaim
    have hwithin := hplaced.within
    have hlt := hplaced.start_lt
    rw [Claim.granted, List.mem_range'_1] at hid
    omega
  refine ⟨h.disjoint, ?_, ?_, h.occupied, ?_, ?_, ?_, h.answered⟩
  · intro claim hclaim id hid
    exact (hgranted claim hclaim id ((h.placed claim hclaim).ids id hid)).1
  · intro claim hclaim
    exact ⟨(h.placed claim hclaim).ids, hgranted claim hclaim⟩
  · intro index id hheld other
    obtain ⟨hwithin, _⟩ := h.toBody.holds_within (Nat.le_refl 1) hheld
    have hfree := @free_occupied (run es) index id 1 _ hwithin
      (@ClaimKind.getLsbD_mask .one (id % 64) hwithin) other
    have hstep : ((run es).step (.release index id)).occupied other =
        ((run es).free index id 1 (1#64 <<< (id % 64))).occupied other := by
      simp only [step, act, if_pos hheld, occupied]
    rw [hstep]
    refine hfree.trans ?_
    simp
  · intro index start count hpos hle hheld other
    have hserved : (ClaimKind.block count).isServed = true := (isServed_iff _).mpr ⟨hpos, hle⟩
    obtain ⟨hwithin, _⟩ := h.toBody.holds_within hpos hheld
    have hfree := @free_occupied (run es) index start count _ hwithin
      (@ClaimKind.getLsbD_mask (.block count) (start % 64) hwithin) other
    have hstep : ((run es).step (.releaseBlock index start count)).occupied other =
        ((run es).free index start count (runMask count <<< (start % 64))).occupied other := by
      simp only [step, act, if_pos (And.intro hserved hheld), occupied]
    rw [hstep]
    exact hfree
  · intro r hr hnone hpos hle
    exact h.returned r hr hnone ((isServed_iff _).mpr ⟨hpos, hle⟩)

/-- Two threads hold the same snapshot; the one that loses the exchange takes the next id. -/
example : ((run [.call 0 .one, .call 1 .one, .load 0, .load 1, .exchange 0 false,
    .exchange 1 false, .exchange 1 true, .exchange 1 false]).returned.map Returned.result) =
      [some 0, some 1] := by
  decide

end IdWorld

end Kwokka
