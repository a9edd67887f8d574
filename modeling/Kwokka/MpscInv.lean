import Kwokka.MpscRing
import Kwokka.Runs
import Kwokka.Window

/-! What holds between two atomic operations of a ring in use: each position from
the oldest claimed one on is free, being written by the producer that claimed it,
or published. -/

namespace Kwokka

open Runs Function MpscRing

structure IsCapacity (N : Nat) : Prop where
  pow : ∃ k, N = 2 ^ k
  two_le : 2 ≤ N
  le : N ≤ 2 ^ 63

variable {N : Nat}

theorem IsCapacity.pos (hN : IsCapacity N) : 0 < N := Nat.lt_of_lt_of_le Nat.two_pos hN.two_le

theorem IsCapacity.dvd (hN : IsCapacity N) : N ∣ 2 ^ 64 := by
  obtain ⟨k, rfl⟩ := hN.pow
  have hle := hN.le
  have : k ≤ 63 := (Nat.pow_le_pow_iff_right (by omega)).mp hle
  exact Nat.pow_dvd_pow 2 (by omega)

theorem IsCapacity.mod_mod (hN : IsCapacity N) (P : Nat) : P % 2 ^ 64 % N = P % N :=
  Nat.mod_mod_of_dvd P hN.dvd

theorem MpscRing.slotIndex_mod (hN : IsCapacity N) (P : Nat) :
    slotIndex N (P % 2 ^ 64) = P % N := by
  rw [← hN.mod_mod P]
  obtain ⟨k, rfl⟩ := hN.pow
  exact Nat.and_two_pow_sub_one_eq_mod _ _

section Gaps

variable {P s : Nat}

theorem wrappingSub_eq (P s : Nat) : wrappingSub (s % 2 ^ 64) (P % 2 ^ 64) =
    (s % 2 ^ 64 + (2 ^ 64 - P % 2 ^ 64)) % 2 ^ 64 := rfl

theorem wrappingSub_of_le (hle : P ≤ s) (hlt : s < P + 2 ^ 64) :
    wrappingSub (s % 2 ^ 64) (P % 2 ^ 64) = s - P := by
  rw [wrappingSub_eq]
  omega

theorem wrappingSub_of_lt (hlt : s < P) (hle : P ≤ s + 2 ^ 64) :
    wrappingSub (s % 2 ^ 64) (P % 2 ^ 64) = (2 ^ 64 - (P - s)) % 2 ^ 64 := by
  rw [wrappingSub_eq]
  omega

theorem wrappingAdd_mod (P k : Nat) : wrappingAdd (P % 2 ^ 64) k = (P + k) % 2 ^ 64 := by
  simp [wrappingAdd]

end Gaps

def PushState.isSeeking {α : Type*} : PushState α → Bool
  | .loading _ | .looping _ _ | .claiming _ _ => true
  | _ => false

def PushState.value {α : Type*} : PushState α → Option α
  | .loading value | .looping _ value | .claiming _ value | .writing _ value => some value
  | _ => none

def PushState.owned {α : Type*} : PushState α → Option Nat
  | .writing pos _ | .publishing pos => some pos
  | _ => none

section Slots

variable {α : Type*} {N : Nat}

theorem MpscRing.slot_mod (hN : IsCapacity N) (ring : MpscRing α) (Q : Nat) :
    ring.slot N (Q % 2 ^ 64) = ring.slots (Q % N) := by
  rw [slot, slotIndex_mod hN]

theorem MpscRing.setSlot_mod (hN : IsCapacity N) (ring : MpscRing α) (Q j : Nat)
    (slot : MpscSlot α) :
    (ring.setSlot N (Q % 2 ^ 64) slot).slots j = if j = Q % N then slot else ring.slots j := by
  simp only [setSlot, slotIndex_mod hN, update_apply]

end Slots

namespace MpscWorld

variable {α : Type*} {N : Nat} {w w' : MpscWorld α}

/-- At most `bound` positions are claimed during a push before it claims its own. -/
def Within (bound : Nat) (w : MpscWorld α) : MpscEvent α → Prop
  | .produce p _ => (w.producers p).isSeeking = true → w.claims.length - w.since p ≤ bound
  | _ => True

instance (bound : Nat) (w : MpscWorld α) : ∀ e, Decidable (w.Within bound e)
  | .produce _ _ => inferInstanceAs (Decidable (_ → _))
  | .call _ _ | .callPop | .consume => inferInstanceAs (Decidable True)

/-- The position counter does not come round to the same value during a push. -/
abbrev Unlapped (w : MpscWorld α) (e : MpscEvent α) : Prop := w.Within (2 ^ 64 - 1) e

abbrev Unhurried (N : Nat) (w : MpscWorld α) (e : MpscEvent α) : Prop := w.Within (2 ^ 63 - N) e

theorem Unhurried.unlapped {e : MpscEvent α} (h : w.Unhurried N e) : w.Unlapped e := by
  cases e with
  | produce =>
    intro hseek
    have := h hseek
    omega
  | _ => trivial

inductive Effect (N : Nat) (w : MpscWorld α) : MpscEvent α → MpscWorld α → Prop
  | stay (e : MpscEvent α) : Effect N w e w
  | call {p : Nat} {value : α} (h : w.producers p = .idle) :
      Effect N w (.call p value) (w.call p value)
  | load {p : Nat} {b : Bool} {value : α} (h : w.producers p = .loading value) :
      Effect N w (.produce p b)
        { w with producers := update w.producers p (.looping w.ring.enqueuePos value) }
  | hit {p : Nat} {b : Bool} {pos : Nat} {value : α} (h : w.producers p = .looping pos value)
      (hgap : wrappingSub (w.ring.slot N pos).sequence pos = 0) :
      Effect N w (.produce p b)
        { w with producers := update w.producers p (.claiming pos value) }
  | refuse {p : Nat} {b : Bool} {pos : Nat} {value : α} (h : w.producers p = .looping pos value)
      (hgap : usizeMax / 2 < wrappingSub (w.ring.slot N pos).sequence pos) :
      Effect N w (.produce p b)
        { w with
          producers := update w.producers p .idle
          refused := w.refused ++ [(⟨p, w.lastCall p, value⟩, w.sawFull p)] }
  | lag {p : Nat} {b : Bool} {pos : Nat} {value : α} (h : w.producers p = .looping pos value) :
      Effect N w (.produce p b)
        { w with producers := update w.producers p (.loading value) }
  | claim {p : Nat} {b : Bool} {pos : Nat} {value : α} (h : w.producers p = .claiming pos value)
      (hpos : w.ring.enqueuePos = pos) :
      Effect N w (.produce p b)
        { w with
          ring := { w.ring with enqueuePos := wrappingAdd pos 1 }
          producers := update w.producers p (.writing pos value)
          claims := w.claims ++ [⟨p, w.lastCall p, value⟩] }
  | miss {p : Nat} {b : Bool} {pos : Nat} {value : α} (h : w.producers p = .claiming pos value) :
      Effect N w (.produce p b)
        { w with producers := update w.producers p (.looping w.ring.enqueuePos value) }
  | write {p : Nat} {b : Bool} {pos : Nat} {value : α} (h : w.producers p = .writing pos value) :
      Effect N w (.produce p b)
        { w with
          ring := w.ring.setSlot N pos { w.ring.slot N pos with cell := some value }
          producers := update w.producers p (.publishing pos) }
  | publish {p : Nat} {b : Bool} {pos : Nat} (h : w.producers p = .publishing pos) :
      Effect N w (.produce p b)
        { w with
          ring := w.ring.setSlot N pos { w.ring.slot N pos with sequence := wrappingAdd pos 1 }
          producers := update w.producers p .idle
          accepted := w.accepted ++ [(p, w.lastCall p)] }
  | enter (h : w.consumer = .idle) : Effect N w .callPop { w with consumer := .loading }
  | look (h : w.consumer = .loading) :
      Effect N w .consume { w with consumer := .looking w.ring.dequeuePos }
  | empty {pos : Nat} (h : w.consumer = .looking pos)
      (hgap : usizeMax / 2 < wrappingSub (w.ring.slot N pos).sequence (wrappingAdd pos 1)) :
      Effect N w .consume { w with consumer := .idle }
  | found {pos : Nat} (h : w.consumer = .looking pos)
      (hgap : ¬ usizeMax / 2 < wrappingSub (w.ring.slot N pos).sequence (wrappingAdd pos 1)) :
      Effect N w .consume { w with consumer := .reading pos }
  | read {pos : Nat} (h : w.consumer = .reading pos) :
      Effect N w .consume { w with consumer := .freeing pos (w.ring.slot N pos).cell }
  | free {pos : Nat} {value : MaybeUninit α} (h : w.consumer = .freeing pos value) :
      Effect N w .consume
        { w with
          ring := w.ring.setSlot N pos { w.ring.slot N pos with sequence := wrappingAdd pos N }
          consumer := .advancing pos value
          freed := w.freed + 1 }
  | advance {pos : Nat} {value : MaybeUninit α} (h : w.consumer = .advancing pos value) :
      Effect N w .consume
        { w with
          ring := { w.ring with dequeuePos := wrappingAdd pos 1 }
          consumer := .idle
          popped := w.popped ++ [value] }

theorem produce_effect (N : Nat) (w : MpscWorld α) (p : Nat) (b : Bool) :
    Effect N w (.produce p b) (w.produce N p b) := by
  cases h : w.producers p with
  | idle =>
    have : w.produce N p b = w := by
      have hid : update w.producers p .idle = w.producers := by
        rw [← h, update_eq_self]
      simp [produce, h, pushStep, won, hid]
    rw [this]
    exact .stay _
  | loading => simpa [produce, h, pushStep, won] using Effect.load (b := b) h
  | looping pos =>
    by_cases hzero : wrappingSub (w.ring.slot N pos).sequence pos = 0
    · simpa [produce, h, pushStep, won, hzero] using Effect.hit (b := b) h hzero
    · by_cases hgap : usizeMax / 2 < wrappingSub (w.ring.slot N pos).sequence pos
      · simpa [produce, h, pushStep, won, hzero, hgap] using Effect.refuse (b := b) h hgap
      · simpa [produce, h, pushStep, won, hzero, hgap] using Effect.lag (b := b) h
  | claiming pos =>
    by_cases hwin : w.ring.enqueuePos = pos ∧ b = false
    · obtain ⟨hpos, rfl⟩ := hwin
      simpa [produce, h, pushStep, won, hpos] using Effect.claim (b := false) h hpos
    · simpa [produce, h, pushStep, won, hwin] using Effect.miss (b := b) h
  | writing =>
    simpa [produce, h, pushStep, won] using Effect.write (b := b) h
  | publishing => simpa [produce, h, pushStep, won] using Effect.publish (b := b) h

theorem consume_effect (N : Nat) (w : MpscWorld α) : Effect N w .consume (w.consume N) := by
  cases h : w.consumer with
  | idle =>
    have : w.consume N = w := by
      simp only [consume, h, popStep]
      rw [← h]
    rw [this]
    exact .stay _
  | loading => simpa [consume, h, popStep] using Effect.look h
  | looking pos =>
    by_cases hgap : usizeMax / 2 < wrappingSub (w.ring.slot N pos).sequence (wrappingAdd pos 1)
    · simpa [consume, h, popStep, hgap] using Effect.empty h hgap
    · simpa [consume, h, popStep, hgap] using Effect.found h hgap
  | reading => simpa [consume, h, popStep] using Effect.read h
  | freeing => simpa [consume, h, popStep] using Effect.free h
  | advancing => simpa [consume, h, popStep] using Effect.advance h

def Published (N : Nat) (w : MpscWorld α) (Q : Nat) (c : PushItem α) : Prop :=
  w.ring.slots (Q % N) = ⟨(Q + 1) % 2 ^ 64, some c.value⟩

def Pending (N : Nat) (w : MpscWorld α) (Q : Nat) (c : PushItem α) : Prop :=
  (w.ring.slots (Q % N)).sequence = Q % 2 ^ 64 ∧ c.call + 1 = (w.asked c.producer).length ∧
    (w.producers c.producer = .writing (Q % 2 ^ 64) c.value ∨
      w.producers c.producer = .publishing (Q % 2 ^ 64) ∧
        (w.ring.slots (Q % N)).cell = some c.value)

def ConsumerAt (N : Nat) (w : MpscWorld α) : Prop :=
  match w.consumer with
  | .idle | .loading => w.freed = w.popped.length
  | .looking pos => w.freed = w.popped.length ∧ pos = w.freed % 2 ^ 64
  | .reading pos => w.freed = w.popped.length ∧ pos = w.freed % 2 ^ 64 ∧
      ∃ c, w.claims[w.freed]? = some c ∧ w.Published N w.freed c
  | .freeing pos value => w.freed = w.popped.length ∧ pos = w.freed % 2 ^ 64 ∧
      ∃ c, w.claims[w.freed]? = some c ∧ w.Published N w.freed c ∧ value = some c.value
  | .advancing pos value => w.freed = w.popped.length + 1 ∧ pos = w.popped.length % 2 ^ 64 ∧
      ∃ c, w.claims[w.popped.length]? = some c ∧ value = some c.value

def Aims (w : MpscWorld α) (p P pos : Nat) : Prop :=
  w.since p ≤ P ∧ P ≤ w.claims.length ∧ pos = P % 2 ^ 64

structure Positions (N : Nat) (w : MpscWorld α) : Prop where
  enqueue : w.ring.enqueuePos = w.claims.length % 2 ^ 64
  dequeue : w.ring.dequeuePos = w.popped.length % 2 ^ 64
  le : w.freed ≤ w.claims.length
  room : w.claims.length ≤ w.freed + N
  free : ∀ Q, w.claims.length ≤ Q → Q < w.freed + N →
    (w.ring.slots (Q % N)).sequence = Q % 2 ^ 64
  taken : ∀ Q c, w.freed ≤ Q → w.claims[Q]? = some c → w.Published N Q c ∨ w.Pending N Q c
  owner : ∀ p pos, (w.producers p).owned = some pos →
    ∃ Q c, w.freed ≤ Q ∧ w.claims[Q]? = some c ∧ c.producer = p ∧ w.Pending N Q c
  looping : ∀ p pos value, w.producers p = .looping pos value → ∃ P, w.Aims p P pos
  claiming : ∀ p pos value, w.producers p = .claiming pos value →
    ∃ P, w.Aims p P pos ∧ (P = w.claims.length → P < w.freed + N)
  since : ∀ p, w.since p ≤ w.claims.length
  consumer : w.ConsumerAt N
  popped : w.popped = (w.claims.take w.popped.length).map fun c => some c.value

variable {Q : Nat} {c : PushItem α}

theorem Published.of_slot (h : w.Published N Q c)
    (hslot : w'.ring.slots (Q % N) = w.ring.slots (Q % N)) : w'.Published N Q c := hslot.trans h

theorem Pending.of_slot (h : w.Pending N Q c) (hslot : w'.ring.slots (Q % N) = w.ring.slots (Q % N))
    (hprod : w'.producers c.producer = w.producers c.producer)
    (hasked : w'.asked c.producer = w.asked c.producer) : w'.Pending N Q c := by
  simpa only [Pending, hslot, hprod, hasked] using h

theorem Pending.owned (h : w.Pending N Q c) :
    (w.producers c.producer).owned = some (Q % 2 ^ 64) := by
  rcases h.2.2 with hw | ⟨hp, -⟩
  · rw [hw]
    rfl
  · rw [hp]
    rfl

theorem Pending.not_published {d : PushItem α} (h : w.Pending N Q c) : ¬ w.Published N Q d := by
  intro hpub
  have hseq := h.1
  rw [hpub] at hseq
  dsimp only at hseq
  omega

namespace Positions

variable {e : MpscEvent α}

section

variable (h : w.Positions N)

include h

theorem lt_add {Q : Nat} {c : PushItem α} (hc : w.claims[Q]? = some c) :
    Q < w.freed + N := by
  obtain ⟨hlt, -⟩ := List.getElem?_eq_some_iff.mp hc
  have := h.room
  omega

theorem reseat (p : Nat) {producers : Nat → PushState α} {asked : Nat → List α} {since : Nat → Nat}
    {refused : List (PushItem α × Bool)} {sawFull : Nat → Bool}
    (hother : ∀ q, q ≠ p → producers q = w.producers q ∧ asked q = w.asked q ∧ since q = w.since q)
    (hold : (w.producers p).owned = none) (hnew : (producers p).owned = none)
    (hsince : since p ≤ w.claims.length)
    (hloop : ∀ pos value, producers p = .looping pos value →
      ∃ P, since p ≤ P ∧ P ≤ w.claims.length ∧ pos = P % 2 ^ 64)
    (hclaim : ∀ pos value, producers p = .claiming pos value →
      ∃ P, (since p ≤ P ∧ P ≤ w.claims.length ∧ pos = P % 2 ^ 64) ∧
        (P = w.claims.length → P < w.freed + N)) :
    Positions N { w with producers, asked, since, refused, sawFull } := by
  have hpend : ∀ Q c, w.Pending N Q c →
      Pending N { w with producers, asked, since, refused, sawFull } Q c := by
    intro Q c hpend
    have hne : c.producer ≠ p := by
      rintro rfl
      simp [hpend.owned] at hold
    obtain ⟨hprod, hasked, -⟩ := hother _ hne
    exact hpend.of_slot rfl hprod hasked
  have haims : ∀ q P pos, q ≠ p → w.Aims q P pos →
      Aims { w with producers, asked, since, refused, sawFull } q P pos := by
    rintro q P pos hne ⟨hlo, haim⟩
    obtain ⟨-, -, hs⟩ := hother q hne
    exact ⟨hs.trans_le hlo, haim⟩
  refine ⟨h.enqueue, h.dequeue, h.le, h.room, h.free, ?_, ?_, ?_, ?_, ?_, h.consumer, h.popped⟩
  · intro Q c hQ hc
    exact (h.taken Q c hQ hc).imp id (hpend Q c)
  · intro q pos hq
    have hne : q ≠ p := by
      rintro rfl
      simp [hnew] at hq
    obtain ⟨Q, c, hQ, hc, hprod, hp⟩ := h.owner q pos ((hother q hne).1 ▸ hq)
    exact ⟨Q, c, hQ, hc, hprod, hpend Q c hp⟩
  · intro q pos value hq
    by_cases hne : q = p
    · subst hne
      exact hloop pos value hq
    · obtain ⟨P, haim⟩ := h.looping q pos value ((hother q hne).1 ▸ hq)
      exact ⟨P, haims q P pos hne haim⟩
  · intro q pos value hq
    by_cases hne : q = p
    · subst hne
      exact hclaim pos value hq
    · obtain ⟨P, haim, hlt⟩ := h.claiming q pos value ((hother q hne).1 ▸ hq)
      exact ⟨P, haims q P pos hne haim, hlt⟩
  · intro q
    by_cases hne : q = p
    · subst hne
      exact hsince
    · exact (hother q hne).2.2.trans_le (h.since q)

theorem recur {st : PopState α}
    (hst : ConsumerAt N { w with consumer := st }) : Positions N { w with consumer := st } :=
  ⟨h.enqueue, h.dequeue, h.le, h.room, h.free, h.taken, h.owner, h.looping, h.claiming, h.since,
    hst, h.popped⟩

/-- What a slot's sequence says about the one position of the window that it stands for. -/
theorem sequence_at (hN : IsCapacity N) (P : Nat) :
    ∃ Q s, w.freed ≤ Q ∧ Q < w.freed + N ∧ Q % N = P % N ∧
      (w.ring.slot N (P % 2 ^ 64)).sequence = s % 2 ^ 64 ∧
      (s = Q ∨ s = Q + 1 ∧ Q < w.claims.length) := by
  obtain ⟨Q, hlo, hhi, hmod⟩ := Window.exists_mod_eq hN.pos w.freed P
  have hslot : w.ring.slot N (P % 2 ^ 64) = w.ring.slots (Q % N) := by
    rw [slot_mod hN, hmod]
  by_cases hQ : Q < w.claims.length
  · have hc := List.getElem?_eq_getElem hQ
    rcases h.taken Q _ hlo hc with hpub | hpend
    · exact ⟨Q, Q + 1, hlo, hhi, hmod, by rw [hslot, hpub], .inr ⟨rfl, hQ⟩⟩
    · exact ⟨Q, Q, hlo, hhi, hmod, hslot ▸ hpend.1, .inl rfl⟩
  · exact ⟨Q, Q, hlo, hhi, hmod, hslot ▸ h.free Q (by omega) hhi, .inl rfl⟩

theorem lt_of_hit (hN : IsCapacity N) {P : Nat} (hP : P = w.claims.length)
    (hgap : wrappingSub (w.ring.slot N (P % 2 ^ 64)).sequence (P % 2 ^ 64) = 0) :
    P < w.freed + N := by
  obtain ⟨Q, s, hlo, hhi, hmod, hseq, hs⟩ := h.sequence_at hN P
  have hroom := h.room
  have hcap := hN.le
  have hfreed := h.le
  rw [hseq] at hgap
  rcases Nat.lt_or_ge s P with hlt | hge
  · rw [wrappingSub_of_lt hlt (by omega)] at hgap
    omega
  · rw [wrappingSub_of_le hge (by omega)] at hgap
    rcases hs with rfl | ⟨rfl, -⟩
    · omega
    · have hP : P = Q + 1 := by omega
      exact absurd (hP ▸ hmod).symm (Window.succ_mod_ne hN.two_le Q)

theorem full_of_gap (hN : IsCapacity N) {P : Nat} (hle : P ≤ w.claims.length)
    (hbound : w.claims.length - P ≤ 2 ^ 63 - N)
    (hgap : usizeMax / 2 < wrappingSub (w.ring.slot N (P % 2 ^ 64)).sequence (P % 2 ^ 64)) :
    N ≤ w.outstanding := by
  obtain ⟨Q, s, hlo, hhi, hmod, hseq, hs⟩ := h.sequence_at hN P
  have hcap := hN.le
  have hfreed := h.le
  have hhalf : usizeMax / 2 = 2 ^ 63 - 1 := rfl
  rw [hseq] at hgap
  rcases Nat.lt_or_ge s P with hlt | hge
  · have := Window.add_le_of_mod_eq hmod (by omega)
    unfold outstanding
    omega
  · rw [wrappingSub_of_le hge (by omega)] at hgap
    omega

theorem unpublished_of_empty (hN : IsCapacity N)
    (hgap : usizeMax / 2 < wrappingSub (w.ring.slot N (w.freed % 2 ^ 64)).sequence
      (wrappingAdd (w.freed % 2 ^ 64) 1))
    (c : PushItem α) (hc : w.claims[w.freed]? = some c) :
    w.Pending N w.freed c := by
  rcases h.taken w.freed c (Nat.le_refl _) hc with hpub | hpend
  · have hzero := wrappingSub_of_le (Nat.le_refl (w.freed + 1)) (by omega)
    rw [slot_mod hN, hpub, wrappingAdd_mod, hzero] at hgap
    simp at hgap
  · exact hpend

theorem published_of_found (hN : IsCapacity N)
    (hgap : ¬ usizeMax / 2 < wrappingSub (w.ring.slot N (w.freed % 2 ^ 64)).sequence
      (wrappingAdd (w.freed % 2 ^ 64) 1)) :
    ∃ c, w.claims[w.freed]? = some c ∧ w.Published N w.freed c := by
  have hhalf : usizeMax / 2 = 2 ^ 63 - 1 := rfl
  have hbehind : (w.ring.slots (w.freed % N)).sequence ≠ w.freed % 2 ^ 64 := by
    intro hseq
    rw [slot_mod hN, hseq, wrappingAdd_mod, wrappingSub_of_lt (by omega) (by omega)] at hgap
    omega
  have htwo := hN.two_le
  cases hc : w.claims[w.freed]? with
  | none =>
    have := List.getElem?_eq_none_iff.mp hc
    exact absurd (h.free w.freed this (by omega)) hbehind
  | some c =>
    rcases h.taken w.freed c (Nat.le_refl _) hc with hpub | hpend
    · exact ⟨c, rfl, hpub⟩
    · exact absurd hpend.1 hbehind

theorem popped_le : w.popped.length ≤ w.freed ∧ w.freed ≤ w.popped.length + 1 := by
  have hcons := h.consumer
  unfold ConsumerAt at hcons
  split at hcons <;> omega

theorem consumerAt_of (hcons : w'.consumer = w.consumer) (hfreed : w'.freed = w.freed)
    (hpopped : w'.popped = w.popped)
    (hclaims : ∀ (Q : Nat) c, w.claims[Q]? = some c → w'.claims[Q]? = some c)
    (hpub : ∀ c, w.claims[w.freed]? = some c → w.Published N w.freed c → w'.Published N w.freed c) :
    w'.ConsumerAt N := by
  have hold := h.consumer
  unfold ConsumerAt at hold ⊢
  rw [hcons, hfreed, hpopped]
  cases hst : w.consumer <;> rw [hst] at hold <;> dsimp only at hold ⊢
  case idle | loading | looking => exact hold
  case reading =>
    obtain ⟨hlen, hpos, c, hc, hp⟩ := hold
    exact ⟨hlen, hpos, c, hclaims _ c hc, hpub c hc hp⟩
  case freeing =>
    obtain ⟨hlen, hpos, c, hc, hp, hv⟩ := hold
    exact ⟨hlen, hpos, c, hclaims _ c hc, hpub c hc hp, hv⟩
  case advancing =>
    obtain ⟨hlen, hpos, c, hc, hv⟩ := hold
    exact ⟨hlen, hpos, c, hclaims _ c hc, hv⟩

end

variable {pos : Nat}

theorem claim (h : w.Positions N) (hN : IsCapacity N) {p : Nat} {value : α}
    (hp : w.producers p = .claiming pos value) (hpos : w.ring.enqueuePos = pos)
    (hbound : w.claims.length - w.since p ≤ 2 ^ 64 - 1)
    (hcall : w.lastCall p + 1 = (w.asked p).length) (hw : w' = { w with
      ring := { w.ring with enqueuePos := wrappingAdd pos 1 }
      producers := update w.producers p (.writing pos value)
      claims := w.claims ++ [⟨p, w.lastCall p, value⟩] }) : w'.Positions N := by
  obtain ⟨P, ⟨hlo, hhi, rfl⟩, hlt⟩ := h.claiming p pos value hp
  have hcap := hN.le
  obtain rfl : w.claims.length = P := by
    have := h.enqueue
    omega
  replace hlt := hlt rfl
  have hpopped := h.popped_le
  have hle := h.le
  have hold : ∀ (Q : Nat) c, w.claims[Q]? = some c → w'.claims[Q]? = some c := by
    intro Q c hc
    rw [hw]
    exact (List.getElem?_append_left (List.getElem?_eq_some_iff.mp hc).1).trans hc
  have hframe : ∀ {Q c}, w.Pending N Q c → w'.Pending N Q c := by
    intro Q c hpend
    -- nobody else's claim is the claimant's
    have hne : c.producer ≠ p := by
      rintro rfl
      have := hpend.owned
      rw [hp] at this
      cases this
    subst hw
    exact hpend.of_slot rfl (update_of_ne hne ..) rfl
  have hnew : w'.Pending N w.claims.length ⟨p, w.lastCall p, value⟩ := by
    subst hw
    exact ⟨h.free _ (Nat.le_refl _) hlt, hcall, .inl (update_self ..)⟩
  subst hw
  have hlen : (w.claims ++ [(⟨p, w.lastCall p, value⟩ : PushItem α)]).length =
      w.claims.length + 1 := List.length_append
  refine ⟨?_, h.dequeue, ?_, ?_, ?_, ?_, ?_, ?_, ?_, ?_, ?_, ?_⟩
  · dsimp only
    rw [hlen, wrappingAdd_mod]
  · dsimp only
    omega
  · dsimp only
    omega
  · intro Q hQ hQ'
    dsimp only at hQ
    exact h.free Q (by omega) hQ'
  · intro Q c hQ hc
    dsimp only at hc
    rcases Nat.lt_or_ge Q w.claims.length with hlt' | hge
    · rw [List.getElem?_append_left hlt'] at hc
      exact (h.taken Q c hQ hc).imp id hframe
    · have hQlt := (List.getElem?_eq_some_iff.mp hc).1
      obtain rfl : Q = w.claims.length := by omega
      rw [List.getElem?_concat_length] at hc
      exact .inr (Option.some.inj hc ▸ hnew)
  · intro q pos' hq
    by_cases hne : q = p
    · subst hne
      exact ⟨_, _, hle, List.getElem?_concat_length, rfl, hnew⟩
    · dsimp only at hq
      rw [update_of_ne hne] at hq
      obtain ⟨Q, c, hQ, hc, hprod, hpend⟩ := h.owner q pos' hq
      exact ⟨Q, c, hQ, hold Q c hc, hprod, hframe hpend⟩
  · intro q pos' value' hq
    dsimp only at hq
    rw [update_apply] at hq
    split at hq
    · cases hq
    · obtain ⟨P', hlo', hhi', hP'⟩ := h.looping q pos' value' hq
      exact ⟨P', hlo', by dsimp only; omega, hP'⟩
  · intro q pos' value' hq
    dsimp only at hq
    rw [update_apply] at hq
    split at hq
    · cases hq
    · obtain ⟨P', ⟨hlo', hhi', hP'⟩, -⟩ := h.claiming q pos' value' hq
      exact ⟨P', ⟨hlo', by dsimp only; omega, hP'⟩, by dsimp only; omega⟩
  · intro q
    have := h.since q
    dsimp only
    omega
  · exact h.consumerAt_of rfl rfl rfl hold fun c _ hpub => hpub
  · dsimp only
    rw [List.take_append_of_le_length (by omega)]
    exact h.popped

theorem fill (h : w.Positions N) (hN : IsCapacity N) {Q : Nat} {c : PushItem α} {slot : MpscSlot α}
    {st : PushState α} {accepted : List (Nat × Nat)} (hQ : w.freed ≤ Q) (hc : w.claims[Q]? = some c)
    (hpend : w.Pending N Q c)
    (hnew : slot = ⟨(Q + 1) % 2 ^ 64, some c.value⟩ ∧ st = .idle ∨
      slot = ⟨Q % 2 ^ 64, some c.value⟩ ∧ st = .publishing (Q % 2 ^ 64))
    (hw : w' = { w with
      ring := w.ring.setSlot N (Q % 2 ^ 64) slot
      producers := update w.producers c.producer st
      accepted }) : w'.Positions N := by
  have hlt := h.lt_add hc
  have hQlt := (List.getElem?_eq_some_iff.mp hc).1
  have hcap := hN.le
  have hself : w'.ring.slots (Q % N) = slot := by
    rw [hw]
    exact (setSlot_mod hN ..).trans (if_pos rfl)
  have hother : ∀ Q', w.freed ≤ Q' → Q' < w.freed + N → Q' ≠ Q →
      w'.ring.slots (Q' % N) = w.ring.slots (Q' % N) := by
    intro Q' hlo hhi hne
    rw [hw]
    exact (setSlot_mod hN ..).trans
      (if_neg fun hmod => hne (Window.eq_of_mod_eq hlo hhi hQ hlt hmod))
  have hframe : ∀ {Q' c'}, w.freed ≤ Q' → w.claims[Q']? = some c' → Q' ≠ Q → w.Pending N Q' c' →
      w'.Pending N Q' c' := by
    intro Q' c' hQ' hc' hne hpend'
    have hlt' := h.lt_add hc'
    -- two pending positions of one producer are the same
    have hprod' : c'.producer ≠ c.producer := by
      intro heq
      have hpos := hpend'.owned
      rw [heq, hpend.owned] at hpos
      have := Option.some.inj hpos
      omega
    refine hpend'.of_slot (hother Q' hQ' hlt' hne) ?_ (by rw [hw])
    rw [hw]
    exact update_of_ne hprod' ..
  have hmine : w'.Published N Q c ∧ st = .idle ∨ w'.Pending N Q c := by
    rcases hnew with ⟨rfl, rfl⟩ | ⟨rfl, rfl⟩
    · exact .inl ⟨hself, rfl⟩
    · refine .inr ⟨by rw [hself], by rw [hw]; exact hpend.2.1, .inr ⟨?_, by rw [hself]⟩⟩
      rw [hw]
      exact update_self ..
  have hseek : st.isSeeking = false := by rcases hnew with ⟨-, rfl⟩ | ⟨-, rfl⟩ <;> rfl
  subst hw
  refine ⟨h.enqueue, h.dequeue, h.le, h.room, ?_, ?_, ?_, ?_, ?_, h.since, ?_, h.popped⟩
  · intro Q' hQ' hhi
    dsimp only at hQ' hhi
    rw [hother Q' (Nat.le_trans h.le hQ') hhi (by omega)]
    exact h.free Q' hQ' hhi
  · intro Q' c' hQ' hc'
    by_cases hne : Q' = Q
    · subst hne
      cases hc.symm.trans hc'
      exact hmine.imp And.left id
    · rcases h.taken Q' c' hQ' hc' with hpub | hpend'
      · exact .inl (hpub.of_slot (hother Q' hQ' (h.lt_add hc') hne))
      · exact .inr (hframe hQ' hc' hne hpend')
  · intro q pos' hq
    dsimp only at hq
    rw [update_apply] at hq
    split at hq
    · next heq =>
      rcases hmine with ⟨-, rfl⟩ | hpend'
      · cases hq
      · exact ⟨Q, c, hQ, hc, heq.symm, hpend'⟩
    · next hne =>
      obtain ⟨Q', c', hQ', hc', rfl, hpend'⟩ := h.owner q pos' hq
      have hQne : Q' ≠ Q := by
        rintro rfl
        exact hne (congrArg PushItem.producer (Option.some.inj (hc'.symm.trans hc)))
      exact ⟨Q', c', hQ', hc', rfl, hframe hQ' hc' hQne hpend'⟩
  · intro q pos' value' hq
    dsimp only at hq
    rw [update_apply] at hq
    split at hq
    · rw [hq] at hseek
      cases hseek
    · exact h.looping q pos' value' hq
  · intro q pos' value' hq
    dsimp only at hq
    rw [update_apply] at hq
    split at hq
    · rw [hq] at hseek
      cases hseek
    · exact h.claiming q pos' value' hq
  · refine h.consumerAt_of rfl rfl rfl (fun _ _ h => h) ?_
    intro d hd hpub
    have hne : w.freed ≠ Q := by
      rintro rfl
      exact hpend.not_published hpub
    exact hpub.of_slot (hother _ (Nat.le_refl _) (by have := hN.pos; omega) hne)

theorem release (h : w.Positions N) (hN : IsCapacity N) {value : MaybeUninit α}
    (hc : w.consumer = .freeing pos value) (hw : w' = { w with
      ring := w.ring.setSlot N pos { w.ring.slot N pos with sequence := wrappingAdd pos N }
      consumer := .advancing pos value
      freed := w.freed + 1 }) : w'.Positions N := by
  have hcons := h.consumer
  simp only [ConsumerAt, hc] at hcons
  obtain ⟨hlen, rfl, c, hcl, hpub, rfl⟩ := hcons
  have hQlt := (List.getElem?_eq_some_iff.mp hcl).1
  have hroom := h.room
  have hself : w'.ring.slots (w.freed % N) = ⟨(w.freed + N) % 2 ^ 64, some c.value⟩ := by
    rw [hw]
    rw [setSlot_mod hN, if_pos rfl, slot_mod hN, hpub, wrappingAdd_mod]
  have hother : ∀ Q, w.freed < Q → Q < w.freed + N → w'.ring.slots (Q % N) = w.ring.slots (Q % N) := by
    intro Q hlo hhi
    rw [hw]
    rw [setSlot_mod hN, if_neg]
    intro hmod
    have := Window.eq_of_mod_eq (Nat.le_of_lt hlo) hhi (Nat.le_refl _) (by omega) hmod
    omega
  have hframe : ∀ {Q d}, w.freed ≤ Q → w.claims[Q]? = some d → w.Pending N Q d →
      w.freed < Q ∧ w'.Pending N Q d := by
    intro Q d hQ hd hpend
    have hne : w.freed ≠ Q := by
      rintro rfl
      exact hpend.not_published hpub
    refine ⟨by omega, hpend.of_slot (hother Q (by omega) (h.lt_add hd)) ?_ ?_⟩ <;> rw [hw]
  subst hw
  refine ⟨h.enqueue, h.dequeue, hQlt, ?_, ?_, ?_, ?_, h.looping, ?_, h.since, ?_, h.popped⟩
  · dsimp only
    omega
  · intro Q hQ hhi
    dsimp only at hQ hhi
    rcases Nat.lt_or_ge Q (w.freed + N) with hlt | hge
    · rw [hother Q (by omega) hlt]
      exact h.free Q hQ hlt
    · obtain rfl : Q = w.freed + N := by omega
      rw [Nat.add_mod_right, hself]
  · intro Q d hQ hd
    dsimp only at hQ
    rcases h.taken Q d (by omega) hd with hp | hp
    · exact .inl (hp.of_slot (hother Q (by omega) (h.lt_add hd)))
    · exact .inr (hframe (by omega) hd hp).2
  · intro q pos' hq
    obtain ⟨Q, d, hQ, hd, hprod', hp⟩ := h.owner q pos' hq
    obtain ⟨hlt, hp'⟩ := hframe hQ hd hp
    exact ⟨Q, d, hlt, hd, hprod', hp'⟩
  · intro q pos' value' hq
    obtain ⟨P, haim, hlt⟩ := h.claiming q pos' value' hq
    exact ⟨P, haim, fun hP => Nat.lt_of_lt_of_le (hlt hP) (by dsimp only; omega)⟩
  · refine ⟨by rw [hlen], by rw [hlen], c, ?_, rfl⟩
    rw [← hlen]
    exact hcl

theorem advance (h : w.Positions N) {value : MaybeUninit α} (hc : w.consumer = .advancing pos value)
    (hw : w' = { w with
      ring := { w.ring with dequeuePos := wrappingAdd pos 1 }
      consumer := .idle
      popped := w.popped ++ [value] }) : w'.Positions N := by
  have hcons := h.consumer
  simp only [ConsumerAt, hc] at hcons
  obtain ⟨hlen, rfl, c, hcl, rfl⟩ := hcons
  have hpopped : (w.popped ++ [some c.value]).length = w.popped.length + 1 := by simp
  subst hw
  refine ⟨h.enqueue, ?_, h.le, h.room, h.free, h.taken, h.owner, h.looping, h.claiming, h.since, ?_,
    ?_⟩
  · dsimp only
    rw [wrappingAdd_mod, hpopped]
  · simp only [ConsumerAt]
    rw [hpopped, hlen]
  · dsimp only
    rw [hpopped, List.take_add_one, hcl, List.map_append, ← h.popped]
    rfl

end Positions

end MpscWorld

end Kwokka
