import Kwokka.MultishotWorld

/-! What the slots, the streams and the cancel records agree on in every run: a
key held by a stream or by a queued record names the slot's current operation,
and an operation nobody holds is either over or being cancelled. -/

namespace Kwokka

open Function

section Effects

variable {ρ : Type}

/-- Everything routing a completion can do. `valid` holds of the slots the registry builds,
`stored` is what the queue keeps of a result and `discard` what is disposed of when no
consumer takes it. -/
inductive PushEffect (valid : MultishotSlot ρ → Prop) (stored : ρ → ρ)
    (discard : ρ → Bool → List ρ) (r : MultishotRegistry ρ) (slot generation : Nat) (v : ρ)
    (isMore : Bool) (out : MultishotCompletion ρ) : Prop
  | stale (hlive : r.isSlotLive slot generation = false) (hreg : out.registry = r)
      (hretire : out.retire = none) (hrel : out.released = discard v isMore)
  | cancelled (hlive : r.isSlotLive slot generation = true)
      (hpending : (r.slots slot).isCancelPending = true)
      (hreg : out.registry = if isMore then r else r.set slot (r.slots slot).freed)
      (hretire : out.retire = if isMore then none else some (r.slots slot).ownerToken)
      (hrel : out.released = discard v isMore)
  | overflowed (hlive : r.isSlotLive slot generation = true)
      (hpending : (r.slots slot).isCancelPending = false)
      (hfull : multishotFifoDepth ≤ (r.slots slot).fifo.length)
      (hreg : out.registry = r.set slot
        { r.slots slot with isTerminated := (r.slots slot).isTerminated || !isMore })
      (hretire : out.retire = if isMore then none else some (r.slots slot).ownerToken)
      (hrel : out.released = discard v isMore)
  | queued (s : MultishotSlot ρ) (hlive : r.isSlotLive slot generation = true)
      (hpending : (r.slots slot).isCancelPending = false) (hvalid : valid s)
      (hframe : (r.slots slot).SameFrame s)
      (hterm : s.isTerminated = ((r.slots slot).isTerminated || !isMore))
      (hmem : ∀ u ∈ s.contents, u = stored v ∨ u ∈ (r.slots slot).contents)
      (hcontents : (r.slots slot).terminal = none →
        s.contents = (r.slots slot).contents ++ [stored v])
      (hreg : out.registry = r.set slot s)
      (hretire : out.retire = if isMore then none else some (r.slots slot).ownerToken)
      (hrel : out.released = [])

inductive CancelEffect (valid : MultishotSlot ρ → Prop) (r : MultishotRegistry ρ)
    (key : MultishotKey) (out : MultishotCancel ρ) : Prop
  | stale (hlive : r.isLive key = false) (hreg : out.registry = r)
      (hsubmitted : out.isSubmitted = true) (hrel : out.released = [])
  | freed (hlive : r.isLive key = true) (hterm : (r.slots key.slot).isTerminated = true)
      (hreg : out.registry = r.set key.slot (r.slots key.slot).freed)
      (hsubmitted : out.isSubmitted = false) (hrel : out.released = (r.slots key.slot).contents)
  | marked (s : MultishotSlot ρ) (hlive : r.isLive key = true) (hvalid : valid s)
      (hoccupied : s.isOccupied = true) (hfrees : s.frees = (r.slots key.slot).frees)
      (howner : s.ownerToken = (r.slots key.slot).ownerToken)
      (hpending : s.isCancelPending = true) (hempty : s.contents = [])
      (hreg : out.registry = r.set key.slot s) (hsubmitted : out.isSubmitted = true)
      (hrel : out.released = (r.slots key.slot).contents)

inductive NextEffect (valid : MultishotSlot ρ → Prop) (r : MultishotRegistry ρ)
    (key : MultishotKey) : MultishotNext ρ × MultishotRegistry ρ → Prop
  | stale (hlive : r.isLive key = false) : NextEffect valid r key (.pending, r)
  | item (v : ρ) (s : MultishotSlot ρ) (hlive : r.isLive key = true) (hvalid : valid s)
      (hframe : (r.slots key.slot).SameFrame s)
      (hterm : s.isTerminated = (r.slots key.slot).isTerminated)
      (hcontents : (r.slots key.slot).contents = v :: s.contents) :
      NextEffect valid r key (.item v, r.set key.slot s)
  | ended (hlive : r.isLive key = true) (hterm : (r.slots key.slot).isTerminated = true)
      (hempty : (r.slots key.slot).contents = []) :
      NextEffect valid r key (.ended, r.set key.slot (r.slots key.slot).freed)
  | waiting (hlive : r.isLive key = true) (hterm : (r.slots key.slot).isTerminated = false)
      (hempty : (r.slots key.slot).contents = []) : NextEffect valid r key (.pending, r)

structure MultishotProtocol.Lawful (p : MultishotProtocol ρ) (base : UInt64)
    (valid : MultishotSlot ρ → Prop) (stored : ρ → ρ) (discard : ρ → Bool → List ρ) : Prop where
  marker : ∀ key, key.slot < 2 ^ 16 → IsMarkerOf base key (p.encode key)
  routes : ∀ userData, userData &&& cancelTokenHighMask = base → p.routes userData = true
  opened : ∀ (s : MultishotSlot ρ) owner, valid (s.opened owner)
  freed : ∀ s : MultishotSlot ρ, valid s.freed
  ended : ∀ s isLast, valid s → valid { s with isTerminated := s.isTerminated || isLast }
  push : ∀ r userData v isMore, (∀ i, valid (r.slots i)) →
    PushEffect valid stored discard r (multishotSentinelSlot userData)
      (multishotSentinelGeneration userData) v isMore (p.pushCompletion r userData v isMore)
  cancel : ∀ r key, (∀ i, valid (r.slots i)) → CancelEffect valid r key (p.submitCancel r key)
  next : ∀ r key, (∀ i, valid (r.slots i)) → NextEffect valid r key (p.next r key)

end Effects

namespace MultishotRegistry

variable {ρ : Type} {r : MultishotRegistry ρ} {issued : List MultishotKey} {i : Nat}
  {s : MultishotSlot ρ} {k : MultishotKey}

def IsCurrent (r : MultishotRegistry ρ) (k : MultishotKey) : Prop :=
  k.occupancy = (r.slots k.slot).frees

def IsPast (r : MultishotRegistry ρ) (k : MultishotKey) : Prop :=
  k.occupancy < (r.slots k.slot).frees ∨ (r.slots k.slot).isCancelPending = true

structure Sound (r : MultishotRegistry ρ) (issued : List MultishotKey) : Prop where
  occupied : ∀ i, (r.slots i).isOccupied = true →
    i < r.cap ∧ (⟨i, (r.slots i).frees, r.workerId⟩ : MultishotKey) ∈ issued
  vacant : ∀ i, (r.slots i).isOccupied = false →
    (r.slots i).isCancelPending = false ∧ (r.slots i).contents = []
  emptied : ∀ i, (r.slots i).isCancelPending = true → (r.slots i).contents = []
  nodup : issued.Nodup
  owned : ∀ k ∈ issued, k.workerId = r.workerId ∧ k.slot < r.cap
  bound : ∀ k ∈ issued, k.occupancy ≤ (r.slots k.slot).frees
  current : ∀ k ∈ issued, r.IsCurrent k → (r.slots k.slot).isOccupied = true

theorem Sound.initial (workerId cap limit : Nat) :
    Sound (new workerId cap limit : MultishotRegistry ρ) [] where
  occupied i h := by simp [new, MultishotSlot.vacant] at h
  vacant i _ := by simp [new, MultishotSlot.vacant, MultishotSlot.contents]
  emptied i h := by simp [new, MultishotSlot.vacant] at h
  nodup := List.nodup_nil
  owned := by simp
  bound := by simp
  current := by simp

theorem Sound.eq_of_current (h : Sound r issued) {k k' : MultishotKey} (hk : k ∈ issued)
    (hk' : k' ∈ issued) (hc : r.IsCurrent k) (hc' : r.IsCurrent k') (hslot : k.slot = k'.slot) :
    k = k' := by
  have hocc : k.occupancy = k'.occupancy := by
    rw [hc, hc', hslot]
  have hworker : k.workerId = k'.workerId := by
    rw [(h.owned k hk).1, (h.owned k' hk').1]
  cases k
  cases k'
  simp_all

theorem Sound.isLive (h : Sound r issued) (hk : k ∈ issued) (hc : r.IsCurrent k) :
    r.isLive k = true := by
  have hgen : (r.slots k.slot).generation = k.generation := by
    rw [MultishotSlot.generation, MultishotKey.generation, ← show k.occupancy = _ from hc]
  exact isLive_iff.mpr ⟨(h.owned k hk).1, (h.owned k hk).2, h.current k hk hc, hgen⟩

/-- A completion reaches a slot only when the slot still holds the completion's operation,
unless the slot was reused `2 ^ 16` times. -/
theorem Sound.current_of_isSlotLive (h : Sound r issued) (hk : k ∈ issued)
    (hreuse : (r.slots k.slot).frees < k.occupancy + 2 ^ 16)
    (hlive : r.isSlotLive k.slot (k.occupancy % 2 ^ 16) = true) : r.IsCurrent k := by
  have hgen : (r.slots k.slot).frees % 2 ^ 64 % 2 ^ 16 = k.occupancy % 2 ^ 16 :=
    (isSlotLive_iff.mp hlive).2.2
  have hle := h.bound k hk
  have hcur : k.occupancy = (r.slots k.slot).frees := by omega
  exact hcur

theorem Sound.isSlotLive (h : Sound r issued) (hk : k ∈ issued) (hc : r.IsCurrent k) :
    r.isSlotLive k.slot (k.occupancy % 2 ^ 16) = true := by
  have hgen : (r.slots k.slot).generation % 2 ^ 16 = k.occupancy % 2 ^ 16 := by
    rw [MultishotSlot.generation, ← show k.occupancy = _ from hc,
      Nat.mod_mod_of_dvd _ (by decide : 2 ^ 16 ∣ 2 ^ 64)]
  exact isSlotLive_iff.mpr ⟨(h.owned k hk).2, h.current k hk hc, hgen⟩

section Updates

variable (h : Sound r issued)

include h

theorem Sound.of_slot {issued' : List MultishotKey} (hsub : ∀ k ∈ issued, k ∈ issued')
    (hnodup : issued'.Nodup)
    (hnew : ∀ k ∈ issued', k ∈ issued ∨ k.workerId = r.workerId ∧ k.slot = i ∧ i < r.cap)
    (hocc : s.isOccupied = true →
      i < r.cap ∧ (⟨i, s.frees, r.workerId⟩ : MultishotKey) ∈ issued')
    (hvacant : s.isOccupied = false → s.isCancelPending = false ∧ s.contents = [])
    (hempty : s.isCancelPending = true → s.contents = [])
    (hbound : ∀ k ∈ issued', k.slot = i → k.occupancy ≤ s.frees)
    (hcurrent : ∀ k ∈ issued', k.slot = i → k.occupancy = s.frees → s.isOccupied = true) :
    Sound (r.set i s) issued' := by
  have hold : ∀ k ∈ issued', k.slot ≠ i → k ∈ issued := by
    intro k hk hki
    rcases hnew k hk with hk | ⟨-, heq, -⟩
    · exact hk
    · exact absurd heq hki
  constructor
  · exact forall_set r (P := fun j t => t.isOccupied = true →
      j < r.cap ∧ (⟨j, t.frees, r.workerId⟩ : MultishotKey) ∈ issued')
      (fun j hj => ⟨(h.occupied j hj).1, hsub _ (h.occupied j hj).2⟩) hocc
  · exact forall_set r (P := fun _ t => t.isOccupied = false →
      t.isCancelPending = false ∧ t.contents = []) h.vacant hvacant
  · exact forall_set r (P := fun _ t => t.isCancelPending = true → t.contents = [])
      h.emptied hempty
  · exact hnodup
  · intro k hk
    rcases hnew k hk with hk | ⟨hworker, hki, hi⟩
    · exact h.owned k hk
    · exact ⟨hworker, hki ▸ hi⟩
  · intro k hk
    by_cases hki : k.slot = i
    · simpa [hki] using hbound k hk hki
    · rw [set_slots_of_ne r hki]
      exact h.bound k (hold k hk hki)
  · intro k hk hc
    by_cases hki : k.slot = i
    · have hfrees : k.occupancy = s.frees := by simpa [IsCurrent, hki] using hc
      simpa [hki] using hcurrent k hk hki hfrees
    · rw [IsCurrent, set_slots_of_ne r hki] at hc
      rw [set_slots_of_ne r hki]
      exact h.current k (hold k hk hki) hc

theorem Sound.keep (hocc : (r.slots i).isOccupied = true) (hocc' : s.isOccupied = true)
    (hfrees : s.frees = (r.slots i).frees) (hempty : s.isCancelPending = true → s.contents = []) :
    Sound (r.set i s) issued := by
  apply h.of_slot (fun _ hk => hk) h.nodup (fun _ hk => .inl hk)
  · intro _
    rw [hfrees]
    exact h.occupied i hocc
  · intro hs
    simp [hocc'] at hs
  · exact hempty
  · rintro k hk rfl
    rw [hfrees]
    exact h.bound k hk
  · intro _ _ _ _
    exact hocc'

theorem Sound.frame (hocc : (r.slots i).isOccupied = true)
    (hpending : (r.slots i).isCancelPending = false) (hframe : (r.slots i).SameFrame s) :
    Sound (r.set i s) issued := by
  apply h.keep hocc (hframe.occupied.trans hocc) hframe.frees
  intro hs
  simp [hframe.pending, hpending] at hs

theorem Sound.vacate (hocc : s.isOccupied = false) (hpending : s.isCancelPending = false)
    (hempty : s.contents = []) (hfrees : (r.slots i).frees < s.frees) :
    Sound (r.set i s) issued := by
  apply h.of_slot (fun _ hk => hk) h.nodup (fun _ hk => .inl hk)
  · intro hs
    simp [hocc] at hs
  · intro _
    exact ⟨hpending, hempty⟩
  · intro _
    exact hempty
  · rintro k hk rfl
    exact Nat.le_trans (h.bound k hk) (Nat.le_of_lt hfrees)
  · rintro k hk rfl heq
    have hle := h.bound k hk
    omega

theorem Sound.freed : Sound (r.set i (r.slots i).freed) issued :=
  h.vacate rfl rfl rfl (Nat.lt_succ_self _)

theorem Sound.fresh (hvacant : (r.slots i).isOccupied = false) :
    (⟨i, (r.slots i).frees, r.workerId⟩ : MultishotKey) ∉ issued := by
  intro hmem
  have hocc : (r.slots i).isOccupied = true := h.current _ hmem rfl
  simp [hvacant] at hocc

theorem Sound.opened (hi : i < r.cap) (hvacant : (r.slots i).isOccupied = false) (owner : Nat) :
    Sound (r.set i ((r.slots i).opened owner)) (⟨i, (r.slots i).frees, r.workerId⟩ :: issued) := by
  apply h.of_slot (fun _ hk => List.mem_cons_of_mem _ hk)
    (List.nodup_cons.mpr ⟨h.fresh hvacant, h.nodup⟩)
  · intro k hk
    rcases List.mem_cons.mp hk with rfl | hk
    · exact .inr ⟨rfl, rfl, hi⟩
    · exact .inl hk
  · intro _
    exact ⟨hi, List.mem_cons_self⟩
  · intro hs
    simp [MultishotSlot.opened] at hs
  · intro hs
    simp [MultishotSlot.opened] at hs
  · intro k hk hki
    rcases List.mem_cons.mp hk with rfl | hold
    · exact Nat.le_refl _
    · subst hki
      exact h.bound k hold
  · intro _ _ _ _
    rfl

end Updates

theorem IsPast.set (h : r.IsPast k) (hs : k.slot = i → (r.slots i).frees < s.frees ∨
    (r.slots i).frees = s.frees ∧ ((r.slots i).isCancelPending = true → s.isCancelPending = true))
    (hbound : k.occupancy ≤ (r.slots k.slot).frees) : (r.set i s).IsPast k := by
  by_cases hki : k.slot = i
  · subst hki
    rw [IsPast, set_slots_self]
    rcases hs rfl with hlt | ⟨heq, hpending⟩
    · exact .inl (Nat.lt_of_le_of_lt hbound hlt)
    · rcases h with hlt | hp
      · exact .inl (heq ▸ hlt)
      · exact .inr (hpending hp)
  · rwa [IsPast, set_slots_of_ne r hki]

theorem IsPast.freed (h : Sound r issued) (hk : k ∈ issued) (hp : r.IsPast k) :
    (r.set i (r.slots i).freed).IsPast k :=
  hp.set (fun _ => .inl (Nat.lt_succ_self _)) (h.bound k hk)

/-- `k` is the key of the slot's operation, and its cancel was not drained. -/
structure Holds (r : MultishotRegistry ρ) (issued : List MultishotKey) (k : MultishotKey) :
    Prop where
  issued : k ∈ issued
  current : r.IsCurrent k
  waiting : (r.slots k.slot).isCancelPending = false

/-- Streams and queued cancel records hold the keys that are in use, each key once. -/
structure Held (r : MultishotRegistry ρ) (issued : List MultishotKey)
    (states : Nat → StreamState) (inbox : List (Option MultishotKey)) : Prop where
  stream : ∀ j k, states j = .multishot k → r.Holds issued k
  unique : ∀ j j' k, states j = .multishot k → states j' = .multishot k → j = j'
  record : ∀ k, some k ∈ inbox → r.Holds issued k ∧ ∀ j, states j ≠ .multishot k
  nodup : (inbox.filterMap id).Nodup
  covered : ∀ k, r.Holds issued k → (∃ j, states j = .multishot k) ∨ some k ∈ inbox

theorem Holds.eq_of_slot {k' : MultishotKey} (hs : Sound r issued) (h : r.Holds issued k)
    (h' : r.Holds issued k') (hslot : k'.slot = k.slot) : k' = k :=
  hs.eq_of_current h'.issued h.issued h'.current h.current hslot

theorem holds_set_of_ne (hki : k.slot ≠ i) :
    (r.set i s).Holds issued k ↔ r.Holds issued k := by
  constructor
  · rintro ⟨hk, hc, hp⟩
    rw [IsCurrent, set_slots_of_ne r hki] at hc
    rw [set_slots_of_ne r hki] at hp
    exact ⟨hk, hc, hp⟩
  · rintro ⟨hk, hc, hp⟩
    refine ⟨hk, ?_, ?_⟩
    · rwa [IsCurrent, set_slots_of_ne r hki]
    · rwa [set_slots_of_ne r hki]

theorem holds_set_frame (hframe : (r.slots i).SameFrame s) :
    (r.set i s).Holds issued k ↔ r.Holds issued k := by
  by_cases hki : k.slot = i
  · subst hki
    constructor
    · rintro ⟨hk, hc, hp⟩
      rw [IsCurrent, set_slots_self, hframe.frees] at hc
      rw [set_slots_self, hframe.pending] at hp
      exact ⟨hk, hc, hp⟩
    · rintro ⟨hk, hc, hp⟩
      refine ⟨hk, ?_, ?_⟩
      · rwa [IsCurrent, set_slots_self, hframe.frees]
      · rwa [set_slots_self, hframe.pending]
  · exact holds_set_of_ne hki

section Holders

variable {states states' : Nat → StreamState} {inbox inbox' : List (Option MultishotKey)}

theorem Held.frame (h : r.Held issued states inbox) (hframe : (r.slots i).SameFrame s) :
    (r.set i s).Held issued states inbox where
  stream j k hj := (holds_set_frame hframe).mpr (h.stream j k hj)
  unique := h.unique
  record k hk := ⟨(holds_set_frame hframe).mpr (h.record k hk).1, (h.record k hk).2⟩
  nodup := h.nodup
  covered k hk := h.covered k ((holds_set_frame hframe).mp hk)

theorem Held.leave (h : r.Held issued states inbox)
    (hgone : ∀ k ∈ issued, k.slot = i → s.isCancelPending = true ∨ k.occupancy ≠ s.frees)
    (hstates : ∀ j k, states' j = .multishot k ↔ states j = .multishot k ∧ k.slot ≠ i)
    (hinbox : ∀ k, some k ∈ inbox' ↔ some k ∈ inbox ∧ k.slot ≠ i)
    (hnodup : (inbox'.filterMap id).Nodup) : (r.set i s).Held issued states' inbox' := by
  constructor
  · intro j k hj
    obtain ⟨hj, hki⟩ := (hstates j k).mp hj
    exact (holds_set_of_ne hki).mpr (h.stream j k hj)
  · intro j j' k hj hj'
    exact h.unique j j' k ((hstates j k).mp hj).1 ((hstates j' k).mp hj').1
  · intro k hk
    obtain ⟨hk, hki⟩ := (hinbox k).mp hk
    refine ⟨(holds_set_of_ne hki).mpr (h.record k hk).1, ?_⟩
    intro j hj
    exact (h.record k hk).2 j ((hstates j k).mp hj).1
  · exact hnodup
  · intro k hk
    have hki : k.slot ≠ i := by
      rintro rfl
      have hc := hk.current
      have hp := hk.waiting
      rw [IsCurrent, set_slots_self] at hc
      rcases hgone k hk.issued rfl with hpending | hne
      · simp [hpending] at hp
      · exact hne hc
    rcases h.covered k ((holds_set_of_ne hki).mp hk) with ⟨j, hj⟩ | hmem
    · exact .inl ⟨j, (hstates j k).mpr ⟨hj, hki⟩⟩
    · exact .inr ((hinbox k).mpr ⟨hmem, hki⟩)

theorem Held.nobody (h : r.Held issued states inbox)
    (hpending : (r.slots i).isCancelPending = true) :
    (∀ j k, states j = .multishot k → k.slot ≠ i) ∧ ∀ k, some k ∈ inbox → k.slot ≠ i := by
  constructor
  · rintro j k hj rfl
    have hp := (h.stream j k hj).waiting
    simp [hpending] at hp
  · rintro k hk rfl
    have hp := (h.record k hk).1.waiting
    simp [hpending] at hp

theorem Held.finish (hs : Sound r issued) (h : r.Held issued states inbox) {j : Nat}
    (hj : states j = .multishot k) {state : StreamState} (hstate : ∀ k', state ≠ .multishot k') :
    (r.set k.slot (r.slots k.slot).freed).Held issued (update states j state) inbox := by
  have hk := h.stream j k hj
  apply h.leave
  · rintro k' hk' hslot
    have hle := hs.bound k' hk'
    rw [hslot] at hle
    exact .inr (Nat.ne_of_lt (Nat.lt_succ_of_le hle))
  · intro j' k'
    by_cases hjj : j' = j
    · subst hjj
      rw [update_self]
      constructor
      · intro heq
        exact absurd heq (hstate k')
      · rintro ⟨heq, hne⟩
        rw [hj] at heq
        injection heq with heq
        exact absurd (congrArg MultishotKey.slot heq.symm) hne
    · rw [update_of_ne hjj]
      refine ⟨fun heq => ⟨heq, ?_⟩, fun heq => heq.1⟩
      intro hslot
      have hkk := hk.eq_of_slot hs (h.stream j' k' heq) hslot
      subst hkk
      exact hjj (h.unique j' j k' heq hj)
  · intro k'
    refine ⟨fun hmem => ⟨hmem, ?_⟩, fun hmem => hmem.1⟩
    intro hslot
    have hkk := hk.eq_of_slot hs (h.record k' hmem).1 hslot
    subst hkk
    exact (h.record k' hmem).2 j hj
  · exact h.nodup

theorem Held.drain (hs : Sound r issued) (h : r.Held issued states (some k :: inbox))
    (hgone : ∀ k' ∈ issued, k'.slot = k.slot → s.isCancelPending = true ∨ k'.occupancy ≠ s.frees) :
    (r.set k.slot s).Held issued states inbox := by
  obtain ⟨hk, hfree⟩ := h.record k List.mem_cons_self
  have hnodup : k ∉ inbox.filterMap id ∧ (inbox.filterMap id).Nodup := by
    simpa using h.nodup
  apply h.leave hgone
  · intro j k'
    refine ⟨fun heq => ⟨heq, ?_⟩, fun heq => heq.1⟩
    intro hslot
    have hkk := hk.eq_of_slot hs (h.stream j k' heq) hslot
    subst hkk
    exact hfree j heq
  · intro k'
    constructor
    · intro hmem
      refine ⟨List.mem_cons_of_mem _ hmem, ?_⟩
      intro hslot
      have hkk := hk.eq_of_slot hs (h.record k' (List.mem_cons_of_mem _ hmem)).1 hslot
      subst hkk
      exact hnodup.1 (List.mem_filterMap.mpr ⟨_, hmem, rfl⟩)
    · rintro ⟨hmem, hslot⟩
      rcases List.mem_cons.mp hmem with heq | hmem
      · injection heq with heq
        exact absurd (congrArg MultishotKey.slot heq) hslot
      · exact hmem
  · exact hnodup.2

theorem Holds.cons {key : MultishotKey} (h : r.Holds issued k) : r.Holds (key :: issued) k :=
  ⟨List.mem_cons_of_mem _ h.issued, h.current, h.waiting⟩

theorem Held.opened (hs : Sound r issued) (h : r.Held issued states inbox)
    (hvacant : (r.slots i).isOccupied = false) {j : Nat} (hidle : ∀ k, states j ≠ .multishot k)
    (owner : Nat) :
    let key : MultishotKey := ⟨i, (r.slots i).frees, r.workerId⟩
    (r.set i ((r.slots i).opened owner)).Held (key :: issued)
      (update states j (.multishot key)) inbox := by
  intro key
  have hnew : (r.set i ((r.slots i).opened owner)).Holds (key :: issued) key := by
    refine ⟨List.mem_cons_self, ?_, ?_⟩
    · simp [IsCurrent, key, MultishotSlot.opened]
    · simp [key, MultishotSlot.opened]
  have hne : ∀ k, r.Holds issued k → k.slot ≠ i := by
    rintro k hk rfl
    have hocc := hs.current k hk.issued hk.current
    simp [hvacant] at hocc
  have hold : ∀ k, r.Holds issued k →
      (r.set i ((r.slots i).opened owner)).Holds (key :: issued) k := by
    intro k hk
    exact ((holds_set_of_ne (hne k hk)).mpr hk).cons
  have hkey : ∀ k, r.Holds issued k → k ≠ key := by
    rintro k hk rfl
    exact hne key hk rfl
  constructor
  · intro j' k hj
    by_cases hjj : j' = j
    · subst hjj
      rw [update_self] at hj
      injection hj with hj
      exact hj ▸ hnew
    · rw [update_of_ne hjj] at hj
      exact hold k (h.stream j' k hj)
  · intro a b k ha hb
    by_cases haj : a = j <;> by_cases hbj : b = j
    · rw [haj, hbj]
    · subst haj
      rw [update_self] at ha
      rw [update_of_ne hbj] at hb
      injection ha with ha
      exact absurd ha.symm (hkey k (h.stream b k hb))
    · subst hbj
      rw [update_self] at hb
      rw [update_of_ne haj] at ha
      injection hb with hb
      exact absurd hb.symm (hkey k (h.stream a k ha))
    · rw [update_of_ne haj] at ha
      rw [update_of_ne hbj] at hb
      exact h.unique a b k ha hb
  · intro k hk
    obtain ⟨hk, hfree⟩ := h.record k hk
    refine ⟨hold k hk, ?_⟩
    intro j' hj
    by_cases hjj : j' = j
    · subst hjj
      rw [update_self] at hj
      injection hj with hj
      exact hkey k hk hj.symm
    · rw [update_of_ne hjj] at hj
      exact hfree j' hj
  · exact h.nodup
  · intro k hk
    rcases List.mem_cons.mp hk.issued with rfl | hmem
    · exact .inl ⟨j, update_self ..⟩
    · have hki : k.slot ≠ i := by
        rintro rfl
        have hc := hk.current
        rw [IsCurrent, set_slots_self] at hc
        have hocc := hs.current k hmem hc
        simp [hvacant] at hocc
      have hkold : r.Holds issued k := by
        obtain ⟨-, hc, hp⟩ := hk
        rw [IsCurrent, set_slots_of_ne r hki] at hc
        rw [set_slots_of_ne r hki] at hp
        exact ⟨hmem, hc, hp⟩
      rcases h.covered k hkold with ⟨j', hj⟩ | hrec
      · refine .inl ⟨j', ?_⟩
        rw [update_of_ne]
        · exact hj
        · rintro rfl
          exact hidle k hj
      · exact .inr hrec

theorem Held.drop (h : r.Held issued states inbox) {j : Nat} (hj : states j = .multishot k) :
    r.Held issued (update states j .dropped) (inbox ++ [some k]) := by
  have hnone : some k ∉ inbox := fun hmem => (h.record k hmem).2 j hj
  have hstates : ∀ j' k', update states j .dropped j' = .multishot k' ↔
      states j' = .multishot k' ∧ j' ≠ j := by
    intro j' k'
    by_cases hjj : j' = j
    · subst hjj
      simp
    · simp [hjj]
  constructor
  · intro j' k' hj'
    exact h.stream j' k' ((hstates j' k').mp hj').1
  · intro a b k' ha hb
    exact h.unique a b k' ((hstates a k').mp ha).1 ((hstates b k').mp hb).1
  · intro k' hk'
    rcases List.mem_append.mp hk' with hk' | hk'
    · refine ⟨(h.record k' hk').1, ?_⟩
      intro j' hj'
      exact (h.record k' hk').2 j' ((hstates j' k').mp hj').1
    · have heq : k' = k := by simpa using hk'
      subst heq
      refine ⟨h.stream j k' hj, ?_⟩
      intro j' hj'
      obtain ⟨hj', hne⟩ := (hstates j' k').mp hj'
      exact hne (h.unique j' j k' hj' hj)
  · rw [List.filterMap_append]
    have hk : k ∉ inbox.filterMap id := by simpa using hnone
    apply List.nodup_append.mpr
    refine ⟨h.nodup, by simp, ?_⟩
    rintro a ha b hb rfl
    have hak : a = k := by simpa using hb
    exact hk (hak ▸ ha)
  · intro k' hk'
    rcases h.covered k' hk' with ⟨j', hj'⟩ | hmem
    · by_cases hjj : j' = j
      · subst hjj
        rw [hj] at hj'
        injection hj' with heq
        exact .inr (by simp [heq])
      · exact .inl ⟨j', (hstates j' k').mpr ⟨hj', hjj⟩⟩
    · exact .inr (List.mem_append_left _ hmem)

theorem Held.restate (h : r.Held issued states inbox) {j : Nat} {state : StreamState}
    (hj : ∀ k, states j ≠ .multishot k) (hstate : ∀ k, state ≠ .multishot k) :
    r.Held issued (update states j state) inbox := by
  have hstates : ∀ j' k, update states j state j' = .multishot k ↔
      states j' = .multishot k := by
    intro j' k
    by_cases hjj : j' = j
    · subst hjj
      simp [hj k, hstate k]
    · rw [update_of_ne hjj]
  constructor
  · intro j' k hj'
    exact h.stream j' k ((hstates j' k).mp hj')
  · intro a b k ha hb
    exact h.unique a b k ((hstates a k).mp ha) ((hstates b k).mp hb)
  · intro k hk
    refine ⟨(h.record k hk).1, ?_⟩
    intro j' hj'
    exact (h.record k hk).2 j' ((hstates j' k).mp hj')
  · exact h.nodup
  · intro k hk
    rcases h.covered k hk with ⟨j', hj'⟩ | hmem
    · exact .inl ⟨j', (hstates j' k).mpr hj'⟩
    · exact .inr hmem

end Holders

end MultishotRegistry

end Kwokka
