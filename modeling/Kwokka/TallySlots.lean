import Kwokka.TallyWorld

/-! The multishot slots as the in-flight counter sees them: the slot of an operation
that has not ended names the operation's owner until its last completion is drained. -/

namespace Kwokka

open MultishotRegistry

namespace MultishotRegistry

variable {ρ : Type} {valid : MultishotSlot ρ → Prop} {issued : List MultishotKey}
  {r : MultishotRegistry ρ} {i : Nat} {s : MultishotSlot ρ} {k key : MultishotKey}

theorem Sound.perm {issued' : List MultishotKey} (h : Sound r issued) (hp : issued.Perm issued') :
    Sound r issued' where
  occupied i hi := ⟨(h.occupied i hi).1, hp.mem_iff.mp (h.occupied i hi).2⟩
  vacant := h.vacant
  emptied := h.emptied
  nodup := hp.nodup_iff.mp h.nodup
  owned k hk := h.owned k (hp.mem_iff.mpr hk)
  bound k hk := h.bound k (hp.mem_iff.mpr hk)
  current k hk := h.current k (hp.mem_iff.mpr hk)

structure Runs (r : MultishotRegistry ρ) (k : MultishotKey) : Prop where
  current : r.IsCurrent k
  unended : (r.slots k.slot).isTerminated = false

structure Keeps (valid : MultishotSlot ρ → Prop) (issued : List MultishotKey)
    (ended : MultishotKey → Prop) (r r' : MultishotRegistry ρ) : Prop where
  slots : r'.Sound issued
  valid : ∀ i, valid (r'.slots i)
  cap : r'.cap = r.cap
  owned : ∀ k ∈ issued, r'.IsCurrent k →
    r.IsCurrent k ∧ (r'.slots k.slot).ownerToken = (r.slots k.slot).ownerToken
  runs : ∀ k ∈ issued, ¬ ended k → r.Runs k → r'.Runs k

section Changes

variable {ended : MultishotKey → Prop} (hs : Sound r issued) (hvalid : ∀ i, valid (r.slots i))

include hs hvalid

theorem Keeps.refl : Keeps valid issued ended r r :=
  ⟨hs, hvalid, rfl, fun _ _ hc => ⟨hc, rfl⟩, fun _ _ _ hr => hr⟩

theorem Keeps.keep (hocc : (r.slots i).isOccupied = true) (hocc' : s.isOccupied = true)
    (hfrees : s.frees = (r.slots i).frees) (howner : s.ownerToken = (r.slots i).ownerToken)
    (hempty : s.isCancelPending = true → s.contents = []) (hsv : valid s)
    (hterm : ∀ k ∈ issued, k.slot = i → r.Runs k → ¬ ended k → s.isTerminated = false) :
    Keeps valid issued ended r (r.set i s) where
  slots := hs.keep hocc hocc' hfrees hempty
  valid := forall_set r (P := fun _ t => valid t) hvalid hsv
  cap := rfl
  owned k hk hc := by
    by_cases hki : k.slot = i
    · subst hki
      rw [IsCurrent, set_slots_self, hfrees] at hc
      exact ⟨hc, by rw [set_slots_self, howner]⟩
    · rw [IsCurrent, set_slots_of_ne r hki] at hc
      exact ⟨hc, by rw [set_slots_of_ne r hki]⟩
  runs k hk hover hr := by
    by_cases hki : k.slot = i
    · have hopen := hterm k hk hki hr hover
      subst hki
      refine ⟨?_, by rwa [set_slots_self]⟩
      rw [IsCurrent, set_slots_self, hfrees]
      exact hr.current
    · exact ⟨by rw [IsCurrent, set_slots_of_ne r hki]; exact hr.current,
        by rw [set_slots_of_ne r hki]; exact hr.unended⟩

theorem Keeps.vacate (hocc : s.isOccupied = false) (hpending : s.isCancelPending = false)
    (hempty : s.contents = []) (hfrees : (r.slots i).frees < s.frees) (hsv : valid s)
    (hover : ∀ k ∈ issued, k.slot = i → r.Runs k → ended k) :
    Keeps valid issued ended r (r.set i s) where
  slots := hs.vacate hocc hpending hempty hfrees
  valid := forall_set r (P := fun _ t => valid t) hvalid hsv
  cap := rfl
  owned k hk hc := by
    by_cases hki : k.slot = i
    · subst hki
      rw [IsCurrent, set_slots_self] at hc
      have hle := hs.bound k hk
      omega
    · rw [IsCurrent, set_slots_of_ne r hki] at hc
      exact ⟨hc, by rw [set_slots_of_ne r hki]⟩
  runs k hk hnot hr := by
    have hki : k.slot ≠ i := fun hki => hnot (hover k hk hki hr)
    exact ⟨by rw [IsCurrent, set_slots_of_ne r hki]; exact hr.current,
      by rw [set_slots_of_ne r hki]; exact hr.unended⟩

theorem Keeps.freed (hsv : ∀ s : MultishotSlot ρ, valid s.freed)
    (hover : (r.slots i).isTerminated = false → ∀ k ∈ issued, k.slot = i → r.IsCurrent k → ended k) :
    Keeps valid issued ended r (r.set i (r.slots i).freed) := by
  apply Keeps.vacate hs hvalid rfl rfl rfl (Nat.lt_succ_self _) (hsv _)
  rintro k hk rfl hr
  exact hover hr.unended k hk rfl hr.current

end Changes

section Protocol

variable {p : MultishotProtocol ρ} {base : UInt64} {stored : ρ → ρ} {discard : ρ → Bool → List ρ}
  (hlaw : p.Lawful base valid stored discard) (hs : Sound r issued)
  (hvalid : ∀ i, valid (r.slots i))

include hlaw hs hvalid

theorem Keeps.next : Keeps valid issued (fun _ => False) r (p.next r key).2 := by
  have heffect := hlaw.next r key hvalid
  generalize p.next r key = out at heffect
  cases heffect with
  | item v s hlive hsv hframe hterm hcontents =>
    have hocc := (isLive_iff.mp hlive).2.2.1
    refine .keep hs hvalid hocc (hframe.occupied.trans hocc) hframe.frees hframe.owner ?_ hsv ?_
    · intro hpending
      -- a slot being cancelled has an empty queue, so nothing was read from it
      have hnil := hs.emptied key.slot (hframe.pending ▸ hpending)
      simp [hcontents] at hnil
    · rintro k - hslot hr -
      rw [hterm, ← hslot]
      exact hr.unended
  | ended hlive hterm =>
    apply Keeps.freed hs hvalid hlaw.freed
    intro hopen
    simp [hterm] at hopen
  | _ => exact .refl hs hvalid

theorem Keeps.cancel (hopen : (r.slots key.slot).isTerminated = false →
      ((p.submitCancel r key).registry.slots key.slot).isTerminated = false) :
    Keeps valid issued (fun _ => False) r (p.submitCancel r key).registry := by
  have heffect := hlaw.cancel r key hvalid
  cases heffect with
  | stale hlive hreg =>
    rw [hreg]
    exact .refl hs hvalid
  | freed hlive hterm hreg =>
    rw [hreg]
    apply Keeps.freed hs hvalid hlaw.freed
    intro hopen
    simp [hterm] at hopen
  | marked s hlive hsv hoccupied hfrees howner hpending hempty hreg =>
    rw [hreg, set_slots_self] at hopen
    rw [hreg]
    apply Keeps.keep hs hvalid (isLive_iff.mp hlive).2.2.1 hoccupied hfrees howner
      (fun _ => hempty) hsv
    rintro k - hslot hr -
    exact hopen (hslot ▸ hr.unended)

theorem Keeps.push (userData : UInt64) (v : ρ) (isMore : Bool) :
    Keeps valid issued
      (fun k => isMore = false ∧ k.slot = multishotSentinelSlot userData ∧ r.IsCurrent k ∧
        k.occupancy % 2 ^ 16 = multishotSentinelGeneration userData) r
      (p.pushCompletion r userData v isMore).registry ∧
    (p.pushCompletion r userData v isMore).retire =
      if isMore then none
      else r.owner (multishotSentinelSlot userData) (multishotSentinelGeneration userData) := by
  have heffect := hlaw.push r userData v isMore hvalid
  have hgen : r.isSlotLive (multishotSentinelSlot userData) (multishotSentinelGeneration userData) =
      true → ∀ k, k.slot = multishotSentinelSlot userData → r.IsCurrent k →
      k.occupancy % 2 ^ 16 = multishotSentinelGeneration userData := by
    intro hlive k hslot hc
    have h := (isSlotLive_iff.mp hlive).2.2
    rw [MultishotSlot.generation, Nat.mod_mod_of_dvd _ (by decide : 2 ^ 16 ∣ 2 ^ 64), ← hslot,
      ← show k.occupancy = _ from hc] at h
    exact h
  cases heffect with
  | stale hlive hreg hretire =>
    rw [hreg, hretire, owner, hlive]
    exact ⟨.refl hs hvalid, by simp⟩
  | cancelled hlive hpending hreg hretire =>
    rw [hreg, hretire, owner, hlive]
    refine ⟨?_, rfl⟩
    cases isMore with
    | true => exact .refl hs hvalid
    | false =>
      apply Keeps.freed hs hvalid hlaw.freed
      intro _ k _ hslot hc
      exact ⟨rfl, hslot, hc, hgen hlive k hslot hc⟩
  | overflowed hlive hpending hfull hreg hretire =>
    rw [hreg, hretire, owner, hlive]
    refine ⟨?_, rfl⟩
    have hocc := (isSlotLive_iff.mp hlive).2.1
    refine .keep hs hvalid hocc hocc rfl rfl ?_ (hlaw.ended _ _ (hvalid _)) ?_
    · intro hcancel
      simp [hpending] at hcancel
    · intro k hk hslot hr hover
      cases isMore with
      | true => rw [← hslot]; simpa using hr.unended
      | false => exact absurd ⟨rfl, hslot, hr.current, hgen hlive k hslot hr.current⟩ hover
  | queued s hlive hpending hsv hframe hterm hmem hcontents hreg hretire =>
    rw [hreg, hretire, owner, hlive]
    refine ⟨?_, rfl⟩
    have hocc := (isSlotLive_iff.mp hlive).2.1
    apply Keeps.keep hs hvalid hocc (hframe.occupied.trans hocc) hframe.frees hframe.owner _ hsv
    · intro k hk hslot hr hover
      rw [hterm, ← hslot]
      cases isMore with
      | true => simpa using hr.unended
      | false => exact absurd ⟨rfl, hslot, hr.current, hgen hlive k hslot hr.current⟩ hover
    · intro hcancel
      simp [hframe.pending, hpending] at hcancel

end Protocol

theorem free_opened (hi : i < r.cap) (owner : Nat) :
    (r.set i ((r.slots i).opened owner)).free ⟨i, (r.slots i).frees, r.workerId⟩ =
      r.set i ((r.slots i).opened owner).freed := by
  have hlive : (r.set i ((r.slots i).opened owner)).isLive
      ⟨i, (r.slots i).frees, r.workerId⟩ = true :=
    isLive_iff.mpr ⟨rfl, hi, by rw [set_slots_self]; rfl, by rw [set_slots_self]; rfl⟩
  rw [free, if_pos hlive, set_slots_self, set_set]

theorem Sound.owner_eq (hs : Sound r issued) (hk : k ∈ issued) (hc : r.IsCurrent k) :
    r.owner k.slot (k.occupancy % 2 ^ 16) = some (r.slots k.slot).ownerToken := by
  rw [owner, hs.isSlotLive hk hc, if_pos rfl]

end MultishotRegistry

theorem submitMultishotCancel_isTerminated {r : MultishotRegistry AcceptResult}
    {key : MultishotKey} : ((submitMultishotCancel r key).registry.slots key.slot).isTerminated =
      (r.slots key.slot).isTerminated := by
  unfold submitMultishotCancel
  cases hlive : r.isLive key with
  | false =>
    rw [popAll_stale hlive]
    simp [markCancelPending, hlive]
  | true =>
    have hframe : (r.slots key.slot).SameFrame { r.slots key.slot with fifo := [] } :=
      ⟨rfl, rfl, rfl, rfl⟩
    have hlive' := (isLive_set_frame hframe).trans hlive
    rw [popAll_live hlive (Nat.le_refl _)]
    simp [markCancelPending, hlive']

theorem submitRecvMultishotCancel_isTerminated {r : MultishotRegistry RecvResult}
    {key : MultishotKey} (hopen : (r.slots key.slot).isTerminated = false) :
    ((submitRecvMultishotCancel r key).registry.slots key.slot).isTerminated = false := by
  cases hlive : r.isLive key with
  | false =>
    have heffect : (submitRecvMultishotCancel r key).registry = r := by
      simp [submitRecvMultishotCancel, popAll_stale hlive,
        takeStash_stale hlive, isTerminated,
        markCancelPending, hlive]
    rw [heffect, hopen]
  | true =>
    rw [submitRecvMultishotCancel_live hlive]
    simp [hopen]

/-- The operations `keyOf` picks out against the slots of their registry. `live` tells whose
operations are still counted. -/
structure Backed {ρ : Type} (valid : MultishotSlot ρ → Prop) (keyOf : TallyOp → Option MultishotKey)
    (live : UInt64 → Prop) (ops : List TallyOp) (r : MultishotRegistry ρ) : Prop where
  slots : r.Sound (ops.filterMap keyOf)
  valid : ∀ i, valid (r.slots i)
  small : r.cap ≤ 2 ^ 16
  owned : ∀ op ∈ ops, ∀ k, keyOf op = some k → r.IsCurrent k →
    (r.slots k.slot).ownerToken = op.owner.toNat
  runs : ∀ op ∈ ops, ∀ k, keyOf op = some k → op.isDrained = false → live op.owner → r.Runs k

namespace Backed

open MultishotRegistry

variable {ρ : Type} {valid : MultishotSlot ρ → Prop} {keyOf : TallyOp → Option MultishotKey}
  {live live' : UInt64 → Prop} {ops ops' : List TallyOp} {op : TallyOp}
  {r r' : MultishotRegistry ρ} {k : MultishotKey}

theorem key_mem (hop : op ∈ ops) (hk : keyOf op = some k) : k ∈ ops.filterMap keyOf :=
  List.mem_filterMap.mpr ⟨op, hop, hk⟩

section

variable (h : Backed valid keyOf live ops r)

include h

theorem slot_lt (hop : op ∈ ops) (hk : keyOf op = some k) :
    k.slot < 2 ^ 16 :=
  Nat.lt_of_lt_of_le (h.slots.owned k (key_mem hop hk)).2 h.small

theorem moved {ended : MultishotKey → Prop} (hr : Keeps valid (ops.filterMap keyOf) ended r r')
    (hover : ∀ op ∈ ops, ∀ k, keyOf op = some k → op.isDrained = false → live op.owner → ¬ ended k) :
    Backed valid keyOf live ops r' where
  slots := hr.slots
  valid := hr.valid
  small := hr.cap ▸ h.small
  owned op hop k hk hc := by
    obtain ⟨hold, howner⟩ := hr.owned k (key_mem hop hk) hc
    rw [howner]
    exact h.owned op hop k hk hold
  runs op hop k hk hdrained hlive :=
    hr.runs k (key_mem hop hk) (hover op hop k hk hdrained hlive) (h.runs op hop k hk hdrained hlive)

theorem relabel (hkeys : ops'.filterMap keyOf = ops.filterMap keyOf)
    (hrows : ∀ op' ∈ ops', ∃ op ∈ ops, keyOf op' = keyOf op ∧ op'.owner = op.owner ∧
      (op'.isDrained = false → op.isDrained = false)) : Backed valid keyOf live ops' r where
  slots := hkeys ▸ h.slots
  valid := h.valid
  small := h.small
  owned op' hop' k hk hc := by
    obtain ⟨op, hop, hkey, howner, -⟩ := hrows op' hop'
    rw [howner]
    exact h.owned op hop k (hkey ▸ hk) hc
  runs op' hop' k hk hdrained hlive := by
    obtain ⟨op, hop, hkey, howner, hold⟩ := hrows op' hop'
    exact h.runs op hop k (hkey ▸ hk) (hold hdrained) (howner ▸ hlive)

theorem relive
    (hlive : ∀ op ∈ ops, op.isDrained = false → keyOf op ≠ none → live' op.owner → live op.owner) :
    Backed valid keyOf live' ops r where
  slots := h.slots
  valid := h.valid
  small := h.small
  owned := h.owned
  runs op hop k hk hdrained hl :=
    h.runs op hop k hk hdrained (hlive op hop hdrained (by simp [hk]) hl)

theorem other (hnone : keyOf op = none) :
    Backed valid keyOf live (ops ++ [op]) r where
  slots := by simpa [hnone] using h.slots
  valid := h.valid
  small := h.small
  owned op' hop' k hk := by
    rcases List.mem_append.mp hop' with hold | hnew
    · exact h.owned op' hold k hk
    · rw [List.mem_singleton.mp hnew, hnone] at hk
      cases hk
  runs op' hop' k hk := by
    rcases List.mem_append.mp hop' with hold | hnew
    · exact h.runs op' hold k hk
    · rw [List.mem_singleton.mp hnew, hnone] at hk
      cases hk

end

section Markers

variable {o o' : Nat} {op' : TallyOp} {key : MultishotKey} (h : Backed valid keyOf live ops r)
  (hop : ops[o]? = some op) (hkey : keyOf op = some key)
  (hreuse : (r.slots key.slot).frees < key.occupancy + 2 ^ 16)

include h hop hkey hreuse

theorem answer (hdrained : op.isDrained = false) :
    r.owner key.slot (key.occupancy % 2 ^ 16) = some op.owner.toNat ∨
      r.owner key.slot (key.occupancy % 2 ^ 16) = none ∧ ¬ live op.owner := by
  have hmem := List.mem_of_getElem? hop
  have hissued := key_mem hmem hkey
  cases hslot : r.isSlotLive key.slot (key.occupancy % 2 ^ 16) with
  | true =>
    have hc := h.slots.current_of_isSlotLive hissued hreuse hslot
    left
    rw [h.slots.owner_eq hissued hc, h.owned op hmem key hkey hc]
  | false =>
    right
    refine ⟨by rw [owner, hslot]; rfl, ?_⟩
    intro hlive
    have hr := h.runs op hmem key hkey hdrained hlive
    rw [h.slots.isSlotLive hissued hr.current] at hslot
    cases hslot

theorem marker_unique (hop' : ops[o']? = some op') (hne : o' ≠ o) (hk : keyOf op' = some k)
    (hslot : k.slot = key.slot) (hc : r.IsCurrent k) :
    k.occupancy % 2 ^ 16 ≠ key.occupancy % 2 ^ 16 := by
  intro hgen
  have hissued := key_mem (List.mem_of_getElem? hop) hkey
  have hbound := h.slots.bound key hissued
  have hfrees : k.occupancy = (r.slots key.slot).frees := hslot ▸ hc
  have hcur : key.occupancy = (r.slots key.slot).frees := by omega
  have heq := h.slots.eq_of_current (key_mem (List.mem_of_getElem? hop') hk) hissued hc hcur hslot
  rw [heq] at hk
  exact hne (Table.row_unique h.slots.nodup hop' hop hk hkey)

end Markers

section Allocation

variable {i : Nat}

theorem slot_ne (h : Backed valid keyOf live ops r) (hvacant : (r.slots i).isOccupied = false)
    (hop : op ∈ ops) (hk : keyOf op = some k) (hc : r.IsCurrent k) : k.slot ≠ i := by
  rintro rfl
  have hocc := h.slots.current k (key_mem hop hk) hc
  simp [hvacant] at hocc

theorem opened (h : Backed valid keyOf live ops r)
    (hopened : ∀ (s : MultishotSlot ρ) owner, valid (s.opened owner)) (hi : i < r.cap)
    (hvacant : (r.slots i).isOccupied = false)
    (hk : keyOf op = some ⟨i, (r.slots i).frees, r.workerId⟩) :
    Backed valid keyOf live (ops ++ [op]) (r.set i ((r.slots i).opened op.owner.toNat)) where
  slots := by
    apply (h.slots.opened hi hvacant op.owner.toNat).perm
    rw [List.filterMap_append, List.filterMap_cons_some hk, List.filterMap_nil]
    exact (List.perm_append_singleton _ _).symm
  valid := forall_set r (P := fun _ s => valid s) h.valid (hopened _ _)
  small := h.small
  owned op' hop' k' hk' hc := by
    by_cases hki : k'.slot = i
    · rw [hki, set_slots_self]
      rcases List.mem_append.mp hop' with hold | hnew
      · rw [IsCurrent, hki, set_slots_self] at hc
        have hcur : r.IsCurrent k' := by rw [IsCurrent, hki]; exact hc
        exact absurd hki (h.slot_ne hvacant hold hk' hcur)
      · rw [List.mem_singleton.mp hnew]
        rfl
    · rw [IsCurrent, set_slots_of_ne r hki] at hc
      rw [set_slots_of_ne r hki]
      rcases List.mem_append.mp hop' with hold | hnew
      · exact h.owned op' hold k' hk' hc
      · rw [List.mem_singleton.mp hnew, hk] at hk'
        cases hk'
        exact absurd rfl hki
  runs op' hop' k' hk' hdrained hlive := by
    rcases List.mem_append.mp hop' with hold | hnew
    · have hr := h.runs op' hold k' hk' hdrained hlive
      have hki := h.slot_ne hvacant hold hk' hr.current
      exact ⟨by rw [IsCurrent, set_slots_of_ne r hki]; exact hr.current,
        by rw [set_slots_of_ne r hki]; exact hr.unended⟩
    · rw [List.mem_singleton.mp hnew, hk] at hk'
      cases hk'
      exact ⟨by rw [IsCurrent, set_slots_self]; rfl, by rw [set_slots_self]; rfl⟩

theorem refused (h : Backed valid keyOf live ops r)
    (hfreed : ∀ s : MultishotSlot ρ, valid s.freed) (hvacant : (r.slots i).isOccupied = false)
    (owner : Nat) : Backed valid keyOf live ops (r.set i ((r.slots i).opened owner).freed) := by
  have hkeeps : Keeps valid (ops.filterMap keyOf) (fun _ => False) r
      (r.set i ((r.slots i).opened owner).freed) := by
    have hfrees : (r.slots i).frees < ((r.slots i).opened owner).freed.frees := Nat.lt_succ_self _
    apply Keeps.vacate h.slots h.valid rfl rfl rfl hfrees (hfreed _)
    intro k hk hki hr
    obtain ⟨op, hop, hkey⟩ := List.mem_filterMap.mp hk
    exact h.slot_ne hvacant hop hkey hr.current hki
  exact h.moved hkeeps fun _ _ _ _ _ _ => id

end Allocation

end Backed

end Kwokka
