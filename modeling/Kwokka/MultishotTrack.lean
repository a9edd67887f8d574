import Kwokka.MultishotStock

/-! What one step does to one operation: to the history the kernel and the drain
write, and to the slot while the operation occupies it. -/

namespace Kwokka

open MultishotRegistry Function

namespace MultishotWorld

variable {ρ : Type} {p : MultishotProtocol ρ} {base : UInt64} {valid : MultishotSlot ρ → Prop}
  {stored : ρ → ρ} {discard : ρ → Bool → List ρ} {w w' : MultishotWorld ρ} {k : MultishotKey}

def ownEntries (w : MultishotWorld ρ) (k : MultishotKey) : List (ρ × Bool) :=
  (w.entries.filter fun e => e.key == k && !e.isCancel).map fun e => (e.value, e.isMore)

def slotOf (w : MultishotWorld ρ) (k : MultishotKey) : MultishotSlot ρ := w.registry.slots k.slot

inductive DrainEffect (w w' : MultishotWorld ρ) (k : MultishotKey) (e : MultishotEntry ρ) : Prop
  | stale (hbefore : ¬ w.registry.IsCurrent k) (hafter : ¬ w'.registry.IsCurrent k)
      (hflight : w'.inFlight = w.inFlight)
  | discarded (hcurrent : w.registry.IsCurrent k)
      (hpending : (w.slotOf k).isCancelPending = true) (hmore : e.isMore = true)
      (hslot : w'.slotOf k = w.slotOf k) (hflight : w'.inFlight = w.inFlight)
  | cancelled (hcurrent : w.registry.IsCurrent k)
      (hpending : (w.slotOf k).isCancelPending = true) (hmore : e.isMore = false)
      (hafter : ¬ w'.registry.IsCurrent k)
      (hflight : w'.inFlight = w.retire (some (w.slotOf k).ownerToken))
  | kept (hcurrent : w.registry.IsCurrent k)
      (hpending : (w.slotOf k).isCancelPending = false) (hown : e.isCancel = false)
      (hframe : (w.slotOf k).SameFrame (w'.slotOf k))
      (hterm : (w'.slotOf k).isTerminated = ((w.slotOf k).isTerminated || !e.isMore))
      (hflight : w'.inFlight =
        w.retire (if e.isMore then none else some (w.slotOf k).ownerToken))

inductive KeyEffect (w w' : MultishotWorld ρ) (k : MultishotKey) : Prop
  | quiet (hk : k ∈ w.issued) (hops : w'.ops k = w.ops k)
      (hown : w'.ownEntries k = w.ownEntries k)
      (hcurrent : w'.registry.IsCurrent k ↔ w.registry.IsCurrent k)
      (hslot : w.registry.IsCurrent k → (w.slotOf k).SameFrame (w'.slotOf k) ∧
        (w'.slotOf k).isTerminated = (w.slotOf k).isTerminated)
  | opened (owner : Nat) (hk : k ∉ w.issued) (hops : w'.ops k = ⟨owner, [], 0, false⟩)
      (hown : w'.ownEntries k = []) (hslot : w'.slotOf k = (w.slotOf k).opened owner)
      (hcurrent : w'.registry.IsCurrent k)
  | freed (hk : k ∈ w.issued) (hops : w'.ops k = w.ops k)
      (hown : w'.ownEntries k = w.ownEntries k) (hcurrent : w.registry.IsCurrent k)
      (hpending : (w.slotOf k).isCancelPending = false)
      (hterm : (w.slotOf k).isTerminated = true) (hafter : ¬ w'.registry.IsCurrent k)
  | marked (hk : k ∈ w.issued) (hops : w'.ops k = w.ops k)
      (hown : w'.ownEntries k = w.ownEntries k) (hcurrent : w.registry.IsCurrent k)
      (hpending : (w.slotOf k).isCancelPending = false)
      (hterm : (w.slotOf k).isTerminated = false)
      (hpending' : (w'.slotOf k).isCancelPending = true)
      (howner : (w'.slotOf k).ownerToken = (w.slotOf k).ownerToken)
      (hcurrent' : w'.registry.IsCurrent k)
  | posted (c : ρ × Bool) (hk : k ∈ w.issued) (hfinal : (w.ops k).isFinal = false)
      (hops : w'.ops k = { w.ops k with posted := (w.ops k).posted ++ [c] })
      (hown : w'.ownEntries k = w.ownEntries k ++ [c]) (hregistry : w'.registry = w.registry)
  | drained (e : MultishotEntry ρ) (hk : k ∈ w.issued) (hkey : e.key = k)
      (hops : w'.ops k = w.noteDrained e)
      (hown : w.ownEntries k =
        if e.isCancel then w'.ownEntries k else (e.value, e.isMore) :: w'.ownEntries k)
      (heffect : DrainEffect w w' k e)

theorem ownEntries_of_fresh (hsound : Sound p valid w) (hk : k ∉ w.issued) :
    w.ownEntries k = [] := by
  rw [ownEntries, List.map_eq_nil_iff, List.filter_eq_nil_iff]
  intro e he hkey
  have heq : e.key = k := by
    simp only [Bool.and_eq_true, beq_iff_eq] at hkey
    exact hkey.1
  exact hk (heq ▸ (hsound.entries e he).1)

theorem KeyEffect.same (hk : k ∈ w.issued) (hregistry : w'.registry = w.registry)
    (hops : w'.ops k = w.ops k) (hown : w'.ownEntries k = w.ownEntries k) : KeyEffect w w' k := by
  refine .quiet hk hops hown (by rw [hregistry]) ?_
  intro _
  rw [slotOf, slotOf, hregistry]
  exact ⟨⟨rfl, rfl, rfl, rfl⟩, rfl⟩

theorem KeyEffect.other {i : Nat} {s : MultishotSlot ρ} (hk : k ∈ w.issued)
    (hregistry : w'.registry = w.registry.set i s) (hops : w'.ops k = w.ops k)
    (hown : w'.ownEntries k = w.ownEntries k)
    (hi : k.slot = i → ¬ w.registry.IsCurrent k ∧ k.occupancy ≠ s.frees) : KeyEffect w w' k := by
  by_cases hki : k.slot = i
  · obtain ⟨hbefore, hafter⟩ := hi hki
    subst hki
    have hafter' : ¬ w'.registry.IsCurrent k := by
      rw [hregistry, IsCurrent, set_slots_self]
      exact hafter
    exact .quiet hk hops hown ⟨fun h => absurd h hafter', fun h => absurd h hbefore⟩
      (fun h => absurd h hbefore)
  · refine .quiet hk hops hown ?_ ?_
    · rw [hregistry, IsCurrent, IsCurrent, set_slots_of_ne _ hki]
    · intro _
      rw [slotOf, slotOf, hregistry, set_slots_of_ne _ hki]
      exact ⟨⟨rfl, rfl, rfl, rfl⟩, rfl⟩

theorem KeyEffect.frame {i : Nat} {s : MultishotSlot ρ} (hk : k ∈ w.issued)
    (hregistry : w'.registry = w.registry.set i s) (hops : w'.ops k = w.ops k)
    (hown : w'.ownEntries k = w.ownEntries k)
    (hframe : (w.registry.slots i).SameFrame s)
    (hterm : s.isTerminated = (w.registry.slots i).isTerminated) : KeyEffect w w' k := by
  by_cases hki : k.slot = i
  · subst hki
    refine .quiet hk hops hown ?_ ?_
    · rw [hregistry, IsCurrent, IsCurrent, set_slots_self, hframe.frees]
    · intro _
      rw [slotOf, slotOf, hregistry, set_slots_self]
      exact ⟨hframe, hterm⟩
  · exact .other hk hregistry hops hown (fun h => absurd h hki)

theorem start_keyEffect (hsound : Sound p valid w) (j owner : Nat) (isAccepted : Bool)
    (hk : k ∈ (w.start j owner isAccepted).issued) :
    KeyEffect w (w.start j owner isAccepted) k := by
  have heffect := start_effect w j owner isAccepted
  generalize w.start j owner isAccepted = w' at heffect hk ⊢
  have hold : ∀ {i : Nat} {s : MultishotSlot ρ}, k ∈ w.issued →
      (w.registry.slots i).isOccupied = false → (w.registry.slots i).frees ≤ s.frees →
      k.slot = i → ¬ w.registry.IsCurrent k ∧ k.occupancy ≠ s.frees := by
    rintro i s hk hvacant hle rfl
    have hnot : ¬ w.registry.IsCurrent k := by
      intro hc
      have hocc := hsound.slots.current k hk hc
      simp [hvacant] at hocc
    have hbound := hsound.slots.bound k hk
    have hne : k.occupancy ≠ (w.registry.slots k.slot).frees := hnot
    exact ⟨hnot, by omega⟩
  cases heffect with
  | refused i hstate hi hvacant =>
    exact .other hk rfl rfl rfl (hold hk hvacant (Nat.le_succ _))
  | accepted i key hstate hi hvacant hkey =>
    rcases List.mem_cons.mp hk with rfl | hmem
    · have hfresh : k ∉ w.issued := hkey ▸ hsound.slots.fresh hvacant
      have hslot : k.slot = i := by rw [hkey]
      have hocc : k.occupancy = (w.registry.slots i).frees := by rw [hkey]
      refine .opened owner hfresh (update_self ..) ?_ ?_ ?_
      · have hnone : w.ownEntries k = [] := ownEntries_of_fresh hsound hfresh
        exact hnone
      · rw [slotOf, slotOf, hslot, set_slots_self]
      · rw [IsCurrent, hslot, set_slots_self, hocc]
        rfl
    · have hne : k ≠ key := by
        rintro rfl
        exact (hkey ▸ hsound.slots.fresh hvacant) hmem
      exact .other hmem rfl (update_of_ne hne ..) rfl (hold hmem hvacant (Nat.le_refl _))
  | _ => exact .same hk rfl rfl rfl

theorem KeyEffect.release {key : MultishotKey} (hsound : Sound p valid w)
    (hk : k ∈ w.issued) (hkey : w.registry.Holds w.issued key)
    (hregistry : w'.registry = w.registry.set key.slot (w.registry.slots key.slot).freed)
    (hops : w'.ops k = w.ops k) (hown : w'.ownEntries k = w.ownEntries k)
    (hterm : (w.registry.slots key.slot).isTerminated = true) : KeyEffect w w' k := by
  by_cases heq : k = key
  · subst heq
    refine .freed hk hops hown hkey.current hkey.waiting hterm ?_
    rw [hregistry, IsCurrent, set_slots_self]
    have hc : k.occupancy = (w.registry.slots k.slot).frees := hkey.current
    simp [MultishotSlot.freed, hc]
  · refine .other hk hregistry hops hown ?_
    intro hslot
    have hbound := hsound.slots.bound k hk
    refine ⟨?_, ?_⟩
    · intro hc
      exact heq (hsound.slots.eq_of_current hk hkey.issued hc hkey.current hslot)
    · rw [hslot] at hbound
      exact Nat.ne_of_lt (Nat.lt_succ_of_le hbound)

theorem poll_keyEffect (hlaw : p.Lawful base valid stored discard) (hsound : Sound p valid w)
    (j : Nat) (hk : k ∈ w.issued) : KeyEffect w (w.poll p j) k := by
  have heffect := poll_effect hlaw hsound.valid j
  generalize (w.advance p j).1 = next at heffect
  generalize w.poll p j = w' at heffect ⊢
  cases heffect with
  | pending => exact .same hk rfl rfl rfl
  | item key v s hstate hlive hvalid hframe hterm =>
    exact .frame hk rfl rfl rfl hframe hterm
  | ended key hstate hlive hterm =>
    exact .release hsound hk (hsound.held.stream j key hstate) rfl rfl rfl hterm

def FreesEnded (p : MultishotProtocol ρ) : Prop :=
  ∀ r key, r.isLive key = true → (p.submitCancel r key).isSubmitted = true →
    (r.slots key.slot).isTerminated = false

theorem drainCancel_keyEffect (hlaw : p.Lawful base valid stored discard) (hfrees : FreesEnded p)
    (hsound : Sound p valid w) (isAccepted : Bool) (hk : k ∈ w.issued) :
    KeyEffect w (w.drainCancel p isAccepted) k := by
  unfold MultishotWorld.drainCancel
  cases hinbox : w.inbox with
  | nil => exact .same hk rfl rfl rfl
  | cons record =>
    cases record with
    | none => exact .same hk rfl rfl rfl
    | some key =>
      obtain ⟨hkey, -⟩ := hsound.held.record key (by simp [hinbox])
      have hlive := hsound.slots.isLive hkey.issued hkey.current
      have hended := hfrees w.registry key hlive
      have heffect := hlaw.cancel w.registry key hsound.valid
      simp only
      generalize p.submitCancel w.registry key = out at heffect hended ⊢
      cases heffect with
      | stale hstale => simp [hlive] at hstale
      | freed hlive hterm hreg =>
        exact .release hsound hk hkey hreg rfl rfl hterm
      | marked s hlive hvalid hoccupied hfrees howner hpending hempty hreg hsubmitted =>
        by_cases heq : k = key
        · subst heq
          refine .marked hk rfl rfl hkey.current hkey.waiting (hended hsubmitted) ?_ ?_ ?_
          · rw [slotOf]
            simpa [hreg] using hpending
          · rw [slotOf, slotOf]
            simpa [hreg] using howner
          · have hc : k.occupancy = (w.registry.slots k.slot).frees := hkey.current
            simp [hreg, IsCurrent, hfrees, hc]
        · refine .other hk hreg rfl rfl ?_
          intro hslot
          have hnot : ¬ w.registry.IsCurrent k := by
            intro hc
            exact heq (hsound.slots.eq_of_current hk hkey.issued hc hkey.current hslot)
          refine ⟨hnot, ?_⟩
          rw [hfrees, ← hslot]
          exact hnot

def ReadsOwn (w : MultishotWorld ρ) (k : MultishotKey) (own : Nat) (isOwnSkipped : Bool) : Prop :=
  match w.skipped own isOwnSkipped with
  | none => True
  | some e => e.key ≠ k ∨ e.isCancel = true

theorem readsOwn_of_none {own : Nat} {isOwnSkipped : Bool}
    (h : w.skipped own isOwnSkipped = none) : w.ReadsOwn k own isOwnSkipped := by
  simp [ReadsOwn, h]

theorem read_keyEffect {own : Nat} {isOwnSkipped : Bool} (hbatch : w.batch = [])
    (hread : w.ReadsOwn k own isOwnSkipped) (hk : k ∈ w.issued) :
    KeyEffect w (w.read own isOwnSkipped) k := by
  refine .same hk rfl rfl ?_
  have hlost : (w.skipped own isOwnSkipped).toList.filter
      (fun e => e.key == k && !e.isCancel) = [] := by
    unfold ReadsOwn at hread
    cases hlost : w.skipped own isOwnSkipped with
    | none => rfl
    | some =>
      rw [hlost] at hread
      rcases hread with hne | hcancel
      · simp [hne]
      · simp [hcancel]
  have hcq : w.cq.filter (fun e => e.key == k && !e.isCancel) =
      (w.read own isOwnSkipped).entries.filter (fun e => e.key == k && !e.isCancel) := by
    conv_lhs => rw [read_split (w := w) own isOwnSkipped]
    rw [List.filter_append, List.filter_append, hlost, List.nil_append, entries,
      List.filter_append]
  rw [ownEntries, ownEntries, ← hcq, entries, hbatch, List.nil_append]

theorem complete_drainEffect (hlaw : p.Lawful base valid stored discard)
    (hsound : Sound p valid w) (halias : w.Unaliased .complete) {e : MultishotEntry ρ}
    {rest : List (MultishotEntry ρ)} (hbatch : w.batch = e :: rest) :
    DrainEffect w (w.complete p) e.key e := by
  obtain ⟨out, heffect, -, heq⟩ := complete_cons hlaw hsound hbatch
  have hkey := (hsound.entries e (by simp [hbatch])).1
  have hcur : w.registry.isSlotLive e.key.slot (e.key.occupancy % 2 ^ 16) = true →
      w.registry.IsCurrent e.key := halias.head hbatch
  rw [heq]
  cases heffect with
  | stale hlive hreg hretire =>
    have hnot : ¬ w.registry.IsCurrent e.key := by
      intro hc
      exact absurd (hlive.symm.trans (hsound.slots.isSlotLive hkey hc)) Bool.false_ne_true
    refine .stale hnot ?_ ?_
    · rwa [hreg]
    · rw [hretire]
      rfl
  | cancelled hlive hpending hreg hretire =>
    cases hmore : e.isMore with
    | true =>
      rw [hmore] at hreg hretire
      refine .discarded (hcur hlive) hpending hmore ?_ ?_
      · rw [slotOf, slotOf, hreg]
        rfl
      · rw [hretire]
        rfl
    | false =>
      rw [hmore] at hreg hretire
      refine .cancelled (hcur hlive) hpending hmore ?_ ?_
      · have hc : e.key.occupancy = (w.registry.slots e.key.slot).frees := hcur hlive
        rw [hreg, IsCurrent]
        simp [MultishotSlot.freed, hc]
      · rw [hretire]
        rfl
  | overflowed hlive hpending hfull hreg hretire =>
    have hown := (hsound.own_of_live hbatch halias hlive hpending).1
    refine .kept (hcur hlive) hpending hown ?_ ?_ ?_
    · rw [slotOf, slotOf, hreg, set_slots_self]
      exact ⟨rfl, rfl, rfl, rfl⟩
    · rw [slotOf, slotOf, hreg, set_slots_self]
    · rw [hretire]
      rfl
  | queued s hlive hpending hvalid hframe hterm hmem hcontents hreg hretire =>
    have hown := (hsound.own_of_live hbatch halias hlive hpending).1
    refine .kept (hcur hlive) hpending hown ?_ ?_ ?_
    · rw [slotOf, slotOf, hreg, set_slots_self]
      exact hframe
    · rw [slotOf, slotOf, hreg, set_slots_self]
      exact hterm
    · rw [hretire]
      rfl

theorem complete_keyEffect (hlaw : p.Lawful base valid stored discard) (hsound : Sound p valid w)
    (halias : w.Unaliased .complete) {e : MultishotEntry ρ} {rest : List (MultishotEntry ρ)}
    (hbatch : w.batch = e :: rest) (hk : k ∈ w.issued) : KeyEffect w (w.complete p) k := by
  have hdrain := complete_drainEffect hlaw hsound halias hbatch
  obtain ⟨out, heffect, -, heq⟩ := complete_cons hlaw hsound hbatch
  have hkey := (hsound.entries e (by simp [hbatch])).1
  have hcur : w.registry.isSlotLive e.key.slot (e.key.occupancy % 2 ^ 16) = true →
      w.registry.IsCurrent e.key := halias.head hbatch
  rw [heq] at hdrain ⊢
  by_cases hke : e.key = k
  · subst hke
    refine .drained e hk rfl (update_self ..) ?_ hdrain
    cases hcancel : e.isCancel <;> simp [ownEntries, entries, hbatch, hcancel]
  · -- another operation's completion: its slot is not this operation's, or it is stale
    have hown : (rest ++ w.cq).filter (fun e => e.key == k && !e.isCancel) =
        w.entries.filter (fun e => e.key == k && !e.isCancel) := by
      simp [entries, hbatch, hke]
    have hown' : ∀ r f, ownEntries { w with
        registry := r
        batch := rest
        ops := update w.ops e.key (w.noteDrained e)
        inFlight := f } k = w.ownEntries k := by
      intro r f
      simp only [ownEntries, entries] at hown ⊢
      rw [hown]
    have hops : update w.ops e.key (w.noteDrained e) k = w.ops k :=
      update_of_ne (Ne.symm hke) ..
    have hother : w.registry.isSlotLive e.key.slot (e.key.occupancy % 2 ^ 16) = true →
        k.slot = e.key.slot → ¬ w.registry.IsCurrent k := by
      intro hlive hslot hc
      exact hke (hsound.slots.eq_of_current hkey hk (hcur hlive) hc hslot.symm)
    have hset : ∀ s : MultishotSlot ρ, w.registry.isSlotLive e.key.slot
        (e.key.occupancy % 2 ^ 16) = true → (w.registry.slots e.key.slot).frees ≤ s.frees →
        k.slot = e.key.slot → ¬ w.registry.IsCurrent k ∧ k.occupancy ≠ s.frees := by
      intro s hlive hle hslot
      have hnot := hother hlive hslot
      have hne : k.occupancy ≠ (w.registry.slots k.slot).frees := hnot
      have hbound := hsound.slots.bound k hk
      rw [hslot] at hne hbound
      exact ⟨hnot, by omega⟩
    cases heffect with
    | stale hlive hreg => exact .same hk hreg hops (hown' _ _)
    | cancelled hlive hpending hreg =>
      cases hmore : e.isMore with
      | true =>
        rw [hmore] at hreg
        exact .same hk hreg hops (hown' _ _)
      | false =>
        rw [hmore] at hreg
        exact .other hk hreg hops (hown' _ _) (hset _ hlive (Nat.le_succ _))
    | overflowed hlive hpending hfull hreg =>
      exact .other hk hreg hops (hown' _ _) (hset _ hlive (Nat.le_refl _))
    | queued s hlive hpending hvalid hframe hterm hmem hcontents hreg =>
      exact .other hk hreg hops (hown' _ _) (hset s hlive (Nat.le_of_eq hframe.frees.symm))

theorem KeyEffect.invariant {I : MultishotWorld ρ → Prop}
    (hI : ∀ {w w' : MultishotWorld ρ}, KeyEffect w w' k → (k ∈ w.issued → I w) → I w')
    (hlaw : p.Lawful base valid stored discard) (hfrees : FreesEnded p)
    (hsound : Sound p valid w) (e : MultishotEvent ρ) (halias : w.Unaliased e)
    (hread : ∀ own isOwnSkipped, e = .read own isOwnSkipped → w.ReadsOwn k own isOwnSkipped)
    (h : k ∈ w.issued → I w)
    (hk : k ∈ (w.step p e).issued) : I (w.step p e) := by
  have heffect := step_effect p w e
  generalize w.step p e = w' at heffect hk ⊢
  cases heffect with
  | idle => exact h hk
  | next j owner isAccepted =>
    have hissued : ((w.start j owner isAccepted).poll p j).issued =
        (w.start j owner isAccepted).issued := by
      unfold poll
      split <;> rfl
    rw [hissued] at hk
    have hstart := hI (start_keyEffect hsound j owner isAccepted hk) h
    exact hI (poll_keyEffect hlaw (hsound.start hlaw j owner isAccepted) j hk) (fun _ => hstart)
  | drainCancel isAccepted =>
    have hissued : (w.drainCancel p isAccepted).issued = w.issued := by
      unfold MultishotWorld.drainCancel
      split <;> rfl
    rw [hissued] at hk
    exact hI (drainCancel_keyEffect hlaw hfrees hsound isAccepted hk) h
  | post key v isMore hkey hfinal =>
    refine hI ?_ h
    by_cases heq : k = key
    · subst heq
      refine .posted (v, isMore) hk hfinal (update_self ..) ?_ rfl
      simp [ownEntries, entries]
    · refine .same hk rfl (update_of_ne heq ..) ?_
      simp [ownEntries, entries, Ne.symm heq]
  | postCancel =>
    refine hI (.same (w := w) hk rfl rfl ?_) h
    simp [ownEntries, entries]
  | read _ _ hbatch => exact hI (read_keyEffect hbatch (hread _ _ rfl) hk) h
  | complete e rest hbatch =>
    have hissued : (w.complete p).issued = w.issued := by
      obtain ⟨out, -, -, heq⟩ := complete_cons hlaw hsound hbatch
      rw [heq]
    rw [hissued] at hk
    exact hI (complete_keyEffect hlaw hsound halias hbatch hk) h
  | _ => exact hI (.same (w := w) hk rfl rfl rfl) h

structure Tracked (w : MultishotWorld ρ) (k : MultishotKey) : Prop where
  rest : w.ownEntries k = (w.ops k).posted.drop (w.ops k).drained
  le : (w.ops k).drained ≤ (w.ops k).posted.length
  shape : ∀ c ∈ (w.ops k).posted.dropLast, c.2 = true
  final : w.registry.IsCurrent k → (w.slotOf k).isCancelPending = false →
    (w.slotOf k).isTerminated = true →
      (w.ops k).isFinal = true ∧ (w.ops k).drained = (w.ops k).posted.length

theorem all_more {op : MultishotOp ρ} (hshape : ∀ c ∈ op.posted.dropLast, c.2 = true)
    (hfinal : op.isFinal = false) : ∀ c ∈ op.posted, c.2 = true := by
  intro c hc
  rcases List.eq_nil_or_concat op.posted with hnil | ⟨init, last, hlast⟩
  · simp [hnil] at hc
  · rw [hlast, List.concat_eq_append] at hc hshape
    rw [MultishotOp.isFinal, hlast] at hfinal
    rcases List.mem_append.mp hc with hc | hc
    · exact hshape c (by simpa using hc)
    · have heq : c = last := by simpa using hc
      subst heq
      simpa using hfinal

theorem Tracked.head (h : Tracked w k) {c : ρ × Bool} {cs : List (ρ × Bool)}
    (hown : w.ownEntries k = c :: cs) : (w.ops k).posted[(w.ops k).drained]? = some c ∧
      cs = (w.ops k).posted.drop ((w.ops k).drained + 1) := by
  have hdrop := h.rest.symm.trans hown
  have hlt : (w.ops k).drained < (w.ops k).posted.length := by
    by_contra hge
    rw [List.drop_eq_nil_of_le (by omega)] at hdrop
    exact List.cons_ne_nil _ _ hdrop.symm
  rw [List.drop_eq_getElem_cons hlt] at hdrop
  injection hdrop with hc hcs
  exact ⟨by rw [List.getElem?_eq_getElem hlt, hc], hcs.symm⟩

theorem Tracked.head_last (h : Tracked w k) {v : ρ}
    (hget : (w.ops k).posted[(w.ops k).drained]? = some (v, false)) :
    (w.ops k).isFinal = true ∧ (w.ops k).drained + 1 = (w.ops k).posted.length := by
  obtain ⟨hlt, hget⟩ := List.getElem?_eq_some_iff.mp hget
  have hlast : (w.ops k).drained + 1 = (w.ops k).posted.length := by
    by_contra hne
    have hmem : (v, false) ∈ (w.ops k).posted.dropLast := by
      rw [List.mem_iff_getElem]
      refine ⟨(w.ops k).drained, ?_, ?_⟩
      · rw [List.length_dropLast]
        omega
      · rw [List.getElem_dropLast, hget]
    have hmore := h.shape _ hmem
    simp at hmore
  refine ⟨?_, hlast⟩
  have hidx : (w.ops k).posted.length - 1 = (w.ops k).drained := by omega
  rw [MultishotOp.isFinal, List.getLast?_eq_getElem?, hidx, List.getElem?_eq_getElem hlt, hget]
  rfl

theorem Tracked.of_effect (heffect : KeyEffect w w' k) (h : k ∈ w.issued → Tracked w k) :
    Tracked w' k := by
  cases heffect with
  | quiet hk hops hown hcurrent hslot =>
    obtain ⟨hrest, hle, hshape, hfinal⟩ := h hk
    refine ⟨by rw [hown, hops, hrest], by rwa [hops], by rwa [hops], ?_⟩
    intro hc hp ht
    rw [hcurrent] at hc
    obtain ⟨hframe, hterm⟩ := hslot hc
    rw [hframe.pending] at hp
    rw [hterm] at ht
    rw [hops]
    exact hfinal hc hp ht
  | opened owner hk hops hown hslot =>
    refine ⟨by rw [hown, hops]; rfl, by rw [hops]; exact Nat.le_refl 0, by rw [hops]; simp, ?_⟩
    intro _ _ ht
    rw [hslot] at ht
    exact Bool.noConfusion ht
  | freed hk hops hown hcurrent hpending hterm hafter =>
    obtain ⟨hrest, hle, hshape, -⟩ := h hk
    exact ⟨by rw [hown, hops, hrest], by rwa [hops], by rwa [hops], fun hc => absurd hc hafter⟩
  | marked hk hops hown hcurrent hpending hterm hpending' =>
    obtain ⟨hrest, hle, hshape, -⟩ := h hk
    refine ⟨by rw [hown, hops, hrest], by rwa [hops], by rwa [hops], ?_⟩
    intro _ hp
    simp [hpending'] at hp
  | posted c hk hfinal hops hown hregistry =>
    obtain ⟨hrest, hle, hshape, hdone⟩ := h hk
    constructor
    · rw [hown, hops, hrest]
      exact (List.drop_append_of_le_length hle).symm
    · rw [hops]
      exact Nat.le_trans hle (by simp)
    · rw [hops]
      simpa using all_more hshape hfinal
    · intro hc hp ht
      rw [slotOf, hregistry] at hp ht
      rw [hregistry] at hc
      have hend := (hdone hc hp ht).1
      simp [hfinal] at hend
  | drained e hk hkey hops hown heffect =>
    have htracked := h hk
    subst hkey
    cases hcancel : e.isCancel with
    | true =>
      have hnote : w.noteDrained e =
          { w.ops e.key with isSettled := (w.ops e.key).isSettled || !e.isMore } := by
        simp [noteDrained, hcancel]
      rw [hcancel, if_pos rfl] at hown
      rw [hnote] at hops
      refine ⟨by rw [hops, ← hown, htracked.rest], by rw [hops]; exact htracked.le,
        by rw [hops]; exact htracked.shape, ?_⟩
      intro hc hp ht
      cases heffect with
      | stale hbefore hafter => exact absurd hc hafter
      | discarded hcurrent hpending hmore hslot =>
        rw [hslot, hpending] at hp
        exact Bool.noConfusion hp
      | cancelled hcurrent hpending hmore hafter => exact absurd hc hafter
      | kept hcurrent hpending hown' => simp [hcancel] at hown'
    | false =>
      have hnote : w.noteDrained e =
          { w.ops e.key with
            drained := (w.ops e.key).drained + 1
            isSettled := (w.ops e.key).isSettled || !e.isMore } := by
        simp [noteDrained, hcancel]
      rw [hcancel] at hown
      obtain ⟨hget, hcs⟩ := htracked.head hown
      obtain ⟨hlt, -⟩ := List.getElem?_eq_some_iff.mp hget
      rw [hnote] at hops
      refine ⟨by rw [hops, hcs], by rw [hops]; exact hlt, by rw [hops]; exact htracked.shape, ?_⟩
      intro hc hp ht
      cases heffect with
      | stale hbefore hafter => exact absurd hc hafter
      | discarded hcurrent hpending hmore hslot =>
        rw [hslot, hpending] at hp
        exact Bool.noConfusion hp
      | cancelled hcurrent hpending hmore hafter => exact absurd hc hafter
      | kept hcurrent hpending hown' hframe hterm =>
        have hnot : (w.slotOf e.key).isTerminated = false := by
          by_contra hne
          have hend := (htracked.final hcurrent hpending (by simpa using hne)).2
          omega
        have hmore : e.isMore = false := by simpa [hterm, hnot] using ht
        rw [hmore] at hget
        rw [hops]
        exact htracked.head_last hget

end MultishotWorld

end Kwokka
