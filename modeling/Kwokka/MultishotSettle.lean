import Kwokka.MultishotTrack

/-! When an operation is accounted for as finished: its owner's in-flight count
drops once, by the first completion without `MORE` under its marker, and its slot
is freed once. -/

namespace Kwokka

open MultishotRegistry Function

namespace MultishotWorld

variable {ρ : Type} {p : MultishotProtocol ρ} {base : UInt64} {valid : MultishotSlot ρ → Prop}
  {stored : ρ → ρ} {discard : ρ → Bool → List ρ} {w w' : MultishotWorld ρ} {k : MultishotKey}

structure Settled (w : MultishotWorld ρ) (k : MultishotKey) : Prop where
  past : ¬ w.registry.IsCurrent k → (w.ops k).isSettled = true
  pending : w.registry.IsCurrent k → (w.slotOf k).isCancelPending = true →
    (w.ops k).isSettled = false
  waiting : w.registry.IsCurrent k → (w.slotOf k).isCancelPending = false →
    (w.ops k).isSettled = (w.slotOf k).isTerminated
  owner : w.registry.IsCurrent k → (w.slotOf k).ownerToken = (w.ops k).owner
  drained : ∀ c ∈ (w.ops k).posted.take (w.ops k).drained, c.2 = false →
    (w.ops k).isSettled = true

theorem noteDrained_drained (htracked : Tracked w k) (hsettled : Settled w k)
    {e : MultishotEntry ρ} (hkey : e.key = k)
    (hown : w.ownEntries k =
      if e.isCancel then w'.ownEntries k else (e.value, e.isMore) :: w'.ownEntries k) :
    ∀ c ∈ (w.noteDrained e).posted.take (w.noteDrained e).drained, c.2 = false →
      (w.noteDrained e).isSettled = true := by
  subst hkey
  intro c hc hlast
  cases hcancel : e.isCancel with
  | true =>
    have hold : c ∈ (w.ops e.key).posted.take (w.ops e.key).drained := by
      simpa [noteDrained, hcancel] using hc
    simp [noteDrained, hsettled.drained c hold hlast]
  | false =>
    rw [hcancel] at hown
    obtain ⟨hget, -⟩ := htracked.head hown
    obtain ⟨hlt, hget⟩ := List.getElem?_eq_some_iff.mp hget
    have hmem : c ∈ (w.ops e.key).posted.take (w.ops e.key).drained ∨ c = (e.value, e.isMore) := by
      simpa [noteDrained, hcancel, List.take_add_one, List.getElem?_eq_getElem hlt, hget] using hc
    rcases hmem with hold | rfl
    · simp [noteDrained, hsettled.drained c hold hlast]
    · have hmore : e.isMore = false := hlast
      simp [noteDrained, hmore]

theorem Settled.of_effect (heffect : KeyEffect w w' k)
    (h : k ∈ w.issued → Tracked w k ∧ Settled w k) : Settled w' k := by
  cases heffect with
  | quiet hk hops hown hcurrent hslot =>
    obtain ⟨-, hsettled⟩ := h hk
    have hslot' := fun hc => hslot (hcurrent.mp hc)
    constructor
    · intro hc
      rw [hops]
      exact hsettled.past (fun hc' => hc (hcurrent.mpr hc'))
    · intro hc hp
      rw [(hslot' hc).1.pending] at hp
      rw [hops]
      exact hsettled.pending (hcurrent.mp hc) hp
    · intro hc hp
      rw [(hslot' hc).1.pending] at hp
      rw [hops, (hslot' hc).2]
      exact hsettled.waiting (hcurrent.mp hc) hp
    · intro hc
      rw [hops, (hslot' hc).1.owner]
      exact hsettled.owner (hcurrent.mp hc)
    · rw [hops]
      exact hsettled.drained
  | opened owner hk hops hown hslot hcurrent =>
    constructor
    · intro hc
      exact absurd hcurrent hc
    · intro _ hp
      rw [hslot] at hp
      exact Bool.noConfusion hp
    · intro _ _
      rw [hops, hslot]
      rfl
    · intro _
      rw [hops, hslot]
      rfl
    · rw [hops]
      simp
  | freed hk hops hown hcurrent hpending hterm hafter =>
    obtain ⟨-, hsettled⟩ := h hk
    constructor
    · intro _
      rw [hops, hsettled.waiting hcurrent hpending, hterm]
    · intro hc
      exact absurd hc hafter
    · intro hc
      exact absurd hc hafter
    · intro hc
      exact absurd hc hafter
    · rw [hops]
      exact hsettled.drained
  | marked hk hops hown hcurrent hpending hterm hpending' howner hcurrent' =>
    obtain ⟨-, hsettled⟩ := h hk
    constructor
    · intro hc
      exact absurd hcurrent' hc
    · intro _ _
      rw [hops, hsettled.waiting hcurrent hpending, hterm]
    · intro _ hp
      simp [hpending'] at hp
    · intro _
      rw [hops, howner]
      exact hsettled.owner hcurrent
    · rw [hops]
      exact hsettled.drained
  | posted c hk hfinal hops hown hregistry =>
    obtain ⟨htracked, hsettled⟩ := h hk
    constructor
    · rw [hregistry, hops]
      exact hsettled.past
    · rw [hregistry, hops, slotOf, hregistry]
      exact hsettled.pending
    · rw [hregistry, hops, slotOf, hregistry]
      exact hsettled.waiting
    · rw [hregistry, hops, slotOf, hregistry]
      exact hsettled.owner
    · intro c' hc'
      rw [hops] at hc' ⊢
      refine hsettled.drained c' ?_
      simpa [List.take_append_of_le_length htracked.le] using hc'
  | drained e hk hkey hops hown heffect =>
    obtain ⟨htracked, hsettled⟩ := h hk
    have hdrained := noteDrained_drained htracked hsettled hkey hown
    rw [← hops] at hdrained
    subst hkey
    cases heffect with
    | stale hbefore hafter =>
      refine ⟨?_, fun hc => absurd hc hafter, fun hc => absurd hc hafter,
        fun hc => absurd hc hafter, hdrained⟩
      intro _
      rw [hops]
      simp [noteDrained, hsettled.past hbefore]
    | discarded hcurrent hpending hmore hslot =>
      have hcurrent' : w'.registry.IsCurrent e.key := by
        have hframes : (w'.slotOf e.key).frees = (w.slotOf e.key).frees := by rw [hslot]
        exact hcurrent.trans hframes.symm
      refine ⟨fun hc => absurd hcurrent' hc, ?_, ?_, ?_, hdrained⟩
      · intro _ _
        rw [hops]
        simp [noteDrained, hsettled.pending hcurrent hpending, hmore]
      · intro _ hp
        rw [hslot, hpending] at hp
        exact Bool.noConfusion hp
      · intro _
        rw [hops, hslot]
        exact hsettled.owner hcurrent
    | cancelled hcurrent hpending hmore hafter =>
      refine ⟨?_, fun hc => absurd hc hafter, fun hc => absurd hc hafter,
        fun hc => absurd hc hafter, hdrained⟩
      intro _
      rw [hops]
      simp [noteDrained, hmore]
    | kept hcurrent hpending hown' hframe hterm =>
      have hcurrent' : w'.registry.IsCurrent e.key := hcurrent.trans hframe.frees.symm
      refine ⟨fun hc => absurd hcurrent' hc, ?_, ?_, ?_, hdrained⟩
      · intro _ hp
        rw [hframe.pending, hpending] at hp
        exact Bool.noConfusion hp
      · intro _ _
        rw [hops, hterm, ← hsettled.waiting hcurrent hpending]
        rfl
      · intro _
        rw [hops, hframe.owner]
        exact hsettled.owner hcurrent

theorem Settled.not_current (hsound : Sound p valid w) (hsettled : Settled w k)
    (hk : k ∈ w.issued) (hfinal : (w.ops k).isFinal = true)
    (hdrained : (w.ops k).drained = (w.ops k).posted.length)
    (hstreams : ∀ j, (w.streams j).state ≠ .multishot k) (hinbox : some k ∉ w.inbox) :
    ¬ w.registry.IsCurrent k := by
  intro hc
  have hset : (w.ops k).isSettled = true := by
    obtain ⟨c, hc, hlast⟩ : ∃ c ∈ (w.ops k).posted, c.2 = false := by
      cases hlast : (w.ops k).posted.getLast? with
      | none => simp [MultishotOp.isFinal, hlast] at hfinal
      | some c =>
        exact ⟨c, List.mem_of_getLast? hlast, by simpa [MultishotOp.isFinal, hlast] using hfinal⟩
    refine hsettled.drained c ?_ hlast
    rwa [hdrained, List.take_length]
  cases hpending : (w.slotOf k).isCancelPending with
  | true =>
    have hnot := hsettled.pending hc hpending
    simp [hset] at hnot
  | false =>
    rcases hsound.held.covered k ⟨hk, hc, hpending⟩ with ⟨j, hj⟩ | hmem
    · exact hstreams j hj
    · exact hinbox hmem

def unsettled (w : MultishotWorld ρ) (t : Nat) : Nat :=
  w.issued.countP fun k => (w.ops k).owner == t && !(w.ops k).isSettled

theorem countP_change {α : Type} [DecidableEq α] {l : List α} {x : α} {q q' : α → Bool}
    (hnd : l.Nodup) (hx : x ∈ l) (h : ∀ y ∈ l, y ≠ x → q' y = q y) :
    l.countP q' + (q x).toNat = l.countP q + (q' x).toNat := by
  induction l with
  | nil => simp at hx
  | cons y ys ih =>
    obtain ⟨hy, hnd⟩ := List.nodup_cons.mp hnd
    rw [List.countP_cons, List.countP_cons]
    by_cases hyx : y = x
    · subst hyx
      have hrest : ys.countP q' = ys.countP q := by
        apply List.countP_congr
        intro z hz
        have hne : z ≠ y := fun heq => hy (heq ▸ hz)
        rw [h z (List.mem_cons_of_mem _ hz) hne]
      cases q y <;> cases q' y <;> simp [hrest]
    · have hmem : x ∈ ys := (List.mem_cons.mp hx).resolve_left (Ne.symm hyx)
      have hrest := ih hnd hmem (fun z hz => h z (List.mem_cons_of_mem _ hz))
      rw [h y List.mem_cons_self hyx]
      omega

theorem unsettled_complete {e : MultishotEntry ρ} (hnd : w.issued.Nodup)
    (hkey : e.key ∈ w.issued) (hissued : w'.issued = w.issued)
    (hops : w'.ops = update w.ops e.key (w.noteDrained e)) (t : Nat) :
    w'.unsettled t + ((w.ops e.key).owner == t && !(w.ops e.key).isSettled).toNat =
      w.unsettled t + ((w.ops e.key).owner == t &&
        !((w.ops e.key).isSettled || !e.isMore)).toNat := by
  have hsame : ∀ y ∈ w.issued, y ≠ e.key →
      ((w'.ops y).owner == t && !(w'.ops y).isSettled) =
        ((w.ops y).owner == t && !(w.ops y).isSettled) := by
    intro y _ hne
    simp only [hops, update_of_ne hne]
  have hchange := countP_change hnd hkey hsame
  simp only [hops, update_self] at hchange
  simp only [unsettled, hissued, hops]
  exact hchange

/-- The owner's in-flight count is the number of its operations that are not settled. -/
def InFlight (w : MultishotWorld ρ) : Prop := ∀ t, w.inFlight t = w.unsettled t

theorem InFlight.start (hsound : Sound p valid w) (h : w.InFlight) (j owner : Nat)
    (isAccepted : Bool) : (w.start j owner isAccepted).InFlight := by
  have heffect := start_effect w j owner isAccepted
  generalize w.start j owner isAccepted = w' at heffect ⊢
  cases heffect with
  | accepted i key hstate hi hvacant hkey =>
    intro t
    have hfresh : key ∉ w.issued := hkey ▸ hsound.slots.fresh hvacant
    have hrest : w.issued.countP (fun k =>
        (update w.ops key ⟨owner, [], 0, false⟩ k).owner == t &&
          !(update w.ops key ⟨owner, [], 0, false⟩ k).isSettled) = w.unsettled t := by
      apply List.countP_congr
      intro k hk
      have hne : k ≠ key := fun heq => hfresh (heq ▸ hk)
      rw [update_of_ne hne]
    have hcount := h t
    simp only [unsettled, List.countP_cons, update_self]
    rw [hrest]
    by_cases howner : t = owner
    · subst howner
      simp [hcount]
    · simp [howner, Ne.symm howner, hcount]
  | _ => exact h

theorem InFlight.complete (hlaw : p.Lawful base valid stored discard) (hsound : Sound p valid w)
    (halias : w.Unaliased .complete) (htracked : ∀ k ∈ w.issued, Tracked w k)
    (hsettled : ∀ k ∈ w.issued, Settled w k) (h : w.InFlight) {e : MultishotEntry ρ}
    {rest : List (MultishotEntry ρ)} (hbatch : w.batch = e :: rest) : (w.complete p).InFlight := by
  have heffect := complete_drainEffect hlaw hsound halias hbatch
  obtain ⟨out, -, -, heq⟩ := complete_cons hlaw hsound hbatch
  have hkey := (hsound.entries e (by simp [hbatch])).1
  have hown : e.isCancel = false →
      w.ownEntries e.key = (e.value, e.isMore) :: (w.complete p).ownEntries e.key := by
    intro hcancel
    rw [heq]
    simp [ownEntries, entries, hbatch, hcancel]
  intro t
  have hcount := unsettled_complete hsound.slots.nodup hkey
    (show (w.complete p).issued = w.issued by rw [heq])
    (show (w.complete p).ops = _ by rw [heq]) t
  rw [← h t] at hcount
  have hretire : (w.ops e.key).isSettled = false → e.isMore = false →
      w.retire (some (w.ops e.key).owner) t = (w.complete p).unsettled t := by
    intro hnot hmore
    simp only [hnot, hmore, Bool.not_false, Bool.or_true, Bool.not_true, Bool.and_false,
      Bool.and_true, Bool.toNat_false] at hcount
    simp only [retire, update_apply]
    split
    case isTrue howner =>
      simp only [howner, beq_self_eq_true, Bool.toNat_true] at hcount ⊢
      omega
    case isFalse howner =>
      have hbeq : ((w.ops e.key).owner == t) = false := by simpa using Ne.symm howner
      simp only [hbeq, Bool.toNat_false] at hcount
      omega
  cases heffect with
  | stale hbefore hafter hflight =>
    rw [hflight]
    simpa [(hsettled e.key hkey).past hbefore] using hcount.symm
  | discarded hcurrent hpending hmore hslot hflight =>
    rw [hflight]
    simp only [hmore, Bool.not_true, Bool.or_false] at hcount
    omega
  | cancelled hcurrent hpending hmore hafter hflight =>
    rw [hflight, (hsettled e.key hkey).owner hcurrent]
    exact hretire ((hsettled e.key hkey).pending hcurrent hpending) hmore
  | kept hcurrent hpending hcancel hframe hterm hflight =>
    rw [hflight, (hsettled e.key hkey).owner hcurrent]
    cases hmore : e.isMore with
    | true =>
      simp only [hmore, Bool.not_true, Bool.or_false] at hcount
      simp only [if_true, retire]
      omega
    | false =>
      refine hretire ?_ hmore
      -- a terminated slot has seen the operation's last completion
      rw [(hsettled e.key hkey).waiting hcurrent hpending]
      by_contra hne
      have hend := ((htracked e.key hkey).final hcurrent hpending (by simpa using hne)).2
      obtain ⟨hget, -⟩ := (htracked e.key hkey).head (hown hcancel)
      obtain ⟨hlt, -⟩ := List.getElem?_eq_some_iff.mp hget
      omega

theorem InFlight.congr (h : w.InFlight) (hflight : w'.inFlight = w.inFlight)
    (hissued : w'.issued = w.issued) (hops : ∀ k, (w'.ops k).owner = (w.ops k).owner ∧
      (w'.ops k).isSettled = (w.ops k).isSettled) : w'.InFlight := by
  intro t
  rw [hflight, h t]
  simp only [unsettled, hissued, fun k => (hops k).1, fun k => (hops k).2]

theorem InFlight.step (hlaw : p.Lawful base valid stored discard) (hsound : Sound p valid w)
    (e : MultishotEvent ρ) (halias : w.Unaliased e) (htracked : ∀ k ∈ w.issued, Tracked w k)
    (hsettled : ∀ k ∈ w.issued, Settled w k) (h : w.InFlight) : (w.step p e).InFlight := by
  have heffect := step_effect p w e
  generalize w.step p e = w' at heffect ⊢
  cases heffect with
  | idle => exact h
  | next j owner isAccepted =>
    have hstart := h.start hsound j owner isAccepted
    unfold poll
    split <;> exact hstart.congr rfl rfl (fun _ => ⟨rfl, rfl⟩)
  | drainCancel =>
    unfold drainCancel
    split <;> exact h.congr rfl rfl (fun _ => ⟨rfl, rfl⟩)
  | post =>
    refine h.congr rfl rfl ?_
    intro k
    simp only [update_apply]
    split <;> simp [*]
  | complete e rest hbatch => exact h.complete hlaw hsound halias htracked hsettled hbatch
  | _ => exact h.congr rfl rfl (fun _ => ⟨rfl, rfl⟩)

def Balanced (w : MultishotWorld ρ) : Prop :=
  ∀ i, w.allocations i = (w.registry.slots i).frees + (w.registry.slots i).isOccupied.toNat

theorem Balanced.set (h : w.Balanced) {i : Nat} {s : MultishotSlot ρ}
    (hregistry : w'.registry = w.registry.set i s) (halloc : w'.allocations = w.allocations)
    (hs : s.frees + s.isOccupied.toNat =
      (w.registry.slots i).frees + (w.registry.slots i).isOccupied.toNat) : w'.Balanced := by
  rw [Balanced, hregistry, halloc]
  exact forall_set w.registry (P := fun j t => w.allocations j = t.frees + t.isOccupied.toNat) h
    ((h i).trans hs.symm)

theorem Balanced.same (h : w.Balanced) (hregistry : w'.registry = w.registry)
    (halloc : w'.allocations = w.allocations) : w'.Balanced := by
  rwa [Balanced, hregistry, halloc]

theorem freed_balance {s : MultishotSlot ρ} (hocc : s.isOccupied = true) :
    s.freed.frees + s.freed.isOccupied.toNat = s.frees + s.isOccupied.toNat := by
  rw [hocc]
  rfl

theorem Balanced.start (h : w.Balanced) (j owner : Nat) (isAccepted : Bool) :
    (w.start j owner isAccepted).Balanced := by
  have heffect := start_effect w j owner isAccepted
  generalize w.start j owner isAccepted = w' at heffect ⊢
  have hopened : ∀ i s, (w.registry.slots i).isOccupied = false →
      s.frees + s.isOccupied.toNat = (w.registry.slots i).frees + 1 →
      ∀ i', update w.allocations i (w.allocations i + 1) i' =
        ((w.registry.set i s).slots i').frees + ((w.registry.set i s).slots i').isOccupied.toNat := by
    intro i s hvacant hs i'
    by_cases hi : i' = i
    · subst hi
      rw [update_self, set_slots_self, hs, h i', hvacant]
      rfl
    · rw [update_of_ne hi, set_slots_of_ne _ hi]
      exact h i'
  cases heffect with
  | refused i hstate hi hvacant => exact hopened i _ hvacant rfl
  | accepted i key hstate hi hvacant => exact hopened i _ hvacant rfl
  | _ => exact h

theorem Balanced.step (hlaw : p.Lawful base valid stored discard) (hsound : Sound p valid w)
    (h : w.Balanced) (e : MultishotEvent ρ) : (w.step p e).Balanced := by
  have hstep := step_effect p w e
  generalize w.step p e = w' at hstep ⊢
  cases hstep with
  | idle => exact h
  | next j owner isAccepted =>
    have hstart := h.start j owner isAccepted
    have heffect := poll_effect hlaw (hsound.start hlaw j owner isAccepted).valid j
    generalize ((w.start j owner isAccepted).advance p j).1 = next at heffect
    generalize (w.start j owner isAccepted).poll p j = w' at heffect ⊢
    cases heffect with
    | pending => exact hstart
    | item key v s hstate hlive hvalid hframe =>
      exact hstart.set rfl rfl (by rw [hframe.frees, hframe.occupied])
    | ended key hstate hlive =>
      exact hstart.set rfl rfl (freed_balance (isLive_iff.mp hlive).2.2.1)
  | drainCancel =>
    unfold drainCancel
    split
    · exact h
    · exact h.same rfl rfl
    · next key rest hinbox =>
      have heffect := hlaw.cancel w.registry key hsound.valid
      generalize p.submitCancel w.registry key = out at heffect ⊢
      cases heffect with
      | stale hlive hreg => exact h.same hreg rfl
      | freed hlive hterm hreg =>
        exact h.set hreg rfl (freed_balance (isLive_iff.mp hlive).2.2.1)
      | marked s hlive hvalid hoccupied hfrees howner hpending hempty hreg =>
        refine h.set hreg rfl ?_
        rw [hfrees, hoccupied, (isLive_iff.mp hlive).2.2.1]
  | complete e rest hbatch =>
    obtain ⟨out, heffect, -, heq⟩ := complete_cons hlaw hsound hbatch
    rw [heq]
    cases heffect with
    | stale hlive hreg => exact h.same hreg rfl
    | cancelled hlive hpending hreg =>
      cases hmore : e.isMore with
      | true =>
        rw [hmore] at hreg
        exact h.same hreg rfl
      | false =>
        rw [hmore] at hreg
        exact h.set hreg rfl (freed_balance (isSlotLive_iff.mp hlive).2.1)
    | overflowed hlive hpending hfull hreg => exact h.set hreg rfl rfl
    | queued s hlive hpending hvalid hframe hterm hmem hcontents hreg =>
      exact h.set hreg rfl (by rw [hframe.frees, hframe.occupied])
  | _ => exact h.same rfl rfl

end MultishotWorld

end Kwokka
