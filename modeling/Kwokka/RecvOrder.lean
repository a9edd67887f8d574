import Kwokka.RecvAccount

/-! The order in which a multishot recv stream hands out what the kernel posted:
nothing is skipped as long as the queue of its slot has room when a data
completion is drained. -/

namespace Kwokka

open MultishotRegistry MultishotWorld Runs Function

namespace MultishotWorld

variable {ρ : Type} {p : MultishotProtocol ρ} {base : UInt64} {valid : MultishotSlot ρ → Prop}
  {stored : ρ → ρ} {discard : ρ → Bool → List ρ} {w w' : MultishotWorld ρ} {k : MultishotKey}

structure Keyed (w : MultishotWorld ρ) : Prop where
  multishot : ∀ j k, (w.streams j).state = .multishot k → (w.streams j).key = some k
  idle : ∀ j, (w.streams j).state = .idle → (w.streams j).key = none ∧ (w.streams j).items = []
  issued : ∀ j k, (w.streams j).key = some k → k ∈ w.issued
  unique : ∀ j j' k, (w.streams j).key = some k → (w.streams j').key = some k → j = j'

theorem Keyed.same (h : Keyed w) (hstreams : w'.streams = w.streams)
    (hissued : w'.issued = w.issued) : Keyed w' := by
  obtain ⟨hmultishot, hidle, hissued', hunique⟩ := h
  exact ⟨by rwa [hstreams], by rwa [hstreams], by rwa [hstreams, hissued], by rwa [hstreams]⟩

variable {s : MultishotStream ρ}

theorem Keyed.update (h : Keyed w) {j : Nat} (hstreams : w'.streams = update w.streams j s)
    (hissued : ∀ k ∈ w.issued, k ∈ w'.issued)
    (hmultishot : ∀ k, s.state = .multishot k → s.key = some k) (hidle : s.state ≠ .idle)
    (hkey : s.key = (w.streams j).key ∨ ∃ k ∈ w'.issued, s.key = some k ∧ k ∉ w.issued) :
    Keyed w' := by
  -- only the stream that moved on can have its new key
  have hother : ∀ j' k, j' ≠ j → (w.streams j').key = some k → s.key ≠ some k := by
    intro j' k hne hk hs
    rcases hkey with hold | ⟨k', -, hs', hfresh⟩
    · exact hne (h.unique j' j k hk (hold ▸ hs))
    · rw [hs'] at hs
      injection hs with hs
      exact hfresh (hs ▸ h.issued j' k hk)
  constructor
  · intro j' k hk
    rw [hstreams, update_apply] at hk ⊢
    split at hk
    case isTrue hj => simpa only [if_pos hj] using hmultishot k hk
    case isFalse hj => simpa only [if_neg hj] using h.multishot j' k hk
  · intro j' hk
    rw [hstreams, update_apply] at hk ⊢
    split at hk
    case isTrue hj => exact absurd hk hidle
    case isFalse hj => simpa only [if_neg hj] using h.idle j' hk
  · intro j' k hk
    rw [hstreams, update_apply] at hk
    split at hk
    case isTrue =>
      rcases hkey with hold | ⟨k', hk', hs, -⟩
      · exact hissued k (h.issued j k (hold ▸ hk))
      · cases hs.symm.trans hk
        exact hk'
    case isFalse => exact hissued k (h.issued j' k hk)
  · intro j₁ j₂ k hk₁ hk₂
    rw [hstreams, update_apply] at hk₁ hk₂
    split at hk₁ <;> split at hk₂
    case isTrue.isTrue hj₁ hj₂ => exact hj₁.trans hj₂.symm
    case isTrue.isFalse hj₁ hj₂ => exact absurd hk₁ (hother j₂ k hj₂ hk₂)
    case isFalse.isTrue hj₁ hj₂ => exact absurd hk₂ (hother j₁ k hj₁ hk₁)
    case isFalse.isFalse => exact h.unique j₁ j₂ k hk₁ hk₂

/-- What a stream handed out of the completions of its operation: with what is queued, all that
were drained; at its end, all there are. -/
def Delivered (s : MultishotStream ρ) (queue : List ρ) (op : MultishotOp ρ) : Prop :=
  match s.state with
  | .multishot _ => s.items ++ queue = (op.posted.take op.drained).map Prod.fst
  | .done => op.isFinal = true ∧ s.items = op.posted.map Prod.fst
  | _ => s.items <+: op.posted.map Prod.fst

theorem Delivered.no_gap {queue : List ρ} {op : MultishotOp ρ}
    (h : Delivered s queue op) : s.items <+: op.posted.map Prod.fst := by
  unfold Delivered at h
  split at h
  · have htake := List.take_prefix op.drained op.posted
    have hitems : s.items <+: s.items ++ queue := List.prefix_append ..
    rw [h] at hitems
    exact hitems.trans (htake.map Prod.fst)
  · rw [h.2]
  · exact h

theorem Delivered.frame {queue queue' : List ρ} {op op' : MultishotOp ρ} (h : Delivered s queue op)
    (hqueue : ∀ k, s.state = .multishot k → queue' = queue) (hposted : op'.posted = op.posted)
    (hdrained : ∀ k, s.state = .multishot k → op'.drained = op.drained) :
    Delivered s queue' op' := by
  unfold Delivered MultishotOp.isFinal at h ⊢
  rw [hposted]
  cases hstate : s.state with
  | multishot k => rwa [hstate, ← hqueue k hstate, ← hdrained k hstate] at h
  | _ => rwa [hstate] at h

structure Ordered (w : MultishotWorld ρ) (k : MultishotKey) : Prop where
  keyed : Keyed w
  delivered : ∀ j, (w.streams j).key = some k →
    Delivered (w.streams j) (w.slotOf k).contents (w.ops k)

theorem Keyed.reads (h : Keyed w) {j : Nat} {k' : MultishotKey}
    (hkey : (w.streams j).key = some k) (hstate : (w.streams j).state = .multishot k') :
    (w.streams j).state = .multishot k := by
  have heq := h.multishot j k' hstate
  rw [hkey] at heq
  injection heq with heq
  exact heq ▸ hstate

theorem Ordered.frame (h : Ordered w k) (hstreams : w'.streams = w.streams)
    (hissued : w'.issued = w.issued)
    (hslot : ∀ j, (w.streams j).state = .multishot k →
      (w'.slotOf k).contents = (w.slotOf k).contents)
    (hposted : (w'.ops k).posted = (w.ops k).posted)
    (hdrained : ∀ j, (w.streams j).state = .multishot k →
      (w'.ops k).drained = (w.ops k).drained) :
    Ordered w' k := by
  refine ⟨h.keyed.same hstreams hissued, ?_⟩
  intro j hkey
  rw [hstreams] at hkey ⊢
  exact (h.delivered j hkey).frame (fun _ hstate => hslot j (h.keyed.reads hkey hstate)) hposted
    (fun _ hstate => hdrained j (h.keyed.reads hkey hstate))

theorem slotOf_set_of_ne {i : Nat} {t : MultishotSlot ρ} (hregistry : w'.registry = w.registry.set i t)
    (hne : k.slot ≠ i) : w'.slotOf k = w.slotOf k := by
  rw [slotOf, hregistry, set_slots_of_ne _ hne]
  rfl

theorem Ordered.restream {j : Nat} (h : Ordered w k) (hkeyed : Keyed w')
    (hstreams : w'.streams = update w.streams j s)
    (hself : s.key = some k → Delivered s (w'.slotOf k).contents (w'.ops k))
    (hslot : ∀ j', j' ≠ j → (w.streams j').state = .multishot k → w'.slotOf k = w.slotOf k)
    (hops : ∀ j', (w.streams j').key = some k → w'.ops k = w.ops k) : Ordered w' k := by
  refine ⟨hkeyed, ?_⟩
  intro j' hkey
  rw [hstreams, update_apply] at hkey ⊢
  split at hkey
  case isTrue hj => simpa only [if_pos hj] using hself hkey
  case isFalse hj =>
    simp only [if_neg hj]
    rw [hops j' hkey]
    refine (h.delivered j' hkey).frame ?_ rfl (fun _ _ => rfl)
    intro k' hstate
    rw [hslot j' hj (h.keyed.reads hkey hstate)]

theorem Ordered.start (hsound : Sound p valid w) (h : Ordered w k) (j owner : Nat)
    (isAccepted : Bool) : Ordered (w.start j owner isAccepted) k := by
  have heffect := start_effect w j owner isAccepted
  generalize w.start j owner isAccepted = w' at heffect ⊢
  have hvacates : ∀ i, (w.registry.slots i).isOccupied = false → ∀ j',
      (w.streams j').state = .multishot k → k.slot ≠ i := by
    rintro i hvacant j' hstate rfl
    have hholds := hsound.held.stream j' k hstate
    have hocc := hsound.slots.current k hholds.issued hholds.current
    simp [hvacant] at hocc
  have hunkeyed : (w.streams j).state = .idle → (w.streams j).key ≠ some k := by
    intro hstate hkey
    simp [(h.keyed.idle j hstate).1] at hkey
  cases heffect with
  | polled => exact h
  | full hstate =>
    exact h.restream (h.keyed.update rfl (fun _ hk => hk) (by simp) (by simp) (.inl rfl)) rfl
      (fun hkey => absurd hkey (hunkeyed hstate)) (fun _ _ _ => rfl) (fun _ _ => rfl)
  | refused i hstate hi hvacant =>
    exact h.restream (h.keyed.update rfl (fun _ hk => hk) (by simp) (by simp) (.inl rfl)) rfl
      (fun hkey => absurd hkey (hunkeyed hstate))
      (fun j' _ hstate' => slotOf_set_of_ne rfl (hvacates i hvacant j' hstate')) (fun _ _ => rfl)
  | accepted i key hstate hi hvacant hkey' =>
    have hfresh : key ∉ w.issued := hkey' ▸ hsound.slots.fresh hvacant
    refine h.restream (h.keyed.update rfl (fun _ hk => List.mem_cons_of_mem _ hk) (by simp) (by simp)
      (.inr ⟨key, List.mem_cons_self, rfl, hfresh⟩)) rfl ?_
      (fun j' _ hstate' => slotOf_set_of_ne rfl (hvacates i hvacant j' hstate')) ?_
    · intro hkey
      cases hkey
      have hempty : (w.streams j).items = [] := (h.keyed.idle j hstate).2
      simp [Delivered, slotOf, hkey', MultishotSlot.opened, MultishotSlot.contents, hempty]
    · intro j' hkey
      have hne : k ≠ key := fun heq => hfresh (heq ▸ h.keyed.issued j' k hkey)
      exact update_of_ne hne ..

theorem Ordered.slot_ne (hsound : Sound p valid w) (h : Ordered w k) {j j' : Nat}
    {key : MultishotKey} (hj : j' ≠ j) (hstate' : (w.streams j').state = .multishot k)
    (hstate : (w.streams j).state = .multishot key) : k.slot ≠ key.slot := by
  intro hslot
  have hheld := hsound.held.stream j key hstate
  have heq := hheld.eq_of_slot hsound.slots (hsound.held.stream j' k hstate') hslot
  exact hj (h.keyed.unique j' j k (h.keyed.multishot j' k hstate')
    (heq ▸ h.keyed.multishot j key hstate))

theorem Ordered.poll (hlaw : p.Lawful base valid stored discard) (hsound : Sound p valid w)
    (htracked : k ∈ w.issued → Tracked w k) (h : Ordered w k) (j : Nat) :
    Ordered (w.poll p j) k := by
  have heffect := poll_effect hlaw hsound.valid j
  generalize (w.advance p j).1 = next at heffect
  generalize w.poll p j = w' at heffect ⊢
  cases heffect with
  | pending => exact h
  | item key v s hstate hlive hvalid hframe hterm hcontents =>
    have hold := h.keyed.multishot j key hstate
    refine h.restream ?_ rfl ?_ (fun j' hj hstate' =>
      slotOf_set_of_ne rfl (h.slot_ne hsound hj hstate' hstate)) (fun _ _ => rfl)
    · exact h.keyed.update rfl (fun _ hk => hk) (fun k' hk' => h.keyed.multishot j k' hk')
        (by simp [hstate]) (.inl rfl)
    · intro hkey
      cases hold.symm.trans hkey
      have hdelivered := h.delivered j hold
      simp only [Delivered, hstate, slotOf, hcontents, set_slots_self, List.append_assoc,
        List.singleton_append] at hdelivered ⊢
      exact hdelivered
  | ended key hstate hlive hterm hempty =>
    have hold := h.keyed.multishot j key hstate
    refine h.restream (h.keyed.update rfl (fun _ hk => hk) (by simp) (by simp) (.inl rfl)) rfl ?_
      (fun j' hj hstate' => slotOf_set_of_ne rfl (h.slot_ne hsound hj hstate' hstate))
      (fun _ _ => rfl)
    intro hkey
    cases hold.symm.trans hkey
    have hheld := hsound.held.stream j k hstate
    obtain ⟨hfinal, hdrained⟩ :=
      (htracked hheld.issued).final hheld.current hheld.waiting hterm
    have hdelivered := h.delivered j hold
    simp only [Delivered, hstate, slotOf, hempty, List.append_nil, hdrained,
      List.take_length] at hdelivered
    exact ⟨hfinal, hdelivered⟩

theorem Ordered.dropStream (h : Ordered w k) (j : Nat) : Ordered (w.dropStream p j) k :=
  h.restream (h.keyed.update rfl (fun _ hk => hk) (by simp) (by simp) (.inl rfl)) rfl
    (fun hkey => (h.delivered j hkey).no_gap) (fun _ _ _ => rfl) (fun _ _ => rfl)

theorem Ordered.drainCancel (hlaw : p.Lawful base valid stored discard) (hsound : Sound p valid w)
    (h : Ordered w k) (isAccepted : Bool) : Ordered (w.drainCancel p isAccepted) k := by
  unfold MultishotWorld.drainCancel
  split
  · exact h
  · exact h.frame rfl rfl (fun _ _ => rfl) rfl (fun _ _ => rfl)
  · next key rest hinbox =>
    refine h.frame rfl rfl ?_ rfl (fun _ _ => rfl)
    intro j hstate
    obtain ⟨hrecord, hnone⟩ := hsound.held.record key (hinbox ▸ List.mem_cons_self)
    have hne : k.slot ≠ key.slot := by
      intro hslot
      have heq := hrecord.eq_of_slot hsound.slots (hsound.held.stream j k hstate) hslot
      exact hnone j (heq ▸ hstate)
    have heffect := hlaw.cancel w.registry key hsound.valid
    generalize p.submitCancel w.registry key = out at heffect ⊢
    cases heffect with
    | stale hlive hreg => simp only [slotOf, hreg]
    | freed hlive hterm hreg => rw [slotOf_set_of_ne hreg hne]
    | marked s hlive hvalid hoccupied hfrees howner hpending hempty hreg =>
      rw [slotOf_set_of_ne hreg hne]

theorem Ordered.post (htracked : k ∈ w.issued → Tracked w k) (h : Ordered w k)
    (key : MultishotKey) (v : ρ) (isMore : Bool) (hissued : key ∈ w.issued)
    (hfinal : (w.ops key).isFinal = false) : Ordered { w with
      ops := update w.ops key { w.ops key with posted := (w.ops key).posted ++ [(v, isMore)] }
      cq := w.cq ++ [⟨key, p.encode key, v, isMore, false⟩] } k := by
  by_cases hk : key = k
  · subst hk
    refine ⟨h.keyed.same rfl rfl, ?_⟩
    intro j hkey
    have hdelivered := h.delivered j hkey
    simp only [update_self]
    unfold Delivered at hdelivered ⊢
    cases hstate : (w.streams j).state with
    | multishot =>
      rw [hstate] at hdelivered
      simp only [slotOf, List.take_append_of_le_length (htracked hissued).le] at hdelivered ⊢
      exact hdelivered
    | done =>
      rw [hstate] at hdelivered
      simp [hfinal] at hdelivered
    | _ =>
      rw [hstate] at hdelivered
      simp only [List.map_append] at hdelivered ⊢
      exact hdelivered.trans (List.prefix_append ..)
  · exact h.frame rfl rfl (fun _ _ => rfl) (by simp [Ne.symm hk]) (fun _ _ => by simp [Ne.symm hk])

def Queues (p : MultishotProtocol ρ) (w : MultishotWorld ρ) (k : MultishotKey) : Prop :=
  ∀ e rest, w.batch = e :: rest → e.key = k → e.isCancel = false →
    (∃ j, (w.streams j).state = .multishot k) →
    ((w.complete p).slotOf k).contents = (w.slotOf k).contents ++ [e.value]

theorem Ordered.complete (hlaw : p.Lawful base valid stored discard) (hsound : Sound p valid w)
    (halias : w.Unaliased .complete) (htracked : k ∈ w.issued → Tracked w k)
    (hqueues : w.Queues p k) (h : Ordered w k) {e : MultishotEntry ρ}
    {rest : List (MultishotEntry ρ)} (hbatch : w.batch = e :: rest) : Ordered (w.complete p) k := by
  obtain ⟨out, heffect, -, heq⟩ := complete_cons hlaw hsound hbatch
  have hkey := (hsound.entries e (by simp [hbatch])).1
  have hstreams : (w.complete p).streams = w.streams := by rw [heq]
  have hissued : (w.complete p).issued = w.issued := by rw [heq]
  have hops : (w.complete p).ops = update w.ops e.key (w.noteDrained e) := by rw [heq]
  have hposted : ((w.complete p).ops k).posted = (w.ops k).posted := by
    rw [hops]
    by_cases hk : k = e.key
    · subst hk
      simp [noteDrained]
    · rw [update_of_ne hk]
  by_cases hown : e.key = k ∧ e.isCancel = false
  · obtain ⟨hk, hcancel⟩ := hown
    refine ⟨h.keyed.same hstreams hissued, ?_⟩
    intro j hjkey
    rw [hstreams] at hjkey ⊢
    have hdelivered := h.delivered j hjkey
    cases hstate : (w.streams j).state with
    | multishot =>
      have hcontents := hqueues e rest hbatch hk hcancel ⟨j, h.keyed.reads hjkey hstate⟩
      subst hk
      have hown' : w.ownEntries e.key =
          (e.value, e.isMore) :: (w.complete p).ownEntries e.key := by
        rw [heq]
        simp [ownEntries, entries, hbatch, hcancel]
      have hget := ((htracked hkey).head hown').1
      simp only [Delivered, hstate] at hdelivered ⊢
      rw [hcontents, ← List.append_assoc, hdelivered, hops, update_self]
      simp [noteDrained, hcancel, List.take_add_one, hget]
    | _ => exact hdelivered.frame (by simp [hstate]) hposted (by simp [hstate])
  · refine h.frame hstreams hissued ?_ hposted ?_
    · intro j hstate
      have hholds := hsound.held.stream j k hstate
      by_cases hslot : k.slot = e.key.slot
      · -- the completion is of an earlier operation of the slot
        have hdead : w.registry.isSlotLive e.key.slot (e.key.occupancy % 2 ^ 16) = false := by
          by_contra hne
          have hlive := by simpa using hne
          have hke : e.key = k := hsound.slots.eq_of_current hkey hholds.issued
            (halias.head hbatch hlive) hholds.current hslot.symm
          have hpending := hholds.waiting
          rw [hslot] at hpending
          exact hown ⟨hke, (hsound.own_of_live hbatch halias hlive hpending).1⟩
        cases heffect with
        | stale hlive hreg => rw [heq, slotOf, hreg, slotOf]
        | cancelled hlive => exact absurd (hdead.symm.trans hlive) Bool.false_ne_true
        | overflowed hlive => exact absurd (hdead.symm.trans hlive) Bool.false_ne_true
        | queued s hlive => exact absurd (hdead.symm.trans hlive) Bool.false_ne_true
      · rw [heq]
        cases heffect with
        | stale hlive hreg => rw [slotOf, hreg, slotOf]
        | cancelled hlive hpending hreg =>
          rw [slotOf, hreg]
          split
          · rfl
          · rw [set_slots_of_ne _ hslot, slotOf]
        | overflowed hlive hpending hfull hreg =>
          rw [slotOf, hreg, set_slots_of_ne _ hslot, slotOf]
        | queued s hlive hpending hvalid hframe hterm hmem hcontents hreg =>
          rw [slotOf, hreg, set_slots_of_ne _ hslot, slotOf]
    · intro j hstate
      rw [hops]
      by_cases hk : k = e.key
      · subst hk
        have hcancel : e.isCancel = true := by simpa using hown
        simp [noteDrained, hcancel]
      · rw [update_of_ne hk]

theorem Ordered.step (hlaw : p.Lawful base valid stored discard) (hsound : Sound p valid w)
    (e : MultishotEvent ρ) (halias : w.Unaliased e) (htracked : k ∈ w.issued → Tracked w k)
    (hqueues : e = .complete → w.Queues p k) (h : Ordered w k) : Ordered (w.step p e) k := by
  have heffect := step_effect p w e
  generalize w.step p e = w' at heffect ⊢
  cases heffect with
  | idle => exact h
  | next j owner isAccepted =>
    refine (h.start hsound j owner isAccepted).poll hlaw
      (hsound.start hlaw j owner isAccepted) ?_ j
    intro hk
    exact Tracked.of_effect (start_keyEffect hsound j owner isAccepted hk) htracked
  | drop j => exact h.dropStream j
  | drainCancel isAccepted => exact h.drainCancel hlaw hsound isAccepted
  | post key v isMore hkey hfinal => exact h.post htracked key v isMore hkey hfinal
  | complete e rest hbatch => exact h.complete hlaw hsound halias htracked (hqueues rfl) hbatch
  | _ => exact h.frame rfl rfl (fun _ _ => rfl) rfl (fun _ _ => rfl)

end MultishotWorld

theorem pushRecvMultishotCompletion_kept {r : MultishotRegistry RecvResult} {userData : UInt64}
    {v : RecvResult} {isMore : Bool} {slot generation : Nat}
    (hslot : multishotSentinelSlot userData = slot)
    (hgeneration : multishotSentinelGeneration userData = generation)
    (hlive : r.isSlotLive slot generation = true)
    (hpending : (r.slots slot).isCancelPending = false)
    (hnone : (r.slots slot).terminal = none)
    (hroom : isMore = true → (r.slots slot).fifo.length < multishotFifoDepth) :
    ((pushRecvMultishotCompletion r userData v isMore).registry.slots slot).contents =
      (r.slots slot).contents ++ [v.stored] := by
  unfold pushRecvMultishotCompletion
  rw [hslot, hgeneration]
  cases isMore with
  | true =>
    have hfull := Nat.not_le.mpr (hroom rfl)
    simp [isCancelPending, RecvMultishotSlab.push, hlive, hpending, hfull, MultishotSlot.contents,
      hnone]
  | false =>
    simp [isCancelPending, RecvMultishotSlab.push, hlive, hpending, MultishotSlot.contents, hnone]

namespace RecvWorld

variable {w : RecvWorld} {k : MultishotKey}

/-- The step does not lose a completion of `k`: a read hands on the last one it takes, and a
data completion that is drained while its stream is read finds room in the queue; and a
completion is not taken for one of a later operation on its slot. -/
def Delivers (k : MultishotKey) (w : RecvWorld) : RecvEvent → Prop
  | .stream (.read own isOwnSkipped) => w.core.ReadsOwn k own isOwnSkipped
  | .stream .complete =>
    w.core.Unaliased .complete ∧
      match w.core.batch with
      | [] => True
      | e :: _ => e.key = k → e.isMore = true →
          (w.core.registry.slots k.slot).fifo.length < multishotFifoDepth
  | _ => True

theorem Delivers.unaliased {e : MultishotEvent RecvResult} (h : Delivers k w (.stream e)) :
    w.core.Unaliased e := by
  cases e with
  | complete => exact h.1
  | _ => trivial

theorem IsSelected.stored_eq {n : Nat} {v : RecvResult} (h : IsSelected n v)
    (hn : n ≤ maxRingEntries) : v.stored = v := by
  obtain ⟨result, bufId⟩ := v
  cases bufId with
  | none => rfl
  | some id =>
    have hlt := (h id rfl).1
    have hne : id ≠ noBuffer := by
      rintro rfl
      exact absurd (Nat.lt_of_lt_of_le hlt hn) (by decide)
    simp [RecvResult.stored, Option.filter, hne]

theorem Selected.queues (h : Selected w) (htracked : k ∈ w.core.issued → Tracked w.core k)
    (hc : Delivers k w (.stream .complete)) : w.core.Queues recvProtocol k := by
  rintro e rest hbatch rfl hcancel ⟨j, hstate⟩
  have hsound := h.sound.sound
  have hmem : e ∈ w.core.batch ++ w.core.cq := by simp [hbatch]
  have hmark := hsound.marker recvProtocol_lawful hmem
  have hholds := hsound.held.stream j e.key hstate
  have hnone := terminal_eq_none hsound hbatch (htracked hholds.issued) hcancel hholds.current
    hholds.waiting
  have hroom := hc.2
  simp only [hbatch] at hroom
  have hroute := recvProtocol_lawful.routes e.userData hmark.high
  have hkept := pushRecvMultishotCompletion_kept (v := e.value) hmark.slot hmark.generation
    (hsound.slots.isSlotLive hholds.issued hholds.current) hholds.waiting hnone (hroom trivial)
  rw [(h.values.posted e hmem).stored_eq h.entries] at hkept
  simp only [slotOf, complete, hbatch, hroute, if_true]
  exact hkept

structure Stream (k : MultishotKey) (w : RecvWorld) : Prop where
  selected : Selected w
  tracked : k ∈ w.core.issued → Tracked w.core k
  ordered : Ordered w.core k

theorem Stream.initial (k : MultishotKey) (workerId cap : Nat) {n : Nat}
    (hn : n ≤ maxRingEntries) : Stream k (initial workerId cap n) where
  selected := .initial workerId cap hn
  tracked := by simp [RecvWorld.initial, MultishotWorld.initial]
  ordered := by
    constructor
    · constructor <;> simp [RecvWorld.initial, MultishotWorld.initial]
    · simp [RecvWorld.initial, MultishotWorld.initial]

theorem Stream.step (h : Stream k w) (e : RecvEvent) (hc : Delivers k w e) :
    Stream k (w.step e) := by
  cases e with
  | stream e =>
    cases hpossible : w.isPossible e with
    | true =>
      have hsound := h.selected.sound.sound
      have hselected := h.selected.stream hc.unaliased hpossible
      simp only [RecvWorld.step, hpossible, if_true, recycle] at hselected ⊢
      refine ⟨hselected, ?_, ?_⟩
      · intro hk
        refine KeyEffect.invariant (I := fun w => Tracked w k) Tracked.of_effect
          recvProtocol_lawful freesEnded_recvProtocol hsound e hc.unaliased ?_ h.tracked hk
        rintro own isOwnSkipped rfl
        exact hc
      · refine h.ordered.step recvProtocol_lawful hsound e hc.unaliased h.tracked ?_
        rintro rfl
        exact h.selected.queues h.tracked hc
    | false => simpa only [RecvWorld.step, hpossible, Bool.false_eq_true, if_false] using h
  | dropView id =>
    have hselected := h.selected.dropView id
    have hcore : (w.step (.dropView id)).core = w.core := by
      simp only [RecvWorld.step]
      split <;> rfl
    exact ⟨hselected, hcore ▸ h.tracked, hcore ▸ h.ordered⟩

end RecvWorld

namespace RecvWorld

variable {w : RecvWorld} {k : MultishotKey}

def chunks (vs : List RecvResult) : List (Except IoError ProvidedBuf) :=
  (vs.map RecvResult.item).filter Except.isOk

/-- The stream's `Ok` items are the first of those the kernel posted, without a gap; if it ended
before the last of them, it handed out an error. -/
structure InOrder (w : RecvWorld) (j : Nat) (k : MultishotKey) : Prop where
  gapFree : chunks (w.core.streams j).items <+: chunks ((w.core.ops k).posted.map Prod.fst)
  ended : (w.core.streams j).state = .done →
    chunks (w.core.streams j).items = chunks ((w.core.ops k).posted.map Prod.fst) ∨
      ∃ v ∈ (w.core.streams j).items, v.item.isOk = false

theorem Stream.inOrder (h : Stream k w) {j : Nat} (hkey : (w.core.streams j).key = some k) :
    InOrder w j k := by
  have hdelivered := h.ordered.delivered j hkey
  constructor
  · exact (hdelivered.no_gap.map RecvResult.item).filter Except.isOk
  · intro hdone
    simp only [Delivered, hdone] at hdelivered
    rw [hdelivered.2]
    exact .inl rfl

theorem chunks_in_order (workerId cap : Nat) {n : Nat} (hn : n ≤ maxRingEntries)
    (k : MultishotKey) (es : List RecvEvent)
    (h : Meets step (Delivers k) (initial workerId cap n) es) (j : Nat)
    (hkey : ((run step (initial workerId cap n) es).core.streams j).key = some k) :
    InOrder (run step (initial workerId cap n) es) j k :=
  (h.invariant (fun _ e hw hc => hw.step e hc) (Stream.initial k workerId cap hn)).inOrder hkey

instance decidableDelivers (k : MultishotKey) (w : RecvWorld) :
    (e : RecvEvent) → Decidable (Delivers k w e)
  | .stream (.read own isOwnSkipped) =>
    match h : w.core.skipped own isOwnSkipped with
    | none => isTrue (by simp only [Delivers, ReadsOwn, h])
    | some e => decidable_of_iff (e.key ≠ k ∨ e.isCancel = true)
        (by simp only [Delivers, ReadsOwn, h])
  | .stream .complete =>
    match h : w.core.batch with
    | [] => isTrue (by simp only [Delivers, Unaliased, h, and_self])
    | e :: _ =>
      decidable_of_iff
        ((w.core.registry.isSlotLive e.key.slot (e.key.occupancy % 2 ^ 16) = true →
            e.key.occupancy = (w.core.registry.slots e.key.slot).frees) ∧
          (e.key = k → e.isMore = true →
            (w.core.registry.slots k.slot).fifo.length < multishotFifoDepth))
        (by simp only [Delivers, Unaliased, h])
  | .stream (.next ..) | .stream (.drop _) | .stream .pushOther | .stream (.drainCancel _)
  | .stream (.post ..) | .stream (.postCancel ..) | .dropView _ => isTrue trivial

def readToEnd : List RecvEvent :=
  [.stream (.next 0 5 true), .stream (.post recvKey ⟨10, some 0⟩ true),
    .stream (.post recvKey ⟨7, some 1⟩ true), .stream (.read 1 false), .stream .complete,
    .stream (.read 64 true), .stream .complete, .stream (.next 0 5 true),
    .stream (.post recvKey ⟨0, none⟩ false), .stream (.read 64 true), .stream .complete,
    .stream (.next 0 5 true), .stream (.next 0 5 true), .stream (.next 0 5 true)]

theorem chunks_in_order_toEnd :
    Meets step (Delivers recvKey) (initial 0 8 4) readToEnd ∧
      InOrder (run step (initial 0 8 4) readToEnd) 0 recvKey :=
  have h : Meets step (Delivers recvKey) (initial 0 8 4) readToEnd := by decide
  ⟨h, chunks_in_order 0 8 (by decide) recvKey readToEnd h 0 (by decide)⟩

/-- The queue fills while the consumer is busy elsewhere, one more chunk arrives, and the
consumer reads on. -/
def lateConsumer : List RecvEvent :=
  .stream (.next 0 5 true) ::
    ((List.range multishotFifoDepth).map fun id => .stream (.post recvKey ⟨10, some id⟩ true)) ++
    .stream (.read 64 true) :: List.replicate multishotFifoDepth (.stream .complete) ++
    [.stream (.post recvKey ⟨10, some 64⟩ true), .stream (.read 64 true), .stream .complete,
      .stream (.next 0 5 true),
      .stream (.post recvKey ⟨10, some 65⟩ true), .stream (.read 64 true), .stream .complete] ++
    List.replicate multishotFifoDepth (.stream (.next 0 5 true))

set_option maxRecDepth 100000 in
theorem full_queue_skips_chunk :
    ((run step (initial 0 8 128) lateConsumer).core.streams 0).key = some recvKey ∧
      ¬ InOrder (run step (initial 0 8 128) lateConsumer) 0 recvKey := by
  refine ⟨by decide +kernel, ?_⟩
  intro h
  have hgap := h.gapFree
  revert hgap
  decide +kernel

end RecvWorld

end Kwokka
