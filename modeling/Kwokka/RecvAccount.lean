import Kwokka.MultishotSettle
import Kwokka.RecvMultishot

/-! Where a provided buffer is: in the kernel's ring, with a completion on its way,
queued in a slot, or under a view of the consumer. A worker that reads no more
than a batch at a time loses none of them. -/

namespace Kwokka

open MultishotRegistry MultishotWorld Runs

/-- `BufRing` registers at most this many buffers. -/
def maxRingEntries : Nat := 2 ^ 15

theorem freesEnded_recvProtocol : FreesEnded recvProtocol := by
  intro r key hlive hsubmitted
  have hout : recvProtocol.submitCancel r key = submitRecvMultishotCancel r key := rfl
  rw [hout, submitRecvMultishotCancel_live hlive] at hsubmitted
  cases hterm : (r.slots key.slot).isTerminated with
  | false => rfl
  | true => simp [hterm] at hsubmitted

structure RecvSound (w : MultishotWorld RecvResult) : Prop where
  sound : w.Sound recvProtocol StashesLast
  cap : w.registry.cap ≤ recvProtocol.inboxCapacity
  records : ∀ x ∈ w.inbox, x.isSome = true

theorem RecvSound.initial (workerId cap : Nat) :
    RecvSound (.initial (.new workerId cap defaultRecvMultishotCap)) where
  sound := .initial (Nat.le_trans (Nat.min_le_right ..) (by decide))
    (fun hsome => Bool.noConfusion hsome)
  cap := Nat.min_le_right ..
  records := by simp [MultishotWorld.initial]

theorem RecvSound.hasRoom {w : MultishotWorld RecvResult} (h : RecvSound w) {j : Nat}
    {k : MultishotKey} (hstate : (w.streams j).state = .multishot k) :
    w.inbox.length < recvCancelInboxCapacity := by
  have hkeys : w.inbox = (w.inbox.filterMap id).map some := by
    have hrecords := h.records
    generalize w.inbox = inbox at hrecords
    induction inbox with
    | nil => rfl
    | cons x xs ih =>
      obtain ⟨k, rfl⟩ := Option.isSome_iff_exists.mp (hrecords x List.mem_cons_self)
      have hxs := ih (fun y hy => hrecords y (List.mem_cons_of_mem _ hy))
      conv_lhs => rw [hxs]
      rfl
  have hlen : w.inbox.length = (w.inbox.filterMap id).length := by
    conv_lhs => rw [hkeys]
    rw [List.length_map]
  have hmem : ∀ k' ∈ w.inbox.filterMap id, some k' ∈ w.inbox := by
    intro k' hk'
    simpa using hk'
  -- the stream's slot and the slots of the queued records are distinct
  have hslots : ((k :: w.inbox.filterMap id).map MultishotKey.slot).Nodup := by
    have hholds : ∀ k' ∈ k :: w.inbox.filterMap id, w.registry.Holds w.issued k' := by
      intro k' hk'
      rcases List.mem_cons.mp hk' with rfl | hk'
      · exact h.sound.held.stream j k' hstate
      · exact (h.sound.held.record k' (hmem k' hk')).1
    have hnodup : (k :: w.inbox.filterMap id).Nodup := by
      refine List.nodup_cons.mpr ⟨?_, h.sound.held.nodup⟩
      intro hk
      exact (h.sound.held.record k (hmem k hk)).2 j hstate
    refine List.Nodup.map_on ?_ hnodup
    intro a ha b hb hab
    exact (hholds b hb).eq_of_slot h.sound.slots (hholds a ha) hab
  have hsub : (k :: w.inbox.filterMap id).map MultishotKey.slot ⊆
      List.range w.registry.cap := by
    intro i hi
    obtain ⟨k', hk', rfl⟩ := List.mem_map.mp hi
    rw [List.mem_range]
    rcases List.mem_cons.mp hk' with rfl | hk'
    · exact (h.sound.slots.owned k' (h.sound.held.stream j k' hstate).issued).2
    · exact (h.sound.slots.owned k' (h.sound.held.record k' (hmem k' hk')).1.issued).2
  have hle := (hslots.subperm hsub).length_le
  have hcap : w.registry.cap ≤ recvCancelInboxCapacity := h.cap
  simp only [List.length_map, List.length_cons, List.length_range] at hle
  omega

theorem mem_pushRecord {ρ : Type} {p : MultishotProtocol ρ} {w : MultishotWorld ρ}
    {x record : Option MultishotKey} (hx : x ∈ w.pushRecord p record) :
    x ∈ w.inbox ∨ x = record := by
  unfold pushRecord at hx
  split at hx
  · simpa using hx
  · exact .inl hx

theorem mem_inbox_step {ρ : Type} {p : MultishotProtocol ρ} {w : MultishotWorld ρ}
    {e : MultishotEvent ρ} {x : Option MultishotKey} (hx : x ∈ (w.step p e).inbox) :
    x ∈ w.inbox ∨ (∃ k, x = some k) ∨ p.isInboxShared = true := by
  have heffect := step_effect p w e
  generalize w.step p e = w' at heffect hx
  cases heffect with
  | next j owner isAccepted =>
    have hstart : (w.start j owner isAccepted).inbox = w.inbox := by
      have heffect := start_effect w j owner isAccepted
      generalize w.start j owner isAccepted = w' at heffect ⊢
      cases heffect <;> rfl
    have hpoll : ((w.start j owner isAccepted).poll p j).inbox = w.inbox := by
      rw [← hstart]
      unfold poll
      split <;> rfl
    exact .inl (hpoll ▸ hx)
  | drop =>
    simp only [dropStream] at hx
    split at hx
    · next k hstate => exact (mem_pushRecord hx).imp_right fun hx => .inl ⟨k, hx⟩
    · exact .inl hx
  | pushOther hshared => exact .inr (.inr hshared)
  | drainCancel =>
    unfold drainCancel at hx
    split at hx
    · exact .inl hx
    · next rest hinbox => exact .inl (hinbox ▸ List.mem_cons_of_mem _ hx)
    · next key rest hinbox => exact .inl (hinbox ▸ List.mem_cons_of_mem _ hx)
  | complete e rest hbatch =>
    simp only [complete, hbatch] at hx
    split at hx <;> exact .inl hx
  | _ => exact .inl hx

theorem RecvSound.step {w : MultishotWorld RecvResult} (h : RecvSound w)
    (e : MultishotEvent RecvResult) : RecvSound (w.step recvProtocol e) := by
  have hroom : w.HasRoom recvProtocol e := by
    cases e with
    | drop j =>
      cases hstate : (w.streams j).state with
      | multishot =>
        simp only [HasRoom, hstate]
        exact h.hasRoom hstate
      | _ => simp only [HasRoom, hstate]
    | _ => trivial
  refine ⟨h.sound.step recvProtocol_lawful e hroom, ?_, ?_⟩
  · rw [step_cap recvProtocol_lawful h.sound e]
    exact h.cap
  · intro x hx
    rcases mem_inbox_step hx with hx | ⟨k, rfl⟩ | hshared
    · exact h.records x hx
    · rfl
    · exact absurd hshared (by decide)

namespace RecvWorld

variable {w : RecvWorld} {n : Nat}

def IsSelected (n : Nat) (v : RecvResult) : Prop :=
  ∀ id, v.bufId = some id → id < n ∧ 0 ≤ v.result

theorem IsSelected.stored {v : RecvResult} (h : IsSelected n v) : IsSelected n v.stored := by
  intro id hid
  have hid : v.bufId = some id := (Option.filter_eq_some_iff.mp hid).1
  exact h id hid

theorem itemBufId_item {v : RecvResult} (h : IsSelected n v) (hn : n ≤ maxRingEntries) :
    itemBufId v.item = v.bufId := by
  unfold RecvResult.item resolveProvidedRecv
  cases hid : v.bufId with
  | none =>
    simp only [Option.map_none]
    split
    · rfl
    · split <;> rfl
  | some id =>
    obtain ⟨hlt, hpos⟩ := h id hid
    have hid16 : id < 2 ^ 16 := Nat.lt_of_lt_of_le hlt (Nat.le_trans hn (by decide))
    rw [if_neg (by omega)]
    simp only [Option.map_some, itemBufId]
    rw [UInt16.toNat_ofNat_of_lt' hid16]

def bears (id : Nat) (v : RecvResult) : Nat := if v.bufId = some id then 1 else 0

theorem bears_stored {id : Nat} (hid : id < maxRingEntries) (v : RecvResult) :
    bears id v.stored = bears id v := by
  have hne : id ≠ noBuffer := by
    rintro rfl
    exact absurd hid (by decide)
  have hiff : v.stored.bufId = some id ↔ v.bufId = some id := by
    simp only [RecvResult.stored, Option.filter_eq_some_iff, bne_iff_ne]
    tauto
  simp only [bears, hiff]

theorem weigh_bears (id : Nat) (vs : List RecvResult) :
    weigh (bears id) vs = (vs.filterMap RecvResult.bufId).count id := by
  induction vs with
  | nil => rfl
  | cons v vs ih =>
    rw [weigh_cons, ih, bears]
    cases hid : v.bufId with
    | none => simp [hid]
    | some id' =>
      by_cases heq : id' = id
      · simp [hid, heq, Nat.add_comm]
      · simp [hid, heq]

/-- How often buffer `id` is in a posted completion or a slot, in the ring and under a view,
taken together. -/
def places (w : RecvWorld) (id : Nat) : Nat :=
  w.core.carried (bears id) + w.ring.count id + w.views.count id

/-- The read skips none of these completions, and a drained completion is not taken
for one of a later operation on its slot. -/
def Reads (w : RecvWorld) : RecvEvent → Prop
  | .stream (.read own isOwnSkipped) => w.core.skipped own isOwnSkipped = none
  | .stream .complete => w.core.Unaliased .complete
  | _ => True

variable {e : MultishotEvent RecvResult}

theorem Reads.unaliased (h : w.Reads (.stream e)) : w.core.Unaliased e := by
  cases e <;> first | exact h | trivial

structure Selected (w : RecvWorld) : Prop where
  sound : RecvSound w.core
  entries : w.entries ≤ maxRingEntries
  values : w.core.Values (fun e => IsSelected w.entries e.value) (IsSelected w.entries)
  bound : ∀ id ∈ w.ring ++ w.views, id < w.entries

theorem Selected.initial (workerId cap : Nat) (hn : n ≤ maxRingEntries) :
    Selected (initial workerId cap n) where
  sound := .initial workerId cap
  entries := hn
  values :=
    { posted := by simp [RecvWorld.initial, MultishotWorld.initial, MultishotWorld.entries]
      queued := fun i v hv => by
        simp [RecvWorld.initial, MultishotWorld.initial, MultishotRegistry.new,
          MultishotSlot.vacant, MultishotSlot.contents] at hv }
  bound := by simp [RecvWorld.initial]

theorem Selected.yielded (h : Selected w) (e : MultishotEvent RecvResult) :
    ∀ v ∈ w.core.yielded recvProtocol e, IsSelected w.entries v := by
  cases e with
  | next j owner isAccepted =>
    simp only [MultishotWorld.yielded]
    split
    · exact ((h.values.start j owner isAccepted).poll recvProtocol_lawful
        (h.sound.sound.start recvProtocol_lawful j owner isAccepted) j).2
    · simp
  | _ => simp [MultishotWorld.yielded]

theorem Selected.released (h : Selected w) (halias : w.core.Unaliased e) :
    ∀ v ∈ w.core.released recvProtocol e, IsSelected w.entries v := by
  cases e with
  | drainCancel isAccepted =>
    cases hbatch : w.core.batch with
    | nil => exact (h.values.drainCancel recvProtocol_lawful h.sound.sound hbatch isAccepted).2
    | cons => simp [MultishotWorld.released, hbatch]
  | complete =>
    rcases (h.values.complete (fun _ hx _ => hx.stored) recvProtocol_lawful h.sound.sound
      halias).2 with hnil | ⟨x, hx, hrel⟩
    · simp [hnil]
    · intro v hv
      have heq : v = x.value := by simpa [hrel, recvDiscard] using hv
      exact heq ▸ h.values.posted x hx
  | _ => simp [MultishotWorld.released]

theorem Selected.views (h : Selected w) (e : MultishotEvent RecvResult) :
    ((w.core.yielded recvProtocol e).map RecvResult.item).filterMap itemBufId =
      (w.core.yielded recvProtocol e).filterMap RecvResult.bufId := by
  rw [List.filterMap_map]
  apply List.filterMap_congr
  intro v hv
  exact itemBufId_item (h.yielded e v hv) h.entries

theorem IsSelected.lt {vs : List RecvResult} (hvs : ∀ v ∈ vs, IsSelected n v) {id : Nat}
    (hid : id ∈ vs.filterMap RecvResult.bufId) : id < n := by
  obtain ⟨v, hv, hid⟩ := List.mem_filterMap.mp hid
  exact (hvs v hv id hid).1

theorem Selected.stream (h : Selected w) (halias : w.core.Unaliased e)
    (hpossible : w.isPossible e = true) : Selected (w.step (.stream e)) := by
  simp only [RecvWorld.step, hpossible, if_true, h.views, recycle]
  refine ⟨h.sound.step e, h.entries, ?_, ?_⟩
  · refine h.values.step (fun _ hx _ => hx.stored) recvProtocol_lawful h.sound.sound e halias ?_ ?_
    · rintro key v isMore rfl _ _ id hid
      have hid : v.bufId = some id := hid
      have hmem : id ∈ w.ring ∧ 0 ≤ v.result := by simpa [isPossible, hid] using hpossible
      exact ⟨h.bound id (List.mem_append_left _ hmem.1), hmem.2⟩
    · rintro key v rfl id hid
      have hnone : v.bufId = none ∧ v.result ≤ 0 := by simpa [isPossible] using hpossible
      simp [hnone.1] at hid
  · intro id hid
    simp only [List.mem_append] at hid
    rcases hid with (hid | hid) | hid | hid
    · exact h.bound id (List.mem_append_left _ (List.diff_subset _ _ hid))
    · exact IsSelected.lt (h.released halias) hid
    · exact h.bound id (List.mem_append_right _ hid)
    · exact IsSelected.lt (h.yielded e) hid

theorem Selected.dropView (h : Selected w) (id : Nat) : Selected (w.step (.dropView id)) := by
  simp only [RecvWorld.step]
  split
  · next hid =>
    refine ⟨h.sound, h.entries, h.values, ?_⟩
    intro id' hid'
    simp only [recycle, List.mem_append, List.mem_singleton] at hid'
    rcases hid' with (hid' | rfl) | hid'
    · exact h.bound id' (List.mem_append_left _ hid')
    · exact h.bound id' (List.mem_append_right _ hid.1)
    · exact h.bound id' (List.mem_append_right _ (List.mem_of_mem_erase hid'))
  · exact h

structure Ledger (w : RecvWorld) : Prop where
  selected : Selected w
  tracked : ∀ k ∈ w.core.issued, Tracked w.core k
  settled : ∀ k ∈ w.core.issued, Settled w.core k
  inFlight : w.core.InFlight
  balanced : w.core.Balanced
  places : ∀ id < w.entries, w.places id = 1
  history : ∀ id, w.ring.count id + w.selected.count id =
    (List.range w.entries).count id + w.recycled.count id

theorem Ledger.initial (workerId cap : Nat) (hn : n ≤ maxRingEntries) :
    Ledger (initial workerId cap n) where
  selected := .initial workerId cap hn
  tracked := by simp [RecvWorld.initial, MultishotWorld.initial]
  settled := by simp [RecvWorld.initial, MultishotWorld.initial]
  inFlight _ := rfl
  balanced _ := rfl
  places id hid := by
    have hone : (List.range n).count id = 1 :=
      List.count_eq_one_of_mem List.nodup_range (List.mem_range.mpr hid)
    simp [RecvWorld.initial, MultishotWorld.initial, RecvWorld.places, carried,
      MultishotWorld.entries, stock, MultishotRegistry.new, MultishotSlot.vacant,
      MultishotSlot.contents, hone]
  history id := by simp [RecvWorld.initial]

theorem terminal_eq_none {w : MultishotWorld RecvResult} (hsound : w.Sound recvProtocol StashesLast)
    {x : MultishotEntry RecvResult} {rest : List (MultishotEntry RecvResult)}
    (hbatch : w.batch = x :: rest) (htracked : Tracked w x.key) (hown : x.isCancel = false)
    (hcurrent : w.registry.IsCurrent x.key)
    (hpending : (w.registry.slots x.key.slot).isCancelPending = false) :
    (w.registry.slots x.key.slot).terminal = none := by
  by_contra hsome
  have hterm := hsound.valid x.key.slot (Option.isSome_iff_ne_none.mpr hsome)
  have hend := (htracked.final hcurrent hpending hterm).2
  have hnil : w.ownEntries x.key = [] := by
    rw [htracked.rest, hend, List.drop_length]
  simp [ownEntries, MultishotWorld.entries, hbatch, hown] at hnil

theorem Ledger.keeps (h : Ledger w) (hc : w.Reads (.stream e)) (id : Nat) :
    w.core.Keeps (bears id) recvDiscard e := by
  have hsound := h.selected.sound.sound
  cases e with
  | read => exact hc
  | complete =>
    intro x rest hbatch
    refine ⟨.inl (by simp [recvDiscard]), ?_⟩
    intro hlive hpending
    obtain ⟨hown, hcurrent⟩ := hsound.own_of_live hbatch hc.unaliased hlive hpending
    have hkey := (hsound.entries x (by simp [hbatch])).1
    exact terminal_eq_none hsound hbatch (h.tracked x.key hkey) hown hcurrent hpending
  | _ => trivial

theorem posting_bears (id : Nat) (he : w.isPossible e = true) :
    posting (bears id) w.core e = (w.selects e).count id := by
  cases e with
  | post key v =>
    simp only [posting, selects]
    split
    · rw [bears]
      cases hid : v.bufId with
      | none => simp
      | some id' =>
        by_cases heq : id' = id
        · simp [heq]
        · simp [heq]
    · rfl
  | postCancel key v =>
    have hnone : v.bufId = none ∧ v.result ≤ 0 := by simpa [isPossible] using he
    simp [posting, selects, bears, hnone.1]
  | _ => rfl

theorem count_selects_le (he : w.isPossible e = true) (id : Nat) :
    (w.selects e).count id ≤ w.ring.count id := by
  cases e with
  | post key v =>
    simp only [selects]
    split
    · cases hid : v.bufId with
      | none => simp
      | some id' =>
        have hmem : id' ∈ w.ring ∧ 0 ≤ v.result := by simpa [isPossible, hid] using he
        by_cases heq : id' = id
        · subst heq
          simpa using List.count_pos_iff.mpr hmem.1
        · simp [heq]
    · simp
  | _ => simp [selects]

theorem Ledger.stream (h : Ledger w) (hc : w.Reads (.stream e))
    (hpossible : w.isPossible e = true) : Ledger (w.step (.stream e)) := by
  have hsound := h.selected.sound.sound
  have hread : ∀ k own isOwnSkipped, e = .read own isOwnSkipped →
      w.core.ReadsOwn k own isOwnSkipped := by
    rintro k own isOwnSkipped rfl
    exact readsOwn_of_none hc
  have hselected := h.selected.stream hc.unaliased hpossible
  simp only [RecvWorld.step, hpossible, if_true, h.selected.views, recycle] at hselected ⊢
  constructor
  · exact hselected
  · intro k hk
    exact KeyEffect.invariant (I := fun w => Tracked w k) Tracked.of_effect recvProtocol_lawful
      freesEnded_recvProtocol hsound e hc.unaliased (hread k) (h.tracked k) hk
  · intro k hk
    exact (KeyEffect.invariant (I := fun w => Tracked w k ∧ Settled w k)
      (fun heffect h => ⟨.of_effect heffect (fun hk => (h hk).1), .of_effect heffect h⟩)
      recvProtocol_lawful freesEnded_recvProtocol hsound e hc.unaliased
      (hread k) (fun hk => ⟨h.tracked k hk, h.settled k hk⟩) hk).2
  · exact h.inFlight.step recvProtocol_lawful hsound e hc.unaliased h.tracked h.settled
  · exact h.balanced.step recvProtocol_lawful hsound e
  · intro id hid
    have hcarried := carried_step (bears id)
      (bears_stored (Nat.lt_of_lt_of_le hid h.selected.entries)) recvProtocol_lawful hsound e
      (h.keeps hc id)
    have hplaces := h.places id hid
    have hle := count_selects_le hpossible id
    rw [posting_bears id hpossible, weigh_bears, weigh_bears] at hcarried
    simp only [RecvWorld.places, List.count_append, List.count_diff] at hplaces ⊢
    omega
  · intro id
    have hhistory := h.history id
    have hle := count_selects_le hpossible id
    simp only [List.count_append, List.count_diff]
    omega

theorem Ledger.dropView (h : Ledger w) (id : Nat) : Ledger (w.step (.dropView id)) := by
  have hselected := h.selected.dropView id
  simp only [RecvWorld.step] at hselected ⊢
  split
  · next hid =>
    rw [if_pos hid] at hselected
    refine ⟨hselected, h.tracked, h.settled, h.inFlight, h.balanced, ?_, ?_⟩
    · intro id' hlt
      have hplaces := h.places id' hlt
      simp only [RecvWorld.places, recycle, List.count_append, List.count_singleton,
        List.count_erase] at hplaces ⊢
      have hpos := List.count_pos_iff.mpr hid.1
      by_cases heq : id = id'
      · subst heq
        simp only [beq_self_eq_true, if_true]
        omega
      · simp [heq]
        omega
    · intro id'
      have hhistory := h.history id'
      simp only [recycle, List.count_append]
      omega
  · exact h

theorem Ledger.step (h : Ledger w) (e : RecvEvent) (hc : w.Reads e) : Ledger (w.step e) := by
  cases e with
  | stream e =>
    cases hpossible : w.isPossible e with
    | true => exact h.stream hc hpossible
    | false => simpa only [RecvWorld.step, hpossible, Bool.false_eq_true, if_false] using h
  | dropView id => exact h.dropView id

/-- Every buffer is in one place, so a selection is recycled at most once and the ring does not
overflow. A slot is freed at most once per occupancy, and was freed once the operation's last
completion was drained and its stream ended or its cancel was drained. The owner's in-flight
count is the number of its operations without a drained last completion, and the inbox has
room for the record of every stream that can be dropped. -/
structure Accounted (w : RecvWorld) : Prop where
  once : ∀ id < w.entries, w.places id = 1
  genuine : ∀ id ∈ w.ring ++ w.views, id < w.entries
  recycled : ∀ id, w.recycled.count id ≤ w.selected.count id
  ring : w.ring.length ≤ w.entries
  freed : ∀ i, w.core.allocations i =
    (w.core.registry.slots i).frees + (w.core.registry.slots i).isOccupied.toNat
  vacated : ∀ k ∈ w.core.issued, (w.core.ops k).isFinal = true →
    (w.core.ops k).drained = (w.core.ops k).posted.length →
    (∀ j, (w.core.streams j).state ≠ .multishot k) → some k ∉ w.core.inbox →
    ¬ w.core.registry.IsCurrent k
  retired : ∀ t, w.core.inFlight t = w.core.unsettled t
  room : ∀ j k, (w.core.streams j).state = .multishot k →
    w.core.inbox.length < recvProtocol.inboxCapacity

theorem Ledger.accounted (h : Ledger w) : Accounted w where
  once := h.places
  genuine := h.selected.bound
  recycled id := by
    have hhistory := h.history id
    by_cases hid : id < w.entries
    · have hplaces := h.places id hid
      have hone : (List.range w.entries).count id = 1 :=
        List.count_eq_one_of_mem List.nodup_range (List.mem_range.mpr hid)
      unfold RecvWorld.places at hplaces
      omega
    · have hring : w.ring.count id = 0 := by
        apply List.count_eq_zero_of_not_mem
        intro hmem
        exact hid (h.selected.bound id (List.mem_append_left _ hmem))
      omega
  ring := by
    have hnodup : w.ring.Nodup := by
      rw [List.nodup_iff_count_le_one]
      intro id
      by_cases hmem : id ∈ w.ring
      · have hplaces := h.places id (h.selected.bound id (List.mem_append_left _ hmem))
        unfold RecvWorld.places at hplaces
        omega
      · rw [List.count_eq_zero_of_not_mem hmem]
        exact Nat.zero_le 1
    have hsub : w.ring ⊆ List.range w.entries := by
      intro id hid
      exact List.mem_range.mpr (h.selected.bound id (List.mem_append_left _ hid))
    simpa using (hnodup.subperm hsub).length_le
  freed := h.balanced
  vacated k hk hfinal hdrained hstreams hinbox :=
    (h.settled k hk).not_current h.selected.sound.sound hk hfinal hdrained hstreams hinbox
  retired := h.inFlight
  room _ _ hstate := h.selected.sound.hasRoom hstate

theorem buffers_accounted (workerId cap : Nat) {n : Nat} (hn : n ≤ maxRingEntries)
    (es : List RecvEvent) (h : Meets step Reads (initial workerId cap n) es) :
    Accounted (run step (initial workerId cap n) es) :=
  (h.invariant (fun _ e hw hc => hw.step e hc) (Ledger.initial workerId cap hn)).accounted

instance decidableReads (w : RecvWorld) : (e : RecvEvent) → Decidable (w.Reads e)
  | .stream (.read own isOwnSkipped) =>
    inferInstanceAs (Decidable (w.core.skipped own isOwnSkipped = none))
  | .stream .complete =>
    match h : w.core.batch with
    | [] => isTrue (by simp only [Reads, Unaliased, h])
    | e :: _ =>
      decidable_of_iff
        (w.core.registry.isSlotLive e.key.slot (e.key.occupancy % 2 ^ 16) = true →
          e.key.occupancy = (w.core.registry.slots e.key.slot).frees)
        (by simp only [Reads, Unaliased, h])
  | .stream (.next ..) | .stream (.drop _) | .stream .pushOther | .stream (.drainCancel _)
  | .stream (.post ..) | .stream (.postCancel ..) | .dropView _ => isTrue trivial

def recvKey : MultishotKey := ⟨0, 0, 0⟩

/-- A stream hands out one buffer, which is dropped, and is dropped itself with another queued;
its cancel completes before the recv's own end, in a batch that others fill. -/
def readThenDropped : List RecvEvent :=
  [.stream (.next 0 5 true), .stream (.post recvKey ⟨10, some 3⟩ true), .stream (.read 64 true),
    .stream .complete, .stream (.next 0 5 true), .dropView 3,
    .stream (.post recvKey ⟨10, some 1⟩ true), .stream (.read 64 true), .stream .complete,
    .stream (.drop 0), .stream (.drainCancel true), .stream (.postCancel recvKey ⟨0, none⟩),
    .stream (.post recvKey ⟨-125, none⟩ false), .stream (.read 1 false), .stream .complete,
    .stream (.read 64 true), .stream .complete]

theorem buffers_accounted_dropped :
    4 ≤ maxRingEntries ∧ Meets step Reads (initial 0 8 4) readThenDropped ∧
      Accounted (run step (initial 0 8 4) readThenDropped) :=
  have hn : 4 ≤ maxRingEntries := by decide
  have h : Meets step Reads (initial 0 8 4) readThenDropped := by decide
  ⟨hn, h, buffers_accounted 0 8 hn readThenDropped h⟩

/-- One batch and a completion more, each with a buffer of its own, before the read. -/
def overfullRead : List RecvEvent :=
  .stream (.next 0 5 true) ::
    ((List.range (completionBatch + 1)).map fun id =>
      .stream (.post recvKey ⟨10, some id⟩ true)) ++ [.stream (.read 64 true)]

set_option maxRecDepth 100000 in
theorem unread_buffer_leaks : ¬ Accounted (run step (initial 0 8 128) overfullRead) := by
  intro h
  have honce := h.once completionBatch (by decide)
  revert honce
  decide +kernel

end RecvWorld

end Kwokka
