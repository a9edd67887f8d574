import Kwokka.AcceptMultishot

/-! Every descriptor a multishot accept reports is handed out or closed, as long as
no last completion brings one to a slot that will not take it. -/

namespace Kwokka

open MultishotRegistry MultishotWorld Runs

namespace AcceptWorld

variable {w : AcceptWorld} {n : Nat}

/-- A nonnegative result is one of the first `n` descriptors, a negative one is none. -/
structure IsGenuine (n : Nat) (v : AcceptResult) : Prop where
  isSome_iff : v.descriptor.isSome = true ↔ 0 ≤ v.result
  lt : ∀ d, v.descriptor = some d → d < n

structure IsPosted (n : Nat) (e : MultishotEntry AcceptResult) : Prop where
  own : e.isCancel = false → IsGenuine n e.value
  cancel : e.isCancel = true → e.value.descriptor = none

theorem IsGenuine.mono {m : Nat} {v : AcceptResult} (hnm : n ≤ m) (h : IsGenuine n v) :
    IsGenuine m v :=
  ⟨h.isSome_iff, fun d hd => Nat.lt_of_lt_of_le (h.lt d hd) hnm⟩

theorem IsPosted.mono {m : Nat} {e : MultishotEntry AcceptResult} (hnm : n ≤ m)
    (h : IsPosted n e) : IsPosted m e :=
  ⟨fun he => (h.own he).mono hnm, h.cancel⟩

theorem weigh_mark {vs : List AcceptResult} (h : ∀ v ∈ vs, IsGenuine n v) (d : Nat) :
    weigh (mark d) vs = (adoptAcceptedFds vs).count (some d) := by
  induction vs with
  | nil => rfl
  | cons v vs ih =>
    have hv := (h v List.mem_cons_self).isSome_iff
    have hvs := ih (fun u hu => h u (List.mem_cons_of_mem v hu))
    rw [weigh_cons, hvs]
    by_cases hpos : 0 ≤ v.result
    · have hcount : adoptAcceptedFds (v :: vs) = v.descriptor :: adoptAcceptedFds vs := by
        simp [adoptAcceptedFds, hpos]
      rw [hcount, List.count_cons, mark]
      simp only [beq_iff_eq]
      omega
    · have hnone : v.descriptor = none := by simpa [hpos] using hv
      have hcount : adoptAcceptedFds (v :: vs) = adoptAcceptedFds vs := by
        simp [adoptAcceptedFds, hpos]
      simp [hcount, mark, hnone]

theorem mem_adoptAcceptedFds {vs : List AcceptResult} (h : ∀ v ∈ vs, IsGenuine n v)
    {x : Option Nat} (hx : x ∈ adoptAcceptedFds vs) : ∃ d < n, x = some d := by
  obtain ⟨v, hv, rfl⟩ := List.mem_map.mp hx
  obtain ⟨hv, hpos⟩ := List.mem_filter.mp hv
  have hsome := (h v hv).isSome_iff.mpr (by simpa using hpos)
  obtain ⟨d, hd⟩ := Option.isSome_iff_exists.mp hsome
  exact ⟨d, (h v hv).lt d hd, hd⟩

theorem reports_le (w : AcceptWorld) (e : MultishotEvent AcceptResult) : w.reports e ≤ 1 := by
  unfold reports
  split
  · split <;> omega
  · omega

variable {e : MultishotEvent AcceptResult}

theorem posting_mark (d : Nat) (he : w.isPossible e = true) :
    posting (mark d) w.core e = if d = w.reported then w.reports e else 0 := by
  cases e with
  | post key v =>
    have hdesc : v.descriptor = if 0 ≤ v.result then some w.reported else none := by
      simpa [isPossible] using he
    simp only [posting, reports, mark, hdesc]
    by_cases hkey : key ∈ w.core.issued ∧ (w.core.ops key).isFinal = false
    · by_cases hpos : 0 ≤ v.result
      · by_cases hd : d = w.reported
        · simp [hkey, hpos, hd]
        · simp [hkey, hpos, hd, Ne.symm hd]
      · simp [hkey, hpos]
    · simp only [if_neg hkey, ← and_assoc]
      simp [hkey]
  | postCancel key v =>
    have hnone : v.descriptor = none ∧ v.result ≤ 0 := by simpa [isPossible] using he
    simp [posting, reports, mark, hnone.1]
  | _ => simp [posting, reports]

theorem Disposes.hasRoom (h : w.Disposes e) : w.core.HasRoom acceptProtocol e := by
  cases e <;> first | exact h | trivial

theorem Disposes.unaliased (h : w.Disposes e)
    (hsound : w.core.Sound acceptProtocol fun s => s.terminal = none) : w.core.Unaliased e := by
  cases e with
  | complete =>
    cases hbatch : w.core.batch with
    | nil => simp [Unaliased, hbatch]
    | cons x =>
      simp only [Disposes, hbatch] at h
      simp only [Unaliased, hbatch]
      exact hsound.slots.current_of_isSlotLive (hsound.entries x (by simp [hbatch])).1 h.1
  | _ => trivial

theorem Disposes.keeps (d : Nat) (h : w.Disposes e)
    (hsound : w.core.Sound acceptProtocol fun s => s.terminal = none) :
    w.core.Keeps (mark d) acceptDiscard e := by
  cases e with
  | read => exact h
  | complete =>
    intro x rest hbatch
    simp only [Disposes, hbatch] at h
    refine ⟨?_, fun _ _ => hsound.valid _⟩
    cases hmore : x.isMore with
    | true => simp [acceptDiscard]
    | false =>
      by_cases hsome : x.value.descriptor.isSome = true
      · exact .inr (h.2 hmore hsome)
      · have hnone : x.value.descriptor = none := by simpa using hsome
        simp [acceptDiscard, mark, hnone]
  | _ => trivial

structure Ledger (w : AcceptWorld) : Prop where
  sound : w.core.Sound acceptProtocol fun s => s.terminal = none
  values : w.core.Values (IsPosted w.reported) (IsGenuine w.reported)
  places : ∀ d, w.places d = if d < w.reported then 1 else 0
  genuine : ∀ x ∈ w.accepted ++ w.closed, ∃ d < w.reported, x = some d

theorem Ledger.initial (workerId cap : Nat) : Ledger (initial workerId cap) where
  sound := .initial (Nat.le_trans (Nat.min_le_right ..) (by decide)) rfl
  values :=
    { posted := by simp [AcceptWorld.initial, MultishotWorld.initial, entries]
      queued := fun i v hv => by
        simp [AcceptWorld.initial, MultishotWorld.initial, MultishotRegistry.new,
          MultishotSlot.vacant, MultishotSlot.contents] at hv }
  places d := by
    simp [AcceptWorld.initial, MultishotWorld.initial, AcceptWorld.places, carried, entries, stock,
      MultishotRegistry.new, MultishotSlot.vacant, MultishotSlot.contents]
  genuine := by simp [AcceptWorld.initial]

theorem Ledger.yielded_genuine (h : Ledger w) (e : MultishotEvent AcceptResult) :
    ∀ v ∈ w.core.yielded acceptProtocol e, IsGenuine w.reported v := by
  cases e with
  | next j owner isAccepted =>
    simp only [yielded]
    split
    · exact ((h.values.start j owner isAccepted).poll acceptProtocol_lawful
        (h.sound.start acceptProtocol_lawful j owner isAccepted) j).2
    · simp
  | _ => simp [yielded]

theorem Ledger.released_genuine (h : Ledger w) (hc : w.Disposes e) :
    ∀ v ∈ w.core.released acceptProtocol e, IsGenuine w.reported v := by
  cases e with
  | drainCancel isAccepted =>
    cases hbatch : w.core.batch with
    | nil => exact (h.values.drainCancel acceptProtocol_lawful h.sound hbatch isAccepted).2
    | cons => simp [released, hbatch]
  | complete =>
    have hstored : ∀ e, IsPosted w.reported e → e.isCancel = false →
        IsGenuine w.reported (id e.value) := fun e he hown => he.own hown
    rcases (h.values.complete hstored acceptProtocol_lawful h.sound
      (hc.unaliased h.sound)).2 with
      hnil | ⟨x, hx, hrel⟩
    · simp [hnil]
    · intro v hv
      rw [hrel, acceptDiscard] at hv
      -- a cancel's own completion never carries `MORE`, so what is closed is an accept's
      cases hmore : x.isMore with
      | true =>
        have hvx : v = x.value := by simpa [hmore] using hv
        have hown : x.isCancel = false := by
          by_contra hne
          have hcancel := ((h.sound.entries x hx).2.2 (by simpa using hne)).1
          simp [hmore] at hcancel
        exact hvx ▸ (h.values.posted x hx).own hown
      | false => simp [hmore] at hv
  | _ => simp [released]

theorem Ledger.step (h : Ledger w) (e : MultishotEvent AcceptResult) (hc : w.Disposes e) :
    Ledger (w.step e) := by
  unfold AcceptWorld.step
  split
  · next hpossible =>
    have hle : w.reported ≤ w.reported + w.reports e := Nat.le_add_right ..
    have hyielded := h.yielded_genuine e
    have hreleased := h.released_genuine hc
    have hgenuine : ∀ x, (∃ d < w.reported, x = some d) →
        ∃ d < w.reported + w.reports e, x = some d := by
      rintro x ⟨d, hd, rfl⟩
      exact ⟨d, Nat.lt_of_lt_of_le hd hle, rfl⟩
    constructor
    · exact h.sound.step acceptProtocol_lawful e hc.hasRoom
    · have hvalues := h.values.imp (fun _ he => he.mono hle) (fun _ hv => hv.mono hle)
      refine hvalues.step (fun e he hown => he.own hown) acceptProtocol_lawful h.sound e
        (hc.unaliased h.sound) ?_ ?_
      · rintro key v isMore rfl hkey hfinal
        have hdesc : v.descriptor = if 0 ≤ v.result then some w.reported else none := by
          simpa [isPossible] using hpossible
        refine ⟨fun _ => ⟨?_, ?_⟩, by simp⟩
        · rw [hdesc]
          split <;> simp_all
        · intro d hd
          rw [hdesc] at hd
          split at hd
          · next hpos =>
            injection hd with hd
            simp only [reports, hkey, hfinal, hpos, and_self, if_true]
            omega
          · simp at hd
      · rintro key v rfl
        have hnone : v.descriptor = none ∧ v.result ≤ 0 := by simpa [isPossible] using hpossible
        exact ⟨by simp, fun _ => hnone.1⟩
    · intro d
      have hcarried := carried_step (mark d) (fun _ => rfl) acceptProtocol_lawful h.sound e
        (hc.keeps d h.sound)
      have hplaces := h.places d
      have hreports := w.reports_le e
      rw [posting_mark d hpossible, weigh_mark hyielded, weigh_mark hreleased] at hcarried
      simp only [AcceptWorld.places, List.count_append] at hplaces ⊢
      by_cases hd : d = w.reported
      · subst hd
        rw [if_neg (Nat.lt_irrefl _)] at hplaces
        rw [if_pos rfl] at hcarried
        split <;> omega
      · rw [if_neg hd] at hcarried
        by_cases hlt : d < w.reported
        · rw [if_pos hlt] at hplaces
          rw [if_pos (by omega)]
          omega
        · rw [if_neg hlt] at hplaces
          rw [if_neg (by omega)]
          omega
    · intro x hx
      simp only [List.mem_append] at hx
      rcases hx with (hx | hx) | hx | hx
      · exact hgenuine x (h.genuine x (List.mem_append_left _ hx))
      · exact hgenuine x (mem_adoptAcceptedFds hyielded hx)
      · exact hgenuine x (h.genuine x (List.mem_append_right _ hx))
      · exact hgenuine x (mem_adoptAcceptedFds hreleased hx)
  · exact h

theorem Ledger.claimed (h : Ledger w) {i : Nat}
    (hi : (w.core.registry.slots i).contents ≠ []) : ∃ k, k.slot = i ∧
      ((∃ j, (w.core.streams j).state = .multishot k) ∨ some k ∈ w.core.inbox) := by
  have hocc : (w.core.registry.slots i).isOccupied = true := by
    by_contra hne
    exact hi (h.sound.slots.vacant i (by simpa using hne)).2
  have hpending : (w.core.registry.slots i).isCancelPending = false := by
    by_contra hne
    exact hi (h.sound.slots.emptied i (by simpa using hne))
  obtain ⟨-, hmem⟩ := h.sound.slots.occupied i hocc
  exact ⟨_, rfl, h.sound.held.covered _ ⟨hmem, rfl, hpending⟩⟩

theorem Ledger.accounted (h : Ledger w) : Accounted w where
  once d hd := by rw [h.places d, if_pos hd]
  genuine := h.genuine
  claimed _ hi := h.claimed hi
  settled hentries hinbox hstreams d hd := by
    have hstock : stock (mark d) w.core.registry = 0 := by
      apply Finset.sum_eq_zero
      intro i _
      by_cases hi : (w.core.registry.slots i).contents = []
      · simp [hi]
      · obtain ⟨k, -, ⟨j, hj⟩ | hmem⟩ := h.claimed hi
        · exact absurd hj (hstreams j k)
        · simp [hinbox] at hmem
    have hplaces := h.places d
    rw [if_pos hd] at hplaces
    simpa [AcceptWorld.places, carried, hentries, hstock] using hplaces

theorem descriptors_accounted (workerId cap : Nat) (es : List (MultishotEvent AcceptResult))
    (h : Meets step Disposes (initial workerId cap) es) :
    Accounted (run step (initial workerId cap) es) :=
  (h.invariant (fun _ e hw hc => hw.step e hc) (Ledger.initial workerId cap)).accounted

instance decidableDisposes (w : AcceptWorld) :
    (e : MultishotEvent AcceptResult) → Decidable (w.Disposes e)
  | .read own isOwnSkipped => inferInstanceAs (Decidable (w.core.skipped own isOwnSkipped = none))
  | .drop j =>
    match h : (w.core.streams j).state with
    | .multishot _ =>
      decidable_of_iff (w.core.inbox.length < acceptProtocol.inboxCapacity)
        (by simp only [Disposes, HasRoom, h])
    | .idle | .fallback | .done | .dropped => isTrue (by simp only [Disposes, HasRoom, h])
  | .complete =>
    match h : w.core.batch with
    | [] => isTrue (by simp only [Disposes, h])
    | e :: _ =>
      decidable_of_iff ((w.core.registry.slots e.key.slot).frees < e.key.occupancy + 2 ^ 16 ∧
        (e.isMore = false → e.value.descriptor.isSome = true →
          w.core.registry.isSlotLive e.key.slot (e.key.occupancy % 2 ^ 16) = true ∧
            (w.core.registry.slots e.key.slot).isCancelPending = false ∧
              (w.core.registry.slots e.key.slot).fifo.length < multishotFifoDepth))
        (by simp only [Disposes, h])
  | .next .. | .pushOther | .drainCancel _ | .post .. | .postCancel .. => isTrue trivial

def firstKey : MultishotKey := ⟨0, 0, 0⟩

/-- A stream takes one connection, is dropped with another queued, and its cancel completes
before the accept's own `-ECANCELED`. -/
def servedThenDropped : List (MultishotEvent AcceptResult) :=
  [.next 0 5 true, .post firstKey ⟨7, some 0⟩ true, .read 64 true, .complete, .next 0 5 true,
    .post firstKey ⟨8, some 1⟩ true, .read 64 true, .complete, .drop 0, .drainCancel true,
    .postCancel firstKey ⟨0, none⟩, .post firstKey ⟨-125, none⟩ false, .read 1 false, .complete,
    .read 64 true, .complete]

theorem descriptors_accounted_dropped :
    Meets step Disposes (initial 0 8) servedThenDropped ∧
      Accounted (run step (initial 0 8) servedThenDropped) :=
  have h : Meets step Disposes (initial 0 8) servedThenDropped := by decide
  ⟨h, descriptors_accounted 0 8 servedThenDropped h⟩

/-- The stream is dropped and its cancel drained; the accept ends with a last connection. -/
def droppedBeforeLast : List (MultishotEvent AcceptResult) :=
  [.next 0 5 true, .drop 0, .drainCancel true, .post firstKey ⟨7, some 0⟩ false, .read 64 true,
    .complete]

theorem last_descriptor_leaks :
    ¬ Accounted (run step (initial 0 8) droppedBeforeLast) := by
  intro h
  have honce := h.once 0 (by decide)
  revert honce
  decide

end AcceptWorld

end Kwokka
