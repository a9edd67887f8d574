import Kwokka.ParkBracket

/-! No wake is lost in the park bracket: while the worker is parked with no signal
pending, whoever filled one of its rings still owes it a signal. -/

namespace Kwokka

open Runs Function MpscWorld

namespace MpscWorld

variable {α : Type*} {N : Nat} {w : MpscWorld α}

theorem produce_other {p q : Nat} (hne : q ≠ p) (b : Bool) :
    (w.step N (.produce p b)).producers q = w.producers q := by
  simp [step, observe, produce, hne]

theorem produce_dequeuePos (p : Nat) (b : Bool) :
    (w.step N (.produce p b)).ring.dequeuePos = w.ring.dequeuePos := by
  have := produce_effect N w p b
  simp only [step, observe]
  generalize w.produce N p b = w' at this
  cases this <;> rfl

theorem produce_outstanding (p : Nat) (b : Bool) :
    (w.step N (.produce p b)).outstanding = w.outstanding ∨
      ((w.step N (.produce p b)).producers p).owned ≠ none := by
  have := produce_effect N w p b
  simp only [step, observe, outstanding]
  generalize w.produce N p b = w' at this
  cases this with
  | claim =>
    right
    simp [PushState.owned]
  | _ => exact .inl rfl

theorem produce_owned {p : Nat} (b : Bool) (h : (w.producers p).owned ≠ none) :
    ((w.step N (.produce p b)).producers p).owned ≠ none ∨
      (w.ring.pushStep N b (w.producers p)).2.2 = some (.ok ()) := by
  cases hp : w.producers p with
  | writing => simp [step, observe, produce, hp, MpscRing.pushStep, PushState.owned]
  | publishing => exact .inr rfl
  | _ => simp [hp, PushState.owned] at h

theorem call_producers_owned (p q : Nat) (value : α) :
    ((w.step N (.call p value)).producers q).owned = (w.producers q).owned := by
  simp only [step]
  split
  · next hp =>
    by_cases hne : q = p
    · subst hne
      simp [observe, call, hp, PushState.owned]
    · simp [observe, call, hne]
  · rfl

theorem call_outstanding (p : Nat) (value : α) :
    (w.step N (.call p value)).outstanding = w.outstanding ∧
      (w.step N (.call p value)).ring = w.ring := by
  simp only [step]
  split
  · exact ⟨rfl, rfl⟩
  · exact ⟨rfl, rfl⟩

theorem consume_returned {r : Option (MaybeUninit α)}
    (h : (w.ring.popStep N w.consumer).2.2 = some r) : (w.step N .consume).consumer = .idle := by
  simp only [step, observe, consume]
  cases hc : w.consumer with
  | looking =>
    rw [hc, MpscRing.popStep] at h
    rw [MpscRing.popStep]
    split
    · rfl
    · next hgap =>
      rw [if_neg hgap] at h
      cases h
  | _ => simp_all [MpscRing.popStep]

theorem Positions.of_none (h : w.Positions N) (hN : IsCapacity N)
    (hnone : (w.ring.popStep N w.consumer).2.2 = some none) :
    (w.step N .consume).outstanding = 0 ∨ ∃ p, ((w.step N .consume).producers p).owned ≠ none := by
  have hcons := h.consumer
  cases hc : w.consumer with
  | looking =>
    simp only [ConsumerAt, hc] at hcons
    rw [hc, MpscRing.popStep] at hnone
    split at hnone
    · next hgap =>
      rw [hcons.2] at hgap
      have hfreed : (w.step N .consume).outstanding = w.claims.length - w.freed := by
        simp only [step, MpscWorld.observe, consume, outstanding, hc]
      cases hcl : w.claims[w.freed]? with
      | none =>
        have hlen := List.getElem?_eq_none_iff.mp hcl
        exact .inl (by omega)
      | some c =>
        have hpend := h.unpublished_of_empty hN hgap c hcl
        refine .inr ⟨c.producer, ?_⟩
        rw [(consume_frame N w).2.1, hpend.owned]
        simp
    · cases hnone
  | _ => simp [hc, MpscRing.popStep] at hnone

end MpscWorld

namespace ParkWorld

variable {α : Type*} {isStealing : Bool} {w : ParkWorld α}

def Covered (w : ParkWorld α) (ρ : ParkRing) : Prop :=
  w.isSignalled = true ∨ (w.rings ρ).outstanding = 0 ∨
    ∃ p, ((w.rings ρ).producers p).owned ≠ none ∨ w.signals (.ring ρ) p ≠ .idle

def ShutdownCovered (w : ParkWorld α) : Prop :=
  w.isSignalled = true ∨ w.isShutdown = false ∨ ∃ p, w.signals .shutdown p ≠ .idle

def Checked (isStealing : Bool) (w : ParkWorld α) (ρ : ParkRing) : Prop :=
  match w.worker with
  | .loadingEnqueue .steal => ρ = .wake
  | .loadingEnqueue _ => ρ ≠ .handoff
  | .loadingDequeue .steal e =>
    ρ = .wake ∨ ρ = .steal ∧ wrappingSub e (w.rings .steal).ring.dequeuePos = 0
  | .loadingDequeue _ e => ρ ≠ .handoff ∨ wrappingSub e (w.rings .handoff).ring.dequeuePos = 0
  | .blocked => ρ = .wake ∨ isStealing = true
  | _ => False

def PastShutdown (w : ParkWorld α) : Prop :=
  match w.worker with
  | .popping | .loadingEnqueue _ | .loadingDequeue _ _ | .blocked => True
  | _ => False

structure Bracket (isStealing : Bool) (w : ParkWorld α) : Prop where
  safe : ∀ ρ, (w.rings ρ).Safe ρ.capacity
  idle : w.worker ≠ .running → ∀ ρ, (w.worker = .popping ∧ ρ = .wake) ∨ (w.rings ρ).consumer = .idle
  parked : w.worker ≠ .running → w.isParked = true
  loading : ∀ ρ, w.worker = .loadingEnqueue ρ ∨ (∃ e, w.worker = .loadingDequeue ρ e) → ρ ≠ .wake
  shutdown : w.PastShutdown → w.ShutdownCovered
  covered : ∀ ρ, w.Checked isStealing ρ → w.Covered ρ

theorem Covered.pushStep {ρ : ParkRing} (h : w.Covered ρ) (ρ' : ParkRing) (p : Nat) (b : Bool) :
    (w.step isStealing (.pushStep ρ' p b)).Covered ρ := by
  have hsig : ∀ (o : Option (Except α Unit)) st, st ≠ .idle → signalAfter ρ' st o ≠ .idle := by
    intro o st hst
    unfold signalAfter
    split
    · simp
    · split
      · simp
      · exact hst
    · exact hst
  by_cases hne : ρ = ρ'
  · subst hne
    simp only [step, Covered, setSignal, stepRing, update_self]
    rcases h with hs | hzero | ⟨q, hq⟩
    · exact .inl hs
    · rcases produce_outstanding p b with hout | howned
      · exact .inr (.inl (hout.trans hzero))
      · exact .inr (.inr ⟨p, .inl howned⟩)
    · refine .inr (.inr ⟨q, ?_⟩)
      by_cases hqp : q = p
      · subst hqp
        rw [update_self]
        rcases hq with howned | hidle
        · rcases produce_owned b howned with hown | hok
          · exact .inl hown
          · right
            rw [pushResult, hok]
            simp [signalAfter]
        · exact .inr (hsig _ _ hidle)
      · rwa [update_of_ne hqp, produce_other hqp]
  · have hsource : SignalSource.ring ρ ≠ .ring ρ' := by simpa using hne
    simpa only [step, Covered, setSignal, stepRing, update_of_ne hne,
      update_of_ne hsource] using h

theorem Covered.push {ρ : ParkRing} (h : w.Covered ρ) (ρ' : ParkRing) (p : Nat) (value : α) :
    (w.step isStealing (.push ρ' p value)).Covered ρ := by
  simp only [step]
  split
  · by_cases hne : ρ = ρ'
    · subst hne
      simpa only [Covered, stepRing, update_self, call_producers_owned,
        call_outstanding] using h
    · simpa only [Covered, stepRing, update_of_ne hne] using h
  · exact h

theorem setSignal_ne_idle {target : SignalSource} {q : Nat} (h : w.signals target q ≠ .idle)
    (source : SignalSource) (p : Nat) : (w.setSignal source p .raising).signals target q ≠ .idle := by
  simp only [setSignal]
  by_cases hsource : target = source
  · subst hsource
    rw [update_self]
    by_cases hqp : q = p
    · rw [hqp, update_self]
      simp
    · rwa [update_of_ne hqp]
  · rwa [update_of_ne hsource]

theorem Covered.signal {ρ : ParkRing} (h : w.Covered ρ) (hparked : w.isParked = true)
    (source : SignalSource) (p : Nat) : (w.step isStealing (.signal source p)).Covered ρ := by
  simp only [step]
  cases hst : w.signals source p with
  | idle => exact h
  | checking =>
    rcases h with hs | hzero | ⟨q, hq⟩
    · exact .inl hs
    · exact .inr (.inl hzero)
    · refine .inr (.inr ⟨q, hq.imp id fun hne => ?_⟩)
      simp only [hparked, if_true]
      exact setSignal_ne_idle hne source p
  | raising => exact .inl rfl

theorem ShutdownCovered.signal (h : w.ShutdownCovered) (hparked : w.isParked = true)
    (source : SignalSource) (p : Nat) : (w.step isStealing (.signal source p)).ShutdownCovered := by
  simp only [step]
  cases hst : w.signals source p with
  | idle => exact h
  | checking =>
    rcases h with hs | hlow | ⟨q, hq⟩
    · exact .inl hs
    · exact .inr (.inl hlow)
    · refine .inr (.inr ⟨q, ?_⟩)
      simp only [hparked, if_true]
      exact setSignal_ne_idle hq source p
  | raising => exact .inl rfl

theorem Bracket.of_producer {w' : ParkWorld α} (h : w.Bracket isStealing)
    (hworker : w'.worker = w.worker) (hparked : w'.isParked = w.isParked)
    (hsafe : ∀ ρ, (w'.rings ρ).Safe ρ.capacity)
    (hring : ∀ ρ, (w'.rings ρ).consumer = (w.rings ρ).consumer ∧
      (w'.rings ρ).ring.dequeuePos = (w.rings ρ).ring.dequeuePos)
    (hshut : w.isParked = true → w.ShutdownCovered → w'.ShutdownCovered)
    (hcov : w.isParked = true → ∀ ρ, w.Covered ρ → w'.Covered ρ) : w'.Bracket isStealing := by
  have hup : ∀ {st}, w'.worker = st → st ≠ .running → w.isParked = true := by
    intro st hst hne
    exact h.parked (by rwa [← hworker, hst])
  refine ⟨hsafe, ?_, ?_, ?_, ?_, ?_⟩
  · intro hne ρ
    rw [hworker, (hring ρ).1]
    exact h.idle (hworker ▸ hne) ρ
  · intro hne
    rw [hparked]
    exact h.parked (hworker ▸ hne)
  · rw [hworker]
    exact h.loading
  · intro hpast
    have hne : w'.worker ≠ .running := by
      intro hrun
      simp [PastShutdown, hrun] at hpast
    refine hshut (hup rfl hne) (h.shutdown ?_)
    simpa only [PastShutdown, hworker] using hpast
  · intro ρ hch
    have hne : w'.worker ≠ .running := by
      intro hrun
      simp [Checked, hrun] at hch
    refine hcov (hup rfl hne) ρ (h.covered ρ ?_)
    simpa only [Checked, hworker, (hring _).2] using hch

theorem Bracket.of_running (hrun : w.worker = .running) (hsafe : ∀ ρ, (w.rings ρ).Safe ρ.capacity) :
    w.Bracket isStealing := by
  refine ⟨hsafe, ?_, ?_, ?_, ?_, ?_⟩ <;> simp [hrun, PastShutdown, Checked]

def Unlapped (w : ParkWorld α) : ParkEvent α → Prop
  | .pushStep ρ p isSpurious => (w.rings ρ).Unlapped (.produce p isSpurious)
  | _ => True

instance (w : ParkWorld α) : ∀ e, Decidable (w.Unlapped e)
  | .pushStep ρ p isSpurious =>
    inferInstanceAs (Decidable ((w.rings ρ).Within (2 ^ 64 - 1) (.produce p isSpurious)))
  | .push _ _ _ | .raiseShutdown _ | .signal _ _ | .pop _ | .popStep _ | .absorb | .park | .work
  | .unpark => inferInstanceAs (Decidable True)

theorem stepRing_safe (h : ∀ ρ, (w.rings ρ).Safe ρ.capacity) (ρ : ParkRing) {e : MpscEvent α}
    (hu : (w.rings ρ).Unlapped e) (ρ' : ParkRing) :
    ((w.stepRing ρ e).rings ρ').Safe ρ'.capacity := by
  by_cases hne : ρ' = ρ
  · subst hne
    simp only [stepRing, update_self]
    exact (h ρ').step ρ'.isCapacity hu
  · simp only [stepRing, update_of_ne hne]
    exact h ρ'

section

variable (h : w.Bracket isStealing)

include h

theorem Bracket.push (ρ : ParkRing) (p : Nat) (value : α) :
    (w.step isStealing (.push ρ p value)).Bracket isStealing := by
  have hcov : ∀ ρ', w.Covered ρ' → (w.step isStealing (.push ρ p value)).Covered ρ' :=
    fun ρ' hc => hc.push ρ p value
  simp only [step] at hcov ⊢
  split at hcov
  · rw [if_pos ‹_›]
    refine h.of_producer rfl rfl (stepRing_safe h.safe ρ trivial) ?_ (fun _ hs => hs) fun _ => hcov
    intro ρ'
    by_cases hne : ρ' = ρ
    · subst hne
      simp only [stepRing, update_self, call_outstanding, and_true]
      simp only [MpscWorld.step]
      split <;> rfl
    · simp only [stepRing, update_of_ne hne, and_self]
  · rwa [if_neg ‹_›]

theorem Bracket.pushStep (ρ : ParkRing) (p : Nat) (b : Bool)
    (hu : (w.rings ρ).Unlapped (.produce p b)) :
    (w.step isStealing (.pushStep ρ p b)).Bracket isStealing := by
  refine h.of_producer rfl rfl (stepRing_safe h.safe ρ hu) ?_ ?_ fun _ ρ' hc => hc.pushStep ρ p b
  · intro ρ'
    by_cases hne : ρ' = ρ
    · subst hne
      simp only [step, setSignal, stepRing, update_self, produce_dequeuePos,
        and_true]
      rfl
    · simp only [step, setSignal, stepRing, update_of_ne hne, and_self]
  · intro _ hs
    have hsource : SignalSource.shutdown ≠ .ring ρ := by simp
    simpa only [ShutdownCovered, step, setSignal, stepRing, update_of_ne hsource] using hs

theorem Bracket.raiseShutdown (p : Nat) :
    (w.step isStealing (.raiseShutdown p)).Bracket isStealing := by
  simp only [step]
  split
  · refine h.of_producer rfl rfl h.safe (fun _ => ⟨rfl, rfl⟩) ?_ ?_
    · intro _ _
      refine .inr (.inr ⟨p, ?_⟩)
      simp [setSignal]
    · intro _ ρ hc
      have hsource : SignalSource.ring ρ ≠ .shutdown := by simp
      simpa only [Covered, setSignal, update_of_ne hsource] using hc
  · exact h

theorem Bracket.signal (source : SignalSource) (p : Nat) :
    (w.step isStealing (.signal source p)).Bracket isStealing := by
  have hframe : (w.step isStealing (.signal source p)).worker = w.worker ∧
      (w.step isStealing (.signal source p)).isParked = w.isParked ∧
      (w.step isStealing (.signal source p)).rings = w.rings := by
    simp only [step]
    split <;> exact ⟨rfl, rfl, rfl⟩
  obtain ⟨hworker, hparked, hrings⟩ := hframe
  refine h.of_producer hworker hparked ?_ ?_ (fun hp hs => hs.signal hp source p)
    fun hp ρ hc => hc.signal hp source p
  · rw [hrings]
    exact h.safe
  · rw [hrings]
    exact fun _ => ⟨rfl, rfl⟩

theorem Bracket.move (hne : w.worker ≠ .running) {st : ParkState} (hold : w.worker ≠ .popping)
    (hload : ∀ ρ, st = .loadingEnqueue ρ ∨ (∃ e, st = .loadingDequeue ρ e) → ρ ≠ .wake)
    (hshut : ({ w with worker := st } : ParkWorld α).PastShutdown → w.ShutdownCovered)
    (hcov : ∀ ρ, ({ w with worker := st } : ParkWorld α).Checked isStealing ρ → w.Covered ρ) :
    ({ w with worker := st } : ParkWorld α).Bracket isStealing := by
  refine ⟨h.safe, ?_, fun _ => h.parked hne, hload, hshut, hcov⟩
  intro _ ρ
  rcases h.idle hne ρ with ⟨hpop, -⟩ | hidle
  · exact absurd hpop hold
  · exact .inr hidle

omit h in
theorem covered_of_empty {ρ : ParkRing} (h : (w.rings ρ).Safe ρ.capacity)
    (hidle : (w.rings ρ).consumer = .idle) (hzero : (w.rings ρ).ring.len = 0) : w.Covered ρ := by
  have hpos := h.positions
  have hfreed := hpos.consumer
  simp only [MpscWorld.ConsumerAt, hidle] at hfreed
  have hroom := hpos.room
  have hcap := ρ.isCapacity.le
  rw [MpscRing.len, hpos.enqueue, hpos.dequeue, ← hfreed,
    wrappingSub_of_le hpos.le (by omega)] at hzero
  exact .inr (.inl hzero)

theorem Bracket.popping (hw : w.worker = .popping) :
    (w.work isStealing).Bracket isStealing := by
  have hne : w.worker ≠ .running := by simp [hw]
  have hshut : w.ShutdownCovered := h.shutdown (by simp [PastShutdown, hw])
  have hidle : ∀ ρ, ρ ≠ .wake → (w.rings ρ).consumer = .idle := by
    intro ρ hρ
    rcases h.idle hne ρ with ⟨-, hwake⟩ | hidle
    · exact absurd hwake hρ
    · exact hidle
  have hother : ∀ e ρ, ρ ≠ .wake → ((w.stepRing .wake e).rings ρ).consumer = .idle := by
    intro e ρ hρ
    simp only [stepRing, update_of_ne hρ]
    exact hidle ρ hρ
  have hstay : ∀ e, (w.rings .wake).Unlapped e → (w.stepRing .wake e).Bracket isStealing := by
    intro e hu
    refine ⟨stepRing_safe h.safe .wake hu, ?_, fun _ => h.parked hne, ?_, fun _ => hshut, ?_⟩
    · intro _ ρ
      by_cases hρ : ρ = .wake
      · exact .inl ⟨hw, hρ⟩
      · exact .inr (hother e ρ hρ)
    · simp [stepRing, hw]
    · simp [Checked, stepRing, hw]
  have hdone : ∀ r, w.popResult = some r →
      ∀ ρ, ((w.stepRing .wake .consume).rings ρ).consumer = .idle := by
    intro r hr ρ
    by_cases hρ : ρ = .wake
    · subst hρ
      exact consume_returned hr
    · exact hother _ ρ hρ
  have hsafe := stepRing_safe h.safe .wake (e := .consume) trivial
  simp only [work, hw]
  split
  · exact hstay _ trivial
  · cases hr : w.popResult with
    | none =>
      have := hstay .consume trivial
      rwa [show w.stepRing .wake .consume = { w.stepRing .wake .consume with worker := .popping } by
        simp [stepRing, hw]] at this
    | some r =>
      have hidle' := hdone r hr
      cases r with
      | some =>
        refine ⟨hsafe, fun _ ρ => .inr (hidle' ρ), fun _ => h.parked hne, ?_, ?_, ?_⟩ <;>
          simp [PastShutdown, Checked]
      | none =>
        have hcov : (w.stepRing .wake .consume).Covered .wake := by
          rcases (h.safe .wake).positions.of_none ParkRing.wake.isCapacity hr with hzero | ⟨p, hp⟩
          · exact .inr (.inl (by simpa only [stepRing, update_self] using hzero))
          · exact .inr (.inr ⟨p, .inl (by simpa only [stepRing, update_self] using hp)⟩)
        refine ⟨hsafe, fun _ ρ => .inr (hidle' ρ), fun _ => h.parked hne, ?_, fun _ => hshut, ?_⟩
        · cases isStealing <;> simp
        · intro ρ hch
          cases isStealing with
          | false =>
            obtain rfl : ρ = .wake := by simpa [Checked] using hch
            exact hcov
          | true =>
            obtain rfl : ρ = .wake := by simpa [Checked] using hch
            exact hcov

theorem Bracket.work : (w.work isStealing).Bracket isStealing := by
  cases hw : w.worker with
  | running => simpa only [ParkWorld.work, hw] using h
  | blocked => simpa only [ParkWorld.work, hw] using h
  | popping => exact h.popping hw
  | clearing =>
    simp only [ParkWorld.work, hw]
    exact .of_running rfl h.safe
  | checkingShutdown =>
    simp only [ParkWorld.work, hw]
    refine h.move (by simp [hw]) (by simp [hw]) ?_ ?_ ?_
    · intro ρ
      split <;> simp
    · intro hpast
      split at hpast
      · simp [PastShutdown] at hpast
      · next hlow => exact .inr (.inl (by simpa using hlow))
    · intro ρ
      split <;> simp [Checked]
  | loadingEnqueue ρ =>
    have hρ := h.loading ρ (.inl hw)
    have hidle : (w.rings ρ).consumer = .idle := by
      simpa [hw] using h.idle (by simp [hw]) ρ
    simp only [ParkWorld.work, hw]
    refine h.move (by simp [hw]) (by simp [hw]) ?_ ?_ ?_
    · rintro ρ' (hst | ⟨e, hst⟩)
      · cases hst
      · cases hst
        exact hρ
    · exact fun _ => h.shutdown (by simp [PastShutdown, hw])
    · intro ρ' hch
      cases ρ with
      | wake => exact absurd rfl hρ
      | steal =>
        rcases hch with rfl | ⟨rfl, hzero⟩
        · exact h.covered _ (by simp [Checked, hw])
        · exact covered_of_empty (h.safe _) hidle hzero
      | handoff =>
        by_cases hne : ρ' = .handoff
        · subst hne
          exact covered_of_empty (h.safe _) hidle (hch.resolve_left (by simp))
        · exact h.covered _ (by simpa [Checked, hw] using hne)
  | loadingDequeue ρ e =>
    have hρ := h.loading ρ (.inr ⟨e, hw⟩)
    simp only [ParkWorld.work, hw]
    refine h.move (by simp [hw]) (by simp [hw]) ?_ ?_ ?_
    · intro ρ'
      split
      · simp
      · split
        · rintro (hst | ⟨e, hst⟩)
          · cases hst
            simp
          · cases hst
        · simp
    · exact fun _ => h.shutdown (by simp [PastShutdown, hw])
    · intro ρ' hch
      split at hch
      · simp [Checked] at hch
      · next hzero =>
        refine h.covered ρ' ?_
        cases ρ with
        | wake => exact absurd rfl hρ
        | steal =>
          cases ρ' <;> simp_all [Checked]
        | handoff => simp_all [Checked]

theorem Bracket.park : (w.step isStealing .park).Bracket isStealing := by
  simp only [step]
  split
  · next hpark =>
    obtain ⟨-, hwake, hsteal, hhandoff⟩ := hpark
    have hidle : ∀ {st : PopState α}, st.isIdle = true → st = .idle := by
      intro st hst
      cases st <;> simp_all [PopState.isIdle]
    refine ⟨h.safe, ?_, fun _ => rfl, ?_, ?_, ?_⟩
    · intro _ ρ
      cases ρ with
      | wake => exact .inr (hidle hwake)
      | steal => exact .inr (hidle hsteal)
      | handoff => exact .inr (hidle hhandoff)
    all_goals simp [PastShutdown, Checked]
  · exact h

theorem Bracket.step {e : ParkEvent α} (hu : w.Unlapped e) :
    (w.step isStealing e).Bracket isStealing := by
  cases e with
  | push ρ p value => exact h.push ρ p value
  | pushStep ρ p b => exact h.pushStep ρ p b hu
  | raiseShutdown p => exact h.raiseShutdown p
  | signal source p => exact h.signal source p
  | pop ρ =>
    simp only [ParkWorld.step]
    split
    · next hrun => exact .of_running hrun (stepRing_safe h.safe ρ trivial)
    · exact h
  | popStep ρ =>
    simp only [ParkWorld.step]
    split
    · next hrun => exact .of_running hrun (stepRing_safe h.safe ρ trivial)
    · exact h
  | absorb =>
    simp only [ParkWorld.step]
    split
    · next hrun => exact .of_running hrun h.safe
    · exact h
  | park => exact h.park
  | work => exact h.work
  | unpark =>
    simp only [ParkWorld.step]
    split
    · next hw =>
      refine h.move (by simp [hw]) (by simp [hw]) ?_ ?_ ?_ <;> simp [PastShutdown, Checked]
    · exact h

omit h in
theorem init_bracket : (init : ParkWorld α).Bracket isStealing :=
  .of_running rfl fun ρ => init_safe ρ.isCapacity

def Finished (w : ParkWorld α) : Prop :=
  (∀ ρ p, (w.rings ρ).producers p = .idle) ∧ ∀ source p, w.signals source p = .idle

def HoldsPublished (w : ParkWorld α) (ρ : ParkRing) : Prop :=
  ∃ k < (w.rings ρ).ring.len, ((w.rings ρ).ring.slot ρ.capacity
      (wrappingAdd (w.rings ρ).ring.dequeuePos k)).sequence =
    wrappingAdd (wrappingAdd (w.rings ρ).ring.dequeuePos k) 1

/-- The worker sleeps although there is something for it to do, and nobody is about to wake it. -/
structure Stranded (isStealing : Bool) (w : ParkWorld α) : Prop where
  blocked : w.worker = .blocked
  unsignalled : w.isSignalled = false
  finished : w.Finished
  work : w.isShutdown = true ∨ ∃ ρ, (ρ = .wake ∨ isStealing = true) ∧ w.HoldsPublished ρ

theorem Bracket.empty (hw : w.worker = .blocked) (hs : w.isSignalled = false) (hf : w.Finished)
    {ρ : ParkRing} (hρ : ρ = .wake ∨ isStealing = true) : ¬ w.HoldsPublished ρ := by
  have hidle : (w.rings ρ).consumer = .idle := by simpa [hw] using h.idle (by simp [hw]) ρ
  have hpos := (h.safe ρ).positions
  have hfreed := hpos.consumer
  simp only [MpscWorld.ConsumerAt, hidle] at hfreed
  have hroom := hpos.room
  have hcap := ρ.isCapacity.le
  have hzero : (w.rings ρ).outstanding = 0 := by
    rcases h.covered ρ (by simpa only [Checked, hw] using hρ) with hsig | hzero | ⟨p, howned | hsig⟩
    · rw [hs] at hsig
      cases hsig
    · exact hzero
    · rw [hf.1 ρ p] at howned
      exact absurd rfl howned
    · exact absurd (hf.2 _ p) hsig
  rintro ⟨k, hk, -⟩
  rw [MpscRing.len, hpos.enqueue, hpos.dequeue, ← hfreed,
    wrappingSub_of_le hpos.le (by omega)] at hk
  rw [outstanding] at hzero
  omega

end

/-- The bracket loses no wake while no push is lapped. -/
theorem never_stranded (isStealing : Bool) {es : List (ParkEvent α)}
    (hes : Meets (step isStealing) Unlapped init es) :
    ¬ (run (step isStealing) init es).Stranded isStealing := by
  have h : (run (step isStealing) init es).Bracket isStealing :=
    hes.invariant (fun _ _ h hu => h.step hu) init_bracket
  intro hst
  rcases hst.work with hup | ⟨ρ, hρ, hheld⟩
  · rcases h.shutdown (by simp [PastShutdown, hst.blocked]) with hsig | hlow | ⟨p, hp⟩
    · rw [hst.unsignalled] at hsig
      cases hsig
    · rw [hup] at hlow
      cases hlow
    · exact hp (hst.finished.2 _ p)
  · exact h.empty hst.blocked hst.unsignalled hst.finished hρ hheld

/-- A waker pushes while the affine worker is blocked, and the signal it owes reaches the worker. -/
theorem never_stranded_woken :
    ¬ (run (step false) (init : ParkWorld Nat) [.park, .work, .work, .work, .work, .push .wake 3 7,
      .pushStep .wake 3 false, .pushStep .wake 3 false, .pushStep .wake 3 false,
      .pushStep .wake 3 false, .pushStep .wake 3 false, .signal (.ring .wake) 3,
      .signal (.ring .wake) 3]).Stranded false :=
  never_stranded false (by decide)

end ParkWorld

end Kwokka
