import Kwokka.MpscInv

/-! The ring as a queue: what its producers are told and what its consumer gets,
over every interleaving. -/

namespace Kwokka

open Runs Function

namespace MpscWorld

variable {α : Type*} {N : Nat} {w w' : MpscWorld α} {e : MpscEvent α}

structure History (w : MpscWorld α) : Prop where
  asked : ∀ p, w.producers p ≠ .idle → w.lastCall p + 1 = (w.asked p).length
  value : ∀ p v, (w.producers p).value = some v → (w.asked p)[w.lastCall p]? = some v
  claims : ∀ c ∈ w.claims, (w.asked c.producer)[c.call]? = some c.value
  order : w.claims.Pairwise fun c d => c.producer = d.producer → c.call < d.call
  seeking : ∀ p, (w.producers p).isSeeking = true → ∀ c ∈ w.claims, c.producer = p →
    c.call < w.lastCall p
  accepted : ∀ id, id ∈ w.accepted ↔ (∃ c ∈ w.claims, (c.producer, c.call) = id) ∧
    ((w.producers id.1).owned = none ∨ id.2 ≠ w.lastCall id.1)
  refused : ∀ r ∈ w.refused, (w.asked r.1.producer)[r.1.call]? = some r.1.value ∧
    (w.producers r.1.producer ≠ .idle → r.1.call ≠ w.lastCall r.1.producer) ∧
    ∀ c ∈ w.claims, c.producer = r.1.producer → c.call ≠ r.1.call

theorem init_positions (hN : IsCapacity N) : (init : MpscWorld α).Positions N := by
  refine ⟨rfl, rfl, Nat.le_refl _, Nat.zero_le _, ?_, ?_, ?_, ?_, ?_, fun _ => Nat.le_refl _, rfl, rfl⟩
  · intro Q _ hQ
    have hcap := hN.le
    change Q % N = Q % 2 ^ 64
    change Q < 0 + N at hQ
    rw [Nat.mod_eq_of_lt (by omega), Nat.mod_eq_of_lt (by omega)]
  · intro Q c _ hc
    cases hc
  · intro p pos hp
    cases hp
  · intro p pos value hp
    cases hp
  · intro p pos value hp
    cases hp

theorem init_history : (init : MpscWorld α).History := by
  refine ⟨?_, ?_, ?_, .nil, ?_, ?_, ?_⟩ <;> simp [init, PushState.value, PushState.isSeeking]

variable {p pos : Nat} {value : α} {ring : MpscRing α} {st : PushState α}

theorem Positions.seat (h : w.Positions N) {refused : List (PushItem α × Bool)}
    (hold : (w.producers p).owned = none) (hnew : st.owned = none)
    (hloop : ∀ pos value, st = .looping pos value → ∃ P, w.Aims p P pos)
    (hclaim : ∀ pos value, st = .claiming pos value →
      ∃ P, w.Aims p P pos ∧ (P = w.claims.length → P < w.freed + N)) :
    Positions N { w with producers := update w.producers p st, refused } := by
  have hself : update w.producers p st p = st := update_self ..
  refine h.reseat p ?_ hold (by rwa [hself]) (h.since p) ?_ ?_
  · exact fun q hne => ⟨update_of_ne hne .., rfl, rfl⟩
  · exact fun pos value hst => hloop pos value (hself.symm.trans hst)
  · exact fun pos value hst => hclaim pos value (hself.symm.trans hst)

theorem Positions.aims_enqueue (h : w.Positions N) (p : Nat) :
    w.Aims p w.claims.length w.ring.enqueuePos :=
  ⟨h.since p, Nat.le_refl _, h.enqueue⟩

theorem Positions.effect (h : w.Positions N) (hN : IsCapacity N) (hh : w.History)
    (hu : w.Unlapped e) (he : w.Effect N e w') : w'.Positions N := by
  cases he with
  | stay => exact h
  | call hp =>
    rename_i p value
    refine h.reseat p ?_ (by rw [hp]; rfl) ?_ ?_ ?_ ?_
    · intro q hne
      simp [hne]
    · simp [PushState.owned]
    · simp
    · simp
    · simp
  | load hp =>
    refine h.seat (by rw [hp]; rfl) rfl ?_ ?_
    · rintro pos value ⟨rfl, rfl⟩
      exact ⟨_, h.aims_enqueue _⟩
    · rintro pos value ⟨⟩
  | hit hp hgap =>
    obtain ⟨P, haim⟩ := h.looping _ _ _ hp
    refine h.seat (by rw [hp]; rfl) rfl ?_ ?_
    · rintro pos value ⟨⟩
    · rintro _ _ ⟨rfl, rfl⟩
      obtain ⟨hlo, hhi, rfl⟩ := haim
      exact ⟨P, ⟨hlo, hhi, rfl⟩, fun hP => h.lt_of_hit hN hP hgap⟩
  | refuse hp =>
    refine h.seat (by rw [hp]; rfl) rfl ?_ ?_
    · rintro pos value ⟨⟩
    · rintro pos value ⟨⟩
  | lag hp =>
    refine h.seat (by rw [hp]; rfl) rfl ?_ ?_
    · rintro pos value ⟨⟩
    · rintro pos value ⟨⟩
  | claim hp hpos =>
    exact h.claim hN hp hpos (hu (by rw [hp]; rfl)) (hh.asked _ (by rw [hp]; simp)) rfl
  | miss hp =>
    refine h.seat (by rw [hp]; rfl) rfl ?_ ?_
    · rintro pos value ⟨rfl, rfl⟩
      exact ⟨_, h.aims_enqueue _⟩
    · rintro pos value ⟨⟩
  | write hp =>
    rename_i p b pos value
    obtain ⟨Q, c, hQ, hc, rfl, hpend⟩ := h.owner p pos (by rw [hp]; rfl)
    obtain ⟨rfl, rfl⟩ : Q % 2 ^ 64 = pos ∧ c.value = value := by
      rcases hpend.2.2 with hst | ⟨hst, -⟩
      · rw [hp] at hst
        cases hst
        exact ⟨rfl, rfl⟩
      · rw [hp] at hst
        cases hst
    refine h.fill hN hQ hc hpend (.inr ⟨?_, rfl⟩) rfl
    simp only [MpscRing.slot_mod hN, hpend.1]
  | publish hp =>
    rename_i p b pos
    obtain ⟨Q, c, hQ, hc, rfl, hpend⟩ := h.owner p pos (by rw [hp]; rfl)
    obtain ⟨rfl, hcell⟩ : Q % 2 ^ 64 = pos ∧ (w.ring.slots (Q % N)).cell = some c.value := by
      rcases hpend.2.2 with hst | ⟨hst, hcell⟩
      · rw [hp] at hst
        cases hst
      · rw [hp] at hst
        cases hst
        exact ⟨rfl, hcell⟩
    refine h.fill hN hQ hc hpend (.inl ⟨?_, rfl⟩) rfl
    simp only [MpscRing.slot_mod hN, wrappingAdd_mod, hcell]
  | enter hc =>
    have hcons := h.consumer
    exact h.recur (by simpa only [ConsumerAt, hc] using hcons)
  | look hc =>
    have hcons := h.consumer
    simp only [ConsumerAt, hc] at hcons
    exact h.recur ⟨hcons, by rw [h.dequeue, hcons]⟩
  | empty hc =>
    have hcons := h.consumer
    simp only [ConsumerAt, hc] at hcons
    exact h.recur hcons.1
  | found hc hgap =>
    have hcons := h.consumer
    simp only [ConsumerAt, hc] at hcons
    obtain ⟨hlen, rfl⟩ := hcons
    exact h.recur ⟨hlen, rfl, h.published_of_found hN hgap⟩
  | read hc =>
    have hcons := h.consumer
    simp only [ConsumerAt, hc] at hcons
    obtain ⟨hlen, rfl, c, hcl, hpub⟩ := hcons
    refine h.recur ⟨hlen, rfl, c, hcl, hpub, ?_⟩
    rw [MpscRing.slot_mod hN, hpub]
  | free hc => exact h.release hN hc rfl
  | advance hc => exact h.advance hc rfl

section

variable (h : w.History)

include h

theorem History.seat {accepted : List (Nat × Nat)} {refused : List (PushItem α × Bool)}
    (hbusy : w.producers p ≠ .idle)
    (hvalue : ∀ v, st.value = some v → (w.producers p).value = some v)
    (hseek : st.isSeeking = true → (w.producers p).isSeeking = true)
    (haccepted : ∀ id, id ∈ accepted ↔ (∃ c ∈ w.claims, (c.producer, c.call) = id) ∧
      ((update w.producers p st id.1).owned = none ∨ id.2 ≠ w.lastCall id.1))
    (hrefused : ∀ r ∈ refused, r ∈ w.refused ∨ st = .idle ∧ r.1.producer = p ∧
      (w.asked p)[r.1.call]? = some r.1.value ∧ ∀ c ∈ w.claims, c.producer = p → c.call ≠ r.1.call) :
    History { w with ring, producers := update w.producers p st, accepted, refused } := by
  refine ⟨?_, ?_, h.claims, h.order, ?_, haccepted, ?_⟩
  · intro q hq
    dsimp only at hq
    rw [update_apply] at hq
    split at hq
    · next heq => exact h.asked q (heq ▸ hbusy)
    · exact h.asked q hq
  · intro q v hq
    dsimp only at hq
    rw [update_apply] at hq
    split at hq
    · next heq => exact h.value q v (heq ▸ hvalue v hq)
    · exact h.value q v hq
  · intro q hq
    dsimp only at hq
    rw [update_apply] at hq
    split at hq
    · next heq => exact h.seeking q (heq ▸ hseek hq)
    · exact h.seeking q hq
  · intro r hr
    rcases hrefused r hr with hold | ⟨rfl, rfl, hval, hun⟩
    · obtain ⟨hval, hidle, hun⟩ := h.refused r hold
      refine ⟨hval, fun hb => ?_, hun⟩
      dsimp only at hb
      rw [update_apply] at hb
      split at hb
      · next heq => exact hidle (heq ▸ hbusy)
      · exact hidle hb
    · exact ⟨hval, fun hb => absurd (update_self ..) hb, hun⟩

theorem History.accepted_seat (howned : st.owned = none ↔ (w.producers p).owned = none)
    (id : Nat × Nat) :
    id ∈ w.accepted ↔ (∃ c ∈ w.claims, (c.producer, c.call) = id) ∧
      ((update w.producers p st id.1).owned = none ∨ id.2 ≠ w.lastCall id.1) := by
  rw [h.accepted id, update_apply]
  split
  · next heq => rw [heq, howned]
  · rfl

/-- A push that is still under way, whether or not it owns a position. -/
theorem History.move (hbusy : w.producers p ≠ .idle)
    (howned : st.owned = none ↔ (w.producers p).owned = none)
    (hvalue : ∀ v, st.value = some v → (w.producers p).value = some v)
    (hseek : st.isSeeking = true → (w.producers p).isSeeking = true) :
    History { w with ring, producers := update w.producers p st } :=
  h.seat hbusy hvalue hseek (h.accepted_seat howned) fun _ => .inl

theorem History.call_lt {c : PushItem α} (hc : c ∈ w.claims) :
    c.call < (w.asked c.producer).length :=
  (List.getElem?_eq_some_iff.mp (h.claims c hc)).1

theorem History.call (hp : w.producers p = .idle) : (w.call p value).History := by
  have hself : (w.call p value).asked p = w.asked p ++ [value] := update_self ..
  have hlast : (w.call p value).lastCall p = (w.asked p).length := by
    simp [lastCall, hself]
  have hother : ∀ q, q ≠ p → (w.call p value).producers q = w.producers q ∧
      (w.call p value).asked q = w.asked q ∧ (w.call p value).lastCall q = w.lastCall q := by
    intro q hne
    simp [MpscWorld.call, lastCall, hne]
  have hst : (w.call p value).producers p = .loading value := update_self ..
  have hkeep : ∀ (q i : Nat) v, (w.asked q)[i]? = some v →
      ((w.call p value).asked q)[i]? = some v := by
    intro q i v hv
    by_cases hne : q = p
    · subst hne
      rw [hself, List.getElem?_append_left (List.getElem?_eq_some_iff.mp hv).1, hv]
    · rw [(hother q hne).2.1, hv]
  refine ⟨?_, ?_, fun c hc => hkeep _ _ _ (h.claims c hc), h.order, ?_, ?_, ?_⟩
  · intro q hq
    by_cases hne : q = p
    · subst hne
      rw [hlast, hself, List.length_append]
      rfl
    · obtain ⟨h1, h2, h3⟩ := hother q hne
      rw [h2, h3]
      exact h.asked q (h1 ▸ hq)
  · intro q v hq
    by_cases hne : q = p
    · subst hne
      rw [hst] at hq
      rw [hlast, hself, List.getElem?_concat_length]
      exact hq
    · obtain ⟨h1, h2, h3⟩ := hother q hne
      rw [h2, h3]
      exact h.value q v (h1 ▸ hq)
  · intro q hq c hc hprod
    by_cases hne : q = p
    · subst hne
      rw [hlast, ← hprod]
      exact h.call_lt hc
    · obtain ⟨h1, -, h3⟩ := hother q hne
      rw [h3]
      exact h.seeking q (h1 ▸ hq) c hc hprod
  · intro id
    rw [show (w.call p value).accepted = w.accepted from rfl,
      show (w.call p value).claims = w.claims from rfl, h.accepted id]
    by_cases hne : id.1 = p
    · rw [hne, hst, hp]
      simp [PushState.owned]
    · obtain ⟨h1, -, h3⟩ := hother _ hne
      rw [h1, h3]
  · intro r hr
    obtain ⟨hval, hidle, hun⟩ := h.refused r hr
    refine ⟨hkeep _ _ _ hval, fun hbusy => ?_, hun⟩
    by_cases hne : r.1.producer = p
    · have := (List.getElem?_eq_some_iff.mp hval).1
      rw [hne] at this ⊢
      omega
    · obtain ⟨h1, -, h3⟩ := hother _ hne
      rw [h3]
      exact hidle (h1 ▸ hbusy)

theorem History.refuse (hp : w.producers p = .looping pos value) :
    History { w with
      producers := update w.producers p .idle
      refused := w.refused ++ [(⟨p, w.lastCall p, value⟩, w.sawFull p)] } := by
  refine h.seat (by rw [hp]; simp) nofun nofun (h.accepted_seat (by rw [hp]; rfl)) ?_
  intro r hr
  rcases List.mem_append.mp hr with hold | hnew
  · exact .inl hold
  · obtain rfl := List.mem_singleton.mp hnew
    refine .inr ⟨rfl, rfl, h.value p value (by rw [hp]; rfl), ?_⟩
    intro c hc hprod
    exact Nat.ne_of_lt (h.seeking p (by rw [hp]; rfl) c hc hprod)

theorem History.claim (hp : w.producers p = .claiming pos value) :
    History { w with
      ring
      producers := update w.producers p (.writing pos value)
      claims := w.claims ++ [⟨p, w.lastCall p, value⟩] } := by
  have hseek := h.seeking p (by rw [hp]; rfl)
  have hvalue := h.value p value (by rw [hp]; rfl)
  -- the same producers are busy as before
  have hmove : History { w with ring, producers := update w.producers p (.looping pos value) } :=
    h.move (by rw [hp]; simp) (by rw [hp]; rfl) (by rw [hp]; exact fun v hv => hv) (by rw [hp]; exact id)
  refine ⟨?_, ?_, ?_, ?_, ?_, ?_, ?_⟩
  · intro q hq
    refine hmove.asked q ?_
    dsimp only at hq ⊢
    rw [update_apply] at hq ⊢
    split
    · nofun
    · next hne => rwa [if_neg hne] at hq
  · intro q v hq
    refine hmove.value q v ?_
    dsimp only at hq ⊢
    rw [update_apply] at hq ⊢
    split
    · next heq => rwa [if_pos heq] at hq
    · next hne => rwa [if_neg hne] at hq
  · intro c hc
    rcases List.mem_append.mp hc with hold | hnew
    · exact h.claims c hold
    · obtain rfl := List.mem_singleton.mp hnew
      exact hvalue
  · refine List.pairwise_append.mpr ⟨h.order, List.pairwise_singleton .., ?_⟩
    intro c hc d hd hpd
    obtain rfl := List.mem_singleton.mp hd
    exact hseek c hc hpd
  · intro q hq c hc hcq
    dsimp only at hq
    rw [update_apply] at hq
    split at hq
    · cases hq
    · next hne =>
      rcases List.mem_append.mp hc with hold | hnew
      · exact h.seeking q hq c hold hcq
      · obtain rfl := List.mem_singleton.mp hnew
        exact absurd hcq.symm hne
  · intro id
    rw [h.accepted id]
    dsimp only
    rw [update_apply]
    constructor
    · rintro ⟨⟨c, hc, rfl⟩, howned⟩
      refine ⟨⟨c, List.mem_append_left _ hc, rfl⟩, ?_⟩
      split
      · next heq =>
        subst heq
        exact .inr (Nat.ne_of_lt (hseek c hc rfl))
      · exact howned
    · rintro ⟨⟨c, hc, rfl⟩, howned⟩
      rcases List.mem_append.mp hc with hold | hnew
      · refine ⟨⟨c, hold, rfl⟩, ?_⟩
        split at howned
        · next heq =>
          left
          rw [heq, hp]
          rfl
        · exact howned
      · obtain rfl := List.mem_singleton.mp hnew
        rw [if_pos rfl] at howned
        exact absurd rfl (howned.resolve_left nofun)
  · intro r hr
    obtain ⟨hval, hidle, hun⟩ := h.refused r hr
    refine ⟨hval, fun hb => ?_, ?_⟩
    · refine hidle fun hst => hb ?_
      dsimp only
      rw [update_of_ne, hst]
      intro heq
      rw [heq, hp] at hst
      cases hst
    · intro c hc hcr
      rcases List.mem_append.mp hc with hold | hnew
      · exact hun c hold hcr
      · obtain rfl := List.mem_singleton.mp hnew
        subst hcr
        exact (hidle (by rw [hp]; simp)).symm

theorem History.publish (hp : w.producers p = .publishing pos)
    (hclaim : ∃ c ∈ w.claims, (c.producer, c.call) = (p, w.lastCall p)) : History { w with
      ring
      producers := update w.producers p .idle
      accepted := w.accepted ++ [(p, w.lastCall p)] } := by
  refine h.seat (by rw [hp]; simp) nofun nofun ?_ fun _ => .inl
  intro id
  rw [List.mem_append, List.mem_singleton, h.accepted id]
  by_cases hne : id.1 = p
  · obtain ⟨q, n⟩ := id
    subst hne
    rw [update_self, hp]
    by_cases hn : n = w.lastCall q
    · subst hn
      simp only [or_true, PushState.owned, true_or, and_true, true_iff]
      exact hclaim
    · simp [PushState.owned, hn]
  · rw [update_of_ne hne, or_iff_left]
    rintro rfl
    exact hne rfl

end

theorem History.effect (hh : w.History) (h : w.Positions N) (he : w.Effect N e w') :
    w'.History := by
  cases he with
  | stay => exact hh
  | call hp => exact hh.call hp
  | load hp =>
    refine hh.move (by rw [hp]; simp) (by rw [hp]; rfl) ?_ (by rw [hp]; exact id)
    rw [hp]
    exact fun v hv => hv
  | hit hp =>
    refine hh.move (by rw [hp]; simp) (by rw [hp]; rfl) ?_ (by rw [hp]; exact id)
    rw [hp]
    exact fun v hv => hv
  | refuse hp => exact hh.refuse hp
  | lag hp =>
    refine hh.move (by rw [hp]; simp) (by rw [hp]; rfl) ?_ (by rw [hp]; exact id)
    rw [hp]
    exact fun v hv => hv
  | claim hp => exact hh.claim hp
  | miss hp =>
    refine hh.move (by rw [hp]; simp) (by rw [hp]; rfl) ?_ (by rw [hp]; exact id)
    rw [hp]
    exact fun v hv => hv
  | write hp =>
    exact hh.move (by rw [hp]; simp) (by rw [hp]; simp [PushState.owned]) nofun nofun
  | publish hp =>
    obtain ⟨Q, c, -, hc, rfl, hpend⟩ := h.owner _ _ (by rw [hp]; rfl)
    refine hh.publish hp ⟨c, List.mem_of_getElem? hc, ?_⟩
    have := hpend.2.1
    rw [Prod.mk.injEq]
    exact ⟨rfl, by unfold lastCall; omega⟩
  | _ => exact ⟨hh.asked, hh.value, hh.claims, hh.order, hh.seeking, hh.accepted, hh.refused⟩

theorem Positions.observe (h : w.Positions N) : (w.observe N).Positions N :=
  ⟨h.enqueue, h.dequeue, h.le, h.room, h.free, h.taken, h.owner, h.looping, h.claiming, h.since,
    h.consumer, h.popped⟩

theorem History.observe (h : w.History) : (w.observe N).History :=
  ⟨h.asked, h.value, h.claims, h.order, h.seeking, h.accepted, h.refused⟩

structure Safe (N : Nat) (w : MpscWorld α) : Prop where
  positions : w.Positions N
  history : w.History

theorem init_safe (hN : IsCapacity N) : (init : MpscWorld α).Safe N :=
  ⟨init_positions hN, init_history⟩

theorem Safe.effect (h : w.Safe N) (hN : IsCapacity N) (hu : w.Unlapped e)
    (he : w.Effect N e w') : w'.Safe N :=
  ⟨h.positions.effect hN h.history hu he, h.history.effect h.positions he⟩

theorem step_effect (N : Nat) (w : MpscWorld α) (e : MpscEvent α) :
    ∃ w', w.Effect N e w' ∧ (w.step N e = w' ∧ w'.outstanding = w.outstanding ∧
      w'.sawFull = w.sawFull ∧ w'.refused = w.refused ∨ w.step N e = w'.observe N) := by
  cases e with
  | call p =>
    cases hp : w.producers p with
    | idle => exact ⟨_, .call hp, .inr (by simp only [step, hp])⟩
    | _ => exact ⟨w, .stay _, .inl ⟨by simp only [step, hp], rfl, rfl, rfl⟩⟩
  | produce p b => exact ⟨_, produce_effect N w p b, .inr rfl⟩
  | callPop =>
    cases hc : w.consumer with
    | idle => exact ⟨_, .enter hc, .inl ⟨by simp only [step, hc], rfl, rfl, rfl⟩⟩
    | _ => exact ⟨w, .stay _, .inl ⟨by simp only [step, hc], rfl, rfl, rfl⟩⟩
  | consume => exact ⟨_, consume_effect N w, .inr rfl⟩

theorem Safe.step (h : w.Safe N) (hN : IsCapacity N) (hu : w.Unlapped e) : (w.step N e).Safe N := by
  obtain ⟨w', he, hstep⟩ := step_effect N w e
  have hsafe := h.effect hN hu he
  rcases hstep with ⟨heq, -⟩ | heq
  · rw [heq]
    exact hsafe
  · rw [heq]
    exact ⟨hsafe.positions.observe, hsafe.history.observe⟩

/-- A full ring is noticed by every push in progress, and nothing else refuses a push. -/
structure Noticed (N : Nat) (w : MpscWorld α) : Prop where
  saw : N ≤ w.outstanding → ∀ p, w.sawFull p = true
  full : ∀ r ∈ w.refused, r.2 = true

theorem init_noticed (hN : IsCapacity N) : (init : MpscWorld α).Noticed N := by
  refine ⟨fun hfull => ?_, by simp [init]⟩
  have := hN.pos
  simp [outstanding, init] at hfull
  omega

theorem Noticed.effect (hn : w.Noticed N) (h : w.Safe N) (hN : IsCapacity N)
    (hu : w.Unhurried N e) (he : w.Effect N e w') : ∀ r ∈ w'.refused, r.2 = true := by
  cases he with
  | refuse hp hgap =>
    obtain ⟨P, hlo, hhi, rfl⟩ := h.positions.looping _ _ _ hp
    have hbound := hu (by rw [hp]; rfl)
    have hfull := h.positions.full_of_gap hN hhi (by omega) hgap
    intro r hr
    rcases List.mem_append.mp hr with hold | hnew
    · exact hn.full r hold
    · obtain rfl := List.mem_singleton.mp hnew
      exact hn.saw hfull _
  | _ => exact hn.full

theorem Noticed.step (hn : w.Noticed N) (h : w.Safe N) (hN : IsCapacity N)
    (hu : w.Unhurried N e) : (w.step N e).Noticed N := by
  obtain ⟨w', he, hstep⟩ := step_effect N w e
  have hfull := hn.effect h hN hu he
  rcases hstep with ⟨heq, hout, hsaw, href⟩ | heq
  · rw [heq]
    exact ⟨by rw [hout, hsaw]; exact hn.saw, hfull⟩
  · rw [heq]
    refine ⟨fun hout p => ?_, hfull⟩
    have : N ≤ w'.outstanding := hout
    simp [MpscWorld.observe, this]

theorem safe_noticed_run (hN : IsCapacity N) {es : List (MpscEvent α)}
    (hes : Meets (step N) (Unhurried N) init es) :
    (run (step N) init es).Safe N ∧ (run (step N) init es).Noticed N := by
  have hstep : ∀ (w : MpscWorld α) e, w.Safe N ∧ w.Noticed N → w.Unhurried N e →
      (w.step N e).Safe N ∧ (w.step N e).Noticed N :=
    fun _ _ h hu => ⟨h.1.step hN hu.unlapped, h.2.step h.1 hN hu⟩
  exact hes.invariant hstep ⟨init_safe hN, init_noticed hN⟩

/-- What `pop` returned is the values of the first claimed positions, in order. -/
def Fifo (w : MpscWorld α) : Prop :=
  w.popped.length ≤ w.claims.length ∧
    w.popped = (w.claims.take w.popped.length).map fun c => some c.value

/-- Each push has at most one position, those of one producer in call order, and has one with its
own value exactly if it returned `Ok` or is about to. -/
def Accounts (w : MpscWorld α) : Prop :=
  (w.claims.Pairwise fun c d => c.producer = d.producer → c.call < d.call) ∧
    (∀ c ∈ w.claims, (w.asked c.producer)[c.call]? = some c.value) ∧
    ∀ id, id ∈ w.accepted ↔ (∃ c ∈ w.claims, (c.producer, c.call) = id) ∧
      ((w.producers id.1).owned = none ∨ id.2 ≠ w.lastCall id.1)

/-- A push that was refused got its value back, has no position, and saw a full ring. -/
def RefusesFull (w : MpscWorld α) : Prop :=
  ∀ r ∈ w.refused, r.2 = true ∧ (w.asked r.1.producer)[r.1.call]? = some r.1.value ∧
    ∀ c ∈ w.claims, c.producer = r.1.producer → c.call ≠ r.1.call

def popCall : List (MpscEvent α) := .callPop :: List.replicate 5 .consume

def popAll (n : Nat) : List (MpscEvent α) :=
  List.replicate 5 .consume ++ (List.replicate n popCall).flatten

/-- With all pushes finished, popping on yields everything that was claimed. -/
def Drains (N : Nat) (w : MpscWorld α) : Prop :=
  (∀ p, w.producers p = .idle) → ∀ n, w.claims.length ≤ w.popped.length + n →
    (run (step N) w (popAll n)).popped = w.claims.map fun c => some c.value

def DropsRest (N : Nat) (w : MpscWorld α) : Prop :=
  (∀ p, w.producers p = .idle) → w.consumer = .idle →
    ∀ fuel, w.claims.length < w.popped.length + fuel →
      w.ring.dropLoop N fuel w.ring.dequeuePos =
        some ((w.claims.drop w.popped.length).map fun c => some c.value)

theorem Safe.fifo (h : w.Safe N) : w.Fifo := by
  have := h.positions.popped_le
  have := h.positions.le
  exact ⟨by omega, h.positions.popped⟩

theorem Safe.accounts (h : w.Safe N) : w.Accounts :=
  ⟨h.history.order, h.history.claims, h.history.accepted⟩

theorem Safe.refusesFull (h : w.Safe N) (hn : w.Noticed N) : w.RefusesFull := by
  intro r hr
  obtain ⟨hval, -, hun⟩ := h.history.refused r hr
  exact ⟨hn.full r hr, hval, hun⟩

theorem Positions.published_of_idle (h : w.Positions N) (hidle : ∀ p, w.producers p = .idle)
    {Q : Nat} {c : PushItem α} (hQ : w.freed ≤ Q) (hc : w.claims[Q]? = some c) :
    w.Published N Q c := by
  rcases h.taken Q c hQ hc with hpub | hpend
  · exact hpub
  · have := hpend.owned
    rw [hidle] at this
    cases this

theorem Safe.dropLoop (h : w.Safe N) (hN : IsCapacity N) (hidle : ∀ p, w.producers p = .idle)
    (n Q fuel : Nat) (hn : Q + n = w.claims.length) (hQ : w.freed ≤ Q) (hfuel : n < fuel) :
    w.ring.dropLoop N fuel (Q % 2 ^ 64) = some ((w.claims.drop Q).map fun c => some c.value) := by
  have hcap := hN.le
  have hroom := h.positions.room
  induction n generalizing Q fuel with
  | zero =>
    obtain ⟨fuel, rfl⟩ : ∃ m, fuel = m + 1 := ⟨fuel - 1, by omega⟩
    have hdone : Q % 2 ^ 64 = w.ring.enqueuePos := by
      rw [h.positions.enqueue, ← hn]
      rfl
    rw [MpscRing.dropLoop, if_pos hdone, List.drop_eq_nil_of_le (by omega)]
    rfl
  | succ n ih =>
    obtain ⟨fuel, rfl⟩ : ∃ m, fuel = m + 1 := ⟨fuel - 1, by omega⟩
    have hmore : Q % 2 ^ 64 ≠ w.ring.enqueuePos := by
      rw [h.positions.enqueue]
      omega
    have hlt : Q < w.claims.length := by omega
    have hpub := h.positions.published_of_idle hidle hQ (List.getElem?_eq_getElem hlt)
    rw [MpscRing.dropLoop, if_neg hmore, wrappingAdd_mod, ih (Q + 1) fuel (by omega) (by omega)
      (by omega), MpscRing.slot_mod hN, hpub, List.drop_eq_getElem_cons hlt]
    rfl

theorem Safe.dropsRest (h : w.Safe N) (hN : IsCapacity N) : w.DropsRest N := by
  intro hidle hcons fuel hfuel
  have hlen := h.fifo.1
  have hat := h.positions.consumer
  simp only [ConsumerAt, hcons] at hat
  rw [h.positions.dequeue]
  exact h.dropLoop hN hidle (w.claims.length - w.popped.length) _ fuel (by omega) (by omega) (by omega)

def remaining : PopState α → Nat
  | .idle => 0
  | .advancing _ _ => 1
  | .freeing _ _ => 2
  | .reading _ => 3
  | .looking _ => 4
  | .loading => 5

theorem consume_frame (N : Nat) (w : MpscWorld α) : (w.step N .consume).claims = w.claims ∧
    (w.step N .consume).producers = w.producers ∧
    w.popped.length ≤ (w.step N .consume).popped.length ∧
    remaining (w.step N .consume).consumer ≤ remaining w.consumer - 1 := by
  refine ⟨rfl, rfl, ?_⟩
  simp only [step, observe, consume]
  cases h : w.consumer with
  | looking pos =>
    by_cases hgap : usizeMax / 2 < wrappingSub (w.ring.slot N pos).sequence (wrappingAdd pos 1)
    · simp [MpscRing.popStep, hgap, remaining]
    · simp [MpscRing.popStep, hgap, remaining]
  | _ => simp [MpscRing.popStep, remaining]

theorem Safe.finish (h : w.Safe N) (hN : IsCapacity N) {k : Nat} (hk : remaining w.consumer ≤ k) :
    let w' := run (MpscWorld.step N) w (List.replicate k .consume)
    w'.Safe N ∧ w'.consumer = .idle ∧ w'.claims = w.claims ∧ w'.producers = w.producers ∧
      w.popped.length ≤ w'.popped.length := by
  induction k generalizing w with
  | zero =>
    refine ⟨h, ?_, rfl, rfl, Nat.le_refl _⟩
    change w.consumer = .idle
    cases hc : w.consumer <;> simp [hc, remaining] at hk ⊢
  | succ k ih =>
    obtain ⟨hclaims, hprod, hpop, hrem⟩ := consume_frame N w
    obtain ⟨hs, hidle, hc, hp, hlen⟩ := ih (h.step hN (e := .consume) trivial) (by omega)
    exact ⟨hs, hidle, hc.trans hclaims, hp.trans hprod, Nat.le_trans hpop hlen⟩

theorem popCall_popped (hidle : w.consumer = .idle)
    (hgap : ¬ usizeMax / 2 < wrappingSub (w.ring.slot N w.ring.dequeuePos).sequence
      (wrappingAdd w.ring.dequeuePos 1)) :
    (run (step N) w popCall).popped = w.popped ++ [(w.ring.slot N w.ring.dequeuePos).cell] := by
  simp [popCall, List.replicate, step, hidle, consume, MpscRing.popStep, observe, hgap]

theorem Safe.pop_one (h : w.Safe N) (hN : IsCapacity N) (hprod : ∀ p, w.producers p = .idle)
    (hidle : w.consumer = .idle) (hw : w' = run (MpscWorld.step N) w popCall) :
    w'.Safe N ∧ w'.consumer = .idle ∧ w'.claims = w.claims ∧ w'.producers = w.producers ∧
      min w.claims.length (w.popped.length + 1) ≤ w'.popped.length := by
  have hstart : w.step N .callPop = { w with consumer := .loading } := by
    simp only [MpscWorld.step, hidle]
  have hs : (w.step N .callPop).Safe N := h.step hN trivial
  have hrem : remaining (w.step N .callPop).consumer ≤ 5 := by
    rw [hstart]
    exact Nat.le_refl _
  obtain ⟨hs', hi, hc, hp, hlen⟩ := hs.finish hN hrem
  rw [← run_cons, ← popCall, ← hw] at hs' hi hc hp hlen
  rw [hstart] at hc hp hlen
  refine ⟨hs', hi, hc, hp, ?_⟩
  rcases Nat.lt_or_ge w.popped.length w.claims.length with hlt | hge
  · have hat := h.positions.consumer
    simp only [ConsumerAt, hidle] at hat
    have hpub := h.positions.published_of_idle hprod (Nat.le_of_eq hat)
      (List.getElem?_eq_getElem hlt)
    have hzero := wrappingSub_of_le (Nat.le_refl (w.popped.length + 1)) (by omega)
    have hgap : ¬ usizeMax / 2 < wrappingSub (w.ring.slot N w.ring.dequeuePos).sequence
        (wrappingAdd w.ring.dequeuePos 1) := by
      rw [h.positions.dequeue, MpscRing.slot_mod hN, hpub, wrappingAdd_mod, hzero]
      simp
    have hnew := congrArg List.length (popCall_popped hidle hgap)
    rw [← hw, List.length_append] at hnew
    exact Nat.le_trans (Nat.min_le_right ..) (Nat.le_of_eq hnew.symm)
  · exact Nat.le_trans (Nat.min_le_left ..) (Nat.le_trans hge hlen)

theorem Safe.pop_many (h : w.Safe N) (hN : IsCapacity N) (hprod : ∀ p, w.producers p = .idle)
    (hidle : w.consumer = .idle) (n : Nat) (hn : w.claims.length ≤ w.popped.length + n) :
    let w' := run (MpscWorld.step N) w (List.replicate n popCall).flatten
    w'.Safe N ∧ w'.claims = w.claims ∧ w.claims.length ≤ w'.popped.length := by
  induction n generalizing w with
  | zero => exact ⟨h, rfl, by simpa using hn⟩
  | succ n ih =>
    obtain ⟨hs, hi, hc, hp, hlen⟩ := h.pop_one hN hprod hidle rfl
    obtain ⟨hs', hc', hlen'⟩ := ih hs (by rw [hp]; exact hprod) hi (by rw [hc]; omega)
    exact ⟨hs', hc'.trans hc, hc ▸ hlen'⟩

theorem Safe.drains (h : w.Safe N) (hN : IsCapacity N) : w.Drains N := by
  intro hprod n hn
  have hrem : remaining w.consumer ≤ 5 := by
    cases w.consumer <;> simp [remaining]
  obtain ⟨hs, hi, hc, hp, hlen⟩ := h.finish hN hrem
  obtain ⟨hs', hc', hlen'⟩ := hs.pop_many hN (by rw [hp]; exact hprod) hi n (by rw [hc]; omega)
  rw [popAll, run_append, hs'.fifo.2, hc', List.take_of_length_le (by rwa [← hc'] at hlen' ⊢), hc]

/-- The ring is a queue under every interleaving in which no push is lapped. -/
theorem mpsc_ring_is_queue (hN : IsCapacity N) {es : List (MpscEvent α)}
    (hes : Meets (step N) (Unhurried N) init es) :
    let w := run (step N) init es
    w.Fifo ∧ w.Accounts ∧ w.RefusesFull ∧ w.Drains N ∧ w.DropsRest N := by
  obtain ⟨hs, hn⟩ := safe_noticed_run hN hes
  exact ⟨hs.fifo, hs.accounts, hs.refusesFull hn, hs.drains hN, hs.dropsRest hN⟩

/-- Two producers race for position 0 of a ring of two slots, and one item is popped. -/
theorem mpsc_ring_is_queue_raced :
    (run (step 2) (init : MpscWorld Nat) [.call 0 7, .call 1 8, .produce 0 false, .produce 1 false,
      .produce 0 false, .produce 1 false, .produce 0 false, .produce 1 false, .produce 0 false,
      .produce 0 false, .callPop, .consume, .consume, .consume, .consume, .consume]).Fifo :=
  (mpsc_ring_is_queue ⟨⟨1, rfl⟩, Nat.le_refl _, by decide⟩ (by decide)).1

end MpscWorld

end Kwokka
