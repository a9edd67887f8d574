import Kwokka.MultishotSound

/-! The agreement of slots, streams and records along every run of a worker's
multishot streams. -/

namespace Kwokka

open MultishotRegistry Function

namespace MultishotWorld

variable {ρ : Type} {p : MultishotProtocol ρ} {base : UInt64} {valid : MultishotSlot ρ → Prop}
  {stored : ρ → ρ} {discard : ρ → Bool → List ρ} {w : MultishotWorld ρ}

def states (w : MultishotWorld ρ) : Nat → StreamState := fun j => (w.streams j).state

structure Sound (p : MultishotProtocol ρ) (valid : MultishotSlot ρ → Prop)
    (w : MultishotWorld ρ) : Prop where
  cap : w.registry.cap ≤ 2 ^ 16
  valid : ∀ i, valid (w.registry.slots i)
  slots : w.registry.Sound w.issued
  held : w.registry.Held w.issued w.states w.inbox
  cancels : ∀ k ∈ w.cancels, k ∈ w.issued ∧ w.registry.IsPast k
  entries : ∀ e ∈ w.batch ++ w.cq, e.key ∈ w.issued ∧ e.userData = p.encode e.key ∧
    (e.isCancel = true → e.isMore = false ∧ w.registry.IsPast e.key)

theorem Sound.initial {workerId cap limit : Nat} (hcap : min cap limit ≤ 2 ^ 16)
    (hvalid : valid .vacant) : Sound p valid (.initial (.new workerId cap limit)) where
  cap := hcap
  valid _ := hvalid
  slots := .initial workerId cap limit
  held :=
    { stream := fun _ _ h => StreamState.noConfusion h
      unique := fun _ _ _ h => StreamState.noConfusion h
      record := fun _ h => absurd h List.not_mem_nil
      nodup := List.nodup_nil
      covered := fun _ h => absurd h.issued List.not_mem_nil }
  cancels := by simp [MultishotWorld.initial]
  entries := by simp [MultishotWorld.initial]

variable {w' : MultishotWorld ρ} {e : MultishotEntry ρ} {s : MultishotSlot ρ}

theorem Sound.of_registry {r : MultishotRegistry ρ} (h : Sound p valid w)
    (hregistry : w'.registry = r) (hcap : r.cap = w.registry.cap) (hvalid : ∀ i, valid (r.slots i))
    (hslots : r.Sound w'.issued) (hheld : r.Held w'.issued w'.states w'.inbox)
    (hissued : ∀ k ∈ w.issued, k ∈ w'.issued)
    (hpast : ∀ k ∈ w.issued, w.registry.IsPast k → r.IsPast k)
    (hcancels : ∀ k ∈ w'.cancels, k ∈ w.cancels ∨ k ∈ w'.issued ∧ r.IsPast k)
    (hentries : ∀ e ∈ w'.batch ++ w'.cq, e ∈ w.batch ++ w.cq) : Sound p valid w' := by
  subst hregistry
  refine ⟨hcap ▸ h.cap, hvalid, hslots, hheld, ?_, ?_⟩
  · intro k hk
    rcases hcancels k hk with hk | hk
    · exact ⟨hissued k (h.cancels k hk).1, hpast k (h.cancels k hk).1 (h.cancels k hk).2⟩
    · exact hk
  · intro e he
    obtain ⟨hk, hdata, hcancel⟩ := h.entries e (hentries e he)
    refine ⟨hissued e.key hk, hdata, ?_⟩
    intro hc
    exact ⟨(hcancel hc).1, hpast e.key hk (hcancel hc).2⟩

theorem Sound.same (h : Sound p valid w) (hregistry : w'.registry = w.registry)
    (hissued : w'.issued = w.issued) (hcancels : w'.cancels = w.cancels)
    (hheld : w.registry.Held w.issued w'.states w'.inbox)
    (hentries : ∀ e ∈ w'.batch ++ w'.cq, e ∈ w.batch ++ w.cq) : Sound p valid w' :=
  h.of_registry hregistry rfl h.valid (hissued ▸ h.slots) (hissued ▸ hheld) (fun _ hk => hissued ▸ hk)
    (fun _ _ hp => hp) (fun _ hk => .inl (hcancels ▸ hk)) hentries

theorem states_update {j : Nat} {s : MultishotStream ρ}
    (h : w'.streams = update w.streams j s) : w'.states = update w.states j s.state := by
  funext j'
  rw [states, h, update_apply, update_apply]
  split <;> rfl

theorem valid_set (h : ∀ i, valid (w.registry.slots i)) {i : Nat}
    (hs : valid s) : ∀ j, valid ((w.registry.set i s).slots j) :=
  forall_set w.registry (P := fun _ t => valid t) h hs

inductive StartEffect (w : MultishotWorld ρ) (j owner : Nat) : MultishotWorld ρ → Prop
  | polled (hstate : (w.streams j).state ≠ .idle) : StartEffect w j owner w
  | full (hstate : (w.streams j).state = .idle) : StartEffect w j owner
      { w with streams := update w.streams j { w.streams j with state := .fallback } }
  | refused (i : Nat) (hstate : (w.streams j).state = .idle) (hi : i < w.registry.cap)
      (hvacant : (w.registry.slots i).isOccupied = false) : StartEffect w j owner
      { w with
        registry := w.registry.set i ((w.registry.slots i).opened owner).freed
        streams := update w.streams j { w.streams j with state := .fallback }
        allocations := update w.allocations i (w.allocations i + 1) }
  | accepted (i : Nat) (key : MultishotKey) (hstate : (w.streams j).state = .idle)
      (hi : i < w.registry.cap) (hvacant : (w.registry.slots i).isOccupied = false)
      (hkey : key = ⟨i, (w.registry.slots i).frees, w.registry.workerId⟩) : StartEffect w j owner
      { w with
        registry := w.registry.set i ((w.registry.slots i).opened owner)
        streams := update w.streams j
          { w.streams j with state := .multishot key, key := some key }
        issued := key :: w.issued
        ops := update w.ops key ⟨owner, [], 0, false⟩
        allocations := update w.allocations i (w.allocations i + 1)
        inFlight := update w.inFlight owner (w.inFlight owner + 1) }

theorem start_effect (w : MultishotWorld ρ) (j owner : Nat) (isAccepted : Bool) :
    StartEffect w j owner (w.start j owner isAccepted) := by
  unfold start
  cases hstate : (w.streams j).state with
  | idle =>
    cases hfree : w.registry.firstFree with
    | none =>
      simp only [allocate, hfree]
      exact .full hstate
    | some i =>
      obtain ⟨hi, hvacant⟩ := firstFree_some hfree
      simp only [allocate, hfree]
      cases isAccepted with
      | true => exact .accepted i _ hstate hi hvacant rfl
      | false =>
        have hlive : (w.registry.set i ((w.registry.slots i).opened owner)).isLive
            ⟨i, (w.registry.slots i).frees, w.registry.workerId⟩ = true := by
          rw [isLive_iff]
          simpa [MultishotSlot.opened, MultishotSlot.generation, MultishotKey.generation] using hi
        simp only [Bool.false_eq_true, if_false, MultishotRegistry.free, hlive, if_true, set_set,
          set_slots_self]
        exact .refused i hstate hi hvacant
  | _ => exact .polled (by simp [hstate])

theorem IsPast.of_vacant {r : MultishotRegistry ρ} {k : MultishotKey} {i : Nat} (hp : r.IsPast k)
    (hpending : (r.slots i).isCancelPending = false)
    (hfrees : (r.slots i).frees ≤ s.frees) : (r.set i s).IsPast k := by
  by_cases hki : k.slot = i
  · subst hki
    rcases hp with hlt | hp
    · exact .inl (by rw [set_slots_self]; omega)
    · simp [hpending] at hp
  · rwa [IsPast, set_slots_of_ne r hki]

variable (hlaw : p.Lawful base valid stored discard)

include hlaw

theorem Sound.start (h : Sound p valid w) (j owner : Nat) (isAccepted : Bool) :
    Sound p valid (w.start j owner isAccepted) := by
  have heffect := start_effect w j owner isAccepted
  generalize w.start j owner isAccepted = w' at heffect ⊢
  cases heffect with
  | polled => exact h
  | full hstate =>
    refine h.same rfl rfl rfl ?_ (fun _ he => he)
    rw [states_update rfl]
    exact h.held.restate (by simp [states, hstate]) (by simp)
  | refused i hstate hi hvacant =>
    have hpending := (h.slots.vacant i hvacant).1
    have hlt : (w.registry.slots i).frees < ((w.registry.slots i).opened owner).freed.frees :=
      Nat.lt_succ_self _
    refine h.of_registry rfl rfl (valid_set h.valid (hlaw.freed _))
      (h.slots.vacate rfl rfl rfl hlt) ?_ (fun _ hk => hk)
      (fun _ _ hp => IsPast.of_vacant hp hpending (Nat.le_of_lt hlt)) (fun _ hk => .inl hk)
      (fun _ he => he)
    rw [states_update rfl]
    have hrest : w.registry.Held w.issued (update w.states j .fallback) w.inbox :=
      h.held.restate (by simp [states, hstate]) (by simp)
    have hne : ∀ k, w.registry.Holds w.issued k → k.slot ≠ i := by
      rintro k hk rfl
      have hocc := h.slots.current k hk.issued hk.current
      simp [hvacant] at hocc
    apply hrest.leave
    · rintro k hk rfl
      exact .inr (Nat.ne_of_lt (Nat.lt_of_le_of_lt (h.slots.bound k hk) hlt))
    · intro j' k
      exact ⟨fun heq => ⟨heq, hne k (hrest.stream j' k heq)⟩, fun heq => heq.1⟩
    · intro k
      exact ⟨fun hmem => ⟨hmem, hne k (hrest.record k hmem).1⟩, fun hmem => hmem.1⟩
    · exact hrest.nodup
  | accepted i key hstate hi hvacant hkey =>
    subst hkey
    have hpending := (h.slots.vacant i hvacant).1
    refine h.of_registry rfl rfl (valid_set h.valid (hlaw.opened _ owner))
      (h.slots.opened hi hvacant owner) ?_ (fun _ hk => List.mem_cons_of_mem _ hk)
      (fun _ _ hp => IsPast.of_vacant hp hpending (Nat.le_refl _)) (fun _ hk => .inl hk)
      (fun _ he => he)
    rw [states_update rfl]
    exact h.held.opened h.slots hvacant (by simp [states, hstate]) owner

inductive PollEffect (valid : MultishotSlot ρ → Prop) (w : MultishotWorld ρ) (j : Nat) :
    MultishotNext ρ → MultishotWorld ρ → Prop
  | pending : PollEffect valid w j .pending w
  | item (key : MultishotKey) (v : ρ) (s : MultishotSlot ρ)
      (hstate : (w.streams j).state = .multishot key) (hlive : w.registry.isLive key = true)
      (hvalid : valid s) (hframe : (w.registry.slots key.slot).SameFrame s)
      (hterm : s.isTerminated = (w.registry.slots key.slot).isTerminated)
      (hcontents : (w.registry.slots key.slot).contents = v :: s.contents) :
      PollEffect valid w j (.item v)
        { w with
          registry := w.registry.set key.slot s
          streams := update w.streams j
            { w.streams j with items := (w.streams j).items ++ [v] } }
  | ended (key : MultishotKey) (hstate : (w.streams j).state = .multishot key)
      (hlive : w.registry.isLive key = true)
      (hterm : (w.registry.slots key.slot).isTerminated = true)
      (hempty : (w.registry.slots key.slot).contents = []) :
      PollEffect valid w j .ended
        { w with
          registry := w.registry.set key.slot (w.registry.slots key.slot).freed
          streams := update w.streams j { w.streams j with state := .done } }

theorem poll_effect (hvalid : ∀ i, valid (w.registry.slots i)) (j : Nat) :
    PollEffect valid w j (w.advance p j).1 (w.poll p j) := by
  unfold poll advance
  cases hstate : (w.streams j).state with
  | multishot key =>
    have hnext := hlaw.next w.registry key hvalid
    simp only
    generalize p.next w.registry key = out at hnext
    cases hnext with
    | item v s hlive hvalid hframe hterm hcontents =>
      exact .item key v s hstate hlive hvalid hframe hterm hcontents
    | ended hlive hterm hempty => exact .ended key hstate hlive hterm hempty
    | _ => exact .pending
  | _ => exact .pending

omit hlaw in
theorem Sound.framed {i : Nat} (h : Sound p valid w) (hregistry : w'.registry = w.registry.set i s)
    (hissued : w'.issued = w.issued) (hstates : w'.states = w.states) (hinbox : w'.inbox = w.inbox)
    (hcancels : w'.cancels = w.cancels) (hentries : ∀ e ∈ w'.batch ++ w'.cq, e ∈ w.batch ++ w.cq)
    (hvalid : valid s) (hocc : (w.registry.slots i).isOccupied = true)
    (hpending : (w.registry.slots i).isCancelPending = false)
    (hframe : (w.registry.slots i).SameFrame s) : Sound p valid w' := by
  refine h.of_registry hregistry rfl (valid_set h.valid hvalid) ?_ ?_ (fun _ hk => hissued ▸ hk) ?_
    (fun _ hk => .inl (hcancels ▸ hk)) hentries
  · rw [hissued]
    exact h.slots.frame hocc hpending hframe
  · rw [hissued, hstates, hinbox]
    exact h.held.frame hframe
  · intro k hk hp
    exact hp.set (fun _ => .inr ⟨hframe.frees.symm, fun hb => hframe.pending.trans hb⟩)
      (h.slots.bound k hk)

theorem Sound.poll (h : Sound p valid w) (j : Nat) :
    Sound p valid (w.poll p j) := by
  have heffect := poll_effect hlaw h.valid j
  generalize (w.advance p j).1 = next at heffect
  generalize w.poll p j = w' at heffect ⊢
  cases heffect with
  | pending => exact h
  | item key v s hstate hlive hvalid hframe =>
    have hkey := h.held.stream j key hstate
    have hocc := h.slots.current key hkey.issued hkey.current
    have hself : update w.states j (w.streams j).state = w.states := update_eq_self j w.states
    refine h.framed rfl rfl (by rw [states_update rfl, hself]) rfl rfl (fun _ he => he) hvalid hocc
      hkey.waiting hframe
  | ended key hstate =>
    refine h.of_registry rfl rfl (valid_set h.valid (hlaw.freed _)) h.slots.freed ?_ (fun _ hk => hk)
      (fun k hk hp => hp.freed h.slots hk) (fun _ hk => .inl hk) (fun _ he => he)
    rw [states_update rfl]
    exact h.held.finish h.slots hstate (by simp)

omit hlaw in
theorem Sound.dropStream (h : Sound p valid w) (j : Nat)
    (hroom : ∀ k, (w.streams j).state = .multishot k → w.inbox.length < p.inboxCapacity) :
    Sound p valid (w.dropStream p j) := by
  refine h.same rfl rfl rfl ?_ (fun _ he => he)
  rw [states_update rfl]
  unfold MultishotWorld.dropStream
  cases hstate : (w.streams j).state with
  | multishot key =>
    simp only [pushRecord, hroom key hstate, if_true]
    exact h.held.drop hstate
  | _ => exact h.held.restate (by simp [states, hstate]) (by simp)

omit hlaw in
theorem Sound.pushOther (h : Sound p valid w) :
    Sound p valid { w with inbox := w.pushRecord p none } := by
  refine h.same rfl rfl rfl ?_ (fun _ he => he)
  have hmem : ∀ k, some k ∈ w.pushRecord p none ↔ some k ∈ w.inbox := by
    intro k
    unfold pushRecord
    split <;> simp
  have hkeys : (w.pushRecord p none).filterMap id = w.inbox.filterMap id := by
    unfold pushRecord
    split <;> simp
  exact
    { stream := h.held.stream
      unique := h.held.unique
      record := fun k hk => h.held.record k ((hmem k).mp hk)
      nodup := hkeys ▸ h.held.nodup
      covered := fun k hk => (h.held.covered k hk).imp_right (hmem k).mpr }

theorem Sound.drainCancel (h : Sound p valid w)
    (isAccepted : Bool) : Sound p valid (w.drainCancel p isAccepted) := by
  unfold MultishotWorld.drainCancel
  cases hinbox : w.inbox with
  | nil => exact h
  | cons record =>
    have hheld := h.held
    rw [hinbox] at hheld
    cases record with
    | none =>
      refine h.same rfl rfl rfl ?_ (fun _ he => he)
      exact
        { stream := hheld.stream
          unique := hheld.unique
          record := fun k hk => hheld.record k (List.mem_cons_of_mem _ hk)
          nodup := by simpa using hheld.nodup
          covered := fun k hk => (hheld.covered k hk).imp_right (by simp) }
    | some key =>
      obtain ⟨hkey, -⟩ := hheld.record key List.mem_cons_self
      have hlive := h.slots.isLive hkey.issued hkey.current
      have heffect := hlaw.cancel w.registry key h.valid
      simp only
      generalize p.submitCancel w.registry key = out at heffect ⊢
      cases heffect with
      | stale hstale => simp [hlive] at hstale
      | freed hlive hterm hreg hsubmitted =>
        refine h.of_registry hreg rfl (valid_set h.valid (hlaw.freed _)) h.slots.freed
          (hheld.drain h.slots ?_) (fun _ hk => hk) (fun k hk hp => hp.freed h.slots hk) ?_
          (fun _ he => he)
        · intro k' hk' hslot
          have hle := h.slots.bound k' hk'
          rw [hslot] at hle
          exact .inr (Nat.ne_of_lt (Nat.lt_succ_of_le hle))
        · intro k hk
          simp only [hsubmitted, Bool.false_and, Bool.false_eq_true, if_false] at hk
          exact .inl hk
      | marked s hlive hvalid hoccupied hfrees howner hpending hempty hreg =>
        have hocc := h.slots.current key hkey.issued hkey.current
        refine h.of_registry hreg rfl (valid_set h.valid hvalid)
          (h.slots.keep hocc hoccupied hfrees (fun _ => hempty))
          (hheld.drain h.slots (fun _ _ _ => .inl hpending)) (fun _ hk => hk) ?_ ?_ (fun _ he => he)
        · intro k hk hp
          exact hp.set (fun _ => .inr ⟨hfrees.symm, fun _ => hpending⟩) (h.slots.bound k hk)
        · intro k hk
          have hk : k ∈ w.cancels ∨ k = key := by
            revert hk
            split <;> simp +contextual
          rcases hk with hk | rfl
          · exact .inl hk
          · refine .inr ⟨hkey.issued, .inr ?_⟩
            rw [set_slots_self]
            exact hpending

omit hlaw in
theorem Sound.concat (h : Sound p valid w) (hregistry : w'.registry = w.registry)
    (hissued : w'.issued = w.issued) (hstates : w'.states = w.states) (hinbox : w'.inbox = w.inbox)
    (hcancels : ∀ k ∈ w'.cancels, k ∈ w.cancels) (hbatch : w'.batch = w.batch)
    (hcq : w'.cq = w.cq ++ [e]) (hkey : e.key ∈ w.issued) (hdata : e.userData = p.encode e.key)
    (hcancel : e.isCancel = true → e.isMore = false ∧ w.registry.IsPast e.key) : Sound p valid w' := by
  obtain ⟨hcap, hvalid, hslots, hheld, hold, hentries⟩ := h
  constructor
  · rwa [hregistry]
  · rwa [hregistry]
  · rwa [hregistry, hissued]
  · rwa [hregistry, hissued, hstates, hinbox]
  · rw [hregistry, hissued]
    exact fun k hk => hold k (hcancels k hk)
  · rw [hregistry, hissued, hbatch, hcq]
    intro e' he'
    rw [← List.append_assoc] at he'
    rcases List.mem_append.mp he' with he' | he'
    · exact hentries e' he'
    · have heq : e' = e := by simpa using he'
      subst heq
      exact ⟨hkey, hdata, hcancel⟩

omit hlaw in
theorem read_split (own : Nat) (isOwnSkipped : Bool) :
    w.cq = (w.read own isOwnSkipped).batch ++
      ((w.skipped own isOwnSkipped).toList ++ (w.read own isOwnSkipped).cq) := by
  simp only [MultishotWorld.read, skipped]
  conv_lhs => rw [← List.take_append_drop (min own completionBatch) w.cq]
  congr 1
  cases isOwnSkipped with
  | false => rfl
  | true =>
    simp only [if_true, Bool.toNat_true]
    cases hlost : w.cq[min own completionBatch]? with
    | none =>
      have hlen := List.getElem?_eq_none_iff.mp hlost
      rw [List.drop_eq_nil_of_le hlen, List.drop_eq_nil_of_le (by omega)]
      rfl
    | some =>
      obtain ⟨hlt, rfl⟩ := List.getElem?_eq_some_iff.mp hlost
      rw [List.drop_eq_getElem_cons hlt]
      rfl

omit hlaw in
theorem mem_of_read {own : Nat} {isOwnSkipped : Bool}
    (he : e ∈ (w.read own isOwnSkipped).batch ++ (w.read own isOwnSkipped).cq) : e ∈ w.cq := by
  rw [read_split (w := w) own isOwnSkipped]
  rcases List.mem_append.mp he with he | he <;> simp [he]

omit hlaw in
theorem Sound.read (h : Sound p valid w) (hbatch : w.batch = []) (own : Nat)
    (isOwnSkipped : Bool) : Sound p valid (w.read own isOwnSkipped) := by
  refine h.same rfl rfl rfl h.held ?_
  intro e he
  rw [hbatch, List.nil_append]
  exact mem_of_read he

theorem Sound.marker (h : Sound p valid w)
    (he : e ∈ w.batch ++ w.cq) : IsMarkerOf base e.key e.userData := by
  obtain ⟨hkey, hdata, -⟩ := h.entries e he
  have hslot : e.key.slot < 2 ^ 16 := Nat.lt_of_lt_of_le (h.slots.owned _ hkey).2 h.cap
  rw [hdata]
  exact hlaw.marker e.key hslot

theorem complete_cons (h : Sound p valid w) {rest : List (MultishotEntry ρ)}
    (hbatch : w.batch = e :: rest) :
    ∃ out, PushEffect valid stored discard w.registry e.key.slot (e.key.occupancy % 2 ^ 16) e.value
        e.isMore out ∧
      w.released p .complete = out.released ∧
      w.complete p =
        { w with
          registry := out.registry
          batch := rest
          ops := update w.ops e.key (w.noteDrained e)
          inFlight := w.retire out.retire } := by
  have hmark := h.marker hlaw (e := e) (by simp [hbatch])
  have hroute := hlaw.routes e.userData hmark.high
  have hpush := hlaw.push w.registry e.userData e.value e.isMore h.valid
  rw [hmark.slot, hmark.generation] at hpush
  refine ⟨_, hpush, ?_, ?_⟩
  · simp [released, hbatch, hroute]
  · simp [complete, hbatch, hroute]

theorem Sound.complete (h : Sound p valid w) {rest : List (MultishotEntry ρ)}
    (hbatch : w.batch = e :: rest) :
    Sound p valid (w.complete p) := by
  obtain ⟨out, heffect, -, heq⟩ := complete_cons hlaw h hbatch
  rw [heq]
  have hentries : ∀ e' ∈ rest ++ w.cq, e' ∈ w.batch ++ w.cq := by
    intro e' he'
    rw [hbatch]
    exact List.mem_cons_of_mem e he'
  cases heffect with
  | stale hlive hreg => exact h.same hreg rfl rfl h.held hentries
  | cancelled hlive hpending hreg =>
    cases hmore : e.isMore with
    | true =>
      rw [hmore] at hreg
      exact h.same hreg rfl rfl h.held hentries
    | false =>
      rw [hmore] at hreg
      obtain ⟨hstream, hrecord⟩ := h.held.nobody hpending
      refine h.of_registry hreg rfl (valid_set h.valid (hlaw.freed _)) h.slots.freed
        (h.held.leave ?_ ?_ ?_ h.held.nodup) (fun _ hk => hk) (fun k hk hp => hp.freed h.slots hk)
        (fun _ hk => .inl hk) hentries
      · rintro k hk hslot
        have hle := h.slots.bound k hk
        rw [hslot] at hle
        exact .inr (Nat.ne_of_lt (Nat.lt_succ_of_le hle))
      · intro j k
        exact ⟨fun heq => ⟨heq, hstream j k heq⟩, fun heq => heq.1⟩
      · intro k
        exact ⟨fun hmem => ⟨hmem, hrecord k hmem⟩, fun hmem => hmem.1⟩
  | overflowed hlive hpending hfull hreg =>
    exact h.framed hreg rfl rfl rfl rfl hentries (hlaw.ended _ _ (h.valid _))
      (isSlotLive_iff.mp hlive).2.1 hpending ⟨rfl, rfl, rfl, rfl⟩
  | queued s hlive hpending hvalid hframe hterm hmem hcontents hreg =>
    exact h.framed hreg rfl rfl rfl rfl hentries hvalid (isSlotLive_iff.mp hlive).2.1 hpending hframe

def HasRoom (p : MultishotProtocol ρ) (w : MultishotWorld ρ) : MultishotEvent ρ → Prop
  | .drop j =>
    match (w.streams j).state with
    | .multishot _ => w.inbox.length < p.inboxCapacity
    | _ => True
  | _ => True

omit hlaw in
theorem HasRoom.room {j : Nat} {k : MultishotKey} (h : w.HasRoom p (.drop j))
    (hstate : (w.streams j).state = .multishot k) : w.inbox.length < p.inboxCapacity := by
  simpa only [HasRoom, hstate] using h

/-- What an event does when the pass is where it can happen; otherwise the world stays. -/
inductive StepEffect (p : MultishotProtocol ρ) (w : MultishotWorld ρ) :
    MultishotEvent ρ → MultishotWorld ρ → Prop
  | idle (e : MultishotEvent ρ) : StepEffect p w e w
  | next (j owner : Nat) (isAccepted : Bool) :
      StepEffect p w (.next j owner isAccepted) ((w.start j owner isAccepted).poll p j)
  | drop (j : Nat) : StepEffect p w (.drop j) (w.dropStream p j)
  | pushOther (hshared : p.isInboxShared = true) :
      StepEffect p w .pushOther { w with inbox := w.pushRecord p none }
  | drainCancel (isAccepted : Bool) (hbatch : w.batch = []) :
      StepEffect p w (.drainCancel isAccepted) (w.drainCancel p isAccepted)
  | post (key : MultishotKey) (v : ρ) (isMore : Bool) (hkey : key ∈ w.issued)
      (hfinal : (w.ops key).isFinal = false) : StepEffect p w (.post key v isMore)
      { w with
        ops := update w.ops key { w.ops key with posted := (w.ops key).posted ++ [(v, isMore)] }
        cq := w.cq ++ [⟨key, p.encode key, v, isMore, false⟩] }
  | postCancel (key : MultishotKey) (v : ρ) (hmem : key ∈ w.cancels) :
      StepEffect p w (.postCancel key v)
      { w with
        cancels := w.cancels.erase key
        cq := w.cq ++ [⟨key, p.encode key, v, false, true⟩] }
  | read (own : Nat) (isOwnSkipped : Bool) (hbatch : w.batch = []) :
      StepEffect p w (.read own isOwnSkipped) (w.read own isOwnSkipped)
  | complete (e : MultishotEntry ρ) (rest : List (MultishotEntry ρ)) (hbatch : w.batch = e :: rest) :
      StepEffect p w .complete (w.complete p)

omit hlaw in
theorem step_effect (p : MultishotProtocol ρ) (w : MultishotWorld ρ) (e : MultishotEvent ρ) :
    StepEffect p w e (w.step p e) := by
  cases e with
  | complete =>
    cases hbatch : w.batch with
    | nil =>
      have hsame : w.complete p = w := by simp [MultishotWorld.complete, hbatch]
      rw [step, hsame]
      exact .idle _
    | cons e rest => exact .complete e rest hbatch
  | post key v isMore =>
    rw [step, post]
    split
    case isTrue hpost => exact .post key v isMore hpost.1 hpost.2
    case isFalse => exact .idle _
  | postCancel key v =>
    rw [step, postCancel]
    split
    case isTrue hmem => exact .postCancel key v hmem
    case isFalse => exact .idle _
  | next j owner isAccepted =>
    rw [step]
    split
    · exact .next j owner isAccepted
    · exact .idle _
  | drop j =>
    rw [step]
    split
    · exact .drop j
    · exact .idle _
  | pushOther =>
    rw [step]
    split
    case isTrue hshared => exact .pushOther (Bool.and_eq_true_iff.mp hshared).2
    case isFalse => exact .idle _
  | drainCancel isAccepted =>
    rw [step]
    split
    case isTrue hempty => exact .drainCancel isAccepted (List.isEmpty_iff.mp hempty)
    case isFalse => exact .idle _
  | read =>
    rw [step]
    split
    case isTrue hempty =>
      exact .read _ _ (List.isEmpty_iff.mp (Bool.and_eq_true_iff.mp hempty).1)
    case isFalse => exact .idle _

theorem Sound.step (h : Sound p valid w) (e : MultishotEvent ρ)
    (hroom : w.HasRoom p e) : Sound p valid (w.step p e) := by
  have heffect := step_effect p w e
  generalize w.step p e = w' at heffect ⊢
  cases heffect with
  | idle => exact h
  | next j owner isAccepted => exact (h.start hlaw j owner isAccepted).poll hlaw j
  | drop j => exact h.dropStream j (fun _ hstate => hroom.room hstate)
  | pushOther => exact h.pushOther
  | drainCancel isAccepted => exact h.drainCancel hlaw isAccepted
  | post key v isMore hkey =>
    exact h.concat rfl rfl rfl rfl (fun _ hk => hk) rfl rfl hkey rfl (by simp)
  | postCancel key v hmem =>
    obtain ⟨hkey, hpast⟩ := h.cancels key hmem
    exact h.concat rfl rfl rfl rfl (fun _ hk => List.mem_of_mem_erase hk) rfl rfl hkey rfl
      (fun _ => ⟨rfl, hpast⟩)
  | read own isOwnSkipped hbatch => exact h.read hbatch own isOwnSkipped
  | complete e rest hbatch => exact h.complete hlaw hbatch

theorem step_cap (h : Sound p valid w)
    (e : MultishotEvent ρ) : (w.step p e).registry.cap = w.registry.cap := by
  have heffect := step_effect p w e
  generalize w.step p e = w' at heffect ⊢
  cases heffect with
  | next j owner isAccepted =>
    have hstart : (w.start j owner isAccepted).registry.cap = w.registry.cap := by
      have heffect := start_effect w j owner isAccepted
      generalize w.start j owner isAccepted = w' at heffect ⊢
      cases heffect <;> rfl
    have heffect := poll_effect hlaw (h.start hlaw j owner isAccepted).valid j
    generalize ((w.start j owner isAccepted).advance p j).1 = next at heffect
    generalize (w.start j owner isAccepted).poll p j = w' at heffect ⊢
    cases heffect <;> exact hstart
  | drainCancel =>
    unfold MultishotWorld.drainCancel
    split
    · rfl
    · rfl
    · next key rest hinbox =>
      have heffect := hlaw.cancel w.registry key h.valid
      generalize p.submitCancel w.registry key = out at heffect ⊢
      cases heffect with
      | stale hlive hreg => simp only [hreg]
      | freed hlive hterm hreg => simp only [hreg, set_cap]
      | marked s hlive hvalid hoccupied hfrees howner hpending hempty hreg =>
        simp only [hreg, set_cap]
  | complete x rest hbatch =>
    obtain ⟨out, heffect, -, heq⟩ := complete_cons hlaw h hbatch
    rw [heq]
    cases heffect with
    | stale hlive hreg => rw [hreg]
    | cancelled hlive hpending hreg =>
      rw [hreg]
      split <;> rfl
    | overflowed hlive hpending hfull hreg => rw [hreg, set_cap]
    | queued s hlive hpending hvalid hframe hterm hmem hcontents hreg =>
      rw [hreg, set_cap]
  | _ => rfl

end MultishotWorld

end Kwokka
