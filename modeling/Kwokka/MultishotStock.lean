import Kwokka.MultishotRuns
import Mathlib.Algebra.BigOperators.Group.Finset.Basic

/-! Where the results are. Weighing every result by an arbitrary function, a step
moves weight between the completion queue, the slots, the consumers and the
results disposed of, and changes the total only by what the kernel posts. -/

namespace Kwokka

open MultishotRegistry MultishotSlot

def weigh {ρ : Type} (f : ρ → Nat) (vs : List ρ) : Nat := (vs.map f).sum

section Weigh

variable {ρ : Type} (f : ρ → Nat)

@[simp]
theorem weigh_nil : weigh f [] = 0 := rfl

@[simp]
theorem weigh_cons (v : ρ) (vs : List ρ) : weigh f (v :: vs) = f v + weigh f vs := by
  simp [weigh]

@[simp]
theorem weigh_append (us vs : List ρ) : weigh f (us ++ vs) = weigh f us + weigh f vs := by
  simp [weigh]

end Weigh

namespace MultishotRegistry

variable {ρ : Type} (f : ρ → Nat) (r : MultishotRegistry ρ)

def stock : Nat := ∑ i ∈ Finset.range r.cap, weigh f (r.slots i).contents

theorem stock_set {i : Nat} (hi : i < r.cap) (s : MultishotSlot ρ) :
    stock f (r.set i s) + weigh f (r.slots i).contents = stock f r + weigh f s.contents := by
  have hmem : i ∈ Finset.range r.cap := Finset.mem_range.mpr hi
  have hrest : ∑ j ∈ (Finset.range r.cap).erase i, weigh f ((r.set i s).slots j).contents =
      ∑ j ∈ (Finset.range r.cap).erase i, weigh f (r.slots j).contents := by
    apply Finset.sum_congr rfl
    intro j hj
    rw [set_slots_of_ne r (Finset.ne_of_mem_erase hj)]
  have hset : stock f (r.set i s) = weigh f s.contents +
      ∑ j ∈ (Finset.range r.cap).erase i, weigh f (r.slots j).contents := by
    rw [stock, set_cap, ← Finset.add_sum_erase _ _ hmem, hrest, set_slots_self]
  have hold : stock f r = weigh f (r.slots i).contents +
      ∑ j ∈ (Finset.range r.cap).erase i, weigh f (r.slots j).contents := by
    rw [stock, ← Finset.add_sum_erase _ _ hmem]
  omega

theorem stock_set_eq {i : Nat} (hi : i < r.cap) {s : MultishotSlot ρ}
    (hs : weigh f s.contents = weigh f (r.slots i).contents) :
    stock f (r.set i s) = stock f r := by
  have h := stock_set f r hi s
  omega

end MultishotRegistry

namespace MultishotWorld

variable {ρ : Type} {p : MultishotProtocol ρ} {base : UInt64} {valid : MultishotSlot ρ → Prop}
  {stored : ρ → ρ} {discard : ρ → Bool → List ρ} {w : MultishotWorld ρ}

def entries (w : MultishotWorld ρ) : List (MultishotEntry ρ) := w.batch ++ w.cq

variable (f : ρ → Nat)

def carried (w : MultishotWorld ρ) : Nat :=
  weigh (fun e => f e.value) w.entries + stock f w.registry

def posting (w : MultishotWorld ρ) : MultishotEvent ρ → Nat
  | .post key v _ => if key ∈ w.issued ∧ (w.ops key).isFinal = false then f v else 0
  | .postCancel key v => if key ∈ w.cancels then f v else 0
  | _ => 0

/-- Nothing is lost: the read skips none of these completions, one that is neither queued nor
disposed of weighs nothing, and none is queued over a stashed one. -/
def Keeps (discard : ρ → Bool → List ρ) (w : MultishotWorld ρ) :
    MultishotEvent ρ → Prop
  | .read own isOwnSkipped => w.skipped own isOwnSkipped = none
  | .complete => ∀ e rest, w.batch = e :: rest →
      (weigh f (discard e.value e.isMore) = f e.value ∨
        w.registry.isSlotLive e.key.slot (e.key.occupancy % 2 ^ 16) = true ∧
          (w.registry.slots e.key.slot).isCancelPending = false ∧
            (w.registry.slots e.key.slot).fifo.length < multishotFifoDepth) ∧
      (w.registry.isSlotLive e.key.slot (e.key.occupancy % 2 ^ 16) = true →
        (w.registry.slots e.key.slot).isCancelPending = false →
          (w.registry.slots e.key.slot).terminal = none)
  | _ => True

theorem carried_start (h : Sound p valid w) (j owner : Nat) (isAccepted : Bool) :
    carried f (w.start j owner isAccepted) = carried f w := by
  have heffect := start_effect w j owner isAccepted
  generalize w.start j owner isAccepted = w' at heffect ⊢
  cases heffect with
  | refused i hstate hi hvacant =>
    have hempty := (h.slots.vacant i hvacant).2
    have hstock : stock f (w.registry.set i ((w.registry.slots i).opened owner).freed) =
        stock f w.registry := stock_set_eq f w.registry hi (by rw [hempty]; rfl)
    simp only [carried, entries, hstock]
  | accepted i key hstate hi hvacant =>
    have hempty := (h.slots.vacant i hvacant).2
    have hstock : stock f (w.registry.set i ((w.registry.slots i).opened owner)) =
        stock f w.registry := stock_set_eq f w.registry hi (by rw [hempty]; rfl)
    simp only [carried, entries, hstock]
  | _ => rfl

theorem carried_poll (hlaw : p.Lawful base valid stored discard) (h : Sound p valid w) (j : Nat) :
    carried f (w.poll p j) + weigh f (w.advance p j).1.items = carried f w := by
  have heffect := poll_effect hlaw h.valid j
  generalize (w.advance p j).1 = next at heffect ⊢
  generalize w.poll p j = w' at heffect ⊢
  cases heffect with
  | pending => simp [MultishotNext.items]
  | item key v s hstate hlive hvalid hframe hterm hcontents =>
    have hstock := stock_set f w.registry (isLive_iff.mp hlive).2.1 s
    rw [hcontents, weigh_cons] at hstock
    simp only [carried, entries, MultishotNext.items, weigh_cons, weigh_nil]
    omega
  | ended key hstate hlive hterm hempty =>
    have hstock : stock f (w.registry.set key.slot (w.registry.slots key.slot).freed) =
        stock f w.registry := stock_set_eq f w.registry (isLive_iff.mp hlive).2.1
          (by rw [hempty]; rfl)
    simp only [carried, entries, MultishotNext.items, hstock, weigh_nil, Nat.add_zero]

theorem carried_drainCancel (hlaw : p.Lawful base valid stored discard) (h : Sound p valid w)
    (hbatch : w.batch = []) (isAccepted : Bool) :
    carried f (w.drainCancel p isAccepted) + weigh f (w.released p (.drainCancel isAccepted)) =
      carried f w := by
  cases hinbox : w.inbox with
  | nil => simp [drainCancel, released, hbatch, hinbox]
  | cons record =>
    cases record with
    | none => simp [drainCancel, released, hbatch, hinbox, carried, entries]
    | some key =>
      have heffect := hlaw.cancel w.registry key h.valid
      simp only [drainCancel, released, hbatch, hinbox, carried, entries]
      generalize p.submitCancel w.registry key = out at heffect ⊢
      cases heffect with
      | stale hlive hreg hsubmitted hrel => simp [hreg, hrel]
      | freed hlive hterm hreg hsubmitted hrel =>
        have hstock := stock_set f w.registry (isLive_iff.mp hlive).2.1
          (w.registry.slots key.slot).freed
        have hnil : weigh f (w.registry.slots key.slot).freed.contents = 0 := rfl
        rw [hreg, hrel]
        omega
      | marked s hlive hvalid hoccupied hfrees howner hpending hempty hreg hsubmitted hrel =>
        have hstock := stock_set f w.registry (isLive_iff.mp hlive).2.1 s
        rw [hempty, weigh_nil] at hstock
        rw [hreg, hrel]
        omega

theorem carried_complete (hstored : ∀ v, f (stored v) = f v)
    (hlaw : p.Lawful base valid stored discard) (h : Sound p valid w)
    (hkeeps : w.Keeps f discard .complete) :
    carried f (w.complete p) + weigh f (w.released p .complete) = carried f w := by
  cases hbatch : w.batch with
  | nil => simp [complete, released, hbatch]
  | cons e rest =>
    obtain ⟨out, heffect, hrel', heq⟩ := complete_cons hlaw h hbatch
    obtain ⟨hkey, -, -⟩ := h.entries e (by simp [hbatch])
    have hcap : e.key.slot < w.registry.cap := (h.slots.owned _ hkey).2
    have hcarried : carried f w = f e.value + weigh (fun e => f e.value) (rest ++ w.cq) +
        stock f w.registry := by
      simp [carried, entries, hbatch]
    rw [heq, hrel', hcarried]
    simp only [carried, entries]
    have hweigh := (hkeeps e rest hbatch).1
    cases heffect with
    | stale hlive hreg hretire hrel =>
      rw [hreg, hrel]
      rcases hweigh with hweigh | ⟨hlive', -, -⟩
      · omega
      · exact absurd (hlive.symm.trans hlive') Bool.false_ne_true
    | cancelled hlive hpending hreg hretire hrel =>
      have hempty := h.slots.emptied _ hpending
      have hstock : stock f out.registry = stock f w.registry := by
        rw [hreg]
        split
        · rfl
        · exact stock_set_eq f w.registry hcap (by rw [hempty]; rfl)
      rw [hstock, hrel]
      rcases hweigh with hweigh | ⟨-, hpending', -⟩
      · omega
      · simp [hpending] at hpending'
    | overflowed hlive hpending hfull hreg hretire hrel =>
      have hstock : stock f out.registry = stock f w.registry := by
        rw [hreg]
        exact stock_set_eq f w.registry hcap rfl
      rw [hstock, hrel]
      rcases hweigh with hweigh | ⟨-, -, hroom⟩
      · omega
      · omega
    | queued s hlive hpending hvalid hframe hterm hmem hcontents hreg hretire hrel =>
      have hstock := stock_set f w.registry hcap s
      have hnone := (hkeeps e rest hbatch).2 hlive hpending
      rw [hcontents hnone, weigh_append, weigh_cons, weigh_nil, hstored] at hstock
      rw [hreg, hrel, weigh_nil]
      omega

theorem carried_step (hstored : ∀ v, f (stored v) = f v) (hlaw : p.Lawful base valid stored discard)
    (h : Sound p valid w) (e : MultishotEvent ρ) (hkeeps : w.Keeps f discard e) :
    carried f (w.step p e) + weigh f (w.released p e) + weigh f (w.yielded p e) =
      carried f w + posting f w e := by
  cases e with
  | next j owner isAccepted =>
    simp only [step, released, yielded, posting, weigh_nil, Nat.add_zero]
    split
    · rw [carried_poll f hlaw (h.start hlaw j owner isAccepted), carried_start f h]
    · rfl
  | drainCancel isAccepted =>
    simp only [step, yielded, posting, weigh_nil, Nat.add_zero]
    cases hbatch : w.batch with
    | nil =>
      exact carried_drainCancel f hlaw h hbatch isAccepted
    | cons => simp [released, hbatch]
  | post =>
    simp only [step, released, yielded, posting, post, weigh_nil, Nat.add_zero]
    split
    · simp only [carried, entries, weigh_append, weigh_cons, weigh_nil]
      omega
    · rfl
  | postCancel =>
    simp only [step, released, yielded, posting, postCancel, weigh_nil, Nat.add_zero]
    split
    · simp only [carried, entries, weigh_append, weigh_cons, weigh_nil]
      omega
    · rfl
  | read own isOwnSkipped =>
    simp only [step, released, yielded, posting, weigh_nil, Nat.add_zero]
    split
    · next hempty =>
      simp only [Bool.and_eq_true, List.isEmpty_iff] at hempty
      have hskipped : w.skipped own isOwnSkipped = none := hkeeps
      have hsplit := read_split (w := w) own isOwnSkipped
      rw [hskipped, Option.toList_none, List.nil_append] at hsplit
      simp only [carried, entries, hempty.1, List.nil_append, ← hsplit]
      rfl
    · rfl
  | complete =>
    exact carried_complete f hstored hlaw h hkeeps
  | _ =>
    simp only [step, released, yielded, posting, weigh_nil, Nat.add_zero]
    split <;> rfl

/-- The marker of a drained completion does not name a later operation of its slot, which
takes `2 ^ 16` reuses of the slot. -/
def Unaliased (w : MultishotWorld ρ) : MultishotEvent ρ → Prop
  | .complete =>
    match w.batch with
    | [] => True
    | e :: _ => w.registry.isSlotLive e.key.slot (e.key.occupancy % 2 ^ 16) = true →
        e.key.occupancy = (w.registry.slots e.key.slot).frees
  | _ => True

variable {w' : MultishotWorld ρ} {e : MultishotEntry ρ}

theorem Unaliased.head {rest : List (MultishotEntry ρ)} (h : w.Unaliased .complete)
    (hbatch : w.batch = e :: rest)
    (hlive : w.registry.isSlotLive e.key.slot (e.key.occupancy % 2 ^ 16) = true) :
    w.registry.IsCurrent e.key := by
  simp only [Unaliased, hbatch] at h
  exact h hlive

theorem Sound.own_of_live (h : Sound p valid w) {rest : List (MultishotEntry ρ)}
    (hbatch : w.batch = e :: rest) (halias : w.Unaliased .complete)
    (hlive : w.registry.isSlotLive e.key.slot (e.key.occupancy % 2 ^ 16) = true)
    (hpending : (w.registry.slots e.key.slot).isCancelPending = false) :
    e.isCancel = false ∧ w.registry.IsCurrent e.key := by
  obtain ⟨-, -, hcancel⟩ := h.entries e (by simp [hbatch])
  have hcurrent := halias.head hbatch hlive
  refine ⟨?_, hcurrent⟩
  by_contra hne
  rcases (hcancel (by simpa using hne)).2 with hlt | hp
  · rw [← show e.key.occupancy = _ from hcurrent] at hlt
    exact Nat.lt_irrefl _ hlt
  · simp [hpending] at hp

structure Values (Q : MultishotEntry ρ → Prop) (P : ρ → Prop) (w : MultishotWorld ρ) : Prop where
  posted : ∀ e ∈ w.entries, Q e
  queued : ∀ i, ∀ v ∈ (w.registry.slots i).contents, P v

section Values

variable {Q : MultishotEntry ρ → Prop} {P : ρ → Prop}

theorem Values.imp {Q' : MultishotEntry ρ → Prop} {P' : ρ → Prop} (h : Values Q P w)
    (hQ : ∀ e, Q e → Q' e) (hP : ∀ v, P v → P' v) : Values Q' P' w :=
  ⟨fun e he => hQ e (h.posted e he), fun i v hv => hP v (h.queued i v hv)⟩

theorem Values.set (h : Values Q P w) {i : Nat} {s : MultishotSlot ρ}
    (hregistry : w'.registry = w.registry.set i s) (hentries : ∀ e ∈ w'.entries, e ∈ w.entries)
    (hs : ∀ v ∈ s.contents, P v) : Values Q P w' where
  posted e he := h.posted e (hentries e he)
  queued := by
    rw [hregistry]
    exact forall_set w.registry (P := fun _ t => ∀ v ∈ t.contents, P v) h.queued hs

theorem Values.same (h : Values Q P w) (hregistry : w'.registry = w.registry)
    (hentries : ∀ e ∈ w'.entries, e ∈ w.entries) :
    Values Q P w' := by
  refine h.set (i := 0) (s := w.registry.slots 0) ?_ hentries (h.queued 0)
  rw [hregistry, set_same]

theorem Values.start (h : Values Q P w) (j owner : Nat) (isAccepted : Bool) :
    Values Q P (w.start j owner isAccepted) := by
  have heffect := start_effect w j owner isAccepted
  generalize w.start j owner isAccepted = w' at heffect ⊢
  cases heffect with
  | polled => exact h
  | full => exact h.same rfl (fun _ he => he)
  | refused =>
    refine h.set rfl (fun _ he => he) ?_
    intro v hv
    simp [contents, freed] at hv
  | accepted =>
    refine h.set rfl (fun _ he => he) ?_
    intro v hv
    simp [contents, opened] at hv

theorem Values.poll (hlaw : p.Lawful base valid stored discard) (hsound : Sound p valid w)
    (h : Values Q P w) (j : Nat) :
    Values Q P (w.poll p j) ∧ ∀ v ∈ (w.advance p j).1.items, P v := by
  have heffect := poll_effect hlaw hsound.valid j
  generalize (w.advance p j).1 = next at heffect ⊢
  generalize w.poll p j = w' at heffect ⊢
  cases heffect with
  | pending => exact ⟨h, by simp [MultishotNext.items]⟩
  | item key v s hstate hlive hvalid hframe hterm hcontents =>
    have hall := h.queued key.slot
    rw [hcontents] at hall
    refine ⟨h.set rfl (fun _ he => he) ?_, ?_⟩
    · intro u hu
      exact hall u (List.mem_cons_of_mem _ hu)
    · simpa [MultishotNext.items] using hall v List.mem_cons_self
  | ended =>
    refine ⟨h.set rfl (fun _ he => he) ?_, by simp [MultishotNext.items]⟩
    intro v hv
    simp [contents, freed] at hv

theorem Values.drainCancel (hlaw : p.Lawful base valid stored discard)
    (hsound : Sound p valid w) (h : Values Q P w) (hbatch : w.batch = []) (isAccepted : Bool) :
    Values Q P (w.drainCancel p isAccepted) ∧
      ∀ v ∈ w.released p (.drainCancel isAccepted), P v := by
  cases hinbox : w.inbox with
  | nil => simpa [MultishotWorld.drainCancel, released, hbatch, hinbox] using h
  | cons record =>
    cases record with
    | none =>
      refine ⟨?_, by simp [released, hbatch, hinbox]⟩
      simp only [MultishotWorld.drainCancel, hinbox]
      exact h.same rfl (fun _ he => he)
    | some key =>
      have heffect := hlaw.cancel w.registry key hsound.valid
      simp only [MultishotWorld.drainCancel, released, hbatch, hinbox]
      generalize p.submitCancel w.registry key = out at heffect ⊢
      cases heffect with
      | stale hlive hreg hsubmitted hrel =>
        exact ⟨h.same hreg (fun _ he => by simpa [entries, hbatch] using he), by simp [hrel]⟩
      | freed hlive hterm hreg hsubmitted hrel =>
        refine ⟨h.set hreg (fun _ he => by simpa [entries, hbatch] using he) ?_, ?_⟩
        · intro v hv
          simp [contents, freed] at hv
        · rw [hrel]
          exact h.queued key.slot
      | marked s hlive hvalid hoccupied hfrees howner hpending hempty hreg hsubmitted hrel =>
        refine ⟨h.set hreg (fun _ he => by simpa [entries, hbatch] using he) (by simp [hempty]), ?_⟩
        rw [hrel]
        exact h.queued key.slot

theorem Values.complete (hstored : ∀ e, Q e → e.isCancel = false → P (stored e.value))
    (hlaw : p.Lawful base valid stored discard) (hsound : Sound p valid w) (h : Values Q P w)
    (halias : w.Unaliased .complete) :
    Values Q P (w.complete p) ∧ (w.released p .complete = [] ∨
      ∃ e ∈ w.entries, w.released p .complete = discard e.value e.isMore) := by
  cases hbatch : w.batch with
  | nil => simpa [MultishotWorld.complete, released, hbatch] using h
  | cons e rest =>
    obtain ⟨out, heffect, hrel', heq⟩ := complete_cons hlaw hsound hbatch
    rw [heq, hrel']
    have hmem : e ∈ w.entries := by simp [entries, hbatch]
    have hentries : ∀ e' ∈ rest ++ w.cq, e' ∈ w.entries := by
      intro e' he'
      rw [entries, hbatch]
      exact List.mem_cons_of_mem e he'
    have hqueued := h.queued e.key.slot
    cases heffect with
    | stale hlive hreg hretire hrel =>
      exact ⟨h.same hreg hentries, .inr ⟨e, hmem, hrel⟩⟩
    | cancelled hlive hpending hreg hretire hrel =>
      refine ⟨?_, .inr ⟨e, hmem, hrel⟩⟩
      cases hmore : e.isMore with
      | true =>
        rw [hmore] at hreg
        exact h.same hreg hentries
      | false =>
        rw [hmore] at hreg
        refine h.set hreg hentries ?_
        intro v hv
        simp [contents, freed] at hv
    | overflowed hlive hpending hfull hreg hretire hrel =>
      exact ⟨h.set hreg hentries hqueued, .inr ⟨e, hmem, hrel⟩⟩
    | queued s hlive hpending hvalid hframe hterm hmem' hcontents hreg hretire hrel =>
      obtain ⟨hown, -⟩ := hsound.own_of_live hbatch halias hlive hpending
      refine ⟨h.set hreg hentries ?_, .inl hrel⟩
      intro v hv
      rcases hmem' v hv with rfl | hv
      · exact hstored e (h.posted e hmem) hown
      · exact hqueued v hv

theorem Values.concat (h : Values Q P w) (hregistry : w'.registry = w.registry)
    (hentries : w'.entries = w.entries ++ [e]) (he : Q e) : Values Q P w' where
  posted e' he' := by
    rw [hentries] at he'
    rcases List.mem_append.mp he' with he' | he'
    · exact h.posted e' he'
    · have heq : e' = e := by simpa using he'
      exact heq ▸ he
  queued := hregistry ▸ h.queued

theorem Values.step (hstored : ∀ e, Q e → e.isCancel = false → P (stored e.value))
    (hlaw : p.Lawful base valid stored discard) (hsound : Sound p valid w) (h : Values Q P w)
    (ev : MultishotEvent ρ) (halias : w.Unaliased ev)
    (hpost : ∀ key v isMore, ev = .post key v isMore → key ∈ w.issued →
      (w.ops key).isFinal = false → Q ⟨key, p.encode key, v, isMore, false⟩)
    (hcancel : ∀ key v, ev = .postCancel key v → Q ⟨key, p.encode key, v, false, true⟩) :
    Values Q P (w.step p ev) := by
  have heffect := step_effect p w ev
  generalize w.step p ev = w' at heffect ⊢
  cases heffect with
  | idle => exact h
  | next j owner isAccepted =>
    exact ((h.start j owner isAccepted).poll hlaw (hsound.start hlaw j owner isAccepted) j).1
  | drainCancel isAccepted hbatch => exact (h.drainCancel hlaw hsound hbatch isAccepted).1
  | post key v isMore hkey hfinal =>
    exact h.concat rfl (by simp [entries]) (hpost key v isMore rfl hkey hfinal)
  | postCancel key v => exact h.concat rfl (by simp [entries]) (hcancel key v rfl)
  | read =>
    refine h.same rfl ?_
    intro e he
    exact List.mem_append_right _ (mem_of_read he)
  | complete => exact (h.complete hstored hlaw hsound halias).1
  | _ => exact h.same rfl (fun _ he => he)

end Values

end MultishotWorld

end Kwokka
