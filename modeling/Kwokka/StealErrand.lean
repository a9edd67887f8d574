import Kwokka.CrewKin

/-! A thief has one errand at a time: a request that waits at a victim, the reply to it in the
victim's hands, or the reply on its way back. So the push of a reply never finds a full queue. -/

namespace Kwokka

open StealShard

def CrewPhase.errands (t : Nat) : CrewPhase → Nat
  | .replying thief _ => if thief = t then 1 else 0
  | _ => 0

namespace CrewDesk

/-- How many errands of thief `t` are in the hands of this worker. -/
def errands (desk : CrewDesk) (t : Nat) : Nat :=
  desk.phase.errands t + desk.requests.countP (·.thiefId = t)

def pending (desk : CrewDesk) : Nat := if desk.shard.pendingSteal.isSome then 1 else 0

theorem pending_le (desk : CrewDesk) : desk.pending ≤ 1 := by
  unfold pending
  split <;> decide

def asks (u t : Nat) : Option (Nat × Letter) → Nat
  | some (target, .request request) => if u = target ∧ request.thiefId = t then 1 else 0
  | _ => 0

def replies (t : Nat) : Option (Nat × Letter) → Nat
  | some (target, .handoff _) => if t = target then 1 else 0
  | _ => 0

theorem deliver_errands (desk : CrewDesk) (u : Nat) (letter : Option (Nat × Letter)) :
    (∀ t, (desk.deliver u letter).errands t ≤ desk.errands t + asks u t letter) ∧
      (desk.deliver u letter).handoffs.length ≤ desk.handoffs.length + replies u letter := by
  match letter with
  | none => exact ⟨fun _ => Nat.le_refl _, Nat.le_refl _⟩
  | some (target, letter) =>
    by_cases hu : u = target
    · cases letter with
      | handoff =>
        simp only [deliver, post, hu, if_true, asks, replies]
        split <;> simp [errands]
      | _ => simp [deliver, post, hu, errands, asks, List.countP_singleton, Nat.add_assoc]
    · simp [deliver, hu]

/-- What a step of worker `v` does to the errands: taking in a reply ends its own, a request begins it. -/
inductive Traffic (v : Nat) (desk desk' : CrewDesk) : Option (Nat × Letter) → Prop
  | keep (letter : Option (Nat × Letter))
      (hout : ∀ t, desk'.errands t + replies t letter ≤ desk.errands t)
      (hpending : desk'.shard.pendingSteal = desk.shard.pendingSteal)
      (hasks : ∀ u t, asks u t letter = 0 := by intros; rfl)
      (hback : desk'.handoffs = desk.handoffs := by rfl) : Traffic v desk desk' letter
  | settle (hout : desk'.errands = desk.errands)
      (hback : desk'.handoffs.length + 1 = desk.handoffs.length)
      (hpending : desk'.pending = 0) : Traffic v desk desk' none
  | ask (target : Nat) (request : StealRequest) (hthief : request.thiefId = v)
      (hout : ∀ t, desk'.errands t ≤ desk.errands t) (hback : desk'.handoffs = desk.handoffs)
      (hnone : desk.pending = 0) (hpending : desk'.pending = 1) :
      Traffic v desk desk' (some (target, .request request))

end CrewDesk

open CrewDesk

theorem CrewAct.traffic {e : CrewEvent} {v : Nat} {desk desk' : CrewDesk} {log log' : CrewLog}
    {letter : Option (Nat × Letter)} (h : Hale v desk) (hact : CrewAct e v desk log desk' log' letter) :
    Traffic v desk desk' letter := by
  have hkin := h.kin
  have hleft : ∀ t, 0 + desk.requests.countP (·.thiefId = t) ≤ desk.errands t :=
    fun t => Nat.add_le_add_right (Nat.zero_le _) _
  cases hact with
  | quiet shard phase hrewrites hpasses =>
    refine .keep _ (fun t => ?_) hrewrites.pendingSteal
    cases hphase : phase with
    | replying thief reply =>
      rw [errands, errands, hpasses.replying thief reply hphase]
      exact Nat.le_refl _
    | _ => exact hleft t
  | start shard n hasWorked ref header hphase hrewrites =>
    exact .keep _ hleft hrewrites.pendingSteal
  | note key =>
    refine .keep _ (fun _ => Nat.le_refl _) ?_
    rcases markSettled_cases hkin.wf key with heq | ⟨_, _, -, -, heq, -⟩ <;> rw [heq]
  | pushSpawn | pollScope | skipReap => exact .keep _ (fun _ => Nat.le_refl _) rfl
  | spawn hasWorked isPinned parent rest shard hphase hinbox hspawn =>
    obtain ⟨_, _, _, -, -, -, heq, -⟩ := hkin.spawn_list hinbox hspawn
    exact .keep _ (fun _ => Nat.le_refl _) (by rw [heq])
  | serve request rest reply shard hphase hrequests hserve =>
    refine .keep _ (fun t => ?_) ?_
    · simp [errands, hphase, CrewPhase.errands, replies, hrequests, List.countP_cons, Nat.add_comm]
    rcases serveSteal_cases hkin.wf request with ⟨_, heq, -⟩ | ⟨_, _, _, _, _, -, -, -, heq, -⟩
    all_goals
      rw [hserve] at heq
      cases heq
      rfl
  | reply thief reply hphase =>
    refine .keep _ (fun t => ?_) rfl
    rw [errands, errands, hphase]
    simp only [CrewPhase.errands, replies, eq_comm]
    omega
  | receive reply rest installed shard hphase hhandoffs =>
    exact .settle rfl (by rw [hhandoffs]; rfl) rfl
  | reap hasWorked parent child rest hphase hqueue hchild =>
    obtain ⟨_, _, _, _, -, -, -, -, heq, -⟩ := reapOne_eq hkin.wf hkin.family hchild
    exact .keep _ (fun _ => Nat.le_refl _) (by rw [heq])
  | finish | report | bounce | takeRoot => exact .keep _ hleft rfl
  | ask victim cursor key tasks hasWorked hphase hpending =>
    exact .ask victim _ hkin.id hleft rfl (by rw [pending, hpending]; rfl) rfl
  | spawnRoot key shard hphase hspawn =>
    obtain ⟨_, heq, -⟩ := spawnRoot_eq hkin.wf hspawn
    exact .keep _ hleft (by rw [heq])

/-- Any two workers together have at most one errand of `t` in hand, or its reply is back already. -/
def AtMostOneErrand (desks : Nat → CrewDesk) (t : Nat) : Prop :=
  ∀ u u', u ≠ u' → (desks u).errands t + (desks u').errands t + (desks t).handoffs.length ≤
    (desks t).pending

theorem AtMostOneErrand.step {v t : Nat} {desks desks' : Nat → CrewDesk} {desk : CrewDesk}
    {letter : Option (Nat × Letter)} (h : AtMostOneErrand desks t)
    (htraffic : Traffic v (desks v) desk letter)
    (hdesks : ∀ u, desks' u = (if u = v then desk else desks u).deliver u letter) :
    AtMostOneErrand desks' t := by
  intro u u' hne
  have hout : ∀ u, (desks' u).errands t ≤ (if u = v then desk.errands t else (desks u).errands t) +
      asks u t letter := by
    intro u
    rw [hdesks]
    split <;> exact (deliver_errands _ _ _).1 t
  have hback : (desks' t).handoffs.length ≤ (if t = v then desk.handoffs.length
      else (desks t).handoffs.length) + replies t letter := by
    rw [hdesks]
    split <;> exact (deliver_errands _ _ _).2
  have hpending : (desks' t).pending = if t = v then desk.pending else (desks t).pending := by
    rw [hdesks, pending, deliver_view]
    split <;> rfl
  have hu := hout u
  have hu' := hout u'
  have huu := h u u' hne
  have huv := h u v
  have huv' := h u' v
  have hone := (desks t).pending_le
  cases htraffic with
  | keep _ hsent hkept hasks hhandoffs =>
    have hsame : desk.pending = (desks v).pending := by rw [pending, pending, hkept]
    have ht := hsent t
    rw [hasks] at hu hu'
    rw [hhandoffs] at hback
    grind
  | settle hkept =>
    simp only [asks, hkept] at hu hu'
    simp only [replies] at hback
    grind
  | ask target request hthief hsent hhandoffs =>
    have ht := hsent t
    simp only [asks] at hu hu'
    simp only [replies, hhandoffs] at hback
    grind

def HandoffMsg.Eligible : HandoffMsg → Prop
  | .delivered _ _ task => task.cell.hasPolled = true ∧ task.cell.ioBound = false ∧
      task.cell.isPinned = false ∧ task.cell.firstChild = none ∧ task.cell.inFlightOps = 0
  | .declined _ => True

/-- Every reply on its way, in the queue of the thief or in the hands of the victim, is eligible. -/
def CrewDesk.Ships (desk : CrewDesk) : Prop :=
  (∀ reply ∈ desk.handoffs, reply.Eligible) ∧
    ∀ thief reply, desk.phase = .replying thief reply → reply.Eligible

theorem StealShard.serve_eligible {shard : StealShard} (hwf : shard.tasks.WF) (request : StealRequest) :
    (shard.serveSteal request).1.Eligible := by
  rcases serveSteal_cases hwf request with ⟨_, heq, -⟩ | ⟨_, _, _, _, _, -, -, hcandidate, heq, -⟩
  · rw [heq]
    trivial
  · simp only [isCandidate, Bool.and_eq_true] at hcandidate
    rw [heq]
    simp_all [HandoffMsg.Eligible]

namespace CrewWorld

theorem run_desks {P : (Nat → CrewDesk) → Prop} {lead count taskCapacity : Nat}
    (hinit : P (init lead count taskCapacity).desk)
    (hstep : ∀ {w w' e v desk letter}, (∀ u, Hale u (w.desk u)) → Moves w w' e v desk letter →
      P w.desk → P w'.desk) (es : List CrewEvent) :
    P (Runs.run step (init lead count taskCapacity) es).desk := by
  have hboth : ∀ (w : CrewWorld) e, (∀ u, Hale u (w.desk u)) ∧ P w.desk →
      (∀ u, Hale u ((w.step e).desk u)) ∧ P (w.step e).desk := by
    rintro w e ⟨hhale, h⟩
    obtain ⟨v, desk, letter, hmoves⟩ := (w.step_cases e).moves (wf_of_hale hhale)
    exact ⟨hale_step hhale e, hstep hhale hmoves h⟩
  exact (Runs.run_invariant hboth ⟨hale_init lead count taskCapacity, hinit⟩ es).2

theorem init_errands (lead count taskCapacity u t : Nat) :
    ((init lead count taskCapacity).desk u).errands t = 0 := by
  show (if _ then CrewPhase.completing else .outside).errands t + 0 = 0
  split <;> rfl

/-- A thief never has two errands, so its handoff queue is empty when a victim pushes a reply. -/
theorem replies_never_bounce (lead count taskCapacity : Nat) (es : List CrewEvent) (t : Nat) :
    let w := Runs.run step (init lead count taskCapacity) es
    AtMostOneErrand w.desk t ∧ ∀ v reply, (w.workers v).phase = .replying t reply →
      ((w.pushHandoff t reply).workers t).handoffs = [reply] := by
  intro w
  have hsole : AtMostOneErrand w.desk t := by
    refine run_desks (P := (AtMostOneErrand · t)) (fun u u' _ => ?_)
      (fun hhale hmoves h => h.step (hmoves.act.traffic (hhale _)) hmoves.desks) es
    rw [init_errands, init_errands]
    exact Nat.zero_le _
  refine ⟨hsole, fun v reply hphase => ?_⟩
  have hone := (w.desk t).pending_le
  have hhand : 1 ≤ (w.desk v).errands t := by
    simp [errands, desk, CrewWorker.desk, hphase, CrewPhase.errands]
  have hempty : (w.workers t).handoffs.length = 0 := by
    have hboth : _ + _ + (w.workers t).handoffs.length ≤ _ := hsole v (v + 1) (by omega)
    omega
  rw [pushHandoff, if_pos (by rw [hempty]; decide), setWorker]
  simp [List.length_eq_zero_iff.mp hempty]

theorem shipped_tasks_eligible (lead count taskCapacity : Nat) (es : List CrewEvent) (u : Nat) :
    ((Runs.run step (init lead count taskCapacity) es).desk u).Ships := by
  refine run_desks (P := fun desks => ∀ u, (desks u).Ships) (fun u => ⟨?_, ?_⟩) ?_ es u
  · intro reply hreply
    cases hreply
  · intro thief reply hphase
    have hnone := init_errands lead count taskCapacity u thief
    rw [errands, hphase, CrewPhase.errands, if_pos rfl] at hnone
    omega
  · intro w w' e v desk letter hhale hmoves h
    refine hmoves.forall h ⟨fun reply hreply => (h v).1 reply (hmoves.act.handoffs_subset hreply), ?_⟩ ?_
    · intro thief reply hphase
      rcases hmoves.act.replying hphase with hold | ⟨request, rfl⟩
      · exact (h v).2 thief reply hold
      · exact serve_eligible (wf_of_hale hhale v) request
    · intro u desk' hdesk
      refine ⟨fun reply hreply => ?_, by rw [desk'.deliver_view]; exact hdesk.2⟩
      rcases mem_handoffs_deliver hreply with hold | hnew
      · exact hdesk.1 reply hold
      · exact (h v).2 u reply (hmoves.act.handoff_sent hnew)

end CrewWorld

end Kwokka
