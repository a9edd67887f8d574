import Kwokka.BlockOn
import Kwokka.MpscQueue

/-! When the unbracketed park of an affine root loses a wake: exactly when an entry
is published while the loop has nothing to do. -/

namespace Kwokka

open Runs

namespace Shard

theorem modify_timers (shard : Shard) (key : SlabKey) (f : TaskHeader → TaskHeader) :
    (shard.modify key f).timers = shard.timers := by
  unfold modify
  split <;> rfl

theorem wakeLocal_timers (shard : Shard) (ref : TaskRef) :
    (shard.wakeLocal ref).timers = shard.timers := by
  unfold wakeLocal
  split
  · split
    · simp only [enqueue, setState, modify_timers]
    · rfl
  · rfl

theorem advanceTo_of_idle {shard : Shard} {now : Nat} (h : (shard.advanceTo now).1 = false) :
    (shard.advanceTo now).2 = shard := by
  simp only [advanceTo] at h ⊢
  have hdue : shard.timers.takeWhile (fun timer => decide (timer.1 ≤ now)) = [] := by simpa using h
  have hrest : shard.timers.dropWhile (fun timer => decide (timer.1 ≤ now)) = shard.timers := by
    have := shard.timers.takeWhile_append_dropWhile (p := fun timer => decide (timer.1 ≤ now))
    rwa [hdue, List.nil_append] at this
  rw [hdue, hrest]
  rfl

theorem register_timers {shard : Shard} (ref : TaskRef) (deadline : Nat) (h : shard.timers ≠ []) :
    (shard.register ref deadline).timers ≠ [] := by
  unfold register
  split
  · intro hnil
    have := congrArg List.length hnil
    rw [List.orderedInsert_length] at this
    cases this
  · exact h

theorem drainTimerRequests_timers {shard : Shard} (now : Nat) (h : shard.timers ≠ []) :
    (shard.drainTimerRequests now).timers ≠ [] := by
  unfold drainTimerRequests
  generalize shard.timerRequests = requests
  have hstart : ({ shard with timerRequests := [] } : Shard).timers ≠ [] := h
  generalize ({ shard with timerRequests := [] } : Shard) = s at hstart
  induction requests generalizing s with
  | nil => exact hstart
  | cons request requests ih => exact ih _ (register_timers _ _ hstart)

end Shard

def PushState.isPublishing {α : Type*} : PushState α → Bool
  | .publishing _ => true
  | _ => false

def PopState.isLooking {α : Type*} : PopState α → Bool
  | .looking _ => true
  | _ => false

@[simp]
def LoopState.isIdle : LoopState → Bool
  | .advancing | .ticking _ false | .arming false | .spawning false | .reaping false
  | .passed false | .blocked => true
  | _ => false

@[simp]
def LoopState.isBeforePolls : LoopState → Bool
  | .advancing | .ticking _ _ => true
  | _ => false

namespace MpscWorld

variable {α : Type*} {N : Nat} {w : MpscWorld α}

def IsDelivered (w : MpscWorld α) (c : PushItem α) : Prop := (c.producer, c.call) ∈ w.accepted

instance (w : MpscWorld α) (c : PushItem α) : Decidable (w.IsDelivered c) :=
  inferInstanceAs (Decidable (_ ∈ _))

def HoldsDelivered (w : MpscWorld α) : Prop := ∃ c ∈ w.claims.drop w.freed, w.IsDelivered c

instance (w : MpscWorld α) : Decidable w.HoldsDelivered :=
  inferInstanceAs (Decidable (∃ _ ∈ _, _))

def frontPending (w : MpscWorld α) : Bool := (w.claims[w.freed]?).any fun c => !decide (w.IsDelivered c)

theorem not_holdsDelivered_produce (h : w.Safe N) {p : Nat} {b : Bool}
    (hpub : (w.producers p).isPublishing = false) (hnone : ¬ w.HoldsDelivered) :
    ¬ (w.step N (.produce p b)).HoldsDelivered := by
  have heff := produce_effect N w p b
  change ¬ (w.produce N p b).HoldsDelivered
  generalize w.produce N p b = w' at heff
  cases heff with
  | claim hp =>
    rintro ⟨c, hc, hin⟩
    have hle := h.positions.le
    simp only [List.drop_append_of_le_length hle, List.mem_append, List.mem_singleton] at hc
    rcases hc with hc | rfl
    · exact hnone ⟨c, hc, hin⟩
    · obtain ⟨⟨c, hc, hid⟩, -⟩ := (h.history.accepted _).mp hin
      obtain ⟨hprod, hcall⟩ := Prod.mk.inj hid
      have hlt := h.history.seeking p (by rw [hp]; rfl) c hc hprod
      exact absurd hcall (Nat.ne_of_lt hlt)
  | publish hp =>
    rw [hp] at hpub
    cases hpub
  | _ => exact hnone

theorem Positions.frontPending_of_none (h : w.Safe N) (hN : IsCapacity N)
    (hnone : (w.ring.popStep N w.consumer).2.2 = some none) :
    w.consumer.isLooking = true ∧ (w.step N .consume).claims = w.claims ∧
      (w.step N .consume).freed = w.freed ∧ (w.step N .consume).accepted = w.accepted ∧
      (w.claims.drop w.freed = [] ∨ w.frontPending = true) := by
  have hcons := h.positions.consumer
  cases hc : w.consumer with
  | looking =>
    simp only [ConsumerAt, hc] at hcons
    rw [hc, MpscRing.popStep] at hnone
    split at hnone
    · next hgap =>
      rw [hcons.2] at hgap
      refine ⟨rfl, rfl, by simp only [step, MpscWorld.observe, consume, hc], rfl, ?_⟩
      cases hcl : w.claims[w.freed]? with
      | none => exact .inl (List.drop_eq_nil_of_le (List.getElem?_eq_none_iff.mp hcl))
      | some c =>
        have hpend := h.positions.unpublished_of_empty hN hgap c hcl
        have hnot : ¬ w.IsDelivered c := by
          intro hin
          rcases ((h.history.accepted _).mp hin).2 with howned | hcall
          · rw [hpend.owned] at howned
            cases howned
          · have := hpend.2.1
            simp only [lastCall] at hcall
            omega
        refine .inr ?_
        simp [frontPending, hcl, hnot]
    · cases hnone
  | _ => simp [hc, MpscRing.popStep] at hnone

end MpscWorld

namespace BlockOnWorld

variable {w : BlockOnWorld}

def HasReason (w : BlockOnWorld) : Prop := w.shard.timers ≠ [] ∨ w.completions ≠ []

def IsDrained (w : BlockOnWorld) : Prop := ∀ ref ∈ w.shard.runQueue, w.shard.header ref.key = none

def IsIdle (w : BlockOnWorld) : Prop :=
  w.worker.isIdle = true ∧ (w.worker.isBeforePolls = true → w.IsDrained)

/-- No wake is published while the loop is idle, unless a timer or a completion is there to end
the park; and no pop that answers `None` before such a park passes over a published entry. -/
def Undisturbed (w : BlockOnWorld) : BlockOnEvent → Prop
  | .wakeStep p isSpurious =>
    w.inbox.Unlapped (.produce p isSpurious) ∧
      (w.IsIdle → (w.inbox.producers p).isPublishing = true → w.HasReason)
  | .work =>
    w.worker = .draining → w.inbox.consumer.isLooking = true → w.IsDrained →
      w.inbox.frontPending = true → w.inbox.HoldsDelivered → w.HasReason
  | _ => True

/-- The wake call that pushed the entry has returned, its signal step included. -/
def IsReturned (w : BlockOnWorld) (c : PushItem TaskRef) : Prop :=
  w.inbox.IsDelivered c ∧ (w.signals c.producer = .idle ∨ c.call ≠ w.inbox.lastCall c.producer)

/-- The worker sleeps with nothing to end its park, and its inbox holds a wake that was called. -/
structure Stranded (w : BlockOnWorld) : Prop where
  blocked : w.worker = .blocked
  unsignalled : w.isSignalled = false
  noTimer : w.shard.timers = []
  noCompletion : w.completions = []
  wake : ∃ c ∈ w.inbox.claims.drop w.inbox.freed, w.IsReturned c

structure Quiet (w : BlockOnWorld) : Prop where
  safe : w.inbox.Safe ParkRing.wake.capacity
  counted : ∀ n, w.worker = .ticking n false → w.shard.runQueue.length ≤ n
  idle : w.IsIdle → w.HasReason ∨ ¬ w.inbox.HoldsDelivered

section

variable (h : w.Quiet)

include h

theorem Quiet.not_stranded : ¬ w.Stranded := by
  intro hst
  obtain ⟨c, hc, hret⟩ := hst.wake
  rcases h.idle (by simp [IsIdle, hst.blocked]) with (htimer | hpost) | hnone
  · exact htimer hst.noTimer
  · exact hpost hst.noCompletion
  · exact hnone ⟨c, hc, hret.1⟩

theorem Quiet.of_same {w' : BlockOnWorld} (hsafe : w'.inbox.Safe ParkRing.wake.capacity)
    (hinbox : w'.inbox.claims = w.inbox.claims ∧ w'.inbox.freed = w.inbox.freed ∧
      w'.inbox.accepted = w.inbox.accepted)
    (hcount : ∀ n, w'.worker = .ticking n false → w'.shard.runQueue.length ≤ n)
    (hidle : w'.IsIdle → w.IsIdle) (hreason : w.HasReason → w'.HasReason) : w'.Quiet := by
  obtain ⟨hclaims, hfreed, hacc⟩ := hinbox
  refine ⟨hsafe, hcount, fun hi => ?_⟩
  rcases h.idle (hidle hi) with hr | hnone
  · exact .inl (hreason hr)
  · refine .inr fun hheld => hnone ?_
    simpa only [MpscWorld.HoldsDelivered, MpscWorld.IsDelivered, hclaims, hfreed, hacc] using hheld

theorem Quiet.wake (p : Nat) (ref : TaskRef) : (w.step (.wake p ref)).Quiet := by
  simp only [step]
  split
  · have hsafe : (w.inbox.step ParkRing.wake.capacity (.call p ref)).Safe ParkRing.wake.capacity :=
      h.safe.step ParkRing.wake.isCapacity trivial
    refine h.of_same hsafe ?_ h.counted (fun hi => hi) (fun hr => hr)
    simp only [stepInbox, MpscWorld.step]
    split <;> exact ⟨rfl, rfl, rfl⟩
  · exact h

theorem Quiet.wakeStep {p : Nat} {b : Bool} (hu : w.Undisturbed (.wakeStep p b)) :
    (w.step (.wakeStep p b)).Quiet := by
  obtain ⟨hlap, hpub⟩ := hu
  have hsafe : (w.inbox.step ParkRing.wake.capacity (.produce p b)).Safe ParkRing.wake.capacity :=
    h.safe.step ParkRing.wake.isCapacity hlap
  refine ⟨hsafe, h.counted, fun hi => ?_⟩
  cases hp : (w.inbox.producers p).isPublishing with
  | true => exact .inl (hpub hi hp)
  | false =>
    rcases h.idle hi with hr | hnone
    · exact .inl hr
    · exact .inr (MpscWorld.not_holdsDelivered_produce h.safe hp hnone)

theorem Quiet.signal (p : Nat) : (w.step (.signal p)).Quiet := by
  simp only [step]
  split
  · exact h
  · exact h.of_same h.safe ⟨rfl, rfl, rfl⟩ h.counted (fun hi => hi) (fun hr => hr)
  · exact h.of_same h.safe ⟨rfl, rfl, rfl⟩ h.counted (fun hi => hi) (fun hr => hr)

theorem Quiet.local {shard : Shard} {worker : LoopState}
    (hcount : ∀ n, worker = .ticking n false → shard.runQueue.length ≤ n)
    (hidle : ({ w with shard, worker } : BlockOnWorld).IsIdle → w.IsIdle)
    (htimers : w.shard.timers ≠ [] → shard.timers ≠ []) :
    ({ w with shard, worker } : BlockOnWorld).Quiet :=
  h.of_same h.safe ⟨rfl, rfl, rfl⟩ hcount hidle (Or.imp htimers id)

theorem Quiet.drainWakes (hw : w.worker = .draining) (hu : w.Undisturbed .work) :
    w.drainWakes.Quiet := by
  have hbusy : ∀ {w' : BlockOnWorld}, w'.worker = .draining → ¬ w'.IsIdle := by
    intro w' hw' hi
    simp [IsIdle, hw'] at hi
  have hcall : (w.inbox.step ParkRing.wake.capacity .callPop).Safe ParkRing.wake.capacity :=
    h.safe.step ParkRing.wake.isCapacity trivial
  have hpop : (w.inbox.step ParkRing.wake.capacity .consume).Safe ParkRing.wake.capacity :=
    h.safe.step ParkRing.wake.isCapacity trivial
  have hdrain : ∀ {w' : BlockOnWorld}, w'.worker = .draining →
      w'.inbox.Safe ParkRing.wake.capacity → w'.Quiet := by
    intro w' hw' hsafe
    refine ⟨hsafe, ?_, fun hi => absurd hi (hbusy hw')⟩
    simp [hw']
  unfold BlockOnWorld.drainWakes
  split
  · exact hdrain hw hcall
  · split
    · exact hdrain hw hpop
    · next hnone =>
      obtain ⟨hlook, hclaims, hfreed, hacc, hfront⟩ :=
        MpscWorld.Positions.frontPending_of_none h.safe ParkRing.wake.isCapacity hnone
      refine ⟨hpop, by simp, fun hi => ?_⟩
      by_cases hheld : w.inbox.HoldsDelivered
      · rcases hfront with hnil | hpend
        · obtain ⟨c, hc, -⟩ := hheld
          rw [hnil] at hc
          cases hc
        · exact .inl (hu hw hlook (hi.2 rfl) hpend hheld)
      · refine .inr fun hheld' => hheld ?_
        simpa only [stepInbox, MpscWorld.HoldsDelivered, MpscWorld.IsDelivered, hclaims, hfreed,
          hacc] using hheld'
    · exact hdrain hw hpop

theorem Quiet.tickOne {remaining : Nat} {hasWorked : Bool}
    (hw : w.worker = .ticking (remaining + 1) hasWorked) : (w.tickOne remaining hasWorked).Quiet := by
  have hcount : hasWorked = false → w.shard.runQueue.length ≤ remaining + 1 := by
    rintro rfl
    exact h.counted _ hw
  unfold BlockOnWorld.tickOne Shard.startPoll
  cases hq : w.shard.runQueue with
  | nil =>
    refine h.local (by simp) ?_ (fun ht => ht)
    intro hi
    cases hasWorked with
    | true => simp [IsIdle] at hi
    | false => simp [IsIdle, hw, IsDrained, hq]
  | cons ref rest =>
    cases hh : w.shard.header ref.key with
    | none =>
      have hstale : ({ w.shard with runQueue := rest } : Shard).header ref.key = none := hh
      simp only [hstale]
      refine h.local ?_ ?_ (fun ht => ht)
      · rintro n ⟨⟩
        have := hcount rfl
        rw [hq, List.length_cons] at this
        exact Nat.le_of_succ_le_succ this
      · intro hi
        cases hasWorked with
        | true => simp [IsIdle] at hi
        | false =>
          refine ⟨by simp [hw], fun _ => ?_⟩
          simp only [IsDrained, hq, List.mem_cons, forall_eq_or_imp]
          exact ⟨hh, hi.2 rfl⟩
    | some header =>
      have hlive : ({ w.shard with runQueue := rest } : Shard).header ref.key = some header := hh
      simp only [hlive]
      cases header.state.tryStartPoll with
      | error =>
        refine h.local (by simp) ?_ (fun ht => ht)
        simp [IsIdle]
      | ok =>
        refine h.local (by simp) ?_ ?_
        · simp [IsIdle]
        · intro ht
          rwa [Shard.modify_timers]

theorem Quiet.drainSpawn {hasWorked : Bool} (hw : w.worker = .spawning hasWorked) :
    (w.drainSpawn hasWorked).Quiet := by
  have hidle : ∀ {w' : BlockOnWorld}, w'.worker = .spawning hasWorked ∨ w'.worker = .reaping hasWorked →
      w'.IsIdle → w.IsIdle := by
    intro w' hw' hi
    cases hasWorked with
    | true => rcases hw' with hw' | hw' <;> simp [IsIdle, hw'] at hi
    | false => simp [IsIdle, hw]
  unfold BlockOnWorld.drainSpawn
  split
  · exact h.local (by simp) (hidle (.inr rfl)) (fun ht => ht)
  · split
    · refine h.of_same h.safe ⟨rfl, rfl, rfl⟩ (by simp [hw]) (hidle (.inl hw)) (Or.imp ?_ id)
      intro ht
      rwa [Shard.wakeLocal_timers]
    · exact h.local (by simp) (by simp [IsIdle]) (fun ht => ht)

theorem Quiet.work (hu : w.Undisturbed .work) : w.work.Quiet := by
  cases hw : w.worker with
  | completing =>
    simp only [BlockOnWorld.work, hw]
    refine ⟨h.safe, by simp [drainCompletions], fun hi => ?_⟩
    simp [drainCompletions, IsIdle] at hi
  | draining =>
    simp only [BlockOnWorld.work, hw]
    exact h.drainWakes hw hu
  | advancing =>
    simp only [BlockOnWorld.work, hw]
    cases hwoken : (w.shard.advanceTo w.clock).1 with
    | true =>
      refine ⟨h.safe, by simp, ?_⟩
      simp [IsIdle]
    | false =>
      rw [Shard.advanceTo_of_idle hwoken]
      refine h.local ?_ ?_ (fun ht => ht)
      · rintro n ⟨⟩
        exact Nat.le_refl _
      · intro hi
        exact ⟨by simp [hw], fun _ => hi.2 rfl⟩
  | ticking remaining hasWorked =>
    cases remaining with
    | zero =>
      simp only [BlockOnWorld.work, hw]
      refine h.local (by simp) ?_ (fun ht => ht)
      intro hi
      cases hasWorked with
      | true => simp [IsIdle] at hi
      | false =>
        have hnil : w.shard.runQueue = [] := List.length_eq_zero_iff.mp (Nat.le_zero.mp (h.counted 0 hw))
        simp [IsIdle, hw, IsDrained, hnil]
    | succ =>
      simp only [BlockOnWorld.work, hw]
      exact h.tickOne hw
  | arming hasWorked =>
    simp only [BlockOnWorld.work, hw]
    refine h.local (by simp) ?_ (Shard.drainTimerRequests_timers w.clock)
    cases hasWorked <;> simp [IsIdle, hw]
  | spawning =>
    simp only [BlockOnWorld.work, hw]
    exact h.drainSpawn hw
  | reaping hasWorked =>
    simp only [BlockOnWorld.work, hw]
    refine h.local (by simp) ?_ (fun ht => ht)
    cases hasWorked <;> simp [IsIdle, hw]
  | passed hasWorked =>
    simp only [BlockOnWorld.work, hw, endPass]
    split
    · exact h.local (by simp) (by simp [IsIdle]) (fun ht => ht)
    · refine h.local ?_ ?_ (fun ht => ht)
      · cases hasWorked <;> simp
      · cases hasWorked <;> simp [IsIdle, hw]
  | _ => simpa only [BlockOnWorld.work, hw] using h

theorem Quiet.reap (key : SlabKey) : (w.step (.reap key)).Quiet := by
  simp only [step, reapKey]
  split
  · next hasWorked header hw _ =>
    split
    · split
      · refine h.of_same h.safe ⟨rfl, rfl, rfl⟩ (by simp [hw]) ?_ (fun hr => hr)
        cases hasWorked <;> simp [IsIdle, hw]
      · exact h
    · exact h
  · exact h

theorem Quiet.of_polling {shard : Shard} {ref : TaskRef} {remaining : Nat}
    (hw : w.worker = .polling ref remaining) : ({ w with shard } : BlockOnWorld).Quiet := by
  refine ⟨h.safe, by simp [hw], ?_⟩
  simp [IsIdle, hw]

theorem Quiet.step {e : BlockOnEvent} (hu : w.Undisturbed e) : (w.step e).Quiet := by
  cases e with
  | wake p ref => exact h.wake p ref
  | wakeStep => exact h.wakeStep hu
  | signal p => exact h.signal p
  | post =>
    refine h.of_same h.safe ⟨rfl, rfl, rfl⟩ h.counted (fun hi => hi) (Or.imp id ?_)
    simp [BlockOnWorld.step]
  | elapse => exact h.of_same h.safe ⟨rfl, rfl, rfl⟩ h.counted (fun hi => hi) (fun hr => hr)
  | cancelChild =>
    simp only [BlockOnWorld.step]
    split
    · next hw =>
      split
      · exact h
      · exact h.of_polling hw
    · exact h
  | blockOn =>
    simp only [BlockOnWorld.step, BlockOnWorld.blockOn]
    split
    · split
      · exact ⟨h.safe, by simp, by simp [IsIdle]⟩
      · exact h
    · exact h
  | finishPoll =>
    simp only [BlockOnWorld.step]
    split
    · split
      · refine ⟨h.safe, by simp, ?_⟩
        simp [IsIdle]
      · exact h
    · exact h
  | reap key => exact h.reap key
  | work => exact h.work hu
  | unpark =>
    simp only [BlockOnWorld.step]
    split
    · exact h.local (by simp) (by simp [IsIdle]) (fun ht => ht)
    · exact h
  | _ =>
    simp only [BlockOnWorld.step]
    split
    · next hw => exact h.of_polling hw
    · exact h

end

theorem init_quiet (isPublished : Bool) (shard : Shard) (root : SlabKey) :
    (init isPublished shard root).Quiet := by
  refine ⟨MpscWorld.init_safe ParkRing.wake.isCapacity, by simp [init], fun hi => ?_⟩
  simp [init, IsIdle] at hi

/-- While no wake is published behind the loop's back, none is lost to its park. -/
theorem blockOn_not_stranded (isPublished : Bool) (shard : Shard) (root : SlabKey)
    {es : List BlockOnEvent} (hes : Meets step Undisturbed (init isPublished shard root) es) :
    ¬ (run step (init isPublished shard root) es).Stranded := by
  have h : (run step (init isPublished shard root) es).Quiet :=
    hes.invariant (fun _ _ h hu => h.step hu) (init_quiet isPublished shard root)
  exact h.not_stranded

instance (w : BlockOnWorld) : Decidable w.HasReason := inferInstanceAs (Decidable (_ ∨ _))

instance (w : BlockOnWorld) : Decidable w.IsDrained := inferInstanceAs (Decidable (∀ _ ∈ _, _))

instance (w : BlockOnWorld) : Decidable w.IsIdle := inferInstanceAs (Decidable (_ ∧ _))

instance (w : BlockOnWorld) : ∀ e, Decidable (w.Undisturbed e)
  | .wakeStep p isSpurious =>
    inferInstanceAs (Decidable (w.inbox.Within (2 ^ 64 - 1) (.produce p isSpurious) ∧ _))
  | .work => inferInstanceAs (Decidable (_ → _))
  | .wake _ _ | .signal _ | .post _ | .elapse _ | .requestTimer _ | .pushSpawn | .cancelChild _
  | .finishPoll _ _ | .reap _ | .unpark | .blockOn => inferInstanceAs (Decidable True)

def soloShard : Shard where
  id := 0
  tasks := ⟨[⟨1, freeSentinel, some (.new ⟨0, 0⟩)⟩], freeSentinel, 1⟩
  runQueue := []
  timers := []
  timerCapacity := 1
  timerRequests := []
  spawnInbox := []
  pipSeq := 1

def soloRoot : TaskRef := ⟨0, 0, 1⟩

/-- The pass up to the poll of the root, and a whole wake call from thread 1. -/
def firstPoll : List BlockOnEvent := List.replicate 6 .work

def wakeCall : List BlockOnEvent :=
  .wake 1 soloRoot :: List.replicate 5 (.wakeStep 1 false) ++ [.signal 1]

/-- A wake during the poll is in time: the next pass drains it and polls the root again. The root
returns from that poll, and a second call enters the loop with the inbox as it is. -/
theorem blockOn_not_stranded_in_poll :
    ¬ (run step (init false soloShard soloRoot.key) (firstPoll ++ wakeCall ++
      [.finishPoll false 0] ++ List.replicate 17 .work ++ wakeCall ++ [.finishPoll true 0] ++
        List.replicate 5 .work ++ [.blockOn] ++ List.replicate 12 .work)).Stranded :=
  blockOn_not_stranded false soloShard soloRoot.key (by decide +kernel)

/-- The root suspends, the next pass pops `None`, and thread 1 wakes the root before the park. -/
def lateWake : List BlockOnEvent :=
  firstPoll ++ [.finishPoll false 0] ++ List.replicate 9 .work ++ wakeCall ++ List.replicate 6 .work

theorem lateWake_stranded : ¬ ∀ isPublished shard root
    es, ¬ (run step (init isPublished shard root) es).Stranded := by
  intro hclaim
  refine hclaim false soloShard soloRoot.key lateWake ⟨?_, ?_, ?_, ?_, ⟨1, 0, soloRoot⟩, ?_, ?_, ?_⟩
  · decide +kernel
  · decide +kernel
  · decide +kernel
  · decide +kernel
  · decide +kernel
  · decide +kernel
  · exact .inl (by decide +kernel)

end BlockOnWorld

end Kwokka
