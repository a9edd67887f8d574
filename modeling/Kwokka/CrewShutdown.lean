import Kwokka.Runs
import Mathlib.Data.List.Nodup

/-! The end of a stealing runtime: each worker drains its own rings once on its way
out, the siblings before the lead. The rings belong to the process, so what is left in
them is there for the next runtime under the same ids. Which messages a pass sends is left
open. -/

namespace Kwokka

open Runs Function

inductive RingKind
  | wakes
  | requests
  | handoffs
  | notes
deriving DecidableEq, Repr

def RingKind.capacity : RingKind → Nat
  | wakes => 256
  | requests => 8
  | handoffs => 2
  | notes => 256

/-- A slot a producer claimed in a ring. `runtime` is the runtime whose message it is, and `body`
numbers the task body that a delivery carries. -/
structure Posted where
  runtime : Nat
  body : Option Nat
  isPublished : Bool
deriving DecidableEq, Repr

inductive ExitPhase
  | running
  | draining (kind : RingKind)
  | exited
deriving DecidableEq, Repr

/-- `block` is the first id and the size of the runtime that is live. -/
structure ShutdownWorld where
  block : Option (Nat × Nat)
  runtime : Nat
  isShutdown : Bool
  phases : Nat → ExitPhase
  rings : Nat → RingKind → List Posted
  shipped : Nat
  received : List Nat
  dropped : List Nat

inductive ShutdownEvent
  | build (lead count : Nat)
  | raiseShutdown
  /-- A worker claims a slot in a ring of another, `isDelivery` for a reply with a body. -/
  | post (sender target : Nat) (kind : RingKind) (isDelivery : Bool)
  /-- A waker of a task of `runtime`, on any thread. -/
  | wake (target runtime : Nat)
  | publish (id : Nat) (kind : RingKind) (i : Nat)
  | take (id : Nat) (kind : RingKind)
  | stop (id : Nat)
  | drain (id : Nat)
  | release
deriving DecidableEq, Repr

namespace ShutdownWorld

def init : ShutdownWorld := ⟨none, 0, false, fun _ => .running, fun _ _ => [], 0, [], []⟩

def isMember (w : ShutdownWorld) (id : Nat) : Bool :=
  w.block.any fun (lead, count) => lead ≤ id && id < lead + count

def isLead (w : ShutdownWorld) (id : Nat) : Bool := w.block.any fun (lead, _) => lead == id

def isRunning (w : ShutdownWorld) (id : Nat) : Bool :=
  w.isMember id && w.phases id == .running && !(w.isLead id && w.isShutdown)

def firstDrain (isLead : Bool) : RingKind := if isLead then .wakes else .handoffs

def nextDrain (isLead : Bool) : RingKind → Option RingKind
  | .wakes => if isLead then some .handoffs else none
  | .handoffs => some .requests
  | .requests => if isLead then none else some .wakes
  | .notes => none

def setRing (w : ShutdownWorld) (id : Nat) (kind : RingKind) (ring : List Posted) : ShutdownWorld :=
  { w with rings := update w.rings id (update (w.rings id) kind ring) }

def setPhase (w : ShutdownWorld) (id : Nat) (phase : ExitPhase) : ShutdownWorld :=
  { w with phases := update w.phases id phase }

/-- A claim; a body that a full ring refuses is dropped by its sender. -/
def push (w : ShutdownWorld) (target : Nat) (kind : RingKind) (runtime : Nat) (isDelivery : Bool) :
    ShutdownWorld :=
  let body := if isDelivery && kind == .handoffs then some w.shipped else none
  let sent := { w with shipped := w.shipped + body.toList.length }
  if (w.rings target kind).length < kind.capacity then
    sent.setRing target kind (w.rings target kind ++ [⟨runtime, body, false⟩])
  else { sent with dropped := w.dropped ++ body.toList }

def publish (w : ShutdownWorld) (id : Nat) (kind : RingKind) (i : Nat) : ShutdownWorld :=
  w.setRing id kind ((w.rings id kind).modify i fun posted => { posted with isPublished := true })

/-- A pop finds nothing while the push at the front is not finished. -/
def pop (w : ShutdownWorld) (id : Nat) (kind : RingKind) : Option (Posted × ShutdownWorld) :=
  match w.rings id kind with
  | posted :: rest => if posted.isPublished then some (posted, w.setRing id kind rest) else none
  | [] => none

def take (w : ShutdownWorld) (id : Nat) (kind : RingKind) : ShutdownWorld :=
  match w.pop id kind with
  | some (posted, next) => { next with received := next.received ++ posted.body.toList }
  | none => w

def areSiblingsExited (w : ShutdownWorld) : Bool :=
  w.block.any fun (lead, count) =>
    (List.range count).all fun i => i == 0 || w.phases (lead + i) == .exited

def stop (w : ShutdownWorld) (id : Nat) : ShutdownWorld :=
  if w.isShutdown && w.isMember id && w.phases id == .running &&
      (!w.isLead id || w.areSiblingsExited) then
    w.setPhase id (.draining (firstDrain (w.isLead id)))
  else w

def drain (w : ShutdownWorld) (id : Nat) : ShutdownWorld :=
  match w.phases id with
  | .draining kind =>
    match w.pop id kind with
    | some (posted, next) => { next with dropped := next.dropped ++ posted.body.toList }
    | none =>
      w.setPhase id ((nextDrain (w.isLead id) kind).elim .exited .draining)
  | .running | .exited => w

def release (w : ShutdownWorld) : ShutdownWorld :=
  match w.block with
  | some (lead, _) =>
    if w.phases lead = .exited then
      { w with block := none, runtime := w.runtime + 1, isShutdown := false }
    else w
  | none => w

def step (w : ShutdownWorld) : ShutdownEvent → ShutdownWorld
  | .build lead count =>
    if w.block = none ∧ 0 < count then
      { w with block := some (lead, count), phases := fun _ => .running }
    else w
  | .raiseShutdown => { w with isShutdown := w.isShutdown || w.block.isSome }
  | .post sender target kind isDelivery =>
    if w.isRunning sender && w.isMember target then w.push target kind w.runtime isDelivery else w
  | .wake target runtime => w.push target .wakes runtime false
  | .publish id kind i => w.publish id kind i
  | .take id kind => if w.isRunning id then w.take id kind else w
  | .stop id => w.stop id
  | .drain id => w.drain id
  | .release => w.release

/-- With the ids released the rings are empty and every body that was not received has been dropped
once; while a runtime is live, no ring holds a message of an earlier one. -/
structure Clean (w : ShutdownWorld) : Prop where
  empty : w.block = none → ∀ id kind, kind ≠ .notes → w.rings id kind = []
  bodies : w.block = none → ∀ n < w.shipped, n ∉ w.received → w.dropped.count n = 1
  own : ∀ id kind, ∀ posted ∈ w.rings id kind, posted.runtime = w.runtime

def isOpen (w : ShutdownWorld) (id : Nat) (kind : RingKind) : Bool :=
  w.isMember id &&
    match w.phases id with
    | .running => true
    | .draining current =>
      current == kind || nextDrain (w.isLead id) current == some kind ||
        ((nextDrain (w.isLead id) current).bind (nextDrain (w.isLead id))) == some kind
    | .exited => false

/-- A message reaches a ring before its owner has drained it, no push is in progress on the ring
when a drain finds nothing to pop, and no settled note is left when a worker stops. -/
def Orderly (w : ShutdownWorld) : ShutdownEvent → Prop
  | .post sender target kind _ =>
    w.isRunning sender = true ∧ w.isMember target = true → w.isOpen target kind = true
  | .wake target runtime => w.isOpen target .wakes = true ∧ runtime = w.runtime
  | .stop id => w.rings id .notes = []
  | .drain id =>
    match w.phases id with
    | .draining kind =>
      w.pop id kind = none → ∀ posted ∈ w.rings id kind, posted.isPublished = true
    | _ => True
  | _ => True

instance (w : ShutdownWorld) (e : ShutdownEvent) : Decidable (w.Orderly e) :=
  match e with
  | .post .. => inferInstanceAs (Decidable (_ ∧ _ → _))
  | .wake .. => inferInstanceAs (Decidable (_ ∧ _))
  | .stop _ => inferInstanceAs (Decidable (_ = []))
  | .drain id =>
    decidable_of_iff ((match w.phases id with
      | .draining kind => (w.pop id kind).isSome || (w.rings id kind).all (·.isPublished)
      | _ => true) = true) (by
        unfold Orderly
        cases h : w.phases id <;> simp [h, Option.isSome_iff_ne_none, or_iff_not_imp_left])
  | .build _ _ | .raiseShutdown | .publish _ _ _ | .take _ _ | .release =>
    inferInstanceAs (Decidable True)

inductive Place
  | ring (id : Nat)
  | received
  | dropped
deriving DecidableEq

structure Freight (lists : Place → List Nat) (shipped : Nat) (place : Nat → Place) : Prop where
  mem : ∀ p n, n ∈ lists p ↔ n < shipped ∧ place n = p
  nodup : ∀ p, (lists p).Nodup

section Freight

variable {lists : Place → List Nat} {shipped n : Nat} {rest : List Nat} {place : Nat → Place}
  {p q : Place}

theorem Freight.send (h : Freight lists shipped place) (p : Place) :
    Freight (update lists p (lists p ++ [shipped])) (shipped + 1)
      (update place shipped p) := by
  have hfresh : ∀ q, shipped ∉ lists q := fun q hmem => absurd ((h.mem q shipped).mp hmem).1 (by omega)
  constructor
  · intro q m
    by_cases hm : m = shipped
    · subst hm
      by_cases hq : q = p
      · subst hq
        simp
      · simp [hq, hfresh, Ne.symm hq]
    · have hmem : m ∈ update lists p (lists p ++ [shipped]) q ↔ m ∈ lists q := by
        by_cases hq : q = p
        · subst hq
          simp [hm]
        · simp [hq]
      have hlt : m < shipped ↔ m < shipped + 1 := by omega
      rw [hmem, h.mem, update_of_ne hm, hlt]
  · intro q
    by_cases hq : q = p
    · subst hq
      rw [update_self]
      exact (h.nodup q).append (List.nodup_singleton _) (by simp [hfresh])
    · rw [update_of_ne hq]
      exact h.nodup q

theorem Freight.move (h : Freight lists shipped place) (hp : lists p = n :: rest) (hne : p ≠ q) :
    Freight (update (update lists p rest) q (lists q ++ [n])) shipped
      (update place n q) := by
  obtain ⟨hlt, hplace⟩ := (h.mem p n).mp (by rw [hp]; exact List.mem_cons_self)
  have hnodup := h.nodup p
  rw [hp, List.nodup_cons] at hnodup
  have hnot : ∀ r, r ≠ p → n ∉ lists r := by
    intro r hr hmem
    exact hr (((h.mem r n).mp hmem).2.symm.trans hplace)
  constructor
  · intro r m
    by_cases hm : m = n
    · subst hm
      by_cases hr : r = q
      · subst hr
        simp [hlt]
      · by_cases hrp : r = p
        · subst hrp
          simp [hr, hnodup.1, Ne.symm hr]
        · simp [hr, hrp, hnot r hrp, Ne.symm hr]
    · have hmem : m ∈ update (update lists p rest) q (lists q ++ [n]) r ↔
          m ∈ lists r := by
        by_cases hr : r = q
        · subst hr
          simp [hm]
        · by_cases hrp : r = p
          · subst hrp
            simp [hr, hp, hm]
          · simp [hr, hrp]
      rw [hmem, h.mem, update_of_ne hm]
  · intro r
    by_cases hr : r = q
    · subst hr
      rw [update_self]
      exact (h.nodup r).append (List.nodup_singleton _) (by simp [hnot r (Ne.symm hne)])
    · by_cases hrp : r = p
      · subst hrp
        simpa [hr] using hnodup.2
      · simpa [hr, hrp] using h.nodup r

end Freight

variable {w : ShutdownWorld} {e : ShutdownEvent} {id : Nat} {kind : RingKind}

def freight (w : ShutdownWorld) : Place → List Nat
  | .ring id => (w.rings id .handoffs).filterMap (·.body)
  | .received => w.received
  | .dropped => w.dropped

def BodyFits (kind : RingKind) (posted : Posted) : Prop := kind ≠ .handoffs → posted.body = none

structure Kept (w : ShutdownWorld) : Prop where
  closed : ∀ id kind, w.isOpen id kind = false → w.rings id kind = []
  own : ∀ id kind, ∀ posted ∈ w.rings id kind, posted.runtime = w.runtime ∧ BodyFits kind posted
  freight : ∃ place, Freight w.freight w.shipped place
  order : ∀ lead count, w.block = some (lead, count) → w.phases lead ≠ .running →
    ∀ i, 0 < i → i < count → w.phases (lead + i) = .exited

theorem rings_setRing (w : ShutdownWorld) (id : Nat) (kind : RingKind) (ring : List Posted)
    (id' : Nat) (kind' : RingKind) : (w.setRing id kind ring).rings id' kind' =
      if id' = id ∧ kind' = kind then ring else w.rings id' kind' := by
  by_cases hid : id' = id
  · subst hid
    by_cases hk : kind' = kind <;> simp [setRing, hk]
  · simp [setRing, hid]

variable {w' : ShutdownWorld} {posted : Posted}

theorem Kept.ring (h : w.Kept) (id : Nat) (kind : RingKind) (ring : List Posted)
    (hrings : w'.rings = (w.setRing id kind ring).rings)
    (hopen : w.isOpen id kind = false → ring = []) (hblock : w'.block = w.block)
    (hphases : w'.phases = w.phases) (hruntime : w'.runtime = w.runtime)
    (hown : ∀ posted ∈ ring, posted.runtime = w.runtime ∧ BodyFits kind posted)
    (hfreight : ∃ place, Freight w'.freight w'.shipped place) : w'.Kept := by
  have hsame : ∀ id kind, w'.isOpen id kind = w.isOpen id kind := by
    intro id kind
    simp only [isOpen, isMember, isLead, hblock, hphases]
  refine ⟨?_, ?_, hfreight, by rw [hblock, hphases]; exact h.order⟩
  · intro id' kind' hclosed
    rw [hsame] at hclosed
    rw [hrings, rings_setRing]
    split
    case isTrue heq =>
      obtain ⟨rfl, rfl⟩ := heq
      exact hopen hclosed
    case isFalse => exact h.closed id' kind' hclosed
  · intro id' kind' posted hposted
    rw [hruntime]
    rw [hrings, rings_setRing] at hposted
    split at hposted
    case isTrue heq =>
      obtain ⟨rfl, rfl⟩ := heq
      exact hown posted hposted
    case isFalse => exact h.own id' kind' posted hposted

theorem freight_of_bodies {ring : List Posted} (hrings : w'.rings = (w.setRing id kind ring).rings)
    (hbodies : kind = .handoffs → ring.filterMap (·.body) = w.freight (.ring id))
    (hreceived : w'.received = w.received) (hdropped : w'.dropped = w.dropped) :
    w'.freight = w.freight := by
  funext p
  cases p with
  | ring =>
    simp only [freight, hrings, rings_setRing]
    split
    case isTrue heq =>
      obtain ⟨rfl, rfl⟩ := heq
      exact hbodies rfl
    case isFalse => rfl
  | received => exact hreceived
  | dropped => exact hdropped

theorem freight_ring {ring : List Posted} (hrings : w'.rings = (w.setRing id .handoffs ring).rings)
    (id' : Nat) : w'.freight (.ring id') =
      update w.freight (.ring id) (ring.filterMap (·.body)) (.ring id') := by
  simp only [freight, hrings, rings_setRing]
  by_cases hid : id' = id
  · subst hid
    simp
  · simp [hid, freight]

theorem freight_append {n : Nat}
    (hrings : w'.rings = (w.setRing id .handoffs (w.rings id .handoffs ++ [posted])).rings)
    (hbody : posted.body = some n) (hreceived : w'.received = w.received)
    (hdropped : w'.dropped = w.dropped) :
    w'.freight = update w.freight (.ring id) (w.freight (.ring id) ++ [n]) := by
  funext p
  cases p with
  | ring =>
    rw [freight_ring hrings]
    simp [freight, hbody]
  | received => simpa [freight] using hreceived
  | dropped => simpa [freight] using hdropped

theorem freight_pop {rest : List Posted} {n : Nat} {q : Place}
    (hring : w.rings id .handoffs = posted :: rest) (hbody : posted.body = some n)
    (hrings : w'.rings = (w.setRing id .handoffs rest).rings)
    (hq : w'.freight q = w.freight q ++ [n]) (hne : .ring id ≠ q)
    (hother : ∀ p, p ≠ q → (∀ id, p ≠ .ring id) → w'.freight p = w.freight p) :
    w.freight (.ring id) = n :: rest.filterMap (·.body) ∧
      w'.freight = update (update w.freight (.ring id) (rest.filterMap (·.body))) q
        (w.freight q ++ [n]) := by
  refine ⟨by simp [freight, hring, hbody], ?_⟩
  funext p
  by_cases hp : p = q
  · subst hp
    rw [update_self, hq]
  · rw [update_of_ne hp]
    cases p with
    | ring => rw [freight_ring hrings]
    | received => simpa using hother .received hp (by simp)
    | dropped => simpa using hother .dropped hp (by simp)

theorem Kept.push (h : w.Kept) {target : Nat} (hopen : w.isOpen target kind = true) (isDelivery : Bool) :
    (w.push target kind w.runtime isDelivery).Kept := by
  obtain ⟨place, hfreight⟩ := h.freight
  unfold ShutdownWorld.push
  simp only
  by_cases hcarries : isDelivery && kind == .handoffs
  case neg =>
    rw [if_neg hcarries]
    split
    case isFalse =>
      refine ⟨h.closed, h.own, ⟨place, ?_⟩, h.order⟩
      have heq : ({ w with
          shipped := w.shipped + (none : Option Nat).toList.length
          dropped := w.dropped ++ (none : Option Nat).toList } : ShutdownWorld).freight = w.freight := by
        funext p
        cases p <;> simp [ShutdownWorld.freight]
      rw [heq]
      exact hfreight
    case isTrue =>
      refine h.ring target kind _ rfl (fun hclosed => by rw [hopen] at hclosed; cases hclosed)
        rfl rfl rfl ?_ ?_
      · intro posted hposted
        rcases List.mem_append.mp hposted with hold | hnew
        · exact h.own target kind posted hold
        · obtain rfl := List.mem_singleton.mp hnew
          exact ⟨rfl, fun _ => rfl⟩
      · refine ⟨place, ?_⟩
        rw [freight_of_bodies rfl ?_ rfl rfl]
        · exact hfreight
        · rintro rfl
          simp [ShutdownWorld.freight]
  case pos =>
    obtain ⟨-, hkind⟩ : isDelivery = true ∧ kind = .handoffs := by simpa using hcarries
    subst hkind
    rw [if_pos hcarries]
    split
    case isFalse =>
      refine ⟨h.closed, h.own, ⟨update place w.shipped .dropped, ?_⟩, h.order⟩
      have heq : ({ w with
          shipped := w.shipped + (some w.shipped).toList.length
          dropped := w.dropped ++ (some w.shipped).toList } : ShutdownWorld).freight =
          update w.freight .dropped (w.freight .dropped ++ [w.shipped]) := by
        funext p
        cases p <;> simp [ShutdownWorld.freight]
      rw [heq]
      exact hfreight.send .dropped
    case isTrue =>
      refine h.ring target .handoffs _ rfl (fun hclosed => by rw [hopen] at hclosed; cases hclosed)
        rfl rfl rfl ?_ ?_
      · intro posted hposted
        rcases List.mem_append.mp hposted with hold | hnew
        · exact h.own target .handoffs posted hold
        · obtain rfl := List.mem_singleton.mp hnew
          exact ⟨rfl, fun hne => absurd rfl hne⟩
      · refine ⟨update place w.shipped (.ring target), ?_⟩
        rw [freight_append rfl rfl rfl rfl]
        exact hfreight.send (.ring target)

theorem Kept.publish (h : w.Kept) (id : Nat) (kind : RingKind) (i : Nat) :
    (w.publish id kind i).Kept := by
  obtain ⟨place, hfreight⟩ := h.freight
  have hbody : ∀ (ring : List Posted), (ring.modify i fun posted =>
      { posted with isPublished := true }).map (fun posted => (posted.runtime, posted.body)) =
      ring.map fun posted => (posted.runtime, posted.body) := by
    intro ring
    apply List.ext_getElem?
    intro j
    simp only [List.getElem?_map, List.getElem?_modify]
    by_cases hj : i = j
    · cases ring[j]? <;> simp [hj]
    · cases ring[j]? <;> simp [hj]
  have hmem : ∀ posted ∈ ((w.rings id kind).modify i fun posted => { posted with isPublished := true }),
      ∃ old ∈ w.rings id kind, old.runtime = posted.runtime ∧ old.body = posted.body := by
    intro posted hposted
    have hpair : (posted.runtime, posted.body) ∈ ((w.rings id kind).modify i fun posted =>
        { posted with isPublished := true }).map fun posted => (posted.runtime, posted.body) :=
      List.mem_map_of_mem hposted
    rw [hbody] at hpair
    obtain ⟨old, hold, heq⟩ := List.mem_map.mp hpair
    exact ⟨old, hold, congrArg Prod.fst heq, congrArg Prod.snd heq⟩
  apply h.ring id kind _ rfl _ rfl rfl rfl
  · intro posted hposted
    obtain ⟨old, hold, hruntime, hbody⟩ := hmem posted hposted
    obtain ⟨hown, hfits⟩ := h.own id kind old hold
    exact ⟨hruntime ▸ hown, fun hne => hbody ▸ hfits hne⟩
  · refine ⟨place, ?_⟩
    have heq : (w.publish id kind i).freight = w.freight := by
      refine freight_of_bodies rfl ?_ rfl rfl
      rintro rfl
      have hsame := congrArg (List.filterMap Prod.snd) (hbody (w.rings id .handoffs))
      simpa [List.filterMap_map, Function.comp_def, ShutdownWorld.freight] using hsame
    show Freight (w.publish id kind i).freight w.shipped place
    rw [heq]
    exact hfreight
  · intro hclosed
    rw [h.closed id kind hclosed]
    simp

theorem Kept.popped {rest : List Posted} {q : Place} (h : w.Kept)
    (hring : w.rings id kind = posted :: rest) (hrings : w'.rings = (w.setRing id kind rest).rings)
    (hblock : w'.block = w.block) (hphases : w'.phases = w.phases)
    (hruntime : w'.runtime = w.runtime) (hshipped : w'.shipped = w.shipped)
    (hne : ∀ id, .ring id ≠ q) (hq : w'.freight q = w.freight q ++ posted.body.toList)
    (hother : ∀ p, p ≠ q → (∀ id, p ≠ .ring id) → w'.freight p = w.freight p) : w'.Kept := by
  obtain ⟨place, hfreight⟩ := h.freight
  have hposted := h.own id kind posted (by rw [hring]; exact List.mem_cons_self)
  refine h.ring id kind rest hrings ?_ hblock hphases hruntime ?_ ?_
  · intro hclosed
    rw [h.closed id kind hclosed] at hring
    cases hring
  · intro other hmem
    exact h.own id kind other (by rw [hring]; exact List.mem_cons_of_mem _ hmem)
  · rw [hshipped]
    cases hbody : posted.body with
    | some =>
      have hkind : kind = .handoffs := by
        by_contra hk
        rw [hposted.2 hk] at hbody
        cases hbody
      subst hkind
      rw [hbody] at hq
      obtain ⟨hfront, heq⟩ := freight_pop hring hbody hrings hq (hne id) hother
      rw [heq]
      exact ⟨_, hfreight.move hfront (hne id)⟩
    | none =>
      refine ⟨place, ?_⟩
      have heq : w'.freight = w.freight := by
        funext p
        by_cases hp : p = q
        · subst hp
          simpa [hbody] using hq
        · cases p with
          | ring =>
            simp only [ShutdownWorld.freight, hrings, rings_setRing]
            split
            case isTrue hat =>
              obtain ⟨rfl, rfl⟩ := hat
              simp [hring, hbody]
            case isFalse => rfl
          | received => exact hother .received hp (by simp)
          | dropped => exact hother .dropped hp (by simp)
      rw [heq]
      exact hfreight

theorem pop_eq_some {next : ShutdownWorld} (hpop : w.pop id kind = some (posted, next)) :
    ∃ rest, w.rings id kind = posted :: rest ∧ next = w.setRing id kind rest := by
  unfold pop at hpop
  split at hpop
  · next front rest hring =>
    split at hpop
    · cases hpop
      exact ⟨rest, hring, rfl⟩
    · cases hpop
  · cases hpop

theorem Kept.take (h : w.Kept) (id : Nat) (kind : RingKind) : (w.take id kind).Kept := by
  unfold ShutdownWorld.take
  split
  · next posted next hpop =>
    obtain ⟨rest, hring, rfl⟩ := pop_eq_some hpop
    refine h.popped (q := .received) hring rfl rfl rfl rfl rfl (by simp) rfl ?_
    intro p hp hrings
    cases p with
    | ring id => exact absurd rfl (hrings id)
    | received => exact absurd rfl hp
    | dropped => rfl
  · exact h

theorem Kept.phase {phase : ExitPhase} (h : w.Kept)
    (hclosed : ∀ kind, w.isOpen id kind = true → (w.setPhase id phase).isOpen id kind = false →
      w.rings id kind = [])
    (horder : ∀ lead count, w.block = some (lead, count) →
      update w.phases id phase lead ≠ .running → ∀ i, 0 < i → i < count →
      update w.phases id phase (lead + i) = .exited) : (w.setPhase id phase).Kept := by
  refine ⟨?_, h.own, h.freight, horder⟩
  intro id' kind hnot
  show w.rings id' kind = []
  by_cases hid : id' = id
  · subst hid
    cases hopen : w.isOpen id' kind with
    | true => exact hclosed kind hopen hnot
    | false => exact h.closed id' kind hopen
  · apply h.closed
    simpa [isOpen, isMember, isLead, setPhase, hid] using hnot

theorem Kept.stop (h : w.Kept) (id : Nat) (hnotes : w.rings id .notes = []) : (w.stop id).Kept := by
  unfold ShutdownWorld.stop
  split
  case isFalse => exact h
  case isTrue hstop =>
    simp only [Bool.and_eq_true, beq_iff_eq, Bool.or_eq_true, Bool.not_eq_true'] at hstop
    obtain ⟨⟨⟨-, hmember⟩, hrunning⟩, hlast⟩ := hstop
    apply h.phase
    · intro kind _ hnot
      have hclosed : kind = .notes := by
        cases hlead : w.isLead id <;> cases kind <;>
          simp_all [isOpen, isMember, isLead, setPhase, firstDrain, nextDrain]
      rw [hclosed]
      exact hnotes
    · intro lead count hblock hne i hi hcount
      by_cases hlead : lead = id
      · subst hlead
        have hall : w.areSiblingsExited = true := by
          rcases hlast with hsibling | hall
          · simp [isLead, hblock] at hsibling
          · exact hall
        simp only [areSiblingsExited, hblock, Option.any_some, List.all_eq_true, List.mem_range,
          Bool.or_eq_true, beq_iff_eq] at hall
        rw [update_of_ne (by omega)]
        rcases hall i hcount with hzero | hexited
        · omega
        · exact hexited
      · rw [update_of_ne hlead] at hne
        have hexited := h.order lead count hblock hne i hi hcount
        by_cases hid : lead + i = id
        · rw [hid, hrunning] at hexited
          cases hexited
        · rw [update_of_ne hid]
          exact hexited

theorem Kept.drain (h : w.Kept) (id : Nat) (horderly : w.Orderly (.drain id)) : (w.drain id).Kept := by
  unfold ShutdownWorld.drain
  split
  case h_2 => exact h
  case h_3 => exact h
  case h_1 kind hphase =>
    simp only [Orderly, hphase] at horderly
    split
    case h_1 posted next hpop =>
      obtain ⟨rest, hring, rfl⟩ := pop_eq_some hpop
      refine h.popped (q := .dropped) hring rfl rfl rfl rfl rfl (by simp) rfl ?_
      intro p hp hrings
      cases p with
      | ring id => exact absurd rfl (hrings id)
      | received => rfl
      | dropped => exact absurd rfl hp
    case h_2 hpop =>
      have hempty : w.rings id kind = [] := by
        cases hring : w.rings id kind with
        | nil => rfl
        | cons posted =>
          have hpublished := horderly hpop posted (by rw [hring]; exact List.mem_cons_self)
          simp [pop, hring, hpublished] at hpop
      apply h.phase
      · intro kind' hopen hnot
        have hclosed : kind' = kind := by
          cases hlead : w.isLead id <;> cases kind <;> cases kind' <;>
            simp_all [isOpen, isMember, isLead, setPhase, nextDrain]
        rw [hclosed]
        exact hempty
      · intro lead count hblock hne i hi hcount
        have hexited : w.phases (lead + i) = .exited := by
          apply h.order lead count hblock _ i hi hcount
          intro hrunning
          by_cases hlead : lead = id
          · subst hlead
            rw [hphase] at hrunning
            cases hrunning
          · rw [update_of_ne hlead] at hne
            exact hne hrunning
        by_cases hid : lead + i = id
        · rw [hid, hphase] at hexited
          cases hexited
        · rw [update_of_ne hid]
          exact hexited

theorem Kept.empty (h : w.Kept) (hblock : w.block = none) (id : Nat) (kind : RingKind) :
    w.rings id kind = [] := by
  apply h.closed
  simp [isOpen, isMember, hblock]

theorem Kept.release (h : w.Kept) : w.release.Kept := by
  unfold ShutdownWorld.release
  split
  case h_2 => exact h
  case h_1 lead count hblock =>
    split
    case isFalse => exact h
    case isTrue hexited =>
      have hall : ∀ id kind, w.rings id kind = [] := by
        intro id kind
        apply h.closed
        cases hmember : w.isMember id with
        | false => simp [isOpen, hmember]
        | true =>
          have hrange : lead ≤ id ∧ id < lead + count := by simpa [isMember, hblock] using hmember
          have hphase : w.phases id = .exited := by
            by_cases hid : id = lead
            · rw [hid]
              exact hexited
            · have hsibling := h.order lead count hblock (by simp [hexited])
                (id - lead) (by omega) (by omega)
              rwa [show lead + (id - lead) = id by omega] at hsibling
          simp [isOpen, hphase]
      refine ⟨fun id kind _ => hall id kind, ?_, h.freight, fun _ _ hnone => (by cases hnone)⟩
      intro id kind posted hposted
      rw [hall] at hposted
      cases hposted

theorem Kept.step (h : w.Kept) (horderly : w.Orderly e) : (w.step e).Kept := by
  cases e with
  | build =>
    simp only [ShutdownWorld.step]
    split
    case isFalse => exact h
    case isTrue hnone =>
      have hempty := h.empty hnone.1
      exact ⟨fun id kind _ => hempty id kind, h.own, h.freight, fun _ _ _ hne => absurd rfl hne⟩
  | raiseShutdown => exact ⟨h.closed, h.own, h.freight, h.order⟩
  | post sender target kind isDelivery =>
    simp only [ShutdownWorld.step]
    split
    case isFalse => exact h
    case isTrue hsend =>
      rw [Bool.and_eq_true] at hsend
      exact h.push (horderly hsend) isDelivery
  | wake =>
    obtain ⟨hopen, rfl⟩ := horderly
    exact h.push hopen false
  | publish id kind i => exact h.publish id kind i
  | take id kind =>
    simp only [ShutdownWorld.step]
    split
    case isTrue => exact h.take id kind
    case isFalse => exact h
  | stop id => exact h.stop id horderly
  | drain id => exact h.drain id horderly
  | release => exact h.release

theorem Kept.init : ShutdownWorld.init.Kept := by
  refine ⟨fun _ _ _ => rfl, fun _ _ _ hposted => (by cases hposted), ⟨fun _ => .received, ?_⟩,
    fun _ _ hnone => (by cases hnone)⟩
  constructor
  · intro p n
    cases p <;> simp [ShutdownWorld.init, ShutdownWorld.freight]
  · intro p
    cases p <;> simp [ShutdownWorld.init, ShutdownWorld.freight]

theorem Kept.clean (h : w.Kept) : w.Clean := by
  refine ⟨fun hblock id kind _ => h.empty hblock id kind, ?_, fun id kind posted hposted =>
    (h.own id kind posted hposted).1⟩
  intro hblock n hn hnot
  obtain ⟨place, hfreight⟩ := h.freight
  have hdropped : n ∈ w.dropped := by
    refine (hfreight.mem .dropped n).mpr ⟨hn, ?_⟩
    cases hplace : place n with
    | dropped => rfl
    | received => exact absurd ((hfreight.mem .received n).mpr ⟨hn, hplace⟩) hnot
    | ring id =>
      have hmem : n ∈ w.freight (.ring id) := (hfreight.mem (.ring id) n).mpr ⟨hn, hplace⟩
      simp [ShutdownWorld.freight, h.empty hblock] at hmem
  exact List.count_eq_one_of_mem (hfreight.nodup .dropped) hdropped

/-- In every run that meets the condition, a runtime leaves nothing behind in the rings of its ids. -/
theorem rings_empty_at_release (es : List ShutdownEvent) (h : Meets step Orderly init es) :
    (run step init es).Clean :=
  (h.invariant (fun _ _ hkept horderly => hkept.step horderly) Kept.init).clean

/-- A sibling's request is still served by the other one; the reply is drained, and its body
dropped, when the sibling stops. -/
theorem rings_empty_at_release_pending :
    let w := run step init
      [.build 0 3, .post 1 2 .requests false, .publish 2 .requests 0, .raiseShutdown,
        .take 2 .requests, .post 2 1 .handoffs true, .publish 1 .handoffs 0, .stop 1, .drain 1,
        .drain 1, .drain 1, .drain 1, .stop 2, .drain 2, .drain 2, .drain 2, .stop 0, .drain 0,
        .drain 0, .drain 0, .release]
    w.block = none ∧ w.dropped = [0] ∧ w.Clean :=
  ⟨by decide, by decide, rings_empty_at_release _ (by decide)⟩

/-- The same request, served after the sibling has drained its rings. -/
def servedLate : List ShutdownEvent :=
  [.build 0 3, .post 1 2 .requests false, .publish 2 .requests 0, .raiseShutdown, .stop 1, .drain 1,
    .drain 1, .drain 1, .take 2 .requests, .post 2 1 .handoffs true, .publish 1 .handoffs 0, .stop 2,
    .drain 2, .drain 2, .drain 2, .stop 0, .drain 0, .drain 0, .drain 0, .release]

/-- The body of the late reply stays in the ring past the release, and the next runtime under these
ids receives it. A settled note that comes in after a worker's last pass stays as well. -/
theorem reply_outlives_runtime :
    (¬ (run step init servedLate).Clean) ∧
      (run step init (servedLate ++ [.build 0 3, .take 1 .handoffs])).received = [0] ∧
      (¬ (run step init
        [.build 0 2, .post 1 0 .notes false, .publish 0 .notes 0, .raiseShutdown, .stop 1, .drain 1,
          .drain 1, .drain 1, .stop 0, .drain 0, .drain 0, .drain 0, .release]).Clean) := by
  refine ⟨fun h => ?_, by decide, fun h => ?_⟩
  · exact absurd (h.empty (by decide) 1 .handoffs (by decide)) (by decide)
  · exact absurd (h.own 0 .notes ⟨0, none, true⟩ (by decide)) (by decide)

end ShutdownWorld

end Kwokka
