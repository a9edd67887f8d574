import Kwokka.Runs
import Kwokka.SlabMap

/-! Runs of slab operations: what a slab built by `new` answers, call after call,
against the map of keys its callers believe in. -/

namespace Kwokka

open Runs LinkedChain Function KeyMap

inductive SlabOp (α : Type*)
  | insert (value : α)
  | get (key : SlabKey)
  | getMut (key : SlabKey) (f : α → α)
  | slotPtr (key : SlabKey)
  | remove (key : SlabKey)
  | retireSlot (key : SlabKey)
  | reserve
  | install (key : SlabKey) (value : α)
  | unreserve (key : SlabKey)
  | getByIndex (idx : Nat)
  | getMutByIndex (idx : Nat) (f : α → α)
  | removeByIndex (idx : Nat)

inductive SlabReply (α : Type*)
  | key (result : Except SlabError SlabKey)
  | value (result : Option (MaybeUninit α))
  | ptr (result : Option Nat)
  | done (isDone : Bool)

section Ops

variable {α : Type*}

def SlabOp.lookupKey : SlabOp α → Option SlabKey
  | .get key | .getMut key _ | .slotPtr key | .remove key | .retireSlot key => some key
  | _ => none

def SlabOp.key : SlabOp α → Option SlabKey
  | .install key _ | .unreserve key => some key
  | op => op.lookupKey

def SlabReply.isFailure : SlabReply α → Bool
  | .key (.error _) | .value none | .ptr none | .done false => true
  | _ => false

def SlabOp.granted : SlabOp α → SlabReply α → Option SlabKey
  | .insert _, .key (.ok key) | .reserve, .key (.ok key) => some key
  | _, _ => none

def SlabOp.filled : SlabOp α → SlabReply α → Option SlabKey
  | .insert _, .key (.ok key) | .install key _, .done true => some key
  | _, _ => none

def SlabOp.withdrew : SlabOp α → SlabReply α → Option SlabKey
  | .unreserve key, .done true => some key
  | _, _ => none

namespace Slab

/-- One call. A panic is an `unreachable!` branch. -/
def apply (s : Slab α) : SlabOp α → Outcome SlabError (SlabReply α × Slab α)
  | .insert value =>
    match s.insert value with
    | .ok (key, s') => .ok (.key (.ok key), s')
    | .err e => .ok (.key (.error e), s)
    | .panic => .panic
  | .get key => .ok (.value (s.get key), s)
  | .getMut key f =>
    match s.getMut key f with
    | some s' => .ok (.done true, s')
    | none => .ok (.done false, s)
  | .slotPtr key => .ok (.ptr (s.slotPtr key), s)
  | .remove key =>
    match s.remove key with
    | some (value, s') => .ok (.value (some value), s')
    | none => .ok (.value none, s)
  | .retireSlot key => .ok (.done (s.retireSlot key).1, (s.retireSlot key).2)
  | .reserve =>
    match s.reserve with
    | .ok (key, s') => .ok (.key (.ok key), s')
    | .err e => .ok (.key (.error e), s)
    | .panic => .panic
  | .install key value =>
    match s.install key value with
    | some s' => .ok (.done true, s')
    | none => .ok (.done false, s)
  | .unreserve key => .ok (.done (s.unreserve key).1, (s.unreserve key).2)
  | .getByIndex idx => .ok (.value ((s.getByIndex idx).map some), s)
  | .getMutByIndex idx f => .ok (.done (s.getByIndex idx).isSome, s.modifyByIndex idx f)
  | .removeByIndex idx =>
    match s.removeByIndex idx with
    | some (value, s') => .ok (.value (some (some value)), s')
    | none => .ok (.value none, s)

def emptied (s : Slab α) : SlabOp α → SlabReply α → Option SlabKey
  | .remove key, .value (some _) | .retireSlot key, .done true => some key
  | .removeByIndex idx, .value (some _) => (s.generationAt idx).map (SlabKey.mk idx)
  | _, _ => none

end Slab

namespace KeyMap

/-- The answers a map with room for `capacity` keys may give. -/
def Allows (m : KeyMap α) (capacity : Nat) : SlabOp α → SlabReply α → Prop
  | .insert _, .key (.ok key) | .reserve, .key (.ok key) => key.index < capacity ∧ m.IsFree key.index
  | .insert _, .key (.error .full) | .reserve, .key (.error .full) =>
    ∀ i < capacity, ¬ m.IsFree i
  | .get key, .value result | .remove key, .value result => result = (m.stored key).map some
  | .slotPtr key, .ptr result => result = (m.stored key).map fun _ => key.index
  | .getMut key _, .done isDone | .retireSlot key, .done isDone => isDone = (m.stored key).isSome
  | .install key _, .done isDone | .unreserve key, .done isDone => isDone = m.reserved key
  | .getByIndex idx, .value result | .removeByIndex idx, .value result =>
    (result = none ∧ ∀ g, m.stored ⟨idx, g⟩ = none) ∨
      ∃ g a, m.stored ⟨idx, g⟩ = some a ∧ result = some (some a)
  | .getMutByIndex idx _, .done isDone =>
    (isDone = false ∧ ∀ g, m.stored ⟨idx, g⟩ = none) ∨
      ∃ g a, m.stored ⟨idx, g⟩ = some a ∧ isDone = true
  | _, _ => False

def next (m : KeyMap α) : SlabOp α → SlabReply α → KeyMap α
  | .insert value, .key (.ok key) | .install key value, .done true => m.store key value
  | .reserve, .key (.ok key) => m.promise key
  | .getMut key f, .done true => m.write key f
  | .remove key, .value (some _) | .retireSlot key, .done true => m.erase key
  | .unreserve key, .done true => m.withdraw key
  | .getMutByIndex idx f, .done true =>
    { m with stored := fun key => if key.index = idx then (m.stored key).map f else m.stored key }
  | .removeByIndex idx, .value (some _) =>
    { m with stored := fun key => if key.index = idx then none else m.stored key }
  | _, _ => m

end KeyMap

end Ops

/-- A slab in use, with what its callers know: the map, the keys handed out, how often each slot
was filled, that count when a key's value was taken away, and which keys are withdrawn. -/
structure SlabRun (α : Type*) where
  slab : Slab α
  map : KeyMap α
  issued : List SlabKey
  occupations : Nat → Nat
  removedAt : SlabKey → Option Nat
  withdrawn : SlabKey → Bool

namespace SlabRun

variable {α : Type*}

def start (slab : Slab α) : SlabRun α :=
  ⟨slab, .empty, [], fun _ => 0, fun _ => none, fun _ => false⟩

def after (r : SlabRun α) (op : SlabOp α) (reply : SlabReply α) (slab : Slab α) : SlabRun α where
  slab := slab
  map := r.map.next op reply
  issued := r.issued ++ (op.granted reply).toList
  occupations :=
    match op.filled reply with
    | some key => update r.occupations key.index (r.occupations key.index + 1)
    | none => r.occupations
  removedAt :=
    match r.slab.emptied op reply with
    | some key => update r.removedAt key (some (r.occupations key.index))
    | none => r.removedAt
  withdrawn := fun key =>
    if op.withdrew reply = some key then true
    else if op.granted reply = some key then false
    else r.withdrawn key

def step (r : SlabRun α) (op : SlabOp α) : SlabRun α :=
  match r.slab.apply op with
  | .ok (reply, slab) => r.after op reply slab
  | _ => r

/-- The looked-up key is odd, or not the generation of the slot it indexes. -/
def Guarded (r : SlabRun α) (op : SlabOp α) : Prop := ∀ key ∈ op.lookupKey, r.slab.Guards key

def UsesIssued (r : SlabRun α) (op : SlabOp α) : Prop := ∀ key ∈ op.key, key ∈ r.issued

instance (r : SlabRun α) (op : SlabOp α) : Decidable (r.Guarded op) :=
  inferInstanceAs (Decidable (∀ key ∈ op.lookupKey, r.slab.Guards key))

instance (r : SlabRun α) (op : SlabOp α) : Decidable (r.UsesIssued op) :=
  inferInstanceAs (Decidable (∀ key ∈ op.key, key ∈ r.issued))

end SlabRun

namespace Slab

variable {α : Type*} {s s' : Slab α} {op : SlabOp α} {reply : SlabReply α}

structure Answered (s : Slab α) (op : SlabOp α) (reply : SlabReply α) (s' : Slab α) : Prop where
  wf : s'.WF
  length : s'.slots.length = s.slots.length
  map : s'.toKeyMap = s.toKeyMap.next op reply
  allowed : s.toKeyMap.Allows s.slots.length op reply
  unchanged : reply.isFailure = true → s' = s
  granted : ∀ key ∈ op.granted reply, key.generation.isOccupied = true
  filled : ∀ key ∈ op.filled reply, ∃ g, s.generationAt key.index = some g ∧
    g.isOccupied = false ∧ key.generation = g.next ∧
    ∀ j, s'.generationAt j = if j = key.index then some g.next else s.generationAt j
  emptied : ∀ key ∈ s.emptied op reply, key.generation.isOccupied = true ∧
    s.generationAt key.index = some key.generation ∧
    ∀ j, s'.generationAt j = if j = key.index then some key.generation.next else s.generationAt j
  steady : op.filled reply = none → s.emptied op reply = none →
    ∀ j, s'.generationAt j = s.generationAt j

theorem Answered.same (hs : s.WF) (hmap : s.toKeyMap.next op reply = s.toKeyMap)
    (hallow : s.toKeyMap.Allows s.slots.length op reply) (hg : op.granted reply = none)
    (hf : op.filled reply = none) (he : s.emptied op reply = none) : s.Answered op reply s where
  wf := hs
  length := rfl
  map := hmap.symm
  allowed := hallow
  unchanged := fun _ => rfl
  granted := by simp [hg]
  filled := by simp [hf]
  emptied := by simp [he]
  steady := fun _ _ _ => rfl

theorem Answered.of_becomes {m : KeyMap α} (hb : s.Becomes s' m s.generationAt)
    (hmap : s.toKeyMap.next op reply = m)
    (hallow : s.toKeyMap.Allows s.slots.length op reply) (hfail : reply.isFailure = false)
    (hg : ∀ key ∈ op.granted reply, key.generation.isOccupied = true)
    (hf : op.filled reply = none) (he : s.emptied op reply = none) : s.Answered op reply s' where
  wf := hb.wf
  length := hb.length
  map := hb.map.trans hmap.symm
  allowed := hallow
  unchanged := by simp [hfail]
  granted := hg
  filled := by simp [hf]
  emptied := by simp [he]
  steady := fun _ _ => hb.generation

variable {key : SlabKey}

theorem Answered.of_filled {m : KeyMap α} {g : Generation}
    (hgen : s.generationAt key.index = some g) (hv : g.isOccupied = false)
    (hkey : key.generation = g.next)
    (hb : s.Becomes s' m fun j => if j = key.index then some g.next else s.generationAt j)
    (hmap : s.toKeyMap.next op reply = m) (hallow : s.toKeyMap.Allows s.slots.length op reply)
    (hfail : reply.isFailure = false)
    (hg : ∀ key ∈ op.granted reply, key.generation.isOccupied = true)
    (hf : op.filled reply = some key) (he : s.emptied op reply = none) :
    s.Answered op reply s' where
  wf := hb.wf
  length := hb.length
  map := hb.map.trans hmap.symm
  allowed := hallow
  unchanged := by simp [hfail]
  granted := hg
  filled := by
    simp only [hf, Option.mem_def, Option.some.injEq]
    rintro key rfl
    exact ⟨g, hgen, hv, hkey, hb.generation⟩
  emptied := by simp [he]
  steady := by simp [hf]

theorem Answered.of_vacated (hocc : key.generation.isOccupied = true)
    (hgen : s.generationAt key.index = some key.generation) (hb : s.Vacated key s')
    (hmap : s.toKeyMap.next op reply = s.toKeyMap.erase key)
    (hallow : s.toKeyMap.Allows s.slots.length op reply) (hfail : reply.isFailure = false)
    (hg : op.granted reply = none) (hf : op.filled reply = none)
    (he : s.emptied op reply = some key) : s.Answered op reply s' where
  wf := hb.wf
  length := hb.length
  map := hb.map.trans hmap.symm
  allowed := hallow
  unchanged := by simp [hfail]
  granted := by simp [hg]
  filled := by simp [hf]
  emptied := by
    simp only [he, Option.mem_def, Option.some.injEq]
    rintro key rfl
    exact ⟨hocc, hgen, hb.generation⟩
  steady := by simp [he]

theorem stored_unique {i : Nat} {g g' : Generation} {a : α} (h : s.stored ⟨i, g⟩ = some a)
    (hne : g' ≠ g) : s.stored ⟨i, g'⟩ = none := by
  obtain ⟨slot, hi, hgen, -⟩ := stored_eq_some.mp h
  rw [stored_of_row hi, if_neg]
  rintro rfl
  exact hne hgen

theorem stored_isOccupied (hs : s.WF) {a : α} (h : s.stored key = some a) :
    key.generation.isOccupied = true := by
  obtain ⟨slot, hi, hgen, ha⟩ := stored_eq_some.mp h
  rw [← hgen, (hs.sound slot (List.mem_of_getElem? hi)).1, ha]
  rfl

theorem apply_length (h : s.apply op = .ok (reply, s')) : s'.slots.length = s.slots.length := by
  have hrelease : ∀ idx slot, (s.release idx slot).slots.length = s.slots.length := fun _ _ =>
    List.length_set
  cases op with
  | insert =>
    simp only [apply, insert] at h
    grind
  | get key | slotPtr key | getByIndex idx => grind [apply]
  | getMut => grind [apply, getMut]
  | remove => grind [apply, remove]
  | retireSlot => grind [apply, retireSlot]
  | reserve => grind [apply, reserve]
  | install => grind [apply, install]
  | unreserve => grind [apply, unreserve]
  | getMutByIndex => grind [apply, modifyByIndex]
  | removeByIndex => grind [apply, removeByIndex, Option.map_eq_some_iff]

theorem apply_answered (hs : s.WF) (op : SlabOp α) (hguard : ∀ key ∈ op.lookupKey, s.Guards key) :
    ∃ reply s', s.apply op = .ok (reply, s') ∧ s.Answered op reply s' := by
  cases op with
  | insert value =>
    rcases insert_spec hs value with ⟨hfull, hno⟩ | ⟨g, s', hok, hlt, hfree, hgen, hv, hb⟩
    · exact ⟨.key (.error .full), s, by simp [apply, hfull], .same hs rfl hno rfl rfl rfl⟩
    · refine ⟨.key (.ok ⟨s.freeHead, g.next⟩), s', by simp only [apply, hok], ?_⟩
      have hkey : (SlabKey.mk s.freeHead g.next).generation = g.next := rfl
      exact .of_filled hgen hv hkey hb rfl ⟨hlt, hfree⟩ rfl (by simp [SlabOp.granted, hv]) rfl rfl
  | get key =>
    refine ⟨_, s, rfl, .same hs rfl ?_ rfl rfl rfl⟩
    exact (hguard key rfl).get_eq hs
  | getMut key f =>
    rcases (hguard key rfl).getMut_spec hs f with ⟨hnone, hmiss⟩ | ⟨a, s', hsome, hok, hb⟩
    · exact ⟨.done false, s, by simp [apply, hmiss], .same hs rfl
        (by simp [KeyMap.Allows, toKeyMap, hnone]) rfl rfl rfl⟩
    · exact ⟨.done true, s', by simp only [apply, hok], .of_becomes hb rfl
        (by simp [KeyMap.Allows, toKeyMap, hsome]) rfl (by simp [SlabOp.granted]) rfl rfl⟩
  | slotPtr key =>
    refine ⟨_, s, rfl, .same hs rfl ?_ rfl rfl rfl⟩
    exact (hguard key rfl).slotPtr_eq hs
  | remove key =>
    rcases (hguard key rfl).remove_spec hs with ⟨hnone, hmiss⟩ | ⟨a, s', hsome, hok, hgen, hb⟩
    · exact ⟨.value none, s, by simp [apply, hmiss], .same hs rfl
        (by simp [KeyMap.Allows, toKeyMap, hnone]) rfl rfl rfl⟩
    · exact ⟨.value (some (some a)), s', by simp only [apply, hok], .of_vacated
        (stored_isOccupied hs hsome) hgen hb rfl
        (by simp [KeyMap.Allows, toKeyMap, hsome]) rfl rfl rfl rfl⟩
  | retireSlot key =>
    rcases (hguard key rfl).retireSlot_spec hs with ⟨hnone, hmiss⟩ | ⟨a, s', hsome, hok, hgen, hb⟩
    · exact ⟨.done false, s, by simp [apply, hmiss], .same hs rfl
        (by simp [KeyMap.Allows, toKeyMap, hnone]) rfl rfl rfl⟩
    · exact ⟨.done true, s', by simp only [apply, hok], .of_vacated (stored_isOccupied hs hsome)
        hgen hb rfl (by simp [KeyMap.Allows, toKeyMap, hsome]) rfl rfl rfl rfl⟩
  | reserve =>
    rcases reserve_spec hs with ⟨hfull, hno⟩ | ⟨g, s', hok, hlt, hfree, hgen, hv, hb⟩
    · exact ⟨.key (.error .full), s, by simp [apply, hfull], .same hs rfl hno rfl rfl rfl⟩
    · refine ⟨.key (.ok ⟨s.freeHead, g.next⟩), s', by simp only [apply, hok], ?_⟩
      exact .of_becomes hb rfl ⟨hlt, hfree⟩ rfl (by simp [SlabOp.granted, hv]) rfl rfl
  | install key value =>
    rcases install_spec hs key value with ⟨hmiss, hno⟩ | ⟨g, s', hok, hres, hgen, hv, hkey, hb⟩
    · exact ⟨.done false, s, by simp [apply, hmiss], .same hs rfl
        (by simp [KeyMap.Allows, toKeyMap, hno]) rfl rfl rfl⟩
    · exact ⟨.done true, s', by simp only [apply, hok], .of_filled hgen hv hkey hb rfl
        (by simp [KeyMap.Allows, toKeyMap, hres]) rfl (by simp [SlabOp.granted]) rfl rfl⟩
  | unreserve key =>
    rcases unreserve_spec hs key with ⟨hmiss, hno⟩ | ⟨s', hok, hres, hb⟩
    · exact ⟨.done false, s, by simp [apply, hmiss], .same hs rfl
        (by simp [KeyMap.Allows, toKeyMap, hno]) rfl rfl rfl⟩
    · exact ⟨.done true, s', by simp only [apply, hok], .of_becomes hb rfl
        (by simp [KeyMap.Allows, toKeyMap, hres]) rfl (by simp [SlabOp.granted]) rfl rfl⟩
  | getByIndex i =>
    refine ⟨_, s, rfl, .same hs rfl ?_ rfl rfl rfl⟩
    rcases hs.getByIndex_spec i with ⟨hnone, hmiss⟩ | ⟨slot, a, -, -, -, hget, hsome⟩
    · exact .inl ⟨by simp [hnone], hmiss⟩
    · exact .inr ⟨slot.generation, a, hsome, by simp [hget]⟩
  | getMutByIndex i f =>
    rcases hs.modifyByIndex_spec i f with ⟨hnone, hmiss, hno⟩ | ⟨g, a, hgen, hsome, hget, hb⟩
    · exact ⟨.done false, s, by simp only [apply, hnone, hmiss, Option.isSome_none], .same hs rfl
        (.inl ⟨rfl, hno⟩) rfl rfl rfl⟩
    · refine ⟨.done true, _, by simp only [apply, hget, Option.isSome_some], .of_becomes hb ?_
        (.inr ⟨g, a, hsome, rfl⟩) rfl (by simp [SlabOp.granted]) rfl rfl⟩
      ext ⟨j, g'⟩ : 2
      · by_cases h : j = i
        · subst h
          by_cases hg : g' = g
          · simp [next, write, hg]
          · simp [next, write, toKeyMap, hg, stored_unique hsome hg]
        · simp [next, write, h]
      · rfl
  | removeByIndex i =>
    rcases hs.removeByIndex_spec i with ⟨hmiss, hno⟩ | ⟨g, a, s', hgen, hocc, hsome, hok, hb⟩
    · exact ⟨.value none, s, by simp [apply, hmiss], .same hs rfl (.inl ⟨rfl, hno⟩) rfl rfl rfl⟩
    · refine ⟨.value (some (some a)), s', by simp only [apply, hok], .of_vacated hocc hgen hb ?_
        (.inr ⟨g, a, hsome, rfl⟩) rfl rfl rfl (by simp [emptied, hgen])⟩
      ext ⟨j, g'⟩ : 2
      · by_cases h : j = i
        · subst h
          by_cases hg : g' = g
          · simp [next, erase, hg]
          · simp [next, erase, toKeyMap, hg, stored_unique hsome hg]
        · simp [next, erase, h]
      · rfl

end Slab

namespace KeyMap

variable {α : Type*} {m : KeyMap α} {op : SlabOp α} {reply : SlabReply α} {capacity : Nat}

theorem Allows.next_absent (hallow : m.Allows capacity op reply) {key : SlabKey}
    (hstored : m.stored key = none) (hreserved : m.reserved key = false)
    (hgrant : op.granted reply ≠ some key) :
    (m.next op reply).stored key = none ∧ (m.next op reply).reserved key = false := by
  unfold next
  split
  case h_2 other value =>
    -- `install` needs the promise that the key does not have
    have hne : key ≠ other := by
      rintro rfl
      simp [Allows, hreserved] at hallow
    simp [store, hne, hstored, hreserved]
  case h_1 value other =>
    have hne : key ≠ other := fun h => hgrant (by simp [SlabOp.granted, h])
    simp [store, hne, hstored, hreserved]
  case h_3 other =>
    have hne : key ≠ other := fun h => hgrant (by simp [SlabOp.granted, h])
    simp [promise, hne, hstored, hreserved]
  case h_4 other f =>
    rcases eq_or_ne key other with rfl | hne
    · simp [write, hstored, hreserved]
    · simp [write, hne, hstored, hreserved]
  all_goals simp_all [erase, withdraw, update_apply]

end KeyMap

namespace SlabRun

variable {α : Type*} {r : SlabRun α} {op : SlabOp α} {capacity : Nat}

/-- The map is the slab's own, and each slot's counter is twice the number of times it was filled,
less one while it is full. -/
structure Tracked (capacity : Nat) (r : SlabRun α) : Prop where
  wf : r.slab.WF
  length : r.slab.slots.length = capacity
  map : r.map = r.slab.toKeyMap
  issued : ∀ key ∈ r.issued, key.generation.isOccupied = true
  generation : ∀ i g, r.slab.generationAt i = some g →
    (g.val + if g.isOccupied then 1 else 0) % 2 ^ 24 = 2 * r.occupations i % 2 ^ 24
  removed : ∀ key n, r.removedAt key = some n → key.generation.isOccupied = true ∧
    (key.generation.val + 1) % 2 ^ 24 = 2 * n % 2 ^ 24 ∧
    (n < r.occupations key.index ∨ n = r.occupations key.index ∧
      ∀ g ∈ r.slab.generationAt key.index, g.isOccupied = false)
  withdrawn : ∀ key, r.withdrawn key = true → key.generation.isOccupied = true ∧
    r.map.stored key = none ∧ r.map.reserved key = false

variable {slab : Slab α} {key : SlabKey}

theorem start_tracked (hnew : Slab.new capacity = .ok slab) : (start slab).Tracked capacity := by
  obtain ⟨hlen, -, -, -, hrows⟩ := Slab.new_ok hnew
  have hrow : ∀ i slot, slab.slots[i]? = some slot → i < capacity ∧
      slot = ⟨0, if i + 1 < capacity then i + 1 else freeSentinel, none⟩ := by
    intro i slot hi
    obtain ⟨hlt, -⟩ := List.getElem?_eq_some_iff.mp hi
    rw [hlen] at hlt
    exact ⟨hlt, Option.some.inj (hi.symm.trans (hrows i hlt))⟩
  refine ⟨Slab.new_wf hnew, hlen, ?_, by simp [start], ?_, by simp [start], by simp [start]⟩
  · ext key : 2
    · cases hi : slab.slots[key.index]? with
      | none => simp [start, empty, Slab.toKeyMap, Slab.stored, hi]
      | some =>
        obtain ⟨-, rfl⟩ := hrow _ _ hi
        simp [start, empty, Slab.toKeyMap, Slab.stored, hi]
    · cases hi : slab.slots[key.index]? with
      | none => simp [start, empty, Slab.toKeyMap, Slab.isReserved, hi]
      | some =>
        obtain ⟨hlt, rfl⟩ := hrow _ _ hi
        have hcap := (Slab.new_wf hnew).capacity
        have hne : (if key.index + 1 < capacity then key.index + 1 else freeSentinel) ≠ key.index := by
          split <;> omega
        simp [start, empty, Slab.toKeyMap, Slab.isReserved, hi, beq_false_of_ne hne]
  · intro i g hg
    obtain ⟨slot, hi, rfl⟩ := Option.map_eq_some_iff.mp hg
    obtain ⟨-, rfl⟩ := hrow _ _ hi
    rfl

theorem filled_of_emptied {s : Slab α} {reply : SlabReply α} (h : s.emptied op reply = some key) :
    op.filled reply = none := by
  unfold Slab.emptied at h
  split at h
  · rfl
  · rfl
  · rfl
  · cases h

theorem withdrew_eq_some {reply : SlabReply α} (h : op.withdrew reply = some key) :
    op = .unreserve key ∧ reply = .done true := by
  unfold SlabOp.withdrew at h
  split at h
  · cases h
    exact ⟨rfl, rfl⟩
  · cases h

section After

variable {reply : SlabReply α} {slab : Slab α}

theorem Tracked.after_generation (hr : r.Tracked capacity) (ha : r.slab.Answered op reply slab)
    {i : Nat} {g : Generation} (hg : slab.generationAt i = some g) :
    (g.val + if g.isOccupied then 1 else 0) % 2 ^ 24 =
      2 * (r.after op reply slab).occupations i % 2 ^ 24 := by
  cases hf : op.filled reply with
  | some key =>
    obtain ⟨g₀, hg₀, hv, -, hgen⟩ := ha.filled key hf
    rw [hgen] at hg
    by_cases h : i = key.index
    · have hold := hr.generation key.index g₀ hg₀
      obtain rfl : g₀.next = g := by simpa [h] using hg
      simp only [hv, Bool.false_eq_true, if_false] at hold
      simp only [after, hf, h, Generation.isOccupied_next, hv, Bool.not_false, if_true,
        Generation.next_val, update_self]
      omega
    · simpa [after, hf, h] using hr.generation i g (by simpa [h] using hg)
  | none =>
    cases he : r.slab.emptied op reply with
    | some key =>
      obtain ⟨hocc, hg₀, hgen⟩ := ha.emptied key he
      rw [hgen] at hg
      by_cases h : i = key.index
      · have hold := hr.generation key.index _ hg₀
        obtain rfl : key.generation.next = g := by simpa [h] using hg
        simp only [hocc, if_true] at hold
        simp only [after, hf, h, Generation.isOccupied_next, hocc, Bool.not_true, Bool.false_eq_true,
          if_false, Generation.next_val]
        omega
      · simpa [after, hf] using hr.generation i g (by simpa [h] using hg)
    | none =>
      rw [ha.steady hf he] at hg
      simpa [after, hf] using hr.generation i g hg

theorem Tracked.after_removed (hr : r.Tracked capacity) (ha : r.slab.Answered op reply slab)
    {key : SlabKey} {n : Nat} (hn : (r.after op reply slab).removedAt key = some n) :
    key.generation.isOccupied = true ∧ (key.generation.val + 1) % 2 ^ 24 = 2 * n % 2 ^ 24 ∧
      (n < (r.after op reply slab).occupations key.index ∨
        n = (r.after op reply slab).occupations key.index ∧
          ∀ g ∈ slab.generationAt key.index, g.isOccupied = false) := by
  cases he : r.slab.emptied op reply with
  | some other =>
    obtain ⟨hocc, hg₀, hgen⟩ := ha.emptied other he
    simp only [after, he, filled_of_emptied he] at hn ⊢
    by_cases h : key = other
    · subst h
      obtain rfl : r.occupations key.index = n := by simpa using hn
      have hold := hr.generation key.index _ hg₀
      simp only [hocc, if_true] at hold
      exact ⟨hocc, hold, .inr ⟨rfl, by simp [hgen, hocc]⟩⟩
    · obtain ⟨hodd, hmod, hcount⟩ := hr.removed key n (by simpa [h] using hn)
      refine ⟨hodd, hmod, ?_⟩
      rcases hcount with hlt | ⟨heq, hvacant⟩
      · exact .inl hlt
      · have hidx : key.index ≠ other.index := by
          intro hidx
          have := hvacant _ (hidx ▸ hg₀)
          simp [hocc] at this
        exact .inr ⟨heq, by simpa [hgen, hidx] using hvacant⟩
  | none =>
    simp only [after, he] at hn ⊢
    obtain ⟨hodd, hmod, hcount⟩ := hr.removed key n hn
    refine ⟨hodd, hmod, ?_⟩
    cases hf : op.filled reply with
    | some other =>
      obtain ⟨g₀, -, -, -, hgen⟩ := ha.filled other hf
      by_cases hidx : key.index = other.index
      · left
        simp only [hidx, update_self]
        rw [← hidx]
        omega
      · simpa [hidx, hgen] using hcount
    | none => simpa [ha.steady hf he] using hcount

theorem Tracked.after_withdrawn (hr : r.Tracked capacity) (ha : r.slab.Answered op reply slab)
    {key : SlabKey} (hw : (r.after op reply slab).withdrawn key = true) :
    key.generation.isOccupied = true ∧
      (r.map.next op reply).stored key = none ∧ (r.map.next op reply).reserved key = false := by
  simp only [after] at hw
  split at hw
  · next hwith =>
    obtain ⟨rfl, rfl⟩ := withdrew_eq_some hwith
    obtain ⟨hodd, hnone⟩ := Slab.stored_of_isReserved ha.allowed.symm
    simp [next, withdraw, hr.map, Slab.toKeyMap, hodd, hnone]
  · split at hw
    · cases hw
    · next hgrant =>
      obtain ⟨hodd, hstored, hreserved⟩ := hr.withdrawn key hw
      exact ⟨hodd, (hr.map ▸ ha.allowed).next_absent hstored hreserved hgrant⟩

theorem Tracked.after (hr : r.Tracked capacity) (ha : r.slab.Answered op reply slab) :
    (r.after op reply slab).Tracked capacity where
  wf := ha.wf
  length := ha.length.trans hr.length
  map := by simp only [SlabRun.after, ha.map, hr.map]
  issued := by
    intro key hkey
    rcases List.mem_append.mp hkey with hold | hnew
    · exact hr.issued key hold
    · exact ha.granted key (by simpa using hnew)
  generation := fun _ _ hg => hr.after_generation ha hg
  removed := fun _ _ hn => hr.after_removed ha hn
  withdrawn := fun _ hw => hr.after_withdrawn ha hw

end After

theorem Tracked.step (hr : r.Tracked capacity) (hguard : r.Guarded op) :
    (r.step op).Tracked capacity := by
  obtain ⟨reply, slab, happly, ha⟩ := Slab.apply_answered hr.wf op hguard
  simp only [SlabRun.step, happly]
  exact hr.after ha

theorem Tracked.guarded (hr : r.Tracked capacity) (huse : r.UsesIssued op) : r.Guarded op := by
  intro key hkey
  refine .inl (hr.issued key (huse key ?_))
  cases op <;> first | exact hkey | cases hkey

theorem tracked_run (hnew : Slab.new capacity = .ok slab) {ops : List (SlabOp α)}
    (hops : Meets step Guarded (start slab) ops) : (run step (start slab) ops).Tracked capacity :=
  hops.invariant (fun _ _ hr hguard => hr.step hguard) (start_tracked hnew)

theorem tracked_run_issued (hnew : Slab.new capacity = .ok slab) {ops : List (SlabOp α)}
    (hops : Meets step UsesIssued (start slab) ops) :
    (run step (start slab) ops).Tracked capacity :=
  hops.invariant (fun _ _ hr huse => hr.step (hr.guarded huse)) (start_tracked hnew)

/-- A lookup that the map does not back is refused and leaves the slab alone. -/
def Exact (r : SlabRun α) (key : SlabKey) : Prop :=
  r.map.stored key = none →
    r.slab.get key = none ∧ (∀ f, r.slab.getMut key f = none) ∧ r.slab.slotPtr key = none ∧
      r.slab.remove key = none ∧ r.slab.retireSlot key = (false, r.slab)

theorem Tracked.exact (hr : r.Tracked capacity) (hg : r.slab.Guards key) : r.Exact key := by
  intro hnone
  have hstored : r.slab.stored key = none := by simpa [hr.map, Slab.toKeyMap] using hnone
  refine ⟨?_, fun f => ?_, ?_, ?_, ?_⟩
  · simp [hg.get_eq hr.wf, hstored]
  · rcases hg.getMut_spec hr.wf f with ⟨-, hmiss⟩ | ⟨a, -, hsome, -⟩
    · exact hmiss
    · simp [hstored] at hsome
  · simp [hg.slotPtr_eq hr.wf, hstored]
  · rcases hg.remove_spec hr.wf with ⟨-, hmiss⟩ | ⟨a, -, hsome, -⟩
    · exact hmiss
    · simp [hstored] at hsome
  · rcases hg.retireSlot_spec hr.wf with ⟨-, hmiss⟩ | ⟨a, -, hsome, -⟩
    · exact hmiss
    · simp [hstored] at hsome

theorem Tracked.guards_of_exact (hr : r.Tracked capacity) (he : r.Exact key) :
    r.slab.Guards key := by
  by_contra hg
  simp only [Slab.Guards, not_or, not_forall, not_not, Bool.not_eq_true] at hg
  obtain ⟨heven, slot, hi, hgen⟩ := hg
  have hrow : r.slab.slots[key.index]? = some slot := hi
  have hdata := hr.wf.data_none hrow (hgen ▸ heven)
  have hnone : r.map.stored key = none := by
    simp [hr.map, Slab.toKeyMap, Slab.stored, hrow, hdata]
  have hget := (he hnone).1
  simp [Slab.get, hrow, hgen] at hget

/-- Along runs whose lookups are guarded, the guard is all that keeps a lookup exact. -/
theorem exact_iff_guards {slab : Slab α} (hnew : Slab.new capacity = .ok slab)
    {ops : List (SlabOp α)} (hops : Meets step Guarded (start slab) ops) (key : SlabKey) :
    (run step (start slab) ops).Exact key ↔ (run step (start slab) ops).slab.Guards key := by
  have hr := tracked_run hnew hops
  exact ⟨hr.guards_of_exact, hr.exact⟩

theorem exact_iff_guards_removed :
    (run step (start (⟨[⟨0, freeSentinel, none⟩], 0, 0⟩ : Slab Nat))
      [.insert 7, .remove ⟨0, 1⟩]).Exact ⟨0, 1⟩ :=
  (exact_iff_guards (show Slab.new 1 = .ok _ from rfl) (by decide) ⟨0, 1⟩).mpr (by decide)

/-- On a fresh slab the key of raw generation 0 finds a value in a slot that never held one. -/
theorem raw_zero_not_exact : ¬ ∀ capacity slab, Slab.new capacity = .ok slab →
    ∀ (ops : List (SlabOp Nat)) (key : SlabKey), (run step (start slab) ops).Exact key := by
  intro h
  have hexact := h 1 ⟨[⟨0, freeSentinel, none⟩], 0, 0⟩ rfl [] (.ofRaw 0 0)
  have hget := (hexact rfl).1
  exact absurd hget (by decide)

/-- Each slot is free, reserved or occupied, never two of them, and the free list visits each free
slot once. -/
def Layout (r : SlabRun α) (capacity : Nat) : Prop :=
  r.slab.slots.length = capacity ∧
    ∃ free,
      Chain (Slab.freeLink r.slab.slots) (Slab.link r.slab.freeHead) free ∧ free.Nodup ∧
      (∀ i ∈ free, i < capacity) ∧
      ∀ i < capacity,
        let isReserved := ∃ g, r.map.reserved ⟨i, g⟩ = true
        let isOccupied := ∃ g a, r.map.stored ⟨i, g⟩ = some a
        (i ∈ free ∧ ¬ isReserved ∧ ¬ isOccupied) ∨ (i ∉ free ∧ isReserved ∧ ¬ isOccupied) ∨
          (i ∉ free ∧ ¬ isReserved ∧ isOccupied)

/-- `len` counts the keys that hold a value. -/
def Counts (r : SlabRun α) : Prop :=
  ∃ keys : List SlabKey, keys.Nodup ∧ (∀ key, key ∈ keys ↔ (r.map.stored key).isSome = true) ∧
    r.slab.len = keys.length

/-- A key that was taken away stays dead for `2 ^ 23` fillings of its slot, a withdrawn one until
it is handed out again. -/
def Forgets (r : SlabRun α) : Prop :=
  (∀ key n, r.removedAt key = some n → r.occupations key.index < n + 2 ^ 23 →
    r.slab.get key = none) ∧
  ∀ key, r.withdrawn key = true → r.slab.get key = none

/-- `insert` and `reserve` fail exactly when no slot is free. -/
def FullExactly (r : SlabRun α) (capacity : Nat) : Prop :=
  (∀ value, r.slab.insert value = .err .full ↔ ∀ i < capacity, ¬ r.map.IsFree i) ∧
    (r.slab.reserve = .err .full ↔ ∀ i < capacity, ¬ r.map.IsFree i)

/-- The next call returns, as the map would, and a failure changes nothing. -/
def Answers (r : SlabRun α) (capacity : Nat) (op : SlabOp α) : Prop :=
  ∃ reply slab, r.slab.apply op = .ok (reply, slab) ∧ r.map.Allows capacity op reply ∧
    (reply.isFailure = true → slab = r.slab)

section

variable (hr : r.Tracked capacity)

include hr

theorem Tracked.layout : r.Layout capacity := by
  obtain ⟨free, hchain, hnd, hmem⟩ := hr.wf.free
  have hlen := hr.length
  refine ⟨hlen, free, hchain, hnd, ?_, ?_⟩
  · intro i hi
    obtain ⟨slot, hrow, -⟩ := (hmem i).mp hi
    exact hlen ▸ (List.getElem?_eq_some_iff.mp hrow).1
  · intro i hi
    obtain ⟨slot, hrow⟩ : ∃ slot, r.slab.slots[i]? = some slot :=
      ⟨_, List.getElem?_eq_getElem (by omega)⟩
    have hfree : i ∈ free ↔ slot.generation.isOccupied = false ∧ slot.nextFree ≠ i := by
      simp [hmem i, hrow]
    have hself := fun h => hr.wf.vacant_of_self hrow h
    simp only [hr.map, Slab.toKeyMap, hr.wf.exists_stored_iff hrow, hr.wf.exists_reserved_iff hrow,
      hfree]
    cases hocc : slot.generation.isOccupied with
    | true =>
      have hne : slot.nextFree ≠ i := fun h => by simp [hself h] at hocc
      simp [hne]
    | false =>
      by_cases h : slot.nextFree = i <;> simp [h]

theorem Tracked.counts : r.Counts := by
  refine ⟨r.slab.keys, r.slab.keys_nodup, fun key => ?_, (Slab.keys_length hr.wf).symm⟩
  rw [hr.map]
  exact Slab.mem_keys hr.wf

theorem Tracked.resolves (hocc : key.generation.isOccupied = true) :
    r.slab.get key = (r.map.stored key).map some := by
  have hg : r.slab.Guards key := .inl hocc
  rw [hg.get_eq hr.wf, hr.map]
  rfl

theorem Tracked.forgets : r.Forgets := by
  constructor
  · intro key n hn hlt
    obtain ⟨hodd, hmod, hcount⟩ := hr.removed key n hn
    rw [hr.resolves hodd, hr.map, Option.map_eq_none_iff, Option.eq_none_iff_forall_ne_some]
    intro a ha
    obtain ⟨slot, hi, hgen, -⟩ := Slab.stored_eq_some.mp ha
    have hat : r.slab.generationAt key.index = some key.generation := by
      simp [Slab.generationAt, hi, hgen]
    rcases hcount with hbefore | ⟨-, hvacant⟩
    · have hcur := hr.generation key.index _ hat
      simp only [hodd, if_true] at hcur
      omega
    · simp [hvacant _ hat] at hodd
  · intro key hw
    obtain ⟨hodd, hnone, -⟩ := hr.withdrawn key hw
    simp [hr.resolves hodd, hnone]

theorem Tracked.answers (hguard : r.Guarded op) :
    r.Answers capacity op := by
  obtain ⟨reply, slab, happly, ha⟩ := Slab.apply_answered hr.wf op hguard
  refine ⟨reply, slab, happly, ?_, ha.unchanged⟩
  rw [hr.map, ← hr.length]
  exact ha.allowed

theorem Tracked.fullExactly : r.FullExactly capacity := by
  rw [FullExactly, hr.map, ← hr.length]
  constructor
  · intro value
    rcases Slab.insert_spec hr.wf value with ⟨hfull, hno⟩ | ⟨g, slab, hok, hlt, hfree, -⟩
    · exact ⟨fun _ => hno, fun _ => hfull⟩
    · exact ⟨fun h => by simp [hok] at h, fun hno => absurd hfree (hno _ hlt)⟩
  · rcases Slab.reserve_spec hr.wf with ⟨hfull, hno⟩ | ⟨g, slab, hok, hlt, hfree, -⟩
    · exact ⟨fun _ => hno, fun _ => hfull⟩
    · exact ⟨fun h => by simp [hok] at h, fun hno => absurd hfree (hno _ hlt)⟩

end

/-- A slab used with its own keys is a partial map with a set of promised keys. -/
theorem slab_refines_map {slab : Slab α} (hnew : Slab.new capacity = .ok slab)
    {ops : List (SlabOp α)} (hops : Meets step UsesIssued (start slab) ops) :
    let r := run step (start slab) ops
    (∀ key ∈ r.issued, r.slab.get key = (r.map.stored key).map some) ∧
      (∀ key, r.map.reserved key = true → r.slab.get key = none) ∧
      (∀ op, r.UsesIssued op → r.Answers capacity op) ∧
      r.Forgets ∧ r.Counts ∧ r.FullExactly capacity ∧ r.Layout capacity := by
  have hr := tracked_run_issued hnew hops
  refine ⟨fun key hkey => hr.resolves (hr.issued key hkey), ?_, fun op huse => hr.answers
    (hr.guarded huse), hr.forgets, hr.counts, hr.fullExactly, hr.layout⟩
  intro key hres
  rw [hr.map] at hres
  obtain ⟨hodd, hnone⟩ := Slab.stored_of_isReserved hres
  rw [hr.resolves hodd, hr.map]
  exact congrArg (Option.map some) hnone

theorem slab_refines_map_reused :
    (run step (start (⟨[⟨0, freeSentinel, none⟩], 0, 0⟩ : Slab Nat))
      [.insert 7, .remove ⟨0, 1⟩, .reserve, .install ⟨0, 3⟩ 8]).Counts :=
  (slab_refines_map (show Slab.new 1 = .ok _ from rfl) (by decide)).2.2.2.2.1

end SlabRun

end Kwokka
