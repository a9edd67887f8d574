import Kwokka.IoQueue

/-! The bookkeeping every run keeps: which future each request belongs to, and
which request each in-flight slot was handed to. -/

namespace Kwokka

open Table Runs InflightBufSlab FutureEntry

def Request.cancelKey (id : Nat) (r : Request) : Option InflightSlotKey :=
  match r.role with
  | .owned _ kind =>
    match kind.marker with
    | some marker => some ⟨marker, 0, id, r.userData⟩
    | none => r.key
  | .cancel _ => none

def CancelOf (id : Nat) (requests : List Request) (key : InflightSlotKey) : Prop :=
  ∃ (o : Nat) (r : Request), requests[o]? = some r ∧ r.cancelKey id = some key

variable {id : Nat} {requests : List Request}

theorem CancelOf.append {key : InflightSlotKey} (h : CancelOf id requests key)
    (more : List Request) : CancelOf id (requests ++ more) key := by
  obtain ⟨o, r, hr, hkey⟩ := h
  exact ⟨o, r, append_of_row hr more, hkey⟩

structure Request.OwnedBy (r : Request) (kind : FutureKind) : Prop where
  token : isTaskToken r.userData = true
  key : r.key.isSome = kind.isBuffered
  zeroCopy : r.zeroCopy = true → kind = .sendZc

structure FutureEntry.Tracked (id : Nat) (requests : List Request) (f : Nat)
    (entry : FutureEntry) : Prop where
  token : isTaskToken entry.owner = true
  submitted : ∀ key, entry.future.submitted = some key → ∃ o r,
    entry.op = some o ∧ requests[o]? = some r ∧ r.role = .owned f entry.future.kind ∧
      r.userData = entry.owner ∧ r.cancelKey id = some key
  fresh : entry.status = .live → entry.future.submitted = none →
    entry.future.kind.isBuffered = false → entry.op = none
  resolved : entry.status.isResolved = true → entry.future.submitted = none

/-- Every request belongs to one future; a slotless future makes one request in its life. -/
structure OwnerSound (id : Nat) (requests : List Request) (futures : List FutureEntry) : Prop where
  owned : ∀ (o : Nat) r f kind, requests[o]? = some r →
    r.role = .owned f kind → r.OwnedBy kind ∧ ∃ entry, futures[f]? = some entry ∧
      entry.future.kind = kind ∧ entry.owner = r.userData ∧
      (kind.isBuffered = false → entry.op = some o)
  cancel : ∀ (o : Nat) r key, requests[o]? = some r →
    r.role = .cancel key → r = .ofCancel key ∧ CancelOf id requests key
  entry : ∀ (f : Nat) entry, futures[f]? = some entry →
    entry.Tracked id requests f

theorem FutureEntry.Tracked.append {f : Nat} {entry : FutureEntry} (h : entry.Tracked id requests f)
    (more : List Request) : entry.Tracked id (requests ++ more) f := by
  refine ⟨h.token, ?_, h.fresh, h.resolved⟩
  intro key hkey
  obtain ⟨o, r, hop, hr, hrest⟩ := h.submitted key hkey
  exact ⟨o, r, hop, append_of_row hr more, hrest⟩

theorem FutureEntry.Tracked.cleared {f : Nat} {entry entry' : FutureEntry}
    (h : entry.Tracked id requests f) (howner : entry'.owner = entry.owner)
    (hnone : entry'.future.submitted = none)
    (hfresh : entry'.status = .live → entry'.future.kind.isBuffered = false → entry'.op = none) :
    entry'.Tracked id requests f := by
  refine ⟨howner ▸ h.token, ?_, fun hlive _ => hfresh hlive, fun _ => hnone⟩
  intro key hkey
  simp [hnone] at hkey

namespace OwnerSound

variable {id f : Nat} {requests : List Request} {futures : List FutureEntry}
  {entry entry' : FutureEntry}

variable (h : OwnerSound id requests futures)

include h

theorem update (hf : futures[f]? = some entry) (howner : entry'.owner = entry.owner)
    (hkind : entry'.future.kind = entry.future.kind) (hop : entry'.op = entry.op)
    (htracked : entry'.Tracked id requests f) :
    OwnerSound id requests (futures.set f entry') := by
  refine ⟨?_, h.cancel, ?_⟩
  · intro o r g kind hr hrole
    obtain ⟨hby, old, hg, hk, ho, hone⟩ := h.owned o r g kind hr hrole
    refine ⟨hby, ?_⟩
    by_cases hgf : g = f
    · subst hgf
      cases hf.symm.trans hg
      exact ⟨entry', set_eq_some.mpr (.inr ⟨rfl, lt_of_row hf, rfl⟩), hkind.trans hk,
        howner.trans ho, fun hb => hop.trans (hone hb)⟩
    · exact ⟨old, set_eq_some.mpr (.inl ⟨hgf, hg⟩), hk, ho, hone⟩
  · intro g other hg
    rcases set_eq_some.mp hg with ⟨_, hg⟩ | ⟨rfl, _, rfl⟩
    · exact h.entry g other hg
    · exact htracked

theorem submit (hf : futures[f]? = some entry) {r : Request}
    (hrole : r.role = .owned f entry.future.kind) (hby : r.OwnedBy entry.future.kind)
    (huser : r.userData = entry.owner) (howner : entry'.owner = entry.owner)
    (hkind : entry'.future.kind = entry.future.kind) (hop : entry'.op = some requests.length)
    (hslotless : entry.future.kind.isBuffered = false → entry.op = none)
    (hguard : entry'.future.submitted = r.cancelKey id) (hlive : entry'.status = .live)
    (hsome : (r.cancelKey id).isSome = true) :
    OwnerSound id (requests ++ [r]) (futures.set f entry') := by
  have hlen := lt_of_row hf
  refine ⟨?_, ?_, ?_⟩
  · intro o q g kind hq hqrole
    rcases concat_eq_some.mp hq with hq | ⟨rfl, rfl⟩
    · obtain ⟨hqby, old, hg, hk, ho, hone⟩ := h.owned o q g kind hq hqrole
      refine ⟨hqby, ?_⟩
      by_cases hgf : g = f
      · subst hgf
        cases hf.symm.trans hg
        refine ⟨entry', set_eq_some.mpr (.inr ⟨rfl, hlen, rfl⟩), hkind.trans hk,
          howner.trans ho, ?_⟩
        intro hb
        have hnone := hslotless (by rw [hk]; exact hb)
        rw [hone hb] at hnone
        simp at hnone
      · exact ⟨old, set_eq_some.mpr (.inl ⟨hgf, hg⟩), hk, ho, hone⟩
    · rw [hrole] at hqrole
      obtain ⟨rfl, rfl⟩ := OpRole.owned.inj hqrole
      exact ⟨hby, entry', set_eq_some.mpr (.inr ⟨rfl, hlen, rfl⟩), hkind, by rw [howner, huser],
        fun _ => hop⟩
  · intro o q key hq hqrole
    rcases concat_eq_some.mp hq with hq | ⟨rfl, rfl⟩
    · obtain ⟨heq, hcancel⟩ := h.cancel o q key hq hqrole
      exact ⟨heq, hcancel.append [r]⟩
    · rw [hrole] at hqrole
      cases hqrole
  · intro g other hg
    rcases set_eq_some.mp hg with ⟨_, hg⟩ | ⟨rfl, _, rfl⟩
    · exact (h.entry g other hg).append [r]
    · refine ⟨by rw [howner]; exact (h.entry g entry hf).token, ?_, ?_, ?_⟩
      · intro key hkey
        exact ⟨requests.length, r, hop, concat_eq_some.mpr (.inr ⟨rfl, rfl⟩),
          by rw [hrole, hkind], by rw [howner, huser], by rw [← hguard, hkey]⟩
      · intro _ hnone
        rw [hguard] at hnone
        simp [hnone] at hsome
      · intro hresolved
        simp [hlive, FutureStatus.isResolved] at hresolved

theorem cancelled {key : InflightSlotKey} (hkey : CancelOf id requests key) :
    OwnerSound id (requests ++ [.ofCancel key]) futures := by
  refine ⟨?_, ?_, fun f entry hf => (h.entry f entry hf).append _⟩
  · intro o r f kind hr hrole
    rcases concat_eq_some.mp hr with hr | ⟨_, rfl⟩
    · exact h.owned o r f kind hr hrole
    · cases hrole
  · intro o r key' hr hrole
    rcases concat_eq_some.mp hr with hr | ⟨_, rfl⟩
    · obtain ⟨heq, hcancel⟩ := h.cancel o r key' hr hrole
      exact ⟨heq, hcancel.append _⟩
    · obtain rfl := OpRole.cancel.inj hrole
      exact ⟨rfl, hkey.append _⟩

theorem create {owner : UInt64} (kind : FutureKind) (len : Nat)
    (htoken : isTaskToken owner = true) :
    OwnerSound id requests (futures ++ [⟨owner, .new kind len, .live, none⟩]) := by
  refine ⟨?_, h.cancel, ?_⟩
  · intro o r f kind hr hrole
    obtain ⟨hby, entry, hf, hrest⟩ := h.owned o r f kind hr hrole
    exact ⟨hby, entry, append_of_row hf _, hrest⟩
  · intro f entry hf
    rcases concat_eq_some.mp hf with hf | ⟨_, rfl⟩
    · exact h.entry f entry hf
    · exact ⟨htoken, by simp [IoFuture.new], fun _ _ _ => rfl, fun _ => rfl⟩

theorem dropped (hf : futures[f]? = some entry) :
    OwnerSound id requests (futures.set f { entry with status := .dropped }) := by
  have htracked := h.entry f entry hf
  refine h.update hf rfl rfl rfl ⟨htracked.token, htracked.submitted, ?_, ?_⟩
  · intro hlive
    simp at hlive
  · intro hresolved
    simp [FutureStatus.isResolved] at hresolved

theorem settle (hf : futures[f]? = some entry) {step : IoFuture.Step}
    (hkind : step.future.kind = entry.future.kind) (hseam : step.seam.submitted = [])
    (hidle : step.future.submitted = none)
    (hlive : (entry.polled step requests.length).status = .live →
      (entry.polled step requests.length).future.kind.isBuffered = false →
        (entry.polled step requests.length).op = none) :
    OwnerSound id (requests ++ step.seam.submitted.map (.ofSubmission f entry.future.kind))
      (futures.set f (entry.polled step requests.length)) := by
  simp only [hseam, List.map_nil, List.append_nil]
  exact h.update hf rfl hkind (by simp [polled, hseam])
    ((h.entry f entry hf).cleared rfl hidle hlive)

theorem poll (hf : futures[f]? = some entry) (hlive : entry.status = .live) {seam : IoSeam}
    {step : IoFuture.Step} (hseam : seam.submitted = []) (hid : seam.workerId = id)
    (heffect : IoFuture.PollEffect entry.future entry.owner seam step) :
    OwnerSound id (requests ++ step.seam.submitted.map (.ofSubmission f entry.future.kind))
      (futures.set f (entry.polled step requests.length)) := by
  have htracked := h.entry f entry hf
  cases heffect with
  | refused poll hasFallenBack slab idle =>
    simp only [hseam, List.map_nil, List.append_nil]
    refine h.update hf rfl rfl (by simp [polled]) (htracked.cleared rfl idle ?_)
    intro _ hb
    simpa [polled, hseam] using htracked.fresh hlive idle hb
  | slot key slab zeroCopy wasZeroCopy idle buffered zc =>
    simp only [hseam, List.nil_append, List.map_cons, List.map_nil]
    have hmarker : entry.future.kind.marker = none := by
      simpa [FutureKind.isBuffered] using buffered
    have hkey : Request.cancelKey id
        (.ofSubmission f entry.future.kind ⟨entry.owner, zeroCopy, some key⟩) = some key := by
      simp [Request.cancelKey, Request.ofSubmission, hmarker]
    refine h.submit hf rfl ⟨htracked.token, by simp [Request.ofSubmission, buffered], zc⟩ rfl rfl
      rfl (by simp [polled]) (fun hb => by simp [hb] at buffered) ?_ rfl
      (by rw [hkey]; rfl)
    rw [hkey]
    rfl
  | slotless marker idle marked =>
    simp only [hseam, List.nil_append, List.map_cons, List.map_nil]
    have hkey : Request.cancelKey id (.ofSubmission f entry.future.kind ⟨entry.owner, false, none⟩) =
        some ⟨marker, 0, id, entry.owner⟩ := by
      simp [Request.cancelKey, Request.ofSubmission, marked]
    refine h.submit hf rfl ⟨htracked.token, by simp [Request.ofSubmission, FutureKind.isBuffered, marked],
      by simp [Request.ofSubmission]⟩ rfl rfl rfl (by simp [polled])
      (fun hb => htracked.fresh hlive idle hb) ?_ rfl (by rw [hkey]; rfl)
    rw [hkey, ← hid]
    rfl
  | waiting key primary inFlight =>
    simp only [hseam, List.map_nil, List.append_nil]
    refine h.update hf rfl rfl (by simp [polled, hseam]) ⟨htracked.token, ?_, ?_, ?_⟩
    · intro key' hkey'
      simpa [polled, hseam] using htracked.submitted key' hkey'
    · intro _ hnone
      simp [polled, inFlight] at hnone
    · intro hresolved
      simp [polled, FutureStatus.isResolved] at hresolved
  | resolved key =>
    refine h.settle hf rfl ?_ rfl (by simp [polled])
    split <;> exact hseam
  | released key => exact h.settle hf rfl hseam rfl (by simp [polled])
  | fallback key slot inFlight zc =>
    refine h.settle hf rfl hseam rfl fun _ hb => ?_
    simp [polled, zc, FutureKind.isBuffered, FutureKind.marker] at hb

end OwnerSound

structure InflightSlot.Holds (slot : InflightSlot) (key : InflightSlotKey) : Prop where
  occupied : slot.occupied = true
  generation : slot.generation = key.generation
  opToken : slot.opToken = key.opToken

/-- A slot is occupied exactly while it holds the key of the request it was handed to. -/
structure SlotsSound (id : Nat) (slab : InflightBufSlab) (requests : List Request) : Prop where
  worker : slab.workerId = id
  cap : slab.cap ≤ defaultInflightCap
  keyed : ∀ (o : Nat) r key, requests[o]? = some r →
    r.key = some key → key.workerId = id ∧ key.opToken = r.userData ∧
      ∃ slot, slab.slots[key.slot]? = some slot ∧
        (key.generation < slot.generation ∨ slot.Holds key)
  occupied : ∀ i slot, slab.slots[i]? = some slot →
    slot.occupied = true → ∃ (o : Nat) (r : Request), requests[o]? = some r ∧
      r.key = some ⟨i, slot.generation, id, slot.opToken⟩
  free : ∀ (i : Nat) slot, slab.slots[i]? = some slot →
    slot.occupied = false →
      slot.retirePending = false ∧ slot.notifExpected = false ∧ slot.notifReady = false
  unique : ∀ (o p : Nat) r q key, requests[o]? = some r →
    requests[p]? = some q → r.key = some key → q.key = some key → o = p

namespace SlotsSound

variable {id i : Nat} {slab : InflightBufSlab} {requests : List Request} {slot : InflightSlot}

variable {f : InflightSlot → InflightSlot} {r : Request} {key : InflightSlotKey}

variable (h : SlotsSound id slab requests)

include h

theorem worker_modify :
    (slab.modify i f).workerId = id ∧ (slab.modify i f).cap ≤ defaultInflightCap := by
  refine ⟨h.worker, ?_⟩
  rw [InflightBufSlab.cap, InflightBufSlab.length_modify]
  exact h.cap

theorem modify (hslot : slab.slots[i]? = some slot)
    (hkeyed : ∀ key, key.generation < slot.generation ∨ slot.Holds key →
      key.generation < (f slot).generation ∨ (f slot).Holds key)
    (hocc : (f slot).occupied = true → slot.occupied = true ∧
      (f slot).generation = slot.generation ∧ (f slot).opToken = slot.opToken)
    (hfree : (f slot).occupied = false → (f slot).retirePending = false ∧
      (f slot).notifExpected = false ∧ (f slot).notifReady = false) :
    SlotsSound id (slab.modify i f) requests := by
  refine ⟨h.worker_modify.1, h.worker_modify.2, ?_, ?_, ?_, h.unique⟩
  · intro o r key hr hkey
    obtain ⟨hworker, htoken, old, hold, hstate⟩ := h.keyed o r key hr hkey
    refine ⟨hworker, htoken, ?_⟩
    by_cases hki : key.slot = i
    · rw [hki] at hold
      cases hslot.symm.trans hold
      exact ⟨f slot, InflightBufSlab.modify_eq_some.mpr (.inr ⟨hki, slot, hslot, rfl⟩),
        hkeyed key hstate⟩
    · exact ⟨old, InflightBufSlab.modify_eq_some.mpr (.inl ⟨hki, hold⟩), hstate⟩
  · intro j other hj hjocc
    rcases InflightBufSlab.modify_eq_some.mp hj with ⟨_, hj⟩ | ⟨rfl, old, hold, rfl⟩
    · exact h.occupied j other hj hjocc
    · cases hslot.symm.trans hold
      obtain ⟨hwas, hgen, htoken⟩ := hocc hjocc
      rw [hgen, htoken]
      exact h.occupied j slot hslot hwas
  · intro j other hj hjfree
    rcases InflightBufSlab.modify_eq_some.mp hj with ⟨_, hj⟩ | ⟨rfl, old, hold, rfl⟩
    · exact h.free j other hj hjfree
    · cases hslot.symm.trans hold
      exact hfree hjfree

theorem mark (hslot : slab.slots[i]? = some slot) (hocc : slot.occupied = true)
    (hf : InflightSlot.IsMark f) : SlotsSound id (slab.modify i f) requests := by
  obtain ⟨hfo, hfg, hft⟩ := hf slot
  refine h.modify hslot (fun key hstate => ?_) (fun _ => ⟨hocc, hfg, hft⟩)
    fun hfree => by simp [hfo, hocc] at hfree
  rw [hfg]
  refine hstate.imp_right fun hholds => ⟨hfo.trans hocc, hfg.trans hholds.generation, ?_⟩
  exact hft.trans hholds.opToken

theorem vacate (hslot : slab.slots[i]? = some slot)
    (hf : (f slot).occupied = false ∧ (f slot).retirePending = false ∧
      (f slot).notifExpected = false ∧ (f slot).notifReady = false ∧
      (f slot).generation = slot.generation + 1) : SlotsSound id (slab.modify i f) requests := by
  obtain ⟨hocc, hret, hexp, hready, hgen⟩ := hf
  refine h.modify hslot (fun key hstate => .inl ?_) (by simp [hocc]) fun _ => ⟨hret, hexp, hready⟩
  rcases hstate with hlt | hholds
  · omega
  · have := hholds.generation
    omega

theorem release (hslot : slab.slots[i]? = some slot) :
    SlotsSound id (slab.modify i .release) requests :=
  h.vacate hslot ⟨rfl, rfl, rfl, rfl, rfl⟩

theorem append (hr : r.key = none) :
    SlotsSound id slab (requests ++ [r]) := by
  refine ⟨h.worker, h.cap, ?_, ?_, h.free, ?_⟩
  · intro o q key hq hkey
    rcases concat_eq_some.mp hq with hq | ⟨_, rfl⟩
    · exact h.keyed o q key hq hkey
    · simp [hr] at hkey
  · intro j other hj hjocc
    obtain ⟨o, q, hq, hkey⟩ := h.occupied j other hj hjocc
    exact ⟨o, q, append_of_row hq _, hkey⟩
  · intro o p q q' key hq hq' hkey hkey'
    rcases concat_eq_some.mp hq with hq | ⟨_, rfl⟩
    · rcases concat_eq_some.mp hq' with hq' | ⟨_, rfl⟩
      · exact h.unique o p q q' key hq hq' hkey hkey'
      · simp [hr] at hkey'
    · simp [hr] at hkey

theorem key_ne_of_free {o : Nat} (hr : requests[o]? = some r) (hkey : r.key = some key)
    (hslot : slab.slots[key.slot]? = some slot)
    (hfree : slot.occupied = false) : key.generation < slot.generation := by
  obtain ⟨_, _, old, hold, hstate⟩ := h.keyed o r key hr hkey
  cases hslot.symm.trans hold
  rcases hstate with hlt | hholds
  · exact hlt
  · rw [hholds.occupied] at hfree
    simp at hfree

theorem allocate {token : UInt64} {slab' : InflightBufSlab}
    (halloc : slab.allocate token = some (key, slab')) (hkey : r.key = some key)
    (huser : r.userData = token) : SlotsSound id slab' (requests ++ [r]) := by
  obtain ⟨slot, hslot, hfree, hkeyEq, rfl⟩ := allocate_spec halloc
  have hgen : key.generation = slot.generation := by rw [hkeyEq]
  have htoken : key.opToken = token := by rw [hkeyEq]
  have hworker : key.workerId = id := by rw [hkeyEq]; exact h.worker
  have hnew : (slab.modify key.slot (·.occupy token)).slots[key.slot]? =
      some (slot.occupy token) :=
    InflightBufSlab.modify_eq_some.mpr (.inr ⟨rfl, slot, hslot, rfl⟩)
  refine ⟨h.worker_modify.1, h.worker_modify.2, ?_, ?_, ?_, ?_⟩
  · intro o q key' hq hkey'
    rcases concat_eq_some.mp hq with hq | ⟨_, rfl⟩
    · obtain ⟨hworker', htoken', old, hold, hstate⟩ := h.keyed o q key' hq hkey'
      refine ⟨hworker', htoken', ?_⟩
      by_cases hki : key'.slot = key.slot
      · have hlt := h.key_ne_of_free hq hkey' (hki ▸ hslot) hfree
        exact ⟨slot.occupy token, by rw [hki]; exact hnew, .inl hlt⟩
      · exact ⟨old, InflightBufSlab.modify_eq_some.mpr (.inl ⟨hki, hold⟩), hstate⟩
    · cases hkey.symm.trans hkey'
      exact ⟨hworker, htoken.trans huser.symm, _, hnew, .inr ⟨rfl, hgen.symm, htoken.symm⟩⟩
  · intro j other hj hjocc
    rcases InflightBufSlab.modify_eq_some.mp hj with ⟨_, hj⟩ | ⟨rfl, old, hold, rfl⟩
    · obtain ⟨o, q, hq, hkey'⟩ := h.occupied j other hj hjocc
      exact ⟨o, q, append_of_row hq _, hkey'⟩
    · cases hslot.symm.trans hold
      refine ⟨requests.length, r, concat_eq_some.mpr (.inr ⟨rfl, rfl⟩), ?_⟩
      rw [hkey, hkeyEq, h.worker]
      rfl
  · intro j other hj hjfree
    rcases InflightBufSlab.modify_eq_some.mp hj with ⟨_, hj⟩ | ⟨rfl, old, _, rfl⟩
    · exact h.free j other hj hjfree
    · simp [InflightSlot.occupy] at hjfree
  · intro o p q q' k hq hq' hk hk'
    -- a second request under the new key would have been handed a free slot's generation
    have hfresh : ∀ (a : Nat) b, requests[a]? = some b → b.key ≠ some key := by
      intro a b hb hbk
      have := h.key_ne_of_free hb hbk hslot hfree
      omega
    rcases concat_eq_some.mp hq with hold | ⟨rfl, rfl⟩
    · rcases concat_eq_some.mp hq' with hold' | ⟨rfl, rfl⟩
      · exact h.unique o p q q' k hold hold' hk hk'
      · cases hkey.symm.trans hk'
        exact absurd hk (hfresh o q hold)
    · rcases concat_eq_some.mp hq' with hold' | ⟨rfl, _⟩
      · cases hkey.symm.trans hk
        exact absurd hk' (hfresh p q' hold')
      · rfl

theorem free_key (key : InflightSlotKey) :
    SlotsSound id (slab.free key) requests := by
  unfold InflightBufSlab.free
  split
  · next hlive =>
    obtain ⟨_, slot, hslot, _⟩ := isLive_iff.mp hlive
    exact h.release hslot
  · exact h

theorem returned {token : UInt64} {slab' : InflightBufSlab}
    (hback : slab' = slab ∨ ∃ key slab'', slab.allocate token = some (key, slab'') ∧
      slab' = slab''.free key) : SlotsSound id slab' requests := by
  rcases hback with rfl | ⟨key, slab'', halloc, rfl⟩
  · exact h
  · obtain ⟨slot, hslot, _⟩ := allocate_spec halloc
    rw [free_allocate halloc]
    exact h.vacate hslot ⟨rfl, rfl, rfl, rfl, rfl⟩

theorem poll {entry : FutureEntry} (f : Nat) {seam : IoSeam} {step : IoFuture.Step}
    (hseam : seam.submitted = []) (hslab : seam.slab = slab)
    (heffect : IoFuture.PollEffect entry.future entry.owner seam step) :
    SlotsSound id step.seam.slab
      (requests ++ step.seam.submitted.map (.ofSubmission f entry.future.kind)) := by
  subst hslab
  cases heffect with
  | refused poll hasFallenBack slab idle back =>
    simpa [hseam] using h.returned back
  | slot key slab zeroCopy wasZeroCopy idle buffered zc allocated =>
    simpa [hseam] using h.allocate allocated rfl rfl
  | slotless =>
    simpa [hseam] using h.append rfl
  | waiting => simpa [hseam] using h
  | resolved key =>
    split
    · simpa [IoSeam.freeSlot, hseam] using h.free_key key
    · simpa [hseam] using h
  | released key =>
    simpa [IoSeam.freeSlot, hseam] using h.free_key key
  | fallback key =>
    simpa [IoSeam.freeSlot, hseam] using h.free_key key

theorem freeByOpToken (token : UInt64) :
    SlotsSound id (slab.freeByOpToken token).2 requests := by
  rcases freeByOpToken_spec with ⟨i, slot, hslot, _, _, _, heq⟩ | heq
  · rw [heq]
    exact h.release hslot
  · rw [heq]
    exact h

theorem freeIfRetirePending (i low16 : Nat) :
    SlotsSound id (slab.freeIfRetirePending i low16) requests := by
  rcases freeIfRetirePending_spec low16 with ⟨slot, hslot, _, _, _, _, heq⟩ | heq
  · rw [heq]
    exact h.release hslot
  · rw [heq]
    exact h

theorem markNotifExpected (token : UInt64) :
    SlotsSound id (slab.markNotifExpectedByOpToken token) requests := by
  unfold markNotifExpectedByOpToken
  rcases tokenMatch_spec with ⟨i, slot, heq, hslot, hocc, _⟩ | ⟨heq, _⟩
  · rw [heq]
    exact h.mark hslot hocc InflightSlot.isMark_expectNotif
  · rw [heq]
    exact h

theorem markNotifReady (token : UInt64) :
    SlotsSound id (slab.markNotifReadyByOpToken token) requests := by
  unfold markNotifReadyByOpToken
  rcases tokenMatch_spec with ⟨i, slot, heq, hslot, hocc, _⟩ | ⟨heq, _⟩
  · rw [heq]
    exact h.mark hslot hocc InflightSlot.isMark_armNotif
  · rw [heq]
    exact h

theorem markRetirePending (key : InflightSlotKey) :
    SlotsSound id (slab.markRetirePending key) requests := by
  unfold InflightBufSlab.markRetirePending
  split
  · next hlive =>
    obtain ⟨_, slot, hslot, hocc, _⟩ := isLive_iff.mp hlive
    exact h.mark hslot hocc InflightSlot.isMark_retire
  · exact h

theorem cancelOf_slot (hkey : CancelOf id requests key) :
    key.slot < 2 ^ 16 ∧ (key.slot = 2 ^ 16 - 1 → key.generation % 2 ^ 16 ≠ 2 ^ 16 - 1) := by
  obtain ⟨o, r, hr, hcancel⟩ := hkey
  unfold Request.cancelKey at hcancel
  cases hrole : r.role with
  | cancel => simp [hrole] at hcancel
  | owned f kind =>
    cases hmarker : kind.marker with
    | some marker =>
      obtain rfl : ⟨marker, 0, id, r.userData⟩ = key := by simpa [hrole, hmarker] using hcancel
      exact ⟨FutureKind.marker_lt hmarker, fun _ => by show 0 % 2 ^ 16 ≠ 2 ^ 16 - 1; decide⟩
    | none =>
      have hown : r.key = some key := by simpa [hrole, hmarker] using hcancel
      obtain ⟨_, _, slot, hslot, _⟩ := h.keyed o r key hr hown
      have hlt := lt_of_row hslot
      have hcap := h.cap
      simp only [InflightBufSlab.cap, defaultInflightCap] at hcap
      omega

end SlotsSound

end Kwokka
