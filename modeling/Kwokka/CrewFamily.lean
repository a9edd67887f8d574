import Kwokka.CrewStep
import Kwokka.LinkedChain
import Kwokka.SlabView

/-! The children lists of one worker: every list is a chain through the headers, no child
is on two lists, and a task that came from another worker is on none. -/

namespace Kwokka

open LinkedChain Function

def sibling (cells : SlabKey → Option TaskHeader) (ref : TaskRef) : Option TaskRef :=
  (cells ref.key).bind (·.nextSibling)

/-- `kids key` is the list that hangs off the task under `key`. -/
structure Family (v : Nat) (cells : SlabKey → Option TaskHeader) (origins : Nat → Option Origin)
    (kids : SlabKey → List TaskRef) : Prop where
  chain : ∀ key header, cells key = some header → Chain (sibling cells) header.firstChild (kids key)
  bare : ∀ key, cells key = none → kids key = []
  child : ∀ key, ∀ ref ∈ kids key,
    ref.workerId = v ∧ (cells ref.key).isSome = true ∧ origins ref.key.index = none
  nodup : ∀ key, (kids key).Nodup
  sole : ∀ key key' ref, ref ∈ kids key → ref ∈ kids key' → key = key'
  resident : ∀ i, (origins i).isSome = true → ∃ key, key.index = i ∧ (cells key).isSome = true

namespace Family

variable {v : Nat} {cells : SlabKey → Option TaskHeader} {origins : Nat → Option Origin}
  {kids : SlabKey → List TaskRef} {key : SlabKey} {header header' : TaskHeader}

theorem empty (v : Nat) : Family v (fun _ => none) (fun _ => none) (fun _ => []) := by
  constructor <;> simp

variable (h : Family v cells origins kids)

include h

theorem congr {cells' : SlabKey → Option TaskHeader}
    (hlinks : ∀ k, (cells' k).map (fun header => (header.firstChild, header.nextSibling)) =
      (cells k).map fun header => (header.firstChild, header.nextSibling)) :
    Family v cells' origins kids := by
  have hsibling : sibling cells' = sibling cells := by
    funext ref
    have hlink := congrArg (Option.bind · Prod.snd) (hlinks ref.key)
    simpa only [sibling, Option.bind_map, Function.comp_def] using hlink
  have hsome : ∀ k, (cells' k).isSome = (cells k).isSome := by
    intro k
    have hlink := congrArg Option.isSome (hlinks k)
    simpa using hlink
  refine ⟨?_, ?_, ?_, h.nodup, h.sole, ?_⟩
  · intro k header' hk
    obtain ⟨header, hheader⟩ := Option.isSome_iff_exists.mp ((hsome k).symm.trans (by simp [hk]))
    have hlink := hlinks k
    rw [hk, hheader] at hlink
    have hfirst : header'.firstChild = header.firstChild := congrArg Prod.fst (Option.some.inj hlink)
    rw [hsibling, hfirst]
    exact h.chain k header hheader
  · intro k hnone
    apply h.bare
    rw [← Option.not_isSome_iff_eq_none, ← hsome, hnone]
    simp
  · intro k ref href
    rw [hsome]
    exact h.child k ref href
  · intro i hi
    obtain ⟨k, hindex, hk⟩ := h.resident i hi
    exact ⟨k, hindex, by rw [hsome]; exact hk⟩

theorem edit (hcell : cells key = some header) (hfirst : header'.firstChild = header.firstChild)
    (hnext : header'.nextSibling = header.nextSibling) :
    Family v (update cells key (some header')) origins kids := by
  refine h.congr fun k => ?_
  by_cases hk : k = key
  · subst hk
    simp [hcell, hfirst, hnext]
  · rw [update_of_ne hk]

theorem insert (hfree : ∀ g, cells ⟨key.index, g⟩ = none) (hfirst : header.firstChild = none)
    {origins' : Nat → Option Origin} (horigins : ∀ i, i ≠ key.index → origins' i = origins i) :
    Family v (update cells key (some header)) origins' kids := by
  have hvacant : ∀ k, k.index = key.index → cells k = none := by
    intro k hk
    rw [show k = ⟨key.index, k.generation⟩ by rw [← hk]]
    exact hfree k.generation
  have hother : ∀ k ref, ref ∈ kids k → ref.key.index ≠ key.index := by
    intro k ref href hindex
    have hsome := (h.child k ref href).2.1
    rw [hvacant ref.key hindex] at hsome
    cases hsome
  have hkey : ∀ k ref, ref ∈ kids k → ref.key ≠ key :=
    fun k ref href heq => hother k ref href (by rw [heq])
  refine ⟨?_, ?_, ?_, h.nodup, h.sole, ?_⟩
  · intro k other hk
    have hcongr : Chain (sibling cells) other.firstChild (kids k) := by
      by_cases hkk : k = key
      · subst hkk
        rw [update_self] at hk
        cases hk
        rw [h.bare k (hvacant k rfl)]
        exact hfirst
      · rw [update_of_ne hkk] at hk
        exact h.chain k other hk
    refine hcongr.congr fun ref href => ?_
    rw [sibling, sibling, update_of_ne (hkey k ref href)]
  · intro k hnone
    apply h.bare
    by_cases hkk : k = key
    · subst hkk
      exact hvacant k rfl
    · rwa [update_of_ne hkk] at hnone
  · intro k ref href
    obtain ⟨hworker, hsome, hnone⟩ := h.child k ref href
    refine ⟨hworker, ?_, ?_⟩
    · rw [update_of_ne (hkey k ref href)]
      exact hsome
    · rw [horigins _ (hother k ref href)]
      exact hnone
  · intro i hi
    by_cases hindex : i = key.index
    · exact ⟨key, hindex.symm, by simp⟩
    · rw [horigins i hindex] at hi
      obtain ⟨k, hk, hsome⟩ := h.resident i hi
      refine ⟨k, hk, ?_⟩
      rw [update_of_ne (by rintro rfl; exact hindex hk.symm)]
      exact hsome

theorem origin_of_free (hfree : ∀ g, cells ⟨key.index, g⟩ = none) :
    origins key.index = none := by
  by_contra hne
  obtain ⟨k, hindex, hsome⟩ := h.resident key.index (Option.isSome_iff_ne_none.mpr hne)
  rw [show k = ⟨key.index, k.generation⟩ by rw [← hindex], hfree] at hsome
  cases hsome

theorem link {child parent : SlabKey} {c p : TaskHeader} (hc : cells child = some c)
    (hp : cells parent = some p) (hne : parent ≠ child) (hnone : origins child.index = none)
    (hfresh : ∀ k, ⟨v, child⟩ ∉ kids k) :
    Family v
      (update (update cells child (some { c with nextSibling := p.firstChild }))
        parent (some { p with firstChild := some ⟨v, child⟩ }))
      origins (update kids parent (⟨v, child⟩ :: kids parent)) := by
  generalize hcells : update (update cells child (some { c with nextSibling := p.firstChild })) parent
    (some { p with firstChild := some ⟨v, child⟩ }) = cells'
  have hat : ∀ k, cells' k = if k = parent then some { p with firstChild := some ⟨v, child⟩ } else
      if k = child then some { c with nextSibling := p.firstChild } else cells k := by
    intro k
    rw [← hcells, update_apply, update_apply]
  have hsome : ∀ k, (cells' k).isSome = (cells k).isSome := by
    intro k
    rw [hat]
    split
    case isTrue hk => simp [hk, hp]
    case isFalse =>
      split
      case isTrue hk => simp [hk, hc]
      case isFalse => rfl
  have hsibling : ∀ ref, ref ≠ ⟨v, child⟩ → ref.workerId = v →
      sibling cells' ref = sibling cells ref := by
    intro ref href hv
    have hchild : ref.key ≠ child := by
      rintro rfl
      exact href (by rw [← hv])
    rw [sibling, sibling, hat, if_neg hchild]
    split
    case isTrue hk =>
      rw [hk, hp]
      rfl
    case isFalse => rfl
  have hchain : ∀ k other, cells k = some other → Chain (sibling cells') other.firstChild (kids k) := by
    intro k other hk
    refine (h.chain k other hk).congr fun ref href => hsibling ref ?_ (h.child k ref href).1
    rintro rfl
    exact hfresh k href
  have hmem : ∀ k ref, ref ∈ update kids parent (⟨v, child⟩ :: kids parent) k →
      k = parent ∧ ref = ⟨v, child⟩ ∨ ref ∈ kids k := by
    intro k ref href
    rw [update_apply] at href
    split at href
    case isFalse => exact .inr href
    case isTrue hk =>
      rw [hk]
      rcases List.mem_cons.mp href with hnew | hold
      · exact .inl ⟨rfl, hnew⟩
      · exact .inr hold
  refine ⟨?_, ?_, ?_, ?_, ?_, ?_⟩
  · intro k other hk
    rw [hat] at hk
    rw [update_apply]
    split at hk
    case isTrue hkp =>
      cases hk
      have hnext : sibling cells' ⟨v, child⟩ = p.firstChild := by
        rw [sibling, hat, if_neg (Ne.symm hne), if_pos rfl]
        rfl
      rw [if_pos hkp]
      refine ⟨rfl, ?_⟩
      rw [hnext]
      exact hchain parent p hp
    case isFalse hkp =>
      rw [if_neg hkp]
      split at hk
      case isTrue hkc =>
        cases hk
        rw [hkc]
        exact hchain child c hc
      case isFalse => exact hchain k other hk
  · intro k hnil
    have hnot : cells k = none := by
      rw [← Option.not_isSome_iff_eq_none, ← hsome, hnil]
      simp
    have hkp : k ≠ parent := by
      rintro rfl
      rw [hp] at hnot
      cases hnot
    rw [update_of_ne hkp]
    exact h.bare k hnot
  · intro k ref href
    rw [hsome]
    rcases hmem k ref href with ⟨-, rfl⟩ | hold
    · exact ⟨rfl, by simp [hc], hnone⟩
    · exact h.child k ref hold
  · intro k
    rw [update_apply]
    split
    · exact List.nodup_cons.mpr ⟨hfresh parent, h.nodup parent⟩
    · exact h.nodup k
  · intro k k' ref href href'
    rcases hmem k ref href with ⟨hk, rfl⟩ | hold
    · rcases hmem k' _ href' with ⟨hk', -⟩ | hold'
      · exact hk.trans hk'.symm
      · exact absurd hold' (hfresh k')
    · rcases hmem k' ref href' with ⟨-, rfl⟩ | hold'
      · exact absurd hold (hfresh k)
      · exact h.sole k k' ref hold hold'
  · intro i hi
    obtain ⟨k, hindex, hk⟩ := h.resident i hi
    exact ⟨k, hindex, by rw [hsome]; exact hk⟩

theorem free {origins' : Nat → Option Origin} (hlone : ∀ k, ⟨v, key⟩ ∉ kids k)
    (hnone : origins' key.index = none) (horigins : ∀ i, i ≠ key.index → origins' i = origins i)
    (hslot : ∀ k, k.index = key.index → (cells k).isSome = true → k = key) :
    Family v (update cells key none) origins' (update kids key []) := by
  have hkey : ∀ k ref, ref ∈ kids k → ref.key ≠ key := by
    intro k ref href heq
    obtain ⟨hworker, -, -⟩ := h.child k ref href
    exact hlone k (by rw [← heq, ← hworker]; exact href)
  have hmem : ∀ k ref, ref ∈ update kids key [] k → k ≠ key ∧ ref ∈ kids k := by
    intro k ref href
    by_cases hk : k = key
    · subst hk
      simp at href
    · rw [update_of_ne hk] at href
      exact ⟨hk, href⟩
  refine ⟨?_, ?_, ?_, ?_, ?_, ?_⟩
  · intro k other hk
    have hkk : k ≠ key := by
      rintro rfl
      simp at hk
    rw [update_of_ne hkk] at hk ⊢
    refine (h.chain k other hk).congr fun ref href => ?_
    rw [sibling, sibling, update_of_ne (hkey k ref href)]
  · intro k hk
    by_cases hkk : k = key
    · subst hkk
      simp
    · rw [update_of_ne hkk] at hk ⊢
      exact h.bare k hk
  · intro k ref href
    obtain ⟨-, hold⟩ := hmem k ref href
    obtain ⟨hworker, hsome, horigin⟩ := h.child k ref hold
    refine ⟨hworker, ?_, ?_⟩
    · rw [update_of_ne (hkey k ref hold)]
      exact hsome
    · by_cases hindex : ref.key.index = key.index
      · rw [hindex]
        exact hnone
      · rw [horigins _ hindex]
        exact horigin
  · intro k
    by_cases hk : k = key
    · subst hk
      simp
    · rw [update_of_ne hk]
      exact h.nodup k
  · intro k k' ref href href'
    exact h.sole k k' ref (hmem k ref href).2 (hmem k' ref href').2
  · intro i hi
    have hindex : i ≠ key.index := by
      rintro rfl
      rw [hnone] at hi
      cases hi
    rw [horigins i hindex] at hi
    obtain ⟨k, hk, hsome⟩ := h.resident i hi
    refine ⟨k, hk, ?_⟩
    rw [update_of_ne (by rintro rfl; exact hindex hk.symm)]
    exact hsome

theorem unlink {cells' : SlabKey → Option TaskHeader} {parent : SlabKey} {child : TaskRef}
    {xs ys : List TaskRef} (hkids : kids parent = xs ++ child :: ys)
    (hsome : ∀ k, (cells' k).isSome = (cells k).isSome)
    (hfirst : ∀ k header, cells' k = some header → header.firstChild =
      if k = parent ∧ xs = [] then sibling cells child else (cells k).bind (·.firstChild))
    (hnext : ∀ ref, ref.workerId = v → ref ≠ child → sibling cells' ref =
      if xs.getLast? = some ref then sibling cells child else sibling cells ref) :
    Family v cells' origins (update kids parent (xs ++ ys)) := by
  have hnodup := h.nodup parent
  rw [hkids] at hnodup
  have hmem : ∀ k ref, ref ∈ update kids parent (xs ++ ys) k → ref ∈ kids k := by
    intro k ref href
    rw [update_apply] at href
    split at href
    case isFalse => exact href
    case isTrue hk =>
      rw [hk, hkids]
      exact ((List.sublist_cons_self child ys).append_left xs).subset href
  have hnot : child ∉ xs ++ ys := by
    intro hchild
    have hperm := List.perm_middle.nodup_iff.mp hnodup
    exact (List.nodup_cons.mp hperm).1 hchild
  refine ⟨?_, ?_, ?_, ?_, ?_, ?_⟩
  · intro k header hk
    obtain ⟨old, hold⟩ := Option.isSome_iff_exists.mp ((hsome k).symm.trans (by simp [hk]))
    have hchain := h.chain k old hold
    rw [hfirst k header hk, hold]
    by_cases hkp : k = parent
    · subst hkp
      rw [hkids] at hchain
      have hremoved : Chain (sibling cells') (if xs = [] then sibling cells child else old.firstChild)
          (xs ++ ys) := by
        refine hchain.remove hnodup fun ref href => ?_
        have hin : ref ∈ kids k := hmem k ref (by rw [update_self]; exact href)
        exact hnext ref (h.child k ref hin).1 (by rintro rfl; exact hnot href)
      simpa using hremoved
    · rw [update_of_ne hkp, if_neg (fun hand => hkp hand.1)]
      refine hchain.congr fun ref href => ?_
      have hapart : ref ∉ kids parent := fun hin => hkp (h.sole k parent ref href hin)
      rw [hkids] at hapart
      rw [hnext ref (h.child k ref href).1, if_neg]
      · intro hlast
        exact hapart (List.mem_append_left _ (List.mem_of_getLast? hlast))
      · rintro rfl
        exact hapart (by simp)
  · intro k hk
    have hold : cells k = none := by
      rw [← Option.not_isSome_iff_eq_none, ← hsome, hk]
      simp
    have hempty := h.bare k hold
    refine List.eq_nil_iff_forall_not_mem.mpr fun ref href => ?_
    have hin := hmem k ref href
    rw [hempty] at hin
    cases hin
  · intro k ref href
    rw [hsome]
    exact h.child k ref (hmem k ref href)
  · intro k
    by_cases hk : k = parent
    · subst hk
      rw [update_self]
      exact (List.nodup_cons.mp (List.perm_middle.nodup_iff.mp hnodup)).2
    · rw [update_of_ne hk]
      exact h.nodup k
  · intro k k' ref href href'
    exact h.sole k k' ref (hmem k ref href) (hmem k' ref href')
  · intro i hi
    obtain ⟨k, hindex, hk⟩ := h.resident i hi
    exact ⟨k, hindex, by rw [hsome]; exact hk⟩

end Family

end Kwokka
