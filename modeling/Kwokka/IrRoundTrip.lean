import Kwokka.IrAccess
import Kwokka.IrVerdict

/-! The view of an accepted written blob reads the caller's input back: its policies,
edges, names and bindings, and the lookup of every name. -/

namespace Kwokka.Ir

open Bytes Outcome

theorem filterMap_range_eq {β : Type} {f : Nat → Option β} {l : List β} {n : Nat}
    (hn : n = l.length) (h : ∀ i < n, f i = l[i]?) : (List.range n).filterMap f = l := by
  have hsome : ∀ i ∈ List.range n, (f i).isSome = true := by
    intro i hi
    have hlt := List.mem_range.mp hi
    rw [h i hlt, List.getElem?_eq_getElem (by omega)]
    rfl
  apply List.ext_getElem?
  intro i
  rw [getElem?_filterMap_of_isSome hsome]
  by_cases hlt : i < n
  · rw [List.getElem?_range hlt, Option.bind_some, h i hlt]
  · rw [List.getElem?_eq_none (by simpa using hlt), List.getElem?_eq_none (by omega)]
    rfl

section Lookup

variable {view : RegistryView} {query : List UInt8} {names : Nat → List UInt8} {count : Nat}

theorem lookupLoop_spec
    (hname : ∀ rank < count, view.nameAtRank rank = some (names rank))
    (hsorted : ∀ r s, r ≤ s → s < count → names r ≤ names s)
    (fuel low high : Nat) (hhigh : high ≤ count) (hfuel : high < fuel + low) (hpos : 0 < fuel) :
    ∃ found, view.lookupLoop query fuel low high = .ok found ∧
      (∀ ordinal ∈ found, view.name ordinal = some query) ∧
      (found = none → ∀ rank, low ≤ rank → rank < high → names rank ≠ query) := by
  induction fuel generalizing low high with
  | zero => exact absurd hpos (Nat.lt_irrefl 0)
  | succ fuel ih =>
    rw [RegistryView.lookupLoop]
    by_cases hlt : low < high
    · rw [if_pos hlt]
      dsimp only
      have hlow : low ≤ low + (high - low) / 2 := Nat.le_add_right _ _
      have hmid : low + (high - low) / 2 < high := by omega
      generalize low + (high - low) / 2 = mid at hlow hmid
      obtain ⟨ordinal, hordinal, hprobe⟩ :=
        Option.bind_eq_some_iff.mp (hname mid (by omega))
      rw [hordinal]
      dsimp only
      rw [hprobe]
      dsimp only
      by_cases heq : query = names mid
      · rw [if_pos heq]
        refine ⟨some ordinal.toNat, rfl, ?_, fun h => absurd h (by simp)⟩
        intro found hfound
        cases hfound
        rw [hprobe, heq]
      · rw [if_neg heq]
        by_cases hless : query < names mid
        · -- every name from `mid` on is beyond the query
          rw [if_pos hless]
          obtain ⟨found, hfound, hsome, hnone⟩ := ih low mid (by omega) (by omega) (by omega)
          refine ⟨found, hfound, hsome, fun h rank hle hrank hsame => ?_⟩
          by_cases hbefore : rank < mid
          · exact hnone h rank hle hbefore hsame
          · have hmono := hsorted mid rank (by omega) (by omega)
            rw [hsame] at hmono
            exact hmono hless
        · -- every name up to `mid` is before the query
          rw [if_neg hless]
          obtain ⟨found, hfound, hsome, hnone⟩ := ih (mid + 1) high hhigh (by omega) (by omega)
          refine ⟨found, hfound, hsome, fun h rank hle hrank hsame => ?_⟩
          by_cases hafter : mid < rank
          · exact hnone h rank hafter hrank hsame
          · have hmono := hsorted rank mid (by omega) (by omega)
            rw [hsame] at hmono
            exact hless (Std.lt_of_le_of_ne hmono heq)
    · rw [if_neg hlt]
      exact ⟨none, rfl, fun _ hmem => absurd hmem (by simp), fun _ rank hle hrank => by omega⟩

theorem lookup_spec (hcount : view.count.toNat = count)
    (hname : ∀ rank < count, view.nameAtRank rank = some (names rank))
    (hsorted : ∀ r s, r ≤ s → s < count → names r ≤ names s) :
    ∃ found, view.lookup query = .ok found ∧
      (∀ ordinal ∈ found, view.name ordinal = some query) ∧
      (found = none → ∀ rank < count, names rank ≠ query) := by
  obtain ⟨found, hfound, hsome, hnone⟩ := lookupLoop_spec hname hsorted (count + 1) 0 count
    (Nat.le_refl _) (by omega) (Nat.succ_pos _)
  refine ⟨found, ?_, hsome, fun h rank hrank => hnone h rank (Nat.zero_le _) hrank⟩
  rw [RegistryView.lookup, RegistryView.stageCount, hcount, hfound]

end Lookup

section Written

variable {layout : Layout} {blob : ConductorBlob} {body : List UInt8}

variable (hfits : layout.Fits blob)

include hfits

variable (h : layout.Encoded blob body)

include h

theorem writtenView_policyBody {i : Nat} {stage : StageSpec} (hi : blob.stages[i]? = some stage) :
    ∃ entry, (writtenView layout blob body).stage i = some { body, entry } ∧
      ∀ kind, StageView.policyBody { body, entry } kind = stage.policyBytes kind := by
  have hlt := h.length_lt hfits
  have hoffsets := hfits.offsets
  have htable := h.stages.le
  have htableLen := length_stageTableBytes layout blob
  have hiLt : i < blob.stages.length := (List.getElem?_eq_some_iff.mp hi).1
  obtain ⟨entry, hentry⟩ : ∃ entry,
      slice (stageTableBytes layout blob)
        (i * 16) (i * 16 + 16) = some entry := slice_of_le (by omega) (by omega)
  have htableEntry :
      ConductorView.tableEntry (stageTableBytes layout blob) stageEntryLen i = some entry := by
    rw [tableEntry_eq (by simp only [stageEntryLen, PolicyKind.count]; omega)]
    exact hentry
  refine ⟨entry, ?_, fun kind => ?_⟩
  · simp [ConductorView.stage, writtenView, hfits.stageCount, Nat.not_le.mpr hiLt, htableEntry]
  · obtain ⟨j, hj⟩ := List.mem_iff_getElem?.mp (PolicyKind.mem_all kind)
    have hslot := policySlots_getElem? hi hj
    have hread := readU32_slot hfits h hslot hentry (List.getElem?_eq_some_iff.mp hj).1
    rw [← all_getElem?_slotField hj] at hread
    cases hbytes : stage.policyBytes kind with
    | none =>
      rw [hbytes] at hread
      exact StageView.policyBody_of_zero hread
    | some record =>
      rw [hbytes] at hread hslot
      obtain ⟨_, _, hfirst, hlast⟩ := slotSpan_within hslot
        (show slotSpan layout blob (i * 4 + j) (kind, some record) = some _ from rfl)
      have hrecords := h.records.le
      rw [← recordsLen] at hrecords
      rw [if_neg (by simp)] at hread
      have hstart : recordStart layout.policyHeapOff (policySlots blob.stages) (i * 4 + j) <
          2 ^ 32 := by omega
      have hnat := toNat_ofNat_u32 hstart
      have hrecord := readRecord_slot hfits h hslot
      rw [← hnat] at hrecord
      generalize UInt32.ofNat (recordStart layout.policyHeapOff (policySlots blob.stages)
        (i * 4 + j)) = slotOffset at hread hnat hrecord
      have hne : slotOffset ≠ 0 := by
        intro hzero
        rw [hzero, UInt32.toNat_zero] at hnat
        omega
      exact @StageView.policyBody_of_record ⟨body, entry⟩ kind slotOffset ⟨kind.nodeTag, record⟩
        hread hne hrecord rfl

theorem writtenView_stage {i : Nat} {stage : StageSpec} (hi : blob.stages[i]? = some stage) :
    ∃ view, (writtenView layout blob body).stage i = some view ∧ view.limiter = stage.limiter ∧
      view.timeout = stage.timeout ∧ view.retry = stage.retry ∧ view.breaker = stage.breaker := by
  obtain ⟨entry, hstage, hbody⟩ := writtenView_policyBody hfits h hi
  refine ⟨_, hstage, ?_, ?_, ?_, ?_⟩
  · rw [StageView.limiter, hbody, StageSpec.policyBytes]
    cases stage.limiter with
    | none => rfl
    | some => simp [limiter_parse_bytes]
  · rw [StageView.timeout, hbody, StageSpec.policyBytes]
    cases stage.timeout with
    | none => rfl
    | some => simp [timeout_parse_bytes]
  · rw [StageView.retry, hbody, StageSpec.policyBytes]
    cases stage.retry with
    | none => rfl
    | some => simp [retry_parse_bytes]
  · rw [StageView.breaker, hbody, StageSpec.policyBytes]
    cases stage.breaker with
    | none => rfl
    | some => simp [breaker_parse_bytes]

theorem writtenView_edges :
    (writtenView layout blob body).edges = blob.edges := by
  have hlt := h.length_lt hfits
  have hle := h.edges.le
  rw [length_edgeTable] at hle
  refine filterMap_range_eq hfits.edgeCount fun i hi => ?_
  have hi : i < blob.edges.length := by rw [← hfits.edgeCount]; exact hi
  obtain ⟨edge, hedge⟩ : ∃ edge, blob.edges[i]? = some edge := ⟨_, List.getElem?_eq_getElem hi⟩
  have hentries : ∀ e ∈ blob.edges.map edgeBytes, e.length = EdgeView.len :=
    List.forall_mem_map.mpr fun edge _ => length_edgeBytes edge
  have hat := (At.self (blob.edges.map edgeBytes).flatten).entry hentries
    (by rw [List.getElem?_map, hedge]; rfl)
  rw [Nat.zero_add] at hat
  have htable : ConductorView.tableEntry (blob.edges.map edgeBytes).flatten EdgeView.len i =
      some (edgeBytes edge) := by
    rw [tableEntry_eq (by simp only [EdgeView.len]; omega)]
    exact hat.slice_eq (by rw [length_edgeBytes])
  simp [ConductorView.edge, writtenView, htable, edge_parse_bytes, hedge]

theorem writtenView_configBindings :
    (writtenView layout blob body).configBindings =
      blob.config.map ConfigBindingSpec.toView := by
  have hlt := h.length_lt hfits
  have hle : blob.config.length * 32 ≤ body.length := by
    by_cases hempty : blob.config = []
    · rw [hempty]; exact Nat.zero_le _
    · have hsection := (h.config hempty).1.right.right.le
      rw [length_bindingEntries] at hsection
      omega
  have hcount : (UInt32.ofNat blob.config.length).toNat = blob.config.length :=
    toNat_ofNat_u32 (by omega)
  refine filterMap_range_eq (by rw [List.length_map]; exact hcount) fun i hi => ?_
  have hi : i < blob.config.length := by rw [← hcount]; exact hi
  obtain ⟨binding, hbinding⟩ : ∃ binding, blob.config[i]? = some binding :=
    ⟨_, List.getElem?_eq_getElem hi⟩
  obtain ⟨hentry, hparse⟩ := binding_parse_entry hfits h hbinding
  have hat := (At.self (configTable layout blob)).entry (length_of_mem_bindingEntries _ _) hentry
  rw [Nat.zero_add] at hat
  have htable := hat.slice_eq rfl
  rw [length_bindingBytes, ← tableEntry_eq (by simp only [ConfigBindingView.len]; omega)] at htable
  generalize keysOff layout blob + ((keyBytes blob.config).take i).flatten.length = start
    at hparse htable
  simp [ConductorView.configBinding, writtenView, htable, hparse, hbinding]

theorem registryView_lookup (hwf : blob.WellFormed) {reg : RegistrySpec}
    (hreg : reg ∈ blob.registry)
    (hperm : (reg.sorted.map UInt16.toNat).Perm (List.range blob.stages.length)) {i : Nat}
    {name : List UInt8} (hi : reg.names[i]? = some name) :
    ∃ ordinal, (registryView layout body reg).lookup name = .ok (some ordinal) ∧
      (registryView layout body reg).name ordinal = some name := by
  obtain ⟨hnamesLen, hsortedLen⟩ := hfits.arity reg hreg
  have hlt := hwf.sorted_lt reg hreg
  have hinNames : ∀ ordinal ∈ reg.sorted, ordinal.toNat < reg.names.length := by
    rw [hnamesLen]
    exact hlt
  have hlen : reg.sortedNames.length = blob.stages.length := by
    rw [length_sortedNames hinNames, hsortedLen]
  have hpairwise := List.pairwise_iff_getElem.mp (hwf.sorted_le reg hreg)
  have hget : ∀ rank, (hrank : rank < blob.stages.length) →
      reg.sortedNames[rank]?.getD [] = reg.sortedNames[rank] := by
    intro rank hrank
    rw [List.getElem?_eq_getElem (by omega), Option.getD_some]
  obtain ⟨found, hfound, hsome, hnone⟩ : ∃ found,
      (registryView layout body reg).lookup name = .ok found ∧
      (∀ ordinal ∈ found, (registryView layout body reg).name ordinal = some name) ∧
      (found = none → ∀ rank < blob.stages.length, reg.sortedNames[rank]?.getD [] ≠ name) := by
    refine lookup_spec hfits.stageCount ?_ ?_
    · intro rank hrank
      rw [hget rank hrank]
      exact registryView_nameAtRank hfits h hreg hlt (List.getElem?_eq_getElem (by omega))
    · intro r s hrs hs
      rw [hget r (by omega), hget s hs]
      rcases Nat.eq_or_lt_of_le hrs with rfl | hrs
      · exact List.le_refl _
      · exact hpairwise r s (by omega) (by omega) hrs
  cases found with
  | some ordinal => exact ⟨ordinal, hfound, hsome ordinal rfl⟩
  | none =>
    -- the permutation has a rank for ordinal `i`
    have hiLt : i < blob.stages.length := by
      rw [← hnamesLen]
      exact (List.getElem?_eq_some_iff.mp hi).1
    have hmem : i ∈ reg.sorted.map UInt16.toNat := hperm.mem_iff.mpr (List.mem_range.mpr hiLt)
    obtain ⟨ordinal, hordinal, rfl⟩ := List.mem_map.mp hmem
    obtain ⟨rank, hrank⟩ := List.mem_iff_getElem?.mp hordinal
    have hrankLt : rank < blob.stages.length := by
      rw [← hsortedLen]
      exact (List.getElem?_eq_some_iff.mp hrank).1
    refine absurd ?_ (hnone rfl rank hrankLt)
    rw [sortedNames_getElem? hinNames, hrank, Option.bind_some, hi, Option.getD_some]

structure ConductorView.Reproduces (view : ConductorView) (blob : ConductorBlob) : Prop where
  stageCount : view.stageCount.toNat = blob.stages.length
  stages : ∀ i stage, blob.stages[i]? = some stage → ∃ found, view.stage i = some found ∧
    found.limiter = stage.limiter ∧ found.timeout = stage.timeout ∧
    found.retry = stage.retry ∧ found.breaker = stage.breaker
  edges : view.edges = blob.edges
  registry_isSome : view.registry.isSome = blob.registry.isSome
  names : ∀ reg ∈ blob.registry, ∀ found ∈ view.registry,
    ∀ i name, reg.names[i]? = some name → found.name i = some name
  config : view.configBindings = blob.config.map ConfigBindingSpec.toView
  lookup : ∀ reg ∈ blob.registry, ∀ found ∈ view.registry,
    (reg.sorted.map UInt16.toNat).Perm (List.range blob.stages.length) →
    ∀ (i : Nat) name, reg.names[i]? = some name →
      ∃ ordinal, found.lookup name = .ok (some ordinal) ∧ found.name ordinal = some name

theorem writtenView_reproduces
    (hwf : blob.WellFormed) : (writtenView layout blob body).Reproduces blob := by
  have hview : ∀ reg ∈ blob.registry, ∀ found ∈ (writtenView layout blob body).registry,
      found = registryView layout body reg := by
    intro reg hreg found hfound
    rw [writtenView, Option.mem_def.mp hreg] at hfound
    exact (Option.some.inj hfound).symm
  refine ⟨hfits.stageCount, fun i stage => writtenView_stage hfits h, writtenView_edges hfits h,
    Option.isSome_map, ?_, writtenView_configBindings hfits h, ?_⟩
  · intro reg hreg found hfound i name hi
    rw [hview reg hreg found hfound]
    exact registryView_name hfits h hreg hi
  · intro reg hreg found hfound hperm i name hi
    rw [hview reg hreg found hfound]
    exact registryView_lookup hfits h hwf hreg hperm hi

end Written

/-- A blob the writer returned is accepted exactly when the caller's ordinals and names are
in order, and then its view is the caller's input. -/
theorem writeConductor_roundTrip {buf out : List UInt8} {blob : ConductorBlob} {n : Nat}
    (h : writeConductor buf blob = .ok (n, out)) :
    ((∃ ir, validate (out.take n) = .ok ir) ↔ blob.WellFormed) ∧
    ∀ ir, validate (out.take n) = .ok ir →
      ∃ view, ir.conductor = .ok view ∧ view.Reproduces blob := by
  obtain ⟨layout, hlayout, h⟩ := bind_eq_ok.mp h
  obtain ⟨_, hroom, h⟩ := bind_eq_ok.mp h
  obtain ⟨written, hwritten, h⟩ := bind_eq_ok.mp h
  obtain ⟨rfl, rfl⟩ : layout.total = n ∧ written = out := by simpa using h
  have hfits := Layout.compute_fits hlayout
  have hsections : writeSections buf layout blob = some written := by
    cases hput : writeSections buf layout blob with
    | none => rw [hput] at hwritten; cases hwritten
    | some => rw [hput] at hwritten; rw [Outcome.ok.inj hwritten]
  obtain ⟨body, hencoded, hroot, hvalidate⟩ :=
    (writeSections_written hfits (require_eq_ok.mp hroom) hsections).encoded hfits
  refine ⟨?_, fun ir hir => ?_⟩
  · rw [hvalidate]
    constructor
    · intro hok
      obtain ⟨ir, hir⟩ := hok
      obtain ⟨view, hview, _⟩ := bind_eq_ok.mp hir
      exact ((parse_ok_iff hfits hencoded).mp hview).1
    · intro hwf
      exact ⟨_, bind_eq_ok.mpr ⟨_, (parse_ok_iff hfits hencoded).mpr ⟨hwf, rfl⟩, rfl⟩⟩
  · rw [hvalidate] at hir
    obtain ⟨view, hview, hir⟩ := bind_eq_ok.mp hir
    cases hir
    obtain ⟨hwf, rfl⟩ := (parse_ok_iff hfits hencoded).mp hview
    exact ⟨_, hroot.trans hview, writtenView_reproduces hfits hencoded hwf⟩

/-- Two stages `b` and `a`, the first with a timeout bound to the key `t`. -/
def twoStageBlob : ConductorBlob where
  stages := [⟨none, some ⟨5000⟩, none, none⟩, ⟨none, none, none, none⟩]
  edges := [⟨0, 1, 0⟩]
  registry := some ⟨[[98], [97]], [1, 0]⟩
  config := [⟨0, 0x0100, [116], ⟨2, 5000⟩⟩]

theorem twoStageBlob_wellFormed : twoStageBlob.WellFormed := by
  refine ⟨by decide, by decide, fun reg hreg => ?_, fun reg hreg => ?_⟩
  · cases hreg
    simp [twoStageBlob]
  · cases hreg
    decide

theorem writeConductor_roundTrip_twoStage :
    ∃ n out, writeConductor (List.replicate 192 0xFF) twoStageBlob = .ok (n, out) ∧
      ((∃ ir, validate (out.take n) = .ok ir) ↔ twoStageBlob.WellFormed) ∧
      ∃ ir view, validate (out.take n) = .ok ir ∧ ir.conductor = .ok view ∧
        view.Reproduces twoStageBlob := by
  have hwritten : (writeConductor (List.replicate 192 0xFF) twoStageBlob).isOk = true := by
    decide +kernel
  cases h : writeConductor (List.replicate 192 0xFF) twoStageBlob with
  | ok result =>
    obtain ⟨hiff, hview⟩ := writeConductor_roundTrip h
    obtain ⟨ir, hir⟩ := hiff.mpr twoStageBlob_wellFormed
    obtain ⟨view, hconductor, hsame⟩ := hview ir hir
    exact ⟨result.1, result.2, rfl, hiff, ir, view, hir, hconductor, hsame⟩
  | _ => rw [h] at hwritten; cases hwritten

end Kwokka.Ir
