import Kwokka.IrLayout
import Kwokka.IrRoundTrip

/-! The name lookup on an accepted blob. Validation checks that the sorted index is in
order and names ordinals below the stage count, not that it names each of them. -/

namespace Kwokka.Ir

open Bytes Outcome

namespace RegistryView

def Lists (view : RegistryView) (ordinal : Nat) : Prop :=
  ∃ rank < view.stageCount.toNat, ∃ listed ∈ view.sortedOrdinal rank, listed.toNat = ordinal

end RegistryView

theorem nameAtRank_le {view : RegistryView} {names : Nat → List UInt8} {count : Nat}
    (hname : ∀ rank < count, view.nameAtRank rank = some (names rank))
    (hnext : ∀ r, r + 1 < count → ∀ prev ∈ view.nameAtRank r, ∀ name ∈ view.nameAtRank (r + 1),
      ¬ name < prev) (r s : Nat) (hrs : r ≤ s) (hs : s < count) : names r ≤ names s := by
  induction s with
  | zero =>
    obtain rfl : r = 0 := by omega
    exact Std.le_refl _
  | succ s ih =>
    rcases Nat.eq_or_lt_of_le hrs with rfl | hlt
    · exact Std.le_refl _
    · have hstep : names s ≤ names (s + 1) :=
        hnext s hs (names s) (hname s (by omega)) (names (s + 1)) (hname (s + 1) hs)
      exact Std.le_trans (ih (by omega) (by omega)) hstep

/-- The lookup on an accepted blob finds exactly the names that the sorted index lists; when the
index lists every ordinal, these are all the names. -/
theorem lookup_finds_listed (bytes : List UInt8) (ir : KwokkaIr) (view : ConductorView)
    (reg : RegistryView) (name : List UInt8) (hvalid : validate bytes = .ok ir)
    (hview : ir.conductor = .ok view) (hreg : view.registry = some reg) :
    ∃ found, reg.lookup name = .ok found ∧
      (∀ ordinal, found = some ordinal → reg.name ordinal = some name) ∧
      (found = none → ∀ ordinal, reg.Lists ordinal → reg.name ordinal ≠ some name) ∧
      ((∀ ordinal < view.stageCount.toNat, reg.Lists ordinal) → found = none →
        ∀ ordinal < view.stageCount.toNat, reg.name ordinal ≠ some name) := by
  obtain ⟨hparse, hshort⟩ := validate_parsed hvalid hview
  obtain ⟨hsound, hnext⟩ := ((parse_ensures hshort).of_ok hparse).registry reg hreg
  have hranked : ∀ rank < view.stageCount.toNat, ∃ listed, reg.sortedOrdinal rank = some listed ∧
      ∃ ranked, reg.name listed.toNat = some ranked := by
    intro rank hrank
    obtain ⟨listed, hlisted, hlt⟩ := hsound.sorted_lt rank hrank
    exact ⟨listed, hlisted, Option.isSome_iff_exists.mp (hsound.name_isSome _ hlt)⟩
  have hname : ∀ rank < view.stageCount.toNat,
      reg.nameAtRank rank = some ((reg.nameAtRank rank).getD []) := by
    intro rank hrank
    obtain ⟨listed, hlisted, ranked, hranked⟩ := hranked rank hrank
    simp [RegistryView.nameAtRank, hlisted, hranked]
  have hlookup : ∃ found, reg.lookup name = .ok found ∧
      (∀ ordinal ∈ found, reg.name ordinal = some name) ∧
      (found = none → ∀ rank < view.stageCount.toNat, (reg.nameAtRank rank).getD [] ≠ name) :=
    lookup_spec (congrArg UInt32.toNat hsound.count_eq) hname (nameAtRank_le hname hnext)
  obtain ⟨found, hfound, hsome, hnone⟩ := hlookup
  have hlisted : found = none → ∀ ordinal, reg.Lists ordinal → reg.name ordinal ≠ some name := by
    rintro hempty ordinal ⟨rank, hrank, listed, hlisted, rfl⟩ hsame
    rw [RegistryView.stageCount, hsound.count_eq] at hrank
    have hmiss := hnone hempty rank hrank
    rw [Option.mem_def] at hlisted
    simp [RegistryView.nameAtRank, hlisted, hsame] at hmiss
  exact ⟨found, hfound, hsome, hlisted, fun hall hempty ordinal hlt =>
    hlisted hempty ordinal (hall ordinal hlt)⟩

/-- Two stages, `a` and `b`, with `index` as the sorted index. -/
def namedBlob (index : List UInt8) : List UInt8 :=
  magic ++ leBytes 2 1 ++ leBytes 2 0 ++ leBytes 4 104 ++ leBytes 4 16 ++
    leBytes 2 1 ++ leBytes 2 0 ++ leBytes 4 88 ++
    leBytes 4 2 ++ leBytes 4 0 ++ leBytes 4 24 ++ leBytes 4 56 ++ leBytes 4 56 ++ leBytes 4 0 ++
    List.replicate 32 0 ++
    leBytes 4 76 ++ leBytes 4 1 ++ leBytes 4 77 ++ leBytes 4 1 ++ index ++
    [0x61, 0x62, 0, 0]

def namedRegistry (index : List UInt8) : RegistryView where
  body := (namedBlob index).drop 24
  nameTable := leBytes 4 76 ++ leBytes 4 1 ++ leBytes 4 77 ++ leBytes 4 1
  sortedIndex := index
  count := 2

def namedView (index : List UInt8) : ConductorView where
  body := (namedBlob index).drop 24
  stageCount := 2
  edgeCount := 0
  stageTable := List.replicate 32 0
  edgeTable := []
  registry := some (namedRegistry index)
  configCount := 0
  configEntries := []

theorem lookup_finds_listed_named :
    validate (namedBlob [0, 0, 1, 0]) = .ok ⟨namedBlob [0, 0, 1, 0]⟩ ∧
      ∃ found, (namedRegistry [0, 0, 1, 0]).lookup [0x62] = .ok found ∧
        (∀ ordinal, found = some ordinal → (namedRegistry [0, 0, 1, 0]).name ordinal = some [0x62]) ∧
        (found = none → ∀ ordinal, (namedRegistry [0, 0, 1, 0]).Lists ordinal →
          (namedRegistry [0, 0, 1, 0]).name ordinal ≠ some [0x62]) ∧
        ((∀ ordinal < (namedView [0, 0, 1, 0]).stageCount.toNat,
            (namedRegistry [0, 0, 1, 0]).Lists ordinal) → found = none →
          ∀ ordinal < (namedView [0, 0, 1, 0]).stageCount.toNat,
            (namedRegistry [0, 0, 1, 0]).name ordinal ≠ some [0x62]) :=
  have hvalid : validate (namedBlob [0, 0, 1, 0]) = .ok ⟨namedBlob [0, 0, 1, 0]⟩ := by decide +kernel
  ⟨hvalid, lookup_finds_listed (namedBlob [0, 0, 1, 0]) _ (namedView [0, 0, 1, 0]) _ _ hvalid
    (by decide +kernel) rfl⟩

/-- An index that lists stage `a` twice is accepted, and the lookup of `b` misses. -/
theorem repeated_index_misses : ¬ ∀ bytes ir view
    reg name, validate bytes = .ok ir → ir.conductor = .ok view →
      view.registry = some reg → reg.lookup name = .ok none →
        ∀ ordinal < view.stageCount.toNat, reg.name ordinal ≠ some name := by
  intro h
  have hvalid : validate (namedBlob [0, 0, 0, 0]) = .ok ⟨namedBlob [0, 0, 0, 0]⟩ := by decide +kernel
  exact h _ _ (namedView [0, 0, 0, 0]) (namedRegistry [0, 0, 0, 0]) [0x62] hvalid
    (by decide +kernel) rfl (by decide +kernel) 1 (by decide) (by decide +kernel)

end Kwokka.Ir
