/-
Minimal quorums, and what they have in common. The analysis looks for minimal quorums among masks and lists those that it
found as sets; the same sets in the same order are left of the list of all quorums when the sets that hold others are
taken out. Whether all quorums intersect is likewise asked of the masks of minimal quorums, and it can be read off the
smallest sets that two of them have in common: these are the empty set alone, or there is no empty set among them.

Results:
- `mem_minimalSets`: which sets of a list are minimal.
- `minimalSets_sets`: **minimal masks are minimal sets**, in the same order.
- `Analysis.minimal_quorums_listed`: the minimal quorums of a network.
- `Analysis.forall_overlaps`: the overlaps are what every two sets of a list have in common.
- `Analysis.overlaps_tell`: **the smallest overlaps tell whether quorums intersect**.
-/
import FederatedAgreement.Proofs.Analysis.Dispensable

namespace FederatedAgreement

open Sorting (SortedSet)

/-! ## Minimal sets -/

section sets
variable {l : List NodeSet} {s t : NodeSet}

theorem properSubset_iff : properSubset s t = true ↔ s ⊆ t ∧ s ≠ t := by
  simp only [properSubset, Bool.and_eq_true, decide_eq_true_eq]

theorem holds_no_other_iff : (!l.any (properSubset · s)) = true ↔ ∀ t ∈ l, t ⊆ s → t = s := by
  simp only [Bool.not_eq_true', List.any_eq_false, properSubset_iff, not_and, Decidable.not_not]

theorem mem_minimalSets : s ∈ minimalSets l ↔ s ∈ l ∧ ∀ t ∈ l, t ⊆ s → t = s := by
  rw [minimalSets, List.mem_filter, holds_no_other_iff]

theorem nodup_minimalSets (nodup : l.Nodup) : (minimalSets l).Nodup := nodup.filter _

/-- there is something in each of the sets if and only if the empty set is not one of them -/
theorem forall_inhabited_iff : (∀ s ∈ l, ∃ k, k ∈ s) ↔ ∅ ∉ l := by
  constructor
  · intro inhabited there
    obtain ⟨k, hk⟩ := inhabited ∅ there
    exact SortedSet.not_mem_empty k hk
  · intro absent s hs
    by_contra none
    have empty : s = ∅ := SortedSet.ext fun k => iff_of_false (fun hk => none ⟨k, hk⟩) (SortedSet.not_mem_empty k)
    exact absent (empty ▸ hs)

/-- of two minimal sets neither holds the other -/
theorem minimalSets_apart (nodup : l.Nodup) : (minimalSets l).Pairwise fun s t => ¬ s ⊆ t ∧ ¬ t ⊆ s := by
  apply (nodup_minimalSets nodup).imp_of_mem
  intro s t hs ht other
  obtain ⟨hs, least_s⟩ := mem_minimalSets.1 hs
  obtain ⟨ht, least_t⟩ := mem_minimalSets.1 ht
  exact ⟨fun inside => other (least_t s hs inside), fun inside => other (least_s t ht inside).symm⟩

/-- the empty set is the only minimal one if it is there -/
theorem minimalSets_eq_empty_iff (nodup : l.Nodup) : minimalSets l = [∅] ↔ ∅ ∈ l := by
  constructor
  · intro only
    have least : ∅ ∈ minimalSets l := by rw [only]; exact List.mem_singleton_self _
    exact (mem_minimalSets.1 least).1
  · intro there
    have bottom : ∀ s : NodeSet, ∅ ⊆ s := fun s k hk => absurd hk (SortedSet.not_mem_empty k)
    apply List.perm_singleton.1
    rw [List.perm_ext_iff_of_nodup (nodup_minimalSets nodup) (List.nodup_singleton _)]
    intro s
    rw [mem_minimalSets, List.mem_singleton]
    constructor
    · rintro ⟨_, least⟩
      exact (least ∅ there (bottom s)).symm
    · rintro rfl
      exact ⟨there, fun t _ inside => SortedSet.Subset.antisymm inside (bottom t)⟩

end sets

/-! ## Minimal masks -/

theorem Mask.bySize_filter (n : Nat) (p : Nat → Bool) (ms : List Nat) :
    bySize n (ms.filter p) = (bySize n ms).filter p := by
  simp only [bySize, List.filter_flatMap, List.filter_filter, Bool.and_comm]

theorem Mask.toSet_inj {nodes : NodeSet} {a b : Nat} (ha : a < 1 <<< nodes.toList.length)
    (hb : b < 1 <<< nodes.toList.length) : toSet nodes a = toSet nodes b ↔ a = b := by
  constructor
  · intro same
    rw [← ofSet_toSet ha, ← ofSet_toSet hb, same]
  · rintro rfl
    rfl

/-- **Minimal masks are minimal sets.** To take out the masks that hold others and to list the sets of those that are
left comes to the same as to list the sets of all masks and to take out those that hold others. -/
theorem minimalSets_sets {sys : SliceSystem} {ms : List Nat} (small : ∀ m ∈ ms, m < 1 <<< sys.count) :
    minimalSets (sys.sets ms) = sys.sets (Mask.minimal ms) := by
  rw [minimalSets, SliceSystem.sets, SliceSystem.sets, Mask.minimal, Mask.bySize_filter, List.filter_map]
  congr 1
  apply List.filter_congr
  intro m hm
  replace hm : m ∈ ms := Mask.mem_bySize.1 hm
  rw [Bool.eq_iff_iff]
  calc (!((Mask.bySize sys.count ms).map (Mask.toSet sys.nodes)).any (properSubset · (Mask.toSet sys.nodes m))) = true
      ↔ ∀ other ∈ ms, Mask.toSet sys.nodes other ⊆ Mask.toSet sys.nodes m →
          Mask.toSet sys.nodes other = Mask.toSet sys.nodes m := by
        simp only [holds_no_other_iff, List.forall_mem_map, Mask.mem_bySize]
    _ ↔ ∀ other ∈ ms, Mask.within other m = true → other = m := by
        refine forall₂_congr fun other hother => ?_
        rw [Mask.within_iff (small other hother), Mask.toSet_inj (small other hother) (small m hm)]
    _ ↔ m ∈ Mask.minimal ms := by rw [Mask.mem_minimal, and_iff_right hm]
    _ ↔ (ms.all fun other => !Mask.within other m || other == m) = true := by
        rw [Mask.minimal, List.mem_filter, and_iff_right hm]

/-! ## Minimal quorums of a network -/

namespace Analysis

variable {nodes : List Node} {limit : Int} {a : Analysis}

/-- the minimal quorums of an analysis are those of its quorums that hold no other -/
theorem minimalQuorums_eq (made : ofNodes nodes limit = .ok a) :
    a.minimalQuorums = minimalSets (findQuorums (.ofNodes nodes)) := by
  rw [eq_of_made made, findQuorums, minimalSets_sets SliceSystem.quorumMasks_lt]

theorem mem_minimalQuorums (made : ofNodes nodes limit = .ok a) {u : NodeSet} :
    u ∈ a.minimalQuorums ↔ (SliceMap.ofNodes nodes).IsQuorum ∅ u ∧
      ∀ w, (SliceMap.ofNodes nodes).IsQuorum ∅ w → w ⊆ u → w = u := by
  simp only [minimalQuorums_eq made, mem_minimalSets, mem_findQuorums]

/-- every quorum holds a minimal one, which the search has met as the least mask within it -/
theorem exists_minimal_quorum (made : ofNodes nodes limit = .ok a) {u : NodeSet}
    (quorum : (SliceMap.ofNodes nodes).IsQuorum ∅ u) : ∃ least ∈ a.minimalQuorums, least ⊆ u := by
  obtain ⟨m, hm, rfl⟩ := SliceSystem.mem_sets.1 (mem_findQuorums.2 quorum)
  obtain ⟨least, hleast, within⟩ := Mask.exists_minimal_within hm
  have small := SliceSystem.quorumMasks_lt least (Mask.mem_minimal.1 hleast).1
  refine ⟨_, ?_, (Mask.within_iff small).1 within⟩
  rw [eq_of_made made]
  exact SliceSystem.mem_sets.2 ⟨least, hleast, rfl⟩

/-- **The minimal quorums of a network**, found on masks, are what is left of the list of all quorums when those that hold
others are taken out, in the same order. They are just the quorums that hold no other quorum, and every quorum holds one
of them. -/
theorem minimal_quorums_listed (enough : (nodes.length : Int) ≤ limit) :
    ∃ a, ofNodes nodes limit = .ok a ∧
      a.minimalQuorums = minimalSets (findQuorums (.ofNodes nodes)) ∧
      (∀ u, u ∈ a.minimalQuorums ↔ (SliceMap.ofNodes nodes).IsQuorum ∅ u ∧
        ∀ w, (SliceMap.ofNodes nodes).IsQuorum ∅ w → w ⊆ u → w = u) ∧
      ∀ u, (SliceMap.ofNodes nodes).IsQuorum ∅ u → ∃ least ∈ a.minimalQuorums, least ⊆ u := by
  obtain ⟨a, made⟩ := ofNodes_isOk enough
  exact ⟨a, made, minimalQuorums_eq made, fun _ => mem_minimalQuorums made, fun _ => exists_minimal_quorum made⟩

/-- of three quorums two are minimal, and the smaller one comes first -/
theorem pairAndLoner_minimal :
    (pairAndLoner.length : Int) ≤ 12 ∧ ∃ a, ofNodes pairAndLoner 12 = .ok a ∧
      a.minimalQuorums = [.ofList ["C"], .ofList ["A", "B"]] ∧
      ¬ (SliceMap.ofNodes pairAndLoner).IsQuorum ∅ (.ofList ["B"]) := by
  have enough : (pairAndLoner.length : Int) ≤ 12 := by decide
  obtain ⟨a, made, same, _, least⟩ := minimal_quorums_listed enough
  have listed : a.minimalQuorums = [.ofList ["C"], .ofList ["A", "B"]] := same.trans (by decide +kernel)
  refine ⟨enough, a, made, listed, fun quorum => ?_⟩
  obtain ⟨u, hu, inside⟩ := least _ quorum
  rw [listed] at hu
  revert u
  decide

/-! ## What minimal quorums have in common -/

/-- the overlaps of sets are what every two of them have in common -/
theorem forall_overlaps {p : NodeSet → Prop} {l : List NodeSet} :
    (∀ x ∈ overlaps l, p x) ↔ l.Pairwise fun s t => p (s ∩ t) := by
  induction l with
  | nil => simp [overlaps]
  | cons s rest ih => simp only [overlaps, List.forall_mem_append, List.forall_mem_map, List.pairwise_cons, ih]

/-- the analysis reports intersection if and only if every two quorums share a node -/
theorem intersection_iff (made : ofNodes nodes limit = .ok a) :
    a.hasIntersection = true ↔ ∀ u w, (SliceMap.ofNodes nodes).IsQuorum ∅ u →
      (SliceMap.ofNodes nodes).IsQuorum ∅ w → ∃ k, k ∈ u ∧ k ∈ w := by
  constructor
  · intro meet u w hu hw
    apply quorums_meet made meet <;> rwa [quorums_eq made, mem_findQuorums]
  · intro meet
    rw [eq_of_made made, Mask.allMeet_minimal_iff SliceSystem.quorumMasks_ne_zero]
    intro m hm m' hm'
    obtain ⟨small, quorum⟩ := SliceSystem.mem_quorumMasks.1 hm
    obtain ⟨_, quorum'⟩ := SliceSystem.mem_quorumMasks.1 hm'
    exact (Mask.meets_iff small).2 (meet _ _ quorum quorum')

/-- every two quorums share a node if and only if nothing that two minimal ones have in common is empty -/
theorem intersection_iff_overlaps (made : ofNodes nodes limit = .ok a) :
    a.hasIntersection = true ↔ ∀ x ∈ overlaps a.minimalQuorums, ∃ k, k ∈ x := by
  have quorum : ∀ u ∈ a.minimalQuorums, (SliceMap.ofNodes nodes).IsQuorum ∅ u :=
    fun u hu => ((mem_minimalQuorums made).1 hu).1
  rw [intersection_iff made, forall_overlaps]
  simp only [SortedSet.mem_inter]
  constructor
  · intro meet
    exact List.pairwise_of_forall_mem_list fun u hu w hw => meet u w (quorum u hu) (quorum w hw)
  · intro meet u w hu hw
    obtain ⟨least, hleast, inside⟩ := exists_minimal_quorum made hu
    obtain ⟨least', hleast', inside'⟩ := exists_minimal_quorum made hw
    have common : ∃ k, k ∈ least ∧ k ∈ least' := by
      have itself : ∀ s ∈ a.minimalQuorums, ∃ k, k ∈ s ∧ k ∈ s :=
        fun s hs => (quorum s hs).nonempty.imp fun _ hk => ⟨hk, hk⟩
      exact List.Pairwise.forall_of_forall_of_flip itself meet
        (meet.imp fun shared => shared.imp fun _ => And.symm) hleast hleast'
    obtain ⟨k, hk, hk'⟩ := common
    exact ⟨k, inside k hk, inside' k hk'⟩

/-- **The smallest overlaps tell whether quorums intersect.** The analysis of a network reports intersection if and only
if every two of its quorums, minimal or not, share a node. It does not if and only if the smallest overlaps of minimal
quorums are the empty set alone; otherwise none of them is empty, and none is part of another. -/
theorem overlaps_tell (enough : (nodes.length : Int) ≤ limit) :
    ∃ a, ofNodes nodes limit = .ok a ∧
      (a.hasIntersection = true ↔ ∀ u w, (SliceMap.ofNodes nodes).IsQuorum ∅ u →
        (SliceMap.ofNodes nodes).IsQuorum ∅ w → ∃ k, k ∈ u ∧ k ∈ w) ∧
      (a.hasIntersection = false ↔ a.minimalOverlaps = [∅]) ∧
      (a.hasIntersection = true → (∀ s ∈ a.minimalOverlaps, ∃ k, k ∈ s) ∧
        a.minimalOverlaps.Pairwise fun s t => ¬ s ⊆ t ∧ ¬ t ⊆ s) := by
  obtain ⟨a, made⟩ := ofNodes_isOk enough
  have nodup := nodup_eraseDups (overlaps a.minimalQuorums)
  refine ⟨a, made, intersection_iff made, ?_, fun meet => ⟨fun s hs => ?_, minimalSets_apart nodup⟩⟩
  · rw [minimalOverlaps, minimalSets_eq_empty_iff nodup, List.mem_eraseDups, ← Bool.not_eq_true,
      intersection_iff_overlaps made, forall_inhabited_iff, Classical.not_not]
  · exact (intersection_iff_overlaps made).1 meet s (List.mem_eraseDups.1 (mem_minimalSets.1 hs).1)

/-- three nodes that trust any two of the three, without and with a pair of nodes that trust each other -/
def trio : List Node := ["K", "L", "M"].map fun key => ⟨key, .flat 2 ["K", "L", "M"] (by decide)⟩

def trioAndPair : List Node := trio ++ ["R", "S"].map fun key => ⟨key, .flat 2 ["R", "S"] (by decide)⟩

/-- any two minimal quorums of the three have one node in common, and with the pair there are two without any -/
theorem trio_overlaps :
    (trio.length : Int) ≤ 12 ∧ (trioAndPair.length : Int) ≤ 12 ∧
    (∃ a, ofNodes trio 12 = .ok a ∧ a.minimalOverlaps = [.ofList ["K"], .ofList ["L"], .ofList ["M"]] ∧
      ∀ u w, (SliceMap.ofNodes trio).IsQuorum ∅ u → (SliceMap.ofNodes trio).IsQuorum ∅ w → ∃ k, k ∈ u ∧ k ∈ w) ∧
    ∃ b, ofNodes trioAndPair 12 = .ok b ∧ b.hasIntersection = false ∧ (overlaps b.minimalQuorums).length = 6 := by
  have enough : (trio.length : Int) ≤ 12 := by decide
  have enough' : (trioAndPair.length : Int) ≤ 12 := by decide
  obtain ⟨a, made, meet, apart, _⟩ := overlaps_tell enough
  obtain ⟨b, made', _, apart', _⟩ := overlaps_tell enough'
  have shared : a.minimalOverlaps = [.ofList ["K"], .ofList ["L"], .ofList ["M"]] := by
    rw [minimalOverlaps, minimalQuorums_eq made]
    decide +kernel
  have intersect : a.hasIntersection = true := by
    rw [← Bool.not_eq_false, apart, shared]
    decide
  have minimal : b.minimalQuorums = [.ofList ["K", "L"], .ofList ["K", "M"], .ofList ["L", "M"], .ofList ["R", "S"]] := by
    rw [minimalQuorums_eq made']
    decide +kernel
  refine ⟨enough, enough', ⟨a, made, shared, meet.1 intersect⟩, b, made', apart'.2 ?_, ?_⟩
  · rw [minimalOverlaps, minimal]
    decide +kernel
  · rw [minimal]
    decide

end Analysis

end FederatedAgreement
