/-
Befouled nodes: where every two quorums share a node, the dispensable sets that hold some ill-behaved nodes have a
smallest one, since what two dispensable sets have in common is dispensable again. It is what the analysis calls
befouled, and the other nodes are intact.

What is left of a quorum when nodes are deleted is a quorum without these nodes. A quorum of the system without the common
nodes of two dispensable sets must have nodes outside each of the two: those outside the second are a quorum without it,
which meets the nodes outside the first. So what two such quorums have outside the first set are quorums without it, and
these share a node.

Results:
- `QuorumWithout.delete`: what is left of a quorum is a quorum.
- `Dispensable.inter`: what two dispensable sets have in common is dispensable.
- `Analysis.befouled_least`: **the befouled nodes** are the smallest dispensable set with all ill-behaved nodes.
-/
import FederatedAgreement.Proofs.Analysis.Dispensable

namespace FederatedAgreement

open Sorting (SortedSet)

/-! ## Deleting nodes -/

namespace SliceMap

variable {slices : SliceMap} {b c u v w : NodeSet}

/-- the nodes of a quorum have their slices also in any larger set -/
theorem QuorumWithout.supported_in (h : slices.QuorumWithout b u) (more : u ∪ b ⊆ v ∪ c) {k : NodeId} (hk : k ∈ u) :
    ∃ own, slices.get? k = some own ∧ ∃ s ∈ own, s ⊆ slices.nodes ∧ s ⊆ v ∪ c := by
  obtain ⟨own, hown, s, hs, known, covered⟩ := h.supported k hk
  exact ⟨own, hown, s, hs, known, SortedSet.Subset.trans covered more⟩

theorem QuorumWithout.union (hu : slices.QuorumWithout b u) (hw : slices.QuorumWithout b w) :
    slices.QuorumWithout b (u ∪ w) := by
  obtain ⟨k, hk⟩ := hu.nonempty
  refine ⟨⟨k, SortedSet.mem_union.2 (Or.inl hk)⟩, union_subset_iff.2 ⟨hu.within, hw.within⟩, fun k hk => ?_⟩
  rcases SortedSet.mem_union.1 hk with hk | hk
  · refine hu.supported_in (fun z hz => ?_) hk
    simp only [SortedSet.mem_union] at hz ⊢
    exact hz.imp_left Or.inl
  · refine hw.supported_in (fun z hz => ?_) hk
    simp only [SortedSet.mem_union] at hz ⊢
    exact hz.imp_left Or.inr

/-- **What is left of a quorum** when more nodes are deleted is a quorum without these nodes, unless nothing is left. -/
theorem QuorumWithout.delete (h : slices.QuorumWithout b u) (more : b ⊆ c) (left : ∃ k, k ∈ u ∧ k ∉ c) :
    slices.QuorumWithout c (u \ c) := by
  obtain ⟨k, hk, outside⟩ := left
  refine ⟨⟨k, SortedSet.mem_diff.2 ⟨hk, outside⟩⟩, fun z hz => ?_, fun k hk => ?_⟩
  · obtain ⟨hz, outside⟩ := SortedSet.mem_diff.1 hz
    exact SortedSet.mem_diff.2 ⟨(SortedSet.mem_diff.1 (h.within z hz)).1, outside⟩
  · refine h.supported_in (fun z hz => ?_) (SortedSet.mem_diff.1 hk).1
    rw [SortedSet.mem_union, SortedSet.mem_diff]
    by_cases hc : z ∈ c
    · exact Or.inr hc
    · exact Or.inl ⟨(SortedSet.mem_union.1 hz).resolve_right fun hb => hc (more z hb), hc⟩

/-! ## Common nodes of dispensable sets -/

/-- a quorum without the common nodes of two sets has a node outside the first, if the nodes outside the first are a
quorum that meets the one outside the second, and quorums without the second share nodes -/
theorem QuorumWithout.exists_outside (hu : slices.QuorumWithout (b ∩ c) u)
    (quorum_b : slices.QuorumWithout ∅ (slices.nodes \ b)) (meet : ∃ k, k ∈ slices.nodes \ b ∧ k ∈ slices.nodes \ c)
    (intersects_c : slices.IntersectsWithout c) : ∃ k, k ∈ u ∧ k ∉ b := by
  obtain ⟨k, hk⟩ := hu.nonempty
  by_cases hb : k ∈ b
  · have hc : k ∉ c := by
      intro hc
      exact (SortedSet.mem_diff.1 (hu.within k hk)).2 (SortedSet.mem_inter.2 ⟨hb, hc⟩)
    have outside_both : slices.QuorumWithout c ((slices.nodes \ b) \ c) := by
      obtain ⟨z, hz, hz'⟩ := meet
      exact quorum_b.delete (fun a ha => absurd ha (SortedSet.not_mem_empty a)) ⟨z, hz, (SortedSet.mem_diff.1 hz').2⟩
    have left : slices.QuorumWithout c (u \ c) := hu.delete (fun a ha => (SortedSet.mem_inter.1 ha).2) ⟨k, hk, hc⟩
    obtain ⟨z, hz, hz'⟩ := intersects_c _ _ left outside_both
    exact ⟨z, (SortedSet.mem_diff.1 hz).1, (SortedSet.mem_diff.1 (SortedSet.mem_diff.1 hz').1).2⟩
  · exact ⟨k, hk, hb⟩

/-- **Common nodes.** Where every two quorums share a node, what two dispensable sets have in common is dispensable. -/
theorem Dispensable.inter (meet : slices.IntersectsWithout ∅) (hb : slices.Dispensable b) (hc : slices.Dispensable c) :
    slices.Dispensable (b ∩ c) := by
  rcases hb.rest with rfl | ⟨quorum_b, intersects_b⟩
  · have : slices.nodes ∩ c = c := SortedSet.ext fun k => by
      rw [SortedSet.mem_inter, and_iff_right_iff_imp]
      exact hc.known k
    rwa [this]
  rcases hc.rest with rfl | ⟨quorum_c, intersects_c⟩
  · have : b ∩ slices.nodes = b := SortedSet.ext fun k => by
      rw [SortedSet.mem_inter, and_iff_left_iff_imp]
      exact hb.known k
    rwa [this]
  have others : slices.nodes \ (b ∩ c) = (slices.nodes \ b) ∪ (slices.nodes \ c) := by
    refine SortedSet.ext fun k => ?_
    simp only [SortedSet.mem_diff, SortedSet.mem_inter, SortedSet.mem_union, not_and_or, and_or_left]
  refine ⟨fun k hk => hb.known k (SortedSet.mem_inter.1 hk).1, Or.inr ⟨?_, fun u w hu hw => ?_⟩⟩
  · rw [others]
    exact quorum_b.union quorum_c
  · have common := meet _ _ quorum_b quorum_c
    have fewer : b ∩ c ⊆ b := fun k hk => (SortedSet.mem_inter.1 hk).1
    have left_u := hu.delete fewer (hu.exists_outside quorum_b common intersects_c)
    have left_w := hw.delete fewer (hw.exists_outside quorum_b common intersects_c)
    obtain ⟨k, hk, hk'⟩ := intersects_b _ _ left_u left_w
    exact ⟨k, (SortedSet.mem_diff.1 hk).1, (SortedSet.mem_diff.1 hk').1⟩

/-- all nodes together are dispensable -/
theorem dispensable_nodes (slices : SliceMap) : slices.Dispensable slices.nodes :=
  ⟨SortedSet.Subset.refl _, Or.inl rfl⟩

end SliceMap

/-! ## Common nodes of many sets -/

theorem mem_foldl_inter {k : NodeId} {s : NodeSet} {sets : List NodeSet} :
    k ∈ sets.foldl (· ∩ ·) s ↔ k ∈ s ∧ ∀ t ∈ sets, k ∈ t := by
  induction sets generalizing s with
  | nil => simp
  | cons t sets ih => rw [List.foldl_cons, ih, SortedSet.mem_inter, List.forall_mem_cons, and_assoc]

/-- what holds of the common nodes of any two sets that it holds of, holds of the common nodes of all -/
theorem foldl_inter_induct {P : NodeSet → Prop} (closed : ∀ s t, P s → P t → P (s ∩ t)) {s : NodeSet}
    {sets : List NodeSet} (hs : P s) (all : ∀ t ∈ sets, P t) : P (sets.foldl (· ∩ ·) s) := by
  induction sets generalizing s with
  | nil => exact hs
  | cons t sets ih =>
    obtain ⟨ht, all⟩ := List.forall_mem_cons.1 all
    exact ih (closed s t hs ht) all

/-- what is outside the outside of a set is the set -/
theorem diff_diff {s t : NodeSet} (h : s ⊆ t) : t \ (t \ s) = s := by
  refine SortedSet.ext fun k => ?_
  rw [SortedSet.mem_diff, SortedSet.mem_diff, not_and_not_right]
  constructor
  · rintro ⟨ht, hs⟩
    exact hs ht
  · intro hs
    exact ⟨h k hs, fun _ => hs⟩

/-! ## Networks -/

namespace Analysis

variable {nodes : List Node} {limit : Int} {a : Analysis} {k : NodeId}

theorem nodes_eq (h : ofNodes nodes limit = .ok a) : a.nodes = (SliceMap.ofNodes nodes).nodes := by
  rw [eq_of_made h]
  rfl

theorem dispensable_eq (h : ofNodes nodes limit = .ok a) : a.dispensable = findDispensableSets (.ofNodes nodes) := by
  rw [eq_of_made h]

theorem mem_dispensable (h : ofNodes nodes limit = .ok a) {b : NodeSet} :
    b ∈ a.dispensable ↔ (SliceMap.ofNodes nodes).Dispensable b := by
  rw [dispensable_eq h, mem_findDispensableSets]

/-- where the analysis reports intersection, every two quorums of the system share a node -/
theorem intersects (h : ofNodes nodes limit = .ok a) (meet : a.hasIntersection = true) :
    (SliceMap.ofNodes nodes).IntersectsWithout ∅ := by
  have listed : ∀ u, (SliceMap.ofNodes nodes).QuorumWithout ∅ u → u ∈ a.quorums := by
    intro u quorum
    rw [quorums_eq h, mem_findQuorums]
    exact ((SliceMap.quorumWithout_iff fun k hk => absurd hk (SortedSet.not_mem_empty k)).1 quorum).2
  intro u w hu hw
  exact quorums_meet h meet (listed u hu) (listed w hw)

/-- a dispensable set that holds all ill-behaved nodes of the network -/
def Covering (a : Analysis) (ill d : NodeSet) : Prop := d ∈ a.dispensable ∧ ill ∩ a.nodes ⊆ d

/-- the nodes that are not intact are those that all covering sets have in common, of which there are some -/
theorem exists_befouled_eq (h : ofNodes nodes limit = .ok a) (ill : NodeSet) :
    ∃ (d : NodeSet) (ds : List NodeSet),
      (∀ e, e = d ∨ e ∈ ds ↔ a.Covering ill e) ∧ a.befouled ill = ds.foldl (· ∩ ·) d := by
  have covering : ∀ e, e ∈ (a.dispensable.filter fun d => ill ∩ a.nodes ⊆ d) ↔ a.Covering ill e := by
    intro e
    rw [List.mem_filter, decide_eq_true_eq, Covering]
  have every : a.Covering ill a.nodes := by
    refine ⟨(mem_dispensable h).2 ?_, fun k hk => (SortedSet.mem_inter.1 hk).2⟩
    rw [nodes_eq h]
    exact SliceMap.dispensable_nodes _
  unfold befouled intact intactNodes
  cases found : a.dispensable.filter fun d => ill ∩ a.nodes ⊆ d with
  | nil =>
    have := (covering a.nodes).2 every
    rw [found] at this
    exact absurd this List.not_mem_nil
  | cons d ds =>
    simp only [found, List.mem_cons] at covering
    have known : d ⊆ a.nodes := by
      rw [nodes_eq h]
      exact ((mem_dispensable h).1 ((covering d).1 (Or.inl rfl)).1).known
    exact ⟨d, ds, covering, diff_diff fun k hk => known k (mem_foldl_inter.1 hk).1⟩

theorem intact_subset (a : Analysis) (ill : NodeSet) : a.intact ill ⊆ a.nodes := by
  intro k hk
  unfold intact intactNodes at hk
  split at hk
  · exact absurd hk (SortedSet.not_mem_empty k)
  · exact (SortedSet.mem_diff.1 hk).1

/-- **The befouled nodes.** Let nodes have different keys, and let there be no more of them than the limit says. Then they
are analysed; and if the analysis reports intersection, then for any ill-behaved nodes, known or unknown, the befouled
nodes are a dispensable set that holds all ill-behaved nodes of the network, and every such set holds them. The intact
nodes are all the others. -/
theorem befouled_least (nodup : (nodes.map Node.key).Nodup) (enough : (nodes.length : Int) ≤ limit) (ill : NodeSet) :
    ∃ a, ofNodes nodes limit = .ok a ∧ (a.hasIntersection = true →
      a.befouled ill ∈ a.dispensable ∧ (∀ n ∈ nodes, n.key ∈ ill → n.key ∈ a.befouled ill) ∧
      (∀ d ∈ a.dispensable, (∀ n ∈ nodes, n.key ∈ ill → n.key ∈ d) → a.befouled ill ⊆ d) ∧
      a.intact ill = .ofList (nodes.map Node.key) \ a.befouled ill) := by
  obtain ⟨a, made⟩ := ofNodes_isOk enough
  refine ⟨a, made, fun meet => ?_⟩
  have keys : a.nodes = .ofList (nodes.map Node.key) := (nodes_eq made).trans (SliceMap.nodes_ofNodes nodup)
  have covers : ∀ d, (∀ n ∈ nodes, n.key ∈ ill → n.key ∈ d) ↔ ill ∩ a.nodes ⊆ d := by
    intro d
    rw [keys]
    constructor
    · intro all k hk
      obtain ⟨hill, known⟩ := SortedSet.mem_inter.1 hk
      obtain ⟨n, hn, rfl⟩ := List.mem_map.1 (SortedSet.mem_ofList.1 known)
      exact all n hn hill
    · intro all n hn hill
      exact all n.key (SortedSet.mem_inter.2 ⟨hill, SortedSet.mem_ofList.2 (List.mem_map_of_mem hn)⟩)
  obtain ⟨d, ds, covering, common⟩ := exists_befouled_eq made ill
  have least : a.Covering ill (a.befouled ill) := by
    rw [common]
    apply foldl_inter_induct _ ((covering d).1 (Or.inl rfl)) fun t ht => (covering t).1 (Or.inr ht)
    rintro s t ⟨hs, cover_s⟩ ⟨ht, cover_t⟩
    refine ⟨(mem_dispensable made).2 ?_, fun k hk => SortedSet.mem_inter.2 ⟨cover_s k hk, cover_t k hk⟩⟩
    exact .inter (intersects made meet) ((mem_dispensable made).1 hs) ((mem_dispensable made).1 ht)
  refine ⟨least.1, (covers _).2 least.2, fun e he cover k hk => ?_, ?_⟩
  · rw [common, mem_foldl_inter] at hk
    rcases (covering e).2 ⟨he, (covers e).1 cover⟩ with rfl | he
    · exact hk.1
    · exact hk.2 e he
  · rw [← keys]
    exact (diff_diff (a.intact_subset ill)).symm

/-- four nodes that trust any three of the four, and a fifth that trusts the fourth of them alone -/
def fourAndAdmirer : List Node :=
  let trust : QuorumSet := .flat 3 ["E", "F", "G", "H"] (by decide)
  [⟨"E", trust⟩, ⟨"F", trust⟩, ⟨"G", trust⟩, ⟨"H", trust⟩, ⟨"I", .flat 1 ["H"] (by decide)⟩]

/-- if the fourth node is ill-behaved, the fifth is befouled with it; an ill-behaved stranger changes nothing -/
theorem fourAndAdmirer_befouled :
    (fourAndAdmirer.map Node.key).Nodup ∧ (fourAndAdmirer.length : Int) ≤ 12 ∧
    ∃ a, ofNodes fourAndAdmirer 12 = .ok a ∧ a.hasIntersection = true ∧
      a.befouled (.ofList ["H", "Z"]) = .ofList ["H", "I"] ∧ SortedSet.ofList ["H", "I"] ∈ a.dispensable ∧
      a.intact (.ofList ["H", "Z"]) = .ofList ["E", "F", "G"] := by
  have nodup : (fourAndAdmirer.map Node.key).Nodup := by decide
  have enough : (fourAndAdmirer.length : Int) ≤ 12 := by decide
  obtain ⟨a, made, least⟩ := befouled_least nodup enough (.ofList ["H", "Z"])
  have found : (ofNodes fourAndAdmirer 12).toOption.any (fun a =>
      a.hasIntersection && decide (a.befouled (.ofList ["H", "Z"]) = .ofList ["H", "I"])) = true := by decide +kernel
  simp only [made, Except.toOption, Option.any_some, Bool.and_eq_true, decide_eq_true_eq] at found
  obtain ⟨meet, befouled⟩ := found
  obtain ⟨dispensable, _, _, intact⟩ := least meet
  rw [befouled] at dispensable intact
  exact ⟨nodup, enough, a, made, meet, befouled, dispensable, intact.trans (by decide)⟩

end Analysis

end FederatedAgreement
