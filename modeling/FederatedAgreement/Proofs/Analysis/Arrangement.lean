/-
Arrangements of a network. Nodes can be listed in any order, and so can the members of their quorum sets at every level.
Slices are listed in an order that depends on this, and repetitions among them are met at other places, but the same sets
are made of the members. All else that an analysis finds is the same, down to the order of its lists.

Results:
- `MadeOf.perm`: what is made of members does not depend on their order.
- `TrustTree.Alike.mem_slices`: alike trees have the same slices.
- `SliceMap.get?_rearranged`: the slices of each node, whatever order the nodes come in.
- `Analysis.arrangement_irrelevant`: **an analysis does not depend on the arrangement**.
-/
import FederatedAgreement.Proofs.Analysis.Structure
import FederatedAgreement.Proofs.QuorumSet.Minimal

namespace FederatedAgreement

open Sorting (SortedSet)

/-! ## Slices -/

/-- the order of members does not matter -/
theorem MadeOf.perm {k : Nat} {members members' : List (NodeSet → Prop)} {t : NodeSet} (h : MadeOf k members t)
    (order : members.Perm members') : MadeOf k members' t := by
  induction order generalizing k t with
  | nil => exact h
  | cons A _ ih =>
    cases h with
    | take option rest => exact .take option (ih rest)
    | skip rest => exact .skip (ih rest)
  | swap A B members =>
    cases h with
    | @take _ _ _ o _ option rest =>
      cases rest with
      | @take _ _ _ p _ option' rest =>
        rw [union_left_comm]
        exact .take option' (.take option rest)
      | skip rest => exact .skip (.take option rest)
    | skip rest =>
      cases rest with
      | take option rest => exact .take option (.skip rest)
      | skip rest => exact .skip (.skip rest)
  | trans _ _ first second => exact second (first h)

namespace TrustTree

variable {q r : TrustTree} {t : NodeSet}

/-- **Alike trees have the same slices.** -/
theorem Alike.mem_slices (h : Alike q r) : t ∈ q.slices ↔ t ∈ r.slices := by
  induction q using induct generalizing r t with
  | step q ih =>
    obtain ⟨threshold, validators, inner⟩ := alike_iff.1 h
    have options := inner.perm_map (f := fun r s => s ∈ r.slices) fun a ha b related =>
      funext fun s => propext (ih a ha related)
    have members : q.members.Perm r.members := (validators.map _).append options
    have count : q.memberCount = r.memberCount := by simpa [TrustTree.members, memberCount] using members.length_eq
    rw [mem_slices_iff, mem_slices_iff, threshold, count]
    exact and_congr_right fun _ => ⟨fun made => made.perm members, fun made => made.perm members.symm⟩

end TrustTree

/-! ## Slices of networks -/

namespace SliceMap

variable {nodes others : List Node} {k : NodeId}

/-- a node with its slices, whatever their order -/
def entry (n : Node) : NodeId × (NodeSet → Prop) := (n.key, fun s => s ∈ n.quorumSet.slices)

theorem perm_entry (alike : Rearranged Node.Alike nodes others) : (nodes.map entry).Perm (others.map entry) := by
  refine alike.perm_map fun n _ m h => Prod.ext h.key (funext fun s => propext ?_)
  exact h.trust.mem_slices

/-- where one list of nodes gives slices to a node, another list with the same entries gives the same ones -/
theorem exists_perm_of_get? (nodup : (nodes.map Node.key).Nodup) (nodup' : (others.map Node.key).Nodup)
    (entries : (nodes.map entry).Perm (others.map entry)) {own : List NodeSet}
    (here : (SliceMap.ofNodes nodes).get? k = some own) :
    ∃ own', (SliceMap.ofNodes others).get? k = some own' ∧ own.Perm own' := by
  obtain ⟨n, hn, rfl, rfl⟩ := (get?_ofNodes nodup).1 here
  obtain ⟨m, hm, same⟩ := List.mem_map.1 (entries.mem_iff.1 (List.mem_map_of_mem hn))
  obtain ⟨key, slices⟩ := Prod.mk.inj same
  refine ⟨_, (get?_ofNodes nodup').2 ⟨m, hm, key, rfl⟩, ?_⟩
  rw [List.perm_ext_iff_of_nodup (nodup_eraseDups _) (nodup_eraseDups _)]
  intro s
  rw [List.mem_eraseDups, List.mem_eraseDups, List.mem_map, List.mem_map, key]
  exact exists_congr fun t => and_congr_left' (iff_of_eq (congrFun slices t).symm)

/-- **The slices of each node** are the same sets, each listed once. -/
theorem get?_rearranged (nodup : (nodes.map Node.key).Nodup) (alike : Rearranged Node.Alike nodes others) (k : NodeId) :
    Option.Rel List.Perm ((SliceMap.ofNodes nodes).get? k) ((SliceMap.ofNodes others).get? k) := by
  have keys := alike.perm_map (f := Node.key) fun _ _ _ h => h.key
  have nodup' : (others.map Node.key).Nodup := keys.nodup_iff.1 nodup
  have entries := perm_entry alike
  cases here : (SliceMap.ofNodes nodes).get? k with
  | some own =>
    obtain ⟨own', there, order⟩ := exists_perm_of_get? nodup nodup' entries here
    rw [there]
    exact .some order
  | none =>
    cases there : (SliceMap.ofNodes others).get? k with
    | none => exact .none
    | some own' =>
      obtain ⟨own, found, _⟩ := exists_perm_of_get? nodup' nodup entries.symm there
      rw [here] at found
      cases found

end SliceMap

/-! ## Main result -/

namespace Analysis

variable {nodes others : List Node} {limit : Int}

/-- **The arrangement does not matter.** Let two lists of nodes with different keys hold the same nodes, in whatever order,
each with a quorum set that may be arranged in another way at every level; and let there be no more of them than the limit
says. Then both are analysed, and the analyses name the same nodes, quorums, minimal quorums and dispensable sets in the
same order, the same top tier, and the same intersection. They call the same nodes intact whoever is ill-behaved, and every
node has the same slices in both, each listed once. -/
theorem arrangement_irrelevant (nodup : (nodes.map Node.key).Nodup) (alike : Rearranged Node.Alike nodes others)
    (enough : (nodes.length : Int) ≤ limit) :
    ∃ a b, ofNodes nodes limit = .ok a ∧ ofNodes others limit = .ok b ∧ a.SameFindings b ∧
      (∀ ill, a.intact ill = b.intact ill) ∧
      ∀ k, Option.Rel List.Perm (a.slices.get? k) (b.slices.get? k) := by
  rcases ofNodes_congr nodup alike limit with ⟨m, refused, _⟩ | ⟨a, b, made, made', same⟩
  · obtain ⟨a, made⟩ := ofNodes_isOk enough
    rw [refused] at made
    cases made
  · refine ⟨a, b, made, made', same, fun ill => ?_, fun k => ?_⟩
    · rw [intact, intact, same.nodes, same.dispensable]
    · rw [eq_of_made made, eq_of_made made']
      exact SliceMap.get?_rearranged nodup alike k

/-- the pair and the loner in another order, with their validators the other way round -/
def lonerLast : List Node :=
  [⟨"B", ⟨⟨1, ["Z"], [⟨2, ["B", "A"], []⟩]⟩, by decide⟩⟩, ⟨"A", ⟨⟨2, ["A"], [⟨1, ["Z", "B"], []⟩]⟩, by decide⟩⟩,
    ⟨"C", ⟨⟨1, ["Z", "C"], []⟩, by decide⟩⟩]

/-- the slices of "A" are listed in another order, and all else is the same -/
theorem lonerLast_same :
    (pairAndLoner.map Node.key).Nodup ∧ Rearranged Node.Alike pairAndLoner lonerLast ∧
    (pairAndLoner.length : Int) ≤ 12 ∧
    ∃ a b, ofNodes pairAndLoner 12 = .ok a ∧ ofNodes lonerLast 12 = .ok b ∧
      a.slices.get? "A" = some [.ofList ["A", "B"], .ofList ["A", "Z"]] ∧
      b.slices.get? "A" = some [.ofList ["A", "Z"], .ofList ["A", "B"]] ∧
      Option.Rel List.Perm (a.slices.get? "A") (b.slices.get? "A") ∧
      b.quorums = [.ofList ["C"], .ofList ["A", "B"], .ofList ["A", "B", "C"]] ∧
      a.intact (.ofList ["C"]) = b.intact (.ofList ["C"]) := by
  have nodup : (pairAndLoner.map Node.key).Nodup := by decide
  have alike : Rearranged Node.Alike pairAndLoner lonerLast :=
    (structureText_eq_iff (by decide) (by decide)).1 (by decide +kernel)
  have enough : (pairAndLoner.length : Int) ≤ 12 := by decide
  obtain ⟨a, b, made, made', same, intact, slices⟩ := arrangement_irrelevant nodup alike enough
  refine ⟨nodup, alike, enough, a, b, made, made', ?_, ?_, slices "A", ?_, intact _⟩
  · rw [eq_of_made made]
    decide
  · rw [eq_of_made made']
    decide
  · rw [← same.quorums, quorums_eq made]
    decide +kernel

end Analysis

end FederatedAgreement
