/-
What the structure text of a network is good for: it stands for the structure. A structure is the multiset of the
nodes' keys with their quorum sets, where quorum sets are taken up to the order of validators and of inner quorum sets,
at every level. Where keys and validators are made of letters and digits, two lists of nodes have the same text exactly
when their structures are equal.

Results:
- `Node.rearranged_iff_structure`: equal structures are rearranged lists of alike nodes.
- `structureText_identifies`: **the text identifies the structure**.
-/
import FederatedAgreement.Proofs.Analysis.Structure
import Mathlib.Data.Multiset.MapFold

namespace FederatedAgreement

open Text (IsAlphanumeric)

/-! ## Structures as multisets -/

/-- quorum sets that differ in the order of members only, at every level -/
instance QuorumSet.setoid : Setoid QuorumSet where
  r q r := q.tree.Alike r.tree
  iseqv := ⟨fun q => .refl q.tree, .symm, .trans⟩

/-- a quorum set without an order of its members -/
def QuorumSet.Unordered : Type := Quotient QuorumSet.setoid

def QuorumSet.unordered (q : QuorumSet) : QuorumSet.Unordered := Quotient.mk QuorumSet.setoid q

theorem QuorumSet.unordered_eq_iff {q r : QuorumSet} : q.unordered = r.unordered ↔ q.tree.Alike r.tree :=
  Quotient.eq (r := QuorumSet.setoid)

/-- what the structure of a network says of one node -/
def Node.structure (n : Node) : NodeId × QuorumSet.Unordered := (n.key, n.quorumSet.unordered)

theorem Node.structure_eq_iff {n m : Node} : n.structure = m.structure ↔ n.Alike m := by
  rw [Node.structure, Node.structure, Prod.mk.injEq, QuorumSet.unordered_eq_iff]
  exact ⟨fun ⟨key, trust⟩ => ⟨key, trust⟩, fun ⟨key, trust⟩ => ⟨key, trust⟩⟩

/-- the structure of a network: who is there, and whom each trusts -/
def networkStructure (nodes : List Node) : Multiset (NodeId × QuorumSet.Unordered) :=
  (nodes : Multiset Node).map Node.structure

variable {nodes others : List Node}

/-- equal structures are rearranged lists of alike nodes -/
theorem Node.rearranged_iff_structure :
    Rearranged Node.Alike nodes others ↔ networkStructure nodes = networkStructure others := by
  rw [networkStructure, networkStructure, Multiset.map_coe, Multiset.map_coe, Multiset.coe_eq_coe]
  constructor
  · intro alike
    exact alike.perm_map fun _ _ _ related => structure_eq_iff.2 related
  · intro entries
    exact rearranged_of_perm_map (fun _ _ _ _ same => structure_eq_iff.1 same) entries

/-! ## Names of letters and digits -/

/-- the key and the validators at every depth are made of letters and digits -/
def Node.Alphanumeric (n : Node) : Prop := IsAlphanumeric n.key ∧ ∀ v ∈ n.quorumSet.tree.validatorSet, IsAlphanumeric v

instance (n : Node) : Decidable n.Alphanumeric :=
  inferInstanceAs (Decidable (_ ∧ ∀ v ∈ n.quorumSet.tree.validatorSet.toList, IsAlphanumeric v))

theorem Node.Alphanumeric.worded {n : Node} (h : n.Alphanumeric) : n.Worded :=
  ⟨h.1.isWord, fun v hv => (h.2 v hv).isWord⟩

/-- **The text identifies the structure.** Lists of nodes whose keys and validators are made of letters and digits have
the same structure text exactly when they are equal as multisets of keys and quorum sets, the latter up to the order of
validators and of inner quorum sets at every level. -/
theorem structureText_identifies (hn : ∀ n ∈ nodes, n.Alphanumeric) (ho : ∀ n ∈ others, n.Alphanumeric) :
    structureText nodes = structureText others ↔ networkStructure nodes = networkStructure others :=
  (structureText_eq_iff (fun n h => (hn n h).worded) fun n h => (ho n h).worded).trans Node.rearranged_iff_structure

/-- a node that trusts one of two groups besides "Q2", and a node that trusts it -/
def groups : List Node :=
  [⟨"P1", ⟨⟨2, ["Q2"], [⟨1, ["P1", "R3"], [⟨2, ["Q2", "S4"], []⟩]⟩, ⟨1, ["S4"], []⟩]⟩, by decide⟩⟩,
    ⟨"Q2", ⟨⟨1, ["P1"], []⟩, by decide⟩⟩]

/-- the same nodes, with the members of every level the other way round -/
def groupsTurned : List Node :=
  [⟨"Q2", ⟨⟨1, ["P1"], []⟩, by decide⟩⟩,
    ⟨"P1", ⟨⟨2, ["Q2"], [⟨1, ["S4"], []⟩, ⟨1, ["R3", "P1"], [⟨2, ["S4", "Q2"], []⟩]⟩]⟩, by decide⟩⟩]

/-- the innermost group is one level further out -/
def groupsLifted : List Node :=
  [⟨"P1", ⟨⟨2, ["Q2"], [⟨1, ["P1", "R3"], []⟩, ⟨2, ["Q2", "S4"], []⟩, ⟨1, ["S4"], []⟩]⟩, by decide⟩⟩,
    ⟨"Q2", ⟨⟨1, ["P1"], []⟩, by decide⟩⟩]

/-- turning all groups round leaves the structure as it is, and moving one to another level does not -/
theorem groups_identified :
    (∀ n ∈ groups, n.Alphanumeric) ∧ (∀ n ∈ groupsTurned, n.Alphanumeric) ∧ (∀ n ∈ groupsLifted, n.Alphanumeric) ∧
    structureText groups = "P1:2:[Q2](1:[P1,R3](2:[Q2,S4]),1:[S4])|Q2:1:[P1]" ∧
    networkStructure groups = networkStructure groupsTurned ∧ networkStructure groups ≠ networkStructure groupsLifted := by
  have names : ∀ n ∈ groups, n.Alphanumeric := by decide
  have turned : ∀ n ∈ groupsTurned, n.Alphanumeric := by decide
  have lifted : ∀ n ∈ groupsLifted, n.Alphanumeric := by decide
  refine ⟨names, turned, lifted, by decide +kernel, ?_, fun same => ?_⟩
  · exact (structureText_identifies names turned).1 (by decide +kernel)
  · exact absurd ((structureText_identifies names lifted).2 same) (by decide +kernel)

end FederatedAgreement
