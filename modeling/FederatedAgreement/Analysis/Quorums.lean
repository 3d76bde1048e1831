/-
Quorums and dispensable sets of a system of slices, by search over all subsets of its nodes.

- A quorum is a set of nodes, not empty, in which every node has one of its slices.
- To delete nodes is to take them out of the system and out of every slice.
- A set is dispensable if the other nodes are a quorum, or none, and every two quorums of the system without the set
  share a node.

Slices that name unknown nodes can never be satisfied and are left out.

Results:
- `supportTable_get`: the table of the search holds what it is a table of.
-/
import FederatedAgreement.Analysis.Mask
import FederatedAgreement.QuorumSet.Slices
import FederatedAgreement.Roster
import FederatedAgreement.Vote

namespace FederatedAgreement

open Sorting (SortedSet)

/-- the slices of each node -/
abbrev SliceMap := Roster (List NodeSet)

/-- the slices of nodes: those of its quorum set, with the node itself in each -/
def SliceMap.ofNodes (nodes : List Node) : SliceMap :=
  .ofList (nodes.map fun n => (n.key, (n.quorumSet.slices.map (· ∪ {n.key})).eraseDups))

/-- nodes in ascending order, and for each of them its slices of known nodes as masks -/
structure SliceSystem where
  nodes : NodeSet
  slices : List (List Nat)

namespace SliceSystem

def ofSlices (slices : SliceMap) : SliceSystem :=
  let nodes := SortedSet.ofList slices.keys
  let known := fun s : NodeSet => s.toList.all (· ∈ nodes)
  { nodes
    slices := nodes.toList.map fun k => (((slices.get? k).getD []).filter known).map (Mask.ofSet nodes.toList) }

/-- the number of nodes -/
def count (sys : SliceSystem) : Nat := sys.nodes.toList.length

/-- every node -/
def full (sys : SliceSystem) : Nat := (1 <<< sys.count) - 1

/-- every subset of the nodes -/
def subsets (sys : SliceSystem) : List Nat := List.range (1 <<< sys.count)

/-- out of lists of slices, those at which a slice lies within `m` -/
def supportedBy : List (List Nat) → Nat → Nat
  | [], _ => 0
  | own :: rest, m => (if own.any (Mask.within · m) then 1 else 0) + 2 * supportedBy rest m

/-- the nodes that have a slice within `m` -/
def support (sys : SliceSystem) (m : Nat) : Nat := supportedBy sys.slices m

/-- the support of every subset, worked out once -/
def supportTable (sys : SliceSystem) : Array Nat := Array.ofFn fun m : Fin (1 <<< sys.count) => sys.support m

theorem supportTable_get (sys : SliceSystem) {m : Nat} (h : m < 1 <<< sys.count) :
    sys.supportTable.getD m 0 = sys.support m := by
  simp [supportTable, Array.getD, h]

section search
variable (supportOf : Nat → Nat) (sys : SliceSystem)

/-- a quorum after deletion: not empty, and each of its nodes has a slice in it and the deleted nodes together -/
def isQuorum (deleted m : Nat) : Bool := m != 0 && Mask.within m (supportOf (m ||| deleted))

/-- the quorums within a set of nodes after deletion -/
def quorumsWithin (nodes deleted : Nat) : List Nat :=
  sys.subsets.filter fun m => Mask.within m nodes && isQuorum supportOf deleted m

/-- the set is dispensable; of the quorums that are left without it, only the minimal ones are compared -/
def isDispensable (b : Nat) : Bool :=
  b == sys.full ||
    (let rest := sys.full ^^^ b
     isQuorum supportOf 0 rest && Mask.allMeet (Mask.minimal (quorumsWithin supportOf sys rest b)))

end search

/-- the quorums, those of lower masks first -/
def quorumMasks (sys : SliceSystem) : List Nat :=
  let table := sys.supportTable
  quorumsWithin (table.getD · 0) sys sys.full 0

/-- the dispensable sets, those of lower masks first -/
def dispensableMasks (sys : SliceSystem) : List Nat :=
  let table := sys.supportTable
  sys.subsets.filter (isDispensable (table.getD · 0) sys)

/-- masks as sets, by ascending size and then by ascending mask -/
def sets (sys : SliceSystem) (ms : List Nat) : List NodeSet := (Mask.bySize sys.count ms).map (Mask.toSet sys.nodes)

end SliceSystem

/-! ## On sets -/

/-- all quorums, the smallest first -/
def findQuorums (slices : SliceMap) : List NodeSet :=
  let sys := SliceSystem.ofSlices slices
  sys.sets sys.quorumMasks

/-- all dispensable sets, the smallest first -/
def findDispensableSets (slices : SliceMap) : List NodeSet :=
  let sys := SliceSystem.ofSlices slices
  sys.sets sys.dispensableMasks

/-- a subset that lacks a member -/
def properSubset (s t : NodeSet) : Bool := s ⊆ t && s ≠ t

/-- the sets that hold no other of the sets -/
def minimalSets (sets : List NodeSet) : List NodeSet := sets.filter fun s => !sets.any (properSubset · s)

/-- the nodes outside every dispensable set that holds all ill-behaved ones; none if there is no such set -/
def intactNodes (nodes illBehaved : NodeSet) (dispensable : List NodeSet) : NodeSet :=
  match dispensable.filter fun d => illBehaved ∩ nodes ⊆ d with
  | [] => ∅
  | d :: ds => nodes \ ds.foldl (· ∩ ·) d

end FederatedAgreement
