/-
Reports: all that the analysis of a network's quorum structure finds, and the text by which equal structures are known.
-/
import FederatedAgreement.Analysis.Quorums

namespace FederatedAgreement

open Sorting (SortedSet)

/-- who trusts whom, as a text that does not depend on the order of nodes or members -/
def structureText (nodes : List Node) : String :=
  "|".intercalate (Sorting.ascending (nodes.map fun n => n.key ++ ":" ++ n.quorumSet.canonical))

/-- the quorum structure of a network -/
structure Analysis where
  nodes : NodeSet
  slices : SliceMap
  quorums : List NodeSet
  minimalQuorums : List NodeSet
  dispensable : List NodeSet
  /-- nodes of at least one minimal quorum -/
  topTier : NodeSet
  /-- every two minimal quorums share a node -/
  hasIntersection : Bool
deriving DecidableEq

namespace Analysis

/-- analyse a network; more nodes than the limit are refused, repeated ones counted -/
def ofNodes (nodes : List Node) (limit : Int) : Except Misconfiguration Analysis :=
  if limit < nodes.length then .error (.tooManyNodes nodes.length limit)
  else
    let slices := SliceMap.ofNodes nodes
    let sys := SliceSystem.ofSlices slices
    let quorums := sys.quorumMasks
    let minimal := Mask.minimal quorums
    let minimalQuorums := sys.sets minimal
    .ok {
      nodes := sys.nodes
      slices
      quorums := sys.sets quorums
      minimalQuorums
      dispensable := sys.sets sys.dispensableMasks
      topTier := minimalQuorums.foldl (· ∪ ·) ∅
      hasIntersection := Mask.allMeet minimal }

/-- what each set has in common with those behind it -/
def overlaps : List NodeSet → List NodeSet
  | [] => []
  | s :: rest => rest.map (s ∩ ·) ++ overlaps rest

/-- the smallest sets that two different minimal quorums have in common -/
def minimalOverlaps (a : Analysis) : List NodeSet := minimalSets (overlaps a.minimalQuorums).eraseDups

/-- the nodes that can rely on the system in spite of ill-behaved ones -/
def intact (a : Analysis) (illBehaved : NodeSet) : NodeSet := intactNodes a.nodes illBehaved a.dispensable

/-- the nodes that cannot -/
def befouled (a : Analysis) (illBehaved : NodeSet) : NodeSet := a.nodes \ a.intact illBehaved

def label (a : Analysis) : String :=
  "NetworkAnalysis(" ++ toString a.nodes.size ++ " nodes, " ++ toString a.quorums.length ++ " quorums, " ++
    toString a.minimalQuorums.length ++ " minimal, " ++ toString a.dispensable.length ++ " d-sets, intersection=" ++
    (if a.hasIntersection then "True" else "False") ++ ")"

end Analysis

end FederatedAgreement
