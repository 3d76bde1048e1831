/-
Overlays: which nodes can exchange messages. An overlay is a full mesh or a set of undirected links; gossip, if it
is on, makes nodes relay votes that they see for the first time.

Results:
- `Link.between_comm`: a link has no direction.
- `mem_peersOf`: the peers of a node are the nodes that it is connected with.
- `isConnected_comm`: connection is symmetric.
-/
import FederatedAgreement.Roster
import FederatedAgreement.Sorting.SortedSet

namespace FederatedAgreement

open Sorting (SortedSet StrictTotal)

/-! ## Links -/

/-- an undirected link, its ends in order -/
structure Link where
  lower : NodeId
  upper : NodeId
  ordered : ¬ upper < lower
deriving DecidableEq

namespace Link

/-- the link between two nodes, given in either order -/
def between (a b : NodeId) : Link := if h : b < a then ⟨b, a, Sorting.asymm h⟩ else ⟨a, b, h⟩

theorem between_comm (a b : NodeId) : between a b = between b a := by
  unfold between
  split
  · next h => rw [dif_neg (Sorting.asymm h)]
  · next h =>
    split
    · rfl
    · next h' =>
      rcases StrictTotal.trichotomy a b with lt | rfl | lt
      · exact absurd lt h'
      · rfl
      · exact absurd lt h

/-- one of the two ends -/
def touches (l : Link) (node : NodeId) : Bool := node = l.lower || node = l.upper

theorem between_touches {a b n : NodeId} : (between a b).touches n = true ↔ n = a ∨ n = b := by
  unfold between touches
  split <;> simp [or_comm]

/-- links are ordered by their lower and then by their upper end -/
instance : LT Link := ⟨fun l m => l.lower < m.lower ∨ (l.lower = m.lower ∧ l.upper < m.upper)⟩

instance : DecidableLT Link := fun l m =>
  inferInstanceAs (Decidable (l.lower < m.lower ∨ (l.lower = m.lower ∧ l.upper < m.upper)))

theorem eq_of_ends {l m : Link} (h : l.lower = m.lower) (h' : l.upper = m.upper) : l = m := by
  cases l; cases m; cases h; cases h'; rfl

instance : StrictTotal Link where
  irrefl l h := h.elim (StrictTotal.irrefl _) fun h => StrictTotal.irrefl _ h.2
  trans := by
    rintro l m n (h | ⟨e, h⟩) (h' | ⟨e', h'⟩)
    · exact .inl (StrictTotal.trans h h')
    · exact .inl (e' ▸ h)
    · exact .inl (e ▸ h')
    · exact .inr ⟨e.trans e', StrictTotal.trans h h'⟩
  trichotomy l m := by
    rcases StrictTotal.trichotomy l.lower m.lower with h | h | h
    · exact .inl (.inl h)
    · rcases StrictTotal.trichotomy l.upper m.upper with h' | h' | h'
      · exact .inl (.inr ⟨h, h'⟩)
      · exact .inr (.inl (eq_of_ends h h'))
      · exact .inr (.inr (.inr ⟨h.symm, h'⟩))
    · exact .inr (.inr (.inl h))

def text (l : Link) : String := l.lower ++ "<->" ++ l.upper

/-- the link with quoted ends -/
def label (l : Link) : String := "Connection(" ++ Text.quote l.lower ++ ", " ++ Text.quote l.upper ++ ")"

end Link

/-! ## Overlays -/

/-- the links are not used in a full mesh -/
structure Overlay where
  fullMesh : Bool
  gossip : Bool
  links : SortedSet Link
deriving DecidableEq

namespace Overlay

/-- an overlay without links -/
def bare (fullMesh gossip : Bool) : Overlay := ⟨fullMesh, gossip, ∅⟩

/-- the overlay with one more link; nothing if that changes nothing, which is always so in a full mesh -/
def connect? (o : Overlay) (a b : NodeId) : Option Overlay :=
  if o.fullMesh ∨ a = b ∨ Link.between a b ∈ o.links then none
  else some { o with links := o.links.insert (Link.between a b) }

/-- the overlay with one link less; nothing if that changes nothing -/
def disconnect? (o : Overlay) (a b : NodeId) : Option Overlay :=
  if o.fullMesh ∨ Link.between a b ∉ o.links then none
  else some { o with links := o.links.erase (Link.between a b) }

/-- the overlay without the links of a node -/
def dropNode (o : Overlay) (node : NodeId) : Overlay := { o with links := o.links.filter (!·.touches node) }

/-- two different nodes of a network can exchange messages -/
def isConnected (o : Overlay) (a b : NodeId) (nodes : List NodeId) : Bool :=
  a ≠ b && nodes.contains a && nodes.contains b && (o.fullMesh || Link.between a b ∈ o.links)

/-- the nodes of a network that a node is connected with, in their order -/
def peersOf (o : Overlay) (node : NodeId) (nodes : List NodeId) : List NodeId :=
  nodes.filter fun p => o.isConnected node p nodes

theorem mem_peersOf {o : Overlay} {node p : NodeId} {nodes : List NodeId} :
    p ∈ o.peersOf node nodes ↔ o.isConnected node p nodes = true := by
  simp only [peersOf, List.mem_filter, and_iff_right_iff_imp]
  simp only [isConnected, Bool.and_eq_true, List.contains_iff_mem]
  exact fun h => h.1.2

theorem isConnected_comm (o : Overlay) (a b : NodeId) (nodes : List NodeId) :
    o.isConnected a b nodes = o.isConnected b a nodes := by
  rw [Bool.eq_iff_iff]
  simp only [isConnected, Link.between_comm a b, Bool.and_eq_true, decide_eq_true_eq, ne_eq, eq_comm (a := a)]
  exact ⟨fun h => ⟨⟨⟨h.1.1.1, h.1.2⟩, h.1.1.2⟩, h.2⟩, fun h => ⟨⟨⟨h.1.1.1, h.1.2⟩, h.1.1.2⟩, h.2⟩⟩

/-- the peers of every node -/
def adjacency (o : Overlay) (nodes : List NodeId) : Roster (List NodeId) :=
  Roster.ofList (nodes.map fun n => (n, o.peersOf n nodes))

/-- who is connected with whom, as a text that does not depend on the order of the nodes -/
def structureText (o : Overlay) (nodes : List NodeId) : String :=
  "|".intercalate ((o.adjacency (Sorting.ascending nodes)).entries.map fun e =>
    e.1 ++ ":[" ++ ",".intercalate (Sorting.ascending e.2) ++ "]")

def label (o : Overlay) : String :=
  let mode :=
    if o.fullMesh then "full mesh"
    else if o.links.toList.isEmpty then "no connections"
    else ", ".intercalate (o.links.toList.map Link.text)
  "Overlay(" ++ mode ++ (if o.gossip then ", gossip" else "") ++ ")"

end Overlay

end FederatedAgreement
