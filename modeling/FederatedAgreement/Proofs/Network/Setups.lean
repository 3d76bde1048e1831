/-
Setups: what nodes and links an engine can be built of, and which setup this gives. The links are added one after the
other; in the end there are those between two different nodes that were asked for, in whatever order and form, and none
in a full mesh. So a setup can be built again of its own nodes and links. Whether an overlay is a full mesh, and whether
there is gossip, is settled then: actions change the links only.

Results:
- `Setup.make_eq_ok_iff`: which setup can be made.
- `Overlay.mem_connectAll`, `Overlay.connectAll_ends`: the links of a setup, given back as pairs, make the same overlay.
- `Engine.start_again`: an engine is built again of what it was built of.
- `Network.mode_execute`: no batch changes the mode of the overlay.
-/
import FederatedAgreement.Engine
import FederatedAgreement.Proofs.Network.Queue

namespace FederatedAgreement

open Sorting (SortedSet)

/-! ## Links as pairs -/

/-- the two ends, in order -/
def Link.ends (l : Link) : NodeId × NodeId := (l.lower, l.upper)

theorem Link.between_ends (l : Link) : between l.ends.1 l.ends.2 = l := dif_neg l.ordered

theorem Link.ends_between (a b : NodeId) : (between a b).ends = (a, b) ∨ (between a b).ends = (b, a) := by
  unfold between
  split
  · exact Or.inr rfl
  · exact Or.inl rfl

/-! ## Many links -/

namespace Overlay

variable {o : Overlay} {l : Link}

/-- the overlay with some more links, one after the other -/
def connectAll (o : Overlay) (pairs : List (NodeId × NodeId)) : Overlay :=
  pairs.foldl (fun o p => (o.connect? p.1 p.2).getD o) o

theorem connectAll_cons (o : Overlay) (p : NodeId × NodeId) (pairs : List (NodeId × NodeId)) :
    o.connectAll (p :: pairs) = ((o.connect? p.1 p.2).getD o).connectAll pairs := rfl

/-- both overlays are full meshes or not, and have gossip or not -/
def SameMode (o o' : Overlay) : Prop := o.fullMesh = o'.fullMesh ∧ o.gossip = o'.gossip

theorem sameMode_connect? {o' : Overlay} {a b : NodeId} (made : o.connect? a b = some o') : o'.SameMode o := by
  unfold connect? at made
  split at made
  · cases made
  · cases made
    exact ⟨rfl, rfl⟩

theorem sameMode_disconnect? {o' : Overlay} {a b : NodeId} (made : o.disconnect? a b = some o') : o'.SameMode o := by
  unfold disconnect? at made
  split at made
  · cases made
  · cases made
    exact ⟨rfl, rfl⟩

theorem sameMode_connect (o : Overlay) (a b : NodeId) : ((o.connect? a b).getD o).SameMode o := by
  cases made : o.connect? a b with
  | none => exact ⟨rfl, rfl⟩
  | some o' => exact sameMode_connect? made

theorem sameMode_connectAll (o : Overlay) (pairs : List (NodeId × NodeId)) : (o.connectAll pairs).SameMode o := by
  induction pairs generalizing o with
  | nil => exact ⟨rfl, rfl⟩
  | cons p pairs ih =>
    have first := sameMode_connect o p.1 p.2
    have rest := ih ((o.connect? p.1 p.2).getD o)
    exact ⟨rest.1.trans first.1, rest.2.trans first.2⟩

theorem connectAll_mesh (mesh : o.fullMesh = true) (pairs : List (NodeId × NodeId)) : o.connectAll pairs = o := by
  induction pairs with
  | nil => rfl
  | cons p pairs ih =>
    have none : o.connect? p.1 p.2 = none := if_pos (Or.inl mesh)
    rw [connectAll_cons, none]
    exact ih

theorem mem_connect (sparse : o.fullMesh = false) {a b : NodeId} :
    l ∈ ((o.connect? a b).getD o).links ↔ l ∈ o.links ∨ (a ≠ b ∧ l = Link.between a b) := by
  unfold connect?
  split
  · next vain =>
    rcases vain with mesh | same | there
    · exact absurd (sparse.symm.trans mesh) Bool.false_ne_true
    · exact ⟨Or.inl, fun h => h.elim id fun new => absurd same new.1⟩
    · exact ⟨Or.inl, fun h => h.elim id fun new => new.2 ▸ there⟩
  · next new =>
    have different : a ≠ b := fun same => new (Or.inr (Or.inl same))
    show l ∈ o.links.insert (Link.between a b) ↔ _
    rw [SortedSet.mem_insert, or_comm, and_iff_right different]

/-- the links are those that were there and those that were asked for -/
theorem mem_connectAll (sparse : o.fullMesh = false) {pairs : List (NodeId × NodeId)} :
    l ∈ (o.connectAll pairs).links ↔ l ∈ o.links ∨ ∃ p ∈ pairs, p.1 ≠ p.2 ∧ l = Link.between p.1 p.2 := by
  induction pairs generalizing o with
  | nil => simp [connectAll]
  | cons p pairs ih =>
    have sparse' : ((o.connect? p.1 p.2).getD o).fullMesh = false := (sameMode_connect o p.1 p.2).1.trans sparse
    rw [connectAll_cons, ih sparse', mem_connect sparse, or_assoc]
    simp only [List.mem_cons, exists_eq_or_imp]

theorem eq_of_links {o o' : Overlay} (mode : o.SameMode o') (links : ∀ l, l ∈ o.links ↔ l ∈ o'.links) : o = o' := by
  have same : o.links = o'.links := SortedSet.ext links
  cases o
  cases o'
  obtain ⟨rfl, rfl⟩ := mode
  cases same
  rfl

/-- the links of an overlay, given back as pairs, make the same overlay -/
theorem connectAll_ends (fullMesh gossip : Bool) (pairs : List (NodeId × NodeId)) :
    (bare fullMesh gossip).connectAll (((bare fullMesh gossip).connectAll pairs).links.toList.map Link.ends) =
      (bare fullMesh gossip).connectAll pairs := by
  cases fullMesh with
  | true => rw [connectAll_mesh rfl, connectAll_mesh rfl]
  | false =>
    have mode := sameMode_connectAll (bare false gossip) pairs
    have mode' := sameMode_connectAll (bare false gossip)
      (((bare false gossip).connectAll pairs).links.toList.map Link.ends)
    refine eq_of_links ⟨mode'.1.trans mode.1.symm, mode'.2.trans mode.2.symm⟩ fun l => ?_
    rw [mem_connectAll rfl]
    constructor
    · rintro (none | ⟨_, given, _, rfl⟩)
      · exact absurd none (SortedSet.not_mem_empty l)
      · obtain ⟨l, there, rfl⟩ := List.mem_map.1 given
        rw [Link.between_ends]
        exact there
    · intro there
      refine Or.inr ⟨l.ends, List.mem_map_of_mem there, ?_, (Link.between_ends l).symm⟩
      rcases (mem_connectAll rfl).1 there with none | ⟨p, _, different, rfl⟩
      · exact absurd none (SortedSet.not_mem_empty l)
      · rcases Link.ends_between p.1 p.2 with ends | ends
        · rw [ends]
          exact different
        · rw [ends]
          exact different.symm

/-- links only join nodes that were asked for -/
theorem ends_of_mem_connectAll {fullMesh gossip : Bool} {pairs : List (NodeId × NodeId)} {known : List NodeId}
    (given : ∀ p ∈ pairs, p.1 ∈ known ∧ p.2 ∈ known) (there : l ∈ ((bare fullMesh gossip).connectAll pairs).links) :
    l.ends.1 ∈ known ∧ l.ends.2 ∈ known := by
  cases fullMesh with
  | true =>
    rw [connectAll_mesh rfl] at there
    exact absurd there (SortedSet.not_mem_empty l)
  | false =>
    rcases (mem_connectAll rfl).1 there with none | ⟨p, hp, _, rfl⟩
    · exact absurd none (SortedSet.not_mem_empty l)
    · obtain ⟨first, second⟩ := given p hp
      rcases Link.ends_between p.1 p.2 with ends | ends
      · rw [ends]
        exact ⟨first, second⟩
      · rw [ends]
        exact ⟨second, first⟩

end Overlay

/-! ## Setups -/

namespace Setup

variable {fullMesh gossip : Bool} {nodes : List Node} {links : List (NodeId × NodeId)} {s : Setup}

theorem addLinks_eq_ok_iff {known : List NodeId} {o o' : Overlay} :
    addLinks known o links = .ok o' ↔ (∀ l ∈ links, l.1 ∈ known ∧ l.2 ∈ known) ∧ o' = o.connectAll links := by
  induction links generalizing o with
  | nil =>
    rw [addLinks, Except.ok.injEq, eq_comm, and_iff_right fun l none => absurd none List.not_mem_nil]
    rfl
  | cons l links ih =>
    obtain ⟨a, b⟩ := l
    simp only [addLinks, List.contains_iff_mem, List.forall_mem_cons]
    split
    · next ends => rw [ih, and_iff_right ends, Overlay.connectAll_cons]
    · next unknown =>
      constructor
      · intro fault
        cases fault
      · exact fun h => absurd h.1.1 unknown

/-- **What can be set up.** No key is given twice, no unknown node is trusted, and no unknown node is linked; then these
are the nodes, and the links are added one after the other. -/
theorem make_eq_ok_iff : make fullMesh gossip nodes links = .ok s ↔
    (nodes.map Node.key).Nodup ∧ (∀ n ∈ nodes, ∀ v ∈ n.quorumSet.validatorSet, v ∈ nodes.map Node.key) ∧
    (∀ l ∈ links, l.1 ∈ nodes.map Node.key ∧ l.2 ∈ nodes.map Node.key) ∧
    s = ⟨nodes, (Overlay.bare fullMesh gossip).connectAll links⟩ := by
  unfold make
  dsimp only
  split
  · next twice => exact ⟨nofun, fun h => absurd h.1 twice⟩
  · next distinct =>
    rw [and_iff_right (Classical.not_not.1 distinct), ← checkTrust_eq_ok_iff]
    cases checkTrust (nodes.map Node.key) nodes with
    | error m => exact ⟨nofun, fun h => absurd h.1 nofun⟩
    | ok _ =>
      rw [and_iff_right rfl]
      cases added : addLinks (nodes.map Node.key) (.bare fullMesh gossip) links with
      | error m =>
        refine ⟨nofun, fun h => ?_⟩
        rw [addLinks_eq_ok_iff.2 ⟨h.1, rfl⟩] at added
        cases added
      | ok overlay =>
        obtain ⟨known, rfl⟩ := addLinks_eq_ok_iff.1 added
        rw [and_iff_right known]
        show Except.ok _ = Except.ok s ↔ _
        rw [Except.ok.injEq, eq_comm]

/-- a setup is made again of its nodes and links -/
theorem make_again (made : make fullMesh gossip nodes links = .ok s) :
    make s.overlay.fullMesh s.overlay.gossip s.nodes (s.overlay.links.toList.map Link.ends) = .ok s := by
  obtain ⟨distinct, trust, known, rfl⟩ := make_eq_ok_iff.1 made
  obtain ⟨mesh, gossip⟩ := Overlay.sameMode_connectAll (.bare fullMesh gossip) links
  rw [mesh, gossip]
  refine make_eq_ok_iff.2 ⟨distinct, trust, ?_, ?_⟩
  · intro p given
    obtain ⟨l, there, rfl⟩ := List.mem_map.1 given
    exact Overlay.ends_of_mem_connectAll known there
  · exact congrArg (Setup.mk nodes) (Overlay.connectAll_ends _ _ links).symm

end Setup

/-! ## Engines -/

namespace Engine

variable {fullMesh gossip : Bool} {nodes : List Node} {links : List (NodeId × NodeId)} {engine : Engine}

/-- without nodes there is a bare engine, with nodes there is one at the start of their setup -/
theorem start_eq_ok_iff : start fullMesh gossip nodes links = .ok engine ↔
    (nodes = [] ∧ engine = bare fullMesh gossip) ∨
    (nodes ≠ [] ∧ ∃ setup, Setup.make fullMesh gossip nodes links = .ok setup ∧ engine = ofSetup setup) := by
  unfold start
  cases nodes with
  | nil => simp [eq_comm]
  | cons n nodes =>
    have loaded : (bare fullMesh gossip).load (n :: nodes) links = .ok engine ↔
        ∃ setup, Setup.make fullMesh gossip (n :: nodes) links = .ok setup ∧ engine = ofSetup setup := load_eq_ok_iff
    simpa using loaded

/-- **Built again.** An engine that was just built can be built of its own mode, nodes and links. -/
theorem start_again (built : start fullMesh gossip nodes links = .ok engine) :
    start engine.setup.overlay.fullMesh engine.setup.overlay.gossip engine.setup.nodes
      (engine.setup.overlay.links.toList.map Link.ends) = .ok engine := by
  rcases start_eq_ok_iff.1 built with ⟨_, rfl⟩ | ⟨some_nodes, setup, made, rfl⟩
  · rfl
  · refine start_eq_ok_iff.2 (Or.inr ⟨?_, setup, Setup.make_again made, rfl⟩)
    obtain ⟨_, _, _, rfl⟩ := Setup.make_eq_ok_iff.1 made
    exact some_nodes

end Engine

/-! ## The mode of an overlay -/

namespace Network

variable {allowed : UserAction → Prop} {given : Message → Prop} {n n' : Network}

theorem Change.mode (c : Change allowed given n n') : n'.overlay.SameMode n.overlay := by
  cases c with
  | link _ _ made => exact Overlay.sameMode_connect? made
  | unlink _ _ made => exact Overlay.sameMode_disconnect? made
  | act | join | leave | retrust => exact ⟨rfl, rfl⟩

theorem mode_invariant (o : Overlay) :
    Invariant (fun _ => True) (fun n => n.overlay.SameMode o) (fun _ _ => True) where
  holds mode c := ⟨c.mode.1.trans mode.1, c.mode.2.trans mode.2⟩
  good _ _ _ := trivial
  sent _ _ _ := trivial
  forged _ _ := trivial

theorem mode_execute (n : Network) (users : List UserAction) (protocol : List ProtocolAction) :
    (n.execute users protocol).state.overlay.SameMode n.overlay :=
  ((mode_invariant n.overlay).queued.execute (fun _ _ => trivial) ⟨⟨rfl, rfl⟩, fun _ _ => trivial⟩).1

end Network

end FederatedAgreement
