/-
Links and nodes. The links of an overlay and the nodes of a network are kept apart, and both change: links are made and
dropped, nodes come and leave, and all goes back to the start when the network is reset. Still every link joins two different
nodes that are there, with its ends in order, and a full mesh has none. So connection is mutual, and a node that comes back
after it was removed finds none of its links again.

Results:
- `Change.tidy`: each elementary change of a network keeps links and nodes in step.
- `Engine.tidy_load`: they are in step in a network that was just loaded.
- `Engine.Reachable.tidy`: so they are after any batches and resets, and would be after one more reset.
- `links_in_step`: **links and nodes are in step**, and what this means for peers and for nodes that come back.
-/
import FederatedAgreement.Proofs.Network.Reachable
import FederatedAgreement.Proofs.Network.Removal
import FederatedAgreement.Proofs.Network.Setups

namespace FederatedAgreement

open Sorting (SortedSet StrictTotal)

/-! ## Single links -/

namespace Link

variable {a b : NodeId} {l : Link} {r r' : Roster VotingState}

/-- the link joins two different nodes of the roster, the lower one first -/
def Joins (l : Link) (r : Roster VotingState) : Prop := l.lower < l.upper ∧ l.lower ∈ r ∧ l.upper ∈ r

theorem Joins.mono (h : l.Joins r) (more : ∀ k ∈ r, k ∈ r') : l.Joins r' := ⟨h.1, more _ h.2.1, more _ h.2.2⟩

theorem joins_between (different : a ≠ b) (ha : a ∈ r) (hb : b ∈ r) : (between a b).Joins r := by
  unfold between
  split
  · next lower => exact ⟨lower, hb, ha⟩
  · next notLower =>
    rcases StrictTotal.trichotomy a b with lt | same | gt
    · exact ⟨lt, ha, hb⟩
    · exact absurd same different
    · exact absurd gt notLower

theorem touches_eq_false_iff {node : NodeId} : l.touches node = false ↔ node ≠ l.lower ∧ node ≠ l.upper := by
  simp [touches]

end Link

namespace Overlay

variable {o o' : Overlay} {a b : NodeId}

theorem of_connect? (made : o.connect? a b = some o') :
    o.fullMesh = false ∧ a ≠ b ∧ o' = { o with links := o.links.insert (Link.between a b) } := by
  unfold connect? at made
  split at made
  · cases made
  · next new =>
    cases made
    rw [not_or, not_or, Bool.not_eq_true] at new
    exact ⟨new.1, new.2.1, rfl⟩

theorem of_disconnect? (made : o.disconnect? a b = some o') :
    o.fullMesh = false ∧ o' = { o with links := o.links.erase (Link.between a b) } := by
  unfold disconnect? at made
  split at made
  · cases made
  · next there =>
    cases made
    rw [not_or, Bool.not_eq_true] at there
    exact ⟨there.1, rfl⟩

/-- links that are made one after the other join different nodes out of those that were asked for -/
theorem joins_of_mem_connectAll {fullMesh gossip : Bool} {pairs : List (NodeId × NodeId)} {r : Roster VotingState}
    {l : Link} (known : ∀ p ∈ pairs, p.1 ∈ r ∧ p.2 ∈ r) (hl : l ∈ ((bare fullMesh gossip).connectAll pairs).links) :
    l.Joins r := by
  cases fullMesh with
  | true =>
    rw [connectAll_mesh rfl] at hl
    exact absurd hl (SortedSet.not_mem_empty l)
  | false =>
    rcases (mem_connectAll rfl).1 hl with none | ⟨p, hp, different, rfl⟩
    · exact absurd none (SortedSet.not_mem_empty l)
    · exact Link.joins_between different (known p hp).1 (known p hp).2

/-- none of the links is one of the node -/
def Unlinked (o : Overlay) (node : NodeId) : Prop := ∀ l ∈ o.links, l.touches node = false

/-- without links a node has no peers, unless in a full mesh -/
theorem Unlinked.peersOf_eq_nil {node : NodeId} (h : o.Unlinked node) (sparse : o.fullMesh = false)
    (nodes : List NodeId) : o.peersOf node nodes = [] := by
  rw [peersOf, List.filter_eq_nil_iff]
  intro p _ connected
  simp only [isConnected, sparse, Bool.and_eq_true, Bool.false_or, decide_eq_true_eq] at connected
  have touched : (Link.between node p).touches node = true := Link.between_touches.2 (Or.inl rfl)
  rw [h _ connected.2] at touched
  cases touched

end Overlay

/-! ## Networks -/

namespace Network

variable {allowed : UserAction → Prop} {given : Message → Prop} {n n' : Network}

/-- links join different nodes that are there, and there are none in a full mesh -/
structure Tidy (n : Network) : Prop where
  joins : ∀ l ∈ n.overlay.links, l.Joins n.roster
  mesh : n.overlay.fullMesh = true → n.overlay.links = ∅

theorem Tidy.more (h : n.Tidy) {r : Roster VotingState} (more : ∀ k ∈ n.roster, k ∈ r) :
    Tidy { n with roster := r } :=
  ⟨fun l hl => (h.joins l hl).mono more, h.mesh⟩

/-- a node that is not there has no links -/
theorem Tidy.unlinked (h : n.Tidy) {node : NodeId} (absent : node ∉ n.roster) : n.overlay.Unlinked node := by
  intro l hl
  obtain ⟨_, lower, upper⟩ := h.joins l hl
  refine Link.touches_eq_false_iff.2 ⟨?_, ?_⟩
  · rintro rfl
    exact absent lower
  · rintro rfl
    exact absent upper

/-- **One change.** Links and nodes stay in step. -/
theorem Change.tidy (c : Change allowed given n n') (h : n.Tidy) : n'.Tidy := by
  cases c with
  | act _ _ => exact h.more fun k hk => Roster.mem_put_of_mem hk _ _
  | join _ _ => exact h.more fun k hk => Roster.mem_put_of_mem hk _ _
  | retrust _ _ => exact h.more fun k hk => Roster.mem_put_of_mem hk _ _
  | link _ here made =>
    obtain ⟨sparse, different, rfl⟩ := Overlay.of_connect? made
    refine ⟨fun l hl => ?_, fun mesh => absurd (sparse.symm.trans mesh) Bool.false_ne_true⟩
    rcases SortedSet.mem_insert.1 hl with rfl | hl
    · exact Link.joins_between different here.1 here.2
    · exact h.joins l hl
  | unlink _ _ made =>
    obtain ⟨sparse, rfl⟩ := Overlay.of_disconnect? made
    exact ⟨fun l hl => h.joins l (SortedSet.mem_erase.1 hl).1,
      fun mesh => absurd (sparse.symm.trans mesh) Bool.false_ne_true⟩
  | @leave key _ _ =>
    have remains : ∀ {k : NodeId}, k ∈ n.roster → key ≠ k → k ∈ n.roster.erase key := by
      intro k hk other
      rw [Roster.mem_iff_mem_keys, Roster.keys_erase, List.mem_filter]
      exact ⟨hk, decide_eq_true (Ne.symm other)⟩
    refine ⟨fun l hl => ?_, fun mesh => ?_⟩
    · obtain ⟨there, kept⟩ := SortedSet.mem_filter.1 hl
      obtain ⟨notLower, notUpper⟩ := Link.touches_eq_false_iff.1 (Bool.not_eq_true' _ ▸ kept)
      obtain ⟨ordered, lower, upper⟩ := h.joins l there
      exact ⟨ordered, remains lower notLower, remains upper notUpper⟩
    · show n.overlay.links.filter _ = ∅
      rw [h.mesh mesh]
      rfl

theorem tidy_invariant : Invariant (fun _ => True) Tidy fun _ _ => True where
  holds h c := c.tidy h
  good _ _ _ := trivial
  sent _ _ _ := trivial
  forged _ _ := trivial

theorem Tidy.execute (h : n.Tidy) (users : List UserAction) (protocol : List ProtocolAction) :
    (n.execute users protocol).state.Tidy :=
  (tidy_invariant.queued.execute (fun _ _ => trivial) ⟨h, fun _ _ => trivial⟩).1

end Network

/-! ## Engines -/

namespace Engine

variable {e loaded : Engine} {nodes : List Node} {links : List (NodeId × NodeId)}

/-- after loading, links join different nodes that were loaded -/
theorem tidy_load (h : e.load nodes links = .ok loaded) : loaded.network.Tidy := by
  have keys := keys_load h
  obtain ⟨setup, made, rfl⟩ := load_eq_ok_iff.1 h
  have there : ∀ k ∈ nodes.map Node.key, k ∈ setup.network.roster := by
    intro k hk
    rw [← keys] at hk
    exact hk
  obtain ⟨_, _, known, rfl⟩ := Setup.make_eq_ok_iff.1 made
  refine ⟨fun l hl => ?_, fun mesh => ?_⟩
  · exact Overlay.joins_of_mem_connectAll (fun p hp => ⟨there _ (known p hp).1, there _ (known p hp).2⟩) hl
  · have mode := Overlay.sameMode_connectAll (.bare e.setup.overlay.fullMesh e.setup.overlay.gossip) links
    show ((Overlay.bare _ _).connectAll links).links = ∅
    rw [Overlay.connectAll_mesh (mode.1.symm.trans mesh)]
    rfl

/-- what comes about from a loaded engine by batches of any actions and by resets -/
inductive Reachable : Engine → Prop
  | load {e loaded : Engine} {nodes : List Node} {links : List (NodeId × NodeId)} (h : e.load nodes links = .ok loaded) :
      Reachable loaded
  | execute {e : Engine} (users : List UserAction) (protocol : List ProtocolAction) (h : Reachable e) :
      Reachable (e.execute users protocol).1
  | reset {e : Engine} (h : Reachable e) : Reachable e.reset

/-- **In step.** Links and nodes are in step in a reachable network, and at the start to which it can be reset. -/
theorem Reachable.tidy (h : e.Reachable) : e.network.Tidy ∧ e.setup.network.Tidy := by
  induction h with
  | load loaded =>
    have tidy := tidy_load loaded
    obtain ⟨setup, _, rfl⟩ := load_eq_ok_iff.1 loaded
    exact ⟨tidy, tidy⟩
  | execute users protocol _ ih => exact ⟨ih.1.execute users protocol, ih.2⟩
  | reset _ ih => exact ⟨ih.2, ih.2⟩

end Engine

/-! ## Peers -/

namespace Network

variable {n : Network} {key : NodeId}

/-- no node is its own peer -/
theorem not_mem_peersOf_self (n : Network) (a : NodeId) : a ∉ n.peersOf a := by
  intro self
  have connected := Overlay.mem_peersOf.1 self
  simp [Overlay.isConnected] at connected

theorem mem_peersOf_comm (n : Network) (a b : NodeId) : b ∈ n.peersOf a ↔ a ∈ n.peersOf b := by
  unfold Network.peersOf
  rw [Overlay.mem_peersOf, Overlay.mem_peersOf, Overlay.isConnected_comm]

/-- a node that is not there by then is there after it was added, and the links are what they were -/
theorem execute_addNode {early : List UserAction} (absent : key ∉ (n.execute early []).state.roster) (q : QuorumSet) :
    key ∈ (n.execute (early ++ [.addNode key q]) []).state.roster ∧
    (n.execute (early ++ [.addNode key q]) []).state.overlay = (n.execute early []).state.overlay := by
  generalize before : (n.execute early []).state = m at absent
  have added : (n.execute (early ++ [.addNode key q]) []).state = { m with roster := m.roster.put key (.fresh q) } := by
    rw [execute_append, ← before]
    show ((n.execute early []).state.addNode key q).state = _
    rw [before, addNode, if_neg absent]
    rfl
  rw [added]
  refine ⟨?_, rfl⟩
  show key ∈ m.roster.put key (.fresh q)
  rw [Roster.mem_iff_exists_get?, Roster.get?_put, if_pos rfl]
  exact ⟨_, rfl⟩

end Network

/-! ## Main result -/

/-- **Links and nodes are in step.** In an engine that came about from a loaded one by batches of any actions and by resets,
every link of the overlay joins two different nodes that are there, the lower one first, and no two links have the same
ends; a full mesh has no links. So two nodes are peers of each other or not at all, and no node is its own peer. When a
batch has removed a node, it is not there; and when a node that is not there by then is added, it is there, but no link is
one of its links, so it has no peers unless in a full mesh. -/
theorem links_in_step {e : Engine} (h : e.Reachable) :
    (∀ l ∈ e.network.overlay.links, l.lower < l.upper ∧ l.lower ∈ e.network.roster ∧ l.upper ∈ e.network.roster) ∧
    (e.network.overlay.links.toList.map Link.ends).Nodup ∧
    (e.network.overlay.fullMesh = true → e.network.overlay.links = ∅) ∧
    (∀ a b, b ∈ e.network.peersOf a ↔ a ∈ e.network.peersOf b) ∧ (∀ a, a ∉ e.network.peersOf a) ∧
    (∀ key early, key ∉ (e.execute (early ++ [.removeNode key]) []).1.network.roster) ∧
    ∀ key q early, key ∉ (e.execute early []).1.network.roster →
      key ∈ (e.execute (early ++ [.addNode key q]) []).1.network.roster ∧
      (e.execute (early ++ [.addNode key q]) []).1.network.overlay.Unlinked key ∧
      (e.network.overlay.fullMesh = false →
        (e.execute (early ++ [.addNode key q]) []).1.network.peersOf key = []) := by
  have tidy := h.tidy.1
  have ends_inj : Function.Injective Link.ends := by
    intro l m same
    exact Link.eq_of_ends (congrArg Prod.fst same) (congrArg Prod.snd same)
  refine ⟨tidy.joins, (SortedSet.nodup _).map ends_inj, tidy.mesh, e.network.mem_peersOf_comm,
    e.network.not_mem_peersOf_self, fun key early => e.network.not_mem_execute_removeNode early key,
    fun key q early absent => ?_⟩
  obtain ⟨there, same⟩ := Network.execute_addNode absent q
  have unlinked : (e.network.execute (early ++ [.addNode key q]) []).state.overlay.Unlinked key := by
    rw [same]
    exact (tidy.execute early []).unlinked absent
  refine ⟨there, unlinked, fun sparse => unlinked.peersOf_eq_nil ?_ _⟩
  exact (Network.mode_execute e.network _ []).1.trans sparse

/-- trust in the first of the three nodes only -/
def trustInFirst : QuorumSet := .flat 1 ["J"] (by decide)

def threeHermits : List Node := ["J", "O", "Z"].map fun key => ⟨key, trustInFirst⟩

/-- one link is asked for twice, and one of "Z" with itself -/
def hermitLinks : List (NodeId × NodeId) := [("O", "J"), ("J", "O"), ("Z", "Z"), ("Z", "O")]

/-- the nodes stand in a row -/
def hermitRow : Engine := .ofSetup ⟨threeHermits, (Overlay.bare false false).connectAll hermitLinks⟩

/-- the node in the middle leaves, cannot be linked any more, and the others are linked with each other -/
def closingUp : List UserAction := [.removeNode "O", .connect "O" "J", .connect "Z" "J"]

def closedUp : Engine := (hermitRow.execute closingUp []).1

/-- the node in the middle finds none of its links when it comes back, but a reset brings them back with it -/
theorem closedUp_in_step :
    hermitRow.Reachable ∧ closedUp.Reachable ∧ "O" ∉ closedUp.network.roster ∧
    closedUp.network.overlay.links.toList.map Link.ends = [("J", "Z")] ∧
    (∀ a b, b ∈ closedUp.network.peersOf a ↔ a ∈ closedUp.network.peersOf b) ∧
    (hermitRow.execute (closingUp ++ [.addNode "O" trustInFirst]) []).1.network.overlay.Unlinked "O" ∧
    (hermitRow.execute (closingUp ++ [.addNode "O" trustInFirst]) []).1.network.peersOf "O" = [] ∧
    (closedUp.reset.network.overlay.links.toList.map Link.ends).Nodup ∧
    closedUp.reset.network.peersOf "O" = ["J", "Z"] := by
  have loaded : (Engine.bare false false).load threeHermits hermitLinks = .ok hermitRow :=
    Engine.load_eq_ok_iff.2 ⟨_, Setup.make_eq_ok_iff.2 ⟨by decide, by decide, by decide, rfl⟩, rfl⟩
  have reachable : hermitRow.Reachable := .load loaded
  have later : closedUp.Reachable := .execute _ _ reachable
  have absent : "O" ∉ closedUp.network.roster := by decide
  obtain ⟨_, _, _, _, _, _, back⟩ := links_in_step reachable
  obtain ⟨_, unlinked, alone⟩ := back "O" trustInFirst closingUp absent
  obtain ⟨_, _, _, bothWays, _⟩ := links_in_step later
  obtain ⟨_, once, _⟩ := links_in_step later.reset
  exact ⟨reachable, later, absent, by decide, bothWays, unlinked, alone (by decide), once, by decide⟩

end FederatedAgreement
