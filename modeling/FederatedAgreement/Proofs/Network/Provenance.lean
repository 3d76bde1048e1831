/-
Provenance of votes: where nobody forges messages and no node is removed, every vote that is held or under way was cast
by a node that still stands behind it, and every message was put on its way by the node that cast its vote or by one that
passed the vote on. Nodes may come, links may come and go, nodes may trust others, and any messages may be lost.

Results:
- `Sourced.change`: a message keeps its source.
- `sourced_invariant`: votes that are held and messages under way keep each other authentic.
- `votes_authentic`: **authentic votes**, after any number of rounds.
-/
import FederatedAgreement.Proofs.Network.Authenticity

namespace FederatedAgreement

/-- orders that put no words into anybody's mouth and take nobody out -/
def Sincere (a : UserAction) : Prop := a.kind ≠ .forge ∧ a.kind ≠ .removeNode

instance (a : UserAction) : Decidable (Sincere a) := inferInstanceAs (Decidable (_ ∧ _))

namespace Network

variable {given : Message → Prop} {n n' : Network} {m : Message}

/-- the voter is in the network and stands behind the vote -/
def StoodBehind (n : Network) (v : Vote) : Prop := ∃ st, n.roster.get? v.voter = some st ∧ st.Stands v

theorem backed_empty_iff {v : Vote} : Backed ∅ n v ↔ StoodBehind n v :=
  or_iff_right (Sorting.SortedSet.not_mem_empty v.voter)

/-- the message carries a vote that its voter stands behind, and was sent by the voter or by a node that passed the vote
on -/
structure Sourced (n : Network) (m : Message) : Prop where
  backed : StoodBehind n m.vote
  passed : m.sender = m.vote.voter ∨ ∃ st, n.roster.get? m.sender = some st ∧ m.vote ∈ st.forwarded

theorem sincere_stays (key : NodeId) : ¬ Sincere (.removeNode key) := fun h => h.2 rfl

/-- **Sources stay.** Nothing that happens to a network takes back what a node stands behind or passed on. -/
theorem Sourced.change (hm : Sourced n m) (h : Truthful ∅ n) (c : Change Sincere given n n') : Sourced n' m := by
  refine ⟨?_, ?_⟩
  · have backed := (backed_empty_iff.2 hm.backed).change h sincere_stays c
    exact backed_empty_iff.1 backed
  · rcases hm.passed with cast | ⟨st, here, passed⟩
    · exact Or.inl cast
    · obtain ⟨st', there, turn⟩ := c.forward (sincere_stays m.sender) here
      have grown := (turn.advances (h.coherent here)).forwarded
      exact Or.inr ⟨st', there, grown.subset passed⟩

/-- what a node sends is its own vote or one that it passed on -/
theorem sourced_of_sends (h : Truthful ∅ n) {key : NodeId} {st : VotingState} {a : ProtocolAction}
    (here : n.roster.get? key = some st) (sends : st.Sends key a) : Sourced n a.message := by
  refine ⟨backed_empty_iff.1 (h.backed here sends.holds), ?_⟩
  rcases sends.vote with ⟨own, _⟩ | passed
  · exact Or.inl (sends.sender.trans own.symm)
  · exact Or.inr ⟨st, sends.sender ▸ here, passed⟩

theorem sourced_invariant : Invariant Sincere (Truthful ∅) Sourced where
  holds h c := by
    refine h.change sincere_stays c fun v carried => ?_
    obtain ⟨m, hm, rfl⟩ := carried
    exact backed_empty_iff.2 hm.backed
  good h c hm := hm.change h c
  sent h here sends := sourced_of_sends h here sends
  forged _ ordered := absurd rfl ordered.1

end Network

/-! ## Main result -/

/-- **Authentic votes.** Let a network be loaded, and let any rounds pass in which nobody forges a message and no node is
removed, while any messages may be disrupted. Whatever vote a node took into account or passed on, and whatever vote a
message under way carries, its voter is in the network and accepted the statement if the vote is an acceptance, and voted
for it otherwise. The sender of a message under way is the voter itself or a node that passed the vote on. -/
theorem votes_authentic {e loaded : Engine} {nodes : List Node} {links : List (NodeId × NodeId)}
    (load : e.load nodes links = .ok loaded) {rounds : List Round} (orders : ∀ r ∈ rounds, ∀ a ∈ r.orders, Sincere a) :
    (∀ key st v, ((Session.start loaded).run rounds).state? key = some st → v ∈ st.processed ∨ v ∈ st.forwarded →
      ∃ sv, ((Session.start loaded).run rounds).state? v.voter = some sv ∧
        (if v.isAccept then sv.accepted else sv.voted) = some v.statement) ∧
    ∀ a ∈ ((Session.start loaded).run rounds).pending,
      (∃ sv, ((Session.start loaded).run rounds).state? a.message.vote.voter = some sv ∧
        (if a.message.vote.isAccept then sv.accepted else sv.voted) = some a.message.vote.statement) ∧
      (a.message.sender = a.message.vote.voter ∨
        ∃ ss, ((Session.start loaded).run rounds).state? a.message.sender = some ss ∧
          a.message.vote ∈ ss.forwarded) := by
  have nothing_pending : ∀ a ∈ (Session.start loaded).pending, Network.Sourced loaded.network a.message :=
    fun a ha => absurd ha List.not_mem_nil
  obtain ⟨truthful, sourced⟩ := Network.sourced_invariant.run orders (Network.truthful_load load) nothing_pending
  constructor
  · intro key st v here held
    exact Network.backed_empty_iff.1 (truthful.backed here held)
  · intro a ha
    exact ⟨(sourced a ha).backed, (sourced a ha).passed⟩

/-- three nodes in a row, each of which trusts itself and its left neighbour -/
def threeInRow : List Node :=
  [⟨"S", .flat 1 ["S"] (by decide)⟩, ⟨"T", .flat 2 ["S", "T"] (by decide)⟩, ⟨"U", .flat 2 ["T", "U"] (by decide)⟩]

/-- the first node votes and accepts at once, one of its messages is lost, and the node in the middle passes the other one
on and comes to trust the first node alone -/
def rowRounds : List Round :=
  [⟨[.vote "S" "x"], []⟩, ⟨[], [0]⟩, ⟨[.addNode "V" (.flat 1 ["S"] (by decide))], []⟩,
    ⟨[.updateQuorumSet "T" (.flat 1 ["S"] (by decide))], []⟩]

def rowSession : Session :=
  (Session.start (.ofSetup ⟨threeInRow, ⟨false, true, .ofList [.between "S" "T", .between "T" "U"]⟩⟩)).run rowRounds

/-- an acceptance by the first node is on its way from the middle to the last one: the first node did accept the
statement, and the one in the middle did pass that on -/
theorem rowSession_authentic :
    (Engine.bare false true).load threeInRow [("S", "T"), ("T", "U")] =
      .ok (.ofSetup ⟨threeInRow, ⟨false, true, .ofList [.between "S" "T", .between "T" "U"]⟩⟩) ∧
    (∀ r ∈ rowRounds, ∀ a ∈ r.orders, Sincere a) ∧
    ProtocolAction.receive ⟨"T", "U", ⟨"x", "S", true⟩⟩ ∈ rowSession.pending ∧
    (∃ sv, rowSession.state? "S" = some sv ∧ sv.accepted = some "x") ∧
    ∃ ss, rowSession.state? "T" = some ss ∧ ⟨"x", "S", true⟩ ∈ ss.forwarded := by
  have load : (Engine.bare false true).load threeInRow [("S", "T"), ("T", "U")] =
      .ok (.ofSetup ⟨threeInRow, ⟨false, true, .ofList [.between "S" "T", .between "T" "U"]⟩⟩) := by rfl
  have orders : ∀ r ∈ rowRounds, ∀ a ∈ r.orders, Sincere a := by decide
  have pending : ProtocolAction.receive ⟨"T", "U", ⟨"x", "S", true⟩⟩ ∈ rowSession.pending := by decide +kernel
  obtain ⟨accepted, passed⟩ := (votes_authentic load orders).2 _ pending
  have relayed := passed.resolve_left (by decide)
  exact ⟨load, orders, pending, accepted, relayed⟩

end FederatedAgreement
