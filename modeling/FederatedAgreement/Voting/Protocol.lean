/-
Federated voting: how a single node moves from a vote over acceptance to confirmation.

- A node votes when asked to, once.
- A node that has accepted nothing accepts a statement if the nodes that voted for or accepted it form a slice of its
  quorum set, or else if the nodes that accepted it block its quorum set.
- A node confirms what it accepted once the nodes that accepted it form a slice. That is final.

A node's own votes count like any others. Of several statements that could be accepted, the one heard of first is.

Results:
- `ground?_eq_none_iff`, `ground?_eq_blocking_iff`: when nothing speaks for a statement, and when only those who accepted
  it do.
- `enough_of_ground`: what speaks for accepting a statement.
-/
import FederatedAgreement.Outcome
import FederatedAgreement.Voting.State

namespace FederatedAgreement

/-- why a statement was accepted -/
inductive Ground where
  | quorum
  | blocking
deriving DecidableEq, Repr

def Ground.name : Ground → String
  | .quorum => "quorum"
  | .blocking => "v_blocking"

/-- a vote to every peer -/
def broadcast (self : NodeId) (vote : Vote) (peers : List NodeId) : List ProtocolAction :=
  peers.map fun peer => .send ⟨self, peer, vote⟩

namespace VotingState

/-- what speaks for accepting a statement, if anything does -/
def ground? (st : VotingState) (s : Statement) : Option Ground :=
  if st.quorumSet.isSlice (st.votersFor s) then some .quorum
  else if st.quorumSet.isBlocking (st.acceptersOf s) then some .blocking
  else none

/-- where the backers of a statement are no slice, those who accepted it decide -/
theorem ground?_eq_iff {st : VotingState} {s : Statement} {b : Bool} :
    st.ground? s = (bif b then some .blocking else none) ↔
      st.quorumSet.isSlice (st.votersFor s) = false ∧ st.quorumSet.isBlocking (st.acceptersOf s) = b := by
  unfold ground?
  cases st.quorumSet.isSlice (st.votersFor s) <;> cases st.quorumSet.isBlocking (st.acceptersOf s) <;> cases b <;> simp

/-- nothing speaks for a statement if its backers are no slice and those who accepted it do not block the node -/
theorem ground?_eq_none_iff {st : VotingState} {s : Statement} : st.ground? s = none ↔
    st.quorumSet.isSlice (st.votersFor s) = false ∧ st.quorumSet.isBlocking (st.acceptersOf s) = false :=
  ground?_eq_iff (b := false)

theorem ground?_eq_blocking_iff {st : VotingState} {s : Statement} : st.ground? s = some .blocking ↔
    st.quorumSet.isSlice (st.votersFor s) = false ∧ st.quorumSet.isBlocking (st.acceptersOf s) = true :=
  ground?_eq_iff (b := true)

/-- what speaks for accepting a statement: those who back it satisfy the quorum set, or those who accepted it block it -/
theorem enough_of_ground {st : VotingState} {s : Statement} {g : Ground} (h : st.ground? s = some g) :
    st.quorumSet.isSlice (st.votersFor s) = true ∨ st.quorumSet.isBlocking (st.acceptersOf s) = true := by
  apply Classical.byContradiction
  intro few
  rw [not_or, Bool.not_eq_true, Bool.not_eq_true] at few
  cases (ground?_eq_none_iff.2 few).symm.trans h

/-- the first statement heard of that can be accepted, with what speaks for it -/
def acceptable? (st : VotingState) : Option (Statement × Ground) :=
  st.knownStatements.findSome? fun s => (st.ground? s).map (s, ·)

/-- accept a statement; a node that has not voted has voted for it thereby -/
def accept (self : NodeId) (peers : List NodeId) (st : VotingState) (s : Statement) (g : Ground) :
    Outcome VotingState :=
  let own : Vote := ⟨s, self, true⟩
  { state := { st with
      phase := .accepted
      voted := st.voted.or (some s)
      accepted := some s
      processed := st.processed ++ [own] }
    actions := broadcast self own peers
    events := [.make .accepted self [("statement", s), ("reason", g.name)]] }

/-- accept if something can be accepted and nothing has been -/
def tryAccept (self : NodeId) (peers : List NodeId) (st : VotingState) : Outcome VotingState :=
  if st.phase < .accepted then
    match st.acceptable? with
    | some (s, g) => st.accept self peers s g
    | none => .still st
  else .still st

/-- confirm what was accepted if enough nodes have accepted it -/
def tryConfirm (self : NodeId) (st : VotingState) : Outcome VotingState :=
  match st.accepted with
  | some s =>
    if st.phase = .accepted ∧ st.quorumSet.isSlice (st.acceptersOf s) then
      .noting { st with phase := .confirmed, confirmed := some s } (.make .confirmed self [("statement", s)])
    else .still st
  | none => .still st

/-- apply the rules of acceptance and confirmation; one application is enough, since only these rules change
the phase -/
def evaluate (self : NodeId) (peers : List NodeId) (st : VotingState) : Outcome VotingState :=
  (st.tryAccept self peers).andThen (tryConfirm self)

/-- vote for a statement and tell the peers, unless the node has gone past voting -/
def vote (self : NodeId) (peers : List NodeId) (s : Statement) (st : VotingState) : Outcome VotingState :=
  if st.phase ≠ .unknown then
    .noting st (.make .voteIgnored self [("statement", s), ("reason", "already " ++ st.phase.name)])
  else
    let own : Vote := ⟨s, self, false⟩
    let cast : Outcome VotingState :=
      { state := { st with phase := .voted, voted := some s, processed := st.processed ++ [own] }
        actions := broadcast self own peers
        events := [.make .voted self [("statement", s)]] }
    cast.andThen (evaluate self peers)

/-- pass a vote of another node on, the first time it comes: to the peers that neither sent nor cast it -/
def relay (self : NodeId) (peers : List NodeId) (m : Message) (st : VotingState) : Outcome VotingState :=
  if m.vote.voter = self ∨ m.vote ∈ st.forwarded then .still st
  else
    let others := peers.filter fun p => p ≠ m.sender && p ≠ m.vote.voter
    { state := { st with forwarded := st.forwarded ++ [m.vote] }
      actions := broadcast self m.vote others
      events :=
        if others.isEmpty then []
        else [.make .messageRelayed self [("vote", m.vote.text), ("peers", ",".intercalate others)]] }

/-- take a vote into account, unless it was already -/
def process (self : NodeId) (peers : List NodeId) (v : Vote) (st : VotingState) : Outcome VotingState :=
  if v ∈ st.processed then .still st else evaluate self peers { st with processed := st.processed ++ [v] }

/-- a message arrives: its vote is relayed if there is gossip, and then taken into account -/
def receive (self : NodeId) (peers : List NodeId) (gossip : Bool) (m : Message) (st : VotingState) :
    Outcome VotingState :=
  (if gossip then st.relay self peers m else .still st).andThen (process self peers m.vote)

end VotingState

end FederatedAgreement
