/-
The voting state of one node: the votes that it has taken into account and what it has made of them.

Results:
- `mem_votersFor`, `mem_acceptersOf`: who is known to back a statement.
- `mem_knownStatements`: which statements a node has heard of.
-/
import FederatedAgreement.QuorumSet.Satisfaction
import FederatedAgreement.Vote

namespace FederatedAgreement

open Sorting (SortedSet)

/-- what one node holds: whom it trusts, its phase, what it voted for, accepted and confirmed, the votes processed in
order, and the votes relayed in order -/
structure VotingState where
  quorumSet : QuorumSet
  phase : Phase
  voted : Option Statement
  accepted : Option Statement
  confirmed : Option Statement
  processed : List Vote
  forwarded : List Vote
deriving DecidableEq

namespace VotingState

/-- a node that has heard and said nothing -/
def fresh (quorumSet : QuorumSet) : VotingState := ⟨quorumSet, .unknown, none, none, none, [], []⟩

/-- the nodes known to have voted for or accepted a statement -/
def votersFor (st : VotingState) (s : Statement) : NodeSet :=
  SortedSet.ofList ((st.processed.filter (·.statement = s)).map Vote.voter)

/-- the nodes known to have accepted a statement -/
def acceptersOf (st : VotingState) (s : Statement) : NodeSet :=
  SortedSet.ofList ((st.processed.filter fun v => v.statement = s && v.isAccept).map Vote.voter)

/-- the statements heard of, in the order in which they first were -/
def knownStatements (st : VotingState) : List Statement := (st.processed.map Vote.statement).eraseDups

theorem mem_votersFor {st : VotingState} {s : Statement} {n : NodeId} :
    n ∈ st.votersFor s ↔ ∃ v ∈ st.processed, v.statement = s ∧ v.voter = n := by
  simp [votersFor, and_assoc]

theorem mem_acceptersOf {st : VotingState} {s : Statement} {n : NodeId} :
    n ∈ st.acceptersOf s ↔ ∃ v ∈ st.processed, v.statement = s ∧ v.isAccept = true ∧ v.voter = n := by
  simp [acceptersOf, and_assoc]

theorem mem_knownStatements {st : VotingState} {s : Statement} :
    s ∈ st.knownStatements ↔ ∃ v ∈ st.processed, v.statement = s := by
  simp [knownStatements]

/-- the phase of a node with what it stands for most firmly: confirmed before accepted before voted -/
def label (self : NodeId) (st : VotingState) : String :=
  let firm := [st.confirmed, st.accepted].find? fun s => s.any (· ≠ "")
  let value := match firm.getD st.voted with
    | some s => ", " ++ Text.quote s
    | none => ""
  "FederatedVotingState(" ++ self ++ ", " ++ st.phase.name ++ value ++ ")"

end VotingState

end FederatedAgreement
