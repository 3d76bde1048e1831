/-
Consensus: what the states of the nodes mean for the network as a whole. Either every node confirmed one statement, or
different statements were confirmed, or nothing is left to do without agreement, or the outcome is open.
-/
import FederatedAgreement.Network

namespace FederatedAgreement

/-- how far a node has come and what it confirmed -/
structure Standing where
  phase : Phase
  confirmed : Option Statement
deriving DecidableEq, Repr

def VotingState.standing (st : VotingState) : Standing := ⟨st.phase, st.confirmed⟩

/-- where the nodes stand, and whether a simulation could go on -/
structure Consensus where
  standings : List Standing
  hasNext : Bool
deriving DecidableEq, Repr

namespace Consensus

def nodeCount (c : Consensus) : Nat := c.standings.length

/-- the confirmed statements, once for each node that confirmed -/
def confirmations (c : Consensus) : List Statement := c.standings.filterMap Standing.confirmed

/-- how many nodes confirmed each statement, in the order in which the statements first appear -/
def confirmedCounts (c : Consensus) : List (Statement × Nat) :=
  c.confirmations.eraseDups.map fun s => (s, c.confirmations.count s)

/-- how many nodes are in each phase -/
def phaseCounts (c : Consensus) : List (Phase × Nat) :=
  Phase.all.map fun p => (p, c.standings.countP (·.phase = p))

def confirmedCount (c : Consensus) : Nat := (c.confirmedCounts.map Prod.snd).foldr (· + ·) 0

/-- every node confirmed, and all the same statement -/
def isReached (c : Consensus) : Bool :=
  0 < c.nodeCount && c.confirmedCount = c.nodeCount && c.confirmedCounts.length = 1

/-- more than one statement was confirmed -/
def isSplit (c : Consensus) : Bool := 1 < c.confirmedCounts.length

/-- nothing is left to do, and yet there is no consensus -/
def isStuck (c : Consensus) : Bool := !c.hasNext && !c.isReached

def status (c : Consensus) : String :=
  if c.isReached then "consensus" else if c.isSplit then "split" else if c.isStuck then "stuck" else "in_progress"

def label (c : Consensus) : String :=
  "ConsensusSnapshot(" ++ c.status ++ ", " ++ toString c.confirmedCount ++ "/" ++ toString c.nodeCount ++ " confirmed)"

end Consensus

/-- where the nodes of a network stand -/
def Network.consensus (n : Network) (hasNext : Bool) : Consensus := ⟨n.roster.values.map VotingState.standing, hasNext⟩

end FederatedAgreement
