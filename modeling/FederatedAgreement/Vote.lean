/-
Nodes, votes and messages: who takes part, what nodes say about statements, and how votes travel.

Result:
- `Phase.lt_iff_rank`: phases are ordered as they follow one another.
-/
import FederatedAgreement.QuorumSet.Basic

namespace FederatedAgreement

/-- a value that nodes agree on -/
abbrev Statement := String

/-- a participant: its key and whom it trusts -/
structure Node where
  key : NodeId
  quorumSet : QuorumSet
deriving DecidableEq, Repr

/-- a node's vote for a statement, or its acceptance of one -/
structure Vote where
  statement : Statement
  voter : NodeId
  isAccept : Bool
deriving DecidableEq, Repr

def Vote.text (v : Vote) : String :=
  v.voter ++ " " ++ (if v.isAccept then "accept" else "vote") ++ "(" ++ v.statement ++ ")"

/-- a vote on one hop of the overlay; the sender is the node that passes it on, the voter the node that cast it -/
structure Message where
  sender : NodeId
  receiver : NodeId
  vote : Vote
deriving DecidableEq, Repr

def Message.text (m : Message) : String := "From: " ++ m.sender ++ ", To: " ++ m.receiver ++ ", " ++ m.vote.text

/-! ## Phases -/

/-- how far a node has come -/
inductive Phase where
  | unknown
  | voted
  | accepted
  | confirmed
deriving DecidableEq, Repr

namespace Phase

def all : List Phase := [.unknown, .voted, .accepted, .confirmed]

def name : Phase → String
  | .unknown => "unknown"
  | .voted => "voted"
  | .accepted => "accepted"
  | .confirmed => "confirmed"

def ofName? (s : String) : Option Phase := all.find? (·.name = s)

/-- the place of a phase in the order in which they follow one another -/
def rank : Phase → Nat
  | .unknown => 0
  | .voted => 1
  | .accepted => 2
  | .confirmed => 3

instance : LT Phase := ⟨fun p q => p.rank < q.rank⟩

instance : LE Phase := ⟨fun p q => p.rank ≤ q.rank⟩

instance (p q : Phase) : Decidable (p < q) := inferInstanceAs (Decidable (p.rank < q.rank))

instance (p q : Phase) : Decidable (p ≤ q) := inferInstanceAs (Decidable (p.rank ≤ q.rank))

theorem lt_iff_rank {p q : Phase} : p < q ↔ p.rank < q.rank := Iff.rfl

end Phase

end FederatedAgreement
