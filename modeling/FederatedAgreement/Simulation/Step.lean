/-
Steps: one tick of a simulation's history. A step holds the actions that are carried out next, the events that led
to it, and the hash of the step before, by which a recorded step is known to follow from it.

Results:
- `actionsHash_congr`: the hash depends on the texts of the actions only.
-/
import FederatedAgreement.Digest.Sha256
import FederatedAgreement.Network

namespace FederatedAgreement

/-- one tick of history, its user actions kept as `α` -/
structure Step (α : Type) where
  userActions : List α
  protocolActions : List ProtocolAction
  precedingEvents : List Event
  previousHash : String

namespace Step

variable {α β : Type}

/-- a step with nothing to do and nothing before it -/
def blank : Step α := ⟨[], [], [], ""⟩

instance : Inhabited (Step α) := ⟨blank⟩

/-- keep the user actions in another form -/
def map (f : α → β) (s : Step α) : Step β := { s with userActions := s.userActions.map f }

def hasPending (s : Step α) : Bool := !s.userActions.isEmpty || !s.protocolActions.isEmpty

def label (s : Step α) : String :=
  "SimulationStep(" ++ toString s.userActions.length ++ " user, " ++ toString s.protocolActions.length ++
    " protocol, " ++ toString s.precedingEvents.length ++ " events)"

end Step

/-- the text of all actions in order, and behind it the fingerprints of the protocol actions -/
def actionsText (users : List UserAction) (protocol : List ProtocolAction) : String :=
  "|".intercalate (users.map UserAction.text ++ protocol.map ProtocolAction.text) ++
    "|".intercalate (protocol.map ProtocolAction.fingerprint)

/-- the hash by which a step's actions are recognised -/
def actionsHash (users : List UserAction) (protocol : List ProtocolAction) : String :=
  Digest.sha256Hex (actionsText users protocol)

theorem actionsHash_congr {users users' : List UserAction} {protocol protocol' : List ProtocolAction}
    (h : actionsText users protocol = actionsText users' protocol') :
    actionsHash users protocol = actionsHash users' protocol' := congrArg Digest.sha256Hex h

end FederatedAgreement
