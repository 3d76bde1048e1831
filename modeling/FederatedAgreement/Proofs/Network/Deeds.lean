/-
Deeds: what can be carried out in a network one after the other, orders of operators and protocol actions alike. A batch is
a list of deeds, the orders before the protocol actions. Each event of a list of deeds is seen in the network in which its
deed is carried out.

Results:
- `execute_eq_undergo`: a batch is carried out deed by deed.
- `events_witnessed`: the events that are witnessed are the events of the deeds, in their order.
-/
import FederatedAgreement.Network

namespace FederatedAgreement

/-- one thing that is carried out in a network -/
inductive Deed where
  | order (u : UserAction)
  | deliver (a : ProtocolAction)
deriving DecidableEq, Repr

namespace Deed

/-- the protocol action that is carried out, if the deed is one -/
def protocol? : Deed → Option ProtocolAction
  | .order _ => none
  | .deliver a => some a

/-- the deeds of a batch, in the order in which they are carried out -/
def batch (users : List UserAction) (protocol : List ProtocolAction) : List Deed :=
  users.map .order ++ protocol.map .deliver

/-- the protocol actions of a batch are those that it was given -/
theorem protocol_batch (users : List UserAction) (protocol : List ProtocolAction) :
    (batch users protocol).filterMap protocol? = protocol := by
  simp [batch, List.filterMap_map, Function.comp_def, protocol?]

end Deed

namespace Network

variable {n : Network}

def carryOut (n : Network) : Deed → Outcome Network
  | .order u => n.applyUser u
  | .deliver a => n.applyProtocol a

/-- carry out some deeds, one after the other -/
def undergo (n : Network) (deeds : List Deed) : Outcome Network := Outcome.runEach carryOut n deeds

theorem undergo_cons (n : Network) (d : Deed) (deeds : List Deed) :
    n.undergo (d :: deeds) = (n.carryOut d).andThen fun n' => n'.undergo deeds := rfl

theorem undergo_append (n : Network) (first second : List Deed) :
    n.undergo (first ++ second) = (n.undergo first).andThen fun n' => n'.undergo second :=
  Outcome.runEach_append carryOut n first second

theorem undergo_orders (n : Network) (users : List UserAction) :
    n.undergo (users.map .order) = Outcome.runEach applyUser n users := by
  induction users generalizing n with
  | nil => rfl
  | cons u users ih => simp only [List.map_cons, undergo_cons, ih, Outcome.runEach_cons, carryOut]

theorem undergo_deliveries (n : Network) (protocol : List ProtocolAction) :
    n.undergo (protocol.map .deliver) = Outcome.runEach applyProtocol n protocol := by
  induction protocol generalizing n with
  | nil => rfl
  | cons a protocol ih => simp only [List.map_cons, undergo_cons, ih, Outcome.runEach_cons, carryOut]

/-- **Batches.** A batch is carried out deed by deed. -/
theorem execute_eq_undergo (n : Network) (users : List UserAction) (protocol : List ProtocolAction) :
    n.execute users protocol = n.undergo (Deed.batch users protocol) := by
  simp only [Deed.batch, undergo_append, undergo_orders, undergo_deliveries]
  rfl

/-! ## Events in their places -/

/-- what is seen while deeds are carried out, each event with the network in which its deed is carried out -/
def witnessed (n : Network) : List Deed → List (Network × Event)
  | [] => []
  | d :: deeds => (n.carryOut d).events.map (n, ·) ++ witnessed (n.carryOut d).state deeds

theorem events_witnessed (n : Network) (deeds : List Deed) :
    (n.witnessed deeds).map Prod.snd = (n.undergo deeds).events := by
  induction deeds generalizing n with
  | nil => rfl
  | cons d deeds ih =>
    have first : ((n.carryOut d).events.map (n, ·)).map Prod.snd = (n.carryOut d).events := by
      simp [Function.comp_def]
    rw [witnessed, List.map_append, first, ih, undergo_cons]
    rfl

end Network

end FederatedAgreement
