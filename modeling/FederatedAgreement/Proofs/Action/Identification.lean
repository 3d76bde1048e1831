/-
What the text of a batch is good for: it stands for the actions. User actions are taken up to the order of validators
and of inner quorum sets, at every level of the quorum sets in them; protocol actions are taken as they are, disrupted
or not. Where keys, validators and statements are made of letters and digits, two batches have the same text exactly
when they hold the same actions in the same order. A name may well look like one of the words between the names.

Results:
- `UserAction.Alike.symm`, `UserAction.Alike.trans`: being alike is an equivalence.
- `UserAction.map_unordered_eq_iff`: equal lists without an order of members are lists of alike actions.
- `actionsText_identifies`: **the text identifies the actions**.
-/
import FederatedAgreement.Proofs.Action.Texts
import Mathlib.Data.Quot

namespace FederatedAgreement

open Text (IsAlphanumeric)

/-! ## Actions without an order of members -/

namespace UserAction

variable {a b c : UserAction} {users users' : List UserAction}

theorem Alike.symm (h : Alike a b) : Alike b a := by
  cases h with
  | addNode trust => exact .addNode trust.symm
  | updateQuorumSet trust => exact .updateQuorumSet trust.symm
  | same => exact .same _

theorem Alike.trans (h : Alike a b) (h' : Alike b c) : Alike a c := by
  cases h with
  | addNode trust =>
    cases h' with
    | addNode trust' => exact .addNode (trust.trans trust')
    | same => exact .addNode trust
  | updateQuorumSet trust =>
    cases h' with
    | updateQuorumSet trust' => exact .updateQuorumSet (trust.trans trust')
    | same => exact .updateQuorumSet trust
  | same => exact h'

/-- actions that differ in the order of members of quorum sets only -/
instance setoid : Setoid UserAction where
  r := Alike
  iseqv := ⟨Alike.same, Alike.symm, Alike.trans⟩

/-- a user action without an order of members in its quorum set -/
def Unordered : Type := Quotient setoid

def unordered (a : UserAction) : Unordered := Quotient.mk setoid a

theorem unordered_eq_iff : a.unordered = b.unordered ↔ Alike a b := Quotient.eq (r := setoid)

/-- lists that are equal without an order of members are lists of alike actions -/
theorem map_unordered_eq_iff : users.map unordered = users'.map unordered ↔ List.Forall₂ Alike users users' := by
  rw [map_eq_map_iff_forall₂]
  simp only [unordered_eq_iff]

end UserAction

/-! ## Names of letters and digits -/

/-- the keys and the statement in a message -/
def Message.names (m : Message) : List String := [m.sender, m.receiver, m.vote.voter, m.vote.statement]

theorem Message.worded_of_names {m : Message} (h : ∀ s ∈ m.names, IsAlphanumeric s) : m.Worded := by
  simp only [names, List.forall_mem_cons] at h
  obtain ⟨sender, receiver, voter, statement, _⟩ := h
  exact ⟨sender.isWord, receiver.isWord, voter.isWord, statement.isWord⟩

/-- the keys, the validators at every depth and the statements in an action -/
def UserAction.names : UserAction → List String
  | .addNode node q | .updateQuorumSet node q => node :: q.tree.validatorSet.toList
  | .removeNode node => [node]
  | .vote node s => [node, s]
  | .connect a b | .disconnect a b => [a, b]
  | .forge m => m.names

theorem UserAction.worded_of_names {a : UserAction} (h : ∀ s ∈ a.names, IsAlphanumeric s) : a.Worded := by
  cases a with
  | addNode node q | updateQuorumSet node q =>
    obtain ⟨key, trust⟩ := List.forall_mem_cons.1 h
    exact ⟨key.isWord, fun v hv => (trust v hv).isWord⟩
  | removeNode node => exact (List.forall_mem_singleton.1 h).isWord
  | vote a b | connect a b | disconnect a b =>
    obtain ⟨first, others⟩ := List.forall_mem_cons.1 h
    exact ⟨first.isWord, (List.forall_mem_singleton.1 others).isWord⟩
  | forge m => exact m.worded_of_names h

variable {users users' : List UserAction} {protocol protocol' : List ProtocolAction}

/-- **The text identifies the actions.** Batches in which all keys, validators and statements are made of letters and
digits have the same text exactly when their user actions are equal, in order, up to the order of validators and of
inner quorum sets at every level, and their protocol actions are equal, in order, disrupted or not. -/
theorem actionsText_identifies (hu : ∀ u ∈ users, ∀ s ∈ u.names, IsAlphanumeric s)
    (hu' : ∀ u ∈ users', ∀ s ∈ u.names, IsAlphanumeric s)
    (hp : ∀ a ∈ protocol, ∀ s ∈ a.message.names, IsAlphanumeric s)
    (hp' : ∀ a ∈ protocol', ∀ s ∈ a.message.names, IsAlphanumeric s) :
    actionsText users protocol = actionsText users' protocol' ↔
      users.map UserAction.unordered = users'.map UserAction.unordered ∧ protocol = protocol' := by
  rw [UserAction.map_unordered_eq_iff]
  exact actionsText_eq_iff (fun u h => u.worded_of_names (hu u h)) (fun u h => u.worded_of_names (hu' u h))
    (fun a h => a.message.worded_of_names (hp a h)) fun a h => a.message.worded_of_names (hp' a h)

/-- orders in which keys, validators and statements look like the words between them -/
def lookalikes : List UserAction :=
  [.addNode "node" ⟨⟨2, ["with"], [⟨1, ["to", "set"], []⟩, ⟨1, ["quorum"], []⟩]⟩, by decide⟩,
    .vote "votes" "on", .forge ⟨"To", "From", ⟨"accept", "vote", true⟩⟩]

/-- the same orders, with the members of each level the other way round -/
def lookalikesTurned : List UserAction :=
  [.addNode "node" ⟨⟨2, ["with"], [⟨1, ["quorum"], []⟩, ⟨1, ["set", "to"], []⟩]⟩, by decide⟩,
    .vote "votes" "on", .forge ⟨"To", "From", ⟨"accept", "vote", true⟩⟩]

/-- a message to be sent, with a key that looks like the mark of a disruption -/
def lookalikeMessage : ProtocolAction := .send ⟨"True", "SendMessage", ⟨"vote", "False", false⟩⟩

/-- turning the members round leaves the orders as they are; giving the orders the other way round or disrupting the
message does not -/
theorem lookalikes_identified :
    (∀ u ∈ lookalikes, ∀ s ∈ u.names, IsAlphanumeric s) ∧ (∀ u ∈ lookalikesTurned, ∀ s ∈ u.names, IsAlphanumeric s) ∧
    (∀ a ∈ [lookalikeMessage], ∀ s ∈ a.message.names, IsAlphanumeric s) ∧
    actionsText lookalikes [lookalikeMessage] =
      "Add node node with quorum set 2:[with](1:[quorum],1:[set,to])|votes votes on on|" ++
      "Forge message From: To, To: From, vote accept(accept)|" ++
      "[SendMessage] From: True, To: SendMessage, False vote(vote)" ++
      "SendMessageFrom: True, To: SendMessage, False vote(vote)TrueFalse" ∧
    lookalikes.map UserAction.unordered = lookalikesTurned.map UserAction.unordered ∧
    lookalikes.map UserAction.unordered ≠ lookalikes.reverse.map UserAction.unordered ∧
    actionsText lookalikes [lookalikeMessage] ≠ actionsText lookalikes [{ lookalikeMessage with disrupted := true }] := by
  have names : ∀ u ∈ lookalikes, ∀ s ∈ u.names, IsAlphanumeric s := by decide
  have turned : ∀ u ∈ lookalikesTurned, ∀ s ∈ u.names, IsAlphanumeric s := by decide
  have reversed : ∀ u ∈ lookalikes.reverse, ∀ s ∈ u.names, IsAlphanumeric s :=
    fun u h => names u (List.mem_reverse.1 h)
  have message : ∀ a ∈ [lookalikeMessage], ∀ s ∈ a.message.names, IsAlphanumeric s := by decide
  have disrupted : ∀ a ∈ [{ lookalikeMessage with disrupted := true }], ∀ s ∈ a.message.names, IsAlphanumeric s := by
    decide
  refine ⟨names, turned, message, by decide +kernel, ?_, fun same => ?_, fun same => ?_⟩
  · exact ((actionsText_identifies names turned message message).1 (by decide +kernel)).1
  · exact absurd ((actionsText_identifies names reversed message message).2 ⟨same, rfl⟩) (by decide +kernel)
  · exact absurd ((actionsText_identifies names names message disrupted).1 same).2 (by decide)

end FederatedAgreement
