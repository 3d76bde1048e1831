/-
Writing and reading scenarios. Every part of a scenario is written with all its fields, so each part reads back as it
was, and so does the whole. Only a scenario without steps, which no reading gives, comes back with a blank step.

Results:
- `Document.optionalList_map`: a list reads back if its items do.
- `Step.ofDocument_toDocument`: steps survive writing and reading.
- `Scenario.ofDocument_steps_ne_nil`: whatever was read has a first step.
- `Scenario.codec_lossless`: **scenarios survive writing and reading**, and one reading normalizes a document.
-/
import FederatedAgreement.Scenario.Codec

namespace FederatedAgreement

/-! ## Lists -/

/-- a field that holds the written items of a list reads back as that list -/
theorem Document.optionalList_map {α : Type} {d : Document} {name : String} {write : α → Document}
    {read : Document → Except Fault α} {l : List α}
    (field : d.optional name (.list []) = .ok (.list (l.map write))) (back : ∀ a, read (write a) = .ok a) :
    d.optionalList name read = .ok l := by
  have items : Fault.ofReadFault (do (← d.optional name (.list [])).items) = .ok (l.map write) := by
    rw [field]
    rfl
  rw [optionalList, items]
  exact mapM_map_eq_pure back l

/-! ## Steps -/

theorem Step.ofDocument_toDocument (s : Step UserAction) : ofDocument s.toDocument = .ok s := by
  have users : s.toDocument.optionalList "user_actions" UserAction.ofDocument = .ok s.userActions :=
    Document.optionalList_map rfl UserAction.ofDocument_toDocument
  have protocol : (s.toDocument.optionalList "protocol_actions" fun a =>
      Fault.ofReadFault (ProtocolAction.ofDocument a)) = .ok s.protocolActions :=
    Document.optionalList_map rfl fun a => by rw [ProtocolAction.ofDocument_toDocument, Fault.ofReadFault_ok]
  have events : (s.toDocument.optionalList "previous_events" fun e => Fault.ofReadFault (Event.ofDocument e)) =
      .ok s.precedingEvents :=
    Document.optionalList_map rfl fun e => by rw [Event.ofDocument_toDocument, Fault.ofReadFault_ok]
  rw [ofDocument, users, protocol, events]
  rfl

namespace Scenario

/-! ## Scenarios -/

theorem linkOf_linkDocument (l : NodeId × NodeId) : linkOf (linkDocument l) = .ok l := rfl

theorem ofDocument_toDocument {s : Scenario} (begun : s.steps ≠ []) : ofDocument s.toDocument = .ok s := by
  have steps : s.toDocument.optionalList "steps" Step.ofDocument = .ok s.steps :=
    Document.optionalList_map rfl Step.ofDocument_toDocument
  have nodes : s.toDocument.optionalList "initial_nodes" Node.ofDocument = .ok s.nodes :=
    Document.optionalList_map rfl Node.ofDocument_toDocument
  have links : (s.toDocument.optionalList "initial_connections" fun l => Fault.ofReadFault (linkOf l)) = .ok s.links :=
    Document.optionalList_map rfl fun l => by rw [linkOf_linkDocument, Fault.ofReadFault_ok]
  have some_steps : s.steps.isEmpty = false := List.isEmpty_eq_false_iff.2 begun
  rw [ofDocument, steps, nodes, links]
  show Except.ok { s with steps := if s.steps.isEmpty then [.blank] else s.steps } = .ok s
  rw [some_steps]
  rfl

/-- whatever was read has a first step -/
theorem ofDocument_steps_ne_nil {d : Document} {s : Scenario} (read : ofDocument d = .ok s) : s.steps ≠ [] := by
  obtain ⟨version, _, read⟩ := bind_eq_ok_iff.1 read
  split at read
  · cases read
  · obtain ⟨steps, _, read⟩ := bind_eq_ok_iff.1 read
    obtain ⟨id, _, read⟩ := bind_eq_ok_iff.1 read
    obtain ⟨name, _, read⟩ := bind_eq_ok_iff.1 read
    obtain ⟨description, _, read⟩ := bind_eq_ok_iff.1 read
    obtain ⟨fullMesh, _, read⟩ := bind_eq_ok_iff.1 read
    obtain ⟨gossip, _, read⟩ := bind_eq_ok_iff.1 read
    obtain ⟨nodes, _, read⟩ := bind_eq_ok_iff.1 read
    obtain ⟨links, _, read⟩ := bind_eq_ok_iff.1 read
    cases read
    show (if steps.isEmpty then [.blank] else steps) ≠ []
    split
    · exact List.cons_ne_nil _ _
    · next begun => exact fun none => begun (List.isEmpty_iff.2 none)

/-! ## Main result -/

/-- **Lossless.** A scenario with a first step is written and read back as it was, with every field. So any document
that can be read is brought into its normal form by one reading: writing what was read and reading it again gives the
same scenario, and with it the same hashes of steps. -/
theorem codec_lossless :
    (∀ s : Scenario, s.steps ≠ [] → ofDocument s.toDocument = .ok s) ∧
    ∀ (d : Document) (s : Scenario), ofDocument d = .ok s →
      ofDocument s.toDocument = .ok s ∧ (ofDocument s.toDocument).map hashes = .ok s.hashes := by
  refine ⟨fun s begun => ofDocument_toDocument begun, ?_⟩
  intro d s read
  have again : ofDocument s.toDocument = .ok s := ofDocument_toDocument (ofDocument_steps_ne_nil read)
  refine ⟨again, ?_⟩
  rw [again]
  rfl

/-- a node that trusts itself and, as one further member, either of two others -/
def nestedTrust : QuorumSet := ⟨⟨2, ["A"], [⟨1, ["B", "C"], []⟩]⟩, by decide +kernel⟩

/-- a recording of one step, with an identifier that is no text and a message that is lost -/
def keepsake : Scenario where
  id := .int 7
  name := .null
  description := .text ""
  fullMesh := false
  gossip := true
  nodes := [⟨"A", nestedTrust⟩, ⟨"B", .flat 2 ["B", "C"] (by decide)⟩, ⟨"C", .flat 2 ["A", "C"] (by decide)⟩]
  links := [("A", "B")]
  steps := [⟨[.updateQuorumSet "B" nestedTrust, .forge ⟨"C", "A", ⟨"x", "B", true⟩⟩],
    [⟨.send, ⟨"A", "B", ⟨"x", "A", false⟩⟩, true⟩], [.make .voted "A" [("statement", "x")]], "7f"⟩]

/-- the recording reads back, and a document without steps reads as a scenario with a blank one, which reads back -/
theorem keepsake_kept :
    keepsake.steps ≠ [] ∧ ofDocument keepsake.toDocument = .ok keepsake ∧
    ∃ s : Scenario, ofDocument (.record [("id", .int 7), ("name", .null)]) = .ok s ∧ s.steps = [.blank] ∧
      ofDocument s.toDocument = .ok s ∧ (ofDocument s.toDocument).map hashes = .ok s.hashes := by
  have begun : keepsake.steps ≠ [] := List.cons_ne_nil _ _
  have read : ofDocument (.record [("id", .int 7), ("name", .null)]) =
      .ok ⟨.int 7, .null, .text "", true, false, [], [], [.blank]⟩ := by rfl
  obtain ⟨again, hashes⟩ := codec_lossless.2 _ _ read
  exact ⟨begun, codec_lossless.1 keepsake begun, _, read, rfl, again, hashes⟩

end Scenario

end FederatedAgreement
