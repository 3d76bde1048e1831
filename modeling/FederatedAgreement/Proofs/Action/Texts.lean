/-
The texts by which batches of actions are known. A user action is a row of parts with blanks between them, in which the
text of a quorum set is one part. A message is over at its first closing bracket. The text of a batch has a bar between
any two actions, but nothing between the actions and the fingerprints behind them; a protocol action begins with a
square bracket, which a user action does not. So where names are words, the text can be read from the left.

Results:
- `UserAction.text_eq_iff`: user actions with the same text are alike.
- `ProtocolAction.fingerprint_inj`: protocol actions with the same fingerprint are the same.
- `actionsText_eq_iff`: **texts tell batches apart**, if names are words.
-/
import FederatedAgreement.Proofs.QuorumSet.Alike
import FederatedAgreement.Simulation.Step

namespace FederatedAgreement

open Text (IsWord Stops stops_cons stops_nil trail)

/-! ## Rows of parts -/

/-- a part of a row: it is not empty, and there is neither a blank nor a bar in it -/
def IsPart (s : String) : Prop := s.toList ≠ [] ∧ ' ' ∉ s.toList ∧ '|' ∉ s.toList

instance (s : String) : Decidable (IsPart s) := inferInstanceAs (Decidable (_ ∧ _ ∧ _))

theorem isPart_of_isWord {s : String} (h : IsWord s) : IsPart s :=
  ⟨h.toList_ne_nil, h.not_mem (by decide), h.not_mem (by decide)⟩

theorem IsPart.append {s t : String} (hs : IsPart s) (ht : IsPart t) : IsPart (s ++ t) := by
  rw [IsPart, String.toList_append, List.mem_append, List.mem_append]
  exact ⟨List.append_ne_nil_of_left_ne_nil hs.1 _, not_or.2 ⟨hs.2.1, ht.2.1⟩, not_or.2 ⟨hs.2.2, ht.2.2⟩⟩

theorem isPart_canonical {q : TrustTree} (h : q.Worded) : IsPart q.canonical := by
  refine ⟨fun none => ?_, h.not_mem_canonical (Or.inl rfl), h.not_mem_canonical (Or.inr rfl)⟩
  rw [q.canonical_eq, String.toList_append, TrustTree.toList_levelText] at none
  exact List.cons_ne_nil _ _ (List.append_eq_nil_iff.1 none).2

/-- rows are told apart -/
theorem row_inj {l m : List String} (hl : ∀ s ∈ l, IsPart s) (hm : ∀ s ∈ m, IsPart s)
    (h : " ".intercalate l = " ".intercalate m) : l = m :=
  Text.join_inj rfl (fun s hs => ⟨(hl s hs).1, (hl s hs).2.1⟩) (fun s hs => ⟨(hm s hs).1, (hm s hs).2.1⟩) h

/-- there is no bar in a row -/
theorem bar_not_mem_row {l : List String} (hl : ∀ s ∈ l, IsPart s) : '|' ∉ (" ".intercalate l).toList :=
  Text.not_mem_join rfl (by decide) fun s hs => (hl s hs).2.2

/-! ## Messages -/

namespace Message

variable {m m' : Message}

/-- all names in the message are words -/
def Worded (m : Message) : Prop :=
  IsWord m.sender ∧ IsWord m.receiver ∧ IsWord m.vote.voter ∧ IsWord m.vote.statement

instance (m : Message) : Decidable m.Worded := inferInstanceAs (Decidable (_ ∧ _ ∧ _ ∧ _))

/-- the word for the kind of a vote, with the bracket behind it -/
def callText (m : Message) : String := if m.vote.isAccept then "accept(" else "vote("

/-- the parts of a message's text -/
def parts (m : Message) : List String :=
  ["From:", m.sender ++ ",", "To:", m.receiver ++ ",", m.vote.voter, m.callText ++ m.vote.statement ++ ")"]

theorem text_eq_row (m : Message) : m.text = " ".intercalate m.parts := by
  obtain ⟨sender, receiver, statement, voter, isAccept⟩ := m
  cases isAccept <;> simp [← String.toList_inj, text, Vote.text, parts, callText]

theorem Worded.parts (h : m.Worded) : ∀ s ∈ m.parts, IsPart s := by
  have comma : IsPart "," := by decide
  have call : IsPart m.callText := by
    unfold callText
    split <;> decide
  have bracket : IsPart ")" := by decide
  obtain ⟨sender, receiver, voter, statement⟩ := h
  simp only [Message.parts, List.forall_mem_cons]
  exact ⟨by decide, (isPart_of_isWord sender).append comma, by decide, (isPart_of_isWord receiver).append comma,
    isPart_of_isWord voter, (call.append (isPart_of_isWord statement)).append bracket, nofun⟩

theorem parts_inj (h : m.parts = m'.parts) : m = m' := by
  obtain ⟨sender, receiver, statement, voter, isAccept⟩ := m
  obtain ⟨sender', receiver', statement', voter', isAccept'⟩ := m'
  simp only [parts, List.cons.injEq, String.append_left_inj, true_and, and_true] at h
  obtain ⟨rfl, rfl, rfl, call⟩ := h
  have chars := congrArg String.toList call
  cases isAccept <;> cases isAccept' <;> simp [callText] at chars
  · rw [String.toList_inj.1 chars]
  · rw [String.toList_inj.1 chars]

theorem text_inj (h : m.Worded) (h' : m'.Worded) (same : m.text = m'.text) : m = m' := by
  rw [text_eq_row, text_eq_row] at same
  exact parts_inj (row_inj h.parts h'.parts same)

/-- the text of a message, without the closing bracket -/
def openText (m : Message) : String :=
  "From: " ++ m.sender ++ ", To: " ++ m.receiver ++ ", " ++ m.vote.voter ++ " " ++ m.callText ++ m.vote.statement

theorem text_eq_open (m : Message) : m.text = m.openText ++ ")" := by
  obtain ⟨sender, receiver, statement, voter, isAccept⟩ := m
  cases isAccept <;> simp [← String.toList_inj, text, Vote.text, openText, callText]

theorem Worded.openText (h : m.Worded) : ')' ∉ m.openText.toList := by
  have call : ')' ∉ m.callText.toList := by
    unfold callText
    split <;> decide
  have bracket : ')' ∈ Text.marks := by decide
  obtain ⟨sender, receiver, voter, statement⟩ := h
  simp [Message.openText, call, sender.not_mem bracket, receiver.not_mem bracket, voter.not_mem bracket,
    statement.not_mem bracket]

theorem Worded.bar_not_mem (h : m.Worded) : '|' ∉ m.text.toList := by
  rw [text_eq_row]
  exact bar_not_mem_row h.parts

end Message

/-! ## User actions -/

namespace UserAction

variable {a b : UserAction}

/-- the same order, up to the order of members in quorum sets -/
inductive Alike : UserAction → UserAction → Prop
  | addNode {node : NodeId} {q r : QuorumSet} (trust : q.tree.Alike r.tree) : Alike (.addNode node q) (.addNode node r)
  | updateQuorumSet {node : NodeId} {q r : QuorumSet} (trust : q.tree.Alike r.tree) :
      Alike (.updateQuorumSet node q) (.updateQuorumSet node r)
  | same (a : UserAction) : Alike a a

theorem Alike.text_eq (h : Alike a b) : a.text = b.text := by
  cases h with
  | @addNode node q r trust =>
    exact congrArg (fun s => "Add node " ++ node ++ " with quorum set " ++ s) trust.canonical_eq
  | @updateQuorumSet node q r trust =>
    exact congrArg (fun s => "Update quorum set of " ++ node ++ " to " ++ s) trust.canonical_eq
  | same => rfl

/-- all names in the action are words -/
def Worded : UserAction → Prop
  | .addNode node q => IsWord node ∧ q.tree.Worded
  | .removeNode node => IsWord node
  | .updateQuorumSet node q => IsWord node ∧ q.tree.Worded
  | .vote node s => IsWord node ∧ IsWord s
  | .connect a b => IsWord a ∧ IsWord b
  | .disconnect a b => IsWord a ∧ IsWord b
  | .forge m => m.Worded

instance : (a : UserAction) → Decidable a.Worded
  | .addNode node q | .updateQuorumSet node q => inferInstanceAs (Decidable (IsWord node ∧ q.tree.Worded))
  | .removeNode node => inferInstanceAs (Decidable (IsWord node))
  | .vote a b | .connect a b | .disconnect a b => inferInstanceAs (Decidable (IsWord a ∧ IsWord b))
  | .forge m => inferInstanceAs (Decidable m.Worded)

/-- the parts of an action's text -/
def parts : UserAction → List String
  | .addNode node q => ["Add", "node", node, "with", "quorum", "set", q.canonical]
  | .removeNode node => ["Remove", "node", node]
  | .updateQuorumSet node q => ["Update", "quorum", "set", "of", node, "to", q.canonical]
  | .vote node s => [node, "votes", "on", s]
  | .connect a b => ["Connect", a, "and", b]
  | .disconnect a b => ["Disconnect", a, "and", b]
  | .forge m => "Forge" :: "message" :: m.parts

theorem text_eq_row (a : UserAction) : a.text = " ".intercalate a.parts := by
  unfold text
  cases a with
  | forge m => simp [← String.toList_inj, m.text_eq_row, parts, Message.parts]
  | _ => simp [← String.toList_inj, parts]

theorem Worded.parts (h : a.Worded) : ∀ s ∈ a.parts, IsPart s := by
  cases a with
  | addNode node q | updateQuorumSet node q =>
    simp only [UserAction.parts, List.forall_mem_cons]
    have trust : IsPart q.canonical := isPart_canonical h.2
    simp [isPart_of_isWord h.1, trust]
    decide
  | removeNode node =>
    simp [UserAction.parts, isPart_of_isWord h]
    decide
  | vote a b | connect a b | disconnect a b =>
    simp [UserAction.parts, isPart_of_isWord h.1, isPart_of_isWord h.2]
    decide
  | forge m =>
    simp only [UserAction.parts, List.forall_mem_cons]
    exact ⟨by decide, by decide, Message.Worded.parts h⟩

/-- actions with the same parts are alike -/
theorem alike_of_parts (ha : a.Worded) (hb : b.Worded) (same : a.parts = b.parts) : Alike a b := by
  cases a with
  | addNode node q =>
    cases b <;> simp [parts, Message.parts] at same
    obtain ⟨rfl, trust⟩ := same
    exact .addNode ((TrustTree.canonical_eq_iff ha.2 hb.2).1 trust)
  | updateQuorumSet node q =>
    cases b <;> simp [parts, Message.parts] at same
    obtain ⟨rfl, trust⟩ := same
    exact .updateQuorumSet ((TrustTree.canonical_eq_iff ha.2 hb.2).1 trust)
  | removeNode node =>
    cases b <;> simp [parts, Message.parts] at same
    rw [same]
    exact .same _
  | vote | connect | disconnect =>
    cases b <;> simp [parts, Message.parts] at same
    rw [same.1, same.2]
    exact .same _
  | forge m =>
    cases b with
    | forge m' =>
      cases Message.parts_inj (List.cons.inj (List.cons.inj same).2).2
      exact .same _
    | _ => simp [parts, Message.parts] at same

/-- **User actions.** Actions in which names are words have the same text exactly when they are alike. -/
theorem text_eq_iff (ha : a.Worded) (hb : b.Worded) : a.text = b.text ↔ Alike a b := by
  refine ⟨fun same => ?_, Alike.text_eq⟩
  rw [text_eq_row, text_eq_row] at same
  exact alike_of_parts ha hb (row_inj ha.parts hb.parts same)

theorem Worded.bar_not_mem (h : a.Worded) : '|' ∉ a.text.toList := by
  rw [text_eq_row]
  exact bar_not_mem_row h.parts

/-- a user action does not begin as a protocol action does -/
theorem Worded.head (h : a.Worded) : ∃ c cs, a.text.toList = c :: cs ∧ c ≠ '[' := by
  have first : ∃ s l, a.parts = s :: l ∧ s.toList ≠ [] ∧ '[' ∉ s.toList := by
    cases a with
    | vote node s => exact ⟨node, _, rfl, h.1.toList_ne_nil, h.1.not_mem (by decide)⟩
    | _ => exact ⟨_, _, rfl, by decide, by decide⟩
  obtain ⟨s, l, parts, some_text, no_bracket⟩ := first
  have blank : " ".toList = [' '] := rfl
  obtain ⟨c, cs, begun⟩ := List.exists_cons_of_ne_nil some_text
  rw [begun] at no_bracket
  refine ⟨c, cs ++ trail ' ' String.toList l, ?_, fun bracket => no_bracket (bracket ▸ List.mem_cons_self)⟩
  rw [text_eq_row, parts, Text.toList_join blank, begun, List.cons_append]

end UserAction

/-! ## Protocol actions -/

namespace ProtocolAction

variable {a b : ProtocolAction}

/-- the text of an action, without the closing bracket -/
def openText (a : ProtocolAction) : String := "[" ++ a.kind.name ++ "] " ++ a.message.openText

/-- the fingerprint of an action up to the end of its message -/
def openPrint (a : ProtocolAction) : String := a.kind.name ++ a.message.openText

/-- the rest of the fingerprint -/
def ending (a : ProtocolAction) : String := a.author ++ if a.disrupted then "True" else "False"

theorem toList_text (a : ProtocolAction) : a.text.toList = a.openText.toList ++ [')'] := by
  simp [text, openText, a.message.text_eq_open]

theorem toList_fingerprint (a : ProtocolAction) :
    a.fingerprint.toList = a.openPrint.toList ++ ')' :: a.ending.toList := by
  simp [fingerprint, openPrint, ending, a.message.text_eq_open]

/-- names of kinds have no marks in them and are told apart by what comes first -/
theorem kind_name (a : ProtocolAction) :
    a.delivery = .send ∧ a.kind.name = "SendMessage" ∨ a.delivery = .receive ∧ a.kind.name = "ReceiveMessage" := by
  unfold kind
  cases a.delivery with
  | send => exact Or.inl ⟨rfl, rfl⟩
  | receive => exact Or.inr ⟨rfl, rfl⟩

theorem bracket_not_mem (h : a.message.Worded) : ')' ∉ a.openText.toList ∧ ')' ∉ a.openPrint.toList := by
  have message := h.openText
  rcases a.kind_name with ⟨_, name⟩ | ⟨_, name⟩ <;> simp [openText, openPrint, name, message]

theorem author_worded (h : a.message.Worded) : IsWord a.author := by
  unfold author
  split
  · exact h.1
  · exact h.2.1

theorem bar_not_mem (h : a.message.Worded) : '|' ∉ a.text.toList ∧ '|' ∉ a.fingerprint.toList := by
  have message := h.bar_not_mem
  have author : '|' ∉ a.author.toList := (author_worded h).not_mem (by decide)
  rcases a.kind_name with ⟨_, name⟩ | ⟨_, name⟩ <;> cases flag : a.disrupted <;>
    simp [text, fingerprint, name, message, author, flag]

/-- where texts of protocol actions go on alike, they are the same -/
theorem read_text (ha : a.message.Worded) (hb : b.message.Worded) {rest rest' : List Char}
    (h : a.text.toList ++ rest = b.text.toList ++ rest') : a.text = b.text ∧ rest = rest' := by
  rw [toList_text, toList_text, List.append_assoc, List.append_assoc] at h
  obtain ⟨opened, rests⟩ := Text.append_cons_inj (bracket_not_mem ha).1 (bracket_not_mem hb).1 h
  refine ⟨String.toList_inj.1 ?_, rests⟩
  rw [toList_text, toList_text, opened]

/-- **Protocol actions.** The fingerprint of an action in which names are words tells it from all others. -/
theorem fingerprint_inj (ha : a.message.Worded) (hb : b.message.Worded) (same : a.fingerprint = b.fingerprint) :
    a = b := by
  have chars := congrArg String.toList same
  rw [toList_fingerprint, toList_fingerprint] at chars
  obtain ⟨opened, ended⟩ := Text.append_cons_inj (bracket_not_mem ha).2 (bracket_not_mem hb).2 chars
  have kinds : a.delivery = b.delivery ∧ a.message.openText = b.message.openText := by
    rcases a.kind_name with ⟨d, name⟩ | ⟨d, name⟩ <;> rcases b.kind_name with ⟨d', name'⟩ | ⟨d', name'⟩ <;>
      simp [openPrint, name, name', d, d'] at opened ⊢
    · exact String.toList_inj.1 opened
    · exact String.toList_inj.1 opened
  have message : a.message = b.message := by
    refine Message.text_inj ha hb ?_
    rw [Message.text_eq_open, Message.text_eq_open, kinds.2]
  obtain ⟨delivery, m, disrupted⟩ := a
  obtain ⟨delivery', m', disrupted'⟩ := b
  obtain ⟨rfl, _⟩ := kinds
  cases message
  have flags : disrupted = disrupted' := by
    cases disrupted <;> cases disrupted' <;> simp [ending, author] at ended ⊢
  rw [flags]

theorem fingerprint_ne_nil (a : ProtocolAction) : a.fingerprint.toList ≠ [] := by
  rw [toList_fingerprint]
  exact List.append_ne_nil_of_right_ne_nil _ (List.cons_ne_nil _ _)

end ProtocolAction

/-! ## Batches -/

section
variable {users users' : List UserAction} {protocol protocol' : List ProtocolAction}

/-- the texts of user actions, with a bar before each -/
def userTrail (users : List UserAction) : List Char := trail '|' (fun u => u.text.toList) users

/-- the texts of protocol actions with a bar before each, and behind them the fingerprints with bars between them -/
def protocolTrail (protocol : List ProtocolAction) : List Char :=
  trail '|' (fun a => a.text.toList) protocol ++ ("|".intercalate (protocol.map ProtocolAction.fingerprint)).toList

/-- the text of a batch that is not empty, with a bar before it -/
theorem cons_toList_actionsText (some_action : ¬ (users = [] ∧ protocol = [])) :
    '|' :: (actionsText users protocol).toList = userTrail users ++ protocolTrail protocol := by
  have some_text : users.map UserAction.text ++ protocol.map ProtocolAction.text ≠ [] := by
    rwa [Ne, List.append_eq_nil_iff, List.map_eq_nil_iff, List.map_eq_nil_iff]
  have bar : "|".toList = ['|'] := rfl
  rw [actionsText, String.toList_append, ← List.cons_append, Text.cons_toList_join bar some_text, Text.trail_append,
    Text.trail_map, Text.trail_map, List.append_assoc]
  rfl

/-- without protocol actions there is nothing behind the user actions; otherwise there is a bar and a square bracket -/
theorem protocolTrail_cases (protocol : List ProtocolAction) :
    (protocol = [] ∧ protocolTrail protocol = []) ∨ ∃ rest, protocolTrail protocol = '|' :: '[' :: rest := by
  cases protocol with
  | nil => exact Or.inl ⟨rfl, rfl⟩
  | cons a protocol =>
    have begun : a.text.toList = '[' :: (a.kind.name ++ "] " ++ a.message.text).toList := by
      simp [ProtocolAction.text]
    rw [protocolTrail, Text.trail_cons, begun]
    exact Or.inr ⟨_, rfl⟩

/-- only the empty batch has the empty text -/
theorem eq_nil_of_actionsText (worded : ∀ u ∈ users, u.Worded) (none : actionsText users protocol = "") :
    users = [] ∧ protocol = [] := by
  by_contra some_action
  have barred := cons_toList_actionsText some_action
  rw [none] at barred
  cases users with
  | nil =>
    rcases protocolTrail_cases protocol with ⟨_, empty⟩ | ⟨rest, begun⟩
    · rw [empty] at barred
      cases barred
    · rw [begun] at barred
      cases barred
  | cons u users =>
    obtain ⟨c, cs, begun, _⟩ := (worded u List.mem_cons_self).head
    rw [userTrail, Text.trail_cons, begun] at barred
    cases barred

/-- where the texts of user actions go on alike with protocol actions, they are of alike actions -/
theorem read_users (hu : ∀ u ∈ users, u.Worded) (hu' : ∀ u ∈ users', u.Worded)
    (h : userTrail users ++ protocolTrail protocol = userTrail users' ++ protocolTrail protocol') :
    List.Forall₂ UserAction.Alike users users' ∧ protocolTrail protocol = protocolTrail protocol' := by
  have stops : ∀ protocol, Stops (· = '|') (protocolTrail protocol) := by
    intro protocol
    rcases protocolTrail_cases protocol with ⟨_, empty⟩ | ⟨rest, begun⟩
    · rw [empty]
      exact stops_nil _
    · rw [begun, stops_cons]
  have ended : ∀ protocol, ∀ u : UserAction, u.Worded → ∀ r, protocolTrail protocol ≠ '|' :: (u.text.toList ++ r) := by
    intro protocol u hu r same
    obtain ⟨c, cs, first, other⟩ := hu.head
    rcases protocolTrail_cases protocol with ⟨_, empty⟩ | ⟨rest, begun⟩
    · rw [empty] at same
      cases same
    · rw [begun, first] at same
      exact other (List.cons.inj (List.cons.inj same).2).1.symm
  have unbarred : ∀ u : UserAction, u.Worded → ∀ c ∈ u.text.toList, ¬ c = '|' := by
    rintro u hu _ inside rfl
    exact hu.bar_not_mem inside
  refine Text.read_list (p := (· = '|')) rfl (stops protocol) (stops protocol')
    (fun a ha b hb r r' stop stop' same => ?_) (fun b hb => ended protocol b (hu' b hb))
    (fun a ha => ended protocol' a (hu a ha)) h
  obtain ⟨texts, rests⟩ := Text.append_inj_of_stops (unbarred a (hu a ha)) (unbarred b (hu' b hb)) stop stop' same
  exact ⟨(UserAction.text_eq_iff (hu a ha) (hu' b hb)).1 (String.toList_inj.1 texts), rests⟩

/-- where the texts of protocol actions and their fingerprints are the same, so are the actions -/
theorem read_protocol (hp : ∀ a ∈ protocol, a.message.Worded) (hp' : ∀ a ∈ protocol', a.message.Worded)
    (h : protocolTrail protocol = protocolTrail protocol') : protocol = protocol' := by
  have ended : ∀ (protocol : List ProtocolAction) (rest : List Char),
      ("|".intercalate (protocol.map ProtocolAction.fingerprint)).toList ≠ '|' :: rest := by
    intro protocol rest same
    cases protocol with
    | nil => cases same
    | cons a protocol =>
      have bar : "|".toList = ['|'] := rfl
      rw [List.map_cons, Text.toList_join bar, a.toList_fingerprint, ProtocolAction.openPrint] at same
      rcases a.kind_name with ⟨_, name⟩ | ⟨_, name⟩ <;> simp [name] at same
  obtain ⟨_, prints⟩ := Text.read_list (R := fun _ _ => True) (p := fun _ => True) trivial (fun _ _ => trivial)
    (fun _ _ => trivial) (fun a ha b hb r r' _ _ same =>
      ⟨trivial, (ProtocolAction.read_text (hp a ha) (hp' b hb) same).2⟩)
    (fun _ _ _ => ended protocol _) (fun _ _ _ => ended protocol' _) h
  have each : ∀ l : List ProtocolAction, (∀ a ∈ l, a.message.Worded) →
      ∀ s ∈ l.map ProtocolAction.fingerprint, s.toList ≠ [] ∧ '|' ∉ s.toList := by
    intro l worded s hs
    obtain ⟨a, ha, rfl⟩ := List.mem_map.1 hs
    exact ⟨a.fingerprint_ne_nil, (ProtocolAction.bar_not_mem (worded a ha)).2⟩
  have lists := Text.join_inj rfl (each protocol hp) (each protocol' hp') (String.toList_inj.1 prints)
  have pairs := forall₂_of_map_eq (R := fun a b => a = b) (fun a ha b hb same =>
    ProtocolAction.fingerprint_inj (hp a ha) (hp' b hb) same) lists
  exact List.forall₂_eq_eq_eq ▸ pairs

/-- **Batches.** Batches in which names are words have the same text exactly when their user actions are alike, in
order, and their protocol actions are the same, disrupted or not. -/
theorem actionsText_eq_iff (hu : ∀ u ∈ users, u.Worded) (hu' : ∀ u ∈ users', u.Worded)
    (hp : ∀ a ∈ protocol, a.message.Worded) (hp' : ∀ a ∈ protocol', a.message.Worded) :
    actionsText users protocol = actionsText users' protocol' ↔
      List.Forall₂ UserAction.Alike users users' ∧ protocol = protocol' := by
  constructor
  · intro same
    by_cases empty : users = [] ∧ protocol = []
    · obtain ⟨rfl, rfl⟩ := empty
      obtain ⟨rfl, rfl⟩ := eq_nil_of_actionsText hu' same.symm
      exact ⟨.nil, rfl⟩
    · have some_action : ¬ (users' = [] ∧ protocol' = []) := by
        rintro ⟨rfl, rfl⟩
        exact empty (eq_nil_of_actionsText hu same)
      have barred : userTrail users ++ protocolTrail protocol = userTrail users' ++ protocolTrail protocol' := by
        rw [← cons_toList_actionsText empty, ← cons_toList_actionsText some_action, same]
      obtain ⟨alike, rests⟩ := read_users hu hu' barred
      exact ⟨alike, read_protocol hp hp' rests⟩
  · rintro ⟨alike, rfl⟩
    have texts : users.map UserAction.text = users'.map UserAction.text :=
      map_eq_map_iff_forall₂.2 (alike.imp fun _ _ h => h.text_eq)
    rw [actionsText, actionsText, texts]

end

end FederatedAgreement
