/-
Changes of a network: the elementary steps that every action is made of. A node makes a move, a link is made or dropped,
a node comes, leaves or trusts others. Which of them can happen depends on what operators order (`allowed`) and on which
messages are under way (`given`).

Results:
- `applyUser_proceeds`, `applyProtocol_proceeds`: each action is made of changes, and the messages that it leaves are given
  ones or votes that their sender then holds.
- `Change.origin`, `Change.forward`: what one change does to each node.
- `Changes.forward`: no changes make a node take anything back.
-/
import FederatedAgreement.Network
import FederatedAgreement.Proofs.Voting.Coherence

namespace FederatedAgreement.Network

/-! ## Elementary changes -/

/-- some given message carries the vote -/
def Carried (given : Message → Prop) (v : Vote) : Prop := ∃ m, given m ∧ m.vote = v

/-- a node may be asked to vote for the statement -/
def Asked (allowed : UserAction → Prop) (key : NodeId) (s : Statement) : Prop := allowed (.vote key s)

/-- a move of the node `key` -/
abbrev NodeMove (allowed : UserAction → Prop) (given : Message → Prop) (key : NodeId) :
    VotingState → VotingState → Prop := VotingState.Move (Carried given) (Asked allowed key) key

/-- one elementary change of a network -/
inductive Change (allowed : UserAction → Prop) (given : Message → Prop) (n : Network) : Network → Prop
  | act {key : NodeId} {st st' : VotingState} (here : n.roster.get? key = some st)
      (m : NodeMove allowed given key st st') : Change allowed given n { n with roster := n.roster.put key st' }
  | link {a b : NodeId} {overlay : Overlay} (h : allowed (.connect a b)) (here : a ∈ n.roster ∧ b ∈ n.roster)
      (made : n.overlay.connect? a b = some overlay) : Change allowed given n { n with overlay }
  | unlink {a b : NodeId} {overlay : Overlay} (h : allowed (.disconnect a b)) (here : a ∈ n.roster ∧ b ∈ n.roster)
      (made : n.overlay.disconnect? a b = some overlay) : Change allowed given n { n with overlay }
  | join {key : NodeId} {q : QuorumSet} (h : allowed (.addNode key q)) (new : key ∉ n.roster) :
      Change allowed given n { n with roster := n.roster.put key (.fresh q) }
  | leave {key : NodeId} (h : allowed (.removeNode key)) (here : key ∈ n.roster) :
      Change allowed given n { roster := n.roster.erase key, overlay := n.overlay.dropNode key }
  | retrust {key : NodeId} {st : VotingState} {q : QuorumSet} (h : allowed (.updateQuorumSet key q))
      (here : n.roster.get? key = some st) :
      Change allowed given n { n with roster := n.roster.put key { st with quorumSet := q } }

variable {allowed : UserAction → Prop} {given : Message → Prop} {n n' : Network}

abbrev Changes (allowed : UserAction → Prop) (given : Message → Prop) : Network → Network → Prop :=
  Relation.ReflTransGen (Change allowed given)

/-- moves of a node are changes of the network -/
theorem changes_of_moves {key : NodeId} {st st' : VotingState} (here : n.roster.get? key = some st)
    (ms : VotingState.Moves (Carried given) (Asked allowed key) key st st') :
    Changes allowed given n { n with roster := n.roster.put key st' } := by
  induction ms with
  | refl => rw [Roster.put_of_get? here]
  | @tail mid last _ m ih =>
    have there : (n.roster.put key mid).get? key = some mid := by simp [Roster.get?_put]
    have next := Change.act (n := { n with roster := n.roster.put key mid }) there m
    rw [Roster.put_put] at next
    exact ih.tail next

/-! ## What a change does to a node -/

/-- what one change can do to the state of the node `key` -/
inductive Turn (allowed : UserAction → Prop) (given : Message → Prop) (key : NodeId) (st : VotingState) :
    VotingState → Prop
  | same : Turn allowed given key st st
  | move {st' : VotingState} (m : NodeMove allowed given key st st') : Turn allowed given key st st'
  | retrust {q : QuorumSet} (h : allowed (.updateQuorumSet key q)) : Turn allowed given key st { st with quorumSet := q }

theorem Turn.coherent {key : NodeId} {st st' : VotingState} (t : Turn allowed given key st st')
    (h : st.Coherent key) : st'.Coherent key := by
  cases t with
  | same => exact h
  | move m => exact m.coherent h
  | retrust _ => exact h.retrust _

theorem Turn.advances {key : NodeId} {st st' : VotingState} (t : Turn allowed given key st st')
    (h : st.Coherent key) : st.Advances st' := by
  cases t with
  | same => exact .refl st
  | move m => exact m.advances h
  | retrust _ => exact .retrust st _

theorem Turn.held {key : NodeId} {st st' : VotingState} (t : Turn allowed given key st st') {v : Vote}
    (h : st'.Holds v) : st.Holds v ∨ Carried given v ∨ st.Casts (Asked allowed key) key st' v := by
  cases t with
  | same => exact Or.inl h
  | move m => exact m.held h
  | retrust _ => exact Or.inl h

/-- where the state of a node after a change comes from -/
theorem Change.origin (c : Change allowed given n n') {key : NodeId} {st' : VotingState}
    (h : n'.roster.get? key = some st') :
    (∃ st, n.roster.get? key = some st ∧ Turn allowed given key st st') ∨
      ∃ q, allowed (.addNode key q) ∧ key ∉ n.roster ∧ st' = .fresh q := by
  cases c with
  | @act other st st'' here m =>
    rw [Roster.get?_put] at h
    split at h
    · next e =>
      cases h
      exact Or.inl ⟨st, e ▸ here, .move (e ▸ m)⟩
    · exact Or.inl ⟨st', h, .same⟩
  | link _ _ _ => exact Or.inl ⟨st', h, .same⟩
  | unlink _ _ _ => exact Or.inl ⟨st', h, .same⟩
  | @join other q ordered new =>
    rw [Roster.get?_put] at h
    split at h
    · next e =>
      cases h
      exact Or.inr ⟨q, e ▸ ordered, e ▸ new, rfl⟩
    · exact Or.inl ⟨st', h, .same⟩
  | leave _ _ =>
    rw [Roster.get?_erase] at h
    split at h
    · exact absurd h nofun
    · exact Or.inl ⟨st', h, .same⟩
  | @retrust other st q ordered here =>
    rw [Roster.get?_put] at h
    split at h
    · next e =>
      cases h
      exact Or.inl ⟨st, e ▸ here, .retrust (e ▸ ordered)⟩
    · exact Or.inl ⟨st', h, .same⟩

/-- a node that may not be removed is there after a change -/
theorem Change.forward (c : Change allowed given n n') {key : NodeId} {st : VotingState}
    (stays : ¬ allowed (.removeNode key)) (h : n.roster.get? key = some st) :
    ∃ st', n'.roster.get? key = some st' ∧ Turn allowed given key st st' := by
  cases c with
  | @act other old st' here m =>
    by_cases e : key = other
    · subst e
      cases here.symm.trans h
      exact ⟨st', by simp [Roster.get?_put], .move m⟩
    · exact ⟨st, by simp [Roster.get?_put, e, h], .same⟩
  | link _ _ _ => exact ⟨st, h, .same⟩
  | unlink _ _ _ => exact ⟨st, h, .same⟩
  | @join other q _ new =>
    have e : key ≠ other := by
      rintro rfl
      rw [Roster.get?_eq_none_iff.2 new] at h
      exact absurd h nofun
    exact ⟨st, by simp [Roster.get?_put, e, h], .same⟩
  | @leave other ordered _ =>
    have e : key ≠ other := by
      rintro rfl
      exact stays ordered
    exact ⟨st, by simp [Roster.get?_erase, e, h], .same⟩
  | @retrust other old q ordered here =>
    by_cases e : key = other
    · subst e
      cases here.symm.trans h
      exact ⟨_, by simp [Roster.get?_put], .retrust ordered⟩
    · exact ⟨st, by simp [Roster.get?_put, e, h], .same⟩

/-- **Nothing is taken back.** A node that may not be removed is there after any changes, coherent as before, and has
only gone on. -/
theorem Changes.forward (cs : Changes allowed given n n') {key : NodeId} {st : VotingState}
    (stays : ¬ allowed (.removeNode key)) (here : n.roster.get? key = some st) (h : st.Coherent key) :
    ∃ st', n'.roster.get? key = some st' ∧ st'.Coherent key ∧ st.Advances st' := by
  induction cs with
  | refl => exact ⟨st, here, h, .refl st⟩
  | tail _ c ih =>
    obtain ⟨mid, there, coherent, advanced⟩ := ih
    obtain ⟨st', there', turn⟩ := c.forward stays there
    exact ⟨st', there', turn.coherent coherent, advanced.trans (turn.advances coherent)⟩

/-! ## Actions -/

/-- an outcome that is reached by changes, and by which only given messages and held votes are sent -/
structure Proceeds (allowed : UserAction → Prop) (given : Message → Prop) (n : Network) (o : Outcome Network) :
    Prop where
  changes : Changes allowed given n o.state
  issues : ∀ a ∈ o.actions, given a.message ∨ ∃ key st, o.state.roster.get? key = some st ∧ st.Sends key a

theorem Proceeds.noting {e : Event} (cs : Changes allowed given n n') :
    Proceeds allowed given n (.noting n' e) :=
  ⟨cs, by simp [Outcome.noting]⟩

theorem atNode_proceeds {key : NodeId} {act : VotingState → Outcome VotingState}
    (h : ∀ st, VotingState.Acts (Carried given) (Asked allowed key) key st (act st)) :
    Proceeds allowed given n (n.atNode key act) := by
  unfold atNode
  split
  · next st here =>
    refine ⟨changes_of_moves here (h st).moves, fun a ha => Or.inr ⟨key, (act st).state, ?_, (h st).sends a ha⟩⟩
    simp [Outcome.map, Roster.get?_put]
  · exact .noting .refl

theorem addNode_proceeds {key : NodeId} {q : QuorumSet} (h : allowed (.addNode key q)) :
    Proceeds allowed given n (n.addNode key q) := by
  unfold addNode
  split
  · exact .noting .refl
  · next new => exact .noting (.single (.join h new))

theorem removeNode_proceeds {key : NodeId} (h : allowed (.removeNode key)) :
    Proceeds allowed given n (n.removeNode key) := by
  unfold removeNode
  split
  · next here => exact .noting (.single (.leave h here))
  · exact .noting .refl

theorem updateQuorumSet_proceeds {key : NodeId} {q : QuorumSet} (h : allowed (.updateQuorumSet key q)) :
    Proceeds allowed given n (n.updateQuorumSet key q) := by
  unfold updateQuorumSet atNode
  split
  · next st here =>
    have acts := VotingState.evaluate_acts (Carried given) (Asked allowed key) key (n.peersOf key)
      { st with quorumSet := q }
    have there : (n.roster.put key { st with quorumSet := q }).get? key = some { st with quorumSet := q } := by
      simp [Roster.get?_put]
    have moved := changes_of_moves (n := { n with roster := n.roster.put key { st with quorumSet := q } }) there acts.moves
    rw [Roster.put_put] at moved
    refine ⟨.head (.retrust h here) moved, fun a ha => Or.inr ⟨key, _, ?_, acts.sends a ha⟩⟩
    simp [Outcome.map, Outcome.andThen, Outcome.noting, Roster.get?_put]
  · exact .noting .refl

/-- **User actions.** What an allowed user action does is made of changes, where a forged message counts as given. -/
theorem applyUser_proceeds {a : UserAction} (h : allowed a) (forged : ∀ m, a = .forge m → given m) :
    Proceeds allowed given n (n.applyUser a) := by
  cases a with
  | addNode key q => exact addNode_proceeds h
  | removeNode key => exact removeNode_proceeds h
  | updateQuorumSet key q => exact updateQuorumSet_proceeds h
  | vote key s => exact atNode_proceeds fun st => VotingState.vote_acts h
  | connect a b =>
    simp only [applyUser, changeLink]
    split
    · next here =>
      split
      · next made => exact .noting (.single (.link h here made))
      · exact .noting .refl
    · exact .noting .refl
  | disconnect a b =>
    simp only [applyUser, changeLink]
    split
    · next here =>
      split
      · next made => exact .noting (.single (.unlink h here made))
      · exact .noting .refl
    · exact .noting .refl
  | forge m =>
    refine ⟨.refl, fun a ha => Or.inl ?_⟩
    rw [List.mem_singleton.1 ha]
    exact forged m rfl

theorem send_proceeds {m : Message} (h : given m) : Proceeds allowed given n (n.send m) := by
  unfold send
  split
  · exact .noting .refl
  · refine ⟨.refl, fun a ha => Or.inl ?_⟩
    rw [List.mem_singleton.1 ha]
    exact h

theorem receive_proceeds {m : Message} (h : given m) : Proceeds allowed given n (n.receive m) := by
  unfold receive
  split
  · exact atNode_proceeds fun st => (VotingState.Acts.noting .refl).andThen (VotingState.receive_acts ⟨m, h, rfl⟩)
  · exact .noting .refl

/-- **Protocol actions.** What a protocol action does is made of changes, where its own message counts as given. -/
theorem applyProtocol_proceeds {a : ProtocolAction} (h : given a.message) :
    Proceeds allowed given n (n.applyProtocol a) := by
  unfold applyProtocol
  split
  · exact .noting .refl
  · split
    · exact send_proceeds h
    · exact receive_proceeds h

end FederatedAgreement.Network
