/-
Quiescence: a network that is left alone falls silent. A node passes each vote on once and accepts once, so among a given
number of votes it can only speak so often. Every message is paid for from this reserve: a step of the queue of protocol
actions either delivers half a hop or turns reserve into messages, and there is less left to do after it.

Results:
- `receive_thrifty`: each rule pays for its messages.
- `encompassing_invariant`: no vote comes up that is not among those which can.
- `effort_lt`: each protocol action leaves less to do.
- `execute_effort_lt`: so does each batch without user actions.
- `exhausted_invariant`: by itself no node has anything left to do, ever.
- `exists_encompasses`: in every network the votes that can come up are finitely many.
-/
import FederatedAgreement.Proofs.Network.Authenticity
import FederatedAgreement.Proofs.Network.Nodes
import FederatedAgreement.Proofs.Voting.Exhaustion
import Mathlib.Data.Finset.Card

namespace FederatedAgreement

/-! ## What a node may still say -/

namespace VotingState

/-- how often the node may still speak: once for each of the votes that it has not passed on, and once to accept -/
def reserve (votes : Finset Vote) (st : VotingState) : Nat :=
  (votes.filter (· ∉ st.forwarded)).card + if st.phase < .accepted then 1 else 0

/-- messages are paid for from the reserve, so many of them at a time -/
def Thrifty (votes : Finset Vote) (rate : Nat) (st : VotingState) (o : Outcome VotingState) : Prop :=
  o.actions.length + rate * o.state.reserve votes ≤ rate * st.reserve votes

variable {votes : Finset Vote} {rate : Nat} {node : NodeId} {peers : List NodeId} {st : VotingState}

theorem Thrifty.still : Thrifty votes rate st (.still st) := by
  unfold Thrifty
  simp [Outcome.still]

theorem Thrifty.noting (e : Event) : Thrifty votes rate st (.noting st e) := by
  unfold Thrifty
  simp [Outcome.noting]

theorem Thrifty.andThen {o : Outcome VotingState} {next : VotingState → Outcome VotingState}
    (h : Thrifty votes rate st o) (h' : Thrifty votes rate o.state (next o.state)) :
    Thrifty votes rate st (o.andThen next) := by
  unfold Thrifty at *
  simp only [Outcome.andThen, List.length_append]
  omega

/-- whoever says something to the peers, and may speak once less from then on, is thrifty -/
theorem thrifty_of_spent {o : Outcome VotingState} (few : o.actions.length ≤ rate)
    (spent : o.state.reserve votes + 1 ≤ st.reserve votes) : Thrifty votes rate st o := by
  have paid : rate * (o.state.reserve votes + 1) ≤ rate * st.reserve votes := Nat.mul_le_mul_left rate spent
  rw [Nat.mul_add, Nat.mul_one] at paid
  unfold Thrifty
  omega

theorem evaluate_thrifty (node : NodeId) (st : VotingState) (few : peers.length ≤ rate) :
    Thrifty votes rate st (st.evaluate node peers) := by
  obtain ⟨forwarded, ⟨silent, _, below⟩ | ⟨s, told, _, before, after⟩⟩ := evaluate_cases node peers st
  · have kept : (st.evaluate node peers).state.reserve votes ≤ st.reserve votes := by
      unfold reserve
      rw [forwarded]
      apply Nat.add_le_add_left
      split
      · next h => rw [if_pos (below h)]
      · exact Nat.zero_le _
    unfold Thrifty
    rw [silent, List.length_nil, Nat.zero_add]
    exact Nat.mul_le_mul_left rate kept
  · apply thrifty_of_spent
    · rw [told, broadcast, List.length_map]
      exact few
    · unfold reserve
      rw [forwarded, if_pos before, if_neg after]

/-- a vote that is passed on for the first time is one less to pass on -/
theorem reserve_pass {v : Vote} (hv : v ∈ votes) (new : v ∉ st.forwarded) :
    { st with forwarded := st.forwarded ++ [v] }.reserve votes + 1 ≤ st.reserve votes := by
  have fewer : (votes.filter (· ∉ st.forwarded ++ [v])).card < (votes.filter (· ∉ st.forwarded)).card := by
    apply Finset.card_lt_card
    rw [Finset.ssubset_iff_of_subset]
    · exact ⟨v, by simp [hv, new], by simp⟩
    · intro u hu
      simp only [Finset.mem_filter, List.mem_append, not_or] at hu ⊢
      exact ⟨hu.1, hu.2.1⟩
  unfold reserve
  dsimp only
  omega

theorem relay_thrifty {m : Message} (few : peers.length ≤ rate) (hm : m.vote ∈ votes) :
    Thrifty votes rate st (st.relay node peers m) := by
  unfold relay
  split
  · exact .still
  · next first =>
    apply thrifty_of_spent
    · simp only [broadcast, List.length_map]
      exact (List.length_filter_le _ peers).trans few
    · exact reserve_pass hm (not_or.1 first).2

theorem process_thrifty {v : Vote} (few : peers.length ≤ rate) : Thrifty votes rate st (st.process node peers v) := by
  unfold process
  split
  · exact .still
  · exact evaluate_thrifty node { st with processed := st.processed ++ [v] } few

/-- **Speaking costs.** A message that comes in makes a node say nothing, or speak less often from then on. -/
theorem receive_thrifty {gossip : Bool} {m : Message} (few : peers.length ≤ rate) (hm : m.vote ∈ votes) :
    Thrifty votes rate st (st.receive node peers gossip m) := by
  unfold receive
  refine Thrifty.andThen ?_ (process_thrifty few)
  split
  · exact relay_thrifty few hm
  · exact .still

end VotingState

/-! ## What a network may still say -/

/-- how many steps of the queue an action takes until its message has been received -/
def ProtocolAction.steps (a : ProtocolAction) : Nat :=
  match a.delivery with
  | .send => 2
  | .receive => 1

def ProtocolAction.stepsOf : List ProtocolAction → Nat
  | [] => 0
  | a :: queue => a.steps + stepsOf queue

namespace Network

variable {votes : Finset Vote} {n : Network} {queue : List ProtocolAction}

/-- the votes are closed under acceptance, and no other votes are held -/
structure Encompasses (votes : Finset Vote) (n : Network) : Prop where
  held : ∀ {key st v}, n.roster.get? key = some st → st.Holds v → v ∈ votes
  accepted : ∀ v ∈ votes, ∀ key ∈ n.keys, ⟨v.statement, key, true⟩ ∈ votes

/-- **Nothing new.** If nobody orders anything, nodes only hear of, pass on and accept what was among the votes before. -/
theorem encompassing_invariant (votes : Finset Vote) :
    Invariant (fun _ => False) (Encompasses votes) (fun _ m => m.vote ∈ votes) where
  holds := by
    intro n n' h c
    have settled : Settled fun _ => False := ⟨fun _ _ => id, fun _ => id, fun _ _ => id⟩
    refine ⟨?_, ?_⟩
    · intro key st' v there hv
      obtain ⟨st, here, turn⟩ := c.origin_of_settled settled there
      rcases turn.held hv with old | ⟨m, hm, rfl⟩ | cast
      · exact h.held here old
      · exact hm
      · rcases cast.reason with ⟨_, ordered⟩ | ⟨accept, known, _⟩
        · exact ordered.elim
        · obtain ⟨u, hu, same⟩ := VotingState.mem_knownStatements.1 known
          have closed := h.accepted u (h.held here (Or.inl hu)) key (Roster.mem_of_get? here)
          obtain ⟨s, voter, isAccept⟩ := v
          cases accept
          cases cast.voter
          cases same
          exact closed
    · intro v hv key member
      obtain ⟨st', there⟩ := Roster.mem_iff_exists_get?.1 member
      obtain ⟨st, here, _⟩ := c.origin_of_settled settled there
      exact h.accepted v hv key (Roster.mem_of_get? here)
  good _ _ hm := hm
  sent h here sends := h.held here sends.holds
  forged _ ordered := ordered.elim

/-- how often all nodes may still speak -/
def reserve (votes : Finset Vote) (n : Network) : Nat := n.roster.total (VotingState.reserve votes)

/-- how much is left to do: to speak means to send two halves of a hop to every node at most -/
def effort (votes : Finset Vote) (n : Network) (queue : List ProtocolAction) : Nat :=
  2 * (n.keys.length * n.reserve votes) + ProtocolAction.stepsOf queue

theorem stepsOf_append (first second : List ProtocolAction) :
    ProtocolAction.stepsOf (first ++ second) = ProtocolAction.stepsOf first + ProtocolAction.stepsOf second := by
  induction first with
  | nil => exact (Nat.zero_add _).symm
  | cons a first ih => rw [List.cons_append, ProtocolAction.stepsOf, ProtocolAction.stepsOf, ih, Nat.add_assoc]

theorem stepsOf_le (actions : List ProtocolAction) : ProtocolAction.stepsOf actions ≤ 2 * actions.length := by
  induction actions with
  | nil => exact Nat.le_refl _
  | cons a actions ih =>
    have two : a.steps ≤ 2 := by
      unfold ProtocolAction.steps
      split <;> omega
    rw [ProtocolAction.stepsOf, List.length_cons]
    omega

/-- a node that is thrifty does not add to the effort -/
theorem effort_atNode_le {key : NodeId} {act : VotingState → Outcome VotingState}
    (thrifty : ∀ st, n.roster.get? key = some st → VotingState.Thrifty votes n.keys.length st (act st)) :
    effort votes (n.atNode key act).state (queue ++ (n.atNode key act).actions) ≤ effort votes n queue := by
  unfold effort
  rw [keys_atNode]
  rcases n.atNode_cases key act with ⟨unchanged, silent, _⟩ | ⟨st, here, actions, changed⟩
  · rw [unchanged, silent, List.append_nil]
  · have paid := thrifty st here
    have total : n.keys.length * (reserve votes (n.atNode key act).state + st.reserve votes) =
        n.keys.length * (reserve votes n + (act st).state.reserve votes) := by
      rw [changed]
      exact congrArg _ (Roster.total_put here (act st).state)
    have halves := stepsOf_le (act st).actions
    rw [Nat.mul_add, Nat.mul_add] at total
    rw [actions, stepsOf_append]
    unfold VotingState.Thrifty at paid
    omega

/-- **Less to do.** Each protocol action that is carried out leaves less to do. -/
theorem effort_lt {a : ProtocolAction} (ha : a.message.vote ∈ votes) :
    effort votes (n.applyProtocol a).state (queue ++ (n.applyProtocol a).actions) < effort votes n (a :: queue) := by
  have first : effort votes n (a :: queue) = effort votes n queue + a.steps := by
    unfold effort
    rw [ProtocolAction.stepsOf]
    omega
  rw [first]
  rcases n.applyProtocol_cases a with ⟨unchanged, lost⟩ | ⟨send, unchanged, sent⟩ | ⟨receive, received⟩
  · rw [unchanged, lost, List.append_nil]
    unfold ProtocolAction.steps
    split <;> omega
  · rw [unchanged, sent]
    unfold effort
    rw [stepsOf_append]
    simp [ProtocolAction.stepsOf, ProtocolAction.steps, send, ProtocolAction.receive]
    omega
  · have kept : effort votes (n.applyProtocol a).state (queue ++ (n.applyProtocol a).actions) ≤
        effort votes n queue := by
      rw [received]
      apply effort_atNode_le
      intro st _
      have few : (n.peersOf a.message.receiver).length ≤ n.keys.length := List.length_filter_le _ _
      exact .andThen (.noting _) (VotingState.receive_thrifty few ha)
    have one : a.steps = 1 := by rw [ProtocolAction.steps, receive]
    omega

/-- **Left alone.** A batch without user actions leaves less to do, and no vote comes up that could not. -/
theorem execute_effort_lt {a : ProtocolAction} (h : Encompasses votes n)
    (carried : ∀ b ∈ a :: queue, b.message.vote ∈ votes) :
    (Encompasses votes (n.execute [] (a :: queue)).state ∧
      ∀ b ∈ (n.execute [] (a :: queue)).actions, b.message.vote ∈ votes) ∧
    effort votes (n.execute [] (a :: queue)).state (n.execute [] (a :: queue)).actions < effort votes n (a :: queue) := by
  have first := (encompassing_invariant votes).queued.delivered queue ⟨h, carried⟩
  have less : effort votes (n.applyProtocol a).state (queue ++ (n.applyProtocol a).actions) < effort votes n (a :: queue) :=
    effort_lt (carried a List.mem_cons_self)
  -- the actions behind the first one do not add to what is left after it
  have bounded : QueueInvariant (fun _ => False) fun n' queue' =>
      (Encompasses votes n' ∧ ∀ b ∈ queue', b.message.vote ∈ votes) ∧
        effort votes n' queue' < effort votes n (a :: queue) := by
    refine ⟨fun _ _ ordered => ordered.elim, fun rest before => ?_⟩
    refine ⟨(encompassing_invariant votes).queued.delivered rest before.1, ?_⟩
    exact Nat.lt_trans (effort_lt (before.1.2 _ List.mem_cons_self)) before.2
  exact bounded.execute_rest ⟨first, less⟩

/-- there are votes that encompass all that is held and under way: these themselves, and every node's acceptance of
their statements -/
theorem exists_encompasses (n : Network) (queue : List ProtocolAction) :
    ∃ votes : Finset Vote, Encompasses votes n ∧ ∀ a ∈ queue, a.message.vote ∈ votes := by
  let known : List Vote := n.roster.values.flatMap (fun st => st.processed ++ st.forwarded) ++ queue.map (·.message.vote)
  let accepts : List Vote := known.flatMap fun v => n.keys.map fun key => ⟨v.statement, key, true⟩
  have mem_accepts : ∀ {v key}, v ∈ known → key ∈ n.keys → ⟨v.statement, key, true⟩ ∈ accepts := by
    intro v key hv member
    exact List.mem_flatMap.2 ⟨v, hv, List.mem_map_of_mem member⟩
  refine ⟨(known ++ accepts).toFinset, ⟨?_, ?_⟩, ?_⟩
  · intro key st v here hv
    have value : st ∈ n.roster.values := Roster.mem_values.2 ⟨key, here⟩
    have held : v ∈ n.roster.values.flatMap (fun st => st.processed ++ st.forwarded) :=
      List.mem_flatMap.2 ⟨st, value, List.mem_append.2 hv⟩
    exact List.mem_toFinset.2 (List.mem_append_left _ (List.mem_append_left _ held))
  · intro v hv key member
    rw [List.mem_toFinset] at hv ⊢
    apply List.mem_append_right
    rcases List.mem_append.1 hv with hv | hv
    · exact mem_accepts hv member
    · obtain ⟨u, hu, made⟩ := List.mem_flatMap.1 hv
      obtain ⟨_, _, rfl⟩ := List.mem_map.1 made
      have again : ⟨u.statement, key, true⟩ ∈ accepts := mem_accepts hu member
      exact again
  · intro a ha
    have carried : a.message.vote ∈ queue.map (·.message.vote) := List.mem_map_of_mem ha
    exact List.mem_toFinset.2 (List.mem_append_left _ (List.mem_append_right _ carried))

/-! ## Nothing left to do -/

/-- in no network that comes about has a node anything left to do by itself -/
theorem exhausted_invariant (gossip : Bool) : NodeInvariant gossip fun _ => VotingState.Exhausted where
  fresh _ q := VotingState.exhausted_fresh q
  retrust {key _} peers _ _ := VotingState.evaluate_exhausted key peers _
  vote _ s h := VotingState.vote_exhausted h s
  receive _ m h := VotingState.receive_exhausted h gossip m

end Network

end FederatedAgreement
