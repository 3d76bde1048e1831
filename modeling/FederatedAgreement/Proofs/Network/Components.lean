/-
Components: what the nodes that are joined by chains of links come to know. Whatever votes are cast, events announce, and
the voters know them. A vote only goes from neighbour to neighbour, so it stays among the nodes that its voter is joined
with; and once nothing is under way, all of these know it.

Results:
- `recorded_logged`: the votes that events announced are those that their voters know.
- `confined_queued`: votes are known and under way only among the nodes that their voters are joined with.
- `votes_disseminated`: **every component knows its votes**, and no others.
-/
import FederatedAgreement.Proofs.Network.Dissemination
import FederatedAgreement.Proofs.Voting.Announcements

namespace FederatedAgreement

namespace Network

variable {n : Network} {queue : List ProtocolAction} {log : List Event} {key : NodeId}

/-! ## What was announced -/

/-- the votes that events announced are those that their voters took into account -/
def Recorded (n : Network) (log : List Event) : Prop := ∀ v, v ∈ casts log ↔ Heard n v.voter v

/-- nothing changes by an event that announces no vote -/
theorem Recorded.note {e : Event} (h : Recorded n log) (silent : casts [e] = []) : Recorded n (log ++ [e]) := by
  intro v
  rw [casts_append, silent, List.append_nil]
  exact h v

/-- a node that announces its own votes keeps the record -/
theorem Recorded.atNode {act : VotingState → Outcome VotingState} (h : Recorded n log)
    (announces : ∀ st, n.roster.get? key = some st → VotingState.Announces key st (act st)) :
    Recorded (n.atNode key act).state (log ++ (n.atNode key act).events) := by
  rcases n.atNode_outcome key act with ⟨ignored, _⟩ | ⟨st, here, acted⟩
  · rw [ignored]
    exact h.note rfl
  · rw [acted]
    have announced := announces st here
    intro v
    rw [casts_append, List.mem_append, h v]
    -- what a node takes into account of others' votes does not matter here: only voters are asked
    by_cases own : v.voter = key
    · have there : (n.roster.put key (act st).state).get? key = some (act st).state :=
        (Roster.get?_put _ _ _ _).trans (if_pos rfl)
      rw [own, heard_iff here]
      exact ((heard_iff there).trans (announced.new v own)).symm
    · have unsaid : v ∉ casts (act st).events := fun said => own (announced.own v said)
      have elsewhere : (n.roster.put key (act st).state).get? v.voter = n.roster.get? v.voter :=
        (Roster.get?_put _ _ _ _).trans (if_neg own)
      refine (or_iff_left unsaid).trans ?_
      unfold Heard
      exact elsewhere ▸ Iff.rfl

/-- **The record is true.** As long as nobody forges messages, events announce the votes that voters know as their own,
and no others. -/
theorem recorded_logged : LogInvariant Calm fun n queue log =>
    (Attested n ∧ ∀ a ∈ queue, Heard n a.message.vote.voter a.message.vote) ∧ Recorded n log where
  ordered := by
    rintro n u queue log ⟨attested, recorded⟩ calm
    refine ⟨attested_invariant.queued.ordered queue attested calm.sincere, ?_⟩
    cases u with
    | vote key s => exact recorded.atNode fun st _ => VotingState.vote_announces s
    | updateQuorumSet key q => exact recorded.atNode fun st _ => VotingState.retrust_announces q rfl
    | _ => exact absurd calm (by simp [Calm, UserAction.kind])
  delivered := by
    rintro n a queue log ⟨attested, recorded⟩
    refine ⟨attested_invariant.queued.delivered queue attested, ?_⟩
    rcases n.applyProtocol_outcome a with ⟨e, kind, lost⟩ | ⟨_, _, sent⟩ | ⟨_, received⟩
    · rw [lost]
      refine recorded.note (casts_of_kind ?_ ?_)
      · rcases kind with kind | kind <;> simp [kind]
      · rcases kind with kind | kind <;> simp [kind]
    · rw [sent]
      exact recorded.note rfl
    · rw [received]
      have heard := attested.2 a List.mem_cons_self
      refine recorded.atNode fun st here => ?_
      exact VotingState.Announces.andThen (VotingState.announces_nothing rfl rfl)
        (VotingState.receive_announces (heard.own here))

/-! ## Where votes get to -/

/-- the two nodes are joined by a chain of links -/
abbrev Linked (n : Network) : NodeId → NodeId → Prop := Relation.ReflTransGen n.Neighbours

instance : Std.Symm n.Neighbours where
  symm a b h := (n.overlay.isConnected_comm b a n.keys).trans h

/-- votes are held, sent and received only among the nodes that their voters are joined with -/
structure Confined (n : Network) (queue : List ProtocolAction) : Prop where
  held : ∀ {key st v}, n.roster.get? key = some st → st.Holds v → n.Linked v.voter key
  sent : ∀ a ∈ queue, a.message.sender ∈ n.keys ∧ n.Linked a.message.vote.voter a.message.sender
  received : ∀ a ∈ queue, a.delivery = .receive → n.Neighbours a.message.sender a.message.receiver

/-- the first action under way can be left out -/
theorem Confined.tail {a : ProtocolAction} (h : Confined n (a :: queue)) : Confined n queue where
  held := h.held
  sent b hb := h.sent b (List.mem_cons_of_mem a hb)
  received b hb := h.received b (List.mem_cons_of_mem a hb)

/-- a node that is told votes of its component, and knows its own, only passes on such votes -/
theorem Confined.atNode {act : VotingState → Outcome VotingState} (h : Confined n queue) (told : Vote → Prop)
    (linked : ∀ v, told v → n.Linked v.voter key)
    (heeds : ∀ st, n.roster.get? key = some st → VotingState.Heeds told key st (act st)) :
    Confined (n.atNode key act).state (queue ++ (n.atNode key act).actions) := by
  rcases n.atNode_cases key act with ⟨unchanged, none, _⟩ | ⟨st, here, actions, changed⟩
  · rw [unchanged, none, List.append_nil]
    exact h
  · have heeded := heeds st here
    have same : (n.atNode key act).state.keys = n.keys ∧ (n.atNode key act).state.overlay = n.overlay :=
      ⟨keys_atNode n key act, overlay_atNode n key act⟩
    have told_or_own : ∀ {v}, (act st).state.Holds v → n.Linked v.voter key := by
      intro v hv
      rcases heeded.held hv with before | heard | own
      · exact h.held here before
      · exact linked v heard
      · rw [own]
    refine ⟨fun {key' st' v} there hv => ?_, fun a ha => ?_, fun a ha => ?_⟩
    · rw [Linked, neighbours_steady same]
      rw [changed, Roster.get?_put] at there
      split at there
      · next e =>
        cases there
        exact e ▸ told_or_own hv
      · exact h.held there hv
    · rw [Linked, neighbours_steady same, same.1]
      rcases List.mem_append.1 ha with old | new
      · exact h.sent a old
      · rw [actions] at new
        have sends := heeded.sends a new
        rw [sends.sender]
        exact ⟨Roster.mem_of_get? here, told_or_own sends.holds⟩
    · rw [neighbours_steady same]
      intro receive
      rcases List.mem_append.1 ha with old | new
      · exact h.received a old receive
      · rw [actions] at new
        have send := (heeded.sends a new).delivery
        rw [send] at receive
        exact absurd receive (by decide)

/-- **Votes stay in their components**, whatever is voted for and trusted, and whatever messages are lost. -/
theorem confined_queued : QueueInvariant Calm Confined where
  ordered := by
    rintro n u queue h calm
    obtain ⟨act, same, heeds⟩ := applyUser_of_calm calm
    rw [same]
    exact h.atNode (fun _ => False) (fun _ => False.elim) fun st _ => heeds _ st
  delivered := by
    rintro n a queue h
    obtain ⟨member, chain⟩ := h.sent a List.mem_cons_self
    rcases n.applyProtocol_outcome a with ⟨e, _, lost⟩ | ⟨_, connected, sent⟩ | ⟨receive, received⟩
    · rw [lost]
      exact (List.append_nil queue).symm ▸ h.tail
    · rw [sent]
      refine ⟨h.tail.held, fun b hb => ?_, fun b hb half => ?_⟩
      · rcases List.mem_append.1 hb with old | new
        · exact h.tail.sent b old
        · rw [List.mem_singleton.1 new]
          exact ⟨member, chain⟩
      · rcases List.mem_append.1 hb with old | new
        · exact h.tail.received b old half
        · rw [List.mem_singleton.1 new]
          exact connected member
    · rw [received]
      apply h.tail.atNode (· = a.message.vote)
      · rintro v rfl
        exact chain.tail (h.received a List.mem_cons_self receive)
      · exact fun st _ => VotingState.deliver_heeds a.message n.overlay.gossip st _

theorem confined_load {e loaded : Engine} {nodes : List Node} {links : List (NodeId × NodeId)}
    (load : e.load nodes links = .ok loaded) : Confined loaded.network [] where
  held here hv := absurd hv (Engine.not_holds_load load here _)
  sent _ ha := absurd ha List.not_mem_nil
  received _ ha := absurd ha List.not_mem_nil

theorem recorded_load {e loaded : Engine} {nodes : List Node} {links : List (NodeId × NodeId)}
    (load : e.load nodes links = .ok loaded) : Recorded loaded.network [] := by
  refine fun v => ⟨fun said => absurd said List.not_mem_nil, ?_⟩
  rintro ⟨st, here, heard⟩
  exact absurd (Or.inl heard) (Engine.not_holds_load load here v)

/-- once nothing is under way, a node knows the votes that were announced by nodes that it is joined with, and no others -/
theorem heard_iff_announced {gossip : Bool} (h : Disseminating gossip n []) (recorded : Recorded n log)
    (confined : Confined n []) (spread : n.overlay.fullMesh = true ∨ n.overlay.gossip = true) {st : VotingState}
    (here : n.roster.get? key = some st) (v : Vote) : v ∈ st.processed ↔ v ∈ casts log ∧ n.Linked v.voter key := by
  rw [recorded v]
  constructor
  · intro heard
    exact ⟨h.attested.1 here (Or.inl heard), confined.held here (Or.inl heard)⟩
  · rintro ⟨known, chain⟩
    have member : key ∈ n.keys := Roster.mem_of_get? here
    have heard := h.heard_in_component (spread.imp_right fun on => ⟨on, chain⟩) known member
    exact (heard_iff here).1 heard

end Network

/-! ## Main result -/

open Network

/-- **Every component knows its votes.** Let a network be loaded whose overlay is a full mesh or has gossip, and let any
rounds pass in which operators only order votes and trust, and no message is lost. Whenever nothing is under way, a node
knows just those votes, acceptances among them, that were cast by nodes that it is joined with by chains of links. So nodes
that are joined know the same. -/
theorem votes_disseminated {e loaded : Engine} {nodes : List Node} {links : List (NodeId × NodeId)}
    (load : e.load nodes links = .ok loaded)
    (spread : loaded.network.overlay.fullMesh = true ∨ loaded.network.overlay.gossip = true) {rounds : List Round}
    (orders : ∀ r ∈ rounds, ∀ a ∈ r.orders, Calm a) (kept : ∀ r ∈ rounds, r.lost = [])
    (silent : ((Session.start loaded).run rounds).pending = []) :
    (∀ key st v, ((Session.start loaded).run rounds).state? key = some st →
      (v ∈ st.processed ↔
        v ∈ casts ((Session.start loaded).events rounds) ∧ loaded.network.Linked v.voter key)) ∧
    ∀ a b sa sb, ((Session.start loaded).run rounds).state? a = some sa →
      ((Session.start loaded).run rounds).state? b = some sb → loaded.network.Linked a b →
      ∀ v, v ∈ sa.processed ↔ v ∈ sb.processed := by
  have started := disseminating_load load
  have steady : ((Session.start loaded).run rounds).network.keys = loaded.network.keys ∧
      ((Session.start loaded).run rounds).network.overlay = loaded.network.overlay :=
    (steady_queued _ _).run_intact orders kept ⟨rfl, rfl⟩
  have disseminating := (Disseminating.queued _).run_intact (s := .start loaded) orders kept started
  have confined := confined_queued.run_intact (s := .start loaded) orders kept (confined_load load)
  obtain ⟨_, recorded⟩ :=
    recorded_logged.run_intact (s := .start loaded) [] orders kept ⟨started.attested, recorded_load load⟩
  rw [silent] at disseminating confined
  have known : ∀ key st v, ((Session.start loaded).run rounds).state? key = some st →
      (v ∈ st.processed ↔
        v ∈ casts ((Session.start loaded).events rounds) ∧ loaded.network.Linked v.voter key) := by
    intro key st v here
    have announced := heard_iff_announced disseminating recorded confined (steady.2 ▸ spread) here v
    rw [Linked, neighbours_steady steady] at announced
    exact announced
  refine ⟨known, fun a b sa sb here there chain v => ?_⟩
  rw [known a sa v here, known b sb v there]
  exact and_congr_right fun _ => ⟨fun first => first.trans chain, fun second => second.trans (symm chain)⟩

/-- three nodes in a row, and a node that is linked with nobody -/
def rowAndLoner : List Node := threeInRow ++ [⟨"V", .flat 1 ["V"] (by decide)⟩]

def rowAndLonerEngine : Engine :=
  .ofSetup ⟨rowAndLoner, ⟨false, true, .ofList [.between "S" "T", .between "T" "U"]⟩⟩

/-- one end of the row votes, and a round later the loner and the other end, which knows nothing of it yet -/
def crossedVotes : List Round :=
  ⟨[.vote "S" "x"], []⟩ :: ⟨[.vote "V" "y", .vote "U" "y"], []⟩ :: List.replicate 7 ⟨[], []⟩

/-- in the end the one end of the row knows what the other one accepted, with which it has no link -/
theorem crossedVotes_known :
    (Engine.bare false true).load rowAndLoner [("S", "T"), ("T", "U")] = .ok rowAndLonerEngine ∧
    rowAndLonerEngine.network.overlay.gossip = true ∧ (∀ r ∈ crossedVotes, ∀ a ∈ r.orders, Calm a) ∧
    (∀ r ∈ crossedVotes, r.lost = []) ∧ ((Session.start rowAndLonerEngine).run crossedVotes).pending = [] ∧
    ¬ rowAndLonerEngine.network.Neighbours "S" "U" ∧
    ∃ st, ((Session.start rowAndLonerEngine).run crossedVotes).state? "U" = some st ∧ ⟨"x", "S", true⟩ ∈ st.processed := by
  have load : (Engine.bare false true).load rowAndLoner [("S", "T"), ("T", "U")] = .ok rowAndLonerEngine := by rfl
  have orders : ∀ r ∈ crossedVotes, ∀ a ∈ r.orders, Calm a := by decide
  have kept : ∀ r ∈ crossedVotes, r.lost = [] := by decide
  have silent : ((Session.start rowAndLonerEngine).run crossedVotes).pending = [] := by decide +kernel
  have apart : ¬ rowAndLonerEngine.network.Neighbours "S" "U" := by
    unfold Neighbours
    decide +kernel
  have said : ⟨"x", "S", true⟩ ∈ casts ((Session.start rowAndLonerEngine).events crossedVotes) := by decide +kernel
  have first : rowAndLonerEngine.network.Neighbours "S" "T" := by
    unfold Neighbours
    decide +kernel
  have second : rowAndLonerEngine.network.Neighbours "T" "U" := by
    unfold Neighbours
    decide +kernel
  obtain ⟨st, here⟩ := Option.isSome_iff_exists.1 (show
    (((Session.start rowAndLonerEngine).run crossedVotes).state? "U").isSome = true by decide +kernel)
  obtain ⟨known, _⟩ := votes_disseminated load (.inr rfl) orders kept silent
  exact ⟨load, rfl, orders, kept, silent, apart, st, here, (known "U" st _ here).2 ⟨said, .tail (.single first) second⟩⟩

end FederatedAgreement
