/-
Isolation: nodes that are cut off. Let all that is sent to some nodes from outside be lost, and let operators only order
votes and trust. Then these nodes go on as if nothing else were carried out than the orders to them and the hops between
them, whomever they trust. So two sessions side by side in which these are the same leave them in the same states,
however different the sessions are outside.

Results:
- `execute_similar`: a batch treats the nodes that are cut off like its part that concerns them alone.
- `InStep.round`: sessions in which the same concerns these nodes stay in step.
- `cut_off_unmoved`: **no influence from outside**, after any number of rounds.
-/
import FederatedAgreement.Proofs.Network.Nodes
import FederatedAgreement.Proofs.Network.Rounds

namespace FederatedAgreement

namespace Network

variable {inner : NodeSet} {n n' n'' : Network} {a : ProtocolAction} {queue : List ProtocolAction}

/-! ## Hops between nodes -/

/-- the hop is one between the given nodes -/
def Between (inner : NodeSet) (a : ProtocolAction) : Prop := a.message.sender ∈ inner ∧ a.message.receiver ∈ inner

instance (inner : NodeSet) (a : ProtocolAction) : Decidable (Between inner a) := inferInstanceAs (Decidable (_ ∧ _))

/-- the hops between the given nodes -/
def between (inner : NodeSet) (queue : List ProtocolAction) : List ProtocolAction := queue.filter (Between inner ·)

theorem between_append (queue queue' : List ProtocolAction) :
    between inner (queue ++ queue') = between inner queue ++ between inner queue' := List.filter_append queue queue'

theorem between_eq_nil (h : ∀ a ∈ queue, ¬ Between inner a) : between inner queue = [] := by
  simpa [between, List.filter_eq_nil_iff] using h

/-- all that would bring a message to the given nodes from outside is disrupted -/
def Shielded (inner : NodeSet) (queue : List ProtocolAction) : Prop :=
  ∀ a ∈ queue, a.message.sender ∉ inner → a.message.receiver ∈ inner → a.disrupted = true

/-- no message from outside is about to be received by the given nodes -/
def Guarded (inner : NodeSet) (queue : List ProtocolAction) : Prop :=
  ∀ a ∈ queue, a.delivery = .receive → a.message.receiver ∈ inner → a.message.sender ∈ inner

/-! ## Networks that agree on some nodes -/

/-- the same nodes with the same links, and the same states of the given ones -/
structure Agree (inner : NodeSet) (n n' : Network) : Prop where
  keys : n.keys = n'.keys
  overlay : n.overlay = n'.overlay
  states : ∀ key ∈ inner, n.roster.get? key = n'.roster.get? key

theorem Agree.refl (n : Network) : Agree inner n n := ⟨rfl, rfl, fun _ _ => rfl⟩

theorem Agree.symm (h : Agree inner n n') : Agree inner n' n :=
  ⟨h.keys.symm, h.overlay.symm, fun key hk => (h.states key hk).symm⟩

theorem Agree.trans (h : Agree inner n n') (h' : Agree inner n' n'') : Agree inner n n'' :=
  ⟨h.keys.trans h'.keys, h.overlay.trans h'.overlay, fun key hk => (h.states key hk).trans (h'.states key hk)⟩

theorem Agree.mem_iff (h : Agree inner n n') (key : NodeId) : key ∈ n.roster ↔ key ∈ n'.roster := by
  rw [Roster.mem_iff_mem_keys, Roster.mem_iff_mem_keys]
  exact iff_of_eq (congrArg (key ∈ ·) h.keys)

theorem Agree.peersOf (h : Agree inner n n') (key : NodeId) : n.peersOf key = n'.peersOf key := by
  rw [Network.peersOf, Network.peersOf, h.overlay, h.keys]

/-- networks that agree on the given nodes, with the same hops between these called for -/
structure Similar (inner : NodeSet) (o o' : Outcome Network) : Prop where
  agree : Agree inner o.state o'.state
  hops : between inner o.actions = between inner o'.actions

theorem Similar.symm {o o' : Outcome Network} (h : Similar inner o o') : Similar inner o' o :=
  ⟨h.agree.symm, h.hops.symm⟩

theorem Similar.trans {o o' o'' : Outcome Network} (h : Similar inner o o') (h' : Similar inner o' o'') :
    Similar inner o o'' :=
  ⟨h.agree.trans h'.agree, h.hops.trans h'.hops⟩

theorem Similar.andThen {o o' : Outcome Network} {next next' : Network → Outcome Network} (h : Similar inner o o')
    (h' : Similar inner (next o.state) (next' o'.state)) : Similar inner (o.andThen next) (o'.andThen next') := by
  refine ⟨h'.agree, ?_⟩
  simp only [Outcome.andThen, between_append, h.hops, h'.hops]

/-! ## Single actions -/

/-- what one of the given nodes does depends on what it is told and on its own state -/
theorem atNode_similar (h : Agree inner n n') {key : NodeId} (member : key ∈ inner)
    (act : VotingState → Outcome VotingState) : Similar inner (n.atNode key act) (n'.atNode key act) := by
  have keys : (n.atNode key act).state.keys = (n'.atNode key act).state.keys := by
    rw [keys_atNode, keys_atNode, h.keys]
  have overlay : (n.atNode key act).state.overlay = (n'.atNode key act).state.overlay := by
    rw [overlay_atNode, overlay_atNode, h.overlay]
  have same := h.states key member
  -- the node is in both networks, in the same state, or in neither
  rcases n.atNode_cases key act with ⟨state, actions, absent⟩ | ⟨st, here, actions, state⟩
  · rcases n'.atNode_cases key act with ⟨state', actions', _⟩ | ⟨st, here, _⟩
    · refine ⟨⟨keys, overlay, ?_⟩, by rw [actions, actions']⟩
      rw [state, state']
      exact h.states
    · rw [← same, Roster.get?_eq_none_iff.2 absent] at here
      exact absurd here nofun
  · rcases n'.atNode_cases key act with ⟨_, _, absent⟩ | ⟨st', here', actions', state'⟩
    · rw [same, Roster.get?_eq_none_iff.2 absent] at here
      exact absurd here nofun
    · cases here.symm.trans (same.trans here')
      refine ⟨⟨keys, overlay, fun other hk => ?_⟩, by rw [actions, actions']⟩
      rw [state, state', Roster.get?_put, Roster.get?_put, h.states other hk]

/-- what another node does in its own name is no matter for the given ones -/
theorem atNode_outside (h : Agree inner n n') {key : NodeId} (outside : key ∉ inner)
    {act : VotingState → Outcome VotingState} (own : ∀ st, ∀ a ∈ (act st).actions, a.message.sender = key) :
    Similar inner (n.atNode key act) (.still n') := by
  rcases n.atNode_cases key act with ⟨state, actions, _⟩ | ⟨st, _, actions, state⟩
  · refine ⟨?_, by rw [actions]; rfl⟩
    rw [state]
    exact h
  · refine ⟨Agree.trans ⟨keys_atNode n key act, overlay_atNode n key act, fun other hk => ?_⟩ h, ?_⟩
    · have apart : other ≠ key := fun e => outside (e ▸ hk)
      rw [state, Roster.get?_put, if_neg apart]
    · rw [actions]
      exact between_eq_nil fun a ha inside => outside (own st a ha ▸ inside.1)

theorem applyUser_similar (h : Agree inner n n') {u : UserAction} (calm : Calm u) (member : u.author ∈ inner) :
    Similar inner (n.applyUser u) (n'.applyUser u) := by
  obtain ⟨act, same, _⟩ := applyUser_of_calm calm
  rw [same, same, h.peersOf]
  exact atNode_similar h member _

theorem applyUser_outside (h : Agree inner n n') {u : UserAction} (calm : Calm u) (outside : u.author ∉ inner) :
    Similar inner (n.applyUser u) (.still n') := by
  obtain ⟨act, same, heeds⟩ := applyUser_of_calm calm
  rw [same]
  exact atNode_outside h outside fun st a ha => ((heeds _ st).sends a ha).sender

theorem applyProtocol_similar (h : Agree inner n n') (member : a.message.receiver ∈ inner) :
    Similar inner (n.applyProtocol a) (n'.applyProtocol a) := by
  unfold applyProtocol
  split
  · exact ⟨h, rfl⟩
  · split
    · unfold send
      simp only [h.mem_iff a.message.sender, h.overlay, h.keys]
      split <;> exact ⟨h, rfl⟩
    · unfold receive
      simp only [h.mem_iff a.message.receiver, h.peersOf, h.overlay]
      split
      · exact atNode_similar h member _
      · exact ⟨h, rfl⟩

/-- a hop that is not one between the given nodes is no matter for them, if they do not receive it -/
theorem applyProtocol_outside (h : Agree inner n n') (outside : ¬ Between inner a)
    (shielded : a.message.sender ∉ inner → a.message.receiver ∈ inner → a.disrupted = true) :
    Similar inner (n.applyProtocol a) (.still n') := by
  by_cases member : a.message.receiver ∈ inner
  -- then the hop comes from outside
  · have disrupted := shielded (fun sender => outside ⟨sender, member⟩) member
    unfold applyProtocol
    rw [if_pos disrupted]
    exact ⟨h, rfl⟩
  · rcases n.applyProtocol_cases a with ⟨state, actions⟩ | ⟨_, state, actions⟩ | ⟨_, received⟩
    · refine ⟨?_, by rw [actions]; rfl⟩
      rw [state]
      exact h
    · refine ⟨?_, ?_⟩
      · rw [state]
        exact h
      · rw [actions]
        refine between_eq_nil fun b hb => ?_
        rw [List.mem_singleton.1 hb]
        exact outside
    · rw [received]
      exact atNode_outside h member fun st b hb => ((VotingState.deliver_heeds _ _ st _).sends b hb).sender

/-- a message that is about to be received was sent before, and was not disrupted -/
theorem sent_of_receive {b : ProtocolAction} (called : b ∈ (n.applyProtocol a).actions) (delivery : b.delivery = .receive) :
    b.message = a.message ∧ a.disrupted = false := by
  by_cases disrupted : a.disrupted = true
  · unfold applyProtocol at called
    rw [if_pos disrupted] at called
    exact absurd called List.not_mem_nil
  · refine ⟨?_, Bool.eq_false_iff.2 disrupted⟩
    rcases n.applyProtocol_cases a with ⟨_, actions⟩ | ⟨_, _, actions⟩ | ⟨_, received⟩
    · rw [actions] at called
      exact absurd called List.not_mem_nil
    · rw [actions] at called
      rw [List.mem_singleton.1 called]
      rfl
    · rw [received] at called
      obtain ⟨st, hb⟩ := exists_of_mem_atNode called
      rw [((VotingState.deliver_heeds _ _ st _).sends b hb).delivery] at delivery
      exact absurd delivery nofun

/-! ## Batches -/

/-- what elements outside a selection do is no matter, so only the selected ones need to be carried out -/
theorem runEach_similar {α : Type} {step : Network → α → Outcome Network} {selected : α → Bool} {as : List α}
    (kept : ∀ x ∈ as, selected x = true → ∀ {n n'}, Agree inner n n' → Similar inner (step n x) (step n' x))
    (skipped : ∀ x ∈ as, selected x ≠ true → ∀ {n n'}, Agree inner n n' → Similar inner (step n x) (.still n'))
    (h : Agree inner n n') :
    Similar inner (Outcome.runEach step n as) (Outcome.runEach step n' (as.filter selected)) := by
  induction as generalizing n n' with
  | nil => exact ⟨h, rfl⟩
  | cons x as ih =>
    have rest {n n' : Network} (h : Agree inner n n') := ih (fun y hy => kept y (List.mem_cons_of_mem x hy))
      (fun y hy => skipped y (List.mem_cons_of_mem x hy)) h
    by_cases hx : selected x = true
    · have first := kept x List.mem_cons_self hx h
      rw [List.filter_cons_of_pos hx]
      exact first.andThen (rest first.agree)
    · have first := skipped x List.mem_cons_self hx h
      rw [List.filter_cons_of_neg hx, ← Outcome.still_andThen n' fun s => Outcome.runEach step s (as.filter selected)]
      exact first.andThen (rest first.agree)

/-- the orders to the given nodes -/
def ordersTo (inner : NodeSet) (orders : List UserAction) : List UserAction := orders.filter (·.author ∈ inner)

/-- **Batches.** What a batch of calm orders does to nodes that are shielded is what the orders to them and the hops
between them do. -/
theorem execute_similar (h : Agree inner n n') {users : List UserAction} (calm : ∀ u ∈ users, Calm u)
    (shielded : Shielded inner queue) :
    Similar inner (n.execute users queue) (n'.execute (ordersTo inner users) (between inner queue)) := by
  have first : Similar inner (Outcome.runEach applyUser n users) (Outcome.runEach applyUser n' (ordersTo inner users)) := by
    refine runEach_similar (fun u hu member _ _ h => ?_) (fun u hu outside _ _ h => ?_) h
    · exact applyUser_similar h (calm u hu) (of_decide_eq_true member)
    · exact applyUser_outside h (calm u hu) fun member => outside (decide_eq_true member)
  refine first.andThen (runEach_similar (fun a _ inside _ _ h => ?_) (fun a ha outside _ _ h => ?_) first.agree)
  · exact applyProtocol_similar h (of_decide_eq_true inside).2
  · exact applyProtocol_outside h (fun inside => outside (decide_eq_true inside)) (shielded a ha)

/-- what a batch calls for, with calm orders, does not let the given nodes receive anything from outside at once -/
theorem guarded_execute {users : List UserAction} (calm : ∀ u ∈ users, Calm u) (shielded : Shielded inner queue) :
    Guarded inner (n.execute users queue).actions := by
  intro b called delivery member
  rcases List.mem_append.1 called with ordered | delivered
  -- what nodes call for by themselves has still to be sent
  · obtain ⟨n, u, hu, hb⟩ := Outcome.exists_of_mem_actions ordered
    obtain ⟨act, same, heeds⟩ := applyUser_of_calm (calm u hu)
    rw [same] at hb
    obtain ⟨st, hb⟩ := exists_of_mem_atNode hb
    rw [((heeds _ st).sends b hb).delivery] at delivery
    exact absurd delivery nofun
  · obtain ⟨n, a, ha, hb⟩ := Outcome.exists_of_mem_actions delivered
    obtain ⟨message, intact⟩ := sent_of_receive hb delivery
    rw [message] at member ⊢
    refine Classical.byContradiction fun outside => ?_
    rw [shielded a ha outside member] at intact
    exact absurd intact nofun

end Network

/-! ## Sessions side by side -/

open Network

variable {inner : NodeSet} {s s' : Session}

/-- sessions that agree on the given nodes and on the hops between them, while none of these is about to receive a message
from outside -/
structure InStep (inner : NodeSet) (s s' : Session) : Prop where
  agree : Agree inner s.network s'.network
  hops : between inner s.pending = between inner s'.pending
  guarded : Guarded inner s.pending
  guarded' : Guarded inner s'.pending

theorem inStep_start (e : Engine) : InStep inner (.start e) (.start e) where
  agree := .refl _
  hops := rfl
  guarded := fun _ ha => absurd ha List.not_mem_nil
  guarded' := fun _ ha => absurd ha List.not_mem_nil

/-- in the round, operators only order votes and trust, and disrupt whatever is sent to the given nodes from outside -/
structure CutOff (inner : NodeSet) (s : Session) (r : Round) : Prop where
  calm : ∀ u ∈ r.orders, Calm u
  disrupted : ∀ a ∈ disruptAt r.lost s.pending, a.delivery = .send → a.message.sender ∉ inner →
    a.message.receiver ∈ inner → a.disrupted = true

/-- in both rounds, the given nodes are cut off, the orders to them are the same, and the same of the hops between them are
disrupted -/
structure MatchedRound (inner : NodeSet) (s s' : Session) (r r' : Round) : Prop where
  cutOff : CutOff inner s r
  cutOff' : CutOff inner s' r'
  orders : ordersTo inner r.orders = ordersTo inner r'.orders
  flags : (between inner (disruptAt r.lost s.pending)).map ProtocolAction.disrupted =
    (between inner (disruptAt r'.lost s'.pending)).map ProtocolAction.disrupted

/-- all rounds of two sessions are matched -/
def Matched (inner : NodeSet) : Session → Session → List (Round × Round) → Prop
  | _, _, [] => True
  | s, s', (r, r') :: rounds => MatchedRound inner s s' r r' ∧ Matched inner (s.round r) (s'.round r') rounds

instance (inner : NodeSet) (s : Session) (r : Round) : Decidable (CutOff inner s r) :=
  decidable_of_iff (_ ∧ _) ⟨fun h => ⟨h.1, h.2⟩, fun h => ⟨h.calm, h.disrupted⟩⟩

instance (inner : NodeSet) (s s' : Session) (r r' : Round) : Decidable (MatchedRound inner s s' r r') :=
  decidable_of_iff (_ ∧ _ ∧ _ ∧ _)
    ⟨fun h => ⟨h.1, h.2.1, h.2.2.1, h.2.2.2⟩, fun h => ⟨h.cutOff, h.cutOff', h.orders, h.flags⟩⟩

instance decidableMatched (inner : NodeSet) :
    (s s' : Session) → (rounds : List (Round × Round)) → Decidable (Matched inner s s' rounds)
  | _, _, [] => .isTrue trivial
  | s, s', (r, r') :: rounds =>
    have := decidableMatched inner (s.round r) (s'.round r') rounds
    inferInstanceAs (Decidable (_ ∧ _))

theorem CutOff.shielded {r : Round} (h : CutOff inner s r) (guarded : Guarded inner s.pending) :
    Shielded inner (disruptAt r.lost s.pending) := by
  intro a ha outside member
  cases delivery : a.delivery with
  | send => exact h.disrupted a ha delivery outside member
  | receive =>
    obtain ⟨b, hb, hop⟩ := hop_of_mem_disruptAt ha
    have sameDelivery : b.delivery = a.delivery := congrArg Prod.fst hop
    have sameMessage : b.message = a.message := congrArg Prod.snd hop
    exact absurd (sameMessage ▸ guarded b hb (sameDelivery.trans delivery) (sameMessage ▸ member)) outside

/-- which hops are between the given nodes does not depend on which are disrupted -/
theorem hops_between_disruptAt (lost : List Nat) (queue : List ProtocolAction) :
    (between inner (disruptAt lost queue)).map ProtocolAction.hop = (between inner queue).map ProtocolAction.hop := by
  have selected (queue : List ProtocolAction) : (between inner queue).map ProtocolAction.hop =
      (queue.map ProtocolAction.hop).filter fun h => h.2.sender ∈ inner ∧ h.2.receiver ∈ inner := by
    rw [List.filter_map]
    rfl
  rw [selected, selected, hops_disruptAt]

theorem eq_of_hops_of_flags {queue queue' : List ProtocolAction}
    (hops : queue.map ProtocolAction.hop = queue'.map ProtocolAction.hop)
    (flags : queue.map ProtocolAction.disrupted = queue'.map ProtocolAction.disrupted) : queue = queue' := by
  have pairs (queue : List ProtocolAction) : queue.map (fun a => (a.hop, a.disrupted)) =
      (queue.map ProtocolAction.hop).zip (queue.map ProtocolAction.disrupted) := List.zip_map'.symm
  have same : queue.map (fun a => (a.hop, a.disrupted)) = queue'.map fun a => (a.hop, a.disrupted) := by
    rw [pairs, pairs, hops, flags]
  refine (List.map_inj_right ?_).1 same
  rintro ⟨d, m, b⟩ ⟨d', m', b'⟩ same
  cases same
  rfl

theorem MatchedRound.hops {r r' : Round} (h : MatchedRound inner s s' r r')
    (same : between inner s.pending = between inner s'.pending) :
    between inner (disruptAt r.lost s.pending) = between inner (disruptAt r'.lost s'.pending) := by
  refine eq_of_hops_of_flags ?_ h.flags
  rw [hops_between_disruptAt, hops_between_disruptAt, same]

/-- **Rounds.** Matched rounds keep sessions in step. -/
theorem InStep.round (h : InStep inner s s') {r r' : Round} (matched : MatchedRound inner s s' r r') :
    InStep inner (s.round r) (s'.round r') := by
  have shielded := matched.cutOff.shielded h.guarded
  have shielded' := matched.cutOff'.shielded h.guarded'
  -- both are compared with what the common part does in the second network
  have left := execute_similar h.agree matched.cutOff.calm shielded
  have right := execute_similar (.refl s'.network) matched.cutOff'.calm shielded'
  rw [← matched.orders, ← matched.hops h.hops] at right
  have similar := left.trans right.symm
  exact ⟨similar.agree, similar.hops, guarded_execute matched.cutOff.calm shielded,
    guarded_execute matched.cutOff'.calm shielded'⟩

theorem InStep.run (h : InStep inner s s') {rounds : List (Round × Round)} (matched : Matched inner s s' rounds) :
    InStep inner (s.run (rounds.map Prod.fst)) (s'.run (rounds.map Prod.snd)) := by
  induction rounds generalizing s s' with
  | nil => exact h
  | cons both rounds ih => exact ih (h.round matched.1) matched.2

theorem Matched.take {rounds : List (Round × Round)} (matched : Matched inner s s' rounds) (i : Nat) :
    Matched inner s s' (rounds.take i) := by
  induction rounds generalizing s s' i with
  | nil => rw [List.take_nil]; exact matched
  | cons both rounds ih =>
    cases i with
    | zero => exact trivial
    | succ i => exact ⟨matched.1, ih matched.2 i⟩

/-! ## Main result -/

/-- **No influence from outside.** Let two sessions start with the same network, with any nodes and links. In each of their
rounds, let operators only order votes and trust, and let all be disrupted that is sent to some nodes from outside; let the
orders to these nodes be the same in both sessions, and the same of the hops between them be disrupted. Then after each of
the rounds these nodes are in the same states in both sessions, and the same messages between them are under way. -/
theorem cut_off_unmoved {e : Engine} {inner : NodeSet} {rounds : List (Round × Round)}
    (matched : Matched inner (.start e) (.start e) rounds) (i : Nat) :
    (∀ key ∈ inner, ((Session.start e).run ((rounds.take i).map Prod.fst)).state? key =
      ((Session.start e).run ((rounds.take i).map Prod.snd)).state? key) ∧
    between inner ((Session.start e).run ((rounds.take i).map Prod.fst)).pending =
      between inner ((Session.start e).run ((rounds.take i).map Prod.snd)).pending := by
  have inStep := (inStep_start e).run (matched.take i)
  exact ⟨inStep.agree.states, inStep.hops⟩

/-- "U" and "W" would both be content with "R" in place of each other -/
def pairAndRival : List Node :=
  [⟨"U", .flat 2 ["U", "W", "R"] (by decide)⟩, ⟨"W", .flat 2 ["U", "W", "R"] (by decide)⟩,
    ⟨"R", .flat 1 ["R"] (by decide)⟩]

def rivalEngine : Engine := .ofSetup ⟨pairAndRival, .bare true false⟩

/-- "U" and "W" vote for one statement, and "U" does not receive all that "W" says; meanwhile "R" votes for another one,
or it follows "U", and whatever it says is lost -/
def rivalRounds : List (Round × Round) :=
  [(⟨[.vote "U" "x", .vote "R" "y"], []⟩, ⟨[.updateQuorumSet "R" (.flat 1 ["U"] (by decide)), .vote "U" "x"], []⟩),
    (⟨[.vote "W" "x"], [2, 3, 4, 5]⟩, ⟨[.vote "W" "x"], []⟩),
    (⟨[], []⟩, ⟨[], []⟩),
    (⟨[], [0]⟩, ⟨[.vote "R" "z"], [0, 4, 5]⟩),
    (⟨[], []⟩, ⟨[], []⟩),
    (⟨[], []⟩, ⟨[], []⟩),
    (⟨[], []⟩, ⟨[], []⟩)]

def rivalSession : Session := (Session.start rivalEngine).run (rivalRounds.map Prod.fst)

def followingSession : Session := (Session.start rivalEngine).run (rivalRounds.map Prod.snd)

/-- it makes a difference to "R" which of the two happens, but none to "U", which comes to confirm the same -/
theorem rivals_unmoved :
    (Engine.bare true false).load pairAndRival [] = .ok rivalEngine ∧
    Matched (.ofList ["U", "W"]) (.start rivalEngine) (.start rivalEngine) rivalRounds ∧
    rivalSession.state? "R" ≠ followingSession.state? "R" ∧ rivalSession.state? "U" = followingSession.state? "U" ∧
    ∃ st, followingSession.state? "U" = some st ∧ st.confirmed = some "x" := by
  have load : (Engine.bare true false).load pairAndRival [] = .ok rivalEngine := by rfl
  have matched : Matched (.ofList ["U", "W"]) (.start rivalEngine) (.start rivalEngine) rivalRounds := by decide +kernel
  have differ : rivalSession.state? "R" ≠ followingSession.state? "R" := by decide +kernel
  have here : followingSession.state? "U" = some ⟨.flat 2 ["U", "W", "R"] (by decide), .confirmed, some "x", some "x",
      some "x", [⟨"x", "U", false⟩, ⟨"x", "W", true⟩, ⟨"x", "U", true⟩], []⟩ := by decide +kernel
  have unmoved := (cut_off_unmoved matched rivalRounds.length).1 "U" (by decide)
  rw [List.take_length] at unmoved
  exact ⟨load, matched, differ, unmoved, _, here, rfl⟩

end FederatedAgreement
