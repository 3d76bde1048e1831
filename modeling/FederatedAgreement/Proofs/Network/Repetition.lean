/-
Repetition: how a node comes to take one vote into account twice. That takes an echo, a message that brings a vote to the
node in whose name it is. A node that receives one before it casts the vote adds it a second time then. The network itself
makes no echoes, since nobody sends a vote to the node that cast it, so operators must have forged one.

Results:
- `undergo_counted`: a vote is there twice only if it was brought to its node early.
- `Session.unechoed_deeds`: where no echo is forged, none is under way.
- `twice_only_by_echo`: **repetition**; votes of others and votes that were not echoed are there once.
-/
import FederatedAgreement.Proofs.Network.Accounts
import FederatedAgreement.Proofs.Network.Reachable
import FederatedAgreement.Proofs.Voting.Counting

namespace FederatedAgreement

open VotingState (Counted Twice)

/-! ## Echoes -/

/-- the message brings a vote to the node in whose name it is -/
def Echo (m : Message) : Prop := m.receiver = m.vote.voter

instance (m : Message) : Decidable (Echo m) := inferInstanceAs (Decidable (_ = _))

theorem Network.ne_of_mem_peersOf {n : Network} {node p : NodeId} (h : p ∈ n.peersOf node) : p ≠ node := by
  have connected := Overlay.mem_peersOf.1 h
  simp only [Overlay.isConnected, Bool.and_eq_true, decide_eq_true_eq] at connected
  exact Ne.symm connected.1.1.1

/-- nobody sends a vote to the node that cast it -/
theorem Occasion.unechoed {n : Network} {o : Occasion} (unforged : ∀ m ∈ o.forged?.toList, ¬ Echo m) :
    ∀ a ∈ o.sends n, ¬ Echo a.message := by
  intro a ha echo
  obtain ⟨p, hp, rfl⟩ := List.mem_map.1 ha
  cases o with
  | forged m =>
    cases List.mem_singleton.1 hp
    exact unforged m (by simp [Occasion.forged?]) echo
  | voted node s => exact Network.ne_of_mem_peersOf hp echo
  | accepted node s g => exact Network.ne_of_mem_peersOf hp echo
  | relayed m =>
    have others := (List.mem_filter.1 hp).2
    simp only [Bool.and_eq_true, decide_eq_true_eq] at others
    exact others.2 echo

theorem Booked.unechoed {seen : List (Network × Event)} {called settled : List ProtocolAction} {forged : List Message}
    (h : Booked seen called settled forged) (given : ∀ a ∈ settled, ¬ Echo a.message)
    (unforged : ∀ m ∈ forged, ¬ Echo m) : ∀ a ∈ called, ¬ Echo a.message := by
  intro a ha
  rcases h.origin ha with ⟨b, hb, _, _, rfl⟩ | ⟨n, o, _, forged, calls⟩
  · exact given b hb
  · exact Occasion.unechoed (fun m hm => unforged m (forged m hm)) a calls

/-! ## Counting in a network -/

namespace Network

variable {n n' : Network} {foretold foretold' : NodeId → Vote → Prop} {allowed : UserAction → Prop}

theorem Turn.counted {key : NodeId} {st st' : VotingState} (t : Turn allowed (fun _ => False) key st st')
    (coherent : st.Coherent key) (h : Counted (foretold key) key st) : Counted (foretold key) key st' := by
  cases t with
  | same => exact h
  | move m => exact m.counted coherent (fun v ⟨_, given, _⟩ => given.elim) h
  | retrust _ => exact h.retrust _

/-- what operators order brings no vote to a node -/
theorem Changes.counted (cs : Changes allowed (fun _ => False) n n') (coherent : Every VotingState.Coherent n)
    (h : Every (fun key => Counted (foretold key) key) n) :
    Every VotingState.Coherent n' ∧ Every (fun key => Counted (foretold key) key) n' := by
  induction cs with
  | refl => exact ⟨coherent, h⟩
  | tail _ c ih =>
    obtain ⟨coherent, counted⟩ := ih
    refine ⟨fun key st' here => ?_, fun key st' here => ?_⟩
    · rcases c.origin here with ⟨st, before, turn⟩ | ⟨q, _, _, rfl⟩
      · exact turn.coherent (coherent key st before)
      · exact VotingState.coherent_fresh key q
    · rcases c.origin here with ⟨st, before, turn⟩ | ⟨q, _, _, rfl⟩
      · exact turn.counted (coherent key st before) (counted key st before)
      · exact VotingState.counted_fresh (foretold key) key q

theorem applyUser_counted (coherent : Every VotingState.Coherent n)
    (h : Every (fun key => Counted (foretold key) key) n) (u : UserAction) :
    Every (fun key => Counted (foretold key) key) (n.applyUser u).state := by
  have ordered : (∃ m, u = .forge m) ∨ ∀ m, u ≠ .forge m := by
    cases u <;> simp
  rcases ordered with ⟨m, rfl⟩ | plain
  · exact h
  · have proceeds : Proceeds (· = u) (fun _ => False) n (n.applyUser u) :=
      applyUser_proceeds rfl fun m forge => plain m forge
    exact (proceeds.changes.counted coherent h).2

/-- a message brings its vote to its receiver, unless it is disrupted -/
theorem applyProtocol_counted (coherent : Every VotingState.Coherent n)
    (h : Every (fun key => Counted (foretold key) key) n) {a : ProtocolAction}
    (early : ∀ st, a.delivery = .receive → a.disrupted = false → n.roster.get? a.message.receiver = some st →
      st.MayCast a.message.vote → foretold a.message.receiver a.message.vote) :
    Every (fun key => Counted (foretold key) key) (n.applyProtocol a).state := by
  unfold applyProtocol
  split
  · exact h
  · next flag =>
    have intact : a.disrupted = false := Bool.not_eq_true _ ▸ flag
    split
    · unfold send
      split <;> exact h
    · next half =>
      unfold receive
      split
      · rcases n.atNode_cases a.message.receiver _ with ⟨unchanged, _⟩ | ⟨st, here, _, changed⟩
        · rw [unchanged]
          exact h
        · rw [changed]
          have acts : VotingState.Acts (· = a.message.vote) (fun _ => False) a.message.receiver st
              (st.receive a.message.receiver (n.peersOf a.message.receiver) n.overlay.gossip a.message) :=
            VotingState.receive_acts rfl
          refine h.put (VotingState.Moves.counted acts.moves (coherent _ st here) ?_ (h _ st here))
          rintro v rfl _ may
          exact early st half intact here may
      · exact h

/-! ## Deeds -/

/-- one of the deeds brings the vote to the node, at a time when the node could still cast it -/
def Foretold (n : Network) (deeds : List Deed) (key : NodeId) (v : Vote) : Prop :=
  ∃ before sender after st, deeds = before ++ .deliver (.receive ⟨sender, key, v⟩) :: after ∧
    (n.undergo before).state.roster.get? key = some st ∧ st.MayCast v

theorem Foretold.append {deeds : List Deed} {key : NodeId} {v : Vote} (h : Foretold n deeds key v) (more : List Deed) :
    Foretold n (deeds ++ more) key v := by
  obtain ⟨before, sender, after, st, rfl, here, may⟩ := h
  exact ⟨before, sender, after ++ more, st, by simp, here, may⟩

theorem undergo_reachable (h : Reachable n) (deeds : List Deed) : Reachable (n.undergo deeds).state := by
  induction deeds generalizing n with
  | nil => exact h
  | cons d deeds ih =>
    rw [undergo_cons]
    cases d with
    | order u => exact ih (.order u h)
    | deliver a => exact ih (.deliver a h)

/-- **Counting.** In what comes about from a network in which nothing is there twice, a vote is there twice only if one of
the deeds brought it to its node early. -/
theorem undergo_counted (reachable : Reachable n) (start : Every (fun key => Counted (Foretold n [] key) key) n)
    (deeds : List Deed) : Every (fun key => Counted (Foretold n deeds key) key) (n.undergo deeds).state := by
  induction deeds using List.reverseRecOn with
  | nil => exact start
  | append_singleton deeds d ih =>
    have coherent : Every VotingState.Coherent (n.undergo deeds).state :=
      fun _ _ here => (undergo_reachable reachable deeds).coherent here
    have earlier : Every (fun key => Counted (Foretold n (deeds ++ [d]) key) key) (n.undergo deeds).state :=
      fun key st here => (ih key st here).mono fun v foretold => foretold.append [d]
    rw [undergo_append]
    cases d with
    | order u => exact applyUser_counted coherent earlier u
    | deliver a =>
      refine applyProtocol_counted coherent earlier fun st half intact here may => ⟨deeds, a.message.sender, [], st, ?_⟩
      obtain ⟨delivery, message, disrupted⟩ := a
      cases half
      cases intact
      exact ⟨rfl, here, may⟩

end Network

open Network

/-! ## Sessions -/

namespace Session

/-- all that is carried out in the course of the rounds -/
def deeds (s : Session) : List Round → List Deed
  | [] => []
  | r :: rounds => Deed.batch r.orders (disruptAt r.lost s.pending) ++ (s.round r).deeds rounds

theorem network_run (s : Session) (rounds : List Round) :
    (s.run rounds).network = (s.network.undergo (s.deeds rounds)).state := by
  induction rounds generalizing s with
  | nil => rfl
  | cons r rounds ih =>
    rw [run_cons, ih, deeds, undergo_append, ← execute_eq_undergo]
    rfl

/-- where no echo is forged, none is under way -/
theorem unechoed_deeds {s : Session} {rounds : List Round} (pending : ∀ a ∈ s.pending, ¬ Echo a.message)
    (unforged : ∀ r ∈ rounds, ∀ m, .forge m ∈ r.orders → ¬ Echo m) :
    ∀ a, .deliver a ∈ s.deeds rounds → ¬ Echo a.message := by
  induction rounds generalizing s with
  | nil => exact fun a ha => absurd ha List.not_mem_nil
  | cons r rounds ih =>
    have given : ∀ a ∈ disruptAt r.lost s.pending, ¬ Echo a.message := by
      intro a ha
      obtain ⟨b, hb, hop⟩ := hop_of_mem_disruptAt ha
      have message : b.message = a.message := congrArg Prod.snd hop
      exact message ▸ pending b hb
    have forged : ∀ m ∈ r.orders.filterMap UserAction.forged?, ¬ Echo m := by
      intro m hm
      obtain ⟨u, hu, forges⟩ := List.mem_filterMap.1 hm
      cases u with
      | forge m' =>
        cases forges
        exact unforged r List.mem_cons_self m hu
      | _ => exact absurd forges nofun
    intro a ha
    rcases List.mem_append.1 ha with now | later
    · have mem : a ∈ (Deed.batch r.orders (disruptAt r.lost s.pending)).filterMap Deed.protocol? :=
        List.mem_filterMap.2 ⟨_, now, rfl⟩
      rw [Deed.protocol_batch] at mem
      exact given a mem
    · exact ih ((s.network.execute_booked r.orders _).unechoed given forged)
        (fun r' hr' => unforged r' (List.mem_cons_of_mem r hr')) a later

end Session

/-! ## Main result -/

/-- **Repetition.** Let anything be carried out in a network that was just loaded, forged messages and messages that nothing
called for included. A node takes every vote into account once at most, except for a vote of its own which it stands behind
and which was brought to it before it cast it; such a vote may be there twice, and no vote is there more often. Where rounds
follow each other, and operators forge no messages that bring a vote to the node in whose name it is, no vote is there
twice. -/
theorem twice_only_by_echo {e loaded : Engine} {nodes : List Node} {links : List (NodeId × NodeId)}
    (load : e.load nodes links = .ok loaded) :
    (∀ (deeds : List Deed) (key : NodeId) (st : VotingState),
      (loaded.network.undergo deeds).state.roster.get? key = some st →
        ∀ v, st.processed.count v ≤ 1 ∨ Twice (Foretold loaded.network deeds key) key st v) ∧
    ∀ rounds : List Round, (∀ r ∈ rounds, ∀ m, .forge m ∈ r.orders → ¬ Echo m) →
      ∀ (key : NodeId) (st : VotingState), ((Session.start loaded).run rounds).state? key = some st →
        st.processed.Nodup := by
  have start : Every (fun key => Counted (Foretold loaded.network [] key) key) loaded.network := by
    intro key st here
    obtain ⟨q, _, rfl⟩ := Engine.get?_load load here
    exact VotingState.counted_fresh _ key q
  have counted := undergo_counted (.load load) start
  refine ⟨fun deeds key st here => (counted deeds key st here).count, fun rounds unforged key st here => ?_⟩
  have unechoed := Session.unechoed_deeds (s := .start loaded) (fun a ha => absurd ha List.not_mem_nil) unforged
  rw [Session.state?, Session.network_run] at here
  rw [List.nodup_iff_count_le_one]
  intro v
  refine ((counted _ key st here).count v).resolve_right fun twice => ?_
  obtain ⟨before, sender, after, _, split, _⟩ := twice.foretold
  refine unechoed (.receive ⟨sender, key, v⟩) ?_ twice.own.symm
  rw [split]
  exact List.mem_append_right _ List.mem_cons_self

def echoPair : List Node := [⟨"A", .flat 2 ["A", "E"] (by decide)⟩, ⟨"E", .flat 2 ["A", "E"] (by decide)⟩]

def echoEngine : Engine := .ofSetup ⟨echoPair, .bare true false⟩

/-- it tells "A" of a vote of its own, which it has still to cast -/
def earlyEcho : Message := ⟨"E", "A", ⟨"x", "A", false⟩⟩

def echoDeeds : List Deed :=
  [.order (.forge earlyEcho), .deliver (.send earlyEcho), .deliver (.receive earlyEcho), .order (.vote "A" "x")]

/-- "A" heard its vote, and then it cast it -/
def echoedState : VotingState :=
  ⟨.flat 2 ["A", "E"] (by decide), .voted, some "x", none, none, [⟨"x", "A", false⟩, ⟨"x", "A", false⟩], []⟩

/-- "E" is made to say what it has not said, but nobody is told what it said itself -/
def slanderRounds : List Round :=
  [⟨[.forge ⟨"Z", "A", ⟨"x", "E", true⟩⟩, .vote "A" "x"], []⟩, ⟨[.forge ⟨"E", "A", ⟨"x", "E", true⟩⟩], [1]⟩,
    ⟨[.vote "E" "y"], []⟩, ⟨[], []⟩]

theorem early_echo_foretold :
    (Engine.bare true false).load echoPair [] = .ok echoEngine ∧
    (echoEngine.network.undergo echoDeeds).state.roster.get? "A" = some echoedState ∧
    Twice (Foretold echoEngine.network echoDeeds "A") "A" echoedState ⟨"x", "A", false⟩ ∧
    ∃ st, ((Session.start echoEngine).run slanderRounds).state? "A" = some st ∧ st.processed.length = 3 ∧
      st.processed.Nodup := by
  have load : (Engine.bare true false).load echoPair [] = .ok echoEngine := by rfl
  have here : (echoEngine.network.undergo echoDeeds).state.roster.get? "A" = some echoedState := by decide +kernel
  obtain ⟨counted, once⟩ := twice_only_by_echo load
  refine ⟨load, here, (counted echoDeeds "A" echoedState here _).resolve_left (by decide +kernel), ?_⟩
  have present : (((Session.start echoEngine).run slanderRounds).state? "A").map (·.processed.length) = some 3 := by
    decide +kernel
  obtain ⟨st, there, length⟩ := Option.map_eq_some_iff.1 present
  refine ⟨st, there, length, once slanderRounds ?_ "A" st there⟩
  simp [slanderRounds, Echo]

/-- so a node can come to take its own vote into account twice -/
theorem early_echo_repeated :
    ¬ ∀ st, ((Session.start echoEngine).run
      [⟨[.forge earlyEcho], []⟩, ⟨[], []⟩, ⟨[], []⟩, ⟨[.vote "A" "x"], []⟩]).state? "A" = some st →
        st.processed.Nodup := by
  intro once
  have twice := once echoedState (by decide +kernel)
  exact absurd twice (by decide +kernel)

end FederatedAgreement
