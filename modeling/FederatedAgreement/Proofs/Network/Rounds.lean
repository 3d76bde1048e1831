/-
Rounds of an engine: batch after batch, each carrying out what the one before it called for, with orders of operators
added and some of the messages disrupted. What changes keep up together, a property of networks and one of messages,
holds after any number of rounds.

Results:
- `LogInvariant.run`: what single actions keep up, rounds keep up, unless it matters that messages are disrupted.
- `Invariant.run`: an invariant of changes is kept by any number of rounds.
- `get?_load`: after loading, every node of the network is one that was loaded, and has heard and said nothing.
-/
import FederatedAgreement.Engine
import FederatedAgreement.Proofs.Network.Queue

namespace FederatedAgreement

/-! ## Rounds -/

/-- what is added to the pending actions of a round: orders of operators, and the places of the disrupted actions -/
structure Round where
  orders : List UserAction
  lost : List Nat
deriving DecidableEq, Repr

/-- the same actions, those at the given places disrupted -/
def disruptAt (lost : List Nat) (actions : List ProtocolAction) : List ProtocolAction :=
  actions.mapIdx fun i a => if i ∈ lost then { a with disrupted := true } else a

theorem disruptAt_nil (actions : List ProtocolAction) : disruptAt [] actions = actions := by
  simp [disruptAt, List.mapIdx_eq_zipIdx_map]

/-- the half of a hop that the action is, whether or not it is disrupted -/
def ProtocolAction.hop (a : ProtocolAction) : Delivery × Message := (a.delivery, a.message)

theorem hops_disruptAt (lost : List Nat) (actions : List ProtocolAction) :
    (disruptAt lost actions).map ProtocolAction.hop = actions.map ProtocolAction.hop := by
  refine List.ext_getElem (by simp [disruptAt]) fun i _ _ => ?_
  simp only [disruptAt, List.getElem_map, List.getElem_mapIdx]
  split <;> rfl

theorem hop_of_mem_disruptAt {lost : List Nat} {actions : List ProtocolAction} {a : ProtocolAction}
    (h : a ∈ disruptAt lost actions) : ∃ b ∈ actions, b.hop = a.hop := by
  have mem : a.hop ∈ (disruptAt lost actions).map ProtocolAction.hop := List.mem_map_of_mem h
  rw [hops_disruptAt] at mem
  exact List.mem_map.1 mem

/-- an engine with the protocol actions that its last batch called for -/
structure Session where
  engine : Engine
  pending : List ProtocolAction

namespace Session

/-- nothing has been carried out yet -/
def start (engine : Engine) : Session := ⟨engine, []⟩

/-- carry out the pending actions together with the orders -/
def round (s : Session) (r : Round) : Session :=
  let (engine, pending) := s.engine.execute r.orders (disruptAt r.lost s.pending)
  ⟨engine, pending⟩

def run (s : Session) (rounds : List Round) : Session := rounds.foldl round s

theorem run_cons (s : Session) (r : Round) (rounds : List Round) : s.run (r :: rounds) = (s.round r).run rounds := rfl

def network (s : Session) : Network := s.engine.network

/-- the state of a node -/
def state? (s : Session) (key : NodeId) : Option VotingState := s.network.roster.get? key

/-- what is seen in the course of the rounds -/
def events (s : Session) : List Round → List Event
  | [] => []
  | r :: rounds => (s.network.execute r.orders (disruptAt r.lost s.pending)).events ++ (s.round r).events rounds

end Session

/-! ## Invariants of rounds -/

namespace Network

variable {allowed : UserAction → Prop}

namespace LogInvariant

variable {R : Network → List ProtocolAction → List Event → Prop}
  {s : Session} {rounds : List Round}

/-- **Rounds.** What single actions keep up of a network, of the protocol actions under way and of the events so far,
rounds keep up whose orders are allowed, if it does not mind their disruptions. -/
theorem run (I : LogInvariant allowed R) (log : List Event) (ordered : ∀ r ∈ rounds, ∀ a ∈ r.orders, allowed a)
    (disrupted : ∀ r ∈ rounds, ∀ {n queue log}, R n queue log → R n (disruptAt r.lost queue) log)
    (h : R s.network s.pending log) : R (s.run rounds).network (s.run rounds).pending (log ++ s.events rounds) := by
  induction rounds generalizing s log with
  | nil =>
    rw [Session.events, List.append_nil]
    exact h
  | cons r rounds ih =>
    have batch := I.execute log (ordered r List.mem_cons_self) (disrupted r List.mem_cons_self h)
    rw [Session.run_cons, Session.events, ← List.append_assoc]
    exact ih _ (fun r' hr' => ordered r' (List.mem_cons_of_mem r hr'))
      (fun r' hr' => disrupted r' (List.mem_cons_of_mem r hr')) batch

/-- where no message is lost, there are no disruptions to mind -/
theorem run_intact (I : LogInvariant allowed R) (log : List Event)
    (ordered : ∀ r ∈ rounds, ∀ a ∈ r.orders, allowed a) (kept : ∀ r ∈ rounds, r.lost = [])
    (h : R s.network s.pending log) :
    R (s.run rounds).network (s.run rounds).pending (log ++ s.events rounds) := by
  refine I.run log ordered (fun r hr n queue log before => ?_) h
  rw [kept r hr, disruptAt_nil]
  exact before

end LogInvariant

theorem QueueInvariant.run_intact {P : Network → List ProtocolAction → Prop} (I : QueueInvariant allowed P) {s : Session}
    {rounds : List Round} (ordered : ∀ r ∈ rounds, ∀ a ∈ r.orders, allowed a) (kept : ∀ r ∈ rounds, r.lost = [])
    (h : P s.network s.pending) : P (s.run rounds).network (s.run rounds).pending :=
  I.logged.run_intact [] ordered kept h

namespace Invariant

variable {Holds : Network → Prop} {Good : Network → Message → Prop}

/-- **Rounds.** What holds at the start of a session holds after any rounds whose orders are allowed. -/
theorem run (I : Invariant allowed Holds Good) {s : Session} {rounds : List Round}
    (ordered : ∀ r ∈ rounds, ∀ a ∈ r.orders, allowed a) (h : Holds s.engine.network)
    (pending : ∀ a ∈ s.pending, Good s.engine.network a.message) :
    Holds (s.run rounds).engine.network ∧
      ∀ a ∈ (s.run rounds).pending, Good (s.run rounds).engine.network a.message := by
  refine I.queued.logged.run [] ordered ?_ ⟨h, pending⟩
  rintro r _ n queue _ ⟨holds, good⟩
  refine ⟨holds, fun a ha => ?_⟩
  obtain ⟨b, hb, e⟩ := hop_of_mem_disruptAt ha
  have message : b.message = a.message := congrArg Prod.snd e
  exact message ▸ good b hb

/-- what holds of a network that has nothing under way holds after any rounds -/
theorem run_start (I : Invariant allowed Holds Good) {e : Engine} {rounds : List Round}
    (ordered : ∀ r ∈ rounds, ∀ a ∈ r.orders, allowed a) (h : Holds e.network) :
    Holds ((Session.start e).run rounds).network := by
  have pending : ∀ a ∈ (Session.start e).pending, Good e.network a.message :=
    fun a ha => absurd ha List.not_mem_nil
  exact (I.run ordered h pending).1

end Invariant

end Network

/-! ## Loading -/

namespace Engine

variable {e loaded : Engine} {nodes : List Node} {links : List (NodeId × NodeId)}

theorem load_network (h : e.load nodes links = .ok loaded) :
    loaded.network = .ofNodes nodes loaded.setup.overlay := by
  unfold load Setup.make at h
  simp only [bind, Except.bind] at h
  grind [reset, Setup.network]

theorem keys_nodup_of_load (h : e.load nodes links = .ok loaded) : (nodes.map Node.key).Nodup := by
  unfold load Setup.make at h
  simp only [bind, Except.bind] at h
  grind

/-- after loading, the nodes of the network are those that were loaded, in their order -/
theorem keys_load (h : e.load nodes links = .ok loaded) : loaded.network.keys = nodes.map Node.key := by
  have keys : (nodes.map fun n => (n.key, VotingState.fresh n.quorumSet)).map Prod.fst = nodes.map Node.key := by simp
  have nodup := keys_nodup_of_load h
  rw [← keys] at nodup
  rw [load_network h, Network.keys, Network.ofNodes, Roster.keys, Roster.entries_ofList nodup, keys]

/-- after loading, every node of the network is one that was loaded, and has heard and said nothing -/
theorem get?_load (h : e.load nodes links = .ok loaded) {key : NodeId} {st : VotingState}
    (here : loaded.network.roster.get? key = some st) : ∃ q, ⟨key, q⟩ ∈ nodes ∧ st = .fresh q := by
  rw [load_network h] at here
  obtain ⟨node, hn, e⟩ := List.mem_map.1 (Roster.mem_of_get?_ofList here)
  cases e
  exact ⟨node.quorumSet, hn, rfl⟩

/-- after loading, nobody has heard or said anything -/
theorem not_holds_load (h : e.load nodes links = .ok loaded) {key : NodeId} {st : VotingState}
    (here : loaded.network.roster.get? key = some st) (v : Vote) : ¬ st.Holds v := by
  obtain ⟨q, _, rfl⟩ := get?_load h here
  exact VotingState.not_holds_fresh q v

end Engine

end FederatedAgreement
