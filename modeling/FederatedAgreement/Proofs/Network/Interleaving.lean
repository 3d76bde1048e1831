/-
Interleavings: how far the order of a batch matters. A protocol action reads who is there and who is linked with whom,
which no protocol action changes, and it reads and changes the state of the node to which it brings a message, if it brings
one. So two actions that do not bring messages to the same node can change places: what is left is the same, and the same
is called for and seen, in another order. A batch thus comes to the same in every order in which each node receives its
messages in their order.

Results:
- `Outcome.runEach_rearranged`: lists come to the same that differ in the order of elements that can change places.
- `applyProtocol_congr`, `applyProtocol_elsewhere`: what a protocol action depends on, and what it leaves alone.
- `applyProtocol_commute`: protocol actions that bring nothing to the same node can change places.
- `only_arrivals_ordered`: **only the order of arrival at each node matters** within a batch.
-/
import FederatedAgreement.Proofs.Network.Isolation

namespace FederatedAgreement

open Sorting (SortedSet)

/-! ## Outcomes up to order -/

namespace Outcome

variable {σ τ α κ : Type} {o o' o'' : Outcome σ}

/-- the same state is left, and the same is called for and seen, if perhaps in another order -/
structure Alike (o o' : Outcome σ) : Prop where
  state : o.state = o'.state
  actions : o.actions.Perm o'.actions
  events : o.events.Perm o'.events

theorem Alike.refl (o : Outcome σ) : Alike o o := ⟨rfl, .refl _, .refl _⟩

theorem Alike.symm (h : Alike o o') : Alike o' o := ⟨h.state.symm, h.actions.symm, h.events.symm⟩

theorem Alike.trans (h : Alike o o') (h' : Alike o' o'') : Alike o o'' :=
  ⟨h.state.trans h'.state, h.actions.trans h'.actions, h.events.trans h'.events⟩

theorem Alike.andThen (h : Alike o o') {next next' : σ → Outcome τ} (h' : ∀ s, Alike (next s) (next' s)) :
    Alike (o.andThen next) (o'.andThen next') := by
  have later := h' o'.state
  unfold Outcome.andThen
  rw [h.state]
  exact ⟨later.state, h.actions.append later.actions, h.events.append later.events⟩

variable {step : σ → α → Outcome σ} {a b : α} {as bs cs : List α}

/-- the two elements can change places -/
def Commute (step : σ → α → Outcome σ) (a b : α) : Prop :=
  ∀ s, Alike ((step s a).andThen (step · b)) ((step s b).andThen (step · a))

/-- an element that can change places with each of some others can go before all of them -/
theorem runEach_move_front (comm : ∀ b ∈ bs, Commute step b a) (s : σ) :
    Alike (runEach step s (bs ++ a :: cs)) (runEach step s (a :: (bs ++ cs))) := by
  induction bs generalizing s with
  | nil => exact .refl _
  | cons b bs ih =>
    have rest := ih fun b' hb' => comm b' (List.mem_cons_of_mem b hb')
    have moved : Alike (runEach step s (b :: (bs ++ a :: cs))) (runEach step s (b :: a :: (bs ++ cs))) := by
      rw [runEach_cons, runEach_cons]
      exact (Alike.refl _).andThen rest
    have changed : Alike (runEach step s (b :: a :: (bs ++ cs))) (runEach step s (a :: b :: (bs ++ cs))) := by
      simp only [runEach_cons, ← andThen_assoc]
      exact (comm b List.mem_cons_self s).andThen fun _ => .refl _
    exact moved.trans changed

section lanes
variable {p : α → Bool} {before after : List α}

/-- where an element that passes a test comes first, none that passes it has come before -/
theorem filter_before_eq_nil (pa : p a = true) (new : a ∉ before)
    (same : (a :: as).filter p = (before ++ a :: after).filter p) : before.filter p = [] := by
  rw [List.filter_cons_of_pos pa, List.filter_append] at same
  cases first : before.filter p with
  | nil => rfl
  | cons b rest =>
    rw [first] at same
    have there : b ∈ before := (List.mem_filter.1 (first ▸ List.mem_cons_self)).1
    exact absurd ((List.cons.inj same).1 ▸ there) new

/-- what passes a test is the same in both lists without their first `a` -/
theorem filter_rest_eq (new : a ∉ before) (same : (a :: as).filter p = (before ++ a :: after).filter p) :
    as.filter p = (before ++ after).filter p := by
  by_cases pa : p a = true
  · have none := filter_before_eq_nil pa new same
    rw [List.filter_append, none, List.filter_cons_of_pos pa, List.filter_cons_of_pos pa] at same
    rw [List.filter_append, none]
    exact (List.cons.inj same).2
  · rwa [List.filter_append, List.filter_cons_of_neg pa, List.filter_cons_of_neg pa, ← List.filter_append] at same

/-- **Rearranged lists.** Let elements be on lanes, and let any two elements change places that share no lane. Then lists
of the same elements come to the same in which each lane has its elements in the same order. -/
theorem runEach_rearranged {on : κ → α → Bool} (apart : ∀ a b, (∀ k, on k a = true → on k b ≠ true) → Commute step a b)
    (perm : as.Perm bs) (order : ∀ k, as.filter (on k) = bs.filter (on k)) (s : σ) :
    Alike (runEach step s as) (runEach step s bs) := by
  induction as generalizing s bs with
  | nil =>
    rw [List.nil_perm.1 perm]
    exact .refl _
  | cons a as ih =>
    obtain ⟨before, after, rfl, new⟩ := List.eq_append_cons_of_mem (perm.mem_iff.1 List.mem_cons_self)
    have front : Alike (runEach step s (before ++ a :: after)) (runEach step s (a :: (before ++ after))) := by
      refine runEach_move_front (fun b hb => apart b a fun k onb ona => ?_) s
      have there : b ∈ before.filter (on k) := List.mem_filter.2 ⟨hb, onb⟩
      rw [filter_before_eq_nil ona new (order k)] at there
      exact absurd there List.not_mem_nil
    refine Alike.trans ?_ front.symm
    rw [runEach_cons, runEach_cons]
    exact (Alike.refl _).andThen
      (ih (perm.trans List.perm_middle).cons_inv fun k => filter_rest_eq new (order k))

end lanes

end Outcome

/-! ## What protocol actions depend on -/

/-- the node to which the action brings a message, or would if it were not disrupted -/
def ProtocolAction.recipient? (a : ProtocolAction) : Option NodeId :=
  match a.delivery with
  | .send => none
  | .receive => some a.message.receiver

namespace Network

variable {inner : NodeSet} {n n' : Network} {a b : ProtocolAction} {key : NodeId}

theorem eq_of_states (keys : n.keys = n'.keys) (overlay : n.overlay = n'.overlay)
    (states : ∀ key, n.roster.get? key = n'.roster.get? key) : n = n' := by
  obtain ⟨roster, links⟩ := n
  obtain ⟨roster', links'⟩ := n'
  cases overlay
  cases Roster.ext_get? keys states
  rfl

/-- networks that agree on the given nodes, with the same actions called for and the same events seen -/
structure Concordant (inner : NodeSet) (o o' : Outcome Network) : Prop where
  agree : Agree inner o.state o'.state
  actions : o.actions = o'.actions
  events : o.events = o'.events

theorem atNode_congr (h : Agree inner n n') (member : key ∈ inner) (act : VotingState → Outcome VotingState) :
    Concordant inner (n.atNode key act) (n'.atNode key act) := by
  refine ⟨(atNode_similar h member act).agree, ?_, ?_⟩ <;>
  · unfold atNode
    rw [h.states key member]
    split <;> rfl

/-- a protocol action depends on who is there, on the links, and on the state of the node to which it brings a message -/
theorem applyProtocol_congr (h : Agree inner n n') (member : ∀ key, a.recipient? = some key → key ∈ inner) :
    Concordant inner (n.applyProtocol a) (n'.applyProtocol a) := by
  unfold applyProtocol
  split
  · exact ⟨h, rfl, rfl⟩
  · split
    · unfold send
      simp only [h.mem_iff a.message.sender, h.overlay, h.keys]
      split <;> exact ⟨h, rfl, rfl⟩
    · next delivery =>
      have brought : a.recipient? = some a.message.receiver := by rw [ProtocolAction.recipient?, delivery]
      unfold receive
      simp only [h.mem_iff a.message.receiver, h.peersOf, h.overlay]
      split
      · exact atNode_congr h (member _ brought) _
      · exact ⟨h, rfl, rfl⟩

/-- a protocol action leaves the states of all nodes alone to which it does not bring a message -/
theorem applyProtocol_elsewhere (other : a.recipient? ≠ some key) :
    (n.applyProtocol a).state.roster.get? key = n.roster.get? key := by
  rcases n.applyProtocol_cases a with ⟨unchanged, _⟩ | ⟨_, unchanged, _⟩ | ⟨delivery, received⟩
  · rw [unchanged]
  · rw [unchanged]
  · have apart : key ≠ a.message.receiver := by
      rintro rfl
      exact other (by rw [ProtocolAction.recipient?, delivery])
    rw [received]
    rcases n.atNode_cases a.message.receiver _ with ⟨unchanged, _⟩ | ⟨_, _, _, changed⟩
    · rw [unchanged]
    · rw [changed, Roster.get?_put, if_neg apart]

/-- what is carried out first does not matter to an action that brings nothing to the same node -/
theorem applyProtocol_after (apart : ∀ key, b.recipient? = some key → a.recipient? ≠ some key) :
    Concordant (SortedSet.ofList b.recipient?.toList) ((n.applyProtocol a).state.applyProtocol b) (n.applyProtocol b) := by
  have member : ∀ key, key ∈ SortedSet.ofList b.recipient?.toList ↔ b.recipient? = some key := by
    simp
  have steady := n.applyProtocol_steady a
  have agree : Agree (SortedSet.ofList b.recipient?.toList) (n.applyProtocol a).state n :=
    ⟨steady.1, steady.2, fun key hk => applyProtocol_elsewhere (apart key ((member key).1 hk))⟩
  exact applyProtocol_congr agree fun key brought => (member key).2 brought

/-- of two actions that bring nothing to the same node, each leaves its own mark -/
theorem get?_applyProtocol_after (apart : ∀ key, b.recipient? = some key → a.recipient? ≠ some key) (key : NodeId) :
    ((n.applyProtocol a).state.applyProtocol b).state.roster.get? key =
      if b.recipient? = some key then (n.applyProtocol b).state.roster.get? key
      else (n.applyProtocol a).state.roster.get? key := by
  split
  · next brought => exact (applyProtocol_after apart).agree.states key (by simp [brought])
  · next other => exact applyProtocol_elsewhere other

/-- in whichever order two actions are carried out that bring nothing to the same node, the same network is left -/
theorem state_applyProtocol_comm (apart : ∀ key, a.recipient? = some key → b.recipient? ≠ some key) :
    ((n.applyProtocol a).state.applyProtocol b).state = ((n.applyProtocol b).state.applyProtocol a).state := by
  have apart' : ∀ key, b.recipient? = some key → a.recipient? ≠ some key := fun key hb ha => apart key ha hb
  have first := n.applyProtocol_steady a
  have first' := n.applyProtocol_steady b
  have second := (n.applyProtocol a).state.applyProtocol_steady b
  have second' := (n.applyProtocol b).state.applyProtocol_steady a
  refine eq_of_states ?_ ?_ fun key => ?_
  · exact (second.1.trans first.1).trans (second'.1.trans first'.1).symm
  · exact (second.2.trans first.2).trans (second'.2.trans first'.2).symm
  · rw [get?_applyProtocol_after apart', get?_applyProtocol_after apart]
    by_cases ha : a.recipient? = some key
    · rw [if_neg (apart key ha), if_pos ha]
    · by_cases hb : b.recipient? = some key
      · rw [if_pos hb, if_neg ha]
      · rw [if_neg hb, if_neg ha, applyProtocol_elsewhere ha, applyProtocol_elsewhere hb]

/-- **Places.** Protocol actions that do not bring messages to the same node can change places. -/
theorem applyProtocol_commute (apart : ∀ key, a.recipient? = some key → b.recipient? ≠ some key) :
    Outcome.Commute applyProtocol a b := by
  intro n
  have later := applyProtocol_after (n := n) fun key hb ha => apart key ha hb
  have later' := applyProtocol_after (n := n) apart
  refine ⟨state_applyProtocol_comm apart, ?_, ?_⟩
  · show ((n.applyProtocol a).actions ++ ((n.applyProtocol a).state.applyProtocol b).actions).Perm
      ((n.applyProtocol b).actions ++ ((n.applyProtocol b).state.applyProtocol a).actions)
    rw [later.actions, later'.actions]
    exact List.perm_append_comm
  · show ((n.applyProtocol a).events ++ ((n.applyProtocol a).state.applyProtocol b).events).Perm
      ((n.applyProtocol b).events ++ ((n.applyProtocol b).state.applyProtocol a).events)
    rw [later.events, later'.events]
    exact List.perm_append_comm

end Network

/-! ## Main result -/

open Network

/-- the actions that bring messages to a node, in their order -/
def arrivals (key : NodeId) (protocol : List ProtocolAction) : List ProtocolAction :=
  protocol.filter (·.recipient? = some key)

/-- **Only the order of arrival at each node matters.** Let two batches have the same orders of operators, and the same
protocol actions, disrupted or not, in two orders in which each node receives its messages in the same order. Then in any
network they leave the same nodes, in the same states, with the same links between them, and the same actions are called
for and the same events seen, if perhaps in another order. -/
theorem only_arrivals_ordered (n : Network) (users : List UserAction) {protocol protocol' : List ProtocolAction}
    (perm : protocol.Perm protocol') (order : ∀ key, arrivals key protocol = arrivals key protocol') :
    (n.execute users protocol).state = (n.execute users protocol').state ∧
    (n.execute users protocol).actions.Perm (n.execute users protocol').actions ∧
    (n.execute users protocol).events.Perm (n.execute users protocol').events := by
  have same : Outcome.Alike (n.execute users protocol) (n.execute users protocol') :=
    (Outcome.Alike.refl _).andThen fun n' =>
      Outcome.runEach_rearranged (fun _ _ apart => applyProtocol_commute (by simpa using apart)) perm order n'
  exact ⟨same.state, same.actions, same.events⟩

/-- three nodes with gossip, each content with any two of them -/
def gossips : Network :=
  .ofNodes (["F", "G", "H"].map fun key => ⟨key, .flat 2 ["F", "G", "H"] (by decide)⟩) (.bare true true)

/-- two votes for "F", which make it accept, one for "G", one that is lost on its way, and one for a stranger -/
def rush : List ProtocolAction :=
  [.receive ⟨"G", "F", ⟨"x", "G", false⟩⟩, .receive ⟨"H", "F", ⟨"x", "H", false⟩⟩,
    .receive ⟨"F", "G", ⟨"y", "F", false⟩⟩, ⟨.send, ⟨"H", "G", ⟨"x", "H", false⟩⟩, true⟩,
    .receive ⟨"H", "Z", ⟨"x", "H", false⟩⟩]

/-- the same actions, the votes for "F" in the same order -/
def rushAgain : List ProtocolAction :=
  [.receive ⟨"F", "G", ⟨"y", "F", false⟩⟩, .receive ⟨"H", "Z", ⟨"x", "H", false⟩⟩,
    .receive ⟨"G", "F", ⟨"x", "G", false⟩⟩, ⟨.send, ⟨"H", "G", ⟨"x", "H", false⟩⟩, true⟩,
    .receive ⟨"H", "F", ⟨"x", "H", false⟩⟩]

/-- other things are seen first, but "F" accepts, and what it and "G" pass on is the same -/
theorem gossips_undisturbed :
    rush.Perm rushAgain ∧ (∀ key, arrivals key rush = arrivals key rushAgain) ∧
    (gossips.execute [] rush).state = (gossips.execute [] rushAgain).state ∧
    (gossips.execute [] rush).actions.Perm (gossips.execute [] rushAgain).actions ∧
    (gossips.execute [] rush).events.Perm (gossips.execute [] rushAgain).events ∧
    (gossips.execute [] rush).events.map Event.target ≠ (gossips.execute [] rushAgain).events.map Event.target ∧
    (gossips.execute [] rush).actions ≠ (gossips.execute [] rushAgain).actions := by
  have perm : rush.Perm rushAgain := by decide
  have order : ∀ key, arrivals key rush = arrivals key rushAgain := by
    intro key
    by_cases atF : key = "F"
    · subst atF
      decide
    · by_cases atG : key = "G"
      · subst atG
        decide
      · simp [arrivals, rush, rushAgain, ProtocolAction.recipient?, ProtocolAction.receive, List.filter_cons,
          Ne.symm atF, Ne.symm atG]
  obtain ⟨state, actions, events⟩ := only_arrivals_ordered gossips [] perm order
  exact ⟨perm, order, state, actions, events, by decide +kernel, by decide +kernel⟩

end FederatedAgreement
