/-
Loading a roster is all or nothing. The checks come one after the other: first the keys, then the validators of each node
at every depth, then the ends of each link, while the new overlay is being built. Only then is one part of the engine
assigned after the other. Carried out on an engine that is changed in place, this either fails and has changed nothing, or
leaves what building an engine of the same nodes and links would, whatever was done to the engine before.

Results:
- `TrustTree.names_iff`: the validators of a tree are those that it names at some depth.
- `Engine.runOn_loadInPlace`: what loading in place does to an engine.
- `Engine.load_isError_iff`: what cannot be loaded.
- `Engine.InMode.callAll`: nothing changes the mode of an engine.
- `Engine.loading_all_or_nothing`: **loading is all or nothing**.
-/
import FederatedAgreement.Proofs.Network.Nodes
import FederatedAgreement.Proofs.Network.Setups

namespace FederatedAgreement

/-! ## Validators at any depth -/

namespace TrustTree

/-- the tree names the validator, at its own level or at one further in -/
inductive Names (v : NodeId) : TrustTree → Prop
  | here {t : Nat} {vs : List NodeId} {qs : List TrustTree} (listed : v ∈ vs) : Names v ⟨t, vs, qs⟩
  | within {t : Nat} {vs : List NodeId} {qs : List TrustTree} {q : TrustTree} (member : q ∈ qs) (named : Names v q) :
      Names v ⟨t, vs, qs⟩

theorem names_iff {v : NodeId} {q : TrustTree} : Names v q ↔ v ∈ q.validatorSet := by
  constructor
  · intro named
    induction named with
    | here listed => exact mem_validatorSet.2 (Or.inl listed)
    | within member _ ih => exact mem_validatorSet.2 (Or.inr ⟨_, member, ih⟩)
  · intro inside
    induction q using induct with
    | step q ih =>
      obtain ⟨t, vs, qs⟩ := q
      rcases mem_validatorSet.1 inside with listed | ⟨r, member, inside⟩
      · exact .here listed
      · exact .within member (ih r member inside)

end TrustTree

/-! ## Loading in place -/

namespace Engine

/-- a node that trusts an unknown one is the end of it -/
def checkNode (known : List NodeId) (node : Node) : Procedure Engine Unit := do
  let unknown := (Setup.unknownTrust known node).toList
  if unknown.isEmpty then return ()
  else throw (.unknownTrust node.key unknown)

/-- look at the ends of a link before it is added -/
def addLink (known : List NodeId) (overlay : Overlay) (link : NodeId × NodeId) : Procedure Engine Overlay := do
  if known.contains link.1 ∧ known.contains link.2 then return (overlay.connect? link.1 link.2).getD overlay
  else throw (.unknownEndpoint link.1 link.2)

/-- load other nodes and links into the engine: the checks come first, the overlay is built while links are checked, and
then one part of the engine is assigned after the other -/
def loadInPlace (nodes : List Node) (links : List (NodeId × NodeId)) : Procedure Engine Unit := do
  let keys := nodes.map Node.key
  if ¬ keys.Nodup then throw (.repeatedNodes keys)
  else
    forM nodes (checkNode keys)
    let before := (← get).setup.overlay
    let overlay ← links.foldlM (addLink keys) (.bare before.fullMesh before.gossip)
    modify fun e => { e with setup := { e.setup with nodes } }
    modify fun e => { e with setup := { e.setup with overlay } }
    modify reset

theorem forM_checkNode (known : List NodeId) (nodes : List Node) :
    forM nodes (checkNode known) = .check (Setup.checkTrust known nodes) := by
  induction nodes with
  | nil => rfl
  | cons n ns ih =>
    rw [List.forM_cons, ih, checkNode, Setup.checkTrust]
    split <;> rfl

theorem foldlM_addLink (known : List NodeId) (overlay : Overlay) (links : List (NodeId × NodeId)) :
    links.foldlM (addLink known) overlay = .check (Setup.addLinks known overlay links) := by
  induction links generalizing overlay with
  | nil => rfl
  | cons l ls ih =>
    rw [List.foldlM_cons, addLink, Setup.addLinks]
    split
    · exact ih _
    · rfl

/-- **In place.** Loading in place ends as loading does, and a failure leaves the engine as it was. -/
theorem runOn_loadInPlace (e : Engine) (nodes : List Node) (links : List (NodeId × NodeId)) :
    (loadInPlace nodes links).runOn e =
      match e.load nodes links with
      | .ok loaded => (.ok (), loaded)
      | .error m => (.error m, e) := by
  unfold loadInPlace load Setup.make
  dsimp only
  split
  · rfl
  · rw [forM_checkNode, Procedure.runOn_check_bind]
    cases Setup.checkTrust (nodes.map Node.key) nodes with
    | error m => rfl
    | ok _ =>
      simp only [foldlM_addLink]
      rw [Procedure.runOn_get_bind, Procedure.runOn_check_bind]
      cases Setup.addLinks (nodes.map Node.key) (.bare e.setup.overlay.fullMesh e.setup.overlay.gossip) links <;> rfl

/-! ## What cannot be loaded -/

/-- what can be wrong with nodes and links: a key is there twice, a node names an unknown validator at some depth, or a
link has an unknown end -/
inductive Faulty (nodes : List Node) (links : List (NodeId × NodeId)) : Prop
  | repeated (twice : ¬ (nodes.map Node.key).Nodup)
  | stranger {n : Node} {v : NodeId} (given : n ∈ nodes) (named : n.quorumSet.tree.Names v)
      (unknown : v ∉ nodes.map Node.key)
  | loose {l : NodeId × NodeId} (given : l ∈ links) (unknown : l.1 ∉ nodes.map Node.key ∨ l.2 ∉ nodes.map Node.key)

variable {e loaded : Engine} {nodes : List Node} {links : List (NodeId × NodeId)}

theorem not_faulty_iff : ¬ Faulty nodes links ↔
    (nodes.map Node.key).Nodup ∧ (∀ n ∈ nodes, ∀ v ∈ n.quorumSet.validatorSet, v ∈ nodes.map Node.key) ∧
      ∀ l ∈ links, l.1 ∈ nodes.map Node.key ∧ l.2 ∈ nodes.map Node.key := by
  constructor
  · intro sound
    refine ⟨Classical.not_not.1 fun twice => sound (.repeated twice), fun n given v inside => ?_, fun l given => ?_⟩
    · exact Classical.not_not.1 fun unknown => sound (.stranger given (TrustTree.names_iff.2 inside) unknown)
    · exact Classical.not_not.1 fun unknown => sound (.loose given (Classical.not_and_iff_not_or_not.1 unknown))
  · rintro ⟨distinct, trust, known⟩ faulty
    cases faulty with
    | repeated twice => exact twice distinct
    | stranger given named unknown => exact unknown (trust _ given _ (TrustTree.names_iff.1 named))
    | loose given unknown => exact unknown.elim (· (known _ given).1) (· (known _ given).2)

theorem load_isOk_iff : (∃ loaded, e.load nodes links = .ok loaded) ↔ ¬ Faulty nodes links := by
  rw [not_faulty_iff]
  constructor
  · rintro ⟨loaded, h⟩
    obtain ⟨setup, made, _⟩ := load_eq_ok_iff.1 h
    obtain ⟨distinct, trust, known, _⟩ := Setup.make_eq_ok_iff.1 made
    exact ⟨distinct, trust, known⟩
  · rintro ⟨distinct, trust, known⟩
    exact ⟨_, load_eq_ok_iff.2 ⟨_, Setup.make_eq_ok_iff.2 ⟨distinct, trust, known, rfl⟩, rfl⟩⟩

theorem load_isError_iff : (∃ m, e.load nodes links = .error m) ↔ Faulty nodes links := by
  rw [← Classical.not_not (a := Faulty nodes links), ← load_isOk_iff (e := e)]
  cases e.load nodes links with
  | error m => exact ⟨fun _ ok => ok.elim fun _ => nofun, fun _ => ⟨m, rfl⟩⟩
  | ok loaded => exact ⟨fun error => error.elim fun _ => nofun, fun ok => absurd ⟨loaded, rfl⟩ ok⟩

/-! ## Engines in use -/

/-- everything that a caller can do to an engine -/
inductive Call where
  | load (nodes : List Node) (links : List (NodeId × NodeId))
  | execute (users : List UserAction) (protocol : List ProtocolAction)
  | send (m : Message)
  | receive (m : Message)
  | reset
  | drain

/-- what a call leaves, a failed one included -/
def call (e : Engine) : Call → Engine
  | .load nodes links => ((loadInPlace nodes links).runOn e).2
  | .execute users protocol => (e.execute users protocol).1
  | .send m => (e.send m).1
  | .receive m => (e.receive m).1
  | .reset => e.reset
  | .drain => e.drain.1

def callAll (e : Engine) (calls : List Call) : Engine := calls.foldl call e

/-- the live overlay and the one at the start are full meshes or not, and have gossip or not -/
structure InMode (fullMesh gossip : Bool) (e : Engine) : Prop where
  setup : e.setup.overlay.SameMode (.bare fullMesh gossip)
  network : e.network.overlay.SameMode (.bare fullMesh gossip)

variable {fullMesh gossip : Bool}

theorem inMode_load (mode : e.InMode fullMesh gossip) (h : e.load nodes links = .ok loaded) :
    loaded.InMode fullMesh gossip := by
  obtain ⟨setup, made, rfl⟩ := load_eq_ok_iff.1 h
  obtain ⟨_, _, _, rfl⟩ := Setup.make_eq_ok_iff.1 made
  have linked := Overlay.sameMode_connectAll (.bare e.setup.overlay.fullMesh e.setup.overlay.gossip) links
  have same := (⟨linked.1.trans mode.setup.1, linked.2.trans mode.setup.2⟩ : Overlay.SameMode _ _)
  exact ⟨same, same⟩

theorem inMode_start (built : start fullMesh gossip nodes links = .ok e) : e.InMode fullMesh gossip := by
  have begun : (bare fullMesh gossip).InMode fullMesh gossip := ⟨⟨rfl, rfl⟩, ⟨rfl, rfl⟩⟩
  unfold start at built
  split at built
  · cases built
    exact begun
  · exact inMode_load begun built

theorem InMode.call (mode : e.InMode fullMesh gossip) (c : Call) : (e.call c).InMode fullMesh gossip := by
  -- messages do not touch the overlay, and batches do not touch its mode
  have delivered : ∀ a : ProtocolAction, (e.network.applyProtocol a).state.overlay.SameMode (.bare fullMesh gossip) := by
    intro a
    rw [(e.network.applyProtocol_steady a).2]
    exact mode.network
  cases c with
  | load nodes links =>
    rw [Engine.call, runOn_loadInPlace]
    cases h : e.load nodes links with
    | error m => exact mode
    | ok loaded => exact inMode_load mode h
  | execute users protocol =>
    have same := e.network.mode_execute users protocol
    exact ⟨mode.setup, same.1.trans mode.network.1, same.2.trans mode.network.2⟩
  | send m => exact ⟨mode.setup, delivered (.send m)⟩
  | receive m => exact ⟨mode.setup, delivered (.receive m)⟩
  | reset => exact ⟨mode.setup, mode.setup⟩
  | drain => exact ⟨mode.setup, mode.network⟩

theorem InMode.callAll (mode : e.InMode fullMesh gossip) (calls : List Call) :
    (e.callAll calls).InMode fullMesh gossip := by
  unfold Engine.callAll
  induction calls generalizing e with
  | nil => exact mode
  | cons c calls ih => exact ih (mode.call c)

/-! ## Main result -/

/-- an engine that was loaded is one that was just built in the same mode, but for the events -/
theorem start_of_load (mode : e.InMode fullMesh gossip) (h : e.load nodes links = .ok loaded) :
    ∃ fresh, start fullMesh gossip nodes links = .ok fresh ∧ loaded = { fresh with buffer := e.buffer } := by
  obtain ⟨setup, made, rfl⟩ := load_eq_ok_iff.1 h
  rw [mode.setup.1, mode.setup.2] at made
  refine ⟨.ofSetup setup, start_eq_ok_iff.2 ?_, rfl⟩
  by_cases none : nodes = []
  · subst none
    -- links are not looked at when an engine is built without nodes, but here there are none
    obtain ⟨_, _, known, rfl⟩ := Setup.make_eq_ok_iff.1 made
    have no_links : links = [] :=
      List.eq_nil_iff_forall_not_mem.2 fun l given => absurd (known l given).1 List.not_mem_nil
    subst no_links
    exact Or.inl ⟨rfl, rfl⟩
  · exact Or.inr ⟨none, setup, made, rfl⟩

/-- **Loading is all or nothing.** Take an engine that was built in some mode, after any calls, failed ones included, and
any nodes and links. Loading them fails exactly when a key is there twice, a node names an unknown validator at any depth,
or a link has an unknown end, in a full mesh too. If it fails, the engine is as it was, though the checks and the
assignments come one after the other. If it does not, the engine is one that was just built of them in the mode that it
has had all along, except that it keeps the events that were not yet collected. -/
theorem loading_all_or_nothing {before : List Node} {linked : List (NodeId × NodeId)}
    (built : start fullMesh gossip before linked = .ok e) (calls : List Call) (nodes : List Node)
    (links : List (NodeId × NodeId)) :
    (e.callAll calls).InMode fullMesh gossip ∧
    ((∃ m, (e.callAll calls).load nodes links = .error m) ↔ Faulty nodes links) ∧
    (∀ m, (e.callAll calls).load nodes links = .error m →
      (loadInPlace nodes links).runOn (e.callAll calls) = (.error m, e.callAll calls)) ∧
    ∀ loaded, (e.callAll calls).load nodes links = .ok loaded →
      (loadInPlace nodes links).runOn (e.callAll calls) = (.ok (), loaded) ∧
      ∃ fresh, start fullMesh gossip nodes links = .ok fresh ∧
        loaded = { fresh with buffer := (e.callAll calls).buffer } := by
  have mode := (inMode_start built).callAll calls
  refine ⟨mode, load_isError_iff, fun m h => ?_, fun loaded h => ⟨?_, start_of_load mode h⟩⟩
  · rw [runOn_loadInPlace, h]
  · rw [runOn_loadInPlace, h]

/-- two nodes that trust each other -/
def couple : List Node := [⟨"e", .flat 1 ["f"] (by decide)⟩, ⟨"f", .flat 1 ["e"] (by decide)⟩]

/-- they are linked, with gossip -/
def linkedCouple : Engine := .ofSetup ⟨couple, ⟨false, true, .ofList [.between "e" "f"]⟩⟩

/-- the first votes -/
def courtship : List Call := [.execute [.vote "e" "x"] []]

/-- a node that names itself, and a stranger one level further in -/
def secretive : List Node := [⟨"g", ⟨⟨1, ["g"], [⟨1, ["Z"], []⟩]⟩, by decide⟩⟩]

/-- the stranger is found, and so is a link to nobody behind a good one; and the couple can start over without a link -/
theorem linkedCouple_loading :
    start false true couple [("f", "e")] = .ok linkedCouple ∧
    (loadInPlace secretive []).runOn (linkedCouple.callAll courtship) =
      (.error (.unknownTrust "g" ["Z"]), linkedCouple.callAll courtship) ∧
    (loadInPlace couple [("e", "f"), ("e", "Q")]).runOn (linkedCouple.callAll courtship) =
      (.error (.unknownEndpoint "e" "Q"), linkedCouple.callAll courtship) ∧
    Faulty couple [("e", "f"), ("e", "Q")] ∧
    ∃ fresh, start false true couple [] = .ok fresh ∧
      (loadInPlace couple []).runOn (linkedCouple.callAll courtship) =
        (.ok (), { fresh with buffer := (linkedCouple.callAll courtship).buffer }) ∧
      (linkedCouple.callAll courtship).buffer ≠ [] := by
  have built : start false true couple [("f", "e")] = .ok linkedCouple := by rfl
  obtain ⟨_, _, kept, _⟩ := loading_all_or_nothing built courtship secretive []
  obtain ⟨_, faulty, kept', _⟩ := loading_all_or_nothing built courtship couple [("e", "f"), ("e", "Q")]
  obtain ⟨_, _, _, taken⟩ := loading_all_or_nothing built courtship couple []
  obtain ⟨done, fresh, again, same⟩ := taken _ rfl
  rw [same] at done
  exact ⟨built, kept _ rfl, kept' _ rfl, faulty.1 ⟨_, rfl⟩, fresh, again, done, by decide +kernel⟩

end Engine

end FederatedAgreement
