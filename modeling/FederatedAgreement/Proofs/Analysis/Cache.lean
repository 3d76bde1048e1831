/-
Answers from the cache. The cache knows networks by the texts of their structure. Where names are words, only networks
of alike nodes have the same text, so whatever was asked for before, an answer from the cache finds what a new analysis
finds. Where names have marks in them, two structures can have the same text, and the answer is wrong.

Results:
- `AnalysisCache.Sound.call`: the latest analysis stays one of a network that was asked about.
- `AnalysisCache.answers_fresh`: **an answer is an analysis of a network with the same structure text**, so the cache
  answers as a new analysis does if names are words.
- `AnalysisCache.comma_confused`: the name "A,B" is taken for two names.
-/
import FederatedAgreement.Analysis.Cache
import FederatedAgreement.Proofs.Analysis.Structure

namespace FederatedAgreement

/-- what can be asked of a cache -/
inductive CacheCall where
  | get (nodes : List Node)
  | invalidate

namespace AnalysisCache

variable {c c' : AnalysisCache} {nodes : List Node} {a : Analysis}

/-- what a call leaves, a refused one included -/
def call (c : AnalysisCache) : CacheCall → AnalysisCache
  | .get nodes => ((getInPlace nodes).runOn c).2
  | .invalidate => c.invalidate

/-- the cache after some calls -/
def callAll (c : AnalysisCache) (calls : List CacheCall) : AnalysisCache := calls.foldl call c

/-- an answer is the latest analysis, if it is of a network with this structure, or else a new one, which is kept -/
theorem get_cases (c : AnalysisCache) (nodes : List Node) :
    (∃ a, c.latest = some (structureText nodes, a) ∧ c.get nodes = .ok (c, a)) ∨
    (∃ a, Analysis.ofNodes nodes c.limit = .ok a ∧
      c.get nodes = .ok (⟨c.limit, c.computations + 1, some (structureText nodes, a)⟩, a)) ∨
    ∃ m, Analysis.ofNodes nodes c.limit = .error m ∧ c.get nodes = .error m := by
  unfold get
  dsimp only
  split
  · next latest found =>
    obtain ⟨held, same⟩ := Option.filter_eq_some_iff.1 found
    obtain ⟨text, a⟩ := latest
    have same : text = structureText nodes := by simpa using same
    exact Or.inl ⟨a, same ▸ held, rfl⟩
  · cases made : Analysis.ofNodes nodes c.limit with
    | ok a => exact Or.inr (Or.inl ⟨a, rfl, rfl⟩)
    | error m => exact Or.inr (Or.inr ⟨m, rfl, rfl⟩)

/-! ## What is kept -/

/-- the latest analysis is one of a network that is known, with the structure that is kept with it -/
structure Sound (limit : Int) (known : List Node → Prop) (c : AnalysisCache) : Prop where
  bound : c.limit = limit
  latest : ∀ text a, c.latest = some (text, a) →
    ∃ nodes, known nodes ∧ structureText nodes = text ∧ Analysis.ofNodes nodes limit = .ok a

variable {limit : Int} {known : List Node → Prop}

theorem sound_empty (limit : Int) (known : List Node → Prop) : Sound limit known (empty limit) := ⟨rfl, nofun⟩

theorem Sound.get (h : Sound limit known c) (asked : known nodes) (answered : c.get nodes = .ok (c', a)) :
    Sound limit known c' := by
  rcases c.get_cases nodes with ⟨_, _, held⟩ | ⟨a', made, new⟩ | ⟨_, _, refused⟩
  · cases held.symm.trans answered
    exact h
  · cases new.symm.trans answered
    refine ⟨h.bound, fun text b held => ?_⟩
    obtain ⟨rfl, rfl⟩ := Prod.mk.inj (Option.some.inj held)
    exact ⟨nodes, asked, rfl, h.bound ▸ made⟩
  · cases refused.symm.trans answered

theorem Sound.call (h : Sound limit known c) {q : CacheCall} (asked : ∀ nodes, q = .get nodes → known nodes) :
    Sound limit known (c.call q) := by
  cases q with
  | get nodes =>
    rw [AnalysisCache.call, runOn_getInPlace]
    cases answered : c.get nodes with
    | ok answer => exact h.get (asked nodes rfl) answered
    | error m => exact h
  | invalidate => exact ⟨h.bound, nofun⟩

theorem Sound.callAll (h : Sound limit known c) {calls : List CacheCall}
    (asked : ∀ nodes, .get nodes ∈ calls → known nodes) : Sound limit known (c.callAll calls) := by
  induction calls generalizing c with
  | nil => exact h
  | cons q calls ih =>
    refine ih (h.call fun nodes e => asked nodes (e ▸ List.mem_cons_self)) fun nodes later => ?_
    exact asked nodes (List.mem_cons_of_mem q later)

/-- whatever the names are, an answer is an analysis of the network, or of a known one with the same structure text -/
theorem Sound.answer (h : Sound limit known c) (answered : c.get nodes = .ok (c', a)) :
    ∃ others, (others = nodes ∨ known others) ∧ structureText others = structureText nodes ∧
      Analysis.ofNodes others limit = .ok a := by
  rcases c.get_cases nodes with ⟨_, latest, held⟩ | ⟨_, made, new⟩ | ⟨_, _, refused⟩
  · cases held.symm.trans answered
    obtain ⟨others, before, text, made⟩ := h.latest _ _ latest
    exact ⟨others, Or.inr before, text, made⟩
  · cases new.symm.trans answered
    exact ⟨nodes, Or.inl rfl, rfl, h.bound ▸ made⟩
  · cases refused.symm.trans answered

/-- whatever the names are, what is refused is refused to a new analysis -/
theorem Sound.refused (h : Sound limit known c) {m : Misconfiguration} (refused : c.get nodes = .error m) :
    Analysis.ofNodes nodes limit = .error m := by
  rcases c.get_cases nodes with ⟨_, _, held⟩ | ⟨_, _, new⟩ | ⟨_, fresh, same⟩
  · cases held.symm.trans refused
  · cases new.symm.trans refused
  · cases same.symm.trans refused
    exact h.bound ▸ fresh

/-! ## Words -/

/-- nodes with different keys, all names being words -/
structure Plain (nodes : List Node) : Prop where
  nodup : (nodes.map Node.key).Nodup
  worded : ∀ n ∈ nodes, n.Worded

instance (nodes : List Node) : Decidable (Plain nodes) :=
  decidable_of_iff ((nodes.map Node.key).Nodup ∧ ∀ n ∈ nodes, n.Worded) ⟨fun h => ⟨h.1, h.2⟩, fun h => ⟨h.1, h.2⟩⟩

/-- analyses of plain networks with the same structure text find the same -/
theorem Plain.analysis_congr {others : List Node} (ho : Plain others) (hn : Plain nodes)
    (text : structureText others = structureText nodes) (made : Analysis.ofNodes others limit = .ok a) :
    ∃ b, Analysis.ofNodes nodes limit = .ok b ∧ a.SameFindings b := by
  have alike := (structureText_eq_iff ho.worded hn.worded).1 text
  rcases Analysis.ofNodes_congr ho.nodup alike limit with ⟨m, refused, _⟩ | ⟨a', b, made', fresh, same⟩
  · cases made.symm.trans refused
  · cases made.symm.trans made'
    exact ⟨b, fresh, same⟩

/-! ## Main result -/

/-- **Transparent answers.** Let an empty cache be asked about networks, and be told to forget, in any order, and then
be asked about a network, with any names. An answer is an analysis of this network or of one that was asked about before
and has the same structure text. What is refused is refused to a new analysis for the same reason, and the cache is as it
was, though it is changed as it goes. Where each network has different keys, and all names are words, an answer has the
nodes, the quorums, the minimal quorums, the dispensable sets, the top tier and the verdict on intersection of a new
analysis, and there is no answer exactly when a new analysis is refused. -/
theorem answers_fresh (limit : Int) (calls : List CacheCall) (nodes : List Node) :
    ∃ cache, cache = (empty limit).callAll calls ∧
      (∀ c a, cache.get nodes = .ok (c, a) →
        (getInPlace nodes).runOn cache = (.ok a, c) ∧
        ∃ others, (others = nodes ∨ .get others ∈ calls) ∧ structureText others = structureText nodes ∧
          Analysis.ofNodes others limit = .ok a) ∧
      (∀ m, cache.get nodes = .error m →
        Analysis.ofNodes nodes limit = .error m ∧ (getInPlace nodes).runOn cache = (.error m, cache)) ∧
      ((∀ others, others = nodes ∨ .get others ∈ calls → Plain others) →
        (∀ c a, cache.get nodes = .ok (c, a) → ∃ b, Analysis.ofNodes nodes limit = .ok b ∧ a.SameFindings b) ∧
        ∀ m, cache.get nodes = .error m ↔ Analysis.ofNodes nodes limit = .error m) := by
  have sound : Sound limit (fun others => .get others ∈ calls) ((empty limit).callAll calls) :=
    (sound_empty limit _).callAll fun _ asked => asked
  generalize (empty limit).callAll calls = c at sound
  refine ⟨c, rfl, fun c' a answered => ⟨?_, sound.answer answered⟩, fun m refused => ⟨sound.refused refused, ?_⟩,
    fun plain => ?_⟩
  · rw [runOn_getInPlace, answered]
  · rw [runOn_getInPlace, refused]
  · -- the network that the answer is an analysis of was asked about too, so it is plain
    have answers : ∀ c' a, c.get nodes = .ok (c', a) →
        ∃ b, Analysis.ofNodes nodes limit = .ok b ∧ a.SameFindings b := by
      intro c' a answered
      obtain ⟨others, asked, text, made⟩ := sound.answer answered
      exact (plain others asked).analysis_congr (plain nodes (Or.inl rfl)) text made
    refine ⟨answers, fun m => ⟨sound.refused, fun fresh => ?_⟩⟩
    cases got : c.get nodes with
    | ok answer =>
      obtain ⟨b, made, _⟩ := answers answer.1 answer.2 got
      cases fresh.symm.trans made
    | error m' =>
      have same : m' = m := Except.error.inj ((sound.refused got).symm.trans fresh)
      rw [same]

/-- a node that relies on itself or another one -/
def selfOrOther : List Node := [⟨"A", .flat 1 ["A", "B"] (by decide)⟩]

/-- the same node with its validators in the other order -/
def otherOrSelf : List Node := [⟨"A", .flat 1 ["B", "A"] (by decide)⟩]

/-- the second network is answered from the cache -/
theorem otherOrSelf_answered :
    (∀ others, others = otherOrSelf ∨ .get others ∈ [CacheCall.get selfOrOther] → Plain others) ∧
    ∃ c a b, ((empty 12).callAll [.get selfOrOther]).get otherOrSelf = .ok (c, a) ∧ c.computations = 1 ∧
      Analysis.ofNodes otherOrSelf 12 = .ok b ∧ a.SameFindings b := by
  have plain : ∀ others, others = otherOrSelf ∨ .get others ∈ [CacheCall.get selfOrOther] → Plain others := by
    rintro others (rfl | asked)
    · decide +kernel
    · cases List.mem_singleton.1 asked
      decide +kernel
  have counted : (((empty 12).callAll [.get selfOrOther]).get otherOrSelf).toOption.map (·.1.computations) =
      some 1 := by decide +kernel
  cases answered : ((empty 12).callAll [.get selfOrOther]).get otherOrSelf with
  | error m => simp [answered, Except.toOption] at counted
  | ok answer =>
    obtain ⟨_, rfl, _, _, exact_when_plain⟩ := answers_fresh 12 [.get selfOrOther] otherOrSelf
    obtain ⟨b, made, same⟩ := (exact_when_plain plain).1 answer.1 answer.2 answered
    have once : answer.1.computations = 1 := by simpa [answered, Except.toOption] using counted
    exact ⟨plain, answer.1, answer.2, b, rfl, once, made, same⟩

/-- a node that relies on one node, whose name looks like two names -/
def oneOddOther : List Node := [⟨"A", .flat 1 ["A,B"] (by decide)⟩]

/-- **A confusion.** The text of the second structure is that of the first one, so its quorums are taken to be those of
the first, although it has none. -/
theorem comma_confused :
    (selfOrOther.map Node.key).Nodup ∧ (oneOddOther.map Node.key).Nodup ∧
    ∃ c a b, ((empty 12).callAll [.get selfOrOther]).get oneOddOther = .ok (c, a) ∧
      Analysis.ofNodes oneOddOther 12 = .ok b ∧ a.quorums = [.ofList ["A"]] ∧ b.quorums = [] := by
  have cached : (((empty 12).callAll [.get selfOrOther]).get oneOddOther).toOption.map (·.2.quorums) =
      some [.ofList ["A"]] := by decide +kernel
  have fresh : (Analysis.ofNodes oneOddOther 12).toOption.map Analysis.quorums = some [] := by decide +kernel
  cases answered : ((empty 12).callAll [.get selfOrOther]).get oneOddOther with
  | error m => simp [answered, Except.toOption] at cached
  | ok answer =>
    cases made : Analysis.ofNodes oneOddOther 12 with
    | error m => simp [made, Except.toOption] at fresh
    | ok b =>
      have wrong : answer.2.quorums = [.ofList ["A"]] := by simpa [answered, Except.toOption] using cached
      have none : b.quorums = [] := by simpa [made, Except.toOption] using fresh
      exact ⟨by decide, by decide, answer.1, answer.2, b, rfl, rfl, wrong, none⟩

end AnalysisCache

end FederatedAgreement
