/-
Caches: the latest analysis, worked out again only when the structure of the network has changed.

Result:
- `runOn_getInPlace`: what asking a cache in place does to it.
-/
import FederatedAgreement.Analysis.Report

namespace FederatedAgreement

/-- the latest analysis with the structure that it is of, and how many were worked out -/
structure AnalysisCache where
  limit : Int
  computations : Nat
  latest : Option (String × Analysis)

namespace AnalysisCache

/-- a cache that holds nothing yet -/
def empty (limit : Int) : AnalysisCache := ⟨limit, 0, none⟩

/-- the structure that the cache knows -/
def structure? (c : AnalysisCache) : Option String := c.latest.map Prod.fst

/-- the analysis of a network, with the cache afterwards -/
def get (c : AnalysisCache) (nodes : List Node) : Except Misconfiguration (AnalysisCache × Analysis) :=
  let text := structureText nodes
  match c.latest.filter (·.1 = text) with
  | some latest => .ok (c, latest.2)
  | none => do
    let analysis ← Analysis.ofNodes nodes c.limit
    .ok ({ c with computations := c.computations + 1, latest := some (text, analysis) }, analysis)

/-- the same, in a cache that is changed as it goes: what was worked out is assigned, and then counted -/
def getInPlace (nodes : List Node) : Procedure AnalysisCache Analysis := do
  let text := structureText nodes
  let found ← MonadState.get
  match found.latest.filter (·.1 = text) with
  | some latest => return latest.2
  | none =>
    let analysis ← Procedure.check (Analysis.ofNodes nodes found.limit)
    modify fun c => { c with latest := some (text, analysis) }
    modify fun c => { c with computations := c.computations + 1 }
    return analysis

/-- **In place.** A cache that is asked in place answers as it does otherwise, and a refusal leaves it as it was. -/
theorem runOn_getInPlace (c : AnalysisCache) (nodes : List Node) :
    (getInPlace nodes).runOn c =
      match c.get nodes with
      | .ok (c', analysis) => (.ok analysis, c')
      | .error m => (.error m, c) := by
  unfold getInPlace get
  rw [Procedure.runOn_get_bind]
  dsimp only
  split
  · rfl
  · rw [Procedure.runOn_check_bind]
    cases Analysis.ofNodes nodes c.limit <;> rfl

/-- forget the latest analysis -/
def invalidate (c : AnalysisCache) : AnalysisCache := { c with latest := none }

end AnalysisCache

end FederatedAgreement
