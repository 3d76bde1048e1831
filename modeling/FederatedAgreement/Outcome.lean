/-
Outcomes: what carrying something out leaves behind, which is a new state, the protocol actions that it calls for next,
and the events that could be observed.

Results:
- `runEach_nil`, `runEach_cons`, `runEach_append`: carrying out a list is carrying out its parts one after the other.
- `exists_of_mem_actions`: what a list calls for, one of its elements calls for.
-/
import FederatedAgreement.Action
import FederatedAgreement.Event

namespace FederatedAgreement

/-- a new state with what follows from it and what was seen -/
structure Outcome (σ : Type) where
  state : σ
  actions : List ProtocolAction
  events : List Event

namespace Outcome

variable {σ τ α : Type}

/-- nothing follows and nothing was seen -/
def still (s : σ) : Outcome σ := ⟨s, [], []⟩

/-- a single event was seen, and nothing follows -/
def noting (s : σ) (e : Event) : Outcome σ := ⟨s, [], [e]⟩

/-- the same with the state put into a larger one -/
def map (f : σ → τ) (o : Outcome σ) : Outcome τ := ⟨f o.state, o.actions, o.events⟩

/-- go on from the new state; actions and events of the second part come behind -/
def andThen (o : Outcome σ) (next : σ → Outcome τ) : Outcome τ :=
  let after := next o.state
  ⟨after.state, o.actions ++ after.actions, o.events ++ after.events⟩

/-- carry out a list, one element after the other -/
def runEach (step : σ → α → Outcome σ) (s : σ) : List α → Outcome σ
  | [] => still s
  | a :: as => (step s a).andThen fun s' => runEach step s' as

@[simp] theorem runEach_nil (step : σ → α → Outcome σ) (s : σ) : runEach step s [] = still s := rfl

theorem runEach_cons (step : σ → α → Outcome σ) (s : σ) (a : α) (as : List α) :
    runEach step s (a :: as) = (step s a).andThen fun s' => runEach step s' as := rfl

theorem andThen_assoc {υ : Type} (o : Outcome σ) (f : σ → Outcome τ) (g : τ → Outcome υ) :
    (o.andThen f).andThen g = o.andThen fun s => (f s).andThen g := by
  simp [andThen, List.append_assoc]

theorem still_andThen (s : σ) (f : σ → Outcome τ) : (still s).andThen f = f s := by
  simp [still, andThen]

theorem runEach_append (step : σ → α → Outcome σ) (s : σ) (as bs : List α) :
    runEach step s (as ++ bs) = (runEach step s as).andThen fun s' => runEach step s' bs := by
  induction as generalizing s with
  | nil => rw [List.nil_append, runEach_nil, still_andThen]
  | cons a as ih => rw [List.cons_append, runEach_cons, runEach_cons, andThen_assoc]; simp only [ih]

theorem exists_of_mem_actions {step : σ → α → Outcome σ} {s : σ} {as : List α} {b : ProtocolAction}
    (h : b ∈ (runEach step s as).actions) : ∃ s', ∃ a ∈ as, b ∈ (step s' a).actions := by
  induction as generalizing s with
  | nil => exact absurd h List.not_mem_nil
  | cons a as ih =>
    rcases List.mem_append.1 h with now | later
    · exact ⟨s, a, List.mem_cons_self, now⟩
    · obtain ⟨s', a', ha', hb⟩ := ih later
      exact ⟨s', a', List.mem_cons_of_mem a ha', hb⟩

end Outcome

end FederatedAgreement
