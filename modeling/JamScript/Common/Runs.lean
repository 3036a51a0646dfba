import Mathlib.Data.List.Basic

/-!
# Runs of a state machine

A machine with a total step function is run on a list of events. `Throughout P` says that `P` holds
of every state of a run together with the event that happens there. A property of single steps that
depends on the past is proved from an invariant: `Throughout.of_invariant`.
-/

namespace Runs

variable {σ ε : Type} (step : σ → ε → σ)

def run (s : σ) (events : List ε) : σ :=
  events.foldl step s

/-- `P` holds wherever an event of the run happens. -/
def Throughout (P : σ → ε → Prop) : σ → List ε → Prop
  | _, [] => True
  | s, event :: events => P s event ∧ Throughout P (step s event) events

instance decidableThroughout (P : σ → ε → Prop) [∀ s event, Decidable (P s event)] :
    (s : σ) → (events : List ε) → Decidable (Throughout step P s events)
  | _, [] => .isTrue trivial
  | s, event :: events =>
    @instDecidableAnd _ _ _ (decidableThroughout P (step s event) events)

variable {step} {P Q : σ → ε → Prop}

/-- Along a run on which `P` holds, an invariant that steps with `P` keep gives `Q`. -/
theorem Throughout.of_invariant {I : σ → Prop} (hkeep : ∀ s event, I s → P s event →
    I (step s event))
    (hconclude : ∀ s event, I s → P s event → Q s event) :
    ∀ {s : σ} {events : List ε}, I s → Throughout step P s events → Throughout step Q s events
  | _, [], _, _ => trivial
  | _, _ :: _, hs, ⟨hP, hrest⟩ =>
    ⟨hconclude _ _ hs hP, of_invariant hkeep hconclude (hkeep _ _ hs hP) hrest⟩

theorem Throughout.and : ∀ {s : σ} {events : List ε}, Throughout step P s events →
    Throughout step Q s events →
    Throughout step (fun s event => P s event ∧ Q s event) s events
  | _, [], _, _ => trivial
  | _, _ :: _, ⟨hP, hPs⟩, ⟨hQ, hQs⟩ => ⟨⟨hP, hQ⟩, hPs.and hQs⟩

end Runs
