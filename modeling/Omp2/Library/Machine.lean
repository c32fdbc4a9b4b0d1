import Mathlib.Order.Defs.Unbundled

/-!
# Runs of deterministic machines

A machine is a step function from a state and an input to the next state; everything the
outside world decides about a step is part of its input. `run` feeds a list of inputs to the
machine and `Along` says that every step of a run meets a condition on the state and input it
starts from. The rules carry a property from one step to a whole run.
-/

namespace Omp2.Machine

variable {S I : Type*}

/-- The state after a list of inputs. -/
def run (step : S → I → S) (s : S) (inputs : List I) : S :=
  inputs.foldl step s

/-- Every step of the run starts from a state and an input that meet the condition. -/
def Along (step : S → I → S) (ok : S → I → Prop) : S → List I → Prop
  | _, [] => True
  | s, input :: rest => ok s input ∧ Along step ok (step s input) rest

variable {step : S → I → S} {ok : S → I → Prop} {s : S}

@[simp] theorem run_nil : run step s [] = s := rfl

@[simp] theorem run_cons (input : I) (rest : List I) :
    run step s (input :: rest) = run step (step s input) rest := rfl

theorem run_append (first second : List I) :
    run step s (first ++ second) = run step (run step s first) second :=
  List.foldl_append

theorem run_concat (inputs : List I) (input : I) :
    run step s (inputs ++ [input]) = step (run step s inputs) input := by
  rw [run_append]
  rfl

theorem along_append (first second : List I) :
    Along step ok s (first ++ second) ↔
      Along step ok s first ∧ Along step ok (run step s first) second := by
  induction first generalizing s with
  | nil => simp [Along]
  | cons input rest ih =>
      show ok s input ∧ Along step ok (step s input) (rest ++ second) ↔ _
      rw [ih, run_cons]
      exact and_assoc.symm

theorem invariant_along {P : S → Prop} (hstep : ∀ s input, P s → ok s input → P (step s input))
    {inputs : List I} (hs : P s) (hok : Along step ok s inputs) : P (run step s inputs) := by
  induction inputs generalizing s with
  | nil => exact hs
  | cons input rest ih => exact ih (hstep s input hs hok.1) hok.2

theorem invariant_run {P : S → Prop} (hstep : ∀ s input, P s → P (step s input))
    (inputs : List I) (hs : P s) : P (run step s inputs) := by
  induction inputs generalizing s with
  | nil => exact hs
  | cons input rest ih => exact ih (hstep s input hs)

theorem along_of_forall {P : I → Prop} (hok : ∀ s input, P input → ok s input) {inputs : List I}
    (h : ∀ input ∈ inputs, P input) : Along step ok s inputs := by
  induction inputs generalizing s with
  | nil => exact trivial
  | cons input rest ih =>
      exact ⟨hok s input (h input (List.mem_cons_self ..)),
        ih fun i hi => h i (List.mem_cons_of_mem _ hi)⟩

theorem Along.and_forall {P : I → Prop} {inputs : List I} (hok : Along step ok s inputs)
    (h : ∀ input ∈ inputs, P input) : Along step (fun s input => P input ∧ ok s input) s inputs := by
  induction inputs generalizing s with
  | nil => exact trivial
  | cons input rest ih =>
      obtain ⟨hinput, hrest⟩ := List.forall_mem_cons.mp h
      exact ⟨⟨hinput, hok.1⟩, ih hok.2 hrest⟩

end Omp2.Machine
