import Mathlib.Data.List.Basic
import Statechart.Machine

/-!
# Builders in use

However a machine builder is used, it makes the machine of the options that were set last and of all
fragments that were added, unless a fragment failed to be built (`build_run`).
-/

namespace Statechart.MachineBuilder

/-! ## One step -/

namespace Step

/-- The error of a step, if a fragment failed to be built. -/
def error? : Step → Option AssemblyError
  | tryAdd (.error e) => some e
  | _ => none

/-- The options that a step sets. -/
def options? : Step → Option Options
  | withOptions options => some options
  | _ => none

/-- The fragments that a step adds. -/
def added : Step → List Fragment
  | add source => [.ofSource source]
  | tryAdd (.ok f) => [f]
  | addAll fs => fs
  | _ => []

end Step

theorem step_eq (b : MachineBuilder) (s : Step) :
    b.step s = match s.error? with
      | some e => .error e
      | none => .ok ⟨s.options?.getD b.options, b.fragments ++ s.added⟩ := by
  cases s with
  | withOptions options => simp [step, withOptions, Step.error?, Step.options?, Step.added]
  | add source => rfl
  | tryAdd f => cases f <;> rfl
  | addAll fs => rfl

/-! ## Sequences of steps -/

/-- The first error of the steps, or the builder with their last options and all their fragments. -/
theorem run_eq (b : MachineBuilder) (steps : List Step) :
    b.run steps = match steps.findSome? Step.error? with
      | some e => .error e
      | none => .ok ⟨(steps.filterMap Step.options?).getLast?.getD b.options,
          b.fragments ++ steps.flatMap Step.added⟩ := by
  induction steps generalizing b with
  | nil => simp [run, pure, Except.pure]
  | cons s steps ih =>
      have hrun : b.run (s :: steps) = b.step s >>= fun b => b.run steps := rfl
      rw [hrun, step_eq, List.findSome?_cons]
      cases s.error? with
      | some e => rfl
      | none =>
          refine (ih _).trans ?_
          rw [List.flatMap_cons, List.append_assoc, List.filterMap_cons]
          cases s.options? <;> simp [List.getLast?_cons]

/-- Steps that agree in their first error, their last options and their fragments come to the same. -/
theorem run_congr {steps steps' : List Step}
    (herror : steps.findSome? Step.error? = steps'.findSome? Step.error?)
    (hoptions : (steps.filterMap Step.options?).getLast? = (steps'.filterMap Step.options?).getLast?)
    (hadded : steps.flatMap Step.added = steps'.flatMap Step.added) (b : MachineBuilder) :
    b.run steps = b.run steps' := by
  rw [run_eq, run_eq, herror, hoptions, hadded]

theorem run_withOptions_comm (before : List Step) {adds : List Step}
    (h : ∀ s ∈ adds, s.options? = none) (options : Options) (after : List Step)
    (b : MachineBuilder) :
    b.run (before ++ adds ++ .withOptions options :: after) =
      b.run (before ++ .withOptions options :: adds ++ after) := by
  have herror (steps : List Step) : (Step.withOptions options :: steps).findSome? Step.error? =
      steps.findSome? Step.error? := rfl
  have hoptions (steps : List Step) : (Step.withOptions options :: steps).filterMap Step.options? =
      options :: steps.filterMap Step.options? := rfl
  have hadds : adds.filterMap Step.options? = [] := List.filterMap_eq_nil_iff.mpr h
  apply run_congr
  · simp only [List.findSome?_append, herror, List.cons_append, List.append_assoc]
  · simp only [List.filterMap_append, hoptions, hadds, List.cons_append, List.append_assoc,
      List.nil_append]
  · simp [Step.added]

theorem run_addAll_flatten (before : List Step) (fss : List (List Fragment)) (after : List Step)
    (b : MachineBuilder) :
    b.run (before ++ .addAll fss.flatten :: after) = b.run (before ++ fss.map .addAll ++ after) := by
  have herror : (fss.map Step.addAll).findSome? Step.error? = none := by
    simp [Step.error?]
  have hoptions : (fss.map Step.addAll).filterMap Step.options? = [] := by
    simp [Step.options?]
  have hadded : (fss.map Step.addAll).flatMap Step.added = fss.flatten := by
    rw [List.flatMap_map]
    exact List.flatMap_id
  apply run_congr
  · rw [List.findSome?_append, List.findSome?_append, List.findSome?_append, herror, Option.or_none]
    rfl
  · rw [List.filterMap_append, List.filterMap_append, List.filterMap_append, hoptions,
      List.append_nil]
    rfl
  · rw [List.flatMap_append, List.flatMap_append, List.flatMap_append, hadded, List.append_assoc]
    rfl

/-- A builder in use stops at the first fragment that failed to be built, with its error. Otherwise
it makes what the last options and all fragments make, be it a machine or an error. So it does not
matter whether fragments are added before options or after them, nor in how many steps. -/
theorem build_run :
    (∀ steps : List Step,
      match steps.findSome? Step.error? with
      | some e => run {} steps = .error e
      | none => ∃ b, run {} steps = .ok b ∧ b.build =
          Machine.assemble ((steps.filterMap Step.options?).getLast?.getD {})
            (steps.flatMap Step.added)) ∧
    (∀ before adds after options, (∀ s ∈ adds, s.options? = none) →
      run {} (before ++ adds ++ .withOptions options :: after) =
        run {} (before ++ .withOptions options :: adds ++ after)) ∧
    ∀ before (fss : List (List Fragment)) after,
      run {} (before ++ .addAll fss.flatten :: after) =
        run {} (before ++ fss.map .addAll ++ after) := by
  refine ⟨fun steps => ?_, fun before adds after options h =>
    run_withOptions_comm before h options after {}, fun before fss after =>
    run_addAll_flatten before fss after {}⟩
  rw [run_eq]
  cases steps.findSome? Step.error? with
  | some e => rfl
  | none => exact ⟨_, rfl, rfl⟩

/-- Of two options the last ones count, for the fragments before them too: a repeated name is an error
that building reports. A fragment that failed to be built ends the use of the builder before that. -/
theorem build_run_rejecting :
    let adds : List Step := [.add (.name "a"), .tryAdd (.ok (.id "b")), .addAll [.id "c"]]
    let failed : AssemblyError := .unexpectedFragment .id 1 .entry
    (∀ s ∈ adds, s.options? = none) ∧
    (∃ b, run {} (.withOptions {} :: adds ++ [.withOptions ⟨.reject, true⟩]) = .ok b ∧
      run {} (.withOptions {} :: .withOptions ⟨.reject, true⟩ :: adds) = .ok b ∧
      b.build.outcome = .error (.duplicateFacet .id 2 .state)) ∧
    run {} (adds ++ [.tryAdd (.error failed), .withOptions {}]) = .error failed := by
  intro adds failed
  have hadds : ∀ s ∈ adds, s.options? = none := by simp [adds, Step.options?]
  have hmoved := build_run.2.1 [.withOptions {}] adds [] ⟨.reject, true⟩ hadds
  obtain ⟨b, hb, hbuild⟩ := build_run.1 (.withOptions {} :: adds ++ [.withOptions ⟨.reject, true⟩])
  exact ⟨hadds, ⟨b, hb, hmoved ▸ hb, hbuild ▸ rfl⟩,
    build_run.1 (adds ++ [.tryAdd (.error failed), .withOptions {}])⟩

end Statechart.MachineBuilder
