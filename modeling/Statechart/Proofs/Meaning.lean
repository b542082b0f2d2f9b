import Statechart.Proofs.Effective
import Statechart.Proofs.Writing

/-!
# What a list of fragments describes

A list of fragments can be assembled iff it has at most one fragment about nested states and the
node takes all its effective fragments. The node then has, in each facet, the last effective
fragment for it (`assemble_describes`).
-/

namespace Statechart

variable {ν : Type} [Assemblable ν]

theorem assemble_of_hoist_eq_error {fs : List Fragment} {e : AssemblyError}
    (h : hoist fs = .error e) (options : Options) :
    (assemble options fs : Report ν) = Report.fail e := by
  rw [assemble, h]
  rfl

theorem assemble_of_hoist_eq_ok {fs : List Fragment} {placed : List Placed}
    (h : hoist fs = .ok placed) (options : Options) :
    (assemble options fs : Report ν) = (do
      let node ← writeAll options.duplicates [] Assemblable.blank
        (uniteEvents options.relocateReservedEvents placed)
      Report.log (.assembled (Assemblable.site ν) fs.length)
      return node) := by
  rw [assemble, h]
  rfl

theorem outcome_assemble (options : Options) (fs : List Fragment) :
    (assemble options fs : Report ν).outcome = (hoist fs).bind fun placed =>
      (writeAll options.duplicates [] Assemblable.blank
        (uniteEvents options.relocateReservedEvents placed)).outcome := by
  cases h : hoist fs with
  | error e => rw [assemble_of_hoist_eq_error h]; rfl
  | ok placed =>
      rw [assemble_of_hoist_eq_ok h, Report.outcome_bind]
      exact bind_pure (m := Except AssemblyError) _

variable [Faceted ν]

/-- The nodes that a list of fragments is assembled into, under every policy. -/
theorem outcome_assemble_eq_ok_iff {options : Options} {fs : List Fragment} {n : ν} :
    (assemble options fs).outcome = .ok n ↔
      fs.countP (·.isNested) ≤ 1 ∧
      (∀ p ∈ effective options.relocateReservedEvents fs, accepts ν p = true) ∧
      (options.duplicates = .reject →
        ((effective options.relocateReservedEvents fs).map Fragment.facet).Nodup) ∧
      Describes (effective options.relocateReservedEvents fs) n := by
  rw [← fragments_written, List.map_map, outcome_assemble]
  cases h : hoist fs with
  | error e =>
      have hnested : ¬fs.countP (·.isNested) ≤ 1 := by
        intro hle
        rw [hoist_eq_ok_iff.mpr ⟨hle, rfl⟩] at h
        cases h
      constructor
      · intro hn
        cases hn
      · exact fun hn => absurd hn.1 hnested
  | ok placed =>
      obtain ⟨hnested, rfl⟩ := hoist_eq_ok_iff.mp h
      exact outcome_writeAll_eq_ok_iff.trans (and_iff_right hnested).symm

variable (ν) in
/-- Where repetitions are no error, a list is assembled iff it has at most one fragment about nested
states and the node takes all effective fragments; and then each facet is as the last effective
fragment for it says. -/
theorem assemble_describes (options : Options) (h : options.duplicates ≠ .reject)
    (fs : List Fragment) :
    ((∃ n : ν, (assemble options fs).outcome = .ok n) ↔
      fs.countP (·.isNested) ≤ 1 ∧
      ∀ p ∈ effective options.relocateReservedEvents fs, accepts ν p = true) ∧
    ∀ n : ν, (assemble options fs).outcome = .ok n →
      Describes (effective options.relocateReservedEvents fs) n := by
  refine ⟨⟨?_, ?_⟩, fun n hn => (outcome_assemble_eq_ok_iff.mp hn).2.2.2⟩
  · rintro ⟨n, hn⟩
    obtain ⟨hnested, haccepts, _⟩ := outcome_assemble_eq_ok_iff.mp hn
    exact ⟨hnested, haccepts⟩
  · rintro ⟨hnested, haccepts⟩
    exact ⟨_, outcome_assemble_eq_ok_iff.mpr
      ⟨hnested, haccepts, fun hr => absurd hr h, describes_fill haccepts⟩⟩

/-- A reserved event inside nested contents counts after an explicit clause for it, and the nested
initial state after an explicit one. -/
theorem assemble_describes_nested :
    ({} : Options).duplicates ≠ .reject ∧
    ∃ n : StateNode,
      (assemble {} [.nested [.states ⟨[]⟩, .initial "a", .on ⟨[("done", [.ofTarget "b"]), ("GO", [])]⟩],
        .onDone [], .initial "b", .on ⟨[("GO", [.ofTarget "a"])]⟩]).outcome = .ok n ∧
      n.facet? .onDone = some (.onDone [.ofTarget "b"]) ∧ n.facet? .initial = some (.initial "a") ∧
      n.facet? .on = some (.on ⟨[("GO", [])]⟩) := by
  have h : ({} : Options).duplicates ≠ .reject := by decide
  obtain ⟨hok, hdescribes⟩ := assemble_describes StateNode {} h
    [.nested [.states ⟨[]⟩, .initial "a", .on ⟨[("done", [.ofTarget "b"]), ("GO", [])]⟩],
      .onDone [], .initial "b", .on ⟨[("GO", [.ofTarget "a"])]⟩]
  obtain ⟨n, hn⟩ := hok.mpr ⟨by decide, by decide⟩
  exact ⟨h, n, hn, (hdescribes n hn).facet .onDone, (hdescribes n hn).facet .initial,
    (hdescribes n hn).facet .on⟩

end Statechart
