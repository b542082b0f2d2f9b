import Mathlib.Data.List.TakeWhile
import Statechart.Proofs.Facets

/-!
# Writing under a policy

Writing a list of fragments comes apart into what the policy says to the repeated facets, and an
outcome on which the policy has no influence (`writeAll_eq`).
-/

namespace Statechart

/-! ## Repetitions -/

/-- The fragments whose facet is among `seen` or that of an earlier fragment. -/
def repeats (seen : List Facet) : List Placed → List Placed
  | [] => []
  | p :: rest =>
    if p.fragment.facet ∈ seen then p :: repeats (p.fragment.facet :: seen) rest
    else repeats (p.fragment.facet :: seen) rest

theorem repeats_eq_nil_iff {seen : List Facet} {ps : List Placed} :
    repeats seen ps = [] ↔
      (∀ p ∈ ps, p.fragment.facet ∉ seen) ∧ (ps.map (·.fragment.facet)).Nodup := by
  induction ps generalizing seen with
  | nil => simp [repeats]
  | cons p ps ih =>
      rw [repeats, List.map_cons, List.nodup_cons, List.forall_mem_cons]
      by_cases hp : p.fragment.facet ∈ seen
      · simp [hp]
      · rw [if_neg hp, ih]
        constructor
        · rintro ⟨hseen, hps⟩
          refine ⟨⟨hp, fun q hq h => hseen q hq (List.mem_cons_of_mem _ h)⟩, ?_, hps⟩
          intro hm
          obtain ⟨q, hq, he⟩ := List.mem_map.mp hm
          exact hseen q hq (List.mem_cons.mpr (Or.inl he))
        · rintro ⟨⟨_, hseen⟩, hp', hps⟩
          refine ⟨fun q hq h => ?_, hps⟩
          rcases List.mem_cons.mp h with he | h
          · exact hp' (he ▸ List.mem_map_of_mem (f := (·.fragment.facet)) hq)
          · exact hseen q hq h

/-- The event that a policy logs for a repetition. -/
def Placed.warning (p : Placed) (site : Site) : Event :=
  .duplicateFacet p.fragment.facet p.position site

/-- What the policy says to repetitions, one after the other. -/
def DuplicatePolicy.respond (policy : DuplicatePolicy) (site : Site) (ps : List Placed) :
    Report Unit :=
  match policy, ps with
  | overwrite, _ => pure ()
  | warn, ps => ⟨ps.map (·.warning site), .ok ()⟩
  | reject, [] => pure ()
  | reject, p :: _ => Report.fail (.duplicateFacet p.fragment.facet p.position site)

theorem DuplicatePolicy.respond_nil (policy : DuplicatePolicy) (site : Site) :
    policy.respond site [] = pure () := by
  cases policy <;> rfl

/-- The verdict on one fragment is the first of the verdicts on all repetitions. -/
theorem DuplicatePolicy.admit_respond {α : Type} (policy : DuplicatePolicy) (seen : List Facet)
    (p : Placed) (site : Site) (rs : List Placed) (next : Report α) :
    (do policy.admit seen p site; policy.respond site rs; next) =
      (do policy.respond site (if p.fragment.facet ∈ seen then p :: rs else rs); next) := by
  unfold DuplicatePolicy.admit
  by_cases h : p.fragment.facet ∈ seen
  · rw [if_pos h, if_pos h]
    cases policy <;> rfl
  · rw [if_neg h, if_neg h]
    rfl

/-! ## The outcome without a policy -/

variable {ν : Type} [Assemblable ν] [Faceted ν]

/-- The node with the fragments written, or the complaint about the first that it does not take. -/
def written (node : ν) (ps : List Placed) : Except AssemblyError ν :=
  match ps.find? (!accepts ν ·.fragment) with
  | some p => .error (p.unexpected (Assemblable.site ν))
  | none => .ok (fill node (ps.map (·.fragment)))

theorem written_cons {n m : ν} {p : Placed} (h : Assemblable.set? n p.fragment = some m)
    (ps : List Placed) : written n (p :: ps) = written m ps := by
  have hp : accepts ν p.fragment = true := by
    rw [accepts, ← Faceted.isSome_set? n, h]
    rfl
  simp only [written, List.find?_cons, hp, Bool.not_true, List.map_cons, fill_cons h]

theorem written_eq_ok_iff {node n : ν} {ps : List Placed} :
    written node ps = .ok n ↔
      (∀ p ∈ ps.map (·.fragment), accepts ν p = true) ∧ fill node (ps.map (·.fragment)) = n := by
  rw [written]
  cases h : ps.find? (!accepts ν ·.fragment) with
  | some p =>
      have hp := List.find?_some h
      have hm := List.mem_of_find?_eq_some h
      simp only [reduceCtorEq, false_iff]
      intro hall
      simp [hall.1 _ (List.mem_map_of_mem hm)] at hp
  | none =>
      have hall : ∀ p ∈ ps.map (·.fragment), accepts ν p = true := by simpa using h
      dsimp only
      rw [Except.ok.injEq]
      exact ⟨fun hn => ⟨hall, hn⟩, fun hn => hn.2⟩

/-! ## One run -/

theorem writeAll_eq (policy : DuplicatePolicy) (seen : List Facet) (node : ν) (ps : List Placed) :
    writeAll policy seen node ps = (do
      policy.respond (Assemblable.site ν) (repeats seen (ps.takeWhile (accepts ν ·.fragment)))
      Report.ofExcept (written node ps)) := by
  induction ps generalizing seen node with
  | nil =>
      rw [List.takeWhile_nil, repeats, DuplicatePolicy.respond_nil]
      rfl
  | cons p ps ih =>
      cases hp : accepts ν p.fragment with
      | false =>
          have hw : written node (p :: ps) = .error (p.unexpected (Assemblable.site ν)) := by
            simp [written, hp]
          have hread : (p :: ps).takeWhile (accepts ν ·.fragment) = [] := by
            simp [hp]
          rw [writeAll, set?_eq_none hp, hread, repeats, DuplicatePolicy.respond_nil, hw]
          rfl
      | true =>
          obtain ⟨m, hm⟩ := exists_set? hp node
          have hread : (p :: ps).takeWhile (accepts ν ·.fragment) =
              p :: ps.takeWhile (accepts ν ·.fragment) := by
            rw [List.takeWhile_cons, if_pos hp]
          -- What is said to `p` comes before what is said to the rest, and depends only on `seen`;
          -- the outcome depends only on the node.
          rw [writeAll, hm, hread, repeats, written_cons hm]
          dsimp only
          rw [ih, DuplicatePolicy.admit_respond]

theorem writeAll_overwrite (seen : List Facet) (node : ν) (ps : List Placed) :
    writeAll .overwrite seen node ps = Report.ofExcept (written node ps) := by
  rw [writeAll_eq]
  rfl

theorem writeAll_warn (seen : List Facet) (node : ν) (ps : List Placed) :
    writeAll .warn seen node ps =
      ⟨(repeats seen (ps.takeWhile (accepts ν ·.fragment))).map (·.warning (Assemblable.site ν)),
        written node ps⟩ := by
  rw [writeAll_eq, ← List.append_nil (List.map _ _)]
  rfl

theorem writeAll_reject_of_repeats {seen : List Facet} {ps rest : List Placed} {p : Placed}
    (h : repeats seen (ps.takeWhile (accepts ν ·.fragment)) = p :: rest) (node : ν) :
    writeAll .reject seen node ps =
      Report.fail (.duplicateFacet p.fragment.facet p.position (Assemblable.site ν)) := by
  rw [writeAll_eq, h]
  rfl

theorem writeAll_of_no_repeats {seen : List Facet} {ps : List Placed}
    (h : repeats seen (ps.takeWhile (accepts ν ·.fragment)) = []) (policy : DuplicatePolicy)
    (node : ν) : writeAll policy seen node ps = Report.ofExcept (written node ps) := by
  rw [writeAll_eq, h, DuplicatePolicy.respond_nil]
  rfl

theorem outcome_writeAll {policy : DuplicatePolicy} (h : policy ≠ .reject) (seen : List Facet)
    (node : ν) (ps : List Placed) : (writeAll policy seen node ps).outcome = written node ps := by
  cases policy with
  | overwrite => rw [writeAll_overwrite]; rfl
  | warn => rw [writeAll_warn]
  | reject => exact absurd rfl h

/-! ## Success -/

theorem takeWhile_accepts {ps : List Placed}
    (h : ∀ p ∈ ps.map (·.fragment), accepts ν p = true) :
    ps.takeWhile (accepts ν ·.fragment) = ps :=
  List.takeWhile_eq_self_iff.mpr fun _ hp => h _ (List.mem_map_of_mem hp)

/-- Fragments are written into a blank node iff it takes all of them and, if repetitions are
rejected, no two describe the same facet. -/
theorem outcome_writeAll_eq_ok_iff {policy : DuplicatePolicy} {ps : List Placed} {n : ν} :
    (writeAll policy [] Assemblable.blank ps).outcome = .ok n ↔
      (∀ p ∈ ps.map (·.fragment), accepts ν p = true) ∧
      (policy = .reject → (ps.map (·.fragment.facet)).Nodup) ∧
      Describes (ps.map (·.fragment)) n := by
  have hwritten : written Assemblable.blank ps = .ok n ↔
      (∀ p ∈ ps.map (·.fragment), accepts ν p = true) ∧ Describes (ps.map (·.fragment)) n := by
    rw [written_eq_ok_iff]
    refine and_congr_right fun hps => ⟨?_, fun hn => (describes_fill hps).unique hn⟩
    rintro rfl
    exact describes_fill hps
  by_cases hp : policy = .reject
  · subst hp
    cases h : repeats [] (ps.takeWhile (accepts ν ·.fragment)) with
    | nil =>
        rw [writeAll_of_no_repeats h]
        refine hwritten.trans ⟨fun ⟨hps, hn⟩ => ⟨hps, fun _ => ?_, hn⟩, fun ⟨hps, _, hn⟩ => ⟨hps, hn⟩⟩
        rw [takeWhile_accepts hps] at h
        exact (repeats_eq_nil_iff.mp h).2
    | cons p rest =>
        rw [writeAll_reject_of_repeats h]
        constructor
        · intro hfail
          cases hfail
        · rintro ⟨hps, hnodup, _⟩
          rw [takeWhile_accepts hps, repeats_eq_nil_iff.mpr ⟨by simp, hnodup rfl⟩] at h
          cases h
  · rw [outcome_writeAll hp, hwritten]
    simp [hp]

end Statechart
