import Mathlib.Logic.Relation
import Statechart.Proofs.Single

/-!
# Flat actions

Flattening takes away one level of composed actions only, but the actions that builders make have no
more: merging flattens what it composes, and the branches of a choice are flat (`BuiltAction.parts`).
So what is flattened once is flat at every depth (`flat_of_built`).
-/

namespace Statechart

/-! ## Flat actions -/

namespace Action

/-- The action `b` stands in a branch of the choice `a`. -/
def HasBranchAction (a b : Action) : Prop :=
  ∃ branches, a = choose branches ∧ ∃ branch ∈ branches, b ∈ branch.actions

/-- Neither the action nor one in a branch of it, at any depth, is composed. -/
def IsFlat (a : Action) : Prop :=
  ∀ b, Relation.ReflTransGen HasBranchAction a b → b.isComposed = false

theorem isFlat_of_no_branches {a : Action} (hcomposed : a.isComposed = false)
    (h : ∀ branches, a ≠ choose branches) : a.IsFlat := by
  intro b hb
  rcases Relation.ReflTransGen.cases_head hb with rfl | ⟨_, ⟨branches, ha, _⟩, _⟩
  · exact hcomposed
  · exact absurd ha (h branches)

theorem isFlat_choose {branches : List (Branch Action)}
    (h : ∀ branch ∈ branches, ∀ a ∈ branch.actions, a.IsFlat) : (choose branches).IsFlat := by
  intro b hb
  rcases Relation.ReflTransGen.cases_head hb with rfl | ⟨a, ⟨_, ⟨⟩, branch, hbranch, ha⟩, hab⟩
  · rfl
  · exact h branch hbranch a ha b hab

end Action

/-! ## Lists of actions -/

/-- Flattening leaves the parts of the actions. -/
theorem isFlat_of_mem_flattenActions {as : List Action} (h : ∀ a ∈ as, ∀ part ∈ a.parts, part.IsFlat) :
    ∀ part ∈ flattenActions as, part.IsFlat := by
  intro part hpart
  obtain ⟨a, ha, hpart⟩ := List.mem_flatMap.mp hpart
  exact h a ha part hpart

theorem isFlat_of_mem_mergeAssigns {as : List Action} (h : ∀ a ∈ as, a.IsFlat) :
    ∀ a ∈ mergeAssigns as, a.IsFlat := by
  have hassign (tables : List (Table Property)) : ∀ a ∈ gatheredAssign tables, a.IsFlat := by
    cases tables with
    | nil => exact List.forall_mem_nil _
    | cons t ts => exact List.forall_mem_singleton.mpr (Action.isFlat_of_no_branches rfl nofun)
  rw [mergeAssigns_eq]
  exact List.forall_mem_append.mpr ⟨hassign _, fun a ha => h a (List.mem_filter.mp ha).1⟩

/-- Whether the action of a fragment, if it has one, is flat when it is flattened by one level. -/
def Fragment.PartsFlat (p : Fragment) : Prop :=
  ∀ a, p.action? = some a → ∀ part ∈ a.parts, part.IsFlat

theorem isFlat_of_mem_extractActions {fs : List Fragment} (h : ∀ p ∈ fs, p.PartsFlat) :
    ∀ part ∈ extractActions fs, part.IsFlat := by
  refine isFlat_of_mem_flattenActions fun a ha => ?_
  obtain ⟨p, hp, ha⟩ := List.mem_filterMap.mp ha
  exact h p hp a ha

/-! ## What builders make -/

namespace Builder

mutual

/-- A fragment that builders of actions make. -/
inductive BuiltAction : Fragment → Prop
  | run (name : String) : BuiltAction (.run name)
  | effect (e : Effect) : BuiltAction (.action (.effect e))
  | assign (json : Json) : BuiltAction (.assign json)
  | assignMapping (m : Mapping) : BuiltAction (.action (.assign m))
  | assignWith (e : Expr) : BuiltAction (.action (.assign (.function e)))
  | send (message : Send) : BuiltAction (.action (.send message))
  | pure (source : Resolver Action) : BuiltAction (.action (.pure source))
  | choose {branches} : (∀ b ∈ branches, BuiltBranch b) → BuiltAction (.choose branches)
  | mergeActions {fs f} : (∀ p ∈ fs, BuiltAction p) → (mergeActions fs).outcome = .ok f → BuiltAction f

/-- A branch that is built from such fragments and from guards. -/
inductive BuiltBranch : Branch Action → Prop
  | branch {fs b} : (∀ p ∈ fs, p.cond? = none → BuiltAction p) → Builder.branch fs = .ok b →
      BuiltBranch b

end

theorem collectActions_eq_ok {fs : List Fragment} (h : ∀ p ∈ fs, p.action?.isSome = true)
    (site : Site) : collectActions site fs = .ok (extractActions fs) := by
  rw [collectActions, collect_eq_ok h]
  rfl

theorem branch_eq_ok {fs : List Fragment} (h : ∀ p ∈ fs, isBranchPart p = true) :
    branch fs = .ok { cond := (extractGuards fs).getLast?, actions := extractActions fs } := by
  rw [branch, requireAll_eq_ok h]
  rfl

theorem transition_eq_ok {fs : List Fragment} (h : ∀ p ∈ fs, isTransitionPart p = true) :
    ∃ t, transition fs = .ok t ∧ t.actions.getD [] = extractActions fs := by
  rw [transition, requireAll_eq_ok h]
  exact ⟨_, rfl, Transition.getD_of_isEmpty _⟩

theorem branchPart_of_action {p : Fragment}
    (h : p.cond? = none → p.action?.isSome = true ∧ p.PartsFlat) :
    isBranchPart p = true ∧ p.PartsFlat := by
  cases p with
  | action a => exact ⟨rfl, (h rfl).2⟩
  | cond guard => exact ⟨rfl, nofun⟩
  | _ => cases (h rfl).1

theorem transitionPart_of_action {p : Fragment}
    (h : p.cond? = none → p.target? = none → p.action?.isSome = true ∧ p.PartsFlat) :
    isTransitionPart p = true ∧ p.PartsFlat := by
  cases p with
  | target name => exact ⟨rfl, nofun⟩
  | action a => exact ⟨rfl, (h rfl rfl).2⟩
  | cond guard => exact ⟨rfl, nofun⟩
  | _ => cases (h rfl rfl).1

mutual
theorem BuiltAction.parts {p : Fragment} (h : BuiltAction p) :
    p.action?.isSome = true ∧ p.PartsFlat := by
  match h with
  | .run _ | .effect _ | .assign _ | .assignMapping _ | .assignWith _ | .send _ | .pure _ =>
      refine ⟨rfl, ?_⟩
      rintro _ ⟨⟩
      exact List.forall_mem_singleton.mpr (Action.isFlat_of_no_branches rfl nofun)
  | .choose hbranches =>
      refine ⟨rfl, ?_⟩
      rintro _ ⟨⟩
      exact List.forall_mem_singleton.mpr
        (Action.isFlat_choose fun branch hbranch => (hbranches branch hbranch).actions)
  | @BuiltAction.mergeActions fs _ hfs hf =>
      -- The parts of what is merged are flat, so that merging composes flat actions.
      have hall := fun p hp => (hfs p hp).parts
      rw [Statechart.mergeActions, collect_eq_ok fun p hp => (hall p hp).1] at hf
      cases hf
      refine ⟨rfl, ?_⟩
      rintro _ ⟨⟩
      exact isFlat_of_mem_mergeAssigns (isFlat_of_mem_extractActions fun p hp => (hall p hp).2)

theorem BuiltBranch.actions {b : Branch Action} (h : BuiltBranch b) :
    ∀ a ∈ b.actions, a.IsFlat := by
  match h with
  | @BuiltBranch.branch fs _ hfs hb =>
      have hall := fun p hp => branchPart_of_action fun hcond => (hfs p hp hcond).parts
      rw [branch_eq_ok fun p hp => (hall p hp).1] at hb
      cases hb
      exact isFlat_of_mem_extractActions fun p hp => (hall p hp).2
end

/-- Actions, guards and targets that builders make are taken as actions to run on entry or exit, as
one branch or as one transition. Whatever was merged or chosen in them, no composed action is left,
at the top or in a branch at any depth. -/
theorem flat_of_built (fs : List Fragment) :
    ((∀ p ∈ fs, BuiltAction p) → ∃ as, entry fs = .ok (.entry as) ∧ exit fs = .ok (.exit as) ∧
      ∀ a ∈ as, a.IsFlat) ∧
    ((∀ p ∈ fs, p.cond? = none → BuiltAction p) → ∃ b, branch fs = .ok b ∧
      ∀ a ∈ b.actions, a.IsFlat) ∧
    ((∀ p ∈ fs, p.cond? = none → p.target? = none → BuiltAction p) → ∃ t, transition fs = .ok t ∧
      ∀ a ∈ t.actions.getD [], a.IsFlat) := by
  refine ⟨fun h => ?_, fun h => ?_, fun h => ?_⟩
  · have hall := fun p hp => (h p hp).parts
    have hcollect := collectActions_eq_ok fun p hp => (hall p hp).1
    refine ⟨extractActions fs, ?_, ?_, isFlat_of_mem_extractActions fun p hp => (hall p hp).2⟩
    · rw [entry, hcollect]
      rfl
    · rw [exit, hcollect]
      rfl
  · have hall := fun p hp => branchPart_of_action fun hcond => (h p hp hcond).parts
    exact ⟨_, branch_eq_ok fun p hp => (hall p hp).1,
      isFlat_of_mem_extractActions fun p hp => (hall p hp).2⟩
  · have hall := fun p hp => transitionPart_of_action fun hcond htarget => (h p hp hcond htarget).parts
    obtain ⟨t, ht, hactions⟩ := transition_eq_ok fun p hp => (hall p hp).1
    exact ⟨t, ht, hactions ▸ isFlat_of_mem_extractActions fun p hp => (hall p hp).2⟩

/-- Merged actions run in the branch of a choice, and are merged again with that choice. -/
theorem flat_of_built_merged :
    let merged : Fragment := .action (.composed [.named "x"])
    let choice : Action := .choose [{ cond := some (.named "p"), actions := [.named "x"] }]
    let again : Fragment := .action (.composed [.named "x", choice])
    (∀ p ∈ [merged, .guard "p"], p.cond? = none → BuiltAction p) ∧
    (∃ b, branch [merged, .guard "p"] = .ok b ∧ ∀ a ∈ b.actions, a.IsFlat) ∧
    (∀ p ∈ [again], BuiltAction p) ∧ entry [again] = .ok (.entry [.named "x", choice]) ∧
    (∀ p ∈ [.target "a", again, .guard "q"], p.cond? = none → p.target? = none → BuiltAction p) ∧
    (∃ t, transition [.target "a", again, .guard "q"] = .ok t ∧
      t.actions = some [.named "x", choice]) ∧
    ∀ a ∈ [.named "x", choice], a.IsFlat := by
  intro merged choice again
  have hmerged : BuiltAction merged :=
    @BuiltAction.mergeActions [.run "x"] _ (List.forall_mem_singleton.mpr (.run "x")) rfl
  have hparts : ∀ p ∈ [merged, .guard "p"], p.cond? = none → BuiltAction p :=
    List.forall_mem_cons.mpr ⟨fun _ => hmerged, List.forall_mem_singleton.mpr nofun⟩
  have hchoice : BuiltAction (.action choice) :=
    .choose (List.forall_mem_singleton.mpr (.branch hparts rfl))
  have hagain : BuiltAction again := @BuiltAction.mergeActions [merged, .action choice] _
    (List.forall_mem_cons.mpr ⟨hmerged, List.forall_mem_singleton.mpr hchoice⟩) rfl
  have hlist : ∀ p ∈ [again], BuiltAction p := List.forall_mem_singleton.mpr hagain
  have hrun : ∀ p ∈ [.target "a", again, .guard "q"],
      p.cond? = none → p.target? = none → BuiltAction p :=
    List.forall_mem_cons.mpr ⟨nofun, List.forall_mem_cons.mpr ⟨fun _ _ => hagain,
      List.forall_mem_singleton.mpr nofun⟩⟩
  obtain ⟨as, hentry, _, _⟩ := (flat_of_built [again]).1 hlist
  obtain ⟨t, ht, hflat⟩ := (flat_of_built [.target "a", again, .guard "q"]).2.2 hrun
  cases hentry
  cases ht
  have hbranch := (flat_of_built [merged, .guard "p"]).2.1 hparts
  exact ⟨hparts, hbranch, hlist, rfl, hrun, ⟨_, rfl, rfl⟩, hflat⟩

end Builder

end Statechart
