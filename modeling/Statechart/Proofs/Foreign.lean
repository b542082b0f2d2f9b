import Statechart.Builder.Clause
import Statechart.Proofs.Faults
import Statechart.Proofs.Merging

/-!
# Foreign fragments

Where only fragments about certain facets can stand, a list is read iff it holds no others, and else
the first of the others is reported (`Report.Screens`). All functions that make one thing of a list of
fragments keep to this (`screens_lists`).
-/

namespace Statechart

/-! ## Screening -/

/-- A report on reading a list at a site, where only fragments about certain facets can stand. It is
an error iff there is another fragment in the list; the error has the facet and the position of the
first such fragment, and nothing is logged before it. -/
structure Report.Screens {α : Type} (r : Report α) (facets : List Facet) (site : Site)
    (fs : List Fragment) : Prop where
  fails_iff : (∃ e, r.outcome = .error e) ↔ ∃ f ∈ fs, f.facet ∉ facets
  error_iff (e : AssemblyError) : r.outcome = .error e ↔
    ∃ i f, FirstAt (·.facet ∉ facets) fs i f ∧ e = .unexpectedFragment f.facet i site
  silent (e : AssemblyError) : r.outcome = .error e → r.events = []

theorem exists_firstAt_iff {q : Fragment → Bool} {fs : List Fragment} :
    (∃ i f, FirstAt q fs i f) ↔ ∃ f ∈ fs, q f = true := by
  constructor
  · rintro ⟨i, f, hf⟩
    exact ⟨f, List.mem_of_getElem? hf.stands, hf.holds⟩
  · intro h
    obtain ⟨f, hf⟩ := Option.isSome_iff_exists.mp (List.find?_isSome.mpr h)
    obtain ⟨i, hi⟩ := find?_eq_some_iff_firstAt.mp hf
    exact ⟨i, f, hi⟩

theorem requireAll_eq_error_iff {accepts : Fragment → Bool} {site : Site} {fs : List Fragment}
    {e : AssemblyError} :
    requireAll accepts site fs = .error e ↔
      ∃ i f, FirstAt (!accepts ·) fs i f ∧ e = .unexpectedFragment f.facet i site := by
  have hfind : requireAll accepts site fs = .error e ↔ ∃ p : Placed,
      (Placed.ofList fs).find? (!accepts ·.fragment) = some p ∧ e = p.unexpected site := by
    rw [requireAll]
    cases (Placed.ofList fs).find? (!accepts ·.fragment) <;> simp [eq_comm]
  rw [hfind]
  simp only [find?_ofList (q := (!accepts ·))]
  constructor
  · rintro ⟨p, hp, he⟩
    exact ⟨p.position, p.fragment, hp, he⟩
  · rintro ⟨i, f, hf, he⟩
    exact ⟨⟨i, f⟩, hf, he⟩

section

variable {facets : List Facet} {site : Site} {fs : List Fragment}

theorem screens_requireAll {accepts : Fragment → Bool}
    (h : ∀ f, accepts f = decide (f.facet ∈ facets)) :
    (Report.ofExcept (requireAll accepts site fs)).Screens facets site fs := by
  have hforeign : (!accepts ·) = fun f => decide (f.facet ∉ facets) := by
    funext f
    rw [h, decide_not]
  have herror (e : AssemblyError) : requireAll accepts site fs = .error e ↔
      ∃ i f, FirstAt (·.facet ∉ facets) fs i f ∧ e = .unexpectedFragment f.facet i site := by
    rw [requireAll_eq_error_iff, hforeign]
  refine ⟨?_, herror, fun _ _ => rfl⟩
  have hexists : (∃ i f, FirstAt (·.facet ∉ facets) fs i f) ↔ ∃ f ∈ fs, f.facet ∉ facets := by
    simp only [exists_firstAt_iff, decide_eq_true_eq]
  rw [← hexists]
  constructor
  · rintro ⟨e, he⟩
    obtain ⟨i, f, hf, _⟩ := (herror e).mp he
    exact ⟨i, f, hf⟩
  · rintro ⟨i, f, hf⟩
    exact ⟨_, (herror _).mpr ⟨i, f, hf, rfl⟩⟩

/-- What follows the reading of a list and cannot fail makes no difference. -/
theorem Report.Screens.bind {α β : Type} {r : Report α} (h : r.Screens facets site fs)
    {g : α → Report β} (hg : ∀ a, ∃ b, (g a).outcome = .ok b) :
    (r >>= g).Screens facets site fs := by
  have herror (e : AssemblyError) : (r >>= g).outcome = .error e ↔ r.outcome = .error e := by
    rw [Report.outcome_bind]
    cases r.outcome with
    | error e' => simp [Except.bind]
    | ok a =>
        obtain ⟨b, hb⟩ := hg a
        simp [Except.bind, hb]
  refine ⟨?_, fun e => (herror e).trans (h.error_iff e), fun e he => ?_⟩
  · simp only [herror]
    exact h.fails_iff
  · rw [herror] at he
    rw [Report.events_bind, h.silent e he, he]
    rfl

theorem Report.Screens.bind_ofExcept {α β : Type} {x : Except AssemblyError α}
    (h : (Report.ofExcept x).Screens facets site fs) {g : α → Except AssemblyError β}
    (hg : ∀ a, ∃ b, g a = .ok b) : (Report.ofExcept (x >>= g)).Screens facets site fs := by
  have hbind : Report.ofExcept (x >>= g) = Report.ofExcept x >>= fun a => Report.ofExcept (g a) := by
    cases x <;> rfl
  rw [hbind]
  exact h.bind hg

theorem screens_collect {α : Type} {part? : Fragment → Option α}
    (h : ∀ f, (part? f).isSome = decide (f.facet ∈ facets)) :
    (Report.ofExcept (collect part? site fs)).Screens facets site fs :=
  (screens_requireAll h).bind_ofExcept fun _ => ⟨_, rfl⟩

end

/-! ## Runs -/

/-- The facets that fragments in a run of transitions are about. -/
def Token.facets : List Facet := [.target, .actions, .cond, .transition]

theorem isSome_token? (f : Fragment) : f.token?.isSome = decide (f.facet ∈ Token.facets) := by
  cases f <;> rfl

theorem screens_groupRun (fs : List Fragment) :
    (groupRun fs).Screens Token.facets .transitionRun fs :=
  (screens_collect isSome_token?).bind fun _ => ⟨_, rfl⟩

theorem groupRun_eq_ok {fs : List Fragment} (h : ∀ f ∈ fs, f.facet ∈ Token.facets) :
    groupRun fs = ⟨[.grouped (group (fs.filterMap Fragment.token?)).length],
      .ok (group (fs.filterMap Fragment.token?))⟩ := by
  have hall : ∀ f ∈ fs, f.token?.isSome = true := by
    intro f hf
    rw [isSome_token?]
    exact decide_eq_true (h f hf)
  rw [groupRun, collect_eq_ok hall]
  rfl

/-! ## All readers of lists -/

theorem isSome_action? (f : Fragment) : f.action?.isSome = decide (f.facet ∈ [Facet.actions]) := by
  cases f <;> rfl

theorem isSome_on? (f : Fragment) : f.on?.isSome = decide (f.facet ∈ [Facet.on]) := by
  cases f <;> rfl

namespace Builder

theorem isTransitionPart_eq (f : Fragment) :
    isTransitionPart f = decide (f.facet ∈ [Facet.target, .actions, .cond]) := by
  cases f <;> rfl

theorem isBranchPart_eq (f : Fragment) :
    isBranchPart f = decide (f.facet ∈ [Facet.actions, .cond]) := by
  cases f <;> rfl

theorem screens_collectActions (site : Site) (fs : List Fragment) :
    (Report.ofExcept (collectActions site fs)).Screens [.actions] site fs :=
  (screens_collect isSome_action?).bind_ofExcept fun _ => ⟨_, rfl⟩

end Builder

open Builder in
/-- Whatever is made of a list of fragments, the list is screened for the facets that can stand in
it. A run without foreign fragments is grouped in one way, whatever the transitions are for. -/
theorem screens_lists (fs : List Fragment) :
    (groupRun fs).Screens Token.facets .transitionRun fs ∧
    (∀ event, (on event fs).Screens Token.facets .transitionRun fs) ∧
    (onDone fs).Screens Token.facets .transitionRun fs ∧
    (onError fs).Screens Token.facets .transitionRun fs ∧
    (always fs).Screens Token.facets .transitionRun fs ∧
    (∀ delay, (delayed delay fs).Screens Token.facets .transitionRun fs) ∧
    (Report.ofExcept (transition fs)).Screens [.target, .actions, .cond] .transition fs ∧
    (Report.ofExcept (branch fs)).Screens [.actions, .cond] .branch fs ∧
    (Report.ofExcept (entry fs)).Screens [.actions] .entry fs ∧
    (Report.ofExcept (exit fs)).Screens [.actions] .exit fs ∧
    (mergeActions fs).Screens [.actions] .actionMerge fs ∧
    (Report.ofExcept (mergeEventTables fs)).Screens [.on] .eventTableMerge fs ∧
    ((∀ f ∈ fs, f.facet ∈ Token.facets) → ∃ ts,
      groupRun fs = ⟨[.grouped ts.length], .ok ts⟩ ∧
      (∀ event, on event fs = ⟨[.grouped ts.length], .ok (.on ⟨[(event, ts)]⟩)⟩) ∧
      onDone fs = ⟨[.grouped ts.length], .ok (.onDone ts)⟩ ∧
      onError fs = ⟨[.grouped ts.length], .ok (.onError ts)⟩ ∧
      always fs = ⟨[.grouped ts.length], .ok (.always ts)⟩ ∧
      ∀ delay, delayed delay fs = ⟨[.grouped ts.length], .ok ⟨delay, ts⟩⟩) := by
  have hrun := screens_groupRun fs
  refine ⟨hrun, fun _ => hrun.bind fun _ => ⟨_, rfl⟩, hrun.bind fun _ => ⟨_, rfl⟩,
    hrun.bind fun _ => ⟨_, rfl⟩, hrun.bind fun _ => ⟨_, rfl⟩, fun _ => hrun.bind fun _ => ⟨_, rfl⟩,
    (screens_requireAll isTransitionPart_eq).bind_ofExcept fun _ => ⟨_, rfl⟩,
    (screens_requireAll isBranchPart_eq).bind_ofExcept fun _ => ⟨_, rfl⟩,
    (screens_collectActions .entry fs).bind_ofExcept fun _ => ⟨_, rfl⟩,
    (screens_collectActions .exit fs).bind_ofExcept fun _ => ⟨_, rfl⟩,
    (screens_collect isSome_action?).bind fun _ => ⟨_, rfl⟩,
    (screens_collect isSome_on?).bind_ofExcept fun _ => ⟨_, rfl⟩, fun h => ?_⟩
  have hgroup := groupRun_eq_ok h
  exact ⟨_, hgroup, fun event => by rw [on, hgroup]; rfl, by rw [onDone, hgroup]; rfl,
    by rw [onError, hgroup]; rfl, by rw [always, hgroup]; rfl,
    fun delay => by rw [delayed, hgroup]; rfl⟩

open Builder in
/-- Of two foreign fragments the first is reported, nested contents as states. The guard is foreign to
the entry of a state only, and the transitions that it ends are the same for an event and a delay. -/
theorem screens_lists_nested :
    let foreign : List Fragment := [.run "x", .guard "p", .nested [.id "y"], .id "z"]
    let run : List Fragment := [.target "a", .guard "p", .target "b"]
    let ts : List Transition := [{ target := some "a", cond := some (.named "p") }, .ofTarget "b"]
    (onDone foreign).outcome = .error (.unexpectedFragment .states 2 .transitionRun) ∧
    (onDone foreign).events = [] ∧
    branch foreign = .error (.unexpectedFragment .states 2 .branch) ∧
    entry foreign = .error (.unexpectedFragment .cond 1 .entry) ∧
    (∀ f ∈ run, f.facet ∈ Token.facets) ∧ on "GO" run = ⟨[.grouped 2], .ok (.on ⟨[("GO", ts)]⟩)⟩ ∧
    delayed (.millis 5) run = ⟨[.grouped 2], .ok ⟨.millis 5, ts⟩⟩ := by
  intro foreign run ts
  obtain ⟨_, _, hdone, _, _, _, _, hbranch, hentry, _⟩ := screens_lists foreign
  have hrun : ∀ f ∈ run, f.facet ∈ Token.facets := by decide
  obtain ⟨_, _, _, _, _, _, _, _, _, _, _, _, hcarry⟩ := screens_lists run
  obtain ⟨us, hgroup, hon, _, _, _, hdelayed⟩ := hcarry hrun
  obtain rfl : ts = us := Except.ok.inj (congrArg Report.outcome hgroup)
  have hfirst {q : Fragment → Bool} {i : Nat} {f : Fragment}
      (hp : (Placed.ofList foreign).find? (q ·.fragment) = some ⟨i, f⟩) : FirstAt q foreign i f :=
    find?_ofList.mp hp
  have hnested := (hdone.error_iff _).mpr ⟨2, .nested [.id "y"], hfirst rfl, rfl⟩
  exact ⟨hnested, hdone.silent _ hnested, (hbranch.error_iff _).mpr ⟨2, _, hfirst rfl, rfl⟩,
    (hentry.error_iff _).mpr ⟨1, _, hfirst rfl, rfl⟩, hrun, hon "GO", hdelayed _⟩

end Statechart
