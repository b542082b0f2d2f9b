import Statechart.Proofs.Matching
import Statechart.Proofs.Rendering

/-!
# JSON that users give

Users give JSON as contexts, meta data and data, in assignments and in messages. A rendered node has
all of it as it was given, wherever in the node it stands (`renders_of_outcome`).
-/

namespace Statechart

/-! ## Paths -/

namespace Json

/-- A step into a value: to the member under a key, or to the item at an index. -/
inductive Step where
  | member (key : String)
  | item (index : Nat)

/-- The part of a value to which a step leads. -/
def step? : Json → Step → Option Json
  | obj members, .member key => members.get? key
  | arr items, .item i => items[i]?
  | _, _ => none

/-- The part of a value at the end of a path. -/
def at? (json : Json) : List Step → Option Json
  | [] => some json
  | s :: path => (json.step? s).bind (·.at? path)

theorem at?_item {α : Type} (f : α → Json) {xs : List α} {i : Nat} {x : α} (h : xs[i]? = some x)
    (path : List Step) : (arr (xs.map f)).at? (.item i :: path) = (f x).at? path := by
  rw [at?, step?, List.getElem?_map, h, Option.map_some, Option.bind_some]

theorem at?_member {α : Type} (f : α → Json) {t : Table α} {key : String} {x : α}
    (h : t.get? key = some x) (path : List Step) :
    (obj (t.map f)).at? (.member key :: path) = (f x).at? path := by
  rw [at?, step?, Table.get?_map, h, Option.map_some, Option.bind_some]

theorem at?_setMembers {fields : List (String × Option Json)} (hkeys : (fields.map (·.1)).Nodup)
    {key : String} {json : Json} (h : (key, some json) ∈ fields) (path : List Step) :
    (object (setMembers fields)).at? (.member key :: path) = json.at? path := by
  have hget : (⟨setMembers fields⟩ : Table Json).get? key = some json :=
    Table.get?_of_mem (t := ⟨setMembers fields⟩) (nodup_setMembers hkeys) (mem_setMembers.mpr h)
  rw [object, at?, step?, hget, Option.bind_some]

end Json

/-! ## What fragments show -/

/-- In the rendered mapping, `json` is to be found at `path`: what the mapping was made from, or a
literal under its key. -/
inductive Mapping.Shows : Mapping → List Json.Step → Json → Prop
  | whole (json : Json) : Shows (.ofJson json) [] json
  | property {table : Table Property} {key json} :
      table.get? key = some (.value json) → Shows (.properties table) [.member key] json

/-- In the rendered action, `json` is to be found at `path`: an assignment of what users give or a
part of it, or the event of a message, at any depth. -/
inductive Action.Shows : Action → List Json.Step → Json → Prop
  | assign (json : Json) : Shows (.assign (.ofJson json)) []
      (.object [("type", .str "xstate.assign"), ("assignment", json)])
  | assignment {m : Mapping} {path json} :
      m.Shows path json → Shows (.assign m) (.member "assignment" :: path) json
  | message (s : Send) : Shows (.send s) [.member "event"] s.event
  | branch {bs : List (Branch Action)} {b a path json} {i j : Nat} :
      bs[i]? = some b → b.actions[j]? = some a → Shows a path json →
      Shows (.choose bs) (.member "conds" :: .item i :: .member "actions" :: .item j :: path) json
  | part {parts : List Action} {a path json} {i : Nat} :
      parts[i]? = some a → Shows a path json → Shows (.composed parts) (.item i :: path) json

/-- In the rendered transition, `json` is to be found at `path`, in one of its actions. -/
inductive Transition.Shows : Transition → List Json.Step → Json → Prop
  | action {t : Transition} {actions a path json} {i : Nat} :
      t.actions = some actions → actions[i]? = some a → a.Shows path json →
      Shows t (.member "actions" :: .item i :: path) json

/-- In the value that the fragment gives to its facet, `json` is to be found at `path`: as the whole
value, in an action, or in a facet of a service or of a nested state, at any depth. -/
inductive Fragment.Shows : Fragment → List Json.Step → Json → Prop
  | context (json : Json) : Shows (.context json) [] json
  | metadata (json : Json) : Shows (.metadata json) [] json
  | data {m : Mapping} {path json} : m.Shows path json → Shows (.data m) path json
  | entry {actions : List Action} {a path json} {i : Nat} :
      actions[i]? = some a → a.Shows path json → Shows (.entry actions) (.item i :: path) json
  | exit {actions : List Action} {a path json} {i : Nat} :
      actions[i]? = some a → a.Shows path json → Shows (.exit actions) (.item i :: path) json
  | onDone {ts : List Transition} {t path json} {i : Nat} :
      ts[i]? = some t → t.Shows path json → Shows (.onDone ts) (.item i :: path) json
  | onError {ts : List Transition} {t path json} {i : Nat} :
      ts[i]? = some t → t.Shows path json → Shows (.onError ts) (.item i :: path) json
  | always {ts : List Transition} {t path json} {i : Nat} :
      ts[i]? = some t → t.Shows path json → Shows (.always ts) (.item i :: path) json
  | on {table : EventTable} {event ts t path json} {i : Nat} :
      table.get? event = some ts → ts[i]? = some t → t.Shows path json →
      Shows (.on table) (.member event :: .item i :: path) json
  | after {table : EventTable} {delay ts t path json} {i : Nat} :
      table.get? delay = some ts → ts[i]? = some t → t.Shows path json →
      Shows (.after table) (.member delay :: .item i :: path) json
  | invoke {service : Invocation} {p path json} :
      p ∈ setFacets service → Shows p path json →
      Shows (.invoke service) (.member p.facet.key :: path) json
  | states {children : Table StateNode} {name n p path json} :
      children.get? name = some n → p ∈ setFacets n → Shows p path json →
      Shows (.states children) (.member name :: .member p.facet.key :: path) json

/-! ## What is shown is rendered -/

@[simp] theorem Mapping.toJson_ofJson (json : Json) : (Mapping.ofJson json).toJson = json := by
  cases json with
  | obj members =>
      obtain ⟨ms⟩ := members
      simp [ofJson, toJson, Property.toJson, Table.map, Function.comp_def]
  | _ => rfl

theorem Mapping.Shows.at?_toJson {m : Mapping} {path : List Json.Step} {json : Json}
    (h : m.Shows path json) : m.toJson.at? path = some json := by
  cases h with
  | whole => rw [toJson_ofJson, Json.at?]
  | property hget => exact Json.at?_member Property.toJson hget []

namespace Action

theorem toJsonList_eq_map (actions : List Action) : toJsonList actions = actions.map toJson := by
  induction actions with
  | nil => rfl
  | cons a actions ih => rw [toJsonList, ih, List.map_cons]

theorem toJsonBranches_eq_map (bs : List (Branch Action)) :
    toJsonBranches bs = bs.map Branch.toJson := by
  induction bs with
  | nil => rfl
  | cons b bs ih => rw [toJsonBranches, ih, toJsonList_eq_map, List.map_cons, Branch.toJson]

theorem at?_choose {bs : List (Branch Action)} {b : Branch Action} {a : Action} {i j : Nat}
    (hb : bs[i]? = some b) (ha : b.actions[j]? = some a) (path : List Json.Step) :
    (toJson (.choose bs)).at? (.member "conds" :: .item i :: .member "actions" :: .item j :: path) =
      a.toJson.at? path := by
  have hconds (rest : List Json.Step) : (toJson (.choose bs)).at? (.member "conds" :: rest) =
      (Json.arr (bs.map Branch.toJson)).at? rest := by
    rw [toJson, toJsonBranches_eq_map]
    rfl
  rw [hconds, Json.at?_item _ hb, Branch.toJson, ofBranch_eq,
    Json.at?_setMembers (by simp) (.tail _ (.head _)), Json.at?_item _ ha]

theorem Shows.at?_toJson {a : Action} {path : List Json.Step} {json : Json} (h : a.Shows path json) :
    a.toJson.at? path = some json := by
  induction h with
  | assign json => rw [toJson, Mapping.toJson_ofJson, Json.at?]
  | assignment hm => exact hm.at?_toJson
  | message s => rfl
  | branch hb ha _ ih => rw [at?_choose hb ha, ih]
  | part ha _ ih => rw [toJson, toJsonList_eq_map, Json.at?_item _ ha, ih]

end Action

theorem Transition.Shows.at?_toJson {t : Transition} {path : List Json.Step} {json : Json}
    (h : t.Shows path json) : t.toJson.at? path = some json := by
  cases h with
  | @action actions _ _ _ _ hactions ha hshows =>
      have hfield : ("actions", some (Json.ofActions actions)) ∈ t.fields := by
        rw [fields, hactions]
        exact .tail _ (.head _)
      rw [toJson_eq, Json.at?_setMembers t.nodup_fields hfield, Json.ofActions,
        Json.at?_item _ ha, hshows.at?_toJson]

/-! ## Nodes -/

section

variable {ν : Type} [Assemblable ν] [Faceted ν]

theorem mem_facetFields {n : ν} {p : Fragment} (hp : p ∈ setFacets n) {payload : Json}
    (h : p.payload? = some payload) : (p.facet.key, some payload) ∈ facetFields n := by
  obtain ⟨hfacet, hn⟩ := mem_setFacets.mp hp
  refine List.mem_map.mpr ⟨p.facet, hfacet, ?_⟩
  rw [hn, Option.bind_some, h]

theorem mem_setFacets_of_findRev? {options : Options} {fs : List Fragment} {n : ν}
    (hn : (assemble options fs).outcome = .ok n) {p : Fragment}
    (hp : (effective options.relocateReservedEvents fs).findRev? (·.facet = p.facet) = some p) :
    p ∈ setFacets n := by
  have hfacet : Faceted.facet? n p.facet = some p :=
    ((outcome_assemble_eq_ok_iff.mp hn).2.2.2.facet p.facet).trans hp
  exact mem_setFacets.mpr ⟨(assembled_of_outcome hn).facets _ p hfacet, hfacet⟩

end

theorem StateNode.at?_toJson {n : StateNode} {p : Fragment} (hp : p ∈ setFacets n) {payload : Json}
    (h : p.payload? = some payload) (path : List Json.Step) :
    n.toJson.at? (.member p.facet.key :: path) = payload.at? path := by
  rw [toJson_eq_facetFields, Json.at?_setMembers n.nodup_facetFields (mem_facetFields hp h)]

theorem Invocation.at?_toJson {i : Invocation} {p : Fragment} (hp : p ∈ setFacets i) {payload : Json}
    (h : p.payload? = some payload) (path : List Json.Step) :
    i.toJson.at? (.member p.facet.key :: path) = payload.at? path := by
  have hfield : (p.facet.key, some payload) ∈ i.fields := by
    rw [fields_eq]
    exact .tail _ (mem_facetFields hp h)
  rw [toJson_eq, Json.at?_setMembers i.nodup_fields hfield]

/-- What a fragment shows is in the value that it gives to its facet. -/
theorem Fragment.Shows.exists_payload {p : Fragment} {path : List Json.Step} {json : Json}
    (h : p.Shows path json) : ∃ payload, p.payload? = some payload ∧ payload.at? path = some json := by
  induction h with
  | context json | metadata json => exact ⟨json, rfl, rfl⟩
  | data hm => exact ⟨_, rfl, hm.at?_toJson⟩
  | entry ha hshows | exit ha hshows =>
      exact ⟨_, rfl, (Json.at?_item Action.toJson ha _).trans hshows.at?_toJson⟩
  | onDone ht hshows | onError ht hshows | always ht hshows =>
      exact ⟨_, rfl, (Json.at?_item Transition.toJson ht _).trans hshows.at?_toJson⟩
  | on hts ht hshows | after hts ht hshows =>
      refine ⟨_, rfl, (Json.at?_member Json.ofTransitions hts _).trans ?_⟩
      exact (Json.at?_item Transition.toJson ht _).trans hshows.at?_toJson
  | invoke hp _ ih =>
      obtain ⟨payload, hpayload, hat⟩ := ih
      exact ⟨_, rfl, (Invocation.at?_toJson hp hpayload _).trans hat⟩
  | states hn hp _ ih =>
      obtain ⟨payload, hpayload, hat⟩ := ih
      refine ⟨_, rfl, (Json.at?_member StateNode.toJson hn _).trans ?_⟩
      exact (StateNode.at?_toJson hp hpayload _).trans hat

/-- What the last fragment for each facet shows is in the object, in the member of that facet. -/
def Json.ShowsAll (json : Json) (ps : List Fragment) : Prop :=
  ∀ p path given, ps.findRev? (·.facet = p.facet) = some p → p.Shows path given →
    json.at? (.member p.facet.key :: path) = some given

/-- An assembled node is rendered with the members that its effective fragments give it, and all
that users gave as JSON is in them as it was given. A service has the member `src` before all
others. -/
theorem renders_of_outcome (options : Options) (fs : List Fragment) :
    (∀ n : StateNode, (assemble options fs).outcome = .ok n →
      (∃ members, n.toJson = .object members ∧
        Renders StateNode.memberNames (effective options.relocateReservedEvents fs) members) ∧
      n.toJson.ShowsAll (effective options.relocateReservedEvents fs)) ∧
    ∀ i : Invocation, (assemble options fs).outcome = .ok i → ∀ src,
      (∃ members, ({ i with src } : Invocation).toJson = .object (("src", .str src) :: members) ∧
        Renders Invocation.memberNames (effective options.relocateReservedEvents fs) members) ∧
      ({ i with src } : Invocation).toJson.ShowsAll
        (effective options.relocateReservedEvents fs) := by
  refine ⟨fun n hn => ⟨?_, fun p path json hp hshows => ?_⟩,
    fun i hi src => ⟨?_, fun p path json hp hshows => ?_⟩⟩
  · exact ⟨_, n.toJson_eq_facetFields, renders_assembled hn StateNode.nodup_memberNames⟩
  · obtain ⟨payload, hpayload, hat⟩ := hshows.exists_payload
    have hmem : p ∈ setFacets n := mem_setFacets_of_findRev? hn hp
    exact (StateNode.at?_toJson hmem hpayload path).trans hat
  · exact ⟨_, Invocation.toJson_eq_facetFields _, renders_assembled hi Invocation.nodup_memberNames⟩
  · obtain ⟨payload, hpayload, hat⟩ := hshows.exists_payload
    -- The facets of a service do not depend on its name.
    have hmem : p ∈ setFacets ({ i with src } : Invocation) := mem_setFacets_of_findRev? (n := i) hi hp
    exact (Invocation.at?_toJson hmem hpayload path).trans hat

/-- The same JSON as context, as data, and assigned: on entry, by the transitions of a relocated
event, and by a choice in a nested state, which also hands it to its service. -/
theorem renders_of_outcome_relocated :
    let json : Json := .obj ⟨[("b", .null), ("a", .arr [])]⟩
    let assign : Action := .assign (.ofJson json)
    let child : StateNode := {
      exit := some [.choose [⟨none, [.named "log", assign]⟩]]
      invoke := some { src := "load", data := some (.ofJson json) } }
    let fs : List Fragment := [.metadata .null, .dataOf json,
      .on ⟨[("done", [{ target := some "a", actions := some [assign] }])]⟩,
      .nested [.states ⟨[("a", child)]⟩, .initial "a"], .context json,
      .entry [.composed [.named "log", assign]]]
    let assigned : Json := .object [("type", .str "xstate.assign"), ("assignment", json)]
    (∃ (n : StateNode) (members : List (String × Json)),
      (assemble {} fs).outcome = .ok n ∧ n.toJson = .object members ∧
      members.map (·.1) = ["initial", "context", "states", "entry", "onDone", "meta", "data"] ∧
      n.toJson.at? [.member "context"] = some json ∧ n.toJson.at? [.member "meta"] = some .null ∧
      n.toJson.at? [.member "data"] = some json ∧
      n.toJson.at? [.member "entry", .item 0, .item 1] = some assigned ∧
      n.toJson.at? [.member "onDone", .item 0, .member "actions", .item 0] = some assigned ∧
      n.toJson.at? [.member "states", .member "a", .member "exit", .item 0, .member "conds", .item 0,
        .member "actions", .item 1, .member "assignment"] = some json ∧
      n.toJson.at? [.member "states", .member "a", .member "invoke", .member "data"] = some json) ∧
    ∃ i : Invocation, (assemble {} [.dataOf json]).outcome = .ok i ∧
      ({ i with src := "load" } : Invocation).toJson.at? [.member "data"] = some json := by
  intro json assign child fs assigned
  have hevents : mergedEvents (unnested fs) =
      ⟨[("done", [{ target := some "a", actions := some [assign] }])]⟩ :=
    Table.gathered_entries (List.nodup_singleton _)
  have hfs : effective true fs = [.metadata .null, .dataOf json, .context json,
      .entry [.composed [.named "log", assign]], .states ⟨[("a", child)]⟩, .initial "a",
      .onDone [{ target := some "a", actions := some [assign] }]] := by
    rw [effective, hevents]
    rfl
  have haccepts : ∀ p ∈ effective true fs, accepts StateNode p = true := by
    rw [hfs]
    decide
  have hpolicy : ({} : Options).duplicates ≠ .reject := by decide
  obtain ⟨n, hn⟩ : ∃ n : StateNode, (assemble {} fs).outcome = .ok n :=
    ⟨_, outcome_assemble_eq_ok_iff.mpr
      ⟨by decide, haccepts, fun h => absurd h hpolicy, describes_fill haccepts⟩⟩
  obtain ⟨⟨members, htext, hmembers⟩, hshows⟩ := (renders_of_outcome {} fs).1 n hn
  rw [hfs] at hmembers hshows
  have hkeys := hmembers.keys.trans
    (by decide +kernel : _ = ["initial", "context", "states", "entry", "onDone", "meta", "data"])
  have hassign : assign.Shows [] assigned := .assign json
  have hcontext := hshows (.context json) [] json rfl (.context json)
  have hmeta := hshows (.metadata .null) [] .null rfl (.metadata .null)
  have hdata := hshows (.dataOf json) [] json rfl (.data (.whole json))
  have hentry := hshows (.entry [.composed [.named "log", assign]]) [.item 0, .item 1] assigned
    rfl (.entry rfl (.part rfl hassign))
  have hdone := hshows (.onDone [{ target := some "a", actions := some [assign] }])
    [.item 0, .member "actions", .item 0] assigned rfl (.onDone rfl (.action rfl rfl hassign))
  have hchild : setFacets child = [.exit [.choose [⟨none, [.named "log", assign]⟩]],
      .invoke { src := "load", data := some (.ofJson json) }] := rfl
  have hexit := hshows (.states ⟨[("a", child)]⟩) [.member "a", .member "exit", .item 0,
    .member "conds", .item 0, .member "actions", .item 1, .member "assignment"] json rfl
    (.states rfl (hchild ▸ List.mem_cons_self)
      (.exit rfl (.branch rfl rfl (.assignment (.whole json)))))
  have hinvoke := hshows (.states ⟨[("a", child)]⟩) [.member "a", .member "invoke", .member "data"]
    json rfl
    (.states rfl (hchild ▸ List.mem_cons_of_mem _ List.mem_cons_self)
      (.invoke (List.mem_singleton_self _) (.data (.whole json))))
  have hservice := ((renders_of_outcome {} [.dataOf json]).2 _ rfl "load").2 (.dataOf json) [] json
    rfl (.data (.whole json))
  exact ⟨⟨n, members, hn, htext, hkeys, hcontext, hmeta, hdata, hentry, hdone, hexit, hinvoke⟩, _,
    rfl, hservice⟩

end Statechart
