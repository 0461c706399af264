import FeastRegistry.WellFormed
import Mathlib.Data.List.Perm.Basic

/-!
# The diff of two snapshots

`Registry.diff_between(current_registry, new_registry)` walks the six collections in a fixed
order. For each it tags the objects with `tag_proto_objects_for_keep_delete_add` and appends to
the `RegistryDiff` one CREATE record per object to add, one DELETE record per object to delete,
and the `diff_between` of each object to keep with the first current entry of its name. The
helpers of `feast.diff.FcoDiff` are not among the sources: `tagProtoObjectsForKeepDeleteAdd` and
`FcoDiff.diffBetween` follow the spec's partition "by matching on name" and its field-by-field
comparison.

The loops append, so the change set is the records of the six object types one after the other
(`diffBetween_fcoDiffs`), and the records of one type are those of `objectTypeRecords`
(`ofType_diffBetween`). Objects are matched by name, not by `(name, project)`; a kept object is
paired with `List.find?` of its name in the current collection, and that is the only place where
the order of the current collection matters (`objectTypeRecords_perm`).
-/

set_option autoImplicit false

namespace Feast

open scoped List

/-- Modelled from the spec: `TransitionType` of `feast.diff.FcoDiff`, the tag of a change
record. `unchanged` tags a kept object none of whose fields differ, which the spec excludes from
the change set. -/
inductive TransitionType
  | create
  | delete
  | update
  | unchanged
deriving DecidableEq, Repr

/-- Modelled from the spec: `PropertyDiff`, one differing field with its old and new value. -/
structure PropertyDiff where
  propertyName : String
  valExisting : String
  valDeclared : String
deriving DecidableEq, Repr

/-- Modelled from the spec: `FcoDiff`, the change record of one object:
`FcoDiff(name, fco_type, current_fco, new_fco, fco_property_diffs, transition_type)`. -/
structure FcoDiff where
  name : String
  fcoType : String
  current : Option ObjectProto
  new : Option ObjectProto
  fcoPropertyDiffs : List PropertyDiff
  transitionType : TransitionType
deriving DecidableEq, Repr

/-- Modelled from the spec: `RegistryDiff`, the change set, "an ordered sequence of Change
Records"; `add_fco_diff` appends one. -/
structure RegistryDiff where
  fcoDiffs : List FcoDiff := []
deriving DecidableEq, Repr

/-- `RegistryDiff.add_fco_diff`. -/
def RegistryDiff.addFcoDiff (diff : RegistryDiff) (fcoDiff : FcoDiff) : RegistryDiff :=
  ⟨diff.fcoDiffs ++ [fcoDiff]⟩

/-- Modelled from the spec: `tag_proto_objects_for_keep_delete_add(existing_objs, desired_objs)`
of `feast.diff.FcoDiff`, the partition "by matching on name": the desired objects whose name is
used by an existing one (to keep), the existing objects whose name is not desired (to delete)
and the desired objects whose name is new (to add), each in its input order. -/
def tagProtoObjectsForKeepDeleteAdd (existingObjs desiredObjs : List ObjectProto) :
    List ObjectProto × List ObjectProto × List ObjectProto :=
  let existingObjNames := existingObjs.map (·.spec.name)
  let desiredObjNames := desiredObjs.map (·.spec.name)
  (desiredObjs.filter (·.spec.name ∈ existingObjNames),
    existingObjs.filter (·.spec.name ∉ desiredObjNames),
    desiredObjs.filter (·.spec.name ∉ existingObjNames))

/-- The fields of a `spec`, by name. -/
def specFields : List (String × (Spec → String)) :=
  [("name", Spec.name), ("project", Spec.project), ("definition", Spec.definition)]

/-- Modelled from the spec: `diff_between(current, new, object_type)` of `feast.diff.FcoDiff`,
"a structural field comparison": a `PropertyDiff` for each field of the spec that differs, and
UPDATE when there is one. The model compares the `project` field too, which the released
`FcoDiff.diff_between` (not in `src/`) leaves out of its comparison. -/
def FcoDiff.diffBetween (current new : ObjectProto) (objectType : String) : FcoDiff :=
  let propertyDiffs := specFields.filterMap fun (field, get) =>
    if get current.spec = get new.spec then none
    else some ⟨field, get current.spec, get new.spec⟩
  { name := new.spec.name, fcoType := objectType, current := some current, new := some new,
    fcoPropertyDiffs := propertyDiffs,
    transitionType := if propertyDiffs = [] then .unchanged else .update }

/-- `attribute_to_object_type_str`. -/
def Collection.objectTypeStr : Collection → String
  | .entities => "entity"
  | .featureViews => "feature view"
  | .featureTables => "feature table"
  | .onDemandFeatureViews => "on demand feature view"
  | .requestFeatureViews => "request feature view"
  | .featureServices => "feature service"

/-- The object types in the order `diff_between` walks them. -/
def diffObjectTypes : List Collection :=
  [.entities, .featureViews, .featureTables, .onDemandFeatureViews, .requestFeatureViews,
    .featureServices]

/-- `[_e for _e in current if _e.spec.name == e.spec.name][0]`, `none` where Python raises
`IndexError`, which no object to keep reaches (`find?_name_of_mem`). -/
def currentObjProto (current : List ObjectProto) (e : ObjectProto) : Option ObjectProto :=
  (current.filter (·.spec.name == e.spec.name)).head?

/-- The three loops of `diff_between` over one object type. -/
def diffObjectType (currentRegistry newRegistry : RegistryProto) (diff : RegistryDiff)
    (objectType : Collection) : RegistryDiff :=
  let (objectsToKeep, objectsToDelete, objectsToAdd) := tagProtoObjectsForKeepDeleteAdd
    (currentRegistry.collection objectType) (newRegistry.collection objectType)
  let diff := objectsToAdd.foldl (fun diff e => diff.addFcoDiff
    ⟨e.spec.name, objectType.objectTypeStr, none, some e, [], .create⟩) diff
  let diff := objectsToDelete.foldl (fun diff e => diff.addFcoDiff
    ⟨e.spec.name, objectType.objectTypeStr, some e, none, [], .delete⟩) diff
  objectsToKeep.foldl (fun diff e =>
    (currentObjProto (currentRegistry.collection objectType) e).elim diff fun current =>
      diff.addFcoDiff (FcoDiff.diffBetween current e objectType.objectTypeStr)) diff

/-- `Registry.diff_between(current_registry, new_registry)`. -/
def Registry.diffBetween (currentRegistry newRegistry : RegistryProto) : RegistryDiff :=
  diffObjectTypes.foldl (diffObjectType currentRegistry newRegistry) {}

/-! ## The loops append -/

namespace RegistryDiff

/-- The records of object type `c`. -/
def ofType (diff : RegistryDiff) (c : Collection) : List FcoDiff :=
  diff.fcoDiffs.filter (·.fcoType == c.objectTypeStr)

theorem foldl_addFcoDiff {α : Type} (xs : List α) (f : α → FcoDiff) (diff : RegistryDiff) :
    (xs.foldl (fun diff e => diff.addFcoDiff (f e)) diff).fcoDiffs = diff.fcoDiffs ++ xs.map f := by
  induction xs generalizing diff with
  | nil => simp
  | cons x xs ih => rw [List.foldl_cons, ih]; simp [addFcoDiff]

theorem foldl_elim_addFcoDiff {α β : Type} (xs : List α) (g : α → Option β)
    (f : α → β → FcoDiff) (diff : RegistryDiff) :
    (xs.foldl (fun diff e => (g e).elim diff fun x => diff.addFcoDiff (f e x)) diff).fcoDiffs =
      diff.fcoDiffs ++ xs.filterMap fun e => (g e).map (f e) := by
  induction xs generalizing diff with
  | nil => simp
  | cons x xs ih =>
    rw [List.foldl_cons, ih]
    cases h : g x <;> simp [h, addFcoDiff, List.filterMap_cons]

end RegistryDiff

/-- The records `diff_between` appends for object type `c`: the CREATE records, the DELETE
records, and the `FcoDiff.diffBetween` of each kept object with the first current entry of its
name. -/
def objectTypeRecords (A B : RegistryProto) (c : Collection) : List FcoDiff :=
  ((B.collection c).filter (·.spec.name ∉ A.names c)).map
      (fun e => ⟨e.spec.name, c.objectTypeStr, none, some e, [], .create⟩) ++
    ((A.collection c).filter (·.spec.name ∉ B.names c)).map
      (fun e => ⟨e.spec.name, c.objectTypeStr, some e, none, [], .delete⟩) ++
    ((B.collection c).filter (·.spec.name ∈ A.names c)).filterMap fun e =>
      ((A.collection c).find? (·.spec.name == e.spec.name)).map fun x =>
        FcoDiff.diffBetween x e c.objectTypeStr

theorem diffObjectType_fcoDiffs (A B : RegistryProto) (diff : RegistryDiff) (c : Collection) :
    (diffObjectType A B diff c).fcoDiffs = diff.fcoDiffs ++ objectTypeRecords A B c := by
  simp only [diffObjectType, tagProtoObjectsForKeepDeleteAdd, currentObjProto, List.filter_head?,
    RegistryDiff.foldl_elim_addFcoDiff, RegistryDiff.foldl_addFcoDiff, objectTypeRecords,
    RegistryProto.names, List.append_assoc]

theorem diffBetween_fcoDiffs (A B : RegistryProto) :
    (Registry.diffBetween A B).fcoDiffs = diffObjectTypes.flatMap (objectTypeRecords A B) := by
  suffices ∀ (cs : List Collection) (diff : RegistryDiff),
      (cs.foldl (diffObjectType A B) diff).fcoDiffs =
        diff.fcoDiffs ++ cs.flatMap (objectTypeRecords A B) from by
    simpa using this diffObjectTypes {}
  intro cs
  induction cs with
  | nil => simp
  | cons c cs ih => simp [ih, diffObjectType_fcoDiffs]

/-! ## Records of one object type -/

@[simp] theorem FcoDiff.diffBetween_fcoType (x y : ObjectProto) (t : String) :
    (FcoDiff.diffBetween x y t).fcoType = t := rfl

@[simp] theorem FcoDiff.diffBetween_current (x y : ObjectProto) (t : String) :
    (FcoDiff.diffBetween x y t).current = some x := rfl

@[simp] theorem FcoDiff.diffBetween_new (x y : ObjectProto) (t : String) :
    (FcoDiff.diffBetween x y t).new = some y := rfl

/-- A kept object is UPDATE exactly when some field of its spec changed. -/
theorem FcoDiff.diffBetween_transitionType (x y : ObjectProto) (t : String) :
    (FcoDiff.diffBetween x y t).transitionType =
      if x.spec = y.spec then .unchanged else .update := by
  obtain ⟨⟨n, p, d⟩, _⟩ := x
  obtain ⟨⟨n', p', d'⟩, _⟩ := y
  simp only [FcoDiff.diffBetween, specFields, List.filterMap_cons, List.filterMap_nil, Spec.mk.injEq]
  by_cases n = n' <;> by_cases p = p' <;> by_cases d = d' <;> simp [*]

theorem Collection.objectTypeStr_inj {c d : Collection} (h : c.objectTypeStr = d.objectTypeStr) :
    c = d := by
  cases c <;> cases d <;> first | rfl | exact absurd h (by decide)

/-- The `[0]` of `diff_between` finds an entry for every object to keep. -/
theorem find?_name_of_mem {l : List ObjectProto} {n : String} (h : n ∈ l.map (·.spec.name)) :
    ∃ x, l.find? (·.spec.name == n) = some x :=
  Option.isSome_iff_exists.1 (List.find?_isSome.2 (by simpa using h))

section ObjectType

variable (A B : RegistryProto) (c : Collection)

theorem fcoType_of_mem_objectTypeRecords {r : FcoDiff} (h : r ∈ objectTypeRecords A B c) :
    r.fcoType = c.objectTypeStr := by
  simp only [objectTypeRecords, List.mem_append, List.mem_map, List.mem_filterMap,
    Option.map_eq_some'] at h
  rcases h with (⟨e, -, rfl⟩ | ⟨e, -, rfl⟩) | ⟨e, -, x, -, rfl⟩ <;> rfl

theorem filter_fcoType_objectTypeRecords (d : Collection) :
    (objectTypeRecords A B d).filter (·.fcoType == c.objectTypeStr) =
      if d = c then objectTypeRecords A B d else [] := by
  split
  · exact List.filter_eq_self.2 fun r hr => by simp [fcoType_of_mem_objectTypeRecords _ _ _ hr, *]
  · refine List.filter_eq_nil_iff.2 fun r hr h => ‹d ≠ c› (Collection.objectTypeStr_inj ?_)
    simpa [fcoType_of_mem_objectTypeRecords _ _ _ hr] using h

/-- The records of object type `c` in the change set are those its loops appended. -/
theorem ofType_diffBetween : (Registry.diffBetween A B).ofType c = objectTypeRecords A B c := by
  simp only [RegistryDiff.ofType, diffBetween_fcoDiffs, List.filter_flatMap,
    filter_fcoType_objectTypeRecords]
  cases c <;> simp [diffObjectTypes]

theorem filter_create_objectTypeRecords :
    (objectTypeRecords A B c).filter (·.transitionType = .create) =
      ((B.collection c).filter (·.spec.name ∉ A.names c)).map
        (fun e => ⟨e.spec.name, c.objectTypeStr, none, some e, [], .create⟩) := by
  simp [objectTypeRecords, List.filter_append, List.filter_map, List.filter_filterMap,
    FcoDiff.diffBetween_transitionType, Function.comp_def, ite_eq_iff]

theorem filter_delete_objectTypeRecords :
    (objectTypeRecords A B c).filter (·.transitionType = .delete) =
      ((A.collection c).filter (·.spec.name ∉ B.names c)).map
        (fun e => ⟨e.spec.name, c.objectTypeStr, some e, none, [], .delete⟩) := by
  simp [objectTypeRecords, List.filter_append, List.filter_map, List.filter_filterMap,
    FcoDiff.diffBetween_transitionType, Function.comp_def, ite_eq_iff]

/-- One record per object of `B` whose name `A` uses, pairing it with the first entry of `A` of
that name. -/
theorem kept_objectTypeRecords :
    ((objectTypeRecords A B c).filter fun r => r.current.isSome && r.new.isSome).map
        (fun r => (r.current, r.new)) =
      ((B.collection c).filter (·.spec.name ∈ A.names c)).map
        fun e => ((A.collection c).find? (·.spec.name == e.spec.name), some e) := by
  simp [objectTypeRecords, List.filter_append, List.filter_map, Function.comp_def,
    List.filter_filterMap, List.map_filterMap]
  rw [← List.filterMap_eq_map]
  refine List.filterMap_congr fun e he => ?_
  obtain ⟨x, hx⟩ :=
    find?_name_of_mem (l := A.collection c) (of_decide_eq_true (List.mem_filter.1 he).2)
  simp only [hx, Function.comp_apply]
  rfl

theorem transitionType_of_mem_objectTypeRecords {r : FcoDiff} (h : r ∈ objectTypeRecords A B c) :
    r.transitionType = .update ↔ ∃ x y, r.current = some x ∧ r.new = some y ∧ x.spec ≠ y.spec := by
  simp only [objectTypeRecords, List.mem_append, List.mem_map, List.mem_filterMap,
    Option.map_eq_some'] at h
  rcases h with (⟨e, -, rfl⟩ | ⟨e, -, rfl⟩) | ⟨e, -, x, -, rfl⟩
  · simp
  · simp
  · simp [FcoDiff.diffBetween_transitionType, ite_eq_iff]

/-- Diffed with itself, a snapshot gives only the records of kept objects. -/
theorem mem_objectTypeRecords_self {r : FcoDiff}
    (h : r ∈ objectTypeRecords A A c) :
    ∃ x e, e ∈ A.collection c ∧ (A.collection c).find? (·.spec.name == e.spec.name) = some x ∧
      r = FcoDiff.diffBetween x e c.objectTypeStr := by
  have hno : ∀ e ∈ A.collection c, e.spec.name ∈ A.names c := fun e he =>
    List.mem_map_of_mem _ he
  simp only [objectTypeRecords, List.mem_append, List.mem_map, List.mem_filterMap, List.mem_filter,
    Option.map_eq_some', decide_not, Bool.not_eq_true', decide_eq_false_iff_not] at h
  rcases h with (⟨e, ⟨he, hn⟩, -⟩ | ⟨e, ⟨he, hn⟩, -⟩) | ⟨e, ⟨he, -⟩, x, hx, rfl⟩
  · exact absurd (hno e he) hn
  · exact absurd (hno e he) hn
  · exact ⟨x, e, he, hx, rfl⟩

theorem unchanged_of_mem_objectTypeRecords_self (hn : (A.names c).Nodup) {r : FcoDiff}
    (h : r ∈ objectTypeRecords A A c) : r.transitionType = .unchanged := by
  obtain ⟨x, e, he, hx, rfl⟩ := mem_objectTypeRecords_self A c h
  have hxe : x = e := List.inj_on_of_nodup_map hn (List.mem_of_find?_eq_some hx) he
    (by simpa using List.find?_some hx)
  simp [hxe, FcoDiff.diffBetween_transitionType]

end ObjectType

/-- `diff_between` matches objects by name. For each object type, the CREATE records are the
objects of `B` whose name `A` does not use, the DELETE records the objects of `A` whose name `B`
does not use, and the records pairing two objects are one per object `e` of `B` whose name `A`
uses, paired with the first entry of `A` of that name; such a record is UPDATE exactly when the
two specs differ. A snapshot diffed with itself gives no CREATE or DELETE record, and no UPDATE
record in a collection whose names are unique. -/
theorem diffBetween_partitions_by_name (A B : RegistryProto) (c : Collection) :
    (((Registry.diffBetween A B).ofType c).filter (·.transitionType = .create)).map FcoDiff.new =
        ((B.collection c).filter (·.spec.name ∉ A.names c)).map some ∧
      (((Registry.diffBetween A B).ofType c).filter (·.transitionType = .delete)).map
          FcoDiff.current =
        ((A.collection c).filter (·.spec.name ∉ B.names c)).map some ∧
      (((Registry.diffBetween A B).ofType c).filter fun r => r.current.isSome && r.new.isSome).map
          (fun r => (r.current, r.new)) =
        ((B.collection c).filter (·.spec.name ∈ A.names c)).map
          (fun e => ((A.collection c).find? (·.spec.name == e.spec.name), some e)) ∧
      (∀ r ∈ (Registry.diffBetween A B).ofType c,
        r.transitionType = .update ↔ ∃ x y, r.current = some x ∧ r.new = some y ∧ x.spec ≠ y.spec) ∧
      (∀ r ∈ (Registry.diffBetween A A).ofType c,
        r.transitionType ≠ .create ∧ r.transitionType ≠ .delete) ∧
      ((A.names c).Nodup →
        ∀ r ∈ (Registry.diffBetween A A).ofType c, r.transitionType = .unchanged) := by
  simp only [ofType_diffBetween]
  refine ⟨?_, ?_, kept_objectTypeRecords A B c,
    fun r => transitionType_of_mem_objectTypeRecords A B c, fun r hr => ?_,
    fun hn r => unchanged_of_mem_objectTypeRecords_self A c hn⟩
  · rw [filter_create_objectTypeRecords, List.map_map]; rfl
  · rw [filter_delete_objectTypeRecords, List.map_map]; rfl
  · obtain ⟨x, e, -, -, rfl⟩ := mem_objectTypeRecords_self A c hr
    simp [FcoDiff.diffBetween_transitionType, ite_eq_iff]

theorem diffBetween_self_unique_names_unchanged :
    let S : RegistryProto :=
      { entities := [⟨⟨"driver_id", "p1", "INT64"⟩, {}⟩, ⟨⟨"customer_id", "p1", "STRING"⟩, {}⟩] }
    (S.names .entities).Nodup ∧
      ∀ r ∈ (Registry.diffBetween S S).ofType .entities, r.transitionType = .unchanged := by
  intro S
  exact ⟨by decide, (diffBetween_partitions_by_name S S .entities).2.2.2.2.2 (by decide)⟩

theorem diff_matches_names_not_keys :
    let A : RegistryProto := { entities := [⟨⟨"driver_id", "p1", "INT64"⟩, {}⟩] }
    let B : RegistryProto := { entities := [⟨⟨"driver_id", "p2", "INT64"⟩, {}⟩] }
    let S : RegistryProto := { entities := A.entities ++ B.entities }
    (∀ c, ((A.collection c).map ObjectProto.key).Nodup ∧ ((B.collection c).map ObjectProto.key).Nodup ∧
        ((S.collection c).map ObjectProto.key).Nodup) ∧
      ("driver_id", "p2") ∉ A.entities.map ObjectProto.key ∧
      ((Registry.diffBetween A B).ofType .entities).all (·.transitionType ≠ .create) ∧
      ((Registry.diffBetween S S).ofType .entities).any (·.transitionType = .update) := by
  intro A B S
  refine ⟨fun c => ?_, by decide, by decide, by decide⟩
  cases c <;> decide

/-! ## Reordering the collections -/

/-- In a collection with unique names, the first entry of a name is its only entry, whatever
the order. -/
theorem find?_name_perm {xs ys : List ObjectProto} (hn : (xs.map (·.spec.name)).Nodup)
    (h : xs ~ ys) (n : String) :
    xs.find? (·.spec.name == n) = ys.find? (·.spec.name == n) := by
  cases hx : xs.find? (·.spec.name == n) with
  | none => exact (List.find?_eq_none.2 fun y hy => List.find?_eq_none.1 hx y (h.mem_iff.2 hy)).symm
  | some x =>
    have hxn : x.spec.name = n := by simpa using List.find?_some hx
    obtain ⟨y, hy⟩ := find?_name_of_mem (l := ys) (n := n)
      (hxn ▸ List.mem_map_of_mem (·.spec.name) (h.mem_iff.1 (List.mem_of_find?_eq_some hx)))
    have hyn : y.spec.name = n := by simpa using List.find?_some hy
    rw [hy, List.inj_on_of_nodup_map hn (List.mem_of_find?_eq_some hx)
      (h.mem_iff.2 (List.mem_of_find?_eq_some hy)) (hxn.trans hyn.symm)]

theorem objectTypeRecords_perm {A A' B B' : RegistryProto} {c : Collection}
    (hn : (A.names c).Nodup) (hA : A.collection c ~ A'.collection c)
    (hB : B.collection c ~ B'.collection c) :
    objectTypeRecords A B c ~ objectTypeRecords A' B' c := by
  have hAn : ∀ n, n ∈ A.names c ↔ n ∈ A'.names c := fun n => (hA.map _).mem_iff
  have hBn : ∀ n, n ∈ B.names c ↔ n ∈ B'.names c := fun n => (hB.map _).mem_iff
  have hf : ∀ e : ObjectProto, (A.collection c).find? (·.spec.name == e.spec.name) =
      (A'.collection c).find? (·.spec.name == e.spec.name) := fun e => find?_name_perm hn hA _
  simp only [objectTypeRecords, hAn, hBn, hf]
  exact (((hB.filter _).map _).append ((hA.filter _).map _)).append ((hB.filter _).filterMap _)

/-- When no two entries of one collection of the current snapshot share a name, reordering the
entries of the collections of both snapshots reorders the change set and changes no record. -/
theorem diffBetween_perm {A A' B B' : RegistryProto} (hn : ∀ c, (A.names c).Nodup)
    (hA : ∀ c, A.collection c ~ A'.collection c) (hB : ∀ c, B.collection c ~ B'.collection c) :
    (Registry.diffBetween A B).fcoDiffs ~ (Registry.diffBetween A' B').fcoDiffs := by
  rw [diffBetween_fcoDiffs, diffBetween_fcoDiffs]
  exact List.Perm.flatMap_left _ fun c _ => objectTypeRecords_perm (hn c) (hA c) (hB c)

theorem diffBetween_perm_of_reversed_entities :
    let A : RegistryProto :=
      { entities := [⟨⟨"driver_id", "p1", "INT64"⟩, {}⟩, ⟨⟨"customer_id", "p1", "STRING"⟩, {}⟩] }
    (Registry.diffBetween A {}).fcoDiffs ~
      (Registry.diffBetween { entities := A.entities.reverse } {}).fcoDiffs := by
  intro A
  refine diffBetween_perm (fun c => by cases c <;> decide) (fun c => ?_) fun c => .refl _
  cases c
  · exact (List.reverse_perm _).symm
  all_goals exact .refl _

theorem diff_depends_on_collection_order :
    let x : ObjectProto := ⟨⟨"driver_id", "p1", "INT64"⟩, {}⟩
    let y : ObjectProto := ⟨⟨"driver_id", "p2", "STRING"⟩, {}⟩
    let z : ObjectProto := ⟨⟨"customer_id", "p1", "STRING"⟩, {}⟩
    (∀ c, (({ entities := [x, y] } : RegistryProto).collection c) ~
        ({ entities := [y, x] } : RegistryProto).collection c) ∧
      Registry.diffBetween { entities := [x, y] } { entities := [x] } ≠
        Registry.diffBetween { entities := [y, x] } { entities := [x] } ∧
      Registry.diffBetween {} { entities := [x, z] } ≠
        Registry.diffBetween {} { entities := [z, x] } := by
  intro x y z
  refine ⟨fun c => ?_, by decide, by decide⟩
  cases c
  · exact .swap _ _ _
  all_goals exact .refl _

end Feast
