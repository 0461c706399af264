import FeastRegistry.Proto

/-!
# The in-memory part of each mutating registry method

Every mutating method of `Registry` runs `_prepare_registry_for_changes` and then changes the
cached `RegistryProto` in place. This module gives that change, for each method, as a function
of the prepared proto: it raises, returns before changing anything, or yields the changed proto
(`Edit`). Collections are addressed through `Collection`, so that the four delete and the five
list methods share one definition each.

The scans of the source are list functions: a `for ... enumerate ...: del ...; break` loop is
`List.eraseP`, and the loop of `apply_feature_service`, which has no `break`, is `enumerateDel`.
The name map of `_existing_feature_view_names_to_fvs` is a Python dict, `dictGet`.
-/

set_option autoImplicit false

namespace Feast

section Loops

variable {α : Type} (p : α → Bool)

/-- `for idx, x in enumerate(xs): if p(x): del xs[idx]`, with no `break`. The iterator reads
position `idx` of the list as it is at that moment, so after a deletion the element that moved
into the deleted position is never examined. -/
def enumerateDel : List α → List α
  | [] => []
  | [x] => if p x then [] else [x]
  | x :: y :: ys => if p x then y :: enumerateDel ys else x :: enumerateDel (y :: ys)

/-- At most one element satisfies `p`. -/
def AtMostOne (xs : List α) : Prop := xs.Pairwise fun a b => ¬(p a = true ∧ p b = true)

/-- Lookup in the Python dict built from `pairs` in order: a later pair overrides an earlier
pair with the same key. -/
def dictGet {β : Type} (pairs : List (String × β)) (key : String) : Option β :=
  (pairs.reverse.find? (·.1 == key)).map (·.2)

theorem eraseP_eq_filter_of_atMostOne {xs : List α} (h : AtMostOne p xs) :
    xs.eraseP p = xs.filter (fun a => !p a) := by
  induction xs with
  | nil => rfl
  | cons x xs ih =>
    rw [AtMostOne, List.pairwise_cons] at h
    by_cases hx : p x = true
    · rw [List.eraseP_cons_of_pos hx, List.filter_cons_of_neg (by simp [hx])]
      exact (List.filter_eq_self.2 fun a ha => by simpa using fun hpa => h.1 a ha ⟨hx, hpa⟩).symm
    · rw [List.eraseP_cons_of_neg hx, List.filter_cons_of_pos (by simpa using hx), ih h.2]

/-- With at most one match, skipping the element after a deleted one loses nothing. -/
theorem enumerateDel_eq_filter_of_atMostOne {xs : List α} (h : AtMostOne p xs) :
    enumerateDel p xs = xs.filter (fun a => !p a) := by
  induction xs using enumerateDel.induct p with
  | case1 => rfl
  | case2 x hx => simp [enumerateDel, hx]
  | case3 x hx => simp [enumerateDel, hx]
  | case4 x y ys hx ih =>
    simp only [AtMostOne, List.pairwise_cons, List.mem_cons] at h
    have hy : p y = false := by simpa [hx] using h.1 y (.inl rfl)
    simp [enumerateDel, hx, hy, ih h.2.2]
  | case5 x y ys hx ih =>
    rw [AtMostOne, List.pairwise_cons] at h
    simp [enumerateDel, hx, ih h.2]

theorem dictGet_append {β : Type} (a b : List (String × β)) (k : String) :
    dictGet (a ++ b) k = (dictGet b k).or (dictGet a k) := by
  simp only [dictGet, List.reverse_append, List.find?_append]
  cases List.find? (fun x => x.1 == k) b.reverse <;> rfl

theorem dictGet_map {β : Type} (xs : List α) (f : α → String) (v : β) (k : String) :
    dictGet (xs.map fun a => (f a, v)) k = if k ∈ xs.map f then some v else none := by
  rw [dictGet, ← List.map_reverse, List.find?_map]
  rcases hf : List.find? ((fun x => x.1 == k) ∘ fun a => (f a, v)) xs.reverse with _ | a
  · rw [hf, Option.map_none', Option.map_none', if_neg]
    rw [List.find?_eq_none] at hf
    simpa using hf
  · have h1 := List.find?_some hf
    have h2 := List.mem_of_find?_eq_some hf
    simp only [Function.comp_apply, beq_iff_eq, List.mem_reverse] at h1 h2
    rw [hf, Option.map_some', Option.map_some', if_pos (List.mem_map.2 ⟨a, h2, h1⟩)]

end Loops

/-- The collections of a `RegistryProto`. -/
inductive Collection
  | entities
  | featureTables
  | featureViews
  | onDemandFeatureViews
  | requestFeatureViews
  | featureServices
deriving DecidableEq, Repr

/-- The collection holding the protos of one feature-view proto class. -/
def FeatureViewKind.collection : FeatureViewKind → Collection
  | .featureView => .featureViews
  | .onDemandFeatureView => .onDemandFeatureViews
  | .requestFeatureView => .requestFeatureViews

theorem FeatureViewKind.collection_inj {k k' : FeatureViewKind}
    (h : k.collection = k'.collection) : k = k' := by
  cases k <;> cases k' <;> first | rfl | cases h

theorem FeatureViewKind.collection_ne_featureTables (k : FeatureViewKind) :
    k.collection ≠ .featureTables := by
  cases k <;> simp [FeatureViewKind.collection]

/-- What a mutating method does after `_prepare_registry_for_changes`: raise before changing
the proto, `return` before changing it (and before `commit()`), or change it. -/
inductive Edit
  | raise (error : RegistryError)
  | unchanged
  | changed (proto : RegistryProto)
deriving DecidableEq, Repr

/-- The cached proto after the edit of `proto`. -/
def Edit.result (e : Edit) (proto : RegistryProto) : RegistryProto :=
  match e with
  | .changed proto' => proto'
  | _ => proto

namespace RegistryProto

/-- `getattr(registry_proto, collection)`. -/
def collection (proto : RegistryProto) : Collection → List ObjectProto
  | .entities => proto.entities
  | .featureTables => proto.featureTables
  | .featureViews => proto.featureViews
  | .onDemandFeatureViews => proto.onDemandFeatureViews
  | .requestFeatureViews => proto.requestFeatureViews
  | .featureServices => proto.featureServices

/-- The proto with one collection replaced. -/
def setCollection (proto : RegistryProto) : Collection → List ObjectProto → RegistryProto
  | .entities, xs => { proto with entities := xs }
  | .featureTables, xs => { proto with featureTables := xs }
  | .featureViews, xs => { proto with featureViews := xs }
  | .onDemandFeatureViews, xs => { proto with onDemandFeatureViews := xs }
  | .requestFeatureViews, xs => { proto with requestFeatureViews := xs }
  | .featureServices, xs => { proto with featureServices := xs }

@[simp] theorem collection_setCollection (proto : RegistryProto) (c d : Collection)
    (xs : List ObjectProto) :
    (proto.setCollection c xs).collection d = if d = c then xs else proto.collection d := by
  cases c <;> cases d <;> rfl

@[simp] theorem setCollection_entities (proto : RegistryProto) (xs : List ObjectProto) :
    (proto.setCollection .entities xs).entities = xs := rfl

@[simp] theorem setCollection_featureViews (proto : RegistryProto) (xs : List ObjectProto) :
    (proto.setCollection .featureViews xs).featureViews = xs := rfl

@[simp] theorem setCollection_featureServices (proto : RegistryProto) (xs : List ObjectProto) :
    (proto.setCollection .featureServices xs).featureServices = xs := rfl

@[simp] theorem setCollection_infra (proto : RegistryProto) (c : Collection)
    (xs : List ObjectProto) : (proto.setCollection c xs).infra = proto.infra := by
  cases c <;> rfl

@[simp] theorem collection_entities (proto : RegistryProto) :
    proto.collection .entities = proto.entities := rfl

@[simp] theorem collection_featureViews (proto : RegistryProto) :
    proto.collection .featureViews = proto.featureViews := rfl

@[simp] theorem collection_requestFeatureViews (proto : RegistryProto) :
    proto.collection .requestFeatureViews = proto.requestFeatureViews := rfl

@[simp] theorem collection_onDemandFeatureViews (proto : RegistryProto) :
    proto.collection .onDemandFeatureViews = proto.onDemandFeatureViews := rfl

@[simp] theorem collection_featureServices (proto : RegistryProto) :
    proto.collection .featureServices = proto.featureServices := rfl

/-- `_existing_feature_view_names_to_fvs`, keeping of each value its proto class:
`{**odfvs, **fvs, **request_fvs}`. -/
def existingFeatureViewNamesToFvs (proto : RegistryProto) : List (String × FeatureViewKind) :=
  proto.onDemandFeatureViews.map (fun fv => (fv.spec.name, .onDemandFeatureView)) ++
    proto.featureViews.map (fun fv => (fv.spec.name, .featureView)) ++
    proto.requestFeatureViews.map (fun fv => (fv.spec.name, .requestFeatureView))

/-- `_check_conflicting_feature_view_names`: whether it raises `ConflictingFeatureViewNames`,
that is, whether the name is in the map with a value that is not an instance of the view's
proto class. -/
def checkConflictingFeatureViewNames (proto : RegistryProto) (featureView : FeatureView) : Bool :=
  match dictGet proto.existingFeatureViewNamesToFvs featureView.name with
  | some k => featureView.cls != some k
  | none => false

/-- `apply_entity` after the prepare step: delete the first entry keyed like the new proto,
then append it. -/
def applyEntity (proto : RegistryProto) (entityProto : ObjectProto) (project : String) :
    RegistryProto :=
  proto.setCollection .entities
    (proto.entities.eraseP (·.hasKey entityProto.spec.name project) ++ [entityProto])

/-- `apply_feature_service` after the prepare step: its delete loop has no `break`. -/
def applyFeatureService (proto : RegistryProto) (featureServiceProto : ObjectProto)
    (project : String) : RegistryProto :=
  proto.setCollection .featureServices
    (enumerateDel (·.hasKey featureServiceProto.spec.name project) proto.featureServices ++
      [featureServiceProto])

/-- `apply_feature_view` after the prepare step. The conflict check comes first, then the
collection of the view's class (`ValueError` for another class). If the first entry keyed like
the new proto is equal to the view, the method returns; otherwise that entry, if any, is deleted
and the new proto appended. -/
def applyFeatureView (proto : RegistryProto) (featureView : FeatureView)
    (featureViewProto : ObjectProto) (project : String) : Edit :=
  if proto.checkConflictingFeatureViewNames featureView then
    .raise (.conflictingFeatureViewNames featureView.name)
  else
    match featureView.cls with
    | none => .raise (.valueError "Unexpected feature view type")
    | some k =>
      let existing := proto.collection k.collection
      let key := fun (o : ObjectProto) => o.hasKey featureViewProto.spec.name project
      if (existing.find? key).any fun o => (FeatureView.fromProto k o).eqv featureView then
        .unchanged
      else
        .changed (proto.setCollection k.collection (existing.eraseP key ++ [featureViewProto]))

/-- `apply_materialization` after the prepare step: the first feature view keyed
`(feature_view.name, project)` goes through `FeatureView.from_proto`, gets the interval appended,
and its `to_proto`, stamped with the project, replaces it at the end of `feature_views`. -/
def applyMaterialization (proto : RegistryProto) (featureView : FeatureView) (project : String)
    (startDate endDate : Int) : Edit :=
  let key := fun (o : ObjectProto) => o.hasKey featureView.name project
  match proto.featureViews.find? key with
  | some existingFeatureViewProto =>
    let existingFeatureView := FeatureView.fromProto .featureView existingFeatureViewProto
    let updated := { existingFeatureView with
      materializationIntervals :=
        existingFeatureView.materializationIntervals ++ [(startDate, endDate)] }
    .changed (proto.setCollection .featureViews
      (proto.featureViews.eraseP key ++ [updated.toProto.withProject project]))
  | none => .raise (.featureViewNotFound featureView.name project)

/-- The loop of `delete_entity` and `delete_feature_service`: delete the first entry of `c`
keyed `(name, project)`, or raise `notFound`. -/
def deleteIn (proto : RegistryProto) (c : Collection) (name project : String)
    (notFound : RegistryError) : Edit :=
  if (proto.collection c).any (·.hasKey name project) then
    .changed (proto.setCollection c ((proto.collection c).eraseP (·.hasKey name project)))
  else .raise notFound

/-- `delete_entity` after the prepare step. -/
def deleteEntity (proto : RegistryProto) (name project : String) : Edit :=
  proto.deleteIn .entities name project (.entityNotFound name project)

/-- `delete_feature_service` after the prepare step. -/
def deleteFeatureService (proto : RegistryProto) (name project : String) : Edit :=
  proto.deleteIn .featureServices name project (.featureServiceNotFound name project)

/-- `delete_feature_view` after the prepare step: `feature_views` is searched first, then
`request_feature_views`; `on_demand_feature_views` is not searched. -/
def deleteFeatureView (proto : RegistryProto) (name project : String) : Edit :=
  match proto.deleteIn .featureViews name project (.featureViewNotFound name project) with
  | .raise _ =>
    proto.deleteIn .requestFeatureViews name project (.featureViewNotFound name project)
  | e => e

/-- What `apply_feature_view` can do after the prepare step. -/
theorem applyFeatureView_cases (proto : RegistryProto) (fv : FeatureView) (o : ObjectProto)
    (project : String) :
    (proto.checkConflictingFeatureViewNames fv = true ∧
      proto.applyFeatureView fv o project = .raise (.conflictingFeatureViewNames fv.name)) ∨
    (proto.checkConflictingFeatureViewNames fv = false ∧ fv.cls = none ∧
      proto.applyFeatureView fv o project = .raise (.valueError "Unexpected feature view type")) ∨
    (∃ k x, proto.checkConflictingFeatureViewNames fv = false ∧ fv.cls = some k ∧
      (proto.collection k.collection).find? (·.hasKey o.spec.name project) = some x ∧
      (FeatureView.fromProto k x).eqv fv = true ∧ proto.applyFeatureView fv o project = .unchanged) ∨
    (∃ k, proto.checkConflictingFeatureViewNames fv = false ∧ fv.cls = some k ∧
      (∀ x, (proto.collection k.collection).find? (·.hasKey o.spec.name project) = some x →
        (FeatureView.fromProto k x).eqv fv = false) ∧
      proto.applyFeatureView fv o project = .changed (proto.setCollection k.collection
        ((proto.collection k.collection).eraseP (·.hasKey o.spec.name project) ++ [o]))) := by
  dsimp only [applyFeatureView]
  cases hc : proto.checkConflictingFeatureViewNames fv
  · rcases hk : fv.cls with _ | k
    · exact .inr (.inl ⟨rfl, rfl, rfl⟩)
    · rcases hf : (proto.collection k.collection).find? (·.hasKey o.spec.name project) with _ | x
      · exact .inr (.inr (.inr ⟨k, rfl, rfl, by simp [hf], by simp [hf]⟩))
      · cases hx : (FeatureView.fromProto k x).eqv fv
        · exact .inr (.inr (.inr ⟨k, rfl, rfl, by simp [hf, hx], by simp [hf, hx]⟩))
        · exact .inr (.inr (.inl ⟨k, x, rfl, rfl, hf, hx, by simp [hf, hx]⟩))
  · exact .inl ⟨rfl, rfl⟩

/-- What `apply_materialization` can do after the prepare step. -/
theorem applyMaterialization_cases (proto : RegistryProto) (fv : FeatureView) (project : String)
    (startDate endDate : Int) :
    (proto.featureViews.find? (·.hasKey fv.name project) = none ∧
      proto.applyMaterialization fv project startDate endDate =
        .raise (.featureViewNotFound fv.name project)) ∨
    (∃ x, proto.featureViews.find? (·.hasKey fv.name project) = some x ∧
      proto.applyMaterialization fv project startDate endDate =
        .changed (proto.setCollection .featureViews
          (proto.featureViews.eraseP (·.hasKey fv.name project) ++
            [{ FeatureView.fromProto .featureView x with
                materializationIntervals := x.meta.materializationIntervals ++ [(startDate, endDate)]
              }.toProto.withProject project]))) := by
  dsimp only [applyMaterialization]
  rcases hf : proto.featureViews.find? (·.hasKey fv.name project) with _ | x
  · exact .inl ⟨hf, by simp [hf]⟩
  · exact .inr ⟨x, hf, by rw [hf]; rfl⟩

/-- `update_infra` after the prepare step: `infra.CopyFrom(infra.to_proto())`. -/
def updateInfra (proto : RegistryProto) (infra : Infra) : RegistryProto :=
  { proto with infra := infra }

end RegistryProto

end Feast
