import FeastRegistry.WellFormed

/-!
# Failing calls

Every `*NotFound` error of the registry is raised exactly when the proto the call works on has
no entry keyed `(name, project)` in the collections its loop searches: the proto left by
`_prepare_registry_for_changes` for the mutating calls, the proto `_get_registry_proto` returns
for the reads. In a well-formed proto, `apply_feature_view` raises
`ConflictingFeatureViewNames` exactly when a valid view's name is used by a feature-view
collection of another class.

A mutating call raises before its edit changes anything and before `commit()`. A validation
error comes before the prepare step and leaves the registry as it was; any later error leaves
the prepared registry (`exec_of_error_of_mutation`). A read that fails leaves what its load left,
and a load that fails leaves the registry as it was.
-/

set_option autoImplicit false

namespace Feast

namespace RegistryProto

/-- Some entry of collection `c` is keyed `(name, project)`. -/
def HasEntry (proto : RegistryProto) (c : Collection) (name project : String) : Prop :=
  ∃ x ∈ proto.collection c, x.hasKey name project = true

instance (proto : RegistryProto) (c : Collection) (name project : String) :
    Decidable (proto.HasEntry c name project) :=
  inferInstanceAs (Decidable (∃ x ∈ proto.collection c, x.hasKey name project = true))

variable {proto : RegistryProto} {c : Collection} {name project : String}

theorem any_hasKey_iff :
    (proto.collection c).any (·.hasKey name project) = true ↔ proto.HasEntry c name project :=
  List.any_eq_true

theorem find?_hasKey_eq_none_iff :
    (proto.collection c).find? (·.hasKey name project) = none ↔ ¬proto.HasEntry c name project := by
  simp [HasEntry]

theorem deleteIn_eq_raise {notFound : RegistryError} (e : RegistryError) :
    proto.deleteIn c name project notFound = .raise e ↔
      e = notFound ∧ ¬proto.HasEntry c name project := by
  by_cases hc : proto.HasEntry c name project
  · simp [deleteIn, any_hasKey_iff.2 hc, hc]
  · simp [deleteIn, mt any_hasKey_iff.1 hc, hc, eq_comm]

theorem deleteIn_ne_unchanged (notFound : RegistryError) :
    proto.deleteIn c name project notFound ≠ .unchanged := by
  unfold deleteIn; split <;> simp

theorem deleteFeatureView_eq_raise (e : RegistryError) :
    proto.deleteFeatureView name project = .raise e ↔
      e = .featureViewNotFound name project ∧ ¬proto.HasEntry .featureViews name project ∧
        ¬proto.HasEntry .requestFeatureViews name project := by
  unfold deleteFeatureView
  cases h : proto.deleteIn .featureViews name project (.featureViewNotFound name project) with
  | raise e' =>
    rw [deleteIn_eq_raise] at h
    simp only [deleteIn_eq_raise, h.2, not_false_eq_true, true_and]
  | unchanged => exact absurd h (deleteIn_ne_unchanged _)
  | changed p =>
    have : proto.HasEntry .featureViews name project := by
      by_contra hn
      rw [(deleteIn_eq_raise _).2 ⟨rfl, hn⟩] at h
      cases h
    simp [this]

theorem applyMaterialization_eq_raise {fv : FeatureView} {startDate endDate : Int}
    (e : RegistryError) :
    proto.applyMaterialization fv project startDate endDate = .raise e ↔
      e = .featureViewNotFound fv.name project ∧ ¬proto.HasEntry .featureViews fv.name project := by
  rcases applyMaterialization_cases proto fv project startDate endDate with
    ⟨hf, h⟩ | ⟨x, hf, h⟩ <;> rw [h]
  · rw [← collection_featureViews, find?_hasKey_eq_none_iff] at hf
    simp [hf, eq_comm]
  · have hk := List.find?_some hf
    simp only [reduceCtorEq, false_iff, not_and, not_not]
    exact fun _ => ⟨x, List.mem_of_find?_eq_some hf, hk⟩

theorem getIn_eq_error {notFound : RegistryError} (e : RegistryError) :
    proto.getIn c name project notFound = .error e ↔
      e = notFound ∧ ¬proto.HasEntry c name project := by
  unfold getIn
  split
  · rename_i x hx
    have hk := List.find?_some hx
    simp only [reduceCtorEq, false_iff, not_and, not_not]
    exact fun _ => ⟨x, List.mem_of_find?_eq_some hx, hk⟩
  · rename_i hx
    rw [find?_hasKey_eq_none_iff] at hx
    simp [hx, eq_comm]

/-- In a well-formed proto the conflict check of `apply_feature_view` raises exactly when the
name is used by a feature-view collection of another class. -/
theorem WellFormed.applyFeatureView_eq_conflicting (h : proto.WellFormed) (fv : FeatureView)
    (o : ObjectProto) (project : String) :
    proto.applyFeatureView fv o project = .raise (.conflictingFeatureViewNames fv.name) ↔
      ∃ k, fv.cls ≠ some k ∧ fv.name ∈ proto.names k.collection := by
  rw [← h.checkConflictingFeatureViewNames_iff]
  rcases applyFeatureView_cases proto fv o project with
    ⟨hc, he⟩ | ⟨hc, -, he⟩ | ⟨k, x, hc, -, -, -, he⟩ | ⟨k, hc, -, -, he⟩ <;> simp [hc, he]

end RegistryProto

theorem Except.map_eq_error {ε α β : Type} (f : α → β) (x : Except ε α) (e : ε) :
    x.map f = .error e ↔ x = .error e := by
  cases x <;> simp [Except.map]

namespace Registry

variable (r : Registry) (store : Option RegistryProto) (now : Int)

/-- A mutating call raises its check's error, or its edit's error on the prepared proto. -/
theorem exec_eq_error_of_mutation {op : Op} {pre : Option RegistryError}
    {edit : RegistryProto → Edit} {c : Bool} (h : op.mutation now = some (pre, edit, c))
    (e : RegistryError) :
    (r.exec store now op).result = .error e ↔
      pre = some e ∨ pre = none ∧ edit (r.prepareRegistryForChanges store now).1 = .raise e := by
  rw [exec_of_mutation r store now h]
  rcases mutate_cases r store now pre edit c with
    ⟨e', rfl, hm⟩ | ⟨rfl, e', he, hm⟩ | ⟨rfl, he, hm⟩ | ⟨rfl, p, he, hm⟩ <;>
    simp only [hm, Outcome.map, Except.map]
  · simp [eq_comm]
  all_goals simp [he, eq_comm]

/-- A mutating call that raises commits nothing and leaves the registry as it was before the
call (a check's error) or as the prepare step left it (an edit's error). -/
theorem exec_of_error_of_mutation {op : Op} {pre : Option RegistryError}
    {edit : RegistryProto → Edit} {c : Bool} (h : op.mutation now = some (pre, edit, c))
    {e : RegistryError} (he : (r.exec store now op).result = .error e) :
    (r.exec store now op).write = none ∧
      (pre = some e ∧ (r.exec store now op).registry = r ∨
        pre = none ∧ (r.exec store now op).registry = (r.prepareRegistryForChanges store now).2) := by
  rw [exec_of_mutation r store now h] at he ⊢
  rcases mutate_cases r store now pre edit c with
    ⟨e', rfl, hm⟩ | ⟨rfl, e', -, hm⟩ | ⟨rfl, -, hm⟩ | ⟨rfl, p, -, hm⟩ <;>
    simp_all [Outcome.map, Except.map]

/-- A read leaves the registry its load left and writes nothing. -/
theorem read_registry {α : Type} (allowCache : Bool) (f : RegistryProto → Except RegistryError α) :
    (r.read store now allowCache f).registry = (r.getRegistryProto store now allowCache).2 ∧
      (r.read store now allowCache f).write = none := by
  rcases read_cases r store now allowCache f with ⟨p, r', hg, h⟩ | ⟨e, r', hg, h⟩ <;> simp [h, hg]

theorem getRegistryProto_of_error (allowCache : Bool) {e : RegistryError}
    (h : (r.getRegistryProto store now allowCache).1 = .error e) :
    (r.getRegistryProto store now allowCache).2 = r := by
  rcases getRegistryProto_cases r store now allowCache with
    ⟨c, -, -, -, hg⟩ | ⟨p, -, -, hg⟩ | ⟨-, -, hg⟩ <;> simp_all

/-- The four `get_*` methods raise their not-found error exactly when the proto their load
returned has no entry of the key. -/
theorem exec_get_eq_error {allowCache : Bool} {proto : RegistryProto}
    (h : (r.getRegistryProto store now allowCache).1 = .ok proto) (name project : String)
    (e : RegistryError) :
    ((r.exec store now (.getEntity name project allowCache)).result = .error e ↔
        e = .entityNotFound name project ∧ ¬proto.HasEntry .entities name project) ∧
      ((r.exec store now (.getFeatureService name project allowCache)).result = .error e ↔
        e = .featureServiceNotFound name project ∧ ¬proto.HasEntry .featureServices name project) ∧
      ((r.exec store now (.getFeatureView name project allowCache)).result = .error e ↔
        e = .featureViewNotFound name project ∧ ¬proto.HasEntry .featureViews name project) ∧
      ((r.exec store now (.getOnDemandFeatureView name project allowCache)).result = .error e ↔
        e = .onDemandFeatureViewNotFound name project ∧
          ¬proto.HasEntry .onDemandFeatureViews name project) := by
  simp only [exec, getEntity, getFeatureService, getFeatureView, getOnDemandFeatureView,
    Outcome.map, read_result_of_ok h, Except.map_eq_error, RegistryProto.getIn_eq_error,
    iff_self, and_self]

/-- Failing calls in a well-formed state. `delete_entity`, `delete_feature_service`,
`delete_feature_view` and `apply_materialization` raise their not-found error exactly when the
prepared proto has no entry of the key in the collections they search, and the four `get_*`
exactly when the proto their load returned has none. `apply_feature_view` raises
`ConflictingFeatureViewNames` exactly when the view passes `ensure_valid` and its name is used by
a feature-view collection of another class. A mutating call that raises commits nothing and
leaves the registry as it was (an error of the checks made before the prepare step) or as the
prepare step left it; a `get_*` leaves what its load left, and a failed load leaves the registry
as it was. -/
theorem failing_calls_atomic (hr : r.CacheWellFormed) (hs : ∀ proto ∈ store, proto.WellFormed)
    (name project : String) (commit : Bool) (e : RegistryError) :
    let P := (r.prepareRegistryForChanges store now).1
    ((r.exec store now (.deleteEntity name project commit)).result = .error e ↔
        e = .entityNotFound name project ∧ ¬P.HasEntry .entities name project) ∧
      ((r.exec store now (.deleteFeatureService name project commit)).result = .error e ↔
        e = .featureServiceNotFound name project ∧ ¬P.HasEntry .featureServices name project) ∧
      ((r.exec store now (.deleteFeatureView name project commit)).result = .error e ↔
        e = .featureViewNotFound name project ∧ ¬P.HasEntry .featureViews name project ∧
          ¬P.HasEntry .requestFeatureViews name project) ∧
      (∀ fv startDate endDate,
        (r.exec store now (.applyMaterialization fv project startDate endDate commit)).result =
            .error e ↔
          e = .featureViewNotFound fv.name project ∧ ¬P.HasEntry .featureViews fv.name project) ∧
      (∀ allowCache proto, (r.getRegistryProto store now allowCache).1 = .ok proto →
        ((r.exec store now (.getEntity name project allowCache)).result = .error e ↔
            e = .entityNotFound name project ∧ ¬proto.HasEntry .entities name project) ∧
          ((r.exec store now (.getFeatureService name project allowCache)).result = .error e ↔
            e = .featureServiceNotFound name project ∧
              ¬proto.HasEntry .featureServices name project) ∧
          ((r.exec store now (.getFeatureView name project allowCache)).result = .error e ↔
            e = .featureViewNotFound name project ∧ ¬proto.HasEntry .featureViews name project) ∧
          ((r.exec store now (.getOnDemandFeatureView name project allowCache)).result =
              .error e ↔
            e = .onDemandFeatureViewNotFound name project ∧
              ¬proto.HasEntry .onDemandFeatureViews name project)) ∧
      (∀ fv : FeatureView,
        (r.exec store now (.applyFeatureView fv project commit)).result =
            .error (.conflictingFeatureViewNames fv.name) ↔
          fv.ensureValid = true ∧ ∃ k, fv.cls ≠ some k ∧ fv.name ∈ P.names k.collection) ∧
      (∀ op pre edit c, op.mutation now = some (pre, edit, c) →
        (r.exec store now op).result = .error e →
        (r.exec store now op).write = none ∧
          (pre = some e ∧ (r.exec store now op).registry = r ∨
            pre = none ∧ (r.exec store now op).registry = (r.prepareRegistryForChanges store now).2)) ∧
      (∀ allowCache, (∀ g ∈ [Op.getEntity name project allowCache,
          .getFeatureService name project allowCache, .getFeatureView name project allowCache,
          .getOnDemandFeatureView name project allowCache],
          (r.exec store now g).registry = (r.getRegistryProto store now allowCache).2 ∧
            (r.exec store now g).write = none) ∧
        ((r.getRegistryProto store now allowCache).1 = .error e →
          (r.getRegistryProto store now allowCache).2 = r)) := by
  intro P
  have hP : P.WellFormed := prepareRegistryForChanges_wellFormed now hr hs
  refine ⟨?_, ?_, ?_, fun fv startDate endDate => ?_, fun allowCache proto h =>
    exec_get_eq_error r store now h name project e, fun fv => ?_,
    fun op pre edit c h he => exec_of_error_of_mutation r store now h he,
    fun allowCache => ⟨?_, getRegistryProto_of_error r store now allowCache⟩⟩
  · rw [exec_eq_error_of_mutation r store now
      (show (Op.deleteEntity name project commit).mutation now = _ from rfl)]
    simp [RegistryProto.deleteEntity, RegistryProto.deleteIn_eq_raise, P]
  · rw [exec_eq_error_of_mutation r store now
      (show (Op.deleteFeatureService name project commit).mutation now = _ from rfl)]
    simp [RegistryProto.deleteFeatureService, RegistryProto.deleteIn_eq_raise, P]
  · rw [exec_eq_error_of_mutation r store now
      (show (Op.deleteFeatureView name project commit).mutation now = _ from rfl)]
    simp [RegistryProto.deleteFeatureView_eq_raise, P]
  · rw [exec_eq_error_of_mutation r store now
      (show (Op.applyMaterialization fv project startDate endDate commit).mutation now = _ from rfl)]
    simp [RegistryProto.applyMaterialization_eq_raise, P]
  · rw [exec_eq_error_of_mutation r store now
      (show (Op.applyFeatureView fv project commit).mutation now = _ from rfl)]
    have hc := hP.applyFeatureView_eq_conflicting (stampCreated fv now)
      ((stampCreated fv now).toProto.withProject project) project
    simp only [stampCreated_name, stampCreated_cls] at hc
    by_cases hv : fv.ensureValid = true <;> simp [hv, hc, P]
  · simp only [List.mem_cons, List.mem_singleton, List.not_mem_nil, or_false]
    rintro g (rfl | rfl | rfl | rfl) <;>
      simp only [exec, getEntity, getFeatureService, getFeatureView, getOnDemandFeatureView,
        Outcome.map_registry, Outcome.map_write] <;>
      exact read_registry r store now allowCache _

/-- Over the two-project snapshot, deleting `driver_id` from a project without it raises
`EntityNotFoundException`, though both other projects have the name; the call commits nothing
and leaves the snapshot its prepare step loaded in the cache. -/
theorem delete_missing_entity_raises_not_found :
    let o := (Registry.init 0).exec (some .sample) 0 (.deleteEntity "driver_id" "p3" true)
    o.result = .error (.entityNotFound "driver_id" "p3") ∧ o.write = none ∧
      o.registry = ((Registry.init 0).prepareRegistryForChanges (some .sample) 0).2 :=
  have h := failing_calls_atomic (Registry.init 0) (some .sample) 0 (fun _ h => by cases h)
    (fun _ h => by cases h; exact RegistryProto.sample_wellFormed) "driver_id" "p3" true
    (.entityNotFound "driver_id" "p3")
  have he := h.1.2 ⟨rfl, by decide⟩
  have ha := h.2.2.2.2.2.2.1 (.deleteEntity "driver_id" "p3" true) none _ true rfl he
  ⟨he, ha.1, (ha.2.resolve_left fun h => nomatch h.1).2⟩

/-- `ensure_valid` comes first: a view without a name raises its validation error even when a
request feature view of another project already uses the empty name. -/
theorem invalid_view_raises_validation_error :
    let proto : RegistryProto := { requestFeatureViews := [⟨⟨"", "p1", "ttl=1d"⟩, {}⟩] }
    let fv : FeatureView := ⟨some .featureView, "", "ttl=1d", none, []⟩
    proto.WellFormed ∧ fv.name ∈ proto.names .requestFeatureViews ∧
      ((Registry.init 0).exec (some proto) 0 (.applyFeatureView fv "p2" true)).result =
        .error .validationError := by
  decide

end Registry

end Feast
