import FeastRegistry.Failures

/-!
# What a successful call changes

A successful mutating call changes the prepared proto only in the entries keyed
`(name, project)` of the collections it writes (`Frame`): every other entry keeps its place, the
other collections, the infra descriptor and the schema version are unchanged. In a well-formed
proto the apply methods leave exactly one entry of the key, the applied proto or the equal entry
already there, `apply_materialization` leaves the existing entry with one more interval, and the
deletes leave none.

The delete loops erase one entry and keep the rest in order whatever the proto
(`filter_not_eraseP`); under well-formedness the first entry of a key is its only one
(`filter_eq_singleton_of_atMostOne`), so every write is an `upsert` or a plain delete.
-/

set_option autoImplicit false

namespace Feast

section Loops

variable {α : Type} (p : α → Bool)

theorem filter_not_eraseP (xs : List α) : (xs.eraseP p).filter (!p ·) = xs.filter (!p ·) := by
  induction xs with
  | nil => rfl
  | cons x xs ih => cases hx : p x <;> simp [List.eraseP_cons, hx, ih]

theorem filter_eq_singleton_of_atMostOne {xs : List α} (h : AtMostOne p xs) {x : α}
    (hx : xs.find? p = some x) : xs.filter p = [x] := by
  induction xs with
  | nil => cases hx
  | cons y ys ih =>
    rw [AtMostOne, List.pairwise_cons] at h
    cases hy : p y
    · rw [List.find?_cons_of_neg _ (by simp [hy])] at hx
      simp [hy, ih h.2 hx]
    · rw [List.find?_cons_of_pos _ hy] at hx
      cases hx
      simpa [hy] using fun z hz hz' => h.1 z hz ⟨hy, hz'⟩

end Loops

namespace RegistryProto

variable {name project : String}

@[simp] theorem setCollection_registrySchemaVersion (proto : RegistryProto) (c : Collection)
    (xs : List ObjectProto) :
    (proto.setCollection c xs).registrySchemaVersion = proto.registrySchemaVersion := by
  cases c <;> rfl

/-- `after` differs from `before` only in the entries keyed `(name, project)` of the collections
`cs`. -/
structure Frame (before after : RegistryProto) (cs : List Collection) (name project : String) :
    Prop where
  others : ∀ c, (after.collection c).filter (!·.hasKey name project) =
    (before.collection c).filter (!·.hasKey name project)
  untouched : ∀ c ∉ cs, after.collection c = before.collection c
  infra : after.infra = before.infra
  registrySchemaVersion : after.registrySchemaVersion = before.registrySchemaVersion

theorem Frame.refl (proto : RegistryProto) (cs : List Collection) :
    Frame proto proto cs name project :=
  ⟨fun _ => rfl, fun _ _ => rfl, rfl, rfl⟩

/-- Replacing one collection of `cs` by a list with the same entries of other keys. -/
theorem Frame.setCollection {proto : RegistryProto} {c : Collection} {cs : List Collection}
    (hc : c ∈ cs) {xs : List ObjectProto}
    (h : xs.filter (!·.hasKey name project) = (proto.collection c).filter (!·.hasKey name project)) :
    Frame proto (proto.setCollection c xs) cs name project := by
  refine ⟨fun d => ?_, fun d hd => ?_, by simp, by simp⟩
  · by_cases hd : d = c <;> simp [hd, h]
  · simp [show d ≠ c from fun h => hd (h ▸ hc)]

theorem filter_hasKey_upsert (xs : List ObjectProto) {o : ObjectProto}
    (hn : o.spec.name = name) (hp : o.spec.project = project) :
    (upsert xs o).filter (·.hasKey name project) = [o] := by
  subst hn hp
  simp [upsert, List.filter_append, List.filter_filter, ObjectProto.hasKey]

theorem filter_not_hasKey_upsert (xs : List ObjectProto) {o : ObjectProto}
    (hn : o.spec.name = name) (hp : o.spec.project = project) :
    (upsert xs o).filter (!·.hasKey name project) = xs.filter (!·.hasKey name project) := by
  subst hn hp
  simp [upsert, List.filter_append, List.filter_filter, ObjectProto.hasKey]

/-- What an apply leaves: the upserted collection, framed. -/
theorem frame_setCollection_upsert (proto : RegistryProto) (c : Collection)
    {o : ObjectProto} (hn : o.spec.name = name) (hp : o.spec.project = project) :
    Frame proto (proto.setCollection c (upsert (proto.collection c) o)) [c] name project ∧
      ((proto.setCollection c (upsert (proto.collection c) o)).collection c).filter
        (·.hasKey name project) = [o] :=
  ⟨.setCollection (List.mem_singleton_self c) (filter_not_hasKey_upsert _ hn hp),
    by simpa using filter_hasKey_upsert _ hn hp⟩

theorem filter_hasKey_eraseP (name project : String) {xs : List ObjectProto}
    (h : (xs.map ObjectProto.key).Nodup) :
    (xs.eraseP (·.hasKey name project)).filter (·.hasKey name project) = [] := by
  rw [eraseP_eq_filter_of_atMostOne _ (atMostOne_hasKey h _ _)]
  simp [List.filter_filter]

theorem filter_hasKey_eq_nil {proto : RegistryProto} {c : Collection}
    (h : ¬proto.HasEntry c name project) : (proto.collection c).filter (·.hasKey name project) = [] :=
  List.filter_eq_nil_iff.2 fun x hx hk => h ⟨x, hx, hk⟩

theorem deleteIn_of_hasEntry {proto : RegistryProto} {c : Collection}
    {notFound : RegistryError} (h : proto.HasEntry c name project) :
    proto.deleteIn c name project notFound =
      .changed (proto.setCollection c ((proto.collection c).eraseP (·.hasKey name project))) := by
  simp [deleteIn, any_hasKey_iff.2 h]

theorem hasEntry_of_deleteIn_ne_raise {proto : RegistryProto} {c : Collection}
    {notFound : RegistryError} (h : ∀ e, proto.deleteIn c name project notFound ≠ .raise e) :
    proto.HasEntry c name project :=
  by_contra fun hn => h _ ((deleteIn_eq_raise _).2 ⟨rfl, hn⟩)

/-- A delete of `delete_entity` or `delete_feature_service` that does not raise. -/
theorem frame_deleteIn {proto : RegistryProto} (h : proto.WellFormed) {c : Collection}
    (hc : c ≠ .featureTables) {notFound : RegistryError}
    (hne : ∀ e, proto.deleteIn c name project notFound ≠ .raise e) :
    Frame proto ((proto.deleteIn c name project notFound).result proto) [c] name project ∧
      (((proto.deleteIn c name project notFound).result proto).collection c).filter
        (·.hasKey name project) = [] := by
  rw [deleteIn_of_hasEntry (hasEntry_of_deleteIn_ne_raise hne)]
  simp only [Edit.result]
  exact ⟨.setCollection (List.mem_singleton_self c) (filter_not_eraseP _ _),
    by simpa using filter_hasKey_eraseP name project (h.keys_nodup c hc)⟩

/-- A `delete_feature_view` that does not raise leaves no entry of the key in either collection
it searches: when it deletes from `feature_views`, the name is not used by
`request_feature_views`. -/
theorem frame_deleteFeatureView {proto : RegistryProto} (h : proto.WellFormed)
    (hne : ∀ e, proto.deleteFeatureView name project ≠ .raise e) :
    Frame proto ((proto.deleteFeatureView name project).result proto)
        [.featureViews, .requestFeatureViews] name project ∧
      ((proto.deleteFeatureView name project).result proto).featureViews.filter
        (·.hasKey name project) = [] ∧
      ((proto.deleteFeatureView name project).result proto).requestFeatureViews.filter
        (·.hasKey name project) = [] := by
  by_cases hf : proto.HasEntry .featureViews name project
  · obtain ⟨x, hx, hk⟩ := hf
    have hr : ¬proto.HasEntry .requestFeatureViews name project := fun ⟨y, hy, hky⟩ => by
      rw [ObjectProto.hasKey_iff] at hk hky
      exact h.names_disjoint .featureView .requestFeatureView (by decide) name
        (List.mem_map.2 ⟨x, hx, hk.1⟩) (List.mem_map.2 ⟨y, hy, hky.1⟩)
    simp only [deleteFeatureView, deleteIn_of_hasEntry ⟨x, hx, hk⟩, Edit.result]
    exact ⟨.setCollection (by simp) (filter_not_eraseP _ _),
      by simpa using filter_hasKey_eraseP name project (h.keys_nodup .featureViews (by decide)),
      by simpa using filter_hasKey_eq_nil hr⟩
  · have hraise : proto.deleteIn .featureViews name project (.featureViewNotFound name project) =
        .raise (.featureViewNotFound name project) := (deleteIn_eq_raise _).2 ⟨rfl, hf⟩
    have hd : proto.deleteFeatureView name project =
        proto.deleteIn .requestFeatureViews name project (.featureViewNotFound name project) := by
      simp only [deleteFeatureView, hraise]
    rw [hd] at hne ⊢
    rw [deleteIn_of_hasEntry (hasEntry_of_deleteIn_ne_raise hne)]
    simp only [Edit.result]
    exact ⟨.setCollection (by simp) (filter_not_eraseP _ _),
      by simpa using filter_hasKey_eq_nil hf,
      by simpa using filter_hasKey_eraseP name project (h.keys_nodup .requestFeatureViews (by decide))⟩

theorem frame_applyEntity {proto : RegistryProto} (h : proto.WellFormed) {o : ObjectProto}
    (hp : o.spec.project = project) :
    Frame proto (proto.applyEntity o project) [.entities] o.spec.name project ∧
      (proto.applyEntity o project).entities.filter (·.hasKey o.spec.name project) = [o] := by
  rw [applyEntity, ← collection_entities proto,
    eraseP_append_eq_upsert (h.keys_nodup .entities (by decide)) rfl hp]
  exact frame_setCollection_upsert proto .entities rfl hp

theorem frame_applyFeatureService {proto : RegistryProto} (h : proto.WellFormed)
    {o : ObjectProto} (hp : o.spec.project = project) :
    Frame proto (proto.applyFeatureService o project) [.featureServices] o.spec.name project ∧
      (proto.applyFeatureService o project).featureServices.filter
        (·.hasKey o.spec.name project) = [o] := by
  rw [applyFeatureService, ← collection_featureServices proto,
    enumerateDel_append_eq_upsert (h.keys_nodup .featureServices (by decide)) rfl hp]
  exact frame_setCollection_upsert proto .featureServices rfl hp

/-- An `apply_feature_view` that does not raise: the view has a class, and the collection of
the class holds one entry of the key, the new proto or the equal entry that was there. -/
theorem frame_applyFeatureView {proto : RegistryProto} (h : proto.WellFormed)
    {fv : FeatureView} {o : ObjectProto} (hn : o.spec.name = fv.name)
    (hp : o.spec.project = project) (hne : ∀ e, proto.applyFeatureView fv o project ≠ .raise e) :
    ∃ k, fv.cls = some k ∧
      Frame proto ((proto.applyFeatureView fv o project).result proto) [k.collection] fv.name
        project ∧
      ((((proto.applyFeatureView fv o project).result proto).collection k.collection).filter
          (·.hasKey fv.name project) = [o] ∨
        ∃ x ∈ proto.collection k.collection,
          (((proto.applyFeatureView fv o project).result proto).collection k.collection).filter
            (·.hasKey fv.name project) = [x] ∧ (FeatureView.fromProto k x).eqv fv = true) := by
  rcases applyFeatureView_cases proto fv o project with
    ⟨-, he⟩ | ⟨-, -, he⟩ | ⟨k, x, -, hk, hx, heq, he⟩ | ⟨k, -, hk, -, he⟩
  · exact absurd he (hne _)
  · exact absurd he (hne _)
  · rw [hn] at hx
    refine ⟨k, hk, by rw [he]; exact .refl _ _, .inr ⟨x, List.mem_of_find?_eq_some hx, ?_, heq⟩⟩
    rw [he]
    exact filter_eq_singleton_of_atMostOne _
      (atMostOne_hasKey (h.keys_nodup _ k.collection_ne_featureTables) _ _) hx
  · rw [he, Edit.result, hn,
      eraseP_append_eq_upsert (h.keys_nodup _ k.collection_ne_featureTables) hn hp]
    exact ⟨k, hk, (frame_setCollection_upsert proto _ hn hp).1,
      .inl (frame_setCollection_upsert proto _ hn hp).2⟩

/-- The entry `apply_materialization` writes has the spec of the entry it replaces and one more
interval. -/
theorem applyMaterialization_eq_changed {proto proto' : RegistryProto} {fv : FeatureView}
    {startDate endDate : Int}
    (he : proto.applyMaterialization fv project startDate endDate = .changed proto') :
    ∃ x y, proto.featureViews.find? (·.hasKey fv.name project) = some x ∧ y.spec = x.spec ∧
      y.meta = { x.meta with
        materializationIntervals := x.meta.materializationIntervals ++ [(startDate, endDate)] } ∧
      proto' = proto.setCollection .featureViews
        (proto.featureViews.eraseP (·.hasKey fv.name project) ++ [y]) := by
  rcases applyMaterialization_cases proto fv project startDate endDate with ⟨-, h⟩ | ⟨x, hx, h⟩ <;>
    rw [h] at he <;> cases he
  refine ⟨x, _, hx, ?_, rfl, rfl⟩
  have hk := List.find?_some hx
  obtain ⟨hxn, hxp⟩ := (ObjectProto.hasKey_iff _ _ _).1 hk
  obtain ⟨⟨n, p, d⟩, m⟩ := x
  simp_all [FeatureView.toProto, FeatureView.fromProto, ObjectProto.withProject]

/-- An `apply_materialization` that does not raise: the entry of the key in `feature_views`
is replaced by one with the same spec and the interval appended. -/
theorem frame_applyMaterialization {proto : RegistryProto} (h : proto.WellFormed)
    {fv : FeatureView} {startDate endDate : Int}
    (hne : ∀ e, proto.applyMaterialization fv project startDate endDate ≠ .raise e) :
    ∃ x ∈ proto.featureViews, x.hasKey fv.name project = true ∧
      Frame proto ((proto.applyMaterialization fv project startDate endDate).result proto)
        [.featureViews] fv.name project ∧
      ∃ y, ((proto.applyMaterialization fv project startDate endDate).result proto).featureViews.filter
          (·.hasKey fv.name project) = [y] ∧ y.spec = x.spec ∧
        y.meta = { x.meta with
          materializationIntervals := x.meta.materializationIntervals ++ [(startDate, endDate)] } := by
  obtain ⟨proto', he⟩ :
      ∃ proto', proto.applyMaterialization fv project startDate endDate = .changed proto' := by
    rcases applyMaterialization_cases proto fv project startDate endDate with ⟨-, he⟩ | ⟨_, -, he⟩
    · exact absurd he (hne _)
    · exact ⟨_, he⟩
  obtain ⟨x, y, hx, hys, hym, hp'⟩ := applyMaterialization_eq_changed he
  have hk := List.find?_some hx
  obtain ⟨hxn, hxp⟩ := (ObjectProto.hasKey_iff _ _ _).1 hk
  have hyn : y.spec.name = fv.name := hys ▸ hxn
  have hyp : y.spec.project = project := hys ▸ hxp
  rw [he, Edit.result, hp', ← collection_featureViews proto,
    eraseP_append_eq_upsert (h.keys_nodup .featureViews (by decide)) hyn hyp]
  exact ⟨x, List.mem_of_find?_eq_some hx, hk,
    (frame_setCollection_upsert proto .featureViews hyn hyp).1, y,
    by simpa using (frame_setCollection_upsert proto .featureViews hyn hyp).2, hys, hym⟩

end RegistryProto

namespace Registry

variable (r : Registry) (store : Option RegistryProto) (now : Int)

/-- A mutating call that succeeds passed its checks, its edit did not raise, and the cache holds
the edit's result on the prepared proto. -/
theorem exec_ok_of_mutation {op : Op} {pre : Option RegistryError} {edit : RegistryProto → Edit}
    {c : Bool} (h : op.mutation now = some (pre, edit, c)) {v : Value}
    (hok : (r.exec store now op).result = .ok v) :
    pre = none ∧ (∀ e, edit (r.prepareRegistryForChanges store now).1 ≠ .raise e) ∧
      (r.exec store now op).registry.cachedRegistryProto =
        some ((edit (r.prepareRegistryForChanges store now).1).result
          (r.prepareRegistryForChanges store now).1) := by
  rw [exec_of_mutation r store now h] at hok ⊢
  rcases mutate_cases r store now pre edit c with
    ⟨e, -, hm⟩ | ⟨-, e, -, hm⟩ | ⟨rfl, he, hm⟩ | ⟨rfl, p, he, hm⟩ <;>
    rw [hm] at hok ⊢ <;> simp only [Outcome.map, Except.map, reduceCtorEq] at hok
  · exact ⟨rfl, fun e => by simp [he], by simp [he, Edit.result]⟩
  · exact ⟨rfl, fun e => by simp [he], by simp [he, Edit.result]⟩

/-- A successful mutating call in a well-formed state touches only its target. The proto it
leaves in the cache differs from the prepared proto only in the entries keyed
`(name, project)` of the collections it writes (`RegistryProto.Frame`). After an apply that
collection holds exactly one entry of the key: the applied proto, or for `apply_feature_view`
possibly the equal entry that was there; after `apply_materialization`, the existing entry with
the interval appended; after a delete, none. -/
theorem successful_call_frame (hr : r.CacheWellFormed) (hs : ∀ proto ∈ store, proto.WellFormed)
    (project : String) (commit : Bool) (v : Value) :
    let P := (r.prepareRegistryForChanges store now).1
    (∀ e : Entity, (r.exec store now (.applyEntity e project commit)).result = .ok v →
      ∃ A, (r.exec store now (.applyEntity e project commit)).registry.cachedRegistryProto =
          some A ∧ P.Frame A [.entities] e.name project ∧
        A.entities.filter (·.hasKey e.name project) = [e.toProto.withProject project]) ∧
    (∀ fs : FeatureService,
      (r.exec store now (.applyFeatureService fs project commit)).result = .ok v →
      ∃ A, (r.exec store now (.applyFeatureService fs project commit)).registry.cachedRegistryProto =
          some A ∧ P.Frame A [.featureServices] fs.name project ∧
        A.featureServices.filter (·.hasKey fs.name project) = [fs.toProto.withProject project]) ∧
    (∀ fv : FeatureView, (r.exec store now (.applyFeatureView fv project commit)).result = .ok v →
      ∃ k A, fv.cls = some k ∧
        (r.exec store now (.applyFeatureView fv project commit)).registry.cachedRegistryProto =
          some A ∧ P.Frame A [k.collection] fv.name project ∧
        ((A.collection k.collection).filter (·.hasKey fv.name project) =
            [(stampCreated fv now).toProto.withProject project] ∨
          ∃ x ∈ P.collection k.collection,
            (A.collection k.collection).filter (·.hasKey fv.name project) = [x] ∧
              (FeatureView.fromProto k x).eqv fv = true)) ∧
    (∀ fv startDate endDate,
      (r.exec store now (.applyMaterialization fv project startDate endDate commit)).result =
        .ok v →
      ∃ A, (r.exec store now
          (.applyMaterialization fv project startDate endDate commit)).registry.cachedRegistryProto =
          some A ∧ P.Frame A [.featureViews] fv.name project ∧
        ∃ x ∈ P.featureViews, x.hasKey fv.name project = true ∧
          ∃ y, A.featureViews.filter (·.hasKey fv.name project) = [y] ∧ y.spec = x.spec ∧
            y.meta = { x.meta with materializationIntervals :=
              x.meta.materializationIntervals ++ [(startDate, endDate)] }) ∧
    (∀ name, (r.exec store now (.deleteEntity name project commit)).result = .ok v →
      ∃ A, (r.exec store now (.deleteEntity name project commit)).registry.cachedRegistryProto =
          some A ∧ P.Frame A [.entities] name project ∧
        A.entities.filter (·.hasKey name project) = []) ∧
    (∀ name, (r.exec store now (.deleteFeatureService name project commit)).result = .ok v →
      ∃ A, (r.exec store now
          (.deleteFeatureService name project commit)).registry.cachedRegistryProto = some A ∧
        P.Frame A [.featureServices] name project ∧
        A.featureServices.filter (·.hasKey name project) = []) ∧
    (∀ name, (r.exec store now (.deleteFeatureView name project commit)).result = .ok v →
      ∃ A, (r.exec store now (.deleteFeatureView name project commit)).registry.cachedRegistryProto =
          some A ∧ P.Frame A [.featureViews, .requestFeatureViews] name project ∧
        A.featureViews.filter (·.hasKey name project) = [] ∧
        A.requestFeatureViews.filter (·.hasKey name project) = []) := by
  intro P
  have hP : P.WellFormed := prepareRegistryForChanges_wellFormed now hr hs
  refine ⟨fun e hok => ?_, fun fs hok => ?_, fun fv hok => ?_, fun fv startDate endDate hok => ?_,
    fun name hok => ?_, fun name hok => ?_, fun name hok => ?_⟩
  · obtain ⟨-, -, hc⟩ := exec_ok_of_mutation r store now
      (show (Op.applyEntity e project commit).mutation now = _ from rfl) hok
    exact ⟨_, hc, RegistryProto.frame_applyEntity hP rfl⟩
  · obtain ⟨-, -, hc⟩ := exec_ok_of_mutation r store now
      (show (Op.applyFeatureService fs project commit).mutation now = _ from rfl) hok
    exact ⟨_, hc, RegistryProto.frame_applyFeatureService hP rfl⟩
  · obtain ⟨-, hne, hc⟩ := exec_ok_of_mutation r store now
      (show (Op.applyFeatureView fv project commit).mutation now = _ from rfl) hok
    obtain ⟨k, hk, hfr, hor⟩ := RegistryProto.frame_applyFeatureView hP rfl rfl hne
    simp only [stampCreated_cls, stampCreated_name, eqv_stampCreated] at hk hfr hor
    exact ⟨k, _, hk, hc, hfr, hor⟩
  · obtain ⟨-, hne, hc⟩ := exec_ok_of_mutation r store now
      (show (Op.applyMaterialization fv project startDate endDate commit).mutation now = _ from rfl)
      hok
    obtain ⟨x, hx, hk, hfr, hy⟩ := RegistryProto.frame_applyMaterialization hP hne
    exact ⟨_, hc, hfr, x, hx, hk, hy⟩
  · obtain ⟨-, hne, hc⟩ := exec_ok_of_mutation r store now
      (show (Op.deleteEntity name project commit).mutation now = _ from rfl) hok
    exact ⟨_, hc, RegistryProto.frame_deleteIn hP (by decide) hne⟩
  · obtain ⟨-, hne, hc⟩ := exec_ok_of_mutation r store now
      (show (Op.deleteFeatureService name project commit).mutation now = _ from rfl) hok
    exact ⟨_, hc, RegistryProto.frame_deleteIn hP (by decide) hne⟩
  · obtain ⟨-, hne, hc⟩ := exec_ok_of_mutation r store now
      (show (Op.deleteFeatureView name project commit).mutation now = _ from rfl) hok
    exact ⟨_, hc, RegistryProto.frame_deleteFeatureView hP hne⟩

/-- Over the two-project snapshot, a new definition of `driver_id` in `p1` replaces the one
entry of that key: the entity of `p2` with the same name and the other collections stay as
they were. -/
theorem apply_entity_touches_only_its_key :
    ∃ A, ((Registry.init 0).exec (some .sample) 0
          (.applyEntity ⟨"driver_id", "STRING"⟩ "p1" true)).registry.cachedRegistryProto = some A ∧
      RegistryProto.sample.Frame A [.entities] "driver_id" "p1" ∧
      A.entities.filter (·.hasKey "driver_id" "p1") =
        [(⟨"driver_id", "STRING"⟩ : Entity).toProto.withProject "p1"] :=
  (successful_call_frame (Registry.init 0) (some .sample) 0 (fun _ h => by cases h)
    (fun _ h => by cases h; exact RegistryProto.sample_wellFormed) "p1" true .none).1 _ (by decide)

end Registry

end Feast
