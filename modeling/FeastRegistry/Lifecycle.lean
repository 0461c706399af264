import FeastRegistry.Refinement

/-!
# Applying and deleting objects

What the registry keeps of a snapshot across any calls, and what a delete after an apply does.

- No call changes `feature_tables` or removes the key of an on-demand feature view
  (`Retains`, `foldl_applyTo_retains`): no method writes `feature_tables`,
  `delete_feature_view` searches `feature_views` and `request_feature_views` only, and an apply
  of an on-demand view replaces the entry of its key. After a successful apply of an on-demand
  view on a well-formed snapshot, deleting it raises `FeatureViewNotFoundException`
  (`delete_on_demand_view_raises`).
- On a well-formed snapshot with no entry of the key, an apply followed by the delete of the
  same name returns `None` and gives the snapshot back, for entities, feature services, feature
  views and request feature views (`CatalogObject.delete_after_apply_restores`). The step
  lemmas are one per edit: `deleteIn_setCollection_append`, and the three that rewrite an
  apply into that form.
-/

set_option autoImplicit false

namespace Feast

namespace RegistryProto

@[simp] theorem setCollection_collection (proto : RegistryProto) (c : Collection) :
    proto.setCollection c (proto.collection c) = proto := by
  cases c <;> rfl

/-! ## What no call removes -/

/-- `after` has the feature tables of `before` and every key of its on-demand feature views. -/
structure Retains (before after : RegistryProto) : Prop where
  featureTables_eq : after.featureTables = before.featureTables
  onDemand_keys : ∀ key ∈ before.onDemandFeatureViews.map ObjectProto.key,
    key ∈ after.onDemandFeatureViews.map ObjectProto.key

theorem Retains.refl (P : RegistryProto) : Retains P P := ⟨rfl, fun _ => id⟩

theorem Retains.trans {P Q R : RegistryProto} (h₁ : Retains P Q) (h₂ : Retains Q R) :
    Retains P R :=
  ⟨h₂.1.trans h₁.1, fun key hk => h₂.2 key (h₁.2 key hk)⟩

theorem retains_setCollection (P : RegistryProto) {d : Collection} (hd : d ≠ .featureTables)
    (hd' : d ≠ .onDemandFeatureViews) (xs : List ObjectProto) : Retains P (P.setCollection d xs) := by
  have h := fun c (hc : c ≠ d) => (collection_setCollection P d c xs).trans (if_neg hc)
  refine ⟨h .featureTables (Ne.symm hd), fun key hk => ?_⟩
  show key ∈ ((P.setCollection d xs).collection .onDemandFeatureViews).map ObjectProto.key
  rwa [h _ (Ne.symm hd')]

/-- An apply of an on-demand view: the entry of the view's key, if any, is replaced. -/
theorem retains_eraseP_append (P : RegistryProto) (o : ObjectProto) :
    Retains P (P.setCollection .onDemandFeatureViews
      (P.onDemandFeatureViews.eraseP (·.hasKey o.spec.name o.spec.project) ++ [o])) := by
  refine ⟨rfl, fun key hk => ?_⟩
  obtain ⟨x, hx, rfl⟩ := List.mem_map.1 hk
  show x.key ∈ (P.onDemandFeatureViews.eraseP (·.hasKey o.spec.name o.spec.project) ++ [o]).map
    ObjectProto.key
  by_cases hq : x.hasKey o.spec.name o.spec.project = true
  · rw [(ObjectProto.hasKey_iff_key _ _ _).1 hq]
    exact List.mem_map.2 ⟨o, by simp, rfl⟩
  · exact List.mem_map_of_mem _ (List.mem_append_left _
      ((List.mem_eraseP_of_neg (p := (·.hasKey o.spec.name o.spec.project)) hq).2 hx))

theorem retains_result {P : RegistryProto} {e : Edit} (h : ∀ A, e = .changed A → Retains P A) :
    Retains P (e.result P) := by
  cases e with
  | changed A => exact h A rfl
  | _ => exact .refl P

theorem retains_deleteIn (P : RegistryProto) {c : Collection} (hc : c ≠ .featureTables)
    (hc' : c ≠ .onDemandFeatureViews) (name project : String) (notFound : RegistryError) :
    Retains P ((P.deleteIn c name project notFound).result P) :=
  retains_result fun A hA => by
    unfold deleteIn at hA
    split at hA <;> cases hA
    exact retains_setCollection P hc hc' _

theorem retains_applyFeatureView (P : RegistryProto) (fv : FeatureView) (o : ObjectProto)
    (project : String) (hp : o.spec.project = project) :
    Retains P ((P.applyFeatureView fv o project).result P) := by
  subst hp
  rcases applyFeatureView_cases P fv o o.spec.project with
    ⟨-, h⟩ | ⟨-, -, h⟩ | ⟨-, -, -, -, -, -, h⟩ | ⟨k, -, -, -, h⟩ <;> rw [h] <;>
    simp only [Edit.result]
  any_goals exact .refl P
  cases k
  case onDemandFeatureView => exact retains_eraseP_append P o
  all_goals refine retains_setCollection P ?_ ?_ _ <;> decide

theorem retains_applyMaterialization (P : RegistryProto) (fv : FeatureView)
    (project : String) (startDate endDate : Int) :
    Retains P ((P.applyMaterialization fv project startDate endDate).result P) := by
  rcases applyMaterialization_cases P fv project startDate endDate with ⟨-, h⟩ | ⟨_, -, h⟩ <;>
    rw [h] <;> simp only [Edit.result]
  · exact .refl P
  · refine retains_setCollection P ?_ ?_ _ <;> decide

/-! ## Delete after apply -/

variable {P : RegistryProto} {o : ObjectProto} {project : String}

/-- The delete loop finds the entry an apply appended under a key the snapshot did not have,
and removes it. -/
theorem deleteIn_setCollection_append {d : Collection} {name : String}
    (hn : o.spec.name = name) (hp : o.spec.project = project) (h : ¬P.HasEntry d name project)
    (notFound : RegistryError) :
    (P.setCollection d ((P.collection d).eraseP (·.hasKey name project) ++ [o])).deleteIn d name
      project notFound = .changed P := by
  have hnot : ∀ x ∈ P.collection d, ¬x.hasKey name project = true := fun x hx hk => h ⟨x, hx, hk⟩
  have ho : o.hasKey name project = true := by simp [ObjectProto.hasKey, hn, hp]
  rw [List.eraseP_of_forall_not hnot, deleteIn_of_hasEntry ⟨o, by simp, ho⟩]
  simp [List.eraseP_append_right _ hnot, List.eraseP_cons, ho]

theorem deleteEntity_applyEntity (hp : o.spec.project = project)
    (h : ¬P.HasEntry .entities o.spec.name project) :
    (P.applyEntity o project).deleteEntity o.spec.name project = .changed P :=
  deleteIn_setCollection_append rfl hp h _

theorem deleteFeatureService_applyFeatureService (hwf : P.WellFormed)
    (hp : o.spec.project = project) (h : ¬P.HasEntry .featureServices o.spec.name project) :
    (P.applyFeatureService o project).deleteFeatureService o.spec.name project = .changed P := by
  have hk : (P.featureServices.map ObjectProto.key).Nodup :=
    hwf.keys_nodup .featureServices (by decide)
  rw [applyFeatureService, enumerateDel_append_eq_upsert hk rfl hp,
    ← eraseP_append_eq_upsert hk rfl hp]
  exact deleteIn_setCollection_append rfl hp h _

/-- `delete_feature_view` after an apply of a view of class `FeatureView` or
`RequestFeatureView` under a new key. For a request view the delete first misses in
`feature_views`: a view of that name there would have failed the apply's conflict check. -/
theorem deleteFeatureView_applyFeatureView (hwf : P.WellFormed) {fv : FeatureView}
    (hn : o.spec.name = fv.name) (hp : o.spec.project = project)
    (hodfv : (fv.cls.getD .featureView).collection ≠ .onDemandFeatureViews)
    (h : ¬P.HasEntry (fv.cls.getD .featureView).collection fv.name project)
    (he : ∀ err, P.applyFeatureView fv o project ≠ .raise err) :
    ((P.applyFeatureView fv o project).result P).deleteFeatureView fv.name project = .changed P := by
  rcases applyFeatureView_cases P fv o project with
    ⟨-, h'⟩ | ⟨-, -, h'⟩ | ⟨k, x, -, hk, hx, -, -⟩ | ⟨k, hc, hk, -, h'⟩
  · exact absurd h' (he _)
  · exact absurd h' (he _)
  · rw [hk, Option.getD_some] at h
    rw [hn] at hx
    have hkx := List.find?_some hx
    exact absurd ⟨x, List.mem_of_find?_eq_some hx, hkx⟩ h
  · rw [hk, Option.getD_some] at h hodfv
    rw [h', Edit.result, deleteFeatureView_eq]
    cases k <;> dsimp only [FeatureViewKind.collection] at h hodfv ⊢
    case featureView =>
      rw [if_pos ⟨o, by simp, by simp [ObjectProto.hasKey, hn, hp]⟩, ← hn]
      exact deleteIn_setCollection_append rfl hp (hn ▸ h) _
    case onDemandFeatureView => exact absurd rfl hodfv
    case requestFeatureView =>
      have hfv : ¬(P.setCollection .requestFeatureViews
          ((P.collection .requestFeatureViews).eraseP (·.hasKey o.spec.name project) ++ [o])).HasEntry
            .featureViews fv.name project := by
        rintro ⟨x, hx, hkx⟩
        rw [collection_setCollection, if_neg (by decide)] at hx
        have hname : fv.name ∈ P.names .featureViews :=
          List.mem_map.2 ⟨x, hx, ((ObjectProto.hasKey_iff _ _ _).1 hkx).1⟩
        have := (hwf.checkConflictingFeatureViewNames_iff fv).2 ⟨.featureView, by rw [hk]; decide, hname⟩
        rw [hc] at this
        cases this
      rw [if_neg hfv, ← hn]
      exact deleteIn_setCollection_append rfl hp (hn ▸ h) _

/-- After a successful apply of an on-demand view, no feature-view collection that
`delete_feature_view` searches holds its name. -/
theorem deleteFeatureView_applyFeatureView_on_demand (hwf : P.WellFormed) {fv : FeatureView}
    (hk : fv.cls = some .onDemandFeatureView) (hn : o.spec.name = fv.name)
    (hp : o.spec.project = project) (he : ∀ err, P.applyFeatureView fv o project ≠ .raise err) :
    ((P.applyFeatureView fv o project).result P).deleteFeatureView fv.name project =
      .raise (.featureViewNotFound fv.name project) := by
  have hafter : ((P.applyFeatureView fv o project).result P).WellFormed ∧
      fv.name ∈ ((P.applyFeatureView fv o project).result P).names .onDemandFeatureViews := by
    rcases applyFeatureView_cases P fv o project with
      ⟨-, h'⟩ | ⟨-, -, h'⟩ | ⟨k, x, -, hk', hx, -, h'⟩ | ⟨k, -, hk', -, h'⟩
    · exact absurd h' (he _)
    · exact absurd h' (he _)
    · rw [hk] at hk'; cases hk'
      simp only [h', Edit.result]
      have hkx := List.find?_some hx
      exact ⟨hwf, List.mem_map.2 ⟨x, List.mem_of_find?_eq_some hx,
        ((ObjectProto.hasKey_iff _ _ _).1 hkx).1.trans hn⟩⟩
    · rw [hk] at hk'; cases hk'
      simp only [h', Edit.result]
      exact ⟨hwf.applyFeatureView hn hp h',
        List.mem_map.2 ⟨o, List.mem_append_right _ (List.mem_singleton_self o), hn⟩⟩
  have hnot := fun k (hk' : FeatureViewKind.onDemandFeatureView ≠ k) =>
    hafter.1.names_disjoint _ k hk' _ hafter.2
  rw [deleteFeatureView_eq_raise]
  refine ⟨rfl, fun ⟨x, hx, hkx⟩ => hnot .featureView (by decide) ?_,
    fun ⟨x, hx, hkx⟩ => hnot .requestFeatureView (by decide) ?_⟩
  all_goals exact List.mem_map.2 ⟨x, hx, ((ObjectProto.hasKey_iff _ _ _).1 hkx).1⟩

end RegistryProto

open RegistryProto

/-! ## Calls -/

/-- The step lemma: no call changes `feature_tables` or removes an on-demand view's key. -/
theorem Op.retains_applyTo (op : Op) (now : Int) (P : RegistryProto) :
    Retains P (op.applyTo now P) := by
  rcases hm : op.mutation now with _ | ⟨pre, edit, c⟩
  · rw [Op.applyTo_of_mutation_eq_none hm]; exact .refl P
  · rw [Op.applyTo_of_mutation hm]
    cases pre with
    | some _ => exact .refl P
    | none =>
      cases op <;> simp only [Op.mutation, Option.some.injEq, Prod.mk.injEq, reduceCtorEq] at hm
      case applyEntity | applyFeatureService =>
        obtain ⟨-, rfl, -⟩ := hm
        dsimp only [Option.elim, Edit.result, applyEntity, applyFeatureService]
        refine retains_setCollection P ?_ ?_ _ <;> decide
      case applyFeatureView fv p _ =>
        obtain ⟨-, rfl, -⟩ := hm
        exact retains_applyFeatureView P _ _ p rfl
      case applyMaterialization =>
        obtain ⟨-, rfl, -⟩ := hm
        exact retains_applyMaterialization P _ _ _ _
      case deleteEntity | deleteFeatureService =>
        obtain ⟨-, rfl, -⟩ := hm
        exact retains_deleteIn P (by decide) (by decide) _ _ _
      case deleteFeatureView n p _ =>
        obtain ⟨-, rfl, -⟩ := hm
        show Retains P ((P.deleteFeatureView n p).result P)
        rw [deleteFeatureView_eq]
        split <;> exact retains_deleteIn P (by decide) (by decide) _ _ _
      case updateInfra =>
        obtain ⟨-, rfl, -⟩ := hm
        exact ⟨rfl, fun _ => id⟩

/-- No run of calls changes `feature_tables` or removes the key of an on-demand feature view
from the snapshot. -/
theorem foldl_applyTo_retains {ι : Type} (es : List (Event ι)) (P : RegistryProto) :
    Retains P (es.foldl (fun P e => e.op.applyTo e.now P) P) := by
  induction es generalizing P with
  | nil => exact .refl P
  | cons e es ih => exact (e.op.retains_applyTo e.now P).trans (ih _)

/-- `delete_entity`, `delete_feature_service` or `delete_feature_view` of the object's name. -/
def CatalogObject.delete (o : CatalogObject) (project : String) (commit : Bool) : Op :=
  match o with
  | .entity e => .deleteEntity e.name project commit
  | .featureService fs => .deleteFeatureService fs.name project commit
  | .featureView fv => .deleteFeatureView fv.name project commit

theorem mutationResult_eq_ok {pre : Option RegistryError} {e : Edit}
    (h : mutationResult pre e = .ok .none) : pre = none ∧ ∀ err, e ≠ .raise err := by
  cases pre <;> cases e <;> simp_all [mutationResult]

theorem Op.answer_applyTo_of_changed (op : Op) {now : Int} {edit : RegistryProto → Edit}
    {c : Bool} (hm : op.mutation now = some (none, edit, c)) {A P : RegistryProto}
    (he : edit A = .changed P) : op.answer now A = .ok .none ∧ op.applyTo now A = P := by
  rw [Op.answer_of_mutation hm, Op.applyTo_of_mutation hm, he]
  exact ⟨rfl, rfl⟩

/-- Deleting what an apply added under a new key gives the snapshot back. On a well-formed
snapshot with no entry of the object's key in its collection, a successful apply of an entity, a
feature service, a feature view or a request feature view, followed by the delete of its name,
returns `None` and leaves the snapshot as it was before the apply. -/
theorem CatalogObject.delete_after_apply_restores {P : RegistryProto} (hwf : P.WellFormed)
    (o : CatalogObject) (project : String) (c c' : Bool) (now : Int)
    (hnew : ¬P.HasEntry o.collection o.name project)
    (hodfv : o.collection ≠ .onDemandFeatureViews)
    (hok : (o.apply project c).answer now P = .ok .none) :
    (o.delete project c').answer now ((o.apply project c).applyTo now P) = .ok .none ∧
      (o.delete project c').applyTo now ((o.apply project c).applyTo now P) = P := by
  obtain ⟨pre, edit, hm⟩ : ∃ pre edit, (o.apply project c).mutation now = some (pre, edit, c) := by
    cases o <;> exact ⟨_, _, rfl⟩
  rw [Op.answer_of_mutation hm] at hok
  obtain ⟨rfl, hraise⟩ := mutationResult_eq_ok hok
  rw [Op.applyTo_of_mutation hm]
  cases o <;> simp only [CatalogObject.apply, Op.mutation, Option.some.injEq, Prod.mk.injEq] at hm
  case entity e =>
    obtain ⟨-, rfl, -⟩ := hm
    exact Op.answer_applyTo_of_changed (.deleteEntity e.name project c') rfl
      (deleteEntity_applyEntity (o := e.toProto.withProject project) rfl hnew)
  case featureService fs =>
    obtain ⟨-, rfl, -⟩ := hm
    exact Op.answer_applyTo_of_changed (.deleteFeatureService fs.name project c') rfl
      (deleteFeatureService_applyFeatureService (o := fs.toProto.withProject project) hwf rfl hnew)
  case featureView fv =>
    obtain ⟨-, rfl, -⟩ := hm
    have h := deleteFeatureView_applyFeatureView hwf (by simp) rfl (by simpa using hodfv)
      (by simpa using hnew) hraise
    rw [Registry.stampCreated_name] at h
    exact Op.answer_applyTo_of_changed (.deleteFeatureView fv.name project c') rfl h

/-- A request feature view of `p1` applied to the two-project snapshot and deleted again: the
delete misses in `feature_views`, removes it from `request_feature_views`, and gives the snapshot
back. -/
theorem delete_after_apply_restores_of_request_view :
    let o := CatalogObject.featureView
      ⟨some .requestFeatureView, "driver_request", "schema", none, []⟩
    (o.delete "p1" false).answer 3 ((o.apply "p1" true).applyTo 3 .sample) = .ok .none ∧
      (o.delete "p1" false).applyTo 3 ((o.apply "p1" true).applyTo 3 .sample) = .sample := by
  intro o
  exact CatalogObject.delete_after_apply_restores RegistryProto.sample_wellFormed o "p1" true false 3
    (by decide) (by decide) (by decide)

/-- An on-demand feature view cannot be deleted. After a successful apply of an on-demand view on
a well-formed snapshot, `delete_feature_view` of its name raises
`FeatureViewNotFoundException`. -/
theorem delete_on_demand_view_raises {P : RegistryProto} (hwf : P.WellFormed) {fv : FeatureView}
    (hk : fv.cls = some .onDemandFeatureView) (project : String) (c c' : Bool) (now : Int)
    (hok : (Op.applyFeatureView fv project c).answer now P = .ok .none) :
    (Op.deleteFeatureView fv.name project c').answer now
        ((Op.applyFeatureView fv project c).applyTo now P) =
      .error (.featureViewNotFound fv.name project) := by
  obtain ⟨pre, edit, hm⟩ :
      ∃ pre edit, (Op.applyFeatureView fv project c).mutation now = some (pre, edit, c) :=
    ⟨_, _, rfl⟩
  rw [Op.answer_of_mutation hm] at hok
  obtain ⟨rfl, hraise⟩ := mutationResult_eq_ok hok
  rw [Op.applyTo_of_mutation hm, Op.answer_of_mutation
    (show (Op.deleteFeatureView fv.name project c').mutation now = some (none, _, c') from rfl)]
  simp only [Op.mutation, Option.some.injEq, Prod.mk.injEq] at hm
  obtain ⟨-, rfl, -⟩ := hm
  have h := deleteFeatureView_applyFeatureView_on_demand hwf (by simpa using hk) (by simp) rfl
    hraise
  simp only [Registry.stampCreated_name, ObjectProto.withProject_project] at h
  simp only [Option.elim, h, mutationResult]

/-- The on-demand feature view `trip_score` of `p2` applied to `p1` too: deleting it from `p1`
raises, next to the one of the same name in `p2`. -/
theorem delete_on_demand_view_raises_of_trip_score :
    (Op.deleteFeatureView "trip_score" "p1" true).answer 0
        ((Op.applyFeatureView ⟨some .onDemandFeatureView, "trip_score", "udf", none, []⟩ "p1"
          true).applyTo 0 .sample) =
      .error (.featureViewNotFound "trip_score" "p1") :=
  delete_on_demand_view_raises RegistryProto.sample_wellFormed rfl "p1" true true 0 (by decide)

end Feast
