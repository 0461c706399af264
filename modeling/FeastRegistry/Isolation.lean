import FeastRegistry.Durability
import FeastRegistry.Frame
import FeastRegistry.Projection

/-!
# Projects on one snapshot

What a call of project `q` can observe of a proto is `SameFor q`: the entries of `q` of every
collection, in order, and the names used in each feature-view collection, in any order, which
the conflict check of `apply_feature_view` compares across projects.

- The reads of `q` and the projection of `to_dict(q)` depend on nothing else
  (`SameFor.exec_read`, `SameFor.projection_eq`).
- A mutating call of `q` edits two protos that agree for `q` alike (`Op.editsAgree`), so it
  returns the same result on both (`SameFor.exec_mutation`) and leaves protos that agree
  again (`SameFor.applyTo`).
- A call of another project `p` that neither applies nor deletes a feature view leaves what
  `q` observes unchanged (`Op.applyTo_sameFor_of_ne`). This follows from the frame lemmas of
  its edit.
- By induction over two batches that make the same calls of `q` and interleave calls of `p`
  with them (`Interleaving`), the snapshots the batches leave agree for `q`
  (`Interleaving.sameFor`).

Projects interfere through what they share (`projects_interfere_through_shared_state`):
- the feature-view names, which the conflict check compares across projects;
- the snapshot as a whole, which a commit of any project persists and a reload replaces.
The infra descriptor is shared too, but the released `get_infra` raises on `Infra.from_proto`,
which `Infra` lacks, so no read of it is stated here.
-/

set_option autoImplicit false

namespace Feast

open scoped List

/-- The project a call names; `none` for `commit`, `refresh` and `teardown`. -/
def Op.project : Op → Option String
  | .applyEntity _ p _ | .applyFeatureService _ p _ | .applyFeatureView _ p _
  | .applyMaterialization _ p _ _ _ | .deleteEntity _ p _ | .deleteFeatureService _ p _
  | .deleteFeatureView _ p _ | .updateInfra _ p _ | .getInfra p _ | .listEntities p _
  | .listFeatureServices p _ | .listFeatureViews p _ | .listOnDemandFeatureViews p _
  | .listRequestFeatureViews p _ | .getEntity _ p _ | .getFeatureService _ p _
  | .getFeatureView _ p _ | .getOnDemandFeatureView _ p _ => some p
  | .commit | .refresh | .teardown => none

/-- The calls that add or remove a name of a feature-view collection: `apply_feature_view` and
`delete_feature_view`. -/
def Op.writesFeatureViewNames : Op → Bool
  | .applyFeatureView .. | .deleteFeatureView .. => true
  | _ => false

/-- The reads of project `project`: its five `list_*` calls and its four `get_*` calls of
`name`. -/
def projectReads (project name : String) (allowCache : Bool) : List Op :=
  [.listEntities project allowCache, .listFeatureServices project allowCache,
    .listFeatureViews project allowCache, .listOnDemandFeatureViews project allowCache,
    .listRequestFeatureViews project allowCache, .getEntity name project allowCache,
    .getFeatureService name project allowCache, .getFeatureView name project allowCache,
    .getOnDemandFeatureView name project allowCache]

/-! ## Collections seen from one project -/

section Lists

variable {q : String}

theorem hasKey_and_project (x : ObjectProto) (n : String) :
    (x.spec.project == q && x.hasKey n q) = x.hasKey n q := by
  simp only [ObjectProto.hasKey]
  cases x.spec.project == q <;> simp

theorem find?_filter_project (xs : List ObjectProto) (n : String) :
    (xs.filter (·.spec.project == q)).find? (·.hasKey n q) = xs.find? (·.hasKey n q) := by
  simp only [List.find?_filter, ← Bool.and_eq_true, hasKey_and_project, Bool.decide_eq_true]

theorem filter_hasKey_filter_project (xs : List ObjectProto) (n : String) :
    (xs.filter (·.spec.project == q)).filter (·.hasKey n q) = xs.filter (·.hasKey n q) := by
  rw [List.filter_filter]
  exact List.filter_congr fun x _ => by rw [Bool.and_comm, hasKey_and_project]

theorem filter_project_upsert (xs : List ObjectProto) {o : ObjectProto}
    (ho : o.spec.project = q) :
    (upsert xs o).filter (·.spec.project == q) = upsert (xs.filter (·.spec.project == q)) o := by
  simp [upsert, List.filter_append, List.filter_filter, ho, Bool.and_comm]

theorem filter_project_filter_not_hasKey (xs : List ObjectProto) (n : String) :
    (xs.filter (!·.hasKey n q)).filter (·.spec.project == q) =
      (xs.filter (·.spec.project == q)).filter (!·.hasKey n q) := by
  simp only [List.filter_filter, Bool.and_comm]

/-- Deleting the entries of a key from two lists whose names agree up to order and whose entries
of the key agree leaves names that agree up to order. -/
theorem map_filter_not_perm {β : Type} (f : ObjectProto → β) (p : ObjectProto → Bool)
    {xs₁ xs₂ : List ObjectProto} (hn : xs₁.map f ~ xs₂.map f) (hp : xs₁.filter p = xs₂.filter p) :
    (xs₁.filter (!p ·)).map f ~ (xs₂.filter (!p ·)).map f := by
  have split : ∀ xs : List ObjectProto,
      xs.map f ~ (xs.filter p).map f ++ (xs.filter (!p ·)).map f :=
    fun xs => by rw [← List.map_append]; exact ((List.filter_append_perm p xs).map f).symm
  have := (split xs₁).symm.trans (hn.trans (split xs₂))
  rwa [hp, List.perm_append_left_iff] at this

/-- Upserting an entry whose name is that of the one entry of its key keeps the names up to
order. -/
theorem map_name_upsert_perm {xs : List ObjectProto} {o x : ObjectProto}
    (hx : xs.filter (·.hasKey o.spec.name o.spec.project) = [x]) (hn : x.spec.name = o.spec.name) :
    (upsert xs o).map (·.spec.name) ~ xs.map (·.spec.name) := by
  have := (List.filter_append_perm (·.hasKey o.spec.name o.spec.project) xs).map (·.spec.name)
  rw [hx, List.map_append, List.map_singleton, hn] at this
  rw [upsert, List.map_append, List.map_singleton]
  exact List.perm_append_comm.trans this

end Lists

namespace RegistryProto

/-- What a call of project `q` can observe of a proto: the entries of `q` of every collection,
in order, and the names used in each feature-view collection, in any order. -/
structure SameFor (q : String) (P₁ P₂ : RegistryProto) : Prop where
  entries : ∀ c, P₁.listIn c q = P₂.listIn c q
  names : ∀ k : FeatureViewKind, P₁.names k.collection ~ P₂.names k.collection

variable {q : String} {P₁ P₂ P₃ : RegistryProto}

theorem SameFor.refl (P : RegistryProto) : SameFor q P P := ⟨fun _ => rfl, fun _ => .refl _⟩

theorem SameFor.symm (h : SameFor q P₁ P₂) : SameFor q P₂ P₁ :=
  ⟨fun c => (h.entries c).symm, fun k => (h.names k).symm⟩

theorem SameFor.trans (h : SameFor q P₁ P₂) (h' : SameFor q P₂ P₃) : SameFor q P₁ P₃ :=
  ⟨fun c => (h.entries c).trans (h'.entries c), fun k => (h.names k).trans (h'.names k)⟩

/-! ## What a call of `q` reads -/

theorem SameFor.find?_eq (h : SameFor q P₁ P₂) (c : Collection) (n : String) :
    (P₁.collection c).find? (·.hasKey n q) = (P₂.collection c).find? (·.hasKey n q) := by
  simpa only [listIn, find?_filter_project] using congrArg (List.find? (·.hasKey n q)) (h.entries c)

theorem SameFor.hasEntry_iff (h : SameFor q P₁ P₂) {c : Collection} {n : String} :
    P₁.HasEntry c n q ↔ P₂.HasEntry c n q := by
  rw [← not_iff_not, ← find?_hasKey_eq_none_iff, ← find?_hasKey_eq_none_iff, h.find?_eq]

theorem SameFor.getIn_eq (h : SameFor q P₁ P₂) (c : Collection) (n : String)
    (notFound : RegistryError) : P₁.getIn c n q notFound = P₂.getIn c n q notFound := by
  rw [getIn, getIn, h.find?_eq]

theorem SameFor.checkConflictingFeatureViewNames_eq (h : SameFor q P₁ P₂) (h₁ : P₁.WellFormed)
    (h₂ : P₂.WellFormed) (fv : FeatureView) :
    P₁.checkConflictingFeatureViewNames fv = P₂.checkConflictingFeatureViewNames fv := by
  rw [Bool.eq_iff_iff, h₁.checkConflictingFeatureViewNames_iff,
    h₂.checkConflictingFeatureViewNames_iff]
  simp only [(h.names _).mem_iff]

theorem SameFor.filter_hasKey_eq (h : SameFor q P₁ P₂) (c : Collection) (n : String) :
    (P₁.collection c).filter (·.hasKey n q) = (P₂.collection c).filter (·.hasKey n q) := by
  simpa only [listIn, filter_hasKey_filter_project] using
    congrArg (List.filter (·.hasKey n q)) (h.entries c)

/-- `to_dict(q)` computes the same projection from two protos that agree for `q`. -/
theorem SameFor.projection_eq (h : SameFor q P₁ P₂) : P₁.projection q = P₂.projection q := by
  simp only [projection, toDictValues, h.entries]

/-! ## Replacing a collection on both sides -/

theorem SameFor.setCollection (h : SameFor q P₁ P₂) (c : Collection) {xs₁ xs₂ : List ObjectProto}
    (he : xs₁.filter (·.spec.project == q) = xs₂.filter (·.spec.project == q))
    (hn : ∀ k : FeatureViewKind, k.collection = c →
      xs₁.map (·.spec.name) ~ xs₂.map (·.spec.name)) :
    SameFor q (P₁.setCollection c xs₁) (P₂.setCollection c xs₂) := by
  refine ⟨fun d => ?_, fun k => ?_⟩
  · have hd := h.entries d
    simp only [listIn, collection_setCollection] at hd ⊢
    split <;> assumption
  · rw [names_setCollection, names_setCollection]
    split
    · exact hn k ‹_›
    · exact h.names k

/-- An apply of `q` upserts the same entry into both protos. -/
theorem SameFor.upsert (h : SameFor q P₁ P₂) (c : Collection) {o : ObjectProto}
    (ho : o.spec.project = q) :
    SameFor q (P₁.setCollection c (upsert (P₁.collection c) o))
      (P₂.setCollection c (upsert (P₂.collection c) o)) := by
  refine h.setCollection c ?_ fun k hk => ?_
  · rw [filter_project_upsert _ ho, filter_project_upsert _ ho]
    exact congrArg (Feast.upsert · o) (h.entries c)
  · subst hk
    simp only [Feast.upsert, List.map_append, ho]
    exact (map_filter_not_perm _ _ (h.names k) (h.filter_hasKey_eq _ _)).append_right _

/-- A delete of `q` removes the same entries from both protos. -/
theorem SameFor.filter_not_hasKey (h : SameFor q P₁ P₂) (c : Collection) (n : String) :
    SameFor q (P₁.setCollection c ((P₁.collection c).filter (!·.hasKey n q)))
      (P₂.setCollection c ((P₂.collection c).filter (!·.hasKey n q))) := by
  refine h.setCollection c ?_ fun k hk => ?_
  · rw [filter_project_filter_not_hasKey, filter_project_filter_not_hasKey]
    exact congrArg (List.filter _) (h.entries c)
  · subst hk
    exact map_filter_not_perm _ _ (h.names k) (h.filter_hasKey_eq _ n)

theorem sameFor_updateInfra (P : RegistryProto) (infra : Infra) :
    SameFor q (P.updateInfra infra) P :=
  ⟨fun c => by rw [listIn, listIn, collection_updateInfra],
    fun k => by rw [names, names, collection_updateInfra]⟩

/-! ## The edits of a call of `q` -/

/-- Two edits of two protos that raise the same errors and leave protos that agree for `q`. -/
structure EditsAgree (q : String) (P₁ P₂ : RegistryProto) (e₁ e₂ : Edit) : Prop where
  raise : ∀ err, e₁ = .raise err ↔ e₂ = .raise err
  result : SameFor q (e₁.result P₁) (e₂.result P₂)

theorem EditsAgree.changed {A₁ A₂ : RegistryProto} (h : SameFor q A₁ A₂) :
    EditsAgree q P₁ P₂ (.changed A₁) (.changed A₂) :=
  ⟨fun _ => by simp, h⟩

theorem SameFor.raise (h : SameFor q P₁ P₂) (err : RegistryError) :
    EditsAgree q P₁ P₂ (.raise err) (.raise err) :=
  ⟨fun _ => .rfl, h⟩

theorem SameFor.unchanged (h : SameFor q P₁ P₂) : EditsAgree q P₁ P₂ .unchanged .unchanged :=
  ⟨fun _ => .rfl, h⟩

variable (h : SameFor q P₁ P₂) (h₁ : P₁.WellFormed) (h₂ : P₂.WellFormed)
include h h₁ h₂

theorem SameFor.applyEntity {o : ObjectProto} (ho : o.spec.project = q) :
    SameFor q (P₁.applyEntity o q) (P₂.applyEntity o q) := by
  rw [RegistryProto.applyEntity, RegistryProto.applyEntity, ← collection_entities P₁,
    ← collection_entities P₂,
    eraseP_append_eq_upsert (h₁.keys_nodup .entities (by decide)) rfl ho,
    eraseP_append_eq_upsert (h₂.keys_nodup .entities (by decide)) rfl ho]
  exact h.upsert .entities ho

theorem SameFor.applyFeatureService {o : ObjectProto} (ho : o.spec.project = q) :
    SameFor q (P₁.applyFeatureService o q) (P₂.applyFeatureService o q) := by
  rw [RegistryProto.applyFeatureService, RegistryProto.applyFeatureService,
    ← collection_featureServices P₁, ← collection_featureServices P₂,
    enumerateDel_append_eq_upsert (h₁.keys_nodup .featureServices (by decide)) rfl ho,
    enumerateDel_append_eq_upsert (h₂.keys_nodup .featureServices (by decide)) rfl ho]
  exact h.upsert .featureServices ho

/-- `apply_feature_view` of `q` takes the same branch on both protos: the conflict check sees
the same names, and the collection of the view's class the same entry of the key. -/
theorem SameFor.applyFeatureView (fv : FeatureView) {o : ObjectProto} (ho : o.spec.project = q) :
    EditsAgree q P₁ P₂ (P₁.applyFeatureView fv o q) (P₂.applyFeatureView fv o q) := by
  dsimp only [RegistryProto.applyFeatureView]
  rw [h.checkConflictingFeatureViewNames_eq h₁ h₂]
  split
  · exact h.raise _
  · split
    · exact h.raise _
    · next k _ =>
      rw [h.find?_eq k.collection]
      split
      · exact h.unchanged
      · have hk := k.collection_ne_featureTables
        rw [eraseP_append_eq_upsert (h₁.keys_nodup _ hk) rfl ho,
          eraseP_append_eq_upsert (h₂.keys_nodup _ hk) rfl ho]
        exact .changed (h.upsert _ ho)

/-- `apply_materialization` of `q` finds the same entry in both protos and writes the same
replacement. -/
theorem SameFor.applyMaterialization (fv : FeatureView) (startDate endDate : Int) :
    EditsAgree q P₁ P₂ (P₁.applyMaterialization fv q startDate endDate)
      (P₂.applyMaterialization fv q startDate endDate) := by
  have hf := h.find?_eq .featureViews fv.name
  rcases applyMaterialization_cases P₁ fv q startDate endDate with ⟨hf₁, he₁⟩ | ⟨x, hx₁, he₁⟩ <;>
    rcases applyMaterialization_cases P₂ fv q startDate endDate with ⟨hf₂, he₂⟩ | ⟨x', hx₂, he₂⟩
  · rw [he₁, he₂]
    exact h.raise _
  · exact absurd (hf₁.symm.trans (hf.trans hx₂)) (by simp)
  · exact absurd (hx₁.symm.trans (hf.trans hf₂)) (by simp)
  · obtain rfl : x = x' := Option.some.inj (hx₁.symm.trans (hf.trans hx₂))
    have hk := List.find?_some hx₁
    have hn := ((ObjectProto.hasKey_iff _ _ _).1 hk).1
    rw [he₁, he₂, ← collection_featureViews P₁, ← collection_featureViews P₂,
      eraseP_append_eq_upsert (h₁.keys_nodup .featureViews (by decide)) ?_ ?_,
      eraseP_append_eq_upsert (h₂.keys_nodup .featureViews (by decide)) ?_ ?_]
    · exact .changed (h.upsert _ rfl)
    all_goals simp [hn]

theorem SameFor.deleteIn {c : Collection} (hc : c ≠ .featureTables) (n : String)
    (notFound : RegistryError) :
    EditsAgree q P₁ P₂ (P₁.deleteIn c n q notFound) (P₂.deleteIn c n q notFound) := by
  by_cases he : P₁.HasEntry c n q
  · rw [deleteIn_of_hasEntry he, deleteIn_of_hasEntry (h.hasEntry_iff.1 he),
      eraseP_eq_filter_of_atMostOne _ (atMostOne_hasKey (h₁.keys_nodup c hc) n q),
      eraseP_eq_filter_of_atMostOne _ (atMostOne_hasKey (h₂.keys_nodup c hc) n q)]
    exact .changed (h.filter_not_hasKey c n)
  · rw [(deleteIn_eq_raise _).2 ⟨rfl, he⟩, (deleteIn_eq_raise _).2 ⟨rfl, mt h.hasEntry_iff.2 he⟩]
    exact h.raise _

omit h h₁ h₂ in
/-- `delete_feature_view` deletes from `feature_views` when the key is there, and otherwise
from `request_feature_views`. -/
theorem deleteFeatureView_eq (proto : RegistryProto) (name project : String) :
    proto.deleteFeatureView name project =
      if proto.HasEntry .featureViews name project then
        proto.deleteIn .featureViews name project (.featureViewNotFound name project)
      else
        proto.deleteIn .requestFeatureViews name project (.featureViewNotFound name project) := by
  split
  · next he => simp [deleteFeatureView, deleteIn_of_hasEntry he]
  · next he => simp [deleteFeatureView, (deleteIn_eq_raise _).2 ⟨rfl, he⟩]

theorem SameFor.deleteFeatureView (n : String) :
    EditsAgree q P₁ P₂ (P₁.deleteFeatureView n q) (P₂.deleteFeatureView n q) := by
  rw [deleteFeatureView_eq, deleteFeatureView_eq]
  simp only [h.hasEntry_iff]
  split <;> exact h.deleteIn h₁ h₂ (by decide) n _

end RegistryProto

/-! ## Calls of `q` -/

open RegistryProto

variable {q : String} {P₁ P₂ : RegistryProto}

/-- Every mutating call of project `q` edits two well-formed protos that agree for `q` alike. -/
theorem Op.editsAgree {op : Op} (hq : op.project = some q) {now : Int}
    {pre : Option RegistryError} {edit : RegistryProto → Edit} {c : Bool}
    (hm : op.mutation now = some (pre, edit, c)) (h : SameFor q P₁ P₂) (h₁ : P₁.WellFormed)
    (h₂ : P₂.WellFormed) : EditsAgree q P₁ P₂ (edit P₁) (edit P₂) := by
  cases op <;> simp only [Op.mutation, Option.some.injEq, Prod.mk.injEq, reduceCtorEq] at hm <;>
    obtain ⟨-, rfl, -⟩ := hm <;> simp only [Op.project, Option.some.injEq] at hq <;> subst hq
  case applyEntity => exact .changed (h.applyEntity h₁ h₂ rfl)
  case applyFeatureService => exact .changed (h.applyFeatureService h₁ h₂ rfl)
  case applyFeatureView => exact h.applyFeatureView h₁ h₂ _ rfl
  case applyMaterialization => exact h.applyMaterialization h₁ h₂ _ _ _
  case deleteEntity | deleteFeatureService => exact h.deleteIn h₁ h₂ (by decide) _ _
  case deleteFeatureView => exact h.deleteFeatureView h₁ h₂ _
  case updateInfra =>
    exact .changed ((sameFor_updateInfra P₁ _).trans (h.trans (sameFor_updateInfra P₂ _).symm))

theorem Op.applyTo_of_mutation {op : Op} {now : Int} {pre : Option RegistryError}
    {edit : RegistryProto → Edit} {c : Bool} (hm : op.mutation now = some (pre, edit, c))
    (proto : RegistryProto) :
    op.applyTo now proto = pre.elim ((edit proto).result proto) fun _ => proto := by
  cases pre <;> simp [Op.applyTo, hm]

theorem Op.applyTo_of_mutation_eq_none {op : Op} {now : Int} (hm : op.mutation now = none)
    (proto : RegistryProto) : op.applyTo now proto = proto := by
  simp [Op.applyTo, hm]

theorem RegistryProto.WellFormed.applyTo {proto : RegistryProto} (h : proto.WellFormed) (op : Op)
    (now : Int) : (op.applyTo now proto).WellFormed := by
  rcases hm : op.mutation now with _ | ⟨pre, edit, c⟩
  · rwa [Op.applyTo_of_mutation_eq_none hm]
  · rw [Op.applyTo_of_mutation hm]
    cases pre
    · cases he : edit proto with
      | changed A => exact Op.edit_wellFormed hm h he
      | _ => exact h
    · exact h

/-- A call of `q` on two well-formed snapshots that agree for `q` leaves snapshots that agree. -/
theorem RegistryProto.SameFor.applyTo (h : SameFor q P₁ P₂) (h₁ : P₁.WellFormed)
    (h₂ : P₂.WellFormed) {op : Op} (hq : op.project = some q) (now : Int) :
    SameFor q (op.applyTo now P₁) (op.applyTo now P₂) := by
  rcases hm : op.mutation now with _ | ⟨pre, edit, c⟩
  · rwa [Op.applyTo_of_mutation_eq_none hm, Op.applyTo_of_mutation_eq_none hm]
  · rw [Op.applyTo_of_mutation hm, Op.applyTo_of_mutation hm]
    cases pre
    · exact (Op.editsAgree hq hm h h₁ h₂).result
    · exact h

/-- The result a mutating call returns: its check's error, its edit's error, or `None`. -/
def mutationResult (pre : Option RegistryError) (e : Edit) : Except RegistryError Value :=
  match pre, e with
  | some err, _ => .error err
  | none, .raise err => .error err
  | none, _ => .ok .none

theorem Registry.exec_result_of_mutation (r : Registry) (store : Option RegistryProto) (now : Int)
    {op : Op} {pre : Option RegistryError} {edit : RegistryProto → Edit} {c : Bool}
    (hm : op.mutation now = some (pre, edit, c)) :
    (r.exec store now op).result =
      mutationResult pre (edit (r.prepareRegistryForChanges store now).1) := by
  rw [Registry.exec_of_mutation r store now hm]
  rcases Registry.mutate_cases r store now pre edit c with
    ⟨e, rfl, hm⟩ | ⟨rfl, e, he, hm⟩ | ⟨rfl, he, hm⟩ | ⟨rfl, p, he, hm⟩ <;> rw [hm]
  · rfl
  all_goals simp [he, Outcome.map, Except.map, mutationResult]

theorem RegistryProto.EditsAgree.mutationResult_eq {e₁ e₂ : Edit} (h : EditsAgree q P₁ P₂ e₁ e₂)
    (pre : Option RegistryError) : mutationResult pre e₁ = mutationResult pre e₂ := by
  cases pre with
  | some _ => rfl
  | none =>
    cases e₁ with
    | raise err => rw [(h.raise err).1 rfl]
    | _ => cases e₂ with
      | raise err => exact absurd ((h.raise err).2 rfl) (by simp)
      | _ => rfl

/-- A mutating call of `q` returns the same result on two registries whose prepare steps give
well-formed protos that agree for `q`. -/
theorem RegistryProto.SameFor.exec_mutation {r₁ r₂ : Registry} {s₁ s₂ : Option RegistryProto}
    {now : Int}
    (h : SameFor q (r₁.prepareRegistryForChanges s₁ now).1 (r₂.prepareRegistryForChanges s₂ now).1)
    (h₁ : (r₁.prepareRegistryForChanges s₁ now).1.WellFormed)
    (h₂ : (r₂.prepareRegistryForChanges s₂ now).1.WellFormed) {op : Op} (hq : op.project = some q)
    {pre : Option RegistryError} {edit : RegistryProto → Edit} {c : Bool}
    (hm : op.mutation now = some (pre, edit, c)) :
    (r₁.exec s₁ now op).result = (r₂.exec s₂ now op).result := by
  rw [Registry.exec_result_of_mutation _ _ _ hm, Registry.exec_result_of_mutation _ _ _ hm]
  exact (Op.editsAgree hq hm h h₁ h₂).mutationResult_eq pre

/-- Every read of `q` returns the same result on two registries whose loads give protos that
agree for `q`. -/
theorem RegistryProto.SameFor.exec_read (h : SameFor q P₁ P₂) {r₁ r₂ : Registry}
    {s₁ s₂ : Option RegistryProto} {t₁ t₂ : Int} {allowCache : Bool}
    (hl₁ : (r₁.getRegistryProto s₁ t₁ allowCache).1 = .ok P₁)
    (hl₂ : (r₂.getRegistryProto s₂ t₂ allowCache).1 = .ok P₂) (name : String) :
    ∀ op ∈ projectReads q name allowCache,
      (r₁.exec s₁ t₁ op).result = (r₂.exec s₂ t₂ op).result := by
  simp only [projectReads, List.mem_cons, List.mem_singleton, List.not_mem_nil, or_false]
  rintro op (rfl | rfl | rfl | rfl | rfl | rfl | rfl | rfl | rfl) <;>
    simp only [Registry.exec, Registry.listEntities, Registry.listFeatureServices,
      Registry.listFeatureViews, Registry.listOnDemandFeatureViews,
      Registry.listRequestFeatureViews, Registry.getEntity, Registry.getFeatureService,
      Registry.getFeatureView, Registry.getOnDemandFeatureView, Outcome.map,
      Registry.read_result_of_ok hl₁, Registry.read_result_of_ok hl₂, h.entries, h.getIn_eq]

/-! ## Calls of another project -/

theorem RegistryProto.Frame.listIn_eq {before after : RegistryProto} {cs : List Collection}
    {name p : String} (hf : Frame before after cs name p) (hpq : p ≠ q) (c : Collection) :
    after.listIn c q = before.listIn c q := by
  have key : ∀ xs : List ObjectProto, xs.filter (·.spec.project == q) =
      (xs.filter (!·.hasKey name p)).filter (·.spec.project == q) := fun xs => by
    rw [List.filter_filter]
    refine List.filter_congr fun x _ => ?_
    by_cases hx : x.spec.project = q <;> simp [ObjectProto.hasKey, hx, Ne.symm hpq]
  rw [listIn, listIn, key, hf.others, ← key]

/-- A frame of another project that leaves the feature-view collections alone. -/
theorem RegistryProto.Frame.sameFor {before after : RegistryProto} {cs : List Collection}
    {name p : String} (hf : Frame before after cs name p) (hpq : p ≠ q)
    (hcs : ∀ k : FeatureViewKind, k.collection ∉ cs) : SameFor q after before :=
  ⟨hf.listIn_eq hpq, fun k => by rw [names, names, hf.untouched _ (hcs k)]⟩

theorem sameFor_result_of_frame {e : Edit} {proto : RegistryProto} {cs : List Collection}
    {name p : String} (hf : (∀ err, e ≠ .raise err) → Frame proto (e.result proto) cs name p)
    (hpq : p ≠ q) (hcs : ∀ k : FeatureViewKind, k.collection ∉ cs) :
    SameFor q (e.result proto) proto := by
  by_cases hr : ∃ err, e = .raise err
  · obtain ⟨err, rfl⟩ := hr
    exact .refl _
  · exact (hf fun err he => hr ⟨err, he⟩).sameFor hpq hcs

/-- `apply_materialization` of another project replaces an entry by one of the same name. -/
theorem RegistryProto.WellFormed.applyMaterialization_sameFor {proto : RegistryProto}
    (h : proto.WellFormed) {fv : FeatureView} {p : String} {startDate endDate : Int}
    (hpq : p ≠ q) :
    SameFor q ((proto.applyMaterialization fv p startDate endDate).result proto) proto := by
  cases he : proto.applyMaterialization fv p startDate endDate with
  | changed A =>
    have hne : ∀ e, proto.applyMaterialization fv p startDate endDate ≠ .raise e :=
      fun e => by simp [he]
    obtain ⟨-, -, -, hf, -⟩ := frame_applyMaterialization h hne
    rw [he] at hf
    obtain ⟨x, y, hx, hys, -, rfl⟩ := applyMaterialization_eq_changed he
    have hk := List.find?_some hx
    obtain ⟨hxn, hxp⟩ := (ObjectProto.hasKey_iff _ _ _).1 hk
    have hkeys := h.keys_nodup .featureViews (by decide)
    have hn : y.spec.name = fv.name := hys ▸ hxn
    have hp : y.spec.project = p := hys ▸ hxp
    simp only [Edit.result] at hf ⊢
    refine ⟨hf.listIn_eq hpq, fun k => ?_⟩
    rw [names_setCollection, ← collection_featureViews proto, eraseP_append_eq_upsert hkeys hn hp]
    split
    · next hk =>
      rw [hk]
      refine map_name_upsert_perm ?_ (by rw [hxn, hn])
      rw [hn, hp]
      exact filter_eq_singleton_of_atMostOne _ (atMostOne_hasKey hkeys _ _) hx
    · exact .refl _
  | _ => exact .refl _

/-- The edit of a call of project `p ≠ q` that neither applies nor deletes a feature view
leaves what `q` observes of a well-formed proto unchanged. -/
theorem Op.edit_sameFor_of_ne {op : Op} {p : String} (hp : op.project = some p) (hpq : p ≠ q)
    (hw : op.writesFeatureViewNames = false) {now : Int} {pre : Option RegistryError}
    {edit : RegistryProto → Edit} {c : Bool} (hm : op.mutation now = some (pre, edit, c))
    {proto : RegistryProto} (h : proto.WellFormed) :
    SameFor q ((edit proto).result proto) proto := by
  cases op <;> simp only [Op.mutation, Option.some.injEq, Prod.mk.injEq, reduceCtorEq] at hm <;>
    obtain ⟨-, rfl, -⟩ := hm <;> simp only [Op.project, Option.some.injEq] at hp <;> subst hp <;>
    simp only [Op.writesFeatureViewNames, Bool.true_eq_false] at hw
  case applyEntity =>
    exact (frame_applyEntity h rfl).1.sameFor hpq fun k => by cases k <;> decide
  case applyFeatureService =>
    exact (frame_applyFeatureService h rfl).1.sameFor hpq fun k => by cases k <;> decide
  case applyMaterialization => exact h.applyMaterialization_sameFor hpq
  case deleteEntity | deleteFeatureService =>
    exact sameFor_result_of_frame (fun hne => (frame_deleteIn h (by decide) hne).1) hpq
      fun k => by cases k <;> decide
  case updateInfra => exact sameFor_updateInfra _ _

/-- A call of project `p ≠ q` that neither applies nor deletes a feature view leaves what `q`
observes of a well-formed snapshot unchanged. -/
theorem Op.applyTo_sameFor_of_ne {op : Op} {p : String} (hp : op.project = some p) (hpq : p ≠ q)
    (hw : op.writesFeatureViewNames = false) {proto : RegistryProto} (h : proto.WellFormed)
    (now : Int) : SameFor q (op.applyTo now proto) proto := by
  rcases hm : op.mutation now with _ | ⟨pre, edit, c⟩
  · rw [Op.applyTo_of_mutation_eq_none hm]
    exact .refl _
  · rw [Op.applyTo_of_mutation hm]
    cases pre
    · exact Op.edit_sameFor_of_ne hp hpq hw hm h
    · exact .refl _

/-! ## Two batches -/

/-- Two batches of calls of one instance that make the same calls of project `q`, in the same
order, and between them any calls of project `p`, none of which applies or deletes a feature
view. -/
inductive Interleaving (p q : String) : List (Event Unit) → List (Event Unit) → Prop
  | nil : Interleaving p q [] []
  | both {e : Event Unit} {es₁ es₂ : List (Event Unit)} :
      e.op.project = some q → Interleaving p q es₁ es₂ → Interleaving p q (e :: es₁) (e :: es₂)
  | left {e : Event Unit} {es₁ es₂ : List (Event Unit)} :
      e.op.project = some p → e.op.writesFeatureViewNames = false → Interleaving p q es₁ es₂ →
        Interleaving p q (e :: es₁) es₂
  | right {e : Event Unit} {es₁ es₂ : List (Event Unit)} :
      e.op.project = some p → e.op.writesFeatureViewNames = false → Interleaving p q es₁ es₂ →
        Interleaving p q es₁ (e :: es₂)

/-- Two interleaved batches applied to well-formed snapshots that agree for `q` leave snapshots
that agree for `q`. -/
theorem Interleaving.sameFor {p : String} (hpq : p ≠ q) {es₁ es₂ : List (Event Unit)}
    (hi : Interleaving p q es₁ es₂) :
    ∀ {P₁ P₂ : RegistryProto}, P₁.WellFormed → P₂.WellFormed → SameFor q P₁ P₂ →
      SameFor q (es₁.foldl (fun P e => e.op.applyTo e.now P) P₁)
        (es₂.foldl (fun P e => e.op.applyTo e.now P) P₂) := by
  induction hi with
  | nil => exact fun _ _ h => h
  | both hq _ ih => exact fun h₁ h₂ h => ih (h₁.applyTo _ _) (h₂.applyTo _ _) (h.applyTo h₁ h₂ hq _)
  | left hp hw _ ih =>
    exact fun h₁ h₂ h => ih (h₁.applyTo _ _) h₂ ((Op.applyTo_sameFor_of_ne hp hpq hw h₁ _).trans h)
  | right hp hw _ ih =>
    exact fun h₁ h₂ h =>
      ih h₁ (h₂.applyTo _ _) (h.trans (Op.applyTo_sameFor_of_ne hp hpq hw h₂ _).symm)


/-! ## Isolation, and where it ends -/

/-- Projects are isolated in what the snapshot holds for each of them. Take two batches of
calls made on one well-formed snapshot by one instance whose cache stays fresh, so that each call
applies to the snapshot the previous one left (`System.run_uncommitted_batch`). Let the batches
make the same calls of `q` and differ by calls of `p ≠ q`, none of which applies or deletes a
feature view. Then they leave snapshots that agree for `q`. On snapshots that agree for `q`:
- `to_dict(q)` computes the same projection;
- every `list_*` and `get_*` of `q` returns the same result;
- every mutating call of `q` succeeds or fails alike. -/
theorem projects_isolated_on_one_snapshot {p q : String} (hpq : p ≠ q) :
    (∀ (proto : RegistryProto) (es₁ es₂ : List (Event Unit)), proto.WellFormed →
      Interleaving p q es₁ es₂ →
      SameFor q (es₁.foldl (fun P e => e.op.applyTo e.now P) proto)
        (es₂.foldl (fun P e => e.op.applyTo e.now P) proto)) ∧
    (∀ P₁ P₂ : RegistryProto, SameFor q P₁ P₂ → P₁.projection q = P₂.projection q ∧
      ∀ (r₁ r₂ : Registry) (s₁ s₂ : Option RegistryProto) (t₁ t₂ : Int) (allowCache : Bool),
        (r₁.getRegistryProto s₁ t₁ allowCache).1 = .ok P₁ →
        (r₂.getRegistryProto s₂ t₂ allowCache).1 = .ok P₂ →
        ∀ (name : String), ∀ op ∈ projectReads q name allowCache,
          (r₁.exec s₁ t₁ op).result = (r₂.exec s₂ t₂ op).result) ∧
    (∀ (r₁ r₂ : Registry) (s₁ s₂ : Option RegistryProto) (now : Int) (op : Op),
      op.project = some q → (op.mutation now).isSome →
      (r₁.prepareRegistryForChanges s₁ now).1.WellFormed →
      (r₂.prepareRegistryForChanges s₂ now).1.WellFormed →
      SameFor q (r₁.prepareRegistryForChanges s₁ now).1 (r₂.prepareRegistryForChanges s₂ now).1 →
      (r₁.exec s₁ now op).result = (r₂.exec s₂ now op).result) := by
  refine ⟨fun proto _ _ hwf hi => hi.sameFor hpq hwf hwf (.refl _),
    fun P₁ P₂ h => ⟨h.projection_eq, fun _ _ _ _ _ _ _ hl₁ hl₂ => h.exec_read hl₁ hl₂⟩,
    fun r₁ r₂ s₁ s₂ now op hq hs h₁ h₂ h => ?_⟩
  obtain ⟨⟨pre, edit, c⟩, hm⟩ := Option.isSome_iff_exists.1 hs
  exact h.exec_mutation h₁ h₂ hq hm

/-- Over the two-project snapshot, an entity of `p1` applied before an entity of `p2` leaves `p2`
seeing the same snapshot as without it. -/
theorem isolation_of_entity_inserted_before :
    SameFor "p2"
      ([(⟨(), 1, .applyEntity ⟨"driver_id", "INT64"⟩ "p2" false⟩ : Event Unit)].foldl
        (fun P e => e.op.applyTo e.now P) RegistryProto.sample)
      ([(⟨(), 0, .applyEntity ⟨"customer_id", "INT64"⟩ "p1" false⟩ : Event Unit),
          ⟨(), 1, .applyEntity ⟨"driver_id", "INT64"⟩ "p2" false⟩].foldl
        (fun P e => e.op.applyTo e.now P) RegistryProto.sample) :=
  (projects_isolated_on_one_snapshot (p := "p1") (q := "p2") (by decide)).1 _ _ _
    RegistryProto.sample_wellFormed (.right rfl rfl (.both rfl .nil))

/-- Two ways a call of `p1` changes what `p2` observes, from fresh instances over the empty
snapshot. A request feature view of `p1` makes `apply_feature_view` of `p2` raise
`ConflictingFeatureViewNames` for a view of the same name. A commit of `p1` persists an
uncommitted entity of `p2`, so that `list_entities` of `p2`, which loads the store, lists it. -/
theorem projects_interfere_through_shared_state :
    let s := System.init (ι := Unit) (some .empty) fun _ => 0
    let e : Entity := ⟨"driver_id", "INT64"⟩
    let fv : FeatureView := ⟨some .featureView, "driver_hourly_stats", "SELECT 1", none, []⟩
    s.Reachable ∧
    s.results [⟨(), 0, .applyFeatureView fv "p2" true⟩] = [.ok .none] ∧
    s.results [⟨(), 0, .applyFeatureView { fv with cls := some .requestFeatureView } "p1" true⟩,
        ⟨(), 0, .applyFeatureView fv "p2" true⟩] =
      [.ok .none, .error (.conflictingFeatureViewNames "driver_hourly_stats")] ∧
    s.results [⟨(), 0, .applyEntity e "p2" false⟩, ⟨(), 0, .listEntities "p2" false⟩] =
      [.ok .none, .ok (.entities [])] ∧
    s.results [⟨(), 0, .applyEntity e "p2" false⟩,
        ⟨(), 0, .applyEntity ⟨"customer_id", "INT64"⟩ "p1" true⟩,
        ⟨(), 0, .listEntities "p2" false⟩] =
      [.ok .none, .ok .none, .ok (.entities [e])] :=
  ⟨.init _ _ fun _ h => by cases h; exact empty_wellFormed, rfl, rfl, rfl, rfl⟩

end Feast
