import FeastRegistry.System

/-!
# Uncommitted changes and commits

With `commit=False` a mutating call changes only the cache, and a later `commit()` persists the
cache. A batch of such calls on one instance reaches the store intact exactly as long as no call
of the batch finds the cache expired (`commit_persists_uncommitted_batch`); the first mutating
call after the deadline reloads the stored proto and leaves in the cache its own edit of it,
without the batch so far (`Registry.exec_cache_of_expired`,
`batch_across_ttl_deadline_loses_changes`).

`apply_*` with `commit=True` persists the applied object, and `get_*` reads it back, except when
`apply_feature_view` returns at its equality check: then nothing is committed
(`apply_with_commit_durable`, `equal_uncommitted_view_not_committed`).
-/

set_option autoImplicit false

namespace Feast

/-- The proto a mutating call leaves in a fresh cache holding `proto`: the edit's result when
the checks pass. Any other call leaves `proto`. -/
def Op.applyTo (op : Op) (now : Int) (proto : RegistryProto) : RegistryProto :=
  match op.mutation now with
  | some (none, edit, _) => (edit proto).result proto
  | _ => proto

/-- An object of a kind an `apply_*` method registers. -/
inductive CatalogObject
  | entity (entity : Entity)
  | featureService (featureService : FeatureService)
  | featureView (featureView : FeatureView)

namespace CatalogObject

/-- The object's `name`. -/
def name : CatalogObject → String
  | .entity e => e.name
  | .featureService fs => fs.name
  | .featureView fv => fv.name

/-- `apply_entity`, `apply_feature_service` or `apply_feature_view`. -/
def apply (o : CatalogObject) (project : String) (commit : Bool) : Op :=
  match o with
  | .entity e => .applyEntity e project commit
  | .featureService fs => .applyFeatureService fs project commit
  | .featureView fv => .applyFeatureView fv project commit

/-- The collection `apply` writes to. -/
def collection : CatalogObject → Collection
  | .entity _ => .entities
  | .featureService _ => .featureServices
  | .featureView fv => (fv.cls.getD .featureView).collection

/-- The `get_*` call that reads the object back; request feature views have none. -/
def get (o : CatalogObject) (project : String) (allowCache : Bool) : Option Op :=
  match o with
  | .entity e => some (.getEntity e.name project allowCache)
  | .featureService fs => some (.getFeatureService fs.name project allowCache)
  | .featureView fv =>
    match fv.cls with
    | some .featureView => some (.getFeatureView fv.name project allowCache)
    | some .onDemandFeatureView => some (.getOnDemandFeatureView fv.name project allowCache)
    | _ => none

/-- What that call returns for a stored proto. -/
def value : CatalogObject → ObjectProto → Value
  | .entity _, x => .entity (Entity.fromProto x)
  | .featureService _, x => .featureService (FeatureService.fromProto x)
  | .featureView fv, x => .featureView (FeatureView.fromProto (fv.cls.getD .featureView) x)

/-- The value equals the object: `==` of the SDK class, `__eq__` for the feature views. -/
def readBack : CatalogObject → Value → Bool
  | .entity e, .entity e' => e' == e
  | .featureService fs, .featureService fs' => fs' == fs
  | .featureView fv, .featureView fv' => fv'.eqv fv
  | _, _ => false

/-- The call returned a value equal to the object. -/
def ReadsBack (o : CatalogObject) (result : Except RegistryError Value) : Prop :=
  ∃ v, result = .ok v ∧ o.readBack v = true

/-- `apply_feature_view` returns at its equality check: the first entry of its collection keyed
like the view is equal to it. -/
def CachedEqual : CatalogObject → RegistryProto → String → Prop
  | .featureView fv, proto, project => ∃ k x, fv.cls = some k ∧
      (proto.collection k.collection).find? (·.hasKey fv.name project) = some x ∧
      (FeatureView.fromProto k x).eqv fv = true
  | _, _, _ => False

end CatalogObject


namespace Registry

variable {r : Registry} {store : Option RegistryProto} {t : Int}

theorem exec_get_of_find {o : CatalogObject} {project : String} {allowCache : Bool} {g : Op}
    (hg : o.get project allowCache = some g) {proto : RegistryProto}
    (h : (r.getRegistryProto store t allowCache).1 = .ok proto) {x : ObjectProto}
    (hx : (proto.collection o.collection).find? (·.hasKey o.name project) = some x) :
    (r.exec store t g).result = .ok (o.value x) := by
  cases o with
  | entity e =>
    cases hg
    simp only [CatalogObject.name, CatalogObject.collection, RegistryProto.collection_entities] at hx
    simp [exec, getEntity, read_result_of_ok h, RegistryProto.getIn, hx, Outcome.map,
      CatalogObject.value, Except.map]
  | featureService fs =>
    cases hg
    simp only [CatalogObject.name, CatalogObject.collection, RegistryProto.collection_featureServices] at hx
    simp [exec, getFeatureService, read_result_of_ok h, RegistryProto.getIn, hx, Outcome.map,
      CatalogObject.value, Except.map]
  | featureView fv =>
    simp only [CatalogObject.name, CatalogObject.collection] at hx
    rcases hk : fv.cls with _ | _ | _ | _ <;> simp only [CatalogObject.get, hk, reduceCtorEq, Option.some.injEq] at hg <;> subst hg <;>
      simp [hk, FeatureViewKind.collection] at hx <;>
      simp [exec, getFeatureView, getOnDemandFeatureView, read_result_of_ok h, RegistryProto.getIn, hx, Outcome.map,
        CatalogObject.value, Except.map, hk]

/-- What the edit of an apply does to a well-formed prepared proto: it raises, returns at the
equality check of `apply_feature_view`, or leaves an entry keyed like the object that reads back
as the object. -/
theorem CatalogObject.apply_edit_cases {o : CatalogObject} {project : String} {now : Int}
    {pre : Option RegistryError} {edit : RegistryProto → Edit}
    (hm : (o.apply project true).mutation now = some (pre, edit, true)) {P : RegistryProto}
    (hwf : P.WellFormed) :
    (∃ e, edit P = .raise e) ∨ (edit P = .unchanged ∧ o.CachedEqual P project) ∨
      ∃ proto x, edit P = .changed proto ∧
        (proto.collection o.collection).find? (·.hasKey o.name project) = some x ∧
        o.readBack (o.value x) = true := by
  cases o <;> simp only [CatalogObject.apply, Op.mutation, Option.some.injEq, Prod.mk.injEq] at hm <;>
    obtain ⟨-, rfl, -⟩ := hm
  case entity e =>
    refine .inr (.inr ⟨_, e.toProto.withProject project, rfl, ?_,
      by simp [CatalogObject.readBack, CatalogObject.value]⟩)
    simp only [CatalogObject.collection, CatalogObject.name, RegistryProto.applyEntity,
      RegistryProto.collection_setCollection, if_true]
    have hk : (P.entities.map ObjectProto.key).Nodup := hwf.keys_nodup .entities (by decide)
    rw [eraseP_append_eq_upsert hk ?_ ?_]
    · exact find?_upsert _ (e.toProto.withProject project)
    all_goals rfl
  case featureService fs =>
    refine .inr (.inr ⟨_, fs.toProto.withProject project, rfl, ?_,
      by simp [CatalogObject.readBack, CatalogObject.value]⟩)
    simp only [CatalogObject.collection, CatalogObject.name, RegistryProto.applyFeatureService,
      RegistryProto.collection_setCollection, if_true]
    have hk : (P.featureServices.map ObjectProto.key).Nodup :=
      hwf.keys_nodup .featureServices (by decide)
    rw [enumerateDel_append_eq_upsert hk ?_ ?_]
    · exact find?_upsert _ (fs.toProto.withProject project)
    all_goals rfl
  case featureView fv =>
    rcases RegistryProto.applyFeatureView_cases P (stampCreated fv now)
      ((stampCreated fv now).toProto.withProject project) project with
      ⟨-, h⟩ | ⟨-, -, h⟩ | ⟨k, x, -, hk, hx, heq, h⟩ | ⟨k, -, hk, -, h⟩
    · exact .inl ⟨_, h⟩
    · exact .inl ⟨_, h⟩
    · simp only [stampCreated_cls, ObjectProto.withProject_name, FeatureView.toProto_name,
        stampCreated_name] at hk hx
      exact .inr (.inl ⟨h, k, x, hk, hx, by rwa [eqv_stampCreated] at heq⟩)
    · simp only [stampCreated_cls] at hk
      refine .inr (.inr ⟨_, (stampCreated fv now).toProto.withProject project, h, ?_, ?_⟩)
      · simp only [CatalogObject.collection, CatalogObject.name, hk, Option.getD_some,
          RegistryProto.collection_setCollection, if_true]
        rw [eraseP_append_eq_upsert (hwf.keys_nodup k.collection k.collection_ne_featureTables)
          ?_ ?_]
        · simpa using find?_upsert (P.collection k.collection)
            ((stampCreated fv now).toProto.withProject project)
        all_goals rfl
      · simp only [CatalogObject.readBack, CatalogObject.value, hk, Option.getD_some]
        rw [← eqv_stampCreated _ fv now]
        exact FeatureView.fromProto_toProto_eqv _ k project (by simpa using hk)

theorem exec_apply_of_ok {o : CatalogObject} {project : String} {now : Int}
    (hwf : (r.prepareRegistryForChanges store now).1.WellFormed)
    (hok : (r.exec store now (o.apply project true)).result = .ok .none) :
    (o.CachedEqual (r.prepareRegistryForChanges store now).1 project ∧
      (r.exec store now (o.apply project true)).registry = (r.prepareRegistryForChanges store now).2 ∧
      (r.exec store now (o.apply project true)).write = none) ∨
    (∃ proto x, (r.exec store now (o.apply project true)).registry =
        { (r.prepareRegistryForChanges store now).2 with cachedRegistryProto := some proto } ∧
      (r.exec store now (o.apply project true)).write = some (.updateRegistryProto proto) ∧
      (proto.collection o.collection).find? (·.hasKey o.name project) = some x ∧
      o.readBack (o.value x) = true) := by
  obtain ⟨pre, edit, hm⟩ : ∃ pre edit, (o.apply project true).mutation now = some (pre, edit, true) := by
    cases o <;> exact ⟨_, _, rfl⟩
  rw [exec_of_mutation r store now hm] at hok ⊢
  simp only [Outcome.map_registry, Outcome.map_write]
  rcases mutate_cases r store now pre edit true with
    ⟨e, -, h⟩ | ⟨-, e, -, h⟩ | ⟨-, he, h⟩ | ⟨-, proto, he, h⟩ <;> rw [h] at hok ⊢
  · cases hok
  · cases hok
  all_goals rcases CatalogObject.apply_edit_cases hm hwf with
    ⟨_, he'⟩ | ⟨he', hc⟩ | ⟨_, x, he', hx, hr⟩ <;> rw [he] at he' <;> cases he'
  · exact .inl ⟨hc, rfl, rfl⟩
  · exact .inr ⟨proto, x, rfl, rfl, hx, hr⟩

variable {now : Int}

theorem prepareRegistryForChanges_of_fresh {proto : RegistryProto}
    (hc : r.cachedRegistryProto = some proto) (hf : r.expired now = false) :
    r.prepareRegistryForChanges store now = (proto, r) := by
  rcases prepareRegistryForChanges_cases r store now with ⟨c, -, hc', h⟩ | ⟨_, he, -⟩ | ⟨he, -⟩
  · rw [h, Option.some.inj (hc'.symm.trans hc)]
  · simp [hf] at he
  · simp [hf] at he

/-- A mutating call whose checks pass leaves in the cache the edit's result on the prepared
proto, and writes that result when it changed the proto and `commit` is set. -/
theorem exec_registry_of_mutation (r : Registry) (store : Option RegistryProto) (now : Int)
    {op : Op} {edit : RegistryProto → Edit} {c : Bool}
    (hm : op.mutation now = some (none, edit, c)) :
    (r.exec store now op).registry = { (r.prepareRegistryForChanges store now).2 with
        cachedRegistryProto := some ((edit (r.prepareRegistryForChanges store now).1).result
          (r.prepareRegistryForChanges store now).1) } ∧
      (r.exec store now op).write =
        match edit (r.prepareRegistryForChanges store now).1 with
        | .changed A => if c then some (.updateRegistryProto A) else none
        | _ => none := by
  have hc := prepareRegistryForChanges_cached r store now
  rw [exec_of_mutation r store now hm, Outcome.map_registry, Outcome.map_write]
  rcases mutate_cases r store now none edit c with
    ⟨e, he, -⟩ | ⟨-, e, he, h⟩ | ⟨-, he, h⟩ | ⟨-, proto, he, h⟩
  · cases he
  all_goals rw [h, he]
  all_goals refine ⟨?_, rfl⟩
  all_goals simp only [Edit.result]
  all_goals rw [← hc]

/-- `_prepare_registry_for_changes` on an expired cache reloads the backend snapshot. -/
theorem prepareRegistryForChanges_of_expired (he : r.expired now = true) (S : RegistryProto) :
    (r.prepareRegistryForChanges (some S) now).1 = S := by
  rcases prepareRegistryForChanges_cases r (some S) now with ⟨_, he', -⟩ | ⟨_, -, hs, h⟩ | ⟨-, hs, -⟩
  · rw [he] at he'; cases he'
  · cases hs; rw [h]
  · cases hs

/-- A cache loaded at `created` with a positive time to live expires after `created + ttl`. -/
theorem expired_of_deadline {created : Int} (hcr : r.cachedRegistryProtoCreated = some created)
    (ht : 0 < r.cachedRegistryProtoTtl) (hlate : created + r.cachedRegistryProtoTtl < now) :
    r.expired now = true := by
  cases hc : r.cachedRegistryProto <;> simp [expired, hc, hcr, ht, hlate]

/-- A mutating call whose checks pass, made on an expired cache, reloads the backend snapshot
and leaves in the cache its own edit of it: what the cache held before is dropped. -/
theorem exec_cache_of_expired (he : r.expired now = true) (S : RegistryProto) {op : Op}
    {edit : RegistryProto → Edit} {c : Bool} (hm : op.mutation now = some (none, edit, c)) :
    (r.exec (some S) now op).registry.cachedRegistryProto = some (op.applyTo now S) := by
  rw [(exec_registry_of_mutation r _ now hm).1, prepareRegistryForChanges_of_expired he]
  simp [Op.applyTo, hm]

/-- A mutating call with `commit=False` on a fresh cache edits the cache and writes nothing. -/
theorem exec_of_fresh (store : Option RegistryProto) {op : Op} {pre : Option RegistryError} {edit : RegistryProto → Edit}
    (hm : op.mutation now = some (pre, edit, false)) {proto : RegistryProto}
    (hc : r.cachedRegistryProto = some proto) (hf : r.expired now = false) :
    (r.exec store now op).registry = { r with cachedRegistryProto := some (op.applyTo now proto) } ∧
      (r.exec store now op).write = none := by
  have hp : r.prepareRegistryForChanges store now = (proto, r) :=
    prepareRegistryForChanges_of_fresh hc hf
  rw [exec_of_mutation r store now hm, Outcome.map_registry, Outcome.map_write]
  simp only [Op.applyTo, hm]
  rcases mutate_cases r store now pre edit false with
    ⟨e, rfl, h⟩ | ⟨rfl, e, he, h⟩ | ⟨rfl, he, h⟩ | ⟨rfl, p', he, h⟩ <;> rw [h]
  · simp [← hc]
  all_goals rw [hp] at he ⊢
  · simp [he, Edit.result, ← hc]
  · simp [he, Edit.result, ← hc]
  · simp [he, Edit.result]

end Registry

namespace System

/-- A batch of `commit=False` calls on one instance whose cache stays fresh leaves the store
alone and the batch's edits, in order, in the cache. -/
theorem run_uncommitted_batch {s : System Unit} {proto : RegistryProto} {created : Int}
    (hc : (s.registries ()).cachedRegistryProto = some proto)
    (hcr : (s.registries ()).cachedRegistryProtoCreated = some created)
    (batch : List (Event Unit))
    (hmut : ∀ e ∈ batch, ∃ pre edit, e.op.mutation e.now = some (pre, edit, false))
    (hfresh : ∀ e ∈ batch, ¬(0 < (s.registries ()).cachedRegistryProtoTtl ∧
      created + (s.registries ()).cachedRegistryProtoTtl < e.now)) :
    (s.run batch).store = s.store ∧
      (s.run batch).registries () = { s.registries () with
        cachedRegistryProto := some (batch.foldl (fun p e => e.op.applyTo e.now p) proto) } := by
  induction batch generalizing s proto with
  | nil => exact ⟨rfl, by rw [run_nil, List.foldl_nil, ← hc]⟩
  | cons e es ih =>
    obtain ⟨⟨⟩, now, op⟩ := e
    obtain ⟨pre, edit, hm⟩ := hmut _ (List.mem_cons_self _ _)
    have hf : (s.registries ()).expired now = false := by
      simpa [Registry.expired, hc, hcr] using hfresh _ (List.mem_cons_self _ _)
    obtain ⟨hr, hw⟩ := Registry.exec_of_fresh s.store hm hc hf
    have hreg : (s.step ⟨(), now, op⟩).1.registries () =
        { s.registries () with cachedRegistryProto := some (op.applyTo now proto) } :=
      (step_registries_self s _).trans hr
    obtain ⟨ih1, ih2⟩ := ih (s := (s.step ⟨(), now, op⟩).1) (by rw [hreg]) (by rw [hreg]; exact hcr)
      (fun e he => hmut e (List.mem_cons_of_mem _ he))
      (fun e he => by rw [hreg]; exact hfresh e (List.mem_cons_of_mem _ he))
    refine ⟨?_, ?_⟩
    · rw [run_cons, ih1, step_store]; simp [Outcome.store, hw]
    · rw [run_cons, ih2, hreg, List.foldl_cons]

/-- No uncommitted change is lost while the cache stays fresh: after a batch of `commit=False`
mutating calls, none made after the cache's load time plus its time to live, `commit()`
persists the edits of the whole batch, in order, applied to the proto cached before it. A
mutating call whose checks pass, made after the deadline, reloads the stored proto instead and
leaves in the cache its own edit of that proto, without the batch. -/
theorem commit_persists_uncommitted_batch {s : System Unit} {proto : RegistryProto}
    {created : Int} (hc : (s.registries ()).cachedRegistryProto = some proto)
    (hcr : (s.registries ()).cachedRegistryProtoCreated = some created)
    (batch : List (Event Unit))
    (hmut : ∀ e ∈ batch, ∃ pre edit, e.op.mutation e.now = some (pre, edit, false))
    (hfresh : ∀ e ∈ batch, ¬(0 < (s.registries ()).cachedRegistryProtoTtl ∧
      created + (s.registries ()).cachedRegistryProtoTtl < e.now)) (t : Int) :
    (s.run (batch ++ [⟨(), t, .commit⟩])).store =
        some (batch.foldl (fun p e => e.op.applyTo e.now p) proto) ∧
      ∀ (S : RegistryProto) (e : Event Unit) {edit : RegistryProto → Edit} {c : Bool},
        s.store = some S → 0 < (s.registries ()).cachedRegistryProtoTtl →
        created + (s.registries ()).cachedRegistryProtoTtl < e.now →
        e.op.mutation e.now = some (none, edit, c) →
        ((s.run (batch ++ [e])).registries ()).cachedRegistryProto = some (e.op.applyTo e.now S) := by
  obtain ⟨hst, hreg⟩ := run_uncommitted_batch hc hcr batch hmut hfresh
  refine ⟨?_, fun S e _ _ hS ht hlate hm => ?_⟩
  · rw [run_append, run_cons, run_nil, step_store]
    simp [Registry.exec, Outcome.store, Registry.commit, StoreWrite.apply, hreg]
  · have he : ((s.run batch).registries ()).expired e.now = true :=
      Registry.expired_of_deadline (by rw [hreg]; exact hcr) (by rw [hreg]; exact ht)
        (by rw [hreg]; exact hlate)
    have hcache := Registry.exec_cache_of_expired he S hm
    rw [← hS, ← hst] at hcache
    rw [run_append, run_cons, run_nil]
    exact (congrArg Registry.cachedRegistryProto (step_registries_self _ e)).trans hcache

/-- Over the two-project snapshot with a one-second time to live: an entity applied within the
window is committed, and an entity applied after the deadline replaces it in the cache by the
stored snapshot's edit. -/
theorem commit_persists_uncommitted_batch_of_entity :
    (((System.init (some .sample) fun _ => 1).run [⟨(), 0, .refresh⟩]).run
        ([⟨(), 1, .applyEntity ⟨"customer_id", "INT64"⟩ "p1" false⟩] ++ [⟨(), 1, .commit⟩])).store =
        some ([(⟨(), 1, .applyEntity ⟨"customer_id", "INT64"⟩ "p1" false⟩ : Event Unit)].foldl
          (fun p e => e.op.applyTo e.now p) .sample) ∧
      ((((System.init (some .sample) fun _ => 1).run [⟨(), 0, .refresh⟩]).run
        ([⟨(), 1, .applyEntity ⟨"customer_id", "INT64"⟩ "p1" false⟩] ++
          [⟨(), 5, .applyEntity ⟨"trip_id", "INT64"⟩ "p2" false⟩])).registries ()).cachedRegistryProto =
        some ((Op.applyEntity ⟨"trip_id", "INT64"⟩ "p2" false).applyTo 5 .sample) :=
  have h := commit_persists_uncommitted_batch rfl rfl _
    (fun e he => by rw [List.mem_singleton] at he; subst he; exact ⟨_, _, rfl⟩)
    (fun e he => by rw [List.mem_singleton] at he; subst he; decide) 1
  ⟨h.1, h.2 _ ⟨(), 5, .applyEntity ⟨"trip_id", "INT64"⟩ "p2" false⟩ rfl (by decide) (by decide) rfl⟩

/-- A batch that straddles the deadline: the second call reloads the stored proto, and the
commit persists the second entity without the first. -/
theorem batch_across_ttl_deadline_loses_changes :
    ((System.init (some .empty) fun _ => 1).run
      [⟨(), 0, .refresh⟩, ⟨(), 0, .applyEntity ⟨"driver_id", "INT64"⟩ "p1" false⟩,
        ⟨(), 5, .applyEntity ⟨"customer_id", "INT64"⟩ "p1" false⟩, ⟨(), 5, .commit⟩]).store ≠
      some ([(⟨(), 0, .applyEntity ⟨"driver_id", "INT64"⟩ "p1" false⟩ : Event Unit),
          ⟨(), 5, .applyEntity ⟨"customer_id", "INT64"⟩ "p1" false⟩].foldl
        (fun p e => e.op.applyTo e.now p) .empty) := by
  decide

theorem apply_with_commit_durable {s : System Unit} (hs : s.Reachable) (o : CatalogObject)
    (project : String) (now : Int)
    (hok : (s.step ⟨(), now, o.apply project true⟩).2 = .ok .none) :
    (∀ g, o.get project true = some g →
      o.ReadsBack ((s.step ⟨(), now, o.apply project true⟩).1.step ⟨(), now, g⟩).2) ∧
    ((o.CachedEqual ((s.registries ()).prepareRegistryForChanges s.store now).1 project ∧
        (s.step ⟨(), now, o.apply project true⟩).1.store = s.store) ∨
      ((∃ proto ∈ (s.step ⟨(), now, o.apply project true⟩).1.store,
          ∃ x ∈ proto.collection o.collection, x.hasKey o.name project = true) ∧
        ∀ t allowCache g, o.get project allowCache = some g →
          o.ReadsBack ((s.step ⟨(), now, o.apply project true⟩).1.step ⟨(), t, g⟩).2)) := by
  obtain ⟨hstore, hcache⟩ := hs.wellFormed
  have hwf := Registry.prepareRegistryForChanges_wellFormed now (hcache ()) hstore
  simp only [step_result] at hok
  rcases Registry.exec_apply_of_ok hwf hok with ⟨hce, hreg, hw⟩ | ⟨proto, x, hreg, hw, hx, hrb⟩
  · have hreg' : (s.step ⟨(), now, o.apply project true⟩).1.registries () =
        ((s.registries ()).prepareRegistryForChanges s.store now).2 := by simpa using hreg
    refine ⟨fun g hg => ?_, .inl ⟨hce, by simp [Outcome.store, hw]⟩⟩
    cases o with
    | featureView fv =>
      obtain ⟨k, x, hk, hx, heqv⟩ := hce
      refine ⟨CatalogObject.value (.featureView fv) x, ?_,
        by simp [CatalogObject.readBack, CatalogObject.value, hk, heqv]⟩
      rw [step_result]
      refine Registry.exec_get_of_find hg ?_
        (by simpa [CatalogObject.collection, CatalogObject.name, hk] using hx)
      rw [hreg']
      exact Registry.getRegistryProto_of_fresh (Registry.prepareRegistryForChanges_cached _ _ _)
        (Registry.expired_prepared _ _ _)
    | _ => exact hce.elim
  · have hreg' : (s.step ⟨(), now, o.apply project true⟩).1.registries () =
        { ((s.registries ()).prepareRegistryForChanges s.store now).2 with
          cachedRegistryProto := some proto } := by simpa using hreg
    have hst : (s.step ⟨(), now, o.apply project true⟩).1.store = some proto := by
      simp [Outcome.store, hw, StoreWrite.apply]
    have hread : ∀ t allowCache g, o.get project allowCache = some g →
        o.ReadsBack ((s.step ⟨(), now, o.apply project true⟩).1.step ⟨(), t, g⟩).2 := by
      intro t allowCache g hg
      refine ⟨o.value x, ?_, hrb⟩
      rw [step_result]
      exact Registry.exec_get_of_find hg
        (Registry.getRegistryProto_of_store (by rw [hreg']) hst allowCache) hx
    exact ⟨fun g hg => hread now true g hg,
      .inr ⟨⟨proto, hst, x, List.mem_of_find?_eq_some hx, by have := List.find?_some hx; exact this⟩,
        hread⟩⟩

/-- Over the two-project snapshot, an entity committed to `p2` reads back, next to the entity of
`p2` already there. -/
theorem apply_entity_with_commit_durable :
    (CatalogObject.entity ⟨"customer_id", "INT64"⟩).ReadsBack
      ((((System.init (some .sample) fun _ => 0).step
        ⟨(), 0, (CatalogObject.entity ⟨"customer_id", "INT64"⟩).apply "p2" true⟩).1.step
          ⟨(), 0, .getEntity "customer_id" "p2" true⟩).2) :=
  (apply_with_commit_durable (.init _ _ fun _ h => by cases h; exact RegistryProto.sample_wellFormed)
    (.entity ⟨"customer_id", "INT64"⟩) "p2" 0 (by decide)).1 _ rfl

/-- An equal view applied with `commit=False` and then with `commit=True`: the second call returns
normally at the equality check, nothing reaches the store, and a read from the store fails. -/
theorem equal_uncommitted_view_not_committed :
    let fv : FeatureView := ⟨some .featureView, "driver_stats", "ttl=1d", some 0, []⟩
    let s := (System.init (some .empty) fun _ => 0).run
      [⟨(), 0, .refresh⟩, ⟨(), 1, .applyFeatureView fv "p1" false⟩]
    (s.step ⟨(), 2, .applyFeatureView fv "p1" true⟩).2 = .ok .none ∧
    (s.step ⟨(), 2, .applyFeatureView fv "p1" true⟩).1.store = some .empty ∧
    ((s.step ⟨(), 2, .applyFeatureView fv "p1" true⟩).1.step
      ⟨(), 3, .getFeatureView "driver_stats" "p1" false⟩).2 =
        .error (.featureViewNotFound "driver_stats" "p1") := by
  decide

end System

end Feast
