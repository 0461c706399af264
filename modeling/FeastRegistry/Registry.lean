import FeastRegistry.Edits

/-!
# The registry object: cache, store calls and methods

A `Registry` holds `cached_registry_proto`, its creation time and its time to live. A method
call is a function of the registry, of the proto its store would return (`none` when
`get_registry_proto` raises `FileNotFoundError`) and of the clock reading `now`. It returns the
method's result or error, the registry afterwards, and the call it made on the store, if any
(`Outcome`). Python keeps every assignment made before an exception, and so does `Outcome`.

`_get_registry_proto` serves the cache unless it is absent or expired, `_prepare_registry_for_changes`
turns a missing store proto into an empty one, and every mutating method is `mutate`: the checks
made before the prepare step, the `Edit` of the prepared proto, and `commit()`.
-/

set_option autoImplicit false

namespace Feast

/-- The proto `_prepare_registry_for_changes` creates when the store has none. -/
def RegistryProto.empty : RegistryProto := { registrySchemaVersion := Feast.registrySchemaVersion }

/-- A call a registry makes that changes its store. -/
inductive StoreWrite
  | updateRegistryProto (proto : RegistryProto)
  | teardown
deriving DecidableEq, Repr

/-- The store after the call. -/
def StoreWrite.apply : StoreWrite → Option RegistryProto → Option RegistryProto
  | .updateRegistryProto proto, _ => some proto
  | .teardown, _ => none

/-- The cache fields of a `Registry` object. -/
structure Registry where
  cachedRegistryProto : Option RegistryProto
  cachedRegistryProtoCreated : Option Int
  cachedRegistryProtoTtl : Int
deriving DecidableEq, Repr

/-- The result of a call, the registry after it, and what it wrote to the store. -/
structure Outcome (α : Type) where
  result : Except RegistryError α
  registry : Registry
  write : Option StoreWrite

/-- The store after a call that found `store`. -/
def Outcome.store {α : Type} (o : Outcome α) (store : Option RegistryProto) :
    Option RegistryProto :=
  match o.write with
  | some w => w.apply store
  | none => store

namespace Registry

/-- `Registry(registry_config, repo_path)`: no cache yet, and the configured time to live. -/
def init (cacheTtlSeconds : Int) : Registry := ⟨none, none, cacheTtlSeconds⟩

/-- `clone()`: a registry whose cache is a copy of this one's, or `RegistryProto()`, whose schema
version is empty, when there is none; created now, with a time to live of zero. Only the cache
fields are modelled. The clone's own store, a `NoopRegistryStore` (not in `src/`), which drops
every commit and returns no proto to a load, is not: a run of `System` that includes the clone
gives it the shared store. -/
def clone (r : Registry) (now : Int) : Registry :=
  ⟨some (r.cachedRegistryProto.getD {}), some now, 0⟩

/-- The `expired` test of `_get_registry_proto`; a time to live that is not positive never
expires ("0 ttl means infinity"). -/
def expired (r : Registry) (now : Int) : Bool :=
  match r.cachedRegistryProto, r.cachedRegistryProtoCreated with
  | some _, some created =>
    0 < r.cachedRegistryProtoTtl && created + r.cachedRegistryProtoTtl < now
  | _, _ => true

/-- `_get_registry_proto(allow_cache)`: the cache when allowed and not expired, otherwise the
store's proto, which then becomes the cache, created `now`. -/
def getRegistryProto (r : Registry) (store : Option RegistryProto) (now : Int)
    (allowCache : Bool) : Except RegistryError RegistryProto × Registry :=
  match allowCache && !r.expired now, r.cachedRegistryProto with
  | true, some cached => (.ok cached, r)
  | _, _ =>
    match store with
    | some proto =>
      (.ok proto, { r with cachedRegistryProto := some proto, cachedRegistryProtoCreated := some now })
    | none => (.error .fileNotFound, r)

/-- `_prepare_registry_for_changes`: the proto the change is made to, and the registry whose
cache it is. The only error the store raises here is `FileNotFoundError`, which is caught. -/
def prepareRegistryForChanges (r : Registry) (store : Option RegistryProto) (now : Int) :
    RegistryProto × Registry :=
  match r.getRegistryProto store now true with
  | (.ok proto, r') => (proto, r')
  | (.error _, _) =>
    (.empty, { r with cachedRegistryProto := some .empty, cachedRegistryProtoCreated := some now })

/-- `_initialize_registry`, which no method calls: `_get_registry_proto()` loads the store's
proto, and when the store has none (`FileNotFoundError`) an empty proto with the schema version
goes to `update_registry_proto`, while the cache stays as it was. -/
def initializeRegistry (r : Registry) (store : Option RegistryProto) (now : Int) : Outcome Unit :=
  match r.getRegistryProto store now false with
  | (.ok _, r') => ⟨.ok (), r', none⟩
  | (.error _, r') => ⟨.ok (), r', some (.updateRegistryProto .empty)⟩

/-- `_initialize_registry` leaves a proto in the store and never replaces one that is there; the
registry loads it, or keeps its cache when there was none. -/
theorem initializeRegistry_store (r : Registry) (store : Option RegistryProto) (now : Int) :
    (r.initializeRegistry store now).store store = some (store.getD .empty) ∧
      (r.initializeRegistry store now).registry = match store with
        | some proto => { r with cachedRegistryProto := some proto, cachedRegistryProtoCreated := some now }
        | none => r := by
  cases store <;> simp [initializeRegistry, getRegistryProto, Outcome.store, StoreWrite.apply]

/-- `commit()`: the cached proto, if any, goes to `update_registry_proto`. -/
def commit (r : Registry) : Option StoreWrite := r.cachedRegistryProto.map .updateRegistryProto

/-- A mutating method: the checks made before `_prepare_registry_for_changes` (`precheck`), the
change `edit` makes to the prepared proto, then `commit()` if `commit` is set and the proto was
changed. -/
def mutate (r : Registry) (store : Option RegistryProto) (now : Int)
    (precheck : Option RegistryError) (edit : RegistryProto → Edit) (commit : Bool) :
    Outcome Unit :=
  match precheck with
  | some e => ⟨.error e, r, none⟩
  | none =>
    let prepared := r.prepareRegistryForChanges store now
    match edit prepared.1 with
    | .raise e => ⟨.error e, prepared.2, none⟩
    | .unchanged => ⟨.ok (), prepared.2, none⟩
    | .changed proto =>
      let r' := { prepared.2 with cachedRegistryProto := some proto }
      ⟨.ok (), r', if commit then r'.commit else none⟩

/-- `apply_entity`. -/
def applyEntity (r : Registry) (store : Option RegistryProto) (now : Int) (entity : Entity)
    (project : String) (commit : Bool) : Outcome Unit :=
  let entityProto := entity.toProto.withProject project
  r.mutate store now (if entity.isValid then none else some .validationError)
    (fun proto => .changed (proto.applyEntity entityProto project)) commit

/-- `apply_feature_service`. -/
def applyFeatureService (r : Registry) (store : Option RegistryProto) (now : Int)
    (featureService : FeatureService) (project : String) (commit : Bool) : Outcome Unit :=
  let featureServiceProto := featureService.toProto.withProject project
  r.mutate store now none
    (fun proto => .changed (proto.applyFeatureService featureServiceProto project)) commit

/-- The view `apply_feature_view` converts: its `created_timestamp` is set to `now` if unset. -/
def stampCreated (featureView : FeatureView) (now : Int) : FeatureView :=
  match featureView.createdTimestamp with
  | some _ => featureView
  | none => { featureView with createdTimestamp := some now }

@[simp] theorem stampCreated_cls (fv : FeatureView) (now : Int) :
    (stampCreated fv now).cls = fv.cls := by
  unfold stampCreated; split <;> rfl

@[simp] theorem stampCreated_name (fv : FeatureView) (now : Int) :
    (stampCreated fv now).name = fv.name := by
  unfold stampCreated; split <;> rfl

@[simp] theorem stampCreated_definition (fv : FeatureView) (now : Int) :
    (stampCreated fv now).definition = fv.definition := by
  unfold stampCreated; split <;> rfl

theorem eqv_stampCreated (a fv : FeatureView) (now : Int) :
    a.eqv (stampCreated fv now) = a.eqv fv := by
  simp [FeatureView.eqv]

/-- `apply_feature_view`. -/
def applyFeatureView (r : Registry) (store : Option RegistryProto) (now : Int)
    (featureView : FeatureView) (project : String) (commit : Bool) : Outcome Unit :=
  let stamped := stampCreated featureView now
  r.mutate store now (if featureView.ensureValid then none else some .validationError)
    (fun proto => proto.applyFeatureView stamped (stamped.toProto.withProject project) project)
    commit

/-- `apply_materialization`. -/
def applyMaterialization (r : Registry) (store : Option RegistryProto) (now : Int)
    (featureView : FeatureView) (project : String) (startDate endDate : Int) (commit : Bool) :
    Outcome Unit :=
  r.mutate store now none (·.applyMaterialization featureView project startDate endDate) commit

/-- `delete_entity`. -/
def deleteEntity (r : Registry) (store : Option RegistryProto) (now : Int)
    (name project : String) (commit : Bool) : Outcome Unit :=
  r.mutate store now none (·.deleteEntity name project) commit

/-- `delete_feature_service`. -/
def deleteFeatureService (r : Registry) (store : Option RegistryProto) (now : Int)
    (name project : String) (commit : Bool) : Outcome Unit :=
  r.mutate store now none (·.deleteFeatureService name project) commit

/-- `delete_feature_view`. -/
def deleteFeatureView (r : Registry) (store : Option RegistryProto) (now : Int)
    (name project : String) (commit : Bool) : Outcome Unit :=
  r.mutate store now none (·.deleteFeatureView name project) commit

/-- `update_infra`; the project argument is not used. -/
def updateInfra (r : Registry) (store : Option RegistryProto) (now : Int) (infra : Infra)
    (_project : String) (commit : Bool) : Outcome Unit :=
  r.mutate store now none (fun proto => .changed (proto.updateInfra infra)) commit

/-- A read method: `_get_registry_proto(allow_cache)`, then `f` on the proto. -/
def read {α : Type} (r : Registry) (store : Option RegistryProto) (now : Int) (allowCache : Bool)
    (f : RegistryProto → Except RegistryError α) : Outcome α :=
  match r.getRegistryProto store now allowCache with
  | (.ok proto, r') => ⟨f proto, r', none⟩
  | (.error e, r') => ⟨.error e, r', none⟩

end Registry

namespace RegistryProto

/-- The loop of the `list_*` methods: the entries of `c` whose project is `project`, in
collection order. -/
def listIn (proto : RegistryProto) (c : Collection) (project : String) : List ObjectProto :=
  (proto.collection c).filter (·.spec.project == project)

/-- The loop of the `get_*` methods: the first entry of `c` keyed `(name, project)`, or the
method's not-found error. -/
def getIn (proto : RegistryProto) (c : Collection) (name project : String)
    (notFound : RegistryError) : Except RegistryError ObjectProto :=
  match (proto.collection c).find? (·.hasKey name project) with
  | some o => .ok o
  | none => .error notFound

end RegistryProto

namespace Registry

variable (r : Registry) (store : Option RegistryProto) (now : Int)

/-- `get_infra`; the project argument is not used. Modelled from the spec: `Infra.from_proto`
(not in `src/`) is taken as the identity on the stored infra. The released `Infra` class has no
`from_proto`, so there the call raises `AttributeError`. -/
def getInfra (_project : String) (allowCache : Bool) : Outcome Infra :=
  r.read store now allowCache fun proto => .ok proto.infra

/-- `list_entities`. -/
def listEntities (project : String) (allowCache : Bool) : Outcome (List Entity) :=
  r.read store now allowCache fun proto => .ok ((proto.listIn .entities project).map Entity.fromProto)

/-- `list_feature_services`. -/
def listFeatureServices (project : String) (allowCache : Bool) : Outcome (List FeatureService) :=
  r.read store now allowCache fun proto =>
    .ok ((proto.listIn .featureServices project).map FeatureService.fromProto)

/-- `list_feature_views`. -/
def listFeatureViews (project : String) (allowCache : Bool) : Outcome (List FeatureView) :=
  r.read store now allowCache fun proto =>
    .ok ((proto.listIn .featureViews project).map (FeatureView.fromProto .featureView))

/-- `list_on_demand_feature_views`. -/
def listOnDemandFeatureViews (project : String) (allowCache : Bool) : Outcome (List FeatureView) :=
  r.read store now allowCache fun proto =>
    .ok ((proto.listIn .onDemandFeatureViews project).map
      (FeatureView.fromProto .onDemandFeatureView))

/-- `list_request_feature_views`. -/
def listRequestFeatureViews (project : String) (allowCache : Bool) : Outcome (List FeatureView) :=
  r.read store now allowCache fun proto =>
    .ok ((proto.listIn .requestFeatureViews project).map
      (FeatureView.fromProto .requestFeatureView))

/-- `get_entity`. -/
def getEntity (name project : String) (allowCache : Bool) : Outcome Entity :=
  r.read store now allowCache fun proto =>
    (proto.getIn .entities name project (.entityNotFound name project)).map Entity.fromProto

/-- `get_feature_service`. -/
def getFeatureService (name project : String) (allowCache : Bool) : Outcome FeatureService :=
  r.read store now allowCache fun proto =>
    (proto.getIn .featureServices name project (.featureServiceNotFound name project)).map
      FeatureService.fromProto

/-- `get_feature_view`. -/
def getFeatureView (name project : String) (allowCache : Bool) : Outcome FeatureView :=
  r.read store now allowCache fun proto =>
    (proto.getIn .featureViews name project (.featureViewNotFound name project)).map
      (FeatureView.fromProto .featureView)

/-- `get_on_demand_feature_view`. -/
def getOnDemandFeatureView (name project : String) (allowCache : Bool) : Outcome FeatureView :=
  r.read store now allowCache fun proto =>
    (proto.getIn .onDemandFeatureViews name project
      (.onDemandFeatureViewNotFound name project)).map (FeatureView.fromProto .onDemandFeatureView)

/-- `refresh`: `_get_registry_proto(allow_cache=False)`. -/
def refresh : Outcome Unit := r.read store now false fun _ => .ok ()

/-- `teardown`: the store removes the registry. -/
def teardown : Outcome Unit := ⟨.ok (), r, some .teardown⟩

end Registry

end Feast
