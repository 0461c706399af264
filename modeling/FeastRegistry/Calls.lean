import FeastRegistry.Registry

/-!
# Registry calls as one type, and what each part of a call can do

`Op` lists the public methods of `Registry` with their arguments, and `Registry.exec` runs one
of them. Each building block has one lemma that says everything it can do, and the later
modules cite these lemmas instead of unfolding the blocks: `getRegistryProto_cases` (cache hit,
reload, or `FileNotFoundError`), `prepareRegistryForChanges_cases` (the same, with the empty
proto in place of the error), `mutate_cases` and `read_cases`. A mutating call is
`Op.mutation`: its checks, its `Edit` and its `commit` argument (`exec_of_mutation`).
-/

set_option autoImplicit false

namespace Feast

/-- Equality of call results, so that a statement comparing two results, as the `FileNotFoundError`
and store-class lookups do, is decidable and its instances are settled by `decide`. -/
instance instDecidableEqExcept {ε α : Type} [DecidableEq ε] [DecidableEq α] :
    DecidableEq (Except ε α)
  | .error a, .error b => decidable_of_iff (a = b) (by simp)
  | .ok a, .ok b => decidable_of_iff (a = b) (by simp)
  | .error _, .ok _ => isFalse (by simp)
  | .ok _, .error _ => isFalse (by simp)

/-- The value a registry method returns. -/
inductive Value
  | none
  | infra (infra : Infra)
  | entities (entities : List Entity)
  | entity (entity : Entity)
  | featureServices (featureServices : List FeatureService)
  | featureService (featureService : FeatureService)
  | featureViews (featureViews : List FeatureView)
  | featureView (featureView : FeatureView)
deriving DecidableEq, Repr

/-- A call of a public `Registry` method. -/
inductive Op
  | applyEntity (entity : Entity) (project : String) (commit : Bool)
  | applyFeatureService (featureService : FeatureService) (project : String) (commit : Bool)
  | applyFeatureView (featureView : FeatureView) (project : String) (commit : Bool)
  | applyMaterialization (featureView : FeatureView) (project : String) (startDate endDate : Int)
      (commit : Bool)
  | deleteEntity (name project : String) (commit : Bool)
  | deleteFeatureService (name project : String) (commit : Bool)
  | deleteFeatureView (name project : String) (commit : Bool)
  | updateInfra (infra : Infra) (project : String) (commit : Bool)
  | getInfra (project : String) (allowCache : Bool)
  | listEntities (project : String) (allowCache : Bool)
  | listFeatureServices (project : String) (allowCache : Bool)
  | listFeatureViews (project : String) (allowCache : Bool)
  | listOnDemandFeatureViews (project : String) (allowCache : Bool)
  | listRequestFeatureViews (project : String) (allowCache : Bool)
  | getEntity (name project : String) (allowCache : Bool)
  | getFeatureService (name project : String) (allowCache : Bool)
  | getFeatureView (name project : String) (allowCache : Bool)
  | getOnDemandFeatureView (name project : String) (allowCache : Bool)
  | commit
  | refresh
  | teardown
deriving DecidableEq, Repr

/-- The outcome with the result mapped. -/
def Outcome.map {α β : Type} (f : α → β) (o : Outcome α) : Outcome β :=
  ⟨o.result.map f, o.registry, o.write⟩

@[simp] theorem Outcome.map_registry {α β : Type} (f : α → β) (o : Outcome α) :
    (o.map f).registry = o.registry := rfl

@[simp] theorem Outcome.map_write {α β : Type} (f : α → β) (o : Outcome α) :
    (o.map f).write = o.write := rfl

namespace Registry

/-- Run one call. -/
def exec (r : Registry) (store : Option RegistryProto) (now : Int) : Op → Outcome Value
  | .applyEntity e p c => (r.applyEntity store now e p c).map fun _ => .none
  | .applyFeatureService fs p c => (r.applyFeatureService store now fs p c).map fun _ => .none
  | .applyFeatureView fv p c => (r.applyFeatureView store now fv p c).map fun _ => .none
  | .applyMaterialization fv p s e c =>
    (r.applyMaterialization store now fv p s e c).map fun _ => .none
  | .deleteEntity n p c => (r.deleteEntity store now n p c).map fun _ => .none
  | .deleteFeatureService n p c => (r.deleteFeatureService store now n p c).map fun _ => .none
  | .deleteFeatureView n p c => (r.deleteFeatureView store now n p c).map fun _ => .none
  | .updateInfra i p c => (r.updateInfra store now i p c).map fun _ => .none
  | .getInfra p a => (r.getInfra store now p a).map .infra
  | .listEntities p a => (r.listEntities store now p a).map .entities
  | .listFeatureServices p a => (r.listFeatureServices store now p a).map .featureServices
  | .listFeatureViews p a => (r.listFeatureViews store now p a).map .featureViews
  | .listOnDemandFeatureViews p a => (r.listOnDemandFeatureViews store now p a).map .featureViews
  | .listRequestFeatureViews p a => (r.listRequestFeatureViews store now p a).map .featureViews
  | .getEntity n p a => (r.getEntity store now n p a).map .entity
  | .getFeatureService n p a => (r.getFeatureService store now n p a).map .featureService
  | .getFeatureView n p a => (r.getFeatureView store now n p a).map .featureView
  | .getOnDemandFeatureView n p a => (r.getOnDemandFeatureView store now n p a).map .featureView
  | .commit => ⟨.ok .none, r, r.commit⟩
  | .refresh => (r.refresh store now).map fun _ => .none
  | .teardown => (r.teardown).map fun _ => .none

end Registry

/-- The part of a mutating call that `mutate` runs: the checks made before the prepare step,
the change made to the prepared proto, and the `commit` argument. `none` for the other calls. -/
def Op.mutation (now : Int) : Op → Option (Option RegistryError × (RegistryProto → Edit) × Bool)
  | .applyEntity e p c =>
    some (if e.isValid then none else some .validationError,
      fun proto => .changed (proto.applyEntity (e.toProto.withProject p) p), c)
  | .applyFeatureService fs p c =>
    some (none, fun proto => .changed (proto.applyFeatureService (fs.toProto.withProject p) p), c)
  | .applyFeatureView fv p c =>
    some (if fv.ensureValid then none else some .validationError,
      fun proto => proto.applyFeatureView (Registry.stampCreated fv now)
        ((Registry.stampCreated fv now).toProto.withProject p) p, c)
  | .applyMaterialization fv p s e c => some (none, (·.applyMaterialization fv p s e), c)
  | .deleteEntity n p c => some (none, (·.deleteEntity n p), c)
  | .deleteFeatureService n p c => some (none, (·.deleteFeatureService n p), c)
  | .deleteFeatureView n p c => some (none, (·.deleteFeatureView n p), c)
  | .updateInfra i _ c => some (none, fun proto => .changed (proto.updateInfra i), c)
  | _ => none

namespace Registry

variable (r : Registry) (store : Option RegistryProto) (now : Int)

theorem exec_of_mutation {op : Op} {pre : Option RegistryError} {edit : RegistryProto → Edit}
    {c : Bool} (h : op.mutation now = some (pre, edit, c)) :
    r.exec store now op = (r.mutate store now pre edit c).map fun _ => .none := by
  cases op <;> simp only [Op.mutation, Option.some.injEq, Prod.mk.injEq, reduceCtorEq] at h <;>
    obtain ⟨rfl, rfl, rfl⟩ := h <;> rfl

theorem expired_of_cachedRegistryProto_none (h : r.cachedRegistryProto = none) :
    r.expired now = true := by
  simp [expired, h]

/-- What `_get_registry_proto` can do: serve the cache, reload it from the store, or raise
`FileNotFoundError` and leave the registry as it was. -/
theorem getRegistryProto_cases (allowCache : Bool) :
    (∃ cached, allowCache = true ∧ r.expired now = false ∧ r.cachedRegistryProto = some cached ∧
      r.getRegistryProto store now allowCache = (.ok cached, r)) ∨
    (∃ proto, (allowCache = false ∨ r.expired now = true) ∧ store = some proto ∧
      r.getRegistryProto store now allowCache = (.ok proto,
        { r with cachedRegistryProto := some proto, cachedRegistryProtoCreated := some now })) ∨
    ((allowCache = false ∨ r.expired now = true) ∧ store = none ∧
      r.getRegistryProto store now allowCache = (.error .fileNotFound, r)) := by
  cases hc : r.cachedRegistryProto with
  | none =>
    have he := expired_of_cachedRegistryProto_none r now hc
    cases store <;> simp [getRegistryProto, he, hc]
  | some cached =>
    cases allowCache <;> cases he : r.expired now <;> cases store <;>
      simp [getRegistryProto, he, hc]

/-- What `_prepare_registry_for_changes` can do: keep the fresh cache, reload it from the
store, or install the empty proto when the store has none. -/
theorem prepareRegistryForChanges_cases :
    (∃ cached, r.expired now = false ∧ r.cachedRegistryProto = some cached ∧
      r.prepareRegistryForChanges store now = (cached, r)) ∨
    (∃ proto, r.expired now = true ∧ store = some proto ∧
      r.prepareRegistryForChanges store now = (proto,
        { r with cachedRegistryProto := some proto, cachedRegistryProtoCreated := some now })) ∨
    (r.expired now = true ∧ store = none ∧
      r.prepareRegistryForChanges store now = (.empty,
        { r with cachedRegistryProto := some .empty, cachedRegistryProtoCreated := some now })) := by
  rcases getRegistryProto_cases r store now true with ⟨c, -, he, hc, h⟩ | ⟨p, he, hs, h⟩ | ⟨he, hs, h⟩
  · exact .inl ⟨c, he, hc, by simp [prepareRegistryForChanges, h]⟩
  · exact .inr (.inl ⟨p, by simpa using he, hs, by simp [prepareRegistryForChanges, h]⟩)
  · exact .inr (.inr ⟨by simpa using he, hs, by simp [prepareRegistryForChanges, h]⟩)

@[simp] theorem prepareRegistryForChanges_cached :
    (r.prepareRegistryForChanges store now).2.cachedRegistryProto =
      some (r.prepareRegistryForChanges store now).1 := by
  rcases prepareRegistryForChanges_cases r store now with ⟨c, -, hc, h⟩ | ⟨p, -, -, h⟩ | ⟨-, -, h⟩
  · simp [h, hc]
  all_goals simp [h]

@[simp] theorem prepareRegistryForChanges_ttl :
    (r.prepareRegistryForChanges store now).2.cachedRegistryProtoTtl = r.cachedRegistryProtoTtl := by
  rcases prepareRegistryForChanges_cases r store now with ⟨c, -, -, h⟩ | ⟨p, -, -, h⟩ | ⟨-, -, h⟩ <;>
    simp [h]

/-- What a mutating method can do. -/
theorem mutate_cases (pre : Option RegistryError) (edit : RegistryProto → Edit) (c : Bool) :
    (∃ e, pre = some e ∧ r.mutate store now pre edit c = ⟨.error e, r, none⟩) ∨
    (pre = none ∧ ∃ e, edit (r.prepareRegistryForChanges store now).1 = .raise e ∧
      r.mutate store now pre edit c = ⟨.error e, (r.prepareRegistryForChanges store now).2, none⟩) ∨
    (pre = none ∧ edit (r.prepareRegistryForChanges store now).1 = .unchanged ∧
      r.mutate store now pre edit c = ⟨.ok (), (r.prepareRegistryForChanges store now).2, none⟩) ∨
    (pre = none ∧ ∃ proto, edit (r.prepareRegistryForChanges store now).1 = .changed proto ∧
      r.mutate store now pre edit c =
        ⟨.ok (), { (r.prepareRegistryForChanges store now).2 with cachedRegistryProto := some proto },
          if c then some (.updateRegistryProto proto) else none⟩) := by
  cases pre with
  | some e => exact .inl ⟨e, rfl, rfl⟩
  | none =>
    cases h : edit (r.prepareRegistryForChanges store now).1 with
    | raise e => exact .inr (.inl ⟨rfl, e, rfl, by simp [mutate, h]⟩)
    | unchanged => exact .inr (.inr (.inl ⟨rfl, rfl, by simp [mutate, h]⟩))
    | changed proto => exact .inr (.inr (.inr ⟨rfl, proto, rfl, by simp [mutate, h, commit]⟩))

/-- What a read method can do: apply `f` to the proto `_get_registry_proto` returns, or
propagate its error. -/
theorem read_cases {α : Type} (allowCache : Bool) (f : RegistryProto → Except RegistryError α) :
    (∃ proto r', r.getRegistryProto store now allowCache = (.ok proto, r') ∧
      r.read store now allowCache f = ⟨f proto, r', none⟩) ∨
    (∃ e r', r.getRegistryProto store now allowCache = (.error e, r') ∧
      r.read store now allowCache f = ⟨.error e, r', none⟩) := by
  match h : r.getRegistryProto store now allowCache with
  | (.ok proto, r') => exact .inl ⟨proto, r', rfl, by simp [read, h]⟩
  | (.error e, r') => exact .inr ⟨e, r', rfl, by simp [read, h]⟩

theorem expired_prepared :
    (r.prepareRegistryForChanges store now).2.expired now = false := by
  rcases prepareRegistryForChanges_cases r store now with ⟨c, he, -, h⟩ | ⟨p, -, -, h⟩ | ⟨-, -, h⟩ <;>
    rw [h]
  · exact he
  all_goals simp only [expired]; simp; omega

variable {r store now}

theorem getRegistryProto_of_store {proto : RegistryProto} (hc : r.cachedRegistryProto = some proto)
    (hs : store = some proto) (allowCache : Bool) :
    (r.getRegistryProto store now allowCache).1 = .ok proto := by
  rcases getRegistryProto_cases r store now allowCache with
    ⟨c, -, -, hc', h⟩ | ⟨p, -, hs', h⟩ | ⟨-, hs', -⟩
  · rw [h, Option.some.inj (hc'.symm.trans hc)]
  · rw [h, Option.some.inj (hs'.symm.trans hs)]
  · simp [hs] at hs'

theorem getRegistryProto_of_fresh {proto : RegistryProto} (hc : r.cachedRegistryProto = some proto)
    (hf : r.expired now = false) : (r.getRegistryProto store now true).1 = .ok proto := by
  simp [getRegistryProto, hf, hc]

theorem read_result_of_ok {α : Type} {allowCache : Bool} {proto : RegistryProto}
    (h : (r.getRegistryProto store now allowCache).1 = .ok proto)
    (f : RegistryProto → Except RegistryError α) :
    (r.read store now allowCache f).result = f proto := by
  rcases read_cases r store now allowCache f with ⟨p, r', hg, hr⟩ | ⟨e, r', hg, hr⟩ <;>
    rw [hg] at h
  · cases h; rw [hr]
  · cases h

end Registry

end Feast
