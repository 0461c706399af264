import FeastRegistry.Cache
import FeastRegistry.Idempotence

/-!
# The cache is invisible to one instance that writes through

The registry the spec describes is one snapshot: every read is answered from it, and every
change is made to it (`Op.answer`, `Op.applyTo`, `RegistryProto.answers`). The code puts a cache
in front of the store, reloads it after its time to live, prepares it before each change, and
writes it back on `commit()`.

A call writes through (`Op.writesThrough`) when it is a mutating call with `commit=True`, a read,
`commit()` or `refresh()`: afterwards the store holds what the cache holds. With one instance
whose calls all write through, the code refines the snapshot (`System.run_refines_snapshot`):
from a store holding `S` and a cache that holds `S` if it holds anything, a run returns the
snapshot's answers to its calls, and leaves the store and the cache holding the snapshot the
calls leave. The step lemma is `Registry.exec_of_holds`: whether a call serves the cache, reloads
it or prepares it, the proto it works on is the store's.

With a second instance the caches go stale: a commit replaces the whole stored proto with the
committing instance's cache, and every change the other instances committed since that cache was
loaded is lost (`System.commit_overwrites_other_instances`).

A cache that never expires, as after `clone()` or with a time to live that is not positive once a
proto is loaded, detaches its instance from the store: along any run of all instances, the calls
of that instance that do not pass `allow_cache=False` return the answers of its cached snapshot,
whatever the others commit (`System.never_expiring_instance_isolated`, with the step lemma
`Registry.exec_of_fresh_cache`).

An instance whose calls cannot write (`Op.writesStore`: reads, `refresh()` and `commit=False`
calls) is invisible to the others: along any run, the store, the other instances and their results
are those of the run without its calls (`System.silent_instance_invisible`, by a simulation that
relates the two runs, `System.AgreeOff`).

Does not prove: the snapshot refinement for runs with `teardown`, after which a fresh cache still
serves the removed registry, or for a `commit=False` call, whose change lives in the cache until
the next reload.
-/

set_option autoImplicit false

namespace Feast

/-! ## The snapshot -/

/-- What a call answers on the snapshot `proto`: the read of `proto`, or for a mutating call the
error of its checks or of its edit of `proto`. The `get_infra` answer takes `Infra.from_proto` as
the identity, as `Registry.getInfra` does. -/
def Op.answer (now : Int) (proto : RegistryProto) : Op → Except RegistryError Value
  | .getInfra _ _ => .ok (.infra proto.infra)
  | .listEntities p _ => .ok (.entities ((proto.listIn .entities p).map Entity.fromProto))
  | .listFeatureServices p _ =>
    .ok (.featureServices ((proto.listIn .featureServices p).map FeatureService.fromProto))
  | .listFeatureViews p _ =>
    .ok (.featureViews ((proto.listIn .featureViews p).map (FeatureView.fromProto .featureView)))
  | .listOnDemandFeatureViews p _ =>
    .ok (.featureViews ((proto.listIn .onDemandFeatureViews p).map
      (FeatureView.fromProto .onDemandFeatureView)))
  | .listRequestFeatureViews p _ =>
    .ok (.featureViews ((proto.listIn .requestFeatureViews p).map
      (FeatureView.fromProto .requestFeatureView)))
  | .getEntity n p _ =>
    ((proto.getIn .entities n p (.entityNotFound n p)).map Entity.fromProto).map .entity
  | .getFeatureService n p _ =>
    ((proto.getIn .featureServices n p (.featureServiceNotFound n p)).map
      FeatureService.fromProto).map .featureService
  | .getFeatureView n p _ =>
    ((proto.getIn .featureViews n p (.featureViewNotFound n p)).map
      (FeatureView.fromProto .featureView)).map .featureView
  | .getOnDemandFeatureView n p _ =>
    ((proto.getIn .onDemandFeatureViews n p (.onDemandFeatureViewNotFound n p)).map
      (FeatureView.fromProto .onDemandFeatureView)).map .featureView
  | op =>
    match op.mutation now with
    | some (pre, edit, _) => mutationResult pre (edit proto)
    | none => .ok .none

/-- The snapshot's answers to a run of calls, each call made on the snapshot the calls before it
left. -/
def RegistryProto.answers {ι : Type} (proto : RegistryProto) :
    List (Event ι) → List (Except RegistryError Value)
  | [] => []
  | e :: es => e.op.answer e.now proto :: (e.op.applyTo e.now proto).answers es

/-- The calls after which the store holds what the cache holds: a mutating call with
`commit=True`, the reads, `commit()` and `refresh()`. -/
def Op.writesThrough : Op → Bool
  | .applyEntity _ _ c | .applyFeatureService _ _ c | .applyFeatureView _ _ c
  | .applyMaterialization _ _ _ _ c | .deleteEntity _ _ c | .deleteFeatureService _ _ c
  | .deleteFeatureView _ _ c | .updateInfra _ _ c => c
  | .teardown => false
  | _ => true

theorem Op.answer_of_mutation {op : Op} {now : Int} {pre : Option RegistryError}
    {edit : RegistryProto → Edit} {c : Bool} (hm : op.mutation now = some (pre, edit, c))
    (proto : RegistryProto) : op.answer now proto = mutationResult pre (edit proto) := by
  cases op <;> cases hm <;> rfl

theorem Op.writesThrough_of_mutation {op : Op} {now : Int} {pre : Option RegistryError}
    {edit : RegistryProto → Edit} {c : Bool} (hm : op.mutation now = some (pre, edit, c)) :
    op.writesThrough = c := by
  cases op <;> cases hm <;> rfl

/-! ## One call on a cache that holds the store's proto -/

namespace Registry

/-- The cache, if there is one, holds `proto`. -/
def Holds (r : Registry) (proto : RegistryProto) : Prop :=
  ∀ cached ∈ r.cachedRegistryProto, cached = proto

variable {r : Registry} {S : RegistryProto} (now : Int)

theorem holds_of_cached {proto : RegistryProto} (h : r.cachedRegistryProto = some proto) :
    r.Holds proto := fun _ hc => Option.some.inj (hc.symm.trans h)

variable {now}

/-- `_get_registry_proto` on a store holding `S` returns `S`, from the cache or from the store. -/
theorem getRegistryProto_of_holds (h : r.Holds S) (now : Int) (allowCache : Bool) :
    (r.getRegistryProto (some S) now allowCache).1 = .ok S ∧
      (r.getRegistryProto (some S) now allowCache).2.Holds S := by
  rcases getRegistryProto_cases r (some S) now allowCache with
    ⟨c, -, -, hc, hg⟩ | ⟨p, -, hs, hg⟩ | ⟨-, hs, -⟩
  · rw [hg, h c hc]; exact ⟨rfl, h⟩
  · cases hs; rw [hg]; exact ⟨rfl, holds_of_cached rfl⟩
  · cases hs

theorem prepareRegistryForChanges_of_holds (h : r.Holds S) (now : Int) :
    (r.prepareRegistryForChanges (some S) now).1 = S := by
  rcases prepareRegistryForChanges_cases r (some S) now with
    ⟨c, -, hc, hp⟩ | ⟨p, -, hs, hp⟩ | ⟨-, hs, -⟩
  · rw [hp, h c hc]
  · cases hs; rw [hp]
  · cases hs

/-- A read on a store holding `S` applies its function to `S`, keeps the cache holding `S`, and
writes nothing. -/
theorem exec_read_of_holds (h : r.Holds S) {α : Type} (allowCache : Bool)
    (f : RegistryProto → Except RegistryError α) (v : α → Value) :
    ((r.read (some S) now allowCache f).map v).result = (f S).map v ∧
      ((r.read (some S) now allowCache f).map v).registry.Holds S ∧
      ((r.read (some S) now allowCache f).map v).store (some S) = some S := by
  obtain ⟨hg, hr⟩ := getRegistryProto_of_holds h now allowCache
  obtain ⟨hreg, hw⟩ := read_registry r (some S) now allowCache f
  refine ⟨by rw [← read_result_of_ok hg f]; rfl, by rwa [Outcome.map_registry, hreg], ?_⟩
  rw [Outcome.map_store, Outcome.store, hw]

/-- The step lemma: on a store holding `S` and a cache holding `S`, a call that writes through
returns the snapshot's answer, and leaves the store and the cache holding the snapshot the call
leaves. -/
theorem exec_of_holds (h : r.Holds S) (now : Int) {op : Op} (hw : op.writesThrough = true) :
    (r.exec (some S) now op).result = op.answer now S ∧
      (r.exec (some S) now op).registry.Holds (op.applyTo now S) ∧
      (r.exec (some S) now op).store (some S) = some (op.applyTo now S) := by
  rcases hm : op.mutation now with _ | ⟨pre, edit, c⟩
  · rw [Op.applyTo_of_mutation_eq_none hm]
    cases op <;> simp only [Op.mutation, reduceCtorEq] at hm
    case commit =>
      refine ⟨rfl, h, ?_⟩
      cases hc : r.cachedRegistryProto with
      | none => simp [exec, Outcome.store, commit, hc]
      | some c => simp [exec, Outcome.store, commit, hc, h c hc, StoreWrite.apply]
    case teardown => cases hw
    all_goals exact exec_read_of_holds h _ _ _
  · obtain rfl := (Op.writesThrough_of_mutation hm).symm.trans hw
    rw [Op.answer_of_mutation hm, Op.applyTo_of_mutation hm]
    cases pre with
    | some e => rw [exec_of_mutation r _ now hm]; exact ⟨rfl, h, rfl⟩
    | none =>
      have hp := prepareRegistryForChanges_of_holds h now
      obtain ⟨hreg, hwr⟩ := exec_registry_of_mutation r (some S) now hm
      refine ⟨by rw [exec_result_of_mutation r _ now hm, hp], ?_, ?_⟩
      · rw [hreg, hp]; exact holds_of_cached rfl
      · rw [Outcome.store, hwr, hp]
        cases edit S <;> rfl

end Registry

/-! ## Runs -/

namespace System

/-- One instance whose calls all write through refines the snapshot. From a store holding `S`
and a cache that holds `S` if it holds anything, a run returns the snapshot's answers to its
calls, and leaves the store and the cache holding the snapshot the calls leave, whatever the
clock readings and however often the cache expires. -/
theorem run_refines_snapshot {s : System Unit} {S : RegistryProto} (hs : s.store = some S)
    (hc : (s.registries ()).Holds S) (es : List (Event Unit))
    (hw : ∀ e ∈ es, e.op.writesThrough = true) :
    s.results es = S.answers es ∧
      (s.run es).store = some (es.foldl (fun P e => e.op.applyTo e.now P) S) ∧
      ((s.run es).registries ()).Holds (es.foldl (fun P e => e.op.applyTo e.now P) S) := by
  induction es generalizing s S with
  | nil => exact ⟨rfl, hs, hc⟩
  | cons e es ih =>
    obtain ⟨⟨⟩, now, op⟩ := e
    obtain ⟨hres, hreg, hstore⟩ :=
      Registry.exec_of_holds hc now (hw _ (List.mem_cons_self _ _))
    have hs' : (s.step ⟨(), now, op⟩).1.store = some (op.applyTo now S) := by
      rw [step_store, hs]; exact hstore
    have hc' : ((s.step ⟨(), now, op⟩).1.registries ()).Holds (op.applyTo now S) := by
      rw [step_registries_self, hs]; exact hreg
    obtain ⟨ih₁, ih₂, ih₃⟩ := ih hs' hc' fun e he => hw e (List.mem_cons_of_mem _ he)
    exact ⟨by rw [results, ih₁, step_result, hs, hres]; rfl, ih₂, ih₃⟩

/-- Over the two-project snapshot with a time to live of 600, calls on both projects, the later
ones after the cache has expired, answer as the snapshot does. -/
theorem run_refines_snapshot_of_entity :
    (System.init (some .sample) fun _ => 600).results
        [⟨(), 0, .applyEntity ⟨"customer_id", "INT64"⟩ "p1" true⟩,
          ⟨(), 700, .getEntity "driver_id" "p2" true⟩,
          ⟨(), 800, .deleteEntity "driver_id" "p2" true⟩,
          ⟨(), 900, .listEntities "p1" true⟩] =
      RegistryProto.sample.answers
        [⟨(), 0, .applyEntity ⟨"customer_id", "INT64"⟩ "p1" true⟩,
          ⟨(), 700, .getEntity "driver_id" "p2" true⟩,
          ⟨(), 800, .deleteEntity "driver_id" "p2" true⟩,
          ⟨(), 900, .listEntities "p1" true⟩] :=
  (run_refines_snapshot rfl (fun _ h => by cases h) _ (by decide)).1

/-! ## Several instances -/

variable {ι : Type} [DecidableEq ι]

theorem run_registries_of_not_mem {s : System ι} {j : ι} (es : List (Event ι))
    (h : ∀ e ∈ es, e.registry ≠ j) : (s.run es).registries j = s.registries j := by
  induction es generalizing s with
  | nil => rfl
  | cons e es ih =>
    rw [run_cons, ih fun e' he' => h e' (List.mem_cons_of_mem _ he'),
      step_registries_of_ne s e (h e (List.mem_cons_self _ _)).symm]

/-- A commit replaces the whole stored proto with the committing instance's cache. Take an
instance `j` whose cache holds `P` and is still fresh, and any run of calls of the other
instances, committed or not. A mutating call of `j` with `commit=True` whose edit changes `P`
into `A` leaves the store holding `A`: every change the other instances committed in the run is
lost. -/
theorem commit_overwrites_other_instances {s : System ι} {j : ι} {P : RegistryProto}
    (hc : (s.registries j).cachedRegistryProto = some P) (others : List (Event ι))
    (ho : ∀ e ∈ others, e.registry ≠ j) {now : Int} (hf : (s.registries j).expired now = false)
    {op : Op} {edit : RegistryProto → Edit} (hm : op.mutation now = some (none, edit, true))
    {A : RegistryProto} (he : edit P = .changed A) :
    ((s.run others).step ⟨j, now, op⟩).1.store = some A := by
  have hj := run_registries_of_not_mem (s := s) others ho
  have hp : (s.registries j).prepareRegistryForChanges (s.run others).store now =
      (P, s.registries j) := Registry.prepareRegistryForChanges_of_fresh hc hf
  rw [step_store, hj, Outcome.store, (Registry.exec_registry_of_mutation _ _ now hm).2, hp, he]
  rfl

/-- Over the two-project snapshot: instance `true` commits an entity of `p1`, and then instance
`false`, whose cache still holds the snapshot, commits an entity of `p2` and overwrites it. -/
theorem commit_overwrites_other_instances_of_entity :
    ((((System.init (some .sample) fun _ => 600).step ⟨false, 0, .refresh⟩).1.run
      [⟨true, 1, .applyEntity ⟨"customer_id", "INT64"⟩ "p1" true⟩]).step
        ⟨false, 2, .applyEntity ⟨"trip_id", "INT64"⟩ "p2" true⟩).1.store =
      some (RegistryProto.sample.applyEntity
        ((Entity.toProto ⟨"trip_id", "INT64"⟩).withProject "p2") "p2") :=
  commit_overwrites_other_instances (P := .sample) rfl _ (by decide) (by decide)
    (show Op.mutation 2 (.applyEntity ⟨"trip_id", "INT64"⟩ "p2" true) = some (none,
      fun proto => .changed (proto.applyEntity ((Entity.toProto ⟨"trip_id", "INT64"⟩).withProject
        "p2") "p2"), true) from rfl) rfl

end System

/-! ## A cache that never expires -/

namespace Registry

variable {r : Registry} {P : RegistryProto} {now : Int}

theorem with_cached_eq (hc : r.cachedRegistryProto = some P) :
    { r with cachedRegistryProto := some P } = r := by
  cases r; cases hc; rfl

/-- On a fresh cache holding `P`, a call that does not pass `allow_cache=False` answers from `P`
and leaves the call's edit of `P` in the cache, whatever the store holds. -/
theorem exec_of_fresh_cache (hc : r.cachedRegistryProto = some P) (hf : r.expired now = false)
    (store : Option RegistryProto) {op : Op} (ha : op.allowCache now ≠ some false) :
    (r.exec store now op).result = op.answer now P ∧
      (r.exec store now op).registry = { r with cachedRegistryProto := some (op.applyTo now P) } := by
  have hg : r.getRegistryProto store now true = (.ok P, r) := by
    simp [getRegistryProto, hf, hc]
  rcases hm : op.mutation now with _ | ⟨pre, edit, c⟩
  · rw [Op.applyTo_of_mutation_eq_none hm, with_cached_eq hc]
    have hr : ∀ {α : Type} (f : RegistryProto → Except RegistryError α) (v : α → Value),
        ((r.read store now true f).map v).result = (f P).map v ∧
          ((r.read store now true f).map v).registry = r := fun f v => by
      simp [read, hg, Outcome.map]
    cases op <;> simp only [Op.mutation, reduceCtorEq] at hm <;>
      simp only [Op.allowCache, Op.mutation, ne_eq, Option.some.injEq, Bool.not_eq_false] at ha
    all_goals first | exact ⟨rfl, rfl⟩ | (subst ha; exact hr _ _) | exact (ha trivial).elim
  · rw [Op.answer_of_mutation hm, Op.applyTo_of_mutation hm]
    cases pre with
    | some e => rw [exec_of_mutation r _ now hm, Option.elim, with_cached_eq hc]; exact ⟨rfl, rfl⟩
    | none =>
      have hp : r.prepareRegistryForChanges store now = (P, r) :=
        prepareRegistryForChanges_of_fresh hc hf
      rw [exec_result_of_mutation r _ now hm, (exec_registry_of_mutation r store now hm).1, hp]
      exact ⟨rfl, rfl⟩

/-- A cache holding a proto with a creation time and a time to live that is not positive never
expires ("0 ttl means infinity"). -/
theorem expired_eq_false_of_ttl_nonpos (hc : r.cachedRegistryProto = some P)
    (hcr : r.cachedRegistryProtoCreated.isSome = true) (httl : r.cachedRegistryProtoTtl ≤ 0)
    (now : Int) : r.expired now = false := by
  obtain ⟨created, hcr⟩ := Option.isSome_iff_exists.1 hcr
  simp [expired, hc, hcr, not_lt.2 httl]

end Registry

/-- The calls that can write to the store: a mutating call with `commit=True`, `commit()` and
`teardown()`. -/
def Op.writesStore : Op → Bool
  | .applyEntity _ _ c | .applyFeatureService _ _ c | .applyFeatureView _ _ c
  | .applyMaterialization _ _ _ _ c | .deleteEntity _ _ c | .deleteFeatureService _ _ c
  | .deleteFeatureView _ _ c | .updateInfra _ _ c => c
  | .commit | .teardown => true
  | _ => false

theorem Registry.exec_write_eq_none (r : Registry) (store : Option RegistryProto) (now : Int)
    {op : Op} (h : op.writesStore = false) : (r.exec store now op).write = none := by
  rcases hm : op.mutation now with _ | ⟨pre, edit, c⟩
  · have hr : ∀ {α : Type} (a : Bool) (f : RegistryProto → Except RegistryError α)
        (v : α → Value), ((r.read store now a f).map v).write = none := fun a f _ =>
      (Registry.read_registry r store now a f).2
    cases op <;> simp only [Op.mutation, reduceCtorEq] at hm <;> first | exact hr _ _ _ | cases h
  · obtain rfl : c = false := by cases op <;> cases hm <;> exact h
    rw [Registry.exec_of_mutation r store now hm, Outcome.map_write]
    rcases Registry.mutate_cases r store now pre edit false with
      ⟨_, -, hmu⟩ | ⟨-, _, -, hmu⟩ | ⟨-, -, hmu⟩ | ⟨-, _, -, hmu⟩ <;> rw [hmu]
    rfl

namespace System

variable {ι : Type} [DecidableEq ι]

/-- The results of the calls instance `j` makes in a run, in order. -/
def resultsOf (j : ι) (s : System ι) : List (Event ι) → List (Except RegistryError Value)
  | [] => []
  | e :: es =>
    if e.registry = j then (s.step e).2 :: (s.step e).1.resultsOf j es
    else (s.step e).1.resultsOf j es

/-- An instance whose cache never expires sees nothing the other instances commit. Take an
instance `j` whose cache holds `P`, with a creation time and a time to live that is not
positive, as after `clone()`, or with the default `cache_ttl_seconds` once a proto is loaded.
Along any run of calls of any instances in which `j` never passes `allow_cache=False`, the calls
of `j` return the snapshot `P`'s answers to the calls of `j` alone, and the cache of `j` ends
holding what those calls leave of `P`. -/
theorem never_expiring_instance_isolated {s : System ι} {j : ι} {P : RegistryProto}
    (hc : (s.registries j).cachedRegistryProto = some P)
    (hcr : (s.registries j).cachedRegistryProtoCreated.isSome = true)
    (httl : (s.registries j).cachedRegistryProtoTtl ≤ 0) (es : List (Event ι))
    (ha : ∀ e ∈ es, e.registry = j → e.op.allowCache e.now ≠ some false) :
    s.resultsOf j es = P.answers (es.filter (·.registry = j)) ∧
      ((s.run es).registries j).cachedRegistryProto =
        some ((es.filter (·.registry = j)).foldl (fun P e => e.op.applyTo e.now P) P) := by
  induction es generalizing s P with
  | nil => exact ⟨rfl, hc⟩
  | cons e es ih =>
    have ha' := fun e' he' => ha e' (List.mem_cons_of_mem e he')
    by_cases he : e.registry = j
    · subst he
      obtain ⟨hres, hreg⟩ := Registry.exec_of_fresh_cache hc
        (Registry.expired_eq_false_of_ttl_nonpos hc hcr httl e.now) s.store
        (ha e (List.mem_cons_self _ _) rfl)
      rw [← step_registries_self] at hreg
      obtain ⟨ih₁, ih₂⟩ := ih (s := (s.step e).1) (by rw [hreg]) (by rwa [hreg]) (by rwa [hreg]) ha'
      refine ⟨?_, by rw [run_cons, ih₂, List.filter_cons_of_pos (by simp), List.foldl_cons]⟩
      rw [resultsOf, if_pos rfl, ih₁, List.filter_cons_of_pos (by simp), step_result, hres]
      rfl
    · have hj := step_registries_of_ne s e (Ne.symm he)
      obtain ⟨ih₁, ih₂⟩ := ih (s := (s.step e).1) (by rwa [hj]) (by rwa [hj]) (by rwa [hj]) ha'
      rw [resultsOf, if_neg he, List.filter_cons_of_neg (by simpa using he), run_cons]
      exact ⟨ih₁, ih₂⟩

/-- A clone of an instance that has loaded the two-project snapshot, and another instance over the
store: the clone applies an entity of `p1` and lists the entities of `p2` while the other
instance commits one to `p2`, which the clone never sees. -/
theorem never_expiring_instance_isolated_of_clone :
    (System.mk (some .sample) fun b : Bool =>
        if b then (⟨some .sample, some 0, 600⟩ : Registry).clone 0 else Registry.init 600).resultsOf
      true
      [⟨true, 1, .applyEntity ⟨"customer_id", "INT64"⟩ "p1" false⟩,
        ⟨false, 2, .applyEntity ⟨"trip_id", "INT64"⟩ "p2" true⟩,
        ⟨true, 3, .listEntities "p2" true⟩] =
      RegistryProto.sample.answers
        ([⟨true, 1, .applyEntity ⟨"customer_id", "INT64"⟩ "p1" false⟩,
          ⟨false, 2, .applyEntity ⟨"trip_id", "INT64"⟩ "p2" true⟩,
          ⟨true, 3, .listEntities "p2" true⟩].filter (·.registry = true)) :=
  by refine (never_expiring_instance_isolated ?_ ?_ ?_ _ ?_).1 <;> decide

/-! ## Instances that never write -/

/-- Two systems whose stores agree and whose instances other than `j` agree. -/
structure AgreeOff (j : ι) (s₁ s₂ : System ι) : Prop where
  store_eq : s₁.store = s₂.store
  registries_eq : ∀ i, i ≠ j → s₁.registries i = s₂.registries i

theorem AgreeOff.step {j : ι} {s₁ s₂ : System ι} (h : AgreeOff j s₁ s₂) {e : Event ι}
    (he : e.registry ≠ j) : AgreeOff j (s₁.step e).1 (s₂.step e).1 ∧ (s₁.step e).2 = (s₂.step e).2 := by
  have hr := h.registries_eq _ he
  refine ⟨⟨by rw [step_store, step_store, hr, h.store_eq], fun i hi => ?_⟩,
    by rw [step_result, step_result, hr, h.store_eq]⟩
  by_cases hie : i = e.registry
  · subst hie; rw [step_registries_self, step_registries_self, hr, h.store_eq]
  · rw [step_registries_of_ne _ _ hie, step_registries_of_ne _ _ hie]; exact h.registries_eq i hi

theorem AgreeOff.step_silent {j : ι} {s₁ s₂ : System ι} (h : AgreeOff j s₁ s₂) {e : Event ι}
    (he : e.registry = j) (hw : e.op.writesStore = false) : AgreeOff j (s₁.step e).1 s₂ :=
  ⟨by rw [step_store, Outcome.store, Registry.exec_write_eq_none _ _ _ hw]; exact h.store_eq,
    fun i hi => by rw [step_registries_of_ne _ _ fun h' => hi (h'.trans he)]; exact h.registries_eq i hi⟩

/-- The run lemma: a run and the same run without the calls of `j`, which cannot write, keep two
systems that agree off `j` in agreement, with the same results for every other instance. -/
theorem AgreeOff.run {j : ι} : ∀ {s₁ s₂ : System ι} (es : List (Event ι)), AgreeOff j s₁ s₂ →
    (∀ e ∈ es, e.registry = j → e.op.writesStore = false) →
    AgreeOff j (s₁.run es) (s₂.run (es.filter (·.registry ≠ j))) ∧
      ∀ i, i ≠ j → s₁.resultsOf i es = s₂.resultsOf i (es.filter (·.registry ≠ j))
  | _, _, [], h, _ => ⟨h, fun _ _ => rfl⟩
  | s₁, s₂, e :: es, h, hj => by
    have hj' := fun e' he' => hj e' (List.mem_cons_of_mem e he')
    by_cases he : e.registry = j
    · obtain ⟨ih₁, ih₂⟩ := AgreeOff.run es (h.step_silent he (hj e (List.mem_cons_self _ _) he)) hj'
      rw [List.filter_cons_of_neg (by simpa using he), run_cons]
      refine ⟨ih₁, fun i hi => ?_⟩
      rw [resultsOf, if_neg fun h' => hi (h'.symm.trans he), ih₂ i hi]
    · obtain ⟨hstep, hres⟩ := h.step he
      obtain ⟨ih₁, ih₂⟩ := AgreeOff.run es hstep hj'
      rw [List.filter_cons_of_pos (by simpa using he), run_cons, run_cons]
      refine ⟨ih₁, fun i hi => ?_⟩
      rw [resultsOf, resultsOf, hres, ih₂ i hi]

/-- An instance that cannot write is invisible to the others. Along any run of calls of any
instances in which instance `j` makes only calls that cannot write to the store (reads,
`refresh()`, and mutating calls with `commit=False`), the store, every other instance and the
results of every other instance are what they would be if `j` made no call at all. -/
theorem silent_instance_invisible (s : System ι) (j : ι) (es : List (Event ι))
    (hj : ∀ e ∈ es, e.registry = j → e.op.writesStore = false) :
    (s.run es).store = (s.run (es.filter (·.registry ≠ j))).store ∧
      ∀ i, i ≠ j → (s.run es).registries i = (s.run (es.filter (·.registry ≠ j))).registries i ∧
        s.resultsOf i es = s.resultsOf i (es.filter (·.registry ≠ j)) := by
  obtain ⟨⟨h₁, h₂⟩, h₃⟩ := AgreeOff.run es ⟨rfl, fun _ _ => rfl⟩ hj
  exact ⟨h₁, fun i hi => ⟨h₂ i hi, h₃ i hi⟩⟩

/-- Over the two-project snapshot, one instance applies an entity without committing and reads it
back from its cache; the other instance's listing finds the store as it was. -/
theorem silent_instance_invisible_of_uncommitted :
    (System.init (some .sample) fun _ => 600).resultsOf true
        [⟨false, 0, .applyEntity ⟨"customer_id", "INT64"⟩ "p1" false⟩,
          ⟨false, 1, .getEntity "customer_id" "p1" true⟩, ⟨true, 2, .listEntities "p1" false⟩] =
      (System.init (some .sample) fun _ => 600).resultsOf true
        ([⟨false, 0, .applyEntity ⟨"customer_id", "INT64"⟩ "p1" false⟩,
          ⟨false, 1, .getEntity "customer_id" "p1" true⟩,
          ⟨true, 2, .listEntities "p1" false⟩].filter (·.registry ≠ false)) :=
  ((silent_instance_invisible _ false _ (by decide)).2 true (by decide)).2

end System

end Feast
