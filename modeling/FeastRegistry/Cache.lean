import FeastRegistry.Failures

/-!
# When the cache reloads

`_get_registry_proto(allow_cache=True)` serves the cached proto while it has not expired, and
otherwise loads the store's proto and sets `cached_registry_proto_created` to the current time.
Every mutating call whose checks pass reaches it through `_prepare_registry_for_changes`; the
reads reach it with their `allow_cache` argument (`Op.allowCache`).

## What this module delivers

- `Registry.exec_cacheState`: the step lemma. A call that loads the store (`Registry.callLoads`)
  leaves a cached proto created at the call's time; any other call, mutating ones included,
  leaves whether a proto is cached, its creation time and the time to live as they were.
- `Registry.exec_eq_of_callLoads_false`: a call that does not load answers from the cache, and
  its outcome is the same whatever the store holds.
- `ttlLoads`: the load rule the cache is designed to follow, stated on the calls' times alone. A
  call that reaches `_get_registry_proto` loads when nothing was loaded before, or when the time
  to live is positive and the call comes more than one time to live after the last load.
- `Registry.runLoads_eq_ttlLoads`: the run lemma. From a fresh registry, the loads of a run are
  the loads of the rule, as long as no call reaches `_get_registry_proto` with
  `allow_cache=False` and every load finds a proto (`Registry.loadsSucceed`).
- `ttlLoads_countP_le_one`, `ttlLoads_pairwise`: with a time to live that is not positive the
  rule loads at most once; at nondecreasing times any two loads are more than one time to live
  apart. `ttl_cache_loads_once_per_window` assembles the three.
-/

set_option autoImplicit false

namespace Feast

/-- The `allow_cache` argument with which a call reaches `_get_registry_proto`: `True`, through
`_prepare_registry_for_changes`, for a mutating call whose checks pass; the argument of a read;
`False` for `refresh`. `none` for a call that does not reach it: `commit`, `teardown`, and a
mutating call whose checks raise first. -/
def Op.allowCache (now : Int) (op : Op) : Option Bool :=
  match op.mutation now with
  | some (pre, _, _) => pre.elim (some true) fun _ => none
  | none =>
    match op with
    | .getInfra _ a | .listEntities _ a | .listFeatureServices _ a | .listFeatureViews _ a
    | .listOnDemandFeatureViews _ a | .listRequestFeatureViews _ a | .getEntity _ _ a
    | .getFeatureService _ _ a | .getFeatureView _ _ a | .getOnDemandFeatureView _ _ a => some a
    | .refresh => some false
    | _ => none

namespace Registry

/-- Whether `_get_registry_proto(allow_cache)` reads the store: it serves the cache only when
caching is allowed, the cache has not expired, and there is a cached proto. -/
def loadsStore (r : Registry) (now : Int) (allowCache : Bool) : Bool :=
  match allowCache && !r.expired now, r.cachedRegistryProto with
  | true, some _ => false
  | _, _ => true

/-- Whether a call reads the store. -/
def callLoads (r : Registry) (now : Int) (op : Op) : Bool :=
  (op.allowCache now).elim false (r.loadsStore now)

/-- A run of one registry. Each call comes with the proto its store holds at that moment, which
other writers may have changed, and the clock reading. The result is each call's time and
whether it read the store. -/
def runLoads : Registry → List (Option RegistryProto × Int × Op) → List (Int × Bool)
  | _, [] => []
  | r, (store, now, op) :: calls =>
    (now, r.callLoads now op) :: (r.exec store now op).registry.runLoads calls

/-- Every store read of the run finds a proto. -/
def loadsSucceed : Registry → List (Option RegistryProto × Int × Op) → Bool
  | _, [] => true
  | r, (store, now, op) :: calls =>
    (!r.callLoads now op || store.isSome) && (r.exec store now op).registry.loadsSucceed calls

/-- What the loads depend on: whether a proto is cached, its creation time, and the time to
live. -/
def cacheState (r : Registry) : Bool × Option Int × Int :=
  (r.cachedRegistryProto.isSome, r.cachedRegistryProtoCreated, r.cachedRegistryProtoTtl)

end Registry

/-- The load rule of the cache. Each call is its time and whether it reaches
`_get_registry_proto` with `allow_cache=True`; `last` is the time of the last load. -/
def ttlLoads (ttl : Int) : Option Int → List (Int × Bool) → List (Int × Bool)
  | _, [] => []
  | last, (now, reaches) :: calls =>
    let load := reaches && last.elim true fun l => 0 < ttl && l + ttl < now
    (now, load) :: ttlLoads ttl (if load then some now else last) calls

/-! ## One call -/

namespace Registry

variable (r : Registry) (store : Option RegistryProto) (now : Int)

theorem loadsStore_of_reload {allowCache : Bool} (ha : allowCache = false ∨ r.expired now = true) :
    r.loadsStore now allowCache = true := by
  unfold loadsStore
  rcases ha with ha | ha <;> simp [ha]

/-- A mutating call loads the store only when the cache has expired. -/
theorem expired_of_loadsStore (h : r.loadsStore now true = true) : r.expired now = true := by
  cases hc : r.cachedRegistryProto with
  | none => exact expired_of_cachedRegistryProto_none r now hc
  | some _ => cases he : r.expired now <;> simp_all [loadsStore]

/-- A load of the store caches the stored proto. -/
theorem getRegistryProto_cached_of_loadsStore {a : Bool} (h : r.loadsStore now a = true)
    (S : RegistryProto) : (r.getRegistryProto (some S) now a).2.cachedRegistryProto = some S := by
  rcases getRegistryProto_cases r (some S) now a with ⟨c, ha, he, hc, -⟩ | ⟨p, -, hs, hg⟩ | ⟨-, hs, -⟩
  · subst ha; simp [loadsStore, he, hc] at h
  · cases hs; rw [hg]
  · cases hs

theorem getRegistryProto_cacheState (allowCache : Bool)
    (hs : r.loadsStore now allowCache = true → store.isSome = true) :
    (r.getRegistryProto store now allowCache).2.cacheState =
      if r.loadsStore now allowCache then (true, some now, r.cachedRegistryProtoTtl)
      else r.cacheState := by
  rcases getRegistryProto_cases r store now allowCache with
    ⟨c, ha, he, hc, h⟩ | ⟨p, ha, hp, h⟩ | ⟨ha, hp, -⟩
  · subst ha
    simp [h, loadsStore, he, hc]
  · simp [h, loadsStore_of_reload r now ha, cacheState]
  · simp [hp, loadsStore_of_reload r now ha] at hs

/-- The step lemma: a call that loads the store leaves a cached proto created now, and any other
call leaves the cache state as it was. -/
theorem exec_cacheState (op : Op) (hs : r.callLoads now op = true → store.isSome = true) :
    (r.exec store now op).registry.cacheState =
      if r.callLoads now op then (true, some now, r.cachedRegistryProtoTtl) else r.cacheState := by
  rcases hm : op.mutation now with _ | ⟨pre, edit, c⟩
  · have hr : ∀ {α : Type} (a : Bool) (f : RegistryProto → Except RegistryError α),
        op.allowCache now = some a →
        (r.read store now a f).registry.cacheState = if r.callLoads now op then
          (true, some now, r.cachedRegistryProtoTtl) else r.cacheState := fun a f ha => by
      rw [(read_registry r store now a f).1, callLoads, ha, Option.elim]
      exact getRegistryProto_cacheState r store now a (by rw [callLoads, ha] at hs; exact hs)
    cases op <;> simp only [Op.mutation, reduceCtorEq] at hm <;>
      simp only [exec, Outcome.map_registry, getInfra, listEntities, listFeatureServices,
        listFeatureViews, listOnDemandFeatureViews, listRequestFeatureViews, getEntity,
        getFeatureService, getFeatureView, getOnDemandFeatureView, refresh]
    all_goals first
      | exact hr _ _ rfl
      | simp [callLoads, Op.allowCache, Op.mutation, teardown]
  · rw [exec_of_mutation r store now hm, Outcome.map_registry]
    cases pre with
    | some e =>
      have hl : r.callLoads now op = false := by simp [callLoads, Op.allowCache, hm]
      simp [mutate, hl]
    | none =>
      have hl : r.callLoads now op = r.loadsStore now true := by
        simp [callLoads, Op.allowCache, hm]
      rw [hl] at hs ⊢
      have hprep : (r.prepareRegistryForChanges store now).2 =
          (r.getRegistryProto store now true).2 := by
        rcases getRegistryProto_cases r store now true with
          ⟨c, -, -, -, h⟩ | ⟨p, -, -, h⟩ | ⟨ha, hp, -⟩
        · simp [prepareRegistryForChanges, h]
        · simp [prepareRegistryForChanges, h]
        · simp [hp, loadsStore_of_reload r now ha] at hs
      have hcs : ∀ proto, ({ (r.prepareRegistryForChanges store now).2 with
          cachedRegistryProto := some proto } : Registry).cacheState =
            (r.prepareRegistryForChanges store now).2.cacheState := fun _ => by
        simp [cacheState, prepareRegistryForChanges_cached]
      rcases mutate_cases r store now none edit c with
        ⟨e, he, -⟩ | ⟨-, e, -, h⟩ | ⟨-, -, h⟩ | ⟨-, proto, -, h⟩
      · cases he
      all_goals rw [h]; try rw [hcs]
      all_goals rw [hprep]; exact getRegistryProto_cacheState r store now true hs

/-- A `_get_registry_proto` that does not load serves the cached proto, whatever the store holds. -/
theorem getRegistryProto_of_loadsStore_false {a : Bool} (h : r.loadsStore now a = false) :
    ∃ c, r.cachedRegistryProto = some c ∧ ∀ store, r.getRegistryProto store now a = (.ok c, r) := by
  unfold loadsStore at h
  split at h
  · next c hb hc => exact ⟨c, hc, fun _ => by simp [getRegistryProto, hb, hc]⟩
  · cases h

/-- A call that does not load answers from the cache: its result, the registry it leaves and
its write are the same whatever the store holds. -/
theorem exec_eq_of_callLoads_false {op : Op} (h : r.callLoads now op = false)
    (store store' : Option RegistryProto) : r.exec store now op = r.exec store' now op := by
  rcases hm : op.mutation now with _ | ⟨pre, edit, c⟩
  · have hr : ∀ {α : Type} (a : Bool) (f : RegistryProto → Except RegistryError α),
        op.allowCache now = some a → r.read store now a f = r.read store' now a f := fun a f ha => by
      rw [callLoads, ha, Option.elim] at h
      obtain ⟨_, -, hg⟩ := getRegistryProto_of_loadsStore_false r now h
      simp only [read, hg]
    cases op <;> simp only [Op.mutation, reduceCtorEq] at hm <;>
      simp only [exec, getInfra, listEntities, listFeatureServices, listFeatureViews,
        listOnDemandFeatureViews, listRequestFeatureViews, getEntity, getFeatureService,
        getFeatureView, getOnDemandFeatureView, refresh]
    all_goals first
      | rfl
      | rw [hr _ _ rfl]
  · rw [exec_of_mutation r store now hm, exec_of_mutation r store' now hm]
    cases pre with
    | some e => rfl
    | none =>
      have hl : r.loadsStore now true = false := by simpa [callLoads, Op.allowCache, hm] using h
      obtain ⟨_, -, hg⟩ := getRegistryProto_of_loadsStore_false r now hl
      simp only [mutate, prepareRegistryForChanges, hg]

/-- Under the invariant of a run, whether a call loads is the rule's decision. -/
theorem callLoads_eq {ttl : Int} {last : Option Int}
    (hinv : r.cacheState = (last.isSome, last, ttl)) {op : Op}
    (hop : op.allowCache now ≠ some false) :
    r.callLoads now op =
      ((op.allowCache now == some true) && last.elim true fun l => 0 < ttl && l + ttl < now) := by
  simp only [cacheState, Prod.mk.injEq] at hinv
  obtain ⟨hc, hcr, ht⟩ := hinv
  rcases ha : op.allowCache now with _ | _ | _
  · simp [callLoads, ha]
  · exact absurd ha hop
  · cases last with
    | none =>
      have : r.cachedRegistryProto = none := by simpa using hc
      simp [callLoads, ha, loadsStore, this]
    | some l =>
      obtain ⟨c, hc'⟩ := Option.isSome_iff_exists.1 (by simpa using hc)
      simp only [callLoads, ha, Option.elim, loadsStore, expired, hc', hcr, ht]
      by_cases h₁ : 0 < ttl <;> by_cases h₂ : l + ttl < now <;> simp [h₁, h₂]

end Registry

/-! ## Runs -/

namespace Registry

/-- The run lemma: from a registry whose cache state is that of the rule after the loads at
`last`, the loads of a run are the rule's. -/
theorem runLoads_eq_ttlLoads {ttl : Int} (calls : List (Option RegistryProto × Int × Op))
    (hreach : ∀ c ∈ calls, c.2.2.allowCache c.2.1 ≠ some false) :
    ∀ {r : Registry} {last : Option Int}, r.cacheState = (last.isSome, last, ttl) →
      r.loadsSucceed calls = true →
      r.runLoads calls = ttlLoads ttl last (calls.map fun c => (c.2.1, c.2.2.allowCache c.2.1 == some true)) := by
  induction calls with
  | nil => exact fun _ _ => rfl
  | cons c calls ih =>
    obtain ⟨store, now, op⟩ := c
    intro r last hinv hload
    simp only [loadsSucceed, Bool.and_eq_true, Bool.or_eq_true, Bool.not_eq_true'] at hload
    have hl := r.callLoads_eq now hinv (hreach (store, now, op) (List.mem_cons_self _ _))
    have hs : r.callLoads now op = true → store.isSome = true :=
      fun h => hload.1.resolve_left (by simp [h])
    have ht : r.cachedRegistryProtoTtl = ttl := congrArg (·.2.2) hinv
    have hinv' : (r.exec store now op).registry.cacheState =
        ((if r.callLoads now op then some now else last).isSome,
          if r.callLoads now op then some now else last, ttl) := by
      rw [r.exec_cacheState store now op hs]
      split <;> simp [hinv, ht]
    simp only [runLoads, List.map_cons, ttlLoads, ← hl]
    rw [ih (fun c hc => hreach c (List.mem_cons_of_mem _ hc)) hinv' hload.2]

end Registry

/-! ## What the rule allows -/

section Rule

variable (ttl : Int)

theorem ttlLoads_map_fst (last : Option Int) (xs : List (Int × Bool)) :
    (ttlLoads ttl last xs).map (·.1) = xs.map (·.1) := by
  induction xs generalizing last with
  | nil => rfl
  | cons x xs ih => simp [ttlLoads, ih]

/-- After a load, a time to live that is not positive never loads again. -/
theorem ttlLoads_some_of_nonpos (h : ttl ≤ 0) (l : Int) (xs : List (Int × Bool)) :
    (ttlLoads ttl (some l) xs).countP (·.2) = 0 := by
  induction xs with
  | nil => rfl
  | cons x xs ih =>
    have : ¬(0 < ttl) := by omega
    simp [ttlLoads, this, ih]

theorem ttlLoads_countP_le_one (h : ttl ≤ 0) (xs : List (Int × Bool)) :
    (ttlLoads ttl none xs).countP (·.2) ≤ 1 := by
  induction xs with
  | nil => simp [ttlLoads]
  | cons x xs ih =>
    obtain ⟨now, reaches⟩ := x
    cases reaches
    · simpa [ttlLoads] using ih
    · simp [ttlLoads, ttlLoads_some_of_nonpos ttl h]

/-- Every load of the rule after a load at `l`, at times no earlier than `l`, comes more than one
time to live after `l`. -/
theorem ttlLoads_after (l : Int) (xs : List (Int × Bool)) (hxs : xs.Pairwise (·.1 ≤ ·.1))
    (hl : ∀ x ∈ xs, l ≤ x.1) : ∀ y ∈ ttlLoads ttl (some l) xs, y.2 = true → l + ttl < y.1 := by
  induction xs generalizing l with
  | nil => simp [ttlLoads]
  | cons x xs ih =>
    obtain ⟨now, reaches⟩ := x
    rw [List.pairwise_cons] at hxs
    intro y hy hload
    simp only [ttlLoads, List.mem_cons] at hy
    rcases hy with rfl | hy
    · simp only [Option.elim, Bool.and_eq_true, decide_eq_true_eq] at hload
      exact hload.2.2
    · split at hy
      · next hnow =>
        simp only [Option.elim, Bool.and_eq_true, decide_eq_true_eq] at hnow
        have := ih now hxs.2 (fun x hx => hxs.1 x hx) y hy hload
        omega
      · exact ih l hxs.2 (fun x hx => hl x (List.mem_cons_of_mem _ hx)) y hy hload

/-- At nondecreasing times, any two loads of the rule are more than one time to live apart. -/
theorem ttlLoads_pairwise (last : Option Int) (xs : List (Int × Bool))
    (hxs : xs.Pairwise (·.1 ≤ ·.1)) (hlast : ∀ l ∈ last, ∀ x ∈ xs, l ≤ x.1) :
    (ttlLoads ttl last xs).Pairwise fun a b => a.2 = true → b.2 = true → a.1 + ttl < b.1 := by
  induction xs generalizing last with
  | nil => exact List.Pairwise.nil
  | cons x xs ih =>
    obtain ⟨now, reaches⟩ := x
    rw [List.pairwise_cons] at hxs
    simp only [ttlLoads]
    refine List.pairwise_cons.2 ⟨fun y hy hload hy2 => ?_, ih _ hxs.2 fun l hl x hx => ?_⟩
    · simp only [if_pos hload] at hy
      exact ttlLoads_after ttl now xs hxs.2 (fun x hx => hxs.1 x hx) y hy hy2
    · split at hl
      · cases hl; exact hxs.1 x hx
      · exact hlast l hl x (List.mem_cons_of_mem _ hx)

end Rule

/-- The time-to-live cache of one registry, over any run from a fresh registry in which no call
reaches `_get_registry_proto` with `allow_cache=False` and every load finds a proto in the store.
Each call loads exactly when the rule `ttlLoads` says: when it reaches `_get_registry_proto` and
nothing was loaded before (so no proto is cached), or the time to live is positive and it comes
more than one time to live after the last load; mutating calls do not move the time of the last
load. With a time to live that is not positive at most one load happens, and at nondecreasing
clock times any two loads are more than one time to live apart, so no call within one time to
live after a load loads again. A call that does not load answers from the cache, whatever the
store holds. -/
theorem ttl_cache_loads_once_per_window (ttl : Int) (calls : List (Option RegistryProto × Int × Op))
    (hreach : ∀ c ∈ calls, c.2.2.allowCache c.2.1 ≠ some false)
    (hload : (Registry.init ttl).loadsSucceed calls = true) :
    (Registry.init ttl).runLoads calls =
        ttlLoads ttl none (calls.map fun c => (c.2.1, c.2.2.allowCache c.2.1 == some true)) ∧
      (ttl ≤ 0 → ((Registry.init ttl).runLoads calls).countP (·.2) ≤ 1) ∧
      ((calls.map (·.2.1)).Pairwise (· ≤ ·) →
        ((Registry.init ttl).runLoads calls).Pairwise
          fun a b => a.2 = true → b.2 = true → a.1 + ttl < b.1) ∧
      ∀ (r : Registry) (now : Int) (op : Op), r.callLoads now op = false →
        ∀ store store', r.exec store now op = r.exec store' now op := by
  have hrun := Registry.runLoads_eq_ttlLoads calls hreach
    (show (Registry.init ttl).cacheState = ((none : Option Int).isSome, none, ttl) from rfl) hload
  refine ⟨hrun, fun h => hrun ▸ ttlLoads_countP_le_one ttl h _, fun hsorted => ?_,
    fun r now _ h => Registry.exec_eq_of_callLoads_false r now h⟩
  rw [hrun]
  refine ttlLoads_pairwise ttl none _ ?_ (fun _ h => by cases h)
  rw [List.pairwise_map] at hsorted ⊢
  exact hsorted

/-- With a time to live of 60, calls at 0, 30 and 59 load once, though another writer deletes
the feature service of `p2` before the call at 59, and a call at 61 loads again. -/
theorem ttl_loads_within_window :
    let S' : RegistryProto := { RegistryProto.sample with featureServices := [] }
    let calls : List (Option RegistryProto × Int × Op) :=
      [(some .sample, 0, .listEntities "p1" true),
        (some .sample, 30, .getEntity "driver_id" "p2" true),
        (some S', 59, .applyEntity ⟨"customer_id", "INT64"⟩ "p1" false),
        (some S', 61, .listFeatureServices "p2" true)]
    (∀ c ∈ calls, c.2.2.allowCache c.2.1 ≠ some false) ∧
      (Registry.init 60).loadsSucceed calls = true ∧
      (Registry.init 60).runLoads calls = [(0, true), (30, false), (59, false), (61, true)] := by
  intro S' calls
  have hreach : ∀ c ∈ calls, c.2.2.allowCache c.2.1 ≠ some false := by decide
  have hload : (Registry.init 60).loadsSucceed calls = true := by decide
  exact ⟨hreach, hload, by rw [(ttl_cache_loads_once_per_window 60 calls hreach hload).1]; decide⟩

end Feast
