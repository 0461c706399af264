import FeastRegistry.Calls
import Mathlib.Data.List.Nodup

/-!
# Snapshot well-formedness

A `RegistryProto` is well formed (`RegistryProto.WellFormed`) when no two entries of a collection
share `(spec.name, spec.project)`, `feature_tables` aside since no method changes it, and no name
is used in two of the three feature-view collections. Under it every scan of the registry meets
at most one entry of a key, so both delete loops of the apply methods are `upsert`
(`eraseP_append_eq_upsert`, `enumerateDel_append_eq_upsert`), and the conflict check of
`apply_feature_view` raises exactly when the name is used by another feature-view class
(`checkConflictingFeatureViewNames_iff`).

Every edit keeps the property (`Op.edit_wellFormed`), and so do the prepare step, the reads and
`commit()`, for the cache and for the store (`exec_wellFormed`).
-/

set_option autoImplicit false

namespace Feast

/-- `(spec.name, spec.project)`: what identifies an entry of a collection. -/
def ObjectProto.key (o : ObjectProto) : String × String := (o.spec.name, o.spec.project)

theorem ObjectProto.hasKey_iff_key (o : ObjectProto) (name project : String) :
    o.hasKey name project = true ↔ o.key = (name, project) := by
  simp [hasKey, key]

/-- Append `o` after deleting every entry keyed like it: what an apply method does to a
collection with unique keys. -/
def upsert (xs : List ObjectProto) (o : ObjectProto) : List ObjectProto :=
  xs.filter (fun x => !x.hasKey o.spec.name o.spec.project) ++ [o]

section Keys

variable {xs : List ObjectProto}

theorem atMostOne_hasKey (h : (xs.map ObjectProto.key).Nodup) (name project : String) :
    AtMostOne (·.hasKey name project) xs := by
  refine (List.pairwise_map.1 h).imp fun hne hab => hne ?_
  simp only [ObjectProto.hasKey_iff_key] at hab
  rw [hab.1, hab.2]

theorem eraseP_append_eq_upsert (h : (xs.map ObjectProto.key).Nodup) {o : ObjectProto}
    {name project : String} (hn : o.spec.name = name) (hp : o.spec.project = project) :
    xs.eraseP (·.hasKey name project) ++ [o] = upsert xs o := by
  rw [eraseP_eq_filter_of_atMostOne _ (atMostOne_hasKey h _ _), upsert, hn, hp]

theorem enumerateDel_append_eq_upsert (h : (xs.map ObjectProto.key).Nodup) {o : ObjectProto}
    {name project : String} (hn : o.spec.name = name) (hp : o.spec.project = project) :
    enumerateDel (·.hasKey name project) xs ++ [o] = upsert xs o := by
  rw [enumerateDel_eq_filter_of_atMostOne _ (atMostOne_hasKey h _ _), upsert, hn, hp]

theorem upsert_keys_nodup (h : (xs.map ObjectProto.key).Nodup) (o : ObjectProto) :
    ((upsert xs o).map ObjectProto.key).Nodup := by
  rw [upsert, List.map_append, List.nodup_append]
  refine ⟨(h.sublist ((List.filter_sublist _).map _)), List.nodup_singleton _, ?_⟩
  intro a ha hb
  rw [List.map_singleton, List.mem_singleton] at hb
  subst hb
  obtain ⟨x, hx, hk⟩ := List.mem_map.1 ha
  have hkey := (ObjectProto.hasKey_iff_key x o.spec.name o.spec.project).2 hk
  simp [hkey] at hx

theorem mem_upsert {o x : ObjectProto} (hx : x ∈ upsert xs o) : x ∈ xs ∨ x = o := by
  simp only [upsert, List.mem_append, List.mem_filter, List.mem_singleton] at hx
  exact hx.imp And.left id

theorem find?_upsert (xs : List ObjectProto) (o : ObjectProto) :
    (upsert xs o).find? (·.hasKey o.spec.name o.spec.project) = some o := by
  rw [upsert, List.find?_append, List.find?_eq_none.2]
  · simp [ObjectProto.hasKey]
  · intro x hx; simpa using (List.mem_filter.1 hx).2

end Keys

namespace RegistryProto

/-- The names used in collection `c`. -/
def names (proto : RegistryProto) (c : Collection) : List String :=
  (proto.collection c).map (·.spec.name)

@[simp] theorem names_setCollection (proto : RegistryProto) (c d : Collection)
    (xs : List ObjectProto) :
    (proto.setCollection c xs).names d = if d = c then xs.map (·.spec.name) else proto.names d := by
  unfold names; split <;> simp [*]

/-- Snapshot well-formedness: unique keys within every collection the registry writes, and no
name in two feature-view collections. -/
structure WellFormed (proto : RegistryProto) : Prop where
  keys_nodup : ∀ c, c ≠ .featureTables → ((proto.collection c).map ObjectProto.key).Nodup
  names_disjoint : ∀ k k' : FeatureViewKind, k ≠ k' →
    ∀ n ∈ proto.names k.collection, n ∉ proto.names k'.collection

theorem empty_wellFormed : RegistryProto.empty.WellFormed :=
  ⟨fun c _ => by cases c <;> exact List.nodup_nil,
   fun k _ _ n hn => by cases k <;> simp [names, collection, empty, FeatureViewKind.collection] at hn⟩

/-- `WellFormed` as a check over the five collections the registry writes and the pairs of
feature-view kinds. -/
theorem wellFormed_iff (proto : RegistryProto) : proto.WellFormed ↔
    (∀ c ∈ [Collection.entities, .featureViews, .onDemandFeatureViews, .requestFeatureViews,
        .featureServices], ((proto.collection c).map ObjectProto.key).Nodup) ∧
      ∀ k ∈ [FeatureViewKind.featureView, .onDemandFeatureView, .requestFeatureView],
        ∀ k' ∈ [FeatureViewKind.featureView, .onDemandFeatureView, .requestFeatureView], k ≠ k' →
          ∀ n ∈ proto.names k.collection, n ∉ proto.names k'.collection := by
  have hk : ∀ k : FeatureViewKind, k ∈ [.featureView, .onDemandFeatureView, .requestFeatureView] :=
    fun k => by cases k <;> decide
  refine ⟨fun h => ⟨fun c hc => h.keys_nodup c ?_, fun k _ k' _ => h.names_disjoint k k'⟩,
    fun ⟨hc, hn⟩ => ⟨fun c hne => hc c ?_, fun k k' => hn k (hk k) k' (hk k')⟩⟩
  · rintro rfl; exact absurd hc (by decide)
  · cases c
    case featureTables => exact absurd rfl hne
    all_goals decide

/-- Well-formedness is decided on a concrete snapshot. -/
instance (proto : RegistryProto) : Decidable proto.WellFormed :=
  decidable_of_iff _ (wellFormed_iff proto).symm

/-- A snapshot of two projects: an entity `driver_id` in each, a feature view `driver_stats` of
`p1` with one materialization interval, and an on-demand feature view and a feature service of
`p2`. Runs from it show each call next to entries it has to leave alone. -/
def sample : RegistryProto where
  registrySchemaVersion := Feast.registrySchemaVersion
  entities := [⟨⟨"driver_id", "p1", "INT64"⟩, {}⟩, ⟨⟨"driver_id", "p2", "STRING"⟩, {}⟩]
  featureViews := [⟨⟨"driver_stats", "p1", "ttl=1d"⟩, ⟨some 0, [(0, 10)]⟩⟩]
  onDemandFeatureViews := [⟨⟨"trip_score", "p2", "udf"⟩, {}⟩]
  featureServices := [⟨⟨"driver_service", "p2", "driver_stats"⟩, {}⟩]

theorem sample_wellFormed : sample.WellFormed := by decide

variable {proto : RegistryProto}

/-- Replacing one collection keeps well-formedness if the new list has unique keys and, for a
feature-view collection, no name of another feature-view collection. -/
theorem WellFormed.setCollection (h : proto.WellFormed) {c : Collection} {xs : List ObjectProto}
    (hkeys : (xs.map ObjectProto.key).Nodup)
    (hnames : ∀ k k' : FeatureViewKind, k.collection = c → k ≠ k' →
      ∀ o ∈ xs, o.spec.name ∉ proto.names k'.collection) :
    (proto.setCollection c xs).WellFormed := by
  refine ⟨fun d hd => ?_, fun k k' hkk' n hn => ?_⟩
  · rw [collection_setCollection]; split
    · exact hkeys
    · exact h.keys_nodup d hd
  · rw [names_setCollection] at hn ⊢
    have hne : k.collection ≠ k'.collection := fun e => hkk' (FeatureViewKind.collection_inj e)
    split at hn
    · obtain ⟨o, ho, rfl⟩ := List.mem_map.1 hn
      rw [if_neg (by rintro rfl; exact hne (by assumption))]
      exact hnames k k' (by assumption) hkk' o ho
    · split
      · rintro hn'
        obtain ⟨o, ho, rfl⟩ := List.mem_map.1 hn'
        exact hnames k' k (by assumption) (Ne.symm hkk') o ho hn
      · exact h.names_disjoint k k' hkk' n hn

/-- The new list reuses names of `c` only. -/
theorem WellFormed.setCollection_of_names (h : proto.WellFormed) {c : Collection}
    {xs : List ObjectProto} (hkeys : (xs.map ObjectProto.key).Nodup)
    (hsub : ∀ o ∈ xs, o.spec.name ∈ proto.names c) : (proto.setCollection c xs).WellFormed :=
  h.setCollection hkeys fun k k' hk hkk' o ho => by
    subst hk; exact h.names_disjoint k k' hkk' _ (hsub o ho)

theorem WellFormed.eraseP (h : proto.WellFormed) {c : Collection} (hc : c ≠ .featureTables)
    (q : ObjectProto → Bool) : (proto.setCollection c ((proto.collection c).eraseP q)).WellFormed :=
  h.setCollection_of_names ((h.keys_nodup c hc).sublist ((List.eraseP_sublist _).map _))
    fun _ ho => List.mem_map_of_mem _ (List.mem_of_mem_eraseP ho)

/-! ## The conflict check -/

theorem dictGet_existingFeatureViewNamesToFvs (proto : RegistryProto) (n : String) :
    dictGet proto.existingFeatureViewNamesToFvs n =
      if n ∈ proto.names .requestFeatureViews then some .requestFeatureView
      else if n ∈ proto.names .featureViews then some .featureView
      else if n ∈ proto.names .onDemandFeatureViews then some .onDemandFeatureView else none := by
  rw [existingFeatureViewNamesToFvs, dictGet_append, dictGet_append, dictGet_map, dictGet_map,
    dictGet_map]
  simp only [names, collection]
  split_ifs <;> rfl

theorem mem_names_of_dictGet {n : String} {k : FeatureViewKind}
    (h : dictGet proto.existingFeatureViewNamesToFvs n = some k) : n ∈ proto.names k.collection := by
  rw [dictGet_existingFeatureViewNamesToFvs] at h
  split_ifs at h <;> cases h <;> assumption

/-- In a well-formed proto the name map gives each name the class of its one collection. -/
theorem WellFormed.dictGet_of_mem (h : proto.WellFormed) {k : FeatureViewKind} {n : String}
    (hn : n ∈ proto.names k.collection) :
    dictGet proto.existingFeatureViewNamesToFvs n = some k := by
  have hd := fun k' (hk : k ≠ k') => h.names_disjoint k k' hk n hn
  rw [dictGet_existingFeatureViewNamesToFvs]
  cases k
  · simp only [FeatureViewKind.collection] at hn hd
    simp [hn, hd .requestFeatureView (by decide)]
  · simp only [FeatureViewKind.collection] at hn hd
    simp [hn, hd .requestFeatureView (by decide), hd .featureView (by decide)]
  · simp only [FeatureViewKind.collection] at hn
    simp [hn]

/-- The conflict check raises exactly when the view's name is used in a feature-view collection
of another proto class. -/
theorem WellFormed.checkConflictingFeatureViewNames_iff (h : proto.WellFormed)
    (fv : FeatureView) :
    proto.checkConflictingFeatureViewNames fv = true ↔
      ∃ k, fv.cls ≠ some k ∧ fv.name ∈ proto.names k.collection := by
  unfold checkConflictingFeatureViewNames
  constructor
  · split
    · next k hk => exact fun hne => ⟨k, by simpa using hne, mem_names_of_dictGet hk⟩
    · exact fun h => absurd h (by decide)
  · rintro ⟨k, hne, hn⟩
    rw [h.dictGet_of_mem hn]
    simpa using hne

/-! ## Each edit keeps well-formedness -/

variable {proto' : RegistryProto}

theorem WellFormed.applyEntity (h : proto.WellFormed) {o : ObjectProto} {project : String}
    (hp : o.spec.project = project) : (proto.applyEntity o project).WellFormed := by
  have hk : (proto.entities.map ObjectProto.key).Nodup := h.keys_nodup .entities (by decide)
  rw [RegistryProto.applyEntity, eraseP_append_eq_upsert hk rfl hp]
  exact h.setCollection (upsert_keys_nodup hk o) fun k _ hc => absurd hc (by cases k <;> decide)

theorem WellFormed.applyFeatureService (h : proto.WellFormed) {o : ObjectProto} {project : String}
    (hp : o.spec.project = project) : (proto.applyFeatureService o project).WellFormed := by
  have hk : (proto.featureServices.map ObjectProto.key).Nodup :=
    h.keys_nodup .featureServices (by decide)
  rw [RegistryProto.applyFeatureService, enumerateDel_append_eq_upsert hk rfl hp]
  exact h.setCollection (upsert_keys_nodup hk o) fun k _ hc => absurd hc (by cases k <;> decide)

theorem WellFormed.applyFeatureView (h : proto.WellFormed) {fv : FeatureView} {o : ObjectProto}
    {project : String} (hn : o.spec.name = fv.name) (hp : o.spec.project = project)
    (he : proto.applyFeatureView fv o project = .changed proto') : proto'.WellFormed := by
  dsimp only [RegistryProto.applyFeatureView] at he
  split at he
  · cases he
  · next hc =>
    split at he
    · cases he
    · next k hk =>
      split at he
      · cases he
      · cases he
        have hkeys := h.keys_nodup k.collection k.collection_ne_featureTables
        rw [eraseP_append_eq_upsert hkeys rfl hp]
        refine h.setCollection (upsert_keys_nodup hkeys o) fun k₀ k' hk₀ hne x hx => ?_
        obtain rfl := FeatureViewKind.collection_inj hk₀
        rcases mem_upsert hx with hx | rfl
        · exact h.names_disjoint k₀ k' hne _ (List.mem_map_of_mem _ hx)
        · rw [hn]
          exact fun hmem => hc ((h.checkConflictingFeatureViewNames_iff fv).2
            ⟨k', by rw [hk]; simpa using hne, hmem⟩)

theorem WellFormed.applyMaterialization (h : proto.WellFormed) {fv : FeatureView}
    {project : String} {startDate endDate : Int}
    (he : proto.applyMaterialization fv project startDate endDate = .changed proto') :
    proto'.WellFormed := by
  dsimp only [RegistryProto.applyMaterialization] at he
  split at he
  · next existing hfind =>
    cases he
    have hkey := List.find?_some hfind
    rw [ObjectProto.hasKey_iff] at hkey
    have hmem := List.mem_of_find?_eq_some hfind
    have hkeys : (proto.featureViews.map ObjectProto.key).Nodup :=
      h.keys_nodup .featureViews (by decide)
    rw [eraseP_append_eq_upsert hkeys ?_ ?_]
    rotate_left; exact hkey.1; rfl
    refine h.setCollection_of_names (upsert_keys_nodup hkeys _) fun x hx => ?_
    rcases mem_upsert hx with hx | rfl
    · exact List.mem_map_of_mem _ hx
    · exact List.mem_map_of_mem (·.spec.name) hmem
  · cases he

theorem WellFormed.deleteIn (h : proto.WellFormed) {c : Collection} (hc : c ≠ .featureTables)
    {name project : String} {notFound : RegistryError}
    (he : proto.deleteIn c name project notFound = .changed proto') : proto'.WellFormed := by
  unfold RegistryProto.deleteIn at he
  split at he
  · cases he; exact h.eraseP hc _
  · cases he

theorem WellFormed.deleteFeatureView (h : proto.WellFormed) {name project : String}
    (he : proto.deleteFeatureView name project = .changed proto') : proto'.WellFormed := by
  unfold RegistryProto.deleteFeatureView at he
  split at he <;> exact h.deleteIn (by decide) he

theorem collection_updateInfra (proto : RegistryProto) (infra : Infra) :
    (proto.updateInfra infra).collection = proto.collection := by
  funext c; cases c <;> rfl

theorem WellFormed.updateInfra (h : proto.WellFormed) (infra : Infra) :
    (proto.updateInfra infra).WellFormed := by
  have hc := collection_updateInfra proto infra
  exact ⟨by simpa [hc] using h.keys_nodup, by simpa [names, hc] using h.names_disjoint⟩

end RegistryProto

/-! ## Calls keep the cache and the store well formed -/

open RegistryProto

/-- The edit of every mutating call keeps well-formedness. -/
theorem Op.edit_wellFormed {op : Op} {now : Int} {pre : Option RegistryError}
    {edit : RegistryProto → Edit} {c : Bool} (hm : op.mutation now = some (pre, edit, c))
    {proto proto' : RegistryProto} (h : proto.WellFormed) (he : edit proto = .changed proto') :
    proto'.WellFormed := by
  cases op <;> simp only [Op.mutation, Option.some.injEq, Prod.mk.injEq, reduceCtorEq] at hm <;>
    obtain ⟨rfl, rfl, rfl⟩ := hm
  case applyEntity => cases he; exact h.applyEntity rfl
  case applyFeatureService => cases he; exact h.applyFeatureService rfl
  case applyFeatureView => exact h.applyFeatureView rfl rfl he
  case applyMaterialization => exact h.applyMaterialization he
  case deleteEntity | deleteFeatureService => exact h.deleteIn (by decide) he
  case deleteFeatureView => exact h.deleteFeatureView he
  case updateInfra => cases he; exact h.updateInfra _

@[simp] theorem Outcome.map_store {α β : Type} (f : α → β) (o : Outcome α)
    (store : Option RegistryProto) : (o.map f).store store = o.store store := rfl

namespace Registry

variable (r : Registry) (store : Option RegistryProto) (now : Int)

/-- A registry's cache and its store are well formed. -/
def CacheWellFormed : Prop := ∀ proto ∈ r.cachedRegistryProto, proto.WellFormed

variable {r store}

theorem getRegistryProto_wellFormed (hr : r.CacheWellFormed)
    (hs : ∀ proto ∈ store, proto.WellFormed) (allowCache : Bool) :
    (r.getRegistryProto store now allowCache).2.CacheWellFormed := by
  rcases getRegistryProto_cases r store now allowCache with
    ⟨c, -, -, -, h⟩ | ⟨p, -, hsp, h⟩ | ⟨-, -, h⟩ <;> rw [h]
  · exact hr
  · rintro _ ⟨⟩; exact hs p hsp
  · exact hr

theorem prepareRegistryForChanges_wellFormed (hr : r.CacheWellFormed)
    (hs : ∀ proto ∈ store, proto.WellFormed) :
    (r.prepareRegistryForChanges store now).1.WellFormed := by
  rcases prepareRegistryForChanges_cases r store now with
    ⟨c, -, hc, h⟩ | ⟨p, -, hsp, h⟩ | ⟨-, -, h⟩ <;> rw [h]
  · exact hr c hc
  · exact hs p hsp
  · exact empty_wellFormed

theorem mutate_wellFormed (hr : r.CacheWellFormed) (hs : ∀ proto ∈ store, proto.WellFormed)
    {pre : Option RegistryError} {edit : RegistryProto → Edit} {c : Bool}
    (hedit : ∀ proto proto', proto.WellFormed → edit proto = .changed proto' → proto'.WellFormed) :
    (r.mutate store now pre edit c).registry.CacheWellFormed ∧
      ∀ proto ∈ (r.mutate store now pre edit c).store store, proto.WellFormed := by
  have hp := prepareRegistryForChanges_wellFormed now hr hs
  have hp2 : (r.prepareRegistryForChanges store now).2.CacheWellFormed := by
    intro proto hproto
    rw [prepareRegistryForChanges_cached, Option.mem_def, Option.some.injEq] at hproto
    exact hproto ▸ hp
  rcases mutate_cases r store now pre edit c with
    ⟨e, -, h⟩ | ⟨-, e, -, h⟩ | ⟨-, -, h⟩ | ⟨-, proto, he, h⟩ <;> rw [h]
  · exact ⟨hr, hs⟩
  · exact ⟨hp2, hs⟩
  · exact ⟨hp2, hs⟩
  · have hw := hedit _ _ hp he
    refine ⟨fun p hp => ?_, fun p hp => ?_⟩
    · cases hp; exact hw
    · cases c
      · exact hs p hp
      · cases hp; exact hw

theorem read_wellFormed {α : Type} (hr : r.CacheWellFormed)
    (hs : ∀ proto ∈ store, proto.WellFormed) (allowCache : Bool)
    (f : RegistryProto → Except RegistryError α) :
    (r.read store now allowCache f).registry.CacheWellFormed ∧
      ∀ proto ∈ (r.read store now allowCache f).store store, proto.WellFormed := by
  rcases read_cases r store now allowCache f with ⟨p, r', hg, h⟩ | ⟨e, r', hg, h⟩ <;> rw [h] <;>
    refine ⟨?_, hs⟩ <;>
    simpa [hg] using getRegistryProto_wellFormed now hr hs allowCache

/-- Every call keeps a well-formed cache and store well formed. -/
theorem exec_wellFormed (hr : r.CacheWellFormed) (hs : ∀ proto ∈ store, proto.WellFormed)
    (op : Op) :
    (r.exec store now op).registry.CacheWellFormed ∧
      ∀ proto ∈ (r.exec store now op).store store, proto.WellFormed := by
  cases hm : op.mutation now with
  | some m =>
    obtain ⟨pre, edit, c⟩ := m
    rw [exec_of_mutation r store now hm, Outcome.map_registry, Outcome.map_store]
    exact mutate_wellFormed now hr hs fun _ _ => Op.edit_wellFormed hm
  | none =>
    cases op <;> simp only [Op.mutation, reduceCtorEq] at hm
    case commit =>
      refine ⟨hr, fun p hp => ?_⟩
      cases hc : r.cachedRegistryProto with
      | none => simp only [exec, Outcome.store, commit, hc, Option.map_none'] at hp; exact hs p hp
      | some c =>
        simp only [exec, Outcome.store, commit, hc, Option.map_some', StoreWrite.apply] at hp
        cases hp; exact hr _ hc
    case teardown => exact ⟨hr, by simp [exec, teardown, Outcome.map, Outcome.store, StoreWrite.apply]⟩
    all_goals
      simp only [exec, Outcome.map_registry, Outcome.map_store, getInfra, listEntities,
        listFeatureServices, listFeatureViews, listOnDemandFeatureViews, listRequestFeatureViews,
        getEntity, getFeatureService, getFeatureView, getOnDemandFeatureView, refresh]
      exact read_wellFormed now hr hs _ _

end Registry

end Feast
