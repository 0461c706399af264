import FeastRegistry.Cache
import FeastRegistry.Isolation

/-!
# Materialization history

The materialization history of a feature view is `meta.materialization_intervals` of the entry
stored under its `(name, project)` (`RegistryProto.entry`). `apply_materialization` is the one
call that writes it: it reads the stored entry back through `FeatureView.from_proto`, appends the
interval, and puts the view's `to_proto`, stamped with the project, at the end of
`feature_views`.

## What this module delivers

- `Op.entry_applyTo`: on a well-formed snapshot, every call other than `apply_feature_view` of
  the key and `delete_feature_view` of the key (`Op.rewritesFeatureView`) leaves under the key the
  old entry with intervals appended (`ObjectProto.withIntervals`); `entry_foldl_applyTo` lifts
  this to a batch of such calls on one snapshot.
- `WellFormed.entry_applyFeatureView`: `apply_feature_view` of the key keeps the stored entry when the view
  is equal to it, and otherwise stores the incoming proto, which carries the intervals of the
  object passed, not the recorded ones. `Registry.exec_cache_of_load`: a call that loads the
  store leaves in the cache its own result on the stored snapshot, so a reload drops the
  intervals recorded with `commit=False`. `materialization_history_append_only` assembles the three;
  `reapplied_view_drops_intervals` runs a changed view applied after a materialization, and a
  reload after an uncommitted materialization.
- `materializations_append_requested`: a batch of `m` materializations of one view appends
  exactly the `m` requested intervals, in call order, keeps every other field and every other
  entry of `feature_views`, and for `m ≥ 1` leaves the entry last.
-/

set_option autoImplicit false

namespace Feast

namespace ObjectProto

/-- The entry with `intervals` appended to its materialization intervals. -/
def withIntervals (o : ObjectProto) (intervals : List (Int × Int)) : ObjectProto :=
  { o with meta := { o.meta with
      materializationIntervals := o.meta.materializationIntervals ++ intervals } }

@[simp] theorem withIntervals_nil (o : ObjectProto) : o.withIntervals [] = o := by
  simp [withIntervals]

@[simp] theorem withIntervals_withIntervals (o : ObjectProto) (L L' : List (Int × Int)) :
    (o.withIntervals L).withIntervals L' = o.withIntervals (L ++ L') := by
  simp [withIntervals]

@[simp] theorem withIntervals_spec (o : ObjectProto) (L : List (Int × Int)) :
    (o.withIntervals L).spec = o.spec := rfl

theorem hasKey_withIntervals (o : ObjectProto) (L : List (Int × Int)) (name project : String) :
    (o.withIntervals L).hasKey name project = o.hasKey name project := rfl

end ObjectProto

/-- The calls that can replace or remove the feature view stored under `(name, project)`:
`apply_feature_view` of a view named `name` in `project`, and `delete_feature_view`. -/
def Op.rewritesFeatureView (name project : String) : Op → Bool
  | .applyFeatureView fv p _ => fv.name == name && p == project
  | .deleteFeatureView n p _ => n == name && p == project
  | _ => false

/-- The interval an `apply_materialization` call requests. -/
def Op.materializationInterval : Op → Option (Int × Int)
  | .applyMaterialization _ _ startDate endDate _ => some (startDate, endDate)
  | _ => none

namespace RegistryProto

/-- The entry stored under `(name, project)` in collection `c`: the first entry of the key, the
one every scan of the registry finds. -/
def entry (proto : RegistryProto) (c : Collection) (name project : String) : Option ObjectProto :=
  (proto.collection c).find? (·.hasKey name project)

variable {name project : String}

theorem hasKey_of_entry {P : RegistryProto} {c : Collection} {x : ObjectProto}
    (hx : P.entry c name project = some x) : x.hasKey name project = true := by
  rw [entry] at hx
  have hk := List.find?_some hx
  exact hk

theorem mem_of_entry {P : RegistryProto} {c : Collection} {x : ObjectProto}
    (hx : P.entry c name project = some x) : x ∈ P.collection c :=
  List.mem_of_find?_eq_some hx

theorem find?_filter_not_append (xs : List ObjectProto) (y : ObjectProto) :
    (xs.filter (!·.hasKey name project) ++ [y]).find? (·.hasKey name project) =
      if y.hasKey name project then some y else none := by
  rw [List.find?_append, List.find?_eq_none.2 (fun x hx => by simpa using (List.mem_filter.1 hx).2)]
  cases hy : y.hasKey name project <;> simp [hy]

/-- A frame of another key leaves the entry of the key in place. -/
theorem Frame.entry_eq_of_ne {before after : RegistryProto} {cs : List Collection}
    {name' project' : String} (hf : Frame before after cs name' project')
    (hne : (name', project') ≠ (name, project)) (c : Collection) :
    after.entry c name project = before.entry c name project := by
  have key : ∀ xs : List ObjectProto, xs.find? (·.hasKey name project) =
      (xs.filter (!·.hasKey name' project')).find? (·.hasKey name project) := fun xs => by
    rw [List.find?_filter]
    congr 1; funext x
    cases hx : x.hasKey name project
    · simp
    · rw [ObjectProto.hasKey_iff] at hx
      have : x.hasKey name' project' = false := by
        rw [Bool.eq_false_iff, ne_eq, ObjectProto.hasKey_iff, hx.1, hx.2]
        exact fun h' => hne (by rw [← h'.1, ← h'.2])
      simp [this]
  rw [entry, entry, key, hf.others, ← key]

theorem Frame.entry_eq_of_not_mem {before after : RegistryProto} {cs : List Collection}
    {name' project' : String} (hf : Frame before after cs name' project') {c : Collection}
    (hc : c ∉ cs) : after.entry c name project = before.entry c name project := by
  rw [entry, entry, hf.untouched c hc]

/-- An edit that keeps the entry whenever it does not raise keeps it. -/
theorem entry_result {e : Edit} {P : RegistryProto} {c : Collection}
    (hf : (∀ err, e ≠ .raise err) → (e.result P).entry c name project = P.entry c name project) :
    (e.result P).entry c name project = P.entry c name project := by
  by_cases hr : ∃ err, e = .raise err
  · obtain ⟨err, rfl⟩ := hr
    rfl
  · exact hf fun err he => hr ⟨err, he⟩

/-- `apply_materialization` of a stored view replaces its entry by the entry with the interval
appended, at the end of `feature_views`. -/
theorem WellFormed.applyMaterialization_result {P : RegistryProto} (h : P.WellFormed)
    {fv : FeatureView} {x : ObjectProto} (hx : P.entry .featureViews fv.name project = some x)
    (startDate endDate : Int) :
    (P.applyMaterialization fv project startDate endDate).result P =
      P.setCollection .featureViews
        (P.featureViews.filter (!·.hasKey fv.name project) ++ [x.withIntervals [(startDate, endDate)]]) := by
  cases he : P.applyMaterialization fv project startDate endDate with
  | changed A =>
    obtain ⟨x', ⟨ys, ym⟩, hx', hys, hym, rfl⟩ := applyMaterialization_eq_changed he
    have hxx : x = x' := Option.some.inj (hx.symm.trans hx')
    subst hxx hys hym
    have hkeys : (P.featureViews.map ObjectProto.key).Nodup := h.keys_nodup .featureViews (by decide)
    rw [Edit.result, eraseP_eq_filter_of_atMostOne _ (atMostOne_hasKey hkeys _ _)]
    rfl
  | _ =>
    rcases applyMaterialization_cases P fv project startDate endDate with ⟨hn, -⟩ | ⟨_, -, h'⟩
    · rw [entry, collection_featureViews, hn] at hx; cases hx
    · rw [h'] at he; cases he

theorem WellFormed.entry_applyMaterialization {P : RegistryProto} (h : P.WellFormed)
    {fv : FeatureView} {x : ObjectProto} (hx : P.entry .featureViews fv.name project = some x)
    (startDate endDate : Int) :
    ((P.applyMaterialization fv project startDate endDate).result P).entry .featureViews fv.name
      project = some (x.withIntervals [(startDate, endDate)]) := by
  rw [h.applyMaterialization_result hx, entry, collection_setCollection, if_pos rfl,
    find?_filter_not_append, ObjectProto.hasKey_withIntervals, if_pos (hasKey_of_entry hx)]

/-- What `apply_feature_view` of the key leaves under it: the stored entry, when the view is
equal to it or the call raises, or else the incoming proto. -/
theorem WellFormed.entry_applyFeatureView {P : RegistryProto} (h : P.WellFormed)
    {k : FeatureViewKind} {x : ObjectProto} (hx : P.entry k.collection name project = some x)
    {fv : FeatureView} (hn : fv.name = name) :
    ((P.applyFeatureView fv (fv.toProto.withProject project) project).result P).entry
        k.collection name project = some x ∨
      ((P.applyFeatureView fv (fv.toProto.withProject project) project).result P).entry
        k.collection name project = some (fv.toProto.withProject project) := by
  subst hn
  rcases applyFeatureView_cases P fv (fv.toProto.withProject project) project with
    ⟨-, he⟩ | ⟨-, -, he⟩ | ⟨-, -, -, -, -, -, he⟩ | ⟨k', hc, hk', -, he⟩ <;> rw [he]
  iterate 3 exact .inl hx
  by_cases hkk : k' = k
  · subst hkk
    right
    rw [Edit.result, entry, collection_setCollection, if_pos rfl,
      eraseP_append_eq_upsert (h.keys_nodup _ k'.collection_ne_featureTables) ?_ ?_]
    · exact find?_upsert (P.collection k'.collection) (fv.toProto.withProject project)
    all_goals rfl
  · have hmem : fv.toProto.spec.name ∈ P.names k.collection :=
      List.mem_map.2 ⟨x, mem_of_entry hx, ((ObjectProto.hasKey_iff _ _ _).1 (hasKey_of_entry hx)).1⟩
    exact absurd ((h.checkConflictingFeatureViewNames_iff fv).2 ⟨k, by simpa [hk'] using hkk, hmem⟩)
      (by simp [hc])

end RegistryProto

open RegistryProto

/-- The edit of a call that does not rewrite the key leaves under it the old entry with
intervals appended. -/
theorem Op.edit_entry {op : Op} {name project : String}
    (hop : op.rewritesFeatureView name project = false) {now : Int} {pre : Option RegistryError}
    {edit : RegistryProto → Edit} {c : Bool} (hm : op.mutation now = some (pre, edit, c))
    {P : RegistryProto} (h : P.WellFormed) {k : FeatureViewKind} {x : ObjectProto}
    (hx : P.entry k.collection name project = some x) :
    ∃ L, ((edit P).result P).entry k.collection name project = some (x.withIntervals L) := by
  suffices hkeep : ((edit P).result P).entry k.collection name project = P.entry k.collection name
      project ∨ ∃ L, ((edit P).result P).entry k.collection name project = some (x.withIntervals L) by
    rcases hkeep with hkeep | hkeep
    · exact ⟨[], by rw [hkeep, hx, ObjectProto.withIntervals_nil]⟩
    · exact hkeep
  cases op <;> simp only [Op.mutation, Option.some.injEq, Prod.mk.injEq, reduceCtorEq] at hm <;>
    obtain ⟨-, rfl, -⟩ := hm <;> simp only [Op.rewritesFeatureView, Bool.and_eq_false_iff,
      beq_eq_false_iff_ne] at hop
  case applyEntity =>
    exact .inl ((frame_applyEntity h rfl).1.entry_eq_of_not_mem (by cases k <;> decide))
  case applyFeatureService =>
    exact .inl ((frame_applyFeatureService h rfl).1.entry_eq_of_not_mem (by cases k <;> decide))
  case applyFeatureView fv p _ =>
    refine .inl (entry_result fun hne => ?_)
    obtain ⟨k', -, hf, -⟩ := frame_applyFeatureView h rfl rfl hne
    exact hf.entry_eq_of_ne (by simpa [Prod.ext_iff, or_iff_not_imp_left] using hop) _
  case applyMaterialization fv p startDate endDate _ =>
    by_cases hkey : (fv.name, p) = (name, project) ∧ k = .featureView
    · obtain ⟨hkey, rfl⟩ := hkey
      simp only [Prod.mk.injEq] at hkey
      obtain ⟨rfl, rfl⟩ := hkey
      exact .inr ⟨_, h.entry_applyMaterialization hx startDate endDate⟩
    · refine .inl (entry_result fun hne => ?_)
      obtain ⟨-, -, -, hf, -⟩ := frame_applyMaterialization h hne
      by_cases hk : k = .featureView
      · exact hf.entry_eq_of_ne (fun he => hkey ⟨he, hk⟩) _
      · exact hf.entry_eq_of_not_mem (by cases k <;> simp_all [FeatureViewKind.collection])
  case deleteEntity | deleteFeatureService =>
    exact .inl (entry_result fun hne =>
      (frame_deleteIn h (by decide) hne).1.entry_eq_of_not_mem (by cases k <;> decide))
  case deleteFeatureView n p _ =>
    exact .inl (entry_result fun hne => (frame_deleteFeatureView h hne).1.entry_eq_of_ne
      (by simpa [Prod.ext_iff, or_iff_not_imp_left] using hop) _)
  case updateInfra => exact .inl (by rw [Edit.result, entry, entry, collection_updateInfra])

/-- A call that does not rewrite the key leaves under it the old entry with intervals
appended. -/
theorem Op.entry_applyTo {op : Op} {name project : String}
    (hop : op.rewritesFeatureView name project = false) {P : RegistryProto} (h : P.WellFormed)
    {k : FeatureViewKind} {x : ObjectProto} (hx : P.entry k.collection name project = some x)
    (now : Int) :
    ∃ L, (op.applyTo now P).entry k.collection name project = some (x.withIntervals L) := by
  rcases hm : op.mutation now with _ | ⟨pre, edit, c⟩
  · exact ⟨[], by rw [Op.applyTo_of_mutation_eq_none hm, hx, ObjectProto.withIntervals_nil]⟩
  · rw [Op.applyTo_of_mutation hm]
    cases pre
    · exact Op.edit_entry hop hm h hx
    · exact ⟨[], by rw [Option.elim, hx, ObjectProto.withIntervals_nil]⟩

/-- A batch of calls on one snapshot, none of which rewrites the key, leaves under it the old
entry with intervals appended. -/
theorem entry_foldl_applyTo {name project : String} {k : FeatureViewKind} (es : List (Event Unit))
    (hes : ∀ e ∈ es, e.op.rewritesFeatureView name project = false) :
    ∀ {P : RegistryProto} {x : ObjectProto}, P.WellFormed →
      P.entry k.collection name project = some x →
      ∃ L, (es.foldl (fun P e => e.op.applyTo e.now P) P).entry k.collection name project =
        some (x.withIntervals L) := by
  induction es with
  | nil => exact fun _ hx => ⟨[], by rw [List.foldl_nil, hx, ObjectProto.withIntervals_nil]⟩
  | cons e es ih =>
    intro P x h hx
    obtain ⟨L, hL⟩ := Op.entry_applyTo (hes e (List.mem_cons_self _ _)) h hx e.now
    obtain ⟨L', hL'⟩ := ih (fun e he => hes e (List.mem_cons_of_mem _ he)) (h.applyTo _ _) hL
    exact ⟨L ++ L', by rw [List.foldl_cons, hL', ObjectProto.withIntervals_withIntervals]⟩

/-! ## A reload -/

namespace Registry

variable {r : Registry} {now : Int}

/-- A call that loads the store leaves in the cache its own result on the stored snapshot:
whatever the cache held before, uncommitted changes included, is dropped. -/
theorem exec_cache_of_load {op : Op} {a : Bool} (ha : op.allowCache now = some a)
    (hl : r.loadsStore now a = true) (S : RegistryProto) :
    (r.exec (some S) now op).registry.cachedRegistryProto = some (op.applyTo now S) := by
  rcases hm : op.mutation now with _ | ⟨pre, edit, c⟩
  · have hr : ∀ {α : Type} (f : RegistryProto → Except RegistryError α),
        (r.read (some S) now a f).registry.cachedRegistryProto = some S := fun f => by
      rw [(read_registry r _ now a f).1]
      exact getRegistryProto_cached_of_loadsStore r now hl S
    rw [Op.applyTo_of_mutation_eq_none hm]
    cases op <;> simp only [Op.mutation, reduceCtorEq] at hm <;>
      simp only [Op.allowCache, Op.mutation, Option.some.injEq, reduceCtorEq] at ha
    all_goals subst ha; first | exact hr _ | exact hr fun _ => .ok ()
  · cases pre with
    | some e => simp [Op.allowCache, hm] at ha
    | none =>
      obtain rfl : a = true := by simpa [Op.allowCache, hm] using ha.symm
      exact exec_cache_of_expired (expired_of_loadsStore r now hl) S hm

end Registry

/-- Materialization history on one snapshot, held by one instance whose cache stays fresh so
that each call applies to the snapshot the previous one left. Take a well-formed snapshot and the
entry `x` stored under `(name, project)` in a feature-view collection.
- After any batch of calls none of which is `apply_feature_view` of a view named `name` in
  `project` or `delete_feature_view(name, project)`, the entry stored under the key is `x` with
  intervals appended, so its intervals have those of `x` as a prefix.
- After `apply_feature_view` of a view named `name` in `project`, the entry is `x`, or the
  proto of the (stamped) view passed, with the intervals of that object.
- A call that loads the store leaves in the cache its own result on the stored snapshot, so a
  reload drops the intervals the cache recorded with `commit=False`. -/
theorem materialization_history_append_only {P : RegistryProto} (h : P.WellFormed)
    {k : FeatureViewKind} {name project : String} {x : ObjectProto}
    (hx : P.entry k.collection name project = some x) :
    (∀ es : List (Event Unit), (∀ e ∈ es, e.op.rewritesFeatureView name project = false) →
      ∃ L, (es.foldl (fun P e => e.op.applyTo e.now P) P).entry k.collection name project =
        some (x.withIntervals L)) ∧
    (∀ (fv : FeatureView) (commit : Bool) (now : Int), fv.name = name →
      ((Op.applyFeatureView fv project commit).applyTo now P).entry k.collection name project =
          some x ∨
        ((Op.applyFeatureView fv project commit).applyTo now P).entry k.collection name project =
          some ((Registry.stampCreated fv now).toProto.withProject project)) ∧
    (∀ (r : Registry) (S : RegistryProto) (now : Int) (op : Op) (a : Bool),
      op.allowCache now = some a → r.loadsStore now a = true →
      (r.exec (some S) now op).registry.cachedRegistryProto = some (op.applyTo now S)) := by
  refine ⟨fun es hes => entry_foldl_applyTo es hes h hx, fun fv commit now hn => ?_,
    fun r S now op a ha hl => Registry.exec_cache_of_load ha hl S⟩
  have hm : (Op.applyFeatureView fv project commit).mutation now =
      some (if fv.ensureValid then none else some .validationError,
        fun proto => proto.applyFeatureView (Registry.stampCreated fv now)
          ((Registry.stampCreated fv now).toProto.withProject project) project, commit) := rfl
  rw [Op.applyTo_of_mutation hm]
  cases fv.ensureValid
  · exact .inl hx
  · exact h.entry_applyFeatureView hx (by simpa using hn)

/-- On the two-project snapshot, the history `[(0, 10)]` of `driver_stats` in `p1` is kept by an
`apply_entity` of the same name and project and a delete in `p2`. An instance whose cache
recorded the interval `(10, 20)` without committing drops it on `refresh()`. -/
theorem history_kept_by_apply_entity :
    let x : ObjectProto := ⟨⟨"driver_stats", "p1", "ttl=1d"⟩, ⟨some 0, [(0, 10)]⟩⟩
    let r : Registry :=
      ⟨some { RegistryProto.sample with featureViews := [x.withIntervals [(10, 20)]] }, some 0, 600⟩
    (∃ L, ([(⟨(), 1, .applyEntity ⟨"driver_stats", "INT64"⟩ "p1" true⟩ : Event Unit),
          ⟨(), 2, .deleteEntity "driver_id" "p2" true⟩].foldl
          (fun P e => e.op.applyTo e.now P) RegistryProto.sample).entry
          FeatureViewKind.featureView.collection "driver_stats" "p1" = some (x.withIntervals L)) ∧
      (r.exec (some .sample) 5 .refresh).registry.cachedRegistryProto =
        some (Op.refresh.applyTo 5 .sample) := by
  intro x r
  have h := materialization_history_append_only RegistryProto.sample_wellFormed
    (show RegistryProto.sample.entry FeatureViewKind.featureView.collection "driver_stats" "p1" =
      some x from rfl)
  exact ⟨h.1 _ fun e he => by
    simp only [List.mem_cons, List.mem_singleton, List.not_mem_nil, or_false] at he
    rcases he with rfl | rfl <;> rfl, h.2.2 r _ 5 .refresh false rfl rfl⟩

/-- Two runs from a fresh instance over the empty store that lose recorded intervals. A view
materialized over `(0, 10)` and then applied again with a changed definition is read back with
no intervals: the stored entry was replaced by the incoming proto. An interval recorded with
`commit=False` is gone after `refresh`, which reloads the stored snapshot. -/
theorem reapplied_view_drops_intervals :
    let s := System.init (ι := Unit) (some .empty) fun _ => 0
    let fv : FeatureView := ⟨some .featureView, "driver_stats", "ttl=1d", none, []⟩
    s.results [⟨(), 0, .applyFeatureView fv "p1" true⟩,
        ⟨(), 1, .applyMaterialization fv "p1" 0 10 true⟩,
        ⟨(), 2, .getFeatureView "driver_stats" "p1" true⟩,
        ⟨(), 3, .applyFeatureView { fv with definition := "ttl=2d" } "p1" true⟩,
        ⟨(), 4, .getFeatureView "driver_stats" "p1" true⟩] =
      [.ok .none, .ok .none,
        .ok (.featureView ⟨some .featureView, "driver_stats", "ttl=1d", some 0, [(0, 10)]⟩),
        .ok .none,
        .ok (.featureView ⟨some .featureView, "driver_stats", "ttl=2d", some 3, []⟩)] ∧
    s.results [⟨(), 0, .applyFeatureView fv "p1" true⟩,
        ⟨(), 1, .applyMaterialization fv "p1" 0 10 false⟩,
        ⟨(), 2, .getFeatureView "driver_stats" "p1" true⟩, ⟨(), 3, .refresh⟩,
        ⟨(), 4, .getFeatureView "driver_stats" "p1" true⟩] =
      [.ok .none, .ok .none,
        .ok (.featureView ⟨some .featureView, "driver_stats", "ttl=1d", some 0, [(0, 10)]⟩),
        .ok .none,
        .ok (.featureView ⟨some .featureView, "driver_stats", "ttl=1d", some 0, []⟩)] := by
  decide

/-! ## A batch of materializations -/

theorem filter_not_hasKey_append {name project : String} (xs : List ObjectProto) {y : ObjectProto}
    (hy : y.hasKey name project = true) :
    (xs.filter (!·.hasKey name project) ++ [y]).filter (!·.hasKey name project) =
      xs.filter (!·.hasKey name project) := by
  simp [List.filter_append, List.filter_filter, hy]

/-- The run lemma of a batch of `apply_materialization` calls of the view stored under
`(name, project)`: each call appends its interval to the entry and moves it to the end of
`feature_views`, and the other entries stay as they were. -/
theorem foldl_applyMaterialization {name project : String} (es : List (Event Unit))
    (hes : ∀ e ∈ es, ∃ fv startDate endDate commit,
      e.op = .applyMaterialization fv project startDate endDate commit ∧ fv.name = name) :
    ∀ {P : RegistryProto} {x : ObjectProto}, P.WellFormed →
      P.entry .featureViews name project = some x →
      (es.foldl (fun P e => e.op.applyTo e.now P) P).entry .featureViews name project =
          some (x.withIntervals (es.filterMap (·.op.materializationInterval))) ∧
        (es.foldl (fun P e => e.op.applyTo e.now P) P).featureViews.filter
            (!·.hasKey name project) = P.featureViews.filter (!·.hasKey name project) ∧
        (es ≠ [] → (es.foldl (fun P e => e.op.applyTo e.now P) P).featureViews =
          P.featureViews.filter (!·.hasKey name project) ++
            [x.withIntervals (es.filterMap (·.op.materializationInterval))]) := by
  induction es with
  | nil => exact fun _ hx => ⟨by simpa using hx, rfl, fun h => absurd rfl h⟩
  | cons e es ih =>
    intro P x h hx
    obtain ⟨fv, startDate, endDate, commit, he, rfl⟩ := hes e (List.mem_cons_self _ _)
    have hP : e.op.applyTo e.now P = P.setCollection .featureViews
        (P.featureViews.filter (!·.hasKey fv.name project) ++
          [x.withIntervals [(startDate, endDate)]]) := by
      rw [he]
      exact h.applyMaterialization_result hx startDate endDate
    have hkey : (x.withIntervals [(startDate, endDate)]).hasKey fv.name project = true := by
      rw [ObjectProto.hasKey_withIntervals]; exact hasKey_of_entry hx
    have hfilter : (e.op.applyTo e.now P).featureViews.filter (!·.hasKey fv.name project) =
        P.featureViews.filter (!·.hasKey fv.name project) := by
      rw [hP, setCollection_featureViews, filter_not_hasKey_append _ hkey]
    have hentry : (e.op.applyTo e.now P).entry .featureViews fv.name project =
        some (x.withIntervals [(startDate, endDate)]) := by
      rw [he]; exact h.entry_applyMaterialization hx startDate endDate
    obtain ⟨ih₁, ih₂, ih₃⟩ := ih (fun e he => hes e (List.mem_cons_of_mem _ he)) (h.applyTo _ _)
      hentry
    have hint : (e :: es).filterMap (·.op.materializationInterval) =
        (startDate, endDate) :: es.filterMap (·.op.materializationInterval) := by
      rw [List.filterMap_cons, he]; rfl
    simp only [List.foldl_cons, hint]
    refine ⟨by simpa using ih₁, ih₂.trans hfilter, fun _ => ?_⟩
    cases es with
    | nil => rw [List.foldl_nil, List.filterMap_nil, hP, setCollection_featureViews]
    | cons e' es' => rw [ih₃ (List.cons_ne_nil _ _), hfilter]; simp

/-- `m` calls `apply_materialization(fv_k, project, start_k, end_k)` with `fv_k.name = name`,
on one well-formed snapshot whose `feature_views` holds `x` under `(name, project)`, with no
reload between them. Afterwards the entry stored under the key is `x` with the `m` requested
intervals appended in call order: its spec, created timestamp and project are those of `x`, and
`FeatureView.from_proto` reads it back as the old view with the longer history. The other
entries of `feature_views` keep their order, and for `m ≥ 1` the entry is the last one. -/
theorem materializations_append_requested {P : RegistryProto} (h : P.WellFormed)
    {name project : String} {x : ObjectProto} (hx : P.entry .featureViews name project = some x)
    (es : List (Event Unit))
    (hes : ∀ e ∈ es, ∃ fv startDate endDate commit,
      e.op = .applyMaterialization fv project startDate endDate commit ∧ fv.name = name) :
    (es.foldl (fun P e => e.op.applyTo e.now P) P).entry .featureViews name project =
        some (x.withIntervals (es.filterMap (·.op.materializationInterval))) ∧
      (x.withIntervals (es.filterMap (·.op.materializationInterval))).spec.project = project ∧
      FeatureView.fromProto .featureView
          (x.withIntervals (es.filterMap (·.op.materializationInterval))) =
        { FeatureView.fromProto .featureView x with
          materializationIntervals := x.meta.materializationIntervals ++
            es.filterMap (·.op.materializationInterval) } ∧
      (es ≠ [] → (es.foldl (fun P e => e.op.applyTo e.now P) P).featureViews =
        P.featureViews.filter (!·.hasKey name project) ++
          [x.withIntervals (es.filterMap (·.op.materializationInterval))]) := by
  obtain ⟨h₁, -, h₃⟩ := foldl_applyMaterialization es hes h hx
  exact ⟨h₁, ((ObjectProto.hasKey_iff _ _ _).1 (hasKey_of_entry hx)).2, rfl, h₃⟩

/-- Three materializations `(0, 1)`, `(1, 2)`, `(2, 3)` of `driver_stats` record the three
intervals in that order. -/
theorem three_materializations_in_order :
    let P : RegistryProto := { featureViews := [⟨⟨"driver_stats", "p1", "ttl=1d"⟩, {}⟩,
      ⟨⟨"customer_stats", "p1", "ttl=1d"⟩, {}⟩] }
    let fv : FeatureView := ⟨some .featureView, "driver_stats", "ttl=1d", none, []⟩
    let es : List (Event Unit) := [⟨(), 1, .applyMaterialization fv "p1" 0 1 true⟩,
      ⟨(), 2, .applyMaterialization fv "p1" 1 2 true⟩, ⟨(), 3, .applyMaterialization fv "p1" 2 3 true⟩]
    P.WellFormed ∧ P.entry .featureViews "driver_stats" "p1" =
        some ⟨⟨"driver_stats", "p1", "ttl=1d"⟩, {}⟩ ∧
      (es.foldl (fun P e => e.op.applyTo e.now P) P).entry .featureViews "driver_stats" "p1" =
        some ⟨⟨"driver_stats", "p1", "ttl=1d"⟩, ⟨none, [(0, 1), (1, 2), (2, 3)]⟩⟩ := by
  intro P fv es
  have hwf : P.WellFormed := by decide
  have hx : P.entry .featureViews "driver_stats" "p1" = some ⟨⟨"driver_stats", "p1", "ttl=1d"⟩, {}⟩ :=
    rfl
  exact ⟨hwf, hx, (materializations_append_requested hwf hx es fun e he => by
    simp only [es, List.mem_cons, List.mem_singleton, List.not_mem_nil, or_false] at he
    rcases he with rfl | rfl | rfl <;> exact ⟨_, _, _, _, rfl, rfl⟩).1⟩

end Feast
