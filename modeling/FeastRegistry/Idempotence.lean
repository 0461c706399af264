import FeastRegistry.Isolation

/-!
# Applying an object twice

`apply_entity` and `apply_feature_service` delete the entry keyed like the object and append
its proto, so on a well-formed snapshot a second call finds the first call's proto and replaces
it by the same proto (`WellFormed.applyEntity_applyEntity`, `applyFeatureService` likewise).
`apply_feature_view` compares the stored entry with the view through `__eq__`, which ignores the
created timestamp the first call stamped; the second call therefore takes the branch that leaves
the snapshot alone: it raises the first call's error when the first raised, and otherwise returns
at the equality check (`WellFormed.applyFeatureView_again`).

A mutating call on a fresh cache leaves in it the edit's result on the cached proto
(`Registry.exec_registry_of_mutation`); when the second call finds the cache the first left still
fresh, the two facts give that the second call leaves the registry, the result and the store as
the first call left them (`Registry.exec_again`, `apply_twice_same_snapshot`).

Does not prove: anything about a reload between the two calls, which replaces the cache by the
store's proto.
-/

set_option autoImplicit false

namespace Feast

/-! ## The snapshot after two calls -/

theorem upsert_upsert (xs : List ObjectProto) (o : ObjectProto) :
    upsert (upsert xs o) o = upsert xs o := by
  simp [upsert, List.filter_append, List.filter_filter, ObjectProto.hasKey]

namespace RegistryProto

@[simp] theorem setCollection_setCollection (proto : RegistryProto) (c : Collection)
    (xs ys : List ObjectProto) :
    (proto.setCollection c xs).setCollection c ys = proto.setCollection c ys := by
  cases c <;> rfl

variable {P : RegistryProto}

theorem WellFormed.applyEntity_applyEntity (h : P.WellFormed) {o : ObjectProto} {project : String}
    (hp : o.spec.project = project) :
    (P.applyEntity o project).applyEntity o project = P.applyEntity o project := by
  have hA := (h.applyEntity hp).keys_nodup .entities (by decide)
  rw [RegistryProto.applyEntity, ← collection_entities (P.applyEntity o project),
    eraseP_append_eq_upsert hA rfl hp, RegistryProto.applyEntity, ← collection_entities P,
    eraseP_append_eq_upsert (h.keys_nodup .entities (by decide)) rfl hp]
  simp [upsert_upsert]

theorem WellFormed.applyFeatureService_applyFeatureService (h : P.WellFormed) {o : ObjectProto}
    {project : String} (hp : o.spec.project = project) :
    (P.applyFeatureService o project).applyFeatureService o project =
      P.applyFeatureService o project := by
  have hA := (h.applyFeatureService hp).keys_nodup .featureServices (by decide)
  rw [RegistryProto.applyFeatureService, ← collection_featureServices (P.applyFeatureService o project),
    enumerateDel_append_eq_upsert hA rfl hp, RegistryProto.applyFeatureService,
    ← collection_featureServices P,
    enumerateDel_append_eq_upsert (h.keys_nodup .featureServices (by decide)) rfl hp]
  simp [upsert_upsert]

/-- Two views with the same class, name and definition are `__eq__` to the same views. -/
theorem FeatureView.eqv_congr {fv fv' : FeatureView}
    (hfv : fv'.cls = fv.cls ∧ fv'.name = fv.name ∧ fv'.definition = fv.definition)
    (a : FeatureView) : a.eqv fv' = a.eqv fv := by
  simp [FeatureView.eqv, hfv.1, hfv.2.1, hfv.2.2]

theorem checkConflictingFeatureViewNames_congr {fv fv' : FeatureView}
    (hfv : fv'.cls = fv.cls ∧ fv'.name = fv.name) (proto : RegistryProto) :
    proto.checkConflictingFeatureViewNames fv' = proto.checkConflictingFeatureViewNames fv := by
  simp [checkConflictingFeatureViewNames, hfv.1, hfv.2]

/-- A second `apply_feature_view` of a view that agrees with the first in class, name and
definition, on the snapshot the first left: it raises the first call's error when the first
raised, and otherwise returns at the equality check. -/
theorem WellFormed.applyFeatureView_again (h : P.WellFormed) {fv fv' : FeatureView}
    (hfv : fv'.cls = fv.cls ∧ fv'.name = fv.name ∧ fv'.definition = fv.definition)
    (project : String) :
    ((P.applyFeatureView fv (fv.toProto.withProject project) project).result P).applyFeatureView
        fv' (fv'.toProto.withProject project) project =
      match P.applyFeatureView fv (fv.toProto.withProject project) project with
      | .raise e => .raise e
      | _ => .unchanged := by
  have hc := checkConflictingFeatureViewNames_congr ⟨hfv.1, hfv.2.1⟩
  have hkey : (fv'.toProto.withProject project).spec.name = fv.name := hfv.2.1
  rcases applyFeatureView_cases P fv (fv.toProto.withProject project) project with
    ⟨hc₁, he⟩ | ⟨hc₁, hk, he⟩ | ⟨k, x, hc₁, hk, hx, heq, he⟩ | ⟨k, hc₁, hk, -, he⟩ <;>
    rw [he] <;> dsimp only [Edit.result] <;> unfold RegistryProto.applyFeatureView
  · rw [hc, hc₁, if_pos rfl, hfv.2.1]
  · rw [hc, hc₁, hfv.1, hk]; rfl
  · rw [hc, hc₁, hfv.1, hk]
    change List.find? (fun o : ObjectProto => o.hasKey fv.name project) _ = some x at hx
    simp [hfv.2.1, hx, FeatureView.eqv_congr hfv, heq]
  · have hA := h.applyFeatureView rfl rfl he
    have hfree : (P.setCollection k.collection ((P.collection k.collection).eraseP
        (·.hasKey (fv.toProto.withProject project).spec.name project) ++
          [fv.toProto.withProject project])).checkConflictingFeatureViewNames fv = false := by
      rw [Bool.eq_false_iff, ne_eq, hA.checkConflictingFeatureViewNames_iff]
      rintro ⟨k', hne, hmem⟩
      have hkk : k'.collection ≠ k.collection := fun e => hne (by rw [hk, FeatureViewKind.collection_inj e])
      rw [names_setCollection, if_neg hkk] at hmem
      exact absurd ((h.checkConflictingFeatureViewNames_iff fv).2 ⟨k', hne, hmem⟩) (by simp [hc₁])
    rw [hc, hfree, if_neg (by decide), hfv.1, hk]
    have hu := find?_upsert (P.collection k.collection) (fv.toProto.withProject project)
    change List.find? (fun o : ObjectProto => o.hasKey fv.name project) _ = _ at hu
    simp only [collection_setCollection, if_pos rfl, hkey]
    rw [eraseP_append_eq_upsert (h.keys_nodup _ k.collection_ne_featureTables) ?_ ?_]
    · simp [hu, FeatureView.eqv_congr hfv, FeatureView.fromProto_toProto_eqv fv k project hk]
    all_goals rfl

end RegistryProto

open RegistryProto

/-- What a second edit does on the proto a first edit left: it keeps that proto, raises exactly
the first edit's errors, and changes the proto only to what the first edit changed it to. -/
structure EditKeeps (edit₁ edit₂ : RegistryProto → Edit) (P : RegistryProto) : Prop where
  result : (edit₂ ((edit₁ P).result P)).result ((edit₁ P).result P) = (edit₁ P).result P
  raise : ∀ e, edit₂ ((edit₁ P).result P) = .raise e ↔ edit₁ P = .raise e
  changed : ∀ A, edit₂ ((edit₁ P).result P) = .changed A → edit₁ P = .changed A

/-- An edit that always changes the proto, by an idempotent function. -/
theorem EditKeeps.of_changed {f : RegistryProto → RegistryProto} {P : RegistryProto}
    (hf : f (f P) = f P) : EditKeeps (fun proto => .changed (f proto)) (fun proto => .changed (f proto)) P :=
  ⟨by simp [Edit.result, hf], by simp, by simp [Edit.result, hf]⟩

/-- A second edit that repeats the first one's error, and otherwise changes nothing. -/
theorem EditKeeps.of_again {edit₁ edit₂ : RegistryProto → Edit} {P : RegistryProto}
    (h : edit₂ ((edit₁ P).result P) = match edit₁ P with
      | .raise e => .raise e
      | _ => .unchanged) : EditKeeps edit₁ edit₂ P := by
  refine ⟨?_, fun e => ?_, fun A => ?_⟩ <;> revert h <;> cases edit₁ P <;> intro h <;>
    simp only [Edit.result] at h ⊢ <;> simp [h]

theorem mutationResult_of_ne_raise {e : Edit} (h : ∀ err, e ≠ .raise err)
    (pre : Option RegistryError) : mutationResult pre e = pre.elim (.ok .none) .error := by
  cases pre
  · cases e
    · exact absurd rfl (h _)
    all_goals rfl
  · rfl

/-- The second call returns what the first returned. -/
theorem EditKeeps.mutationResult_eq {edit₁ edit₂ : RegistryProto → Edit} {P : RegistryProto}
    (h : EditKeeps edit₁ edit₂ P) (pre : Option RegistryError) :
    mutationResult pre (edit₂ ((edit₁ P).result P)) = mutationResult pre (edit₁ P) := by
  by_cases hr : ∃ e, edit₁ P = .raise e
  · obtain ⟨e, he⟩ := hr
    rw [(h.raise e).2 he, he]
  · have h₁ : ∀ e, edit₁ P ≠ .raise e := fun e he => hr ⟨e, he⟩
    have h₂ : ∀ e, edit₂ ((edit₁ P).result P) ≠ .raise e := fun e he => h₁ e ((h.raise e).1 he)
    rw [mutationResult_of_ne_raise h₁, mutationResult_of_ne_raise h₂]

/-! ## Two calls on one registry -/

namespace Registry

variable {r : Registry} {store : Option RegistryProto}

/-- After a call whose checks pass, a second call that finds the cache still fresh prepares the
proto the first call left. -/
theorem prepare_after_exec {op : Op} {now₁ now₂ : Int} {edit : RegistryProto → Edit} {c : Bool}
    (hm : op.mutation now₁ = some (none, edit, c))
    (hfresh : (r.exec store now₁ op).registry.expired now₂ = false) (s : Option RegistryProto) :
    (r.exec store now₁ op).registry.prepareRegistryForChanges s now₂ =
      ((edit (r.prepareRegistryForChanges store now₁).1).result (r.prepareRegistryForChanges store now₁).1,
        (r.exec store now₁ op).registry) :=
  prepareRegistryForChanges_of_fresh (by rw [(exec_registry_of_mutation r store now₁ hm).1]) hfresh

/-- Two calls of mutating methods with the same checks and the same `commit` argument, the
second finding the cache the first left still fresh, and the second edit keeping what the first
left (`EditKeeps`): the second call leaves the registry, the result and the store as the first
call left them. -/
theorem exec_again {op₁ op₂ : Op} {now₁ now₂ : Int} {pre : Option RegistryError}
    {edit₁ edit₂ : RegistryProto → Edit} {c : Bool}
    (hm₁ : op₁.mutation now₁ = some (pre, edit₁, c)) (hm₂ : op₂.mutation now₂ = some (pre, edit₂, c))
    (hfresh : (r.exec store now₁ op₁).registry.expired now₂ = false)
    (hkeep : EditKeeps edit₁ edit₂ (r.prepareRegistryForChanges store now₁).1) :
    ((r.exec store now₁ op₁).registry.exec ((r.exec store now₁ op₁).store store) now₂ op₂).registry =
        (r.exec store now₁ op₁).registry ∧
      ((r.exec store now₁ op₁).registry.exec ((r.exec store now₁ op₁).store store) now₂ op₂).result =
        (r.exec store now₁ op₁).result ∧
      ((r.exec store now₁ op₁).registry.exec ((r.exec store now₁ op₁).store store) now₂ op₂).store
          ((r.exec store now₁ op₁).store store) = (r.exec store now₁ op₁).store store := by
  cases pre with
  | some e =>
    have h₁ : r.exec store now₁ op₁ = ⟨.error e, r, none⟩ := by
      rw [exec_of_mutation r store now₁ hm₁]; rfl
    rw [h₁, exec_of_mutation r _ now₂ hm₂]
    exact ⟨rfl, rfl, rfl⟩
  | none =>
    obtain ⟨hreg₁, hw₁⟩ := exec_registry_of_mutation r store now₁ hm₁
    set P₀ := (r.prepareRegistryForChanges store now₁).1
    set s₁ := (r.exec store now₁ op₁).store store
    have hprep := prepare_after_exec hm₁ hfresh s₁
    obtain ⟨hreg₂, hw₂⟩ := exec_registry_of_mutation (r.exec store now₁ op₁).registry s₁ now₂ hm₂
    rw [hprep] at hreg₂ hw₂
    dsimp only at hreg₂ hw₂
    refine ⟨by rw [hreg₂, hkeep.result, hreg₁], ?_, ?_⟩
    · rw [exec_result_of_mutation _ _ _ hm₂, exec_result_of_mutation _ _ _ hm₁, hprep]
      exact hkeep.mutationResult_eq none
    · cases he₂ : edit₂ ((edit₁ P₀).result P₀) with
      | changed A =>
        rw [he₂] at hw₂
        rw [hkeep.changed A he₂] at hw₁
        rw [Outcome.store, hw₂]
        cases c
        · rfl
        · have hs₁ : s₁ = some A := by simp [s₁, Outcome.store, hw₁, StoreWrite.apply]
          simp [StoreWrite.apply, hs₁]
      | _ => rw [he₂] at hw₂; simp [Outcome.store, hw₂]

end Registry

/-- `apply_X(O, p)` twice on one registry, the second call finding the cache the first call left
still fresh, in a state whose cache and store are well formed (every reachable state's are). The
second call leaves the registry, the result and the store exactly as the first call left them.
For a feature view the second call writes nothing, and when the first call returned normally the
second returns at the equality check; when the first raised, the second raises the same error
(`second_apply_raises_after_failed_first`). -/
theorem apply_twice_same_snapshot {r : Registry} {store : Option RegistryProto}
    (hr : r.CacheWellFormed) (hs : ∀ proto ∈ store, proto.WellFormed) (o : CatalogObject)
    (project : String) (commit : Bool) (now₁ now₂ : Int)
    (hfresh : (r.exec store now₁ (o.apply project commit)).registry.expired now₂ = false) :
    let first := r.exec store now₁ (o.apply project commit)
    let second := first.registry.exec (first.store store) now₂ (o.apply project commit)
    second.registry = first.registry ∧ second.result = first.result ∧
      second.store (first.store store) = first.store store ∧
      ∀ fv, o = .featureView fv → second.write = none ∧
        (first.result = .ok .none → ∀ A ∈ first.registry.cachedRegistryProto,
          A.applyFeatureView (Registry.stampCreated fv now₂)
            ((Registry.stampCreated fv now₂).toProto.withProject project) project = .unchanged) := by
  dsimp only
  have hP := Registry.prepareRegistryForChanges_wellFormed now₁ hr hs
  cases o with
  | entity e =>
    obtain ⟨h₁, h₂, h₃⟩ := Registry.exec_again
      (show (Op.applyEntity e project commit).mutation now₁ = some (_, _, _) from rfl)
      (show (Op.applyEntity e project commit).mutation now₂ = some (_, _, _) from rfl) hfresh
      (EditKeeps.of_changed (f := fun proto => proto.applyEntity (e.toProto.withProject project) project)
        (hP.applyEntity_applyEntity rfl))
    exact ⟨h₁, h₂, h₃, fun _ h => by cases h⟩
  | featureService fs =>
    obtain ⟨h₁, h₂, h₃⟩ := Registry.exec_again
      (show (Op.applyFeatureService fs project commit).mutation now₁ = some (_, _, _) from rfl)
      (show (Op.applyFeatureService fs project commit).mutation now₂ = some (_, _, _) from rfl)
      hfresh
      (EditKeeps.of_changed
        (f := fun proto => proto.applyFeatureService (fs.toProto.withProject project) project)
        (hP.applyFeatureService_applyFeatureService rfl))
    exact ⟨h₁, h₂, h₃, fun _ h => by cases h⟩
  | featureView fv =>
    simp only [CatalogObject.apply] at hfresh ⊢
    have hagain := hP.applyFeatureView_again
      (show (Registry.stampCreated fv now₂).cls = (Registry.stampCreated fv now₁).cls ∧
        (Registry.stampCreated fv now₂).name = (Registry.stampCreated fv now₁).name ∧
        (Registry.stampCreated fv now₂).definition = (Registry.stampCreated fv now₁).definition by
          simp) project
    obtain ⟨h₁, h₂, h₃⟩ := Registry.exec_again
      (show (Op.applyFeatureView fv project commit).mutation now₁ = some (_, _, _) from rfl)
      (show (Op.applyFeatureView fv project commit).mutation now₂ = some (_, _, _) from rfl)
      hfresh (EditKeeps.of_again hagain)
    refine ⟨h₁, h₂, h₃, fun _ h => ?_⟩
    cases h
    cases hv : fv.ensureValid
    · have hm : ∀ now, (Op.applyFeatureView fv project commit).mutation now =
          some (some .validationError, fun proto => proto.applyFeatureView
            (Registry.stampCreated fv now)
            ((Registry.stampCreated fv now).toProto.withProject project) project, commit) :=
        fun now => by simp [Op.mutation, hv]
      have hfirst : r.exec store now₁ (.applyFeatureView fv project commit) =
          ⟨.error .validationError, r, none⟩ := by
        rw [Registry.exec_of_mutation r store now₁ (hm now₁)]; rfl
      rw [hfirst]
      refine ⟨?_, fun hok => by cases hok⟩
      rw [Registry.exec_of_mutation _ _ now₂ (hm now₂)]; rfl
    · have hm : ∀ now, (Op.applyFeatureView fv project commit).mutation now =
          some (none, fun proto => proto.applyFeatureView (Registry.stampCreated fv now)
            ((Registry.stampCreated fv now).toProto.withProject project) project, commit) :=
        fun now => by simp [Op.mutation, hv]
      obtain ⟨hreg₁, -⟩ := Registry.exec_registry_of_mutation r store now₁ (hm now₁)
      obtain ⟨-, hw₂⟩ := Registry.exec_registry_of_mutation
        (r.exec store now₁ (.applyFeatureView fv project commit)).registry
        ((r.exec store now₁ (.applyFeatureView fv project commit)).store store) now₂ (hm now₂)
      have hres := Registry.exec_result_of_mutation r store now₁ (hm now₁)
      rw [Registry.prepare_after_exec (hm now₁) hfresh] at hw₂
      dsimp only at hw₂ hres hreg₁
      rw [hagain] at hw₂
      rw [hw₂, hres, hreg₁]
      generalize (r.prepareRegistryForChanges store now₁).1.applyFeatureView
        (Registry.stampCreated fv now₁) ((Registry.stampCreated fv now₁).toProto.withProject project)
        project = E at hagain ⊢
      refine ⟨by cases E <;> rfl, fun hok A hA => ?_⟩
      obtain rfl := Option.some.inj hA
      rw [hagain]
      cases E <;> simp_all [mutationResult]

/-- Two calls whose first raises: the second raises too, and does not return at the equality
check. A view named like a request feature view of another project raises
`ConflictingFeatureViewNames` both times; a view with an empty name fails `ensure_valid` both
times. -/
theorem second_apply_raises_after_failed_first :
    let s := System.init (ι := Unit) (some .empty) fun _ => 0
    let fv : FeatureView := ⟨some .featureView, "driver_stats", "ttl=1d", none, []⟩
    s.results [⟨(), 0, .applyFeatureView { fv with cls := some .requestFeatureView } "p2" true⟩,
        ⟨(), 1, .applyFeatureView fv "p1" true⟩, ⟨(), 2, .applyFeatureView fv "p1" true⟩] =
      [.ok .none, .error (.conflictingFeatureViewNames "driver_stats"),
        .error (.conflictingFeatureViewNames "driver_stats")] ∧
    s.results [⟨(), 0, .applyFeatureView { fv with name := "" } "p1" true⟩,
        ⟨(), 1, .applyFeatureView { fv with name := "" } "p1" true⟩] =
      [.error .validationError, .error .validationError] := by
  decide

/-- A new feature view of `p2` applied twice, 30 seconds apart, over the two-project snapshot by
an instance with a time to live of 600: the second call returns at the equality check, writes
nothing, and leaves the registry, the result and the store as the first call left them. -/
theorem apply_view_twice_same_registry :
    let fv : FeatureView := ⟨some .featureView, "trip_stats", "ttl=1h", none, []⟩
    let first := (Registry.init 600).exec (some .sample) 0 (.applyFeatureView fv "p2" true)
    let second :=
      first.registry.exec (first.store (some .sample)) 30 (.applyFeatureView fv "p2" true)
    second.registry = first.registry ∧ second.result = first.result ∧
      second.store (first.store (some .sample)) = first.store (some .sample) ∧
      second.write = none ∧
      (first.result = .ok .none → ∀ A ∈ first.registry.cachedRegistryProto,
        A.applyFeatureView (Registry.stampCreated fv 30)
          ((Registry.stampCreated fv 30).toProto.withProject "p2") "p2" = .unchanged) := by
  intro fv first second
  have h := apply_twice_same_snapshot (r := Registry.init 600) (fun _ h => by cases h)
    (show ∀ proto ∈ some RegistryProto.sample, proto.WellFormed from fun _ h => by
      cases h; exact RegistryProto.sample_wellFormed)
    (.featureView fv) "p2" true 0 30 (by decide)
  exact ⟨h.1, h.2.1, h.2.2.1, h.2.2.2 fv rfl⟩

end Feast
