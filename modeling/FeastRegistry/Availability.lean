import FeastRegistry.Staleness

/-!
# When a call raises `FileNotFoundError`

The store raises `FileNotFoundError` when it holds no registry proto. `_prepare_registry_for_changes`
catches it and starts from the empty proto, so no mutating method raises it; a read or
`refresh()` raises it exactly when the store holds no proto and the cache cannot serve the call
(`Registry.exec_eq_fileNotFound_iff`). No call answers it on a snapshot
(`Op.answer_ne_fileNotFound`): the checks and edits raise validation, conflict and not-found
errors only.

Across instances the error is confined to the time before the first write to the store and the
time after a `teardown()`. A run without a teardown that starts with a proto in the store keeps
one there, and none of its calls, whichever instance makes them, raises the error
(`System.no_file_not_found_before_teardown`): one call keeps a proto in the store
(`Registry.exec_store_isSome`), and a call on a store that holds one does not raise it.
`_initialize_registry`, which writes the empty proto when the store has none, gives such a start
(`Registry.initializeRegistry_store`).
-/

set_option autoImplicit false

namespace Feast

/-! ## Snapshot answers -/

theorem mutationResult_ne_fileNotFound {pre : Option RegistryError} {e : Edit}
    (hpre : pre ≠ some .fileNotFound) (he : e ≠ .raise .fileNotFound) :
    mutationResult pre e ≠ .error .fileNotFound := by
  unfold mutationResult
  split
  · simpa using hpre
  · simpa using he
  · simp

theorem RegistryProto.applyFeatureView_ne_fileNotFound (P : RegistryProto) (fv : FeatureView)
    (o : ObjectProto) (project : String) : P.applyFeatureView fv o project ≠ .raise .fileNotFound := by
  rcases applyFeatureView_cases P fv o project with
    ⟨-, h⟩ | ⟨-, -, h⟩ | ⟨_, _, -, -, -, -, h⟩ | ⟨_, -, -, -, h⟩ <;> rw [h] <;> simp

/-- The checks and edits of the mutating methods never raise `FileNotFoundError`. -/
theorem Op.mutation_ne_fileNotFound {op : Op} {now : Int} {pre : Option RegistryError}
    {edit : RegistryProto → Edit} {c : Bool} (hm : op.mutation now = some (pre, edit, c))
    (P : RegistryProto) : mutationResult pre (edit P) ≠ .error .fileNotFound := by
  cases op <;> simp only [Op.mutation, Option.some.injEq, Prod.mk.injEq, reduceCtorEq] at hm
  all_goals
    obtain ⟨rfl, rfl, -⟩ := hm
    refine mutationResult_ne_fileNotFound (by simp) fun h => ?_
    first
      | cases ((RegistryProto.deleteIn_eq_raise _).1 h).1
      | cases ((RegistryProto.deleteFeatureView_eq_raise _).1 h).1
      | cases ((RegistryProto.applyMaterialization_eq_raise _).1 h).1
      | exact RegistryProto.applyFeatureView_ne_fileNotFound _ _ _ _ h
      | cases h

/-- No call answers `FileNotFoundError` on a snapshot: only the store raises it. -/
theorem Op.answer_ne_fileNotFound (op : Op) (now : Int) (P : RegistryProto) :
    op.answer now P ≠ .error .fileNotFound := by
  rcases hm : op.mutation now with _ | ⟨pre, edit, c⟩
  · cases op <;> simp only [Op.mutation, reduceCtorEq] at hm <;>
      simp [Op.answer, Op.mutation, Except.map_eq_error, RegistryProto.getIn_eq_error]
  · rw [Op.answer_of_mutation hm]
    exact Op.mutation_ne_fileNotFound hm P

/-! ## One call -/

namespace Registry

variable (r : Registry) (store : Option RegistryProto) (now : Int)

/-- `_get_registry_proto` raises only `FileNotFoundError`, and exactly when it has to load and
the store holds no proto. -/
theorem getRegistryProto_eq_error_iff (a : Bool) (e : RegistryError) :
    (r.getRegistryProto store now a).1 = .error e ↔
      e = .fileNotFound ∧ store = none ∧ r.loadsStore now a = true := by
  rcases getRegistryProto_cases r store now a with
    ⟨c, rfl, he, hc, h⟩ | ⟨p, ha, hs, h⟩ | ⟨ha, hs, h⟩ <;> rw [h]
  · simp [loadsStore, he, hc]
  · simp [hs]
  · simp [hs, loadsStore_of_reload r now ha, eq_comm]

variable {r store now}

theorem exec_result_of_load_error {op : Op} (hm : op.mutation now = none) {a : Bool}
    (ha : op.allowCache now = some a) {e : RegistryError}
    (hg : (r.getRegistryProto store now a).1 = .error e) :
    (r.exec store now op).result = .error e := by
  have hr : ∀ {α : Type} (f : RegistryProto → Except RegistryError α) (v : α → Value),
      ((r.read store now a f).map v).result = .error e := fun f v => by
    rcases read_cases r store now a f with ⟨p, r', h, -⟩ | ⟨e', r', h, hread⟩ <;> rw [h] at hg <;>
      cases hg
    rw [hread]; rfl
  cases op <;> simp only [Op.mutation, reduceCtorEq] at hm <;>
    simp only [Op.allowCache, Op.mutation, Option.some.injEq, reduceCtorEq] at ha
  all_goals subst ha; exact hr _ _

variable (r store now)

/-- A call raises `FileNotFoundError` exactly when it is a read or `refresh()`, the store holds
no proto, and the cache cannot serve the call. A mutating method never raises it. -/
theorem exec_eq_fileNotFound_iff (op : Op) :
    (r.exec store now op).result = .error .fileNotFound ↔
      store = none ∧ op.mutation now = none ∧
        ∃ a, op.allowCache now = some a ∧ r.loadsStore now a = true := by
  rcases hm : op.mutation now with _ | ⟨pre, edit, c⟩
  · cases ha : op.allowCache now with
    | none =>
      cases op <;> simp only [Op.mutation, reduceCtorEq] at hm <;>
        simp only [Op.allowCache, Op.mutation, reduceCtorEq] at ha <;> simp [exec, teardown, Outcome.map, Except.map]
    | some a =>
      rcases hg : (r.getRegistryProto store now a).1 with e | P
      · obtain ⟨rfl, hs, hl⟩ := (getRegistryProto_eq_error_iff r store now a e).1 hg
        exact iff_of_true (exec_result_of_load_error hm ha hg) ⟨hs, rfl, a, rfl, hl⟩
      · rw [exec_result_of_load ha hg]
        refine iff_of_false (Op.answer_ne_fileNotFound _ _ _) fun ⟨hs, _, a', ha', hl⟩ => ?_
        cases ha'
        have := (getRegistryProto_eq_error_iff r store now a .fileNotFound).2 ⟨rfl, hs, hl⟩
        rw [hg] at this
        cases this
  · rw [exec_result_of_mutation r store now hm]
    simp only [reduceCtorEq, false_and, and_false, iff_false]
    exact Op.mutation_ne_fileNotFound hm _

theorem exec_write_ne_teardown {op : Op} (ht : op ≠ .teardown) :
    (r.exec store now op).write ≠ some .teardown := by
  rcases hm : op.mutation now with _ | ⟨pre, edit, c⟩
  · cases op <;> simp only [Op.mutation, reduceCtorEq] at hm
    case commit => cases hc : r.cachedRegistryProto <;> simp [exec, commit, hc]
    case teardown => exact absurd rfl ht
    all_goals simp [exec_write_eq_none, Op.writesStore]
  · rw [exec_of_mutation r store now hm, Outcome.map_write]
    rcases mutate_cases r store now pre edit c with
      ⟨_, -, hmu⟩ | ⟨-, _, -, hmu⟩ | ⟨-, -, hmu⟩ | ⟨-, _, -, hmu⟩ <;> rw [hmu] <;> cases c <;> simp

variable {store}

/-- The step lemma for the store: a call other than `teardown()` keeps a proto in a store that
holds one. -/
theorem exec_store_isSome (hs : store.isSome = true) {op : Op} (ht : op ≠ .teardown) :
    ((r.exec store now op).store store).isSome = true := by
  have hw := exec_write_ne_teardown r store now ht
  unfold Outcome.store
  rcases h : (r.exec store now op).write with _ | _ | _
  · exact hs
  · rfl
  · exact absurd h hw

end Registry

/-! ## Runs -/

namespace System

variable {ι : Type} [DecidableEq ι]

/-- Once the store holds a registry proto, no call of any instance raises `FileNotFoundError`
until one calls `teardown()`: a run without a teardown keeps a proto in the store, and none of
its calls fails with that error. -/
theorem no_file_not_found_before_teardown {s : System ι} (hs : s.store.isSome = true)
    (es : List (Event ι)) (ht : ∀ e ∈ es, e.op ≠ .teardown) :
    .error .fileNotFound ∉ s.results es ∧ (s.run es).store.isSome = true := by
  induction es generalizing s with
  | nil => exact ⟨List.not_mem_nil _, hs⟩
  | cons e es ih =>
    have he := ht e (List.mem_cons_self _ _)
    obtain ⟨hr, hs'⟩ := ih (s := (s.step e).1)
      (Registry.exec_store_isSome _ e.now hs he) fun e' h => ht e' (List.mem_cons_of_mem _ h)
    refine ⟨?_, hs'⟩
    simp only [results, List.mem_cons, not_or]
    refine ⟨fun h => ?_, hr⟩
    have hnone := ((Registry.exec_eq_fileNotFound_iff _ _ _ _).1 h.symm).1
    rw [hnone] at hs
    cases hs

/-- Starting from the store `_initialize_registry` leaves on an empty one, a read that does not
allow the cache and a delete of a missing entity raise their own errors, not
`FileNotFoundError`. -/
theorem no_file_not_found_before_teardown_of_initialized :
    .error .fileNotFound ∉ (⟨((Registry.init 600).initializeRegistry none 0).store none,
        fun _ => Registry.init 600⟩ : System Unit).results
      [⟨(), 1, .getEntity "driver_id" "p1" false⟩, ⟨(), 2, .deleteEntity "driver_id" "p1" true⟩] := by
  refine (no_file_not_found_before_teardown ?_ _ ?_).1 <;> decide

end System

end Feast
