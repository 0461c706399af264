import FeastRegistry.WellFormed
import Mathlib.Logic.Function.Basic

/-!
# Registries sharing one store

Any number of `Registry` instances, indexed by `ι`, work on one registry store: each keeps its
own cache, and each `commit()` replaces the whole stored proto. A step is one call of one
instance at a clock reading (`System.step`); a run is a list of steps. `System.Reachable` starts
from fresh instances over a store that is empty or holds a well-formed proto.

Every reachable system has a well-formed store and well-formed caches
(`reachable_wellFormed`): one step keeps the property (`step_wellFormed`), whichever instance
makes it and whatever the other instances have committed meanwhile.
-/

set_option autoImplicit false

namespace Feast

/-- Registry instances on one store. -/
structure System (ι : Type) where
  store : Option RegistryProto
  registries : ι → Registry

/-- One call: the instance that makes it, the clock reading, and the call. -/
structure Event (ι : Type) where
  registry : ι
  now : Int
  op : Op

namespace System

variable {ι : Type}

/-- Fresh instances, with their times to live, over `store`. -/
def init (store : Option RegistryProto) (ttl : ι → Int) : System ι :=
  ⟨store, fun i => Registry.init (ttl i)⟩

/-- The store and every cache are well formed. -/
def WellFormed (s : System ι) : Prop :=
  (∀ proto ∈ s.store, proto.WellFormed) ∧ ∀ i, (s.registries i).CacheWellFormed

theorem init_wellFormed {store : Option RegistryProto} (ttl : ι → Int)
    (h : ∀ proto ∈ store, proto.WellFormed) : (init store ttl).WellFormed :=
  ⟨h, fun _ _ hp => by cases hp⟩

variable [DecidableEq ι]

/-- The system after one call, and the call's result. -/
def step (s : System ι) (e : Event ι) : System ι × Except RegistryError Value :=
  let o := (s.registries e.registry).exec s.store e.now e.op
  (⟨o.store s.store, Function.update s.registries e.registry o.registry⟩, o.result)

/-- The system after a run. -/
def run (s : System ι) : List (Event ι) → System ι
  | [] => s
  | e :: es => (s.step e).1.run es

/-- The results of the calls of a run, in order. -/
def results (s : System ι) : List (Event ι) → List (Except RegistryError Value)
  | [] => []
  | e :: es => (s.step e).2 :: (s.step e).1.results es

/-- States reached from fresh instances over an empty or well-formed store. -/
inductive Reachable : System ι → Prop
  | init (store : Option RegistryProto) (ttl : ι → Int)
      (h : ∀ proto ∈ store, proto.WellFormed) : Reachable (System.init store ttl)
  | step {s : System ι} (e : Event ι) : Reachable s → Reachable (s.step e).1

@[simp] theorem step_store (s : System ι) (e : Event ι) :
    (s.step e).1.store = ((s.registries e.registry).exec s.store e.now e.op).store s.store := rfl

@[simp] theorem step_registries_self (s : System ι) (e : Event ι) :
    (s.step e).1.registries e.registry =
      ((s.registries e.registry).exec s.store e.now e.op).registry := by
  simp [step]

theorem step_registries_of_ne (s : System ι) (e : Event ι) {i : ι} (hi : i ≠ e.registry) :
    (s.step e).1.registries i = s.registries i := by
  simp [step, Function.update_noteq hi]

@[simp] theorem step_result (s : System ι) (e : Event ι) :
    (s.step e).2 = ((s.registries e.registry).exec s.store e.now e.op).result := rfl

@[simp] theorem run_nil (s : System ι) : s.run [] = s := rfl

@[simp] theorem run_cons (s : System ι) (e : Event ι) (es : List (Event ι)) :
    s.run (e :: es) = (s.step e).1.run es := rfl

theorem run_append (s : System ι) (es fs : List (Event ι)) :
    s.run (es ++ fs) = (s.run es).run fs := by
  induction es generalizing s with
  | nil => rfl
  | cons e es ih => exact ih _

theorem Reachable.run {s : System ι} (h : s.Reachable) : ∀ es, (s.run es).Reachable
  | [] => h
  | e :: es => (Reachable.step e h).run es

theorem step_wellFormed {s : System ι} (h : s.WellFormed) (e : Event ι) : (s.step e).1.WellFormed := by
  obtain ⟨hr, hs⟩ := Registry.exec_wellFormed e.now (h.2 e.registry) h.1 e.op
  refine ⟨hs, fun i => ?_⟩
  by_cases hi : i = e.registry
  · subst hi; simpa using hr
  · simpa [step_registries_of_ne s e hi] using h.2 i

theorem Reachable.wellFormed {s : System ι} (h : s.Reachable) : s.WellFormed := by
  induction h with
  | init store ttl hs => exact init_wellFormed ttl hs
  | step e _ ih => exact step_wellFormed ih e

/-- Snapshot well-formedness holds in every reachable state, for the store and for every
instance's cache. -/
theorem reachable_wellFormed {s : System ι} (h : s.Reachable) : s.WellFormed :=
  h.wellFormed

/-- Two instances over a snapshot of two projects: one commits an entity of `p1`, the other
applies a feature view of `p2` without committing and then deletes the entity of `p2`. -/
theorem reachable_wellFormed_after_apply :
    ((System.init (ι := Bool) (some .sample) fun _ => 600).run
      [⟨true, 0, .applyEntity ⟨"customer_id", "INT64"⟩ "p1" true⟩,
        ⟨false, 1, .applyFeatureView ⟨some .featureView, "trip_stats", "ttl=1h", none, []⟩ "p2" false⟩,
        ⟨false, 2, .deleteEntity "driver_id" "p2" true⟩]).WellFormed :=
  reachable_wellFormed ((Reachable.init _ _ fun _ h => by
    cases h; exact RegistryProto.sample_wellFormed).run _)

end System

end Feast
