import Mathlib.Data.List.Basic

/-!
# Protos and SDK objects the registry handles

`RegistryProto` is the single snapshot the registry caches and persists: six collections of
object protos and one `infra` field. The registry reads only `spec.name` and `spec.project` of
an object proto, compares `spec` in `diff_between`, and rewrites `meta.materialization_intervals`
of feature views; every other spec field is kept as one opaque `definition`.

The SDK classes (`Entity`, `FeatureService` and the `BaseFeatureView` subclasses) and their
`to_proto`, `from_proto`, `__eq__`, `is_valid` and `ensure_valid` live outside the registry
module; they are modelled from the spec as field copies between an object and its proto.
-/

set_option autoImplicit false

namespace Feast

/-- `REGISTRY_SCHEMA_VERSION`. -/
def registrySchemaVersion : String := "1"

/-- The `spec` of an object proto: the two fields the registry reads, and the rest. -/
structure Spec where
  name : String
  project : String
  definition : String
deriving DecidableEq, Repr

/-- The `meta` of an object proto; only feature views fill it. -/
structure Meta where
  createdTimestamp : Option Int := none
  materializationIntervals : List (Int × Int) := []
deriving DecidableEq, Repr

/-- An `EntityProto`, `FeatureViewProto`, `FeatureServiceProto`, ... message. -/
structure ObjectProto where
  spec : Spec
  meta : Meta := {}
deriving DecidableEq, Repr

/-- The `Infra` message: its list of infra objects. -/
structure Infra where
  infraObjects : List String := []
deriving DecidableEq, Repr

/-- The `Registry` proto message (`RegistryProto` in the source). -/
structure RegistryProto where
  registrySchemaVersion : String := ""
  entities : List ObjectProto := []
  featureTables : List ObjectProto := []
  featureViews : List ObjectProto := []
  onDemandFeatureViews : List ObjectProto := []
  requestFeatureViews : List ObjectProto := []
  featureServices : List ObjectProto := []
  infra : Infra := {}
deriving DecidableEq, Repr

namespace ObjectProto

/-- The test `proto.spec.name == name and proto.spec.project == project` of every scan. -/
def hasKey (o : ObjectProto) (name project : String) : Bool :=
  o.spec.name == name && o.spec.project == project

/-- `proto.spec.project = project`. -/
def withProject (o : ObjectProto) (project : String) : ObjectProto :=
  { o with spec := { o.spec with project := project } }

@[simp] theorem withProject_name (o : ObjectProto) (p : String) :
    (o.withProject p).spec.name = o.spec.name := rfl

@[simp] theorem withProject_project (o : ObjectProto) (p : String) :
    (o.withProject p).spec.project = p := rfl

@[simp] theorem withProject_meta (o : ObjectProto) (p : String) :
    (o.withProject p).meta = o.meta := rfl

theorem hasKey_iff (o : ObjectProto) (name project : String) :
    o.hasKey name project = true ↔ o.spec.name = name ∧ o.spec.project = project := by
  simp [hasKey]

end ObjectProto

/-- The three feature-view collections, one per proto class. -/
inductive FeatureViewKind
  | featureView
  | onDemandFeatureView
  | requestFeatureView
deriving DecidableEq, Repr

/-- An `Entity` object. -/
structure Entity where
  name : String
  definition : String
deriving DecidableEq, Repr

/-- A `FeatureService` object. -/
structure FeatureService where
  name : String
  definition : String
deriving DecidableEq, Repr

/-- A `BaseFeatureView` object. `cls` is the proto class of its Python class, `none` for a
subclass other than `FeatureView`, `OnDemandFeatureView` and `RequestFeatureView`. -/
structure FeatureView where
  cls : Option FeatureViewKind
  name : String
  definition : String
  createdTimestamp : Option Int
  materializationIntervals : List (Int × Int)
deriving DecidableEq, Repr

namespace Entity

/-- Modelled from the spec: `Entity.to_proto` copies the object's fields into a spec with an
empty project. -/
def toProto (e : Entity) : ObjectProto :=
  { spec := { name := e.name, project := "", definition := e.definition } }

/-- Modelled from the spec: `Entity.from_proto`. -/
def fromProto (o : ObjectProto) : Entity := { name := o.spec.name, definition := o.spec.definition }

/-- Modelled from the spec: `Entity.is_valid`, which rejects an entity without a name. -/
def isValid (e : Entity) : Bool := !e.name.isEmpty

@[simp] theorem toProto_name (e : Entity) : e.toProto.spec.name = e.name := rfl

@[simp] theorem fromProto_toProto (e : Entity) (p : String) :
    fromProto (e.toProto.withProject p) = e := rfl

end Entity

namespace FeatureService

/-- Modelled from the spec: `FeatureService.to_proto`. -/
def toProto (fs : FeatureService) : ObjectProto :=
  { spec := { name := fs.name, project := "", definition := fs.definition } }

/-- Modelled from the spec: `FeatureService.from_proto`. -/
def fromProto (o : ObjectProto) : FeatureService :=
  { name := o.spec.name, definition := o.spec.definition }

@[simp] theorem toProto_name (fs : FeatureService) : fs.toProto.spec.name = fs.name := rfl

@[simp] theorem fromProto_toProto (fs : FeatureService) (p : String) :
    fromProto (fs.toProto.withProject p) = fs := rfl

end FeatureService

namespace FeatureView

/-- Modelled from the spec: `to_proto` of a feature view; the created timestamp and the
materialization intervals go to `meta`. The released `RequestFeatureView` proto (not in `src/`) has
no `meta`: for a request feature view the two fields exist only in the model. -/
def toProto (fv : FeatureView) : ObjectProto :=
  { spec := { name := fv.name, project := "", definition := fv.definition }
    meta := { createdTimestamp := fv.createdTimestamp
              materializationIntervals := fv.materializationIntervals } }

/-- Modelled from the spec: `from_proto` of the class whose proto class is `k`. -/
def fromProto (k : FeatureViewKind) (o : ObjectProto) : FeatureView :=
  { cls := some k, name := o.spec.name, definition := o.spec.definition
    createdTimestamp := o.meta.createdTimestamp
    materializationIntervals := o.meta.materializationIntervals }

/-- Modelled from the spec: `__eq__` of the feature-view classes compares the class and the
definition, and neither the created timestamp nor the materialization intervals ("semantically
identical", so that re-applying avoids timestamp churn). -/
def eqv (a b : FeatureView) : Bool :=
  a.cls == b.cls && a.name == b.name && a.definition == b.definition

/-- Modelled from the spec: `ensure_valid`, which rejects a feature view without a name. -/
def ensureValid (fv : FeatureView) : Bool := !fv.name.isEmpty

@[simp] theorem toProto_name (fv : FeatureView) : fv.toProto.spec.name = fv.name := rfl

@[simp] theorem fromProto_name (k : FeatureViewKind) (o : ObjectProto) :
    (fromProto k o).name = o.spec.name := rfl

theorem eqv_refl (fv : FeatureView) : fv.eqv fv = true := by simp [eqv]

theorem fromProto_toProto_eqv (fv : FeatureView) (k : FeatureViewKind) (p : String)
    (h : fv.cls = some k) : (fromProto k (fv.toProto.withProject p)).eqv fv = true := by
  simp [eqv, fromProto, toProto, ObjectProto.withProject, h]

end FeatureView

/-- The errors a registry call raises. `fileNotFound` is the store's `FileNotFoundError`;
`validationError` is the `ValueError` of `is_valid` or `ensure_valid`; `valueError` carries the
message of the registry's own `ValueError`. -/
inductive RegistryError
  | fileNotFound
  | validationError
  | valueError (message : String)
  | conflictingFeatureViewNames (name : String)
  | entityNotFound (name project : String)
  | featureServiceNotFound (name project : String)
  | featureViewNotFound (name project : String)
  | onDemandFeatureViewNotFound (name project : String)
deriving DecidableEq, Repr

end Feast
