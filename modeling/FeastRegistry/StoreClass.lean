import FeastRegistry.Calls

/-!
# Choosing the registry store class

`Registry.__init__` picks the class of its registry store from the configured
`registry_store_type`, or else from the scheme of the registry path.
`get_registry_store_class_from_type` checks the `RegistryStore` suffix, resolves the three
built-in names through `REGISTRY_STORE_CLASS_FOR_TYPE`, and splits the result at its last `.`
into the module and the class that `importer.get_class_from_type` loads (outside this module:
the model returns the two names). `get_registry_store_class_from_scheme` maps the scheme through
`REGISTRY_STORE_CLASS_FOR_SCHEME`; the scheme is the one `urlparse` finds, given with the path.

For every type name the lookup does one of three things (`getRegistryStoreClassFromType_spec`):
it raises the suffix `Exception` exactly when the name does not end with `RegistryStore`; it
raises the `ValueError` of unpacking `rsplit(".", 1)` exactly when the name ends with it but is
neither a built-in name nor qualified by a module; otherwise the two names make up the resolved
name, and the class is unqualified and ends with `RegistryStore`.
-/

set_option autoImplicit false

namespace Feast

/-- `REGISTRY_STORE_CLASS_FOR_TYPE`. -/
def registryStoreClassForType : List (String × String) :=
  [("GCSRegistryStore", "feast.infra.gcp.GCSRegistryStore"),
    ("S3RegistryStore", "feast.infra.aws.S3RegistryStore"),
    ("LocalRegistryStore", "feast.infra.local.LocalRegistryStore")]

/-- `REGISTRY_STORE_CLASS_FOR_SCHEME`. -/
def registryStoreClassForScheme : List (String × String) :=
  [("gs", "GCSRegistryStore"), ("s3", "S3RegistryStore"), ("file", "LocalRegistryStore"),
    ("", "LocalRegistryStore")]

/-- The errors of the lookup: the `Exception` it raises, with its message, and the `ValueError`
of unpacking `rsplit(".", 1)` into two names. -/
inductive StoreClassError
  | exception (message : String)
  | valueError
deriving DecidableEq, Repr

/-- Python's `s.endswith(suffix)`. -/
def endsWith (s suffix : String) : Bool := suffix.toList.isSuffixOf s.toList

/-- Python's `s.rsplit(".", 1)`: the text before the last `.` and the text after it, or `[s]`
when `s` has no `.`. -/
def rsplitDot (s : String) : List String :=
  match s.toList.reverse.dropWhile (· != '.') with
  | [] => [s]
  | _ :: revModule =>
    [String.mk revModule.reverse, String.mk (s.toList.reverse.takeWhile (· != '.')).reverse]

/-- The message of the suffix check. -/
def registryStoreSuffixMessage : String :=
  "Registry store class name should end with \"RegistryStore\""

/-- `get_registry_store_class_from_type`: the module and class names it passes to
`importer.get_class_from_type`. -/
def getRegistryStoreClassFromType (registryStoreType : String) :
    Except StoreClassError (String × String) :=
  if !endsWith registryStoreType "RegistryStore" then
    .error (.exception registryStoreSuffixMessage)
  else
    match rsplitDot ((dictGet registryStoreClassForType registryStoreType).getD registryStoreType) with
    | [moduleName, registryStoreClassName] => .ok (moduleName, registryStoreClassName)
    | _ => .error .valueError

/-- `get_registry_store_class_from_scheme`, given the scheme `urlparse` finds in the path. -/
def getRegistryStoreClassFromScheme (registryPath scheme : String) :
    Except StoreClassError (String × String) :=
  match dictGet registryStoreClassForScheme scheme with
  | some registryStoreType => getRegistryStoreClassFromType registryStoreType
  | none => .error (.exception ("Registry path " ++ registryPath ++ " has unsupported scheme " ++
      scheme ++ ". Supported schemes are file, s3 and gs."))

/-! ## `rsplit` -/

theorem isPrefixOf_takeWhile {α : Type} [BEq α] [LawfulBEq α] (q : α → Bool) :
    ∀ {p l : List α}, p.isPrefixOf l = true → (∀ x ∈ p, q x = true) →
      p.isPrefixOf (l.takeWhile q) = true
  | [], _, _, _ => List.isPrefixOf_nil_left
  | _ :: _, [], h, _ => by cases h
  | a :: p, b :: l, h, hq => by
    simp only [List.isPrefixOf, Bool.and_eq_true, beq_iff_eq] at h
    obtain ⟨rfl, h⟩ := h
    rw [List.takeWhile_cons_of_pos (hq a (List.mem_cons_self _ _))]
    simpa using isPrefixOf_takeWhile q h fun x hx => hq x (List.mem_cons_of_mem _ hx)

theorem rsplitDot_of_not_mem {s : String} (h : '.' ∉ s.toList) : rsplitDot s = [s] := by
  have hd : s.toList.reverse.dropWhile (· != '.') = [] :=
    List.dropWhile_eq_nil_iff.2 fun x hx => bne_iff_ne.2 fun e => by
      rw [e] at hx; exact h (List.mem_reverse.1 hx)
  simp only [rsplitDot, hd]

/-- With a `.` in `s`, `rsplit` splits it at its last `.`: the class part is the longest suffix
without a `.`. -/
theorem rsplitDot_of_mem {s : String} (h : '.' ∈ s.toList) :
    ∃ m c, rsplitDot s = [m, c] ∧ s = m ++ "." ++ c ∧ '.' ∉ c.toList ∧
      c.toList.reverse = s.toList.reverse.takeWhile (· != '.') := by
  cases hd : s.toList.reverse.dropWhile (· != '.') with
  | nil =>
    have := List.dropWhile_eq_nil_iff.1 hd '.' (List.mem_reverse.2 h)
    simp at this
  | cons y revModule =>
    have hy : y = '.' := by
      have := List.head?_dropWhile_not (· != '.') s.toList.reverse
      rw [hd] at this
      simpa using this
    have hsplit := List.takeWhile_append_dropWhile (· != '.') s.toList.reverse
    rw [hd, hy] at hsplit
    refine ⟨String.mk revModule.reverse, String.mk (s.toList.reverse.takeWhile (· != '.')).reverse,
      by simp only [rsplitDot, hd], String.ext ?_, fun hc => ?_, by simp⟩
    · have := congrArg List.reverse hsplit
      simp only [List.reverse_append, List.reverse_cons, List.reverse_reverse] at this
      rw [String.data_append, String.data_append]
      exact this.symm
    · have := List.mem_takeWhile_imp (List.mem_reverse.1 hc)
      simp at this

/-! ## The lookup -/

theorem dictGet_registryStoreClassForType {t v : String}
    (h : dictGet registryStoreClassForType t = some v) :
    endsWith v "RegistryStore" = true ∧ '.' ∈ v.toList := by
  obtain ⟨x, hx, rfl⟩ := Option.map_eq_some'.1 h
  have hmem := List.mem_reverse.1 (List.mem_of_find?_eq_some hx)
  simp only [registryStoreClassForType, List.mem_cons, List.mem_singleton, List.not_mem_nil,
    or_false] at hmem
  rcases hmem with rfl | rfl | rfl <;> decide

/-- The store class lookup for every type name: it raises the suffix `Exception` exactly when the
name does not end with `RegistryStore`; it raises the `ValueError` of the unpacking exactly when
the name ends with it but is neither a built-in name nor qualified by a module; otherwise the
module and the class it returns make up the resolved name, and the class is unqualified and ends
with `RegistryStore`. -/
theorem getRegistryStoreClassFromType_spec (t : String) :
    (getRegistryStoreClassFromType t = .error (.exception registryStoreSuffixMessage) ↔
        endsWith t "RegistryStore" = false) ∧
      (getRegistryStoreClassFromType t = .error .valueError ↔
        endsWith t "RegistryStore" = true ∧ dictGet registryStoreClassForType t = none ∧
          '.' ∉ t.toList) ∧
      ∀ m c, getRegistryStoreClassFromType t = .ok (m, c) →
        (dictGet registryStoreClassForType t).getD t = m ++ "." ++ c ∧ '.' ∉ c.toList ∧
          endsWith c "RegistryStore" = true := by
  cases he : endsWith t "RegistryStore"
  · have h : getRegistryStoreClassFromType t = .error (.exception registryStoreSuffixMessage) := by
      simp [getRegistryStoreClassFromType, he]
    simp [h]
  · have hresolved : endsWith ((dictGet registryStoreClassForType t).getD t) "RegistryStore" :=
      match hd : dictGet registryStoreClassForType t with
      | none => he
      | some _ => (dictGet_registryStoreClassForType hd).1
    by_cases hdot : '.' ∈ ((dictGet registryStoreClassForType t).getD t).toList
    · obtain ⟨m, c, hs, heq, hc, hrev⟩ := rsplitDot_of_mem hdot
      have h : getRegistryStoreClassFromType t = .ok (m, c) := by
        simp [getRegistryStoreClassFromType, he, hs]
      refine ⟨by simp [h], ⟨fun h' => (by rw [h] at h'; cases h'), fun ⟨_, hnone, hnd⟩ => ?_⟩,
        fun m' c' h' => ?_⟩
      · rw [hnone] at hdot; exact absurd hdot hnd
      · rw [h] at h'
        cases h'
        refine ⟨heq, hc, ?_⟩
        simp only [endsWith, List.isSuffixOf, hrev] at hresolved ⊢
        exact isPrefixOf_takeWhile _ hresolved (by decide)
    · have hnone : dictGet registryStoreClassForType t = none := by
        cases hd : dictGet registryStoreClassForType t with
        | none => rfl
        | some v => rw [hd] at hdot; exact absurd (dictGet_registryStoreClassForType hd).2 hdot
      have h : getRegistryStoreClassFromType t = .error .valueError := by
        simp [getRegistryStoreClassFromType, he, rsplitDot_of_not_mem hdot]
      rw [hnone, Option.getD_none] at hdot
      exact ⟨by simp [h], ⟨fun _ => ⟨rfl, hnone, hdot⟩, fun _ => h⟩,
        fun _ _ h' => by rw [h] at h'; cases h'⟩

/-- A qualified custom class name resolves to its module and class; an unqualified one that is
not built in fails on the unpacking. -/
example :
    getRegistryStoreClassFromType "my_stores.RedisRegistryStore" = .ok ("my_stores", "RedisRegistryStore") ∧
      getRegistryStoreClassFromType "RedisRegistryStore" = .error .valueError := by
  decide

/-- Every supported scheme resolves to a built-in class, and every other scheme raises the
`Exception` that names the path and the scheme. -/
theorem getRegistryStoreClassFromScheme_cases (registryPath scheme : String) :
    (scheme ∈ ["gs", "s3", "file", ""] ∧ ∃ m c, getRegistryStoreClassFromScheme registryPath scheme =
        .ok (m, c) ∧ (c, m ++ "." ++ c) ∈ registryStoreClassForType) ∨
      (scheme ∉ ["gs", "s3", "file", ""] ∧ getRegistryStoreClassFromScheme registryPath scheme =
        .error (.exception ("Registry path " ++ registryPath ++ " has unsupported scheme " ++ scheme ++
          ". Supported schemes are file, s3 and gs."))) := by
  by_cases hs : scheme ∈ ["gs", "s3", "file", ""]
  · simp only [List.mem_cons, List.mem_singleton, List.not_mem_nil, or_false] at hs
    rcases hs with rfl | rfl | rfl | rfl <;> exact .inl ⟨by decide, _, _, rfl, by decide⟩
  · refine .inr ⟨hs, ?_⟩
    have hnone : dictGet registryStoreClassForScheme scheme = none := by
      simp only [dictGet, Option.map_eq_none', List.find?_eq_none, List.mem_reverse, beq_iff_eq]
      intro x hx h
      exact hs (h ▸ List.mem_map_of_mem Prod.fst hx)
    simp [getRegistryStoreClassFromScheme, hnone]

end Feast
