import FeastRegistry.OnlineResponse

/-!
# Entity rows of an online feature request

`inferOnlineEntityRows` (`_infer_online_entity_rows`) turns entity-row dicts, whose values are
`Value` protos or Python values, into `EntityRow` protos, in three loops that share
`entity_type_map`. The first loop flattens the rows: the type of each `Value` proto goes to
`entity_type_map`, where the types of one key must agree (`setInferredType`), and each other
value is appended to its key's list in `entity_python_values_map`. The second loop infers one
type from each key's Python values, which must agree with the key's `Value` protos. The third
loop encodes every Python value under its key's type.

The conversions of `feast.type_map` are parameters: `protoValueToValueType`
(`_proto_value_to_value_type`), `pythonValuesToFeastValueType`
(`python_values_to_feast_value_type`, a function, so it does not raise) and
`pythonValueToProtoValue` (`_python_value_to_proto_value(t, [value])[0]`).

Each loop has a step lemma and a run lemma: `flattenStep_cases` and `flatten_run` keep
`Flattened`, the relation between the first loop's state and the items it has read;
`infer_run` says what the second loop checks and sets; `encode_ok` says when the third loop
succeeds. `inferOnlineEntityRows_cases` assembles them: the function raises `TypeError` exactly
on `MixedTypes` rows, and otherwise returns `encodedRows`, with no `ValueError`.
-/

set_option autoImplicit false

namespace Feast

section EntityRows

variable {T V Py : Type}

/-- A value of an entity-row dict: a `Value` proto, or any other Python value. -/
inductive EntityValue (V Py : Type)
  | proto (value : V)
  | python (value : Py)
  deriving DecidableEq

/-- The `Value` proto, if the value is one. -/
def EntityValue.proto? : EntityValue V Py → Option V
  | .proto value => some value
  | .python _ => none

/-- The Python value, if the value is not a `Value` proto. -/
def EntityValue.python? : EntityValue V Py → Option Py
  | .proto _ => none
  | .python value => some value

/-- An `EntityRow` of `GetOnlineFeaturesRequestV2`: its `fields`, in insertion order. -/
structure EntityRow (V : Type) where
  fields : List (String × V)
  deriving DecidableEq

/-- The errors `_infer_online_entity_rows` raises, with the values their messages print. -/
inductive EntityRowsError (T : Type)
  | typeError (key : String) (existing inferred : T)
  | valueError (key : String)
  deriving DecidableEq

/-- The message of each error. -/
def EntityRowsError.message [ToString T] : EntityRowsError T → String
  | .typeError key existing inferred => "Input entity " ++ key ++ " has mixed types, " ++
    toString existing ++ " and " ++ toString inferred ++ ". That is not allowed."
  | .valueError key => "field " ++ key ++ " cannot have all null values for type inference."

/-- `entity_python_values_map[key].append(value)` on the `defaultdict(list)`, whose items are
kept in insertion order. -/
def appendValue (values : List (String × List Py)) (key : String) (value : Py) :
    List (String × List Py) :=
  if key ∈ values.map Prod.fst then
    values.map fun kv => if kv.1 = key then (kv.1, kv.2 ++ [value]) else kv
  else values ++ [(key, [value])]

section Model

variable [DecidableEq T]

/-- The check both inference loops make before `entity_type_map[key] = inferred_type`: a key
that has a type already must keep it. -/
def setInferredType (typeMap : String → Option T) (key : String) (inferred : T) :
    Except (EntityRowsError T) (String → Option T) :=
  match typeMap key with
  | some existing =>
    if existing ≠ inferred then .error (.typeError key existing inferred)
    else .ok (Function.update typeMap key (some inferred))
  | none => .ok (Function.update typeMap key (some inferred))

variable (protoValueToValueType : V → T) (pythonValuesToFeastValueType : String → List Py → T)
  (pythonValueToProtoValue : T → Py → V)

/-- One item of the first loop: a `Value` proto's type goes to `entity_type_map`, any other
value to `entity_python_values_map`. -/
def flattenStep (state : (String → Option T) × List (String × List Py))
    (item : String × EntityValue V Py) :
    Except (EntityRowsError T) ((String → Option T) × List (String × List Py)) :=
  match item.2 with
  | .proto value => do
    let typeMap ← setInferredType state.1 item.1 (protoValueToValueType value)
    pure (typeMap, state.2)
  | .python value => .ok (state.1, appendValue state.2 item.1 value)

/-- One key of the second loop, with the Python values given for it. -/
def inferStep (typeMap : String → Option T) (entry : String × List Py) :
    Except (EntityRowsError T) (String → Option T) :=
  setInferredType typeMap entry.1 (pythonValuesToFeastValueType entry.1 entry.2)

/-- The third loop for one row. -/
def encodeRow (typeMap : String → Option T) (row : Dict (EntityValue V Py)) :
    Except (EntityRowsError T) (EntityRow V) := do
  let fields ← row.items.mapM fun (key, value) =>
    match typeMap key with
    | none => .error (.valueError key)
    | some valueType => .ok (key, match value with
      | .proto value => value
      | .python value => pythonValueToProtoValue valueType value)
  pure ⟨fields⟩

/-- `_infer_online_entity_rows`. -/
def inferOnlineEntityRows (entityRows : List (Dict (EntityValue V Py))) :
    Except (EntityRowsError T) (List (EntityRow V)) := do
  let (typeMap, pythonValues) ← (entityRows.flatMap (·.items)).foldlM
    (flattenStep protoValueToValueType) (fun _ => none, [])
  let typeMap ← pythonValues.foldlM (inferStep pythonValuesToFeastValueType) typeMap
  entityRows.mapM (encodeRow pythonValueToProtoValue typeMap)

end Model

/-! What the function is for: one type per key. -/

section Spec

variable (protoValueToValueType : V → T) (pythonValuesToFeastValueType : String → List Py → T)
  (pythonValueToProtoValue : T → Py → V)

/-- The types of the `Value` protos given for `key` among `items`, in order. -/
def protoTypesOf (items : List (String × EntityValue V Py)) (key : String) : List T :=
  items.filterMap fun item => if item.1 = key then item.2.proto?.map protoValueToValueType else none

/-- The Python values given for `key` among `items`, in order. -/
def pythonValuesOf (items : List (String × EntityValue V Py)) (key : String) : List Py :=
  items.filterMap fun item => if item.1 = key then item.2.python? else none

/-- Some key of the rows has two `Value` protos of different types, or a `Value` proto whose
type is not the one inferred from all Python values of the key. -/
def MixedTypes (entityRows : List (Dict (EntityValue V Py))) : Prop :=
  let items := entityRows.flatMap (·.items)
  ∃ key, (∃ a ∈ protoTypesOf protoValueToValueType items key,
      ∃ b ∈ protoTypesOf protoValueToValueType items key, a ≠ b) ∨
    (pythonValuesOf items key ≠ [] ∧ ∃ a ∈ protoTypesOf protoValueToValueType items key,
      a ≠ pythonValuesToFeastValueType key (pythonValuesOf items key))

/-- The rows the function is meant to return: each row's items in order, `Value` protos
unchanged, and each Python value of `key` encoded under the type inferred from all Python values
of `key`. -/
def encodedRows (entityRows : List (Dict (EntityValue V Py))) : List (EntityRow V) :=
  let items := entityRows.flatMap (·.items)
  entityRows.map fun row => ⟨row.items.map fun item => (item.1, match item.2 with
    | .proto value => value
    | .python value => pythonValueToProtoValue
        (pythonValuesToFeastValueType item.1 (pythonValuesOf items item.1)) value)⟩

/-! The loops, one lemma each. -/

@[simp] theorem protoTypesOf_append_proto (items : List (String × EntityValue V Py))
    (k : String) (value : V) (key : String) :
    protoTypesOf protoValueToValueType (items ++ [(k, .proto value)]) key =
      protoTypesOf protoValueToValueType items key ++
        if k = key then [protoValueToValueType value] else [] := by
  by_cases h : k = key <;> simp [protoTypesOf, EntityValue.proto?, h]

@[simp] theorem protoTypesOf_append_python (items : List (String × EntityValue V Py))
    (k : String) (value : Py) (key : String) :
    protoTypesOf protoValueToValueType (items ++ [(k, .python value)]) key =
      protoTypesOf protoValueToValueType items key := by
  simp [protoTypesOf, EntityValue.proto?]

@[simp] theorem pythonValuesOf_append_proto (items : List (String × EntityValue V Py))
    (k : String) (value : V) (key : String) :
    pythonValuesOf (items ++ [(k, .proto value)]) key = pythonValuesOf items key := by
  simp [pythonValuesOf, EntityValue.python?]

@[simp] theorem pythonValuesOf_append_python (items : List (String × EntityValue V Py))
    (k : String) (value : Py) (key : String) :
    pythonValuesOf (items ++ [(k, .python value)]) key =
      pythonValuesOf items key ++ if k = key then [value] else [] := by
  by_cases h : k = key <;> simp [pythonValuesOf, EntityValue.python?, h]

theorem mem_protoTypesOf {items : List (String × EntityValue V Py)} {key : String} {value : V}
    (h : (key, .proto value) ∈ items) :
    protoValueToValueType value ∈ protoTypesOf protoValueToValueType items key :=
  List.mem_filterMap.mpr ⟨_, h, by simp [EntityValue.proto?]⟩

theorem mem_pythonValuesOf {items : List (String × EntityValue V Py)} {key : String} {value : Py}
    (h : (key, .python value) ∈ items) : value ∈ pythonValuesOf items key :=
  List.mem_filterMap.mpr ⟨_, h, by simp [EntityValue.python?]⟩

/-- The items of a `defaultdict(list)` hold the lists `lists`: their keys are distinct, each
key's list is `lists key`, and the keys are those whose list is not empty. -/
structure Represents (values : List (String × List Py)) (lists : String → List Py) : Prop where
  nodup : (values.map Prod.fst).Nodup
  value : ∀ kv ∈ values, kv.2 = lists kv.1
  mem : ∀ key, key ∈ values.map Prod.fst ↔ lists key ≠ []

/-- `entity_python_values_map[key].append(value)` appends `value` to the list of `key`. -/
theorem Represents.append {values : List (String × List Py)} {lists : String → List Py}
    (h : Represents values lists) (key : String) (value : Py) :
    Represents (appendValue values key value)
      fun k => lists k ++ if key = k then [value] else [] := by
  unfold appendValue
  split_ifs with hk
  · have hkeys : (values.map fun kv => if kv.1 = key then (kv.1, kv.2 ++ [value]) else kv).map
        Prod.fst = values.map Prod.fst := by
      simp only [List.map_map]
      congr 1
      funext kv
      by_cases hkey : kv.1 = key <;> simp [hkey]
    refine ⟨hkeys ▸ h.nodup, ?_, fun k => ?_⟩
    · simp only [List.mem_map]
      rintro _ ⟨kv, hkv, rfl⟩
      by_cases hkey : kv.1 = key <;> simp [hkey, Ne.symm, h.value kv hkv]
    · rw [hkeys, h.mem]
      by_cases hkey : key = k
      · subst hkey; simpa using (h.mem key).mp hk
      · simp [hkey]
  · have hnil : lists key = [] := by simpa using mt (h.mem key).mpr hk
    refine ⟨?_, ?_, fun k => ?_⟩
    · simp only [List.map_append, List.map_cons, List.map_nil]
      exact h.nodup.append (List.nodup_singleton key) (List.disjoint_singleton.mpr hk)
    · simp only [List.mem_append, List.mem_singleton]
      rintro kv (hkv | rfl)
      · have hne : kv.1 ≠ key := fun he => hk (he ▸ List.mem_map_of_mem _ hkv)
        simp [Ne.symm hne, h.value kv hkv]
      · simp [hnil]
    · by_cases hkey : key = k
      · subst hkey; simp
      · simp [hkey, Ne.symm hkey, h.mem]

/-- The state of the first loop after the items `done`: `entity_type_map` holds the type of
each key's first `Value` proto, and `entity_python_values_map` each key's Python values. -/
structure Flattened (done : List (String × EntityValue V Py))
    (state : (String → Option T) × List (String × List Py)) : Prop where
  typeMap : ∀ key, state.1 key = (protoTypesOf protoValueToValueType done key).head?
  values : Represents state.2 (pythonValuesOf done)

/-- The `Value` protos of each key among `items` have one type. -/
def ProtoAgree (items : List (String × EntityValue V Py)) : Prop :=
  ∀ key, ∀ a ∈ protoTypesOf protoValueToValueType items key,
    ∀ b ∈ protoTypesOf protoValueToValueType items key, a = b

theorem ProtoAgree.of_append {items items' : List (String × EntityValue V Py)}
    (h : ProtoAgree protoValueToValueType (items ++ items')) :
    ProtoAgree protoValueToValueType items := fun key a ha b hb =>
  h key a (by simp [protoTypesOf, List.filterMap_append] at ha ⊢; exact .inl ha)
    b (by simp [protoTypesOf, List.filterMap_append] at hb ⊢; exact .inl hb)

end Spec

section Loops

variable [DecidableEq T] (protoValueToValueType : V → T)
  (pythonValuesToFeastValueType : String → List Py → T) (pythonValueToProtoValue : T → Py → V)

theorem setInferredType_cases (typeMap : String → Option T) (key : String) (inferred : T) :
    (∃ existing, typeMap key = some existing ∧ existing ≠ inferred ∧
      setInferredType typeMap key inferred = .error (.typeError key existing inferred)) ∨
    ((∀ existing, typeMap key = some existing → existing = inferred) ∧
      setInferredType typeMap key inferred = .ok (Function.update typeMap key (some inferred))) := by
  unfold setInferredType
  rcases h : typeMap key with _ | existing
  · simp
  · by_cases he : existing = inferred <;> simp [he]

/-- An item of the first loop keeps `Flattened`, or raises `TypeError` on a `Value` proto whose
type differs from an earlier one of its key. -/
theorem flattenStep_cases {done : List (String × EntityValue V Py)}
    {state : (String → Option T) × List (String × List Py)}
    (hs : Flattened protoValueToValueType done state)
    (hagree : ProtoAgree protoValueToValueType done) (item : String × EntityValue V Py) :
    (¬ProtoAgree protoValueToValueType (done ++ [item]) ∧ ∃ key existing inferred,
      flattenStep protoValueToValueType state item = .error (.typeError key existing inferred)) ∨
    (ProtoAgree protoValueToValueType (done ++ [item]) ∧ ∃ state',
      flattenStep protoValueToValueType state item = .ok state' ∧
      Flattened protoValueToValueType (done ++ [item]) state') := by
  obtain ⟨key, value | value⟩ := item
  · rcases setInferredType_cases state.1 key (protoValueToValueType value) with
      ⟨existing, he, hne, herr⟩ | ⟨hkeep, hok⟩
    · have hmem : existing ∈ protoTypesOf protoValueToValueType done key :=
        List.mem_of_mem_head? ((hs.typeMap key).symm.trans he)
      refine .inl ⟨fun h => hne (h key existing (by simp [hmem]) (protoValueToValueType value) (by simp)), key, existing,
        protoValueToValueType value, ?_⟩
      simp only [flattenStep, herr]
      rfl
    · have hall : ∀ a ∈ protoTypesOf protoValueToValueType done key ++
          [protoValueToValueType value], a = protoValueToValueType value := by
        rcases hl : protoTypesOf protoValueToValueType done key with _ | ⟨b, l⟩
        · simp
        · have hb : b = protoValueToValueType value := hkeep b ((hs.typeMap key).trans (by simp [hl]))
          intro a ha
          rcases List.mem_append.mp ha with ha | ha
          · exact (hagree key a (hl ▸ ha) b (by simp [hl])).trans hb
          · simpa using ha
      refine .inr ⟨fun k a ha b hb => ?_,
        (Function.update state.1 key (some (protoValueToValueType value)), state.2),
        by simp only [flattenStep, hok]; rfl,
        ⟨fun k => ?_, funext (pythonValuesOf_append_proto done key value) ▸ hs.values⟩⟩
      · simp only [protoTypesOf_append_proto] at ha hb
        by_cases hk : key = k
        · subst hk
          simp only [if_true] at ha hb
          exact (hall a ha).trans (hall b hb).symm
        · simp only [hk, if_false, List.append_nil] at ha hb
          exact hagree k a ha b hb
      · by_cases hk : k = key
        · subst hk
          rcases hl : protoTypesOf protoValueToValueType done k with _ | ⟨b, l⟩
          · simp [hl]
          · simpa [hl] using (hall b (by simp [hl])).symm
        · simp [Function.update_noteq hk, hs.typeMap k, Ne.symm hk]
  · exact .inr ⟨fun k => by simpa using hagree k, _, rfl,
      ⟨fun k => by simpa using hs.typeMap k,
        funext (pythonValuesOf_append_python done key value) ▸ hs.values.append key value⟩⟩

/-- The first loop, from the state after `done`: it raises `TypeError` when some key's `Value`
protos disagree, and otherwise ends in the state `Flattened` over all items. -/
theorem flatten_run : ∀ (items done : List (String × EntityValue V Py))
    (state : (String → Option T) × List (String × List Py)),
    Flattened protoValueToValueType done state → ProtoAgree protoValueToValueType done →
    (¬ProtoAgree protoValueToValueType (done ++ items) ∧ ∃ key existing inferred,
      items.foldlM (flattenStep protoValueToValueType) state =
        .error (.typeError key existing inferred)) ∨
    (ProtoAgree protoValueToValueType (done ++ items) ∧ ∃ state',
      items.foldlM (flattenStep protoValueToValueType) state = .ok state' ∧
      Flattened protoValueToValueType (done ++ items) state')
  | [], done, state, hs, hagree => .inr ⟨by simpa using hagree, state, rfl, by simpa using hs⟩
  | item :: items, done, state, hs, hagree => by
    rcases flattenStep_cases protoValueToValueType hs hagree item with
      ⟨hbad, key, existing, inferred, herr⟩ | ⟨hagree₁, state₁, hok, hs₁⟩
    · refine .inl ⟨fun h => hbad (ProtoAgree.of_append protoValueToValueType
        (show ProtoAgree protoValueToValueType (done ++ [item] ++ items) by simpa using h)),
        key, existing, inferred, ?_⟩
      rw [List.foldlM_cons, herr]
      rfl
    · rw [List.foldlM_cons, hok]
      simpa using flatten_run items (done ++ [item]) state₁ hs₁ hagree₁

/-- The second loop over the distinct keys `entries`: it raises `TypeError` when a key's type
differs from the one inferred from its Python values, and otherwise sets each key to its
inferred type and leaves the other keys. -/
theorem infer_run : ∀ (entries : List (String × List Py)) (typeMap : String → Option T),
    (entries.map Prod.fst).Nodup →
    ((∃ entry ∈ entries, ∃ existing, typeMap entry.1 = some existing ∧
        existing ≠ pythonValuesToFeastValueType entry.1 entry.2) ∧
      ∃ key existing inferred, entries.foldlM (inferStep pythonValuesToFeastValueType) typeMap =
        .error (.typeError key existing inferred)) ∨
    ((∀ entry ∈ entries, ∀ existing, typeMap entry.1 = some existing →
        existing = pythonValuesToFeastValueType entry.1 entry.2) ∧
      ∃ typeMap', entries.foldlM (inferStep pythonValuesToFeastValueType) typeMap = .ok typeMap' ∧
        (∀ entry ∈ entries,
          typeMap' entry.1 = some (pythonValuesToFeastValueType entry.1 entry.2)) ∧
        ∀ key ∉ entries.map Prod.fst, typeMap' key = typeMap key)
  | [], typeMap, _ => .inr ⟨by simp, typeMap, rfl, by simp, fun _ _ => rfl⟩
  | (key, values) :: entries, typeMap, hnodup => by
    obtain ⟨hkey, hnodup⟩ := List.nodup_cons.mp hnodup
    have hne : ∀ entry ∈ entries, entry.1 ≠ key := fun entry h he =>
      hkey (List.mem_map.mpr ⟨entry, h, he⟩)
    rcases setInferredType_cases typeMap key (pythonValuesToFeastValueType key values) with
      ⟨existing, he, hbad, herr⟩ | ⟨hkeep, hok⟩
    · refine .inl ⟨⟨(key, values), List.mem_cons_self _ _, existing, he, hbad⟩, key, existing,
        pythonValuesToFeastValueType key values, ?_⟩
      simp only [List.foldlM_cons, inferStep, herr]
      rfl
    · have hrun := infer_run entries
        (Function.update typeMap key (some (pythonValuesToFeastValueType key values))) hnodup
      simp only [List.foldlM_cons, inferStep, hok]
      rcases hrun with ⟨⟨entry, hmem, existing, he, hbad⟩, herr⟩ |
        ⟨hall, typeMap', hrun, hset, hrest⟩
      · refine .inl ⟨⟨entry, List.mem_cons_of_mem _ hmem, existing,
          by rwa [Function.update_noteq (hne entry hmem)] at he, hbad⟩, herr⟩
      · refine .inr ⟨?_, typeMap', hrun, ?_, fun k hk => ?_⟩
        · simp only [List.mem_cons, forall_eq_or_imp]
          exact ⟨hkeep, fun entry hmem existing he => hall entry hmem existing
            (by rwa [Function.update_noteq (hne entry hmem)])⟩
        · simp only [List.mem_cons, forall_eq_or_imp]
          exact ⟨by simp [hrest key hkey], hset⟩
        · simp only [List.map_cons, List.mem_cons, not_or] at hk
          rw [hrest k hk.2, Function.update_noteq hk.1]

omit [DecidableEq T] in
/-- The third loop returns the encoded rows when every key has a type, and every key with
Python values the type inferred from them. -/
theorem encode_ok (entityRows : List (Dict (EntityValue V Py))) (typeMap : String → Option T)
    (htype : ∀ item ∈ entityRows.flatMap (·.items), ∃ valueType, typeMap item.1 = some valueType ∧
      ∀ value, item.2 = .python value → valueType = pythonValuesToFeastValueType item.1
        (pythonValuesOf (entityRows.flatMap (·.items)) item.1)) :
    entityRows.mapM (encodeRow pythonValueToProtoValue typeMap) =
      .ok (encodedRows pythonValuesToFeastValueType pythonValueToProtoValue entityRows) := by
  refine mapM_except_ok fun row hrow => ?_
  unfold encodeRow
  rw [mapM_except_ok fun item hitem => ?_]
  · rfl
  obtain ⟨valueType, hvt, hpy⟩ := htype item (List.mem_flatMap.mpr ⟨row, hrow, hitem⟩)
  obtain ⟨key, value | value⟩ := item
  · simp [hvt]
  · simp [hvt, hpy value rfl]

/-- What `_infer_online_entity_rows` does on every list of rows: it raises `TypeError` on rows
with mixed types, and otherwise returns the encoded rows. -/
theorem inferOnlineEntityRows_cases (entityRows : List (Dict (EntityValue V Py))) :
    (MixedTypes protoValueToValueType pythonValuesToFeastValueType entityRows ∧
      ∃ key existing inferred, inferOnlineEntityRows protoValueToValueType
        pythonValuesToFeastValueType pythonValueToProtoValue entityRows =
          .error (.typeError key existing inferred)) ∨
    (¬MixedTypes protoValueToValueType pythonValuesToFeastValueType entityRows ∧
      inferOnlineEntityRows protoValueToValueType pythonValuesToFeastValueType
        pythonValueToProtoValue entityRows =
          .ok (encodedRows pythonValuesToFeastValueType pythonValueToProtoValue entityRows)) := by
  have hinit : Flattened protoValueToValueType ([] : List (String × EntityValue V Py))
      ((fun _ => none, []) : (String → Option T) × List (String × List Py)) :=
    ⟨fun _ => rfl, ⟨List.nodup_nil, by simp, by simp [pythonValuesOf]⟩⟩
  rcases flatten_run protoValueToValueType (entityRows.flatMap (·.items)) [] _ hinit
      (fun _ _ ha => by simp [protoTypesOf] at ha) with
    ⟨hbad, key, existing, inferred, herr⟩ | ⟨hagree, ⟨typeMap, values⟩, hflat, hs⟩
  · refine .inl ⟨?_, key, existing, inferred, by rw [inferOnlineEntityRows, herr]; rfl⟩
    simp only [ProtoAgree, List.nil_append, not_forall] at hbad
    obtain ⟨k, a, ha, b, hb, hab⟩ := hbad
    exact ⟨k, .inl ⟨a, ha, b, hb, hab⟩⟩
  rw [List.nil_append] at hagree hs
  have hfirst : ∀ key, ∀ a ∈ protoTypesOf protoValueToValueType (entityRows.flatMap (·.items)) key,
      typeMap key = some a := fun key a ha => by
    rcases hl : protoTypesOf protoValueToValueType (entityRows.flatMap (·.items)) key with
      _ | ⟨b, l⟩
    · simp [hl] at ha
    · exact (hs.typeMap key).trans (by rw [hl, hagree key a ha b (by simp [hl])]; rfl)
  rcases infer_run pythonValuesToFeastValueType values typeMap hs.values.nodup with
    ⟨⟨entry, hmem, e, he, hne⟩, key, ex, inf, herr⟩ | ⟨hall, typeMap', hrun, hset, hrest⟩
  · refine .inl ⟨⟨entry.1, .inr ⟨(hs.values.mem entry.1).mp (List.mem_map_of_mem _ hmem), e,
      List.mem_of_mem_head? ((hs.typeMap entry.1).symm.trans he),
      hs.values.value entry hmem ▸ hne⟩⟩, key, ex, inf, ?_⟩
    rw [inferOnlineEntityRows, hflat]
    show (values.foldlM (inferStep pythonValuesToFeastValueType) typeMap >>= fun typeMap =>
      entityRows.mapM (encodeRow pythonValueToProtoValue typeMap)) = _
    rw [herr]
    rfl
  refine .inr ⟨?_, ?_⟩
  · rintro ⟨key, ⟨a, ha, b, hb, hab⟩ | ⟨hne, a, ha, hab⟩⟩
    · exact hab (hagree key a ha b hb)
    · obtain ⟨⟨k, vs⟩, hmem, rfl⟩ := List.mem_map.mp ((hs.values.mem key).mpr hne)
      have hvs : vs = pythonValuesOf (entityRows.flatMap (·.items)) k := hs.values.value _ hmem
      exact hab (hvs ▸ hall (k, vs) hmem a (hfirst k a ha))
  · rw [inferOnlineEntityRows, hflat]
    show (values.foldlM (inferStep pythonValuesToFeastValueType) typeMap >>= fun typeMap =>
      entityRows.mapM (encodeRow pythonValueToProtoValue typeMap)) = _
    rw [hrun]
    refine encode_ok pythonValuesToFeastValueType pythonValueToProtoValue entityRows typeMap'
      fun item hitem => ?_
    have hkeyed : ∀ vs, (item.1, vs) ∈ values → typeMap' item.1 =
        some (pythonValuesToFeastValueType item.1
          (pythonValuesOf (entityRows.flatMap (·.items)) item.1)) := fun vs hmem => by
      rw [← hs.values.value _ hmem]
      exact hset _ hmem
    obtain ⟨key, value | value⟩ := item
    · by_cases hk : key ∈ values.map Prod.fst
      · obtain ⟨⟨k, vs⟩, hmem, rfl⟩ := List.mem_map.mp hk
        exact ⟨_, hkeyed vs hmem, fun _ h => by cases h⟩
      · exact ⟨_, (hrest key hk).trans (hfirst key _ (mem_protoTypesOf _ hitem)),
          fun _ h => by cases h⟩
    · obtain ⟨⟨k, vs⟩, hmem, hk⟩ := List.mem_map.mp ((hs.values.mem key).mpr
        (List.ne_nil_of_mem (mem_pythonValuesOf hitem)))
      subst hk
      exact ⟨_, hkeyed vs hmem, fun _ _ => rfl⟩

theorem inferOnlineEntityRows_one_type_per_key (entityRows : List (Dict (EntityValue V Py))) :
    ((∃ key existing inferred, inferOnlineEntityRows protoValueToValueType
        pythonValuesToFeastValueType pythonValueToProtoValue entityRows =
          .error (.typeError key existing inferred)) ↔
      MixedTypes protoValueToValueType pythonValuesToFeastValueType entityRows) ∧
    (inferOnlineEntityRows protoValueToValueType pythonValuesToFeastValueType
        pythonValueToProtoValue entityRows =
          .ok (encodedRows pythonValuesToFeastValueType pythonValueToProtoValue entityRows) ↔
      ¬MixedTypes protoValueToValueType pythonValuesToFeastValueType entityRows) ∧
    ∀ key, inferOnlineEntityRows protoValueToValueType pythonValuesToFeastValueType
      pythonValueToProtoValue entityRows ≠ .error (.valueError key) := by
  rcases inferOnlineEntityRows_cases protoValueToValueType pythonValuesToFeastValueType
      pythonValueToProtoValue entityRows with ⟨hmixed, key, existing, inferred, herr⟩ | ⟨hmixed, hok⟩
  · rw [herr]
    exact ⟨iff_of_true ⟨key, existing, inferred, rfl⟩ hmixed,
      iff_of_false (fun h => by cases h) (not_not.mpr hmixed), fun _ h => by cases h⟩
  · rw [hok]
    exact ⟨iff_of_false (fun ⟨_, _, _, h⟩ => by cases h) hmixed, iff_of_true rfl hmixed,
      fun _ h => by cases h⟩

/-- A `Value` proto of type `STRING` and a Python value inferred as `INT64` under one key. -/
example :
    inferOnlineEntityRows (Prod.fst : String × Int → String) (fun _ (_ : List Int) => "INT64")
      Prod.mk [⟨[("driver_id", .python 1001)], by simp⟩,
        ⟨[("driver_id", .proto ("STRING", 0))], by simp⟩] =
      .error (.typeError "driver_id" "STRING" "INT64") := by
  decide

end Loops

end EntityRows

end Feast
