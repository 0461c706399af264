import Mathlib.Data.List.Forall2
import Mathlib.Data.List.Infix
import Mathlib.Data.List.Nodup
import FeastRegistry.Calls

/-!
# Online responses as feature columns

`OnlineResponse.init` (`OnlineResponse.__init__`) drops the `DUMMY_ENTITY_ID` entry from the
statuses and the fields of every record of a `GetOnlineFeaturesResponse`, and
`OnlineResponse.toDict` (`to_dict`) builds one column per status key of the first record. The
`fields` of a record are a protobuf map of `Value` messages, so `row[feature]` never raises the
`KeyError` the code catches: a record without the feature hands out an empty `Value`
(`Dict.getMessage`). The first pass fixes each column's `val` member: the member set in the
first record, in record order, whose `Value` has one (`scanValType`, `scanValType_eq_findSome?`).
The second pass reads every record with `getattr` of that member (`readColumn`), which is the
member's default for a `Value` with another member or none set (`ValueProto.getattr_of_not_set`),
or fills the column with `None` when no record has a member set.

The main theorem, `toDict_reads_first_set_member`, says what `to_dict` returns on every response
with a record: for each status key but `DUMMY_ENTITY_ID`, in order, one entry per record, in
record order. The entry is `None` when no record has a member set for the key; otherwise it is
the record's content when its `Value` has the column's member set, and the member's default when
it has another member or none.

Does not prove: anything about `to_df`, which only hands the dict to pandas.
-/

set_option autoImplicit false

namespace Feast

/-- A Python dict, or a protobuf map, with string keys: its items in insertion order. Its keys
are distinct. -/
structure Dict (β : Type) where
  items : List (String × β)
  nodup : (items.map Prod.fst).Nodup

/-- The error `to_dict` raises: `IndexError` for `field_values[0]` of a response with no
record. -/
inductive ToDictError
  | indexError
  deriving DecidableEq

namespace Dict

variable {β : Type}

/-- `d.get(key)`. -/
def get? (d : Dict β) (key : String) : Option β :=
  (d.items.find? (·.1 == key)).map Prod.snd

/-- `d[key]` on a protobuf map of messages: the stored message, or the default message `empty`
when the key is missing (the map then holds it under the key, which no later read tells apart). -/
def getMessage (d : Dict β) (empty : β) (key : String) : β :=
  (d.get? key).getD empty

/-- `del d[key]` when `key in d`; nothing otherwise. -/
def erase (d : Dict β) (key : String) : Dict β :=
  ⟨d.items.filter (·.1 != key), ((List.filter_sublist d.items).map Prod.fst).nodup d.nodup⟩

theorem get?_erase_of_ne (d : Dict β) {key k : String} (h : key ≠ k) :
    (d.erase k).get? key = d.get? key := by
  simp only [get?, erase]
  induction d.items with
  | nil => rfl
  | cons x xs ih =>
    by_cases hx : x.1 = k <;> by_cases hx' : x.1 = key <;>
      simp_all [List.filter_cons, List.find?_cons]

theorem getMessage_erase_of_ne (d : Dict β) (empty : β) {key k : String} (h : key ≠ k) :
    (d.erase k).getMessage empty key = d.getMessage empty key := by
  rw [getMessage, getMessage, get?_erase_of_ne d h]

end Dict

/-- A `mapM` over `Except` whose every step succeeds is `.ok` of the map. -/
theorem mapM_except_ok {γ δ ε : Type} {f : γ → Except ε δ} {g : γ → δ} :
    ∀ {xs : List γ}, (∀ x ∈ xs, f x = .ok (g x)) → xs.mapM f = .ok (xs.map g)
  | [], _ => rfl
  | x :: xs, h => by
    simp only [List.mapM_cons, h x (List.mem_cons_self x xs),
      mapM_except_ok fun y hy => h y (List.mem_cons_of_mem x hy)]
    rfl

section OnlineResponse

variable {α : Type}

/-- A `Value` proto: the member set in its `val` oneof, with its content, if any. -/
structure ValueProto (α : Type) where
  val : Option (String × α)
  deriving DecidableEq

/-- `value.WhichOneof("val")`. -/
def ValueProto.whichOneof (value : ValueProto α) : Option String :=
  value.val.map Prod.fst

/-- A record of `GetOnlineFeaturesResponse.field_values`: the keys of its `statuses` map and its
`fields` map. `to_dict` reads no status value. -/
structure FieldValues (α : Type) where
  statuses : List String
  statuses_nodup : statuses.Nodup
  fields : Dict (ValueProto α)

/-- The records of a response, in order. -/
structure GetOnlineFeaturesResponse (α : Type) where
  fieldValues : List (FieldValues α)

/-- `OnlineResponse`: the response proto, after `__init__`. -/
structure OnlineResponse (α : Type) where
  proto : GetOnlineFeaturesResponse α

/-- The `__init__` loop body for one record: `del` of the key in `statuses` and in `fields`. -/
def FieldValues.deleteKey (key : String) (item : FieldValues α) : FieldValues α :=
  ⟨item.statuses.filter (· != key), item.statuses_nodup.filter _, item.fields.erase key⟩

/-- `OnlineResponse.__init__`, with `DUMMY_ENTITY_ID` as `dummyEntityId`. -/
def OnlineResponse.init (dummyEntityId : String) (proto : GetOnlineFeaturesResponse α) :
    OnlineResponse α :=
  ⟨⟨proto.fieldValues.map (·.deleteKey dummyEntityId)⟩⟩

/-- The `field_values` getter. -/
def OnlineResponse.fieldValues (resp : OnlineResponse α) : List (FieldValues α) :=
  resp.proto.fieldValues

/-- `"_list_" in val_type`: the member holds a list proto, such as `int64_list_val`. -/
def isListMember (member : String) : Bool :=
  decide ("_list_".data <:+: member.data)

/-- The inner loop of the first pass of `to_dict`: `val_types[feature]` after the rows `rows`.
The loop stops at the first row whose `Value` has a member set; a row without the feature reads
as the empty `Value`, so the `except KeyError` branch is never taken. -/
def scanValType (feature : String) : List (Dict (ValueProto α)) → Option String
  | [] => none
  | row :: rows =>
    match (row.getMessage ⟨none⟩ feature).whichOneof with
    | some member => some member
    | none => scanValType feature rows

/-- The column's member is the member set in the first row whose `Value` has one. -/
theorem scanValType_eq_findSome? (feature : String) (rows : List (Dict (ValueProto α))) :
    scanValType feature rows = rows.findSome? fun row => (row.getMessage ⟨none⟩ feature).whichOneof := by
  induction rows with
  | nil => rfl
  | cons row rows ih => rcases h : (row.getMessage ⟨none⟩ feature).whichOneof <;> simp [scanValType, h, ih]

theorem scanValType_erase {feature key : String} (h : feature ≠ key)
    (rows : List (Dict (ValueProto α))) :
    scanValType feature (rows.map (·.erase key)) = scanValType feature rows := by
  induction rows with
  | nil => rfl
  | cons row rows ih => simp only [List.map_cons, scanValType, row.getMessage_erase_of_ne _ h, ih]

variable (default : String → α) (listContents : α → α)

/-- `getattr(value, member)` for a member of the `val` oneof: its content when `member` is the
member set, and `default member`, the protobuf default of the member's type, otherwise. -/
def ValueProto.getattr (value : ValueProto α) (member : String) : α :=
  match value.val with
  | some (set, content) => if set = member then content else default member
  | none => default member

theorem ValueProto.getattr_of_set {value : ValueProto α} {member : String} {content : α}
    (h : value.val = some (member, content)) : value.getattr default member = content := by
  simp [getattr, h]

theorem ValueProto.getattr_of_not_set {value : ValueProto α} {member : String}
    (h : value.whichOneof ≠ some member) : value.getattr default member = default member := by
  unfold getattr
  split
  · next set content hv => simp_all [whichOneof]
  · rfl

/-- The entry the second pass of `to_dict` appends for a row's `Value` in a column of member
`member`: `getattr(value, member)`, and `list(val.val)` of it for a list member. -/
def entryOf (member : String) (value : ValueProto α) : α :=
  let val := value.getattr default member
  if isListMember member then listContents val else val

/-- An entry is the content of the column's member when the `Value` has it set, and the member's
default otherwise. -/
theorem entryOf_cases (member : String) (value : ValueProto α) :
    (∃ content, value.val = some (member, content) ∧ entryOf default listContents member value =
        if isListMember member then listContents content else content) ∨
      (value.whichOneof ≠ some member ∧ entryOf default listContents member value =
        if isListMember member then listContents (default member) else default member) := by
  by_cases h : value.whichOneof = some member
  · obtain ⟨⟨set, content⟩, hv, rfl⟩ := Option.map_eq_some'.1 h
    exact .inl ⟨content, hv, by rw [entryOf, ValueProto.getattr_of_set default hv]⟩
  · exact .inr ⟨h, by rw [entryOf, ValueProto.getattr_of_not_set default h]⟩

/-- The second pass of `to_dict` for one feature: `[None] * len(rows)` when no row has a member
set, and otherwise the entries of `val_type` for every row, in order. -/
def readColumn (rows : List (Dict (ValueProto α))) (feature : String) :
    Option String → List (Option α)
  | none => rows.map fun _ => none
  | some valType => rows.map fun row =>
    some (entryOf default listContents valType (row.getMessage ⟨none⟩ feature))

/-- `OnlineResponse.to_dict`: each status key of the first record, in order, with its column. -/
def OnlineResponse.toDict (resp : OnlineResponse α) :
    Except ToDictError (List (String × List (Option α))) :=
  match resp.fieldValues with
  | [] => .error .indexError
  | first :: records =>
    let rows := (first :: records).map (·.fields)
    let valTypes := first.statuses.map fun feature => (feature, scanValType feature rows)
    .ok (valTypes.map fun (feature, valType) =>
      (feature, readColumn default listContents rows feature valType))

theorem readColumn_erase {feature key : String} (h : feature ≠ key)
    (rows : List (Dict (ValueProto α))) (valType : Option String) :
    readColumn default listContents (rows.map (·.erase key)) feature valType =
      readColumn default listContents rows feature valType := by
  cases valType <;>
    simp only [readColumn, List.map_map, Function.comp_def, Dict.getMessage_erase_of_ne _ _ h]

/-- `to_dict` after `__init__`: the columns of the status keys of the first record but
`DUMMY_ENTITY_ID`, read from the records as they were. -/
theorem toDict_init (dummyEntityId : String) (resp : GetOnlineFeaturesResponse α)
    {first : FieldValues α} {rest : List (FieldValues α)} (hresp : resp.fieldValues = first :: rest) :
    (OnlineResponse.init dummyEntityId resp).toDict default listContents =
      .ok ((first.statuses.filter (· != dummyEntityId)).map fun k =>
        (k, readColumn default listContents (resp.fieldValues.map (·.fields)) k
          (scanValType k (resp.fieldValues.map (·.fields))))) := by
  have hinit : (OnlineResponse.init dummyEntityId resp).fieldValues =
      first.deleteKey dummyEntityId :: rest.map (·.deleteKey dummyEntityId) := by
    simp [OnlineResponse.init, OnlineResponse.fieldValues, hresp]
  have hrows : (first.deleteKey dummyEntityId :: rest.map (·.deleteKey dummyEntityId)).map
      (·.fields) = (resp.fieldValues.map (·.fields)).map (·.erase dummyEntityId) := by
    simp [hresp, FieldValues.deleteKey]
  unfold OnlineResponse.toDict
  rw [hinit]
  dsimp only
  rw [hrows, List.map_map]
  refine congrArg Except.ok (List.map_congr_left fun k hk => ?_)
  have hne : k ≠ dummyEntityId := by simpa using (List.mem_filter.1 hk).2
  simp only [Function.comp_apply, scanValType_erase hne, readColumn_erase default listContents hne]

/-- `to_dict` on every response with a record. For each status key `k` of the first record but
`DUMMY_ENTITY_ID`, in order, it returns one entry per record, in record order. Let the member of
`k` be the member set in the first record, in record order, whose `Value` for `k` has one (a
record without `k` reads as the empty `Value`). With no member, every entry is `None`. Otherwise
the entry of a record is its content when its `Value` has the member set, and the member's
default when it has another member or none, each turned into its list contents for a list
member. -/
theorem toDict_reads_first_set_member (dummyEntityId : String) (resp : GetOnlineFeaturesResponse α)
    {first : FieldValues α} {rest : List (FieldValues α)} (hresp : resp.fieldValues = first :: rest) :
    ∃ columns, (OnlineResponse.init dummyEntityId resp).toDict default listContents = .ok columns ∧
      columns.map Prod.fst = first.statuses.filter (· != dummyEntityId) ∧
      ∀ column ∈ columns, List.Forall₂ (fun record entry =>
          let member := resp.fieldValues.findSome? fun r =>
            (r.fields.getMessage ⟨none⟩ column.1).whichOneof
          let value := record.fields.getMessage ⟨none⟩ column.1
          member = none ∧ entry = none ∨
            (∃ m c, member = some m ∧ value.val = some (m, c) ∧
              entry = some (if isListMember m then listContents c else c)) ∨
            (∃ m, member = some m ∧ value.whichOneof ≠ some m ∧
              entry = some (if isListMember m then listContents (default m) else default m)))
        resp.fieldValues column.2 := by
  refine ⟨_, toDict_init default listContents dummyEntityId resp hresp, by simp [Function.comp_def],
    ?_⟩
  simp only [List.mem_map]
  rintro _ ⟨k, -, rfl⟩
  have hmember : scanValType k (resp.fieldValues.map (·.fields)) =
      resp.fieldValues.findSome? fun r => (r.fields.getMessage ⟨none⟩ k).whichOneof := by
    rw [scanValType_eq_findSome?, List.findSome?_map]; rfl
  dsimp only
  rw [← hmember]
  cases scanValType k (resp.fieldValues.map (·.fields)) with
  | none =>
    rw [readColumn.eq_1, List.map_map]
    exact List.forall₂_map_right_iff.mpr (List.forall₂_same.mpr fun _ _ => .inl ⟨rfl, rfl⟩)
  | some m =>
    rw [readColumn.eq_2, List.map_map]
    refine List.forall₂_map_right_iff.mpr (List.forall₂_same.mpr fun record _ => ?_)
    rcases entryOf_cases default listContents m (record.fields.getMessage ⟨none⟩ k) with
      ⟨c, hv, he⟩ | ⟨hv, he⟩
    · exact .inr (.inl ⟨m, c, rfl, hv, congrArg some he⟩)
    · exact .inr (.inr ⟨m, rfl, hv, congrArg some he⟩)

/-- Two records of an `INT64` column `trips`, read with `0` as the default of every member. A
second record with no member set, or with another member set, reads back as `getattr` of
`int64_val`, the default `0`, and never as `None`; the first record's `DUMMY_ENTITY_ID` status key
gets no column. -/
theorem unset_value_read_as_default :
    let record (trips : ValueProto Int) : FieldValues Int :=
      ⟨["__dummy_id", "trips"], by decide,
        ⟨[("__dummy_id", ⟨some ("int64_val", 1)⟩), ("trips", trips)], by simp⟩⟩
    (OnlineResponse.init "__dummy_id" ⟨[record ⟨some ("int64_val", 5)⟩, record ⟨none⟩]⟩).toDict
        (fun _ => 0) id = .ok [("trips", [some 5, some 0])] ∧
    (OnlineResponse.init "__dummy_id"
        ⟨[record ⟨some ("int64_val", 5)⟩, record ⟨some ("double_val", 7)⟩]⟩).toDict
        (fun _ => 0) id = .ok [("trips", [some 5, some 0])] := by
  decide

/-- Three records of the `trips` column: the first with no member set, the second with
`int64_val` set, the third without a `trips` field, which the protobuf map reads as the empty
`Value`. The column's member is `int64_val`, and the first and third records read as its
default. -/
theorem trip_counts_read_back :
    let r₁ : FieldValues Int := ⟨["trips"], by decide, ⟨[("trips", ⟨none⟩)], by simp⟩⟩
    let r₂ : FieldValues Int :=
      ⟨["trips"], by decide, ⟨[("trips", ⟨some ("int64_val", 7)⟩)], by simp⟩⟩
    let r₃ : FieldValues Int := ⟨["trips"], by decide, ⟨[], by simp⟩⟩
    ∃ columns, (OnlineResponse.init "__dummy_id" ⟨[r₁, r₂, r₃]⟩).toDict (fun _ => 0) id =
      .ok columns ∧ columns.map Prod.fst = ["trips"] ∧
      columns = [("trips", [some 0, some 7, some 0])] := by
  intro r₁ r₂ r₃
  obtain ⟨columns, hd, hkeys, -⟩ := toDict_reads_first_set_member (fun _ => (0 : Int)) id
    "__dummy_id" ⟨[r₁, r₂, r₃]⟩ rfl
  have hv : (OnlineResponse.init "__dummy_id" ⟨[r₁, r₂, r₃]⟩).toDict (fun _ => 0) id =
      .ok [("trips", [some 0, some 7, some 0])] := by decide
  exact ⟨columns, hd, hkeys, Except.ok.inj (hd.symm.trans hv)⟩

end OnlineResponse

end Feast
