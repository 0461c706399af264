import FeastRegistry.Refinement

/-!
# How stale a cached answer can be

`cached_registry_proto_ttl` bounds how old the proto a call works on can be. Take one registry
and a run of its calls, each call with the proto its store holds at that moment (other writers
may change it between calls) and the clock reading. The store's history is what the calls found
in the store and what they wrote to it, each with the call's time (`Registry.storeHistory`).

With a positive time to live, nondecreasing clock readings, a store that always holds a proto and
a run whose mutating calls all pass `commit=True`, every call that reaches `_get_registry_proto`
answers as the snapshot of a proto the store held no more than one time to live before the call
(`answers_within_ttl`). The invariant is `Registry.SeenBy`: the cached proto was in the store at
or after its creation time, and each creation time is the time of a load. One call keeps it
(`SeenBy.exec`), so a run does (`SeenBy.runAll`); a fresh registry has it (`SeenBy.init`).

Does not prove: anything about `commit=False` calls, whose edits the cache serves although the
store never held them, or about a store without a registry, where the prepare step invents the
empty proto.
-/

set_option autoImplicit false

namespace Feast

/-- The proto a store call writes, if any. -/
def StoreWrite.written : StoreWrite → Option RegistryProto
  | .updateRegistryProto proto => some proto
  | .teardown => none

namespace Registry

/-- The registry after a run of calls, each with the proto its store holds then. -/
def runAll : Registry → List (Option RegistryProto × Int × Op) → Registry
  | r, [] => r
  | r, (store, now, op) :: calls => (r.exec store now op).registry.runAll calls

/-- The protos the store holds at the calls of a run: the one each call finds and the one it
writes, with the call's time. -/
def storeHistory : Registry → List (Option RegistryProto × Int × Op) → List (Int × RegistryProto)
  | _, [] => []
  | r, (store, now, op) :: calls =>
    (store.toList ++ ((r.exec store now op).write.bind StoreWrite.written).toList).map (now, ·) ++
      (r.exec store now op).registry.storeHistory calls

/-! ## One call -/

variable {r : Registry} {store : Option RegistryProto} {now : Int}

theorem prepareRegistryForChanges_of_load {P : RegistryProto}
    (hg : (r.getRegistryProto store now true).1 = .ok P) :
    (r.prepareRegistryForChanges store now).1 = P := by
  rcases getRegistryProto_cases r store now true with
    ⟨c, -, -, -, h⟩ | ⟨p, -, -, h⟩ | ⟨-, -, h⟩ <;> rw [h] at hg <;> cases hg <;>
    simp [prepareRegistryForChanges, h]

/-- A call that reaches `_get_registry_proto` answers as the snapshot of the proto it loads. -/
theorem exec_result_of_load {op : Op} {a : Bool} (ha : op.allowCache now = some a)
    {P : RegistryProto} (hg : (r.getRegistryProto store now a).1 = .ok P) :
    (r.exec store now op).result = op.answer now P := by
  rcases hm : op.mutation now with _ | ⟨pre, edit, c⟩
  · have hr : ∀ {α : Type} (f : RegistryProto → Except RegistryError α) (v : α → Value),
        ((r.read store now a f).map v).result = (f P).map v := fun f v => by
      rw [← read_result_of_ok hg f]; rfl
    cases op <;> simp only [Op.mutation, reduceCtorEq] at hm <;>
      simp only [Op.allowCache, Op.mutation, Option.some.injEq, reduceCtorEq] at ha
    all_goals subst ha; exact hr _ _
  · simp only [Op.allowCache, hm] at ha
    cases pre with
    | some _ => cases ha
    | none =>
      cases ha
      rw [exec_result_of_mutation r store now hm, Op.answer_of_mutation hm,
        prepareRegistryForChanges_of_load hg]

/-- What a load leaves in the cache: the cache as it was, or the store's proto. -/
theorem getRegistryProto_cache_cases (a : Bool) :
    ((r.getRegistryProto store now a).2.cachedRegistryProto = r.cachedRegistryProto ∧
        (r.getRegistryProto store now a).2.cachedRegistryProtoCreated =
          r.cachedRegistryProtoCreated) ∨
      (r.getRegistryProto store now a).2.cachedRegistryProto = store := by
  rcases getRegistryProto_cases r store now a with
    ⟨c, -, -, -, h⟩ | ⟨p, -, hs, h⟩ | ⟨-, -, h⟩ <;> rw [h]
  · exact .inl ⟨rfl, rfl⟩
  · exact .inr hs.symm
  · exact .inl ⟨rfl, rfl⟩

/-- What a call leaves in the cache, when its mutating calls commit and the store holds a proto:
the cache as it was, the store's proto, or a proto the call writes to the store. -/
theorem exec_cache_cases (hs : store.isSome = true) {op : Op}
    (hc : ∀ pre edit c, op.mutation now = some (pre, edit, c) → c = true) :
    ((r.exec store now op).registry.cachedRegistryProto = r.cachedRegistryProto ∧
        (r.exec store now op).registry.cachedRegistryProtoCreated = r.cachedRegistryProtoCreated) ∨
      (r.exec store now op).registry.cachedRegistryProto = store ∨
      ∃ A, (r.exec store now op).registry.cachedRegistryProto = some A ∧
        (r.exec store now op).write = some (.updateRegistryProto A) := by
  rcases hm : op.mutation now with _ | ⟨pre, edit, c⟩
  · have hread : ∀ {α : Type} (a : Bool) (f : RegistryProto → Except RegistryError α),
        ((r.read store now a f).registry.cachedRegistryProto = r.cachedRegistryProto ∧
          (r.read store now a f).registry.cachedRegistryProtoCreated =
            r.cachedRegistryProtoCreated) ∨
        (r.read store now a f).registry.cachedRegistryProto = store := fun a f => by
      rw [(read_registry r store now a f).1]; exact getRegistryProto_cache_cases a
    cases op <;> simp only [Op.mutation, reduceCtorEq] at hm
    all_goals first | exact (hread _ _).imp_right .inl | exact .inl ⟨rfl, rfl⟩
  · obtain rfl := hc _ _ _ hm
    cases pre with
    | some e => rw [exec_of_mutation r store now hm]; exact .inl ⟨rfl, rfl⟩
    | none =>
      obtain ⟨hreg, hw⟩ := exec_registry_of_mutation r store now hm
      rw [hreg, hw]
      cases he : edit (r.prepareRegistryForChanges store now).1
      case changed A => exact .inr (.inr ⟨A, rfl, rfl⟩)
      all_goals
        rcases prepareRegistryForChanges_cases r store now with
          ⟨P, -, hc, h⟩ | ⟨P, -, hp, h⟩ | ⟨-, hp, -⟩
        · rw [h]; exact .inl ⟨hc.symm, rfl⟩
        · rw [h]; exact .inr (.inl hp.symm)
        · rw [hp] at hs; cases hs

theorem exec_created (hs : store.isSome = true) (op : Op) :
    (r.exec store now op).registry.cachedRegistryProtoCreated = r.cachedRegistryProtoCreated ∨
      (r.exec store now op).registry.cachedRegistryProtoCreated = some now := by
  have h := congrArg (·.2.1) (exec_cacheState r store now op fun _ => hs)
  simp only [cacheState] at h
  split at h
  · exact .inr h
  · exact .inl h

theorem exec_ttl (hs : store.isSome = true) (op : Op) :
    (r.exec store now op).registry.cachedRegistryProtoTtl = r.cachedRegistryProtoTtl := by
  have h := congrArg (·.2.2) (exec_cacheState r store now op fun _ => hs)
  simp only [cacheState] at h
  split at h <;> exact h

/-! ## The invariant -/

/-- The cache against the store's history: the cached proto was in the store at or after its
creation time, and the creation time is the time of a load, at which the store held a proto. -/
structure SeenBy (r : Registry) (history : List (Int × RegistryProto)) : Prop where
  created_seen : ∀ c, r.cachedRegistryProtoCreated = some c → ∃ P, (c, P) ∈ history
  cached_seen : ∀ P c, r.cachedRegistryProto = some P → r.cachedRegistryProtoCreated = some c →
    ∃ t, c ≤ t ∧ (t, P) ∈ history

theorem SeenBy.init (ttl : Int) : (Registry.init ttl).SeenBy [] :=
  ⟨fun _ h => (by cases h), fun _ _ h => (by cases h)⟩

variable {H : List (Int × RegistryProto)}

/-- The step lemma: a call at a time no earlier than the history keeps the invariant, with what
it finds in the store and what it writes added to the history. -/
theorem SeenBy.exec (h : r.SeenBy H) (hb : ∀ e ∈ H, e.1 ≤ now) (hs : store.isSome = true)
    {op : Op} (hc : ∀ pre edit c, op.mutation now = some (pre, edit, c) → c = true) :
    (r.exec store now op).registry.SeenBy (H ++ (store.toList ++
      ((r.exec store now op).write.bind StoreWrite.written).toList).map (now, ·)) := by
  obtain ⟨S, rfl⟩ := Option.isSome_iff_exists.1 hs
  have hS : (now, S) ∈ H ++ ((some S).toList ++
      ((r.exec (some S) now op).write.bind StoreWrite.written).toList).map (now, ·) := by simp
  have hcreated : ∀ c, (r.exec (some S) now op).registry.cachedRegistryProtoCreated = some c →
      (∃ P, (c, P) ∈ H) ∧ r.cachedRegistryProtoCreated = some c ∨ c = now := fun c hc' => by
    rcases exec_created hs op with he | he <;> rw [he] at hc'
    · exact .inl ⟨h.created_seen c hc', hc'⟩
    · exact .inr (Option.some.inj hc').symm
  refine ⟨fun c hc' => ?_, fun P c hP hc' => ?_⟩
  · rcases hcreated c hc' with ⟨⟨P, hP⟩, -⟩ | rfl
    · exact ⟨P, List.mem_append_left _ hP⟩
    · exact ⟨S, hS⟩
  · have hle : c ≤ now := by
      rcases hcreated c hc' with ⟨⟨P', hP'⟩, -⟩ | rfl
      · exact hb _ hP'
      · exact le_refl _
    rcases exec_cache_cases hs hc with ⟨hsame, hcr⟩ | hload | ⟨A, hA, hw⟩
    · rw [hsame] at hP
      rw [hcr] at hc'
      obtain ⟨t, hct, ht⟩ := h.cached_seen P c hP hc'
      exact ⟨t, hct, List.mem_append_left _ ht⟩
    · rw [hload] at hP
      cases hP
      exact ⟨now, hle, hS⟩
    · rw [hA] at hP
      cases hP
      exact ⟨now, hle, by simp [hw, StoreWrite.written]⟩

theorem mem_storeHistory {e : Int × RegistryProto} :
    ∀ {r : Registry} {calls : List (Option RegistryProto × Int × Op)},
      e ∈ r.storeHistory calls → ∃ call ∈ calls, e.1 = call.2.1
  | _, [], he => by cases he
  | r, (store, now, op) :: calls, he => by
    rw [storeHistory, List.mem_append] at he
    rcases he with he | he
    · obtain ⟨P, -, rfl⟩ := List.mem_map.1 he
      exact ⟨_, List.mem_cons_self _ _, rfl⟩
    · obtain ⟨call, hcall, ht⟩ := mem_storeHistory he
      exact ⟨call, List.mem_cons_of_mem _ hcall, ht⟩

/-- The run lemma: a run whose calls come no earlier than the history, at nondecreasing times,
on a store that always holds a proto and with every mutating call committing, keeps the invariant
and the time to live. -/
theorem SeenBy.runAll : ∀ {r : Registry} {H : List (Int × RegistryProto)}
    {calls : List (Option RegistryProto × Int × Op)}, r.SeenBy H →
    (∀ e ∈ H, ∀ call ∈ calls, e.1 ≤ call.2.1) → calls.Pairwise (·.2.1 ≤ ·.2.1) →
    (∀ call ∈ calls, call.1.isSome = true) →
    (∀ call ∈ calls, ∀ pre edit c, call.2.2.mutation call.2.1 = some (pre, edit, c) → c = true) →
    (r.runAll calls).SeenBy (H ++ r.storeHistory calls) ∧
      (r.runAll calls).cachedRegistryProtoTtl = r.cachedRegistryProtoTtl
  | _, _, [], h, _, _, _, _ => by
    simp only [Registry.runAll, storeHistory, List.append_nil, and_true]; exact h
  | r, H, (store, now, op) :: calls, h, hb, hmono, hs, hc => by
    rw [List.pairwise_cons] at hmono
    have hs₀ := hs _ (List.mem_cons_self _ _)
    have hstep := h.exec (fun e he => hb e he _ (List.mem_cons_self _ _)) hs₀
      (hc _ (List.mem_cons_self _ _))
    have hb' : ∀ e ∈ H ++ (store.toList ++
        ((r.exec store now op).write.bind StoreWrite.written).toList).map (now, ·),
        ∀ call ∈ calls, e.1 ≤ call.2.1 := by
      intro e he call hcall
      rcases List.mem_append.1 he with he | he
      · exact hb e he call (List.mem_cons_of_mem _ hcall)
      · obtain ⟨P, -, rfl⟩ := List.mem_map.1 he
        exact hmono.1 call hcall
    obtain ⟨ih₁, ih₂⟩ := SeenBy.runAll hstep hb' hmono.2
      (fun call hcall => hs call (List.mem_cons_of_mem _ hcall))
      (fun call hcall => hc call (List.mem_cons_of_mem _ hcall))
    rw [Registry.runAll, storeHistory, ← List.append_assoc]
    exact ⟨ih₁, ih₂.trans (exec_ttl hs₀ op)⟩

/-- The last call of the run: a call that reaches `_get_registry_proto` answers from the cache,
whose proto the store held within one time to live, or from the store. -/
theorem SeenBy.answer (h : r.SeenBy H) (hb : ∀ e ∈ H, e.1 ≤ now)
    (hpos : 0 < r.cachedRegistryProtoTtl) (hs : store.isSome = true) {op : Op} {a : Bool}
    (ha : op.allowCache now = some a) :
    ∃ t P, (t, P) ∈ H ++ store.toList.map (now, ·) ∧ now - r.cachedRegistryProtoTtl ≤ t ∧
      t ≤ now ∧ (r.exec store now op).result = op.answer now P := by
  rcases getRegistryProto_cases r store now a with
    ⟨P, -, hf, hc, hg⟩ | ⟨P, -, hp, hg⟩ | ⟨-, hp, -⟩
  · obtain ⟨c, hcr⟩ : ∃ c, r.cachedRegistryProtoCreated = some c := by
      cases hcr : r.cachedRegistryProtoCreated with
      | none => simp [expired, hc, hcr] at hf
      | some c => exact ⟨c, rfl⟩
    have hfresh : now ≤ c + r.cachedRegistryProtoTtl := by
      simp only [expired, hc, hcr, Bool.and_eq_false_iff, decide_eq_false_iff_not] at hf
      omega
    obtain ⟨t, hct, ht⟩ := h.cached_seen P c hc hcr
    exact ⟨t, P, List.mem_append_left _ ht, by omega, hb _ ht,
      exec_result_of_load ha (by rw [hg])⟩
  · subst hp
    exact ⟨now, P, by simp, by omega, le_refl _, exec_result_of_load ha (by rw [hg])⟩
  · rw [hp] at hs; cases hs

end Registry

/-- Staleness is bounded by the time to live. Take a registry created with a positive
`cache_ttl_seconds` and a run of its calls at nondecreasing times, each on a store that holds a
proto, whatever other writers put there, with every mutating call passing `commit=True`. The
next call that reaches `_get_registry_proto` (a read, `refresh()`, or a mutating call whose
checks pass) answers as the snapshot of a proto that the store held, found there or written there
by a call of the run, no more than one time to live before this call. -/
theorem answers_within_ttl {ttl : Int} (hpos : 0 < ttl)
    (calls : List (Option RegistryProto × Int × Op)) (store : Option RegistryProto) (now : Int)
    (op : Op) (hmono : (calls ++ [(store, now, op)]).Pairwise (·.2.1 ≤ ·.2.1))
    (hs : ∀ call ∈ calls ++ [(store, now, op)], call.1.isSome = true)
    (hc : ∀ call ∈ calls, ∀ pre edit c,
      call.2.2.mutation call.2.1 = some (pre, edit, c) → c = true)
    {a : Bool} (ha : op.allowCache now = some a) :
    ∃ t P, (t, P) ∈ (Registry.init ttl).storeHistory calls ++ store.toList.map (now, ·) ∧
      now - ttl ≤ t ∧ t ≤ now ∧
      (((Registry.init ttl).runAll calls).exec store now op).result = op.answer now P := by
  rw [List.pairwise_append] at hmono
  obtain ⟨hinv, httl⟩ := Registry.SeenBy.runAll (Registry.SeenBy.init ttl) (by simp) hmono.1
    (fun call hcall => hs call (List.mem_append_left _ hcall)) hc
  have hb : ∀ e ∈ [] ++ (Registry.init ttl).storeHistory calls, e.1 ≤ now := fun e he => by
    obtain ⟨call, hcall, ht⟩ := Registry.mem_storeHistory (by simpa using he)
    exact ht ▸ hmono.2.2 call hcall _ (List.mem_singleton_self _)
  have := hinv.answer hb (by rw [httl]; exact hpos) (hs _ (List.mem_append_right _
    (List.mem_singleton_self _))) ha
  rw [httl, List.nil_append] at this
  exact this

/-- A registry loads the two-project snapshot at time 0, another writer then adds an entity to
`p1`, and the registry lists the entities of `p1` at time 300 from its cache. -/
theorem answers_within_ttl_of_other_writer :
    ∃ t P, (t, P) ∈ (Registry.init 600).storeHistory [(some .sample, 0, .refresh)] ++
        [(300, RegistryProto.sample.applyEntity
          ((Entity.toProto ⟨"customer_id", "INT64"⟩).withProject "p1") "p1")] ∧
      300 - 600 ≤ t ∧ t ≤ 300 ∧
      (((Registry.init 600).runAll [(some .sample, 0, .refresh)]).exec
        (some (RegistryProto.sample.applyEntity
          ((Entity.toProto ⟨"customer_id", "INT64"⟩).withProject "p1") "p1")) 300
        (.listEntities "p1" true)).result = (Op.listEntities "p1" true).answer 300 P :=
  answers_within_ttl (by decide) [(some .sample, 0, .refresh)]
    (some (RegistryProto.sample.applyEntity
      ((Entity.toProto ⟨"customer_id", "INT64"⟩).withProject "p1") "p1")) 300
    (.listEntities "p1" true) (by decide) (by decide)
    (fun call hcall _ _ _ h => by rw [List.mem_singleton] at hcall; subst hcall; cases h) (by rfl)

end Feast
