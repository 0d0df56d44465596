/-
The journal as a JSON document.

The watcher writes its state with serde's derived impls and reads it back field by
field, from documents of its own and of older versions. A document here is a value as
`serde_json` has it: an object is the value under each of its keys, in no order. A
number is a u64 or something no field of a state takes.

What the derived impls do is kept where a document can show it: a field that is missing
is its default, or an error; a field that is not known is skipped; a struct may be
written as an array of its fields, and a variant as an object of its name over null.
-/
import SnapshotEtl.Watcher.Migration

set_option autoImplicit false

namespace SnapshotEtl.JournalFile

open Watcher

/-! ## Documents -/

inductive Number
  | pos (n : ℕ)
  /-- A negative number, or one that is not whole. -/
  | other (text : String)

inductive Json
  | null
  | bool (b : Bool)
  | number (n : Number)
  | string (s : String)
  | array (items : List Json)
  | object (keys : Finset String) (values : {key // key ∈ keys} → Json)

namespace Json

def get : Json → String → Option Json
  | .object keys values, key => if h : key ∈ keys then some (values ⟨key, h⟩) else none
  | _, _ => none

/-- The object a struct is written as. -/
def of_fields (fields : List (String × Json)) : Json :=
  .object (fields.map Prod.fst).toFinset fun key => (fields.lookup key.1).getD .null

theorem get_object (keys : Finset String) (values : {key // key ∈ keys} → Json) (key : String) :
    (object keys values).get key = if h : key ∈ keys then some (values ⟨key, h⟩) else none := rfl

theorem get_of_fields (fields : List (String × Json)) (key : String) :
    (of_fields fields).get key = fields.lookup key := by
  have hmem : key ∈ (fields.map Prod.fst).toFinset ↔ (fields.lookup key).isSome := by
    rw [List.mem_toFinset]
    induction fields with
    | nil => simp
    | cons field fields ih =>
        rw [List.map_cons, List.mem_cons, ih, List.lookup_cons]
        by_cases h : key = field.1
        · simp [h]
        · simp [h, beq_eq_false_iff_ne.mpr h]
  rw [of_fields, get_object]
  by_cases h : key ∈ (fields.map Prod.fst).toFinset
  · obtain ⟨value, hvalue⟩ := Option.isSome_iff_exists.mp (hmem.mp h)
    rw [dif_pos h, hvalue]
    rfl
  · rw [dif_neg h]
    exact (Option.not_isSome_iff_eq_none.mp fun hsome => h (hmem.mpr hsome)).symm

def as_u64 : Json → Option ℕ
  | .number (.pos n) => if n < 2 ^ 64 then some n else none
  | _ => none

def as_u32 : Json → Option ℕ
  | .number (.pos n) => if n < 2 ^ 32 then some n else none
  | _ => none

def as_bool : Json → Option Bool
  | .bool b => some b
  | _ => none

def as_str : Json → Option String
  | .string s => some s
  | _ => none

def is_null : Json → Bool
  | .null => true
  | _ => false

/-! ## What the derived impls read -/

/-- A struct of so many fields. -/
def is_struct (fields : ℕ) : Json → Bool
  | .object _ _ => true
  | .array items => items.length ≤ fields
  | _ => false

/-- The field of a struct, by its name or its place. -/
def field (doc : Json) (index : ℕ) (name : String) : Option Json :=
  match doc with
  | .array items => items[index]?
  | doc => doc.get name

/-- `Option<T>`: null is `None`. -/
def nullable {T : Type} (read : Json → Option T) (value : Json) : Option (Option T) :=
  if value.is_null then some none else (read value).map some

/-- A field with `#[serde(default)]`. -/
def field_or {T : Type} (doc : Json) (index : ℕ) (name : String) (default : T)
    (read : Json → Option T) : Option T :=
  match doc.field index name with
  | none => some default
  | some value => read value

def required {T : Type} (doc : Json) (index : ℕ) (name : String) (read : Json → Option T) :
    Option T :=
  (doc.field index name).bind read

/-- An `Option` without the attribute: it may be missing from an object. -/
def optional_field {T : Type} (doc : Json) (index : ℕ) (name : String) (read : Json → Option T) :
    Option (Option T) :=
  match doc.field index name, doc with
  | some value, _ => nullable read value
  | none, .object _ _ => some none
  | none, _ => none

/-- A unit variant of an enum. -/
def is_variant (doc : Json) (name : String) : Bool :=
  match doc with
  | .string s => s = name
  | .object keys _ => keys = {name} && ((doc.get name).map is_null).getD false
  | _ => false

section Written

variable {T : Type} {fields : List (String × Json)} {index : ℕ} {name : String} {value : Json}

@[simp] theorem is_struct_of_fields (n : ℕ) : (of_fields fields).is_struct n = true := rfl

@[simp] theorem field_of_fields : (of_fields fields).field index name = fields.lookup name :=
  get_of_fields fields name

/-- A field that is there is read. -/
theorem required_of_fields {read : Json → Option T} (h : fields.lookup name = some value) :
    (of_fields fields).required index name read = read value := by
  rw [required, field_of_fields, h]
  rfl

/-- Its default does not matter then. -/
theorem field_or_of_fields {default : T} {read : Json → Option T}
    (h : fields.lookup name = some value) :
    (of_fields fields).field_or index name default read = read value := by
  rw [field_or, field_of_fields, h]

theorem as_u64_number {n : ℕ} (h : n < 2 ^ 64) : (number (.pos n)).as_u64 = some n := if_pos h

theorem as_u32_number {n : ℕ} (h : n < 2 ^ 32) : (number (.pos n)).as_u32 = some n := if_pos h

/-- A number that is read as a `u64` is one. -/
theorem as_u64_lt {n : ℕ} (h : value.as_u64 = some n) : n < 2 ^ 64 := by
  unfold as_u64 at h
  split at h
  · rw [Option.ite_none_right_eq_some] at h
    obtain ⟨hlt, heq⟩ := h
    rw [← Option.some.inj heq]
    exact hlt
  · cases h

end Written

end Json

open Json

/-! ## The states -/

/-- UUIDs of tables, by their names. -/
structure TableGroupIdentity where
  tables : Finset String
  uuid : {table // table ∈ tables} → String

structure CutoverWatcherState where
  active_tables : TableGroupIdentity
  staging_tables : TableGroupIdentity

/-- The state as the file has it: with its version, and with the UUIDs of the tables in
place of the generations they belong to. -/
structure WatcherState where
  version : ℕ
  active : LaneWatcherState
  staging : LaneWatcherState
  cutover : Option CutoverWatcherState
  shared_full_load : Option SharedFullLoadWatcherState

def WATCHER_STATE_VERSION : ℕ := 5

/-! ## Writing -/

/-- The value of an `Option`. -/
def serialize_option {T : Type} (write : T → Json) : Option T → Json
  | none => .null
  | some value => write value

def serialize_slot (slot : Slot) : Json := .number (.pos slot)

def FullSnapshotWatcherState.serialize (s : FullSnapshotWatcherState) : Json :=
  of_fields [("path", .string s.path), ("slot", serialize_slot s.slot)]

/-- `rename_all = "snake_case"`. -/
def LanePhase.variant : LanePhase → String
  | .Disabled => "disabled"
  | .WaitingForFull => "waiting_for_full"
  | .FullLoading => "full_loading"
  | .FullMerging => "full_merging"
  | .Ready => "ready"
  | .IncrementalLoading => "incremental_loading"
  | .CutoverPending => "cutover_pending"

def PersistedSnapshotKind.variant : PersistedSnapshotKind → String
  | .Full => "full"
  | .Incremental => "incremental"

def InflightSnapshotWatcherState.serialize (s : InflightSnapshotWatcherState) : Json :=
  of_fields [("kind", .string (PersistedSnapshotKind.variant s.kind))]

def LaneWatcherState.serialize (lane : LaneWatcherState) : Json :=
  of_fields [
    ("phase", .string (LanePhase.variant lane.phase)),
    ("full_snapshot", serialize_option FullSnapshotWatcherState.serialize lane.full_snapshot),
    ("max_slot", serialize_option serialize_slot lane.max_slot),
    ("hot_mints_path", serialize_option .string lane.hot_mints_path),
    ("inflight_incremental",
      serialize_option InflightSnapshotWatcherState.serialize lane.inflight_incremental)]

def TableGroupIdentity.serialize (identity : TableGroupIdentity) : Json :=
  of_fields [("tables", .object identity.tables fun table => .string (identity.uuid table))]

def CutoverWatcherState.serialize (s : CutoverWatcherState) : Json :=
  of_fields [("active_tables", s.active_tables.serialize),
    ("staging_tables", s.staging_tables.serialize)]

def SharedFullLoadWatcherState.serialize (s : SharedFullLoadWatcherState) : Json :=
  of_fields [("snapshot", FullSnapshotWatcherState.serialize s.snapshot),
    ("active_resume_slot", serialize_slot s.active_resume_slot)]

def WatcherState.serialize (s : WatcherState) : Json :=
  of_fields [
    ("version", .number (.pos s.version)),
    ("active", LaneWatcherState.serialize s.active),
    ("staging", LaneWatcherState.serialize s.staging),
    ("cutover", serialize_option CutoverWatcherState.serialize s.cutover),
    ("shared_full_load",
      serialize_option SharedFullLoadWatcherState.serialize s.shared_full_load)]

/-! ## Reading -/

def FullSnapshotWatcherState.deserialize (doc : Json) : Option FullSnapshotWatcherState :=
  if doc.is_struct 2 then do
    let path ← doc.required 0 "path" as_str
    let slot ← doc.required 1 "slot" as_u64
    pure ⟨path, slot⟩
  else none

def LANE_PHASES : List LanePhase :=
  [.Disabled, .WaitingForFull, .FullLoading, .FullMerging, .Ready, .IncrementalLoading,
    .CutoverPending]

def LanePhase.deserialize (doc : Json) : Option LanePhase :=
  LANE_PHASES.find? fun phase => doc.is_variant (LanePhase.variant phase)

def PersistedSnapshotKind.deserialize (doc : Json) : Option PersistedSnapshotKind :=
  [PersistedSnapshotKind.Full, .Incremental].find? fun kind =>
    doc.is_variant (PersistedSnapshotKind.variant kind)

def InflightSnapshotWatcherState.deserialize (doc : Json) : Option InflightSnapshotWatcherState :=
  if doc.is_struct 1 then do
    let kind ← doc.required 0 "kind" PersistedSnapshotKind.deserialize
    pure ⟨kind⟩
  else none

def LaneWatcherState.deserialize (doc : Json) : Option LaneWatcherState :=
  if doc.is_struct 5 then do
    let phase ← doc.field_or 0 "phase" .Disabled LanePhase.deserialize
    let full_snapshot ← doc.field_or 1 "full_snapshot" none
      (nullable FullSnapshotWatcherState.deserialize)
    let max_slot ← doc.field_or 2 "max_slot" none (nullable as_u64)
    let hot_mints_path ← doc.field_or 3 "hot_mints_path" none (nullable as_str)
    let inflight_incremental ← doc.field_or 4 "inflight_incremental" none
      (nullable InflightSnapshotWatcherState.deserialize)
    pure ⟨phase, full_snapshot, max_slot, hot_mints_path, inflight_incremental⟩
  else none

/-- A map whose values are all strings. -/
def deserialize_tables : Json → Option TableGroupIdentity
  | .object keys values =>
      if ∀ key, (values key).as_str.isSome = true then
        some ⟨keys, fun key => ((values key).as_str).getD ""⟩
      else none
  | _ => none

def TableGroupIdentity.deserialize (doc : Json) : Option TableGroupIdentity :=
  if doc.is_struct 1 then doc.required 0 "tables" deserialize_tables else none

def CutoverWatcherState.deserialize (doc : Json) : Option CutoverWatcherState :=
  if doc.is_struct 2 then do
    let active_tables ← doc.required 0 "active_tables" TableGroupIdentity.deserialize
    let staging_tables ← doc.required 1 "staging_tables" TableGroupIdentity.deserialize
    pure ⟨active_tables, staging_tables⟩
  else none

def SharedFullLoadWatcherState.deserialize (doc : Json) : Option SharedFullLoadWatcherState :=
  if doc.is_struct 2 then do
    let snapshot ← doc.required 0 "snapshot" FullSnapshotWatcherState.deserialize
    let active_resume_slot ← doc.required 1 "active_resume_slot" as_u64
    pure ⟨snapshot, active_resume_slot⟩
  else none

def WatcherState.deserialize (doc : Json) : Option WatcherState :=
  if doc.is_struct 5 then do
    let version ← doc.required 0 "version" as_u32
    let active ← doc.required 1 "active" LaneWatcherState.deserialize
    let staging ← doc.required 2 "staging" LaneWatcherState.deserialize
    let cutover ← doc.field_or 3 "cutover" none (nullable CutoverWatcherState.deserialize)
    let shared_full_load ← doc.field_or 4 "shared_full_load" none
      (nullable SharedFullLoadWatcherState.deserialize)
    pure ⟨version, active, staging, cutover, shared_full_load⟩
  else none

/-! ### The documents of version 2 -/

def LegacyIncrementalWatcherStateV2.deserialize (doc : Json) :
    Option LegacyIncrementalWatcherStateV2 :=
  if doc.is_struct 0 then some ⟨⟩ else none

def LegacyStagingWatcherStateV2.deserialize (doc : Json) : Option LegacyStagingWatcherStateV2 :=
  if doc.is_struct 6 then do
    let full_snapshot_path ← doc.required 0 "full_snapshot_path" as_str
    let full_snapshot_slot ← doc.required 1 "full_snapshot_slot" as_u64
    let ready_slot ← doc.field_or 2 "ready_slot" none (nullable as_u64)
    let hot_mints_path ← doc.field_or 3 "hot_mints_path" none (nullable as_str)
    let first_incremental ← doc.field_or 4 "first_incremental" none
      (nullable LegacyIncrementalWatcherStateV2.deserialize)
    let first_incremental_completed ← doc.field_or 5 "first_incremental_completed" false as_bool
    pure ⟨full_snapshot_path, full_snapshot_slot, ready_slot, hot_mints_path, first_incremental,
      first_incremental_completed⟩
  else none

def LegacyWatcherStateV2.deserialize (doc : Json) : Option LegacyWatcherStateV2 :=
  if doc.is_struct 3 then do
    let active_slot ← doc.required 0 "active_slot" as_u64
    let active_hot_mints_path ← doc.field_or 1 "active_hot_mints_path" none (nullable as_str)
    let staging ← doc.optional_field 2 "staging" LegacyStagingWatcherStateV2.deserialize
    pure ⟨active_slot, active_hot_mints_path, staging⟩
  else none

/-! ## What fits the machine's numbers -/

def FitsLane (lane : LaneWatcherState) : Prop :=
  (∀ full ∈ lane.full_snapshot, full.slot < 2 ^ 64) ∧ ∀ slot ∈ lane.max_slot, slot < 2 ^ 64

/-- The slots are u64 and the version is u32. -/
structure WatcherState.Fits (s : WatcherState) : Prop where
  version : s.version < 2 ^ 32
  active : FitsLane s.active
  staging : FitsLane s.staging
  shared_full_load : ∀ shared ∈ s.shared_full_load,
    shared.snapshot.slot < 2 ^ 64 ∧ shared.active_resume_slot < 2 ^ 64

/-! ## What is written is read back -/

section RoundTrip

variable {T : Type}

/-- An optional value comes back, if what it holds does and is not written as `null`. -/
theorem nullable_serialize {write : T → Json} {read : Json → Option T} {value : Option T}
    (hnull : ∀ t ∈ value, (write t).is_null = false)
    (hread : ∀ t ∈ value, read (write t) = some t) :
    nullable read (serialize_option write value) = some value := by
  cases value with
  | none => rfl
  | some t =>
      have hnot := hnull t rfl
      rw [serialize_option, nullable, hnot, hread t rfl]
      rfl

/-- A full snapshot record comes back, as long as its slot is a `u64`. -/
theorem deserialize_full_snapshot {s : FullSnapshotWatcherState} (h : s.slot < 2 ^ 64) :
    FullSnapshotWatcherState.deserialize (FullSnapshotWatcherState.serialize s) = some s := by
  unfold FullSnapshotWatcherState.deserialize FullSnapshotWatcherState.serialize
  rw [if_pos (is_struct_of_fields 2), required_of_fields (by rfl), required_of_fields (by rfl)]
  simp only [as_str, serialize_slot, as_u64_number h]
  rfl

/-- Each phase is read under the name it is written as. -/
theorem deserialize_phase (phase : LanePhase) :
    LanePhase.deserialize (.string (LanePhase.variant phase)) = some phase := by
  cases phase <;> decide +kernel

/-- The marker of an import under way comes back. -/
theorem deserialize_inflight (s : InflightSnapshotWatcherState) :
    InflightSnapshotWatcherState.deserialize (InflightSnapshotWatcherState.serialize s)
      = some s := by
  obtain ⟨kind⟩ := s
  unfold InflightSnapshotWatcherState.deserialize InflightSnapshotWatcherState.serialize
  rw [if_pos (is_struct_of_fields 1), required_of_fields (by rfl)]
  cases kind <;> rfl

theorem nullable_slot {slot : Option Slot} (h : ∀ n ∈ slot, n < 2 ^ 64) :
    nullable as_u64 (serialize_option serialize_slot slot) = some slot :=
  nullable_serialize (fun _ _ => rfl) fun n hn => as_u64_number (h n hn)

theorem nullable_path (path : Option String) :
    nullable as_str (serialize_option .string path) = some path :=
  nullable_serialize (fun _ _ => rfl) fun _ _ => rfl

/-- A lane comes back, as long as its slots fit. -/
theorem deserialize_lane {lane : LaneWatcherState} (h : FitsLane lane) :
    LaneWatcherState.deserialize (LaneWatcherState.serialize lane) = some lane := by
  have hfull : nullable FullSnapshotWatcherState.deserialize
      (serialize_option FullSnapshotWatcherState.serialize lane.full_snapshot)
        = some lane.full_snapshot :=
    nullable_serialize (fun _ _ => rfl) fun full hmem => deserialize_full_snapshot (h.1 full hmem)
  have hinflight : nullable InflightSnapshotWatcherState.deserialize
      (serialize_option InflightSnapshotWatcherState.serialize lane.inflight_incremental)
        = some lane.inflight_incremental :=
    nullable_serialize (fun _ _ => rfl) fun s _ => deserialize_inflight s
  unfold LaneWatcherState.deserialize LaneWatcherState.serialize
  rw [if_pos (is_struct_of_fields 5), field_or_of_fields (by rfl), field_or_of_fields (by rfl),
    field_or_of_fields (by rfl), field_or_of_fields (by rfl), field_or_of_fields (by rfl),
    deserialize_phase, hfull, nullable_slot h.2, nullable_path, hinflight]
  rfl

/-- The identity of a group's tables comes back, with any UUIDs. -/
theorem deserialize_identity (identity : TableGroupIdentity) :
    TableGroupIdentity.deserialize identity.serialize = some identity := by
  unfold TableGroupIdentity.deserialize TableGroupIdentity.serialize
  have hstrings : ∀ key, (Json.string (identity.uuid key)).as_str.isSome = true := fun _ => rfl
  rw [if_pos (is_struct_of_fields 1), required_of_fields (by rfl), deserialize_tables,
    if_pos hstrings]
  rfl

/-- So does a cutover checkpoint, which has two of them. -/
theorem deserialize_cutover (s : CutoverWatcherState) :
    CutoverWatcherState.deserialize s.serialize = some s := by
  unfold CutoverWatcherState.deserialize CutoverWatcherState.serialize
  rw [if_pos (is_struct_of_fields 2), required_of_fields (by rfl), required_of_fields (by rfl),
    deserialize_identity, deserialize_identity]
  rfl

/-- A shared full load comes back, as long as its slots fit. -/
theorem deserialize_shared_full_load {s : SharedFullLoadWatcherState}
    (hsnapshot : s.snapshot.slot < 2 ^ 64) (hresume : s.active_resume_slot < 2 ^ 64) :
    SharedFullLoadWatcherState.deserialize (SharedFullLoadWatcherState.serialize s) = some s := by
  unfold SharedFullLoadWatcherState.deserialize SharedFullLoadWatcherState.serialize
  rw [if_pos (is_struct_of_fields 2), required_of_fields (by rfl), required_of_fields (by rfl),
    deserialize_full_snapshot hsnapshot, serialize_slot, as_u64_number hresume]
  rfl

/-- **What is written is read back.** -/
theorem WatcherState.deserialize_serialize {s : WatcherState} (h : s.Fits) :
    WatcherState.deserialize s.serialize = some s := by
  have hcutover : nullable CutoverWatcherState.deserialize
      (serialize_option CutoverWatcherState.serialize s.cutover) = some s.cutover :=
    nullable_serialize (fun _ _ => rfl) fun t _ => deserialize_cutover t
  have hshared : nullable SharedFullLoadWatcherState.deserialize
      (serialize_option SharedFullLoadWatcherState.serialize s.shared_full_load)
        = some s.shared_full_load :=
    nullable_serialize (fun _ _ => rfl) fun t ht =>
      deserialize_shared_full_load (h.shared_full_load t ht).1 (h.shared_full_load t ht).2
  unfold WatcherState.deserialize WatcherState.serialize
  rw [if_pos (is_struct_of_fields 5), required_of_fields (by rfl), required_of_fields (by rfl),
    required_of_fields (by rfl), field_or_of_fields (by rfl), field_or_of_fields (by rfl),
    as_u32_number h.version, deserialize_lane h.active, deserialize_lane h.staging, hcutover,
    hshared]
  rfl

end RoundTrip

/-! ## What is read fits -/

section Reading

variable {T : Type} {doc : Json} {index : ℕ} {name : String}

/-- What an optional field holds was read as such. -/
theorem nullable_eq_some {read : Json → Option T} {value : Option T}
    (h : nullable read doc = some value) : ∀ t ∈ value, read doc = some t := by
  rintro t rfl
  unfold nullable at h
  split at h
  · cases h
  · obtain ⟨t', ht', heq⟩ := Option.map_eq_some_iff.mp h
    rw [ht', Option.some.inj heq]

/-- A field that may be null or missing, if it is neither. -/
theorem field_or_eq_some {read : Json → Option T} {value : Option T}
    (h : doc.field_or index name none (nullable read) = some value) :
    ∀ t ∈ value, ∃ inner, read inner = some t := by
  intro t ht
  unfold field_or at h
  split at h
  · cases h
    cases ht
  · rename_i inner _
    exact ⟨inner, nullable_eq_some h t ht⟩

/-- What a required field holds was read from some value. -/
theorem required_eq_some {read : Json → Option T} {value : T}
    (h : doc.required index name read = some value) : ∃ inner, read inner = some value := by
  obtain ⟨inner, -, hread⟩ := Option.bind_eq_some_iff.mp h
  exact ⟨inner, hread⟩

/-- Any full snapshot record that is read has a slot that fits. -/
theorem fits_full_snapshot {s : FullSnapshotWatcherState}
    (h : FullSnapshotWatcherState.deserialize doc = some s) : s.slot < 2 ^ 64 := by
  rw [FullSnapshotWatcherState.deserialize, Option.ite_none_right_eq_some] at h
  obtain ⟨path, -, h⟩ := Option.bind_eq_some_iff.mp h.2
  obtain ⟨slot, hslot, h⟩ := Option.bind_eq_some_iff.mp h
  obtain rfl := Option.some.inj h
  obtain ⟨inner, hinner⟩ := required_eq_some hslot
  exact as_u64_lt hinner

/-- Any lane that is read has slots that fit. -/
theorem fits_lane {lane : LaneWatcherState} (h : LaneWatcherState.deserialize doc = some lane) :
    FitsLane lane := by
  rw [LaneWatcherState.deserialize, Option.ite_none_right_eq_some] at h
  obtain ⟨phase, -, h⟩ := Option.bind_eq_some_iff.mp h.2
  obtain ⟨full_snapshot, hfull, h⟩ := Option.bind_eq_some_iff.mp h
  obtain ⟨max_slot, hmax, h⟩ := Option.bind_eq_some_iff.mp h
  obtain ⟨hot_mints_path, -, h⟩ := Option.bind_eq_some_iff.mp h
  obtain ⟨inflight_incremental, -, h⟩ := Option.bind_eq_some_iff.mp h
  obtain rfl := Option.some.inj h
  refine ⟨fun full hmem => ?_, fun slot hmem => ?_⟩
  · obtain ⟨inner, hinner⟩ := field_or_eq_some hfull full hmem
    exact fits_full_snapshot hinner
  · obtain ⟨inner, hinner⟩ := field_or_eq_some hmax slot hmem
    exact as_u64_lt hinner

/-- Any shared full load that is read has slots that fit. -/
theorem fits_shared_full_load {s : SharedFullLoadWatcherState}
    (h : SharedFullLoadWatcherState.deserialize doc = some s) :
    s.snapshot.slot < 2 ^ 64 ∧ s.active_resume_slot < 2 ^ 64 := by
  rw [SharedFullLoadWatcherState.deserialize, Option.ite_none_right_eq_some] at h
  obtain ⟨snapshot, hsnapshot, h⟩ := Option.bind_eq_some_iff.mp h.2
  obtain ⟨active_resume_slot, hresume, h⟩ := Option.bind_eq_some_iff.mp h
  obtain rfl := Option.some.inj h
  obtain ⟨inner, hinner⟩ := required_eq_some hsnapshot
  obtain ⟨inner', hinner'⟩ := required_eq_some hresume
  exact ⟨fits_full_snapshot hinner, as_u64_lt hinner'⟩

theorem as_u32_lt {n : ℕ} (h : doc.as_u32 = some n) : n < 2 ^ 32 := by
  unfold as_u32 at h
  split at h
  · rw [Option.ite_none_right_eq_some] at h
    obtain ⟨hlt, heq⟩ := h
    rw [← Option.some.inj heq]
    exact hlt
  · cases h

/-- A state that is read is one that can be written. -/
theorem WatcherState.fits_of_deserialize {s : WatcherState}
    (h : WatcherState.deserialize doc = some s) : s.Fits := by
  rw [WatcherState.deserialize, Option.ite_none_right_eq_some] at h
  obtain ⟨version, hversion, h⟩ := Option.bind_eq_some_iff.mp h.2
  obtain ⟨active, hactive, h⟩ := Option.bind_eq_some_iff.mp h
  obtain ⟨staging, hstaging, h⟩ := Option.bind_eq_some_iff.mp h
  obtain ⟨cutover, -, h⟩ := Option.bind_eq_some_iff.mp h
  obtain ⟨shared_full_load, hshared, h⟩ := Option.bind_eq_some_iff.mp h
  obtain rfl := Option.some.inj h
  obtain ⟨_, hversion⟩ := required_eq_some hversion
  obtain ⟨_, hactive⟩ := required_eq_some hactive
  obtain ⟨_, hstaging⟩ := required_eq_some hstaging
  refine ⟨as_u32_lt hversion, fits_lane hactive, fits_lane hstaging, fun shared hmem => ?_⟩
  obtain ⟨_, hshared⟩ := field_or_eq_some hshared shared hmem
  exact fits_shared_full_load hshared

/-- So does the staging part of a version 2 journal. -/
theorem fits_legacy_staging {s : LegacyStagingWatcherStateV2}
    (h : LegacyStagingWatcherStateV2.deserialize doc = some s) :
    s.full_snapshot_slot < 2 ^ 64 ∧ ∀ slot ∈ s.ready_slot, slot < 2 ^ 64 := by
  rw [LegacyStagingWatcherStateV2.deserialize, Option.ite_none_right_eq_some] at h
  obtain ⟨full_snapshot_path, -, h⟩ := Option.bind_eq_some_iff.mp h.2
  obtain ⟨full_snapshot_slot, hfull, h⟩ := Option.bind_eq_some_iff.mp h
  obtain ⟨ready_slot, hready, h⟩ := Option.bind_eq_some_iff.mp h
  obtain ⟨hot_mints_path, -, h⟩ := Option.bind_eq_some_iff.mp h
  obtain ⟨first_incremental, -, h⟩ := Option.bind_eq_some_iff.mp h
  obtain ⟨first_incremental_completed, -, h⟩ := Option.bind_eq_some_iff.mp h
  obtain rfl := Option.some.inj h
  obtain ⟨_, hfull⟩ := required_eq_some hfull
  refine ⟨as_u64_lt hfull, fun slot hmem => ?_⟩
  obtain ⟨_, hready⟩ := field_or_eq_some hready slot hmem
  exact as_u64_lt hready

/-- And all of such a journal. -/
theorem fits_legacy {s : LegacyWatcherStateV2}
    (h : LegacyWatcherStateV2.deserialize doc = some s) :
    s.active_slot < 2 ^ 64 ∧ ∀ staging ∈ s.staging,
      staging.full_snapshot_slot < 2 ^ 64 ∧ ∀ slot ∈ staging.ready_slot, slot < 2 ^ 64 := by
  rw [LegacyWatcherStateV2.deserialize, Option.ite_none_right_eq_some] at h
  obtain ⟨active_slot, hactive, h⟩ := Option.bind_eq_some_iff.mp h.2
  obtain ⟨active_hot_mints_path, -, h⟩ := Option.bind_eq_some_iff.mp h
  obtain ⟨staging, hstaging, h⟩ := Option.bind_eq_some_iff.mp h
  obtain rfl := Option.some.inj h
  obtain ⟨_, hactive⟩ := required_eq_some hactive
  refine ⟨as_u64_lt hactive, fun staging' hmem => ?_⟩
  unfold optional_field at hstaging
  split at hstaging
  · exact fits_legacy_staging (nullable_eq_some hstaging staging' hmem)
  · cases hstaging
    cases hmem
  · cases hstaging

end Reading

/-- **The journal's documents round-trip.** Every state is read back from the document it is
written as, and whatever document a state is read from, of any shape serde accepts, the
state can be written and is read back again. -/
theorem journal_round_trip :
    (∀ s : WatcherState, s.Fits → WatcherState.deserialize s.serialize = some s) ∧
      ∀ doc s, WatcherState.deserialize doc = some s →
        WatcherState.deserialize s.serialize = some s :=
  ⟨fun _ h => WatcherState.deserialize_serialize h,
    fun _ _ h => WatcherState.deserialize_serialize (WatcherState.fits_of_deserialize h)⟩

end SnapshotEtl.JournalFile
