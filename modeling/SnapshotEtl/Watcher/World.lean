/-
What the watcher runs in: the state directory, the two generations of tables,
and the calls by which it acts on them.

A call is answered under an outcome that the environment picks, and the answer
is `none` where the source returns an error. Everything the watcher does not
decide is in the outcomes: which calls fail, whether a call that fails took
effect before, what a directory lists, when a thread ends. The names a group
goes by are kept apart from the tables under them, since an exchange moves the
names alone.

A mint file is its text, and what a process reads of it is what the text says:
this need not be the set that was written.

Three fields are bookkeeping of the verification and steer nothing: what every
mint file was written from and the set that goes by it, what each table took in
since it was last emptied, and the journal the process last tried to write.
-/
import SnapshotEtl.Journal
import SnapshotEtl.Watcher.HotMintText
import SnapshotEtl.Lib.Prog

set_option autoImplicit false

namespace SnapshotEtl.Watcher

open HotMintFiles (hot_mints_text text_lines read_hot_mints ReadsAsItself text_lines_of_reads)

/-! ## Errors -/

/-- The watcher's internal-consistency errors. Everything else it can end with
comes from outside: a missing archive, a file, ClickHouse. -/
inductive Inconsistency
  | ready_active_without_max_slot
  | shared_begin_staging_not_disabled
  | shared_begin_active_not_ready
  | shared_completion_without_checkpoint
  | shared_incompatible_lane_phases
  | shared_without_active_inflight
  | shared_does_not_match_archive
  | shared_unexpected_active_max_slot
  | cutover_without_staging_max_slot
  | cutover_checkpoint_disappeared
  | cutover_without_staging_hot_mints
  | staging_finished_without_full_merging
  | staging_without_acknowledgement
  | shared_conflicts_with_staging_worker
  | shared_without_staging_hot_mints
  | active_full_merging_without_full_snapshot
  | active_full_loading_without_full_snapshot
  | active_incremental_without_inflight
  | staging_full_loading_without_full_snapshot
  | staging_full_merging_without_full_snapshot
  | staging_incremental_without_inflight
  | staging_incremental_without_max_slot
  | staging_incremental_with_full_marker
  | staging_restart_without_hot_mints
  | ready_staging_without_max_slot
  | staging_selected_without_hot_mints
  | no_frozen_hot_mints
deriving DecidableEq, Repr

def Inconsistency.message : Inconsistency → String
  | ready_active_without_max_slot => "ready active has no committed max_slot"
  | shared_begin_staging_not_disabled =>
      "cannot begin shared full load while staging is not disabled"
  | shared_begin_active_not_ready => "cannot begin shared full load while active is not ready"
  | shared_completion_without_checkpoint =>
      "shared full completion without a shared-full checkpoint"
  | shared_incompatible_lane_phases => "shared full checkpoint has incompatible lane phases"
  | shared_without_active_inflight => "shared full checkpoint has no active inflight archive"
  | shared_does_not_match_archive =>
      "shared full checkpoint does not match the recorded archive"
  | shared_unexpected_active_max_slot => "shared full checkpoint expected active max_slot"
  | cutover_without_staging_max_slot => "cutover pending without a committed staging max_slot"
  | cutover_checkpoint_disappeared => "cutover checkpoint disappeared before exchange"
  | cutover_without_staging_hot_mints =>
      "cutover pending without staging frozen hot-mint set"
  | staging_finished_without_full_merging =>
      "staging full worker finished without a full_merging checkpoint"
  | staging_without_acknowledgement =>
      "staging full worker has no merge-start acknowledgement"
  | shared_conflicts_with_staging_worker =>
      "shared full checkpoint conflicts with a staging worker"
  | shared_without_staging_hot_mints =>
      "shared full checkpoint has no frozen staging hot-mint set"
  | active_full_merging_without_full_snapshot => "active full_merging without full snapshot"
  | active_full_loading_without_full_snapshot => "active full_loading without full snapshot"
  | active_incremental_without_inflight =>
      "active incremental_loading without inflight snapshot"
  | staging_full_loading_without_full_snapshot => "staging full_loading without full snapshot"
  | staging_full_merging_without_full_snapshot => "staging full_merging without full snapshot"
  | staging_incremental_without_inflight =>
      "staging incremental_loading without inflight snapshot"
  | staging_incremental_without_max_slot =>
      "staging incremental_loading without a committed max_slot"
  | staging_incremental_with_full_marker =>
      "staging incremental_loading has a non-incremental marker"
  | staging_restart_without_hot_mints => "staging restart requires frozen hot-mint set"
  | ready_staging_without_max_slot => "ready staging without max_slot"
  | staging_selected_without_hot_mints =>
      "staging incremental selected without frozen hot-mint set"
  | no_frozen_hot_mints => "no frozen hot-token set is loaded for this output"

inductive WatcherError
  | inconsistent (e : Inconsistency)
  | external
deriving DecidableEq, Repr

/-! ## Tables -/

def GROUP_MERGE_TABLES : List GroupTable :=
  [.raw_account, .raw_token_mint, .raw_token_metadata, .hot_token_account_state, .hot_token_info,
    .hot_wallet_token_balance]

theorem mem_GROUP_MERGE_TABLES (base : GroupTable) : base ∈ GROUP_MERGE_TABLES := by
  cases base <;> decide

/-- An import into a group of tables. -/
structure Import where
  archive : WatchedSnapshot
  kind : SnapshotKind
  hot_mints : HotMintSet
  completed : Bool := false
deriving DecidableEq

/-- A table since it was last emptied: the imports into it, and the slots the
journal recorded for its lane, each with the latest first. -/
structure TableRecord where
  imports : List Import
  recorded : List Slot

def TableRecord.empty : TableRecord := ⟨[], []⟩

/-! ## Files -/

/-- The state directory, and whatever other files there are, each a text under its
full path. -/
structure Directory where
  journal : Option WatcherState
  files : List (String × List Char)

def Directory.read (d : Directory) (path : String) : Option (List Char) :=
  d.files.lookup path

def HOT_MINTS_FILE_PREFIX : String := "solana-snapshot-etl-hot-mints-"

def HOT_MINTS_FILE_SUFFIX : String := ".txt"

/-- A path split at its last slash. -/
def split_path (path : String) : String × String :=
  let name := path.toList.reverse.takeWhile (· ≠ '/')
  let directory := (path.toList.reverse.drop name.length).tail
  (String.ofList directory.reverse, String.ofList name.reverse)

/-- `Path::parent`. -/
def parent (path : String) : String := (split_path path).1

/-- `Path::file_name`. -/
def file_name (path : String) : String := (split_path path).2

def is_managed_hot_mints_file (path directory : String) : Bool :=
  parent path = directory && HOT_MINTS_FILE_PREFIX.isPrefixOf (file_name path) &&
    HOT_MINTS_FILE_SUFFIX.toList.isSuffixOf (file_name path).toList

/-- A mint file on record: the mints it was written from, in their order, and
whether a process has been started since, which goes by what it reads. -/
structure MintFile where
  lines : List String
  reread : Bool

namespace MintFile

/-- Just written. -/
def written (lines : List String) : MintFile := ⟨lines, false⟩

def text (file : MintFile) : List Char := hot_mints_text file.lines

/-- The set its text reads as, unless it is refused. -/
def reads (file : MintFile) : HotMintSet := (text_lines file.text).toFinset

/-- The set that goes by it. A process that reads a file that is refused goes by none. -/
def in_use (file : MintFile) : HotMintSet :=
  if file.reread = true ∧ "" ∉ text_lines file.text then file.reads else file.lines.toFinset

/-- It is refused, or every mint reads as itself. -/
def reads_as_written (file : MintFile) : Bool :=
  "" ∈ text_lines file.text || file.lines.all fun mint => ReadsAsItself mint

/-- Then it does not matter whether it was read. -/
theorem in_use_of_reads_as_written {file : MintFile} (h : file.reads_as_written = true) :
    file.in_use = file.lines.toFinset := by
  unfold in_use
  split
  next hread =>
    simp only [reads_as_written, Bool.or_eq_true, decide_eq_true_eq, hread.2, false_or,
      List.all_eq_true] at h
    rw [reads, text, text_lines_of_reads h]
  next => rfl

end MintFile

/-! ## The world -/

/-- How a journal write failed: that of a completed shared full load, or another
one. -/
inductive PersistFailure
  | shared_commit
  | other
deriving DecidableEq, Repr

inductive WorkerResult
  | ok
  | failed
  | panicked
deriving DecidableEq, Repr

/-- The running process, as far as its effects go: how it was started, the
journal it last loaded or tried to write, whether that write failed, whether the
write of a completed shared full ever did, the groups its import is writing to,
and the threads it has not joined. -/
structure Process where
  bootstrap : Bool
  memory : Option WatcherState
  failed : Option PersistFailure
  lagging : Bool
  importing : List TableGroup
  staging_build : Bool
  staging_incremental : Bool

def Process.started (bootstrap : Bool) : Process :=
  ⟨bootstrap, none, none, false, [], false, false⟩

structure World where
  directory : Directory
  unsynced : List Directory
  frozen : List (String × MintFile)
  tables : TableGroupIdentity
  records : GroupTable → Generation → TableRecord
  process : Process

namespace World

/-- The table a group's name denotes. -/
def physical (w : World) (group : TableGroup) (base : GroupTable) : Generation :=
  match group with
  | .Active => w.tables base
  | .Backup => (w.tables base).other

/-- A change of what a group's names denote. -/
def on_group (w : World) (group : TableGroup) (f : GroupTable → TableRecord → TableRecord) :
    World :=
  { w with records := fun base g =>
      if g = w.physical group base then f base (w.records base g) else w.records base g }

/-- The two groups' names never denote one table. -/
theorem physical_ne (w : World) {group group' : TableGroup} (h : group ≠ group')
    (base : GroupTable) : w.physical group base ≠ w.physical group' base := by
  cases group <;> cases group' <;> simp only [ne_eq, not_true_eq_false] at h
  · exact (Generation.other_ne _).symm
  · exact Generation.other_ne _

/-- The group's own tables change. -/
theorem records_on_group (w : World) (group : TableGroup)
    (f : GroupTable → TableRecord → TableRecord) (base : GroupTable) :
    (w.on_group group f).records base (w.physical group base) =
      f base (w.records base (w.physical group base)) := if_pos rfl

/-- The other group's do not. -/
theorem records_on_group_of_ne (w : World) {group group' : TableGroup} (h : group' ≠ group)
    (f : GroupTable → TableRecord → TableRecord) (base : GroupTable) :
    (w.on_group group f).records base (w.physical group' base) =
      w.records base (w.physical group' base) := if_neg (w.physical_ne h base)

def truncate (w : World) (group : TableGroup) (bases : List GroupTable) : World :=
  w.on_group group fun base record => if base ∈ bases then .empty else record

def start_import (w : World) (group : TableGroup) (i : Import) : World :=
  w.on_group group fun _ record => { record with imports := i :: record.imports }

def complete_import (w : World) (group : TableGroup) : World :=
  w.on_group group fun _ record =>
    { record with imports := match record.imports with
        | [] => []
        | i :: imports => { i with completed := true } :: imports }

def exchange (w : World) (base : GroupTable) : World :=
  { w with tables := fun b => if b = base then (w.tables b).other else w.tables b }

/-- After an exchange each name of the pair denotes what the other one did. -/
theorem exchange_tables (w : World) (base b : GroupTable) :
    (w.exchange base).tables b = if b = base then w.physical .Backup b else w.tables b := rfl

/-- The other pairs keep their names. -/
theorem physical_exchange_of_ne (w : World) {base b : GroupTable} (h : b ≠ base)
    (group : TableGroup) : (w.exchange base).physical group b = w.physical group b := by
  cases group <;> simp [physical, exchange, h]

/-- The tables of the lane a journal calls active. Between the checkpoint of a
cutover and its end the names are no guide. -/
def lane_tables (w : World) (s : WatcherState) : TableGroupIdentity :=
  match s.cutover with
  | some checkpoint => checkpoint.active_tables
  | none => w.tables

/-- The journal is in place: it records a slot for each lane that has one. -/
def record (w : World) (s : WatcherState) : GroupTable → Generation → TableRecord :=
  fun base g =>
    let lane := if g = w.lane_tables s base then s.active else s.staging
    { w.records base g with recorded := lane.max_slot.toList ++ (w.records base g).recorded }

/-- The failure a journal write of `s` would be. -/
def failure (w : World) (s : WatcherState) : PersistFailure :=
  match w.process.memory with
  | some memory =>
      if memory.shared_full_load.isSome && s.shared_full_load.isNone then .shared_commit else .other
  | none => .other

/-- The process after a journal write of `s` that failed. -/
def persist_failed (w : World) (s : WatcherState) : Process :=
  { w.process with
    memory := some s
    failed := some (w.failure s)
    lagging := w.process.lagging || w.failure s = .shared_commit }

/-- What a failed write leaves in memory depends on the process alone. -/
theorem persist_failed_congr {w w' : World} (h : w'.process = w.process) (s : WatcherState) :
    w'.persist_failed s = w.persist_failed s := by
  unfold persist_failed failure
  rw [h]

/-- `persist_watcher_state`, to the end. -/
def persisted (w : World) (s : WatcherState) : World :=
  { w with
    directory := { w.directory with journal := some s }
    unsynced := []
    records := w.record s
    process := { w.process with memory := some s, failed := none } }

/-- It failed after the rename, in making the rename last. -/
def renamed (w : World) (s : WatcherState) : World :=
  { w with
    directory := { w.directory with journal := some s }
    unsynced := w.directory :: w.unsynced
    records := w.record s
    process := w.persist_failed s }

/-- It failed before the rename. -/
def unwritten (w : World) (s : WatcherState) : World :=
  { w with process := w.persist_failed s }

/-- A new mint file, in place and, if `synced`, there to stay. -/
def frozen_file (w : World) (path : String) (lines : List String) (synced : Bool) : World :=
  { w with
    directory := { w.directory with files := (path, hot_mints_text lines) :: w.directory.files }
    unsynced := if synced then [] else w.directory :: w.unsynced
    frozen := (path, .written lines) :: w.frozen }

def removed (w : World) (path : String) : World :=
  { w with
    directory := { w.directory with files := w.directory.files.filter (·.1 ≠ path) }
    unsynced := w.directory :: w.unsynced }

/-- The record of a lane's mint file. -/
def mint_file (w : World) (lane : LaneWatcherState) : Option MintFile :=
  lane.hot_mints_path.bind fun path => w.frozen.lookup path

/-- The set that goes by a lane's mint file. -/
def hot_mints (w : World) (lane : LaneWatcherState) : Option HotMintSet :=
  (w.mint_file lane).map MintFile.in_use

/-- The set a lane's mint file was written from. -/
def written_mints (w : World) (lane : LaneWatcherState) : Option HotMintSet :=
  (w.mint_file lane).map fun file => file.lines.toFinset

theorem hot_mints_of_lookup {w : World} {lane : LaneWatcherState} {path : String} {file : MintFile}
    (hpath : lane.hot_mints_path = some path) (hfile : w.frozen.lookup path = some file) :
    w.hot_mints lane = some file.in_use := by
  rw [hot_mints, mint_file, hpath]
  exact congrArg (Option.map MintFile.in_use) hfile

/-- The set that goes by a lane depends on its file's name and on the records. -/
theorem hot_mints_congr {w w' : World} {lane lane' : LaneWatcherState}
    (hfrozen : w'.frozen = w.frozen) (hpath : lane'.hot_mints_path = lane.hot_mints_path) :
    w'.hot_mints lane' = w.hot_mints lane := by
  unfold hot_mints mint_file
  rw [hfrozen, hpath]

/-- The process is gone, with its threads. -/
def stopped (w : World) : World := { w with process := .started false }

/-- A new process, which goes by what it reads. An explicit bootstrap reads no mint
file. -/
def started (w : World) (bootstrap : Bool) : World :=
  { w with
    frozen := w.frozen.map fun (path, file) =>
      (path, { file with reread := file.reread || !bootstrap })
    process := .started bootstrap }

/-- A start loses no record and adds none. -/
theorem started_lookup (w : World) (bootstrap : Bool) (path : String) :
    (w.started bootstrap).frozen.lookup path = (w.frozen.lookup path).map
      fun file => { file with reread := file.reread || !bootstrap } := by
  unfold started
  induction w.frozen with
  | nil => rfl
  | cons record frozen ih =>
      obtain ⟨name, file⟩ := record
      rw [List.map_cons, List.lookup_cons, List.lookup_cons]
      cases path == name with
      | true => rfl
      | false => exact ih

/-- Nor does a lane change its file at a start. -/
theorem started_mint_file (w : World) (bootstrap : Bool) (lane : LaneWatcherState) :
    (w.started bootstrap).mint_file lane = (w.mint_file lane).map
      fun file => { file with reread := file.reread || !bootstrap } := by
  unfold mint_file
  cases lane.hot_mints_path with
  | none => rfl
  | some path => exact w.started_lookup bootstrap path

/-- The set that goes by a file is the one the file reads as. -/
def AsRead (w : World) (path : String) : Prop :=
  ∀ file, w.frozen.lookup path = some file → file.reread = true

/-- A process that follows the journal goes by what its mint files read as. -/
theorem started_as_read (w : World) (path : String) : (w.started false).AsRead path := by
  intro file hfile
  rw [started_lookup] at hfile
  obtain ⟨before, -, rfl⟩ := Option.map_eq_some_iff.mp hfile
  exact Bool.or_true _

theorem AsRead.of_same {w w' : World} {path : String} (h : w.AsRead path)
    (hfrozen : w'.frozen = w.frozen) : w'.AsRead path := by
  intro file hfile
  rw [hfrozen] at hfile
  exact h file hfile

/-- A new file under another path is nothing to it. -/
theorem AsRead.frozen_file {w : World} {path new : String} (h : w.AsRead path) (hne : path ≠ new)
    (lines : List String) (synced : Bool) : (w.frozen_file new lines synced).AsRead path := by
  intro file hfile
  change List.lookup path ((new, .written lines) :: w.frozen) = some file at hfile
  rw [List.lookup_cons, beq_eq_false_iff_ne.mpr hne] at hfile
  exact h file hfile

end World

/-! ## Calls -/

inductive Call
  | max_raw_account_updated_slot
  | load_watcher_state
  | persist_watcher_state (state : WatcherState)
  | persist_frozen_hot_mints (hot_mints : HotMintSet)
  | load_frozen_hot_mints (path : String)
  | read_dir (directory : String)
  | remove_file (path : String)
  | sync_directory
  | load_enabled_hot_mints
  | snapshot_hot_mints
  | stop_group_merges (group : TableGroup)
  | reset_group (group : TableGroup)
  | start_group_merges (group : TableGroup)
  | wait_for_group_merges_to_settle (group : TableGroup)
  | validate_staging_group (frozen_hot_mint_count : ℕ)
  | table_group_identity (group : TableGroup)
  | exchange_tables (base : GroupTable)
  | new_loader (archive : WatchedSnapshot) (resume_slot : Slot)
  | begin_import (group : TableGroup) (i : Import)
  | begin_shared_import (staging active : Import) (active_resume_slot : Slot)
  | end_import
  | discover_incremental_snapshots
  | discover_full_snapshots
  | spawn_staging_full (snapshot : FullSnapshot)
  | spawn_staging_merge_wait (snapshot : FullSnapshotWatcherState)
  | spawn_staging_incremental (snapshot : IncrementalSnapshot) (stage_slot : Slot)
      (hot_mints : HotMintSet)
  | try_recv_full_imported
  | send_full_import_ack
  | send_full_imported (hot_mints : HotMintSet)
  | recv_full_import_ack
  | join_staging_build
  | join_staging_incremental
  | sleep (state : WatcherState) (active_slot : Slot) (incrementals : List IncrementalSnapshot)
      (fulls : List FullSnapshot)
  | existing (paths : List String)
  | raise (e : Inconsistency)

/-- What a call that succeeds returns. -/
abbrev Reply : Call → Type
  | .max_raw_account_updated_slot => Slot
  | .load_watcher_state => Option WatcherState
  | .persist_frozen_hot_mints _ => String
  | .load_frozen_hot_mints _ => HotMintSet
  | .read_dir _ => List String
  | .load_enabled_hot_mints => HotMintSet
  | .snapshot_hot_mints => HotMintSet
  | .table_group_identity _ => TableGroupIdentity
  | .discover_incremental_snapshots => List IncrementalSnapshot
  | .discover_full_snapshots => List FullSnapshot
  | .try_recv_full_imported => Option HotMintSet
  | .join_staging_build => Option WorkerResult
  | .join_staging_incremental => Option WorkerResult
  | .existing _ => List String
  | _ => Unit

/-- `none` is an error. -/
abbrev Answer (c : Call) : Type := Option (Reply c)

/-- What the environment decides about a call. -/
inductive Outcome
  | ok
  | failed
  | failed_late
  | slot (slot : Slot)
  | hot_mints (hot_mints : HotMintSet)
  | written (path : String) (lines : List String)
  | written_late (path : String) (lines : List String)
  | truncated (bases : List GroupTable)
  | paths (paths : List String)
  | incrementals (incrementals : List IncrementalSnapshot)
  | fulls (fulls : List FullSnapshot)
  | received (hot_mints : Option HotMintSet)
  | joined (result : Option WorkerResult)

namespace World

/-- A path a process can have picked: its id and the time make it new. -/
def fresh_path (w : World) (path : String) : Bool :=
  (w.frozen.lookup path).isNone && (w.directory.read path).isNone

/-- A call that succeeds with `done`, or fails with nothing done. -/
def acknowledge (w : World) (done : World) : Outcome → Option (Option Unit × World)
  | .ok => some (some (), done)
  | .failed => some (none, w)
  | _ => none

/-- A call that reads: the outcome names the answer, or there is none. -/
def report {α : Type} (w : World) (answer : Outcome → Option α) (o : Outcome) :
    Option (Option α × World) :=
  match o, answer o with
  | .failed, _ => some (none, w)
  | _, some a => some (some a, w)
  | _, none => none

/-- A journal write, and the points it can stop at: before the rename or after. -/
def persist (w : World) (s : WatcherState) : Outcome → Option (Option Unit × World)
  | .ok => some (some (), w.persisted s)
  | .failed_late => some (none, w.renamed s)
  | .failed => some (none, w.unwritten s)
  | _ => none

def load (w : World) : Outcome → Option (Option (Option WatcherState) × World)
  | .ok => some (some w.directory.journal,
      { w with process := { w.process with memory := w.directory.journal, failed := none } })
  | .failed => some (none, w)
  | _ => none

/-- A new mint file, written line by line in some order. -/
def persist_mints (w : World) (mints : HotMintSet) : Outcome → Option (Option String × World)
  | .written path lines =>
      if w.fresh_path path && lines.toFinset = mints then
        some (some path, w.frozen_file path lines true)
      else none
  | .written_late path lines =>
      if w.fresh_path path && lines.toFinset = mints then
        some (none, w.frozen_file path lines false)
      else none
  | .failed => some (none, w)
  | _ => none

/-- The set that the file under a path reads as. -/
def read_mints (w : World) (path : String) : Option HotMintSet :=
  (w.directory.read path).bind fun text => (read_hot_mints path text).toOption

def load_mints (w : World) (path : String) : Outcome → Option (Option HotMintSet × World)
  | .ok => some (w.read_mints path, w)
  | .failed => some (none, w)
  | _ => none

/-- The six tables are emptied one after another. -/
def reset (w : World) (group : TableGroup) : Outcome → Option (Option Unit × World)
  | .ok => some (some (), w.truncate group GROUP_MERGE_TABLES)
  | .truncated bases => some (none, w.truncate group bases)
  | .failed => some (none, w)
  | _ => none

/-- An exchange may have been made although its answer is lost. -/
def swap (w : World) (base : GroupTable) : Outcome → Option (Option Unit × World)
  | .ok => some (some (), w.exchange base)
  | .failed_late => some (none, w.exchange base)
  | .failed => some (none, w)
  | _ => none

def finish_import (w : World) : Outcome → Option (Option Unit × World)
  | .ok => some (some (), { w.process.importing.foldl complete_import w with
      process := { w.process with importing := [] } })
  | .failed => some (none, { w with process := { w.process with importing := [] } })
  | _ => none

def join_build (w : World) : Outcome → Option (Option (Option WorkerResult) × World)
  | .joined none => some (some none, w)
  | .joined (some result) =>
      some (some (some result), { w with process := { w.process with staging_build := false } })
  | _ => none

def join_incremental (w : World) : Outcome → Option (Option (Option WorkerResult) × World)
  | .joined none => some (some none, w)
  | .joined (some .ok) => some (some (some .ok), { w.complete_import .Backup with
      process := { w.process with staging_incremental := false } })
  | .joined (some result) => some (some (some result),
      { w with process := { w.process with staging_incremental := false } })
  | _ => none

def reported_slot : Outcome → Option Slot
  | .slot slot => some slot
  | _ => none

/-- The sets that `hot_token_enabled` can hold: never an empty one. -/
def reported_enabled : Outcome → Option HotMintSet
  | .hot_mints mints => if mints.Nonempty then some mints else none
  | _ => none

def reported_paths (w : World) (directory : String) : Outcome → Option (List String)
  | .ok => some ((w.directory.files.map (·.1)).filter fun path => parent path = directory)
  | _ => none

def reported_identity (w : World) (group : TableGroup) : Outcome → Option TableGroupIdentity
  | .ok => some (w.physical group)
  | _ => none

def reported_incrementals : Outcome → Option (List IncrementalSnapshot)
  | .incrementals incrementals => some incrementals
  | _ => none

def reported_fulls : Outcome → Option (List FullSnapshot)
  | .fulls fulls => some fulls
  | _ => none

def reported_received : Outcome → Option (Option HotMintSet)
  | .received hot_mints => some hot_mints
  | _ => none

def reported_existing (paths : List String) : Outcome → Option (List String)
  | .paths there => some (paths.filter (· ∈ there))
  | _ => none

/-- The answer to a call under an outcome, where the outcome is one of it. -/
def respond (w : World) (c : Call) (o : Outcome) : Option (Answer c × World) :=
  match c with
  | .max_raw_account_updated_slot => w.report reported_slot o
  | .load_watcher_state => w.load o
  | .persist_watcher_state s => w.persist s o
  | .persist_frozen_hot_mints mints => w.persist_mints mints o
  | .load_frozen_hot_mints path => w.load_mints path o
  | .read_dir directory => w.report (w.reported_paths directory) o
  | .remove_file path => w.acknowledge (w.removed path) o
  | .sync_directory => w.acknowledge { w with unsynced := [] } o
  | .load_enabled_hot_mints => w.report reported_enabled o
  | .snapshot_hot_mints => w.report reported_enabled o
  | .stop_group_merges _ => w.acknowledge w o
  | .reset_group group => w.reset group o
  | .start_group_merges _ => w.acknowledge w o
  | .wait_for_group_merges_to_settle _ => w.acknowledge w o
  | .validate_staging_group _ => w.acknowledge w o
  | .table_group_identity group => w.report (w.reported_identity group) o
  | .exchange_tables base => w.swap base o
  | .new_loader _ _ => w.acknowledge w o
  | .begin_import group i => w.acknowledge
      { w.start_import group i with process := { w.process with importing := [group] } } o
  | .begin_shared_import staging active _ => w.acknowledge
      { (w.start_import .Backup staging).start_import .Active active with
        process := { w.process with importing := [.Backup, .Active] } } o
  | .end_import => w.finish_import o
  | .discover_incremental_snapshots => w.report reported_incrementals o
  | .discover_full_snapshots => w.report reported_fulls o
  | .spawn_staging_full _ => w.acknowledge
      { w with process := { w.process with staging_build := true } } o
  | .spawn_staging_merge_wait _ => w.acknowledge
      { w with process := { w.process with staging_build := true } } o
  | .spawn_staging_incremental snapshot _ hot_mints => w.acknowledge
      { w.start_import .Backup ⟨.Incremental snapshot, .Incremental, hot_mints, false⟩ with
        process := { w.process with staging_incremental := true } } o
  | .try_recv_full_imported => w.report reported_received o
  | .send_full_import_ack => w.acknowledge w o
  | .send_full_imported _ => w.acknowledge w o
  | .recv_full_import_ack => w.acknowledge w o
  | .join_staging_build => w.join_build o
  | .join_staging_incremental => w.join_incremental o
  | .sleep _ _ _ _ => w.acknowledge w o
  | .existing paths => w.report (reported_existing paths) o
  | .raise _ => w.acknowledge w o

/-! ## The answers, call by call -/

variable {w w' : World} {o : Outcome}

/-- A call that is acknowledged is carried out, and a failed one is not. -/
theorem acknowledge_cases {done : World} {a : Option Unit}
    (h : w.acknowledge done o = some (a, w')) :
    (a = some () ∧ w' = done) ∨ (a = none ∧ w' = w) := by
  cases o <;> simp [acknowledge] at h <;> obtain ⟨rfl, rfl⟩ := h <;> simp

/-- A call that reads leaves the world alone. -/
theorem report_cases {α : Type} {answer : Outcome → Option α} {a : Option α}
    (h : w.report answer o = some (a, w')) : w' = w ∧ (a = none ∨ a = answer o) := by
  unfold report at h
  split at h <;> simp at h <;> obtain ⟨rfl, rfl⟩ := h <;> simp_all

/-- A journal write that fails has either reached the rename or left the file as it was. -/
theorem respond_persist {s : WatcherState} {a : Answer (.persist_watcher_state s)}
    (h : w.respond (.persist_watcher_state s) o = some (a, w')) :
    (a = some () ∧ w' = w.persisted s) ∨ (a = none ∧ (w' = w.renamed s ∨ w' = w.unwritten s)) := by
  change w.persist s o = _ at h
  cases o <;> simp [persist] at h <;> obtain ⟨rfl, rfl⟩ := h <;> simp

/-- A load puts the journal on disk into memory. -/
theorem respond_load {a : Answer .load_watcher_state}
    (h : w.respond .load_watcher_state o = some (a, w')) :
    (a = some w.directory.journal ∧ w' =
      { w with process := { w.process with memory := w.directory.journal, failed := none } }) ∨
      (a = none ∧ w' = w) := by
  change w.load o = _ at h
  cases o <;> simp [load] at h <;> obtain ⟨rfl, rfl⟩ := h <;> simp

/-- A mint file that was written has the whole set under a new name, and a write that fails
may have left such a file behind. -/
theorem respond_persist_mints {mints : HotMintSet} {a : Answer (.persist_frozen_hot_mints mints)}
    (h : w.respond (.persist_frozen_hot_mints mints) o = some (a, w')) :
    (∃ path lines, a = some path ∧ lines.toFinset = mints ∧ w.frozen.lookup path = none ∧
      w' = w.frozen_file path lines true) ∨
    (a = none ∧ (w' = w ∨ ∃ path lines, w.frozen.lookup path = none ∧
      w' = w.frozen_file path lines false)) := by
  change w.persist_mints mints o = _ at h
  cases o with
  | written path lines =>
      simp only [persist_mints, fresh_path, Bool.and_eq_true, Option.isNone_iff_eq_none,
        decide_eq_true_eq, Option.ite_none_right_eq_some, Option.some.injEq, Prod.mk.injEq] at h
      obtain ⟨⟨⟨hfresh, -⟩, hset⟩, rfl, rfl⟩ := h
      exact .inl ⟨path, lines, rfl, hset, hfresh, rfl⟩
  | written_late path lines =>
      simp only [persist_mints, fresh_path, Bool.and_eq_true, Option.isNone_iff_eq_none,
        decide_eq_true_eq, Option.ite_none_right_eq_some, Option.some.injEq, Prod.mk.injEq] at h
      obtain ⟨⟨⟨hfresh, -⟩, -⟩, rfl, rfl⟩ := h
      exact .inr ⟨rfl, .inr ⟨path, lines, hfresh, rfl⟩⟩
  | failed =>
      obtain ⟨rfl, rfl⟩ := Prod.mk.inj (Option.some.inj h)
      exact .inr ⟨rfl, .inl rfl⟩
  | _ => cases h

/-- A mint file is answered with what its text reads as. -/
theorem respond_load_mints {path : String} {a : Answer (.load_frozen_hot_mints path)}
    (h : w.respond (.load_frozen_hot_mints path) o = some (a, w')) :
    w' = w ∧ (a = none ∨ a = w.read_mints path) := by
  change w.load_mints path o = _ at h
  cases o <;> simp [load_mints] at h <;> obtain ⟨rfl, rfl⟩ := h <;> simp

theorem respond_remove {path : String} {a : Answer (.remove_file path)}
    (h : w.respond (.remove_file path) o = some (a, w')) : w' = w ∨ w' = w.removed path := by
  rcases acknowledge_cases h with ⟨-, rfl⟩ | ⟨-, rfl⟩
  · exact .inr rfl
  · exact .inl rfl

theorem respond_sync {a : Answer .sync_directory}
    (h : w.respond .sync_directory o = some (a, w')) : w' = w ∨ w' = { w with unsynced := [] } := by
  rcases acknowledge_cases h with ⟨-, rfl⟩ | ⟨-, rfl⟩
  · exact .inr rfl
  · exact .inl rfl

/-- A reset that succeeds has emptied all six tables, and one that fails any of them. -/
theorem respond_reset {group : TableGroup} {a : Answer (.reset_group group)}
    (h : w.respond (.reset_group group) o = some (a, w')) :
    (a = some () ∧ w' = w.truncate group GROUP_MERGE_TABLES) ∨
      (a = none ∧ ∃ bases, w' = w.truncate group bases) := by
  change w.reset group o = _ at h
  cases o with
  | ok =>
      obtain ⟨rfl, rfl⟩ := Prod.mk.inj (Option.some.inj h)
      exact .inl ⟨rfl, rfl⟩
  | truncated bases =>
      obtain ⟨rfl, rfl⟩ := Prod.mk.inj (Option.some.inj h)
      exact .inr ⟨rfl, bases, rfl⟩
  | failed =>
      obtain ⟨rfl, rfl⟩ := Prod.mk.inj (Option.some.inj h)
      refine .inr ⟨rfl, [], ?_⟩
      simp [truncate, on_group]
  | _ => cases h

theorem respond_identity {group : TableGroup} {a : Answer (.table_group_identity group)}
    (h : w.respond (.table_group_identity group) o = some (a, w')) :
    w' = w ∧ (a = none ∨ a = some (w.physical group)) := by
  obtain ⟨rfl, ha⟩ := report_cases h
  refine ⟨rfl, ?_⟩
  cases o with
  | ok => exact ha
  | _ => exact .inl (ha.elim id id)

/-- The answer of an exchange may be lost although it was made. -/
theorem respond_exchange {base : GroupTable} {a : Answer (.exchange_tables base)}
    (h : w.respond (.exchange_tables base) o = some (a, w')) :
    (a = some () ∧ w' = w.exchange base) ∨ (a = none ∧ (w' = w ∨ w' = w.exchange base)) := by
  change w.swap base o = _ at h
  cases o <;> simp [swap] at h <;> obtain ⟨rfl, rfl⟩ := h <;> simp

/-- An import that ends well completes the last import of each of its groups. -/
theorem respond_end_import {a : Answer .end_import}
    (h : w.respond .end_import o = some (a, w')) :
    (a = some () ∧ w' = { w.process.importing.foldl complete_import w with
        process := { w.process with importing := [] } }) ∨
      (a = none ∧ w' = { w with process := { w.process with importing := [] } }) := by
  change w.finish_import o = _ at h
  cases o <;> simp [finish_import] at h <;> obtain ⟨rfl, rfl⟩ := h <;> simp

/-- The thread that builds staging is still running, or gone with a result. -/
theorem respond_join_build {a : Answer .join_staging_build}
    (h : w.respond .join_staging_build o = some (a, w')) :
    (a = some none ∧ w' = w) ∨ (∃ result, a = some (some result) ∧
      w' = { w with process := { w.process with staging_build := false } }) := by
  change w.join_build o = _ at h
  cases o with
  | joined result =>
      cases result with
      | none =>
          obtain ⟨rfl, rfl⟩ := Prod.mk.inj (Option.some.inj h)
          exact .inl ⟨rfl, rfl⟩
      | some result =>
          obtain ⟨rfl, rfl⟩ := Prod.mk.inj (Option.some.inj h)
          exact .inr ⟨result, rfl, rfl⟩
  | _ => cases h

/-- The thread of staging's incremental is still running, or has completed its import, or is
gone without. -/
theorem respond_join_incremental {a : Answer .join_staging_incremental}
    (h : w.respond .join_staging_incremental o = some (a, w')) :
    (a = some none ∧ w' = w) ∨ (a = some (some .ok) ∧ w' =
      { w.complete_import .Backup with
        process := { w.process with staging_incremental := false } }) ∨
    (∃ result, result ≠ .ok ∧ a = some (some result) ∧
      w' = { w with process := { w.process with staging_incremental := false } }) := by
  change w.join_incremental o = _ at h
  cases o with
  | joined result =>
      cases result with
      | none =>
          obtain ⟨rfl, rfl⟩ := Prod.mk.inj (Option.some.inj h)
          exact .inl ⟨rfl, rfl⟩
      | some result =>
          cases result <;> obtain ⟨rfl, rfl⟩ := Prod.mk.inj (Option.some.inj h) <;> simp
  | _ => cases h

/-- The calls that leave the world as it is. -/
def quiet : Call → Bool
  | .max_raw_account_updated_slot | .load_frozen_hot_mints _ | .read_dir _ => true
  | .load_enabled_hot_mints | .snapshot_hot_mints => true
  | .stop_group_merges _ | .start_group_merges _ | .wait_for_group_merges_to_settle _ => true
  | .validate_staging_group _ | .table_group_identity _ | .new_loader _ _ => true
  | .discover_incremental_snapshots | .discover_full_snapshots => true
  | .try_recv_full_imported | .send_full_import_ack => true
  | .send_full_imported _ | .recv_full_import_ack => true
  | .sleep _ _ _ _ | .existing _ | .raise _ => true
  | _ => false

/-- The quiet calls change nothing, whatever they answer. -/
theorem respond_quiet {c : Call} {a : Answer c} (hc : quiet c = true)
    (h : w.respond c o = some (a, w')) : w' = w := by
  have hsame : ∀ {a : Option Unit}, w.acknowledge w o = some (a, w') → w' = w := fun h =>
    (acknowledge_cases h).elim And.right And.right
  cases c with
  | max_raw_account_updated_slot => exact (report_cases h).1
  | load_frozen_hot_mints path => exact (respond_load_mints h).1
  | read_dir directory => exact (report_cases h).1
  | load_enabled_hot_mints => exact (report_cases h).1
  | snapshot_hot_mints => exact (report_cases h).1
  | table_group_identity group => exact (report_cases h).1
  | discover_incremental_snapshots => exact (report_cases h).1
  | discover_full_snapshots => exact (report_cases h).1
  | try_recv_full_imported => exact (report_cases h).1
  | existing paths => exact (report_cases h).1
  | stop_group_merges group => exact hsame h
  | start_group_merges group => exact hsame h
  | wait_for_group_merges_to_settle group => exact hsame h
  | validate_staging_group count => exact hsame h
  | new_loader archive resume_slot => exact hsame h
  | send_full_import_ack => exact hsame h
  | send_full_imported mints => exact hsame h
  | recv_full_import_ack => exact hsame h
  | sleep state active_slot incrementals fulls => exact hsame h
  | raise e => exact hsame h
  | _ => cases hc

end World

end SnapshotEtl.Watcher
