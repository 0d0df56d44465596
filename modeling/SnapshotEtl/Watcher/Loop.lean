/-
The watcher as a program: the functions that `run_incremental_snapshots` is made
of, its start, and one turn of its loop.

The turn is cut into the blocks of the loop body, in their order. A block that
can end the turn answers with a `Flow`. The journal in memory is part of the
state a program keeps through errors, because the source mutates it through a
reference and one caller catches the error and goes on.
-/
import SnapshotEtl.Watcher.World

set_option autoImplicit false

namespace SnapshotEtl.Watcher

open Lib Program

/-! ## Calls and errors -/

abbrev Watch (σ α : Type) : Type := Program Call Answer σ WatcherError α

section calls

variable {σ α : Type}

/-- `?` on a call. -/
def call (c : Call) : Watch σ (Reply c) := do
  match ← ask c with
  | some reply => pure reply
  | none => fail .external

/-- An internal-consistency error. Making it is an event of its own, since not
every caller passes it on. -/
def raise (e : Inconsistency) : Watch σ α := do
  let _ ← ask (.raise e)
  fail (.inconsistent e)

/-- `ok_or`. -/
def require (value : Option α) (e : Inconsistency) : Watch σ α :=
  match value with
  | some a => pure a
  | none => raise e

/-- `find_recorded_full`, where the archive may be gone. -/
def recorded_full (fulls : List FullSnapshot) (recorded : FullSnapshotWatcherState) :
    Watch σ FullSnapshot :=
  match find_recorded_full fulls recorded with
  | some snapshot => pure snapshot
  | none => fail .external

/-! ## Files -/

def persist_watcher_state (state : WatcherState) : Watch σ Unit :=
  call (.persist_watcher_state state)

def persist_frozen_hot_mints (hot_mints : HotMintSet) : Watch σ String :=
  call (.persist_frozen_hot_mints hot_mints)

def load_frozen_hot_mints (path : String) : Watch σ HotMintSet :=
  call (.load_frozen_hot_mints path)

/-- Whether a lane that is not disabled names the file. -/
def referenced (state : WatcherState) (path : String) : Bool :=
  let names (lane : LaneWatcherState) : Bool :=
    lane.phase ≠ .Disabled && lane.hot_mints_path = some path
  names state.active || names state.staging

def remove_files : List String → Watch σ Unit
  | [] => pure ()
  | path :: paths => do
      call (.remove_file path)
      remove_files paths

def cleanup_unused_frozen_hot_mints (state_path : String) (state : WatcherState) :
    Watch σ ℕ := do
  let directory := parent state_path
  let paths ← call (.read_dir directory)
  let unused := paths.filter fun path =>
    is_managed_hot_mints_file path directory && !referenced state path
  remove_files unused
  if unused.length > 0 then
    call .sync_directory
  else
    pure ()
  pure unused.length

def cleanup_unused_frozen_hot_mints_or_warn (state_path : String) (state : WatcherState) :
    Watch σ Unit := do
  let _ ← attempt (cleanup_unused_frozen_hot_mints state_path state)
  pure ()

end calls

/-! ## State -/

/-- A staging worker's handle: the full it is for, and whether the watcher waits
for its mint set and owes it the acknowledgement. -/
structure StagingBuild where
  snapshot : FullSnapshotWatcherState
  full_imported : Bool
  full_import_ack : Bool

/-- What the loop keeps between its turns. The staging incremental's thread returns
the slot of its archive, which stands for the handle. -/
structure Locals where
  hot_mints : Option HotMintSet
  watcher_state : WatcherState
  bootstrap_pending : Bool
  active_slot : Slot
  staging_hot_mints : Option HotMintSet
  staging_build : Option StagingBuild
  staging_incremental_handle : Option Slot
  invalid_archives : List String

abbrev WatcherM (α : Type) : Type := Watch Locals α

def update (f : WatcherState → WatcherState) : WatcherM Unit :=
  assign fun s => { s with watcher_state := f s.watcher_state }

def persist : WatcherM Unit := do
  let s ← read
  persist_watcher_state s.watcher_state

def set_hot_mints (hot_mints : HotMintSet) : WatcherM Unit :=
  assign fun s => { s with hot_mints := some hot_mints }

def frozen_hot_mints : WatcherM HotMintSet := do
  let s ← read
  require s.hot_mints .no_frozen_hot_mints

/-! ## Imports -/

def hot_mints_for (kind : SnapshotKind) : WatcherM HotMintSet := do
  let s ← read
  let mints ← match kind, s.hot_mints with
    | .Full, _ => call .snapshot_hot_mints
    | .Incremental, some mints => pure mints
    | .Incremental, none => call .load_enabled_hot_mints
  set_hot_mints mints
  pure mints

def process (candidate : WatchedSnapshot) (kind : SnapshotKind) (group : TableGroup) :
    WatcherM Unit := do
  let hot_mints ← hot_mints_for kind
  call (.begin_import group ⟨candidate, kind, hot_mints, false⟩)
  call .end_import

def process_shared_full_fanout (snapshot : FullSnapshot) (active_resume_slot : Slot)
    (staging_hot_mints : HotMintSet) : WatcherM Unit := do
  let active_hot_mints ← frozen_hot_mints
  call (.begin_shared_import ⟨.Full snapshot, .Full, staging_hot_mints, false⟩
    ⟨.Full snapshot, .Incremental, active_hot_mints, false⟩ active_resume_slot)
  call .end_import

/-! ## Steps -/

def apply_active_incremental (candidate : WatchedSnapshot) : WatcherM Bool := do
  let s ← read
  if candidate.slot ≤ s.active_slot then
    pure false
  else
    call (.new_loader candidate s.active_slot)
    update (·.begin_active_incremental candidate)
    persist
    process candidate .Incremental .Active
    assign fun s => { s with active_slot := candidate.slot }
    update (·.commit_active_incremental candidate.slot)
    persist
    pure true

def process_bootstrap_full (snapshot : FullSnapshot) : WatcherM Slot := do
  update (·.begin_bootstrap_full snapshot)
  persist
  call (.stop_group_merges .Active)
  call (.reset_group .Active)
  call (.new_loader (.Full snapshot) 0)
  process (.Full snapshot) .Full .Active
  let hot_mints ← frozen_hot_mints
  let hot_mints_path ← persist_frozen_hot_mints hot_mints
  update (·.commit_bootstrap_full snapshot.slot hot_mints_path)
  persist
  call (.start_group_merges .Active)
  call (.wait_for_group_merges_to_settle .Active)
  update (·.settle_active)
  persist
  pure snapshot.slot

def reset_failed_staging : WatcherM Unit := do
  let _ ← ask (.stop_group_merges .Backup)
  let _ ← ask (.reset_group .Backup)
  pure ()

def spawn_staging_full (snapshot : FullSnapshot) : WatcherM StagingBuild := do
  call (.spawn_staging_full snapshot)
  pure ⟨full_snapshot_state snapshot, true, true⟩

def spawn_staging_merge_wait (snapshot : FullSnapshotWatcherState) : WatcherM StagingBuild := do
  call (.spawn_staging_merge_wait snapshot)
  pure ⟨snapshot, false, false⟩

def spawn_staging_incremental (snapshot : IncrementalSnapshot) (stage_slot : Slot)
    (hot_mints : HotMintSet) : WatcherM Unit := do
  call (.spawn_staging_incremental snapshot stage_slot hot_mints)
  assign fun s => { s with staging_incremental_handle := some snapshot.slot }

def begin_shared_full_load (state_path : String) (snapshot : FullSnapshot) :
    WatcherM HotMintSet := do
  let s ← read
  if s.watcher_state.staging.phase ≠ .Disabled then
    raise .shared_begin_staging_not_disabled
  else if s.watcher_state.active.phase ≠ .Ready then
    raise .shared_begin_active_not_ready
  else
    let active_resume_slot ← require s.watcher_state.active.max_slot
      .ready_active_without_max_slot
    let staging_hot_mints ← call .snapshot_hot_mints
    let staging_hot_mints_path ← persist_frozen_hot_mints staging_hot_mints
    update (·.begin_shared_full_load snapshot active_resume_slot staging_hot_mints_path)
    persist
    let s ← read
    cleanup_unused_frozen_hot_mints_or_warn state_path s.watcher_state
    pure staging_hot_mints

def complete_shared_full_load (snapshot : FullSnapshot) (staging_hot_mints : HotMintSet) :
    WatcherM (Option StagingBuild) := do
  let s ← read
  let shared ← require s.watcher_state.shared_full_load .shared_completion_without_checkpoint
  if s.watcher_state.staging.phase ≠ .FullLoading ∨
      s.watcher_state.active.phase ≠ .IncrementalLoading then
    raise .shared_incompatible_lane_phases
  else
    let active_inflight ← require s.watcher_state.active.inflight_incremental
      .shared_without_active_inflight
    if active_inflight.kind ≠ .Full ∨ snapshot.path ≠ shared.snapshot.path ∨
        snapshot.slot ≠ shared.snapshot.slot then
      raise .shared_does_not_match_archive
    else if s.watcher_state.active.max_slot ≠ some shared.active_resume_slot then
      raise .shared_unexpected_active_max_slot
    else
      call (.new_loader (.Full snapshot) 0)
      process_shared_full_fanout snapshot shared.active_resume_slot staging_hot_mints
      update (·.commit_shared_full_load snapshot.slot)
      persist
      match ← attempt (spawn_staging_merge_wait shared.snapshot) with
      | .ok build => pure (some build)
      | .error _ => pure none

/-- The loop of `exchange_table_groups`. The UUIDs under the names were read
before its first turn. -/
def exchange_pairs (checkpoint : CutoverWatcherState) (active_now backup_now : TableGroupIdentity) :
    List GroupTable → WatcherM Unit
  | [] => pure ()
  | base :: bases =>
      if active_now base = checkpoint.staging_tables base ∧
          backup_now base = checkpoint.active_tables base then
        exchange_pairs checkpoint active_now backup_now bases
      else if active_now base ≠ checkpoint.active_tables base ∨
          backup_now base ≠ checkpoint.staging_tables base then
        fail .external
      else do
        call (.exchange_tables base)
        exchange_pairs checkpoint active_now backup_now bases

def exchange_table_groups (checkpoint : CutoverWatcherState) : WatcherM Unit := do
  let active_now ← call (.table_group_identity .Active)
  let backup_now ← call (.table_group_identity .Backup)
  exchange_pairs checkpoint active_now backup_now GROUP_MERGE_TABLES

/-- The checkpoint of a cutover that has none yet. -/
def take_cutover_checkpoint (staging_hot_mints : HotMintSet) : WatcherM Unit := do
  let s ← read
  if s.watcher_state.cutover.isNone then
    call (.validate_staging_group staging_hot_mints.card)
    let active_tables ← call (.table_group_identity .Active)
    let staging_tables ← call (.table_group_identity .Backup)
    update (·.checkpoint_cutover active_tables staging_tables)
    persist
  else
    pure ()

def finish_cutover (state_path : String) (staging_hot_mints : HotMintSet) : WatcherM Unit := do
  let s ← read
  if s.watcher_state.active.phase ≠ .CutoverPending ∨
      s.watcher_state.staging.phase ≠ .CutoverPending then
    pure ()
  else
    let _ ← require s.watcher_state.staging.max_slot .cutover_without_staging_max_slot
    take_cutover_checkpoint staging_hot_mints
    let s ← read
    let checkpoint ← require s.watcher_state.cutover .cutover_checkpoint_disappeared
    exchange_table_groups checkpoint
    set_hot_mints staging_hot_mints
    update (·.commit_cutover)
    persist
    let s ← read
    cleanup_unused_frozen_hot_mints_or_warn state_path s.watcher_state

/-! ## A turn of the loop -/

inductive Flow
  | next
  | turn
deriving DecidableEq, Repr

/-- A block of the loop body, and what follows it unless the turn is over. -/
def and_then (block : WatcherM Flow) (rest : WatcherM Unit) : WatcherM Unit := do
  match ← block with
  | .next => rest
  | .turn => pure ()

/-- The staging worker has imported its full and waits to be allowed to merge. -/
def receive_full_imported (state_path : String) : WatcherM Unit := do
  let s ← read
  match s.staging_build with
  | some build =>
      if s.watcher_state.staging.phase = .FullLoading ∧ build.full_imported then
        match ← call .try_recv_full_imported with
        | some hot_mints =>
            let hot_mints_path ← persist_frozen_hot_mints hot_mints
            update (·.commit_staging_full build.snapshot.slot hot_mints_path)
            persist
            let s ← read
            cleanup_unused_frozen_hot_mints_or_warn state_path s.watcher_state
            assign fun s => { s with staging_hot_mints := some hot_mints }
            if build.full_import_ack then
              assign fun s =>
                { s with staging_build := some { build with full_import_ack := false } }
              call .send_full_import_ack
            else
              raise .staging_without_acknowledgement
        | none => pure ()
      else
        pure ()
  | none => pure ()

def join_staging_build : WatcherM Unit := do
  let s ← read
  match s.staging_build with
  | some _ =>
      match ← call .join_staging_build with
      | some result =>
          assign fun s => { s with staging_build := none }
          match result with
          | .ok =>
              if s.watcher_state.staging.phase ≠ .FullMerging then
                raise .staging_finished_without_full_merging
              else
                update (·.settle_staging)
                persist
          | _ =>
              if s.watcher_state.staging.phase = .FullMerging then
                fail .external
              else
                reset_failed_staging
      | none => pure ()
  | none => pure ()

/-- The staging incremental is in: active stops with it. -/
def join_staging_incremental : WatcherM Unit := do
  let s ← read
  match s.staging_incremental_handle with
  | some slot =>
      match ← call .join_staging_incremental with
      | some result =>
          assign fun s => { s with staging_incremental_handle := none }
          match result with
          | .ok =>
              update (·.commit_staging_incremental slot)
              persist
          | _ => fail .external
      | none => pure ()
  | none => pure ()

def cut_over (state_path : String) : WatcherM Flow := do
  let s ← read
  if s.watcher_state.active.phase = .CutoverPending ∧
      s.watcher_state.staging.phase = .CutoverPending then
    let hot_mints ← require s.staging_hot_mints .cutover_without_staging_hot_mints
    finish_cutover state_path hot_mints
    assign fun s => { s with
      active_slot := s.watcher_state.active.max_slot.getD 0, staging_hot_mints := none }
    pure .turn
  else
    pure .next

/-- A new attempt at a checkpointed shared full. What goes wrong in it is logged,
and the turn starts over. -/
def resume_shared_full_load (fulls : List FullSnapshot) : WatcherM Flow := do
  let s ← read
  match s.watcher_state.shared_full_load with
  | some shared =>
      if s.staging_build.isSome ∨ s.staging_incremental_handle.isSome then
        raise .shared_conflicts_with_staging_worker
      else
        match ← ask (.stop_group_merges .Backup) with
        | none => reset_failed_staging
        | some _ =>
            match ← ask (.reset_group .Backup) with
            | none => reset_failed_staging
            | some _ =>
                let snapshot ← recorded_full fulls shared.snapshot
                let hot_mints ← require s.staging_hot_mints .shared_without_staging_hot_mints
                match ← attempt (complete_shared_full_load snapshot hot_mints) with
                | .ok build =>
                    assign fun s => { s with
                      active_slot := s.watcher_state.active.max_slot.getD 0
                      staging_build := build }
                | .error _ => reset_failed_staging
        pure .turn
  | none => pure .next

def resume_active_full_merging : WatcherM Flow := do
  let s ← read
  if s.watcher_state.active.phase = .FullMerging then
    let _ ← require s.watcher_state.active.full_snapshot .active_full_merging_without_full_snapshot
    call (.start_group_merges .Active)
    call (.wait_for_group_merges_to_settle .Active)
    update (·.settle_active)
    persist
    assign fun s => { s with
      active_slot := s.watcher_state.active.max_slot.getD 0, bootstrap_pending := false }
    pure .turn
  else
    pure .next

def resume_active_full_loading (fulls : List FullSnapshot) : WatcherM Flow := do
  let s ← read
  if s.watcher_state.active.phase = .FullLoading then
    let recorded ← require s.watcher_state.active.full_snapshot
      .active_full_loading_without_full_snapshot
    let snapshot ← recorded_full fulls recorded
    let active_slot ← process_bootstrap_full snapshot
    assign fun s => { s with active_slot := active_slot, bootstrap_pending := false }
    pure .turn
  else
    pure .next

/-- The archive an interrupted active import goes on with. -/
def resumed_candidate (kind : PersistedSnapshotKind) (incrementals : List IncrementalSnapshot)
    (fulls : List FullSnapshot) (active_slot : Slot) : Option WatchedSnapshot :=
  match kind with
  | .Full => (eligible_full_candidates fulls active_slot).head?.map .Full
  | .Incremental => (newest_eligible_incremental incrementals active_slot).map .Incremental

def abandon_active_incremental : WatcherM Unit := do
  update (·.abandon_active_incremental)
  persist

def resume_active_incremental (incrementals : List IncrementalSnapshot)
    (fulls : List FullSnapshot) : WatcherM Flow := do
  let s ← read
  if s.watcher_state.active.phase = .IncrementalLoading then
    let recorded ← require s.watcher_state.active.inflight_incremental
      .active_incremental_without_inflight
    match resumed_candidate recorded.kind incrementals fulls s.active_slot with
    | none => abandon_active_incremental
    | some candidate =>
        match ← apply_active_incremental candidate with
        | true => pure ()
        | false => abandon_active_incremental
    pure .turn
  else
    pure .next

def resume_staging_full_loading (fulls : List FullSnapshot) : WatcherM Unit := do
  let s ← read
  if s.staging_build.isNone ∧ s.watcher_state.staging.phase = .FullLoading then
    let recorded ← require s.watcher_state.staging.full_snapshot
      .staging_full_loading_without_full_snapshot
    let snapshot ← recorded_full fulls recorded
    let build ← spawn_staging_full snapshot
    assign fun s => { s with staging_build := some build }
  else
    pure ()

def resume_staging_full_merging : WatcherM Unit := do
  let s ← read
  if s.staging_build.isNone ∧ s.watcher_state.staging.phase = .FullMerging then
    let recorded ← require s.watcher_state.staging.full_snapshot
      .staging_full_merging_without_full_snapshot
    let build ← spawn_staging_merge_wait recorded
    assign fun s => { s with staging_build := some build }
  else
    pure ()

def resume_staging_incremental (incrementals : List IncrementalSnapshot) : WatcherM Flow := do
  let s ← read
  if s.staging_incremental_handle.isNone ∧
      s.watcher_state.staging.phase = .IncrementalLoading then
    let recorded ← require s.watcher_state.staging.inflight_incremental
      .staging_incremental_without_inflight
    let stage_slot ← require s.watcher_state.staging.max_slot .staging_incremental_without_max_slot
    if recorded.kind ≠ .Incremental then
      raise .staging_incremental_with_full_marker
    else
      match newest_eligible_incremental incrementals stage_slot with
      | none =>
          update (·.abandon_staging_incremental)
          persist
          pure .turn
      | some snapshot =>
          let hot_mints ← require s.staging_hot_mints .staging_restart_without_hot_mints
          spawn_staging_incremental snapshot stage_slot hot_mints
          pure .next
  else
    pure .next

def bootstrap_full (fulls : List FullSnapshot) : WatcherM Flow := do
  let s ← read
  if s.bootstrap_pending ∨ s.watcher_state.active.phase = .WaitingForFull then
    match newest_full_generation fulls none with
    | some snapshot =>
        let active_slot ← process_bootstrap_full snapshot
        assign fun s => { s with active_slot := active_slot, bootstrap_pending := false }
        pure .turn
    | none => pure .next
  else
    pure .next

/-- A new generation is told by the active full's slot, not by the watermark. -/
def bind_new_full (state_path : String) (fulls : List FullSnapshot) : WatcherM Flow := do
  let s ← read
  if s.watcher_state.staging.phase = .Disabled ∧ s.staging_build.isNone then
    match newest_full_generation fulls (s.watcher_state.active.full_snapshot.map (·.slot)) with
    | some snapshot =>
        let hot_mints ← begin_shared_full_load state_path snapshot
        assign fun s => { s with staging_hot_mints := some hot_mints }
        pure .turn
    | none => pure .next
  else
    pure .next

/-- The first archive that continues from a slot and has not failed before. -/
def next_candidate (incrementals : List IncrementalSnapshot) (slot : Slot)
    (invalid_archives : List String) : Option IncrementalSnapshot :=
  ((eligible_candidates incrementals slot).filter fun snapshot =>
    snapshot.path ∉ invalid_archives).head?

def active_candidate (s : Locals) (incrementals : List IncrementalSnapshot) :
    Option IncrementalSnapshot :=
  if s.watcher_state.active.phase = .Ready then
    next_candidate incrementals s.active_slot s.invalid_archives
  else
    none

def staging_candidate (incrementals : List IncrementalSnapshot) :
    WatcherM (Option IncrementalSnapshot) := do
  let s ← read
  if s.staging_incremental_handle.isNone ∧ s.watcher_state.staging.phase = .Ready then
    let stage_slot ← require s.watcher_state.staging.max_slot .ready_staging_without_max_slot
    pure (next_candidate incrementals stage_slot s.invalid_archives)
  else
    pure none

/-- Staging takes the archive as its first incremental, in a thread. -/
def start_staging_incremental (incremental : IncrementalSnapshot) : WatcherM Unit := do
  let s ← read
  match s.watcher_state.staging.max_slot with
  | some stage_slot =>
      if s.staging_incremental_handle.isNone ∧ s.watcher_state.staging.phase = .Ready ∧
          incremental.slot > stage_slot ∧ incremental.base_slot ≤ stage_slot then
        let hot_mints ← require s.staging_hot_mints .staging_selected_without_hot_mints
        update (·.begin_staging_incremental (.Incremental incremental))
        persist
        spawn_staging_incremental incremental stage_slot hot_mints
      else
        pure ()
  | none => pure ()

/-- Active takes it in the loop itself. -/
def apply_selected_to_active (incremental : IncrementalSnapshot) : WatcherM Unit := do
  let s ← read
  if s.watcher_state.active.phase = .Ready ∧ incremental.slot > s.active_slot ∧
      incremental.base_slot ≤ s.active_slot then
    match ← attempt (apply_active_incremental (.Incremental incremental)) with
    | .ok _ => pure ()
    | .error err =>
        assign fun s => { s with invalid_archives := incremental.path :: s.invalid_archives }
        fail err
  else
    pure ()

def apply_incremental (incrementals : List IncrementalSnapshot) : WatcherM Flow := do
  let s ← read
  let staging_candidate ← staging_candidate incrementals
  match staging_candidate.or (active_candidate s incrementals) with
  | some incremental =>
      start_staging_incremental incremental
      apply_selected_to_active incremental
      pure .turn
  | none => pure .next

/-- Nothing to do: the poll interval. -/
def idle (incrementals : List IncrementalSnapshot) (fulls : List FullSnapshot) :
    WatcherM Unit := do
  let s ← read
  call (.sleep s.watcher_state s.active_slot incrementals fulls)
  let there ← call (.existing s.invalid_archives)
  assign fun s => { s with invalid_archives := there }

/-- What a turn does with a listing of the directory. -/
def handle_listing (state_path : String) (incrementals : List IncrementalSnapshot)
    (fulls : List FullSnapshot) : WatcherM Unit :=
  and_then (resume_shared_full_load fulls) <|
  and_then resume_active_full_merging <|
  and_then (resume_active_full_loading fulls) <|
  and_then (resume_active_incremental incrementals fulls) <| do
  resume_staging_full_loading fulls
  resume_staging_full_merging
  and_then (resume_staging_incremental incrementals) <|
    and_then (bootstrap_full fulls) <|
    and_then (bind_new_full state_path fulls) <|
    and_then (apply_incremental incrementals) <|
    idle incrementals fulls

/-- One turn of the loop in `run_incremental_snapshots`. -/
def loop_body (state_path : String) : WatcherM Unit := do
  receive_full_imported state_path
  join_staging_build
  join_staging_incremental
  and_then (cut_over state_path) do
    let incrementals ← call .discover_incremental_snapshots
    let fulls ← call .discover_full_snapshots
    handle_listing state_path incrementals fulls

/-! ## The start -/

structure Args where
  bootstrap : Bool
  resume_slot_rewind : Slot
deriving DecidableEq, Repr

def DEFAULT_RESUME_SLOT_REWIND : Slot := 1000

def resume_slot_from_max_updated_slot (max_updated_slot rewind : Slot) : Slot :=
  max_updated_slot - rewind

abbrev StartM (α : Type) : Type := Watch Unit α

/-- An explicit bootstrap replaces the journal, whatever it says. -/
def reset_watcher_state (state_path : String) : StartM WatcherState := do
  let existing_max_slot ← call .max_raw_account_updated_slot
  let state := WatcherState.bootstrap_preserving_active existing_max_slot
  persist_watcher_state state
  let _ ← cleanup_unused_frozen_hot_mints state_path state
  pure state

def recover_watcher_state (args : Args) : StartM WatcherState := do
  match ← call .load_watcher_state with
  | some state => pure state
  | none =>
      let max_updated_slot ← call .max_raw_account_updated_slot
      let resume_slot := resume_slot_from_max_updated_slot max_updated_slot args.resume_slot_rewind
      let state := WatcherState.recovered_active_only resume_slot
      persist_watcher_state state
      pure state

def initial_watcher_state (state_path : String) (args : Args) : StartM WatcherState :=
  if args.bootstrap then reset_watcher_state state_path else recover_watcher_state args

def clear_disabled_lanes (state : WatcherState) : StartM WatcherState := do
  if state.has_disabled_hot_mints_path then
    let state := state.clear_disabled_hot_mints_paths
    persist_watcher_state state
    pure state
  else
    pure state

/-- The active set, read back from its file or frozen now, and the journal that
names its file. -/
def restore_active_hot_mints (state : WatcherState) : StartM (HotMintSet × WatcherState) := do
  match state.active.hot_mints_path with
  | some path =>
      let hot_mints ← load_frozen_hot_mints path
      pure (hot_mints, state)
  | none =>
      let hot_mints ← call .load_enabled_hot_mints
      let path ← persist_frozen_hot_mints hot_mints
      let state := state.freeze_active_hot_mints path
      persist_watcher_state state
      pure (hot_mints, state)

def restore_staging_hot_mints (state : WatcherState) : StartM (Option HotMintSet) := do
  match state.staging.hot_mints_path with
  | some path =>
      if state.staging.phase ≠ .Disabled then
        let hot_mints ← load_frozen_hot_mints path
        pure (some hot_mints)
      else
        pure none
  | none => pure none

def is_bootstrap_pending (state : WatcherState) : Bool :=
  state.active.phase = .WaitingForFull || state.active.phase = .FullLoading

/-- `run_incremental_snapshots` up to its loop. -/
def startup (state_path : String) (args : Args) : StartM Locals := do
  let state ← initial_watcher_state state_path args
  let state ← clear_disabled_lanes state
  cleanup_unused_frozen_hot_mints_or_warn state_path state
  let bootstrap_pending := is_bootstrap_pending state
  let active_slot := state.active.max_slot.getD 0
  let (hot_mints, state) ←
    if bootstrap_pending then
      pure (none, state)
    else do
      let (hot_mints, state) ← restore_active_hot_mints state
      pure (some hot_mints, state)
  let staging_hot_mints ← restore_staging_hot_mints state
  pure {
    hot_mints := hot_mints
    watcher_state := state
    bootstrap_pending := bootstrap_pending
    active_slot := active_slot
    staging_hot_mints := staging_hot_mints
    staging_build := none
    staging_incremental_handle := none
    invalid_archives := [] }

/-! ## The staging thread that builds a full -/

/-- `build_staging_full`. The two calls in its middle are the ends of channels
whose other ends the loop holds. -/
def build_staging_full (snapshot : FullSnapshot) : WatcherM Unit := do
  call (.stop_group_merges .Backup)
  call (.reset_group .Backup)
  call (.new_loader (.Full snapshot) 0)
  process (.Full snapshot) .Full .Backup
  let hot_mints ← frozen_hot_mints
  call (.send_full_imported hot_mints)
  call .recv_full_import_ack
  call (.start_group_merges .Backup)
  call (.wait_for_group_merges_to_settle .Backup)

end SnapshotEtl.Watcher
