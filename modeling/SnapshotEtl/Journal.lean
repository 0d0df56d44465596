/-
The watcher's journal and the archives it chooses from.

The journal is a value that the watcher mutates in memory and then writes out;
the functions here are the mutations, each under the name of the step that makes
it, and the selection of the next archive from a directory listing. When each of
them runs, and what may go wrong between the mutation and the file, is the
watcher's own business.
-/
import SnapshotEtl.Worker
import Mathlib.Data.List.Sort

set_option autoImplicit false

namespace SnapshotEtl

/-! ## Archives -/

structure FullSnapshot where
  path : String
  slot : Slot
deriving DecidableEq, Repr

structure IncrementalSnapshot where
  path : String
  base_slot : Slot
  slot : Slot
deriving DecidableEq, Repr

inductive WatchedSnapshot
  | Full (snapshot : FullSnapshot)
  | Incremental (snapshot : IncrementalSnapshot)
deriving DecidableEq, Repr

def WatchedSnapshot.slot : WatchedSnapshot → Slot
  | .Full snapshot => snapshot.slot
  | .Incremental snapshot => snapshot.slot

/-- The order both candidate lists are sorted in: the highest slot first, then
the path. -/
def preferred {α : Type} (slot : α → Slot) (path : α → String) (left right : α) : Bool :=
  slot right < slot left || (slot left = slot right && path left ≤ path right)

def eligible_candidates (snapshots : List IncrementalSnapshot) (last_processed_slot : Slot) :
    List IncrementalSnapshot :=
  (snapshots.filter fun snapshot =>
    snapshot.base_slot ≤ last_processed_slot && snapshot.slot > last_processed_slot).mergeSort
      (preferred IncrementalSnapshot.slot IncrementalSnapshot.path)

def eligible_full_candidates (snapshots : List FullSnapshot) (last_processed_slot : Slot) :
    List FullSnapshot :=
  (snapshots.filter fun snapshot => snapshot.slot > last_processed_slot).mergeSort
    (preferred FullSnapshot.slot FullSnapshot.path)

def newest_eligible_incremental (incrementals : List IncrementalSnapshot) (committed_slot : Slot) :
    Option IncrementalSnapshot :=
  (eligible_candidates incrementals committed_slot).head?

/-- `Iterator::max_by` on the slot, the smaller path winning a tie. -/
def max_full (best : Option FullSnapshot) (snapshot : FullSnapshot) : Option FullSnapshot :=
  match best with
  | none => some snapshot
  | some best =>
      some (if best.slot < snapshot.slot ||
          (best.slot = snapshot.slot && snapshot.path ≤ best.path) then snapshot else best)

structure FullSnapshotWatcherState where
  path : String
  slot : Slot
deriving DecidableEq, Repr

def newest_full_generation (fulls : List FullSnapshot) (active_full_slot : Option Slot) :
    Option FullSnapshot :=
  (fulls.filter fun snapshot => active_full_slot.all fun slot => snapshot.slot > slot).foldl
    max_full none

theorem mem_eligible_candidates {snapshots : List IncrementalSnapshot} {last_processed_slot : Slot}
    {snapshot : IncrementalSnapshot} :
    snapshot ∈ eligible_candidates snapshots last_processed_slot ↔
      snapshot ∈ snapshots ∧ snapshot.base_slot ≤ last_processed_slot ∧
        last_processed_slot < snapshot.slot := by
  simp [eligible_candidates]

/-- A chosen incremental continues from the watermark and goes beyond it. -/
theorem newest_eligible_incremental_spec {incrementals : List IncrementalSnapshot}
    {committed_slot : Slot} {snapshot : IncrementalSnapshot}
    (h : newest_eligible_incremental incrementals committed_slot = some snapshot) :
    snapshot ∈ incrementals ∧
      snapshot.base_slot ≤ committed_slot ∧ committed_slot < snapshot.slot :=
  mem_eligible_candidates.mp (List.mem_of_head? h)

/-- `max_full` keeps what holds of every candidate. -/
theorem foldl_max_full {P : FullSnapshot → Prop} (xs : List FullSnapshot)
    (best : Option FullSnapshot) (hbest : ∀ b, best = some b → P b) (hxs : ∀ x ∈ xs, P x) :
    ∀ b, xs.foldl max_full best = some b → P b := by
  induction xs generalizing best with
  | nil => exact hbest
  | cons x xs ih =>
      refine ih (max_full best x) (fun b hb => ?_) fun y hy => hxs y (List.mem_cons_of_mem _ hy)
      cases best with
      | none =>
          obtain rfl := Option.some.inj hb
          exact hxs x (by simp)
      | some best =>
          obtain rfl := Option.some.inj hb
          split
          · exact hxs x (by simp)
          · exact hbest best rfl

/-- A chosen generation is listed and newer than the active one. -/
theorem newest_full_generation_spec {fulls : List FullSnapshot} {active_full_slot : Option Slot}
    {snapshot : FullSnapshot} (h : newest_full_generation fulls active_full_slot = some snapshot) :
    snapshot ∈ fulls ∧ ∀ slot, active_full_slot = some slot → slot < snapshot.slot := by
  refine foldl_max_full (P := fun x => x ∈ fulls ∧ ∀ slot, active_full_slot = some slot →
    slot < x.slot) _ none (fun b hb => by cases hb) (fun x hx => ?_) snapshot h
  obtain ⟨hmem, hslot⟩ := List.mem_filter.mp hx
  refine ⟨hmem, fun slot hs => ?_⟩
  subst hs
  simpa using hslot

theorem foldl_max_full_isSome (xs : List FullSnapshot) (best : FullSnapshot) :
    (xs.foldl max_full (some best)).isSome := by
  induction xs generalizing best with
  | nil => rfl
  | cons x xs ih => exact ih _

/-- Where none is chosen, every full is of the active generation or an older one. -/
theorem newest_full_generation_none {fulls : List FullSnapshot}
    {full : Option FullSnapshotWatcherState} {slot : Slot}
    (h : newest_full_generation fulls (full.map (·.slot)) = none)
    (hle : ∀ f, full = some f → f.slot ≤ slot) {snapshot : FullSnapshot} (hmem : snapshot ∈ fulls) :
    snapshot.slot ≤ slot := by
  unfold newest_full_generation at h
  cases hfilter : fulls.filter fun snapshot =>
      (full.map (·.slot)).all fun slot => snapshot.slot > slot with
  | cons x xs =>
      rw [hfilter] at h
      have hsome := foldl_max_full_isSome xs x
      rw [show xs.foldl max_full (some x) = none from h] at hsome
      cases hsome
  | nil =>
      have hnot := List.filter_eq_nil_iff.mp hfilter snapshot hmem
      cases full with
      | none => simp at hnot
      | some f =>
          have hfull : snapshot.slot ≤ f.slot := by simpa using hnot
          exact hfull.trans (hle f rfl)

/-! ## The journal -/

def full_snapshot_state (snapshot : FullSnapshot) : FullSnapshotWatcherState :=
  ⟨snapshot.path, snapshot.slot⟩

def find_recorded_full (fulls : List FullSnapshot) (recorded : FullSnapshotWatcherState) :
    Option FullSnapshot :=
  fulls.find? fun snapshot => snapshot.slot = recorded.slot && snapshot.path = recorded.path

theorem find_recorded_full_spec {fulls : List FullSnapshot} {recorded : FullSnapshotWatcherState}
    {snapshot : FullSnapshot} (h : find_recorded_full fulls recorded = some snapshot) :
    full_snapshot_state snapshot = recorded := by
  have hfound := List.find?_some h
  simp only [Bool.and_eq_true, decide_eq_true_eq] at hfound
  simp [full_snapshot_state, hfound]

inductive LanePhase
  | Disabled
  | WaitingForFull
  | FullLoading
  | FullMerging
  | Ready
  | IncrementalLoading
  | CutoverPending
deriving DecidableEq, Repr

inductive PersistedSnapshotKind
  | Full
  | Incremental
deriving DecidableEq, Repr

structure InflightSnapshotWatcherState where
  kind : PersistedSnapshotKind
deriving DecidableEq, Repr

def inflight_snapshot : WatchedSnapshot → InflightSnapshotWatcherState
  | .Full _ => ⟨.Full⟩
  | .Incremental _ => ⟨.Incremental⟩

structure LaneWatcherState where
  phase : LanePhase
  full_snapshot : Option FullSnapshotWatcherState
  max_slot : Option Slot
  hot_mints_path : Option String
  inflight_incremental : Option InflightSnapshotWatcherState
deriving DecidableEq, Repr

namespace LaneWatcherState

def disabled : LaneWatcherState := ⟨.Disabled, none, none, none, none⟩

def waiting_for_full : LaneWatcherState := { disabled with phase := .WaitingForFull }

def full_loading (snapshot : FullSnapshotWatcherState) : LaneWatcherState :=
  { disabled with phase := .FullLoading, full_snapshot := some snapshot }

end LaneWatcherState

/-- The six tables of a group, in the order of an exchange. -/
inductive GroupTable
  | raw_account
  | raw_token_mint
  | raw_token_metadata
  | hot_token_account_state
  | hot_token_info
  | hot_wallet_token_balance
deriving DecidableEq, Repr

def GroupTable.base : GroupTable → String
  | .raw_account => "raw_account"
  | .raw_token_mint => "raw_token_mint"
  | .raw_token_metadata => "raw_token_metadata"
  | .hot_token_account_state => "hot_token_account_state"
  | .hot_token_info => "hot_token_info"
  | .hot_wallet_token_balance => "hot_wallet_token_balance"

/-- A generation of tables. An exchange renames tables and does not move them,
so the two generations stay apart under the names. -/
inductive Generation
  | first
  | second
deriving DecidableEq, Repr

def Generation.other : Generation → Generation
  | first => second
  | second => first

theorem Generation.other_ne (g : Generation) : g.other ≠ g := by
  cases g <;> decide

@[simp] theorem Generation.other_other (g : Generation) : g.other.other = g := by
  cases g <;> rfl

theorem Generation.eq_or_other (g g' : Generation) : g = g' ∨ g = g'.other := by
  cases g <;> cases g' <;> decide

/-- The UUIDs of the tables under a group's names: each names a table of one of
the two generations. -/
abbrev TableGroupIdentity := GroupTable → Generation

structure CutoverWatcherState where
  active_tables : TableGroupIdentity
  staging_tables : TableGroupIdentity

structure SharedFullLoadWatcherState where
  snapshot : FullSnapshotWatcherState
  active_resume_slot : Slot
deriving DecidableEq, Repr

structure WatcherState where
  active : LaneWatcherState
  staging : LaneWatcherState
  cutover : Option CutoverWatcherState
  shared_full_load : Option SharedFullLoadWatcherState

namespace WatcherState

def bootstrap_waiting_for_full : WatcherState :=
  ⟨.waiting_for_full, .disabled, none, none⟩

def recovered_active_only (max_slot : Slot) : WatcherState where
  active := { LaneWatcherState.disabled with phase := .Ready, max_slot := some max_slot }
  staging := .disabled
  cutover := none
  shared_full_load := none

/-- An explicit bootstrap keeps the active tables and forgets their generation. -/
def bootstrap_preserving_active (max_slot : Slot) : WatcherState := recovered_active_only max_slot

/-! ## What the steps write into it -/

variable (s : WatcherState)

/-- A disabled lane gives up its mint file. -/
def clear_disabled_hot_mints_paths : WatcherState :=
  let clear (lane : LaneWatcherState) : LaneWatcherState :=
    if lane.phase = .Disabled then { lane with hot_mints_path := none } else lane
  { s with active := clear s.active, staging := clear s.staging }

/-- Whether that changes anything. -/
def has_disabled_hot_mints_path : Bool :=
  let holds (lane : LaneWatcherState) : Bool :=
    lane.phase = .Disabled && lane.hot_mints_path.isSome
  holds s.active || holds s.staging

/-- A set frozen for an active generation that has none on record. -/
def freeze_active_hot_mints (hot_mints_path : String) : WatcherState :=
  { s with active := { s.active with hot_mints_path := some hot_mints_path } }

/-- `apply_active_incremental`, before the import. -/
def begin_active_incremental (candidate : WatchedSnapshot) : WatcherState :=
  { s with active := { s.active with
      phase := .IncrementalLoading
      inflight_incremental := some (inflight_snapshot candidate) } }

/-- `apply_active_incremental`, after it. -/
def commit_active_incremental (slot : Slot) : WatcherState :=
  { s with active := { s.active with
      max_slot := some slot, phase := .Ready, inflight_incremental := none } }

/-- The interrupted archive has rolled away. -/
def abandon_active_incremental : WatcherState :=
  { s with active := { s.active with phase := .Ready, inflight_incremental := none } }

def begin_bootstrap_full (snapshot : FullSnapshot) : WatcherState :=
  { s with
    active := .full_loading (full_snapshot_state snapshot)
    staging := .disabled
    cutover := none }

def commit_bootstrap_full (slot : Slot) (hot_mints_path : String) : WatcherState :=
  { s with active := { s.active with
      phase := .FullMerging
      max_slot := some slot
      hot_mints_path := some hot_mints_path
      inflight_incremental := none } }

def settle_active : WatcherState := { s with active := { s.active with phase := .Ready } }

def begin_shared_full_load (snapshot : FullSnapshot) (active_resume_slot : Slot)
    (hot_mints_path : String) : WatcherState where
  active := { s.active with
    phase := .IncrementalLoading
    inflight_incremental := some (inflight_snapshot (.Full snapshot)) }
  staging := { LaneWatcherState.full_loading (full_snapshot_state snapshot) with
    hot_mints_path := some hot_mints_path }
  cutover := none
  shared_full_load := some ⟨full_snapshot_state snapshot, active_resume_slot⟩

/-- `complete_shared_full_load`, after the fan-out. -/
def commit_shared_full_load (slot : Slot) : WatcherState :=
  { s with
    active := { s.active with
      max_slot := some slot, phase := .Ready, inflight_incremental := none }
    staging := { s.staging with
      max_slot := some slot, phase := .FullMerging, inflight_incremental := none }
    shared_full_load := none }

/-- The staging worker has sent its mint set. -/
def commit_staging_full (slot : Slot) (hot_mints_path : String) : WatcherState :=
  { s with staging := { s.staging with
      phase := .FullMerging
      max_slot := some slot
      hot_mints_path := some hot_mints_path
      inflight_incremental := none } }

def settle_staging : WatcherState := { s with staging := { s.staging with phase := .Ready } }

def begin_staging_incremental (candidate : WatchedSnapshot) : WatcherState :=
  { s with staging := { s.staging with
      phase := .IncrementalLoading
      inflight_incremental := some (inflight_snapshot candidate) } }

def abandon_staging_incremental : WatcherState :=
  { s with staging := { s.staging with phase := .Ready, inflight_incremental := none } }

/-- The staging incremental is in, and active stops. -/
def commit_staging_incremental (slot : Slot) : WatcherState :=
  { s with
    staging := { s.staging with
      max_slot := some slot, phase := .CutoverPending, inflight_incremental := none }
    active := { s.active with phase := .CutoverPending, inflight_incremental := none } }

def checkpoint_cutover (active_tables staging_tables : TableGroupIdentity) : WatcherState :=
  { s with cutover := some ⟨active_tables, staging_tables⟩ }

/-- The lanes follow their tables. -/
def commit_cutover : WatcherState where
  active := { s.staging with phase := .Ready, inflight_incremental := none }
  staging := { s.active with
    phase := .Disabled, inflight_incremental := none, hot_mints_path := none }
  cutover := none
  shared_full_load := none

end WatcherState

end SnapshotEtl
