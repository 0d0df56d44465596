/-
An import as a function on its table group.

What the parser leaves of a lane (`LaneState`) is stored, merged, turned into
tombstones and balances, one phase after the other; `import_incremental` and
`import_full` are these phases over the tables. A successful run of either
machine leaves the tables of the first two phases up to the order of insertion,
and hands the later ones the close candidates and the pairs of the same lane
(`Complete.lane`), so what is proved of the functions holds of the machines.
-/
import SnapshotEtl.HotIndexes
import SnapshotEtl.StreamImport

set_option autoImplicit false

namespace SnapshotEtl

open Replacing Lib

/-! ## The phases -/

/-- The rows for `hot_token_account_state` among those of a sink. -/
def token_account_rows (rows : List Row) : List TokenAccountRow :=
  rows.filterMap fun
    | .token_account row => some row
    | _ => none

namespace Group

/-- The merged metadata rows of a lane, committed. -/
def merge_metadata (g : Group) (lane : LaneState) (preserve_existing : Bool)
    (snapshot_slot : Slot) : Group :=
  { g with
    raw_token_metadata := g.raw_token_metadata ++
      write_merged_metadata_patches g.raw_token_metadata lane.metadata_patches preserve_existing
        snapshot_slot }

/-- The tombstones an import writes once its lane is stored. -/
def tombstones (g : Group) (lane : LaneState) : List TokenAccountRow :=
  write_close_token_account_tombstones g.hot_token_account_state lane.closed_token_accounts

def write_tombstones (g : Group) (lane : LaneState) : Group :=
  { g with hot_token_account_state := g.hot_token_account_state ++ g.tombstones lane }

def refresh_balances (g : Group) (pairs : Finset TokenPair) (snapshot_slot : Slot) : Group :=
  { g with hot_wallet_token_balance := g.hot_wallet_token_balance ++
      refresh_wallet_balance_incremental g.hot_token_account_state pairs snapshot_slot }

/-- An incremental import, once its stream is parsed. -/
def import_incremental (g : Group) (lane : LaneState) (snapshot_slot : Slot) : Group :=
  let stored := (g.insert_all lane.rows).merge_metadata lane true snapshot_slot
  (stored.write_tombstones lane).refresh_balances
    (lane.affected_pairs ∪ tombstone_pairs (stored.tombstones lane)) snapshot_slot

/-- A full import into a group that was just truncated. -/
def import_full (lane : LaneState) (snapshot_slot : Slot) : Group :=
  let stored := (Group.truncated.insert_all lane.rows).merge_metadata lane false snapshot_slot
  { stored with
    hot_wallet_token_balance := rebuild_wallet_balance_table stored.hot_token_account_state true }

/-! ## What a phase leaves alone -/

variable (g : Group)

/-- Inserted rows end up behind the L2 rows that were there. -/
theorem insert_all_state (rows : List Row) : (g.insert_all rows).hot_token_account_state
    = g.hot_token_account_state ++ token_account_rows rows := by
  induction rows generalizing g with
  | nil => simp [insert_all, token_account_rows]
  | cons row rows ih =>
      change ((g.insert row).insert_all rows).hot_token_account_state = _
      rw [ih]
      cases row <;> simp [insert, token_account_rows]

@[simp] theorem insert_all_balance (rows : List Row) :
    (g.insert_all rows).hot_wallet_token_balance = g.hot_wallet_token_balance := by
  induction rows generalizing g with
  | nil => rfl
  | cons row rows ih =>
      change ((g.insert row).insert_all rows).hot_wallet_token_balance = _
      rw [ih]
      cases row <;> rfl

@[simp] theorem merge_metadata_state (lane : LaneState) (preserve : Bool) (s : Slot) :
    (g.merge_metadata lane preserve s).hot_token_account_state = g.hot_token_account_state := rfl

@[simp] theorem merge_metadata_balance (lane : LaneState) (preserve : Bool) (s : Slot) :
    (g.merge_metadata lane preserve s).hot_wallet_token_balance = g.hot_wallet_token_balance := rfl

/-- The tombstones depend on the state table only. -/
theorem tombstones_merge_metadata (lane : LaneState) (preserve : Bool) (s : Slot) :
    (g.merge_metadata lane preserve s).tombstones lane = g.tombstones lane := rfl

/-- The token accounts an incremental import leaves. -/
theorem import_incremental_state (lane : LaneState) (s : Slot) :
    (g.import_incremental lane s).hot_token_account_state
      = g.hot_token_account_state ++ token_account_rows lane.rows
        ++ (g.insert_all lane.rows).tombstones lane := by
  simp [import_incremental, refresh_balances, write_tombstones, insert_all_state,
    tombstones_merge_metadata]

/-- A tombstone of an import is the last row of its pubkey. -/
theorem tombstone_last {lane : LaneState} {s : Slot} {row : TokenAccountRow}
    (h : row ∈ (g.insert_all lane.rows).tombstones lane) :
    ∀ other ∈ (g.import_incremental lane s).hot_token_account_state, other.pubkey = row.pubkey →
      other = row ∨ other.updated_slot < row.updated_slot := by
  intro other hother hkey
  rw [import_incremental_state] at hother
  have hnewer := tombstone_newer h
  rw [insert_all_state] at hnewer
  rcases List.mem_append.mp hother with hother | hother
  · exact .inr (hnewer other hother hkey)
  · exact .inl (tombstone_unique hother h hkey)

/-- The account rows of the group and of the archive. -/
def rows_with (lane : LaneState) : List TokenAccountRow :=
  g.hot_token_account_state ++ token_account_rows lane.rows

/-- The tombstone a pubkey is due. -/
def closed_row (lane : LaneState) (pubkey : String) : Option TokenAccountRow :=
  (lane.closed_token_accounts.lookup pubkey).bind (close_tombstone (g.rows_with lane) pubkey)

section closed

variable {lane : LaneState} {s : Slot} {pubkey : String} {row : TokenAccountRow}

theorem rows_with_eq : (g.insert_all lane.rows).hot_token_account_state = g.rows_with lane :=
  g.insert_all_state lane.rows

/-- The tombstones an import writes are its closed rows. -/
theorem mem_tombstones_iff :
    row ∈ (g.insert_all lane.rows).tombstones lane ↔ g.closed_row lane row.pubkey = some row := by
  rw [tombstones, mem_tombstones, rows_with_eq, closed_row, Option.bind_eq_some_iff]

/-- A closed row is of the pubkey it closes. -/
theorem closed_row_pubkey (h : g.closed_row lane pubkey = some row) : row.pubkey = pubkey := by
  obtain ⟨candidate, -, hrow⟩ := Option.bind_eq_some_iff.mp h
  obtain ⟨_, -, -, -, -, hrow⟩ := close_tombstone_eq_some.mp hrow
  rw [hrow]
  rfl

/-- A closed row is a tombstone. -/
theorem closed_row_is_deleted (h : g.closed_row lane pubkey = some row) : row.is_deleted = 1 := by
  obtain ⟨candidate, -, hrow⟩ := Option.bind_eq_some_iff.mp h
  obtain ⟨_, -, -, -, -, hrow⟩ := close_tombstone_eq_some.mp hrow
  rw [hrow]
  rfl

/-- It depends on the last row of the pubkey. -/
theorem closed_row_congr {g g' : Group} (h : token_account_engine.newest (g.rows_with lane) pubkey
    = token_account_engine.newest (g'.rows_with lane) pubkey) :
    g.closed_row lane pubkey = g'.closed_row lane pubkey := by
  rw [closed_row, closed_row, close_tombstone_congr h]

/-- A pubkey that shows no account is due none. -/
theorem closed_row_of_not_shown (h : state_final (g.rows_with lane) pubkey = none) :
    g.closed_row lane pubkey = none := by
  rw [Option.eq_none_iff_forall_ne_some]
  intro row hclosed
  obtain ⟨candidate, -, hrow⟩ := Option.bind_eq_some_iff.mp hclosed
  obtain ⟨previous, hprevious, -⟩ := close_tombstone_eq_some.mp hrow
  rw [h] at hprevious
  cases hprevious

/-- The tombstone a pubkey is due is written. -/
theorem closed_row_mem (h : g.closed_row lane pubkey = some row) :
    row ∈ (g.insert_all lane.rows).tombstones lane := by
  rw [mem_tombstones_iff, g.closed_row_pubkey h]
  exact h

/-- What a pubkey has in part of the table after an import: its tombstone, if the part has
it, or what it has of the rows before. -/
theorem newest_import_filter {q : TokenAccountRow → Bool}
    (h : ∀ row, g.closed_row lane pubkey = some row → q row = true) :
    token_account_engine.newest ((g.import_incremental lane s).hot_token_account_state.filter q)
        pubkey
      = (g.closed_row lane pubkey).or
        (token_account_engine.newest ((g.rows_with lane).filter q) pubkey) := by
  rw [import_incremental_state]
  cases hclosed : g.closed_row lane pubkey with
  -- without a tombstone of the pubkey the import adds its rows alone
  | none =>
      rw [List.filter_append, newest_append_of_absent, Option.none_or]
      · rfl
      · intro row hrow hkey
        have htomb := g.mem_tombstones_iff.mp (List.mem_of_mem_filter hrow)
        change row.pubkey = pubkey at hkey
        rw [hkey, hclosed] at htomb
        cases htomb
  -- a tombstone is newer than every other row of the pubkey
  | some row =>
      have htomb := g.closed_row_mem hclosed
      have hkey := g.closed_row_pubkey hclosed
      have hlast := g.tombstone_last (s := s) htomb
      rw [import_incremental_state] at hlast
      rw [Option.some_or]
      refine newest_of_lt _ ?_ hkey fun other hother hother_key => ?_
      · exact List.mem_filter.mpr ⟨List.mem_append_right _ htomb, h row hclosed⟩
      · change other.pubkey = pubkey at hother_key
        exact hlast other (List.mem_of_mem_filter hother) (hother_key.trans hkey.symm)

/-- And where the part does not have it. -/
theorem newest_import_filter_of_unread {q : TokenAccountRow → Bool}
    (h : ∀ row, g.closed_row lane pubkey = some row → q row = false) :
    token_account_engine.newest ((g.import_incremental lane s).hot_token_account_state.filter q)
        pubkey
      = token_account_engine.newest ((g.rows_with lane).filter q) pubkey := by
  rw [import_incremental_state, List.filter_append, newest_append_of_absent]
  · rfl
  · intro row hrow hkey
    obtain ⟨htomb, hread⟩ := List.mem_filter.mp hrow
    rw [mem_tombstones_iff] at htomb
    change row.pubkey = pubkey at hkey
    rw [hkey] at htomb
    rw [h row htomb] at hread
    cases hread

/-- The last row of a pubkey after an import. -/
theorem newest_import :
    token_account_engine.newest (g.import_incremental lane s).hot_token_account_state pubkey
      = (g.closed_row lane pubkey).or (token_account_engine.newest (g.rows_with lane) pubkey) := by
  rw [← List.filter_true (g.import_incremental lane s).hot_token_account_state,
    g.newest_import_filter fun _ _ => rfl, List.filter_true]

/-- A pubkey that gets its tombstone shows no account. -/
theorem state_final_import_of_closed (h : g.closed_row lane pubkey = some row) :
    state_final (g.import_incremental lane s).hot_token_account_state pubkey = none := by
  rw [state_final, newest_import, h, Option.some_or, Option.filter_some, g.closed_row_is_deleted h]
  rfl

/-- A pubkey that gets none shows what the rows show. -/
theorem state_final_import_of_kept (h : g.closed_row lane pubkey = none) :
    state_final (g.import_incremental lane s).hot_token_account_state pubkey
      = state_final (g.rows_with lane) pubkey := by
  apply state_final_congr
  rw [newest_import, h, Option.none_or]

end closed

/-- The balances it leaves. -/
theorem import_incremental_balance (lane : LaneState) (s : Slot) :
    (g.import_incremental lane s).hot_wallet_token_balance
      = g.hot_wallet_token_balance ++ refresh_wallet_balance_incremental
        (g.import_incremental lane s).hot_token_account_state
        (lane.affected_pairs ∪ tombstone_pairs ((g.insert_all lane.rows).tombstones lane)) s := by
  simp [import_incremental, refresh_balances, write_tombstones, tombstones_merge_metadata]

end Group

/-! ## From operations to lanes -/

/-- The rows of a lane are those its operations write, in order. -/
theorem lane_state_foldl_rows (ops : List LaneOp) (s : LaneState) :
    (ops.foldl LaneState.step s).rows = s.rows ++ ops.filterMap fun
      | .write row => some row
      | _ => none := by
  induction ops generalizing s with
  | nil => simp
  | cons op ops ih =>
      rw [List.foldl_cons, ih]
      cases op <;> simp [LaneState.step]

/-- The rows of a lane are those sent to its group. -/
theorem lane_state_rows (group : TableGroup) (ops : List ImportOp) :
    (lane_state group ops).rows = rows_sent group ops := by
  rw [lane_state, lane_state_foldl_rows, rows_sent_eq]
  rfl

/-- The lane after one more operation. -/
theorem lane_state_concat (group : TableGroup) (ops : List ImportOp) (op : ImportOp) :
    lane_state group (ops ++ [op]) = match op with
      | .lane g lane_op =>
          if g = group then (lane_state group ops).step lane_op else lane_state group ops
      | .count _ => lane_state group ops := by
  unfold lane_state
  rw [on_lane_append, List.foldl_append]
  cases op with
  | count c => rfl
  | lane g lane_op => by_cases hg : g = group <;> simp [hg]

/-- The patches of a lane are the shared ones of its group. -/
theorem lane_state_patches (group : TableGroup) (ops : List ImportOp) :
    (lane_state group ops).metadata_patches = (Shared.of ops).metadata_patches group := by
  induction ops using List.reverseRecOn with
  | nil => rfl
  | append_singleton ops op ih =>
      rw [lane_state_concat, Shared.of_concat, Shared.step]
      dsimp only
      rw [← ih]
      cases op with
      | count c => rfl
      | lane g lane_op =>
          by_cases hg : g = group <;> cases lane_op <;> simp [hg, LaneState.step, Shared.record]

/-- Only this lane collects pairs and close candidates. -/
def CollectsOn (group : TableGroup) (ops : List ImportOp) : Prop :=
  ∀ g, g ≠ group → (∀ pair, .lane g (.remember_affected_pair pair) ∉ ops) ∧
    ∀ pubkey slot, .lane g (.remember_close_candidate pubkey slot) ∉ ops

/-- The statistics hold what the collecting lane holds. -/
theorem lane_state_stats {group : TableGroup} {ops : List ImportOp} (h : CollectsOn group ops) :
    (lane_state group ops).affected_pairs
        = (ParallelWorkerStats.summary.of ops).affected_pairs ∧
      (lane_state group ops).closed_token_accounts
        = (ParallelWorkerStats.summary.of ops).closed_token_accounts := by
  -- from the first operation on: both sides take in one more
  induction ops using List.reverseRecOn with
  | nil => exact ⟨rfl, rfl⟩
  | append_singleton ops op ih =>
      have hprefix : CollectsOn group ops := fun g hg =>
        ⟨fun pair hmem => (h g hg).1 pair (List.mem_append_left _ hmem),
          fun pubkey slot hmem => (h g hg).2 pubkey slot (List.mem_append_left _ hmem)⟩
      obtain ⟨hpairs, hclosed⟩ := ih hprefix
      rw [lane_state_concat, Summary.of_concat]
      change _ = ((ParallelWorkerStats.summary.of ops).step op).affected_pairs ∧
        _ = ((ParallelWorkerStats.summary.of ops).step op).closed_token_accounts
      rw [ParallelWorkerStats.step_affected_pairs, ParallelWorkerStats.step_closed, ← hpairs,
        ← hclosed]
      cases op with
      | count c => simp [ParallelWorkerStats.pairs, ParallelWorkerStats.candidate]
      | lane g lane_op =>
          by_cases hg : g = group
          · cases lane_op <;> simp [hg, LaneState.step, ParallelWorkerStats.pairs,
              ParallelWorkerStats.candidate, remember_close_candidate]
          · cases lane_op with
            | remember_affected_pair pair => exact absurd (by simp) ((h g hg).1 pair)
            | remember_close_candidate pubkey slot =>
                exact absurd (by simp) ((h g hg).2 pubkey slot)
            | _ => simp [hg, ParallelWorkerStats.pairs, ParallelWorkerStats.candidate]

/-- A worker collects on its own lane. -/
theorem Worker.collectsOn (dec : Decoders) (w : Worker) (append_vecs : List AppendVec) :
    CollectsOn w.group (append_vecs.flatMap (w.on_delivered dec)) := by
  have hops : ∀ op ∈ append_vecs.flatMap (w.on_delivered dec), ∀ g lane_op,
      op = .lane g lane_op → g = w.group := by
    intro op hop g lane_op heq
    obtain ⟨av, -, hop⟩ := List.mem_flatMap.mp hop
    simp only [on_delivered, on_append_vec_count, List.cons_append, List.mem_cons,
      List.mem_append, List.mem_flatMap] at hop
    subst heq
    rcases hop with hop | (⟨account, -, hop⟩ | hop) | hop
    · cases hop
    · exact (w.performs_insert_account dec account av.slot _ hop).1
    · split at hop <;> simp at hop
    · simp at hop
  exact fun g hg => ⟨fun pair hmem => hg (hops _ hmem g _ rfl),
    fun pubkey slot hmem => hg (hops _ hmem g _ rfl)⟩

/-- What an import holds of its lane once its storages are parsed. -/
def Worker.lane (dec : Decoders) (w : Worker) (append_vecs : List AppendVec) : LaneState :=
  lane_state w.group (append_vecs.flatMap (w.on_delivered dec))

/-- The rows of a worker's lane are what it writes for each account. -/
theorem Worker.rows_lane (dec : Decoders) (w : Worker) (append_vecs : List AppendVec) :
    (w.lane dec append_vecs).rows = append_vecs.flatMap fun av => av.accounts.flatMap fun account =>
      rows_sent w.group (w.insert_account dec account av.slot) := by
  rw [lane, lane_state_rows, rows_sent_flatMap]
  congr 1
  funext av
  simp only [on_delivered, on_append_vec_count, rows_sent_append, rows_sent_cons, rows_sent_flatMap]
  split <;> simp [ImportOp.rows]

/-- The parser leaves metadata rows to the merge. -/
theorem Worker.lane_no_metadata (dec : Decoders) (w : Worker) (append_vecs : List AppendVec) :
    ∀ row ∈ (w.lane dec append_vecs).rows, row.table ≠ .token_metadata := by
  intro row hrow
  rw [rows_lane] at hrow
  obtain ⟨av, -, hrow⟩ := List.mem_flatMap.mp hrow
  obtain ⟨account, -, hrow⟩ := List.mem_flatMap.mp hrow
  exact (w.rows_sent_insert_account dec account av.slot w.group row hrow).2

/-! ## The machines -/

/-- Merging the metadata adds the merged rows and nothing else. -/
theorem Group.rows_merge_metadata (g : Group) (lane : LaneState) (preserve : Bool) (s : Slot) :
    (g.merge_metadata lane preserve s).rows = g.rows + ((write_merged_metadata_patches
      g.raw_token_metadata lane.metadata_patches preserve s).map Row.token_metadata) := by
  simp only [rows, merge_metadata, List.map_append, ← Multiset.coe_add]
  abel

/-- **A completed `insert_all` has run the phases.** The tables of its group are
those of the stored and merged lane, the other group is untouched, and the
statistics hold the pairs and candidates of the lane. -/
theorem ImportConfig.Complete.lane {dec : Decoders} {size : Row → ℕ} {group : TableGroup}
    {kind : SnapshotKind} {snapshot_slot : Slot} {hot_mints : Finset String}
    {append_vecs : List AppendVec} {db₀ db : Db} {stats : ParallelWorkerStats} {shared : Shared}
    (h : (insert_all_config dec size group kind snapshot_slot hot_mints).Complete
      ((insert_all_config dec size group kind snapshot_slot hot_mints).ops append_vecs) db₀
      stats shared db) (lane : LaneState)
    (hlane : lane = (Worker.new group kind snapshot_slot hot_mints).lane dec append_vecs) :
    (db group).rows = (((db₀ group).insert_all lane.rows).merge_metadata lane
        (kind = .Incremental) snapshot_slot).rows ∧
      (∀ g, g ≠ group → (db g).rows = (db₀ g).rows) ∧
      stats.affected_pairs = lane.affected_pairs ∧
      stats.closed_token_accounts = lane.closed_token_accounts := by
  have hcollects := (Worker.new group kind snapshot_slot hot_mints).collectsOn dec append_vecs
  have hstats := lane_state_stats hcollects
  have hnone := (Worker.new group kind snapshot_slot hot_mints).lane_no_metadata dec append_vecs
  rw [← hlane] at hnone
  change lane = lane_state group _ at hlane
  refine ⟨?_, fun g hg => ?_, ?_, ?_⟩
  · have hmerged : (insert_all_config dec size group kind snapshot_slot hot_mints).merged_rows db₀
        shared (insert_all_config dec size group kind snapshot_slot hot_mints).merge_plan group
        = (write_merged_metadata_patches (db₀ group).raw_token_metadata lane.metadata_patches
          (kind = .Incremental) snapshot_slot).map Row.token_metadata := by
      rw [hlane, lane_state_patches, h.shared]
      simp [merged_rows, insert_all_config, ImportConfig.ops]
    rw [h.rows group, hmerged, Group.rows_merge_metadata, Group.rows_insert_all,
      Group.insert_all_metadata _ _ hnone, hlane, lane_state_rows]
    rfl
  · have hmerged : (insert_all_config dec size group kind snapshot_slot hot_mints).merged_rows db₀
        shared (insert_all_config dec size group kind snapshot_slot hot_mints).merge_plan g
          = [] := by
      simp [merged_rows, insert_all_config, Ne.symm hg]
    -- no write of the one group is sent to the other
    have hsent : rows_sent g ((insert_all_config dec size group kind snapshot_slot hot_mints).ops
        append_vecs) = [] := by
      rw [List.eq_nil_iff_forall_not_mem]
      intro row hrow
      rw [ImportConfig.ops, rows_sent_flatMap] at hrow
      obtain ⟨av, -, hrow⟩ := List.mem_flatMap.mp hrow
      have hin := ((insert_all_config dec size group kind snapshot_slot hot_mints).deliver_rows av g
        row hrow).1
      exact hg (List.mem_singleton.mp hin)
    rw [h.rows g, hmerged, hsent]
    simp
  · rw [hlane, h.stats]
    exact hstats.1.symm
  · rw [hlane, h.stats]
    exact hstats.2.symm

end SnapshotEtl
