/-
An incremental import that crashes and is run again.

The committed writes of an import are the rows of its stream in any batching,
then the merged metadata, the tombstones and the balances, each in their order. A
crash leaves a part of them, and the retry runs the whole import over it. What
the first attempt left of the stream and of the metadata is written again, and
its tombstones stand for those the retry finds no live row for. But the pairs of
those tombstones are then known to nobody: the retry does not refresh them, nor
does its balance query read their rows. `CrashPoint.Harmless` says when that does
not show.
-/
import SnapshotEtl.GroupImport
import Mathlib.Algebra.Order.BigOperators.Group.Finset

set_option autoImplicit false

namespace SnapshotEtl

open Replacing Lib

/-! ## Crash points -/

/-- How far an import got. The rows of its stream are committed in any batching;
of the later phases a prefix is. -/
inductive CrashPoint (lane : LaneState)
  | stream (rows : List Row) (h : (rows : Multiset Row) ≤ lane.rows)
  | metadata (committed : ℕ)
  | tombstones (committed : ℕ)
  | balances (committed : ℕ)

namespace Group

variable (g : Group) (lane : LaneState) (snapshot_slot : Slot)

/-- The metadata rows an incremental import sends. -/
def merged_rows : List TokenMetadataRow :=
  write_merged_metadata_patches (g.insert_all lane.rows).raw_token_metadata
    lane.metadata_patches true snapshot_slot

/-- The group once the lane is stored and its metadata merged. -/
def stored : Group := (g.insert_all lane.rows).merge_metadata lane true snapshot_slot

/-- The pairs an import refreshes. -/
def refreshed_pairs : Finset TokenPair :=
  lane.affected_pairs ∪ tombstone_pairs ((g.insert_all lane.rows).tombstones lane)

/-- The balance rows it sends. -/
def balance_rows : List WalletBalanceRow :=
  refresh_wallet_balance_incremental
    (g.import_incremental lane snapshot_slot).hot_token_account_state
    (g.refreshed_pairs lane) snapshot_slot

/-- The tables an import that crashed leaves. -/
def after_crash : CrashPoint lane → Group
  | .stream rows _ => g.insert_all rows
  | .metadata committed =>
      { g.insert_all lane.rows with
        raw_token_metadata := (g.insert_all lane.rows).raw_token_metadata ++
          (g.merged_rows lane snapshot_slot).take committed }
  | .tombstones committed =>
      { g.stored lane snapshot_slot with
        hot_token_account_state := (g.stored lane snapshot_slot).hot_token_account_state ++
          ((g.insert_all lane.rows).tombstones lane).take committed }
  | .balances committed =>
      { (g.stored lane snapshot_slot).write_tombstones lane with
        hot_wallet_token_balance := g.hot_wallet_token_balance ++
          (g.balance_rows lane snapshot_slot).take committed }

end Group

/-- What readers see of two groups is the same. -/
structure SameViews (g g' : Group) : Prop where
  state : ∀ pubkey, state_final g.hot_token_account_state pubkey
    = state_final g'.hot_token_account_state pubkey
  metadata : ∀ mint, metadata_final g.raw_token_metadata mint
    = metadata_final g'.raw_token_metadata mint
  balance : ∀ pair, balance_final g.hot_wallet_token_balance pair
    = balance_final g'.hot_wallet_token_balance pair

/-! ## When it does not show

All of this is said of the table before any tombstone: the rows of the group
followed by those of the archive. -/

namespace Group

variable (g : Group) (lane : LaneState)

/-- What a pubkey has among the rows of some pairs, its tombstone first. -/
def last_row (pairs : Finset TokenPair) (pubkey : String) : Option TokenAccountRow :=
  (g.closed_row lane pubkey).or (latest_in (g.rows_with lane) pairs pubkey)

/-- What the accounts of a pair that stay open add up to. -/
def open_balance (pair : TokenPair) : ℕ :=
  (∑ pubkey ∈ pubkeys (g.rows_with lane),
    amount_in (g.last_row lane (g.refreshed_pairs lane) pubkey) pair) % u64_modulus

end Group

namespace CrashPoint

variable {lane : LaneState}

/-- The live rows committed. -/
def live : CrashPoint lane → List TokenAccountRow
  | .stream rows _ => token_account_rows rows
  | _ => token_account_rows lane.rows

/-- The tombstones committed and those still due. -/
def written (g : Group) : CrashPoint lane → List TokenAccountRow
  | .tombstones committed => ((g.insert_all lane.rows).tombstones lane).take committed
  | .balances _ => (g.insert_all lane.rows).tombstones lane
  | _ => []

def pending (g : Group) : CrashPoint lane → List TokenAccountRow
  | .tombstones committed => ((g.insert_all lane.rows).tombstones lane).drop committed
  | .balances _ => []
  | _ => (g.insert_all lane.rows).tombstones lane

/-- The merged metadata rows committed. -/
def merged_written (g : Group) (snapshot_slot : Slot) : CrashPoint lane → List TokenMetadataRow
  | .stream _ _ => []
  | .metadata committed => (g.merged_rows lane snapshot_slot).take committed
  | _ => g.merged_rows lane snapshot_slot

/-- The balance rows committed. -/
def balances_written (g : Group) (snapshot_slot : Slot) : CrashPoint lane → List WalletBalanceRow
  | .balances committed => (g.balance_rows lane snapshot_slot).take committed
  | _ => []

/-- The pairs of those rows. -/
def settled_pairs (g : Group) : CrashPoint lane → List TokenPair
  | .balances committed => ((g.refreshed_pairs lane).sort pair_le).take committed
  | _ => []

/-- The pairs the retry still knows of. -/
def known_pairs (g : Group) (crash : CrashPoint lane) : Finset TokenPair :=
  lane.affected_pairs ∪ tombstone_pairs (crash.pending g)

/-- What a pair's older rows add up to, of the pubkeys whose last row is of a
pair the retry does not know of. -/
def resurfacing (g : Group) (crash : CrashPoint lane) (pair : TokenPair) : ℕ :=
  ∑ pubkey ∈ pubkeys (g.rows_with lane),
    if (g.last_row lane (g.refreshed_pairs lane) pubkey).any fun row =>
        row.pair ∉ crash.known_pairs g
    then amount_in (latest_in (g.rows_with lane) (crash.known_pairs g) pubkey) pair else 0

/-- Nothing of the crash shows. Of the pairs whose stored balance is not newer
than the archive, one the retry does not know of has its balance row already, or
its stored balance is what its accounts that stay open add up to; and one it
knows of has no older rows resurfacing, up to the wrap of the sum. -/
structure Harmless (g : Group) (snapshot_slot : Slot) (crash : CrashPoint lane) : Prop where
  unknown : ∀ pair ∈ g.refreshed_pairs lane, pair ∉ crash.known_pairs g →
    (∀ row ∈ g.hot_wallet_token_balance, row.pair = pair → row.updated_slot ≤ snapshot_slot) →
    pair ∈ crash.settled_pairs g ∨
      balance_final g.hot_wallet_token_balance pair = g.open_balance lane pair
  known : ∀ pair ∈ crash.known_pairs g,
    (∀ row ∈ g.hot_wallet_token_balance, row.pair = pair → row.updated_slot ≤ snapshot_slot) →
    u64_modulus ∣ crash.resurfacing g pair

end CrashPoint

/-! ## What the retry finds -/

section Retry

variable (g : Group) {lane : LaneState} (snapshot_slot : Slot) (crash : CrashPoint lane)

/-- The tombstones are those written before the crash and those still to write. -/
theorem CrashPoint.written_append_pending :
    crash.written g ++ crash.pending g = (g.insert_all lane.rows).tombstones lane := by
  cases crash <;> simp [written, pending]

/-- Rows that were stored before the crash are rows of the import. -/
theorem CrashPoint.mem_live {row : TokenAccountRow} (h : row ∈ crash.live) :
    row ∈ token_account_rows lane.rows := by
  cases crash with
  | stream rows hle =>
      obtain ⟨r, hr, hrow⟩ := List.mem_filterMap.mp h
      exact List.mem_filterMap.mpr ⟨r, Multiset.mem_of_le hle hr, hrow⟩
  | _ => exact h

/-- The tombstones come after the stream. -/
theorem CrashPoint.live_eq (h : crash.written g ≠ []) :
    crash.live = token_account_rows lane.rows := by
  cases crash with
  | stream rows hle => exact absurd rfl h
  | _ => rfl

/-- The L2 rows after a crash. -/
theorem Group.after_crash_state : (g.after_crash lane snapshot_slot crash).hot_token_account_state
    = g.hot_token_account_state ++ crash.live ++ crash.written g := by
  cases crash <;>
    simp [after_crash, CrashPoint.live, CrashPoint.written, insert_all_state, stored,
      write_tombstones, tombstones_merge_metadata]

/-- The balances after a crash. -/
theorem Group.after_crash_balance :
    (g.after_crash lane snapshot_slot crash).hot_wallet_token_balance
      = g.hot_wallet_token_balance ++ crash.balances_written g snapshot_slot := by
  cases crash <;> simp [after_crash, CrashPoint.balances_written, stored]

/-- The state table of the retry once its stream is stored. -/
theorem Group.retry_state :
    ((g.after_crash lane snapshot_slot crash).insert_all lane.rows).hot_token_account_state
      = g.hot_token_account_state ++ crash.live ++ crash.written g
        ++ token_account_rows lane.rows := by
  rw [insert_all_state, after_crash_state]

/-- A pubkey whose tombstone the crash left is shown deleted. -/
theorem Group.retry_newest_of_written {row : TokenAccountRow} (h : row ∈ crash.written g) :
    token_account_engine.newest ((g.after_crash lane snapshot_slot crash).insert_all
      lane.rows).hot_token_account_state row.pubkey = some row := by
  have hall := crash.live_eq g (List.ne_nil_of_mem h)
  have htomb : ∀ other ∈ crash.written g, other ∈ (g.insert_all lane.rows).tombstones lane :=
    fun other hother => by
      rw [← crash.written_append_pending g]
      exact List.mem_append_left _ hother
  have hnewer := tombstone_newer (htomb row h)
  rw [insert_all_state] at hnewer
  rw [retry_state, hall]
  refine newest_of_lt _ (by simp [h]) rfl fun other hother hkey => ?_
  rcases List.mem_append.mp hother with hother | hother
  · rcases List.mem_append.mp hother with hother | hother
    · exact .inr (hnewer other hother hkey)
    · exact .inl (tombstone_unique (htomb other hother) (htomb row h) hkey)
  · exact .inr (hnewer other (List.mem_append_right _ hother) hkey)

/-- Any other pubkey shows what it shows without the crash. -/
theorem Group.retry_newest_of_not_written {pubkey : String}
    (h : ∀ row ∈ crash.written g, row.pubkey ≠ pubkey) :
    token_account_engine.newest ((g.after_crash lane snapshot_slot crash).insert_all
        lane.rows).hot_token_account_state pubkey
      = token_account_engine.newest (g.insert_all lane.rows).hot_token_account_state pubkey := by
  rw [retry_state, insert_all_state, newest_append_of_absent_middle _ h]
  exact newest_replay _ fun row hrow => ⟨row, crash.mem_live hrow, rfl, le_refl _⟩

/-- **The retry writes the tombstones that were still due.** -/
theorem Group.mem_retry_tombstones {row : TokenAccountRow} :
    row ∈ ((g.after_crash lane snapshot_slot crash).insert_all lane.rows).tombstones lane
      ↔ row ∈ crash.pending g := by
  have hsplit := crash.written_append_pending g
  have hnodup := tombstones_nodup (g.insert_all lane.rows).hot_token_account_state
    lane.closed_token_accounts
  change ((g.insert_all lane.rows).tombstones lane).Nodup at hnodup
  by_cases hwritten : ∃ other ∈ crash.written g, other.pubkey = row.pubkey
  · obtain ⟨other, hother, hkey⟩ := hwritten
    have htomb : other ∈ (g.insert_all lane.rows).tombstones lane := by
      rw [← hsplit]
      exact List.mem_append_left _ hother
    constructor
    · intro hrow
      -- the pubkey is deleted already, and no live row is found
      obtain ⟨candidate, -, hclose⟩ := mem_tombstones.mp hrow
      obtain ⟨previous, hprevious, -⟩ := close_tombstone_eq_some.mp hclose
      have hnewest := g.retry_newest_of_written snapshot_slot crash hother
      rw [hkey] at hnewest
      rw [state_final, hnewest, Option.filter_some, tombstone_is_deleted htomb] at hprevious
      simp at hprevious
    · intro hrow
      have hrow' : row ∈ (g.insert_all lane.rows).tombstones lane := by
        rw [← hsplit]
        exact List.mem_append_right _ hrow
      rw [← hsplit] at hnodup
      have hne := (List.nodup_append.mp hnodup).2.2 other hother row hrow
      exact absurd (tombstone_unique htomb hrow' hkey) hne
  · have hother : ∀ other ∈ crash.written g, other.pubkey ≠ row.pubkey :=
      fun other hother hkey => hwritten ⟨other, hother, hkey⟩
    have hnewest := g.retry_newest_of_not_written snapshot_slot crash hother
    have hsame : row ∈ ((g.after_crash lane snapshot_slot crash).insert_all lane.rows).tombstones
        lane ↔ row ∈ (g.insert_all lane.rows).tombstones lane := by
      unfold tombstones
      rw [mem_tombstones, mem_tombstones, close_tombstone_congr hnewest]
    rw [hsame, ← hsplit, List.mem_append]
    exact ⟨fun hmem => hmem.resolve_left fun hw => hother row hw rfl, .inr⟩

/-- The same rows end up in the table, some of them twice. -/
theorem Group.mem_retry_state {row : TokenAccountRow} :
    row ∈ ((g.after_crash lane snapshot_slot crash).import_incremental lane
        snapshot_slot).hot_token_account_state
      ↔ row ∈ (g.import_incremental lane snapshot_slot).hot_token_account_state := by
  have hlive : row ∈ crash.live → row ∈ token_account_rows lane.rows := crash.mem_live
  simp only [import_incremental_state, after_crash_state, List.mem_append, mem_retry_tombstones,
    ← crash.written_append_pending g]
  tauto

/-- **Every reading of the state table agrees**, restricted to whichever rows. -/
theorem Group.retry_newest (q : TokenAccountRow → Bool) (pubkey : String) :
    token_account_engine.newest (((g.after_crash lane snapshot_slot crash).import_incremental lane
        snapshot_slot).hot_token_account_state.filter q) pubkey
      = token_account_engine.newest
        ((g.import_incremental lane snapshot_slot).hot_token_account_state.filter q) pubkey := by
  by_cases htomb : ∃ row ∈ (g.insert_all lane.rows).tombstones lane,
      row.pubkey = pubkey ∧ q row = true
  · -- its tombstone is the newest row of the pubkey, wherever it was written
    obtain ⟨row, hrow, rfl, hq⟩ := htomb
    have hin : row ∈ (g.import_incremental lane snapshot_slot).hot_token_account_state := by
      rw [import_incremental_state]
      exact List.mem_append_right _ hrow
    have hlast := g.tombstone_last (s := snapshot_slot) hrow
    have himport : token_account_engine.newest ((g.import_incremental lane
        snapshot_slot).hot_token_account_state.filter q) row.pubkey = some row :=
      newest_of_lt _ (List.mem_filter.mpr ⟨hin, hq⟩) rfl
        fun other hother => hlast other (List.mem_of_mem_filter hother)
    rw [himport]
    refine newest_of_lt _ (List.mem_filter.mpr ⟨?_, hq⟩) rfl fun other hother => ?_
    · exact (g.mem_retry_state snapshot_slot crash).mpr hin
    · exact hlast other ((g.mem_retry_state snapshot_slot crash).mp (List.mem_of_mem_filter hother))
  -- no tombstone of the pubkey is kept by the filter, in the crash or in the retry
  · have habsent : ∀ rows : List TokenAccountRow,
        (∀ row ∈ rows, row ∈ (g.insert_all lane.rows).tombstones lane) →
        ∀ row ∈ rows.filter q, row.pubkey ≠ pubkey := by
      intro rows hrows row hrow hkey
      obtain ⟨hin, hq⟩ := List.mem_filter.mp hrow
      exact htomb ⟨row, hrows row hin, hkey, hq⟩
    have hwritten := habsent (crash.written g) fun row hrow => by
      rw [← crash.written_append_pending g]
      exact List.mem_append_left _ hrow
    have hrewritten := habsent _ fun row hrow => by
      rw [← crash.written_append_pending g]
      exact List.mem_append_right _ ((g.mem_retry_tombstones snapshot_slot crash).mp hrow)
    have htombs := habsent ((g.insert_all lane.rows).tombstones lane) fun _ h => h
    have hreplay : ∀ row ∈ crash.live.filter q, ∃ other ∈ (token_account_rows lane.rows).filter q,
        other.pubkey = row.pubkey ∧ row.updated_slot ≤ other.updated_slot := by
      intro row hrow
      obtain ⟨hin, hq⟩ := List.mem_filter.mp hrow
      exact ⟨row, List.mem_filter.mpr ⟨crash.mem_live hin, hq⟩, rfl, le_refl _⟩
    simp only [import_incremental_state, after_crash_state, List.filter_append]
    calc token_account_engine.newest _ pubkey
        = token_account_engine.newest (g.hot_token_account_state.filter q ++ crash.live.filter q ++
            (crash.written g).filter q ++ (token_account_rows lane.rows).filter q) pubkey :=
          newest_append_of_absent _ hrewritten
      _ = token_account_engine.newest (g.hot_token_account_state.filter q ++ crash.live.filter q ++
            (token_account_rows lane.rows).filter q) pubkey :=
          newest_append_of_absent_middle _ hwritten
      _ = token_account_engine.newest (g.hot_token_account_state.filter q ++
            (token_account_rows lane.rows).filter q) pubkey := newest_replay _ hreplay
      _ = token_account_engine.newest _ pubkey := (newest_append_of_absent _ htombs).symm

/-- `hot_token_account_state` survives the crash. -/
theorem Group.retry_state_final (pubkey : String) :
    state_final ((g.after_crash lane snapshot_slot crash).import_incremental lane
        snapshot_slot).hot_token_account_state pubkey
      = state_final (g.import_incremental lane snapshot_slot).hot_token_account_state pubkey := by
  have hnewest := g.retry_newest snapshot_slot crash (fun _ => true) pubkey
  simp only [List.filter_true] at hnewest
  exact state_final_congr hnewest

/-! ## Metadata -/

/-- The metadata of an import that ran to its end. -/
theorem Group.import_incremental_metadata (lane : LaneState) (s : Slot) :
    (g.import_incremental lane s).raw_token_metadata
      = (g.insert_all lane.rows).raw_token_metadata ++ g.merged_rows lane s := rfl

/-- What the first attempt merged is merged again, to the same rows. -/
theorem Group.retry_metadata_final (hlane : ∀ row ∈ lane.rows, row.table ≠ .token_metadata)
    (mint : String) :
    metadata_final ((g.after_crash lane snapshot_slot crash).import_incremental lane
        snapshot_slot).raw_token_metadata mint
      = metadata_final (g.import_incremental lane snapshot_slot).raw_token_metadata mint := by
  -- what the crash has left of the metadata
  have hcrash : (g.after_crash lane snapshot_slot crash).raw_token_metadata
      = g.raw_token_metadata ++ crash.merged_written g snapshot_slot := by
    cases crash with
    | stream rows hle =>
        have hrows : ∀ row ∈ rows, row.table ≠ .token_metadata :=
          fun row hrow => hlane row (Multiset.mem_of_le hle hrow)
        simp [after_crash, CrashPoint.merged_written, insert_all_metadata _ _ hrows]
    | metadata committed =>
        simp [after_crash, CrashPoint.merged_written, insert_all_metadata _ _ hlane]
    | _ =>
        simp [after_crash, CrashPoint.merged_written, stored, merge_metadata, merged_rows,
          insert_all_metadata _ _ hlane, write_tombstones]
  have hpart : ∀ row ∈ crash.merged_written g snapshot_slot,
      row ∈ g.merged_rows lane snapshot_slot := by
    intro row hrow
    cases crash with
    | stream rows hle => simp [CrashPoint.merged_written] at hrow
    | metadata committed => exact List.mem_of_mem_take hrow
    | _ => exact hrow
  -- the retry merges the same patches into it again
  have hagain : (g.after_crash lane snapshot_slot crash).merged_rows lane snapshot_slot
      = g.merged_rows lane snapshot_slot := by
    unfold merged_rows at hpart ⊢
    rw [insert_all_metadata _ _ hlane] at hpart ⊢
    rw [insert_all_metadata _ _ hlane, hcrash]
    exact write_merged_metadata_patches_again hpart
  rw [import_incremental_metadata, import_incremental_metadata, hagain,
    insert_all_metadata _ _ hlane, insert_all_metadata _ _ hlane, hcrash]
  exact newest_replay _ fun row hrow => ⟨row, hpart row hrow, rfl, le_refl _⟩

/-! ## Balances -/

/-- What the balance query reads of a pubkey, where it reads its tombstone too. -/
theorem Group.latest_in_import {pairs : Finset TokenPair} {pubkey : String}
    (h : ∀ row, g.closed_row lane pubkey = some row → row.pair ∈ pairs) :
    latest_in (g.import_incremental lane snapshot_slot).hot_token_account_state pairs pubkey
      = g.last_row lane pairs pubkey :=
  g.newest_import_filter fun row hrow => by simpa using h row hrow

/-- And where it does not. -/
theorem Group.latest_in_import_of_unread {pairs : Finset TokenPair} {pubkey : String}
    (h : ∀ row, g.closed_row lane pubkey = some row → row.pair ∉ pairs) :
    latest_in (g.import_incremental lane snapshot_slot).hot_token_account_state pairs pubkey
      = latest_in (g.rows_with lane) pairs pubkey :=
  g.newest_import_filter_of_unread fun row hrow => by simpa using h row hrow

/-- The pair of a closed row is refreshed. -/
theorem Group.closed_row_refreshed {pubkey : String} {row : TokenAccountRow}
    (h : g.closed_row lane pubkey = some row) : row.pair ∈ g.refreshed_pairs lane := by
  refine Finset.mem_union_right _ ?_
  rw [tombstone_pairs, List.mem_toFinset]
  exact List.mem_map_of_mem (g.closed_row_mem h)

/-- The pair of a last row is a refreshed one. -/
theorem Group.last_row_refreshed {pubkey : String} {row : TokenAccountRow}
    (h : g.last_row lane (g.refreshed_pairs lane) pubkey = some row) :
    row.pair ∈ g.refreshed_pairs lane := by
  cases hclosed : g.closed_row lane pubkey with
  | none =>
      rw [last_row, hclosed, Option.none_or] at h
      exact (latest_in_spec h).2.2.1
  | some closed =>
      rw [last_row, hclosed, Option.some_or] at h
      exact g.closed_row_refreshed (hclosed.trans h)

/-- Tombstones add no pubkey. -/
theorem Group.pubkeys_import : pubkeys (g.import_incremental lane
    snapshot_slot).hot_token_account_state = pubkeys (g.rows_with lane) := by
  ext pubkey
  rw [mem_pubkeys, mem_pubkeys, import_incremental_state]
  constructor
  · rintro ⟨row, hrow, hkey⟩
    rcases List.mem_append.mp hrow with hrow | hrow
    · exact ⟨row, hrow, hkey⟩
    · obtain ⟨candidate, -, hclose⟩ := mem_tombstones.mp hrow
      obtain ⟨previous, hprevious, -⟩ := close_tombstone_eq_some.mp hclose
      have hnewest := (state_final_spec hprevious).2.2
      rw [rows_with_eq] at hnewest
      exact ⟨previous, hnewest.mem, hnewest.key_eq.trans hkey⟩
  · rintro ⟨row, hrow, hkey⟩
    exact ⟨row, List.mem_append_left _ hrow, hkey⟩

/-- The uninterrupted import shows what the open accounts add up to. -/
theorem Group.aggregate_refreshed (pair : TokenPair) :
    incremental_wallet_balance_aggregate
        (g.import_incremental lane snapshot_slot).hot_token_account_state
        (g.refreshed_pairs lane) pair = g.open_balance lane pair := by
  rw [incremental_wallet_balance_aggregate, pubkeys_import, open_balance]
  congr 1
  refine Finset.sum_congr rfl fun pubkey _ => ?_
  rw [latest_in_import g snapshot_slot fun row hrow => g.closed_row_refreshed hrow]

/-- The import refreshes every pair that the retry knows of. -/
theorem CrashPoint.known_subset : crash.known_pairs g ⊆ g.refreshed_pairs lane := by
  refine Finset.union_subset_union_right fun pair hpair => ?_
  rw [tombstone_pairs, List.mem_toFinset] at hpair ⊢
  obtain ⟨row, hrow, hkey⟩ := List.mem_map.mp hpair
  rw [← crash.written_append_pending g]
  exact List.mem_map.mpr ⟨row, List.mem_append_right _ hrow, hkey⟩

/-- **What a pubkey adds to a known pair**: what it adds without the crash, and
what of its older rows resurfaces. -/
theorem CrashPoint.amount_known {pair : TokenPair} (hpair : pair ∈ crash.known_pairs g)
    (pubkey : String) :
    amount_in (latest_in (g.import_incremental lane snapshot_slot).hot_token_account_state
        (crash.known_pairs g) pubkey) pair
      = amount_in (g.last_row lane (g.refreshed_pairs lane) pubkey) pair
        + if (g.last_row lane (g.refreshed_pairs lane) pubkey).any fun row =>
              row.pair ∉ crash.known_pairs g
          then amount_in (latest_in (g.rows_with lane) (crash.known_pairs g) pubkey) pair
          else 0 := by
  have hlast : latest_in (g.import_incremental lane snapshot_slot).hot_token_account_state
      (g.refreshed_pairs lane) pubkey = g.last_row lane (g.refreshed_pairs lane) pubkey :=
    g.latest_in_import snapshot_slot fun row hrow => g.closed_row_refreshed hrow
  have hfilter : ∀ state : List TokenAccountRow,
      state.filter (fun row => decide (row.pair ∈ crash.known_pairs g))
        = (state.filter fun row => decide (row.pair ∈ g.refreshed_pairs lane)).filter
          fun row => decide (row.pair ∈ crash.known_pairs g) := by
    intro state
    rw [List.filter_filter]
    refine List.filter_congr fun row _ => ?_
    by_cases hin : row.pair ∈ crash.known_pairs g
    · simp [hin, crash.known_subset g hin]
    · simp [hin]
  cases hrow : g.last_row lane (g.refreshed_pairs lane) pubkey with
  | none =>
      rw [hrow] at hlast
      have hnone : latest_in (g.import_incremental lane snapshot_slot).hot_token_account_state
          (crash.known_pairs g) pubkey = none := by
        rw [latest_in_eq_none] at hlast ⊢
        exact fun row hrow hin => hlast row hrow (crash.known_subset g hin)
      rw [hnone]
      rfl
  | some row =>
      rw [hrow] at hlast
      -- its last row is read, or an older one of it shows in its place
      by_cases hin : row.pair ∈ crash.known_pairs g
      · have hsame : latest_in (g.import_incremental lane snapshot_slot).hot_token_account_state
            (crash.known_pairs g) pubkey = some row := by
          rw [latest_in, hfilter]
          exact newest_filter _ _ hlast (by simpa using hin)
        simp [hsame, hin]
      · have hclosed : ∀ other, g.closed_row lane pubkey = some other →
            other.pair ∉ crash.known_pairs g := by
          intro other hother
          rw [Group.last_row, hother, Option.some_or] at hrow
          rw [Option.some.inj hrow]
          exact hin
        have hne : row.pair ≠ pair := fun heq => hin (heq ▸ hpair)
        rw [g.latest_in_import_of_unread snapshot_slot hclosed]
        simp [amount_in, hin, hne]

/-- The retry shows of a known pair what it shows without the crash, exactly when
what resurfaces vanishes. -/
theorem CrashPoint.aggregate_known {pair : TokenPair} (hpair : pair ∈ crash.known_pairs g) :
    incremental_wallet_balance_aggregate
        (g.import_incremental lane snapshot_slot).hot_token_account_state
        (crash.known_pairs g) pair = g.open_balance lane pair
      ↔ u64_modulus ∣ crash.resurfacing g pair := by
  have hsum : ∑ pubkey ∈ pubkeys (g.rows_with lane), amount_in (latest_in (g.import_incremental lane
        snapshot_slot).hot_token_account_state (crash.known_pairs g) pubkey) pair
      = ∑ pubkey ∈ pubkeys (g.rows_with lane),
          amount_in (g.last_row lane (g.refreshed_pairs lane) pubkey) pair
        + crash.resurfacing g pair := by
    rw [resurfacing, ← Finset.sum_add_distrib]
    exact Finset.sum_congr rfl fun pubkey _ => crash.amount_known g snapshot_slot hpair pubkey
  rw [incremental_wallet_balance_aggregate, g.pubkeys_import, hsum, Group.open_balance]
  constructor
  · intro h
    exact Nat.modEq_zero_iff_dvd.mp (Nat.ModEq.add_left_cancel' _ h)
  · intro h
    rw [Nat.add_mod, Nat.mod_eq_zero_of_dvd h, add_zero, Nat.mod_mod]

/-- The settled pairs are those of the rows committed. -/
theorem CrashPoint.mem_settled_pairs {pair : TokenPair} : pair ∈ crash.settled_pairs g ↔
    ∃ row ∈ crash.balances_written g snapshot_slot, row.pair = pair := by
  cases crash with
  | balances committed =>
      simp only [settled_pairs, balances_written, Group.balance_rows,
        refresh_wallet_balance_incremental, ← List.map_take, List.mem_map]
      constructor
      · intro hmem
        exact ⟨_, ⟨pair, hmem, rfl⟩, rfl⟩
      · rintro ⟨row, ⟨pair', hmem, rfl⟩, rfl⟩
        exact hmem
  | _ => simp [settled_pairs, balances_written]

/-- The pairs and the balances the retry refreshes. -/
theorem Group.retry_refresh : refresh_wallet_balance_incremental
      ((g.after_crash lane snapshot_slot crash).import_incremental lane
        snapshot_slot).hot_token_account_state
      ((g.after_crash lane snapshot_slot crash).refreshed_pairs lane) snapshot_slot
    = refresh_wallet_balance_incremental
      (g.import_incremental lane snapshot_slot).hot_token_account_state
      (crash.known_pairs g) snapshot_slot := by
  have hpairs : (g.after_crash lane snapshot_slot crash).refreshed_pairs lane
      = crash.known_pairs g := by
    unfold refreshed_pairs CrashPoint.known_pairs
    congr 1
    ext pair
    simp only [tombstone_pairs, List.mem_toFinset, List.mem_map, mem_retry_tombstones]
  have hpubkeys : pubkeys ((g.after_crash lane snapshot_slot crash).import_incremental lane
        snapshot_slot).hot_token_account_state
      = pubkeys (g.import_incremental lane snapshot_slot).hot_token_account_state := by
    ext pubkey
    simp only [mem_pubkeys, mem_retry_state]
  rw [hpairs]
  refine List.map_congr_left fun pair _ => ?_
  simp only [incremental_wallet_balance_aggregate, hpubkeys, latest_in, retry_newest]

/-- The retry shows the balance of an uninterrupted import, pair by pair. -/
theorem Group.retry_balance_final_iff (pair : TokenPair) :
    balance_final ((g.after_crash lane snapshot_slot crash).import_incremental lane
        snapshot_slot).hot_wallet_token_balance pair
      = balance_final (g.import_incremental lane snapshot_slot).hot_wallet_token_balance pair
    ↔ ((∀ row ∈ g.hot_wallet_token_balance, row.pair = pair → row.updated_slot ≤ snapshot_slot) →
        (pair ∈ crash.known_pairs g → u64_modulus ∣ crash.resurfacing g pair) ∧
        (pair ∈ g.refreshed_pairs lane → pair ∉ crash.known_pairs g →
          pair ∈ crash.settled_pairs g ∨
            balance_final g.hot_wallet_token_balance pair = g.open_balance lane pair)) := by
  -- the retry refreshes the pairs it knows of, over the rows the crash left
  have hretry : ((g.after_crash lane snapshot_slot crash).import_incremental lane
      snapshot_slot).hot_wallet_token_balance
        = g.hot_wallet_token_balance ++ crash.balances_written g snapshot_slot
          ++ refresh_wallet_balance_incremental
            (g.import_incremental lane snapshot_slot).hot_token_account_state
            (crash.known_pairs g) snapshot_slot := by
    rw [← retry_refresh, ← after_crash_balance]
    exact import_incremental_balance ..
  have himport : (g.import_incremental lane snapshot_slot).hot_wallet_token_balance
      = g.hot_wallet_token_balance ++ g.balance_rows lane snapshot_slot :=
    import_incremental_balance ..
  have hwritten : ∀ row, row ∈ crash.balances_written g snapshot_slot →
      row ∈ g.balance_rows lane snapshot_slot := by
    intro row hrow
    cases crash with
    | balances committed => exact List.mem_of_mem_take hrow
    | _ => simp [CrashPoint.balances_written] at hrow
  rw [hretry, himport]
  -- unless a stored row is newer than the archive, the last refresh decides
  by_cases hstored : ∀ row ∈ g.hot_wallet_token_balance, row.pair = pair →
      row.updated_slot ≤ snapshot_slot
  · rw [forall_prop_of_true hstored]
    have hold : ∀ row ∈ g.hot_wallet_token_balance ++ crash.balances_written g snapshot_slot,
        row.pair = pair → row.updated_slot ≤ snapshot_slot := by
      intro row hrow hkey
      rcases List.mem_append.mp hrow with hrow | hrow
      · exact hstored row hrow hkey
      · exact (mem_refresh_wallet_balance.mp (hwritten row hrow)).2.2.le
    -- a known pair is refreshed again: its sum may have changed
    by_cases hknown : pair ∈ crash.known_pairs g
    · have hrefreshed := crash.known_subset g hknown
      rw [balance_final_refresh hknown hold, balance_rows, balance_final_refresh hrefreshed hstored,
        aggregate_refreshed, crash.aggregate_known g snapshot_slot hknown]
      simp [hknown]
    · rw [balance_final_refresh_of_notMem hknown]
      -- a pair the retry does not know of shows what the crash left
      by_cases hrefreshed : pair ∈ g.refreshed_pairs lane
      · rw [balance_rows, balance_final_refresh hrefreshed hstored, aggregate_refreshed]
        by_cases hsettled : pair ∈ crash.settled_pairs g
        · -- its row was committed before the crash
          have hshown : balance_final (g.hot_wallet_token_balance
              ++ crash.balances_written g snapshot_slot) pair = g.open_balance lane pair := by
            refine balance_final_append (crash.mem_settled_pairs g snapshot_slot |>.mp hsettled)
              (fun row hrow hkey => ?_) hstored
            obtain ⟨-, hamount, hslot⟩ := mem_refresh_wallet_balance.mp (hwritten row hrow)
            rw [hamount, hkey, aggregate_refreshed]
            exact ⟨rfl, hslot⟩
          simp [hshown, hknown, hsettled]
        · have hnone : ∀ row ∈ crash.balances_written g snapshot_slot, row.pair ≠ pair :=
            fun row hrow hkey => hsettled
              ((crash.mem_settled_pairs g snapshot_slot).mpr ⟨row, hrow, hkey⟩)
          have hshown : balance_final (g.hot_wallet_token_balance
              ++ crash.balances_written g snapshot_slot) pair
                = balance_final g.hot_wallet_token_balance pair := by
            rw [balance_final, balance_final, newest_append_of_absent _ hnone]
          simp [hshown, hknown, hsettled, hrefreshed]
      · rw [balance_rows, balance_final_refresh_of_notMem hrefreshed]
        have hnone : ∀ row ∈ crash.balances_written g snapshot_slot, row.pair ≠ pair :=
          fun row hrow hkey =>
            hrefreshed (hkey ▸ (mem_refresh_wallet_balance.mp (hwritten row hrow)).1)
        rw [balance_final, newest_append_of_absent _ hnone]
        simp [hknown, hrefreshed, balance_final]
  · -- a newer row is stored, and neither import reaches it
    obtain ⟨row, hrow, hkey, hlt⟩ : ∃ row ∈ g.hot_wallet_token_balance, row.pair = pair ∧
        snapshot_slot < row.updated_slot := by
      push Not at hstored
      exact hstored
    have hslots : ∀ other ∈ crash.balances_written g snapshot_slot ++
        refresh_wallet_balance_incremental
          (g.import_incremental lane snapshot_slot).hot_token_account_state
          (crash.known_pairs g) snapshot_slot, other.updated_slot = snapshot_slot := by
      intro other hother
      rcases List.mem_append.mp hother with hother | hother
      · exact (mem_refresh_wallet_balance.mp (hwritten other hother)).2.2
      · exact (mem_refresh_wallet_balance.mp hother).2.2
    rw [balance_rows, List.append_assoc,
      balance_final_append_of_older hrow hkey fun other hother _ =>
      (hslots other hother).trans_lt hlt, balance_final_append_of_older hrow hkey
      fun other hother _ => (mem_refresh_wallet_balance.mp hother).2.2.trans_lt hlt]
    simp [hstored]

/-- Before the first tombstone a crash loses no pair. -/
theorem CrashPoint.harmless_of_no_tombstone (h : crash.written g = []) :
    crash.Harmless g snapshot_slot := by
  have hpending : crash.pending g = (g.insert_all lane.rows).tombstones lane := by
    rw [← crash.written_append_pending g, h, List.nil_append]
  have hknown : crash.known_pairs g = g.refreshed_pairs lane := by
    rw [known_pairs, hpending, Group.refreshed_pairs]
  refine ⟨fun pair hrefreshed hunknown => absurd (hknown ▸ hrefreshed) hunknown,
    fun pair _ _ => ?_⟩
  have hnone : crash.resurfacing g pair = 0 := by
    refine Finset.sum_eq_zero fun pubkey _ => if_neg ?_
    intro hany
    obtain ⟨row, hrow, hunknown⟩ := (Option.any_eq_true ..).mp hany
    refine absurd ?_ (of_decide_eq_true hunknown)
    rw [hknown]
    exact g.last_row_refreshed hrow
  rw [hnone]
  exact dvd_zero _

end Retry

/-! ## The retried import -/

/-- **A retry hides the crash exactly where it is harmless.** Whatever the group
holds and wherever the first attempt stopped, importing the archive again shows
readers what one uninterrupted import shows them if and only if no pair was lost
with its tombstones. So it does where the first attempt wrote none yet
(`CrashPoint.harmless_of_no_tombstone`). -/
theorem retry_same_views_iff (dec : Decoders) (group : TableGroup) (snapshot_slot : Slot)
    (hot_mints : Finset String) (append_vecs : List AppendVec) (g : Group)
    (crash : CrashPoint
      ((Worker.new group .Incremental snapshot_slot hot_mints).lane dec append_vecs)) :
    SameViews
      ((g.after_crash _ snapshot_slot crash).import_incremental
        ((Worker.new group .Incremental snapshot_slot hot_mints).lane dec append_vecs)
        snapshot_slot)
      (g.import_incremental
        ((Worker.new group .Incremental snapshot_slot hot_mints).lane dec append_vecs)
        snapshot_slot)
      ↔ crash.Harmless g snapshot_slot := by
  have hlane := (Worker.new group .Incremental snapshot_slot hot_mints).lane_no_metadata dec
    append_vecs
  constructor
  · intro h
    refine ⟨fun pair hrefreshed hunknown hstored => ?_, fun pair hknown hstored => ?_⟩
    · exact ((g.retry_balance_final_iff snapshot_slot crash pair).mp (h.balance pair) hstored).2
        hrefreshed hunknown
    · exact ((g.retry_balance_final_iff snapshot_slot crash pair).mp (h.balance pair) hstored).1
        hknown
  · intro h
    -- accounts and metadata come out the same at every crash point
    refine ⟨g.retry_state_final snapshot_slot crash,
      g.retry_metadata_final snapshot_slot crash hlane, fun pair => ?_⟩
    refine (g.retry_balance_final_iff snapshot_slot crash pair).mpr fun hstored => ⟨?_, ?_⟩
    · exact fun hknown => h.known pair hknown hstored
    · exact fun hrefreshed hunknown => h.unknown pair hrefreshed hunknown hstored

/-- A group with one open account, of balance 5, and its wallet. -/
def one_open : Group :=
  { Group.truncated with
    hot_token_account_state :=
      [⟨pubkey_string .default, "mint", "owner", 5, none, 0, 1, none, 0, 1⟩]
    hot_wallet_token_balance := [⟨"mint", "owner", 5, 1⟩] }

/-- A storage of slot 2 in which that account is closed. -/
def closing_vec : AppendVec where
  slot := 2
  id := 0
  len := 136
  accounts := [⟨⟨0, .default⟩, ⟨0, .default, false⟩, []⟩]

/-- The lane of an incremental at slot 2 with that storage. -/
def closing_lane : LaneState :=
  (Worker.new .Active .Incremental 2 {"mint"}).lane .accept_nothing [closing_vec]

/-- The import stops between the tombstone and the balances. The retry finds the
account deleted, refreshes nothing, and the wallet keeps the 5 that an
uninterrupted import takes from it. -/
theorem retry_keeps_closed_balance :
    balance_final (((one_open.after_crash closing_lane 2 (.tombstones 1)).import_incremental
        closing_lane 2).hot_wallet_token_balance) ("mint", "owner") = 5 ∧
      balance_final (one_open.import_incremental closing_lane 2).hot_wallet_token_balance
        ("mint", "owner") = 0 ∧
      ¬SameViews ((one_open.after_crash closing_lane 2 (.tombstones 1)).import_incremental
        closing_lane 2) (one_open.import_incremental closing_lane 2) := by
  have hretry : balance_final (((one_open.after_crash closing_lane 2
      (.tombstones 1)).import_incremental closing_lane 2).hot_wallet_token_balance)
        ("mint", "owner") = 5 := by decide +kernel
  have himport : balance_final (one_open.import_incremental closing_lane 2).hot_wallet_token_balance
      ("mint", "owner") = 0 := by decide +kernel
  refine ⟨hretry, himport, fun h => ?_⟩
  have hbalance := h.balance ("mint", "owner")
  rw [hretry, himport] at hbalance
  cases hbalance

end SnapshotEtl
