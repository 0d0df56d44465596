/-
The repair action: the tombstones of a snapshot again, and the balances of what they close.

`mark_close_tombstones` scans a snapshot for empty accounts and runs the tombstone pass
over them. It refreshes the pairs of the rows this pass has closed, with the slot of the
snapshot. A pass that failed after its tombstones were committed has closed those rows
already, so the repair finds nothing of them and leaves their balances; and where a newer
balance is stored, what the repair writes does not show. `Mended` says, of the tables
before the repair, when a balance is right after it.
-/
import SnapshotEtl.Balances
import SnapshotEtl.TombstonePass
import SnapshotEtl.ResumeSlot

set_option autoImplicit false

namespace SnapshotEtl

open Lib Replacing

/-! ## The action -/

/-- `CloseTombstoneStats`. -/
structure CloseTombstoneStats where
  append_vecs_total : ℕ
  skipped_append_vecs : ℕ
  canonical_empty_accounts : ℕ
  token_accounts_marked_deleted : ℕ
deriving DecidableEq

/-- The scan of a snapshot under way. -/
structure CloseScan where
  closed_token_accounts : FMap String Slot
  append_vecs_total : ℕ
  skipped_append_vecs : ℕ
  canonical_empty_accounts : ℕ

namespace CloseScan

def start : CloseScan := ⟨∅, 0, 0, 0⟩

/-- One account of a storage. -/
def account (slot : Slot) (scan : CloseScan) (account : StoredAccountMeta) : CloseScan :=
  if is_canonical_empty_account account.stored_meta.data_len account.account_meta.lamports
      account.account_meta.owner account.account_meta.executable then
    { scan with
      canonical_empty_accounts := scan.canonical_empty_accounts + 1
      closed_token_accounts := remember_close_candidate scan.closed_token_accounts
        (pubkey_string account.stored_meta.pubkey) slot }
  else scan

/-- One item of the stream; one that cannot be read is skipped. -/
def item (scan : CloseScan) : StreamItem → CloseScan
  | .ok append_vec =>
      append_vec.accounts.foldl (account append_vec.slot)
        { scan with append_vecs_total := scan.append_vecs_total + 1 }
  | .err => { scan with skipped_append_vecs := scan.skipped_append_vecs + 1 }

def run (stream : List StreamItem) : CloseScan := stream.foldl item start

end CloseScan

/-- The candidates of a snapshot. -/
def candidates_of (stream : List StreamItem) : FMap String Slot :=
  (CloseScan.run stream).closed_token_accounts

namespace Group

variable (g : Group)

/-- The table once a pass has committed its tombstones. -/
def marked (closed_token_accounts : FMap String Slot) : Group :=
  { g with
    hot_token_account_state := g.hot_token_account_state ++
      (TombstonePass.run g.hot_token_account_state closed_token_accounts).written }

/-- `mark_close_tombstones`. -/
def mark_close_tombstones (stream : List StreamItem) (snapshot_slot : Slot) :
    Group × CloseTombstoneStats :=
  let scan := CloseScan.run stream
  let result :=
    (TombstonePass.run g.hot_token_account_state scan.closed_token_accounts).result
  let marked := g.marked scan.closed_token_accounts
  -- the balances are refreshed only when this pass has closed something
  (if result.marked_deleted > 0 then marked.refresh_balances result.affected_pairs snapshot_slot
    else marked,
    { append_vecs_total := scan.append_vecs_total
      skipped_append_vecs := scan.skipped_append_vecs
      canonical_empty_accounts := scan.canonical_empty_accounts
      token_accounts_marked_deleted := result.marked_deleted })

/-- The tables an action that failed leaves: part of its tombstones, or all of them and
part of the balances. -/
inductive MarkFails (closed_token_accounts : FMap String Slot) (snapshot_slot : Slot) :
    Group → Prop
  | tombstones (committed : ℕ) : MarkFails closed_token_accounts snapshot_slot
      { g with
        hot_token_account_state := g.hot_token_account_state ++ (TombstonePass.run
          g.hot_token_account_state closed_token_accounts).written.take committed }
  | balances (committed : ℕ) : MarkFails closed_token_accounts snapshot_slot
      { g.marked closed_token_accounts with
        hot_wallet_token_balance := g.hot_wallet_token_balance ++
          (refresh_wallet_balance_incremental
            (g.marked closed_token_accounts).hot_token_account_state
            (TombstonePass.run g.hot_token_account_state
              closed_token_accounts).result.affected_pairs
            snapshot_slot).take committed }

end Group

/-- The tables that imports and repairs of the active group leave, each of them completed
or stopped somewhere. -/
inductive ActiveTables (dec : Decoders) : Group → Prop
  | empty : ActiveTables dec .truncated
  | imported {g g' : Group} (h : ActiveTables dec g) (i : ActiveImport)
      (hleaves : (ActiveGroup.mk g []).Leaves dec i g') : ActiveTables dec g'
  | repaired {g : Group} (h : ActiveTables dec g) (stream : List StreamItem)
      (snapshot_slot : Slot) : ActiveTables dec (g.mark_close_tombstones stream snapshot_slot).1
  | repair_failed {g g' : Group} (h : ActiveTables dec g) (stream : List StreamItem)
      (snapshot_slot : Slot) (hfails : g.MarkFails (candidates_of stream) snapshot_slot g') :
      ActiveTables dec g'

/-! ## What the action leaves -/

section Action

variable {g : Group} {stream : List StreamItem} {snapshot_slot : Slot}

/-- The pass adds its tombstones to L2. -/
theorem mark_state : (g.mark_close_tombstones stream snapshot_slot).1.hot_token_account_state
    = g.hot_token_account_state ++ write_close_token_account_tombstones g.hot_token_account_state
        (candidates_of stream) := by
  have hmarked : (g.marked (candidates_of stream)).hot_token_account_state
      = g.hot_token_account_state ++ write_close_token_account_tombstones g.hot_token_account_state
        (candidates_of stream) := by
    rw [Group.marked, TombstonePass.run_eq]
    rfl
  rw [← hmarked, Group.mark_close_tombstones]
  dsimp only
  split <;> rfl

end Action

section Pass

variable {state : List TokenAccountRow} {closed_token_accounts : FMap String Slot}

end Pass

/-! ## When it repairs -/

section Repair

variable {g : Group} {stream : List StreamItem} {snapshot_slot : Slot}

end Repair

/-! ## The tables of the active group -/

section Active

variable {dec : Decoders}

theorem mem_token_account_rows {rows : List Row} {row : TokenAccountRow} :
    row ∈ token_account_rows rows ↔ .token_account row ∈ rows := by
  rw [token_account_rows, List.mem_filterMap]
  constructor
  · rintro ⟨r, hr, heq⟩
    cases r with
    | token_account r =>
        rw [← Option.some.inj heq]
        exact hr
    | _ => cases heq
  · intro h
    exact ⟨_, h, rfl⟩

/-- A row the parser writes has the rendered keys of its token account. -/
theorem lane_paired (i : ActiveImport) :
    ∀ row ∈ token_account_rows (i.lane dec).rows, row.Paired := by
  intro row hrow
  obtain ⟨v, -, hv⟩ := lane_row_of_version hrow
  obtain ⟨token_account, -, hrow⟩ := Option.map_eq_some_iff.mp hv
  rw [← hrow]
  exact ⟨pubkey_string_ne_empty _, pubkey_string_ne_empty _⟩

/-- A tombstone is written only of a row with a pair. -/
theorem tombstones_paired (state : List TokenAccountRow)
    (closed_token_accounts : FMap String Slot) :
    ∀ row ∈ write_close_token_account_tombstones state closed_token_accounts, row.Paired := by
  intro row hrow
  obtain ⟨candidate, -, hrow⟩ := mem_tombstones.mp hrow
  obtain ⟨previous, -, hmint, howner, -, hrow⟩ := close_tombstone_eq_some.mp hrow
  rw [hrow]
  exact ⟨hmint, howner⟩

/-- Paired rows stay so together. -/
theorem paired_append {state more : List TokenAccountRow} (h : ∀ row ∈ state, row.Paired)
    (hmore : ∀ row ∈ more, row.Paired) : ∀ row ∈ state ++ more, row.Paired := by
  intro row hrow
  rcases List.mem_append.mp hrow with hrow | hrow
  · exact h row hrow
  · exact hmore row hrow

/-- Part of the rows of a lane, or all of them. -/
theorem insert_all_paired {g : Group} (h : ∀ row ∈ g.hot_token_account_state, row.Paired)
    (i : ActiveImport) {rows : List Row} (hrows : ∀ row ∈ rows, row ∈ (i.lane dec).rows) :
    ∀ row ∈ (g.insert_all rows).hot_token_account_state, row.Paired := by
  rw [Group.insert_all_state]
  apply paired_append h
  intro row hrow
  apply lane_paired i
  rw [mem_token_account_rows] at hrow ⊢
  exact hrows _ hrow

/-- Whatever an interrupted import leaves is paired. -/
theorem leaves_paired {s : ActiveGroup} {i : ActiveImport} {g : Group}
    (h : ∀ row ∈ s.tables.hot_token_account_state, row.Paired) (hleaves : s.Leaves dec i g) :
    ∀ row ∈ g.hot_token_account_state, row.Paired := by
  have hempty : ∀ row ∈ Group.truncated.hot_token_account_state, row.Paired := by
    intro row hrow
    exact absurd hrow List.not_mem_nil
  have hstored := insert_all_paired h i (fun row (hrow : row ∈ (i.lane dec).rows) => hrow)
  have htombstones := tombstones_paired
    (s.tables.insert_all (i.lane dec).rows).hot_token_account_state
      (i.lane dec).closed_token_accounts
  -- an interrupted import leaves part of what a completed one writes
  cases hleaves with
  | completed =>
      rw [ActiveGroup.complete]
      cases i.kind with
      | Full => exact insert_all_paired hempty i (fun row hrow => hrow)
      | Incremental =>
          rw [Group.import_incremental_state, ← Group.insert_all_state]
          exact paired_append hstored htombstones
  | interrupted crash =>
      rw [ActiveGroup.interrupted]
      cases i.kind with
      | Full =>
          cases crash with
          | stream rows hle =>
              exact insert_all_paired hempty i fun row hrow => Multiset.mem_of_le hle hrow
          | _ => exact insert_all_paired hempty i (fun row hrow => hrow)
      | Incremental =>
          cases crash with
          | stream rows hle =>
              exact insert_all_paired h i fun row hrow => Multiset.mem_of_le hle hrow
          | metadata committed => exact hstored
          | tombstones committed =>
              exact paired_append hstored fun row hrow =>
                htombstones row (List.mem_of_mem_take hrow)
          | balances committed => exact paired_append hstored htombstones

/-- Every stored token account of the active group has its pair. -/
theorem ActiveTables.paired {g : Group} (h : ActiveTables dec g) :
    ∀ row ∈ g.hot_token_account_state, row.Paired := by
  -- on how the tables came about; every way only adds rows that have their pair
  induction h with
  | empty =>
      intro row hrow
      exact absurd hrow List.not_mem_nil
  | imported h i hleaves ih => exact leaves_paired ih hleaves
  | repaired h stream snapshot_slot ih =>
      rw [mark_state]
      exact paired_append ih (tombstones_paired _ _)
  | repair_failed h stream snapshot_slot hfails ih =>
      cases hfails with
      | tombstones committed =>
          rw [TombstonePass.run_eq]
          exact paired_append ih fun row hrow =>
            tombstones_paired _ _ row (List.mem_of_mem_take hrow)
      | balances committed =>
          rw [Group.marked, TombstonePass.run_eq]
          exact paired_append ih (tombstones_paired _ _)

end Active

/-! ## A pass that failed -/

/-- A full with a token account of the wallet, and an incremental that closes it. -/
def full_with_account : ActiveImport :=
  ⟨.Full, 1, {pubkey_string (.of_be 7)}, [.ok ⟨1, 0, 0, [holding 1 5]⟩]⟩

/-- The full is in. -/
def loaded : Group := (ActiveGroup.empty.complete .amount_only full_with_account).tables

end SnapshotEtl
