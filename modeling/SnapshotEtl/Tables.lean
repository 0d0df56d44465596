/-
A physical table group: the tables an import writes and what `FINAL` shows of
them.

Every table is the list of its rows in insertion order. Background merges drop
superseded rows from it. An incremental reads with `FINAL`, and sees nothing of
that, but for the refresh of the wallet balances: it takes the rows of some pairs of
`hot_token_account_state` as they are stored. So does a full build all rows, of which
a canonical archive leaves one to a pubkey. `Merges` runs the imports with merges in
between; elsewhere a table has every row ever inserted.
-/
import SnapshotEtl.Rows
import SnapshotEtl.Lib.Replacing

set_option autoImplicit false

namespace SnapshotEtl

open Replacing

/-! ## The engines -/

/-- `hot_token_account_state`: `ReplacingMergeTree(updated_slot, is_deleted)`
ordered by pubkey. -/
def token_account_engine : Engine TokenAccountRow String Slot where
  key row := row.pubkey
  version row := row.updated_slot

/-- `raw_token_metadata`: `ReplacingMergeTree(updated_slot)` ordered by mint. -/
def token_metadata_engine : Engine TokenMetadataRow String Slot where
  key row := row.mint
  version row := row.updated_slot

/-- `hot_wallet_token_balance`: `ReplacingMergeTree(updated_slot)` ordered by
`(mint, owner)`. -/
def wallet_balance_engine : Engine WalletBalanceRow TokenPair Slot where
  key row := row.pair
  version row := row.updated_slot

/-! ## The group -/

structure Group where
  raw_account : List AccountRow
  hot_token_account_state : List TokenAccountRow
  raw_token_mint : List TokenMintRow
  raw_token_metadata : List TokenMetadataRow
  hot_wallet_token_balance : List WalletBalanceRow
deriving DecidableEq

/-- A freshly truncated group. -/
def Group.truncated : Group := ⟨[], [], [], [], []⟩

/-- One committed row of a sink. -/
def Group.insert (g : Group) : Row → Group
  | .account row => { g with raw_account := g.raw_account ++ [row] }
  | .token_account row =>
      { g with hot_token_account_state := g.hot_token_account_state ++ [row] }
  | .token_mint row => { g with raw_token_mint := g.raw_token_mint ++ [row] }
  | .token_metadata row => { g with raw_token_metadata := g.raw_token_metadata ++ [row] }

/-! ## What FINAL shows -/

/-- The `FINAL` row of a token account; a deleted one is hidden. -/
def state_final (state : List TokenAccountRow) (pubkey : String) : Option TokenAccountRow :=
  (token_account_engine.newest state pubkey).filter fun row => row.is_deleted = 0

/-- The `FINAL` metadata row of a mint. -/
def metadata_final (metadata : List TokenMetadataRow) (mint : String) :
    Option TokenMetadataRow :=
  token_metadata_engine.newest metadata mint

/-- The `FINAL` balance of a pair, an absent one read as 0. -/
def balance_final (balance : List WalletBalanceRow) (pair : TokenPair) : ℕ :=
  ((wallet_balance_engine.newest balance pair).map fun row => row.amount_raw).getD 0

/-- A live `FINAL` row is a stored live row of its key that nothing supersedes. -/
theorem state_final_spec {state : List TokenAccountRow} {pubkey : String}
    {row : TokenAccountRow} (h : state_final state pubkey = some row) :
    token_account_engine.newest state pubkey = some row ∧ row.is_deleted = 0 ∧
      token_account_engine.IsNewest state pubkey row := by
  rw [state_final, Option.filter_eq_some_iff] at h
  exact ⟨h.1, by simpa using h.2, newest_spec _ h.1⟩

theorem state_final_congr {state state' : List TokenAccountRow} {pubkey : String}
    (h : token_account_engine.newest state pubkey = token_account_engine.newest state' pubkey) :
    state_final state pubkey = state_final state' pubkey := by
  rw [state_final, state_final, h]

end SnapshotEtl
