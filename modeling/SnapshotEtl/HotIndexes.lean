/-
What an import does once its stream is stored: the tombstones of closed token
accounts, and the wallet balances of the affected pairs or of the whole group.

Each is a query over a table followed by an INSERT, so each is a function from
tables to the rows it sends. The incremental balance query reads the rows of the
affected pairs only and takes the newest of them per pubkey in place of `FINAL`;
where a table names two rows of one pubkey and one slot, the later one counts,
as it does for `FINAL`.
-/
import SnapshotEtl.Worker
import Mathlib.Algebra.BigOperators.Group.Finset.Basic
import Mathlib.Algebra.BigOperators.Group.List.Basic
import Mathlib.Data.Prod.Lex

set_option autoImplicit false

namespace SnapshotEtl

open Replacing Lib

/-! ## Tombstones -/

def CLOSE_TOMBSTONE_BATCH_SIZE : ℕ := 100000

/-- The delete version of a closed account, with the pair its last row had. -/
def tombstone_row (previous : TokenAccountRow) (pubkey : String) (updated_slot : Slot) :
    TokenAccountRow where
  pubkey := pubkey
  mint := previous.mint
  owner := previous.owner
  amount := 0
  delegate := none
  delegated_amount := 0
  state := 0
  close_authority := none
  is_deleted := 1
  updated_slot := updated_slot

/-- The tombstone of one candidate: none where `FINAL` shows no row of it with a
pair, or one at least as new. -/
def close_tombstone (state : List TokenAccountRow) (pubkey : String) (candidate : Slot) :
    Option TokenAccountRow :=
  match state_final state pubkey with
  | none => none
  | some previous =>
      if previous.mint = "" || previous.owner = "" || previous.updated_slot ≥ candidate then none
      else some (tombstone_row previous pubkey candidate)

/-- The rows of one batch, over what the table holds when it is read. -/
def tombstone_batch (state : List TokenAccountRow) (closed_token_accounts : FMap String Slot)
    (pubkeys : List String) : List TokenAccountRow :=
  pubkeys.filterMap fun pubkey =>
    (closed_token_accounts.lookup pubkey).bind (close_tombstone state pubkey)

/-- `write_close_token_account_tombstones`: the candidates in pubkey order, batch
by batch, each batch read after the last one was committed. -/
def write_close_token_account_tombstones (state : List TokenAccountRow)
    (closed_token_accounts : FMap String Slot) : List TokenAccountRow :=
  ((sorted_keys closed_token_accounts).toChunks CLOSE_TOMBSTONE_BATCH_SIZE).foldl
    (fun written pubkeys =>
      written ++ tombstone_batch (state ++ written) closed_token_accounts pubkeys) []

/-- A tombstone is written exactly where FINAL shows a row that is older than the candidate.
-/
theorem close_tombstone_eq_some {state : List TokenAccountRow} {pubkey : String} {candidate : Slot}
    {row : TokenAccountRow} : close_tombstone state pubkey candidate = some row ↔
      ∃ previous, state_final state pubkey = some previous ∧ previous.mint ≠ "" ∧
        previous.owner ≠ "" ∧ previous.updated_slot < candidate ∧
        row = tombstone_row previous pubkey candidate := by
  unfold close_tombstone
  cases hprevious : state_final state pubkey with
  | none => simp
  | some previous =>
      simp only [Option.some.injEq, exists_eq_left', Bool.or_eq_true, decide_eq_true_eq,
        Option.ite_none_left_eq_some, not_or, not_le, and_assoc]
      exact ⟨fun ⟨hm, ho, hs, hrow⟩ => ⟨hm, ho, hs, hrow.symm⟩,
        fun ⟨hm, ho, hs, hrow⟩ => ⟨hm, ho, hs, hrow.symm⟩⟩

/-- It depends on the newest row alone. -/
theorem close_tombstone_congr {state state' : List TokenAccountRow} {pubkey : String}
    (h : token_account_engine.newest state pubkey = token_account_engine.newest state' pubkey) :
    close_tombstone state pubkey = close_tombstone state' pubkey := by
  funext candidate
  rw [close_tombstone, close_tombstone, state_final_congr h]

/-- The tombstones of a batch are those of its pubkeys. -/
theorem mem_tombstone_batch {state : List TokenAccountRow}
    {closed_token_accounts : FMap String Slot} {pubkeys : List String} {row : TokenAccountRow} :
    row ∈ tombstone_batch state closed_token_accounts pubkeys ↔
      row.pubkey ∈ pubkeys ∧ ∃ candidate, closed_token_accounts.lookup row.pubkey = some candidate ∧
        close_tombstone state row.pubkey candidate = some row := by
  simp only [tombstone_batch, List.mem_filterMap, Option.bind_eq_some_iff]
  constructor
  · rintro ⟨pubkey, hmem, candidate, hcandidate, hrow⟩
    obtain ⟨previous, -, -, -, -, hrow'⟩ := close_tombstone_eq_some.mp hrow
    obtain rfl : row.pubkey = pubkey := by rw [hrow']; rfl
    exact ⟨hmem, candidate, hcandidate, hrow⟩
  · rintro ⟨hmem, candidate, hcandidate, hrow⟩
    exact ⟨row.pubkey, hmem, candidate, hcandidate, hrow⟩

/-- The chunks, one after the other, are the list. -/
theorem flatten_toChunks_go {α : Type} (n : ℕ) (xs : List α) (batch : Array α)
    (batches : Array (List α)) :
    (List.toChunks.go n xs batch batches).flatten
      = batches.toList.flatten ++ batch.toList ++ xs := by
  induction xs generalizing batch batches with
  | nil => simp [List.toChunks.go]
  | cons x xs ih =>
      unfold List.toChunks.go
      split <;> simp [ih]

/-- The chunks of a list make it up. -/
theorem flatten_toChunks {α : Type} (n : ℕ) (xs : List α) : (xs.toChunks n).flatten = xs := by
  cases xs with
  | nil => rfl
  | cons x xs =>
      cases n with
      | zero => simp [List.toChunks]
      | succ n => simp [List.toChunks, flatten_toChunks_go]

/-- A batch does not see the tombstones of other pubkeys. -/
theorem tombstone_batch_append {state written : List TokenAccountRow}
    {closed_token_accounts : FMap String Slot} {pubkeys : List String}
    (h : ∀ row ∈ written, row.pubkey ∉ pubkeys) :
    tombstone_batch (state ++ written) closed_token_accounts pubkeys
      = tombstone_batch state closed_token_accounts pubkeys := by
  refine List.filterMap_congr fun pubkey hmem => ?_
  have hnewest : token_account_engine.newest (state ++ written) pubkey
      = token_account_engine.newest state pubkey :=
    newest_append_of_absent _ fun row hrow hkey => by
      obtain rfl : row.pubkey = pubkey := hkey
      exact h row hrow hmem
  rw [close_tombstone_congr hnewest]

/-- **Batches do not show.** The tombstones are those of one read of the table. -/
theorem write_close_token_account_tombstones_eq (state : List TokenAccountRow)
    (closed_token_accounts : FMap String Slot) :
    write_close_token_account_tombstones state closed_token_accounts
      = tombstone_batch state closed_token_accounts (sorted_keys closed_token_accounts) := by
  -- what is written belongs to the chunks already taken, which the rest does not repeat
  have hfold : ∀ (chunks : List (List String)) (done : List String)
      (written : List TokenAccountRow), (done ++ chunks.flatten).Nodup →
      written = tombstone_batch state closed_token_accounts done →
      chunks.foldl (fun written pubkeys =>
          written ++ tombstone_batch (state ++ written) closed_token_accounts pubkeys) written
        = tombstone_batch state closed_token_accounts (done ++ chunks.flatten) := by
    intro chunks
    induction chunks with
    | nil =>
        intro done written _ hwritten
        simp [hwritten]
    | cons chunk chunks ih =>
        intro done written hnodup hwritten
        rw [List.flatten_cons, ← List.append_assoc] at hnodup ⊢
        refine ih (done ++ chunk) _ hnodup ?_
        have hdisjoint : ∀ row ∈ written, row.pubkey ∉ chunk := by
          intro row hrow hmem
          rw [hwritten] at hrow
          have hdone := (mem_tombstone_batch.mp hrow).1
          exact (List.nodup_append.mp (List.nodup_append.mp hnodup).1).2.2 _ hdone _ hmem rfl
        dsimp only
        rw [tombstone_batch_append hdisjoint, hwritten]
        simp [tombstone_batch]
  have hflatten : ((sorted_keys closed_token_accounts).toChunks
      CLOSE_TOMBSTONE_BATCH_SIZE).flatten = sorted_keys closed_token_accounts :=
    flatten_toChunks ..
  have hall := hfold ((sorted_keys closed_token_accounts).toChunks
    CLOSE_TOMBSTONE_BATCH_SIZE) [] [] (by rw [List.nil_append, hflatten]; exact sorted_keys_nodup _)
    rfl
  rw [List.nil_append, hflatten] at hall
  exact hall

/-- A tombstone is written for every candidate that `FINAL` shows an older row of. -/
theorem mem_tombstones {state : List TokenAccountRow} {closed_token_accounts : FMap String Slot}
    {row : TokenAccountRow} :
    row ∈ write_close_token_account_tombstones state closed_token_accounts ↔
      ∃ candidate, closed_token_accounts.lookup row.pubkey = some candidate ∧
        close_tombstone state row.pubkey candidate = some row := by
  rw [write_close_token_account_tombstones_eq, mem_tombstone_batch]
  refine and_iff_right_of_imp fun ⟨candidate, hcandidate, _⟩ => ?_
  rw [mem_sorted_keys]
  exact Finmap.mem_of_lookup_eq_some hcandidate

/-- A tombstone is newer than anything stored of its pubkey. -/
theorem tombstone_newer {state : List TokenAccountRow} {closed_token_accounts : FMap String Slot}
    {row : TokenAccountRow} (h : row ∈ write_close_token_account_tombstones state
      closed_token_accounts) :
    ∀ other ∈ state, other.pubkey = row.pubkey → other.updated_slot < row.updated_slot := by
  intro other hother hkey
  obtain ⟨candidate, -, hrow⟩ := mem_tombstones.mp h
  obtain ⟨previous, hprevious, -, -, hlt, hrow⟩ := close_tombstone_eq_some.mp hrow
  have hle := (state_final_spec hprevious).2.2.le other hother hkey
  rw [hrow]
  exact lt_of_le_of_lt hle hlt

/-- A pass writes at most one tombstone for a pubkey. -/
theorem tombstone_unique {state : List TokenAccountRow}
    {closed_token_accounts : FMap String Slot} {row row' : TokenAccountRow}
    (h : row ∈ write_close_token_account_tombstones state closed_token_accounts)
    (h' : row' ∈ write_close_token_account_tombstones state closed_token_accounts)
    (hkey : row.pubkey = row'.pubkey) : row = row' := by
  obtain ⟨candidate, hcandidate, hrow⟩ := mem_tombstones.mp h
  obtain ⟨candidate', hcandidate', hrow'⟩ := mem_tombstones.mp h'
  rw [hkey] at hcandidate hrow
  obtain rfl : candidate = candidate' := Option.some.inj (hcandidate.symm.trans hcandidate')
  exact Option.some.inj (hrow.symm.trans hrow')

/-- What a pass writes are tombstones. -/
theorem tombstone_is_deleted {state : List TokenAccountRow}
    {closed_token_accounts : FMap String Slot} {row : TokenAccountRow}
    (h : row ∈ write_close_token_account_tombstones state closed_token_accounts) :
    row.is_deleted = 1 := by
  obtain ⟨candidate, -, hrow⟩ := mem_tombstones.mp h
  obtain ⟨previous, -, -, -, -, hrow⟩ := close_tombstone_eq_some.mp hrow
  rw [hrow]
  rfl

theorem tombstones_nodup (state : List TokenAccountRow)
    (closed_token_accounts : FMap String Slot) :
    (write_close_token_account_tombstones state closed_token_accounts).Nodup := by
  rw [write_close_token_account_tombstones_eq]
  refine (sorted_keys_nodup _).filterMap ?_
  intro pubkey pubkey' row hrow hrow'
  rw [Option.mem_def, Option.bind_eq_some_iff] at hrow hrow'
  obtain ⟨candidate, -, hrow⟩ := hrow
  obtain ⟨candidate', -, hrow'⟩ := hrow'
  obtain ⟨_, -, -, -, -, hrow⟩ := close_tombstone_eq_some.mp hrow
  obtain ⟨_, -, -, -, -, hrow'⟩ := close_tombstone_eq_some.mp hrow'
  exact congrArg TokenAccountRow.pubkey (hrow.symm.trans hrow')

/-- `TombstoneWriteResult::affected_pairs`. -/
def tombstone_pairs (tombstones : List TokenAccountRow) : Finset TokenPair :=
  (tombstones.map TokenAccountRow.pair).toFinset

/-! ## Wallet balances -/

/-- `sum` over `UInt64` values wraps. -/
def u64_modulus : ℕ := 2 ^ 64

/-- A row a balance counts. -/
def TokenAccountRow.counts (row : TokenAccountRow) : Bool := row.is_deleted = 0 && row.state ≠ 0

/-- What a pubkey's row adds to the balance of a pair. -/
def amount_in (row : Option TokenAccountRow) (pair : TokenPair) : ℕ :=
  match row with
  | some row => if row.counts && row.pair = pair then row.amount else 0
  | none => 0

/-- The pubkeys of a table. -/
def pubkeys (state : List TokenAccountRow) : Finset String :=
  (state.map TokenAccountRow.pubkey).toFinset

/-- `argMax` over the rows of some pairs, per pubkey. -/
def latest_in (state : List TokenAccountRow) (pairs : Finset TokenPair) (pubkey : String) :
    Option TokenAccountRow :=
  token_account_engine.newest (state.filter fun row => row.pair ∈ pairs) pubkey

/-- `incremental_wallet_balance_aggregate_sql`, for one of the pairs; a pair the
query returns no row of reads 0. -/
def incremental_wallet_balance_aggregate (state : List TokenAccountRow)
    (pairs : Finset TokenPair) (pair : TokenPair) : ℕ :=
  (∑ pubkey ∈ pubkeys state, amount_in (latest_in state pairs pubkey) pair) % u64_modulus

/-- The order `sort_unstable` puts pairs in. -/
def pair_le (a b : TokenPair) : Prop := toLex a ≤ toLex b

instance : DecidableRel pair_le := fun a b => inferInstanceAs (Decidable (toLex a ≤ toLex b))

instance : Std.Total pair_le := ⟨fun a b => le_total (toLex a) (toLex b)⟩

instance : IsTrans TokenPair pair_le := ⟨fun _ b _ h h' => le_trans (b := toLex b) h h'⟩

instance : Std.Antisymm pair_le := ⟨fun _ _ h h' => toLex_inj.mp (le_antisymm h h')⟩

/-- The rows `refresh_wallet_balance_incremental` sends. -/
def refresh_wallet_balance_incremental (state : List TokenAccountRow)
    (affected_pairs : Finset TokenPair) (snapshot_slot : Slot) : List WalletBalanceRow :=
  (affected_pairs.sort pair_le).map fun pair =>
    { mint := pair.1
      owner := pair.2
      amount_raw := incremental_wallet_balance_aggregate state affected_pairs pair
      updated_slot := snapshot_slot }

/-- The rows `FINAL` shows of a table. -/
def final_rows (state : List TokenAccountRow) : List TokenAccountRow :=
  (state.map TokenAccountRow.pubkey).dedup.filterMap (state_final state)

/-- `sum(amount)` of a pair in the full query. -/
def wallet_balance (rows : List TokenAccountRow) (pair : TokenPair) : ℕ :=
  ((rows.filter fun row => row.counts && row.pair = pair).map TokenAccountRow.amount).sum
    % u64_modulus

/-- The rows of the full query over a source: one per pair with a positive sum. -/
def wallet_balance_rows (source : List TokenAccountRow) : List WalletBalanceRow :=
  let counted := source.filter TokenAccountRow.counts
  (counted.map TokenAccountRow.pair).dedup.filterMap fun pair =>
    let amount_raw := wallet_balance source pair
    if amount_raw > 0 then
      some
        { mint := pair.1
          owner := pair.2
          amount_raw := amount_raw
          updated_slot :=
            ((counted.filter fun row => row.pair = pair).map TokenAccountRow.updated_slot).foldl
              max 0 }
    else none

/-- `rebuild_wallet_balance_table`, with the source `refresh_hot_indexes` gives it. -/
def rebuild_wallet_balance_table (state : List TokenAccountRow) (state_is_full_baseline : Bool) :
    List WalletBalanceRow :=
  wallet_balance_rows (if state_is_full_baseline then state else final_rows state)

/-! ## What the queries see -/

theorem mem_pubkeys {state : List TokenAccountRow} {pubkey : String} :
    pubkey ∈ pubkeys state ↔ ∃ row ∈ state, row.pubkey = pubkey := by
  simp [pubkeys]

/-- The newest row among those of some pairs. -/
theorem latest_in_spec {state : List TokenAccountRow} {pairs : Finset TokenPair}
    {pubkey : String} {row : TokenAccountRow} (h : latest_in state pairs pubkey = some row) :
    row ∈ state ∧ row.pubkey = pubkey ∧ row.pair ∈ pairs ∧ ∀ other ∈ state,
      other.pubkey = pubkey → other.pair ∈ pairs → other.updated_slot ≤ row.updated_slot := by
  have hnewest := newest_spec token_account_engine h
  obtain ⟨hmem, hpair⟩ := List.mem_filter.mp hnewest.mem
  refine ⟨hmem, hnewest.key_eq, by simpa using hpair, fun other hother hkey hin => ?_⟩
  exact hnewest.le other (List.mem_filter.mpr ⟨hother, by simpa using hin⟩) hkey

/-- An account has no latest row in the pairs exactly where it has no row there. -/
theorem latest_in_eq_none {state : List TokenAccountRow} {pairs : Finset TokenPair}
    {pubkey : String} : latest_in state pairs pubkey = none ↔
      ∀ row ∈ state, row.pair ∈ pairs → row.pubkey ≠ pubkey := by
  rw [latest_in, newest_eq_none]
  simp only [List.mem_filter, decide_eq_true_eq, and_imp]
  rfl

/-- Appended balance rows of one slot show, unless a newer row is stored. -/
theorem balance_final_append {balance more : List WalletBalanceRow} {pair : TokenPair}
    {amount_raw : ℕ} {updated_slot : Slot} (hmem : ∃ row ∈ more, row.pair = pair)
    (hmore : ∀ row ∈ more, row.pair = pair →
      row.amount_raw = amount_raw ∧ row.updated_slot = updated_slot)
    (h : ∀ row ∈ balance, row.pair = pair → row.updated_slot ≤ updated_slot) :
    balance_final (balance ++ more) pair = amount_raw := by
  obtain ⟨row, hrow, rfl⟩ := hmem
  obtain ⟨shown, hshown⟩ := exists_newest wallet_balance_engine hrow
  have hnewest := newest_spec wallet_balance_engine hshown
  obtain ⟨hamount, hslot⟩ := hmore shown hnewest.mem hnewest.key_eq
  have happend : wallet_balance_engine.newest (balance ++ more) row.pair = some shown :=
    newest_append_of_newer wallet_balance_engine hshown
      fun s hs hkey => (h s hs hkey).trans hslot.ge
  rw [balance_final, happend, ← hamount]
  rfl

/-- Where a newer row is stored they do not. -/
theorem balance_final_append_of_older {balance more : List WalletBalanceRow} {pair : TokenPair}
    {row : WalletBalanceRow} (hrow : row ∈ balance) (hpair : row.pair = pair)
    (h : ∀ other ∈ more, other.pair = pair → other.updated_slot < row.updated_slot) :
    balance_final (balance ++ more) pair = balance_final balance pair := by
  subst hpair
  obtain ⟨shown, hshown⟩ := exists_newest wallet_balance_engine hrow
  have hle := (newest_spec wallet_balance_engine hshown).le row hrow rfl
  have happend : wallet_balance_engine.newest (balance ++ more) row.pair = some shown :=
    newest_append_of_older wallet_balance_engine hshown
      fun other hother hkey => lt_of_lt_of_le (h other hother hkey) hle
  change wallet_balance_engine.newest _ row.pair = _ at hshown
  rw [balance_final, balance_final, happend, hshown]

/-- What a refresh sends of a pair. -/
theorem mem_refresh_wallet_balance {state : List TokenAccountRow} {pairs : Finset TokenPair}
    {snapshot_slot : Slot} {row : WalletBalanceRow} :
    row ∈ refresh_wallet_balance_incremental state pairs snapshot_slot ↔ row.pair ∈ pairs ∧
      row.amount_raw = incremental_wallet_balance_aggregate state pairs row.pair ∧
      row.updated_slot = snapshot_slot := by
  simp only [refresh_wallet_balance_incremental, List.mem_map, Finset.mem_sort]
  constructor
  · rintro ⟨pair, hpair, rfl⟩
    exact ⟨hpair, rfl, rfl⟩
  · rintro ⟨hpair, hamount, hslot⟩
    refine ⟨row.pair, hpair, ?_⟩
    rw [← hamount, ← hslot]
    rfl

/-- A table shows the balance the incremental refresh last wrote, unless a newer
row is stored. -/
theorem balance_final_refresh {balance : List WalletBalanceRow} {state : List TokenAccountRow}
    {pairs : Finset TokenPair} {snapshot_slot : Slot} {pair : TokenPair} (hpair : pair ∈ pairs)
    (h : ∀ row ∈ balance, row.pair = pair → row.updated_slot ≤ snapshot_slot) :
    balance_final (balance ++ refresh_wallet_balance_incremental state pairs snapshot_slot) pair
      = incremental_wallet_balance_aggregate state pairs pair := by
  have hsent : ∃ row ∈ refresh_wallet_balance_incremental state pairs snapshot_slot,
      row.pair = pair :=
    ⟨⟨pair.1, pair.2, incremental_wallet_balance_aggregate state pairs pair, snapshot_slot⟩,
      mem_refresh_wallet_balance.mpr ⟨hpair, rfl, rfl⟩, rfl⟩
  refine balance_final_append hsent (fun row hrow hkey => ?_) h
  obtain ⟨-, hamount, hslot⟩ := mem_refresh_wallet_balance.mp hrow
  exact ⟨hkey ▸ hamount, hslot⟩

/-- A pair that is not refreshed keeps its balance. -/
theorem balance_final_refresh_of_notMem {balance : List WalletBalanceRow}
    {state : List TokenAccountRow} {pairs : Finset TokenPair} {snapshot_slot : Slot}
    {pair : TokenPair} (hpair : pair ∉ pairs) :
    balance_final (balance ++ refresh_wallet_balance_incremental state pairs snapshot_slot) pair
      = balance_final balance pair := by
  rw [balance_final, balance_final, newest_append_of_absent]
  intro row hrow hkey
  exact hpair (hkey ▸ (mem_refresh_wallet_balance.mp hrow).1)

/-- The full query over what `FINAL` shows sums one row per pubkey. -/
theorem wallet_balance_final_rows (state : List TokenAccountRow) (pair : TokenPair) :
    wallet_balance (final_rows state) pair
      = (∑ pubkey ∈ pubkeys state, amount_in (state_final state pubkey) pair) % u64_modulus := by
  have hdedup : pubkeys state = (state.map TokenAccountRow.pubkey).dedup.toFinset := by
    ext pubkey
    simp [pubkeys]
  rw [hdedup, List.sum_toFinset _ (List.nodup_dedup _), wallet_balance, final_rows]
  congr 1
  induction (state.map TokenAccountRow.pubkey).dedup with
  | nil => rfl
  | cons pubkey keys ih =>
      rw [List.map_cons, List.sum_cons, ← ih]
      cases hrow : state_final state pubkey with
      | none => simp [hrow, amount_in]
      | some row =>
          by_cases hcount : (row.counts && decide (row.pair = pair)) = true
          · simp [hrow, amount_in, hcount]
          · simp [hrow, amount_in, hcount]

end SnapshotEtl
