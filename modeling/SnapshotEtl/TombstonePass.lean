/-
One pass of tombstones, over any history of the token accounts and any candidates.

The pass goes through the candidates in pubkey order, a batch at a time, and each batch
reads the table with what the earlier ones committed. Its candidates are of other pubkeys,
so what it reads of them is what was there before the pass: the rows removed are those of
one look at the table, and the pass returns their pairs and their number.
-/
import SnapshotEtl.HotIndexes

set_option autoImplicit false

namespace SnapshotEtl

open Lib Replacing

/-! ## The pass -/

structure TombstoneWriteResult where
  marked_deleted : ℕ
  affected_pairs : Finset TokenPair
deriving DecidableEq

/-- The pass under way: the rows sent, and what it returns. -/
structure TombstonePass where
  written : List TokenAccountRow
  result : TombstoneWriteResult
deriving DecidableEq

namespace TombstonePass

def start : TombstonePass := ⟨[], ⟨0, ∅⟩⟩

/-- One candidate, over the table its batch has read. -/
def candidate (read : List TokenAccountRow) (closed_token_accounts : FMap String Slot)
    (pass : TombstonePass) (pubkey : String) : TombstonePass :=
  -- no live row, a row without its pair, or a row that is not older: nothing to close
  match (closed_token_accounts.lookup pubkey).bind (close_tombstone read pubkey) with
  | none => pass
  | some row =>
      { written := pass.written ++ [row]
        result :=
          { marked_deleted := pass.result.marked_deleted + 1
            affected_pairs := insert row.pair pass.result.affected_pairs } }

/-- One batch: the previous rows of all its pubkeys are read before the first is closed. -/
def batch (state : List TokenAccountRow) (closed_token_accounts : FMap String Slot)
    (pass : TombstonePass) (pubkeys : List String) : TombstonePass :=
  pubkeys.foldl (candidate (state ++ pass.written) closed_token_accounts) pass

/-- `write_close_token_account_tombstones`, with what it returns. -/
def run (state : List TokenAccountRow) (closed_token_accounts : FMap String Slot) :
    TombstonePass :=
  ((sorted_keys closed_token_accounts).toChunks CLOSE_TOMBSTONE_BATCH_SIZE).foldl
    (batch state closed_token_accounts) start

/-- The counts of a pass are those of its rows. -/
def of_written (written : List TokenAccountRow) : TombstonePass :=
  ⟨written, ⟨written.length, tombstone_pairs written⟩⟩

/-- One candidate adds its tombstone, if it has one, to those written so far. -/
theorem candidate_of_written (read : List TokenAccountRow)
    (closed_token_accounts : FMap String Slot) (written : List TokenAccountRow) (pubkey : String) :
    candidate read closed_token_accounts (of_written written) pubkey
      = of_written (written ++ tombstone_batch read closed_token_accounts [pubkey]) := by
  rw [candidate]
  cases hrow : (closed_token_accounts.lookup pubkey).bind (close_tombstone read pubkey) with
  | none => simp [tombstone_batch, hrow]
  | some row =>
      have hpairs : insert row.pair (tombstone_pairs written)
          = tombstone_pairs (written ++ [row]) := by
        ext pair
        simp [tombstone_pairs]
      simp [tombstone_batch, hrow, of_written, hpairs]

/-- A batch adds its tombstones to those written so far. -/
theorem batch_of_written (state : List TokenAccountRow)
    (closed_token_accounts : FMap String Slot) (written : List TokenAccountRow)
    (pubkeys : List String) :
    batch state closed_token_accounts (of_written written) pubkeys
      = of_written
          (written ++ tombstone_batch (state ++ written) closed_token_accounts pubkeys) := by
  -- the table read stays the same while the batch writes
  have hfold : ∀ read (more : List TokenAccountRow),
      pubkeys.foldl (candidate read closed_token_accounts) (of_written more)
        = of_written (more ++ tombstone_batch read closed_token_accounts pubkeys) := by
    intro read
    induction pubkeys with
    | nil =>
        intro more
        simp [tombstone_batch]
    | cons pubkey pubkeys ih =>
        intro more
        rw [List.foldl_cons, candidate_of_written, ih, List.append_assoc]
        congr 2
        rw [tombstone_batch, tombstone_batch, tombstone_batch, ← List.filterMap_append,
          List.singleton_append]
  exact hfold (state ++ written) written

/-- The pass sends the tombstones, and returns their number and their pairs. -/
theorem run_eq (state : List TokenAccountRow) (closed_token_accounts : FMap String Slot) :
    run state closed_token_accounts
      = of_written (write_close_token_account_tombstones state closed_token_accounts) := by
  -- on the batches: each of them starts from a pass that only counts what it sent
  have hfold : ∀ (chunks : List (List String)) (written : List TokenAccountRow),
      chunks.foldl (batch state closed_token_accounts) (of_written written)
        = of_written (chunks.foldl (fun written pubkeys => written ++
            tombstone_batch (state ++ written) closed_token_accounts pubkeys) written) := by
    intro chunks
    induction chunks with
    | nil =>
        intro written
        rfl
    | cons chunk chunks ih =>
        intro written
        rw [List.foldl_cons, batch_of_written, ih, List.foldl_cons]
  rw [write_close_token_account_tombstones, ← hfold]
  rfl

end TombstonePass

/-! ## What it removes -/

/-- A candidate closes the rows older than itself. -/
def closes (closed_token_accounts : FMap String Slot) (row : TokenAccountRow) : Bool :=
  (closed_token_accounts.lookup row.pubkey).any fun candidate => row.updated_slot < candidate

/-- The live rows a pass removes. -/
def removed (state : List TokenAccountRow) (closed_token_accounts : FMap String Slot) :
    List TokenAccountRow :=
  (final_rows state).filter (closes closed_token_accounts)

/-- A row with the pair every stored row has. -/
def TokenAccountRow.Paired (row : TokenAccountRow) : Prop := row.mint ≠ "" ∧ row.owner ≠ ""

/-- The rows of FINAL are the shown rows. -/
theorem mem_final_rows {state : List TokenAccountRow} {row : TokenAccountRow} :
    row ∈ final_rows state ↔ state_final state row.pubkey = some row := by
  rw [final_rows, List.mem_filterMap]
  constructor
  · intro h
    obtain ⟨pubkey, -, hrow⟩ := h
    have hkey : row.pubkey = pubkey := (state_final_spec hrow).2.2.key_eq
    rw [hkey]
    exact hrow
  · intro h
    refine ⟨row.pubkey, ?_, h⟩
    rw [List.mem_dedup]
    exact List.mem_map_of_mem (state_final_spec h).2.2.mem

/-- `FINAL` shows one row of a pubkey. -/
theorem final_rows_nodup (state : List TokenAccountRow) : (final_rows state).Nodup := by
  refine (List.nodup_dedup _).filterMap ?_
  intro pubkey pubkey' row hrow hrow'
  have hkey : row.pubkey = pubkey := (state_final_spec hrow).2.2.key_eq
  have hkey' : row.pubkey = pubkey' := (state_final_spec hrow').2.2.key_eq
  rw [← hkey, hkey']

section Pass

variable {state : List TokenAccountRow} {closed_token_accounts : FMap String Slot}

/-- A row is closed when its candidate is later. -/
theorem closes_iff {row : TokenAccountRow} : closes closed_token_accounts row = true ↔
    ∃ candidate, closed_token_accounts.lookup row.pubkey = some candidate ∧
      row.updated_slot < candidate := by
  rw [closes, Option.any_eq_true]
  simp only [decide_eq_true_eq]

/-- Every tombstone is of a row removed, and has its pair. -/
theorem removed_of_tombstone {row : TokenAccountRow}
    (h : row ∈ write_close_token_account_tombstones state closed_token_accounts) :
    ∃ previous ∈ removed state closed_token_accounts,
      previous.pubkey = row.pubkey ∧ previous.pair = row.pair := by
  obtain ⟨candidate, hcandidate, hrow⟩ := mem_tombstones.mp h
  obtain ⟨previous, hprevious, -, -, hlt, hrow⟩ := close_tombstone_eq_some.mp hrow
  have hkey : previous.pubkey = row.pubkey := (state_final_spec hprevious).2.2.key_eq
  refine ⟨previous, ?_, hkey, ?_⟩
  · rw [← hkey] at hprevious hcandidate
    exact List.mem_filter.mpr ⟨mem_final_rows.mpr hprevious,
      closes_iff.mpr ⟨candidate, hcandidate, hlt⟩⟩
  · rw [hrow]
    rfl

/-- Every row removed has its tombstone. -/
theorem tombstone_of_removed (hpaired : ∀ row ∈ state, row.Paired) {previous : TokenAccountRow}
    (h : previous ∈ removed state closed_token_accounts) :
    ∃ row ∈ write_close_token_account_tombstones state closed_token_accounts,
      row.pubkey = previous.pubkey ∧ row.pair = previous.pair := by
  obtain ⟨hfinal, hcloses⟩ := List.mem_filter.mp h
  rw [mem_final_rows] at hfinal
  obtain ⟨candidate, hcandidate, hlt⟩ := closes_iff.mp hcloses
  obtain ⟨hmint, howner⟩ := hpaired previous (state_final_spec hfinal).2.2.mem
  refine ⟨tombstone_row previous previous.pubkey candidate, ?_, rfl, rfl⟩
  rw [mem_tombstones]
  refine ⟨candidate, hcandidate, ?_⟩
  rw [close_tombstone_eq_some]
  exact ⟨previous, hfinal, hmint, howner, hlt, rfl⟩

/-- The tombstone of a pubkey is what `FINAL` meets last. -/
theorem newest_tombstoned {row : TokenAccountRow}
    (h : row ∈ write_close_token_account_tombstones state closed_token_accounts) :
    token_account_engine.newest
      (state ++ write_close_token_account_tombstones state closed_token_accounts) row.pubkey
        = some row := by
  refine newest_of_lt token_account_engine (List.mem_append_right _ h) rfl ?_
  intro other hother hkey
  rcases List.mem_append.mp hother with hstored | hwritten
  · right
    exact tombstone_newer h other hstored hkey
  · left
    exact tombstone_unique hwritten h hkey

/-- A pubkey none of whose rows are removed keeps its `FINAL` row, deleted or not. -/
theorem newest_kept {pubkey : String}
    (h : ∀ row ∈ removed state closed_token_accounts, row.pubkey ≠ pubkey) :
    token_account_engine.newest
      (state ++ write_close_token_account_tombstones state closed_token_accounts) pubkey
        = token_account_engine.newest state pubkey := by
  refine newest_append_of_absent token_account_engine ?_
  intro row hrow hkey
  obtain ⟨previous, hprevious, hsame, -⟩ := removed_of_tombstone hrow
  exact h previous hprevious (hsame.trans hkey)

/-- The live rows after the pass. -/
theorem mem_final_rows_after (hpaired : ∀ row ∈ state, row.Paired) {row : TokenAccountRow} :
    row ∈ final_rows (state ++ write_close_token_account_tombstones state closed_token_accounts) ↔
      row ∈ final_rows state ∧ row ∉ removed state closed_token_accounts := by
  rw [mem_final_rows, mem_final_rows]
  by_cases hclosed : ∃ previous ∈ removed state closed_token_accounts, previous.pubkey = row.pubkey
  · -- the pubkey shows its tombstone now
    obtain ⟨previous, hprevious, hkey⟩ := hclosed
    obtain ⟨tombstone, htombstone, hsame, -⟩ := tombstone_of_removed hpaired hprevious
    have hnewest := newest_tombstoned htombstone
    rw [hsame, hkey] at hnewest
    have hdeleted := tombstone_is_deleted htombstone
    constructor
    · intro hrow
      obtain ⟨hnow, hlive, -⟩ := state_final_spec hrow
      rw [hnewest, Option.some.injEq] at hnow
      rw [← hnow, hdeleted] at hlive
      exact absurd hlive (by decide)
    · intro h
      obtain ⟨hfinal, hkept⟩ := h
      have hsaid := mem_final_rows.mp (List.mem_filter.mp hprevious).1
      rw [hkey, hfinal, Option.some.injEq] at hsaid
      rw [hsaid] at hkept
      exact absurd hprevious hkept
  -- no row of the pubkey was removed, so FINAL shows what it did
  · have hkept : ∀ previous ∈ removed state closed_token_accounts, previous.pubkey ≠ row.pubkey :=
      fun previous hprevious hkey => hclosed ⟨previous, hprevious, hkey⟩
    rw [state_final_congr (newest_kept hkept)]
    constructor
    · intro hrow
      exact ⟨hrow, fun hremoved => hkept row hremoved rfl⟩
    · intro h
      exact h.1

/-- After the pass FINAL shows the rows that no candidate closes. -/
theorem final_rows_after (hpaired : ∀ row ∈ state, row.Paired) :
    (final_rows (state ++ write_close_token_account_tombstones state closed_token_accounts)).Perm
      ((final_rows state).filter fun row => !closes closed_token_accounts row) := by
  -- both sides have one row of a pubkey, so they only need the same rows
  rw [List.perm_ext_iff_of_nodup (final_rows_nodup _) ((final_rows_nodup state).filter _)]
  intro row
  rw [mem_final_rows_after hpaired, removed]
  simp only [List.mem_filter, not_and, Bool.not_eq_true, Bool.not_eq_eq_eq_not, Bool.not_true]
  constructor
  · intro h
    exact ⟨h.1, h.2 h.1⟩
  · intro h
    exact ⟨h.1, fun _ => h.2⟩

/-- The pass writes one tombstone to a pubkey at most. -/
theorem tombstone_pubkeys_nodup (state : List TokenAccountRow)
    (closed_token_accounts : FMap String Slot) :
    ((write_close_token_account_tombstones state closed_token_accounts).map
      TokenAccountRow.pubkey).Nodup := by
  refine List.Nodup.map_on ?_ (tombstones_nodup state closed_token_accounts)
  intro row hrow row' hrow' hkey
  exact tombstone_unique hrow hrow' hkey

/-- No pubkey is removed twice. -/
theorem removed_pubkeys_nodup (state : List TokenAccountRow)
    (closed_token_accounts : FMap String Slot) :
    ((removed state closed_token_accounts).map TokenAccountRow.pubkey).Nodup := by
  refine List.Nodup.map_on ?_ ((final_rows_nodup state).filter _)
  intro row hrow row' hrow' hkey
  have hfinal := mem_final_rows.mp (List.mem_filter.mp hrow).1
  have hfinal' := mem_final_rows.mp (List.mem_filter.mp hrow').1
  rw [hkey, hfinal', Option.some.injEq] at hfinal
  exact hfinal.symm

/-- One tombstone for each row removed. -/
theorem tombstones_length (hpaired : ∀ row ∈ state, row.Paired) :
    (write_close_token_account_tombstones state closed_token_accounts).length
      = (removed state closed_token_accounts).length := by
  -- a tombstone and the row it closes share the pubkey, which no other of them has
  have hperm : ((write_close_token_account_tombstones state closed_token_accounts).map
      TokenAccountRow.pubkey).Perm
        ((removed state closed_token_accounts).map TokenAccountRow.pubkey) := by
    rw [List.perm_ext_iff_of_nodup (tombstone_pubkeys_nodup _ _) (removed_pubkeys_nodup _ _)]
    intro pubkey
    constructor
    · intro h
      obtain ⟨row, hrow, hkey⟩ := List.mem_map.mp h
      obtain ⟨previous, hprevious, hsame, -⟩ := removed_of_tombstone hrow
      exact List.mem_map.mpr ⟨previous, hprevious, hsame.trans hkey⟩
    · intro h
      obtain ⟨previous, hprevious, hkey⟩ := List.mem_map.mp h
      obtain ⟨row, hrow, hsame, -⟩ := tombstone_of_removed hpaired hprevious
      exact List.mem_map.mpr ⟨row, hrow, hsame.trans hkey⟩
  have hlength := hperm.length_eq
  rw [List.length_map, List.length_map] at hlength
  exact hlength

/-- The pairs of the tombstones are those of the rows removed. -/
theorem tombstone_pairs_eq (hpaired : ∀ row ∈ state, row.Paired) :
    tombstone_pairs (write_close_token_account_tombstones state closed_token_accounts)
      = ((removed state closed_token_accounts).map TokenAccountRow.pair).toFinset := by
  ext pair
  rw [tombstone_pairs, List.mem_toFinset, List.mem_toFinset]
  constructor
  · intro h
    obtain ⟨row, hrow, hpair⟩ := List.mem_map.mp h
    obtain ⟨previous, hprevious, -, hsame⟩ := removed_of_tombstone hrow
    exact List.mem_map.mpr ⟨previous, hprevious, hsame.trans hpair⟩
  · intro h
    obtain ⟨previous, hprevious, hpair⟩ := List.mem_map.mp h
    obtain ⟨row, hrow, -, hsame⟩ := tombstone_of_removed hpaired hprevious
    exact List.mem_map.mpr ⟨row, hrow, hsame.trans hpair⟩

end Pass

/-- What a pass does to a table, and what it returns. -/
structure TombstonePass.Exact (state : List TokenAccountRow)
    (closed_token_accounts : FMap String Slot) (pass : TombstonePass) : Prop where
  live : (final_rows (state ++ pass.written)).Perm
    ((final_rows state).filter fun row => !closes closed_token_accounts row)
  unchanged : ∀ pubkey, (∀ row ∈ removed state closed_token_accounts, row.pubkey ≠ pubkey) →
    token_account_engine.newest (state ++ pass.written) pubkey
      = token_account_engine.newest state pubkey
  added : ∀ row ∈ pass.written, row.is_deleted = 1 ∧
    ∃ previous ∈ removed state closed_token_accounts,
      previous.pubkey = row.pubkey ∧ previous.pair = row.pair
  not_added : ∀ row ∈ pass.written, state_final state row.pubkey ≠ none
  affected_pairs : pass.result.affected_pairs
    = ((removed state closed_token_accounts).map TokenAccountRow.pair).toFinset
  marked_deleted : pass.result.marked_deleted = (removed state closed_token_accounts).length

/-- **The tombstone pass.** It removes from what is live exactly the rows older than the
candidate of their pubkey, changes no other `FINAL` row, adds a row only for a row it
removes and with its pair, and returns the pairs and the number of those. -/
theorem tombstone_pass_exact (state : List TokenAccountRow)
    (closed_token_accounts : FMap String Slot) (hpaired : ∀ row ∈ state, row.Paired) :
    (TombstonePass.run state closed_token_accounts).Exact state closed_token_accounts := by
  rw [TombstonePass.run_eq]
  constructor
  · exact final_rows_after hpaired
  · intro pubkey hkept
    exact newest_kept hkept
  · intro row hrow
    exact ⟨tombstone_is_deleted hrow, removed_of_tombstone hrow⟩
  · intro row hrow hnone
    obtain ⟨previous, hprevious, hkey, -⟩ := removed_of_tombstone hrow
    have hfinal := mem_final_rows.mp (List.mem_filter.mp hprevious).1
    rw [hkey, hnone] at hfinal
    cases hfinal
  · exact tombstone_pairs_eq hpaired
  · exact tombstones_length hpaired

/-- Two live token accounts of a wallet, and one that was closed before. -/
def wallet_history : List TokenAccountRow :=
  [⟨"a", "mint", "owner", 5, none, 0, 1, none, 0, 3⟩,
   ⟨"b", "mint", "owner", 7, none, 0, 1, none, 0, 9⟩,
   ⟨"c", "mint", "owner", 0, none, 0, 0, none, 1, 4⟩]

/-- All of them close again; the second one is newer than its candidate. -/
def wallet_candidates : FMap String Slot := keep_max (keep_max (keep_max ∅ "a" 6) "b" 8) "c" 8

theorem tombstone_pass_of_wallet :
    (TombstonePass.run wallet_history wallet_candidates).Exact
      wallet_history wallet_candidates := by
  refine tombstone_pass_exact wallet_history wallet_candidates ?_
  intro row hrow
  simp only [wallet_history, List.mem_cons, List.not_mem_nil, or_false] at hrow
  rcases hrow with rfl | rfl | rfl <;> exact ⟨by decide, by decide⟩

end SnapshotEtl
