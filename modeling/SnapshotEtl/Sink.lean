/-
`ClickhouseSink`: the four open INSERTs of one lane of one worker.

A call on a sink changes its bookkeeping and decides which of its INSERTs it
finalizes, in order; each finalization is a request that may fail. So a call is
a function to the sink and the tables it goes on to commit, and a commit is a
step of its own. An INSERT that is never finalized stores nothing; one whose
finalization fails stores some prefix of its rows.

What every user of a sink relies on is the balance of each call and commit: rows
pending and rows stored together are the rows written.
-/
import SnapshotEtl.Tables
import Mathlib.Data.Multiset.Basic
import Mathlib.Data.Multiset.Filter

set_option autoImplicit false

namespace SnapshotEtl

def MAX_BATCH_ROWS : ℕ := 1000000
def MAX_BATCH_BYTES : ℕ := 256 * 1024 * 1024
def BATCH_LIMIT_CHECK_INTERVAL : ℕ := 1024
def FLUSH_CHECK_INTERVAL : ℕ := 1024

/-- In nanoseconds, as are all the times below. -/
def MAX_OPEN_INSERT_AGE : ℕ := 5 * 10 ^ 9

/-! ## The sink -/

/-- The open INSERT of one table. -/
structure TableSink where
  pending : List Row
  rows_since_commit_check : ℕ
  opened_at : Option ℕ
deriving DecidableEq

structure ClickhouseSink where
  tables : RawTable → TableSink
  flush_check_counter : ℕ

/-- The order in which a sink walks its tables. -/
def RawTable.all : List RawTable := [.account, .token_account, .token_mint, .token_metadata]

theorem RawTable.mem_all (t : RawTable) : t ∈ RawTable.all := by cases t <;> simp [RawTable.all]

namespace ClickhouseSink

def new : ClickhouseSink where
  tables _ := ⟨[], 0, none⟩
  flush_check_counter := 0

variable (s : ClickhouseSink)

def pending (t : RawTable) : List Row := (s.tables t).pending

/-- The tables with rows in an open INSERT, in order. -/
def pending_tables : List RawTable := RawTable.all.filter fun t => s.pending t ≠ []

def has_pending_rows : Bool := RawTable.all.any fun t => s.pending t ≠ []

def clear_open_timestamp_if_empty : ClickhouseSink :=
  { s with tables := fun t =>
      if s.pending t = [] then { s.tables t with opened_at := none } else s.tables t }

/-- `write_account` and its three siblings, with `check_batch_limit`: the row
joins its table's INSERT, and every 1024 rows the limits are looked at. `size`
is the RowBinary size of a row. -/
def write (size : Row → ℕ) (now : ℕ) (row : Row) : ClickhouseSink × List RawTable :=
  let t := row.table
  let opened_at := if s.pending t = [] then some now else (s.tables t).opened_at
  let pending := s.pending t ++ [row]
  let rows := (s.tables t).rows_since_commit_check + 1
  let check : Bool := rows = BATCH_LIMIT_CHECK_INTERVAL
  let limit_reached : Bool :=
    pending.length ≥ MAX_BATCH_ROWS || (pending.map size).sum ≥ MAX_BATCH_BYTES
  let table : TableSink := ⟨pending, if check then 0 else rows, opened_at⟩
  (clear_open_timestamp_if_empty { s with tables := Function.update s.tables t table },
    if check && limit_reached then [t] else [])

/-- `maybe_force_commit` with `force_aged_inserter` for each table: every 1024
calls the INSERTs open for five seconds are committed. -/
def maybe_force_commit (now : ℕ) : ClickhouseSink × List RawTable :=
  if s.flush_check_counter + 1 ≠ FLUSH_CHECK_INTERVAL then
    ({ s with flush_check_counter := s.flush_check_counter + 1 }, [])
  else
    (clear_open_timestamp_if_empty { s with flush_check_counter := 0 },
      s.pending_tables.filter fun t =>
        (s.tables t).opened_at.any fun started => now - started ≥ MAX_OPEN_INSERT_AGE)

/-- A finalized INSERT: nothing is pending in the table any more. -/
def committed (t : RawTable) : ClickhouseSink :=
  { s with tables :=
      Function.update s.tables t { s.tables t with pending := [], opened_at := none } }

/-- Everything pending, as a bag of rows. -/
def bag : Multiset Row := (RawTable.all.map fun t => (s.pending t : Multiset Row)).sum

/-! ## What the calls do to the pending rows -/

@[simp] theorem pending_new (t : RawTable) : new.pending t = [] := rfl

@[simp] theorem pending_clear (t : RawTable) :
    s.clear_open_timestamp_if_empty.pending t = s.pending t := by
  unfold clear_open_timestamp_if_empty pending
  dsimp only
  split <;> rfl

/-- A written row waits in the inserter of its table. -/
theorem pending_write (size : Row → ℕ) (now : ℕ) (row : Row) (t : RawTable) :
    (s.write size now row).1.pending t
      = if t = row.table then s.pending t ++ [row] else s.pending t := by
  unfold write
  simp only [pending_clear]
  by_cases h : t = row.table
  · subst h
    simp [pending]
  · simp [pending, h]

@[simp] theorem pending_maybe_force_commit (now : ℕ) (t : RawTable) :
    (s.maybe_force_commit now).1.pending t = s.pending t := by
  unfold maybe_force_commit
  split
  · rfl
  · rw [pending_clear]
    rfl

/-- A commit empties the inserter of its table. -/
theorem pending_committed (t t' : RawTable) :
    (s.committed t).pending t' = if t' = t then [] else s.pending t' := by
  by_cases h : t' = t
  · subst h
    simp [committed, pending]
  · simp [committed, pending, h]

/-- The tables listed are those with rows to send. -/
theorem mem_pending_tables {t : RawTable} : t ∈ s.pending_tables ↔ s.pending t ≠ [] := by
  simp [pending_tables, RawTable.mem_all]

/-- The rows in the sink, of all four tables. -/
theorem bag_def : s.bag = (s.pending .account : Multiset Row) + s.pending .token_account
    + s.pending .token_mint + s.pending .token_metadata := by
  simp [bag, RawTable.all]

@[simp] theorem bag_new : new.bag = 0 := by simp [bag_def]

theorem count_bag (row : Row) : s.bag.count row = (s.pending .account).count row
    + (s.pending .token_account).count row + (s.pending .token_mint).count row
    + (s.pending .token_metadata).count row := by
  simp only [bag_def, Multiset.count_add, Multiset.coe_count]

/-- **A write is pending.** -/
theorem bag_write (size : Row → ℕ) (now : ℕ) (row : Row) :
    (s.write size now row).1.bag = s.bag + {row} := by
  rw [Multiset.ext]
  intro r
  simp only [Multiset.count_add, count_bag, pending_write, ← Multiset.coe_singleton,
    Multiset.coe_count]
  cases row <;> simp only [Row.table, reduceCtorEq, if_true, if_false, List.count_append] <;>
    omega

/-- The age check keeps the rows: it only says what is to be committed. -/
@[simp] theorem bag_maybe_force_commit (now : ℕ) : (s.maybe_force_commit now).1.bag = s.bag := by
  simp [bag_def]

/-- **A commit takes its table's rows out.** -/
theorem bag_committed (t : RawTable) : (s.committed t).bag + s.pending t = s.bag := by
  rw [Multiset.ext]
  intro r
  simp only [Multiset.count_add, count_bag, pending_committed, Multiset.coe_count]
  cases t <;> simp only [reduceCtorEq, if_true, if_false, List.count_nil] <;> omega

/-- Nothing is pending when no table is. -/
theorem bag_eq_zero (h : ∀ t, s.pending t = []) : s.bag = 0 := by simp [bag_def, h]

end ClickhouseSink

end SnapshotEtl
