/-
The books of a sink: what it keeps of the rows it is given.

A sink has four open INSERTs, a counter of rows and a time of opening for each, and
one counter of checks for all. An INSERT is closed from three places, and every
write forgets the times of all the INSERTs that are empty. A stream is told about
its rows and about its closing, nothing else: its books are right after either, and
each call of the sink is a row or none, and a closing or none.

Here the calls run as the source has them, with the `u16` of its counters, and
succeed; `ClickhouseSink` is what is left of them when the batches are forgotten.
-/
import SnapshotEtl.InsertAge
import Mathlib.Data.UInt

set_option autoImplicit false

namespace SnapshotEtl

/-! ## The inserters -/

/-- The rows since the last commit, and what was committed before. -/
structure Inserter where
  pending : List Row
  batches : List (List Row)
deriving DecidableEq

namespace Inserter

def write (inserter : Inserter) (row : Row) : Inserter :=
  { inserter with pending := inserter.pending ++ [row] }

/-- Without pending rows there is no transaction. -/
def force_commit (inserter : Inserter) : Inserter :=
  if inserter.pending = [] then inserter
  else ⟨[], inserter.batches ++ [inserter.pending]⟩

@[simp] theorem pending_force_commit (inserter : Inserter) :
    inserter.force_commit.pending = [] := by
  unfold force_commit
  split
  · assumption
  · rfl

/-- A commit sends the rows that were waiting, after those already sent. -/
theorem flatten_force_commit (inserter : Inserter) :
    inserter.force_commit.batches.flatten = inserter.batches.flatten ++ inserter.pending := by
  unfold force_commit
  split
  · rename_i hnil
    rw [hnil, List.append_nil]
  · rw [List.flatten_append, List.flatten_singleton]

end Inserter

/-! ## The calls -/

/-- What the sink keeps of one table. -/
structure Stream where
  inserter : Inserter
  rows_since_commit_check : UInt16
  opened_at : Option ℕ
deriving DecidableEq

namespace Stream

def new : Stream := ⟨⟨[], []⟩, 0, none⟩

variable (bytes : List Row → ℕ) (now : ℕ) (stream : Stream)

/-- The first row opens the INSERT. -/
def open_if_empty : Stream :=
  if stream.inserter.pending = [] then { stream with opened_at := some now } else stream

def limit_reached (pending : List Row) : Bool :=
  pending.length ≥ MAX_BATCH_ROWS || bytes pending ≥ MAX_BATCH_BYTES

def check_batch_limit : Stream :=
  let rows_since_commit_check := stream.rows_since_commit_check + 1
  if rows_since_commit_check.toNat = BATCH_LIMIT_CHECK_INTERVAL then
    { stream with
      inserter :=
        if limit_reached bytes stream.inserter.pending then stream.inserter.force_commit
        else stream.inserter
      rows_since_commit_check := 0 }
  else
    { stream with rows_since_commit_check := rows_since_commit_check }

/-- A write, as far as it is the stream's own. -/
def write (row : Row) : Stream :=
  let stream := stream.open_if_empty now
  { stream with inserter := stream.inserter.write row }.check_batch_limit bytes

def clear_open_timestamp_if_empty : Stream :=
  if stream.inserter.pending = [] then { stream with opened_at := none } else stream

def force_aged_inserter : Stream :=
  if stream.inserter.pending = [] then
    { stream with opened_at := none }
  else if stream.opened_at.any fun started => now - started ≥ MAX_OPEN_INSERT_AGE then
    { stream with inserter := stream.inserter.force_commit, opened_at := none }
  else
    stream

end Stream

/-- `ClickhouseSink`, with what it has committed. -/
structure CommittingSink where
  streams : RawTable → Stream
  flush_check_counter : UInt16

namespace CommittingSink

def new : CommittingSink := ⟨fun _ => .new, 0⟩

variable (bytes : List Row → ℕ) (now : ℕ) (s : CommittingSink)

def clear_open_timestamp_if_empty : CommittingSink :=
  { s with streams := fun t => (s.streams t).clear_open_timestamp_if_empty }

/-- What the four writes have in common. -/
def write_row (t : RawTable) (row : Row) : CommittingSink :=
  clear_open_timestamp_if_empty
    { s with streams := Function.update s.streams t ((s.streams t).write bytes now row) }

def write_account (row : AccountRow) : CommittingSink :=
  s.write_row bytes now .account (.account row)

def write_token_account (row : TokenAccountRow) : CommittingSink :=
  s.write_row bytes now .token_account (.token_account row)

def write_token_mint (row : TokenMintRow) : CommittingSink :=
  s.write_row bytes now .token_mint (.token_mint row)

def write_token_metadata (row : TokenMetadataRow) : CommittingSink :=
  s.write_row bytes now .token_metadata (.token_metadata row)

def maybe_force_commit : CommittingSink :=
  let flush_check_counter := s.flush_check_counter + 1
  if flush_check_counter.toNat ≠ FLUSH_CHECK_INTERVAL then
    { s with flush_check_counter := flush_check_counter }
  else
    { streams := fun t => (s.streams t).force_aged_inserter now
      flush_check_counter := 0 }

def has_pending_rows : Bool := RawTable.all.any fun t => (s.streams t).inserter.pending ≠ []

def force_commit_all : CommittingSink :=
  if s.has_pending_rows then
    { s with streams := fun t =>
        { s.streams t with
          inserter := (s.streams t).inserter.force_commit
          opened_at := none } }
  else
    s

end CommittingSink

/-- The calls that a worker makes on its sink. -/
inductive SinkCall
  | write_account (row : AccountRow)
  | write_token_account (row : TokenAccountRow)
  | write_token_mint (row : TokenMintRow)
  | write_token_metadata (row : TokenMetadataRow)
  | maybe_force_commit
  | force_commit_all
deriving DecidableEq

/-- The row a call writes. -/
def SinkCall.row : SinkCall → Option Row
  | .write_account row => some (.account row)
  | .write_token_account row => some (.token_account row)
  | .write_token_mint row => some (.token_mint row)
  | .write_token_metadata row => some (.token_metadata row)
  | .maybe_force_commit => none
  | .force_commit_all => none

namespace CommittingSink

variable (bytes : List Row → ℕ)

/-- A call at its time. -/
def perform (s : CommittingSink) (call : ℕ × SinkCall) : CommittingSink :=
  match call.2 with
  | .write_account row => s.write_account bytes call.1 row
  | .write_token_account row => s.write_token_account bytes call.1 row
  | .write_token_mint row => s.write_token_mint bytes call.1 row
  | .write_token_metadata row => s.write_token_metadata bytes call.1 row
  | .maybe_force_commit => s.maybe_force_commit call.1
  | .force_commit_all => s.force_commit_all

/-- A sink after a sequence of calls. -/
def after (calls : List (ℕ × SinkCall)) : CommittingSink := calls.foldl (perform bytes) new

end CommittingSink

/-- The rows of a table that were written, each with the time of its call. -/
def written (t : RawTable) (calls : List (ℕ × SinkCall)) : List (ℕ × Row) :=
  calls.filterMap fun call => (call.2.row.filter (·.table = t)).map (call.1, ·)

/-! ## The books of a stream -/

namespace Stream

/-- The rows of a stream are in its batches, in order, and then pending, and its INSERT
was opened by the first of these. -/
def Accounts (rows : List (ℕ × Row)) (stream : Stream) : Prop :=
  ∃ closed opened : List (ℕ × Row), rows = closed ++ opened ∧
    closed.map Prod.snd = stream.inserter.batches.flatten ∧
    opened.map Prod.snd = stream.inserter.pending ∧
    stream.opened_at = opened.head?.map Prod.fst

/-- The books after the rows of a stream: there are at most as many more pending than
a batch has as were written since the last look at the limits. -/
structure Books (rows : List (ℕ × Row)) (stream : Stream) : Prop where
  accounts : stream.Accounts rows
  bounded : stream.inserter.pending.length
    < MAX_BATCH_ROWS + stream.rows_since_commit_check.toNat
  checked : stream.rows_since_commit_check.toNat < BATCH_LIMIT_CHECK_INTERVAL

variable {bytes : List Row → ℕ} {now : ℕ} {stream : Stream} {rows : List (ℕ × Row)}

theorem books_new : new.Books [] where
  accounts := ⟨[], [], rfl, rfl, rfl, rfl⟩
  bounded := by decide
  checked := by decide

/-- The timestamp is there exactly while rows wait. -/
theorem Accounts.opened_iff (h : stream.Accounts rows) :
    stream.opened_at.isSome ↔ stream.inserter.pending ≠ [] := by
  obtain ⟨closed, opened, -, -, hpending, hopened⟩ := h
  rw [hopened, ← hpending]
  cases opened <;> simp

/-- Where nothing is pending, there is nothing to clear. -/
theorem Accounts.opened_at_eq_none (h : stream.Accounts rows)
    (hnil : stream.inserter.pending = []) : stream.opened_at = none := by
  rw [← Option.not_isSome_iff_eq_none, h.opened_iff]
  exact not_not.mpr hnil

/-- With the books in order there is no timestamp to clear. -/
theorem Accounts.clear_eq (h : stream.Accounts rows) :
    stream.clear_open_timestamp_if_empty = stream := by
  unfold clear_open_timestamp_if_empty
  split
  · rename_i hnil
    rw [← h.opened_at_eq_none hnil]
  · rfl

/-- **A row** joins the INSERT, which it opens if it is the first. -/
theorem Accounts.join (h : stream.Accounts rows) (now : ℕ) (row : Row)
    (rows_since_commit_check : UInt16) :
    Accounts (rows ++ [(now, row)]) ⟨stream.inserter.write row, rows_since_commit_check,
      (stream.open_if_empty now).opened_at⟩ := by
  obtain ⟨closed, opened, rfl, hclosed, hpending, hopened⟩ := h
  refine ⟨closed, opened ++ [(now, row)], List.append_assoc .., hclosed, ?_, ?_⟩
  · rw [List.map_append, hpending]
    rfl
  · rw [open_if_empty, ← hpending]
    cases opened with
    | nil => rfl
    | cons first opened =>
        rw [if_neg (by simp), hopened]
        rfl

/-- **A closing** moves what is pending to a batch of its own. -/
theorem Accounts.close (h : stream.Accounts rows) (rows_since_commit_check : UInt16) :
    Accounts rows ⟨stream.inserter.force_commit, rows_since_commit_check, none⟩ := by
  obtain ⟨closed, opened, rfl, hclosed, hpending, -⟩ := h
  refine ⟨closed ++ opened, [], (List.append_nil _).symm, ?_, ?_, rfl⟩
  · rw [List.map_append, hclosed, hpending, Inserter.flatten_force_commit]
  · rw [Inserter.pending_force_commit, List.map_nil]

/-- After a closing the table starts anew. -/
theorem Books.close (h : stream.Books rows) :
    Books rows ⟨stream.inserter.force_commit, stream.rows_since_commit_check, none⟩ where
  accounts := h.accounts.close _
  bounded := by
    rw [Inserter.pending_force_commit]
    exact Nat.add_pos_left (by decide) _
  checked := h.checked

/-- Clearing the timestamps of empty inserters keeps the books. -/
theorem Books.clear (h : stream.Books rows) :
    stream.clear_open_timestamp_if_empty.Books rows := by
  rwa [h.accounts.clear_eq]

/-- A counter below its interval is far from the end of `u16`. -/
theorem toNat_succ {n : UInt16} (h : n.toNat < 1024) : (n + 1).toNat = n.toNat + 1 := by
  rw [UInt16.toNat_add, UInt16.toNat_one]
  exact Nat.mod_eq_of_lt (by omega)

theorem toNat_zero_lt : (0 : UInt16).toNat < 1024 := by decide

/-- What a write comes to: only the 1024th row since the last look at the limits can
close its INSERT, and then the time of opening goes with the rows. -/
theorem clear_write (bytes : List Row → ℕ) (now : ℕ) (stream : Stream) (row : Row) :
    (stream.write bytes now row).clear_open_timestamp_if_empty =
      if (stream.rows_since_commit_check + 1).toNat = BATCH_LIMIT_CHECK_INTERVAL ∧
          limit_reached bytes (stream.inserter.pending ++ [row]) then
        ⟨(stream.inserter.write row).force_commit, 0, none⟩
      else
        ⟨stream.inserter.write row,
          if (stream.rows_since_commit_check + 1).toNat = BATCH_LIMIT_CHECK_INTERVAL then 0
          else stream.rows_since_commit_check + 1,
          (stream.open_if_empty now).opened_at⟩ := by
  have hinserter : (stream.open_if_empty now).inserter = stream.inserter := by
    unfold open_if_empty
    split <;> rfl
  have hcounter : (stream.open_if_empty now).rows_since_commit_check
      = stream.rows_since_commit_check := by
    unfold open_if_empty
    split <;> rfl
  have hpending : (stream.inserter.write row).pending = stream.inserter.pending ++ [row] := rfl
  have hopen : stream.inserter.pending ++ [row] ≠ [] := by simp
  simp only [Stream.write, check_batch_limit, hinserter, hcounter, hpending]
  -- by what the write looks at: the count first, then the limits
  by_cases hcheck : (stream.rows_since_commit_check + 1).toNat = BATCH_LIMIT_CHECK_INTERVAL
  · by_cases hlimit : limit_reached bytes (stream.inserter.pending ++ [row]) = true
    · rw [if_pos hcheck, if_pos hlimit, if_pos ⟨hcheck, hlimit⟩]
      exact if_pos (Inserter.pending_force_commit _)
    · rw [if_pos hcheck, if_neg hlimit, if_neg fun h => hlimit h.2, if_pos hcheck]
      exact if_neg hopen
  · rw [if_neg hcheck, if_neg fun h => hcheck h.1, if_neg hcheck]
    exact if_neg hopen

/-- **A write.** -/
theorem Books.write (h : stream.Books rows) (row : Row) :
    (stream.write bytes now row).clear_open_timestamp_if_empty.Books (rows ++ [(now, row)]) := by
  have hnext := toNat_succ h.checked
  have hbounded := h.bounded
  have hchecked := h.checked
  have hlength : (stream.inserter.write row).pending.length = stream.inserter.pending.length + 1 :=
    List.length_append
  have hjoin := fun n => h.accounts.join now row n
  rw [clear_write]
  -- the row is committed with those before it, or it joins them
  split
  · refine ⟨(hjoin 0).close 0, ?_, toNat_zero_lt⟩
    rw [Inserter.pending_force_commit]
    exact Nat.add_pos_left (by decide) _
  · rename_i hkept
    refine ⟨hjoin _, ?_, ?_⟩
    · rw [hlength]
      split
      · -- the limits were looked at
        rename_i hcheck
        rw [not_and, limit_reached, Bool.or_eq_true, not_or] at hkept
        have hbelow := (hkept hcheck).1
        rw [decide_eq_true_eq, List.length_append] at hbelow
        exact not_le.mp hbelow
      · rw [hnext]
        omega
    · split
      · exact toNat_zero_lt
      · rename_i hcheck
        rw [hnext] at hcheck ⊢
        omega

/-- **The flush of an aged INSERT.** -/
theorem Books.force_aged_inserter (h : stream.Books rows) :
    (stream.force_aged_inserter now).Books rows := by
  unfold Stream.force_aged_inserter
  split
  · rename_i hnil
    rw [← h.accounts.opened_at_eq_none hnil]
    exact h
  · split
    · exact h.close
    · exact h

end Stream

/-! ## The books of a sink -/

namespace CommittingSink

/-- The books of the four streams, and of the checks. -/
structure Books (rows : RawTable → List (ℕ × Row)) (s : CommittingSink) : Prop where
  streams : ∀ t, (s.streams t).Books (rows t)
  checked : s.flush_check_counter.toNat < FLUSH_CHECK_INTERVAL

variable {bytes : List Row → ℕ} {now : ℕ} {s : CommittingSink} {rows : RawTable → List (ℕ × Row)}

theorem books_new : new.Books fun _ => [] := ⟨fun _ => Stream.books_new, by decide⟩

/-- A write is one of its table, and clears what is cleared already in the others. -/
theorem Books.write_row (h : s.Books rows) (t : RawTable) (row : Row) :
    (s.write_row bytes now t row).Books fun t' =>
      if t = t' then rows t' ++ [(now, row)] else rows t' := by
  refine ⟨fun t' => ?_, h.checked⟩
  by_cases ht : t = t'
  · subst ht
    simpa [CommittingSink.write_row, clear_open_timestamp_if_empty] using (h.streams t).write row
  · have hother : Function.update s.streams t ((s.streams t).write bytes now row) t'
        = s.streams t' := Function.update_of_ne (Ne.symm ht) _ _
    simpa [CommittingSink.write_row, clear_open_timestamp_if_empty, ht, hother]
      using (h.streams t').clear

/-- The age check keeps the books. -/
theorem Books.maybe_force_commit (h : s.Books rows) : (s.maybe_force_commit now).Books rows := by
  have hnext := Stream.toNat_succ h.checked
  have hchecked := h.checked
  unfold CommittingSink.maybe_force_commit
  dsimp only
  split
  · rename_i hcheck
    refine ⟨h.streams, ?_⟩
    change (s.flush_check_counter + 1).toNat < _
    rw [hnext] at hcheck ⊢
    omega
  · exact ⟨fun t => (h.streams t).force_aged_inserter, Stream.toNat_zero_lt⟩

/-- The commit of all tables keeps the books. -/
theorem Books.force_commit_all (h : s.Books rows) : s.force_commit_all.Books rows := by
  unfold CommittingSink.force_commit_all
  split
  · exact ⟨fun t => (h.streams t).close, h.checked⟩
  · exact h

end CommittingSink

section Written

variable (calls : List (ℕ × SinkCall)) (call : ℕ × SinkCall)

/-- A call with a row adds it to the rows of its table. -/
theorem written_row {row : Row} (h : call.2.row = some row) (t : RawTable) :
    written t (calls ++ [call])
      = if row.table = t then written t calls ++ [(call.1, row)] else written t calls := by
  rw [written, List.filterMap_append, ← written]
  by_cases ht : row.table = t <;> simp [h, ht]

/-- A call without a row adds nothing. -/
theorem written_none (h : call.2.row = none) (t : RawTable) :
    written t (calls ++ [call]) = written t calls := by
  rw [written, List.filterMap_append, ← written]
  simp [h]

end Written

namespace CommittingSink

variable {bytes : List Row → ℕ} {s : CommittingSink} {calls : List (ℕ × SinkCall)}

/-- **One call.** -/
theorem Books.perform (h : s.Books fun t => written t calls) (call : ℕ × SinkCall) :
    (s.perform bytes call).Books fun t => written t (calls ++ [call]) := by
  obtain ⟨now, call⟩ := call
  cases call with
  | maybe_force_commit =>
      simp only [written_none calls (now, .maybe_force_commit) rfl]
      exact h.maybe_force_commit
  | force_commit_all =>
      simp only [written_none calls (now, .force_commit_all) rfl]
      exact h.force_commit_all
  | write_account row =>
      simp only [written_row calls (now, .write_account row) rfl]
      exact h.write_row .account _
  | write_token_account row =>
      simp only [written_row calls (now, .write_token_account row) rfl]
      exact h.write_row .token_account _
  | write_token_mint row =>
      simp only [written_row calls (now, .write_token_mint row) rfl]
      exact h.write_row .token_mint _
  | write_token_metadata row =>
      simp only [written_row calls (now, .write_token_metadata row) rfl]
      exact h.write_row .token_metadata _

/-- **A run.** -/
theorem books_after (bytes : List Row → ℕ) (calls : List (ℕ × SinkCall)) :
    (after bytes calls).Books fun t => written t calls := by
  induction calls using List.reverseRecOn with
  | nil => exact books_new
  | append_singleton calls call ih =>
      rw [after, List.foldl_append]
      exact ih.perform call

end CommittingSink

/-! ## The batches forgotten -/

def Stream.table (stream : Stream) : TableSink where
  pending := stream.inserter.pending
  rows_since_commit_check := stream.rows_since_commit_check.toNat
  opened_at := stream.opened_at

/-- The sink that the imports are proved about. -/
def CommittingSink.sink (s : CommittingSink) : ClickhouseSink where
  tables t := (s.streams t).table
  flush_check_counter := s.flush_check_counter.toNat

/-- A call all of whose commits succeed. -/
def ClickhouseSink.perform (size : Row → ℕ) (s : ClickhouseSink) (call : ℕ × SinkCall) :
    ClickhouseSink :=
  match call.2 with
  | .write_account row => finalized (s.write size call.1 (.account row))
  | .write_token_account row => finalized (s.write size call.1 (.token_account row))
  | .write_token_mint row => finalized (s.write size call.1 (.token_mint row))
  | .write_token_metadata row => finalized (s.write size call.1 (.token_metadata row))
  | .maybe_force_commit => finalized (s.maybe_force_commit call.1)
  | .force_commit_all => s.force_commit_all

/-- The size of an INSERT is that of its rows. -/
def row_bytes (size : Row → ℕ) (rows : List Row) : ℕ := (rows.map size).sum

namespace CommittingSink

variable {size : Row → ℕ} {now : ℕ} {s : CommittingSink} {rows : RawTable → List (ℕ × Row)}

/-- With the books in order every table is tidy. -/
theorem Books.tidy (h : s.Books rows) (t : RawTable) : s.sink.Tidy t :=
  (h.streams t).accounts.opened_at_eq_none

/-- Two sinks are equal when their tables and their counters are. -/
theorem sink_eq {a b : ClickhouseSink} (htables : ∀ t, a.tables t = b.tables t)
    (hcounter : a.flush_check_counter = b.flush_check_counter) : a = b := by
  cases a
  cases b
  simp_all [funext_iff]

/-- Two tables of a sink are equal when their three fields are. -/
theorem table_eq {a b : TableSink} (hpending : a.pending = b.pending)
    (hrows : a.rows_since_commit_check = b.rows_since_commit_check)
    (hopened : a.opened_at = b.opened_at) : a = b := by
  cases a
  cases b
  simp_all

/-- Commits leave a table with nothing to send as it is. -/
theorem tables_foldl_of_empty {t : RawTable} {n : ℕ} (tables : List RawTable)
    {s : ClickhouseSink} (h : s.tables t = ⟨[], n, none⟩) :
    (tables.foldl ClickhouseSink.committed s).tables t = ⟨[], n, none⟩ := by
  induction tables generalizing s with
  | nil => exact h
  | cons t' tables ih =>
      apply ih
      by_cases ht : t = t'
      · subst ht
        simp [ClickhouseSink.committed, h]
      · rw [ClickhouseSink.tables_committed_ne s ht, h]

/-- A table that a call goes on to commit is empty then, and any other stays. -/
theorem tables_finalized (call : ClickhouseSink × List RawTable) (t : RawTable) :
    (ClickhouseSink.finalized call).tables t
      = if t ∈ call.2 then ⟨[], (call.1.tables t).rows_since_commit_check, none⟩
        else call.1.tables t := by
  obtain ⟨s, tables⟩ := call
  rw [ClickhouseSink.finalized]
  dsimp only
  induction tables generalizing s with
  | nil => rfl
  | cons t' tables ih =>
      rw [List.foldl_cons]
      by_cases ht : t = t'
      · subst ht
        rw [if_pos List.mem_cons_self]
        apply tables_foldl_of_empty
        simp [ClickhouseSink.committed]
      · rw [ih, ClickhouseSink.tables_committed_ne s ht]
        simp [ht]

/-- The table that a write goes on to commit. -/
theorem mem_commits_write (h : s.Books rows) (row : Row) :
    row.table ∈ (s.sink.write size now row).2 ↔
      ((s.streams row.table).rows_since_commit_check + 1).toNat = BATCH_LIMIT_CHECK_INTERVAL ∧
        Stream.limit_reached (row_bytes size)
          ((s.streams row.table).inserter.pending ++ [row]) = true := by
  have hcommits : (s.sink.write size now row).2 =
      if decide ((s.streams row.table).rows_since_commit_check.toNat + 1
            = BATCH_LIMIT_CHECK_INTERVAL) &&
          Stream.limit_reached (row_bytes size) ((s.streams row.table).inserter.pending ++ [row])
      then [row.table] else [] := rfl
  rw [hcommits, Stream.toNat_succ (h.streams _).checked]
  split
  · rename_i hlimit
    simpa using hlimit
  · rename_i hlimit
    simpa using hlimit

/-- The tables that are due go on to be committed. -/
theorem mem_commits_maybe_force_commit
    (hdue : s.flush_check_counter.toNat + 1 = FLUSH_CHECK_INTERVAL) (t : RawTable) :
    t ∈ (s.sink.maybe_force_commit now).2 ↔ (s.streams t).inserter.pending ≠ [] ∧
      ((s.streams t).opened_at.any fun started => now - started ≥ MAX_OPEN_INSERT_AGE) = true := by
  have hnot : ¬ s.sink.flush_check_counter + 1 ≠ FLUSH_CHECK_INTERVAL := not_not.mpr hdue
  rw [ClickhouseSink.maybe_force_commit, if_neg hnot, List.mem_filter,
    ClickhouseSink.mem_pending_tables]
  exact Iff.rfl

/-- The table that a write goes to. -/
theorem table_write (h : s.Books rows) (row : Row) :
    ((s.write_row (row_bytes size) now row.table row).sink).tables row.table
      = (ClickhouseSink.finalized (s.sink.write size now row)).tables row.table := by
  have hnext := Stream.toNat_succ (h.streams row.table).checked
  have hself : (s.write_row (row_bytes size) now row.table row).sink.tables row.table
      = ((s.streams row.table).write (row_bytes size) now row
        |>.clear_open_timestamp_if_empty).table := by
    simp [sink, write_row, clear_open_timestamp_if_empty]
  rw [hself, Stream.clear_write, tables_finalized, ClickhouseSink.tables_write_self]
  -- the write commits its table, or the counter goes on
  by_cases hclosed : row.table ∈ (s.sink.write size now row).2
  · have hlimit := (mem_commits_write h row).mp hclosed
    have hcheck : (s.sink.tables row.table).rows_since_commit_check + 1
        = BATCH_LIMIT_CHECK_INTERVAL := hnext.symm.trans hlimit.1
    rw [if_pos hclosed, if_pos hlimit]
    simp [Stream.table, hcheck]
  · rw [if_neg hclosed, if_neg (mt (mem_commits_write h row).mpr hclosed), hnext]
    refine table_eq rfl ?_ ?_
    · have hcounter : (s.sink.tables row.table).rows_since_commit_check
          = (s.streams row.table).rows_since_commit_check.toNat := rfl
      rw [hcounter, Stream.table, apply_ite UInt16.toNat, hnext]
      rfl
    · have hpending : s.sink.pending row.table = (s.streams row.table).inserter.pending := rfl
      rw [hpending, Stream.table, Stream.open_if_empty, apply_ite Stream.opened_at]
      rfl

/-- Forgetting what was sent, a written row of the full sink is a written row of the plain
one. -/
theorem sink_write_row (h : s.Books rows) (row : Row) :
    (s.write_row (row_bytes size) now row.table row).sink
      = .finalized (s.sink.write size now row) := by
  apply sink_eq
  · intro t
    by_cases ht : t = row.table
    · subst ht
      exact table_write h row
    · rw [ClickhouseSink.tables_write_frame (h.tidy t) ht]
      have hother := Function.update_of_ne ht
        ((s.streams row.table).write (row_bytes size) now row) s.streams
      simp only [sink, write_row, clear_open_timestamp_if_empty, hother]
      rw [(h.streams t).accounts.clear_eq]
  · exact (s.sink.flush_check_counter_write size now row).symm

/-- A table when the open inserts are due to be checked. -/
theorem table_maybe_force_commit (h : s.Books rows)
    (hdue : s.flush_check_counter.toNat + 1 = FLUSH_CHECK_INTERVAL) (t : RawTable) :
    ((s.streams t).force_aged_inserter now).table
      = (ClickhouseSink.finalized (s.sink.maybe_force_commit now)).tables t := by
  rw [tables_finalized, ClickhouseSink.tables_maybe_force_commit now (h.tidy t),
    Stream.force_aged_inserter]
  by_cases haged : t ∈ (s.sink.maybe_force_commit now).2
  · have hopen := (mem_commits_maybe_force_commit hdue t).mp haged
    rw [if_pos haged, if_neg hopen.1, if_pos hopen.2]
    simp [Stream.table, sink]
  · rw [if_neg haged]
    split
    · rename_i hnil
      rw [← (h.streams t).accounts.opened_at_eq_none hnil]
      rfl
    · rename_i hne
      rw [if_neg fun hold => haged ((mem_commits_maybe_force_commit hdue t).mpr ⟨hne, hold⟩)]
      rfl

/-- The age check of the full sink is that of the plain one. -/
theorem sink_maybe_force_commit (h : s.Books rows) :
    (s.maybe_force_commit now).sink = .finalized (s.sink.maybe_force_commit now) := by
  have hnext := Stream.toNat_succ h.checked
  have hlt := h.checked
  -- the open inserts are looked at when the counter is full
  by_cases hcheck : s.flush_check_counter.toNat + 1 = FLUSH_CHECK_INTERVAL
  · apply sink_eq
    · intro t
      rw [← table_maybe_force_commit h hcheck t]
      simp [sink, maybe_force_commit, hnext, hcheck]
    · rw [ClickhouseSink.flush_check_counter_maybe_force_commit now _ h.checked]
      simp [maybe_force_commit, sink, hnext, hcheck]
  · apply sink_eq
    · intro t
      simp [maybe_force_commit, ClickhouseSink.maybe_force_commit, ClickhouseSink.finalized,
        sink, hnext, hcheck]
    · rw [ClickhouseSink.flush_check_counter_maybe_force_commit now _ h.checked,
        Nat.mod_eq_of_lt (by change s.flush_check_counter.toNat + 1 < _; omega)]
      simp [maybe_force_commit, sink, hnext, hcheck]

/-- The commit of all tables of the full sink is that of the plain one. -/
theorem sink_force_commit_all (h : s.Books rows) :
    s.force_commit_all.sink = s.sink.force_commit_all := by
  unfold force_commit_all ClickhouseSink.force_commit_all
  have hpending : s.has_pending_rows = s.sink.has_pending_rows := rfl
  rw [hpending]
  split
  · apply sink_eq
    · intro t
      rw [tables_finalized]
      by_cases hopen : t ∈ s.sink.pending_tables
      · rw [if_pos hopen]
        simp [sink, Stream.table]
      · have hnil : (s.streams t).inserter.pending = [] := by
          rw [ClickhouseSink.mem_pending_tables, not_not] at hopen
          exact hopen
        rw [if_neg hopen]
        refine table_eq ?_ rfl ?_
        · exact (Inserter.pending_force_commit _).trans hnil.symm
        · exact ((h.streams t).accounts.opened_at_eq_none hnil).symm
    · exact (ClickhouseSink.flush_check_counter_foldl_committed s.sink.pending_tables s.sink).symm
  · rfl

/-- Each call of the full sink is the same call of the plain one. -/
theorem sink_perform (h : s.Books rows) (call : ℕ × SinkCall) :
    (s.perform (row_bytes size) call).sink = s.sink.perform size call := by
  obtain ⟨now, call⟩ := call
  cases call with
  | maybe_force_commit => exact sink_maybe_force_commit h
  | force_commit_all => exact sink_force_commit_all h
  | write_account row => exact sink_write_row h (.account row)
  | write_token_account row => exact sink_write_row h (.token_account row)
  | write_token_mint row => exact sink_write_row h (.token_mint row)
  | write_token_metadata row => exact sink_write_row h (.token_metadata row)

/-- **One sink.** A run has the sink of the other model. -/
theorem sink_after (size : Row → ℕ) (calls : List (ℕ × SinkCall)) :
    (after (row_bytes size) calls).sink = calls.foldl (ClickhouseSink.perform size) .new := by
  induction calls using List.reverseRecOn with
  | nil => rfl
  | append_singleton calls call ih =>
      rw [after, List.foldl_append, List.foldl_append, ← ih]
      exact sink_perform (books_after _ calls) call

end CommittingSink

/-! ## The bookkeeping -/

/-- A stream that has kept its books: its time of opening is that of the first row
pending, every row is pending or in one batch, and neither the rows nor the counter of
them get out of hand. -/
structure Stream.Bookkept (rows : List (ℕ × Row)) (stream : Stream) : Prop where
  accounts : stream.Accounts rows
  opened_iff : stream.opened_at.isSome ↔ stream.inserter.pending ≠ []
  bounded : stream.inserter.pending.length < MAX_BATCH_ROWS + BATCH_LIMIT_CHECK_INTERVAL
  checked : stream.rows_since_commit_check.toNat < BATCH_LIMIT_CHECK_INTERVAL
  no_wrap : (stream.rows_since_commit_check + 1).toNat
    = stream.rows_since_commit_check.toNat + 1

/-- Books in order say what the counters and the timestamp have to be. -/
theorem Stream.Books.bookkept {stream : Stream} {rows : List (ℕ × Row)}
    (h : stream.Books rows) : stream.Bookkept rows where
  accounts := h.accounts
  opened_iff := h.accounts.opened_iff
  bounded := h.bounded.trans (Nat.add_lt_add_left h.checked _)
  checked := h.checked
  no_wrap := toNat_succ h.checked

/-- **Sink bookkeeping.** Any calls leave all four streams with their books kept, and
the counter of the checks below its interval. But for the books, the sink is the one
whose INSERTs are timed (`CommittingSink.sink_after`). -/
theorem sink_bookkeeping (bytes : List Row → ℕ) (calls : List (ℕ × SinkCall)) :
    (∀ t, ((CommittingSink.after bytes calls).streams t).Bookkept (written t calls)) ∧
    (CommittingSink.after bytes calls).flush_check_counter.toNat < FLUSH_CHECK_INTERVAL ∧
    ((CommittingSink.after bytes calls).flush_check_counter + 1).toNat
      = (CommittingSink.after bytes calls).flush_check_counter.toNat + 1 := by
  have hbooks := CommittingSink.books_after bytes calls
  exact ⟨fun t => (hbooks.streams t).bookkept, hbooks.checked,
    Stream.toNat_succ hbooks.checked⟩

end SnapshotEtl
