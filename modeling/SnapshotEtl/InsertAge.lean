/-
How long the INSERTs of a worker of `insert_all_parallel` stay open.

Two mechanisms close an INSERT because of its age: the check of every 1024th
account, for one open five seconds, and the flush of a worker that has waited
ten seconds for its next storage. The wait starts anew with every storage, so
storages of a few accounts that come just in time are never followed by either.
Which arrivals keep every INSERT within the fifteen seconds of the README is a
condition on the times and the sizes of the storages alone; it is exact when
nothing is known of the rows in them.

Parsing and commits take no time here, and every commit succeeds.
-/
import SnapshotEtl.StreamImport

set_option autoImplicit false

namespace SnapshotEtl

def IDLE_INSERT_FLUSH_INTERVAL : ℕ := 10 * 10 ^ 9

/-- What the README promises of every open HTTP request. -/
def INSERT_COMMIT_BOUND : ℕ := 15 * 10 ^ 9

/-! ## One account at a sink -/

/-- The rows one account sends: its own first, then those of the other tables. -/
structure AccountWrites where
  account : AccountRow
  derived : List Row

def AccountWrites.rows (a : AccountWrites) : List Row := .account a.account :: a.derived

namespace ClickhouseSink

variable (size : Row → ℕ) (now : ℕ)

/-- A call whose commits all succeed. -/
def finalized (call : ClickhouseSink × List RawTable) : ClickhouseSink :=
  call.2.foldl committed call.1

/-- `insert_account`, as far as the sink sees it. -/
def insert_account (s : ClickhouseSink) (a : AccountWrites) : ClickhouseSink :=
  a.rows.foldl (fun s row => finalized (s.write size now row))
    (finalized (s.maybe_force_commit now))

/-- `on_append_vec_count`. -/
def on_append_vec (s : ClickhouseSink) (accounts : List AccountWrites) : ClickhouseSink :=
  accounts.foldl (insert_account size now) s

def force_commit_all (s : ClickhouseSink) : ClickhouseSink :=
  if s.has_pending_rows then finalized (s, s.pending_tables) else s

/-- Every INSERT with rows was opened at a time that satisfies `P`. -/
def OpenedAt (s : ClickhouseSink) (P : ℕ → Prop) : Prop :=
  ∀ t, s.pending t ≠ [] → ∃ o, (s.tables t).opened_at = some o ∧ P o

end ClickhouseSink

/-! ## The sink of a worker

The operations a worker performs on its lane for a storage are, at the sink, the
check and the rows of each of its accounts.
-/

section Worker

variable (size : Row → ℕ) (now : ℕ)

/-- An operation of a lane at its sink, whose commits all succeed. -/
def LaneOp.perform (s : ClickhouseSink) : LaneOp → ClickhouseSink
  | .maybe_force_commit => .finalized (s.maybe_force_commit now)
  | .write row => .finalized (s.write size now row)
  | _ => s

def Worker.account_writes (dec : Decoders) (w : Worker) (slot : Slot)
    (account : StoredAccountMeta) : AccountWrites where
  account := w.account_row account
  derived := (rows_sent w.group (w.insert_account dec account slot)).tail

/-- What derives from an account is performed by writing its rows. -/
theorem perform_derived {w : Worker} {ops : List ImportOp} (h : ∀ op ∈ ops, w.Derives op)
    (s : ClickhouseSink) : (on_lane w.group ops).foldl (LaneOp.perform size now) s
      = (rows_sent w.group ops).foldl
          (fun s row => ClickhouseSink.finalized (s.write size now row)) s := by
  induction ops generalizing s with
  | nil => rfl
  | cons op ops ih =>
      rw [List.forall_mem_cons] at h
      rw [rows_sent_cons, List.foldl_append, ← ih h.2]
      cases op with
      | count c => rfl
      | lane group op =>
          obtain ⟨rfl, hcheck, -⟩ := h.1
          rw [on_lane_lane, if_pos rfl, List.foldl_cons]
          cases op with
          | maybe_force_commit => exact absurd rfl hcheck
          | write row => simp [ImportOp.rows, LaneOp.perform]
          | _ => rfl

theorem perform_insert_account (dec : Decoders) (w : Worker) (slot : Slot)
    (account : StoredAccountMeta) (s : ClickhouseSink) :
    (on_lane w.group (w.insert_account dec account slot)).foldl (LaneOp.perform size now) s
      = s.insert_account size now (w.account_writes dec slot account) := by
  obtain ⟨derived, hops, hderived⟩ := w.derives_insert_account dec account slot
  rw [ClickhouseSink.insert_account, AccountWrites.rows, Worker.account_writes, hops]
  simp only [on_lane_lane, if_true, List.foldl_cons, LaneOp.perform, rows_sent_cons,
    ImportOp.rows, List.nil_append, List.singleton_append, List.tail_cons]
  exact perform_derived size now hderived _

/-- **A storage.** What the worker does with it, its sink gets account by account. -/
theorem perform_on_delivered (dec : Decoders) (w : Worker) (append_vec : AppendVec)
    (s : ClickhouseSink) :
    (on_lane w.group (w.on_delivered dec append_vec)).foldl (LaneOp.perform size now) s
      = s.on_append_vec size now
          (append_vec.accounts.map (w.account_writes dec append_vec.slot)) := by
  have hlane : on_lane w.group (w.on_delivered dec append_vec)
      = append_vec.accounts.flatMap fun account =>
          on_lane w.group (w.insert_account dec account append_vec.slot) := by
    rw [← on_lane_flatMap]
    simp [Worker.on_delivered, Worker.on_append_vec_count, on_lane_ite]
  rw [hlane]
  induction append_vec.accounts generalizing s with
  | nil => rfl
  | cons account accounts ih =>
      rw [List.flatMap_cons, List.foldl_append, perform_insert_account, ih]
      rfl

end Worker

namespace ClickhouseSink

variable (size : Row → ℕ) (now : ℕ)

/-! ## What a call does to one table -/

/-- A commit of one table leaves the other tables of the sink alone. -/
theorem tables_committed_ne (s : ClickhouseSink) {t t' : RawTable} (h : t ≠ t') :
    (s.committed t').tables t = s.tables t := by
  simp [committed, h]

/-- Commits of a list of tables leave a table outside the list alone. -/
theorem tables_foldl_committed (tables : List RawTable) (s : ClickhouseSink) {t : RawTable}
    (h : t ∉ tables) : (tables.foldl committed s).tables t = s.tables t := by
  induction tables generalizing s with
  | nil => rfl
  | cons t' tables ih =>
      rw [List.mem_cons, not_or] at h
      rw [List.foldl_cons, ih _ h.2, tables_committed_ne s h.1]

/-- After the commits of a list of tables, no table of the list has a row left to send. -/
theorem pending_foldl_committed (tables : List RawTable) (s : ClickhouseSink) {t : RawTable}
    (h : t ∈ tables ∨ s.pending t = []) : (tables.foldl committed s).pending t = [] := by
  induction tables generalizing s with
  | nil => simpa using h
  | cons t' tables ih =>
      rw [List.foldl_cons]
      apply ih
      rw [pending_committed]
      by_cases ht : t = t'
      · simp [ht]
      · simpa [ht] using h

theorem flush_check_counter_foldl_committed (tables : List RawTable) (s : ClickhouseSink) :
    (tables.foldl committed s).flush_check_counter = s.flush_check_counter := by
  induction tables generalizing s with
  | nil => rfl
  | cons t tables ih =>
      rw [List.foldl_cons, ih]
      rfl

/-- A finalized table is empty and every other is as the call left it. -/
theorem opened_at_finalized {call : ClickhouseSink × List RawTable} {P : ℕ → Prop}
    (h : ∀ t, t ∉ call.2 → call.1.pending t ≠ [] →
      ∃ o, (call.1.tables t).opened_at = some o ∧ P o) :
    (finalized call).OpenedAt P := by
  intro t ht
  have hmem : t ∉ call.2 := fun hmem => ht (pending_foldl_committed _ _ (.inl hmem))
  have htable : (finalized call).tables t = call.1.tables t := tables_foldl_committed _ _ hmem
  rw [pending, htable] at ht
  rw [htable]
  exact h t hmem ht

/-- Where a table has no rows, it has no time of opening either. -/
def Tidy (s : ClickhouseSink) (t : RawTable) : Prop :=
  s.pending t = [] → (s.tables t).opened_at = none

/-- A table with a row to send is tidy. -/
theorem tidy_of_pending {s : ClickhouseSink} {t : RawTable} (h : s.pending t ≠ []) : s.Tidy t :=
  fun hnil => absurd hnil h

/-- On a tidy table, clearing the timestamps of the empty inserters changes nothing. -/
theorem tables_clear {s : ClickhouseSink} {t : RawTable} (h : s.Tidy t) :
    s.clear_open_timestamp_if_empty.tables t = s.tables t := by
  by_cases hpending : s.pending t = []
  · simp [clear_open_timestamp_if_empty, hpending, ← h hpending]
  · simp [clear_open_timestamp_if_empty, hpending]

/-- A row opens its table's INSERT, if none is open. -/
theorem tables_write_self (size : Row → ℕ) (now : ℕ) (s : ClickhouseSink) (row : Row) :
    (s.write size now row).1.tables row.table =
      { pending := s.pending row.table ++ [row]
        rows_since_commit_check :=
          if (s.tables row.table).rows_since_commit_check + 1 = BATCH_LIMIT_CHECK_INTERVAL then 0
          else (s.tables row.table).rows_since_commit_check + 1
        opened_at :=
          if s.pending row.table = [] then some now else (s.tables row.table).opened_at } := by
  unfold write
  dsimp only
  rw [tables_clear (tidy_of_pending (by simp [pending]))]
  simp

/-- A written row touches the table it belongs to and no other tidy one. -/
theorem tables_write_of_ne (size : Row → ℕ) (now : ℕ) {s : ClickhouseSink} {row : Row}
    {t : RawTable} (hrow : t ≠ row.table) (h : s.Tidy t) :
    (s.write size now row).1.tables t = s.tables t := by
  have hother : ∀ table, Function.update s.tables row.table table t = s.tables t :=
    fun table => Function.update_of_ne hrow table s.tables
  unfold write
  dsimp only
  rw [tables_clear]
  · exact hother _
  · simpa only [Tidy, pending, hother] using h

theorem tables_maybe_force_commit (now : ℕ) {s : ClickhouseSink} {t : RawTable} (h : s.Tidy t) :
    (s.maybe_force_commit now).1.tables t = s.tables t := by
  unfold maybe_force_commit
  split
  · rfl
  · exact tables_clear h

/-! ## The ages of the open INSERTs

Each call keeps a condition on the times of opening, if the present meets it;
the check adds that the INSERTs left open are younger than five seconds.
-/

section Ages

variable {size now} {s : ClickhouseSink} {P : ℕ → Prop}

/-- A weaker condition holds of the opening times too. -/
theorem OpenedAt.mono {Q : ℕ → Prop} (h : s.OpenedAt P) (hPQ : ∀ o, P o → Q o) :
    s.OpenedAt Q := by
  intro t ht
  obtain ⟨o, ho, hP⟩ := h t ht
  exact ⟨o, ho, hPQ o hP⟩

/-- A row written now opens its request now, or joins one that is already open. -/
theorem OpenedAt.write (h : s.OpenedAt P) (hnow : P now) (row : Row) :
    (finalized (s.write size now row)).OpenedAt P := by
  apply opened_at_finalized
  intro t _ ht
  by_cases hrow : t = row.table
  · subst hrow
    rw [tables_write_self]
    by_cases hpending : s.pending row.table = []
    · -- the row opens the INSERT
      exact ⟨now, if_pos hpending, hnow⟩
    · obtain ⟨o, ho, hP⟩ := h _ hpending
      exact ⟨o, (if_neg hpending).trans ho, hP⟩
  · rw [pending_write, if_neg hrow] at ht
    rw [tables_write_of_ne size now hrow (tidy_of_pending ht)]
    exact h t ht

/-- The age check only closes requests, so the opening times that are left were there
before. -/
theorem OpenedAt.maybe_force_commit (h : s.OpenedAt P) :
    (finalized (s.maybe_force_commit now)).OpenedAt P := by
  apply opened_at_finalized
  intro t _ ht
  rw [pending_maybe_force_commit] at ht
  rw [tables_maybe_force_commit now (tidy_of_pending ht)]
  exact h t ht

/-- **The check.** An INSERT that survives it is younger than five seconds. -/
theorem OpenedAt.checked (h : s.OpenedAt P)
    (hcheck : s.flush_check_counter + 1 = FLUSH_CHECK_INTERVAL) :
    (finalized (s.maybe_force_commit now)).OpenedAt
      fun o => P o ∧ now < o + MAX_OPEN_INSERT_AGE := by
  apply opened_at_finalized
  intro t hmem ht
  rw [pending_maybe_force_commit] at ht
  obtain ⟨o, ho, hP⟩ := h t ht
  rw [tables_maybe_force_commit now (tidy_of_pending ht)]
  refine ⟨o, ho, hP, ?_⟩
  -- it was not among the aged ones
  simp only [ClickhouseSink.maybe_force_commit, hcheck, ne_eq, not_true_eq_false, if_false,
    List.mem_filter, mem_pending_tables, ho, Option.any_some, ge_iff_le, decide_eq_true_eq,
    not_and] at hmem
  have hyoung := hmem ht
  omega

/-- The commit of all tables leaves no request open. -/
theorem opened_at_force_commit_all : s.force_commit_all.OpenedAt P := by
  unfold force_commit_all
  split
  · apply opened_at_finalized
    intro t hmem ht
    exact absurd (s.mem_pending_tables.mpr ht) hmem
  · rename_i hnone
    intro t ht
    simp only [has_pending_rows, List.any_eq_true, decide_eq_true_eq, not_exists, not_and] at hnone
    exact absurd ht (hnone t (RawTable.mem_all t))

/-- A run of rows written now opens requests now or joins open ones. -/
theorem OpenedAt.writes (h : s.OpenedAt P) (hnow : P now) (rows : List Row) :
    (rows.foldl (fun s row => finalized (s.write size now row)) s).OpenedAt P := by
  induction rows generalizing s with
  | nil => exact h
  | cons row rows ih => exact ih (h.write hnow row)

/-- An account handled now opens requests now or leaves the older ones. -/
theorem OpenedAt.insert_account (h : s.OpenedAt P) (hnow : P now) (a : AccountWrites) :
    (s.insert_account size now a).OpenedAt P :=
  h.maybe_force_commit.writes hnow a.rows

/-- A delivered AppendVec opens requests now or leaves the older ones; an empty one opens
none. -/
theorem OpenedAt.on_append_vec {accounts : List AccountWrites} (h : s.OpenedAt P)
    (hnow : accounts ≠ [] → P now) : (s.on_append_vec size now accounts).OpenedAt P := by
  induction accounts generalizing s with
  | nil => exact h
  | cons a accounts ih =>
      have hP : P now := hnow (by simp)
      exact ih (h.insert_account hP a) fun _ => hP

end Ages

/-! ## The counter of the check -/

section Counter

variable (s : ClickhouseSink)

theorem flush_check_counter_force_commit_all :
    s.force_commit_all.flush_check_counter = s.flush_check_counter := by
  unfold force_commit_all
  split
  · exact flush_check_counter_foldl_committed ..
  · rfl

theorem flush_check_counter_write (row : Row) :
    (finalized (s.write size now row)).flush_check_counter = s.flush_check_counter :=
  flush_check_counter_foldl_committed ..

/-- The check counts one account, and starts again at 0 at the interval. -/
theorem flush_check_counter_maybe_force_commit
    (h : s.flush_check_counter < FLUSH_CHECK_INTERVAL) :
    (finalized (s.maybe_force_commit now)).flush_check_counter
      = (s.flush_check_counter + 1) % FLUSH_CHECK_INTERVAL := by
  rw [finalized, flush_check_counter_foldl_committed, maybe_force_commit]
  by_cases hcheck : s.flush_check_counter + 1 = FLUSH_CHECK_INTERVAL
  · rw [if_neg (not_not.mpr hcheck), hcheck, Nat.mod_self]
    rfl
  · rw [if_pos hcheck, Nat.mod_eq_of_lt (by omega)]

/-- Each account is one tick of the counter, whatever rows it writes. -/
theorem flush_check_counter_insert_account (h : s.flush_check_counter < FLUSH_CHECK_INTERVAL)
    (a : AccountWrites) : (s.insert_account size now a).flush_check_counter
      = (s.flush_check_counter + 1) % FLUSH_CHECK_INTERVAL := by
  rw [← s.flush_check_counter_maybe_force_commit now h, insert_account]
  induction a.rows using List.reverseRecOn with
  | nil => rfl
  | append_singleton rows row ih =>
      rw [List.foldl_append, List.foldl_cons, List.foldl_nil, flush_check_counter_write, ih]

/-- An AppendVec is as many ticks of the counter as it has accounts. -/
theorem flush_check_counter_on_append_vec (h : s.flush_check_counter < FLUSH_CHECK_INTERVAL)
    (accounts : List AccountWrites) : (s.on_append_vec size now accounts).flush_check_counter
      = (s.flush_check_counter + accounts.length) % FLUSH_CHECK_INTERVAL := by
  induction accounts generalizing s with
  | nil => exact (Nat.mod_eq_of_lt h).symm
  | cons a accounts ih =>
      have hfirst := s.flush_check_counter_insert_account size now h a
      have hlt : (s.insert_account size now a).flush_check_counter < FLUSH_CHECK_INTERVAL := by
        rw [hfirst]
        exact Nat.mod_lt _ (by decide)
      rw [on_append_vec, List.foldl_cons, ← on_append_vec, ih _ hlt, hfirst, Nat.mod_add_mod,
        List.length_cons]
      congr 1
      omega

end Counter

/-- **A storage with a check.** Every INSERT open after it is younger than five
seconds. -/
theorem OpenedAt.on_append_vec_checked {s : ClickhouseSink} {P : ℕ → Prop}
    (h : s.OpenedAt P) (hnow : P now) (accounts : List AccountWrites)
    (hcounter : s.flush_check_counter < FLUSH_CHECK_INTERVAL)
    (hcheck : FLUSH_CHECK_INTERVAL ≤ s.flush_check_counter + accounts.length) :
    (s.on_append_vec size now accounts).OpenedAt fun o => P o ∧ now < o + MAX_OPEN_INSERT_AGE := by
  have hyoung : P now ∧ now < now + MAX_OPEN_INSERT_AGE :=
    ⟨hnow, Nat.lt_add_of_pos_right (by decide)⟩
  induction accounts generalizing s with
  | nil =>
      simp only [List.length_nil, Nat.add_zero] at hcheck
      omega
  | cons a accounts ih =>
      by_cases hfirst : s.flush_check_counter + 1 = FLUSH_CHECK_INTERVAL
      · -- what the rest of the storage opens is of the present
        exact ((h.checked hfirst).writes hyoung a.rows).on_append_vec fun _ => hyoung
      · have hnext : (s.insert_account size now a).flush_check_counter
            = s.flush_check_counter + 1 := by
          rw [flush_check_counter_insert_account size now s hcounter, Nat.mod_eq_of_lt (by omega)]
        rw [List.length_cons] at hcheck
        exact ih (h.insert_account hnow a) (by omega) (by omega)

/-! ## A table nothing is written to -/

section Frame

variable {size now} {s : ClickhouseSink} {t : RawTable}

/-- The frame of a written row: a tidy table of another name stays as it was. -/
theorem tables_write_frame {row : Row} (h : s.Tidy t) (hrow : t ≠ row.table) :
    (finalized (s.write size now row)).tables t = s.tables t := by
  rw [← tables_write_of_ne size now hrow h]
  apply tables_foldl_committed
  unfold write
  dsimp only
  split <;> simp [hrow]

/-- The first row of a table opens its INSERT; it is too early to look at the limits. -/
theorem tables_write_first {row : Row} (h : s.tables row.table = ⟨[], 0, none⟩) :
    (finalized (s.write size now row)).tables row.table = ⟨[row], 1, some now⟩ := by
  have hnone : (s.write size now row).2 = [] := by
    simp [write, h, BATCH_LIMIT_CHECK_INTERVAL]
  rw [finalized, hnone, List.foldl_nil, tables_write_self]
  simp [pending, h, BATCH_LIMIT_CHECK_INTERVAL]

/-- The check leaves a table alone whose INSERT is younger than five seconds. -/
theorem tables_maybe_force_commit_frame (h : s.Tidy t)
    (hyoung : s.flush_check_counter + 1 = FLUSH_CHECK_INTERVAL →
      ∀ o, (s.tables t).opened_at = some o → now < o + MAX_OPEN_INSERT_AGE) :
    (finalized (s.maybe_force_commit now)).tables t = s.tables t := by
  rw [← tables_maybe_force_commit now h]
  apply tables_foldl_committed
  unfold maybe_force_commit
  by_cases hcheck : s.flush_check_counter + 1 = FLUSH_CHECK_INTERVAL
  · rw [if_neg (not_not.mpr hcheck)]
    intro hmem
    obtain ⟨-, haged⟩ := List.mem_filter.mp hmem
    obtain ⟨o, ho, hold⟩ := (Option.any_eq_true _ _).mp haged
    have hlt := hyoung hcheck o ho
    have hpos : 0 < MAX_OPEN_INSERT_AGE := by decide
    rw [decide_eq_true_eq] at hold
    omega
  · rw [if_pos hcheck]
    exact List.not_mem_nil

theorem tables_force_commit_all_frame (h : s.pending t = []) :
    s.force_commit_all.tables t = s.tables t := by
  unfold force_commit_all
  split
  · apply tables_foldl_committed
    rw [mem_pending_tables]
    exact not_not.mpr h
  · rfl

/-- The frame of a run of written rows. -/
theorem tables_writes_frame {rows : List Row} (h : s.Tidy t) (hrows : ∀ row ∈ rows, t ≠ row.table) :
    (rows.foldl (fun s row => finalized (s.write size now row)) s).tables t = s.tables t := by
  induction rows generalizing s with
  | nil => rfl
  | cons row rows ih =>
      rw [List.forall_mem_cons] at hrows
      have hrow : (finalized (s.write size now row)).tables t = s.tables t :=
        tables_write_frame h hrows.1
      rw [List.foldl_cons, ih _ hrows.2, hrow]
      simpa only [Tidy, pending, hrow] using h

/-- **Storages without rows of the table.** Its INSERT stays as it is, unless a
check finds it five seconds old. -/
theorem tables_on_append_vec_frame {accounts : List AccountWrites} (h : s.Tidy t)
    (hrows : ∀ a ∈ accounts, ∀ row ∈ a.rows, t ≠ row.table)
    (hcounter : s.flush_check_counter < FLUSH_CHECK_INTERVAL)
    (hyoung : FLUSH_CHECK_INTERVAL ≤ s.flush_check_counter + accounts.length →
      ∀ o, (s.tables t).opened_at = some o → now < o + MAX_OPEN_INSERT_AGE) :
    (s.on_append_vec size now accounts).tables t = s.tables t := by
  -- along the accounts, with the sink that the ones before have left
  induction accounts generalizing s with
  | nil => rfl
  | cons a accounts ih =>
      rw [List.forall_mem_cons] at hrows
      rw [List.length_cons] at hyoung
      have hcheck : (finalized (s.maybe_force_commit now)).tables t = s.tables t :=
        tables_maybe_force_commit_frame h fun heq => hyoung (by omega)
      have hfirst : (s.insert_account size now a).tables t = s.tables t := by
        rw [insert_account, tables_writes_frame _ hrows.1, hcheck]
        simpa only [Tidy, pending, hcheck] using h
      have hnext := s.flush_check_counter_insert_account size now hcounter a
      have hlt : (s.insert_account size now a).flush_check_counter < FLUSH_CHECK_INTERVAL := by
        rw [hnext]
        exact Nat.mod_lt _ (by decide)
      rw [on_append_vec, List.foldl_cons, ← on_append_vec, ih _ hrows.2 hlt _, hfirst]
      · simpa only [Tidy, pending, hfirst] using h
      · -- the counter starts anew only after a check
        intro hle
        rw [hfirst]
        apply hyoung
        have := Nat.mod_le (s.flush_check_counter + 1) FLUSH_CHECK_INTERVAL
        omega

end Frame

end ClickhouseSink

/-! ## The worker -/

/-- What `recv_timeout` answers: a storage, in time, or that none came. -/
inductive Received (α : Type*)
  | ok (after : ℕ) (in_time : after ≤ IDLE_INSERT_FLUSH_INTERVAL) (append_vec : α)
  | timeout

namespace Received

variable {α β : Type*}

/-- How long the worker has waited. -/
def after : Received α → ℕ
  | .ok after _ _ => after
  | .timeout => IDLE_INSERT_FLUSH_INTERVAL

def map (f : α → β) : Received α → Received β
  | .ok after in_time append_vec => .ok after in_time (f append_vec)
  | .timeout => .timeout

def is_timeout : Received α → Bool
  | .ok .. => false
  | .timeout => true

@[simp] theorem after_map (f : α → β) (e : Received α) : (e.map f).after = e.after := by
  cases e <;> rfl

/-- The accounts of a storage of which only their number is known. -/
def accounts : Received ℕ → ℕ
  | .ok _ _ accounts => accounts
  | .timeout => 0

end Received

structure TimedWorker where
  now : ℕ
  sink : ClickhouseSink

namespace TimedWorker

variable (size : Row → ℕ)

def new : TimedWorker := ⟨0, .new⟩

/-- One turn of the loop of `insert_all_parallel`. -/
def step (s : TimedWorker) (e : Received (List AccountWrites)) : TimedWorker where
  now := s.now + e.after
  sink := match e with
    | .ok _ _ accounts => s.sink.on_append_vec size (s.now + e.after) accounts
    | .timeout => s.sink.force_commit_all

/-- The worker before its turn `i`. -/
def at_turn (events : List (Received (List AccountWrites))) (i : ℕ) : TimedWorker :=
  (events.take i).foldl (step size) new

/-- Whenever the worker receives something, and once it is done with it, no INSERT
with rows is older than the bound. -/
def InTime (events : List (Received (List AccountWrites))) : Prop :=
  ∀ i < events.length,
    ((at_turn size events i).sink.OpenedAt fun o =>
      (at_turn size events (i + 1)).now ≤ o + INSERT_COMMIT_BOUND) ∧
    ((at_turn size events (i + 1)).sink.OpenedAt fun o =>
      (at_turn size events (i + 1)).now ≤ o + INSERT_COMMIT_BOUND)

end TimedWorker

/-! ## Schedules -/

/-- When a worker receives what, but for the rows. -/
abbrev Schedule := List (Received ℕ)

/-- The schedule of a run. -/
def schedule (events : List (Received (List AccountWrites))) : Schedule :=
  events.map (Received.map List.length)

namespace Schedule

variable (σ : Schedule)

/-- The time at which turn `i` begins to wait. It receives at `elapsed (i + 1)`. -/
def elapsed (i : ℕ) : ℕ := ((σ.take i).map Received.after).sum

/-- The accounts before turn `i`. -/
def accounts (i : ℕ) : ℕ := ((σ.take i).map Received.accounts).sum

/-- Turn `i` parses an account, so that it opens INSERTs. -/
def Writes (i : ℕ) : Prop := σ.accounts i < σ.accounts (i + 1)

/-- Turn `k` reaches the next multiple of 1024 accounts. -/
def Checks (k : ℕ) : Prop :=
  σ.accounts k / FLUSH_CHECK_INTERVAL < σ.accounts (k + 1) / FLUSH_CHECK_INTERVAL

/-- Turn `k` closes what turn `i` opened: it is idle, or it has a check and is at
least five seconds later. -/
def Closes (i k : ℕ) : Prop :=
  σ[k]?.any Received.is_timeout ∨
    (σ.Checks k ∧ σ.elapsed (i + 1) + MAX_OPEN_INSERT_AGE ≤ σ.elapsed (k + 1))

/-- Between a turn that opens INSERTs and one more than fifteen seconds later, some
turn closes them. -/
def ClosesInTime : Prop :=
  ∀ i j, i < j → j < σ.length → σ.Writes i →
    σ.elapsed (i + 1) + INSERT_COMMIT_BOUND < σ.elapsed (j + 1) →
      ∃ k, i < k ∧ k < j ∧ σ.Closes i k

/-- `o` is the time of a turn that opened INSERTs and that no later one closes. -/
def LeftOpen (i o : ℕ) : Prop :=
  ∃ k < i, σ.Writes k ∧ o = σ.elapsed (k + 1) ∧ ∀ m, k < m → m < i → ¬ σ.Closes k m

variable {σ}

/-- The clock after a turn: the clock before it and the time the turn waited. -/
theorem elapsed_succ {i : ℕ} (h : i < σ.length) :
    σ.elapsed (i + 1) = σ.elapsed i + σ[i].after := by
  rw [elapsed, List.take_succ_eq_append_getElem h, List.map_append, List.sum_append]
  rfl

/-- The accounts handled after a turn: those before it and those the turn brings. -/
theorem accounts_succ {i : ℕ} (h : i < σ.length) :
    σ.accounts (i + 1) = σ.accounts i + σ[i].accounts := by
  rw [accounts, List.take_succ_eq_append_getElem h, List.map_append, List.sum_append]
  rfl

/-- A turn with accounts is of a storage, and it has a check when the counter
overflows. -/
theorem checks_iff {k : ℕ} (h : k < σ.length) : σ.Checks k ↔
    FLUSH_CHECK_INTERVAL ≤ σ.accounts k % FLUSH_CHECK_INTERVAL + σ[k].accounts := by
  rw [Checks, accounts_succ h]
  unfold FLUSH_CHECK_INTERVAL
  omega

/-- Turn `k` closes what turn `i` opened when it is a timeout, or when it looks at the ages
and finds this one too old. -/
theorem closes_iff {i k : ℕ} (h : k < σ.length) : σ.Closes i k ↔ σ[k].is_timeout ∨
    (σ.Checks k ∧ σ.elapsed (i + 1) + MAX_OPEN_INSERT_AGE ≤ σ.elapsed (k + 1)) := by
  simp [Closes, List.getElem?_eq_getElem h]

/-- What is left open stays so over a turn that does not close it. -/
theorem LeftOpen.succ {i o : ℕ} (h : σ.LeftOpen i o)
    (hturn : ∀ k, o = σ.elapsed (k + 1) → ¬ σ.Closes k i) : σ.LeftOpen (i + 1) o := by
  obtain ⟨k, hk, hwrites, rfl, hopen⟩ := h
  refine ⟨k, by omega, hwrites, rfl, fun m hkm hm => ?_⟩
  by_cases hlast : m = i
  · rw [hlast]
    exact hturn k rfl
  · exact hopen m hkm (by omega)

/-- What a turn opens is open right after it. -/
theorem leftOpen_self {i : ℕ} (h : σ.Writes i) : σ.LeftOpen (i + 1) (σ.elapsed (i + 1)) :=
  ⟨i, by omega, h, rfl, fun m him hm => by omega⟩

/-- What is open after a storage: what was open before, or what it opened, and if it
had a check, only what is young. -/
theorem leftOpen_of_storage {i o : ℕ} (hi : i < σ.length) (hstorage : σ[i].is_timeout = false)
    (h : σ.LeftOpen i o ∨ (σ.Writes i ∧ o = σ.elapsed (i + 1)))
    (hyoung : σ.Checks i → σ.elapsed (i + 1) < o + MAX_OPEN_INSERT_AGE) :
    σ.LeftOpen (i + 1) o := by
  rcases h with hold | ⟨hwrites, rfl⟩
  · apply hold.succ
    rintro k rfl hcloses
    rw [closes_iff hi, hstorage] at hcloses
    rcases hcloses with htimeout | ⟨hcheck, hage⟩
    · cases htimeout
    · have hlt := hyoung hcheck
      omega
  · exact leftOpen_self hwrites

/-- A request open after a turn was opened in that turn or was open before it. -/
theorem LeftOpen.pred {i o : ℕ} (h : σ.LeftOpen (i + 1) o) :
    o = σ.elapsed (i + 1) ∨ σ.LeftOpen i o := by
  obtain ⟨k, hk, hwrites, rfl, hopen⟩ := h
  by_cases hlast : k = i
  · exact .inl (by rw [hlast])
  · exact .inr ⟨k, by omega, hwrites, rfl, fun m hkm hm => hopen m hkm (by omega)⟩

/-- Nothing is left open for long where everything is closed in time. -/
theorem ClosesInTime.le {i o : ℕ} (h : σ.ClosesInTime) (hopen : σ.LeftOpen i o)
    (hi : i < σ.length) : σ.elapsed (i + 1) ≤ o + INSERT_COMMIT_BOUND := by
  obtain ⟨k, hk, hwrites, rfl, hnone⟩ := hopen
  by_contra hlate
  obtain ⟨m, hkm, hmi, hcloses⟩ := h k i hk hi hwrites (by omega)
  exact hnone m hkm hmi hcloses

end Schedule

/-! ## What a worker keeps to -/

namespace TimedWorker

variable (size : Row → ℕ) {events : List (Received (List AccountWrites))}

theorem lt_length_schedule {i : ℕ} (h : i < events.length) : i < (schedule events).length := by
  simpa [schedule] using h

theorem getElem_schedule {i : ℕ} (h : i < events.length) (hlt : i < (schedule events).length) :
    (schedule events)[i] = events[i].map List.length := by
  simp [schedule]

/-- The worker after one more turn is one step further. -/
theorem at_turn_succ {i : ℕ} (h : i < events.length) :
    at_turn size events (i + 1) = (at_turn size events i).step size events[i] := by
  rw [at_turn, List.take_succ_eq_append_getElem h, List.foldl_append]
  rfl

/-- The worker's clock is the clock of the schedule. -/
theorem at_turn_now {i : ℕ} (h : i ≤ events.length) :
    (at_turn size events i).now = (schedule events).elapsed i := by
  induction i with
  | zero => rfl
  | succ i ih =>
      have hlt := lt_length_schedule h
      rw [at_turn_succ size h, Schedule.elapsed_succ hlt]
      simp [step, schedule, ih (by omega)]

/-- The worker's counter is the number of accounts handled so far, modulo the interval. -/
theorem at_turn_counter {i : ℕ} (h : i ≤ events.length) :
    (at_turn size events i).sink.flush_check_counter
      = (schedule events).accounts i % FLUSH_CHECK_INTERVAL := by
  induction i with
  | zero => rfl
  | succ i ih =>
      have hlt := lt_length_schedule h
      have hcounter := ih (by omega)
      have hbound : (at_turn size events i).sink.flush_check_counter < FLUSH_CHECK_INTERVAL := by
        rw [hcounter]
        exact Nat.mod_lt _ (by decide)
      rw [at_turn_succ size h, Schedule.accounts_succ hlt, getElem_schedule h hlt]
      cases events[i] with
      | ok after in_time accounts =>
          refine (ClickhouseSink.flush_check_counter_on_append_vec _ _ _ hbound accounts).trans ?_
          rw [hcounter, Nat.mod_add_mod]
          rfl
      | timeout =>
          refine Eq.trans ?_ hcounter
          exact ClickhouseSink.flush_check_counter_force_commit_all _

theorem at_turn_counter_lt {i : ℕ} (h : i ≤ events.length) :
    (at_turn size events i).sink.flush_check_counter < FLUSH_CHECK_INTERVAL := by
  rw [at_turn_counter size h]
  exact Nat.mod_lt _ (by decide)

variable {size}

/-- **One turn.** What is open after it was opened by it, or was open before and
not closed. -/
theorem opened_at_step {i : ℕ} (h : i < events.length)
    (hopen : (at_turn size events i).sink.OpenedAt ((schedule events).LeftOpen i)) :
    (at_turn size events (i + 1)).sink.OpenedAt ((schedule events).LeftOpen (i + 1)) := by
  have hlt := lt_length_schedule h
  have hturn := getElem_schedule h hlt
  have hcounter := at_turn_counter size (Nat.le_of_lt h)
  rw [at_turn_succ size h]
  cases he : events[i] with
  | timeout => exact ClickhouseSink.opened_at_force_commit_all
  | ok after in_time accounts =>
      rw [he] at hturn
      have hnow : (at_turn size events i).now + after = (schedule events).elapsed (i + 1) := by
        rw [Schedule.elapsed_succ hlt, at_turn_now size (Nat.le_of_lt h), hturn]
        rfl
      have hwrites : 0 < accounts.length → (schedule events).Writes i := by
        intro hpos
        rw [Schedule.Writes, Schedule.accounts_succ hlt, hturn]
        exact Nat.lt_add_of_pos_right hpos
      have hleft := fun o => Schedule.leftOpen_of_storage (o := o) hlt (by rw [hturn]; rfl)
      have hbefore := hopen.mono fun o ho => Or.inl (b := (schedule events).Writes i ∧
        o = (schedule events).elapsed (i + 1)) ho
      show ((at_turn size events i).sink.on_append_vec size _ accounts).OpenedAt _
      simp only [Received.after, hnow]
      -- a storage in which the check comes up leaves no old request open
      by_cases hcheck : (schedule events).Checks i
      · have hbound := at_turn_counter_lt size (Nat.le_of_lt h)
        have hreach := (Schedule.checks_iff hlt).mp hcheck
        rw [hturn, ← hcounter] at hreach
        change FLUSH_CHECK_INTERVAL ≤ _ + accounts.length at hreach
        exact (hbefore.on_append_vec_checked _ _ (.inr ⟨hwrites (by omega), rfl⟩) accounts hbound
          hreach).mono fun o ho => hleft o ho.1 fun _ => ho.2
      · exact (hbefore.on_append_vec fun hne =>
          .inr ⟨hwrites (List.length_pos_of_ne_nil hne), rfl⟩).mono
            fun o ho => hleft o ho fun h => absurd h hcheck

/-- **A run.** Every INSERT with rows was opened by a turn that none has closed. -/
theorem opened_at_turn {i : ℕ} (h : i ≤ events.length) :
    (at_turn size events i).sink.OpenedAt ((schedule events).LeftOpen i) := by
  induction i with
  | zero =>
      intro t ht
      exact absurd (ClickhouseSink.pending_new t) ht
  | succ i ih => exact opened_at_step h (ih (by omega))

/-- Where all is closed in time, every INSERT is in time. -/
theorem in_time_of_closes (h : (schedule events).ClosesInTime) : InTime size events := by
  intro i hi
  have hlt := lt_length_schedule hi
  rw [at_turn_now size hi]
  refine ⟨(opened_at_turn (Nat.le_of_lt hi)).mono fun o ho => h.le ho hlt,
    (opened_at_turn hi).mono fun o ho => ?_⟩
  rcases ho.pred with rfl | hold
  · exact Nat.le_add_right _ _
  · exact h.le hold hlt

/-! ## A run that shows what is not closed

One mint is written in turn `i` and no row of its table before or after it, so
nothing but the age of its INSERT can close it.
-/

def wallet_account : AccountWrites where
  account :=
    { pubkey := "7fUAJdStEuGbc3sM84cKRL6yYaaSstyLSU4ve5oovLS7"
      owner := "11111111111111111111111111111111"
      lamports := 1
      data_len := 0
      executable := false
      updated_slot := 0 }
  derived := []

def mint_account : AccountWrites where
  account :=
    { pubkey := "So11111111111111111111111111111111111111112"
      owner := "TokenkegQfeZyiNwAJbNbGKPFXCWuBvf9Ss623VQ5DA"
      lamports := 1
      data_len := 82
      executable := false
      updated_slot := 0 }
  derived :=
    [.token_mint
      { mint := "So11111111111111111111111111111111111111112"
        mint_authority := none
        supply := 0
        decimals := 9
        is_initialized := true
        freeze_authority := none
        updated_slot := 0 }]

/-- So many accounts, the first of them a mint. -/
def accounts_with_mint : ℕ → List AccountWrites
  | 0 => []
  | n + 1 => mint_account :: List.replicate n wallet_account

/-- A run of the schedule with a mint in turn `i`. -/
def run_with_mint (σ : Schedule) (i : ℕ) : List (Received (List AccountWrites)) :=
  σ.mapIdx fun k e => e.map fun n =>
    if k = i then accounts_with_mint n else List.replicate n wallet_account

theorem length_accounts_with_mint (n : ℕ) : (accounts_with_mint n).length = n := by
  cases n with
  | zero => rfl
  | succ n => simp [accounts_with_mint]

/-- Every schedule is the schedule of a run: deliver that many accounts of one mint each
time. -/
theorem schedule_run_with_mint (σ : Schedule) (i : ℕ) : schedule (run_with_mint σ i) = σ := by
  apply List.ext_getElem
  · simp [schedule, run_with_mint]
  · intro k hk hk'
    simp only [schedule, run_with_mint, List.getElem_map, List.getElem_mapIdx]
    cases σ[k] with
    | timeout => rfl
    | ok after in_time n =>
        simp only [Received.map]
        split <;> simp [length_accounts_with_mint]

/-- The row of a mint opens the INSERT of its table, and is too few for a look at
the limits. -/
theorem tables_insert_mint_account (size : Row → ℕ) (now : ℕ) {s : ClickhouseSink}
    (h : s.tables .token_mint = ⟨[], 0, none⟩) :
    (s.insert_account size now mint_account).tables .token_mint
      = ⟨mint_account.derived, 1, some now⟩ := by
  have htidy : s.Tidy .token_mint := fun _ => by rw [h]
  have hcheck : (ClickhouseSink.finalized (s.maybe_force_commit now)).tables .token_mint
      = ⟨[], 0, none⟩ := by
    rw [ClickhouseSink.tables_maybe_force_commit_frame htidy, h]
    intro _ o ho
    rw [h] at ho
    cases ho
  have hclosed : (ClickhouseSink.finalized (s.maybe_force_commit now)).Tidy .token_mint :=
    fun _ => by rw [hcheck]
  -- the row of the account goes to another table
  apply ClickhouseSink.tables_write_first
  exact (ClickhouseSink.tables_write_frame hclosed (by decide)).trans hcheck

section Shown

variable {σ : Schedule} {i k : ℕ}

theorem length_run_with_mint : (run_with_mint σ i).length = σ.length := by simp [run_with_mint]

/-- The table of mints before turn `k`. -/
def mint_table (size : Row → ℕ) (σ : Schedule) (i k : ℕ) : TableSink :=
  (at_turn size (run_with_mint σ i) k).sink.tables .token_mint

/-- **A turn without a mint.** Its table stays as it is, unless the turn closes it. -/
theorem mint_table_succ (hk : k < σ.length) (hne : k ≠ i)
    (htidy : (mint_table size σ i k).pending = [] → (mint_table size σ i k).opened_at = none)
    (hidle : σ[k].is_timeout → (mint_table size σ i k).pending = [])
    (hyoung : σ.Checks k → ∀ o, (mint_table size σ i k).opened_at = some o →
      σ.elapsed (k + 1) < o + MAX_OPEN_INSERT_AGE) :
    mint_table size σ i (k + 1) = mint_table size σ i k := by
  have hlt : k < (run_with_mint σ i).length := by rwa [length_run_with_mint]
  have hcounter := at_turn_counter size (Nat.le_of_lt hlt)
  have hnow := at_turn_now size (Nat.le_of_lt hlt)
  have hbound := at_turn_counter_lt size (Nat.le_of_lt hlt)
  rw [schedule_run_with_mint] at hcounter hnow
  rw [mint_table, at_turn_succ size hlt]
  have hturn : (run_with_mint σ i)[k] = σ[k].map fun n => List.replicate n wallet_account := by
    simp [run_with_mint, hne]
  have htime := Schedule.elapsed_succ hk
  rw [Schedule.checks_iff hk, htime] at hyoung
  -- a turn without the mint writes only the wallet account
  rw [hturn]
  cases he : σ[k] with
  | timeout =>
      rw [he] at hidle
      exact ClickhouseSink.tables_force_commit_all_frame (hidle rfl)
  | ok after in_time n =>
      rw [he] at hyoung
      show ((at_turn size (run_with_mint σ i) k).sink.on_append_vec size _
        (List.replicate n wallet_account)).tables .token_mint = _
      apply ClickhouseSink.tables_on_append_vec_frame htidy _ hbound
      · intro hreach
        rw [hnow]
        apply hyoung
        rw [List.length_replicate, hcounter] at hreach
        exact hreach
      · intro a ha row hrow
        rw [List.eq_of_mem_replicate ha] at hrow
        rw [List.mem_singleton.mp hrow]
        decide

/-- Before turn `i` the table was never written. -/
theorem mint_table_before (hk : k ≤ i) (hi : i < σ.length) :
    mint_table size σ i k = ⟨[], 0, none⟩ := by
  induction k with
  | zero => rfl
  | succ k ih =>
      have hsame := ih (by omega)
      rw [mint_table_succ (by omega) (by omega)] <;> simp [hsame]

/-- Turn `i` opens its INSERT. -/
theorem mint_table_opened (hi : i < σ.length) (hwrites : σ.Writes i) :
    (mint_table size σ i (i + 1)).pending ≠ [] ∧
      (mint_table size σ i (i + 1)).opened_at = some (σ.elapsed (i + 1)) := by
  have hlt : i < (run_with_mint σ i).length := by rwa [length_run_with_mint]
  have hbound := at_turn_counter_lt size (Nat.le_of_lt hlt)
  have hnow := at_turn_now size (Nat.le_of_lt hlt)
  have hempty : (at_turn size (run_with_mint σ i) i).sink.tables .token_mint = ⟨[], 0, none⟩ :=
    mint_table_before (Nat.le_refl i) hi
  have hturn : (run_with_mint σ i)[i] = σ[i].map accounts_with_mint := by
    simp [run_with_mint]
  rw [schedule_run_with_mint] at hnow
  rw [Schedule.Writes, Schedule.accounts_succ hi] at hwrites
  rw [Schedule.elapsed_succ hi, mint_table, at_turn_succ size hlt, hturn]
  cases he : σ[i] with
  | timeout =>
      rw [he] at hwrites
      simp [Received.accounts] at hwrites
  | ok after in_time n =>
      rw [he] at hwrites
      cases n with
      | zero => simp [Received.accounts] at hwrites
      | succ n =>
          -- the mint is the first account, and no other account touches its table
          let time := (at_turn size (run_with_mint σ i) i).now + after
          let first := (at_turn size (run_with_mint σ i) i).sink.insert_account size time
            mint_account
          have hmint : first.tables .token_mint = ⟨mint_account.derived, 1, some time⟩ :=
            tables_insert_mint_account size time hempty
          have hrest : (first.on_append_vec size time (List.replicate n wallet_account)).tables
              .token_mint = ⟨mint_account.derived, 1, some time⟩ := by
            rw [← hmint]
            apply ClickhouseSink.tables_on_append_vec_frame
            · simp [ClickhouseSink.Tidy, ClickhouseSink.pending, hmint, mint_account]
            · intro a ha row hrow
              rw [List.eq_of_mem_replicate ha] at hrow
              rw [List.mem_singleton.mp hrow]
              decide
            · rw [ClickhouseSink.flush_check_counter_insert_account size time _ hbound]
              exact Nat.mod_lt _ (by decide)
            · intro _ o ho
              rw [hmint] at ho
              obtain rfl : time = o := Option.some.inj ho
              exact Nat.lt_add_of_pos_right (by decide)
          show ((first.on_append_vec size time (List.replicate n wallet_account)).tables
              .token_mint).pending ≠ [] ∧ ((first.on_append_vec size time
                (List.replicate n wallet_account)).tables .token_mint).opened_at = _
          rw [hrest]
          refine ⟨by simp [mint_account], ?_⟩
          show some time = _
          rw [← hnow]
          rfl

/-- It stays open until a turn closes it. -/
theorem mint_table_left (hwrites : σ.Writes i) (hik : i < k) (hk : k < σ.length)
    (hnone : ∀ m, i < m → m < k → ¬ σ.Closes i m) :
    (mint_table size σ i k).pending ≠ [] ∧
      (mint_table size σ i k).opened_at = some (σ.elapsed (i + 1)) := by
  induction k, hik using Nat.le_induction with
  | base => exact mint_table_opened (by omega) hwrites
  | succ k hik ih =>
      obtain ⟨hpending, hopened⟩ := ih (by omega) fun m him hm => hnone m him (by omega)
      have hopen := hnone k hik (by omega)
      rw [Schedule.closes_iff (by omega), not_or, not_and] at hopen
      have hsame : mint_table size σ i (k + 1) = mint_table size σ i k := by
        apply mint_table_succ (by omega) (by omega)
        · exact fun hnil => absurd hnil hpending
        · exact fun htimeout => absurd htimeout hopen.1
        · intro hcheck o ho
          have hage := hopen.2 hcheck
          rw [hopened] at ho
          obtain rfl := Option.some.inj ho
          omega
      rw [hsame]
      exact ⟨hpending, hopened⟩

end Shown

/-- Where every INSERT is in time whatever the rows are, all is closed in time. -/
theorem closes_of_in_time {σ : Schedule} (h : ∀ i, InTime size (run_with_mint σ i)) :
    σ.ClosesInTime := by
  intro i j hij hj hwrites hlate
  by_contra hnone
  have hlt : j < (run_with_mint σ i).length := by rwa [length_run_with_mint]
  obtain ⟨hpending, hopened⟩ : (mint_table size σ i j).pending ≠ [] ∧
      (mint_table size σ i j).opened_at = some (σ.elapsed (i + 1)) :=
    mint_table_left hwrites hij hj fun m him hmj hcloses => hnone ⟨m, him, hmj, hcloses⟩
  obtain ⟨o, ho, hage⟩ := (h i j hlt).1 .token_mint hpending
  rw [at_turn_now size (i := j + 1) hlt, schedule_run_with_mint] at hage
  obtain rfl := Option.some.inj (hopened.symm.trans ho)
  omega

end TimedWorker

/-! ## The bound of the README -/

/-- **Every open INSERT is committed within 15 seconds** exactly on the schedules
that close in time what they open: whatever the accounts write, if they do, and
not for some of it if they do not. What a storage does to the sink here is what the
operations of the worker do to it (`perform_on_delivered`). -/
theorem inserts_in_time_iff (size : Row → ℕ) (σ : Schedule) :
    (∀ events, schedule events = σ → TimedWorker.InTime size events) ↔ σ.ClosesInTime := by
  constructor
  · intro h
    exact TimedWorker.closes_of_in_time fun i =>
      h _ (TimedWorker.schedule_run_with_mint σ i)
  · rintro h events rfl
    exact TimedWorker.in_time_of_closes h

/-- Three storages of one account each, nine seconds apart. -/
def sparse_storages : List (Received (List AccountWrites)) :=
  List.replicate 3 (.ok (9 * 10 ^ 9) (by decide) [TimedWorker.wallet_account])

/-- The INSERT opened by the first is eighteen seconds old when the third comes. -/
theorem sparse_storages_late : ¬ TimedWorker.InTime (fun _ => 0) sparse_storages := by
  intro h
  obtain ⟨o, ho, hage⟩ := (h 2 (by decide)).1 .account (by decide)
  have hopened : ((TimedWorker.at_turn (fun _ => 0) sparse_storages 2).sink.tables
      .account).opened_at = some (9 * 10 ^ 9) := by decide
  have hnow : (TimedWorker.at_turn (fun _ => 0) sparse_storages 3).now = 27 * 10 ^ 9 := by decide
  obtain rfl := Option.some.inj (hopened.symm.trans ho)
  rw [hnow] at hage
  exact absurd hage (by decide)

end SnapshotEtl
