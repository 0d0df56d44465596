/-
One thread of an import and the rows it owes: its sinks, the operations it has
still to perform, and the commits its last call decided on.

Both the workers and the thread that merges the metadata run on this. Each call
and each commit keeps the balance `Exec.balance`: stored, pending and still to
be written together stay the same bag of rows until something fails.
-/
import SnapshotEtl.Sink
import SnapshotEtl.Stats
import Mathlib.Tactic.Abel

set_option autoImplicit false

namespace SnapshotEtl

/-! ## The tables of the two groups -/

abbrev Db := TableGroup → Group

def Group.insert_all (g : Group) (rows : List Row) : Group := rows.foldl Group.insert g

/-- What a group's sinks have stored in it, as a bag. -/
def Group.rows (g : Group) : Multiset Row :=
  (g.raw_account.map Row.account : Multiset Row) +
    (g.hot_token_account_state.map Row.token_account : Multiset Row) +
    (g.raw_token_mint.map Row.token_mint : Multiset Row) +
    (g.raw_token_metadata.map Row.token_metadata : Multiset Row)

/-- One more row in the tables. -/
theorem Group.rows_insert (g : Group) (row : Row) : (g.insert row).rows = g.rows + {row} := by
  cases row <;>
    simp only [insert, rows, List.map_append, List.map_cons, List.map_nil, ← Multiset.coe_add,
      ← Multiset.coe_singleton] <;> abel

/-- Rows added to the tables are there once each. -/
theorem Group.rows_insert_all (g : Group) (rows : List Row) :
    (g.insert_all rows).rows = g.rows + rows := by
  induction rows generalizing g with
  | nil => simp [insert_all]
  | cons row rows ih =>
      change ((g.insert row).insert_all rows).rows = _
      rw [ih, rows_insert, add_assoc]
      rfl

theorem Group.count_rows (g : Group) (row : Row) : g.rows.count row =
    match row with
    | .account row => g.raw_account.count row
    | .token_account row => g.hot_token_account_state.count row
    | .token_mint row => g.raw_token_mint.count row
    | .token_metadata row => g.raw_token_metadata.count row := by
  have hsame : ∀ {α : Type} [DecidableEq α] (f : α → Row) (hf : Function.Injective f)
      (xs : List α) (x : α), (xs.map f).count (f x) = xs.count x := fun f hf xs x =>
    List.count_map_of_injective xs f hf x
  have hother : ∀ {α : Type} (f : α → Row) (xs : List α) (r : Row), (∀ x, f x ≠ r) →
      (xs.map f).count r = 0 := by
    intro α f xs r hne
    rw [List.count_eq_zero]
    intro hmem
    obtain ⟨x, -, hx⟩ := List.mem_map.mp hmem
    exact hne x hx
  cases row <;> simp only [rows, Multiset.count_add, Multiset.coe_count]
  · rw [hsame _ (fun _ _ h => Row.account.inj h), hother, hother, hother] <;> simp
  · rw [hother, hsame _ (fun _ _ h => Row.token_account.inj h), hother, hother] <;> simp
  · rw [hother, hother, hsame _ (fun _ _ h => Row.token_mint.inj h), hother] <;> simp
  · rw [hother, hother, hother, hsame _ (fun _ _ h => Row.token_metadata.inj h)] <;> simp

/-- Equal bags are equal tables up to the order of insertion. -/
theorem Group.perm_of_rows_eq {g g' : Group} (h : g.rows = g'.rows) :
    g.raw_account.Perm g'.raw_account ∧
      g.hot_token_account_state.Perm g'.hot_token_account_state ∧
      g.raw_token_mint.Perm g'.raw_token_mint ∧
      g.raw_token_metadata.Perm g'.raw_token_metadata := by
  have hcount : ∀ row, g.rows.count row = g'.rows.count row := fun row => by rw [h]
  simp only [Group.count_rows] at hcount
  exact ⟨List.perm_iff_count.mpr fun r => hcount (.account r),
    List.perm_iff_count.mpr fun r => hcount (.token_account r),
    List.perm_iff_count.mpr fun r => hcount (.token_mint r),
    List.perm_iff_count.mpr fun r => hcount (.token_metadata r)⟩

/-- Store rows in a group. -/
def Db.store (db : Db) (group : TableGroup) (rows : List Row) : Db :=
  Function.update db group ((db group).insert_all rows)

/-- Rows of other tables leave the metadata table alone. -/
theorem Group.insert_all_metadata (g : Group) (rows : List Row)
    (h : ∀ row ∈ rows, row.table ≠ .token_metadata) :
    (g.insert_all rows).raw_token_metadata = g.raw_token_metadata := by
  induction rows generalizing g with
  | nil => rfl
  | cons row rows ih =>
      change ((g.insert row).insert_all rows).raw_token_metadata = _
      rw [ih _ fun r hr => h r (List.mem_cons_of_mem _ hr)]
      have hrow := h row (by simp)
      cases row <;> simp [insert, Row.table] at hrow ⊢

/-- A commit adds its rows to the tables of its group. -/
theorem Db.rows_store (db : Db) (group g : TableGroup) (rows : List Row) :
    (db.store group rows g).rows
      = (db g).rows + if g = group then (rows : Multiset Row) else 0 := by
  by_cases h : g = group
  · subst h
    simp [store, Group.rows_insert_all]
  · simp [store, h]

/-! ## Threads -/

/-- `flush` is `force_commit_all`, and `end`, which commits the same tables. -/
inductive Task
  | parser (op : ImportOp)
  | flush (group : TableGroup)

def Task.rows (group : TableGroup) : Task → List Row
  | .parser op => op.rows group
  | .flush _ => []

/-- How ClickHouse answers the finalization of an INSERT; one that fails may
have stored the first rows of it. -/
inductive Reply
  | ok
  | err (stored : ℕ)
deriving DecidableEq, Repr

structure Exec where
  sinks : TableGroup → ClickhouseSink
  commits : List (TableGroup × RawTable)
  todo : List Task

namespace Exec

def new : Exec := ⟨fun _ => .new, [], []⟩

def idle (e : Exec) : Bool := e.commits.isEmpty && e.todo.isEmpty

/-- The next call, once the commits of the last one are done. -/
def call (size : Row → ℕ) (now : ℕ) (e : Exec) : Option Exec :=
  match e.commits, e.todo with
  | [], task :: todo =>
      match task with
      | .parser (.lane group (.write row)) =>
          let (sink, tables) := (e.sinks group).write size now row
          some ⟨Function.update e.sinks group sink, tables.map fun t => (group, t), todo⟩
      | .parser (.lane group .maybe_force_commit) =>
          let (sink, tables) := (e.sinks group).maybe_force_commit now
          some ⟨Function.update e.sinks group sink, tables.map fun t => (group, t), todo⟩
      | .parser _ => some { e with todo }
      | .flush group =>
          some { e with commits := (e.sinks group).pending_tables.map fun t => (group, t), todo }
  | _, _ => none

/-- The operation the next call performs, where it is one of the parser's. -/
def next_op (e : Exec) : Option ImportOp :=
  match e.todo with
  | .parser op :: _ => some op
  | _ => none

/-- Whether the next call sends a row. -/
def writes (e : Exec) : Bool :=
  match e.commits, e.todo with
  | [], .parser (.lane _ (.write _)) :: _ => true
  | _, _ => false

/-- The next commit: the thread after it, the tables, and whether it succeeded. -/
def commit (reply : Reply) (db : Db) (e : Exec) : Option (Exec × Db × Bool) :=
  match e.commits with
  | [] => none
  | (group, t) :: commits =>
      let pending := (e.sinks group).pending t
      match reply with
      | .ok => some
          (⟨Function.update e.sinks group ((e.sinks group).committed t), commits, e.todo⟩,
            db.store group pending, true)
      | .err stored => some (e, db.store group (pending.take stored), false)

/-! ## The balance of a thread -/

/-- The rows a thread still owes a group: pending in its sink or not written. -/
def owed (e : Exec) (group : TableGroup) : Multiset Row :=
  (e.sinks group).bag + (e.todo.flatMap (Task.rows group) : List Row)

/-- **A call keeps what is owed.** -/
theorem call_spec {size : Row → ℕ} {now : ℕ} {e e' : Exec} (h : e.call size now = some e') :
    e.commits = [] ∧ (∃ task, e.todo = task :: e'.todo) ∧ ∀ g, e'.owed g = e.owed g := by
  obtain ⟨sinks, commits, todo⟩ := e
  cases commits with
  | cons c commits => simp [call] at h
  | nil =>
      cases todo with
      | nil => simp [call] at h
      | cons task todo =>
          refine ⟨rfl, ?_⟩
          -- what is owed moves from the task to the sink of its group
          rcases task with (⟨group, op⟩ | c) | group
          · cases op with
            | write row =>
                simp only [call, Option.some.injEq] at h
                subst h
                refine ⟨⟨_, rfl⟩, fun g => ?_⟩
                by_cases hg : g = group
                · subst hg
                  simp [owed, Task.rows, ImportOp.rows, ClickhouseSink.bag_write, add_assoc]
                · simp [owed, Task.rows, ImportOp.rows, hg, Ne.symm hg]
            | maybe_force_commit =>
                simp only [call, Option.some.injEq] at h
                subst h
                refine ⟨⟨_, rfl⟩, fun g => ?_⟩
                by_cases hg : g = group
                · subst hg
                  simp [owed, Task.rows, ImportOp.rows]
                · simp [owed, Task.rows, ImportOp.rows, hg]
            | _ =>
                simp only [call, Option.some.injEq] at h
                subst h
                exact ⟨⟨_, rfl⟩, fun g => by simp [owed, Task.rows, ImportOp.rows]⟩
          · simp only [call, Option.some.injEq] at h
            subst h
            exact ⟨⟨_, rfl⟩, fun g => by simp [owed, Task.rows, ImportOp.rows]⟩
          · simp only [call, Option.some.injEq] at h
            subst h
            exact ⟨⟨_, rfl⟩, fun g => by simp [owed, Task.rows]⟩

/-- **A commit pays what it stores.** -/
theorem commit_spec {db db' : Db} {e e' : Exec} {reply : Reply}
    (h : e.commit reply db = some (e', db', true)) :
    e'.todo = e.todo ∧ ∀ g, (db' g).rows + e'.owed g = (db g).rows + e.owed g := by
  obtain ⟨sinks, commits, todo⟩ := e
  cases commits with
  | nil => simp [commit] at h
  | cons c commits =>
      obtain ⟨group, t⟩ := c
      cases reply with
      | err stored => simp [commit] at h
      | ok =>
          simp only [commit, Option.some.injEq, Prod.mk.injEq, and_true] at h
          obtain ⟨rfl, rfl⟩ := h
          refine ⟨rfl, fun g => ?_⟩
          rw [Db.rows_store]
          by_cases hg : g = group
          · subst hg
            have hbag := (sinks g).bag_committed t
            simp only [owed, Function.update_self, if_true, ← hbag]
            abel
          · simp [owed, hg]

/-- A commit takes rows out of what is owed, and stores none in a group it owes
nothing, nor of a table it owes no row of. -/
theorem commit_frame {db db' : Db} {e e' : Exec} {reply : Reply}
    (h : e.commit reply db = some (e', db', true)) (g : TableGroup) :
    e'.owed g ≤ e.owed g ∧ (e.owed g = 0 → db' g = db g) ∧
      ((∀ row ∈ e.owed g, row.table ≠ .token_metadata) →
        (db' g).raw_token_metadata = (db g).raw_token_metadata) := by
  obtain ⟨sinks, commits, todo⟩ := e
  cases commits with
  | nil => simp [commit] at h
  | cons c commits =>
      obtain ⟨group, t⟩ := c
      cases reply with
      | err stored => simp [commit] at h
      | ok =>
          simp only [commit, Option.some.injEq, Prod.mk.injEq, and_true] at h
          obtain ⟨rfl, rfl⟩ := h
          -- the rows stored were pending, so they were owed
          by_cases hg : g = group
          · subst hg
            have hbag := (sinks g).bag_committed t
            have hle : ((sinks g).pending t : Multiset Row) ≤ (sinks g).bag :=
              hbag ▸ Multiset.le_add_left _ _
            have howed : ((sinks g).pending t : Multiset Row)
                ≤ owed ⟨sinks, (g, t) :: commits, todo⟩ g :=
              le_trans hle (Multiset.le_add_right _ _)
            refine ⟨?_, fun hzero => ?_, fun htables => ?_⟩
            · simp only [owed, Function.update_self, ← hbag]
              exact add_le_add_left (Multiset.le_add_right _ _) _
            · rw [hzero] at howed
              have hnil : (sinks g).pending t = [] := by
                simpa using Multiset.le_zero.mp howed
              simp [Db.store, hnil, Group.insert_all]
            · simp only [Db.store, Function.update_self]
              exact Group.insert_all_metadata _ _ fun row hrow =>
                htables row (Multiset.mem_of_le howed hrow)
          · refine ⟨?_, fun _ => ?_, fun _ => ?_⟩ <;> simp [owed, Db.store, hg]

/-! ## Flushing -/

/-- Everything pending in a group's sink is about to be committed. -/
def Covered (e : Exec) (group : TableGroup) : Prop :=
  ∀ t, (e.sinks group).pending t ≠ [] → (group, t) ∈ e.commits ∨ .flush group ∈ e.todo

/-- Every write still to be done is followed by a flush of its group. -/
def Closed (e : Exec) : Prop :=
  ∀ before task after, e.todo = before ++ task :: after →
    ∀ group, task.rows group ≠ [] → .flush group ∈ after

/-- A list of flushes is closed: it has no write left. -/
theorem closed_flushes {e : Exec} {groups : List TableGroup}
    (h : e.todo = groups.map .flush) : e.Closed := by
  intro before task after htodo group hrows
  have htask : task ∈ groups.map Task.flush := by
    rw [← h, htodo]
    simp
  obtain ⟨g, -, rfl⟩ := List.mem_map.mp htask
  simp [Task.rows] at hrows

/-- A call keeps the rest of the list closed. -/
theorem Closed.call {size : Row → ℕ} {now : ℕ} {e e' : Exec} (hclosed : e.Closed)
    (h : e.call size now = some e') : e'.Closed := by
  obtain ⟨-, ⟨head, htodo⟩, -⟩ := call_spec h
  intro before task after hafter
  exact hclosed (head :: before) task after (by rw [htodo, hafter]; rfl)

/-- A call leaves every row that waits covered by a flush to come. -/
theorem Covered.call {size : Row → ℕ} {now : ℕ} {e e' : Exec} {group : TableGroup}
    (hcov : e.Covered group) (hclosed : e.Closed) (h : e.call size now = some e') :
    e'.Covered group := by
  obtain ⟨sinks, commits, todo⟩ := e
  obtain ⟨sinks', commits', todo'⟩ := e'
  obtain ⟨rfl, ⟨task, htodo⟩, -⟩ := call_spec h
  obtain rfl : todo = task :: todo' := htodo
  have hflush : ∀ t, (sinks group).pending t ≠ [] →
      Task.flush group = task ∨ .flush group ∈ todo' := by
    intro t ht
    rcases hcov t ht with hc | hf
    · simp at hc
    · exact List.mem_cons.mp hf
  rcases task with (⟨g, op⟩ | c) | g
  · by_cases hwrite : (Task.parser (.lane g op)).rows group = []
    · -- nothing new is pending in the group, and its flush is still to come
      intro t ht
      refine .inr ((hflush t ?_).resolve_left (by simp))
      cases op with
      | write row =>
          simp only [Exec.call, Option.some.injEq, mk.injEq, and_true] at h
          obtain ⟨rfl, -⟩ := h
          have hg : group ≠ g := by
            rintro rfl
            simp [Task.rows, ImportOp.rows] at hwrite
          simpa [hg] using ht
      | maybe_force_commit =>
          simp only [Exec.call, Option.some.injEq, mk.injEq, and_true] at h
          obtain ⟨rfl, -⟩ := h
          by_cases hg : group = g
          · subst hg
            simpa using ht
          · simpa [hg] using ht
      | _ =>
          simp only [Exec.call, Option.some.injEq, mk.injEq, and_true] at h
          obtain ⟨rfl, -⟩ := h
          exact ht
    · intro t _
      exact .inr (hclosed [] _ todo' rfl group hwrite)
  · simp only [Exec.call, Option.some.injEq, mk.injEq, and_true] at h
    obtain ⟨rfl, -⟩ := h
    exact fun t ht => .inr ((hflush t ht).resolve_left (by simp))
  · simp only [Exec.call, Option.some.injEq, mk.injEq, and_true] at h
    obtain ⟨rfl, rfl⟩ := h
    intro t ht
    rcases hflush t ht with hg | hf
    · obtain rfl : group = g := by simpa using hg
      exact .inl (List.mem_map.mpr ⟨t, (sinks group).mem_pending_tables.mpr ht, rfl⟩)
    · exact .inr hf

/-- So does a commit. -/
theorem Covered.commit {db db' : Db} {e e' : Exec} {reply : Reply} {group : TableGroup}
    (hcov : e.Covered group) (h : e.commit reply db = some (e', db', true)) :
    e'.Covered group := by
  obtain ⟨sinks, commits, todo⟩ := e
  cases commits with
  | nil => simp [Exec.commit] at h
  | cons c commits =>
      obtain ⟨g, t⟩ := c
      cases reply with
      | err stored => simp [Exec.commit] at h
      | ok =>
          simp only [Exec.commit, Option.some.injEq, Prod.mk.injEq, and_true] at h
          obtain ⟨rfl, -⟩ := h
          intro t' ht'
          -- another table of the group keeps its commit or its flush
          by_cases hg : group = g
          · subst hg
            simp only [Function.update_self, ClickhouseSink.pending_committed] at ht'
            by_cases htt : t' = t
            · simp [htt] at ht'
            · rw [if_neg htt] at ht'
              rcases hcov t' ht' with hc | hf
              · left
                simpa [htt] using hc
              · exact .inr hf
          · simp only [ne_eq, hg, not_false_eq_true, Function.update_of_ne] at ht'
            rcases hcov t' ht' with hc | hf
            · left
              simpa [hg] using hc
            · exact .inr hf

/-- A covered sink owes nothing once its thread is idle. -/
theorem Covered.owed_eq_zero {e : Exec} {group : TableGroup} (hcov : e.Covered group)
    (hidle : e.idle = true) : e.owed group = 0 := by
  obtain ⟨sinks, commits, todo⟩ := e
  simp only [idle, Bool.and_eq_true, List.isEmpty_iff] at hidle
  obtain ⟨rfl, rfl⟩ := hidle
  have hpending : ∀ t, (sinks group).pending t = [] := by
    intro t
    by_contra ht
    rcases hcov t ht with h | h <;> simp at h
  simp [owed, ClickhouseSink.bag_eq_zero _ hpending]

end Exec

end SnapshotEtl
