/-
What every import of a stream is made of: the items of the stream, what is done
with a storage, which sinks there are, and the merge of the metadata that ends
it.

The sequential import, the parallel one and the fan-out differ in who performs
these; the merge is the same in all three, so its balance is kept here, for any
thread that performs it (`MergeInv`).
-/
import SnapshotEtl.Exec
import SnapshotEtl.FanoutWorker

set_option autoImplicit false

namespace SnapshotEtl

/-- What the extractor's iterator yields. -/
inductive StreamItem
  | ok (append_vec : AppendVec)
  | err
deriving DecidableEq

/-! ## What a parser performs -/

/-- The operations a worker may perform: on its own lane, and no metadata row,
since those are only written once the stream is over. -/
def Worker.Performs (w : Worker) : ImportOp → Prop
  | .count _ => True
  | .lane group op => group = w.group ∧ ∀ row, op = .write row → row.table ≠ .token_metadata

/-- The row of `raw_account`, dated by the snapshot and not by the account. -/
def Worker.account_row (w : Worker) (account : StoredAccountMeta) : AccountRow where
  pubkey := pubkey_string account.stored_meta.pubkey
  owner := pubkey_string account.account_meta.owner
  lamports := account.account_meta.lamports
  data_len := account.stored_meta.data_len
  executable := account.account_meta.executable
  updated_slot := w.snapshot_slot

/-- The operations that follow the row of an account: they write to the two token
tables only and look at no age. -/
def Worker.Derives (w : Worker) : ImportOp → Prop
  | .count _ => True
  | .lane group op => group = w.group ∧ op ≠ .maybe_force_commit ∧
      ∀ row, op = .write row → row.table = .token_account ∨ row.table = .token_mint

/-- The operations it performs for one account: besides its row, those of the two
token tables. -/
def Worker.Writes (w : Worker) (account : StoredAccountMeta) : ImportOp → Prop
  | .count _ => True
  | .lane group op => group = w.group ∧ ∀ row, op = .write row →
      row = .account (w.account_row account) ∨ row.table = .token_account ∨
        row.table = .token_mint

section Performs

variable {α : Type*} {P : α → Prop}

theorem forall_mem_ite {p : Prop} [Decidable p] {xs ys : List α} (hx : ∀ x ∈ xs, P x)
    (hy : ∀ x ∈ ys, P x) : ∀ x ∈ (if p then xs else ys), P x := by
  split
  · exact hx
  · exact hy

end Performs

section derives

variable (dec : Decoders) (w : Worker) (account : StoredAccountMeta) (slot : Slot)

theorem Worker.derives_nil : ∀ op ∈ ([] : List ImportOp), w.Derives op := by simp

theorem Worker.derives_record_close_candidate :
    ∀ op ∈ w.record_close_candidate account slot, w.Derives op :=
  forall_mem_ite (by simp [Derives]) w.derives_nil

/-- The row of a hot token account is derived from that account. -/
theorem Worker.derives_write_hot_token_account_row (mint owner amount delegate delegated state
    close) :
    ∀ op ∈ w.write_hot_token_account_row account slot mint owner amount delegate delegated
      state close, w.Derives op := by
  have hpair : ∀ op ∈ w.remember_affected_pair mint owner, w.Derives op :=
    forall_mem_ite (by simp [Derives]) w.derives_nil
  refine forall_mem_ite (by simp [Derives]) ?_
  exact List.forall_mem_append.mpr ⟨hpair, by simp [Derives, Row.table]⟩

/-- So is a recorded metadata patch. -/
theorem Worker.derives_record_token_2022_metadata (metadata expected source source_account) :
    ∀ op ∈ (w.record_token_2022_metadata metadata expected slot source source_account).1,
      w.Derives op := by
  unfold Worker.record_token_2022_metadata
  dsimp only
  split_ifs <;> simp [Derives]

/-- An account or a mint of SPL Token, by its length. -/
theorem Worker.derives_insert_spl_token :
    ∀ op ∈ w.insert_spl_token dec account slot, w.Derives op := by
  refine forall_mem_ite ?_ (forall_mem_ite ?_ (by simp [Derives]))
  · cases dec.unpack_account account.data with
    | none =>
        exact List.forall_mem_cons.mpr ⟨trivial, w.derives_record_close_candidate account slot⟩
    | some token_account =>
        have hrow := w.derives_write_hot_token_account_row account slot
        exact List.forall_mem_append.mpr
          ⟨forall_mem_ite (hrow _ _ _ _ _ _ _) w.derives_nil, by simp [Derives]⟩
  · cases dec.unpack_mint account.data with
    | none => simp [Derives]
    | some token_mint =>
        exact List.forall_mem_append.mpr
          ⟨forall_mem_ite (by simp [Derives, Row.table]) w.derives_nil, by simp [Derives]⟩

/-- An account, a mint with its extensions, or a metadata value of Token-2022. -/
theorem Worker.derives_insert_token_2022 :
    ∀ op ∈ w.insert_token_2022 dec account slot, w.Derives op := by
  unfold Worker.insert_token_2022
  cases dec.unpack_token_2022_base_state account.data with
  | none =>
      cases dec.parse_token_2022_metadata_value account.data with
      | none =>
          exact List.forall_mem_cons.mpr ⟨trivial, w.derives_record_close_candidate account slot⟩
      | some metadata =>
          have hops := w.derives_record_token_2022_metadata slot metadata none .Token2022Standalone
            (pubkey_string account.stored_meta.pubkey)
          refine List.forall_mem_append.mpr ⟨List.forall_mem_append.mpr ⟨hops, ?_⟩,
            by simp [Derives]⟩
          exact forall_mem_ite (by simp [Derives]) w.derives_nil
  | some state =>
      cases state with
      | Account token_account =>
          have hrow := w.derives_write_hot_token_account_row account slot
          exact List.forall_mem_append.mpr
            ⟨forall_mem_ite (hrow _ _ _ _ _ _ _) w.derives_nil, by simp [Derives]⟩
      | Mint token_mint =>
          refine List.forall_mem_append.mpr ⟨forall_mem_ite ?_ w.derives_nil, by simp [Derives]⟩
          refine List.forall_mem_cons.mpr ⟨by simp [Derives, Row.table], ?_⟩
          cases dec.parse_token_2022_mint_extensions account.data with
          | none => exact w.derives_nil
          | some parsed =>
              refine List.forall_mem_cons.mpr ⟨by simp [Derives],
                List.forall_mem_append.mpr ⟨?_, by simp [Derives]⟩⟩
              cases parsed.token_metadata with
              | none => exact w.derives_nil
              | some metadata => exact w.derives_record_token_2022_metadata slot _ _ _ _

/-- So is a row of token metadata. -/
theorem Worker.derives_insert_token_metadata :
    ∀ op ∈ w.insert_token_metadata dec account slot, w.Derives op := by
  unfold Worker.insert_token_metadata
  cases dec.metaplex_fields account.data with
  | none => exact w.derives_nil
  | some value => exact forall_mem_ite w.derives_nil (by simp [Derives])

/-- **One account.** Its age check, its row, and what derives from it. -/
theorem Worker.derives_insert_account :
    ∃ derived, w.insert_account dec account slot
      = .lane w.group .maybe_force_commit ::
        .lane w.group (.write (.account (w.account_row account))) :: derived ∧
      ∀ op ∈ derived, w.Derives op := by
  unfold Worker.insert_account
  simp only [List.append_assoc, List.cons_append, List.nil_append]
  refine ⟨_, rfl, ?_⟩
  simp only [List.forall_mem_append]
  refine ⟨forall_mem_ite (w.derives_record_close_candidate account slot) w.derives_nil, ?_,
    forall_mem_ite (w.derives_insert_token_metadata dec account slot) w.derives_nil,
    by simp [Derives]⟩
  -- the branch of the program that owns it
  exact forall_mem_ite
    (List.forall_mem_cons.mpr ⟨trivial, w.derives_insert_spl_token dec account slot⟩)
    (forall_mem_ite
      (List.forall_mem_cons.mpr ⟨trivial, w.derives_insert_token_2022 dec account slot⟩)
      w.derives_nil)

end derives

theorem Worker.Derives.writes {w : Worker} {op : ImportOp} (h : w.Derives op)
    (account : StoredAccountMeta) : w.Writes account op := by
  cases op with
  | count c => trivial
  | lane group op => exact ⟨h.1, fun row hrow => .inr (h.2.2 row hrow)⟩

/-- Everything `insert_account` does for an account is about that account. -/
theorem Worker.writes_insert_account (dec : Decoders) (w : Worker)
    (account : StoredAccountMeta) (slot : Slot) :
    ∀ op ∈ w.insert_account dec account slot, w.Writes account op := by
  obtain ⟨derived, heq, hderived⟩ := w.derives_insert_account dec account slot
  rw [heq]
  -- the age check writes nothing, and then comes the row itself
  refine List.forall_mem_cons.mpr ⟨by simp [Writes],
    List.forall_mem_cons.mpr ⟨by simp [Writes], ?_⟩⟩
  intro op hop
  exact (hderived op hop).writes account

/-- And it is all for the worker's own group. -/
theorem Worker.performs_insert_account (dec : Decoders) (w : Worker)
    (account : StoredAccountMeta) (slot : Slot) :
    ∀ op ∈ w.insert_account dec account slot, w.Performs op := by
  intro op hop
  have hwrites := w.writes_insert_account dec account slot op hop
  cases op with
  | count c => trivial
  | lane group op =>
      refine ⟨hwrites.1, fun row hrow => ?_⟩
      rcases hwrites.2 row hrow with rfl | htable | htable
      · simp [Row.table]
      · rw [htable]
        decide
      · rw [htable]
        decide

/-- A row a worker sends goes to its group and is no metadata row. -/
theorem Worker.rows_sent_insert_account (dec : Decoders) (w : Worker)
    (account : StoredAccountMeta) (slot : Slot) (group : TableGroup) :
    ∀ row ∈ rows_sent group (w.insert_account dec account slot),
      group = w.group ∧ row.table ≠ .token_metadata := by
  intro row hrow
  obtain ⟨op, hop, hrow⟩ := List.mem_flatMap.mp hrow
  have hperforms := w.performs_insert_account dec account slot op hop
  rcases op with ⟨g, op⟩ | c
  · cases op with
    | write r =>
        obtain ⟨hg, hr⟩ : g = group ∧ row = r := by
          by_cases hg : g = group <;> simp_all [ImportOp.rows]
        exact ⟨hg ▸ hperforms.1, hr ▸ hperforms.2 r rfl⟩
    | _ => simp [ImportOp.rows] at hrow
  · simp [ImportOp.rows] at hrow

/-! ## The imports -/

/-- What the imports do not share. `lanes` are the sinks of a worker in the
order it flushes them; `merge_plan` the groups whose metadata is merged after the
join, each with its `preserve_existing`. -/
structure ImportConfig where
  size : Row → ℕ
  snapshot_slot : Slot
  deliver : AppendVec → List ImportOp
  lanes : List TableGroup
  merge_plan : List (TableGroup × Bool)
  end_failure_cancels : Bool
  /-- A worker has a sink for every group it writes to and leaves metadata rows
  to the merge. -/
  deliver_rows : ∀ av group, ∀ row ∈ rows_sent group (deliver av),
    group ∈ lanes ∧ row.table ≠ .token_metadata
  /-- The metadata of every group with a sink is merged once. -/
  merge_plan_nodup : (merge_plan.map Prod.fst).Nodup
  lanes_merged : ∀ group ∈ lanes, group ∈ merge_plan.map Prod.fst

/-- The rows sent by a run of parts are those of the parts, in order. -/
theorem rows_sent_flatMap {α : Type*} (group : TableGroup) (xs : List α)
    (f : α → List ImportOp) :
    rows_sent group (xs.flatMap f) = xs.flatMap fun x => rows_sent group (f x) := by
  simp [rows_sent, List.flatMap_assoc]

/-- `insert_all`, sequential or parallel. -/
def insert_all_config (dec : Decoders) (size : Row → ℕ) (group : TableGroup)
    (kind : SnapshotKind) (snapshot_slot : Slot) (hot_mints : Finset String) :
    ImportConfig where
  size := size
  snapshot_slot := snapshot_slot
  deliver := (Worker.new group kind snapshot_slot hot_mints).on_delivered dec
  lanes := [group]
  merge_plan := [(group, kind = .Incremental)]
  end_failure_cancels := true
  deliver_rows av g row hrow := by
    have hrest : rows_sent g ((Worker.new group kind snapshot_slot hot_mints).on_delivered dec av)
        = av.accounts.flatMap fun account => rows_sent g
          ((Worker.new group kind snapshot_slot hot_mints).insert_account dec account av.slot) := by
      simp only [Worker.on_delivered, Worker.on_append_vec_count, rows_sent_append,
        rows_sent_cons, rows_sent_flatMap]
      split <;> simp [ImportOp.rows]
    rw [hrest] at hrow
    obtain ⟨account, -, hrow⟩ := List.mem_flatMap.mp hrow
    obtain ⟨hg, ht⟩ := Worker.rows_sent_insert_account dec _ account av.slot g row hrow
    exact ⟨by simp [hg, Worker.new], ht⟩
  merge_plan_nodup := by simp
  lanes_merged := by simp

/-- The rows sent to a group are those of its lane. -/
theorem rows_sent_eq (group : TableGroup) (ops : List ImportOp) :
    rows_sent group ops = (on_lane group ops).filterMap fun
      | .write row => some row
      | _ => none := by
  induction ops with
  | nil => rfl
  | cons op ops ih =>
      rw [rows_sent_cons, ih]
      rcases op with ⟨g, op⟩ | c
      · by_cases hg : g = group <;> cases op <;> simp [ImportOp.rows, hg]
      · simp [ImportOp.rows]

/-- A row the fan-out sends to a group is one the group's own worker sends. -/
theorem FullFanoutWorker.rows_sent_insert_account (dec : Decoders) (w : FullFanoutWorker)
    (group : TableGroup) (write_active : Bool) (account : StoredAccountMeta) (slot : Slot) :
    ∀ row ∈ rows_sent group (w.insert_account dec account slot write_active),
      row.table ≠ .token_metadata := by
  intro row hrow
  rw [rows_sent_eq, on_lane_insert_account] at hrow
  cases htakes : takes write_active group with
  | false => simp [htakes] at hrow
  | true =>
      rw [if_pos htakes, ← rows_sent_eq] at hrow
      exact (Worker.rows_sent_insert_account dec _ account slot group row hrow).2

/-- `import_full_snapshot_fanout`: staging before active when flushing, active
before staging when merging. -/
def import_full_snapshot_fanout_config (dec : Decoders) (size : Row → ℕ)
    (w : FullFanoutWorker) : ImportConfig where
  size := size
  snapshot_slot := w.snapshot_slot
  deliver := w.on_append_vec_count dec
  lanes := [.Backup, .Active]
  merge_plan := [(.Active, true), (.Backup, false)]
  end_failure_cancels := false
  deliver_rows av g row hrow := by
    have hrest : rows_sent g (w.on_append_vec_count dec av)
        = av.accounts.flatMap fun account => rows_sent g
          (w.insert_account dec account av.slot (av.slot > w.active_resume_slot)) := by
      simp only [FullFanoutWorker.on_append_vec_count, rows_sent_append, rows_sent_cons,
        rows_sent_flatMap]
      split <;> simp [ImportOp.rows]
    rw [hrest] at hrow
    obtain ⟨account, -, hrow⟩ := List.mem_flatMap.mp hrow
    exact ⟨by cases g <;> simp, w.rows_sent_insert_account dec g _ account av.slot row hrow⟩
  merge_plan_nodup := by decide
  lanes_merged := by decide

/-! ## What a stream amounts to -/

/-- The storages a stream delivers. -/
def delivered (stream : List StreamItem) : List AppendVec :=
  stream.filterMap fun
    | .ok append_vec => some append_vec
    | .err => none

/-- The operations of a whole stream. -/
def ImportConfig.ops (cfg : ImportConfig) (append_vecs : List AppendVec) : List ImportOp :=
  append_vecs.flatMap cfg.deliver

@[simp] theorem ImportConfig.ops_nil (cfg : ImportConfig) : cfg.ops [] = [] := rfl

/-- Rows owed to a group while the stream is parsed. -/
structure Exec.Parsing (cfg : ImportConfig) (e : Exec) : Prop where
  no_metadata : ∀ g, ∀ row ∈ e.owed g, row.table ≠ .token_metadata
  lanes : ∀ g ∉ cfg.lanes, e.owed g = 0

/-- Flushes that are still to do owe no further row. -/
theorem Exec.owed_flush {e : Exec} (htodo : e.todo = []) (groups : List TableGroup)
    (g : TableGroup) : Exec.owed { e with todo := groups.map .flush } g = e.owed g := by
  have hnil : (groups.map Task.flush).flatMap (Task.rows g) = [] := by
    rw [List.flatMap_map]
    exact List.flatMap_eq_nil_iff.mpr fun _ _ => rfl
  simp only [Exec.owed, hnil, htodo, List.flatMap_nil]

namespace Exec.Parsing

variable {cfg : ImportConfig} {e e' : Exec}

theorem new : Exec.Parsing cfg .new := ⟨fun g row h => by simp [Exec.new, Exec.owed] at h,
  fun g _ => by simp [Exec.new, Exec.owed]⟩

/-- Owing less keeps the invariant of the parsing phase. -/
theorem of_owed_le (h : e.Parsing cfg) (hle : ∀ g, e'.owed g ≤ e.owed g) : e'.Parsing cfg :=
  ⟨fun g row hrow => h.no_metadata g row (Multiset.mem_of_le (hle g) hrow),
    fun g hg => Multiset.le_zero.mp (h.lanes g hg ▸ hle g)⟩

theorem call {size : Row → ℕ} {now : ℕ} (h : e.Parsing cfg)
    (hcall : e.call size now = some e') : e'.Parsing cfg :=
  h.of_owed_le fun g => le_of_eq ((Exec.call_spec hcall).2.2 g)

theorem commit {reply : Reply} {db db' : Db} (h : e.Parsing cfg)
    (hcommit : e.commit reply db = some (e', db', true)) : e'.Parsing cfg :=
  h.of_owed_le fun g => (Exec.commit_frame hcommit g).1

/-- A delivered AppendVec owes the rows of its accounts. -/
theorem owed_deliver (cfg : ImportConfig) (e : Exec) (append_vec : AppendVec)
    (htodo : e.todo = []) (g : TableGroup) :
    Exec.owed { e with todo := (cfg.deliver append_vec).map .parser } g
      = e.owed g + rows_sent g (cfg.deliver append_vec) := by
  simp [Exec.owed, htodo, rows_sent, List.flatMap_map, Task.rows]

/-- Taking a storage on adds its rows to what is owed. -/
theorem deliver (h : e.Parsing cfg) (htodo : e.todo = []) (append_vec : AppendVec) :
    Exec.Parsing cfg { e with todo := (cfg.deliver append_vec).map .parser } := by
  refine ⟨fun g row hrow => ?_, fun g hg => ?_⟩
  · rw [owed_deliver cfg e append_vec htodo, Multiset.mem_add] at hrow
    rcases hrow with hrow | hrow
    · exact h.no_metadata g row hrow
    · exact (cfg.deliver_rows append_vec g row (by simpa using hrow)).2
  · have hnil : rows_sent g (cfg.deliver append_vec) = [] := by
      rw [List.eq_nil_iff_forall_not_mem]
      exact fun row hrow => hg (cfg.deliver_rows append_vec g row hrow).1
    rw [owed_deliver cfg e append_vec htodo, h.lanes g hg, hnil]
    rfl

/-- A flush owes nothing new. -/
theorem flush (h : e.Parsing cfg) (htodo : e.todo = []) (groups : List TableGroup) :
    Exec.Parsing cfg { e with todo := groups.map .flush } :=
  h.of_owed_le fun g => le_of_eq (Exec.owed_flush htodo groups g)

end Exec.Parsing

/-- The operations a thread has still to perform. -/
def Exec.ops (e : Exec) : List ImportOp :=
  e.todo.filterMap fun
    | .parser op => some op
    | .flush _ => none

/-- What a delivery leaves to do is what was delivered. -/
theorem Exec.ops_deliver (e : Exec) (ops : List ImportOp) :
    Exec.ops { e with todo := ops.map .parser } = ops := by
  simp [Exec.ops, List.filterMap_map]

/-- A call takes its operation off the list. -/
theorem Exec.ops_call {size : Row → ℕ} {now : ℕ} {e e' : Exec}
    (h : e.call size now = some e') :
    (∀ op, e.next_op = some op → e.ops = op :: e'.ops) ∧ (e.next_op = none → e.ops = e'.ops) := by
  obtain ⟨-, ⟨task, htodo⟩, -⟩ := Exec.call_spec h
  unfold Exec.next_op Exec.ops
  rw [htodo]
  cases task <;> simp

/-! ## The merge of the metadata -/

/-- The merged rows of a group as the calling thread writes them, then its flush. -/
def ImportConfig.merge_tasks (cfg : ImportConfig) (db : Db) (shared : Shared)
    (group : TableGroup) (preserve_existing : Bool) : List Task :=
  ((write_merged_metadata_patches (db group).raw_token_metadata
    (shared.metadata_patches group) preserve_existing cfg.snapshot_slot).map fun row =>
      .parser (.lane group (.write (.token_metadata row)))) ++ [.flush group]

/-- The rows a part of the merge plan adds to a group, over tables `base`. -/
def ImportConfig.merged_rows (cfg : ImportConfig) (base : Db) (shared : Shared)
    (plan : List (TableGroup × Bool)) (group : TableGroup) : List Row :=
  (plan.filter fun entry => entry.1 = group).flatMap fun (_, preserve_existing) =>
    (write_merged_metadata_patches (base group).raw_token_metadata
      (shared.metadata_patches group) preserve_existing cfg.snapshot_slot).map .token_metadata

/-- A merge under way, over tables `base` and with `total` stored or pending when
it began: the groups in `done` are merged, those in `plan` untouched. -/
structure MergeInv (cfg : ImportConfig) (shared : Shared) (base : Db)
    (total : TableGroup → Multiset Row) (done plan : List (TableGroup × Bool)) (e : Exec)
    (db : Db) : Prop where
  plan_eq : cfg.merge_plan = done ++ plan
  rows : ∀ g, (db g).rows + e.owed g = total g + cfg.merged_rows base shared done g
  metadata : ∀ g ∉ done.map Prod.fst, (db g).raw_token_metadata = (base g).raw_token_metadata
  no_metadata : ∀ g ∉ done.map Prod.fst, ∀ row ∈ e.owed g, row.table ≠ .token_metadata
  others : ∀ g ∉ cfg.merge_plan.map Prod.fst, e.owed g = 0
  closed : e.Closed
  covered : ∀ g ∈ done.map Prod.fst, e.Covered g

namespace MergeInv

variable {cfg : ImportConfig} {shared : Shared} {base : Db}
  {total : TableGroup → Multiset Row} {done plan : List (TableGroup × Bool)}
  {e e' : Exec} {db db' : Db}

/-- The thread that starts the merge owes no metadata row, and nothing to a
group without metadata to merge. -/
theorem start (hrows : ∀ g, (db g).rows + e.owed g = total g)
    (hmetadata : ∀ g, (db g).raw_token_metadata = (base g).raw_token_metadata)
    (hnone : ∀ g, ∀ row ∈ e.owed g, row.table ≠ .token_metadata)
    (hothers : ∀ g ∉ cfg.merge_plan.map Prod.fst, e.owed g = 0) (hidle : e.idle = true) :
    MergeInv cfg shared base total [] cfg.merge_plan e db where
  plan_eq := rfl
  rows g := by simp [hrows, ImportConfig.merged_rows]
  metadata g _ := hmetadata g
  no_metadata g _ := hnone g
  others := hothers
  closed := by
    simp only [Exec.idle, Bool.and_eq_true, List.isEmpty_iff] at hidle
    intro before task after htodo
    rw [hidle.2] at htodo
    simp at htodo
  covered g hg := by simp at hg

theorem call {size : Row → ℕ} {now : ℕ} (h : MergeInv cfg shared base total done plan e db)
    (hcall : e.call size now = some e') : MergeInv cfg shared base total done plan e' db := by
  have howed := (Exec.call_spec hcall).2.2
  exact ⟨h.plan_eq, fun g => by rw [howed, h.rows], h.metadata,
    fun g hg => by rw [howed]; exact h.no_metadata g hg,
    fun g hg => by rw [howed]; exact h.others g hg, h.closed.call hcall,
    fun g hg => (h.covered g hg).call h.closed hcall⟩

theorem commit {reply : Reply} (h : MergeInv cfg shared base total done plan e db)
    (hcommit : e.commit reply db = some (e', db', true)) :
    MergeInv cfg shared base total done plan e' db' := by
  obtain ⟨htodo, hrows⟩ := Exec.commit_spec hcommit
  have hframe := Exec.commit_frame hcommit
  refine ⟨h.plan_eq, fun g => by rw [hrows, h.rows], fun g hg => ?_, fun g hg row hrow => ?_,
    fun g hg => ?_, fun before task after ht => ?_, fun g hg => (h.covered g hg).commit hcommit⟩
  · rw [(hframe g).2.2 (h.no_metadata g hg), h.metadata g hg]
  · exact h.no_metadata g hg row (Multiset.mem_of_le (hframe g).1 hrow)
  · have hle := (hframe g).1
    rw [h.others g hg] at hle
    exact Multiset.le_zero.mp hle
  · rw [htodo] at ht
    exact h.closed before task after ht

/-- What the tasks of a merge send. -/
theorem rows_merge_tasks (group g : TableGroup) (preserve_existing : Bool) :
    (cfg.merge_tasks db shared group preserve_existing).flatMap (Task.rows g)
      = cfg.merged_rows db shared [(group, preserve_existing)] g := by
  unfold ImportConfig.merge_tasks ImportConfig.merged_rows
  rw [List.flatMap_append, List.flatMap_map]
  by_cases hg : group = g
  · subst hg
    simp [Task.rows, ImportOp.rows, List.map_eq_flatMap]
  · simp [Task.rows, ImportOp.rows, hg]

/-- Every write of a merge is followed by its flush, which comes last. -/
theorem closed_merge_tasks (group : TableGroup) (preserve_existing : Bool)
    (h : e.todo = cfg.merge_tasks db shared group preserve_existing) : e.Closed := by
  intro before task after htodo g hrows
  have hlast : (before ++ task :: after).getLast? = some (.flush group) := by
    rw [← htodo, h]
    simp [ImportConfig.merge_tasks]
  have htask : task ∈ cfg.merge_tasks db shared group preserve_existing := by
    rw [← h, htodo]
    simp
  have hg : g = group := by
    rcases List.mem_append.mp htask with hmem | hmem
    · obtain ⟨row, -, rfl⟩ := List.mem_map.mp hmem
      by_contra hne
      exact hrows (by simp [Task.rows, ImportOp.rows, Ne.symm hne])
    · rw [List.mem_singleton.mp hmem] at hrows
      simp [Task.rows] at hrows
  subst hg
  cases after with
  | nil =>
      obtain rfl : task = .flush g := by simpa using hlast
      simp [Task.rows] at hrows
  | cons next after =>
      rw [List.getLast?_append_cons, List.getLast?_cons_cons] at hlast
      exact List.mem_of_getLast? hlast

/-- Loading a group's patches moves it from the plan to what is done. -/
theorem load {group : TableGroup} {preserve_existing : Bool}
    (h : MergeInv cfg shared base total done ((group, preserve_existing) :: plan) e db)
    (hidle : e.idle = true) :
    MergeInv cfg shared base total (done ++ [(group, preserve_existing)]) plan
      { e with todo := cfg.merge_tasks db shared group preserve_existing } db := by
  simp only [Exec.idle, Bool.and_eq_true, List.isEmpty_iff] at hidle
  obtain ⟨hcommits, htodo⟩ := hidle
  -- the plan names no group twice, so this one has not been merged
  have hfresh : group ∉ done.map Prod.fst := by
    have hnodup := cfg.merge_plan_nodup
    rw [h.plan_eq, List.map_append, List.map_cons] at hnodup
    exact fun hmem => (List.nodup_append.mp hnodup).2.2 group hmem group (by simp) rfl
  have hplan : group ∈ cfg.merge_plan.map Prod.fst := by
    rw [h.plan_eq]
    simp
  -- what is owed from now on: the merged rows of this group
  have howed : ∀ g, Exec.owed { e with todo := cfg.merge_tasks db shared group preserve_existing } g
      = e.owed g + cfg.merged_rows db shared [(group, preserve_existing)] g := by
    intro g
    simp only [Exec.owed, rows_merge_tasks, htodo]
    simp
  have hother : ∀ g, g ≠ group → (cfg.merged_rows db shared [(group, preserve_existing)] g) = [] :=
    fun g hg => by simp [ImportConfig.merged_rows, Ne.symm hg]
  refine ⟨by rw [h.plan_eq]; simp, fun g => ?_, fun g hg => ?_, fun g hg row hrow => ?_,
    fun g hg => ?_, closed_merge_tasks group preserve_existing rfl, fun g hg t ht => ?_⟩
  · have hbase : cfg.merged_rows db shared [(group, preserve_existing)] g
        = cfg.merged_rows base shared [(group, preserve_existing)] g := by
      by_cases hg : g = group
      · subst hg
        simp [ImportConfig.merged_rows, h.metadata g hfresh]
      · rw [hother g hg]
        simp [ImportConfig.merged_rows, Ne.symm hg]
    rw [howed, ← add_assoc, h.rows, hbase, add_assoc]
    congr 1
    simp [ImportConfig.merged_rows]
  · exact h.metadata g (by simp at hg ⊢; tauto)
  · have hg' : g ≠ group := by rintro rfl; simp at hg
    rw [howed, hother g hg', Multiset.coe_nil, add_zero] at hrow
    exact h.no_metadata g (by simp at hg ⊢; tauto) row hrow
  · have hg' : g ≠ group := by rintro rfl; exact hg hplan
    rw [howed, hother g hg', h.others g hg, Multiset.coe_nil, add_zero]
  · by_cases hgroup : g = group
    · subst hgroup
      exact .inr (by simp [ImportConfig.merge_tasks])
    · -- a group merged before has nothing pending any more
      have hmem : g ∈ done.map Prod.fst := by
        simp only [List.map_append, List.map_cons, List.map_nil, List.mem_append,
          List.mem_singleton] at hg
        exact hg.resolve_right hgroup
      rcases h.covered g hmem t ht with hc | hf
      · simp [hcommits] at hc
      · simp [htodo] at hf

/-- **A finished merge.** Everything is stored. -/
theorem finish (h : MergeInv cfg shared base total done [] e db) (hidle : e.idle = true)
    (g : TableGroup) :
    (db g).rows = total g + cfg.merged_rows base shared cfg.merge_plan g := by
  have hdone : cfg.merge_plan = done := by rw [h.plan_eq, List.append_nil]
  have howed : e.owed g = 0 := by
    by_cases hg : g ∈ done.map Prod.fst
    · exact (h.covered g hg).owed_eq_zero hidle
    · exact h.others g (hdone ▸ hg)
  have hrows := h.rows g
  rw [howed, add_zero, ← hdone] at hrows
  exact hrows

end MergeInv

/-- What a successful import of these operations leaves: all of them counted and
shared, every row of them stored, and the merged metadata. -/
structure ImportConfig.Complete (cfg : ImportConfig) (ops : List ImportOp) (db₀ : Db)
    (stats : ParallelWorkerStats) (shared : Shared) (db : Db) : Prop where
  rows : ∀ g, (db g).rows = (db₀ g).rows + rows_sent g ops
    + cfg.merged_rows db₀ shared cfg.merge_plan g
  stats : stats = ParallelWorkerStats.summary.of ops
  shared : shared = Shared.of ops

end SnapshotEtl
