/-
What a returned `Ok` says about the archive, and what the journal makes of it.

An item of the stream that is an error costs the storages it stands for: the one
that could not be read, or all that are left where the tar stream breaks. All
three producers count it and go on, the import returns `Ok` as if the archive had
been shorter, and the watcher moves the lane's watermark past the storages that
were never written. So an import is lossless on exactly the streams without an
error.
-/
import SnapshotEtl.Parallel
import SnapshotEtl.Progress
import SnapshotEtl.Journal

set_option autoImplicit false

namespace SnapshotEtl

open Lib

/-! ## Archives and their streams -/

/-- One item of a stream, with the storages above the lane's resume slot that
are lost with it. -/
inductive Delivery
  | ok (append_vec : AppendVec)
  | err (lost : List AppendVec)

def Delivery.item : Delivery → StreamItem
  | .ok append_vec => .ok append_vec
  | .err _ => .err

def Delivery.append_vecs : Delivery → List AppendVec
  | .ok append_vec => [append_vec]
  | .err lost => lost

/-- What the extractor's iterator yields. -/
def stream_of (archive : List Delivery) : List StreamItem := archive.map Delivery.item

/-- Every storage the archive was to deliver. -/
def to_deliver (archive : List Delivery) : List AppendVec :=
  archive.flatMap Delivery.append_vecs

/-- A stream without errors delivers all of them. -/
theorem delivered_eq_to_deliver {archive : List Delivery} (h : .err ∉ stream_of archive) :
    delivered (stream_of archive) = to_deliver archive := by
  induction archive with
  | nil => rfl
  | cons d archive ih =>
      have hrest : StreamItem.err ∉ stream_of archive := fun hmem => h (List.mem_cons_of_mem _ hmem)
      cases d with
      | ok append_vec =>
          have hcons : delivered (stream_of (.ok append_vec :: archive))
              = append_vec :: delivered (stream_of archive) := rfl
          rw [hcons, ih hrest]
          rfl
      | err lost => exact absurd (List.mem_cons_self ..) h

/-! ## The import calls of the watcher -/

inductive ImportCall
  | insert_all (group : TableGroup) (kind : SnapshotKind) (snapshot_slot : Slot)
      (hot_mints : Finset String) (workers : ℕ)
  | import_full_snapshot_fanout (worker : FullFanoutWorker) (workers : ℕ)

/-- What a call leaves behind. -/
structure Imported where
  stats : ParallelWorkerStats
  shared : Shared
  db : Db

namespace ImportCall

def config (dec : Decoders) (size : Row → ℕ) : ImportCall → ImportConfig
  | insert_all group kind snapshot_slot hot_mints _ =>
      insert_all_config dec size group kind snapshot_slot hot_mints
  | import_full_snapshot_fanout worker _ => import_full_snapshot_fanout_config dec size worker

/-- Some run of the sequential import returns `ok`. -/
def SequentialReturns (cfg : ImportConfig) (stream : List StreamItem) (db₀ : Db) (ok : Bool)
    (e : Imported) : Prop :=
  ∃ labels s, Lts.run (Sequential.step cfg) (.init stream db₀) labels = some s ∧
    s.phase = .returned ok ∧ e = ⟨s.stats, s.shared, s.db⟩

/-- Some schedule of a pool of `max workers 2` threads returns `ok`. -/
def PoolReturns (cfg : ImportConfig) (workers : ℕ) (stream : List StreamItem) (db₀ : Db)
    (ok : Bool) (e : Imported) : Prop :=
  ∃ schedule, ∃ s : Pool (max workers 2),
    Lts.run (Pool.step cfg) (.init stream db₀) schedule = some s ∧
      s.producer = .returned ok ∧ e = ⟨s.totals, s.shared, s.db⟩

/-- The call may return `Ok` (or `Err`) and leave this behind. -/
def Returns (dec : Decoders) (size : Row → ℕ) (call : ImportCall) (stream : List StreamItem)
    (db₀ : Db) (ok : Bool) (e : Imported) : Prop :=
  match call with
  | insert_all _ _ _ _ workers =>
      if workers > 1 then PoolReturns (call.config dec size) workers stream db₀ ok e
      else SequentialReturns (call.config dec size) stream db₀ ok e
  | import_full_snapshot_fanout _ workers =>
      PoolReturns (call.config dec size) workers stream db₀ ok e

/-- Every stream can be imported with `Ok`. -/
theorem exists_ok (dec : Decoders) (size : Row → ℕ) (call : ImportCall)
    (stream : List StreamItem) (db₀ : Db) : ∃ e, call.Returns dec size stream db₀ true e := by
  have hpool : ∀ cfg workers, ∃ e, PoolReturns cfg workers stream db₀ true e := by
    intro cfg workers
    obtain ⟨s, ⟨schedule, hrun⟩, hok⟩ :=
      Pool.exists_ok (n := max workers 2) (by omega) cfg stream db₀
    exact ⟨_, schedule, s, hrun, hok, rfl⟩
  cases call with
  | insert_all group kind snapshot_slot hot_mints workers =>
      unfold Returns
      dsimp only
      split
      · exact hpool _ workers
      · obtain ⟨s, ⟨labels, hrun⟩, hok⟩ := Sequential.exists_ok
          ((insert_all group kind snapshot_slot hot_mints workers).config dec size) stream db₀
        exact ⟨_, labels, s, hrun, hok, rfl⟩
  | import_full_snapshot_fanout worker workers => exact hpool _ workers

/-- An `Ok` on a stream without errors has parsed and stored every storage. -/
theorem complete_of_returns {dec : Decoders} {size : Row → ℕ} {call : ImportCall}
    {stream : List StreamItem} {db₀ : Db} {e : Imported} (hstream : .err ∉ stream)
    (h : call.Returns dec size stream db₀ true e) :
    (call.config dec size).Complete ((call.config dec size).ops (delivered stream)) db₀
      e.stats e.shared e.db := by
  have hpool : ∀ cfg workers, PoolReturns cfg workers stream db₀ true e →
      cfg.Complete (cfg.ops (delivered stream)) db₀ e.stats e.shared e.db := by
    rintro cfg workers ⟨schedule, s, hrun, hok, rfl⟩
    exact Pool.complete_of_run (by omega) hrun (.inr hok)
  cases call with
  | insert_all group kind snapshot_slot hot_mints workers =>
      unfold Returns at h
      dsimp only at h
      split at h
      · exact hpool _ workers h
      · obtain ⟨labels, s, hrun, hok, rfl⟩ := h
        have hcomplete := Sequential.complete_of_run hrun (.inr hok)
        rw [Sequential.ops_eq hstream] at hcomplete
        exact hcomplete
  | import_full_snapshot_fanout worker workers => exact hpool _ workers h

/-! ## What the watcher records -/

/-- The journal once the call for an archive ending at `slot` has returned: an
`Ok` moves the watermark of the lanes it imported into. -/
def record (call : ImportCall) (slot : Slot) (hot_mints_path : String) (ok : Bool)
    (watcher_state : WatcherState) : WatcherState :=
  if ok then
    match call with
    | insert_all .Active .Incremental _ _ _ => watcher_state.commit_active_incremental slot
    | insert_all .Active .Full _ _ _ => watcher_state.commit_bootstrap_full slot hot_mints_path
    | insert_all .Backup .Incremental _ _ _ => watcher_state.commit_staging_incremental slot
    | insert_all .Backup .Full _ _ _ => watcher_state.commit_staging_full slot hot_mints_path
    | import_full_snapshot_fanout _ _ => watcher_state.commit_shared_full_load slot
  else watcher_state

end ImportCall

/-- The archive is in the tables: every storage it was to deliver was parsed and
every row of them is committed. -/
structure Written (dec : Decoders) (size : Row → ℕ) (call : ImportCall)
    (archive : List Delivery) (db₀ : Db) (e : Imported) : Prop where
  no_error : .err ∉ stream_of archive
  complete : (call.config dec size).Complete ((call.config dec size).ops (to_deliver archive))
    db₀ e.stats e.shared e.db

/-- A call that only returns `Ok`, and a watermark that only moves, once the
archive is written. -/
structure WatermarkComplete (dec : Decoders) (size : Row → ℕ) (call : ImportCall)
    (archive : List Delivery) : Prop where
  imports : ∀ db₀ e, call.Returns dec size (stream_of archive) db₀ true e →
    Written dec size call archive db₀ e
  records : ∀ db₀ ok e watcher_state slot hot_mints_path,
    call.Returns dec size (stream_of archive) db₀ ok e →
    ((call.record slot hot_mints_path ok watcher_state).active.max_slot
        ≠ watcher_state.active.max_slot ∨
      (call.record slot hot_mints_path ok watcher_state).staging.max_slot
        ≠ watcher_state.staging.max_slot) →
    Written dec size call archive db₀ e

/-- **The watermark is complete without errors, and only then.** -/
theorem watermark_complete_iff (dec : Decoders) (size : Row → ℕ) (call : ImportCall)
    (archive : List Delivery) :
    WatermarkComplete dec size call archive ↔ .err ∉ stream_of archive := by
  constructor
  · intro h
    obtain ⟨e, hreturns⟩ := call.exists_ok dec size (stream_of archive) fun _ => .truncated
    exact (h.imports _ e hreturns).no_error
  · intro hstream
    have himports : ∀ db₀ e, call.Returns dec size (stream_of archive) db₀ true e →
        Written dec size call archive db₀ e := by
      intro db₀ e hreturns
      refine ⟨hstream, ?_⟩
      rw [← delivered_eq_to_deliver hstream]
      exact ImportCall.complete_of_returns hstream hreturns
    refine ⟨himports, fun db₀ ok e watcher_state slot path hreturns hmoved => ?_⟩
    cases ok with
    | true => exact himports db₀ e hreturns
    | false => simp [ImportCall.record] at hmoved

/-- An incremental into active on one thread, whose only storage cannot be read. -/
def unreadable : ImportCall := .insert_all .Active .Incremental 1 ∅ 1

/-- The import returns `Ok`, nothing is stored, and the watermark is at slot 1. -/
theorem watermark_past_unreadable : ∃ e,
    unreadable.Returns .accept_nothing (fun _ => 0) (stream_of [.err [one_account]])
        (fun _ => .truncated) true e ∧
      (e.db .Active).raw_account = [] ∧
      (unreadable.record 1 "" true (.recovered_active_only 0)).active.max_slot = some 1 ∧
      ¬WatermarkComplete .accept_nothing (fun _ => 0) unreadable [.err [one_account]] := by
  have hrun : (Lts.run (Sequential.step (unreadable.config .accept_nothing fun _ => 0))
      (.init (stream_of [.err [one_account]]) fun _ => .truncated)
      [.feed, .feed, .load_metadata true, .call 0, .done, .index true]).map
        (fun s => (s.phase, (s.db .Active).raw_account)) = some (.returned true, []) := by
    decide +kernel
  obtain ⟨s, hs, hsp⟩ := Option.map_eq_some_iff.mp hrun
  obtain ⟨hphase, hempty⟩ := Prod.mk.inj hsp
  refine ⟨⟨s.stats, s.shared, s.db⟩, ⟨_, s, hs, hphase, rfl⟩, hempty, rfl, fun h => ?_⟩
  have hwritten := h.imports _ _ ⟨_, s, hs, hphase, rfl⟩
  exact hwritten.no_error (by simp [stream_of, Delivery.item])

end SnapshotEtl
