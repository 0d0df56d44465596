/-
`insert_all_sequential`: the import of a stream on one thread and one sink.

The machine takes the same steps as the calling thread and the workers of the
parallel import, without a queue between them. Its balance says what a successful
run leaves: the statistics and the shared state of all operations in stream
order, and every row of them stored (`Sequential.imported_spec`).
-/
import SnapshotEtl.StreamImport
import SnapshotEtl.Lib.Lts

set_option autoImplicit false

namespace SnapshotEtl

open Lib

inductive SequentialPhase
  | feeding (rest : List StreamItem)
  | parsing (rest : List StreamItem)
  | merging (plan : List (TableGroup × Bool))
  | imported
  | returned (ok : Bool)
deriving DecidableEq

structure Sequential where
  phase : SequentialPhase
  exec : Exec
  stats : ParallelWorkerStats
  shared : Shared
  db : Db
  skipped_append_vecs : ℕ

/-- Labels as in the pool. -/
inductive SequentialLabel
  | feed
  | call (now : ℕ)
  | write_error
  | commit (reply : Reply)
  | done
  | load_metadata (ok : Bool)
  | index (ok : Bool)

namespace Sequential

def init (stream : List StreamItem) (db : Db) : Sequential where
  phase := .feeding stream
  exec := .new
  stats := .default
  shared := .new
  db := db
  skipped_append_vecs := 0

/-- The phases in which the thread has calls and commits to make. -/
def is_executing (s : Sequential) : Bool :=
  match s.phase with
  | .parsing _ | .merging _ => true
  | _ => false

/-- An item that is an error counts as a storage in the progress bar. -/
def step (cfg : ImportConfig) (s : Sequential) : SequentialLabel → Option Sequential
  | .feed =>
      match s.phase with
      | .feeding [] => some { s with phase := .merging cfg.merge_plan }
      -- a storage that does not open is skipped, and the import goes on
      | .feeding (.err :: rest) =>
          some { s with
            phase := .feeding rest
            skipped_append_vecs := s.skipped_append_vecs + 1
            shared := s.shared.step (.count .append_vecs) }
      | .feeding (.ok append_vec :: rest) =>
          some { s with
            phase := .parsing rest
            exec := { s.exec with todo := (cfg.deliver append_vec).map .parser } }
      | _ => none
  | .call now =>
      match s.phase with
      | .parsing _ =>
          (s.exec.call cfg.size now).map fun exec =>
            match s.exec.next_op with
            | some op => { s with exec, stats := s.stats.step op, shared := s.shared.step op }
            | none => { s with exec }
      | .merging _ => (s.exec.call cfg.size now).map fun exec => { s with exec }
      | _ => none
  | .write_error =>
      if s.is_executing ∧ s.exec.writes then some { s with phase := .returned false } else none
  | .commit reply =>
      if s.is_executing then
        (s.exec.commit reply s.db).map fun (exec, db, ok) =>
          { s with exec, db, phase := if ok then s.phase else .returned false }
      else none
  | .done =>
      if s.exec.idle then
        match s.phase with
        | .parsing rest => some { s with phase := .feeding rest }
        | .merging [] => some { s with phase := .imported }
        | _ => none
      else none
  | .load_metadata ok =>
      match s.phase with
      | .merging ((group, preserve_existing) :: plan) =>
          let reads : Bool := preserve_existing && (s.shared.metadata_patches group).keys ≠ ∅
          if s.exec.idle && (ok || reads) then
            some (if ok then
                { s with
                  phase := .merging plan
                  exec := { s.exec with
                    todo := cfg.merge_tasks s.db s.shared group preserve_existing } }
              else { s with phase := .returned false })
          else none
      | _ => none
  | .index ok => if s.phase = .imported then some { s with phase := .returned ok } else none

/-! ## The balance of a run -/

/-- The operations of an item: an error only moves the progress bar. -/
def item_ops (cfg : ImportConfig) : StreamItem → List ImportOp
  | .ok append_vec => cfg.deliver append_vec
  | .err => [.count .append_vecs]

def ops (cfg : ImportConfig) (stream : List StreamItem) : List ImportOp :=
  stream.flatMap (item_ops cfg)

@[simp] theorem ops_cons (cfg : ImportConfig) (item : StreamItem) (rest : List StreamItem) :
    ops cfg (item :: rest) = item_ops cfg item ++ ops cfg rest := rfl

/-- Without errors these are the operations of the delivered storages. -/
theorem ops_eq {cfg : ImportConfig} {stream : List StreamItem} (h : .err ∉ stream) :
    ops cfg stream = cfg.ops (delivered stream) := by
  induction stream with
  | nil => rfl
  | cons item rest ih =>
      cases item with
      | err => simp at h
      | ok append_vec =>
          have hrest : StreamItem.err ∉ rest := fun hmem => h (List.mem_cons_of_mem _ hmem)
          rw [ops_cons, ih hrest]
          rfl

variable {cfg : ImportConfig} {stream : List StreamItem} {db₀ : Db}

/-- While the stream is read: what was done and what is left make up the stream,
and what is stored, owed and still to come are all its rows. -/
structure ParseInv (cfg : ImportConfig) (stream : List StreamItem) (db₀ : Db)
    (rest : List StreamItem) (s : Sequential) : Prop where
  parsed : ∃ done, done ++ s.exec.ops ++ ops cfg rest = ops cfg stream ∧
    s.stats = ParallelWorkerStats.summary.of done ∧ s.shared = Shared.of done
  rows : ∀ g, (s.db g).rows + s.exec.owed g + rows_sent g (ops cfg rest)
    = (db₀ g).rows + rows_sent g (ops cfg stream)
  metadata : ∀ g, (s.db g).raw_token_metadata = (db₀ g).raw_token_metadata
  parsing : s.exec.Parsing cfg

/-- What is stored of the stream itself. -/
def total (cfg : ImportConfig) (stream : List StreamItem) (db₀ : Db) (g : TableGroup) :
    Multiset Row :=
  (db₀ g).rows + rows_sent g (ops cfg stream)

def Balance (cfg : ImportConfig) (stream : List StreamItem) (db₀ : Db) (s : Sequential) :
    Prop :=
  match s.phase with
  | .feeding rest => ParseInv cfg stream db₀ rest s ∧ s.exec.idle = true
  | .parsing rest => ParseInv cfg stream db₀ rest s
  | .merging plan =>
      (∃ done, MergeInv cfg s.shared db₀ (total cfg stream db₀) done plan s.exec s.db) ∧
        s.stats = ParallelWorkerStats.summary.of (ops cfg stream) ∧
        s.shared = Shared.of (ops cfg stream)
  | .imported | .returned true =>
      cfg.Complete (ops cfg stream) db₀ s.stats s.shared s.db
  | .returned false => True

theorem ParseInv.init : ParseInv cfg stream db₀ stream (init stream db₀) where
  parsed := ⟨[], rfl, rfl, rfl⟩
  rows g := by simp [Sequential.init, Exec.new, Exec.owed]
  metadata _ := rfl
  parsing := .new

theorem idle_iff {e : Exec} : e.idle = true ↔ e.commits = [] ∧ e.todo = [] := by
  simp [Exec.idle]

theorem ParseInv.step_feed {rest : List StreamItem} {item : StreamItem} {s : Sequential}
    (h : ParseInv cfg stream db₀ (item :: rest) s) (hidle : s.exec.idle = true) :
    (item = .err → ParseInv cfg stream db₀ rest { s with
        phase := .feeding rest
        skipped_append_vecs := s.skipped_append_vecs + 1
        shared := s.shared.step (.count .append_vecs) }) ∧
      ∀ append_vec, item = .ok append_vec → ParseInv cfg stream db₀ rest { s with
        phase := .parsing rest
        exec := { s.exec with todo := (cfg.deliver append_vec).map .parser } } := by
  obtain ⟨hcommits, htodo⟩ := idle_iff.mp hidle
  obtain ⟨done, hdone, hstats, hshared⟩ := h.parsed
  have hops : s.exec.ops = [] := by simp [Exec.ops, htodo]
  rw [hops, List.append_nil] at hdone
  constructor
  -- an unreadable storage is counted and skipped
  · rintro rfl
    refine ⟨⟨done ++ [.count .append_vecs], ?_, ?_, ?_⟩, fun g => ?_, h.metadata, h.parsing⟩
    · rw [← hdone]
      simp [hops, item_ops]
    · rw [Summary.of_concat, ← hstats]
      rfl
    · rw [Shared.of_concat, ← hshared]
    · have hrows := h.rows g
      simpa [item_ops, ImportOp.rows] using hrows
  -- a readable one is handed to the parser
  · rintro append_vec rfl
    refine ⟨⟨done, ?_, hstats, hshared⟩, fun g => ?_, h.metadata,
      h.parsing.deliver htodo append_vec⟩
    · rw [Exec.ops_deliver, ← hdone]
      simp [item_ops]
    · have hrows := h.rows g
      rw [Exec.Parsing.owed_deliver cfg s.exec append_vec htodo]
      simp only [ops_cons, item_ops, rows_sent_append, ← Multiset.coe_add] at hrows
      rw [← hrows]
      abel

theorem ParseInv.step_call {rest : List StreamItem} {s : Sequential} {now : ℕ} {exec : Exec}
    (h : ParseInv cfg stream db₀ rest s) (hcall : s.exec.call cfg.size now = some exec) :
    ParseInv cfg stream db₀ rest (match s.exec.next_op with
      | some op => { s with exec, stats := s.stats.step op, shared := s.shared.step op }
      | none => { s with exec }) := by
  obtain ⟨hop, hnone⟩ := Exec.ops_call hcall
  have howed := (Exec.call_spec hcall).2.2
  obtain ⟨done, hdone, hstats, hshared⟩ := h.parsed
  cases hnext : s.exec.next_op with
  | none =>
      refine ⟨⟨done, ?_, hstats, hshared⟩, fun g => ?_, h.metadata, h.parsing.call hcall⟩
      · rw [← hdone, hnone hnext]
      · rw [← h.rows g, howed]
  | some op =>
      refine ⟨⟨done ++ [op], ?_, ?_, ?_⟩, fun g => ?_, h.metadata, h.parsing.call hcall⟩
      · rw [← hdone, hop op hnext]
        simp
      · rw [Summary.of_concat, ← hstats]
        rfl
      · rw [Shared.of_concat, ← hshared]
      · rw [← h.rows g, howed]

theorem ParseInv.step_commit {rest : List StreamItem} {s : Sequential} {reply : Reply}
    {exec : Exec} {db : Db} (h : ParseInv cfg stream db₀ rest s)
    (hcommit : s.exec.commit reply s.db = some (exec, db, true)) :
    ParseInv cfg stream db₀ rest { s with exec, db } := by
  obtain ⟨htodo, hrows⟩ := Exec.commit_spec hcommit
  obtain ⟨done, hdone, hstats, hshared⟩ := h.parsed
  refine ⟨⟨done, ?_, hstats, hshared⟩, fun g => ?_, fun g => ?_, h.parsing.commit hcommit⟩
  · rw [← hdone]
    simp [Exec.ops, htodo]
  · rw [← h.rows g, hrows]
  · rw [(Exec.commit_frame hcommit g).2.2 (h.parsing.no_metadata g), h.metadata]

/-- At the end of the stream everything is done, and the merge starts. -/
theorem ParseInv.merge {s : Sequential} (h : ParseInv cfg stream db₀ [] s)
    (hidle : s.exec.idle = true) :
    MergeInv cfg s.shared db₀ (total cfg stream db₀) [] cfg.merge_plan s.exec s.db ∧
      s.stats = ParallelWorkerStats.summary.of (ops cfg stream) ∧
      s.shared = Shared.of (ops cfg stream) := by
  obtain ⟨done, hdone, hstats, hshared⟩ := h.parsed
  have hops : s.exec.ops = [] := by simp [Exec.ops, (idle_iff.mp hidle).2]
  rw [hops] at hdone
  obtain rfl : done = ops cfg stream := by simpa [ops] using hdone
  refine ⟨MergeInv.start (fun g => ?_) h.metadata h.parsing.no_metadata (fun g hg => ?_) hidle,
    hstats, hshared⟩
  · have hrows := h.rows g
    simpa [ops, total] using hrows
  · exact h.parsing.lanes g fun hmem => hg (cfg.lanes_merged g hmem)

/-- Every step keeps the balance, or the import has failed. -/
theorem Balance.step {s s' : Sequential} {l : SequentialLabel}
    (hs : Balance cfg stream db₀ s) (h : s.step cfg l = some s') :
    Balance cfg stream db₀ s' := by
  obtain ⟨phase, exec, stats, shared, db, skipped⟩ := s
  cases l with
  | feed =>
      simp only [Sequential.step] at h
      split at h
      · obtain rfl := Option.some.inj h
        exact ⟨⟨[], (ParseInv.merge hs.1 hs.2).1⟩, (ParseInv.merge hs.1 hs.2).2⟩
      · obtain rfl := Option.some.inj h
        exact ⟨(hs.1.step_feed hs.2).1 rfl, hs.2⟩
      · obtain rfl := Option.some.inj h
        exact (hs.1.step_feed hs.2).2 _ rfl
      · cases h
  | call now =>
      simp only [Sequential.step] at h
      split at h
      · rw [Option.map_eq_some_iff] at h
        obtain ⟨exec', hcall, rfl⟩ := h
        have hinv := ParseInv.step_call hs hcall
        dsimp only at hinv ⊢
        split at hinv <;> exact hinv
      · rw [Option.map_eq_some_iff] at h
        obtain ⟨exec', hcall, rfl⟩ := h
        obtain ⟨⟨done, hmerge⟩, hrest⟩ := hs
        exact ⟨⟨done, hmerge.call hcall⟩, hrest⟩
      · cases h
  | write_error =>
      simp only [Sequential.step, Option.ite_none_right_eq_some, Option.some.injEq] at h
      obtain ⟨-, rfl⟩ := h
      trivial
  | commit reply =>
      -- the insert of a parser operation or of a merge, which have the same effect
      simp only [Sequential.step, Option.ite_none_right_eq_some, Option.map_eq_some_iff] at h
      obtain ⟨hexec, ⟨exec', db', ok⟩, hcommit, rfl⟩ := h
      cases ok with
      | false => trivial
      | true =>
          cases phase with
          | parsing rest => exact ParseInv.step_commit hs hcommit
          | merging plan =>
              obtain ⟨⟨done, hmerge⟩, hrest⟩ := hs
              exact ⟨⟨done, hmerge.commit hcommit⟩, hrest⟩
          | _ => simp [is_executing] at hexec
  | done =>
      simp only [Sequential.step, Option.ite_none_right_eq_some] at h
      obtain ⟨hidle, h⟩ := h
      split at h
      · obtain rfl := Option.some.inj h
        obtain ⟨hparsed, hrows, hmetadata, hparsing⟩ := hs
        exact ⟨⟨hparsed, hrows, hmetadata, hparsing⟩, hidle⟩
      · obtain rfl := Option.some.inj h
        obtain ⟨⟨done, hmerge⟩, hstats, hshared⟩ := hs
        exact ⟨fun g => hmerge.finish hidle g, hstats, hshared⟩
      · cases h
  | load_metadata ok =>
      simp only [Sequential.step] at h
      split at h
      · simp only [Option.ite_none_right_eq_some, Option.some.injEq, Bool.and_eq_true] at h
        obtain ⟨⟨hidle, -⟩, rfl⟩ := h
        cases ok with
        | false => trivial
        | true =>
            obtain ⟨⟨done, hmerge⟩, hrest⟩ := hs
            exact ⟨⟨_, hmerge.load hidle⟩, hrest⟩
      · cases h
  | index ok =>
      simp only [Sequential.step, Option.ite_none_right_eq_some, Option.some.injEq] at h
      obtain ⟨rfl, rfl⟩ := h
      cases ok with
      | false => trivial
      | true =>
          obtain ⟨hrows, hstats, hshared⟩ := hs
          exact ⟨hrows, hstats, hshared⟩

/-- **A successful sequential import is complete**: past its last commit, and
when it returns `Ok`. -/
theorem complete_of_run {s : Sequential} {labels : List SequentialLabel}
    (hrun : Lts.run (step cfg) (init stream db₀) labels = some s)
    (hok : s.phase = .imported ∨ s.phase = .returned true) :
    cfg.Complete (ops cfg stream) db₀ s.stats s.shared s.db := by
  have hinit : Balance cfg stream db₀ (init stream db₀) := ⟨ParseInv.init, rfl⟩
  have hbalance : Balance cfg stream db₀ s :=
    Lts.invariant (fun _ _ _ => Balance.step) hinit hrun
  unfold Balance at hbalance
  rcases hok with hok | hok
  · rw [hok] at hbalance
    exact hbalance
  · rw [hok] at hbalance
    exact hbalance

end Sequential

end SnapshotEtl
