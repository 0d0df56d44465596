/-
The worker pool of `insert_all_parallel` and `import_full_snapshot_fanout`.

Both start `max workers 2` threads on one bounded channel, feed it the stream,
join the threads in order and then merge the metadata; they differ in what a
worker does with a storage, in the sinks it has, and in whether a failing final
flush raises the cancellation flag. A label says which thread moves and how the
environment answers, and steps are as fine as the shared state they touch: a
look at the flag, a channel operation, one call on a sink, one commit.
-/
import SnapshotEtl.StreamImport
import SnapshotEtl.Lib.Lts
import Mathlib.Data.Fintype.Basic

set_option autoImplicit false

namespace SnapshotEtl

/-! ## Threads -/

inductive WorkerResult
  | ok
  | err
  | panicked
deriving DecidableEq, Repr

/-- Where a worker is: building its runtime and clients, at the top of its loop,
in `recv_timeout`, flushing while the queue is empty, on a storage, at the check
after the loop, in its final flush. -/
inductive WorkerPhase
  | starting
  | top
  | receiving
  | flushing
  | processing
  | closing
  | ending
  | stopped (result : WorkerResult)
deriving DecidableEq, Repr

def WorkerPhase.is_stopped : WorkerPhase → Bool
  | .stopped _ => true
  | _ => false

/-- The phases in which a worker has calls and commits to make. -/
def WorkerPhase.is_executing : WorkerPhase → Bool
  | .flushing | .processing | .ending => true
  | _ => false

structure WorkerThread where
  phase : WorkerPhase
  exec : Exec
  stats : ParallelWorkerStats

/-- Where the calling thread is: at the next item of the stream, at the check
before a send, at the send, in the join loop, merging the metadata of the groups
left, past its last commit of the stream, or back at its caller. -/
inductive Producer
  | feeding (rest : List StreamItem)
  | sending (append_vec : AppendVec) (rest : List StreamItem)
  | dispatching (append_vec : AppendVec) (rest : List StreamItem)
  | joining (next : ℕ) (producer_error : Bool)
  | merging (plan : List (TableGroup × Bool))
  | imported
  | returned (ok : Bool)
deriving DecidableEq

/-- The sender is dropped when the stream is over. -/
def Producer.has_sender : Producer → Bool
  | .feeding _ | .sending _ _ | .dispatching _ _ => true
  | _ => false

structure Pool (n : ℕ) where
  worker : Fin n → WorkerThread
  queue : List AppendVec
  cancelled : Bool
  shared : Shared
  db : Db
  producer : Producer
  main : Exec
  totals : ParallelWorkerStats
  skipped_append_vecs : ℕ

/-- `call` and `commit` carry the clock and the answer of ClickHouse; `start`,
`load_metadata` and `index` whether what they stand for succeeds. `index` is what
the call still does after its last commit of the stream. -/
inductive PoolLabel (n : ℕ)
  | start (i : Fin n) (ok : Bool)
  | panic (i : Fin n)
  | poll (i : Fin n)
  | recv (i : Fin n)
  | recv_timeout (i : Fin n)
  | recv_disconnected (i : Fin n)
  | call (i : Fin n) (now : ℕ)
  | write_error (i : Fin n)
  | commit (i : Fin n) (reply : Reply)
  | done (i : Fin n)
  | close (i : Fin n)
  | feed
  | check_cancelled
  | send_timeout
  | join
  | load_metadata (ok : Bool)
  | main_call (now : ℕ)
  | main_write_error
  | main_commit (reply : Reply)
  | main_done
  | index (ok : Bool)

namespace Pool

variable {n : ℕ}

/-- The threads of the smallest pool, which two workers make. -/
def first : Fin 2 := 0
def second : Fin 2 := 1

/-- The pool before anything has run, over what the tables hold. -/
def init (stream : List StreamItem) (db : Db) : Pool n where
  worker _ := ⟨.starting, .new, .default⟩
  queue := []
  cancelled := false
  shared := .new
  db := db
  producer := .feeding stream
  main := .new
  totals := .default
  skipped_append_vecs := 0

def set_worker (s : Pool n) (i : Fin n) (w : WorkerThread) : Pool n :=
  { s with worker := Function.update s.worker i w }

def set_phase (s : Pool n) (i : Fin n) (phase : WorkerPhase) : Pool n :=
  s.set_worker i { s.worker i with phase }

/-- A worker returns an error, having raised the flag or not. -/
def worker_fails (s : Pool n) (i : Fin n) (cancels : Bool) : Pool n :=
  { s.set_phase i (.stopped .err) with cancelled := s.cancelled || cancels }

/-- All receivers are gone. -/
def all_stopped (s : Pool n) : Bool := decide (∀ i, (s.worker i).phase.is_stopped = true)

/-! ## Steps of a worker -/

def worker_step (cfg : ImportConfig) (s : Pool n) (i : Fin n) : PoolLabel n → Option (Pool n)
  | .start _ ok =>
      if (s.worker i).phase = .starting then
        some (if ok then s.set_phase i .top else s.worker_fails i false)
      else none
  | .panic _ =>
      if (s.worker i).phase.is_stopped then none else some (s.set_phase i (.stopped .panicked))
  | .poll _ =>
      if (s.worker i).phase = .top then
        some (if s.cancelled then s.worker_fails i false else s.set_phase i .receiving)
      else none
  | .recv _ =>
      match (s.worker i).phase, s.queue with
      | .receiving, append_vec :: queue =>
          -- the storage is parsed in full before the worker looks at the channel again
          some { s.set_worker i { s.worker i with
              phase := .processing
              exec := { (s.worker i).exec with
                todo := (cfg.deliver append_vec).map .parser } } with queue }
      | _, _ => none
  | .recv_timeout _ =>
      if (s.worker i).phase = .receiving ∧ s.queue = [] ∧ s.producer.has_sender then
        some (s.set_worker i { s.worker i with
          phase := .flushing
          exec := { (s.worker i).exec with todo := cfg.lanes.map .flush } })
      else none
  | .recv_disconnected _ =>
      if (s.worker i).phase = .receiving ∧ s.queue = [] ∧ ¬s.producer.has_sender then
        some (s.set_phase i .closing)
      else none
  | .call _ now =>
      if (s.worker i).phase.is_executing then
        ((s.worker i).exec.call cfg.size now).map fun exec =>
          match (s.worker i).exec.next_op with
          | some op =>
              { s.set_worker i { s.worker i with exec, stats := (s.worker i).stats.step op } with
                shared := s.shared.step op }
          | none => s.set_worker i { s.worker i with exec }
      else none
  | .write_error _ =>
      if (s.worker i).phase = .processing ∧ (s.worker i).exec.writes then
        some (s.worker_fails i true)
      else none
  | .commit _ reply =>
      if (s.worker i).phase.is_executing then
        ((s.worker i).exec.commit reply s.db).map fun (exec, db, ok) =>
          if ok then { s.set_worker i { s.worker i with exec } with db }
          else
            -- the workers of a fanout leave the flag alone when their last flush fails
            { s.worker_fails i ((s.worker i).phase ≠ .ending || cfg.end_failure_cancels) with db }
      else none
  | .done _ =>
      if (s.worker i).exec.idle then
        match (s.worker i).phase with
        | .flushing | .processing => some (s.set_phase i .top)
        | .ending => some (s.set_phase i (.stopped .ok))
        | _ => none
      else none
  | .close _ =>
      if (s.worker i).phase = .closing then
        some (if s.cancelled then s.worker_fails i false
          else s.set_worker i { s.worker i with
            phase := .ending
            exec := { (s.worker i).exec with todo := cfg.lanes.map .flush } })
      else none
  | _ => none

/-! ## Steps of the calling thread -/

def main_step (cfg : ImportConfig) (s : Pool n) : PoolLabel n → Option (Pool n)
  | .feed =>
      match s.producer with
      | .feeding [] => some { s with producer := .joining 0 false }
      | .feeding (.err :: rest) =>
          some { s with
            producer := .feeding rest
            skipped_append_vecs := s.skipped_append_vecs + 1 }
      | .feeding (.ok append_vec :: rest) =>
          some { s with
            producer := if s.cancelled then .joining 0 true else .sending append_vec rest }
      | _ => none
  | .check_cancelled =>
      match s.producer with
      | .sending append_vec rest =>
          some { s with
            producer := if s.cancelled then .joining 0 true else .dispatching append_vec rest }
      | _ => none
  | .send_timeout =>
      match s.producer with
      | .dispatching append_vec rest =>
          some (if s.all_stopped then { s with producer := .joining 0 true }
            else if s.queue.length < n then
              { s with queue := s.queue ++ [append_vec], producer := .feeding rest }
            else { s with producer := .sending append_vec rest })
      | _ => none
  | .join =>
      match s.producer with
      | .joining next producer_error =>
          if h : next < n then
            match (s.worker ⟨next, h⟩).phase with
            | .stopped .ok =>
                some { s with
                  totals := s.totals.merge (s.worker ⟨next, h⟩).stats
                  producer := .joining (next + 1) producer_error }
            | .stopped _ => some { s with producer := .returned false }
            | _ => none
          else
            some { s with
              producer := if producer_error then .returned false else .merging cfg.merge_plan }
      | _ => none
  | .load_metadata ok =>
      match s.producer with
      | .merging ((group, preserve_existing) :: plan) =>
          -- the read is only made for patched mints of a group with rows to preserve
          let reads : Bool := preserve_existing && (s.shared.metadata_patches group).keys ≠ ∅
          if s.main.idle && (ok || reads) then
            some (if ok then
                { s with
                  producer := .merging plan
                  main := { s.main with
                    todo := cfg.merge_tasks s.db s.shared group preserve_existing } }
              else { s with producer := .returned false })
          else none
      | _ => none
  | .main_call now =>
      match s.producer with
      | .merging _ => (s.main.call cfg.size now).map fun main => { s with main }
      | _ => none
  | .main_write_error =>
      match s.producer with
      | .merging _ =>
          if s.main.writes then some { s with producer := .returned false } else none
      | _ => none
  | .main_commit reply =>
      match s.producer with
      | .merging _ =>
          (s.main.commit reply s.db).map fun (main, db, ok) =>
            { s with main, db, producer := if ok then s.producer else .returned false }
      | _ => none
  | .main_done =>
      if s.producer = .merging [] ∧ s.main.idle then some { s with producer := .imported }
      else none
  | .index ok =>
      if s.producer = .imported then some { s with producer := .returned ok } else none
  | _ => none

/-- The worker a label moves. -/
def mover : PoolLabel n → Option (Fin n)
  | .start i _ | .panic i | .poll i | .recv i | .recv_timeout i | .recv_disconnected i
  | .call i _ | .write_error i | .commit i _ | .done i | .close i => some i
  | _ => none

/-- One step of the import. -/
def step (cfg : ImportConfig) (s : Pool n) (l : PoolLabel n) : Option (Pool n) :=
  match mover l with
  | some i => s.worker_step cfg i l
  | none => s.main_step cfg l

/-! ## What a step can do -/

/-- What a step of worker `i` can do. -/
inductive WorkerStep (cfg : ImportConfig) (s : Pool n) (i : Fin n) : Pool n → Prop
  | started (h : (s.worker i).phase = .starting) : WorkerStep cfg s i (s.set_phase i .top)
  | start_failed (h : (s.worker i).phase = .starting) :
      WorkerStep cfg s i (s.worker_fails i false)
  | panicked (h : (s.worker i).phase.is_stopped = false) :
      WorkerStep cfg s i (s.set_phase i (.stopped .panicked))
  | saw_cancelled (h : (s.worker i).phase = .top ∨ (s.worker i).phase = .closing) :
      WorkerStep cfg s i (s.worker_fails i false)
  | polled (h : (s.worker i).phase = .top) : WorkerStep cfg s i (s.set_phase i .receiving)
  | received (append_vec : AppendVec) (queue : List AppendVec)
      (h : (s.worker i).phase = .receiving) (hqueue : s.queue = append_vec :: queue) :
      WorkerStep cfg s i { s.set_worker i { s.worker i with
          phase := .processing
          exec := { (s.worker i).exec with
            todo := (cfg.deliver append_vec).map .parser } } with queue }
  | timed_out (h : (s.worker i).phase = .receiving) :
      WorkerStep cfg s i (s.set_worker i { s.worker i with
        phase := .flushing
        exec := { (s.worker i).exec with todo := cfg.lanes.map .flush } })
  | disconnected (h : (s.worker i).phase = .receiving) (hqueue : s.queue = [])
      (hsender : s.producer.has_sender = false) :
      WorkerStep cfg s i (s.set_phase i .closing)
  | parsed (now : ℕ) (op : ImportOp) (exec : Exec)
      (h : (s.worker i).phase.is_executing = true)
      (hcall : (s.worker i).exec.call cfg.size now = some exec)
      (hop : (s.worker i).exec.next_op = some op) :
      WorkerStep cfg s i { s.set_worker i { s.worker i with
          exec, stats := (s.worker i).stats.step op } with shared := s.shared.step op }
  | flushed (now : ℕ) (exec : Exec) (h : (s.worker i).phase.is_executing = true)
      (hcall : (s.worker i).exec.call cfg.size now = some exec)
      (hop : (s.worker i).exec.next_op = none) :
      WorkerStep cfg s i (s.set_worker i { s.worker i with exec })
  | write_failed (h : (s.worker i).phase = .processing) :
      WorkerStep cfg s i (s.worker_fails i true)
  | stored (reply : Reply) (exec : Exec) (db : Db)
      (h : (s.worker i).phase.is_executing = true)
      (hcommit : (s.worker i).exec.commit reply s.db = some (exec, db, true)) :
      WorkerStep cfg s i { s.set_worker i { s.worker i with exec } with db }
  | commit_failed (cancels : Bool) (db : Db) (h : (s.worker i).phase.is_executing = true) :
      WorkerStep cfg s i { s.worker_fails i cancels with db }
  | work_done (h : (s.worker i).phase = .flushing ∨ (s.worker i).phase = .processing)
      (hidle : (s.worker i).exec.idle = true) : WorkerStep cfg s i (s.set_phase i .top)
  | ended (h : (s.worker i).phase = .ending) (hidle : (s.worker i).exec.idle = true) :
      WorkerStep cfg s i (s.set_phase i (.stopped .ok))
  | closed (h : (s.worker i).phase = .closing) :
      WorkerStep cfg s i (s.set_worker i { s.worker i with
        phase := .ending
        exec := { (s.worker i).exec with todo := cfg.lanes.map .flush } })

theorem worker_step_spec {cfg : ImportConfig} {s s' : Pool n} {i : Fin n} {l : PoolLabel n}
    (h : s.worker_step cfg i l = some s') : WorkerStep cfg s i s' := by
  -- the guard of each label is what the step says of the phase it starts from
  cases l with
  | start j ok =>
      simp only [worker_step, Option.ite_none_right_eq_some, Option.some.injEq] at h
      obtain ⟨hphase, rfl⟩ := h
      cases ok
      · exact .start_failed hphase
      · exact .started hphase
  | panic j =>
      simp only [worker_step, Option.ite_none_left_eq_some, Option.some.injEq] at h
      obtain ⟨hphase, rfl⟩ := h
      exact .panicked (by simpa using hphase)
  | poll j =>
      simp only [worker_step, Option.ite_none_right_eq_some, Option.some.injEq] at h
      obtain ⟨hphase, rfl⟩ := h
      split
      · exact .saw_cancelled (.inl hphase)
      · exact .polled hphase
  | recv j =>
      simp only [worker_step] at h
      split at h
      · next append_vec queue hphase hqueue =>
          obtain rfl := Option.some.inj h
          exact .received append_vec queue hphase hqueue
      · cases h
  | recv_timeout j =>
      simp only [worker_step, Option.ite_none_right_eq_some, Option.some.injEq] at h
      obtain ⟨⟨hphase, -, -⟩, rfl⟩ := h
      exact .timed_out hphase
  | recv_disconnected j =>
      simp only [worker_step, Option.ite_none_right_eq_some, Option.some.injEq] at h
      obtain ⟨⟨hphase, hqueue, hsender⟩, rfl⟩ := h
      exact .disconnected hphase hqueue (by simpa using hsender)
  | call j now =>
      simp only [worker_step, Option.ite_none_right_eq_some, Option.map_eq_some_iff] at h
      obtain ⟨hphase, exec, hcall, rfl⟩ := h
      cases hop : (s.worker i).exec.next_op with
      | none => exact .flushed now exec hphase hcall hop
      | some op => exact .parsed now op exec hphase hcall hop
  | write_error j =>
      simp only [worker_step, Option.ite_none_right_eq_some, Option.some.injEq] at h
      obtain ⟨⟨hphase, -⟩, rfl⟩ := h
      exact .write_failed hphase
  | commit j reply =>
      simp only [worker_step, Option.ite_none_right_eq_some, Option.map_eq_some_iff] at h
      obtain ⟨hphase, ⟨exec, db, ok⟩, hcommit, rfl⟩ := h
      cases ok
      · exact .commit_failed _ db hphase
      · exact .stored reply exec db hphase hcommit
  | done j =>
      simp only [worker_step, Option.ite_none_right_eq_some] at h
      obtain ⟨hidle, h⟩ := h
      split at h
      · next hphase =>
          obtain rfl := Option.some.inj h
          exact .work_done (.inl hphase) hidle
      · next hphase =>
          obtain rfl := Option.some.inj h
          exact .work_done (.inr hphase) hidle
      · next hphase =>
          obtain rfl := Option.some.inj h
          exact .ended hphase hidle
      · cases h
  | close j =>
      simp only [worker_step, Option.ite_none_right_eq_some, Option.some.injEq] at h
      obtain ⟨hphase, rfl⟩ := h
      split
      · exact .saw_cancelled (.inr hphase)
      · exact .closed hphase
  | _ => simp [worker_step] at h

/-- A worker that has returned does not move. -/
theorem WorkerStep.running {cfg : ImportConfig} {s s' : Pool n} {i : Fin n}
    (h : WorkerStep cfg s i s') : (s.worker i).phase.is_stopped = false := by
  -- an executing worker holds operations or an insert, so it has not returned
  have hexec : ∀ {p : WorkerPhase}, p.is_executing = true → p.is_stopped = false := by
    intro p hp
    cases p <;> simp_all [WorkerPhase.is_executing, WorkerPhase.is_stopped]
  cases h with
  | panicked h => exact h
  | parsed _ _ _ h => exact hexec h
  | flushed _ _ h => exact hexec h
  | stored _ _ _ h => exact hexec h
  | commit_failed _ _ h => exact hexec h
  | saw_cancelled h => rcases h with h | h <;> simp [h, WorkerPhase.is_stopped]
  | work_done h => rcases h with h | h <;> simp [h, WorkerPhase.is_stopped]
  | _ => simp_all [WorkerPhase.is_stopped]

/-- A worker's step leaves the other workers and the calling thread alone. -/
theorem WorkerStep.frame {cfg : ImportConfig} {s s' : Pool n} {i : Fin n}
    (h : WorkerStep cfg s i s') : (∀ j ≠ i, s'.worker j = s.worker j) ∧
      s'.producer = s.producer ∧ s'.main = s.main ∧ s'.totals = s.totals := by
  cases h <;> exact ⟨fun j hj => Function.update_of_ne hj .., rfl, rfl, rfl⟩

/-- What a step of the calling thread can do. -/
inductive MainStep (cfg : ImportConfig) (s : Pool n) : Pool n → Prop
  | stream_over (h : s.producer = .feeding []) :
      MainStep cfg s { s with producer := .joining 0 false }
  | skipped (rest : List StreamItem) (h : s.producer = .feeding (.err :: rest)) :
      MainStep cfg s { s with
        producer := .feeding rest
        skipped_append_vecs := s.skipped_append_vecs + 1 }
  | fed (append_vec : AppendVec) (rest : List StreamItem)
      (h : s.producer = .feeding (.ok append_vec :: rest)) :
      MainStep cfg s { s with producer := .sending append_vec rest }
  | gave_up (h : s.producer.has_sender = true) :
      MainStep cfg s { s with producer := .joining 0 true }
  | checked (append_vec : AppendVec) (rest : List StreamItem)
      (h : s.producer = .sending append_vec rest) :
      MainStep cfg s { s with producer := .dispatching append_vec rest }
  | sent (append_vec : AppendVec) (rest : List StreamItem)
      (h : s.producer = .dispatching append_vec rest) (hsome : s.all_stopped = false)
      (hroom : s.queue.length < n) :
      MainStep cfg s { s with queue := s.queue ++ [append_vec], producer := .feeding rest }
  | send_timed_out (append_vec : AppendVec) (rest : List StreamItem)
      (h : s.producer = .dispatching append_vec rest) :
      MainStep cfg s { s with producer := .sending append_vec rest }
  | joined (next : ℕ) (producer_error : Bool) (h : s.producer = .joining next producer_error)
      (hnext : next < n) (hphase : (s.worker ⟨next, hnext⟩).phase = .stopped .ok) :
      MainStep cfg s { s with
        totals := s.totals.merge (s.worker ⟨next, hnext⟩).stats
        producer := .joining (next + 1) producer_error }
  | join_failed (next : ℕ) (producer_error : Bool)
      (h : s.producer = .joining next producer_error) (hnext : next < n)
      (result : WorkerResult) (hphase : (s.worker ⟨next, hnext⟩).phase = .stopped result)
      (hresult : result ≠ .ok) :
      MainStep cfg s { s with producer := .returned false }
  | rejected (next : ℕ) (h : s.producer = .joining next true) (hnext : ¬next < n) :
      MainStep cfg s { s with producer := .returned false }
  | all_joined (next : ℕ) (h : s.producer = .joining next false) (hnext : ¬next < n) :
      MainStep cfg s { s with producer := .merging cfg.merge_plan }
  | merge_failed (plan : List (TableGroup × Bool)) (main : Exec) (db : Db)
      (h : s.producer = .merging plan) :
      MainStep cfg s { s with producer := .returned false, main, db }
  | loaded (group : TableGroup) (preserve_existing : Bool) (plan : List (TableGroup × Bool))
      (h : s.producer = .merging ((group, preserve_existing) :: plan))
      (hidle : s.main.idle = true) :
      MainStep cfg s { s with
        producer := .merging plan
        main := { s.main with todo := cfg.merge_tasks s.db s.shared group preserve_existing } }
  | called (plan : List (TableGroup × Bool)) (now : ℕ) (main : Exec)
      (h : s.producer = .merging plan) (hcall : s.main.call cfg.size now = some main) :
      MainStep cfg s { s with main }
  | stored (plan : List (TableGroup × Bool)) (reply : Reply) (main : Exec) (db : Db)
      (h : s.producer = .merging plan)
      (hcommit : s.main.commit reply s.db = some (main, db, true)) :
      MainStep cfg s { s with main, db }
  | merged (h : s.producer = .merging []) (hidle : s.main.idle = true) :
      MainStep cfg s { s with producer := .imported }
  | indexed (ok : Bool) (h : s.producer = .imported) :
      MainStep cfg s { s with producer := .returned ok }

theorem main_step_spec {cfg : ImportConfig} {s s' : Pool n} {l : PoolLabel n}
    (h : s.main_step cfg l = some s') : MainStep cfg s s' := by
  -- the producer is at one storage at a time, and its phase says at what
  cases l with
  | feed =>
      simp only [main_step] at h
      split at h
      · next hp =>
          obtain rfl := Option.some.inj h
          exact .stream_over hp
      · next rest hp =>
          obtain rfl := Option.some.inj h
          exact .skipped rest hp
      · next append_vec rest hp =>
          obtain rfl := Option.some.inj h
          by_cases hc : s.cancelled = true
          · rw [if_pos hc]
            exact .gave_up (by rw [hp]; rfl)
          · rw [if_neg hc]
            exact .fed append_vec rest hp
      · cases h
  | check_cancelled =>
      simp only [main_step] at h
      split at h
      · next append_vec rest hp =>
          obtain rfl := Option.some.inj h
          by_cases hc : s.cancelled = true
          · rw [if_pos hc]
            exact .gave_up (by rw [hp]; rfl)
          · rw [if_neg hc]
            exact .checked append_vec rest hp
      · cases h
  | send_timeout =>
      simp only [main_step] at h
      split at h
      · next append_vec rest hp =>
          obtain rfl := Option.some.inj h
          split
          · exact .gave_up (by rw [hp]; rfl)
          · next hstopped =>
              split
              · next hroom =>
                  exact .sent append_vec rest hp (by simpa using hstopped) hroom
              · exact .send_timed_out append_vec rest hp
      · cases h
  | join =>
      simp only [main_step] at h
      split at h
      · next next producer_error hp =>
          split at h
          · next hnext =>
              split at h
              · next hphase =>
                  obtain rfl := Option.some.inj h
                  exact .joined next producer_error hp hnext hphase
              · next result hresult hphase =>
                  obtain rfl := Option.some.inj h
                  exact .join_failed next producer_error hp hnext result hphase
                    fun hr => hresult (by rw [hr] at *)
              · cases h
          · next hnext =>
              obtain rfl := Option.some.inj h
              cases producer_error
              · exact .all_joined next hp hnext
              · exact .rejected next hp hnext
      · cases h
  | load_metadata ok =>
      simp only [main_step] at h
      split at h
      · next group preserve_existing plan hp =>
          simp only [Option.ite_none_right_eq_some, Option.some.injEq, Bool.and_eq_true] at h
          obtain ⟨⟨hidle, -⟩, rfl⟩ := h
          cases ok
          · exact .merge_failed _ s.main s.db hp
          · exact .loaded group preserve_existing plan hp hidle
      · cases h
  | main_call now =>
      simp only [main_step] at h
      split at h
      · next plan hp =>
          rw [Option.map_eq_some_iff] at h
          obtain ⟨main, hcall, rfl⟩ := h
          exact .called plan now main hp hcall
      · cases h
  | main_write_error =>
      simp only [main_step] at h
      split at h
      · next plan hp =>
          simp only [Option.ite_none_right_eq_some, Option.some.injEq] at h
          obtain ⟨-, rfl⟩ := h
          exact .merge_failed plan s.main s.db hp
      · cases h
  | main_commit reply =>
      simp only [main_step] at h
      split at h
      · next plan hp =>
          rw [Option.map_eq_some_iff] at h
          obtain ⟨⟨main, db, ok⟩, hcommit, rfl⟩ := h
          cases ok
          · exact .merge_failed plan main db hp
          · exact .stored plan reply main db hp hcommit
      · cases h
  | main_done =>
      simp only [main_step, Option.ite_none_right_eq_some, Option.some.injEq] at h
      obtain ⟨⟨hp, hidle⟩, rfl⟩ := h
      exact .merged hp hidle
  | index ok =>
      simp only [main_step, Option.ite_none_right_eq_some, Option.some.injEq] at h
      obtain ⟨hp, rfl⟩ := h
      exact .indexed ok hp
  | _ => simp [main_step] at h

/-- A step of the calling thread leaves the workers alone. -/
theorem MainStep.frame {cfg : ImportConfig} {s s' : Pool n} (h : MainStep cfg s s') :
    s'.worker = s.worker ∧ s'.shared = s.shared := by
  cases h <;> exact ⟨rfl, rfl⟩

/-- A call that has returned does not move. -/
theorem MainStep.running {cfg : ImportConfig} {s s' : Pool n} (h : MainStep cfg s s') (ok : Bool) :
    s.producer ≠ .returned ok := by
  intro hp
  cases h <;> simp_all [Producer.has_sender]

/-- A step is a step of one worker or of the calling thread. -/
theorem step_cases {cfg : ImportConfig} {s s' : Pool n} {l : PoolLabel n}
    (h : s.step cfg l = some s') : (∃ i, WorkerStep cfg s i s') ∨ MainStep cfg s s' := by
  unfold step at h
  split at h
  · exact .inl ⟨_, worker_step_spec h⟩
  · exact .inr (main_step_spec h)

end Pool

end SnapshotEtl
