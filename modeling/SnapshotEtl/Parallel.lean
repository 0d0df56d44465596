/-
What a successful pool leaves, whatever the schedule.

While nothing has failed, what the workers have done, what they and the queue
still hold and what was not sent yet make up the stream, as bags; their
statistics are summaries of what each has done and the shared state is that of
some interleaving. Each step moves an operation, a row or a storage from one
place to the next (`Accounts.move`), so when all workers have been joined the
bags say that everything is done, and the merge rules give the rest.
-/
import SnapshotEtl.LateWrites
import SnapshotEtl.Sequential
import Mathlib.Algebra.BigOperators.Fin

set_option autoImplicit false

namespace SnapshotEtl

open Lib

/-- The items the calling thread has not sent. -/
def Producer.unsent : Producer → List StreamItem
  | .feeding rest => rest
  | .sending append_vec rest | .dispatching append_vec rest => .ok append_vec :: rest
  | _ => []

/-- How many workers the join loop is past. -/
def Producer.joined_count : Producer → ℕ
  | .joining next _ => next
  | _ => 0

/-- The worker has left its loop without an error. -/
def WorkerPhase.is_leaving : WorkerPhase → Bool
  | .closing | .ending | .stopped .ok => true
  | _ => false

/-- The worker is between two storages. -/
def WorkerPhase.is_waiting : WorkerPhase → Bool
  | .starting | .top | .receiving | .closing => true
  | _ => false

/-- The phases in which a worker executes operations. -/
theorem WorkerPhase.executing_cases {p : WorkerPhase} (h : p.is_executing = true) :
    p = .flushing ∨ p = .processing ∨ p = .ending := by
  cases p <;> simp_all [WorkerPhase.is_executing]

/-- A worker that has performed the operations `done`. -/
structure WorkerThread.Accounts (cfg : ImportConfig) (w : WorkerThread) (done : List ImportOp) :
    Prop where
  stats : w.stats = ParallelWorkerStats.summary.of done
  parsing : w.exec.Parsing cfg
  waiting : w.phase.is_waiting = true → w.exec.idle = true
  ending : w.phase = .ending → w.exec.Closed ∧ ∀ g ∈ cfg.lanes, w.exec.Covered g
  stopped : w.phase = .stopped .ok → w.exec.todo = [] ∧ ∀ g, w.exec.owed g = 0

theorem WorkerPhase.leaving_executing {p : WorkerPhase} (h : p.is_executing = true)
    (hleave : p.is_leaving = true) : p = .ending := by
  rcases executing_cases h with rfl | rfl | rfl <;> simp_all [is_leaving]

/-- A worker that goes on executing. -/
theorem WorkerThread.Accounts.executing {cfg : ImportConfig} {w w' : WorkerThread}
    {done' : List ImportOp}
    (hphase : w.phase.is_executing = true) (hsame : w'.phase = w.phase)
    (hstats : w'.stats = ParallelWorkerStats.summary.of done') (hparsing : w'.exec.Parsing cfg)
    (hending : w.phase = .ending → w'.exec.Closed ∧ ∀ g ∈ cfg.lanes, w'.exec.Covered g) :
    w'.Accounts cfg done' := by
  refine ⟨hstats, hparsing, fun hwait => ?_, fun hend => hending (hsame ▸ hend), fun hstop => ?_⟩
  · rw [hsame] at hwait
    rcases WorkerPhase.executing_cases hphase with h | h | h <;>
      simp [h, WorkerPhase.is_waiting] at hwait
  · rw [← hsame, hstop] at hphase
    cases hphase

namespace Pool

variable {n : ℕ} {cfg : ImportConfig} {stream : List StreamItem} {db₀ : Db}

/-- The storages nobody has taken. -/
def waiting (s : Pool n) : List AppendVec := s.queue ++ delivered s.producer.unsent

/-- The books of a pool in which nothing has failed: `done i` is what worker `i`
has performed. -/
structure Accounts (cfg : ImportConfig) (stream : List StreamItem) (db₀ : Db)
    (done : Fin n → List ImportOp) (s : Pool n) : Prop where
  worker : ∀ i, (s.worker i).Accounts cfg (done i)
  leaving : ∀ i, (s.worker i).phase.is_leaving = true →
    s.queue = [] ∧ s.producer.has_sender = false
  shared : ∃ order : List ImportOp,
    (order : Multiset ImportOp) = ∑ i, (done i : Multiset ImportOp) ∧ s.shared = Shared.of order
  parsed : (∑ i, ((done i : Multiset ImportOp) + (s.worker i).exec.ops)) + cfg.ops s.waiting
    = (cfg.ops (delivered stream) : Multiset ImportOp)
  rows : ∀ g, (s.db g).rows + ∑ i, (s.worker i).exec.owed g + rows_sent g (cfg.ops s.waiting)
    = (db₀ g).rows + rows_sent g (cfg.ops (delivered stream))
  metadata : ∀ g, (s.db g).raw_token_metadata = (db₀ g).raw_token_metadata
  totals : ∃ order : List ImportOp, (order : Multiset ImportOp)
      = ∑ i with i.val < s.producer.joined_count, (done i : Multiset ImportOp) ∧
    s.totals = ParallelWorkerStats.summary.of order
  main : s.main = .new

/-- Changing one term of a sum. -/
theorem sum_exchange {α : Type*} (f f' : Fin n → Multiset α) (i : Fin n)
    (h : ∀ j ≠ i, f' j = f j) : ∑ j, f' j + f i = ∑ j, f j + f' i := by
  rw [← Finset.add_sum_erase Finset.univ f (Finset.mem_univ i),
    ← Finset.add_sum_erase Finset.univ f' (Finset.mem_univ i),
    Finset.sum_congr rfl fun j hj => h j (Finset.ne_of_mem_erase hj)]
  abel

/-- **One worker moves.** It performs `ops`, takes `taken` from the queue, and
pays what it stores out of what it owes; the books stay balanced. -/
theorem Accounts.move {done : Fin n → List ImportOp} {s s' : Pool n} {i : Fin n}
    (h : Accounts cfg stream db₀ done s) (hjoined : Joined s)
    (hrunning : (s.worker i).phase.is_stopped = false)
    (hothers : ∀ j ≠ i, s'.worker j = s.worker j) (hproducer : s'.producer = s.producer)
    (hmain : s'.main = s.main) (htotals : s'.totals = s.totals)
    (ops : List ImportOp) (taken : List AppendVec) (hqueue : s.queue = taken ++ s'.queue)
    (hworker : (s'.worker i).Accounts cfg (done i ++ ops))
    (hleaving : (s'.worker i).phase.is_leaving = true →
      s.queue = [] ∧ s.producer.has_sender = false)
    (hshared : s'.shared = ops.foldl Shared.step s.shared)
    (hops : (ops : Multiset ImportOp) + ((s'.worker i).exec.ops : Multiset ImportOp)
      = (s.worker i).exec.ops + cfg.ops taken)
    (hrows : ∀ g, (s'.db g).rows + (s'.worker i).exec.owed g
      = (s.db g).rows + (s.worker i).exec.owed g + rows_sent g (cfg.ops taken))
    (hmetadata : ∀ g, (s'.db g).raw_token_metadata = (s.db g).raw_token_metadata) :
    Accounts cfg stream db₀ (Function.update done i (done i ++ ops)) s' := by
  have hdone : ∀ j ≠ i, Function.update done i (done i ++ ops) j = done j :=
    fun j hj => Function.update_of_ne hj ..
  have hwaiting : cfg.ops s.waiting = cfg.ops taken ++ cfg.ops s'.waiting := by
    simp [waiting, hqueue, hproducer, ImportConfig.ops]
  refine ⟨fun j => ?_, fun j hj => ?_, ?_, ?_, fun g => ?_, fun g => ?_, ?_, hmain.trans h.main⟩
  · by_cases hj : j = i
    · subst hj
      rw [Function.update_self]
      exact hworker
    · rw [hdone j hj, hothers j hj]
      exact h.worker j
  · have hempty : s.queue = [] ∧ s.producer.has_sender = false := by
      by_cases hji : j = i
      · subst hji
        exact hleaving hj
      · rw [hothers j hji] at hj
        exact h.leaving j hj
    rw [hproducer]
    refine ⟨?_, hempty.2⟩
    rw [hempty.1] at hqueue
    exact (List.append_eq_nil_iff.mp hqueue.symm).2
  · obtain ⟨order, horder, hof⟩ := h.shared
    refine ⟨order ++ ops, ?_, ?_⟩
    · have hsum := sum_exchange (fun j => (done j : Multiset ImportOp))
        (fun j => (Function.update done i (done i ++ ops) j : Multiset ImportOp)) i
        fun j hj => by rw [hdone j hj]
      simp only [Function.update_self, ← Multiset.coe_add] at hsum
      rw [← Multiset.coe_add, horder]
      exact (add_right_cancel (hsum.trans (by abel))).symm
    · rw [hshared, hof, Shared.of, Shared.of, List.foldl_append]
  · have hsum := sum_exchange
      (fun j => (done j : Multiset ImportOp) + ((s.worker j).exec.ops : Multiset ImportOp))
      (fun j => (Function.update done i (done i ++ ops) j : Multiset ImportOp)
        + ((s'.worker j).exec.ops : Multiset ImportOp)) i
          fun j hj => by rw [hdone j hj, hothers j hj]
    simp only [Function.update_self, ← Multiset.coe_add] at hsum
    have hparsed := h.parsed
    rw [hwaiting, ← Multiset.coe_add] at hparsed
    rw [← hparsed, ← add_assoc]
    refine congrArg (· + (cfg.ops s'.waiting : Multiset ImportOp)) ?_
    refine add_right_cancel (hsum.trans ?_)
    rw [add_assoc (done i : Multiset ImportOp), hops]
    abel
  · have hsum := sum_exchange (fun j => (s.worker j).exec.owed g)
      (fun j => (s'.worker j).exec.owed g) i fun j hj => by rw [hothers j hj]
    have hold := h.rows g
    rw [hwaiting, rows_sent_append, ← Multiset.coe_add] at hold
    rw [← hold, ← add_assoc]
    refine congrArg (· + (rows_sent g (cfg.ops s'.waiting) : Multiset Row)) ?_
    refine add_right_cancel (b := (s.worker i).exec.owed g) ?_
    rw [add_assoc, hsum, add_comm (∑ j, (s.worker j).exec.owed g), ← add_assoc, hrows]
    abel
  · rw [hmetadata, h.metadata]
  · obtain ⟨order, horder, hof⟩ := h.totals
    refine ⟨order, ?_, htotals.trans hof⟩
    rw [horder, hproducer]
    refine Finset.sum_congr rfl fun j hj => ?_
    have hji : j ≠ i := by
      rintro rfl
      -- the join loop is only past workers that have returned
      have hlt := (Finset.mem_filter.mp hj).2
      cases hp : s.producer with
      | joining next producer_error =>
          rw [hp] at hlt
          rw [hjoined.before next producer_error hp j hlt] at hrunning
          cases hrunning
      | _ => simp [hp, Producer.joined_count] at hlt
    rw [hdone j hji]

/-! ## Failing -/

/-- Something has failed, and the call will not return `Ok`. -/
def Failed (s : Pool n) : Prop :=
  (∃ i, (s.worker i).phase = .stopped .err ∨ (s.worker i).phase = .stopped .panicked) ∨
    s.producer = .returned false ∨ ∃ next, s.producer = .joining next true

/-- A failed call stays failed. -/
theorem Failed.step {s s' : Pool n} {l : PoolLabel n} (hs : Failed s)
    (h : s.step cfg l = some s') : Failed s' := by
  rcases step_cases h with ⟨i, hw⟩ | hm
  · obtain ⟨hothers, hproducer, -, -⟩ := hw.frame
    rcases hs with ⟨j, hj⟩ | hret | ⟨next, hnext⟩
    · have hji : j ≠ i := by
        rintro rfl
        have hrunning := hw.running
        rcases hj with hj | hj <;> simp [hj, WorkerPhase.is_stopped] at hrunning
      exact .inl ⟨j, by rw [hothers j hji]; exact hj⟩
    · exact .inr (.inl (hproducer.trans hret))
    · exact .inr (.inr ⟨next, hproducer.trans hnext⟩)
  · rcases hs with ⟨j, hj⟩ | hret | ⟨next, hnext⟩
    · exact .inl ⟨j, by rw [hm.frame.1]; exact hj⟩
    · exact absurd hret (hm.running false)
    · cases hm <;> simp_all [Producer.has_sender]
      · next hret => exact .inr (.inr ⟨next + 1, rfl⟩)
      all_goals exact .inr (.inl rfl)

/-- A pool past its join loop at the loop's end has not failed before. -/
theorem not_failed_worker {s : Pool n} (hjoined : Joined s)
    (hpast : s.producer.past_join = true) : ¬∃ i, (s.worker i).phase = .stopped .err ∨
      (s.worker i).phase = .stopped .panicked := by
  rintro ⟨i, hi⟩
  rw [hjoined.all hpast i] at hi
  simp at hi

/-! ## Steps of a worker -/

/-- A worker that only changes its phase or its bookkeeping. -/
theorem Accounts.set_worker {done : Fin n → List ImportOp} {s : Pool n} {i : Fin n}
    (h : Accounts cfg stream db₀ done s) (hjoined : Joined s)
    (hrunning : (s.worker i).phase.is_stopped = false) (w : WorkerThread)
    (hw : w.Accounts cfg (done i))
    (hleaving : w.phase.is_leaving = true → s.queue = [] ∧ s.producer.has_sender = false)
    (hops : w.exec.ops = (s.worker i).exec.ops)
    (howed : ∀ g, w.exec.owed g = (s.worker i).exec.owed g) :
    ∃ done', Accounts cfg stream db₀ done' (s.set_worker i w) := by
  have hself : (s.set_worker i w).worker i = w := Function.update_self ..
  have hothers : ∀ j ≠ i, (s.set_worker i w).worker j = s.worker j :=
    fun j hj => Function.update_of_ne hj ..
  refine ⟨Function.update done i (done i ++ []), h.move hjoined hrunning hothers rfl rfl rfl
    [] [] rfl ?_ ?_ rfl ?_ (fun g => ?_) fun g => rfl⟩
  · rw [hself, List.append_nil]
    exact hw
  · rw [hself]
    exact hleaving
  · rw [hself, hops]
    simp [ImportConfig.ops]
  · rw [hself, howed]
    simp [Pool.set_worker, ImportConfig.ops]

/-- An idle worker that goes on to wait. -/
theorem Accounts.waits {done : Fin n → List ImportOp} {s : Pool n} {i : Fin n}
    (h : Accounts cfg stream db₀ done s) (hjoined : Joined s)
    (hrunning : (s.worker i).phase.is_stopped = false) (hidle : (s.worker i).exec.idle = true)
    {phase : WorkerPhase} (hwaiting : phase.is_waiting = true)
    (hleaving : phase.is_leaving = true → s.queue = [] ∧ s.producer.has_sender = false) :
    ∃ done', Accounts cfg stream db₀ done' (s.set_phase i phase) := by
  have hi := h.worker i
  have hending : phase ≠ .ending := by
    rintro rfl
    cases hwaiting
  have hstopped : phase ≠ .stopped .ok := by
    rintro rfl
    cases hwaiting
  exact h.set_worker hjoined hrunning _
    ⟨hi.stats, hi.parsing, fun _ => hidle, fun hend => absurd hend hending,
      fun hstop => absurd hstop hstopped⟩ hleaving rfl fun g => rfl

/-- An idle worker that begins to flush its lanes, for the timer or at its end. -/
theorem Accounts.flushes {done : Fin n → List ImportOp} {s : Pool n} {i : Fin n}
    (h : Accounts cfg stream db₀ done s) (hjoined : Joined s)
    (hrunning : (s.worker i).phase.is_stopped = false) (hidle : (s.worker i).exec.idle = true)
    {phase : WorkerPhase} (hexecuting : phase.is_executing = true)
    (hleaving : phase.is_leaving = true → s.queue = [] ∧ s.producer.has_sender = false) :
    ∃ done', Accounts cfg stream db₀ done' (s.set_worker i { s.worker i with
      phase, exec := { (s.worker i).exec with todo := cfg.lanes.map .flush } }) := by
  have hi := h.worker i
  have htodo := (Sequential.idle_iff.mp hidle).2
  refine h.set_worker hjoined hrunning _
    ⟨hi.stats, hi.parsing.flush htodo _, fun hwait => ?_, fun _ => ⟨Exec.closed_flushes rfl, ?_⟩,
      fun hstop => ?_⟩ hleaving ?_ fun g => ?_
  · rcases WorkerPhase.executing_cases hexecuting with rfl | rfl | rfl <;> cases hwait
  · -- a flush of every lane is ahead
    intro g hg t _
    exact .inr (List.mem_map.mpr ⟨g, hg, rfl⟩)
  · rcases WorkerPhase.executing_cases hexecuting with rfl | rfl | rfl <;> cases hstop
  · simp [Exec.ops, htodo]
  · exact Exec.owed_flush htodo _ g

/-- A storage goes from the queue to what its worker has to parse. -/
theorem Accounts.receives {done : Fin n → List ImportOp} {s : Pool n} {i : Fin n}
    (h : Accounts cfg stream db₀ done s) (hjoined : Joined s)
    (hrunning : (s.worker i).phase.is_stopped = false) (hidle : (s.worker i).exec.idle = true)
    {append_vec : AppendVec} {queue : List AppendVec} (hqueue : s.queue = append_vec :: queue) :
    ∃ done', Accounts cfg stream db₀ done' { s.set_worker i { s.worker i with
      phase := .processing
      exec := { (s.worker i).exec with
        todo := (cfg.deliver append_vec).map .parser } } with queue } := by
  have hi := h.worker i
  have htodo := (Sequential.idle_iff.mp hidle).2
  have hops : (s.worker i).exec.ops = [] := by simp [Exec.ops, htodo]
  refine ⟨Function.update done i (done i ++ []), h.move hjoined hrunning
    (fun j hj => Function.update_of_ne hj ..) (by rfl) (by rfl) (by rfl) [] [append_vec]
      (by simpa using hqueue) ?_ ?_ (by rfl) ?_ (fun g => ?_) fun g => by rfl⟩
  all_goals simp only [Pool.set_worker, Function.update_self, List.append_nil]
  · exact ⟨hi.stats, hi.parsing.deliver htodo append_vec, by simp [WorkerPhase.is_waiting],
      by simp, by simp⟩
  · simp [WorkerPhase.is_leaving]
  · rw [Exec.ops_deliver, hops]
    simp [ImportConfig.ops]
  · rw [Exec.Parsing.owed_deliver cfg _ append_vec htodo]
    simp [ImportConfig.ops, add_assoc]

/-- An operation of the parser is performed: the worker counts it, and the shared state
has it. -/
theorem Accounts.performs {done : Fin n → List ImportOp} {s : Pool n} {i : Fin n}
    (h : Accounts cfg stream db₀ done s) (hjoined : Joined s)
    (hrunning : (s.worker i).phase.is_stopped = false)
    (hphase : (s.worker i).phase.is_executing = true)
    (hleaves : (s.worker i).phase = .ending → s.queue = [] ∧ s.producer.has_sender = false)
    {now : ℕ} {op : ImportOp} {exec : Exec}
    (hcall : (s.worker i).exec.call cfg.size now = some exec)
    (hop : (s.worker i).exec.next_op = some op) :
    ∃ done', Accounts cfg stream db₀ done' { s.set_worker i { s.worker i with
      exec, stats := (s.worker i).stats.step op } with shared := s.shared.step op } := by
  have hi := h.worker i
  refine ⟨Function.update done i (done i ++ [op]), h.move hjoined hrunning
    (fun j hj => Function.update_of_ne hj ..) (by rfl) (by rfl) (by rfl) [op] [] (by rfl)
      ?_ ?_ (by rfl) ?_ (fun g => ?_) fun g => by rfl⟩
  all_goals simp only [Pool.set_worker, Function.update_self]
  · refine .executing hphase rfl ?_ (hi.parsing.call hcall) fun hend =>
      ⟨(hi.ending hend).1.call hcall, fun g hg =>
        ((hi.ending hend).2 g hg).call (hi.ending hend).1 hcall⟩
    rw [Summary.of_concat, ← hi.stats]
    rfl
  · exact fun hleave => hleaves (WorkerPhase.leaving_executing hphase hleave)
  · rw [(Exec.ops_call hcall).1 op hop]
    simp [ImportConfig.ops]
  · rw [(Exec.call_spec hcall).2.2]
    simp [ImportConfig.ops]

/-- An insert is answered: its rows go from what the worker owes to the tables. -/
theorem Accounts.stores {done : Fin n → List ImportOp} {s : Pool n} {i : Fin n}
    (h : Accounts cfg stream db₀ done s) (hjoined : Joined s)
    (hrunning : (s.worker i).phase.is_stopped = false)
    (hphase : (s.worker i).phase.is_executing = true)
    (hleaves : (s.worker i).phase = .ending → s.queue = [] ∧ s.producer.has_sender = false)
    {reply : Reply} {exec : Exec} {db : Db}
    (hcommit : (s.worker i).exec.commit reply s.db = some (exec, db, true)) :
    ∃ done', Accounts cfg stream db₀ done'
      { s.set_worker i { s.worker i with exec } with db } := by
  have hi := h.worker i
  obtain ⟨htodo, hrows⟩ := Exec.commit_spec hcommit
  refine ⟨Function.update done i (done i ++ []), h.move hjoined hrunning
    (fun j hj => Function.update_of_ne hj ..) (by rfl) (by rfl) (by rfl) [] [] (by rfl)
      ?_ ?_ (by rfl) ?_ (fun g => ?_) fun g => ?_⟩
  all_goals simp only [Pool.set_worker, Function.update_self, List.append_nil]
  · exact .executing hphase rfl hi.stats (hi.parsing.commit hcommit) fun hend =>
      ⟨fun before task after ht => (hi.ending hend).1 before task after (htodo ▸ ht),
        fun g hg => ((hi.ending hend).2 g hg).commit hcommit⟩
  · exact fun hleave => hleaves (WorkerPhase.leaving_executing hphase hleave)
  · simp [Exec.ops, htodo, ImportConfig.ops]
  · rw [hrows]
    simp [ImportConfig.ops]
  · exact (Exec.commit_frame hcommit g).2.2 (hi.parsing.no_metadata g)

/-- A worker's step keeps the books, or it fails. -/
theorem Accounts.worker_step {done : Fin n → List ImportOp} {s s' : Pool n} {i : Fin n}
    (h : Accounts cfg stream db₀ done s) (hjoined : Joined s) (hw : WorkerStep cfg s i s') :
    Failed s' ∨ ∃ done', Accounts cfg stream db₀ done' s' := by
  have hfails : ∀ cancels, Failed (s.worker_fails i cancels) := fun cancels =>
    .inl ⟨i, .inl (by simp [worker_fails, set_phase, Pool.set_worker])⟩
  have hrunning := hw.running
  have hi := h.worker i
  have hleaves : (s.worker i).phase = .closing ∨ (s.worker i).phase = .ending →
      s.queue = [] ∧ s.producer.has_sender = false := fun hphase =>
    h.leaving i (by rcases hphase with hphase | hphase <;> rw [hphase] <;> rfl)
  cases hw with
  | start_failed _ => exact .inl (hfails false)
  | saw_cancelled _ => exact .inl (hfails false)
  | write_failed _ => exact .inl (hfails true)
  | commit_failed cancels db _ => exact .inl (hfails cancels)
  | panicked _ => exact .inl (.inl ⟨i, .inr (by simp [set_phase, Pool.set_worker])⟩)
  | started hphase =>
      exact .inr (h.waits hjoined hrunning (hi.waiting (by rw [hphase]; rfl)) rfl
        fun hleave => nomatch hleave)
  | polled hphase =>
      exact .inr (h.waits hjoined hrunning (hi.waiting (by rw [hphase]; rfl)) rfl
        fun hleave => nomatch hleave)
  | timed_out hphase =>
      exact .inr (h.flushes hjoined hrunning (hi.waiting (by rw [hphase]; rfl)) rfl
        fun hleave => nomatch hleave)
  | disconnected hphase hqueue hsender =>
      exact .inr (h.waits hjoined hrunning (hi.waiting (by rw [hphase]; rfl)) rfl
        fun _ => ⟨hqueue, hsender⟩)
  | flushed now exec hphase hcall hop =>
      -- nothing is performed: the calls of a flush only send what is owed
      exact .inr (h.set_worker hjoined hrunning _ (.executing hphase rfl hi.stats
        (hi.parsing.call hcall) fun hend => ⟨(hi.ending hend).1.call hcall, fun g hg =>
          ((hi.ending hend).2 g hg).call (hi.ending hend).1 hcall⟩)
        (fun hleave => hleaves (.inr (WorkerPhase.leaving_executing hphase hleave)))
        ((Exec.ops_call hcall).2 hop).symm (Exec.call_spec hcall).2.2)
  | work_done hphase hidle =>
      exact .inr (h.waits hjoined hrunning hidle rfl fun hleave => nomatch hleave)
  | ended hphase hidle =>
      refine .inr (h.set_worker hjoined hrunning _
        ⟨hi.stats, hi.parsing, by simp [WorkerPhase.is_waiting], by simp,
          fun _ => ⟨?_, fun g => ?_⟩⟩
        (fun _ => hleaves (.inr hphase)) rfl fun g => rfl)
      · exact (Sequential.idle_iff.mp hidle).2
      · -- a lane of the import has been flushed to the end, and there is no other
        by_cases hg : g ∈ cfg.lanes
        · exact ((hi.ending hphase).2 g hg).owed_eq_zero hidle
        · exact hi.parsing.lanes g hg
  | closed hphase =>
      exact .inr (h.flushes hjoined hrunning (hi.waiting (by rw [hphase]; rfl)) rfl
        fun _ => hleaves (.inl hphase))
  | received append_vec queue hphase hqueue =>
      exact .inr (h.receives hjoined hrunning (hi.waiting (by rw [hphase]; rfl)) hqueue)
  | parsed now op exec hphase hcall hop =>
      exact .inr (h.performs hjoined hrunning hphase (fun hend => hleaves (.inr hend)) hcall hop)
  | stored reply exec db hphase hcommit =>
      exact .inr (h.stores hjoined hrunning hphase (fun hend => hleaves (.inr hend)) hcommit)

/-! ## Steps of the calling thread -/

/-- The calling thread only moves items and joins. -/
theorem Accounts.of_same {done : Fin n → List ImportOp} {s s' : Pool n}
    (h : Accounts cfg stream db₀ done s) (hworker : s'.worker = s.worker)
    (hshared : s'.shared = s.shared) (hdb : s'.db = s.db) (hmain : s'.main = s.main)
    (hwaiting : s'.waiting = s.waiting)
    (hleaving : ∀ i, (s.worker i).phase.is_leaving = true →
      s'.queue = [] ∧ s'.producer.has_sender = false)
    (htotals : ∃ order : List ImportOp, (order : Multiset ImportOp)
      = ∑ i with i.val < s'.producer.joined_count, (done i : Multiset ImportOp) ∧
        s'.totals = ParallelWorkerStats.summary.of order) :
    Accounts cfg stream db₀ done s' := by
  refine ⟨fun i => ?_, fun i hi => ?_, ?_, ?_, fun g => ?_, fun g => ?_, htotals, ?_⟩
  · rw [hworker]
    exact h.worker i
  · rw [hworker] at hi
    exact hleaving i hi
  · rw [hshared]
    exact h.shared
  · rw [hworker, hwaiting]
    exact h.parsed
  · rw [hworker, hwaiting, hdb]
    exact h.rows g
  · rw [hdb]
    exact h.metadata g
  · rw [hmain]
    exact h.main

/-- What is stored of the stream itself. -/
def total (cfg : ImportConfig) (stream : List StreamItem) (db₀ : Db) (g : TableGroup) :
    Multiset Row :=
  (db₀ g).rows + rows_sent g (cfg.ops (delivered stream))

/-- What holds of a pool that has not failed, phase by phase. -/
def Balance (cfg : ImportConfig) (stream : List StreamItem) (db₀ : Db) (s : Pool n) : Prop :=
  Failed s ∨
    match s.producer with
    | .merging plan =>
        (∃ done, MergeInv cfg s.shared db₀ (total cfg stream db₀) done plan s.main s.db) ∧
          s.totals = ParallelWorkerStats.summary.of (cfg.ops (delivered stream)) ∧
          s.shared = Shared.of (cfg.ops (delivered stream))
    | .imported | .returned true =>
        cfg.Complete (cfg.ops (delivered stream)) db₀ s.totals s.shared s.db
    | .returned false => True
    | _ => ∃ done, Accounts cfg stream db₀ done s

/-- Past the join loop everything has been done: no worker holds anything, and
somebody was there to empty the queue. -/
theorem Accounts.all_joined {done : Fin n → List ImportOp} {s : Pool n} {next : ℕ}
    (hn : 0 < n) (h : Accounts cfg stream db₀ done s) (hjoined : Joined s)
    (hp : s.producer = .joining next false) (hnext : ¬next < n) :
    MergeInv cfg s.shared db₀ (total cfg stream db₀) [] cfg.merge_plan s.main s.db ∧
      s.totals = ParallelWorkerStats.summary.of (cfg.ops (delivered stream)) ∧
      s.shared = Shared.of (cfg.ops (delivered stream)) := by
  -- every worker has stopped, so nothing is left in the queue or owed
  have hok : ∀ i, (s.worker i).phase = .stopped .ok := fun i =>
    hjoined.before next false hp i (by have := i.isLt; omega)
  have hqueue : s.queue = [] := (h.leaving ⟨0, hn⟩ (by rw [hok]; rfl)).1
  have hwaiting : s.waiting = [] := by simp [waiting, hqueue, hp, Producer.unsent, delivered]
  have hops : ∀ i, (s.worker i).exec.ops = [] := fun i => by
    simp [Exec.ops, ((h.worker i).stopped (hok i)).1]
  have hdone : ∑ i, (done i : Multiset ImportOp) = cfg.ops (delivered stream) := by
    have hparsed := h.parsed
    simpa [hwaiting, hops, ImportConfig.ops] using hparsed
  have hperm : ∀ {order : List ImportOp},
      (order : Multiset ImportOp) = ∑ i, (done i : Multiset ImportOp) →
        order.Perm (cfg.ops (delivered stream)) := fun horder =>
    Multiset.coe_eq_coe.mp (horder.trans hdone)
  refine ⟨MergeInv.start (fun g => ?_) h.metadata ?_ ?_ ?_, ?_, ?_⟩
  · have hrows := h.rows g
    have howed : ∀ i, (s.worker i).exec.owed g = 0 := fun i =>
      ((h.worker i).stopped (hok i)).2 g
    simp only [howed, hwaiting, ImportConfig.ops_nil, rows_sent_nil, Finset.sum_const_zero,
      Multiset.coe_nil, add_zero] at hrows
    rw [h.main]
    simpa [Exec.new, Exec.owed, total] using hrows
  · rw [h.main]
    exact fun g row hrow => by simp [Exec.new, Exec.owed] at hrow
  · rw [h.main]
    exact fun g _ => by simp [Exec.new, Exec.owed]
  · rw [h.main]
    rfl
  · -- the totals were added up in the order of joining, which does not show
    obtain ⟨order, horder, htotals⟩ := h.totals
    have hall : (Finset.univ.filter fun i : Fin n => i.val < s.producer.joined_count)
        = Finset.univ := by
      apply Finset.filter_true_of_mem
      intro i _
      rw [hp]
      show i.val < next
      have := i.isLt
      omega
    rw [hall] at horder
    rw [htotals, ParallelWorkerStats.summary.of_perm (hperm horder)]
  · obtain ⟨order, horder, hshared⟩ := h.shared
    rw [hshared, Shared.of_perm (hperm horder)]

/-- Joining a worker adds what it did to the totals. -/
theorem Accounts.joined {done : Fin n → List ImportOp} {s : Pool n} {next : ℕ}
    {producer_error : Bool} (h : Accounts cfg stream db₀ done s)
    (hp : s.producer = .joining next producer_error) (hnext : next < n) :
    Accounts cfg stream db₀ done { s with
      totals := s.totals.merge (s.worker ⟨next, hnext⟩).stats
      producer := .joining (next + 1) producer_error } := by
  refine h.of_same rfl rfl rfl rfl ?_ (fun i hi => ⟨(h.leaving i hi).1, rfl⟩) ?_
  · simp [waiting, hp, Producer.unsent]
  · obtain ⟨order, horder, htotals⟩ := h.totals
    refine ⟨order ++ done ⟨next, hnext⟩, ?_, ?_⟩
    · have hsplit : (Finset.univ.filter fun i : Fin n => i.val < next + 1)
          = insert ⟨next, hnext⟩ (Finset.univ.filter fun i : Fin n => i.val < next) := by
        ext i
        simp only [Finset.mem_filter, Finset.mem_univ, true_and, Finset.mem_insert, Fin.ext_iff]
        omega
      rw [hp] at horder
      rw [Producer.joined_count, hsplit, Finset.sum_insert (by simp), ← Multiset.coe_add, horder,
        add_comm]
      rfl
    · show s.totals.merge _ = _
      rw [htotals, (h.worker _).stats]
      have hmerge := ParallelWorkerStats.summary.merge_of
        (ParallelWorkerStats.summary.of order) (done ⟨next, hnext⟩)
      exact hmerge.trans (List.foldl_append ..).symm

/-- Until the join loop ends the balance is that of the books. -/
theorem balance_accounts {s : Pool n} (h : ¬Failed s) (hpast : s.producer.past_join = false) :
    Balance cfg stream db₀ s ↔ ∃ done, Accounts cfg stream db₀ done s := by
  unfold Balance
  cases hp : s.producer with
  | returned ok =>
      cases ok with
      | true => simp [hp, Producer.past_join] at hpast
      | false => exact absurd (.inr (.inl hp)) h
  | merging plan => simp [hp, Producer.past_join] at hpast
  | imported => simp [hp, Producer.past_join] at hpast
  | _ => simp [h]

/-- A step of a worker keeps the balance: rows leave the queue or the worker only for the
tables. -/
theorem Balance.worker_step {s s' : Pool n} {i : Fin n} (hjoined : Joined s)
    (hnot : ¬Failed s) (hs : Balance cfg stream db₀ s) (hw : WorkerStep cfg s i s') :
    Balance cfg stream db₀ s' := by
  -- past the join loop no worker moves
  have hpast : s.producer.past_join = false := by
    cases hp : s.producer.past_join with
    | false => rfl
    | true =>
        have hrunning := hw.running
        rw [hjoined.all hp i] at hrunning
        cases hrunning
  obtain ⟨done, hdone⟩ := (balance_accounts hnot hpast).mp hs
  rcases hdone.worker_step hjoined hw with hfailed | hdone'
  · exact .inl hfailed
  · by_cases hfailed : Failed s'
    · exact .inl hfailed
    · exact (balance_accounts hfailed (by rw [hw.frame.2.1]; exact hpast)).mpr hdone'

/-- So does a step of the main thread, which feeds the queue and merges. -/
theorem Balance.main_step {s s' : Pool n} (hn : 0 < n) (hjoined : Joined s)
    (hnot : ¬Failed s) (hs : Balance cfg stream db₀ s) (hm : MainStep cfg s s') :
    Balance cfg stream db₀ s' := by
  -- before the join loop: the books, with the calling thread's part rewritten
  have haccounts : s.producer.past_join = false → ∃ done, Accounts cfg stream db₀ done s :=
    fun hpast => (balance_accounts hnot hpast).mp hs
  have hsender : s.producer.has_sender = true → ∀ done, Accounts cfg stream db₀ done s →
      ∀ i, (s.worker i).phase.is_leaving = true → False := by
    intro hsender done hdone i hi
    have hgone := (hdone.leaving i hi).2
    rw [hsender] at hgone
    cases hgone
  cases hm with
  | gave_up hp => exact .inl (.inr (.inr ⟨0, rfl⟩))
  | join_failed => exact .inl (.inr (.inl rfl))
  | rejected => exact .inl (.inr (.inl rfl))
  | merge_failed => exact .inl (.inr (.inl rfl))
  | stream_over hp =>
      obtain ⟨done, hdone⟩ := haccounts (by rw [hp]; rfl)
      have hno := hsender (by rw [hp]; rfl) done hdone
      have htotals := hdone.totals
      rw [hp] at htotals
      exact .inr ⟨done, hdone.of_same rfl rfl rfl rfl (by simp [waiting, hp, Producer.unsent])
        (fun i hi => (hno i hi).elim) htotals⟩
  | skipped rest hp =>
      obtain ⟨done, hdone⟩ := haccounts (by rw [hp]; rfl)
      have hno := hsender (by rw [hp]; rfl) done hdone
      have htotals := hdone.totals
      rw [hp] at htotals
      exact .inr ⟨done, hdone.of_same rfl rfl rfl rfl
        (by simp [waiting, hp, Producer.unsent, delivered]) (fun i hi => (hno i hi).elim) htotals⟩
  | fed append_vec rest hp =>
      obtain ⟨done, hdone⟩ := haccounts (by rw [hp]; rfl)
      have hno := hsender (by rw [hp]; rfl) done hdone
      have htotals := hdone.totals
      rw [hp] at htotals
      exact .inr ⟨done, hdone.of_same rfl rfl rfl rfl (by simp [waiting, hp, Producer.unsent])
        (fun i hi => (hno i hi).elim) htotals⟩
  | checked append_vec rest hp =>
      obtain ⟨done, hdone⟩ := haccounts (by rw [hp]; rfl)
      have hno := hsender (by rw [hp]; rfl) done hdone
      have htotals := hdone.totals
      rw [hp] at htotals
      exact .inr ⟨done, hdone.of_same rfl rfl rfl rfl (by simp [waiting, hp, Producer.unsent])
        (fun i hi => (hno i hi).elim) htotals⟩
  | send_timed_out append_vec rest hp =>
      obtain ⟨done, hdone⟩ := haccounts (by rw [hp]; rfl)
      have hno := hsender (by rw [hp]; rfl) done hdone
      have htotals := hdone.totals
      rw [hp] at htotals
      exact .inr ⟨done, hdone.of_same rfl rfl rfl rfl (by simp [waiting, hp, Producer.unsent])
        (fun i hi => (hno i hi).elim) htotals⟩
  | sent append_vec rest hp hsome hroom =>
      obtain ⟨done, hdone⟩ := haccounts (by rw [hp]; rfl)
      have hno := hsender (by rw [hp]; rfl) done hdone
      have htotals := hdone.totals
      rw [hp] at htotals
      exact .inr ⟨done, hdone.of_same rfl rfl rfl rfl
        (by simp [waiting, hp, Producer.unsent, delivered]) (fun i hi => (hno i hi).elim) htotals⟩
  | joined next producer_error hp hnext hphase =>
      obtain ⟨done, hdone⟩ := haccounts (by rw [hp]; rfl)
      exact .inr ⟨done, hdone.joined hp hnext⟩
  | all_joined next hp hnext =>
      obtain ⟨done, hdone⟩ := haccounts (by rw [hp]; rfl)
      have hall := hdone.all_joined hn hjoined hp hnext
      exact .inr ⟨⟨[], hall.1⟩, hall.2⟩
  | loaded group preserve_existing plan hp hidle =>
      have hmerge := hs.resolve_left hnot
      rw [hp] at hmerge
      obtain ⟨⟨done, hinv⟩, hrest⟩ := hmerge
      exact .inr ⟨⟨_, hinv.load hidle⟩, hrest⟩
  | called plan now main hp hcall =>
      have hmerge := hs.resolve_left hnot
      rw [hp] at hmerge
      obtain ⟨⟨done, hinv⟩, hrest⟩ := hmerge
      refine .inr ?_
      rw [hp]
      exact ⟨⟨done, hinv.call hcall⟩, hrest⟩
  | stored plan reply main db hp hcommit =>
      have hmerge := hs.resolve_left hnot
      rw [hp] at hmerge
      obtain ⟨⟨done, hinv⟩, hrest⟩ := hmerge
      refine .inr ?_
      rw [hp]
      exact ⟨⟨done, hinv.commit hcommit⟩, hrest⟩
  | merged hp hidle =>
      have hmerge := hs.resolve_left hnot
      rw [hp] at hmerge
      obtain ⟨⟨done, hinv⟩, htotals, hshared⟩ := hmerge
      exact .inr ⟨fun g => hinv.finish hidle g, htotals, hshared⟩
  | indexed ok hp =>
      have hcomplete := hs.resolve_left hnot
      rw [hp] at hcomplete
      cases ok with
      | true => exact .inr hcomplete
      | false => exact .inl (.inr (.inl rfl))

/-- Every step keeps the balance. -/
theorem Balance.step {s s' : Pool n} {l : PoolLabel n} (hn : 0 < n) (hjoined : Joined s)
    (hs : Balance cfg stream db₀ s) (h : s.step cfg l = some s') :
    Balance cfg stream db₀ s' := by
  by_cases hfailed : Failed s
  · exact .inl (hfailed.step h)
  · rcases step_cases h with ⟨i, hw⟩ | hm
    · exact hs.worker_step hjoined hfailed hw
    · exact hs.main_step hn hjoined hfailed hm

/-- At the start everything is still owed. -/
theorem balance_init (stream : List StreamItem) (db₀ : Db) :
    Balance cfg stream db₀ (init stream db₀ : Pool n) := by
  refine .inr ⟨fun _ => [], fun i => ?_, fun i hi => ?_, ⟨[], ?_, rfl⟩, ?_, fun g => ?_,
    fun _ => rfl, ⟨[], ?_, rfl⟩, rfl⟩
  · exact ⟨rfl, .new, fun _ => rfl, by simp [init], by simp [init]⟩
  · simp [init, WorkerPhase.is_leaving] at hi
  · simp
  · simp [init, Exec.new, Exec.ops, waiting, Producer.unsent]
  · simp [init, Exec.new, Exec.owed, waiting, Producer.unsent]
  · simp

/-- **A successful pool is complete**, past its last commit and when it returns
`Ok`, whatever the schedule. -/
theorem complete_of_run {s : Pool n} {labels : List (PoolLabel n)} (hn : 0 < n)
    (hrun : Lts.run (step cfg) (init stream db₀) labels = some s)
    (hok : s.producer = .imported ∨ s.producer = .returned true) :
    cfg.Complete (cfg.ops (delivered stream)) db₀ s.totals s.shared s.db := by
  have hstep : ∀ (s : Pool n) l s', (Joined s ∧ Balance cfg stream db₀ s) →
      s.step cfg l = some s' → Joined s' ∧ Balance cfg stream db₀ s' :=
    fun _ _ _ hs h => ⟨hs.1.step h, hs.2.step hn hs.1 h⟩
  have hinv : Joined s ∧ Balance cfg stream db₀ s :=
    Lts.invariant hstep ⟨joined_init stream db₀, balance_init stream db₀⟩ hrun
  have hpast : s.producer.past_join = true := by rcases hok with hp | hp <;> rw [hp] <;> rfl
  have hnot : ¬Failed s := by
    rintro (hworker | hret | ⟨next, hret⟩)
    · exact not_failed_worker hinv.1 hpast hworker
    · rcases hok with hp | hp <;> simp [hp] at hret
    · rcases hok with hp | hp <;> simp [hp] at hret
  have hcomplete := hinv.2.resolve_left hnot
  rcases hok with hp | hp
  · rw [hp] at hcomplete
    exact hcomplete
  · rw [hp] at hcomplete
    exact hcomplete

end Pool

/-! ## Parallel and sequential -/

/-- **The schedule does not show.** For a stream without errors, any number of
workers and any interleaving, a successful `insert_all_parallel` leaves what a
successful `insert_all_sequential` leaves: the same rows in every table up to the
order of insertion, the same merged metadata rows, the same statistics (close
candidates, affected pairs, counters) and the same progress counters. -/
theorem parallel_eq_sequential (dec : Decoders) (size : Row → ℕ) (group : TableGroup)
    (kind : SnapshotKind) (snapshot_slot : Slot) (hot_mints : Finset String)
    (stream : List StreamItem) (hstream : .err ∉ stream) (db₀ : Db) (workers : ℕ)
    (schedule : List (PoolLabel (max workers 2))) (p : Pool (max workers 2))
    (hp : Lts.run (Pool.step (insert_all_config dec size group kind snapshot_slot hot_mints))
      (.init stream db₀) schedule = some p)
    (hpok : p.producer = .imported ∨ p.producer = .returned true)
    (labels : List SequentialLabel) (q : Sequential)
    (hq : Lts.run (Sequential.step (insert_all_config dec size group kind snapshot_slot hot_mints))
      (.init stream db₀) labels = some q)
    (hqok : q.phase = .imported ∨ q.phase = .returned true) :
    (∀ g, (p.db g).raw_account.Perm (q.db g).raw_account ∧
        (p.db g).hot_token_account_state.Perm (q.db g).hot_token_account_state ∧
        (p.db g).raw_token_mint.Perm (q.db g).raw_token_mint ∧
        (p.db g).raw_token_metadata.Perm (q.db g).raw_token_metadata) ∧
      (∀ g preserve_existing,
        write_merged_metadata_patches (db₀ g).raw_token_metadata (p.shared.metadata_patches g)
            preserve_existing snapshot_slot
          = write_merged_metadata_patches (db₀ g).raw_token_metadata
            (q.shared.metadata_patches g) preserve_existing snapshot_slot) ∧
      p.totals.closed_token_accounts = q.stats.closed_token_accounts ∧
      p.totals.affected_pairs = q.stats.affected_pairs ∧
      p.totals.counters = q.stats.counters ∧
      p.shared.progress = q.shared.progress := by
  have hpc := Pool.complete_of_run (by omega) hp hpok
  have hqc := Sequential.complete_of_run hq hqok
  rw [Sequential.ops_eq hstream] at hqc
  have htotals : p.totals = q.stats := hpc.stats.trans hqc.stats.symm
  have hshared : p.shared = q.shared := hpc.shared.trans hqc.shared.symm
  refine ⟨fun g => Group.perm_of_rows_eq ?_, fun g preserve => by rw [hshared],
    by rw [htotals], by rw [htotals], by rw [htotals], by rw [hshared]⟩
  rw [hpc.rows g, hqc.rows g, hshared]

open Pool (first second)

/-- Two workers take one of two storages each and flush in the other order. -/
def two_workers : List (PoolLabel 2) :=
  List.flatten
    [[.start first true, .start second true, .poll first, .poll second, .feed, .check_cancelled,
        .send_timeout],
      [.recv second, .feed, .check_cancelled, .send_timeout, .recv first, .feed],
      .replicate 5 (.call first 0), .replicate 5 (.call second 0),
      [.done first, .done second, .poll first, .poll second, .recv_disconnected first,
        .recv_disconnected second],
      [.close first, .close second, .call first 0, .call second 0, .commit first .ok,
        .commit second .ok, .done first, .done second],
      [.join, .join, .join, .load_metadata true, .main_call 0, .main_done]]

/-- The same two storages on one thread. -/
def one_thread : List SequentialLabel :=
  List.flatten
    [[.feed], .replicate 5 (.call 0), [.done, .feed], .replicate 5 (.call 0),
      [.done, .feed, .load_metadata true, .call 0, .commit .ok, .done]]

theorem parallel_eq_sequential_two_storages : ∃ (p : Pool 2) (q : Sequential),
    p.producer = .imported ∧ q.phase = .imported ∧
      (p.db .Active).raw_account.Perm (q.db .Active).raw_account ∧
      (q.db .Active).raw_account.length = 2 ∧ p.totals.counters = q.stats.counters := by
  have hp : (Lts.run (Pool.step (insert_all_config .accept_nothing (fun _ => 0) .Active .Full 1 ∅))
      (.init [.ok one_account, .ok one_account] fun _ => .truncated : Pool 2) two_workers).map
        (fun p => p.producer) = some .imported := by decide +kernel
  have hq : (Lts.run
      (Sequential.step (insert_all_config .accept_nothing (fun _ => 0) .Active .Full 1 ∅))
      (.init [.ok one_account, .ok one_account] fun _ => .truncated) one_thread).map
        (fun q => (q.phase, (q.db .Active).raw_account.length)) = some (.imported, 2) := by
    decide +kernel
  obtain ⟨p, hrunp, hpok⟩ := Option.map_eq_some_iff.mp hp
  obtain ⟨q, hrunq, hqok⟩ := Option.map_eq_some_iff.mp hq
  obtain ⟨hphase, hlen⟩ := Prod.mk.inj hqok
  have hsame := parallel_eq_sequential .accept_nothing (fun _ => 0) .Active .Full 1 ∅
    [.ok one_account, .ok one_account] (by decide) (fun _ => .truncated) 2 two_workers p hrunp
    (.inl hpok) one_thread q hrunq (.inl hphase)
  exact ⟨p, q, hpok, hphase, (hsame.1 .Active).1, hlen, hsame.2.2.2.2.1⟩

end SnapshotEtl
