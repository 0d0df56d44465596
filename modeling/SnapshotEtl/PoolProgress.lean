/-
No schedule keeps an import from coming to its end.

The pool is priced: a storage, a task and a phase each cost the steps they can
still lead to, and a parsed operation also the row its patch may add to the merge
that ends the import (`Pool.budget`). Every step pays out of this, but for the
two in which a thread gives up waiting for the other side of the channel, so a
run is only long by waiting (`steps_le_waits`). And where the call has not
returned some thread can move without waiting, so that from wherever a schedule
has led the call can still return, and with `Ok` where nothing has failed
(`returns_from_anywhere`).
-/
import SnapshotEtl.Progress
import SnapshotEtl.Parallel

set_option autoImplicit false

namespace SnapshotEtl

open Lib

/-! ## Calls and commits -/

/-- A call is one task less, and decides on at most four commits. -/
theorem Exec.call_short {size : Row → ℕ} {now : ℕ} {e e' : Exec}
    (h : e.call size now = some e') :
    e.commits = [] ∧ e.todo.length = e'.todo.length + 1 ∧ e'.commits.length ≤ 4 := by
  obtain ⟨hcommits, ⟨task, htodo⟩, -⟩ := call_spec h
  refine ⟨hcommits, by rw [htodo, List.length_cons], ?_⟩
  obtain ⟨sinks, commits, todo⟩ := e
  obtain ⟨sinks', commits', todo'⟩ := e'
  obtain rfl : commits = [] := hcommits
  obtain rfl : todo = task :: todo' := htodo
  -- a row and a check may end batches, a flush ends them all
  rcases task with (⟨group, op⟩ | c) | group
  · cases op with
    | write row =>
        simp only [call, Option.some.injEq, mk.injEq, and_true] at h
        rw [← h.2, List.length_map]
        exact (sinks group).length_write size now row
    | maybe_force_commit =>
        simp only [call, Option.some.injEq, mk.injEq, and_true] at h
        rw [← h.2, List.length_map]
        exact (sinks group).length_maybe_force_commit now
    | _ =>
        simp only [call, Option.some.injEq, mk.injEq, and_true] at h
        simp [← h.2]
  · simp only [call, Option.some.injEq, mk.injEq, and_true] at h
    simp [← h.2]
  · simp only [call, Option.some.injEq, mk.injEq, and_true] at h
    rw [← h.2, List.length_map]
    exact (sinks group).length_pending_tables

/-- A good commit uses up one commit and no call. -/
theorem Exec.commit_short {e e' : Exec} {reply : Reply} {db db' : Db}
    (h : e.commit reply db = some (e', db', true)) :
    e'.todo = e.todo ∧ e.commits.length = e'.commits.length + 1 := by
  obtain ⟨sinks, commits, todo⟩ := e
  cases commits with
  | nil => simp [commit] at h
  | cons c commits =>
      obtain ⟨group, t⟩ := c
      cases reply with
      | err stored => simp [commit] at h
      | ok =>
          simp only [commit, Option.some.injEq, Prod.mk.injEq, and_true] at h
          obtain ⟨rfl, -⟩ := h
          exact ⟨rfl, rfl⟩

/-- The thread that merges pays for its calls and commits with `Exec.work`. -/
theorem Exec.work_call {size : Row → ℕ} {now : ℕ} {e e' : Exec}
    (h : e.call size now = some e') : e'.work < e.work := by
  obtain ⟨hcommits, htodo, hshort⟩ := call_short h
  simp only [work, hcommits, htodo, List.length_nil]
  omega

/-- A good commit leaves less work. -/
theorem Exec.work_commit {e e' : Exec} {reply : Reply} {db db' : Db}
    (h : e.commit reply db = some (e', db', true)) : e'.work < e.work := by
  obtain ⟨htodo, hcommits⟩ := commit_short h
  simp only [work, htodo, hcommits]
  omega

/-! ## Prices -/

namespace ImportConfig

variable (cfg : ImportConfig)

/-- What a task of a worker can cost: the call, its commits, and the row that a new
patch adds to the merge of each group of the plan. -/
def task_cost : ℕ := 5 * (cfg.merge_plan.length + 1)

def exec_cost (e : Exec) : ℕ := cfg.task_cost * e.todo.length + e.commits.length

/-- A flush of all lanes. -/
def flush_cost : ℕ := cfg.task_cost * cfg.lanes.length

/-- A storage in the queue. -/
def storage_cost (append_vec : AppendVec) : ℕ :=
  3 + cfg.task_cost * (cfg.deliver append_vec).length

/-- An item the calling thread has not read. -/
def item_cost : StreamItem → ℕ
  | .ok append_vec => 3 + cfg.storage_cost append_vec
  | .err => 1

def stream_cost (stream : List StreamItem) : ℕ := (stream.map cfg.item_cost).sum

/-- What a worker has ahead of it in a phase, besides its tasks. A worker that
may still come to its last flush pays for that. -/
def phase_cost : WorkerPhase → ℕ
  | .starting | .flushing | .processing => cfg.flush_cost + 5
  | .top => cfg.flush_cost + 4
  | .receiving => cfg.flush_cost + 3
  | .closing => cfg.flush_cost + 2
  | .ending => 1
  | .stopped _ => 0

def worker_cost (w : WorkerThread) : ℕ :=
  if w.phase.is_stopped then 0 else cfg.phase_cost w.phase + cfg.exec_cost w.exec

/-- A stopped worker costs nothing more. -/
theorem worker_cost_stopped {w : WorkerThread} (h : w.phase.is_stopped = true) :
    cfg.worker_cost w = 0 := if_pos h

/-- A running worker costs its phase and what it has left to do. -/
theorem worker_cost_running {w : WorkerThread} (h : w.phase.is_stopped = false) :
    cfg.worker_cost w = cfg.phase_cost w.phase + cfg.exec_cost w.exec := by
  simp [worker_cost, h]

/-- A worker that stays in its phase. -/
theorem worker_cost_exec {w : WorkerThread} (h : w.phase.is_stopped = false) (exec : Exec)
    (stats : ParallelWorkerStats) : cfg.worker_cost ⟨w.phase, exec, stats⟩
      = cfg.phase_cost w.phase + cfg.exec_cost exec :=
  cfg.worker_cost_running h

/-- A running worker costs something. -/
theorem worker_cost_pos {w : WorkerThread} (h : w.phase.is_stopped = false) :
    0 < cfg.worker_cost w := by
  rw [cfg.worker_cost_running h]
  cases hphase : w.phase with
  | stopped result => simp [hphase, WorkerPhase.is_stopped] at h
  | _ =>
      simp only [phase_cost]
      omega

/-- A call pays for itself and for what it may add to every plan. -/
theorem exec_cost_call {now : ℕ} {e e' : Exec} (h : e.call cfg.size now = some e') :
    cfg.exec_cost e' + 5 * cfg.merge_plan.length < cfg.exec_cost e := by
  obtain ⟨hcommits, htodo, hshort⟩ := Exec.call_short h
  simp only [exec_cost, hcommits, htodo, List.length_nil, Nat.mul_add_one]
  have hprice : cfg.task_cost = 5 * cfg.merge_plan.length + 5 := Nat.mul_add_one ..
  omega

/-- A commit pays for itself. -/
theorem exec_cost_commit {e e' : Exec} {reply : Reply} {db db' : Db}
    (h : e.commit reply db = some (e', db', true)) : cfg.exec_cost e' < cfg.exec_cost e := by
  obtain ⟨htodo, hcommits⟩ := Exec.commit_short h
  simp only [exec_cost, htodo, hcommits]
  omega

end ImportConfig

/-- The merges of a plan: a call and its commits for each patched mint and for the
flush, and the load before them. -/
def Shared.plan_cost (shared : Shared) (plan : List (TableGroup × Bool)) : ℕ :=
  (plan.map fun entry => 5 * ((shared.metadata_patches entry.1).keys.card + 1) + 1).sum

/-- The merge under way, and the two steps to the end of the call. -/
def Shared.merge_cost (shared : Shared) (plan : List (TableGroup × Bool)) (main : Exec) : ℕ :=
  shared.plan_cost plan + main.work + 2

def Producer.is_returned : Producer → Bool
  | .returned _ => true
  | _ => false

/-- What the calling thread has ahead of it: the items left, the join loop and the
merge. -/
def ImportConfig.producer_cost (cfg : ImportConfig) (n : ℕ) (shared : Shared) (main : Exec) :
    Producer → ℕ
  | .feeding rest => cfg.stream_cost rest + (n + 2) + shared.merge_cost cfg.merge_plan main
  | .sending append_vec rest =>
      cfg.storage_cost append_vec + 2 + cfg.stream_cost rest + (n + 2) +
        shared.merge_cost cfg.merge_plan main
  | .dispatching append_vec rest =>
      cfg.storage_cost append_vec + 1 + cfg.stream_cost rest + (n + 2) +
        shared.merge_cost cfg.merge_plan main
  | .joining next _ => (n - next) + 1 + shared.merge_cost cfg.merge_plan main
  | .merging plan => shared.merge_cost plan main
  | .imported => 1
  | .returned _ => 0

/-- An operation adds a patch for at most one mint. -/
theorem Shared.card_record_le (op : ImportOp) (group : TableGroup) (patches : MetadataPatches) :
    (record op group patches).keys.card ≤ patches.keys.card + 1 := by
  have hupsert := fun mint f => card_keys_upsert_le patches mint f
  rcases op with ⟨g, _ | _ | _ | _ | _ | _⟩ | _ <;> simp only [record]
  all_goals first | split | skip
  all_goals first | exact hupsert _ _ | exact Nat.le_succ _

/-- One operation on the shared state adds a bounded amount to the cost of a plan. -/
theorem Shared.plan_cost_step (shared : Shared) (op : ImportOp)
    (plan : List (TableGroup × Bool)) :
    (shared.step op).plan_cost plan ≤ shared.plan_cost plan + 5 * plan.length := by
  induction plan with
  | nil => simp [plan_cost]
  | cons entry plan ih =>
      have hcard := card_record_le op entry.1 (shared.metadata_patches entry.1)
      simp only [plan_cost, List.map_cons, List.sum_cons, List.length_cons] at ih ⊢
      simp only [step] at ih ⊢
      omega

/-- The merge of a lane is one task for each patch and the closing one. -/
theorem ImportConfig.length_merge_tasks (cfg : ImportConfig) (db : Db) (shared : Shared)
    (group : TableGroup) (preserve_existing : Bool) :
    (cfg.merge_tasks db shared group preserve_existing).length
      = (shared.metadata_patches group).keys.card + 1 := by
  simp [merge_tasks, write_merged_metadata_patches, sorted_keys]

/-- Before the merge, an operation makes it longer by a row a group at most. -/
theorem ImportConfig.producer_cost_step (cfg : ImportConfig) (n : ℕ) (shared : Shared)
    (main : Exec) (op : ImportOp) {producer : Producer} (h : producer.past_join = false) :
    cfg.producer_cost n (shared.step op) main producer
      ≤ cfg.producer_cost n shared main producer + 5 * cfg.merge_plan.length := by
  have hplan := shared.plan_cost_step op cfg.merge_plan
  cases producer with
  | merging plan => cases h
  | imported => cases h
  | returned ok => exact Nat.zero_le _
  | _ =>
      simp only [producer_cost, Shared.merge_cost]
      omega

namespace Pool

variable {n : ℕ} {cfg : ImportConfig}

def queue_cost (cfg : ImportConfig) (queue : List AppendVec) : ℕ :=
  (queue.map cfg.storage_cost).sum

/-- The steps a pool can still make without waiting. -/
def budget (cfg : ImportConfig) (s : Pool n) : ℕ :=
  ∑ i, cfg.worker_cost (s.worker i) + queue_cost cfg s.queue +
    cfg.producer_cost n s.shared s.main s.producer

/-- A thread gives up on the other side of the channel: the queue stayed empty, or
full with a worker left to take from it. -/
def waits (s : Pool n) : PoolLabel n → Bool
  | .recv_timeout _ => true
  | .send_timeout => !s.all_stopped && decide (n ≤ s.queue.length)
  | _ => false

/-- What a thread gets back by waiting: a worker flushes all its lanes. -/
def refund (cfg : ImportConfig) : ℕ := cfg.flush_cost + 2

/-! ## Steps of a worker -/

/-- One worker moves, and the queue and the shared state with it. -/
theorem budget_worker (cfg : ImportConfig) {s s' : Pool n} {i : Fin n}
    (hothers : ∀ j ≠ i, s'.worker j = s.worker j) :
    budget cfg s' + cfg.worker_cost (s.worker i) + queue_cost cfg s.queue
        + cfg.producer_cost n s.shared s.main s.producer
      = budget cfg s + cfg.worker_cost (s'.worker i) + queue_cost cfg s'.queue
        + cfg.producer_cost n s'.shared s'.main s'.producer := by
  have hsum : ∑ j ∈ Finset.univ.erase i, cfg.worker_cost (s'.worker j)
      = ∑ j ∈ Finset.univ.erase i, cfg.worker_cost (s.worker j) :=
    Finset.sum_congr rfl fun j hj => by rw [hothers j (Finset.ne_of_mem_erase hj)]
  have hbefore := Finset.add_sum_erase Finset.univ (fun j => cfg.worker_cost (s.worker j))
    (Finset.mem_univ i)
  have hafter := Finset.add_sum_erase Finset.univ (fun j => cfg.worker_cost (s'.worker j))
    (Finset.mem_univ i)
  unfold budget
  omega

/-- A step of one worker lowers the budget when it lowers that worker's cost. -/
theorem budget_lt {s s' : Pool n} {i : Fin n} (hothers : ∀ j ≠ i, s'.worker j = s.worker j)
    (hqueue : s'.queue = s.queue) (hproducer : s'.producer = s.producer)
    (hmain : s'.main = s.main) (hshared : s'.shared = s.shared)
    (hlt : cfg.worker_cost (s'.worker i) < cfg.worker_cost (s.worker i)) :
    budget cfg s' < budget cfg s := by
  have hsum := budget_worker cfg hothers
  rw [hqueue, hproducer, hmain, hshared] at hsum
  omega

/-- **A worker's step is paid for**, unless it is at the end of its patience. -/
theorem WorkerStep.budget {s s' : Pool n} {i : Fin n} (hjoined : Joined s)
    (h : WorkerStep cfg s i s') : budget cfg s' < budget cfg s ∨
      ((s.worker i).phase = .receiving ∧ (s'.worker i).phase = .flushing ∧
        budget cfg s' ≤ budget cfg s + refund cfg) := by
  have hrunning := h.running
  obtain ⟨hothers, hproducer, hmain, -⟩ := h.frame
  -- a call that still has a worker is not past its join loop
  have hpast : s.producer.past_join = false := by
    by_contra hpast
    rw [hjoined.all (by simpa using hpast) i] at hrunning
    cases hrunning
  have hcost := cfg.worker_cost_running hrunning
  have hpos := cfg.worker_cost_pos hrunning
  -- returning costs nothing, whatever was left to do
  have hstops : ∀ {t : Pool n}, (t.worker i).phase.is_stopped = true →
      cfg.worker_cost (t.worker i) < cfg.worker_cost (s.worker i) := fun hstop => by
    rw [cfg.worker_cost_stopped hstop]
    exact hpos
  have hfails : ∀ cancels, ((s.worker_fails i cancels).worker i).phase.is_stopped = true :=
    fun cancels => by simp [worker_fails, set_phase, set_worker, WorkerPhase.is_stopped]
  cases h with
  | started hp =>
      refine .inl (budget_lt hothers rfl hproducer hmain rfl ?_)
      simp [ImportConfig.worker_cost, ImportConfig.phase_cost, hp, WorkerPhase.is_stopped]
  | start_failed hp => exact .inl (budget_lt hothers rfl hproducer hmain rfl (hstops (hfails _)))
  | panicked hp =>
      exact .inl (budget_lt hothers rfl hproducer hmain rfl
        (hstops (by simp [WorkerPhase.is_stopped])))
  | saw_cancelled hp => exact .inl (budget_lt hothers rfl hproducer hmain rfl (hstops (hfails _)))
  | polled hp =>
      refine .inl (budget_lt hothers rfl hproducer hmain rfl ?_)
      simp [ImportConfig.worker_cost, ImportConfig.phase_cost, hp, WorkerPhase.is_stopped]
  | received append_vec queue hp hqueue =>
      -- the price of the storage leaves the queue
      have hsum := budget_worker cfg hothers
      have hstorage :
          queue_cost cfg s.queue = cfg.storage_cost append_vec + queue_cost cfg queue := by
        rw [hqueue]
        rfl
      simp only [hcost, hp, hstorage, set_worker, Function.update_self,
        cfg.worker_cost_running (w := ⟨.processing, _, _⟩) rfl, ImportConfig.phase_cost,
        ImportConfig.storage_cost, ImportConfig.exec_cost, List.length_map] at hsum ⊢
      left
      omega
  | timed_out hp =>
      have hsum := budget_worker cfg hothers
      refine .inr ⟨hp, by simp, ?_⟩
      simp only [hcost, hp, set_worker, Function.update_self,
        cfg.worker_cost_running (w := ⟨.flushing, _, _⟩) rfl, ImportConfig.phase_cost,
        ImportConfig.exec_cost, List.length_map, refund, ImportConfig.flush_cost] at hsum ⊢
      omega
  | disconnected hp hqueue hsender =>
      refine .inl (budget_lt hothers rfl hproducer hmain rfl ?_)
      simp [ImportConfig.worker_cost, ImportConfig.phase_cost, hp, WorkerPhase.is_stopped]
  | parsed now op exec hp hcall hop =>
      -- what the task cost pays for the row its patch may add to the merge
      have hsum := budget_worker cfg hothers
      have hcheaper := cfg.exec_cost_call hcall
      have hmerge := cfg.producer_cost_step n s.shared s.main op hpast
      simp only [hcost, set_worker, Function.update_self, cfg.worker_cost_exec hrunning] at hsum ⊢
      left
      omega
  | flushed now exec hp hcall hop =>
      refine .inl (budget_lt hothers rfl hproducer hmain rfl ?_)
      have hcheaper := cfg.exec_cost_call hcall
      simp only [hcost, worker_set_worker, cfg.worker_cost_exec hrunning]
      omega
  | write_failed hp => exact .inl (budget_lt hothers rfl hproducer hmain rfl (hstops (hfails _)))
  | stored reply exec db hp hcommit =>
      refine .inl (budget_lt hothers rfl hproducer hmain rfl ?_)
      have hcheaper := cfg.exec_cost_commit hcommit
      simp only [hcost, set_worker, Function.update_self, cfg.worker_cost_exec hrunning]
      omega
  | commit_failed cancels db hp =>
      exact .inl (budget_lt hothers rfl hproducer hmain rfl (hstops (hfails cancels)))
  | work_done hp hidle =>
      refine .inl (budget_lt hothers rfl hproducer hmain rfl ?_)
      rcases hp with hp | hp <;>
        simp [ImportConfig.worker_cost, ImportConfig.phase_cost, hp, WorkerPhase.is_stopped]
  | ended hp hidle =>
      exact .inl (budget_lt hothers rfl hproducer hmain rfl
        (hstops (by simp [WorkerPhase.is_stopped])))
  | closed hp =>
      refine .inl (budget_lt hothers rfl hproducer hmain rfl ?_)
      simp only [worker_set_worker, hcost, hp]
      rw [cfg.worker_cost_running rfl]
      simp only [ImportConfig.phase_cost, ImportConfig.exec_cost, ImportConfig.flush_cost,
        List.length_map]
      omega

/-! ## Steps of the calling thread -/

/-- **A step of the calling thread is paid for**, unless the queue stayed full. -/
theorem MainStep.budget {s s' : Pool n} (h : MainStep cfg s s') :
    budget cfg s' < budget cfg s ∨
      ((∃ append_vec rest, s.producer = .dispatching append_vec rest ∧
          s'.producer = .sending append_vec rest) ∧
        budget cfg s' ≤ budget cfg s + refund cfg) := by
  cases h with
  | send_timed_out append_vec rest hp =>
      refine .inr ⟨⟨append_vec, rest, hp, rfl⟩, ?_⟩
      simp only [Pool.budget, hp, ImportConfig.producer_cost, refund]
      omega
  | gave_up hp =>
      left
      cases hproducer : s.producer with
      | feeding rest =>
          simp only [Pool.budget, hproducer, ImportConfig.producer_cost]
          omega
      | sending append_vec rest =>
          simp only [Pool.budget, hproducer, ImportConfig.producer_cost]
          omega
      | dispatching append_vec rest =>
          simp only [Pool.budget, hproducer, ImportConfig.producer_cost]
          omega
      | _ => simp [hproducer, Producer.has_sender] at hp
  | sent append_vec rest hp hsome hroom =>
      left
      simp only [Pool.budget, hp, ImportConfig.producer_cost, queue_cost, List.map_append,
        List.map_cons, List.map_nil, List.sum_append, List.sum_cons, List.sum_nil]
      omega
  | loaded group preserve_existing plan hp hidle =>
      left
      have hwork : s.main.commits = [] := by
        simp only [Exec.idle, Bool.and_eq_true, List.isEmpty_iff] at hidle
        exact hidle.1
      simp only [Pool.budget, hp, ImportConfig.producer_cost, Shared.merge_cost, Shared.plan_cost,
        List.map_cons, List.sum_cons, Exec.work, ImportConfig.length_merge_tasks, hwork,
        List.length_nil]
      omega
  | called plan now main hp hcall =>
      left
      have hcheaper := Exec.work_call hcall
      simp only [Pool.budget, hp, ImportConfig.producer_cost, Shared.merge_cost]
      omega
  | stored plan reply main db hp hcommit =>
      left
      have hcheaper := Exec.work_commit hcommit
      simp only [Pool.budget, hp, ImportConfig.producer_cost, Shared.merge_cost]
      omega
  | _ =>
      -- the phase ahead is cheaper, and nothing else changes
      left
      simp only [Pool.budget, *, ImportConfig.producer_cost, ImportConfig.stream_cost,
        List.map_cons, List.sum_cons, ImportConfig.item_cost, Shared.merge_cost]
      omega

/-! ## A run is as long as it waits -/

/-- A worker's patience ends in `recv_timeout`. -/
theorem waits_of_flushing {s s' : Pool n} {i : Fin n} {l : PoolLabel n}
    (h : s.worker_step cfg i l = some s') (hbefore : (s.worker i).phase = .receiving)
    (hafter : (s'.worker i).phase = .flushing) : s.waits l = true := by
  cases l with
  | recv_timeout j => rfl
  | recv j =>
      simp only [worker_step] at h
      split at h
      · obtain rfl := Option.some.inj h
        simp [set_worker] at hafter
      · cases h
  | recv_disconnected j =>
      simp only [worker_step, Option.ite_none_right_eq_some, Option.some.injEq] at h
      obtain ⟨-, rfl⟩ := h
      simp at hafter
  | panic j =>
      simp only [worker_step, Option.ite_none_left_eq_some, Option.some.injEq] at h
      obtain ⟨-, rfl⟩ := h
      simp at hafter
  | done j => simp [worker_step, hbefore] at h
  | _ => simp [worker_step, hbefore, WorkerPhase.is_executing] at h

/-- The calling thread's ends in `send_timeout`. -/
theorem waits_of_sending {s s' : Pool n} {l : PoolLabel n} (h : s.main_step cfg l = some s')
    {append_vec : AppendVec} {rest : List StreamItem}
    (hbefore : s.producer = .dispatching append_vec rest)
    (hafter : s'.producer = .sending append_vec rest) : s.waits l = true := by
  cases l with
  | send_timeout =>
      simp only [main_step, hbefore, Option.some.injEq] at h
      by_cases hstopped : s.all_stopped = true
      · rw [if_pos hstopped] at h
        subst h
        cases hafter
      · by_cases hroom : s.queue.length < n
        · rw [if_neg hstopped, if_pos hroom] at h
          subst h
          cases hafter
        · simpa [waits, hstopped] using Nat.le_of_not_lt hroom
  | _ => simp [main_step, hbefore] at h

/-- Every step lowers the budget, except that a wait may refund a bounded amount. -/
theorem budget_step {s s' : Pool n} {l : PoolLabel n} (hjoined : Joined s)
    (h : s.step cfg l = some s') : if s.waits l then budget cfg s' ≤ budget cfg s + refund cfg
      else budget cfg s' < budget cfg s := by
  have hpaid : budget cfg s' < budget cfg s ∨
      (s.waits l = true ∧ budget cfg s' ≤ budget cfg s + refund cfg) := by
    unfold step at h
    split at h
    · rcases (worker_step_spec h).budget hjoined with hlt | ⟨hbefore, hafter, hle⟩
      · exact .inl hlt
      · exact .inr ⟨waits_of_flushing h hbefore hafter, hle⟩
    · rcases (main_step_spec h).budget with hlt | ⟨⟨append_vec, rest, hbefore, hafter⟩, hle⟩
      · exact .inl hlt
      · exact .inr ⟨waits_of_sending h hbefore hafter, hle⟩
  rcases hpaid with hlt | ⟨hwaits, hle⟩
  · split
    · omega
    · exact hlt
  · rw [if_pos hwaits]
    exact hle

/-- What an import of a stream can cost with `n` workers: the storages, the phases of
each worker up to its last flush, the join loop, and the merge. -/
def import_cost (cfg : ImportConfig) (n : ℕ) (stream : List StreamItem) : ℕ :=
  n * (cfg.flush_cost + 5) + cfg.stream_cost stream + (n + 2) + (6 * cfg.merge_plan.length + 2)

/-- The budget of the initial pool is the cost of the import. -/
theorem budget_init (stream : List StreamItem) (db : Db) :
    budget cfg (init stream db : Pool n) = import_cost cfg n stream := by
  have hworker : cfg.worker_cost ⟨.starting, .new, .default⟩ = cfg.flush_cost + 5 := by
    simp [ImportConfig.worker_cost, WorkerPhase.is_stopped, ImportConfig.phase_cost,
      ImportConfig.exec_cost, Exec.new]
  have hplan : Shared.new.plan_cost cfg.merge_plan = 6 * cfg.merge_plan.length := by
    simp [Shared.plan_cost, Shared.new, Nat.mul_comm]
  have hmain : Exec.new.work = 0 := rfl
  simp only [budget, init, hworker, Finset.sum_const, Finset.card_univ, Fintype.card_fin,
    smul_eq_mul, queue_cost, List.map_nil, List.sum_nil, ImportConfig.producer_cost,
    Shared.merge_cost, hplan, hmain, import_cost]
  omega

/-- **Only waiting makes an import long.** Whatever fails, however the threads are
scheduled and whatever ClickHouse answers, a run of the pool has no more steps than
the import costs, except for the times a thread gave up waiting for the channel:
each of these allows a flush of the lanes, and no more, to be made again. -/
theorem steps_le_waits (cfg : ImportConfig) (stream : List StreamItem) (db₀ : Db)
    {s : Pool n} {labels : List (PoolLabel n)}
    (hrun : Lts.run (step cfg) (init stream db₀) labels = some s) :
    labels.length ≤ import_cost cfg n stream
      + (cfg.flush_cost + 3) * Lts.occurrences (step cfg) waits (init stream db₀) labels := by
  have hlen : labels.length + budget cfg s ≤ budget cfg (init stream db₀ : Pool n)
      + (cfg.flush_cost + 3) * Lts.occurrences (step cfg) waits (init stream db₀) labels :=
    Lts.length_le_of_budget (P := Joined) (budget cfg) (refund cfg)
      (fun s l s' hs h => ⟨hs.step h, budget_step hs h⟩) (joined_init stream db₀) hrun
  rw [budget_init] at hlen
  omega

/-! ## Somebody can move -/

/-- What holds in every state a schedule leads to: who has left the loop normally
has seen the channel closed, and the flag is only raised by a failure. -/
structure Live (s : Pool n) : Prop where
  joined : Joined s
  leaving : ∀ i, (s.worker i).phase.is_leaving = true → s.producer.has_sender = false
  cancelled : s.cancelled = true → Failed s

/-- The initial pool is live. -/
theorem live_init (stream : List StreamItem) (db : Db) : Live (init stream db : Pool n) where
  joined := joined_init stream db
  leaving _ h := by cases h
  cancelled h := by cases h

/-- A worker only leaves its loop once the sender is gone. -/
theorem WorkerStep.leaving {s s' : Pool n} {i : Fin n} (h : WorkerStep cfg s i s')
    (hleaving : (s'.worker i).phase.is_leaving = true) :
    (s.worker i).phase.is_leaving = true ∨ s.producer.has_sender = false := by
  cases h with
  | disconnected hp hqueue hsender => exact .inr hsender
  | closed hp => exact .inl (by rw [hp]; rfl)
  | ended hp hidle => exact .inl (by rw [hp]; rfl)
  | parsed now op exec hp hcall hop => exact .inl (by simpa [set_worker] using hleaving)
  | flushed now exec hp hcall hop => exact .inl (by simpa using hleaving)
  | stored reply exec db hp hcommit => exact .inl (by simpa [set_worker] using hleaving)
  | _ => simp [worker_fails, set_phase, set_worker, WorkerPhase.is_leaving] at hleaving

/-- A worker that raises the flag returns an error. -/
theorem WorkerStep.cancelled {s s' : Pool n} {i : Fin n} (h : WorkerStep cfg s i s')
    (hcancelled : s'.cancelled = true) :
    s.cancelled = true ∨ (s'.worker i).phase = .stopped .err := by
  have hfails : ∀ cancels, ((s.worker_fails i cancels).worker i).phase = .stopped .err :=
    fun cancels => by simp [worker_fails, set_phase, set_worker]
  cases h with
  | write_failed hp => exact .inr (hfails true)
  | commit_failed cancels db hp => exact .inr (hfails cancels)
  | start_failed hp => exact .inr (hfails false)
  | saw_cancelled hp => exact .inr (hfails false)
  | _ => exact .inl hcancelled

/-- The calling thread does not raise it, and drops the sender for good. -/
theorem MainStep.sender {s s' : Pool n} (h : MainStep cfg s s') : s'.cancelled = s.cancelled ∧
    (s'.producer.has_sender = true → s.producer.has_sender = true) := by
  refine ⟨by cases h <;> rfl, ?_⟩
  cases h <;> simp_all [Producer.has_sender]

/-- A step of a live pool leaves it live. -/
theorem Live.step {s s' : Pool n} {l : PoolLabel n} (hs : Live s) (h : s.step cfg l = some s') :
    Live s' := by
  refine ⟨hs.joined.step h, fun j hj => ?_, fun hcancelled => ?_⟩
  · rcases step_cases h with ⟨i, hw⟩ | hm
    · obtain ⟨hothers, hproducer, -, -⟩ := hw.frame
      rw [hproducer]
      by_cases hji : j = i
      · subst hji
        rcases hw.leaving hj with hbefore | hsender
        · exact hs.leaving j hbefore
        · exact hsender
      · rw [hothers j hji] at hj
        exact hs.leaving j hj
    · rw [hm.frame.1] at hj
      have hbefore := hs.leaving j hj
      by_contra hsender
      rw [hm.sender.2 (by simpa using hsender)] at hbefore
      cases hbefore
  · rcases step_cases h with ⟨i, hw⟩ | hm
    · rcases hw.cancelled hcancelled with hbefore | herr
      · exact (hs.cancelled hbefore).step h
      · exact .inl ⟨i, .inl herr⟩
    · rw [hm.sender.1] at hcancelled
      exact (hs.cancelled hcancelled).step h

/-- The environment does its part: a client can be built, an insert is accepted, the
read before a merge and what follows the import succeed, and nothing panics. -/
def answered : PoolLabel n → Bool
  | .start _ ok | .load_metadata ok | .index ok => ok
  | .commit _ reply | .main_commit reply => reply = .ok
  | .panic _ | .write_error _ | .main_write_error => false
  | _ => true

/-- **A worker that is not kept waiting can move.** -/
theorem worker_can_move (cfg : ImportConfig) {s : Pool n} {i : Fin n}
    (hrunning : (s.worker i).phase.is_stopped = false)
    (hchannel : s.queue ≠ [] ∨ s.producer.has_sender = false) :
    ∃ l, (s.step cfg l).isSome = true ∧ answered l = true ∧ s.waits l = false := by
  -- what a thread with calls and commits ahead can do next
  have hexecuting : (s.worker i).phase.is_executing = true →
      ∃ l, (s.step cfg l).isSome = true ∧ answered l = true ∧ s.waits l = false := by
    intro hexec
    by_cases hcommits : (s.worker i).exec.commits = []
    · by_cases htodo : (s.worker i).exec.todo = []
      · have hidle : (s.worker i).exec.idle = true := by simp [Exec.idle, hcommits, htodo]
        rcases WorkerPhase.executing_cases hexec with hp | hp | hp
        all_goals exact ⟨.done i, by simp [step, mover, worker_step, hidle, hp], rfl, rfl⟩
      · obtain ⟨exec, hcall, -⟩ := (s.worker i).exec.exists_call cfg.size hcommits htodo
        exact ⟨.call i 0, by simp [step, mover, worker_step, hexec, hcall], rfl, rfl⟩
    · obtain ⟨exec, db, hcommit, -⟩ := (s.worker i).exec.exists_commit s.db hcommits
      exact ⟨.commit i .ok, by simp [step, mover, worker_step, hexec, hcommit], rfl, rfl⟩
  cases hp : (s.worker i).phase with
  | starting => exact ⟨.start i true, by simp [step, mover, worker_step, hp], rfl, rfl⟩
  | top => exact ⟨.poll i, by simp [step, mover, worker_step, hp], rfl, rfl⟩
  | receiving =>
      cases hqueue : s.queue with
      | cons append_vec queue =>
          exact ⟨.recv i, by simp [step, mover, worker_step, hp, hqueue], rfl, rfl⟩
      | nil =>
          have hsender := hchannel.resolve_left (by simp [hqueue])
          exact ⟨.recv_disconnected i,
            by simp [step, mover, worker_step, hp, hqueue, hsender], rfl, rfl⟩
  | closing => exact ⟨.close i, by simp [step, mover, worker_step, hp], rfl, rfl⟩
  | flushing => exact hexecuting (by rw [hp]; rfl)
  | processing => exact hexecuting (by rw [hp]; rfl)
  | ending => exact hexecuting (by rw [hp]; rfl)
  | stopped result => simp [hp, WorkerPhase.is_stopped] at hrunning

/-- **No deadlock.** Where the call has not returned, somebody can move, with the
environment doing its part and without anybody giving up waiting. -/
theorem can_move (cfg : ImportConfig) (hn : 0 < n) {s : Pool n}
    (hreturned : ∀ ok, s.producer ≠ .returned ok) :
    ∃ l, (s.step cfg l).isSome = true ∧ answered l = true ∧ s.waits l = false := by
  cases hp : s.producer with
  | feeding rest =>
      rcases rest with _ | ⟨_ | _, rest⟩
      all_goals exact ⟨.feed, by simp [step, mover, main_step, hp], rfl, rfl⟩
  | sending append_vec rest =>
      exact ⟨.check_cancelled, by simp [step, mover, main_step, hp], rfl, rfl⟩
  | dispatching append_vec rest =>
      by_cases hfull : s.all_stopped = false ∧ n ≤ s.queue.length
      · -- the queue is full, so there is a storage for a worker that has not returned
        obtain ⟨i, hi⟩ : ∃ i, (s.worker i).phase.is_stopped = false := by
          simpa [all_stopped] using hfull.1
        refine worker_can_move cfg hi (.inl ?_)
        intro hempty
        simp only [hempty, List.length_nil] at hfull
        omega
      · refine ⟨.send_timeout, by simp [step, mover, main_step, hp], rfl, ?_⟩
        simpa [waits] using hfull
  | joining next producer_error =>
      -- the join loop waits for a worker that can move itself
      by_cases hnext : next < n
      · by_cases hstopped : (s.worker ⟨next, hnext⟩).phase.is_stopped = true
        · refine ⟨.join, ?_⟩
          cases hphase : (s.worker ⟨next, hnext⟩).phase with
          | stopped result =>
              cases result
              all_goals exact ⟨by simp [step, mover, main_step, hp, hnext, hphase], rfl, rfl⟩
          | _ => simp [hphase, WorkerPhase.is_stopped] at hstopped
        · exact worker_can_move cfg (by simpa using hstopped) (.inr (by rw [hp]; rfl))
      · exact ⟨.join, by simp [step, mover, main_step, hp, hnext], rfl, rfl⟩
  | merging plan =>
      -- the merge: an answer to a commit, the next call, or the next group
      by_cases hcommits : s.main.commits = []
      · by_cases htodo : s.main.todo = []
        · have hidle : s.main.idle = true := by simp [Exec.idle, hcommits, htodo]
          rcases plan with _ | ⟨⟨group, preserve_existing⟩, plan⟩
          · exact ⟨.main_done, by simp [step, mover, main_step, hp, hidle], rfl, rfl⟩
          · exact ⟨.load_metadata true, by simp [step, mover, main_step, hp, hidle], rfl, rfl⟩
        · obtain ⟨main, hcall, -⟩ := s.main.exists_call cfg.size hcommits htodo
          exact ⟨.main_call 0, by simp [step, mover, main_step, hp, hcall], rfl, rfl⟩
      · obtain ⟨main, db, hcommit, -⟩ := s.main.exists_commit s.db hcommits
        exact ⟨.main_commit .ok, by simp [step, mover, main_step, hp, hcommit], rfl, rfl⟩
  | imported => exact ⟨.index true, by simp [step, mover, main_step, hp], rfl, rfl⟩
  | returned ok => exact absurd hp (hreturned ok)

/-! ## Nothing else fails -/

/-- A commit that the server accepts does not fail. -/
theorem Exec.commit_ok {e e' : Exec} {db db' : Db} {ok : Bool}
    (h : e.commit .ok db = some (e', db', ok)) : ok = true := by
  unfold Exec.commit at h
  split at h
  · cases h
  · simp_all

/-- A worker fails because the environment does, or because another one has. -/
theorem worker_keeps {s s' : Pool n} {i : Fin n} {l : PoolLabel n}
    (h : s.worker_step cfg i l = some s') (hanswered : answered l = true)
    (hcancelled : s.cancelled = false) :
    (s'.worker i).phase ≠ .stopped .err ∧ (s'.worker i).phase ≠ .stopped .panicked := by
  cases l with
  | start j ok =>
      obtain rfl : ok = true := hanswered
      simp only [worker_step, Option.ite_none_right_eq_some, Option.some.injEq, if_true] at h
      obtain ⟨-, rfl⟩ := h
      simp
  | panic j => cases hanswered
  | write_error j => cases hanswered
  | poll j =>
      -- it leaves only when the stream is over or cancelled, and it is not cancelled
      simp only [worker_step, hcancelled, Bool.false_eq_true, if_false,
        Option.ite_none_right_eq_some, Option.some.injEq] at h
      obtain ⟨-, rfl⟩ := h
      simp
  | close j =>
      simp only [worker_step, hcancelled, Bool.false_eq_true, if_false,
        Option.ite_none_right_eq_some, Option.some.injEq] at h
      obtain ⟨-, rfl⟩ := h
      simp
  | recv j =>
      simp only [worker_step] at h
      split at h
      · obtain rfl := Option.some.inj h
        simp [set_worker]
      · cases h
  | recv_timeout j =>
      simp only [worker_step, Option.ite_none_right_eq_some, Option.some.injEq] at h
      obtain ⟨-, rfl⟩ := h
      simp
  | recv_disconnected j =>
      simp only [worker_step, Option.ite_none_right_eq_some, Option.some.injEq] at h
      obtain ⟨-, rfl⟩ := h
      simp
  | call j now =>
      simp only [worker_step, Option.ite_none_right_eq_some, Option.map_eq_some_iff] at h
      obtain ⟨hexec, exec, -, rfl⟩ := h
      rcases WorkerPhase.executing_cases hexec with hp | hp | hp <;> split <;> simp [hp, set_worker]
  | commit j reply =>
      -- the answer is good, so the commit does not end the worker
      obtain rfl : reply = .ok := by simpa [answered] using hanswered
      simp only [worker_step, Option.ite_none_right_eq_some, Option.map_eq_some_iff] at h
      obtain ⟨hexec, ⟨exec, db, ok⟩, hcommit, rfl⟩ := h
      obtain rfl := Exec.commit_ok hcommit
      rcases WorkerPhase.executing_cases hexec with hp | hp | hp <;> simp [hp, set_worker]
  | done j =>
      simp only [worker_step, Option.ite_none_right_eq_some] at h
      obtain ⟨-, h⟩ := h
      split at h
      all_goals first
        | obtain rfl := Option.some.inj h
          simp
        | cases h
  | _ => simp [worker_step] at h

/-- While some worker is left for every storage, so does the calling thread. -/
theorem main_keeps (hn : 0 < n) {s s' : Pool n} {l : PoolLabel n} (hs : Live s)
    (hsound : ¬Failed s) (h : s.main_step cfg l = some s') (hanswered : answered l = true)
    (hcancelled : s.cancelled = false) :
    s'.producer ≠ .returned false ∧ ∀ next, s'.producer ≠ .joining next true := by
  cases l with
  | feed =>
      simp only [main_step, hcancelled, Bool.false_eq_true, if_false] at h
      split at h
      all_goals first
        | obtain rfl := Option.some.inj h
          simp
        | cases h
  | check_cancelled =>
      simp only [main_step, hcancelled, Bool.false_eq_true, if_false] at h
      split at h
      all_goals first
        | obtain rfl := Option.some.inj h
          simp
        | cases h
  | send_timeout =>
      simp only [main_step] at h
      split at h
      · next append_vec rest hp =>
          obtain rfl := Option.some.inj h
          -- a worker that returns while the sender is there has failed
          have hrunning : ¬s.all_stopped = true := by
            intro hstopped
            have hfirst : (s.worker ⟨0, hn⟩).phase.is_stopped = true := by
              simp only [all_stopped, decide_eq_true_eq] at hstopped
              exact hstopped _
            cases hphase : (s.worker ⟨0, hn⟩).phase with
            | stopped result =>
                cases result with
                | ok =>
                    have hsender := hs.leaving ⟨0, hn⟩ (by rw [hphase]; rfl)
                    rw [hp] at hsender
                    cases hsender
                | err => exact hsound (.inl ⟨_, .inl hphase⟩)
                | panicked => exact hsound (.inl ⟨_, .inr hphase⟩)
            | _ => simp [hphase, WorkerPhase.is_stopped] at hfirst
          rw [if_neg hrunning]
          split <;> simp
      · cases h
  | join =>
      simp only [main_step] at h
      split at h
      · next next producer_error hp =>
          have herror : producer_error = false := by
            by_contra herror
            have hproducer : producer_error = true := by simpa using herror
            exact hsound (.inr (.inr ⟨next, by rw [hp, hproducer]⟩))
          subst herror
          split at h
          · next hnext =>
            split at h
            · obtain rfl := Option.some.inj h
              simp
            · next result hresult hphase =>
                refine absurd (.inl ⟨⟨next, hnext⟩, ?_⟩) hsound
                cases result with
                | ok => exact absurd rfl hresult
                | err => exact .inl hphase
                | panicked => exact .inr hphase
            · cases h
          · obtain rfl := Option.some.inj h
            simp
      · cases h
  | load_metadata ok =>
      obtain rfl : ok = true := hanswered
      simp only [main_step, if_true] at h
      split at h
      · simp only [Option.ite_none_right_eq_some, Option.some.injEq] at h
        obtain ⟨-, rfl⟩ := h
        simp
      · cases h
  | main_call now =>
      simp only [main_step] at h
      split at h
      · next plan hp =>
          rw [Option.map_eq_some_iff] at h
          obtain ⟨main, -, rfl⟩ := h
          simp [hp]
      · cases h
  | main_write_error => cases hanswered
  | main_commit reply =>
      obtain rfl : reply = .ok := by simpa [answered] using hanswered
      simp only [main_step] at h
      split at h
      · next plan hp =>
          rw [Option.map_eq_some_iff] at h
          obtain ⟨⟨main, db, ok⟩, hcommit, rfl⟩ := h
          obtain rfl := Exec.commit_ok hcommit
          simp [hp]
      · cases h
  | main_done =>
      simp only [main_step, Option.ite_none_right_eq_some, Option.some.injEq] at h
      obtain ⟨-, rfl⟩ := h
      simp
  | index ok =>
      obtain rfl : ok = true := hanswered
      simp only [main_step, Option.ite_none_right_eq_some, Option.some.injEq] at h
      obtain ⟨-, rfl⟩ := h
      simp
  | _ => simp [main_step] at h

/-- While nothing has failed and the environment does its part, nothing fails. -/
theorem answered_keeps (hn : 0 < n) {s s' : Pool n} {l : PoolLabel n} (hs : Live s)
    (hsound : ¬Failed s) (h : s.step cfg l = some s') (hanswered : answered l = true) :
    ¬Failed s' := by
  have hcancelled : s.cancelled = false := by
    by_contra hcancelled
    exact hsound (hs.cancelled (by simpa using hcancelled))
  unfold step at h
  split at h
  · next i hmover =>
      obtain ⟨hothers, hproducer, -, -⟩ := (worker_step_spec h).frame
      obtain ⟨herr, hpanicked⟩ := worker_keeps h hanswered hcancelled
      rintro (⟨j, hj⟩ | hfailed)
      · by_cases hji : j = i
        · subst hji
          exact hj.elim herr hpanicked
        · rw [hothers j hji] at hj
          exact hsound (.inl ⟨j, hj⟩)
      · rw [hproducer] at hfailed
        exact hsound (.inr hfailed)
  · obtain ⟨hreturned, hjoining⟩ := main_keeps hn hs hsound h hanswered hcancelled
    rintro (⟨j, hj⟩ | hret | ⟨next, hnext⟩)
    · rw [(main_step_spec h).frame.1] at hj
      exact hsound (.inl ⟨j, hj⟩)
    · exact hreturned hret
    · exact hjoining next hnext

/-- The steps in which the environment does its part and nobody gives up waiting. -/
def prompt_step (cfg : ImportConfig) (s : Pool n) (l : PoolLabel n) : Option (Pool n) :=
  if answered l && !s.waits l then s.step cfg l else none

/-- A prompt step is a step that answers well and is no wait. -/
theorem prompt_step_eq_some {s s' : Pool n} {l : PoolLabel n} :
    s.prompt_step cfg l = some s' ↔
      (answered l = true ∧ s.waits l = false) ∧ s.step cfg l = some s' := by
  simp [prompt_step, Option.ite_none_right_eq_some]

/-- The budget, as long as the call has not returned. -/
def rank (cfg : ImportConfig) (s : Pool n) : ℕ :=
  if s.producer.is_returned then 0 else budget cfg s + 1

/-- While the rank is not 0 the call has not returned. -/
theorem running_of_rank {s : Pool n} (hrank : rank cfg s ≠ 0) : s.producer.is_returned = false := by
  by_contra hreturned
  exact hrank (if_pos (by simpa using hreturned))

/-- While the rank is not 0 some prompt step is possible: nobody waits for ever. -/
theorem exists_prompt_step (cfg : ImportConfig) (hn : 0 < n) {s : Pool n}
    (hrank : rank cfg s ≠ 0) : ∃ l s', s.prompt_step cfg l = some s' := by
  have hrunning := running_of_rank hrank
  obtain ⟨l, hmoves, hanswered, hwaits⟩ := can_move cfg hn (s := s) fun ok hp => by
    rw [hp] at hrunning
    cases hrunning
  obtain ⟨s', hstep⟩ := Option.isSome_iff_exists.mp hmoves
  exact ⟨l, s', prompt_step_eq_some.mpr ⟨⟨hanswered, hwaits⟩, hstep⟩⟩

/-- A prompt step fails nothing, and pays. -/
theorem prompt_step_pays (hn : 0 < n) {failed : Prop} {s s' : Pool n} {l : PoolLabel n}
    (hs : Live s ∧ (Failed s ↔ failed)) (hrank : rank cfg s ≠ 0)
    (h : s.prompt_step cfg l = some s') :
    (Live s' ∧ (Failed s' ↔ failed)) ∧ rank cfg s' < rank cfg s := by
  obtain ⟨hlive, hfailed⟩ := hs
  obtain ⟨⟨hanswered, hwaits⟩, hstep⟩ := prompt_step_eq_some.mp h
  refine ⟨⟨hlive.step hstep, ?_⟩, ?_⟩
  · rw [← hfailed]
    refine ⟨fun hafter => ?_, fun hbefore => hbefore.step hstep⟩
    by_contra hsound
    exact answered_keeps hn hlive hsound hstep hanswered hafter
  · have hpaid := budget_step hlive.joined hstep
    rw [hwaits, if_neg Bool.false_ne_true] at hpaid
    simp only [rank, running_of_rank hrank, Bool.false_eq_true, if_false]
    split <;> omega

/-- At rank zero the call has returned: an error exactly where something has failed. -/
theorem returned_of_rank {s : Pool n} (hs : Live s) (hrank : rank cfg s = 0) :
    ∃ ok, s.producer = .returned ok ∧ (ok = true ↔ ¬Failed s) := by
  obtain ⟨ok, hreturned⟩ : ∃ ok, s.producer = .returned ok := by
    by_contra hrunning
    have hnot : ¬s.producer.is_returned = true := fun h => by
      cases hp : s.producer with
      | returned ok => exact hrunning ⟨ok, hp⟩
      | _ => rw [hp] at h; cases h
    simp [rank, hnot] at hrank
  refine ⟨ok, hreturned, ?_⟩
  cases ok with
  | true =>
      have hpast : s.producer.past_join = true := by rw [hreturned]; rfl
      have hsound : ¬Failed s := by
        rintro (hworker | hret | ⟨next, hret⟩)
        · exact not_failed_worker hs.joined hpast hworker
        · simp [hreturned] at hret
        · simp [hreturned] at hret
      simpa using hsound
  | false =>
      have hafter : Failed s := .inr (.inl hreturned)
      simpa using hafter

/-- A schedule that is gone on with by prompt steps until the call returns `Ok`. -/
theorem complete_of_prompt (hn : 0 < n) {stream : List StreamItem} {db₀ : Db} {s s' : Pool n}
    {labels : List (PoolLabel n)} (hrun : Lts.run (step cfg) (init stream db₀) labels = some s)
    (hreach : Lts.Reaches (prompt_step cfg) s s') (hreturned : s'.producer = .returned true) :
    cfg.Complete (cfg.ops (delivered stream)) db₀ s'.totals s'.shared s'.db := by
  obtain ⟨rest, hrest⟩ := hreach.mono fun _ _ _ h => (prompt_step_eq_some.mp h).2
  exact complete_of_run hn (Lts.run_trans _ hrun hrest) (.inr hreturned)

/-- **The call can return from anywhere.** From every state that some schedule, some
failures and some answers of ClickHouse have led to, the import comes to its end by
steps in which no thread waits for another in vain and every request is answered: it
returns `Ok` where nothing had failed, with all of the stream stored, and an error
where something had. -/
theorem returns_from_anywhere (cfg : ImportConfig) (hn : 0 < n) (stream : List StreamItem)
    (db₀ : Db) {s : Pool n} {labels : List (PoolLabel n)}
    (hrun : Lts.run (step cfg) (init stream db₀) labels = some s) :
    ∃ ok s', Lts.Reaches (prompt_step cfg) s s' ∧ s'.producer = .returned ok ∧
      (ok = true ↔ ¬Failed s) ∧
      (ok = true → cfg.Complete (cfg.ops (delivered stream)) db₀ s'.totals s'.shared s'.db) := by
  have hlive : Live s := Lts.invariant (fun _ _ _ hs h => hs.step h) (live_init stream db₀) hrun
  have hstep : ∀ t : Pool n, Live t ∧ (Failed t ↔ Failed s) → rank cfg t ≠ 0 →
      ∃ t', Lts.Reaches (prompt_step cfg) t t' ∧ (Live t' ∧ (Failed t' ↔ Failed s)) ∧
        rank cfg t' < rank cfg t := by
    intro t ht hrank
    obtain ⟨l, t', h⟩ := exists_prompt_step cfg hn hrank
    exact ⟨t', .single l h, prompt_step_pays hn ht hrank h⟩
  obtain ⟨s', hreach, ⟨hlive', hfailed⟩, hrank⟩ :=
    Lts.reaches_of_rank (rank cfg) hstep ⟨hlive, Iff.rfl⟩
  obtain ⟨ok, hreturned, hok⟩ := returned_of_rank hlive' hrank
  refine ⟨ok, s', hreach, hreturned, by rw [hok, hfailed], fun htrue => ?_⟩
  subst htrue
  exact complete_of_prompt hn hrun hreach hreturned

/-- The start of `two_workers`, up to where both workers are parsing. -/
def under_way : List (PoolLabel 2) := two_workers.take 13

theorem steps_le_waits_under_way :
    under_way.length ≤ import_cost
      (insert_all_config .accept_nothing (fun _ => 0) .Active .Full 1 ∅)
        2 [.ok one_account, .ok one_account]
      + ((insert_all_config .accept_nothing (fun _ => 0) .Active .Full 1 ∅).flush_cost + 3)
        * Lts.occurrences (step (insert_all_config .accept_nothing (fun _ => 0) .Active .Full 1 ∅))
            waits (init [.ok one_account, .ok one_account] fun _ => .truncated : Pool 2)
            under_way := by
  have hrun : (Lts.run (step (insert_all_config .accept_nothing (fun _ => 0) .Active .Full 1 ∅))
      (init [.ok one_account, .ok one_account] fun _ => .truncated : Pool 2) under_way).isSome
        = true := by decide +kernel
  obtain ⟨s, hs⟩ := Option.isSome_iff_exists.mp hrun
  exact steps_le_waits _ _ _ hs

theorem returns_from_anywhere_under_way : ∃ s s' : Pool 2,
    Lts.run (step (insert_all_config .accept_nothing (fun _ => 0) .Active .Full 1 ∅))
      (init [.ok one_account, .ok one_account] fun _ => .truncated) under_way = some s ∧
    (s.worker first).phase = .processing ∧ (s.worker second).phase = .processing ∧
    Lts.Reaches (prompt_step (insert_all_config .accept_nothing (fun _ => 0) .Active .Full 1 ∅))
      s s' ∧ s'.producer = .returned true := by
  have hrun : (Lts.run (step (insert_all_config .accept_nothing (fun _ => 0) .Active .Full 1 ∅))
      (init [.ok one_account, .ok one_account] fun _ => .truncated : Pool 2) under_way).map
        (fun s => ((s.worker first).phase, (s.worker second).phase, s.producer))
      = some (.processing, .processing, .joining 0 false) := by decide +kernel
  obtain ⟨s, hs, hstate⟩ := Option.map_eq_some_iff.mp hrun
  simp only [Prod.mk.injEq] at hstate
  obtain ⟨hfirst, hsecond, hproducer⟩ := hstate
  have hworkers : ∀ i, (s.worker i).phase = .processing :=
    Fin.forall_fin_two.mpr ⟨hfirst, hsecond⟩
  have hsound : ¬Failed s := by
    rintro (⟨i, hi⟩ | hret | ⟨next, hnext⟩)
    · simp [hworkers i] at hi
    · simp [hproducer] at hret
    · simp [hproducer] at hnext
  obtain ⟨ok, s', hreach, hreturned, hok, -⟩ := returns_from_anywhere _ (by decide) _ _ hs
  obtain rfl := hok.mpr hsound
  exact ⟨s, s', hs, hfirst, hsecond, hreach, hreturned⟩

end Pool

end SnapshotEtl
