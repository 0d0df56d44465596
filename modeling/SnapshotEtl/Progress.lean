/-
An import can always come to a good end.

Whatever the stream, there is a run of each machine that returns `Ok`: answer
every request with success, and let one worker take every storage. Each thread
drains in finitely many calls and commits (`Exec.work` is its rank), an item of
the stream costs a bounded detour, and so does a group of the merge plan. What
such a run leaves is the business of `complete_of_run`.
-/
import SnapshotEtl.Pool
import SnapshotEtl.Sequential

set_option autoImplicit false

namespace SnapshotEtl

open Lib

/-! ## A thread drains -/

/-- Calls to make, each worth the commits it may decide on, and commits due. -/
def Exec.work (e : Exec) : ℕ := 5 * e.todo.length + e.commits.length

/-- An execution is idle exactly where no work is left. -/
theorem Exec.idle_iff_work {e : Exec} : e.idle = true ↔ e.work = 0 := by
  simp [idle, work, and_comm]

theorem ClickhouseSink.length_pending_tables (s : ClickhouseSink) :
    s.pending_tables.length ≤ 4 :=
  List.length_filter_le ..

/-- A written row causes at most one commit for each table. -/
theorem ClickhouseSink.length_write (s : ClickhouseSink) (size : Row → ℕ) (now : ℕ) (row : Row) :
    (s.write size now row).2.length ≤ 4 := by
  unfold write
  dsimp only
  split <;> simp

/-- So does an age check. -/
theorem ClickhouseSink.length_maybe_force_commit (s : ClickhouseSink) (now : ℕ) :
    (s.maybe_force_commit now).2.length ≤ 4 := by
  unfold maybe_force_commit
  split
  · simp
  · exact (List.length_filter_le ..).trans s.length_pending_tables

/-- A call decides on at most four commits, one a table. -/
theorem Exec.exists_call {e : Exec} (size : Row → ℕ) (hcommits : e.commits = [])
    (htodo : e.todo ≠ []) : ∃ e', e.call size 0 = some e' ∧ e'.work < e.work := by
  obtain ⟨sinks, commits, todo⟩ := e
  obtain rfl : commits = [] := hcommits
  obtain ⟨task, todo, rfl⟩ := List.exists_cons_of_ne_nil htodo
  have hshort : ∀ {group : TableGroup} {tables : List RawTable}
      (sinks' : TableGroup → ClickhouseSink),
      tables.length ≤ 4 →
      work ⟨sinks', tables.map fun t => (group, t), todo⟩ < work ⟨sinks, [], task :: todo⟩ := by
    intro group tables sinks' hlen
    simp only [work, List.length_map, List.length_cons, List.length_nil]
    omega
  have hnone : work ⟨sinks, [], todo⟩ < work ⟨sinks, [], task :: todo⟩ := by
    simp only [work, List.length_cons]
    omega
  rcases task with (⟨group, op⟩ | c) | group
  · cases op with
    | write row => exact ⟨_, rfl, hshort _ ((sinks group).length_write size 0 row)⟩
    | maybe_force_commit =>
        exact ⟨_, rfl, hshort _ ((sinks group).length_maybe_force_commit 0)⟩
    | _ => exact ⟨_, rfl, hnone⟩
  · exact ⟨_, rfl, hnone⟩
  · exact ⟨_, rfl, hshort _ (sinks group).length_pending_tables⟩

/-- A commit that is due can be answered, and it leaves less work. -/
theorem Exec.exists_commit {e : Exec} (db : Db) (hcommits : e.commits ≠ []) :
    ∃ e' db', e.commit .ok db = some (e', db', true) ∧ e'.work < e.work := by
  obtain ⟨sinks, commits, todo⟩ := e
  obtain ⟨⟨group, t⟩, commits, rfl⟩ := List.exists_cons_of_ne_nil hcommits
  refine ⟨_, _, rfl, ?_⟩
  simp only [work, List.length_cons]
  omega

/-! ## The sequential import -/

namespace Sequential

variable (cfg : ImportConfig)

/-- A thread that is parsing or merging gets its work done. -/
theorem drain {s : Sequential} (hexec : s.is_executing = true) :
    ∃ s', Lts.Reaches (step cfg) s s' ∧ s'.phase = s.phase ∧ s'.exec.idle = true := by
  simp only [Exec.idle_iff_work]
  refine Lts.reaches_of_rank (P := fun t : Sequential => t.phase = s.phase)
    (fun t => t.exec.work) ?_ rfl
  intro t ht hwork
  have hexec' : t.is_executing = true := by
    unfold is_executing at hexec ⊢
    rw [ht]
    exact hexec
  by_cases hcommits : t.exec.commits = []
  · have htodo : t.exec.todo ≠ [] := by
      intro htodo
      exact hwork (by simp [Exec.work, hcommits, htodo])
    obtain ⟨e', hcall, hlt⟩ := t.exec.exists_call cfg.size hcommits htodo
    cases hp : t.phase with
    | parsing rest =>
        cases hop : t.exec.next_op with
        | none =>
            refine ⟨{ t with exec := e' }, .single (.call 0) ?_, ht, hlt⟩
            simp [step, hp, hcall, hop]
        | some op =>
            refine ⟨{ t with exec := e', stats := t.stats.step op, shared := t.shared.step op },
              .single (.call 0) ?_, ht, hlt⟩
            simp [step, hp, hcall, hop]
    | merging plan =>
        refine ⟨{ t with exec := e' }, .single (.call 0) ?_, ht, hlt⟩
        simp [step, hp, hcall]
    | _ => simp [is_executing, hp] at hexec'
  · obtain ⟨e', db', hcommit, hlt⟩ := t.exec.exists_commit t.db hcommits
    refine ⟨{ t with exec := e', db := db' }, .single (.commit .ok) ?_, ht, hlt⟩
    simp [step, hexec', hcommit]

/-- The stream is read to its end, errors and all. -/
theorem feed_all (stream : List StreamItem) {s : Sequential} (hphase : s.phase = .feeding stream)
    (hidle : s.exec.idle = true) : ∃ s', Lts.Reaches (step cfg) s s' ∧
      s'.phase = .feeding [] ∧ s'.exec.idle = true := by
  induction stream generalizing s with
  | nil => exact ⟨s, .refl s, hphase, hidle⟩
  | cons item rest ih =>
      cases item with
      | err =>
          have hfeed : step cfg s .feed = some { s with
              phase := .feeding rest
              skipped_append_vecs := s.skipped_append_vecs + 1
              shared := s.shared.step (.count .append_vecs) } := by simp [step, hphase]
          obtain ⟨s', hreach, hs'⟩ := ih (s := { s with
              phase := .feeding rest
              skipped_append_vecs := s.skipped_append_vecs + 1
              shared := s.shared.step (.count .append_vecs) }) rfl hidle
          exact ⟨s', (Lts.Reaches.single .feed hfeed).trans hreach, hs'⟩
      | ok append_vec =>
          have hfeed : step cfg s .feed = some { s with
              phase := .parsing rest
              exec := { s.exec with todo := (cfg.deliver append_vec).map .parser } } := by
            simp [step, hphase]
          obtain ⟨t, hdrain, htphase, htidle⟩ := drain cfg (s := { s with
              phase := .parsing rest
              exec := { s.exec with todo := (cfg.deliver append_vec).map .parser } }) rfl
          have hdone : step cfg t .done = some { t with phase := .feeding rest } := by
            simp [step, htphase, htidle]
          obtain ⟨s', hreach, hs'⟩ := ih (s := { t with phase := .feeding rest }) rfl htidle
          exact ⟨s', ((Lts.Reaches.single .feed hfeed).trans hdrain).trans
            ((Lts.Reaches.single .done hdone).trans hreach), hs'⟩

theorem merge_all (plan : List (TableGroup × Bool)) {s : Sequential}
    (hphase : s.phase = .merging plan) (hidle : s.exec.idle = true) :
    ∃ s', Lts.Reaches (step cfg) s s' ∧ s'.phase = .merging [] ∧ s'.exec.idle = true := by
  induction plan generalizing s with
  | nil => exact ⟨s, .refl s, hphase, hidle⟩
  | cons entry plan ih =>
      obtain ⟨group, preserve_existing⟩ := entry
      have hload : step cfg s (.load_metadata true) = some { s with
          phase := .merging plan
          exec := { s.exec with
            todo := cfg.merge_tasks s.db s.shared group preserve_existing } } := by
        simp [step, hphase, hidle]
      obtain ⟨t, hdrain, htphase, htidle⟩ := drain cfg (s := { s with
          phase := .merging plan
          exec := { s.exec with
            todo := cfg.merge_tasks s.db s.shared group preserve_existing } }) rfl
      obtain ⟨s', hreach, hs'⟩ := ih htphase htidle
      exact ⟨s', ((Lts.Reaches.single _ hload).trans hdrain).trans hreach, hs'⟩

/-- **Every stream can be imported with `Ok`.** -/
theorem exists_ok (cfg : ImportConfig) (stream : List StreamItem) (db₀ : Db) :
    ∃ s, Lts.Reaches (step cfg) (init stream db₀) s ∧ s.phase = .returned true := by
  obtain ⟨s, hfed, hphase, hidle⟩ := feed_all cfg stream
    (s := init stream db₀) rfl rfl
  have hover : step cfg s .feed = some { s with phase := .merging cfg.merge_plan } := by
    simp [step, hphase]
  obtain ⟨t, hmerged, htphase, htidle⟩ := merge_all cfg cfg.merge_plan
    (s := { s with phase := .merging cfg.merge_plan }) rfl hidle
  have hdone : step cfg t .done = some { t with phase := .imported } := by
    simp [step, htphase, htidle]
  have hindex : step cfg { t with phase := .imported } (.index true)
      = some { t with phase := .returned true } := by
    simp [step]
  exact ⟨_, ((hfed.trans (.single _ hover)).trans hmerged).trans
    ((Lts.Reaches.single _ hdone).trans (.single _ hindex)), rfl⟩

end Sequential

/-! ## The pool -/

namespace Pool

variable {n : ℕ} (cfg : ImportConfig)

/-- What a detour through worker `i` leaves as it was. -/
structure Aside (i : Fin n) (s s' : Pool n) : Prop where
  others : ∀ j ≠ i, s'.worker j = s.worker j
  queue : s'.queue = s.queue
  cancelled : s'.cancelled = s.cancelled
  producer : s'.producer = s.producer
  main : s'.main = s.main

theorem Aside.refl (i : Fin n) (s : Pool n) : Aside i s s := ⟨fun _ _ => rfl, rfl, rfl, rfl, rfl⟩

/-- Stretches in which only one worker moves compose. -/
theorem Aside.trans {i : Fin n} {s s' s'' : Pool n} (h : Aside i s s') (h' : Aside i s' s'') :
    Aside i s s'' :=
  ⟨fun j hj => (h'.others j hj).trans (h.others j hj), h'.queue.trans h.queue,
    h'.cancelled.trans h.cancelled, h'.producer.trans h.producer, h'.main.trans h.main⟩

theorem Aside.set_worker (s : Pool n) (i : Fin n) (w : WorkerThread) :
    Aside i s (s.set_worker i w) :=
  ⟨fun _ hj => Function.update_of_ne hj .., rfl, rfl, rfl, rfl⟩

@[simp] theorem worker_set_worker (s : Pool n) (i : Fin n) (w : WorkerThread) :
    (s.set_worker i w).worker i = w := Function.update_self ..

@[simp] theorem worker_set_phase (s : Pool n) (i : Fin n) (phase : WorkerPhase) :
    (s.set_phase i phase).worker i = { s.worker i with phase } := Function.update_self ..

/-- A worker gets its work done while nothing else moves. -/
theorem drain {s : Pool n} {i : Fin n} (hexec : (s.worker i).phase.is_executing = true) :
    ∃ s', Lts.Reaches (step cfg) s s' ∧ Aside i s s' ∧
      (s'.worker i).phase = (s.worker i).phase ∧ (s'.worker i).exec.idle = true := by
  simp only [Exec.idle_iff_work]
  have hstep : ∀ t : Pool n, Aside i s t ∧ (t.worker i).phase = (s.worker i).phase →
      (t.worker i).exec.work ≠ 0 → ∃ t', Lts.Reaches (step cfg) t t' ∧
        (Aside i s t' ∧ (t'.worker i).phase = (s.worker i).phase) ∧
        (t'.worker i).exec.work < (t.worker i).exec.work := by
    intro t ht hwork
    have hexec' : (t.worker i).phase.is_executing = true := ht.2 ▸ hexec
    -- an insert under way is answered; otherwise the next call is made
    by_cases hcommits : (t.worker i).exec.commits = []
    · have htodo : (t.worker i).exec.todo ≠ [] := by
        intro htodo
        exact hwork (by simp [Exec.work, hcommits, htodo])
      obtain ⟨e', hcall, hlt⟩ := (t.worker i).exec.exists_call cfg.size hcommits htodo
      cases hop : (t.worker i).exec.next_op with
      | none =>
          refine ⟨t.set_worker i { t.worker i with exec := e' }, .single (.call i 0) ?_,
            ⟨ht.1.trans (.set_worker ..), ?_⟩, ?_⟩
          · simp [step, mover, worker_step, hexec', hcall, hop]
          · simpa using ht.2
          · simpa using hlt
      | some op =>
          refine ⟨{ t.set_worker i
              { t.worker i with exec := e', stats := (t.worker i).stats.step op }
              with shared := t.shared.step op }, .single (.call i 0) ?_, ⟨ht.1.trans ?_, ?_⟩, ?_⟩
          · simp [step, mover, worker_step, hexec', hcall, hop]
          · exact ⟨fun j hj => Function.update_of_ne hj .., rfl, rfl, rfl, rfl⟩
          · simpa [Pool.set_worker] using ht.2
          · simpa [Pool.set_worker] using hlt
    · obtain ⟨e', db', hcommit, hlt⟩ := (t.worker i).exec.exists_commit t.db hcommits
      refine ⟨{ t.set_worker i { t.worker i with exec := e' } with db := db' },
        .single (.commit i .ok) ?_, ⟨ht.1.trans ?_, ?_⟩, ?_⟩
      · simp [step, mover, worker_step, hexec', hcommit]
      · exact ⟨fun j hj => Function.update_of_ne hj .., rfl, rfl, rfl, rfl⟩
      · simpa [Pool.set_worker] using ht.2
      · simpa [Pool.set_worker] using hlt
  obtain ⟨s', hreach, ⟨haside, hphase⟩, hwork⟩ :=
    Lts.reaches_of_rank (fun t : Pool n => (t.worker i).exec.work) hstep ⟨.refl i s, rfl⟩
  exact ⟨s', hreach, haside, hphase, hwork⟩

/-- The calling thread gets its work done. -/
theorem main_drain {s : Pool n} {plan : List (TableGroup × Bool)}
    (hp : s.producer = .merging plan) : ∃ s', Lts.Reaches (step cfg) s s' ∧
      s'.producer = .merging plan ∧ s'.main.idle = true := by
  simp only [Exec.idle_iff_work]
  refine Lts.reaches_of_rank (P := fun t : Pool n => t.producer = .merging plan)
    (fun t => t.main.work) ?_ hp
  intro t ht hwork
  by_cases hcommits : t.main.commits = []
  · have htodo : t.main.todo ≠ [] := by
      intro htodo
      exact hwork (by simp [Exec.work, hcommits, htodo])
    obtain ⟨e', hcall, hlt⟩ := t.main.exists_call cfg.size hcommits htodo
    refine ⟨{ t with main := e' }, .single (.main_call 0) ?_, ht, hlt⟩
    simp [step, mover, main_step, ht, hcall]
  · obtain ⟨e', db', hcommit, hlt⟩ := t.main.exists_commit t.db hcommits
    refine ⟨{ t with main := e', db := db' }, .single (.main_commit .ok) ?_, ht, hlt⟩
    simp [step, mover, main_step, ht, hcommit]

theorem merge_all (plan : List (TableGroup × Bool)) {s : Pool n}
    (hp : s.producer = .merging plan) (hidle : s.main.idle = true) :
    ∃ s', Lts.Reaches (step cfg) s s' ∧ s'.producer = .merging [] ∧ s'.main.idle = true := by
  induction plan generalizing s with
  | nil => exact ⟨s, .refl s, hp, hidle⟩
  | cons entry plan ih =>
      obtain ⟨group, preserve_existing⟩ := entry
      have hload : step cfg s (.load_metadata true) = some { s with
          producer := .merging plan
          main := { s.main with
            todo := cfg.merge_tasks s.db s.shared group preserve_existing } } := by
        simp [step, mover, main_step, hp, hidle]
      obtain ⟨t, hdrain, htp, htidle⟩ := main_drain cfg (s := { s with
          producer := .merging plan
          main := { s.main with
            todo := cfg.merge_tasks s.db s.shared group preserve_existing } }) rfl
      obtain ⟨s', hreach, hs'⟩ := ih htp htidle
      exact ⟨s', ((Lts.Reaches.single _ hload).trans hdrain).trans hreach, hs'⟩

/-- Worker `first` has everything to itself. -/
structure Alone (first : Fin n) (rest : List StreamItem) (s : Pool n) : Prop where
  producer : s.producer = .feeding rest
  queue : s.queue = []
  cancelled : s.cancelled = false
  main : s.main = .new
  top : (s.worker first).phase = .top
  starting : ∀ j ≠ first, (s.worker j).phase = .starting

/-- An item that cannot be read is skipped. -/
theorem feed_skipped {first : Fin n} {rest : List StreamItem} {s : Pool n}
    (h : Alone first (.err :: rest) s) :
    ∃ s', Lts.Reaches (step cfg) s s' ∧ Alone first rest s' := by
  have hfeed : step cfg s .feed = some { s with
      producer := .feeding rest
      skipped_append_vecs := s.skipped_append_vecs + 1 } := by
    simp [step, mover, main_step, h.producer]
  exact ⟨_, .single .feed hfeed, rfl, h.queue, h.cancelled, h.main, h.top, h.starting⟩

/-- A storage is sent, taken and worked off. -/
theorem feed_delivered {first : Fin n} {append_vec : AppendVec} {rest : List StreamItem}
    {s : Pool n} (h : Alone first (.ok append_vec :: rest) s) :
    ∃ s', Lts.Reaches (step cfg) s s' ∧ Alone first rest s' := by
  -- the calling thread puts it into the queue, which has room
  have hfeed : step cfg s .feed = some { s with producer := .sending append_vec rest } := by
    simp [step, mover, main_step, h.producer, h.cancelled]
  have hcheck : step cfg { s with producer := .sending append_vec rest } .check_cancelled
      = some { s with producer := .dispatching append_vec rest } := by
    simp [step, mover, main_step, h.cancelled]
  have hrunning : ¬∀ i, (s.worker i).phase.is_stopped = true := fun hall => by
    simpa [h.top, WorkerPhase.is_stopped] using hall first
  have hroom : 0 < n := first.pos
  have hsend : step cfg { s with producer := .dispatching append_vec rest } .send_timeout
      = some { s with queue := [append_vec], producer := .feeding rest } := by
    simp [step, mover, main_step, all_stopped, hrunning, h.queue, hroom]
  -- the worker takes it from there, and does all it has to do
  have hpoll : step cfg { s with queue := [append_vec], producer := .feeding rest }
      (.poll first) = some (set_phase
        { s with queue := [append_vec], producer := .feeding rest } first .receiving) := by
    simp [step, mover, worker_step, h.top, h.cancelled]
  have hrecv : step cfg (set_phase
      { s with queue := [append_vec], producer := .feeding rest } first .receiving)
      (.recv first) = some (set_worker { s with producer := .feeding rest } first
        { s.worker first with
          phase := .processing
          exec := { (s.worker first).exec with
            todo := (cfg.deliver append_vec).map .parser } }) := by
    simp [step, mover, worker_step, set_phase, set_worker, h.queue]
  obtain ⟨t, hdrain, haside, htphase, htidle⟩ := drain cfg (i := first)
    (s := set_worker { s with producer := .feeding rest } first
      { s.worker first with
        phase := .processing
        exec := { (s.worker first).exec with
          todo := (cfg.deliver append_vec).map .parser } })
    (by rw [worker_set_worker]; rfl)
  rw [worker_set_worker] at htphase
  have hdone : step cfg t (.done first) = some (t.set_phase first .top) := by
    simp [step, mover, worker_step, htphase, htidle]
  have hsent := ((Lts.Reaches.single _ hfeed).trans (.single _ hcheck)).trans (.single _ hsend)
  have htaken := (Lts.Reaches.single _ hpoll).trans (.single _ hrecv)
  refine ⟨_, ((hsent.trans htaken).trans hdrain).trans (.single _ hdone), haside.producer,
    haside.queue.trans h.queue, haside.cancelled.trans h.cancelled, haside.main.trans h.main,
    by simp, ?_⟩
  intro j hj
  have hother : (t.set_phase first .top).worker j = t.worker j := Function.update_of_ne hj ..
  rw [hother, haside.others j hj]
  exact (congrArg _ (Function.update_of_ne hj ..)).trans (h.starting j hj)

/-- The stream is read to its end, one worker taking every storage. -/
theorem feed_all (first : Fin n) (stream : List StreamItem) {s : Pool n}
    (h : Alone first stream s) :
    ∃ s', Lts.Reaches (step cfg) s s' ∧ Alone first [] s' := by
  induction stream generalizing s with
  | nil => exact ⟨s, .refl s, h⟩
  | cons item rest ih =>
      obtain ⟨t, hitem, ht⟩ : ∃ t, Lts.Reaches (step cfg) s t ∧ Alone first rest t := by
        cases item with
        | err => exact feed_skipped cfg h
        | ok append_vec => exact feed_delivered cfg h
      obtain ⟨s', hrest, hs'⟩ := ih ht
      exact ⟨s', hitem.trans hrest, hs'⟩

/-- The stream is over and the join loop is at `next`. -/
structure Leaving (next : ℕ) (s : Pool n) : Prop where
  producer : s.producer = .joining next false
  queue : s.queue = []
  cancelled : s.cancelled = false
  main : s.main = .new
  worker : ∀ j : Fin n, next ≤ j.val →
    (s.worker j).phase = .top ∨ (s.worker j).phase = .starting

/-- A worker that finds the channel closed makes its last flush and is joined. -/
theorem join_one {next : ℕ} {s : Pool n} (h : Leaving next s) (hnext : next < n) :
    ∃ s', Lts.Reaches (step cfg) s s' ∧ Leaving (next + 1) s' := by
  let i : Fin n := ⟨next, hnext⟩
  -- the worker is at the top of its loop, or gets there
  obtain ⟨t, hstart, haside, htop⟩ : ∃ t, Lts.Reaches (step cfg) s t ∧ Aside i s t ∧
      (t.worker i).phase = .top := by
    rcases h.worker i (le_refl _) with htop | hstarting
    · exact ⟨s, .refl s, .refl i s, htop⟩
    · refine ⟨s.set_phase i .top, .single (.start i true) ?_, .set_worker .., by simp⟩
      simp [step, mover, worker_step, hstarting]
  have hpoll : step cfg t (.poll i) = some (t.set_phase i .receiving) := by
    simp [step, mover, worker_step, htop, haside.cancelled, h.cancelled]
  have hdisconnected : step cfg (t.set_phase i .receiving) (.recv_disconnected i)
      = some ((t.set_phase i .receiving).set_phase i .closing) := by
    simp [step, mover, worker_step, set_phase, set_worker, haside.queue, h.queue, haside.producer,
      h.producer, Producer.has_sender]
  have hclose : step cfg ((t.set_phase i .receiving).set_phase i .closing) (.close i)
      = some (t.set_worker i { t.worker i with
          phase := .ending
          exec := { (t.worker i).exec with todo := cfg.lanes.map .flush } }) := by
    simp [step, mover, worker_step, set_phase, set_worker, haside.cancelled, h.cancelled]
  obtain ⟨u, hdrain, haside', huphase, huidle⟩ := drain cfg (i := i)
    (s := t.set_worker i { t.worker i with
      phase := .ending
      exec := { (t.worker i).exec with todo := cfg.lanes.map .flush } })
    (by rw [worker_set_worker]; rfl)
  rw [worker_set_worker] at huphase
  have hdone : step cfg u (.done i) = some (u.set_phase i (.stopped .ok)) := by
    simp [step, mover, worker_step, huphase, huidle]
  have hall : Aside i s (u.set_phase i (.stopped .ok)) :=
    haside.trans ((Aside.set_worker ..).trans (haside'.trans (.set_worker ..)))
  have hjoin : step cfg (u.set_phase i (.stopped .ok)) .join
      = some { u.set_phase i (.stopped .ok) with
          totals := u.totals.merge ((u.set_phase i (.stopped .ok)).worker i).stats
          producer := .joining (next + 1) false } := by
    have hp : (u.set_phase i (.stopped .ok)).producer = .joining next false :=
      hall.producer.trans h.producer
    have hw : ((u.set_phase i (.stopped .ok)).worker ⟨next, hnext⟩).phase = .stopped .ok := by
      rw [show (⟨next, hnext⟩ : Fin n) = i from rfl, worker_set_phase]
    simp only [step, mover, main_step, hp, hnext, dif_pos, hw]
    rfl
  refine ⟨_, ((hstart.trans (.single _ hpoll)).trans
    ((Lts.Reaches.single _ hdisconnected).trans (.single _ hclose))).trans
    ((hdrain.trans (.single _ hdone)).trans (.single _ hjoin)),
    rfl, hall.queue.trans h.queue, hall.cancelled.trans h.cancelled, hall.main.trans h.main, ?_⟩
  intro j hj
  have hne : j ≠ i := by
    rintro rfl
    exact absurd hj (Nat.not_succ_le_self next)
  show ((u.set_phase i (.stopped .ok)).worker j).phase = .top ∨ _
  rw [hall.others j hne]
  exact h.worker j (Nat.le_of_succ_le hj)

/-- Workers that are leaving can all be joined. -/
theorem join_all {next : ℕ} {s : Pool n} (h : Leaving next s) (hle : next ≤ n) :
    ∃ s', Lts.Reaches (step cfg) s s' ∧ Leaving n s' := by
  induction hk : n - next generalizing next s with
  | zero =>
      obtain rfl : next = n := by omega
      exact ⟨s, .refl s, h⟩
  | succ k ih =>
      obtain ⟨t, hreach, ht⟩ := join_one cfg h (by omega)
      obtain ⟨s', hreach', hs'⟩ := ih ht (by omega) (by omega)
      exact ⟨s', hreach.trans hreach', hs'⟩

/-- **Every stream can be imported with `Ok`**, whatever the number of workers. -/
theorem exists_ok (hn : 0 < n) (cfg : ImportConfig) (stream : List StreamItem) (db₀ : Db) :
    ∃ s : Pool n, Lts.Reaches (step cfg) (init stream db₀) s ∧ s.producer = .returned true := by
  let first : Fin n := ⟨0, hn⟩
  have hstart : step cfg (init stream db₀) (.start first true)
      = some ((init stream db₀ : Pool n).set_phase first .top) := by
    simp [step, mover, worker_step, init]
  have halone : Alone first stream ((init stream db₀ : Pool n).set_phase first .top) :=
    ⟨rfl, rfl, rfl, rfl, by simp, fun j hj => congrArg _ (Function.update_of_ne hj ..)⟩
  obtain ⟨s, hfed, hs⟩ := feed_all cfg first stream halone
  have hover : step cfg s .feed = some { s with producer := .joining 0 false } := by
    simp [step, mover, main_step, hs.producer]
  have hleaving : Leaving 0 { s with producer := .joining 0 false } := by
    refine ⟨rfl, hs.queue, hs.cancelled, hs.main, fun j _ => ?_⟩
    by_cases hj : j = first
    · subst hj
      exact .inl hs.top
    · exact .inr (hs.starting j hj)
  obtain ⟨t, hjoined, ht⟩ := join_all cfg hleaving (Nat.zero_le n)
  have hlast : step cfg t .join = some { t with producer := .merging cfg.merge_plan } := by
    simp [step, mover, main_step, ht.producer]
  obtain ⟨u, hmerged, hup, huidle⟩ := merge_all cfg cfg.merge_plan
    (s := { t with producer := .merging cfg.merge_plan }) rfl (by rw [ht.main]; rfl)
  have hdone : step cfg u .main_done = some { u with producer := .imported } := by
    simp [step, mover, main_step, hup, huidle]
  have hindex : step cfg { u with producer := .imported } (.index true)
      = some { u with producer := .returned true } := by
    simp [step, mover, main_step]
  exact ⟨_, (((Lts.Reaches.single _ hstart).trans hfed).trans
    ((Lts.Reaches.single _ hover).trans hjoined)).trans
    (((Lts.Reaches.single _ hlast).trans hmerged).trans
      ((Lts.Reaches.single _ hdone).trans (.single _ hindex))), rfl⟩

end Pool

end SnapshotEtl
