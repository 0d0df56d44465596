/-
What a pool still does once its call has returned.

The join loop walks the handles in order and leaves at the first worker that
failed, without joining the later ones: those are detached and go on committing.
So a returned call is quiet exactly as far as the workers behind the one it left
at had stopped by then. `orderly` is that condition on a step; along a run that
meets it a returned pool is at a standstill, and an import that is retried runs
alone on the tables it truncated.
-/
import SnapshotEtl.Pool

set_option autoImplicit false

namespace SnapshotEtl

open Lib

/-- The calls that have left their join loop at its end. -/
def Producer.past_join : Producer → Bool
  | .merging _ | .imported | .returned true => true
  | _ => false

namespace Pool

variable {n : ℕ} {cfg : ImportConfig}

/-! ## What has been joined -/

/-- The workers the join loop is past have returned their statistics. -/
structure Joined (s : Pool n) : Prop where
  before : ∀ next producer_error, s.producer = .joining next producer_error →
    ∀ i : Fin n, i.val < next → (s.worker i).phase = .stopped .ok
  all : s.producer.past_join = true → ∀ i, (s.worker i).phase = .stopped .ok

theorem joined_init (stream : List StreamItem) (db : Db) : Joined (init stream db : Pool n) where
  before next e h := by simp [init] at h
  all h := by simp [init, Producer.past_join] at h

/-- Steps of a worker move no joined worker: those have returned. -/
theorem Joined.worker {s s' : Pool n} {i : Fin n} (hs : Joined s)
    (h : WorkerStep cfg s i s') : Joined s' := by
  obtain ⟨hothers, hproducer, -, -⟩ := h.frame
  have hrunning := h.running
  have hne : ∀ j, (s.worker j).phase = .stopped .ok → j ≠ i := by
    rintro j hj rfl
    simp [hj, WorkerPhase.is_stopped] at hrunning
  constructor
  · intro next e hp j hj
    rw [hproducer] at hp
    have hok := hs.before next e hp j hj
    rw [hothers j (hne j hok)]
    exact hok
  · intro hp j
    rw [hproducer] at hp
    have hok := hs.all hp j
    rw [hothers j (hne j hok)]
    exact hok

/-- A step of the main thread keeps the joined workers stopped. -/
theorem Joined.main {s s' : Pool n} (hs : Joined s) (h : MainStep cfg s s') : Joined s' := by
  cases h with
  | joined next e hp hnext hphase =>
      refine ⟨fun next' e' hp' i hi => ?_, fun h => by simp [Producer.past_join] at h⟩
      obtain ⟨rfl, -⟩ : next + 1 = next' ∧ e = e' := by simpa using hp'
      -- the workers joined before, and the one joined now
      by_cases hlt : i.val < next
      · exact hs.before next e hp i hlt
      · obtain rfl : i = ⟨next, hnext⟩ := by
          apply Fin.ext
          show i.val = next
          omega
        exact hphase
  | all_joined next hp hnext =>
      refine ⟨fun _ _ hp' => by simp at hp', fun _ i => ?_⟩
      exact hs.before next false hp i (by have := i.isLt; omega)
  | loaded _ _ _ hp _ =>
      exact ⟨fun _ _ hp' => by simp at hp', fun _ => hs.all (by rw [hp]; rfl)⟩
  | called plan _ _ hp _ =>
      exact ⟨fun _ _ hp' => by simp [hp] at hp', fun _ => hs.all (by rw [hp]; rfl)⟩
  | stored plan _ _ _ hp _ =>
      exact ⟨fun _ _ hp' => by simp [hp] at hp', fun _ => hs.all (by rw [hp]; rfl)⟩
  | merged hp _ =>
      exact ⟨fun _ _ hp' => by simp at hp', fun _ => hs.all (by rw [hp]; rfl)⟩
  | indexed ok hp =>
      exact ⟨fun _ _ hp' => by simp at hp', fun _ => hs.all (by rw [hp]; rfl)⟩
  | stream_over => exact ⟨fun next e hp' i hi => by simp at hp'; omega,
      fun h => by simp [Producer.past_join] at h⟩
  | gave_up => exact ⟨fun next e hp' i hi => by simp at hp'; omega,
      fun h => by simp [Producer.past_join] at h⟩
  | _ => exact ⟨fun _ _ hp' => by simp at hp', fun h => by simp [Producer.past_join] at h⟩

/-- Every step keeps the joined workers stopped. -/
theorem Joined.step {s s' : Pool n} {l : PoolLabel n} (hs : Joined s)
    (h : s.step cfg l = some s') : Joined s' := by
  rcases step_cases h with ⟨i, hw⟩ | hm
  · exact hs.worker hw
  · exact hs.main hm

/-! ## Returning at a failed worker -/

/-- If the step makes the join loop leave at a failed worker, the workers after
that one have stopped. -/
def orderly (s : Pool n) : PoolLabel n → Bool
  | .join =>
      match s.producer with
      | .joining next _ => decide (∀ i j : Fin n, i.val = next →
          (s.worker i).phase = .stopped .err ∨ (s.worker i).phase = .stopped .panicked →
            i < j → (s.worker j).phase.is_stopped = true)
      | _ => true
  | _ => true

/-- In an orderly join every later worker has stopped when an error is found. -/
theorem orderly_join {s : Pool n} {next : ℕ} {producer_error : Bool}
    (hp : s.producer = .joining next producer_error) (h : s.orderly .join = true) (i j : Fin n)
    (hi : i.val = next)
    (hfailed : (s.worker i).phase = .stopped .err ∨ (s.worker i).phase = .stopped .panicked)
    (hij : i < j) : (s.worker j).phase.is_stopped = true := by
  simp only [orderly, hp, decide_eq_true_eq] at h
  exact h i j hi hfailed hij

/-- A returned call has left no worker running. -/
structure Quiet (s : Pool n) : Prop where
  joined : Joined s
  returned : ∀ ok, s.producer = .returned ok → ∀ i, (s.worker i).phase.is_stopped = true

theorem quiet_init (stream : List StreamItem) (db : Db) : Quiet (init stream db : Pool n) :=
  ⟨joined_init stream db, fun ok h => by simp [init] at h⟩

/-- Only the join loop's own step moves it. -/
theorem label_of_joining {s s' : Pool n} {l : PoolLabel n} {next : ℕ} {producer_error : Bool}
    (hp : s.producer = .joining next producer_error) (h : s.main_step cfg l = some s') :
    l = .join := by
  cases l <;> simp [main_step, hp] at h ⊢

/-- An orderly step lets no call return before its workers have stopped. -/
theorem Quiet.step {s s' : Pool n} {l : PoolLabel n} (hs : Quiet s) (horderly : s.orderly l = true)
    (h : s.step cfg l = some s') : Quiet s' := by
  refine ⟨hs.joined.step h, ?_⟩
  unfold Pool.step at h
  split at h
  · next i _ =>
      -- a worker moves: it had not returned, so the call has not either
      have hw := worker_step_spec h
      intro ok hret
      rw [hw.frame.2.1] at hret
      have hstopped := hs.returned ok hret i
      rw [hw.running] at hstopped
      cases hstopped
  · have hm := main_step_spec h
    have hall : s.producer.past_join = true → ∀ i, (s.worker i).phase.is_stopped = true :=
      fun hpast i => by rw [hs.joined.all hpast i]; rfl
    intro ok hret
    rw [hm.frame.1]
    cases hm with
    | join_failed next e hp hnext result hphase hresult =>
        obtain rfl := label_of_joining hp h
        intro i
        rcases lt_trichotomy i.val next with hlt | heq | hgt
        · rw [hs.joined.before next e hp i hlt]
          rfl
        · obtain rfl : i = ⟨next, hnext⟩ := Fin.ext heq
          rw [hphase]
          rfl
        · refine orderly_join hp horderly ⟨next, hnext⟩ i rfl ?_ hgt
          cases result <;> simp_all
    | rejected next hp hnext =>
        intro i
        rw [hs.joined.before next true hp i (by have := i.isLt; omega)]
        rfl
    | merge_failed plan _ _ hp => exact hall (by rw [hp]; rfl)
    | indexed _ hp => exact hall (by rw [hp]; rfl)
    | called plan _ _ hp => simp [hp] at hret
    | stored plan _ _ _ hp => simp [hp] at hret
    | _ => simp at hret

/-- A returned pool that is quiet is at a standstill. -/
theorem Quiet.no_step {s : Pool n} (hs : Quiet s) {ok : Bool} (hp : s.producer = .returned ok)
    (l : PoolLabel n) : s.step cfg l = none := by
  cases h : s.step cfg l with
  | none => rfl
  | some s' =>
      rcases step_cases h with ⟨i, hw⟩ | hm
      · have hstopped := hs.returned ok hp i
        rw [hw.running] at hstopped
        cases hstopped
      · exact absurd hp (hm.running ok)

end Pool

/-! ## A call that returned too early -/

/-- A storage with one account of the system program. -/
def one_account : AppendVec where
  slot := 1
  id := 0
  len := 136
  accounts := [⟨⟨0, .of_be 1⟩, ⟨1, .default, false⟩, []⟩]

/-- The fan-out of a full at slot 1 with no hot mint on either lane. -/
def cold_fanout : ImportConfig :=
  import_full_snapshot_fanout_config .accept_nothing (fun _ => 0) ⟨1, 0, ∅, ∅⟩

open Pool (first second)

/-- The second worker takes the only storage; the first cannot build its runtime, and the
join loop leaves at it. -/
def leave_at_first : List (PoolLabel 2) :=
  [.start second true, .poll second, .feed, .check_cancelled, .send_timeout, .recv second, .feed,
    .start first false, .join]

/-- The detached worker parses the storage and finalizes its INSERT. -/
def detached_flush : List (PoolLabel 2) :=
  List.replicate 7 (.call second 0) ++
    [.done second, .poll second, .recv_disconnected second, .close second, .call second 0,
      .commit second .ok]

/-- A fan-out that has returned its error stores another row in `_bak`. -/
theorem fanout_writes_after_return :
    ∃ s s' : Pool 2,
      Lts.run (Pool.step cold_fanout) (.init [.ok one_account] fun _ => .truncated) leave_at_first
          = some s ∧
        s.producer = .returned false ∧
        Lts.run (Pool.step cold_fanout) s detached_flush = some s' ∧
        s'.db ≠ s.db := by
  have hbefore : (Lts.run (Pool.step cold_fanout)
      (.init [.ok one_account] fun _ => .truncated : Pool 2)
      leave_at_first).map (fun s => (s.producer, (s.db .Backup).raw_account.length))
        = some (.returned false, 0) := by decide +kernel
  have hafter : (Lts.run (Pool.step cold_fanout)
      (.init [.ok one_account] fun _ => .truncated : Pool 2)
      (leave_at_first ++ detached_flush)).map (fun s => (s.db .Backup).raw_account.length)
        = some 1 := by decide +kernel
  obtain ⟨s, hs, hsp⟩ := Option.map_eq_some_iff.mp hbefore
  rw [Lts.run_append, hs, Option.bind_some] at hafter
  obtain ⟨s', hs', hlen⟩ := Option.map_eq_some_iff.mp hafter
  obtain ⟨hp, hzero⟩ := Prod.mk.inj hsp
  refine ⟨s, s', hs, hp, hs', fun hdb => ?_⟩
  rw [hdb, hzero] at hlen
  cases hlen

/-! ## Retried imports -/

/-- One call of an import: its configuration and its pool. -/
structure Attempt (n : ℕ) where
  cfg : ImportConfig
  pool : Pool n

/-- A process that retries a failed import: the calls that have returned, whose
threads may still run, and the current one, all on one database. -/
structure Attempts (n : ℕ) where
  db : Db
  past : List (Attempt n)
  current : Attempt n

/-- `retry` is the caller of a failed import truncating the backup group and
calling again, with the archive and the configuration it then chooses. -/
inductive AttemptsLabel (n : ℕ)
  | current (label : PoolLabel n)
  | past (k : ℕ) (label : PoolLabel n)
  | retry (cfg : ImportConfig) (stream : List StreamItem)

namespace Attempts

variable {n : ℕ}

/-- The pool of an attempt on the database as it is. -/
def on_db (a : Attempt n) (db : Db) : Pool n := { a.pool with db }

def init (cfg : ImportConfig) (stream : List StreamItem) (db : Db) : Attempts n :=
  ⟨db, [], ⟨cfg, .init stream db⟩⟩

/-- The backup group truncated. -/
def truncate_backup (db : Db) : Db := Function.update db .Backup .truncated

def step (s : Attempts n) : AttemptsLabel n → Option (Attempts n)
  | .current label =>
      ((on_db s.current s.db).step s.current.cfg label).map fun pool =>
        { s with db := pool.db, current := ⟨s.current.cfg, pool⟩ }
  | .past k label =>
      (s.past[k]?).bind fun a =>
        ((on_db a s.db).step a.cfg label).map fun pool =>
          { s with db := pool.db, past := s.past.set k ⟨a.cfg, pool⟩ }
  | .retry cfg stream =>
      if s.current.pool.producer = .returned false then
        some ⟨truncate_backup s.db, s.past ++ [s.current],
          ⟨cfg, .init stream (truncate_backup s.db)⟩⟩
      else none

/-- No join loop leaves at a failed worker while a later one is running. -/
def orderly (s : Attempts n) : AttemptsLabel n → Bool
  | .current label => s.current.pool.orderly label
  | .past k label => s.past[k]?.all fun a => a.pool.orderly label
  | .retry _ _ => true

/-- The current attempt is what it would be had it run alone: on tables whose
backup group was empty at its start, if it is a retry. -/
structure RunsAlone (s : Attempts n) : Prop where
  past : ∀ a ∈ s.past, a.pool.Quiet ∧ a.pool.producer = .returned false
  quiet : s.current.pool.Quiet
  alone : ∃ stream db labels, (s.past ≠ [] → db .Backup = .truncated) ∧
    Lts.run (Pool.step s.current.cfg) (.init stream db) labels = some (on_db s.current s.db)

/-- Being quiet does not depend on the tables. -/
theorem quiet_on {a : Attempt n} (db : Db) (h : a.pool.Quiet) : (on_db a db).Quiet :=
  ⟨⟨h.joined.before, h.joined.all⟩, h.returned⟩

/-- An orderly step leaves the current attempt alone on its tables. -/
theorem RunsAlone.step {s s' : Attempts n} {l : AttemptsLabel n} (hs : RunsAlone s)
    (horderly : s.orderly l = true) (h : s.step l = some s') : RunsAlone s' := by
  cases l with
  | current label =>
      simp only [Attempts.step, Option.map_eq_some_iff] at h
      obtain ⟨pool, hpool, rfl⟩ := h
      obtain ⟨stream, db, labels, hdb, hrun⟩ := hs.alone
      exact ⟨hs.past, (quiet_on s.db hs.quiet).step horderly hpool,
        stream, db, labels ++ [label], hdb, Lts.run_step _ hrun hpool⟩
  | past k label =>
      -- a past attempt is at a standstill
      simp only [Attempts.step, Option.bind_eq_some_iff, Option.map_eq_some_iff] at h
      obtain ⟨a, ha, pool, hpool, -⟩ := h
      obtain ⟨hquiet, hret⟩ := hs.past a (List.mem_of_getElem? ha)
      rw [(quiet_on s.db hquiet).no_step hret label] at hpool
      cases hpool
  | retry cfg stream =>
      simp only [Attempts.step, Option.ite_none_right_eq_some, Option.some.injEq] at h
      obtain ⟨hret, rfl⟩ := h
      refine ⟨fun a ha => ?_, Pool.quiet_init _ _, stream, truncate_backup s.db, [], ?_, rfl⟩
      · rcases List.mem_append.mp ha with ha | ha
        · exact hs.past a ha
        · rw [List.mem_singleton.mp ha]
          exact ⟨hs.quiet, hret⟩
      · intro _
        simp [truncate_backup]

/-- The first attempt has no other beside it. -/
theorem runs_alone_init (cfg : ImportConfig) (stream : List StreamItem) (db : Db) :
    RunsAlone (init cfg stream db : Attempts n) :=
  ⟨fun a ha => by simp [init] at ha, Pool.quiet_init _ _, stream, db, [],
    fun h => absurd rfl h, rfl⟩

/-- **No writes after return.** Along every run of a process whose join loops
leave at a failed worker only once the later workers have stopped: a call that
has returned performs no further step, on whatever database, and the attempt
under way is a run of its own that started on an empty backup group if anything
was tried before. -/
theorem no_writes_after_return (cfg : ImportConfig) (stream : List StreamItem) (db : Db)
    (labels : List (AttemptsLabel n)) (s : Attempts n)
    (horderly : Lts.Along step (fun s l => s.orderly l = true) (init cfg stream db) labels)
    (hrun : Lts.run step (init cfg stream db) labels = some s) :
    (∀ a ∈ s.past ++ [s.current], ∀ ok, a.pool.producer = .returned ok →
        ∀ db label, (on_db a db).step a.cfg label = none) ∧
      ∃ stream db labels, (s.past ≠ [] → db .Backup = .truncated) ∧
        Lts.run (Pool.step s.current.cfg) (.init stream db) labels
          = some (on_db s.current s.db) := by
  have hs : RunsAlone s :=
    Lts.invariant_along (fun _ _ _ => RunsAlone.step) (runs_alone_init cfg stream db)
      horderly hrun
  refine ⟨fun a ha ok hret db label => ?_, hs.alone⟩
  have hquiet : a.pool.Quiet := by
    rcases List.mem_append.mp ha with ha | ha
    · exact (hs.past a ha).1
    · rw [List.mem_singleton.mp ha]
      exact hs.quiet
  exact (quiet_on db hquiet).no_step hret label

/-- The second worker fails to start, then the first; the call returns and is retried. -/
def failed_then_retried : List (AttemptsLabel 2) :=
  [.current (.start second false), .current .feed, .current (.start first false), .current .join,
    .retry cold_fanout [], .current .feed]

/-- Two workers that cannot start, one after the other, and a second attempt. -/
theorem no_writes_after_return_retried :
    ∃ s : Attempts 2, s.past.length = 1 ∧
      (∀ a ∈ s.past ++ [s.current], ∀ ok, a.pool.producer = .returned ok →
          ∀ db label, (on_db a db).step a.cfg label = none) ∧
        ∃ stream db labels, (s.past ≠ [] → db .Backup = .truncated) ∧
          Lts.run (Pool.step s.current.cfg) (.init stream db) labels
            = some (on_db s.current s.db) := by
  have hend : (Lts.run step (init cold_fanout [] fun _ => .truncated) failed_then_retried).map
      (fun s => s.past.length) = some 1 := by decide +kernel
  obtain ⟨s, hs, hlen⟩ := Option.map_eq_some_iff.mp hend
  exact ⟨s, hlen, no_writes_after_return cold_fanout [] (fun _ => .truncated) _ s
    (Lts.along_of_check (by decide +kernel)) hs⟩

end Attempts

end SnapshotEtl
