/-
The gate of the INSERTs: the semaphore that all workers of an import share.

A sink finalizes an INSERT behind a permit, which it holds until ClickHouse has answered,
and a worker that panics drops the one it has. There are as many permits as workers, up to
`MAX_INSERT_CONCURRENCY`; the sinks of the calling thread have no gate. The pool behind
its gate makes the steps of `Pool.step`, each commit with a permit: so no more INSERTs are
finalized at once than there are permits, no worker of a pool of four or fewer waits for
one, and the gate keeps no import from its end.
-/
import SnapshotEtl.PoolProgress
import SnapshotEtl.Lib.Gate

set_option autoImplicit false

namespace SnapshotEtl

open Lib

def MAX_INSERT_CONCURRENCY : ℕ := 4

def insert_concurrency (workers : ℕ) : ℕ := min workers MAX_INSERT_CONCURRENCY

namespace Pool

variable {n : ℕ} {cfg : ImportConfig}

/-- A worker has an INSERT to finalize. -/
def at_gate (s : Pool n) (i : Fin n) : Bool :=
  (s.worker i).phase.is_executing && !(s.worker i).exec.commits.isEmpty

/-- `force_commit_with_gate` and `end_with_gate`: a commit is made with a permit, which is
dropped with the answer, and with a panic. -/
def insert_gate (n : ℕ) : Gate (Pool n) (PoolLabel n) (Fin n) where
  capacity := insert_concurrency n
  at_gate := at_gate
  guards
    | .commit i _ => some i
    | _ => none
  frees
    | .commit i _ | .panic i => some i
    | _ => none

/-- A step of the pool behind its gate. -/
def gated_step (cfg : ImportConfig) :
    Gated (Pool n) (Fin n) → GateLabel (PoolLabel n) (Fin n) → Option (Gated (Pool n) (Fin n)) :=
  Gated.step (insert_gate n) (step cfg)

/-! ## A worker at the gate -/

theorem at_gate_iff {s : Pool n} {i : Fin n} : s.at_gate i = true ↔
    (s.worker i).phase.is_executing = true ∧ (s.worker i).exec.commits ≠ [] := by
  simp [at_gate]

/-- It goes through, or panics. -/
theorem frees_of_at_gate {s s' : Pool n} {i : Fin n} {l : PoolLabel n}
    (h : s.worker_step cfg i l = some s') (hmover : mover l = some i)
    (hgate : s.at_gate i = true) : (insert_gate n).frees l = some i := by
  obtain ⟨hexec, hcommits⟩ := at_gate_iff.mp hgate
  have hbusy : (s.worker i).exec.commits.isEmpty = false := by simpa using hcommits
  -- every other label asks for another phase, or for no commits
  cases l with
  | commit j reply => exact hmover
  | panic j => exact hmover
  | call j now =>
      simp only [worker_step, hexec, if_true, Option.map_eq_some_iff] at h
      obtain ⟨exec, hcall, -⟩ := h
      exact absurd (Exec.call_short hcall).1 hcommits
  | write_error j =>
      simp only [worker_step, Option.ite_none_right_eq_some] at h
      obtain ⟨⟨-, hwrites⟩, -⟩ := h
      unfold Exec.writes at hwrites
      split at hwrites
      · next hnone _ => exact absurd hnone hcommits
      · cases hwrites
  | done j =>
      simp only [worker_step, Option.ite_none_right_eq_some] at h
      obtain ⟨hidle, -⟩ := h
      simp [Exec.idle, hbusy] at hidle
  | recv j =>
      simp only [worker_step] at h
      split at h
      · next hphase _ =>
          rw [hphase] at hexec
          cases hexec
      · cases h
  | start j ok | poll j | recv_timeout j | recv_disconnected j | close j =>
      simp only [worker_step, Option.ite_none_right_eq_some] at h
      rcases WorkerPhase.executing_cases hexec with hp | hp | hp <;> simp [hp] at h
  | _ => cases hmover

theorem insert_gate_lawful (cfg : ImportConfig) : (insert_gate n).Lawful (step cfg) where
  guarded {s l s' i} h hguards := by
    cases l with
    | commit j reply =>
        obtain rfl := Option.some.inj hguards
        have hcommit : s.worker_step cfg j (.commit j reply) = some s' := h
        simp only [worker_step, Option.ite_none_right_eq_some, Option.map_eq_some_iff] at hcommit
        obtain ⟨hexec, made, hmade, -⟩ := hcommit
        refine at_gate_iff.mpr ⟨hexec, fun hnone => ?_⟩
        simp [Exec.commit, hnone] at hmade
    | _ => cases hguards
  freed {l i} hguards := by
    cases l with
    | commit j reply => exact hguards
    | _ => cases hguards
  stays {s l s' i} h hgate hfrees := by
    unfold step at h
    split at h
    · next j hmover =>
        -- another worker moves, and this one still waits
        have hother : i ≠ j := by
          rintro rfl
          exact hfrees (frees_of_at_gate h hmover hgate)
        change s'.at_gate i = true
        rw [at_gate, (worker_step_spec h).frame.1 i hother]
        exact hgate
    · change s'.at_gate i = true
      rw [at_gate, (main_step_spec h).frame.1]
      exact hgate

/-- Whoever is at the gate can be let through, and ClickHouse can take the rows. -/
theorem exists_prompt_commit (cfg : ImportConfig) {s : Pool n} {i : Fin n}
    (hgate : s.at_gate i = true) :
    ∃ l s', (insert_gate n).guards l = some i ∧ s.prompt_step cfg l = some s' := by
  obtain ⟨hexec, hcommits⟩ := at_gate_iff.mp hgate
  obtain ⟨exec, db, hcommit, -⟩ := (s.worker i).exec.exists_commit s.db hcommits
  have hstep : s.step cfg (.commit i .ok)
      = some { s.set_worker i { s.worker i with exec } with db } := by
    simp [step, mover, worker_step, hexec, hcommit]
  exact ⟨.commit i .ok, _, rfl, prompt_step_eq_some.mpr ⟨⟨rfl, rfl⟩, hstep⟩⟩

/-! ## Imports behind the gate -/

section Runs

variable {stream : List StreamItem} {db₀ : Db} {g : Gated (Pool n) (Fin n)}
  {labels : List (GateLabel (PoolLabel n) (Fin n))}

/-- **The gate bounds the INSERTs.** However an import behind the gate is scheduled and
whatever fails or panics, its permits are all free or with workers that are finalizing an
INSERT, at most four of them; no worker of a pool of up to four waits for one; and it is
an import that `Pool.step` allows. -/
theorem insert_gate_bounds (cfg : ImportConfig) (stream : List StreamItem) (db₀ : Db)
    (hrun : Lts.run (gated_step cfg) (.init (insert_gate n) (init stream db₀)) labels = some g) :
    g.holders.card ≤ MAX_INSERT_CONCURRENCY ∧
      g.permits + g.holders.card = insert_concurrency n ∧
      (∀ i ∈ g.holders, g.state.at_gate i = true) ∧
      (n ≤ MAX_INSERT_CONCURRENCY → ∀ i, i ∉ g.holders → 0 < g.permits) ∧
      Lts.run (step cfg) (init stream db₀) (labels.filterMap GateLabel.base?) = some g.state := by
  have hg := Gated.Conserved.run (insert_gate_lawful cfg) hrun
  have htotal : g.permits + g.holders.card = min n MAX_INSERT_CONCURRENCY := hg.total
  refine ⟨by omega, hg.total, hg.at_gate, fun hn i hi => hg.free ?_ hi, Gated.run_base hrun⟩
  change _ ≤ min n MAX_INSERT_CONCURRENCY
  rw [Fintype.card_fin]
  omega

/-- **The gate keeps no import from its end.** From wherever a schedule has led it, the
call behind the gate can return by steps that are answered and wait for nobody: `Ok` with
all of the stream stored where nothing had failed, and an error where something had. -/
theorem gated_returns_from_anywhere (cfg : ImportConfig) (hn : 0 < n) (stream : List StreamItem)
    (db₀ : Db)
    (hrun : Lts.run (gated_step cfg) (.init (insert_gate n) (init stream db₀)) labels = some g) :
    ∃ ok g', Lts.Reaches (Gated.step (insert_gate n) (prompt_step cfg)) g g' ∧
      g'.state.producer = .returned ok ∧ (ok = true ↔ ¬Failed g.state) ∧
      (ok = true → cfg.Complete (cfg.ops (delivered stream)) db₀ g'.state.totals g'.state.shared
        g'.state.db) := by
  have hg := Gated.Conserved.run (insert_gate_lawful cfg) hrun
  have hbare := Gated.run_base hrun
  have hlive : Live g.state :=
    Lts.invariant (fun _ _ _ hs h => hs.step h) (live_init stream db₀) hbare
  -- prompt steps are steps of the pool, so the gate is lawful for them
  have hprompt : (insert_gate n).Lawful (prompt_step cfg) :=
    (insert_gate_lawful cfg).mono fun _ _ _ h => (prompt_step_eq_some.mp h).2
  have hcapacity : 0 < (insert_gate n).capacity := by
    change 0 < min n MAX_INSERT_CONCURRENCY
    unfold MAX_INSERT_CONCURRENCY
    omega
  obtain ⟨g', hreach, -, ⟨hlive', hfailed⟩, hrank⟩ :=
    Gated.reaches_of_rank (P := fun s : Pool n => Live s ∧ (Failed s ↔ Failed g.state)) (rank cfg)
      hprompt hcapacity (fun _ _ _ hs hrank h => prompt_step_pays hn hs hrank h)
      (fun _ _ hrank => exists_prompt_step cfg hn hrank)
      (fun _ _ _ hgate => exists_prompt_commit cfg hgate) hg ⟨hlive, Iff.rfl⟩
  obtain ⟨ok, hreturned, hok⟩ := returned_of_rank hlive' hrank
  refine ⟨ok, g', hreach, hreturned, by rw [hok, hfailed], fun htrue => ?_⟩
  subst htrue
  exact complete_of_prompt hn hbare (Gated.reaches_base hreach) hreturned

end Runs

/-- Both workers of `two_workers` at their last INSERT, the second with a permit. -/
def finalizing : List (GateLabel (PoolLabel 2) (Fin 2)) :=
  (two_workers.take 33).map .base ++ [.acquire second]

theorem finalizing_run : ∃ g, Lts.run (gated_step
      (insert_all_config .accept_nothing (fun _ => 0) .Active .Full 1 ∅))
      (.init (insert_gate 2) (init [.ok one_account, .ok one_account] fun _ => .truncated))
      finalizing = some g ∧
    g.permits = 1 ∧ g.holders = {second} ∧ g.state.producer = .joining 0 false ∧
      ∀ i, (g.state.worker i).phase = .ending := by
  have hrun : (Lts.run (gated_step
      (insert_all_config .accept_nothing (fun _ => 0) .Active .Full 1 ∅))
      (.init (insert_gate 2) (init [.ok one_account, .ok one_account] fun _ => .truncated))
      finalizing).map (fun g => (g.permits, g.holders, g.state.producer,
        (g.state.worker first).phase, (g.state.worker second).phase))
      = some (1, {second}, .joining 0 false, .ending, .ending) := by decide +kernel
  obtain ⟨g, hg, hstate⟩ := Option.map_eq_some_iff.mp hrun
  simp only [Prod.mk.injEq] at hstate
  obtain ⟨hpermits, hholders, hproducer, hfirst, hsecond⟩ := hstate
  exact ⟨g, hg, hpermits, hholders, hproducer, Fin.forall_fin_two.mpr ⟨hfirst, hsecond⟩⟩

theorem insert_gate_bounds_finalizing : ∃ g : Gated (Pool 2) (Fin 2),
    g.holders = {second} ∧ g.state.at_gate second = true ∧ 0 < g.permits := by
  obtain ⟨g, hrun, -, hholders, -, -⟩ := finalizing_run
  obtain ⟨-, -, hgate, hfree, -⟩ := insert_gate_bounds _ _ _ hrun
  exact ⟨g, hholders, hgate second (by simp [hholders]),
    hfree (by decide) first (by rw [hholders]; decide)⟩

theorem gated_returns_from_anywhere_finalizing : ∃ g g' : Gated (Pool 2) (Fin 2),
    g.holders = {second} ∧ Lts.Reaches (Gated.step (insert_gate 2)
      (prompt_step (insert_all_config .accept_nothing (fun _ => 0) .Active .Full 1 ∅))) g g' ∧
      g'.state.producer = .returned true := by
  obtain ⟨g, hrun, -, hholders, hproducer, hphase⟩ := finalizing_run
  have hsound : ¬Failed g.state := by
    rintro (⟨i, hi⟩ | hret | ⟨next, hnext⟩)
    · simp [hphase i] at hi
    · simp [hproducer] at hret
    · simp [hproducer] at hnext
  obtain ⟨ok, g', hreach, hreturned, hok, -⟩ :=
    gated_returns_from_anywhere _ (by decide) _ _ hrun
  obtain rfl := hok.mpr hsound
  exact ⟨g, g', hholders, hreach, hreturned⟩

end Pool

end SnapshotEtl
