/-
What the watcher never does wrong from its own point of view, and what it takes
for having nothing to do.

Every call the process makes is an allowed one, so an internal-consistency error,
which is never allowed, is never made; and the call to sleep carries what the
turn found on its way there. What it found is not all there is: a staging lane
that waits for its first incremental keeps the watcher from looking at a newer
full, and a loop that goes by an older slot than the journal from looking at an
incremental that continues the journal's.
-/
import SnapshotEtl.Watcher.Machine

set_option autoImplicit false

namespace SnapshotEtl.Watcher

open Lib

variable {state_path : String} {m : Machine}

/-! ## Internal consistency -/

/-- **No internal-consistency error is raised in any run**, by the process or by
the thread it may have. -/
theorem no_inconsistency_raised (h : Reachable state_path m) (e : Inconsistency) :
    m.asks ≠ some (.raise e) ∧ m.thread_asks ≠ some (.raise e) :=
  ⟨fun hc => (sound_of_reachable h).allowed_any (.inl hc),
    fun hc => (sound_of_reachable h).allowed_any (.inr hc)⟩

/-- The loading of a full at slot 10, and a listing that has a newer one. -/
def overlooking : List Label :=
  first_start 0 {"a"} "d/solana-snapshot-etl-hot-mints-1.1.txt" ["a"] ++
    bind_full [⟨"full-10", 10⟩] {"a"} "d/solana-snapshot-etl-hot-mints-1.2.txt" ["a"] ++
    load_full [⟨"full-10", 10⟩] ++ settle ++ listing [] [⟨"full-10", 10⟩, ⟨"full-20", 20⟩]

/-- The turn has come to its sleep with a listed full newer than the active lane. -/
def asks_sleep_before_newer (asks : Option Call) : Bool :=
  match asks with
  | some (.sleep s _ _ fulls) => s.active.max_slot = some 10 && fulls.any (10 < ·.slot)
  | _ => false

theorem overlooking_sleeps : ∃ m s active_slot incrementals fulls,
    Lts.run (step "d/state.json") (.initial []) overlooking = some m ∧
      m.asks = some (.sleep s active_slot incrementals fulls) ∧
      m.world.process.staging_build = false ∧ m.world.process.staging_incremental = false ∧
      s.active.max_slot = some 10 ∧ ∃ snapshot ∈ fulls, 10 < snapshot.slot := by
  have hrun : ((Lts.run (step "d/state.json") (.initial []) overlooking).map fun m =>
      !m.world.process.staging_build && !m.world.process.staging_incremental &&
        asks_sleep_before_newer m.asks) = some true := by
    decide +kernel
  obtain ⟨m, hrun, hfinal⟩ := Option.map_eq_some_iff.mp hrun
  simp only [Bool.and_eq_true, Bool.not_eq_true'] at hfinal
  obtain ⟨⟨hbuild, hincremental⟩, hasks⟩ := hfinal
  unfold asks_sleep_before_newer at hasks
  split at hasks
  next s active_slot incrementals fulls hsleep =>
    simp only [Bool.and_eq_true, decide_eq_true_eq, List.any_eq_true] at hasks
    exact ⟨m, s, active_slot, incrementals, fulls, hrun, hsleep, hbuild, hincremental, hasks⟩
  next => cases hasks

theorem no_inconsistency_raised_overlooking : ∃ m,
    Lts.run (step "d/state.json") (.initial []) overlooking = some m ∧
      m.asks ≠ some (.raise .ready_staging_without_max_slot) ∧
      m.thread_asks ≠ some (.raise .ready_staging_without_max_slot) := by
  obtain ⟨m, -, -, -, -, hrun, -⟩ := overlooking_sleeps
  exact ⟨m, hrun, no_inconsistency_raised ⟨[], overlooking, hrun⟩ _⟩

/-! ## Sleeping -/

/-- Nothing listed can move active on from this slot. -/
def NothingAdvances (slot : Slot) (incrementals : List IncrementalSnapshot)
    (fulls : List FullSnapshot) : Prop :=
  (∀ snapshot ∈ incrementals, ¬ Continues slot snapshot) ∧ ∀ snapshot ∈ fulls, snapshot.slot ≤ slot

/-- Staging waits for its first incremental while a full beyond the slot is
listed, or the loop goes by another slot and so takes no incremental that
continues this one. -/
def Overlooks (s : WatcherState) (slot active_slot : Slot)
    (incrementals : List IncrementalSnapshot) (fulls : List FullSnapshot) : Prop :=
  (s.staging.phase = .Ready ∧ ∃ snapshot ∈ fulls, slot < snapshot.slot) ∨
    ∃ snapshot ∈ incrementals, Continues slot snapshot ∧ ¬ Continues active_slot snapshot

/-- **The watcher sleeps with nothing to advance active unless it overlooks it**:
with no staging worker running, a listing it sleeps on holds no archive beyond
active's slot, but for a full that a waiting staging lane keeps it from binding
and an incremental that its own slot is too old for. -/
theorem nothing_advances_iff (h : Reachable state_path m) {s : WatcherState}
    {slot active_slot : Slot} {incrementals : List IncrementalSnapshot} {fulls : List FullSnapshot}
    (hsleep : m.asks = some (.sleep s active_slot incrementals fulls))
    (hbuild : m.world.process.staging_build = false)
    (hincremental : m.world.process.staging_incremental = false)
    (hslot : s.active.max_slot = some slot) :
    NothingAdvances slot incrementals fulls ↔
      ¬ Overlooks s slot active_slot incrementals fulls := by
  have hidle : Idle m.world s active_slot incrementals fulls :=
    (sound_of_reachable h).allowed hsleep
  constructor
  · rintro ⟨hincrementals, hfulls⟩ (⟨-, snapshot, hmem, hbeyond⟩ | ⟨snapshot, hmem, hcontinues, -⟩)
    · exact absurd (hfulls snapshot hmem) (Nat.not_le.mpr hbeyond)
    · exact hincrementals snapshot hmem hcontinues
  · intro hnot
    refine ⟨fun snapshot hmem hcontinues => ?_, fun snapshot hmem => ?_⟩
    · exact hnot (.inr ⟨snapshot, hmem, hcontinues, hidle.incrementals snapshot hmem⟩)
    · rcases hidle.staging hbuild hincremental with hdisabled | hready
      · exact hidle.fulls hdisabled slot hslot snapshot hmem
      · exact Nat.not_lt.mp fun hbeyond => hnot (.inl ⟨hready, snapshot, hmem, hbeyond⟩)

theorem nothing_advances_iff_overlooking : ∃ m s active_slot incrementals fulls,
    Lts.run (step "d/state.json") (.initial []) overlooking = some m ∧
      m.asks = some (.sleep s active_slot incrementals fulls) ∧
      (NothingAdvances 10 incrementals fulls ↔
        ¬ Overlooks s 10 active_slot incrementals fulls) := by
  obtain ⟨m, s, active_slot, incrementals, fulls, hrun, hsleep, hbuild, hincremental, hslot, -⟩ :=
    overlooking_sleeps
  exact ⟨m, s, active_slot, incrementals, fulls, hrun, hsleep,
    nothing_advances_iff ⟨[], overlooking, hrun⟩ hsleep hbuild hincremental hslot⟩

/-- It sleeps on a full beyond active's slot, with no staging worker running. -/
theorem sleeps_before_newer_full : ∃ m s active_slot incrementals fulls slot,
    Reachable "d/state.json" m ∧ m.asks = some (.sleep s active_slot incrementals fulls) ∧
      m.world.process.staging_build = false ∧ m.world.process.staging_incremental = false ∧
      s.active.max_slot = some slot ∧ ¬ NothingAdvances slot incrementals fulls := by
  obtain ⟨m, s, active_slot, incrementals, fulls, hrun, hsleep, hbuild, hincremental, hslot,
    snapshot, hmem, hbeyond⟩ := overlooking_sleeps
  exact ⟨m, s, active_slot, incrementals, fulls, 10, ⟨[], overlooking, hrun⟩, hsleep, hbuild,
    hincremental, hslot, fun h => absurd (h.2 snapshot hmem) (Nat.not_le.mpr hbeyond)⟩

end SnapshotEtl.Watcher
