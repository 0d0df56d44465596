/-
What the watcher never destroys: the tables it serves from, and the mint files
its journal names.

Both come from the calls that are allowed. Only the backup group is ever emptied,
while a shared full is checkpointed; only a managed file that no lane of the
journal names is ever removed. For the tables a crash is a kill of the process, and
the journal writes are taken to succeed or to stop the process. For the files the
disk may also lose power, and with it whatever was renamed or removed since the
directory was last synced.
-/
import SnapshotEtl.Watcher.Effects

set_option autoImplicit false

namespace SnapshotEtl.Watcher

open Lib
open HotMintFiles (hot_mints_text)

variable {state_path : String} {m m' : Machine}

/-! ## The serving tables -/

/-- A journal write succeeds, unless the process stops in it. -/
def writes_hold (m : Machine) : Label → Bool
  | .reply o => match m.asks, o with
      | some (.persist_watcher_state _), .ok => true
      | some (.persist_watcher_state _), _ => false
      | _, _ => true
  | _ => true

theorem ok_of_writes_hold {o : Outcome} {s : WatcherState} (h : writes_hold m (.reply o) = true)
    (hc : m.asks = some (.persist_watcher_state s)) : o = .ok := by
  unfold writes_hold at h
  rw [hc] at h
  cases o with
  | ok => rfl
  | _ => cases h

/-- Then no write that failed is behind the process. -/
theorem kept_unfailed : Kept state_path (fun m l => writes_hold m l = true)
    fun w => w.process.failed = none where
  start := fun _ _ _ => rfl
  stopped := fun _ => rfl
  killed := fun _ _ _ _ _ => rfl
  reply := by
    intro m c o a w _ hP hc hcond hr
    by_cases hpersist : ∃ s, c = .persist_watcher_state s
    · obtain ⟨s, rfl⟩ := hpersist
      obtain rfl := ok_of_writes_hold hcond hc
      change some (some (), m.world.persisted s) = some (a, w) at hr
      obtain ⟨-, rfl⟩ := Prod.mk.inj (Option.some.inj hr)
      rfl
    · cases effect_of_respond hr with
      | quiet hsame => exact hsame.failed.trans hP
      | loaded => rfl
      | @persisted s => exact absurd ⟨s, rfl⟩ hpersist
      | @renamed s => exact absurd ⟨s, rfl⟩ hpersist
      | @unwritten s => exact absurd ⟨s, rfl⟩ hpersist
      | truncated => exact hP
      | exchanged => exact hP
      | begun hsame => exact hsame.failed.trans hP
      | begun_shared hsame => exact hsame.failed.trans hP
      | begun_staging hsame => exact hsame.failed.trans hP
      | completed groups hsame => exact hsame.failed.trans hP

/-- The archives imported into a table since it was last emptied. -/
def World.archives (w : World) (base : GroupTable) (g : Generation) : List WatchedSnapshot :=
  (w.records base g).imports.map Import.archive

/-- An allowed call takes nothing out of the tables under the suffix-free names. -/
theorem respond_keeps_serving {w w' : World} {c : Call} {o : Outcome} {a : Answer c}
    (hc : Allowed state_path w c) (h : w.respond c o = some (a, w')) (base : GroupTable) :
    w.archives base (w.tables base) <:+ w'.archives base (w.tables base) := by
  have hstart : ∀ (w : World) (group : TableGroup) (i : Import) (g : Generation),
      w.archives base g <:+ (w.start_import group i).archives base g := by
    intro w group i g
    unfold World.archives
    rcases start_import_records w group i base g with ⟨-, heq⟩ | ⟨-, heq⟩
    · rw [heq]
    · rw [heq]
      exact List.suffix_cons _ _
  cases effect_of_respond h with
  | quiet hsame htables hrecords =>
      unfold World.archives
      rw [hrecords]
  | loaded => exact List.suffix_refl _
  | persisted => exact List.suffix_refl _
  | renamed => exact List.suffix_refl _
  | unwritten => exact List.suffix_refl _
  | exchanged => exact List.suffix_refl _
  | @truncated group bases =>
      -- only the backup may be emptied
      obtain ⟨rfl, -⟩ := hc
      unfold World.archives
      rcases truncate_records w .Backup bases base (w.tables base) with heq | ⟨hg, -⟩
      · rw [heq]
      · exact absurd hg.symm (Generation.other_ne _)
  | @begun group i _ hsame htables hrecords =>
      rw [World.archives, World.archives, hrecords]
      exact hstart w group i _
  | @begun_shared staging active slot _ hsame htables hrecords =>
      rw [World.archives, World.archives, hrecords]
      exact (hstart w .Backup staging _).trans (hstart (w.start_import .Backup staging) .Active _ _)
  | @begun_staging snapshot slot hot_mints _ hsame htables hrecords =>
      rw [World.archives, World.archives, hrecords]
      exact hstart w .Backup _ _
  | completed groups hsame htables hrecords =>
      unfold World.archives
      rw [hrecords, (completed_records groups w base _).2.map_eq Import.archive fun _ => rfl]

/-- Nor does a step. -/
theorem Sound.keeps_serving (h : Sound state_path m) {l : Label}
    (hstep : Watcher.step state_path m l = some m') (base : GroupTable) :
    m.world.archives base (m.world.tables base) <:+
      m'.world.archives base (m.world.tables base) := by
  generalize hw : m'.world = w
  cases hw ▸ h.moves hstep with
  | start => exact List.suffix_refl _
  | turn => exact List.suffix_refl _
  | exit => exact List.suffix_refl _
  | crash => exact List.suffix_refl _
  | reply hc hr => exact respond_keeps_serving (h.allowed hc) hr base
  | killed hc hr => exact respond_keeps_serving (h.allowed hc) hr base

/-- The journal on disk has staging load this full. -/
def Journaled (w : World) (full : FullSnapshotWatcherState) : Prop :=
  ∃ s, w.directory.journal = some s ∧ s.staging.phase = .FullLoading ∧
    s.staging.full_snapshot = some full

/-- Where the journal on disk shares a full, staging loads it. -/
theorem journaled_of_shared {w : World} (hw : Inv w) {s : WatcherState}
    {shared : SharedFullLoadWatcherState} (hs : Settled w s)
    (hshared : s.shared_full_load = some shared) : Journaled w shared.snapshot := by
  obtain ⟨-, -, -, path, hlane⟩ := sharing_of_shared (hw.memory s hs.1).1 hshared
  exact ⟨s, hw.settled s hs, by rw [hlane]; rfl, by rw [hlane]; rfl⟩

/-- **The serving tables are never emptied, nor their merges stopped.** Every stop
of merges and every reset is the backup group's and comes while the journal on
disk has staging at full loading, the load that follows is of the full it names,
and no step takes anything out of a table under a suffix-free name. -/
theorem serving_never_emptied {files : List (String × List Char)} {labels : List Label}
    (halong : Lts.Along (step state_path) (fun m l => writes_hold m l = true)
      (.initial files) labels)
    (hrun : Lts.run (step state_path) (.initial files) labels = some m) :
    (∀ group c, c = .stop_group_merges group ∨ c = .reset_group group →
      m.asks = some c ∨ m.thread_asks = some c →
      group = .Backup ∧ ∃ full, Journaled m.world full) ∧
    (∀ staging active slot, m.asks = some (.begin_shared_import staging active slot) →
      ∃ snapshot, staging.archive = .Full snapshot ∧
        Journaled m.world (full_snapshot_state snapshot)) ∧
    ∀ l m' base, step state_path m l = some m' →
      m.world.archives base (m.world.tables base) <:+
        m'.world.archives base (m.world.tables base) := by
  obtain ⟨hs, hfailed⟩ := kept_unfailed.along (sound_initial files) rfl halong hrun
  refine ⟨fun group c hdestroys hc => ?_, fun staging active slot hc => ?_,
    fun l m' base hstep => hs.keeps_serving hstep base⟩
  -- a group is emptied for a full that is being loaded
  · have hallowed : group = .Backup ∧ Loading m.world := by
      rcases hdestroys with rfl | rfl
      · exact hs.allowed_any hc
      · exact hs.allowed_any hc
    obtain ⟨hgroup, ⟨s, shared, hsettled, hshared⟩ | hcommit⟩ := hallowed
    · exact ⟨hgroup, shared.snapshot, journaled_of_shared hs.world hsettled hshared⟩
    · rw [hfailed] at hcommit
      cases hcommit
  · obtain ⟨s, shared, hsettled, hshared, ⟨snapshot, hsnapshot, harchive⟩, -⟩ := hs.allowed hc
    refine ⟨snapshot, harchive, ?_⟩
    rw [hsnapshot]
    exact journaled_of_shared hs.world hsettled hshared

/-- A full is bound, and the turn that loads it begins. -/
def loading : List Label :=
  first_start 0 {"a"} "d/solana-snapshot-etl-hot-mints-1.1.txt" ["a"] ++
    bind_full [⟨"full-10", 10⟩] {"a"} "d/solana-snapshot-etl-hot-mints-1.2.txt" ["a"] ++
    listing [] [⟨"full-10", 10⟩]

/-- The call that takes the backup group's merges down is the next one. -/
def stops_backup_merges (asks : Option Call) : Bool :=
  match asks with
  | some (.stop_group_merges .Backup) => true
  | _ => false

theorem serving_never_emptied_loading : ∃ m,
    Lts.run (step "d/state.json") (.initial []) loading = some m ∧
      m.asks = some (.stop_group_merges .Backup) ∧ ∃ full, Journaled m.world full := by
  have hrun : ((Lts.run (step "d/state.json") (.initial []) loading).map fun m =>
      stops_backup_merges m.asks) = some true := by
    decide +kernel
  obtain ⟨m, hrun, hasks⟩ := Option.map_eq_some_iff.mp hrun
  unfold stops_backup_merges at hasks
  split at hasks
  next hstop =>
    have halong : Lts.Along (step "d/state.json") (fun m l => writes_hold m l = true) (.initial [])
        loading := Lts.along_of_check (by decide +kernel)
    exact ⟨m, hrun, hstop,
      ((serving_never_emptied halong hrun).1 .Backup _ (.inl rfl) (.inl hstop)).2⟩
  next => cases hasks

/-! ## The mint files -/

/-- The machine, on a disk that can also lose power. -/
inductive PowerLabel
  | run (l : Label)
  | power_loss (lost : ℕ)

/-- The process is gone, and with it the last changes to the directory, if none of
them was synced. The disk is taken to make changes last in the order they were made
in, as a file system with a journal does: what is lost of the unsynced ones is a last
part, never one before another that stays. -/
def lose_power (m : Machine) (lost : ℕ) : Option Machine :=
  ((m.world.directory :: m.world.unsynced)[lost]?).map fun directory =>
    ⟨{ m.world with directory := directory, unsynced := [], process := .started false },
      .down none, none⟩

def power_step (state_path : String) (m : Machine) : PowerLabel → Option Machine
  | .run l => step state_path m l
  | .power_loss lost => lose_power m lost

/-- Whatever of the directory is left is sound. -/
theorem Sound.lose_power (h : Sound state_path m) {lost : ℕ}
    (hlost : Watcher.lose_power m lost = some m') : Sound state_path m' := by
  obtain ⟨directory, hdirectory, rfl⟩ := Option.map_eq_some_iff.mp hlost
  refine ⟨⟨?_, ?_, ?_⟩, rfl, rfl⟩
  · intro d hd s hs
    obtain rfl : d = directory := by simpa using hd
    exact h.world.directories d (List.mem_of_getElem? hdirectory) s hs
  · intro s hs
    cases hs
  · intro s hs
    cases hs.1

theorem sound_of_power_run {files : List (String × List Char)} {labels : List PowerLabel}
    (h : Lts.run (power_step state_path) (.initial files) labels = some m) :
    Sound state_path m := by
  refine Lts.invariant (fun m l m' hm hstep => ?_) (sound_initial files) h
  cases l with
  | run l => exact hm.step hstep
  | power_loss lost => exact hm.lose_power hstep

/-- A lane of the journal on disk that is not disabled. -/
def LaneOnDisk (w : World) (lane : LaneWatcherState) : Prop :=
  ∃ s, w.directory.journal = some s ∧ (lane = s.active ∨ lane = s.staging) ∧
    lane.phase ≠ .Disabled

theorem not_referenced {s : WatcherState} {path : String} (h : referenced s path = false)
    {lane : LaneWatcherState} (hlane : lane = s.active ∨ lane = s.staging)
    (hphase : lane.phase ≠ .Disabled) : lane.hot_mints_path ≠ some path := by
  intro hpath
  rcases hlane with rfl | rfl
  · simp [referenced, hphase, hpath] at h
  · simp [referenced, hphase, hpath] at h

/-- **The mint files are crash-safe.** Whenever a lane of the journal on disk names
a file, the file is there with the whole text written for the set frozen for the lane,
over crashes, power losses and restarts; and a file that is removed is a managed one of
the state directory that no such lane names. -/
theorem mint_files_crash_safe {files : List (String × List Char)} {labels : List PowerLabel}
    (hrun : Lts.run (power_step state_path) (.initial files) labels = some m) :
    (∀ lane path, LaneOnDisk m.world lane → lane.hot_mints_path = some path →
      ∃ lines, m.world.directory.read path = some (hot_mints_text lines) ∧
        m.world.written_mints lane = some lines.toFinset) ∧
    ∀ path, m.asks = some (.remove_file path) ∨ m.thread_asks = some (.remove_file path) →
      is_managed_hot_mints_file path (parent state_path) = true ∧
        ∀ lane, LaneOnDisk m.world lane → lane.hot_mints_path ≠ some path := by
  have hs := sound_of_power_run hrun
  constructor
  · rintro lane path ⟨s, hjournal, hlane, -⟩ hpath
    have hheld := (hs.world.directories m.world.directory List.mem_cons_self s hjournal).2
    have hholds : Holds m.world.frozen m.world.directory.files path := by
      rcases hlane with rfl | rfl
      · exact hheld.active path hpath
      · exact hheld.staging path hpath
    obtain ⟨file, hread, hfrozen⟩ := hholds
    have hfile : m.world.mint_file lane = some file := by
      rw [World.mint_file, hpath]
      exact hfrozen
    exact ⟨file.lines, hread, by rw [World.written_mints, hfile]; rfl⟩
  · intro path hc
    obtain ⟨hmanaged, s, hsettled, hunused⟩ := hs.allowed_any hc
    refine ⟨hmanaged, ?_⟩
    -- what the process holds is what is on disk, so what it finds unused is unused
    rintro lane ⟨s', hjournal, hlane, hphase⟩
    obtain rfl : s = s' := Option.some.inj ((hs.world.settled s hsettled).symm.trans hjournal)
    exact not_referenced hunused hlane hphase

/-- A first start, and the power fails. -/
def start_and_power_loss : List PowerLabel :=
  (first_start 0 {"a"} "d/solana-snapshot-etl-hot-mints-1.1.txt" ["a"]).map .run ++ [.power_loss 0]

theorem mint_files_crash_safe_start : ∃ m,
    Lts.run (power_step "d/state.json") (.initial []) start_and_power_loss = some m ∧
      ∃ lane, LaneOnDisk m.world lane ∧ ∃ path lines, lane.hot_mints_path = some path ∧
        m.world.directory.read path = some (hot_mints_text lines) ∧
        m.world.written_mints lane = some lines.toFinset := by
  have hrun : ((Lts.run (power_step "d/state.json") (.initial []) start_and_power_loss).map
      fun m => m.world.directory.journal.any fun s =>
        decide (s.active.phase ≠ .Disabled) && s.active.hot_mints_path.isSome) = some true := by
    decide +kernel
  obtain ⟨m, hrun, hfinal⟩ := Option.map_eq_some_iff.mp hrun
  obtain ⟨s, hjournal, hfinal⟩ := (Option.any_eq_true _ _).mp hfinal
  simp only [Bool.and_eq_true, decide_eq_true_eq] at hfinal
  obtain ⟨path, hpath⟩ := Option.isSome_iff_exists.mp hfinal.2
  have hlane : LaneOnDisk m.world s.active := ⟨s, hjournal, .inl rfl, hfinal.1⟩
  obtain ⟨lines, hlines⟩ := (mint_files_crash_safe hrun).1 s.active path hlane hpath
  exact ⟨m, hrun, s.active, hlane, path, lines, hpath, hlines⟩

end SnapshotEtl.Watcher
