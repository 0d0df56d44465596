/-
A staging lane past full loading has its full.

The lane leaves full loading by one write, that of the completed shared full, and
the full is in its tables then. From there on nothing may empty them, for a reset
comes only while the journal shares a full, and this one does not. The exception
is a process that goes on after that write failed: its journal in memory is past
full loading, and it cleans up as if the attempt had come to nothing.
-/
import SnapshotEtl.Watcher.Effects

set_option autoImplicit false

namespace SnapshotEtl.Watcher

open Lib

variable {state_path : String} {m m' : Machine} {w w' : World} {s s' : WatcherState}

/-! ## Writes of a completed shared full -/

/-- The write of a completed shared full succeeds, unless the process stops in it. -/
def completions_written (m : Machine) : Label → Bool
  | .reply o => match m.asks, o with
      | some (.persist_watcher_state s), .failed => m.world.failure s ≠ .shared_commit
      | some (.persist_watcher_state s), .failed_late => m.world.failure s ≠ .shared_commit
      | _, _ => true
  | _ => true

/-- No such write has failed. -/
structure Timely (w : World) : Prop where
  failed : w.process.failed ≠ some .shared_commit
  lagging : w.process.lagging = false

/-- A call that touches neither journal nor process fails no such write. -/
theorem Timely.of_same (h : Timely w) (hsame : SameJournal w w') : Timely w' where
  failed := by rw [hsame.failed]; exact h.failed
  lagging := by rw [hsame.lagging]; exact h.lagging

/-- A journal write that fails elsewhere than at the shared commit is none of them. -/
theorem Timely.persist_failed (h : Timely w) (hother : w.failure s ≠ .shared_commit)
    (hprocess : w'.process = w.persist_failed s) : Timely w' := by
  constructor
  · rw [hprocess]
    exact fun hfailed => hother (Option.some.inj hfailed)
  · rw [hprocess]
    simp [World.persist_failed, h.lagging, hother]

/-- In a run whose steps meet the condition, no such write fails. -/
theorem kept_timely : Kept state_path (fun m l => completions_written m l = true) Timely where
  start := fun _ _ _ => ⟨nofun, rfl⟩
  stopped := fun _ => ⟨nofun, rfl⟩
  killed := fun _ _ _ _ _ => ⟨nofun, rfl⟩
  reply := by
    intro m c o a w _ h hc hcond hr
    -- only a write of the journal can fall behind
    by_cases hpersist : ∃ s, c = .persist_watcher_state s
    · obtain ⟨s, rfl⟩ := hpersist
      unfold completions_written at hcond
      rw [hc] at hcond
      change m.world.persist s o = some (a, w) at hr
      cases o with
      | ok =>
          obtain ⟨-, rfl⟩ := Prod.mk.inj (Option.some.inj hr)
          exact ⟨nofun, h.lagging⟩
      | failed =>
          obtain ⟨-, rfl⟩ := Prod.mk.inj (Option.some.inj hr)
          exact h.persist_failed (by simpa using hcond) rfl
      | failed_late =>
          obtain ⟨-, rfl⟩ := Prod.mk.inj (Option.some.inj hr)
          exact h.persist_failed (by simpa using hcond) rfl
      | _ => cases hr
    · cases effect_of_respond hr with
      | quiet hsame => exact h.of_same hsame
      | begun hsame => exact h.of_same hsame
      | begun_shared hsame => exact h.of_same hsame
      | begun_staging hsame => exact h.of_same hsame
      | completed groups hsame => exact h.of_same hsame
      | loaded => exact ⟨nofun, h.lagging⟩
      | truncated => exact ⟨h.failed, h.lagging⟩
      | exchanged => exact ⟨h.failed, h.lagging⟩
      | @persisted s => exact absurd ⟨s, rfl⟩ hpersist
      | @renamed s => exact absurd ⟨s, rfl⟩ hpersist
      | @unwritten s => exact absurd ⟨s, rfl⟩ hpersist

theorem timely_initial (files : List (String × List Char)) :
    Timely (Machine.initial files).world := ⟨nofun, rfl⟩

/-! ## The full of the staging lane -/

/-- The tables of the lane a journal calls staging. -/
def World.staging_tables (w : World) (s : WatcherState) : TableGroupIdentity :=
  match s.cutover with
  | some checkpoint => checkpoint.staging_tables
  | none => w.physical .Backup

/-- Between cutovers the names say where the lanes are. -/
theorem lane_tables_of_none (hcutover : s.cutover = none) :
    w.lane_tables s = w.physical .Active := by
  unfold World.lane_tables
  rw [hcutover]
  rfl

/-- Outside a cutover staging has the tables of the backup names. -/
theorem staging_tables_of_none (hcutover : s.cutover = none) :
    w.staging_tables s = w.physical .Backup := by
  unfold World.staging_tables
  rw [hcutover]

/-- During a cutover active has the tables of the checkpoint. -/
theorem lane_tables_of_some {checkpoint : CutoverWatcherState}
    (hcutover : s.cutover = some checkpoint) : w.lane_tables s = checkpoint.active_tables := by
  unfold World.lane_tables
  rw [hcutover]

/-- During a cutover staging has the tables of the checkpoint. -/
theorem staging_tables_of_some {checkpoint : CutoverWatcherState}
    (hcutover : s.cutover = some checkpoint) : w.staging_tables s = checkpoint.staging_tables := by
  unfold World.staging_tables
  rw [hcutover]

/-- The import is a completed one of this full. -/
def IsFull (full : Option FullSnapshotWatcherState) (i : Import) : Prop :=
  i.kind = .Full ∧ i.completed = true ∧
    ∃ snapshot, i.archive = .Full snapshot ∧ full = some (full_snapshot_state snapshot)

def PastLoading (lane : LaneWatcherState) : Prop :=
  lane.phase = .FullMerging ∨ lane.phase = .Ready ∨ lane.phase = .IncrementalLoading ∨
    lane.phase = .CutoverPending

/-- A staging lane past full loading has, in each of its tables, a completed import
of its full since the table was last emptied. -/
def HasFull (w : World) (s : WatcherState) : Prop :=
  PastLoading s.staging → ∀ base, ∃ i ∈ (w.records base (w.staging_tables s base)).imports,
      IsFull s.staging.full_snapshot i

/-- More imports, and those there were completed, leave it there. -/
theorem HasFull.mono (h : HasFull w s) (htables : w'.tables = w.tables)
    (himports : ∀ base g, ∀ i ∈ (w.records base g).imports, i.completed = true →
      i ∈ (w'.records base g).imports) : HasFull w' s := by
  intro hphase base
  obtain ⟨i, hi, hfull⟩ := h hphase base
  have hstaging : w'.staging_tables s = w.staging_tables s := by
    unfold World.staging_tables World.physical
    rw [htables]
  rw [hstaging]
  exact ⟨i, himports base _ i hi hfull.2.1, hfull⟩

/-- An import that starts does not take the full away. -/
theorem HasFull.begun (h : HasFull w s) (htables : w'.tables = w.tables)
    {group : TableGroup} {i : Import} (hrecords : w'.records = (w.start_import group i).records) :
    HasFull w' s := by
  refine h.mono htables fun base g j hj _ => ?_
  rw [hrecords]
  rcases start_import_records w group i base g with ⟨-, heq⟩ | ⟨-, heq⟩
  · rw [heq]
    exact hj
  · rw [heq]
    exact List.mem_cons_of_mem _ hj

/-- Writing the journal does nothing to the imports. -/
theorem HasFull.recorded (h : HasFull w s) (htables : w'.tables = w.tables)
    {old : WatcherState} (hrecords : w'.records = w.record old) : HasFull w' s :=
  h.mono htables fun base g i hi _ => by rw [hrecords]; exact hi

/-- Of a staging lane that is disabled or still loading its full, nothing is asked. -/
theorem hasFull_of_not_past
    (hphase : s.staging.phase = .Disabled ∨ s.staging.phase = .FullLoading) :
    HasFull w s := by
  intro hpast
  rcases hphase with h | h
  · rcases hpast with h' | h' | h' | h' <;> rw [h] at h' <;> cases h'
  · rcases hpast with h' | h' | h' | h' <;> rw [h] at h' <;> cases h'

/-- What may be written has its full. -/
theorem JournalStep.has_full {memory : Option WatcherState} (h : JournalStep w memory s')
    (hwell : ∀ s, memory = some s → WellFormed s)
    (hmemory : ∀ s, memory = some s → HasFull w s) : HasFull w s' := by
  cases h with
  | initialise => exact hasFull_of_not_past (.inl rfl)
  | begin_shared => exact hasFull_of_not_past (.inr rfl)
  | commit_cutover => exact hasFull_of_not_past (.inl rfl)
  | @commit_shared s shared hshared hloaded =>
      intro _ base
      obtain ⟨snapshot, mints, hsnapshot, -, hrecord⟩ := hloaded base
      obtain ⟨hactive, -, -, path, hlane⟩ := sharing_of_shared (hwell s rfl) hshared
      have hcutover := no_checkpoint (hwell s rfl) (by rw [hactive]; decide)
      -- without a checkpoint the staging tables are the physical backup
      have htables : w.staging_tables (s.commit_shared_full_load shared.snapshot.slot) =
          w.physical .Backup := by
        unfold World.staging_tables
        rw [show (s.commit_shared_full_load shared.snapshot.slot).cutover = none from hcutover]
      rw [htables, hrecord]
      refine ⟨_, List.mem_cons_self, rfl, rfl, snapshot, rfl, ?_⟩
      simp [WatcherState.commit_shared_full_load, hlane, LaneWatcherState.full_loading, hsnapshot]
  | @settle_staging s hphase =>
      intro _
      exact hmemory s rfl (.inl hphase)
  | @begin_staging s candidate hphase =>
      intro _
      exact hmemory s rfl (.inr (.inl hphase))
  | @abandon_staging s hphase =>
      intro _
      exact hmemory s rfl (.inr (.inr (.inl hphase)))
  | @commit_staging s slot _ hphase =>
      intro _
      exact hmemory s rfl (.inr (.inr (.inl hphase)))
  | @checkpoint s hactive hcutover =>
      intro hpast base
      have hfull := hmemory s rfl hpast base
      unfold World.staging_tables at hfull
      rw [hcutover] at hfull
      exact hfull
  | @freeze s path => exact hmemory s rfl
  | @begin_active s candidate => exact hmemory s rfl
  | @commit_active s slot => exact hmemory s rfl
  | @abandon_active s => exact hmemory s rfl

/-! ## Along runs -/

/-- No completion has failed, and every journal in force has its full. -/
structure Supplied (w : World) : Prop where
  timely : Timely w
  full : ∀ s, InForce w s → HasFull w s

/-- The journals in force after an answer have their full, if no completion had
failed before it. -/
theorem Supplied.full_answered {c : Call} (h : Supplied w) (hw : Inv w)
    (hc : Allowed state_path w c) (heffect : Effect w c w') :
    ∀ s, InForce w' s → HasFull w' s := by
  have hwritten : ∀ {s}, Allowed state_path w (.persist_watcher_state s) → HasFull w s :=
    fun hc => hc.2.has_full (fun s hs => (hw.memory s hs).1) fun s hs => h.full s (.inr hs)
  cases heffect with
  | quiet hsame htables hrecords =>
      intro s hs
      exact (h.full s (hs.of_same hsame)).mono htables fun base g i hi _ => by
        rw [hrecords]
        exact hi
  | begun hsame htables hrecords =>
      intro s hs
      exact (h.full s (hs.of_same hsame)).begun htables hrecords
  | begun_staging hsame htables hrecords =>
      intro s hs
      exact (h.full s (hs.of_same hsame)).begun htables hrecords
  | @begun_shared staging active slot _ hsame htables hrecords =>
      intro s hs
      have hfirst : HasFull (w.start_import .Backup staging) s :=
        (h.full s (hs.of_same hsame)).begun rfl rfl
      exact hfirst.begun htables hrecords
  | completed groups hsame htables hrecords =>
      intro s hs
      refine (h.full s (hs.of_same hsame)).mono htables fun base g i hi hcompleted => ?_
      rw [hrecords]
      exact (completed_records groups w base g).2.mem hi hcompleted
  | loaded =>
      intro s hs
      exact (h.full s hs.of_loaded).mono rfl fun _ _ _ hi _ => hi
  | persisted =>
      intro s hs
      obtain rfl := hs.of_persisted
      exact (hwritten hc).recorded rfl rfl
  | renamed =>
      intro s hs
      obtain rfl := hs.of_renamed
      exact (hwritten hc).recorded rfl rfl
  | unwritten =>
      intro s hs
      rcases hs.of_unwritten with hs | rfl
      · exact (h.full s hs).mono rfl fun _ _ _ hi _ => hi
      · exact (hwritten hc).mono rfl fun _ _ _ hi _ => hi
  | @truncated group bases =>
      -- a shared full is checkpointed, so staging is at full loading
      obtain ⟨-, ⟨shared_state, shared, hsettled, hshared⟩ | hfailed⟩ := hc
      · intro s hs
        have hs : InForce w s := hs
        obtain rfl := hs.of_settled hw hsettled
        obtain ⟨-, -, -, path, hlane⟩ := sharing_of_shared (hw.memory s hsettled.1).1 hshared
        exact hasFull_of_not_past (.inr (by rw [hlane]; rfl))
      · exact absurd hfailed h.timely.failed
  | @exchanged base =>
      -- the journal goes by its checkpoint, and no table is touched
      obtain ⟨state, checkpoint, hsettled, hcutover, -⟩ := hc
      intro s hs
      have hs : InForce w s := hs
      obtain rfl := hs.of_settled hw hsettled
      intro hpast b
      have hfull := h.full s (.inr hsettled.1) hpast b
      unfold World.staging_tables at hfull ⊢
      rw [hcutover] at hfull ⊢
      exact hfull

/-- Every step that meets the condition keeps the full in the staging tables. -/
theorem kept_supplied : Kept state_path (fun m l => completions_written m l = true) Supplied where
  start := fun hs h hcond => ⟨kept_timely.start hs h.timely hcond, fun s hforce =>
    (h.full s hforce.of_started).mono rfl fun _ _ _ hi _ => hi⟩
  reply := fun hs h hc hcond hr => ⟨kept_timely.reply hs h.timely hc hcond hr,
    h.full_answered hs.world (hs.allowed hc) (effect_of_respond hr)⟩
  killed := fun hs h hc hcond hr => ⟨kept_timely.killed hs h.timely hc hcond hr, fun s hforce =>
    (h.full_answered hs.world (hs.allowed hc) (effect_of_respond hr) s hforce.of_stopped).mono rfl
      fun _ _ _ hi _ => hi⟩
  stopped := fun h => ⟨⟨nofun, rfl⟩, fun s hforce =>
    (h.full s hforce.of_stopped).mono rfl fun _ _ _ hi _ => hi⟩

/-- **A staging lane past full loading has its full**, in the journal on disk and in
the one in memory, in every run in which no write of a completed shared full fails
in a process that goes on; and staging is at full loading in both whenever the
backup tables are about to be emptied. -/
theorem staging_has_full {files : List (String × List Char)} {labels : List Label}
    (halong : Lts.Along (step state_path) (fun m l => completions_written m l = true)
      (.initial files) labels)
    (hrun : Lts.run (step state_path) (.initial files) labels = some m) :
    (∀ s, InForce m.world s → HasFull m.world s) ∧
      ∀ group, m.asks = some (.reset_group group) →
        ∀ s, InForce m.world s → s.staging.phase = .FullLoading := by
  have hinitial : Supplied (Machine.initial files).world :=
    ⟨timely_initial files, fun s hs => by rcases hs with h | h <;> cases h⟩
  obtain ⟨hs, h⟩ := kept_supplied.along (sound_initial files) hinitial halong hrun
  refine ⟨h.full, fun group hc s hforce => ?_⟩
  obtain ⟨-, ⟨_, shared, hsettled, hshared⟩ | hfailed⟩ := hs.allowed hc
  · obtain rfl := hforce.of_settled hs.world hsettled
    obtain ⟨-, -, -, path, hlane⟩ := sharing_of_shared (hforce.wellFormed hs.world) hshared
    rw [hlane]
    rfl
  · exact absurd hfailed h.timely.failed

/-- The write of the completed full fails, and the backup tables are emptied. -/
def failed_completion : List Label :=
  first_start 0 {"a"} "d/solana-snapshot-etl-hot-mints-1.1.txt" ["a"] ++
    bind_full [⟨"full-10", 10⟩] {"a"} "d/solana-snapshot-etl-hot-mints-1.2.txt" ["a"] ++
    listing [] [⟨"full-10", 10⟩] ++ oks 5 ++ [.reply .failed] ++ oks 2

theorem staging_empty_after_failed_completion : ∃ m s, Reachable "d/state.json" m ∧
    InForce m.world s ∧ ¬ HasFull m.world s := by
  have hrun : ((Lts.run (step "d/state.json") (.initial []) failed_completion).map fun m =>
      m.world.process.memory.any fun s => decide (s.staging.phase = .FullMerging) &&
        (m.world.records .raw_account (m.world.staging_tables s .raw_account)).imports.isEmpty)
        = some true := by
    decide +kernel
  obtain ⟨m, hrun, hfinal⟩ := Option.map_eq_some_iff.mp hrun
  obtain ⟨s, hmemory, hfinal⟩ := (Option.any_eq_true _ _).mp hfinal
  simp only [Bool.and_eq_true, decide_eq_true_eq, List.isEmpty_iff] at hfinal
  refine ⟨m, s, ⟨[], _, hrun⟩, .inr hmemory, fun hfull => ?_⟩
  obtain ⟨i, hi, -⟩ := hfull (.inl hfinal.1) .raw_account
  rw [hfinal.2] at hi
  cases hi

/-- The completed full's write succeeds. -/
def completed_full : List Label :=
  first_start 0 {"a"} "d/solana-snapshot-etl-hot-mints-1.1.txt" ["a"] ++
    bind_full [⟨"full-10", 10⟩] {"a"} "d/solana-snapshot-etl-hot-mints-1.2.txt" ["a"] ++
    load_full [⟨"full-10", 10⟩]

theorem staging_has_full_completed : ∃ m s,
    Lts.run (step "d/state.json") (.initial []) completed_full = some m ∧
      m.world.directory.journal = some s ∧ s.staging.phase = .FullMerging ∧ HasFull m.world s := by
  have hrun : ((Lts.run (step "d/state.json") (.initial []) completed_full).map fun m =>
      m.world.directory.journal.any fun s => decide (s.staging.phase = .FullMerging))
        = some true := by
    decide +kernel
  obtain ⟨m, hrun, hfinal⟩ := Option.map_eq_some_iff.mp hrun
  obtain ⟨s, hjournal, hfinal⟩ := (Option.any_eq_true _ _).mp hfinal
  exact ⟨m, s, hrun, hjournal, of_decide_eq_true hfinal,
    (staging_has_full (Lts.along_of_check (by decide +kernel)) hrun).1 s (.inl hjournal)⟩

end SnapshotEtl.Watcher
