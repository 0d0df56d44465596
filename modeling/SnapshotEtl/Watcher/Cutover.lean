/-
The cutover, and what the names denote when none is under way.

The pairs are exchanged one by one, and a crash may fall between any two of them.
What carries a cutover through is its checkpoint: it says which generation each
name had when it was taken, so that a process that starts again knows the pairs
that are already exchanged. While the checkpoint is on disk a journal-following
process can write nothing but the end of the cutover, and each pair goes over
once.

An explicit bootstrap writes a journal without asking for the checkpoint of the
one it replaces. Between two exchanges that leaves the names on tables of two
generations, with nothing on record that says so.

A crash is a kill of the process, and the disk stays as the last call left it. What a
loss of power takes with it is looked at for the mint files alone.
-/
import SnapshotEtl.Watcher.Effects

set_option autoImplicit false

namespace SnapshotEtl.Watcher

open Lib

variable {state_path : String} {m m' : Machine} {w : World}

/-- The checkpoint of the cutover that the journal on disk is in the middle of. -/
def World.checkpoint (w : World) : Option CutoverWatcherState :=
  w.directory.journal.bind WatcherState.cutover

/-! ## One generation under the names -/

/-- The names of a group all denote tables of one generation. -/
def Uniform (tables : TableGroupIdentity) : Prop := ∀ base base', tables base = tables base'

def uniform (tables : TableGroupIdentity) : Bool :=
  GROUP_MERGE_TABLES.all fun base => tables base = tables .raw_account

theorem uniform_iff {tables : TableGroupIdentity} : uniform tables = true ↔ Uniform tables := by
  unfold uniform
  rw [List.all_eq_true]
  constructor
  · intro h base base'
    have hraw : ∀ base, tables base = tables .raw_account := fun base => by
      simpa using h base (mem_GROUP_MERGE_TABLES base)
    exact (hraw base).trans (hraw base').symm
  · intro h base _
    simpa using h base .raw_account

/-- An explicit bootstrap comes only while the suffix-free names denote one
generation. -/
def bootstraps_uniform (m : Machine) : Label → Bool
  | .start args => !args.bootstrap || uniform m.world.tables
  | _ => true

/-- Where a journal has the generations: under the names, or, in a cutover, where
its checkpoint says. -/
def Placed (tables : TableGroupIdentity) (s : WatcherState) : Prop :=
  match s.cutover with
  | none => Uniform tables
  | some checkpoint => Uniform checkpoint.active_tables

/-- What may be written has them in place. -/
theorem JournalStep.placed {memory : Option WatcherState} {s' : WatcherState}
    (h : JournalStep w memory s') (hwell : ∀ s, memory = some s → WellFormed s)
    (hmemory : ∀ s, memory = some s → Placed w.tables s)
    (hinitial : memory = none → (w.process.bootstrap = true ∨ w.directory.journal = none) →
      Uniform w.tables) : Placed w.tables s' := by
  -- only the start, a new full and the two ends of a cutover touch the checkpoint
  cases h with
  | initialise slot hstart => exact hinitial rfl hstart
  | @begin_shared s snapshot resume path hactive =>
      have hplaced := hmemory s rfl
      unfold Placed at hplaced
      rw [no_checkpoint (hwell s rfl) (by rw [hactive]; decide)] at hplaced
      exact hplaced
  | @checkpoint s hactive hcutover =>
      have hplaced := hmemory s rfl
      unfold Placed at hplaced
      rw [hcutover] at hplaced
      exact hplaced
  | @commit_cutover s checkpoint hcutover htables =>
      have hplaced := hmemory s rfl
      unfold Placed at hplaced
      rw [hcutover] at hplaced
      have hother := (hwell s rfl).paired checkpoint hcutover
      intro base base'
      rw [htables, htables, hother, hother, hplaced base base']
  | @freeze s path => exact hmemory s rfl
  | @begin_active s candidate => exact hmemory s rfl
  | @commit_active s slot => exact hmemory s rfl
  | @abandon_active s => exact hmemory s rfl
  | @commit_shared s shared => exact hmemory s rfl
  | @settle_staging s => exact hmemory s rfl
  | @begin_staging s candidate => exact hmemory s rfl
  | @abandon_staging s => exact hmemory s rfl
  | @commit_staging s slot => exact hmemory s rfl

/-- Both journals have the generations in place, and so does the lack of one. -/
structure InPlace (w : World) : Prop where
  absent : w.directory.journal = none → Uniform w.tables
  journal : ∀ s, w.directory.journal = some s → Placed w.tables s
  memory : ∀ s, w.process.memory = some s → w.process.failed ≠ some .other → Placed w.tables s
  bootstrap : w.process.bootstrap = true → w.process.memory = none → Uniform w.tables

/-- Tables in place stay so while the journal and the tables do. -/
theorem InPlace.of_same {w' : World} (h : InPlace w) (hsame : SameJournal w w')
    (htables : w'.tables = w.tables) : InPlace w' where
  absent := by rw [hsame.journal, htables]; exact h.absent
  journal := by rw [hsame.journal, htables]; exact h.journal
  memory := by rw [hsame.memory, hsame.failed, htables]; exact h.memory
  bootstrap := by rw [hsame.bootstrap, hsame.memory, htables]; exact h.bootstrap

/-- What the process may write, it may write in place. -/
theorem InPlace.written (h : InPlace w) (hw : Inv w) {s : WatcherState}
    (hc : Allowed state_path w (.persist_watcher_state s)) : Placed w.tables s := by
  obtain ⟨hfailed, hstep⟩ := hc
  refine hstep.placed (fun s hs => (hw.memory s hs).1) (fun s hs => h.memory s hs hfailed) ?_
  rintro hmemory (hbootstrap | hjournal)
  · exact h.bootstrap hbootstrap hmemory
  · exact h.absent hjournal

/-- An answered call keeps the tables in place: an exchange needs a checkpoint in the
journal. -/
theorem InPlace.answered {c : Call} {w' : World} (h : InPlace w) (hw : Inv w)
    (hc : Allowed state_path w c) (heffect : Effect w c w') : InPlace w' := by
  cases heffect with
  | quiet hsame htables => exact h.of_same hsame htables
  | truncated => exact ⟨h.absent, h.journal, h.memory, h.bootstrap⟩
  | begun hsame htables => exact h.of_same hsame htables
  | begun_shared hsame htables => exact h.of_same hsame htables
  | begun_staging hsame htables => exact h.of_same hsame htables
  | completed groups hsame htables => exact h.of_same hsame htables
  | loaded =>
      exact ⟨h.absent, h.journal, fun s hs _ => h.journal s hs, fun _ hmemory => h.absent hmemory⟩
  | @persisted s =>
      have hplaced := h.written hw hc
      refine ⟨fun hnone => (nomatch hnone), fun s' hs' => ?_, fun s' hs' _ => ?_,
        fun _ hnone => (nomatch hnone)⟩
      · obtain rfl := Option.some.inj hs'
        exact hplaced
      · obtain rfl := Option.some.inj hs'
        exact hplaced
  | @renamed s =>
      have hplaced := h.written hw hc
      refine ⟨fun hnone => (nomatch hnone), fun s' hs' => ?_, fun s' hs' _ => ?_,
        fun _ hnone => (nomatch hnone)⟩
      · obtain rfl := Option.some.inj hs'
        exact hplaced
      · obtain rfl := Option.some.inj hs'
        exact hplaced
  | @unwritten s =>
      refine ⟨h.absent, h.journal, fun s' hs' _ => ?_, fun _ hnone => (nomatch hnone)⟩
      obtain rfl := Option.some.inj hs'
      exact h.written hw hc
  | @exchanged base =>
      -- the journal has a checkpoint, and goes by that
      obtain ⟨s, checkpoint, hs, hcutover, -⟩ := hc
      have hjournal := hw.settled s hs
      have hplaced := h.journal s hjournal
      have hplaced' : Placed (w.exchange base).tables s := by
        unfold Placed at hplaced ⊢
        rw [hcutover] at hplaced ⊢
        exact hplaced
      refine ⟨fun hnone => ?_, fun s' hs' => ?_, fun s' hs' _ => ?_, fun _ hnone => ?_⟩
      · rw [show (w.exchange base).directory.journal = _ from hjournal] at hnone
        cases hnone
      · obtain rfl : s = s' := Option.some.inj (hjournal.symm.trans hs')
        exact hplaced'
      · obtain rfl : s = s' := Option.some.inj (hs.1.symm.trans hs')
        exact hplaced'
      · rw [show (w.exchange base).process.memory = _ from hs.1] at hnone
        cases hnone

/-- A stop of the process moves no table. -/
theorem InPlace.stopped (h : InPlace w) : InPlace w.stopped :=
  ⟨h.absent, h.journal, fun _ hs => (nomatch hs), fun hb => (nomatch hb)⟩

/-- Every step that meets the condition keeps the tables in place. -/
theorem kept_in_place :
    Kept state_path (fun m l => bootstraps_uniform m l = true) InPlace where
  start := by
    intro m args _ h hcond
    refine ⟨h.absent, h.journal, fun _ hs => (nomatch hs), fun hbootstrap _ => ?_⟩
    have hargs : args.bootstrap = true := hbootstrap
    rw [bootstraps_uniform, hargs] at hcond
    exact uniform_iff.mp hcond
  reply := fun hs h hc _ hr => h.answered hs.world (hs.allowed hc) (effect_of_respond hr)
  killed := fun hs h hc _ hr =>
    (h.answered hs.world (hs.allowed hc) (effect_of_respond hr)).stopped
  stopped := InPlace.stopped

theorem in_place_initial (files : List (String × List Char)) :
    InPlace (Machine.initial files).world :=
  ⟨fun _ _ _ => rfl, fun _ hs => (nomatch hs), fun _ hs => (nomatch hs), fun hb => (nomatch hb)⟩

/-- **Outside a checkpointed cutover the names denote one generation**, in every
run in which an explicit bootstrap comes only while they do. -/
theorem uniform_outside_cutover {files : List (String × List Char)} {labels : List Label}
    (halong : Lts.Along (step state_path) (fun m l => bootstraps_uniform m l = true)
      (.initial files) labels)
    (hrun : Lts.run (step state_path) (.initial files) labels = some m)
    (hnone : m.world.checkpoint = none) : Uniform m.world.tables := by
  obtain ⟨-, h⟩ := kept_in_place.along (sound_initial files) (in_place_initial files) halong hrun
  unfold World.checkpoint at hnone
  cases hjournal : m.world.directory.journal with
  | none => exact h.absent hjournal
  | some s =>
      have hplaced := h.journal s hjournal
      rw [hjournal] at hnone
      unfold Placed at hplaced
      rw [show s.cutover = none from hnone] at hplaced
      exact hplaced

/-- A run up to the checkpoint of its first cutover, to the step before it. -/
def before_checkpoint : List Label :=
  first_start 0 {"a"} "d/solana-snapshot-etl-hot-mints-1.1.txt" ["a"] ++
    bind_full [⟨"full-10", 10⟩] {"a"} "d/solana-snapshot-etl-hot-mints-1.2.txt" ["a"] ++
    load_full [⟨"full-10", 10⟩] ++ settle ++
    first_incremental ⟨"incremental-10-12", 10, 12⟩ [⟨"full-10", 10⟩] ++
    [.reply (.joined (some .ok))] ++ oks 4

theorem uniform_outside_cutover_before_checkpoint : ∃ m,
    Lts.run (step "d/state.json") (.initial []) before_checkpoint = some m ∧
      Uniform m.world.tables := by
  have hrun : ((Lts.run (step "d/state.json") (.initial []) before_checkpoint).map fun m =>
      m.world.checkpoint.isNone) = some true := by
    decide +kernel
  obtain ⟨m, hrun, hnone⟩ := Option.map_eq_some_iff.mp hrun
  exact ⟨m, hrun, uniform_outside_cutover (Lts.along_of_check (by decide +kernel)) hrun
    (Option.isNone_iff_eq_none.mp hnone)⟩

/-- The process is killed after one exchange, and started with an explicit
bootstrap. -/
def bootstrapped_in_cutover : List Label :=
  before_checkpoint ++ oks 4 ++ [.crash none, .start ⟨true, DEFAULT_RESUME_SLOT_REWIND⟩,
    .reply (.slot 12), .reply .ok]

/-- It leaves the names on tables of two generations, and no checkpoint. -/
theorem mixed_after_bootstrap : ∃ m, Reachable "d/state.json" m ∧
    m.world.checkpoint = none ∧ ¬ Uniform m.world.tables := by
  have hrun : ((Lts.run (step "d/state.json") (.initial []) bootstrapped_in_cutover).map fun m =>
      m.world.checkpoint.isNone && !uniform m.world.tables) = some true := by
    decide +kernel
  obtain ⟨m, hrun, hfinal⟩ := Option.map_eq_some_iff.mp hrun
  simp only [Bool.and_eq_true, Bool.not_eq_true', Option.isNone_iff_eq_none] at hfinal
  refine ⟨m, ⟨[], _, hrun⟩, hfinal.1, fun huniform => ?_⟩
  rw [uniform_iff.mpr huniform] at hfinal
  cases hfinal.2

/-! ## Each pair once -/

/-- Every start follows the journal. -/
def follows_journal : Label → Bool
  | .start args => !args.bootstrap
  | _ => true

/-- In a cutover with a checkpoint, all that may be written is its end. -/
theorem JournalStep.ends_cutover {s s' : WatcherState} {checkpoint : CutoverWatcherState}
    (h : JournalStep w (some s) s') (hwell : WellFormed s)
    (hcutover : s.cutover = some checkpoint) :
    s' = s.commit_cutover ∧ ∀ base, w.tables base = checkpoint.staging_tables base := by
  obtain ⟨hactive, hmints, hstaging, hshared⟩ := cutting_of_checkpoint hwell hcutover
  have hserving : ¬ Serving s.active := by
    rintro (h | ⟨h, -⟩)
    · rw [hactive] at h
      cases h
    · rw [hactive] at h
      cases h
  -- every other step asks for another phase or for no checkpoint
  cases h with
  | freeze hnone => rw [hnone] at hmints; cases hmints
  | begin_active h => exact absurd h hserving
  | commit_active h => rw [hactive] at h; cases h
  | abandon_active h => rw [hactive] at h; cases h
  | begin_shared h => rw [hactive] at h; cases h
  | commit_shared h => rw [hshared] at h; cases h
  | settle_staging h => rw [hstaging] at h; cases h
  | begin_staging h => rw [hstaging] at h; cases h
  | abandon_staging h => rw [hstaging] at h; cases h
  | commit_staging h => rw [hactive] at h; cases h
  | checkpoint _ hnone => rw [hnone] at hcutover; cases hcutover
  | commit_cutover hsome htables =>
      obtain rfl := Option.some.inj (hsome.symm.trans hcutover)
      exact ⟨rfl, htables⟩

/-- A cutover under way: its journal is on disk, and in memory unless the process
has yet to read it or has failed to write the end; the pairs are exchanged or not. -/
structure CuttingOver (s : WatcherState) (checkpoint : CutoverWatcherState) (w : World) : Prop where
  journal : w.directory.journal = some s
  memory : (w.process.memory = none ∧ w.process.bootstrap = false) ∨ w.process.memory = some s ∨
    (w.process.memory = some s.commit_cutover ∧ w.process.failed = some .other)
  names : ∀ base, w.tables base = checkpoint.active_tables base ∨
    w.tables base = checkpoint.staging_tables base

/-- It is over: the lanes are where their tables are. -/
structure CutOver (s : WatcherState) (checkpoint : CutoverWatcherState) (w : World) : Prop where
  journal : w.directory.journal = some s.commit_cutover
  names : ∀ base, w.tables base = checkpoint.staging_tables base

section cutover

variable {s : WatcherState} {checkpoint : CutoverWatcherState}

/-- A cutover under way stays where it is while the journal and the tables do. -/
theorem CuttingOver.of_same {w' : World} (h : CuttingOver s checkpoint w) (hsame : SameJournal w w')
    (htables : w'.tables = w.tables) : CuttingOver s checkpoint w' where
  journal := hsame.journal.trans h.journal
  memory := by rw [hsame.memory, hsame.failed, hsame.bootstrap]; exact h.memory
  names := by rw [htables]; exact h.names

/-- The process that may exchange or write has this journal. -/
theorem CuttingOver.ends (h : CuttingOver s checkpoint w) (hw : Inv w)
    (hcutover : s.cutover = some checkpoint) {s' : WatcherState}
    (hc : Allowed state_path w (.persist_watcher_state s')) :
    s' = s.commit_cutover ∧ w.process.memory = some s ∧
      ∀ base, w.tables base = checkpoint.staging_tables base := by
  obtain ⟨hfailed, hstep⟩ := hc
  rcases h.memory with ⟨hnone, hbootstrap⟩ | hs | ⟨-, hother⟩
  · rw [hnone] at hstep
    cases hstep with
    | initialise slot hstart =>
        rcases hstart with hstart | hstart
        · rw [hbootstrap] at hstart
          cases hstart
        · rw [h.journal] at hstart
          cases hstart
  · rw [hs] at hstep
    obtain ⟨rfl, htables⟩ := hstep.ends_cutover (hw.memory s hs).1 hcutover
    exact ⟨rfl, hs, htables⟩
  · exact absurd hother hfailed

/-- An answered call leaves the cutover under way, or writes its end. -/
theorem CuttingOver.answered {c : Call} {w' : World} (h : CuttingOver s checkpoint w) (hw : Inv w)
    (hcutover : s.cutover = some checkpoint) (hc : Allowed state_path w c)
    (heffect : Effect w c w') :
    CuttingOver s checkpoint w' ∨ CutOver s checkpoint w' := by
  cases heffect with
  | quiet hsame htables => exact .inl (h.of_same hsame htables)
  | truncated => exact .inl ⟨h.journal, h.memory, h.names⟩
  | begun hsame htables => exact .inl (h.of_same hsame htables)
  | begun_shared hsame htables => exact .inl (h.of_same hsame htables)
  | begun_staging hsame htables => exact .inl (h.of_same hsame htables)
  | completed groups hsame htables => exact .inl (h.of_same hsame htables)
  | loaded => exact .inl ⟨h.journal, .inr (.inl h.journal), h.names⟩
  | persisted =>
      obtain ⟨rfl, -, htables⟩ := h.ends hw hcutover hc
      exact .inr ⟨rfl, htables⟩
  | renamed =>
      obtain ⟨rfl, -, htables⟩ := h.ends hw hcutover hc
      exact .inr ⟨rfl, htables⟩
  | unwritten =>
      obtain ⟨rfl, hs, -⟩ := h.ends hw hcutover hc
      refine .inl ⟨h.journal, .inr (.inr ⟨rfl, ?_⟩), h.names⟩
      obtain ⟨-, -, -, hshared⟩ := cutting_of_checkpoint (hw.memory s hs).1 hcutover
      simp [World.unwritten, World.persist_failed, World.failure, hs, hshared]
  | @exchanged base =>
      -- an exchange moves one name, from the active table to the staging one
      obtain ⟨s', checkpoint', hs', hcutover', hactive, hbackup, -⟩ := hc
      obtain rfl : s' = s := Option.some.inj ((hw.settled s' hs').symm.trans h.journal)
      obtain rfl := Option.some.inj (hcutover'.symm.trans hcutover)
      refine .inl ⟨h.journal, h.memory, fun b => ?_⟩
      rw [World.exchange_tables]
      split
      next heq =>
        subst heq
        exact .inr hbackup
      next => exact h.names b

theorem CuttingOver.stopped (h : CuttingOver s checkpoint w) : CuttingOver s checkpoint w.stopped :=
  ⟨h.journal, .inl ⟨rfl, rfl⟩, h.names⟩

theorem CutOver.stopped (h : CutOver s checkpoint w) : CutOver s checkpoint w.stopped :=
  ⟨h.journal, h.names⟩

/-- After the cutover the journal has no checkpoint. -/
theorem CutOver.checkpoint_none (h : CutOver s checkpoint w) : w.checkpoint = none := by
  rw [World.checkpoint, h.journal]
  rfl

/-- While the journal has its checkpoint, journal-following steps keep a cutover
under way or end it. -/
theorem kept_cutover (hcutover : s.cutover = some checkpoint) :
    Kept state_path (fun m l => m.world.checkpoint.isSome = true ∧ follows_journal l = true)
      fun w => CuttingOver s checkpoint w ∨ CutOver s checkpoint w where
  start := by
    rintro m args - (h | h) ⟨hsome, hfollows⟩
    · have hargs : args.bootstrap = false := by simpa [follows_journal] using hfollows
      exact .inl ⟨h.journal, .inl ⟨rfl, hargs⟩, h.names⟩
    · rw [h.checkpoint_none] at hsome
      cases hsome
  reply := by
    rintro m c o a w hs (h | h) hc ⟨hsome, -⟩ hr
    · exact h.answered hs.world hcutover (hs.allowed hc) (effect_of_respond hr)
    · rw [h.checkpoint_none] at hsome
      cases hsome
  killed := by
    rintro m c o a w hs (h | h) hc ⟨hsome, -⟩ hr
    · exact (h.answered hs.world hcutover (hs.allowed hc) (effect_of_respond hr)).imp
        CuttingOver.stopped CutOver.stopped
    · rw [h.checkpoint_none] at hsome
      cases hsome
  stopped := fun h => h.imp CuttingOver.stopped CutOver.stopped

/-- A call exchanges a pair that is not exchanged yet, or none. -/
theorem CuttingOver.name_moves {c : Call} {w' : World} (h : CuttingOver s checkpoint w) (hw : Inv w)
    (hcutover : s.cutover = some checkpoint) (hc : Allowed state_path w c) (heffect : Effect w c w')
    (base : GroupTable) : w'.tables base = w.tables base ∨
      (w.tables base = checkpoint.active_tables base ∧
        w'.tables base = checkpoint.staging_tables base) := by
  cases heffect with
  | quiet _ htables => exact .inl (congrFun htables base)
  | begun _ htables => exact .inl (congrFun htables base)
  | begun_shared _ htables => exact .inl (congrFun htables base)
  | begun_staging _ htables => exact .inl (congrFun htables base)
  | completed _ _ htables => exact .inl (congrFun htables base)
  | truncated => exact .inl rfl
  | loaded => exact .inl rfl
  | persisted => exact .inl rfl
  | renamed => exact .inl rfl
  | unwritten => exact .inl rfl
  | @exchanged base' =>
      -- an exchange is of the cutover that the journal has
      obtain ⟨s', checkpoint', hs', hcutover', hactive, hbackup, -⟩ := hc
      obtain rfl : s' = s := Option.some.inj ((hw.settled s' hs').symm.trans h.journal)
      obtain rfl := Option.some.inj (hcutover'.symm.trans hcutover)
      rw [World.exchange_tables]
      split
      next heq =>
        subst heq
        exact .inr ⟨hactive, hbackup⟩
      next => exact .inl rfl

/-- In one step a table of the cutover stays, or moves to where the checkpoint sends it. -/
theorem CuttingOver.step_moves (h : CuttingOver s checkpoint m.world) (hs : Sound state_path m)
    (hcutover : s.cutover = some checkpoint) {l : Label} (hstep : step state_path m l = some m')
    (base : GroupTable) : m'.world.tables base = m.world.tables base ∨
      (m.world.tables base = checkpoint.active_tables base ∧
        m'.world.tables base = checkpoint.staging_tables base) := by
  generalize hw : m'.world = w
  cases hw ▸ hs.moves hstep with
  | start => exact .inl rfl
  | turn => exact .inl rfl
  | exit => exact .inl rfl
  | crash => exact .inl rfl
  | reply hc hr => exact h.name_moves hs.world hcutover (hs.allowed hc) (effect_of_respond hr) base
  | killed hc hr => exact h.name_moves hs.world hcutover (hs.allowed hc) (effect_of_respond hr) base

/-! ### From the checkpoint to the end -/

/-- The write that puts a checkpoint into the journal takes it from the names. -/
theorem JournalStep.takes_checkpoint {memory : Option WatcherState}
    (h : JournalStep w memory s) (hwell : ∀ s, memory = some s → WellFormed s)
    (hcutover : s.cutover = some checkpoint) :
    checkpoint = ⟨w.physical .Active, w.physical .Backup⟩ := by
  -- no other write gets its journal a checkpoint that the one before it had not
  have hkept : ∀ old, memory = some old → old.cutover = some checkpoint → False := by
    intro old hold hsome
    subst hold
    obtain ⟨rfl, -⟩ := h.ends_cutover (hwell old rfl) hsome
    cases hcutover
  cases h with
  | checkpoint => exact (Option.some.inj hcutover).symm
  | initialise => cases hcutover
  | begin_shared => cases hcutover
  | commit_cutover => cases hcutover
  | @freeze old => exact (hkept old rfl hcutover).elim
  | @begin_active old => exact (hkept old rfl hcutover).elim
  | @commit_active old => exact (hkept old rfl hcutover).elim
  | @abandon_active old => exact (hkept old rfl hcutover).elim
  | @commit_shared old => exact (hkept old rfl hcutover).elim
  | @settle_staging old => exact (hkept old rfl hcutover).elim
  | @begin_staging old => exact (hkept old rfl hcutover).elim
  | @abandon_staging old => exact (hkept old rfl hcutover).elim
  | @commit_staging old => exact (hkept old rfl hcutover).elim

/-- A checkpoint that an answer puts on disk was taken of the names as they are. -/
theorem cutting_over_of_effect {c : Call} {w' : World} (hw : Inv w) (hc : Allowed state_path w c)
    (heffect : Effect w c w') (hnone : w.checkpoint = none)
    (hsome : w'.checkpoint = some checkpoint) :
    w'.tables = w.tables ∧ checkpoint = ⟨w.physical .Active, w.physical .Backup⟩ ∧
      ∃ s, s.cutover = some checkpoint ∧ w'.directory.journal = some s ∧
        w'.process.memory = some s := by
  have hsame : w'.directory.journal = w.directory.journal → False := by
    intro hjournal
    rw [World.checkpoint, hjournal] at hsome
    rw [World.checkpoint, hsome] at hnone
    cases hnone
  cases heffect with
  | quiet h => exact (hsame h.journal).elim
  | begun h => exact (hsame h.journal).elim
  | begun_shared h => exact (hsame h.journal).elim
  | begun_staging h => exact (hsame h.journal).elim
  | completed _ h => exact (hsame h.journal).elim
  | truncated => exact (hsame rfl).elim
  | exchanged => exact (hsame rfl).elim
  | loaded => exact (hsame rfl).elim
  | unwritten => exact (hsame rfl).elim
  | @persisted s =>
      exact ⟨rfl, hc.2.takes_checkpoint (fun s hs => (hw.memory s hs).1) hsome, s, hsome, rfl, rfl⟩
  | @renamed s =>
      exact ⟨rfl, hc.2.takes_checkpoint (fun s hs => (hw.memory s hs).1) hsome, s, hsome, rfl, rfl⟩

/-- After the step that takes the checkpoint a cutover is under way, with no pair
exchanged. -/
theorem Sound.cutting_over (hs : Sound state_path m) {l : Label}
    (hstep : Watcher.step state_path m l = some m') (hnone : m.world.checkpoint = none)
    (hsome : m'.world.checkpoint = some checkpoint) :
    (∃ s, s.cutover = some checkpoint ∧ CuttingOver s checkpoint m'.world) ∧
      ∀ base, m'.world.tables base = checkpoint.active_tables base ∧
        m'.world.physical .Backup base = checkpoint.staging_tables base := by
  -- a checkpoint appears with an answered write of the journal
  have hanswered : ∀ {c o a w}, m.asks = some c → m.world.respond c o = some (a, w) →
      w.checkpoint = some checkpoint →
      (∃ s, s.cutover = some checkpoint ∧ w.directory.journal = some s ∧
        w.process.memory = some s) ∧
      ∀ base, w.tables base = checkpoint.active_tables base ∧
        w.physical .Backup base = checkpoint.staging_tables base := by
    intro c o a w hc hr hsome
    obtain ⟨htables, rfl, hjournal⟩ := cutting_over_of_effect hs.world (hs.allowed hc)
      (effect_of_respond hr) hnone hsome
    refine ⟨hjournal, fun base => ⟨congrFun htables base, ?_⟩⟩
    exact congrArg Generation.other (congrFun htables base)
  -- nothing else makes one
  generalize hw : m'.world = w at hsome ⊢
  cases hw ▸ hs.moves hstep with
  | start => exact (Option.some_ne_none _ (hsome.symm.trans hnone)).elim
  | turn => exact (Option.some_ne_none _ (hsome.symm.trans hnone)).elim
  | exit => exact (Option.some_ne_none _ (hsome.symm.trans hnone)).elim
  | crash => exact (Option.some_ne_none _ (hsome.symm.trans hnone)).elim
  | reply hc hr =>
      obtain ⟨⟨s, hcutover, hjournal, hmemory⟩, hnames⟩ := hanswered hc hr hsome
      exact ⟨⟨s, hcutover, hjournal, .inr (.inl hmemory), fun base => .inl (hnames base).1⟩, hnames⟩
  | killed hc hr =>
      obtain ⟨⟨s, hcutover, hjournal, -⟩, hnames⟩ := hanswered hc hr hsome
      exact ⟨⟨s, hcutover, hjournal, .inl ⟨rfl, rfl⟩, fun base => .inl (hnames base).1⟩, hnames⟩

end cutover

/-- **A cutover exchanges each pair once.** From the step that puts its checkpoint
on disk, over any crashes, failed calls and journal-following restarts, to the
step that takes it off again: each name goes over to its backup once and stays,
the lanes have changed places, and no exchange falls into an import. -/
theorem cutover_exchanges_once {files : List (String × List Char)} {before : List Label}
    {l : Label} {segment : List Label} {m₀ m₁ m₂ : Machine} {checkpoint : CutoverWatcherState}
    (hbefore : Lts.run (step state_path) (.initial files) before = some m₀)
    (hstep : step state_path m₀ l = some m₁) (hnone : m₀.world.checkpoint = none)
    (hsome : m₁.world.checkpoint = some checkpoint)
    (halong : Lts.Along (step state_path)
      (fun m l => m.world.checkpoint.isSome = true ∧ follows_journal l = true) m₁ segment)
    (hrun : Lts.run (step state_path) m₁ segment = some m₂) (hdone : m₂.world.checkpoint = none) :
    (∀ base, m₂.world.tables base = m₁.world.physical .Backup base ∧
      m₂.world.physical .Backup base = m₁.world.tables base ∧
      Lts.changes (step state_path) (fun m => m.world.tables base) m₁ segment = 1) ∧
    (∃ s s', m₁.world.directory.journal = some s ∧ m₂.world.directory.journal = some s' ∧
      s'.active = { s.staging with phase := .Ready, inflight_incremental := none } ∧
      s'.staging = { s.active with
        phase := .Disabled, inflight_incremental := none, hot_mints_path := none }) ∧
    ∀ part m base, part <+: segment → Lts.run (step state_path) m₁ part = some m →
      m.asks = some (.exchange_tables base) → m.world.process.importing = [] ∧
        m.world.process.staging_incremental = false ∧ m.staging_full = none := by
  have hs₀ := sound_of_run hbefore
  have hs₁ := hs₀.step hstep
  obtain ⟨⟨s, hcutover, hcutting⟩, hnames⟩ := hs₀.cutting_over hstep hnone hsome
  -- as long as its checkpoint is in the journal the cutover is under way
  have hkept : Kept state_path _ _ := kept_cutover hcutover
  obtain ⟨-, hend⟩ := hkept.along hs₁ (.inl hcutting) halong hrun
  have hover : CutOver s checkpoint m₂.world := by
    refine hend.resolve_left fun h => ?_
    rw [World.checkpoint, h.journal] at hdone
    rw [show s.cutover = none from hdone] at hcutover
    cases hcutover
  have hother : ∀ base, checkpoint.active_tables base ≠ checkpoint.staging_tables base := by
    intro base
    rw [← (hnames base).1, ← (hnames base).2]
    exact m₁.world.physical_ne (by decide : TableGroup.Active ≠ .Backup) base
  refine ⟨fun base => ⟨?_, ?_, ?_⟩,
    ⟨s, s.commit_cutover, hcutting.journal, hover.journal, rfl, rfl⟩, ?_⟩
  · rw [hover.names, (hnames base).2]
  · rw [World.physical, hover.names, ← (hnames base).2]
    exact Generation.other_other _
  · -- a name goes from the one physical table to the other, and not back
    have hcount := Lts.changes_one_way (f := fun m => m.world.tables base)
      (P := fun m => Sound state_path m ∧
        (CuttingOver s checkpoint m.world ∨ CutOver s checkpoint m.world)) (hother base)
      (fun m l m' hm hcond hstep => ⟨⟨hm.1.step hstep, hkept.step hm.1 hm.2 hcond hstep⟩, ?_⟩)
      ⟨hs₁, .inl hcutting⟩ halong hrun
    · rw [if_neg, if_pos (hover.names base)] at hcount
      · simpa using hcount
      · rw [(hnames base).1]
        exact hother base
    · rcases hm.2 with h | h
      · exact h.step_moves hm.1 hcutover hstep base
      · have hsome := hcond.1
        rw [h.checkpoint_none] at hsome
        cases hsome
  · intro part m base _ hpart hasks
    have hs := Lts.invariant (fun _ _ _ hm hstep => Sound.step hm hstep) hs₁ hpart
    obtain ⟨-, -, -, -, -, -, himporting, hincremental⟩ := hs.allowed hasks
    exact ⟨himporting, hincremental, hs.staging_full⟩

/-- From the checkpoint: the process is killed in its second exchange, which is
made, and the next one finishes. -/
def crashed_cutover : List Label :=
  oks 3 ++ [.crash (some .failed_late), .start ⟨false, DEFAULT_RESUME_SLOT_REWIND⟩] ++ oks 4 ++
    [.turn] ++ oks 7

theorem cutover_exchanges_once_crashed : ∃ m₀ m₁ m₂,
    Lts.run (step "d/state.json") (.initial []) before_checkpoint = some m₀ ∧
      step "d/state.json" m₀ (.reply .ok) = some m₁ ∧
      Lts.run (step "d/state.json") m₁ crashed_cutover = some m₂ ∧
      ∀ base, m₂.world.tables base = m₁.world.physical .Backup base ∧
        Lts.changes (step "d/state.json") (fun m => m.world.tables base) m₁ crashed_cutover
          = 1 := by
  have hrun : ((Lts.run (step "d/state.json") (.initial []) before_checkpoint).bind fun m₀ =>
      (step "d/state.json" m₀ (.reply .ok)).bind fun m₁ =>
        (Lts.run (step "d/state.json") m₁ crashed_cutover).map fun m₂ =>
          m₀.world.checkpoint.isNone && m₁.world.checkpoint.isSome &&
            Lts.check (step "d/state.json") (fun m l =>
              m.world.checkpoint.isSome && follows_journal l) m₁ crashed_cutover &&
            m₂.world.checkpoint.isNone) = some true := by
    decide +kernel
  obtain ⟨m₀, hbefore, hrest⟩ := Option.bind_eq_some_iff.mp hrun
  obtain ⟨m₁, hstep, hrest⟩ := Option.bind_eq_some_iff.mp hrest
  obtain ⟨m₂, hsegment, hfinal⟩ := Option.map_eq_some_iff.mp hrest
  simp only [Bool.and_eq_true, Option.isNone_iff_eq_none] at hfinal
  obtain ⟨⟨⟨hnone, hsome⟩, hcheck⟩, hdone⟩ := hfinal
  obtain ⟨checkpoint, hsome⟩ := Option.isSome_iff_exists.mp hsome
  have halong := Lts.along_of_check hcheck
  simp only [Bool.and_eq_true] at halong
  have honce := (cutover_exchanges_once hbefore hstep hnone hsome halong hsegment hdone).1
  exact ⟨m₀, m₁, m₂, hbefore, hstep, hsegment, fun base => ⟨(honce base).1, (honce base).2.2⟩⟩

end SnapshotEtl.Watcher
