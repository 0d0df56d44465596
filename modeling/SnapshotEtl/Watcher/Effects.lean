/-
What a call can do to the journals, to the names and to the tables under them,
whatever it is answered.

Most of the watcher's calls do nothing to any of these. The others have an
`Effect` of their own, and a fact about the journals and the tables is kept by
every call once it is kept by each effect. The effects on the tables are said
table by table: emptied, one import more, or the last import completed.
-/
import SnapshotEtl.Watcher.Machine

set_option autoImplicit false

namespace SnapshotEtl.Watcher

variable {w w' : World}

/-! ## On a table -/

/-- Importing goes on: the imports are the same, some of them completed since. -/
def Completes (before after : List Import) : Prop :=
  List.Forall₂ (fun i j => j = i ∨ j = { i with completed := true }) before after

theorem Completes.refl (imports : List Import) : Completes imports imports :=
  List.forall₂_same.mpr fun _ _ => .inl rfl

/-- Completed imports stay completed. -/
theorem Completes.trans {before middle after : List Import} (h : Completes before middle)
    (h' : Completes middle after) : Completes before after := by
  unfold Completes at *
  induction h generalizing after with
  | nil =>
      cases h'
      exact .nil
  | @cons i j before middle hij _ ih =>
      cases h' with
      | @cons _ k _ after hjk hrest =>
          refine .cons ?_ (ih hrest)
          rcases hij with rfl | rfl
          · exact hjk
          · exact .inr (hjk.elim id id)

/-- What the import was is not changed by its end. -/
theorem Completes.map_eq {α : Type} {before after : List Import} (h : Completes before after)
    (f : Import → α) (hf : ∀ i, f { i with completed := true } = f i) :
    after.map f = before.map f := by
  unfold Completes at h
  induction h with
  | nil => rfl
  | cons hij _ ih =>
      rw [List.map_cons, List.map_cons, ih]
      rcases hij with rfl | rfl
      · rfl
      · rw [hf]

/-- A completed import stays. -/
theorem Completes.mem {before after : List Import} (h : Completes before after) {i : Import}
    (hi : i ∈ before) (hcompleted : i.completed = true) : i ∈ after := by
  unfold Completes at h
  induction h with
  | nil => cases hi
  | cons hij _ ih =>
      rcases List.mem_cons.mp hi with rfl | hi
      · rcases hij with rfl | rfl
        · exact List.mem_cons_self
        · rw [← hcompleted]
          exact List.mem_cons_self
      · exact List.mem_cons_of_mem _ (ih hi)

/-- Completing an import does not change its set. -/
theorem Completes.mem_set {before after : List Import} (h : Completes before after) {j : Import}
    (hj : j ∈ after) : ∃ i ∈ before, i.hot_mints = j.hot_mints := by
  have hmap := h.map_eq Import.hot_mints fun _ => rfl
  have hmem : j.hot_mints ∈ before.map Import.hot_mints := hmap ▸ List.mem_map_of_mem hj
  obtain ⟨i, hi, heq⟩ := List.mem_map.mp hmem
  exact ⟨i, hi, heq⟩

/-- A truncation empties tables of its group and touches no other. -/
theorem truncate_records (w : World) (group : TableGroup) (bases : List GroupTable)
    (base : GroupTable) (g : Generation) :
    (w.truncate group bases).records base g = w.records base g ∨
      (g = w.physical group base ∧ (w.truncate group bases).records base g = .empty) := by
  unfold World.truncate World.on_group
  dsimp only
  split
  next hg =>
    split
    · exact .inr ⟨hg, rfl⟩
    · exact .inl rfl
  next => exact .inl rfl

/-- An import that starts is recorded in the tables of its group and nowhere else. -/
theorem start_import_records (w : World) (group : TableGroup) (i : Import) (base : GroupTable)
    (g : Generation) :
    (g ≠ w.physical group base ∧ (w.start_import group i).records base g = w.records base g) ∨
      (g = w.physical group base ∧ (w.start_import group i).records base g =
        { w.records base g with imports := i :: (w.records base g).imports }) := by
  unfold World.start_import World.on_group
  dsimp only
  split
  next hg => exact .inr ⟨hg, rfl⟩
  next hg => exact .inl ⟨hg, rfl⟩

/-- The slots recorded for the tables stay the same. -/
theorem start_import_recorded (w : World) (group : TableGroup) (i : Import) (base : GroupTable)
    (g : Generation) :
    ((w.start_import group i).records base g).recorded = (w.records base g).recorded := by
  rcases start_import_records w group i base g with ⟨-, heq⟩ | ⟨-, heq⟩ <;> rw [heq]

/-- Completing an import of a group marks it in the tables of the group and nothing else. -/
theorem complete_import_records (w : World) (group : TableGroup) (base : GroupTable)
    (g : Generation) :
    ((w.complete_import group).records base g).recorded = (w.records base g).recorded ∧
      Completes (w.records base g).imports ((w.complete_import group).records base g).imports := by
  unfold World.complete_import World.on_group
  dsimp only
  split
  · refine ⟨rfl, ?_⟩
    cases (w.records base g).imports with
    | nil => exact .refl []
    | cons i imports => exact .cons (.inr rfl) (Completes.refl imports)
  · exact ⟨rfl, .refl _⟩

/-- So does completing those of several groups. -/
theorem completed_records (groups : List TableGroup) (w : World) (base : GroupTable)
    (g : Generation) :
    ((groups.foldl World.complete_import w).records base g).recorded =
        (w.records base g).recorded ∧
      Completes (w.records base g).imports
        ((groups.foldl World.complete_import w).records base g).imports := by
  induction groups generalizing w with
  | nil => exact ⟨rfl, .refl _⟩
  | cons group groups ih =>
      have hfirst := complete_import_records w group base g
      have hrest := ih (w.complete_import group)
      exact ⟨hrest.1.trans hfirst.1, hfirst.2.trans hrest.2⟩

/-! ## On the world -/

/-- Neither journal moves, and a set once frozen stays on record. -/
structure SameJournal (w w' : World) : Prop where
  journal : w'.directory.journal = w.directory.journal
  memory : w'.process.memory = w.process.memory
  failed : w'.process.failed = w.process.failed
  lagging : w'.process.lagging = w.process.lagging
  bootstrap : w'.process.bootstrap = w.process.bootstrap
  frozen : ∀ path file, w.frozen.lookup path = some file → w'.frozen.lookup path = some file

/-- Only the directory's mint files and the threads differ, if anything. -/
theorem SameJournal.of_same (hjournal : w'.directory.journal = w.directory.journal)
    (hmemory : w'.process.memory = w.process.memory)
    (hfailed : w'.process.failed = w.process.failed)
    (hlagging : w'.process.lagging = w.process.lagging)
    (hbootstrap : w'.process.bootstrap = w.process.bootstrap) (hfrozen : w'.frozen = w.frozen) :
    SameJournal w w' :=
  ⟨hjournal, hmemory, hfailed, hlagging, hbootstrap, fun _ _ h => by rw [hfrozen]; exact h⟩

theorem SameJournal.refl (w : World) : SameJournal w w := .of_same rfl rfl rfl rfl rfl rfl

/-- A frozen set leaves the journal as it was. -/
theorem SameJournal.frozen_file {path : String} {lines : List String} {synced : Bool}
    (hfresh : w.frozen.lookup path = none) : SameJournal w (w.frozen_file path lines synced) := by
  refine ⟨rfl, rfl, rfl, rfl, rfl, fun p file hp => ?_⟩
  have hne : (p == path) = false := by
    rw [beq_eq_false_iff_ne]
    rintro rfl
    rw [hfresh] at hp
    cases hp
  change List.lookup p ((path, .written lines) :: w.frozen) = some file
  rw [List.lookup_cons, hne]
  exact hp

/-- Starting an import is nothing to the journals. -/
theorem SameJournal.begun (h : SameJournal w w') {group : TableGroup} {i : Import} :
    SameJournal (w.start_import group i) w' :=
  ⟨h.journal, h.memory, h.failed, h.lagging, h.bootstrap, h.frozen⟩

/-- The set of a lane that has one does not change. -/
theorem SameJournal.hot_mints (h : SameJournal w w') {lane : LaneWatcherState} {mints : HotMintSet}
    (hmints : w.hot_mints lane = some mints) : w'.hot_mints lane = some mints := by
  obtain ⟨file, hfile, rfl⟩ := Option.map_eq_some_iff.mp hmints
  obtain ⟨path, hpath, hlookup⟩ := Option.bind_eq_some_iff.mp hfile
  exact World.hot_mints_of_lookup hpath (h.frozen path file hlookup)

/-! ## The journals in force -/

/-- The journal on disk or the one in memory. -/
def InForce (w : World) (s : WatcherState) : Prop :=
  w.directory.journal = some s ∨ w.process.memory = some s

section in_force

variable {s s' : WatcherState}

/-- What is in force depends on the journal alone. -/
theorem InForce.of_same (h : InForce w' s) (hsame : SameJournal w w') : InForce w s := by
  unfold InForce at h
  rw [hsame.journal, hsame.memory] at h
  exact h

/-- After a completed write only the written state is in force. -/
theorem InForce.of_persisted (h : InForce (w.persisted s') s) : s = s' := by
  rcases h with h | h
  · exact (Option.some.inj h).symm
  · exact (Option.some.inj h).symm

/-- After the rename too. -/
theorem InForce.of_renamed (h : InForce (w.renamed s') s) : s = s' := by
  rcases h with h | h
  · exact (Option.some.inj h).symm
  · exact (Option.some.inj h).symm

/-- After a write that stopped early the old state may be in force, or the new one. -/
theorem InForce.of_unwritten (h : InForce (w.unwritten s') s) : InForce w s ∨ s = s' := by
  rcases h with h | h
  · exact .inl (.inl h)
  · exact .inr (Option.some.inj h).symm

/-- A stop leaves in force what was. -/
theorem InForce.of_stopped (h : InForce w.stopped s) : InForce w s := by
  rcases h with h | h
  · exact .inl h
  · cases h

/-- So does a start. -/
theorem InForce.of_started {bootstrap : Bool}
    (h : InForce (w.started bootstrap) s) : InForce w s := by
  rcases h with h | h
  · exact .inl h
  · cases h

/-- So does a load. -/
theorem InForce.of_loaded (h : InForce { w with process :=
    { w.process with memory := w.directory.journal, failed := none } } s) : InForce w s := by
  rcases h with h | h
  · exact .inl h
  · exact .inl h

/-- A process whose writes have all succeeded has the only one. -/
theorem InForce.of_settled (h : InForce w s) (hw : Inv w) (hs : Settled w s') : s = s' := by
  rcases h with h | h
  · exact Option.some.inj (h.symm.trans (hw.settled s' hs))
  · exact Option.some.inj (h.symm.trans hs.1)

/-- Whatever is in force is well formed. -/
theorem InForce.wellFormed (h : InForce w s) (hw : Inv w) : WellFormed s := by
  rcases h with h | h
  · exact (hw.directories w.directory List.mem_cons_self s h).1
  · exact (hw.memory s h).1

end in_force

/-! ## Calls -/

/-- What a call does. -/
inductive Effect (w : World) : Call → World → Prop
  | quiet {c : Call} {w' : World} (hsame : SameJournal w w') (htables : w'.tables = w.tables)
      (hrecords : w'.records = w.records) : Effect w c w'
  | loaded : Effect w .load_watcher_state
      { w with process := { w.process with memory := w.directory.journal, failed := none } }
  | persisted {s : WatcherState} : Effect w (.persist_watcher_state s) (w.persisted s)
  | renamed {s : WatcherState} : Effect w (.persist_watcher_state s) (w.renamed s)
  | unwritten {s : WatcherState} : Effect w (.persist_watcher_state s) (w.unwritten s)
  | truncated {group : TableGroup} {bases : List GroupTable} :
      Effect w (.reset_group group) (w.truncate group bases)
  | exchanged {base : GroupTable} : Effect w (.exchange_tables base) (w.exchange base)
  | begun {group : TableGroup} {i : Import} {w' : World} (hsame : SameJournal w w')
      (htables : w'.tables = w.tables) (hrecords : w'.records = (w.start_import group i).records) :
      Effect w (.begin_import group i) w'
  | begun_shared {staging active : Import} {slot : Slot} {w' : World} (hsame : SameJournal w w')
      (htables : w'.tables = w.tables)
      (hrecords : w'.records =
        ((w.start_import .Backup staging).start_import .Active active).records) :
      Effect w (.begin_shared_import staging active slot) w'
  | begun_staging {snapshot : IncrementalSnapshot} {slot : Slot} {hot_mints : HotMintSet}
      {w' : World} (hsame : SameJournal w w') (htables : w'.tables = w.tables)
      (hrecords : w'.records =
        (w.start_import .Backup ⟨.Incremental snapshot, .Incremental, hot_mints, false⟩).records) :
      Effect w (.spawn_staging_incremental snapshot slot hot_mints) w'
  | completed {c : Call} {w' : World} (groups : List TableGroup) (hsame : SameJournal w w')
      (htables : w'.tables = w.tables)
      (hrecords : w'.records = (groups.foldl World.complete_import w).records) : Effect w c w'

/-- A call without an effect is one of the effects. -/
theorem Effect.refl {c : Call} : Effect w c w := .quiet (.refl w) rfl rfl

/-- Only threads and files move. -/
theorem Effect.of_same {c : Call} (hjournal : w'.directory.journal = w.directory.journal)
    (hmemory : w'.process.memory = w.process.memory)
    (hfailed : w'.process.failed = w.process.failed)
    (hlagging : w'.process.lagging = w.process.lagging)
    (hbootstrap : w'.process.bootstrap = w.process.bootstrap) (hfrozen : w'.frozen = w.frozen)
    (htables : w'.tables = w.tables) (hrecords : w'.records = w.records) : Effect w c w' :=
  .quiet (.of_same hjournal hmemory hfailed hlagging hbootstrap hfrozen) htables hrecords

/-- **Every answered call has one of the effects.** -/
theorem effect_of_respond {c : Call} {o : Outcome} {a : Answer c}
    (h : w.respond c o = some (a, w')) : Effect w c w' := by
  by_cases hquiet : World.quiet c = true
  · obtain rfl := World.respond_quiet hquiet h
    exact .refl
  · -- a call that fails may have had its effect
    cases c with
    | persist_watcher_state s =>
        rcases World.respond_persist h with ⟨-, rfl⟩ | ⟨-, rfl | rfl⟩
        · exact .persisted
        · exact .renamed
        · exact .unwritten
    | load_watcher_state =>
        rcases World.respond_load h with ⟨-, rfl⟩ | ⟨-, rfl⟩
        · exact .loaded
        · exact .refl
    | persist_frozen_hot_mints mints =>
        -- the file may be left behind by a write that failed
        rcases World.respond_persist_mints h with
          ⟨path, lines, -, -, hfresh, rfl⟩ | ⟨-, rfl | ⟨path, lines, hfresh, rfl⟩⟩
        · exact .quiet (.frozen_file hfresh) rfl rfl
        · exact .refl
        · exact .quiet (.frozen_file hfresh) rfl rfl
    | remove_file path =>
        rcases World.respond_remove h with rfl | rfl
        · exact .refl
        · exact .of_same rfl rfl rfl rfl rfl rfl rfl rfl
    | sync_directory =>
        rcases World.respond_sync h with rfl | rfl
        · exact .refl
        · exact .of_same rfl rfl rfl rfl rfl rfl rfl rfl
    | reset_group group =>
        -- a failed truncation has emptied some of the tables
        rcases World.respond_reset h with ⟨-, rfl⟩ | ⟨-, bases, rfl⟩
        · exact .truncated
        · exact .truncated
    | exchange_tables base =>
        rcases World.respond_exchange h with ⟨-, rfl⟩ | ⟨-, rfl | rfl⟩
        · exact .exchanged
        · exact .refl
        · exact .exchanged
    | begin_import group i =>
        rcases World.acknowledge_cases h with ⟨-, rfl⟩ | ⟨-, rfl⟩
        · exact .begun (.of_same rfl rfl rfl rfl rfl rfl) rfl rfl
        · exact .refl
    | begin_shared_import staging active resume =>
        rcases World.acknowledge_cases h with ⟨-, rfl⟩ | ⟨-, rfl⟩
        · exact .begun_shared (.of_same rfl rfl rfl rfl rfl rfl) rfl rfl
        · exact .refl
    | end_import =>
        obtain ⟨hdirectory, -, hfrozen, htables⟩ := foldl_complete_import w.process.importing w
        rcases World.respond_end_import h with ⟨-, rfl⟩ | ⟨-, rfl⟩
        · exact .completed w.process.importing
            (.of_same (congrArg Directory.journal hdirectory) rfl rfl rfl rfl hfrozen) htables rfl
        · exact .of_same rfl rfl rfl rfl rfl rfl rfl rfl
    | spawn_staging_full snapshot =>
        rcases World.acknowledge_cases h with ⟨-, rfl⟩ | ⟨-, rfl⟩
        · exact .of_same rfl rfl rfl rfl rfl rfl rfl rfl
        · exact .refl
    | spawn_staging_merge_wait snapshot =>
        rcases World.acknowledge_cases h with ⟨-, rfl⟩ | ⟨-, rfl⟩
        · exact .of_same rfl rfl rfl rfl rfl rfl rfl rfl
        · exact .refl
    | spawn_staging_incremental snapshot slot mints =>
        rcases World.acknowledge_cases h with ⟨-, rfl⟩ | ⟨-, rfl⟩
        · exact .begun_staging (.of_same rfl rfl rfl rfl rfl rfl) rfl rfl
        · exact .refl
    | join_staging_build =>
        rcases World.respond_join_build h with ⟨-, rfl⟩ | ⟨result, -, rfl⟩
        · exact .refl
        · exact .of_same rfl rfl rfl rfl rfl rfl rfl rfl
    | join_staging_incremental =>
        rcases World.respond_join_incremental h with ⟨-, rfl⟩ | ⟨-, rfl⟩ | ⟨result, -, -, rfl⟩
        · exact .refl
        · exact .completed [.Backup] (.of_same rfl rfl rfl rfl rfl rfl) rfl rfl
        · exact .of_same rfl rfl rfl rfl rfl rfl rfl rfl
    | _ => exact absurd rfl hquiet

end SnapshotEtl.Watcher
