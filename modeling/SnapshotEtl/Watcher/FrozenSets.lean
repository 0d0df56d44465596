/-
A generation is imported under one hot-mint set.

The set goes with the lane: it is frozen into a file when the lane is bound, the
journal keeps the file's name with the lane, and the lane follows its tables
across a cutover. So every import into the tables of a lane finds the set of the
imports before it, as long as the lane keeps its file and the file reads as the set
it was written from. A bootstrap lets go of active's: the set frozen next is whatever
is enabled then, and it goes over rows selected under another. So does the set that
a new process reads of a file with a mint that does not read as itself.
-/
import SnapshotEtl.Watcher.StagingData

set_option autoImplicit false

namespace SnapshotEtl.Watcher

open Lib

variable {state_path : String} {m m' : Machine} {w w' : World} {s s' : WatcherState}

/-! ## One set -/

/-- The imports into a table since it was last emptied use one set. -/
def OneSet (w : World) : Prop :=
  ∀ base g, ∀ i ∈ (w.records base g).imports, ∀ j ∈ (w.records base g).imports,
    i.hot_mints = j.hot_mints

/-- The imports into these tables use the lane's set. -/
def UseSet (w : World) (lane : LaneWatcherState) (tables : TableGroupIdentity) : Prop :=
  ∀ base, ∀ i ∈ (w.records base (tables base)).imports, w.hot_mints lane = some i.hot_mints

/-- Both lanes have tables imported under their own set: active, once it has one,
and staging, once it is past full loading. -/
structure LaneSets (w : World) (s : WatcherState) : Prop where
  active : s.active.hot_mints_path.isSome → UseSet w s.active (w.lane_tables s)
  staging : PastLoading s.staging → UseSet w s.staging (w.staging_tables s)

/-- No import is added, and the sets on record stay. -/
theorem UseSet.mono {lane : LaneWatcherState} {tables : TableGroupIdentity}
    (h : UseSet w lane tables) (hsame : SameJournal w w')
    (himports : ∀ base g, ∀ j ∈ (w'.records base g).imports,
      ∃ i ∈ (w.records base g).imports, i.hot_mints = j.hot_mints) : UseSet w' lane tables := by
  intro base j hj
  obtain ⟨i, hi, heq⟩ := himports base _ j hj
  rw [← heq]
  exact hsame.hot_mints (h base i hi)

/-- No new set among the imports, no second set in a table. -/
theorem OneSet.mono (h : OneSet w)
    (himports : ∀ base g, ∀ j ∈ (w'.records base g).imports,
      ∃ i ∈ (w.records base g).imports, i.hot_mints = j.hot_mints) : OneSet w' := by
  intro base g j hj k hk
  obtain ⟨i, hi, hij⟩ := himports base g j hj
  obtain ⟨i', hi', hik⟩ := himports base g k hk
  rw [← hij, ← hik]
  exact h base g i hi i' hi'

/-- What the lanes were imported under is kept while the journal and the tables stay and no
new set is imported. -/
theorem LaneSets.mono (h : LaneSets w s) (hsame : SameJournal w w') (htables : w'.tables = w.tables)
    (himports : ∀ base g, ∀ j ∈ (w'.records base g).imports,
      ∃ i ∈ (w.records base g).imports, i.hot_mints = j.hot_mints) : LaneSets w' s := by
  have hactive : w'.lane_tables s = w.lane_tables s := by
    unfold World.lane_tables
    rw [htables]
  have hstaging : w'.staging_tables s = w.staging_tables s := by
    unfold World.staging_tables World.physical
    rw [htables]
  constructor
  · intro hpath
    rw [hactive]
    exact (h.active hpath).mono hsame himports
  · intro hpast
    rw [hstaging]
    exact (h.staging hpast).mono hsame himports

/-- A lane with a set has its file. -/
theorem path_of_hot_mints {lane : LaneWatcherState} {mints : HotMintSet}
    (h : w.hot_mints lane = some mints) : lane.hot_mints_path.isSome := by
  obtain ⟨file, hfile, -⟩ := Option.map_eq_some_iff.mp h
  obtain ⟨path, hpath, -⟩ := Option.bind_eq_some_iff.mp hfile
  rw [hpath]
  rfl

/-! ### A new import -/

section start

variable {group : TableGroup} {i : Import}

/-- It uses the set of the imports before it. -/
theorem OneSet.begun (h : OneSet w)
    (hset : ∀ base, ∀ j ∈ (w.records base (w.physical group base)).imports,
      j.hot_mints = i.hot_mints) : OneSet (w.start_import group i) := by
  intro base g
  rcases start_import_records w group i base g with ⟨-, heq⟩ | ⟨rfl, heq⟩
  · rw [heq]
    exact h base g
  · rw [heq]
    intro j hj k hk
    have hall : ∀ j ∈ i :: (w.records base (w.physical group base)).imports,
        j.hot_mints = i.hot_mints := by
      intro j hj
      rcases List.mem_cons.mp hj with rfl | hj
      · rfl
      · exact hset base j hj
    rw [hall j hj, hall k hk]

/-- Into these tables it goes under the lane's set. -/
theorem UseSet.begun {lane : LaneWatcherState} (h : UseSet w lane (w.physical group))
    (hset : w.hot_mints lane = some i.hot_mints) :
    UseSet (w.start_import group i) lane (w.physical group) := by
  intro base j hj
  rcases start_import_records w group i base (w.physical group base) with ⟨hne, -⟩ | ⟨-, heq⟩
  · exact absurd rfl hne
  · rw [heq] at hj
    rcases List.mem_cons.mp hj with rfl | hj
    · exact hset
    · exact h base j hj

/-- Into the others it does not go. -/
theorem UseSet.begun_aside {lane : LaneWatcherState} {group' : TableGroup}
    (h : UseSet w lane (w.physical group')) (hne : group' ≠ group) :
    UseSet (w.start_import group i) lane (w.physical group') := by
  intro base j hj
  rcases start_import_records w group i base (w.physical group' base) with ⟨-, heq⟩ | ⟨hsame, -⟩
  · rw [heq] at hj
    exact h base j hj
  · exact absurd hsame (w.physical_ne hne base)

end start

/-! ## Freezing -/

/-- Where the process freezes a set for active, it is the set that the imports into
the tables under the suffix-free names used. -/
def freezes_used_set (m : Machine) (_ : Label) : Bool :=
  match m.asks, m.world.process.memory with
  | some (.persist_watcher_state s), some old =>
      old.active.hot_mints_path.isSome || s.active.hot_mints_path.isNone ||
        GROUP_MERGE_TABLES.all fun base =>
          (m.world.records base (m.world.tables base)).imports.all fun i =>
            m.world.hot_mints s.active = some i.hot_mints
  | _, _ => true

/-- A checked journal write names a file of the set that the tables were imported under. -/
theorem useSet_of_freezes {l : Label} (h : freezes_used_set m l = true)
    (hc : m.asks = some (.persist_watcher_state s')) (hmemory : m.world.process.memory = some s)
    (hnone : s.active.hot_mints_path = none) (hsome : s'.active.hot_mints_path.isSome) :
    UseSet m.world s'.active m.world.tables := by
  unfold freezes_used_set at h
  rw [hc, hmemory] at h
  obtain ⟨path, hpath⟩ := Option.isSome_iff_exists.mp hsome
  simp only [hnone, hpath, Option.isSome_none, Option.isNone_some, Bool.false_or,
    List.all_eq_true, decide_eq_true_eq] at h
  exact fun base i hi => h base (mem_GROUP_MERGE_TABLES base) i hi

/-! ## Reading back -/

/-- Where a process starts, and not with a bootstrap, no mint file that the journal
names can be read as another set than the one it was written from. -/
def reads_frozen_sets (m : Machine) : Label → Bool
  | .start args => args.bootstrap || m.world.directory.journal.all fun s =>
      (m.world.mint_file s.active).all MintFile.reads_as_written &&
        (m.world.mint_file s.staging).all MintFile.reads_as_written
  | _ => true

/-- After a checked start each file that the journal names reads as it was written. -/
theorem reads_as_written_of_start {args : Args} {lane : LaneWatcherState} {file : MintFile}
    (h : reads_frozen_sets m (.start args) = true) (hjournal : m.world.directory.journal = some s)
    (hlane : lane = s.active ∨ lane = s.staging) (hfile : m.world.mint_file lane = some file) :
    args.bootstrap = true ∨ file.reads_as_written = true := by
  simp only [reads_frozen_sets, hjournal, Option.all_some, Bool.or_eq_true, Bool.and_eq_true] at h
  refine h.imp_right fun hlanes => ?_
  rcases hlane with rfl | rfl
  · simpa [hfile] using hlanes.1
  · simpa [hfile] using hlanes.2

/-- So the set that goes by a lane's file stays what it is. -/
theorem in_use_of_start {args : Args} {lane : LaneWatcherState} {file : MintFile}
    (h : reads_frozen_sets m (.start args) = true) (hjournal : m.world.directory.journal = some s)
    (hlane : lane = s.active ∨ lane = s.staging) (hfile : m.world.mint_file lane = some file) :
    MintFile.in_use { file with reread := file.reread || !args.bootstrap } = file.in_use := by
  rcases reads_as_written_of_start h hjournal hlane hfile with hbootstrap | hreads
  · rw [hbootstrap, Bool.not_true, Bool.or_false]
  · have hreread : MintFile.reads_as_written
        { file with reread := file.reread || !args.bootstrap } = true := hreads
    rw [MintFile.in_use_of_reads_as_written hreads, MintFile.in_use_of_reads_as_written hreread]

/-- After a checked start each lane uses the set that was written for it. -/
theorem hot_mints_of_start {args : Args} {lane : LaneWatcherState}
    (h : reads_frozen_sets m (.start args) = true) (hjournal : m.world.directory.journal = some s)
    (hlane : lane = s.active ∨ lane = s.staging) :
    (m.world.started args.bootstrap).hot_mints lane = m.world.hot_mints lane := by
  rw [World.hot_mints, World.hot_mints, World.started_mint_file]
  cases hfile : m.world.mint_file lane with
  | none => rfl
  | some file => exact congrArg some (in_use_of_start h hjournal hlane hfile)

/-- The set that goes by the file under a path is the one the file was written from. -/
def GoesAsWritten (frozen : List (String × MintFile)) (path : String) : Prop :=
  ∃ file, frozen.lookup path = some file ∧ file.in_use = file.lines.toFinset

/-- Such are the files a journal names. -/
structure AsWritten (frozen : List (String × MintFile)) (s : WatcherState) : Prop where
  active : ∀ path, s.active.hot_mints_path = some path → GoesAsWritten frozen path
  staging : ∀ path, s.staging.hot_mints_path = some path → GoesAsWritten frozen path

/-- A lane whose file goes as written uses the written set. -/
theorem hot_mints_as_written {lane : LaneWatcherState}
    (h : ∀ path, lane.hot_mints_path = some path → GoesAsWritten w.frozen path) :
    w.hot_mints lane = w.written_mints lane := by
  unfold World.hot_mints World.written_mints World.mint_file
  cases hpath : lane.hot_mints_path with
  | none => rfl
  | some path =>
      obtain ⟨file, hlookup, hset⟩ := h path hpath
      rw [Option.bind_some, hlookup]
      exact congrArg some hset

/-- A file that was just written goes as written: it is not read back before a restart. -/
theorem GoesAsWritten.of_new {frozen : List (String × MintFile)}
    {files : List (String × List Char)} {path : String} (h : HoldsNew frozen files path) :
    GoesAsWritten frozen path :=
  have ⟨lines, _, hlookup⟩ := h
  ⟨.written lines, hlookup, rfl⟩

/-- Files that go as written do so while the journal stays. -/
theorem AsWritten.mono (h : AsWritten w.frozen s) (hsame : SameJournal w w') :
    AsWritten w'.frozen s :=
  ⟨fun path hpath => have ⟨file, hlookup, hset⟩ := h.active path hpath
    ⟨file, hsame.frozen path file hlookup, hset⟩,
  fun path hpath => have ⟨file, hlookup, hset⟩ := h.staging path hpath
    ⟨file, hsame.frozen path file hlookup, hset⟩⟩

/-- What may be written names the files of the journal before, and new ones. -/
theorem JournalStep.as_written {memory : Option WatcherState} (h : JournalStep w memory s')
    (hmemory : ∀ s, memory = some s → AsWritten w.frozen s) : AsWritten w.frozen s' := by
  cases h with
  | initialise slot => exact ⟨fun _ hp => (nomatch hp), fun _ hp => (nomatch hp)⟩
  | @freeze s path hnone hfile =>
      refine ⟨fun p hp => ?_, (hmemory s rfl).staging⟩
      obtain rfl : path = p := Option.some.inj hp
      exact .of_new hfile
  | @begin_shared s snapshot resume path hactive hslot hmints hstaging hnewer hfile =>
      refine ⟨(hmemory s rfl).active, fun p hp => ?_⟩
      obtain rfl : path = p := Option.some.inj hp
      exact .of_new hfile
  | @commit_cutover s checkpoint =>
      exact ⟨(hmemory s rfl).staging, fun _ hp => (nomatch hp)⟩
  | @begin_active s candidate => exact ⟨(hmemory s rfl).active, (hmemory s rfl).staging⟩
  | @commit_active s slot => exact ⟨(hmemory s rfl).active, (hmemory s rfl).staging⟩
  | @abandon_active s => exact ⟨(hmemory s rfl).active, (hmemory s rfl).staging⟩
  | @commit_shared s shared => exact ⟨(hmemory s rfl).active, (hmemory s rfl).staging⟩
  | @settle_staging s => exact ⟨(hmemory s rfl).active, (hmemory s rfl).staging⟩
  | @begin_staging s candidate => exact ⟨(hmemory s rfl).active, (hmemory s rfl).staging⟩
  | @abandon_staging s => exact ⟨(hmemory s rfl).active, (hmemory s rfl).staging⟩
  | @commit_staging s slot => exact ⟨(hmemory s rfl).active, (hmemory s rfl).staging⟩
  | @checkpoint s => exact ⟨(hmemory s rfl).active, (hmemory s rfl).staging⟩

/-- Every journal in force names files that go as they were written. -/
def AllAsWritten (w : World) : Prop := ∀ s, InForce w s → AsWritten w.frozen s

/-- An answered call keeps the files as written. -/
theorem AllAsWritten.answered {c : Call} (h : AllAsWritten w) (hc : Allowed state_path w c)
    (heffect : Effect w c w') : AllAsWritten w' := by
  intro s hs
  cases heffect with
  | quiet hsame => exact (h s (hs.of_same hsame)).mono hsame
  | completed groups hsame => exact (h s (hs.of_same hsame)).mono hsame
  | begun hsame => exact (h s (hs.of_same hsame)).mono hsame
  | begun_shared hsame => exact (h s (hs.of_same hsame)).mono hsame
  | begun_staging hsame => exact (h s (hs.of_same hsame)).mono hsame
  | truncated => exact h s hs
  | exchanged => exact h s hs
  | loaded => exact h s hs.of_loaded
  | persisted =>
      obtain rfl := hs.of_persisted
      exact hc.2.as_written fun s hs => h s (.inr hs)
  | renamed =>
      obtain rfl := hs.of_renamed
      exact hc.2.as_written fun s hs => h s (.inr hs)
  | unwritten =>
      rcases hs.of_unwritten with hs | rfl
      · exact h s hs
      · exact hc.2.as_written fun s hs => h s (.inr hs)

/-- Every step keeps the files as written, a start on the condition that it reads them so.
-/
theorem kept_as_written :
    Kept state_path (fun m l => reads_frozen_sets m l = true) AllAsWritten where
  start := by
    intro m args _ h hcond s hs
    have hjournal : m.world.directory.journal = some s := hs.resolve_right nofun
    have hbefore := h s (.inl hjournal)
    have hstarted : ∀ {lane : LaneWatcherState} {path : String},
        lane = s.active ∨ lane = s.staging → lane.hot_mints_path = some path →
        GoesAsWritten m.world.frozen path →
          GoesAsWritten (m.world.started args.bootstrap).frozen path := by
      rintro lane path hlane hpath ⟨file, hlookup, hset⟩
      have hfile : m.world.mint_file lane = some file := by
        rw [World.mint_file, hpath]
        exact hlookup
      refine ⟨{ file with reread := file.reread || !args.bootstrap }, ?_, ?_⟩
      · rw [World.started_lookup, hlookup]
        rfl
      · exact (in_use_of_start hcond hjournal hlane hfile).trans hset
    exact ⟨fun path hpath => hstarted (.inl rfl) hpath (hbefore.active path hpath),
      fun path hpath => hstarted (.inr rfl) hpath (hbefore.staging path hpath)⟩
  stopped := fun h s hs => h s hs.of_stopped
  reply := fun hs h hc _ hr => h.answered (hs.allowed hc) (effect_of_respond hr)
  killed := fun hs h hc _ hr s hforce =>
    h.answered (hs.allowed hc) (effect_of_respond hr) s hforce.of_stopped

/-! ## What is written -/

/-- What may be written has its tables imported under its sets. -/
theorem JournalStep.lane_sets {memory : Option WatcherState} (h : JournalStep w memory s')
    (hwell : ∀ s, memory = some s → WellFormed s) (hmemory : ∀ s, memory = some s → LaneSets w s)
    (hfreeze : ∀ s, memory = some s → s.active.hot_mints_path = none →
      s'.active.hot_mints_path.isSome → UseSet w s'.active w.tables) : LaneSets w s' := by
  have hnot : ∀ {lane : LaneWatcherState}, lane.phase = .Disabled ∨ lane.phase = .FullLoading →
      ¬ PastLoading lane := by
    rintro lane (h | h) (h' | h' | h' | h') <;> rw [h] at h' <;> cases h'
  cases h with
  | initialise => exact ⟨fun hpath => (nomatch hpath), fun hpast => absurd hpast (hnot (.inl rfl))⟩
  | @freeze s path hnone =>
      have hcutover : s.cutover = none := by
        cases hc : s.cutover with
        | none => rfl
        | some checkpoint =>
            have hpath := (cutting_of_checkpoint (hwell s rfl) hc).2.1
            rw [hnone] at hpath
            cases hpath
      refine ⟨fun hpath => ?_, (hmemory s rfl).staging⟩
      have htables : w.lane_tables (s.freeze_active_hot_mints path) = w.physical .Active :=
        lane_tables_of_none hcutover
      rw [htables]
      exact hfreeze s rfl hnone hpath
  | @begin_active s candidate => exact ⟨(hmemory s rfl).active, (hmemory s rfl).staging⟩
  | @commit_active s slot => exact ⟨(hmemory s rfl).active, (hmemory s rfl).staging⟩
  | @abandon_active s => exact ⟨(hmemory s rfl).active, (hmemory s rfl).staging⟩
  | @begin_shared s snapshot resume path hactive _ hmints =>
      have hcutover := no_checkpoint (hwell s rfl) (by rw [hactive]; decide)
      refine ⟨fun _ => ?_, fun hpast => absurd hpast (hnot (.inr rfl))⟩
      have hold := (hmemory s rfl).active hmints
      rw [lane_tables_of_none hcutover] at hold
      exact hold
  | @commit_shared s shared hshared hloaded =>
      obtain ⟨hactive, -⟩ := sharing_of_shared (hwell s rfl) hshared
      have hcutover := no_checkpoint (hwell s rfl) (by rw [hactive]; decide)
      refine ⟨(hmemory s rfl).active, fun _ base i hi => ?_⟩
      -- the only import is that of the full
      obtain ⟨snapshot, mints, -, hmints, hrecord⟩ := hloaded base
      have htables : w.staging_tables (s.commit_shared_full_load shared.snapshot.slot) =
          w.physical .Backup := staging_tables_of_none hcutover
      rw [htables, hrecord, List.mem_singleton] at hi
      subst hi
      exact hmints.symm
  | @settle_staging s hphase =>
      exact ⟨(hmemory s rfl).active, fun _ => (hmemory s rfl).staging (.inl hphase)⟩
  | @begin_staging s candidate hphase =>
      exact ⟨(hmemory s rfl).active, fun _ => (hmemory s rfl).staging (.inr (.inl hphase))⟩
  | @abandon_staging s hphase =>
      exact ⟨(hmemory s rfl).active, fun _ => (hmemory s rfl).staging (.inr (.inr (.inl hphase)))⟩
  | @commit_staging s slot _ hphase =>
      exact ⟨(hmemory s rfl).active, fun _ => (hmemory s rfl).staging (.inr (.inr (.inl hphase)))⟩
  | @checkpoint s hactive hcutover =>
      have hold := hmemory s rfl
      refine ⟨fun hpath => ?_, fun hpast => ?_⟩
      · have hset := hold.active hpath
        rw [lane_tables_of_none hcutover] at hset
        exact hset
      · have hset := hold.staging hpast
        rw [staging_tables_of_none hcutover] at hset
        exact hset
  | @commit_cutover s checkpoint hcutover htables =>
      -- active is what staging was, and its tables are under the names
      obtain ⟨-, -, hpending, -⟩ := cutting_of_checkpoint (hwell s rfl) hcutover
      refine ⟨fun _ => ?_, fun hpast => absurd hpast (hnot (.inl rfl))⟩
      have hset := (hmemory s rfl).staging (.inr (.inr (.inr hpending)))
      rw [staging_tables_of_some hcutover, ← funext htables] at hset
      exact hset

/-! ## Along runs -/

/-- Every table has one set, and every journal in force has its lanes' sets in
their tables. -/
structure Selected (w : World) : Prop where
  one : OneSet w
  lanes : ∀ s, InForce w s → LaneSets w s

/-- The sets of the tables and of the lanes stay while journal and tables do. -/
theorem Selected.mono (h : Selected w) (hsame : SameJournal w w') (htables : w'.tables = w.tables)
    (himports : ∀ base g, ∀ j ∈ (w'.records base g).imports,
      ∃ i ∈ (w.records base g).imports, i.hot_mints = j.hot_mints) : Selected w' :=
  ⟨h.one.mono himports, fun s hs => (h.lanes s (hs.of_same hsame)).mono hsame htables himports⟩

/-- The world after a journal write has the sets of the world before it. -/
theorem LaneSets.of_imports (h : LaneSets w s) (htables : w'.tables = w.tables)
    (hfrozen : w'.frozen = w.frozen)
    (himports : ∀ base g, (w'.records base g).imports = (w.records base g).imports) :
    LaneSets w' s := by
  obtain ⟨hactive, hstaging⟩ := h
  unfold UseSet World.hot_mints World.mint_file World.lane_tables at hactive
  unfold UseSet World.hot_mints World.mint_file World.staging_tables World.physical at hstaging
  constructor
  · unfold UseSet World.hot_mints World.mint_file World.lane_tables
    simp only [htables, hfrozen, himports]
    exact hactive
  · unfold UseSet World.hot_mints World.mint_file World.staging_tables World.physical
    simp only [htables, hfrozen, himports]
    exact hstaging

/-- What active imports goes under its set, and nothing else changes. -/
theorem LaneSets.active_begun {i : Import} (h : LaneSets w s) (hcutover : s.cutover = none)
    (hset : w.hot_mints s.active = some i.hot_mints) : LaneSets (w.start_import .Active i) s := by
  have hpath := path_of_hot_mints hset
  constructor
  · intro _
    have hactive := h.active hpath
    rw [lane_tables_of_none hcutover] at hactive ⊢
    exact hactive.begun hset
  · intro hpast
    have hstaging := h.staging hpast
    rw [staging_tables_of_none hcutover] at hstaging ⊢
    exact hstaging.begun_aside (by decide)

/-- What staging imports goes under its set, once it is past full loading. -/
theorem LaneSets.staging_begun {i : Import} (h : LaneSets w s) (hcutover : s.cutover = none)
    (hset : PastLoading s.staging → w.hot_mints s.staging = some i.hot_mints) :
    LaneSets (w.start_import .Backup i) s := by
  constructor
  · intro hpath
    have hactive := h.active hpath
    rw [lane_tables_of_none hcutover] at hactive ⊢
    exact hactive.begun_aside (by decide)
  · intro hpast
    have hstaging := h.staging hpast
    rw [staging_tables_of_none hcutover] at hstaging ⊢
    exact hstaging.begun (hset hpast)

/-- Where an import goes into active's tables under its set, they still have one. -/
theorem OneSet.active_begun {i : Import} (h : OneSet w) (hlanes : LaneSets w s)
    (hcutover : s.cutover = none) (hset : w.hot_mints s.active = some i.hot_mints) :
    OneSet (w.start_import .Active i) := by
  refine h.begun fun base j hj => ?_
  have hpath := path_of_hot_mints hset
  have hactive := hlanes.active hpath
  rw [lane_tables_of_none hcutover] at hactive
  have hsame := hactive base j hj
  rw [hset] at hsame
  exact (Option.some.inj hsame).symm

/-- So they do at an answered call, if what it freezes first is the set already used. -/
theorem Selected.answered {c : Call} (h : Selected w) (hw : Inv w) (hc : Allowed state_path w c)
    (hfreeze : ∀ s' s, c = .persist_watcher_state s' → w.process.memory = some s →
      s.active.hot_mints_path = none → s'.active.hot_mints_path.isSome →
      UseSet w s'.active w.tables)
    (heffect : Effect w c w') : Selected w' := by
  have hwritten : ∀ {s'}, c = .persist_watcher_state s' → LaneSets w s' := by
    rintro s' rfl
    exact hc.2.lane_sets (fun s hs => (hw.memory s hs).1) (fun s hs => h.lanes s (.inr hs))
      fun s hs => hfreeze s' s rfl hs
  cases heffect with
  | quiet hsame htables hrecords =>
      refine h.mono hsame htables fun base g j hj => ⟨j, ?_, rfl⟩
      rw [hrecords] at hj
      exact hj
  | completed groups hsame htables hrecords =>
      refine h.mono hsame htables fun base g j hj => ?_
      rw [hrecords] at hj
      exact (completed_records groups w base g).2.mem_set hj
  | @truncated group bases =>
      refine h.mono (.of_same rfl rfl rfl rfl rfl rfl) rfl fun base g j hj => ⟨j, ?_, rfl⟩
      rcases truncate_records w group bases base g with heq | ⟨-, heq⟩
      · rw [heq] at hj
        exact hj
      · rw [heq] at hj
        cases hj
  | loaded => exact ⟨h.one, fun s hs => (h.lanes s hs.of_loaded).of_imports rfl rfl fun _ _ => rfl⟩
  | persisted =>
      refine ⟨h.one, fun s hs => ?_⟩
      obtain rfl := hs.of_persisted
      exact (hwritten rfl).of_imports rfl rfl fun _ _ => rfl
  | renamed =>
      refine ⟨h.one, fun s hs => ?_⟩
      obtain rfl := hs.of_renamed
      exact (hwritten rfl).of_imports rfl rfl fun _ _ => rfl
  | unwritten =>
      refine ⟨h.one, fun s hs => ?_⟩
      rcases hs.of_unwritten with hs | rfl
      · exact (h.lanes s hs).of_imports rfl rfl fun _ _ => rfl
      · exact (hwritten rfl).of_imports rfl rfl fun _ _ => rfl
  | @exchanged base =>
      -- the journal goes by its checkpoint, and no table is touched
      obtain ⟨state, checkpoint, hsettled, hcutover, -⟩ := hc
      refine ⟨h.one, fun s hs => ?_⟩
      have hs : InForce w s := hs
      obtain rfl := hs.of_settled hw hsettled
      obtain ⟨hactive, hstaging⟩ := h.lanes s hs
      rw [lane_tables_of_some hcutover] at hactive
      rw [staging_tables_of_some hcutover] at hstaging
      constructor
      · rw [lane_tables_of_some hcutover]
        exact hactive
      · rw [staging_tables_of_some hcutover]
        exact hstaging
  | @begun group i _ hsame htables hrecords =>
      obtain ⟨rfl, -, state, hsettled, hloading, -, hset⟩ := hc
      have hwell := (hw.memory state hsettled.1).1
      have hcutover := no_checkpoint hwell (by rw [hloading]; decide)
      have hlanes := h.lanes state (.inr hsettled.1)
      have hbegun : Selected (w.start_import .Active i) := by
        refine ⟨h.one.active_begun hlanes hcutover hset, fun s hs => ?_⟩
        have hs : InForce w s := hs
        obtain rfl := hs.of_settled hw hsettled
        exact hlanes.active_begun hcutover hset
      exact hbegun.mono hsame.begun htables fun base g j hj => ⟨j, hrecords ▸ hj, rfl⟩
  | @begun_shared staging active slot _ hsame htables hrecords =>
      obtain ⟨state, shared, hsettled, hshared, -, -, hstaging, -, hactive, hempty⟩ := hc
      have hwell := (hw.memory state hsettled.1).1
      obtain ⟨hloading, -, -, path, hlane⟩ := sharing_of_shared hwell hshared
      have hcutover := no_checkpoint hwell (by rw [hloading]; decide)
      have hlanes := h.lanes state (.inr hsettled.1)
      have hlanes₁ : LaneSets (w.start_import .Backup staging) state :=
        hlanes.staging_begun hcutover fun _ => hstaging
      have hone₁ : OneSet (w.start_import .Backup staging) := by
        refine h.one.begun fun base j hj => ?_
        rw [hempty base] at hj
        cases hj
      have hbegun : Selected ((w.start_import .Backup staging).start_import .Active active) := by
        refine ⟨hone₁.active_begun hlanes₁ hcutover hactive, fun s hs => ?_⟩
        have hs : InForce w s := hs
        obtain rfl := hs.of_settled hw hsettled
        exact hlanes₁.active_begun hcutover hactive
      exact hbegun.mono hsame.begun.begun htables fun base g j hj => ⟨j, hrecords ▸ hj, rfl⟩
  | @begun_staging snapshot slot hot_mints _ hsame htables hrecords =>
      obtain ⟨state, hsettled, hloading, hset⟩ := hc
      have hwell := (hw.memory state hsettled.1).1
      have hcutover : state.cutover = none := by
        cases hcut : state.cutover with
        | none => rfl
        | some checkpoint =>
            have hpending := (cutting_of_checkpoint hwell hcut).2.2.1
            rw [hloading] at hpending
            cases hpending
      have hlanes := h.lanes state (.inr hsettled.1)
      have hpast : PastLoading state.staging := .inr (.inr (.inl hloading))
      have hbegun : Selected (w.start_import .Backup
          ⟨.Incremental snapshot, .Incremental, hot_mints, false⟩) := by
        refine ⟨h.one.begun fun base j hj => ?_, fun s hs => ?_⟩
        · have hstaging := hlanes.staging hpast
          rw [staging_tables_of_none hcutover] at hstaging
          have hsame := hstaging base j hj
          rw [hset] at hsame
          exact (Option.some.inj hsame).symm
        · have hs : InForce w s := hs
          obtain rfl := hs.of_settled hw hsettled
          exact hlanes.staging_begun hcutover fun _ => hset
      exact hbegun.mono hsame.begun htables fun base g j hj => ⟨j, hrecords ▸ hj, rfl⟩

/-- A new process has them from the journal on disk. -/
theorem Selected.restarted (h : Selected w) (process : Process) (hmemory : process.memory = none) :
    Selected { w with process := process } := by
  refine ⟨h.one, fun s hs => ?_⟩
  have hs : InForce w s := by
    rcases hs with hs | hs
    · exact .inl hs
    · rw [show process.memory = some s from hs] at hmemory
      cases hmemory
  exact (h.lanes s hs).of_imports rfl rfl fun _ _ => rfl

/-- A new process goes by the sets of the one before. -/
theorem Selected.started {args : Args} (h : Selected m.world)
    (hcond : reads_frozen_sets m (.start args) = true) :
    Selected (m.world.started args.bootstrap) := by
  refine ⟨h.one, fun s hs => ?_⟩
  have hjournal : m.world.directory.journal = some s := hs.resolve_right nofun
  have hlanes := h.lanes s (.inl hjournal)
  refine ⟨fun hpath base i hi => ?_, fun hpast base i hi => ?_⟩
  · rw [hot_mints_of_start hcond hjournal (.inl rfl)]
    exact hlanes.active hpath base i hi
  · rw [hot_mints_of_start hcond hjournal (.inr rfl)]
    exact hlanes.staging hpast base i hi

/-- What a lane goes by is its set, where one is frozen and where it is read back. -/
def keeps_frozen_sets (m : Machine) (l : Label) : Bool :=
  freezes_used_set m l && reads_frozen_sets m l

theorem keeps_frozen_sets_iff {l : Label} : keeps_frozen_sets m l = true ↔
    freezes_used_set m l = true ∧ reads_frozen_sets m l = true := by
  rw [keeps_frozen_sets, Bool.and_eq_true]

/-- Every step that meets the condition keeps them. -/
theorem kept_selected : Kept state_path (fun m l => keeps_frozen_sets m l = true) Selected where
  start := fun _ h hcond => h.started (keeps_frozen_sets_iff.mp hcond).2
  stopped := fun h => h.restarted _ rfl
  reply := fun hs h hc hcond hr => h.answered hs.world (hs.allowed hc)
    (fun _ _ hcall => by subst hcall; exact useSet_of_freezes (keeps_frozen_sets_iff.mp hcond).1 hc)
    (effect_of_respond hr)
  killed := fun hs h hc hcond hr => (h.answered hs.world (hs.allowed hc)
    (fun _ _ hcall => by subst hcall; exact useSet_of_freezes (keeps_frozen_sets_iff.mp hcond).1 hc)
    (effect_of_respond hr)).restarted _ rfl

/-- **A generation keeps one hot-mint set**, in every run in which active's set is
frozen anew only as the set its tables were imported under, and in which no start reads
a mint file of the journal as another set: all imports into a table since it was last
emptied use one set, which for a lane of the journal is the one its file was written
from. -/
theorem generation_keeps_set {files : List (String × List Char)} {labels : List Label}
    (halong : Lts.Along (step state_path) (fun m l => keeps_frozen_sets m l = true)
      (.initial files) labels)
    (hrun : Lts.run (step state_path) (.initial files) labels = some m) :
    OneSet m.world ∧ ∀ s, m.world.directory.journal = some s → LaneSets m.world s ∧
      m.world.hot_mints s.active = m.world.written_mints s.active ∧
      m.world.hot_mints s.staging = m.world.written_mints s.staging := by
  have hinitial : Selected (Machine.initial files).world :=
    ⟨fun _ _ _ hi => (nomatch hi), fun s hs => by rcases hs with h | h <;> cases h⟩
  have hinitial' : AllAsWritten (Machine.initial files).world := fun s hs => by
    rcases hs with h | h <;> cases h
  have halong' : Lts.Along (step state_path) (fun m l => reads_frozen_sets m l = true)
      (.initial files) labels := halong.mono fun _ _ hcond => (keeps_frozen_sets_iff.mp hcond).2
  obtain ⟨-, h⟩ := kept_selected.along (sound_initial files) hinitial halong hrun
  obtain ⟨-, hwritten⟩ := kept_as_written.along (sound_initial files) hinitial' halong' hrun
  refine ⟨h.one, fun s hs => ⟨h.lanes s (.inl hs), ?_, ?_⟩⟩
  · exact hot_mints_as_written (hwritten s (.inl hs)).active
  · exact hot_mints_as_written (hwritten s (.inl hs)).staging

/-- An incremental goes into active under the set enabled at the first start. -/
def imported_once (mint : String) : List Label :=
  first_start 0 {mint} "d/solana-snapshot-etl-hot-mints-1.1.txt" [mint] ++
    listing [⟨"incremental-0-5", 0, 5⟩] [] ++ oks 5 ++ [.turn]

theorem generation_keeps_set_once : ∃ m,
    Lts.run (step "d/state.json") (.initial []) (imported_once "a") = some m ∧
      (m.world.records .raw_account .first).imports ≠ [] ∧ OneSet m.world := by
  have hrun : ((Lts.run (step "d/state.json") (.initial []) (imported_once "a")).map fun m =>
      !(m.world.records .raw_account .first).imports.isEmpty) = some true := by
    decide +kernel
  obtain ⟨m, hrun, hfinal⟩ := Option.map_eq_some_iff.mp hrun
  refine ⟨m, hrun, fun hnil => ?_, (generation_keeps_set (Lts.along_of_check ?_) hrun).1⟩
  · rw [hnil] at hfinal
    cases hfinal
  · decide +kernel

/-- The process is started again with an explicit bootstrap, another set is enabled
by then, and the next incremental goes in under that. -/
def imported_again : List Label :=
  imported_once "a" ++ [.crash none, .start ⟨true, DEFAULT_RESUME_SLOT_REWIND⟩,
    .reply (.slot 5)] ++ oks 5 ++ [.reply (.hot_mints {"b"}),
      .reply (.written "d/solana-snapshot-etl-hot-mints-1.2.txt" ["b"]), .reply .ok, .turn] ++
    listing [⟨"incremental-5-9", 5, 9⟩] [] ++ oks 3

theorem two_sets_after_bootstrap : ∃ m, Reachable "d/state.json" m ∧ ¬ OneSet m.world := by
  have hrun : ((Lts.run (step "d/state.json") (.initial []) imported_again).map fun m =>
      ((m.world.records .raw_account .first).imports.map Import.hot_mints)) =
        some [{"b"}, {"a"}] := by
    decide +kernel
  obtain ⟨m, hrun, himports⟩ := Option.map_eq_some_iff.mp hrun
  refine ⟨m, ⟨[], _, hrun⟩, fun hone => ?_⟩
  have hmem : ∀ mints ∈ [({"b"} : HotMintSet), {"a"}],
      ∃ i ∈ (m.world.records .raw_account .first).imports, i.hot_mints = mints := by
    intro mints hmints
    rw [← himports] at hmints
    exact List.mem_map.mp hmints
  obtain ⟨i, hi, hb⟩ := hmem {"b"} (by simp)
  obtain ⟨j, hj, ha⟩ := hmem {"a"} (by simp)
  have hsame := hone .raw_account .first i hi j hj
  rw [hb, ha] at hsame
  exact absurd hsame (by decide)

/-- The process is started again as it is, on a set of one mint that ends in a carriage
return, and the next incremental goes in under what is left of that. -/
def imported_reread : List Label :=
  imported_once "a\r" ++ [.crash none, .start ⟨false, DEFAULT_RESUME_SLOT_REWIND⟩] ++ oks 3 ++
    [.turn] ++ listing [⟨"incremental-5-9", 5, 9⟩] [] ++ oks 3

example : ((Lts.run (step "d/state.json") (.initial []) imported_reread).map fun m =>
    ((m.world.records .raw_account .first).imports.map Import.hot_mints)) =
      some [{"a"}, {"a\r"}] := by
  decide +kernel

end SnapshotEtl.Watcher
