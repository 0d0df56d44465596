/-
What the watcher may ask of its environment, and what that keeps true.

`JournalStep` lists the journals it may try to write after the one it holds, and
`Allowed` says for every call when it may be made. Neither mentions the program.
From them alone it follows that every journal that can be on disk is well formed
and that its mint files are there, which is all the program needs to know about
the disk it starts from. That the program keeps to them is shown elsewhere.
-/
import SnapshotEtl.Watcher.Loop

set_option autoImplicit false

namespace SnapshotEtl.Watcher

open Lib
open HotMintFiles (hot_mints_text)

/-! ## Well-formed journals -/

/-- A lane with a committed slot, at or past its full. -/
def Committed (lane : LaneWatcherState) : Prop :=
  ∃ slot, lane.max_slot = some slot ∧ ∀ full, lane.full_snapshot = some full → full.slot ≤ slot

/-- A lane past full loading. -/
structure Built (lane : LaneWatcherState) : Prop where
  full : lane.full_snapshot.isSome
  committed : Committed lane
  hot_mints : lane.hot_mints_path.isSome

/-- An active lane between cutovers: at rest, or importing an incremental. -/
def Serving (lane : LaneWatcherState) : Prop :=
  lane.phase = .Ready ∨
    (lane.phase = .IncrementalLoading ∧ lane.inflight_incremental = some ⟨.Incremental⟩)

/-- A staging lane that is merging, at rest, or importing its first incremental. -/
def Preparing (lane : LaneWatcherState) : Prop :=
  lane.phase = .FullMerging ∨ lane.phase = .Ready ∨
    (lane.phase = .IncrementalLoading ∧ lane.inflight_incremental = some ⟨.Incremental⟩)

/-- The four joint positions of the two lanes. -/
inductive Stage (s : WatcherState) : Prop
  | serving (hactive : Serving s.active) (hstaging : s.staging.phase = .Disabled)
      (hpath : s.staging.hot_mints_path = none) (hcutover : s.cutover = none)
      (hshared : s.shared_full_load = none)
  | sharing (shared : SharedFullLoadWatcherState) (path : String)
      (hactive : s.active.phase = .IncrementalLoading)
      (hinflight : s.active.inflight_incremental = some ⟨.Full⟩)
      (hslot : s.active.max_slot = some shared.active_resume_slot)
      (hnewer : ∀ full, s.active.full_snapshot = some full → full.slot < shared.snapshot.slot)
      (hmints : s.active.hot_mints_path.isSome)
      (hstaging : s.staging =
        { LaneWatcherState.full_loading shared.snapshot with hot_mints_path := some path })
      (hcutover : s.cutover = none) (hshared : s.shared_full_load = some shared)
  | preparing (hactive : Serving s.active) (hmints : s.active.hot_mints_path.isSome)
      (hstaging : Preparing s.staging) (hbuilt : Built s.staging)
      (hcutover : s.cutover = none) (hshared : s.shared_full_load = none)
  | cutting (hactive : s.active.phase = .CutoverPending) (hmints : s.active.hot_mints_path.isSome)
      (hstaging : s.staging.phase = .CutoverPending) (hbuilt : Built s.staging)
      (hshared : s.shared_full_load = none)

structure WellFormed (s : WatcherState) : Prop where
  committed : Committed s.active
  stage : Stage s
  paired : ∀ checkpoint, s.cutover = some checkpoint →
    ∀ base, checkpoint.staging_tables base = (checkpoint.active_tables base).other

/-! ## The journals it may write -/

/-- The file is there, with the text of every mint it was written from. -/
def Holds (frozen : List (String × MintFile)) (files : List (String × List Char))
    (path : String) : Prop :=
  ∃ file, files.lookup path = some file.text ∧ frozen.lookup path = some file

/-- It is there, just written. -/
def HoldsNew (frozen : List (String × MintFile)) (files : List (String × List Char))
    (path : String) : Prop :=
  ∃ lines, files.lookup path = some (hot_mints_text lines) ∧
    frozen.lookup path = some (.written lines)

/-- A file that was just written is held. -/
theorem HoldsNew.holds {frozen : List (String × MintFile)} {files : List (String × List Char)}
    {path : String} (h : HoldsNew frozen files path) : Holds frozen files path :=
  have ⟨lines, hread, hlookup⟩ := h
  ⟨.written lines, hread, hlookup⟩

/-- The lane's slot moves on. A process that could not write the completion of a
shared full goes by an older slot of active, which its full is still before. -/
structure Advances (lagging : Bool) (lane : LaneWatcherState) (slot : Slot) : Prop where
  full : ∀ full, lane.full_snapshot = some full → full.slot ≤ slot
  slot : lagging = false → ∀ old, lane.max_slot = some old → old < slot

/-- The backup tables hold the one import of the full, and nothing else. -/
def Loaded (w : World) (full : FullSnapshotWatcherState) (hot_mints : Option HotMintSet) : Prop :=
  ∀ base, ∃ snapshot mints, full_snapshot_state snapshot = full ∧ some mints = hot_mints ∧
    w.records base (w.physical .Backup base) = ⟨[⟨.Full snapshot, .Full, mints, true⟩], []⟩

/-- What may be written after the journal in memory, or, by a process that holds
none yet, at its start. -/
inductive JournalStep (w : World) : Option WatcherState → WatcherState → Prop
  | initialise (slot : Slot) (h : w.process.bootstrap = true ∨ w.directory.journal = none) :
      JournalStep w none (.recovered_active_only slot)
  | freeze {s : WatcherState} {path : String} (hnone : s.active.hot_mints_path = none)
      (hfile : HoldsNew w.frozen w.directory.files path) :
      JournalStep w (some s) (s.freeze_active_hot_mints path)
  | begin_active {s : WatcherState} {candidate : IncrementalSnapshot} (hactive : Serving s.active)
      (hshared : s.shared_full_load = none)
      (hslot : Advances w.process.lagging s.active candidate.slot) :
      JournalStep w (some s) (s.begin_active_incremental (.Incremental candidate))
  | commit_active {s : WatcherState} {slot : Slot} (hactive : s.active.phase = .IncrementalLoading)
      (hshared : s.shared_full_load = none) (hslot : Advances w.process.lagging s.active slot) :
      JournalStep w (some s) (s.commit_active_incremental slot)
  | abandon_active {s : WatcherState} (hactive : s.active.phase = .IncrementalLoading)
      (hshared : s.shared_full_load = none) : JournalStep w (some s) s.abandon_active_incremental
  | begin_shared {s : WatcherState} {snapshot : FullSnapshot} {resume : Slot} {path : String}
      (hactive : s.active.phase = .Ready) (hslot : s.active.max_slot = some resume)
      (hmints : s.active.hot_mints_path.isSome) (hstaging : s.staging.phase = .Disabled)
      (hnewer : ∀ full, s.active.full_snapshot = some full → full.slot < snapshot.slot)
      (hfile : HoldsNew w.frozen w.directory.files path) :
      JournalStep w (some s) (s.begin_shared_full_load snapshot resume path)
  | commit_shared {s : WatcherState} {shared : SharedFullLoadWatcherState}
      (hshared : s.shared_full_load = some shared)
      (hloaded : Loaded w shared.snapshot (w.hot_mints s.staging)) :
      JournalStep w (some s) (s.commit_shared_full_load shared.snapshot.slot)
  | settle_staging {s : WatcherState} (hstaging : s.staging.phase = .FullMerging) :
      JournalStep w (some s) s.settle_staging
  | begin_staging {s : WatcherState} {candidate : IncrementalSnapshot}
      (hstaging : s.staging.phase = .Ready) :
      JournalStep w (some s) (s.begin_staging_incremental (.Incremental candidate))
  | abandon_staging {s : WatcherState} (hstaging : s.staging.phase = .IncrementalLoading) :
      JournalStep w (some s) s.abandon_staging_incremental
  | commit_staging {s : WatcherState} {slot : Slot} (hactive : s.active.phase = .Ready)
      (hstaging : s.staging.phase = .IncrementalLoading) (hslot : Advances false s.staging slot) :
      JournalStep w (some s) (s.commit_staging_incremental slot)
  | checkpoint {s : WatcherState} (hactive : s.active.phase = .CutoverPending)
      (hcutover : s.cutover = none) :
      JournalStep w (some s) (s.checkpoint_cutover (w.physical .Active) (w.physical .Backup))
  | commit_cutover {s : WatcherState} {checkpoint : CutoverWatcherState}
      (hcutover : s.cutover = some checkpoint)
      (htables : ∀ base, w.tables base = checkpoint.staging_tables base) :
      JournalStep w (some s) s.commit_cutover

/-! ### They are well formed -/

/-- An advanced lane has its full and a slot. -/
theorem Advances.committed {lagging : Bool} {lane lane' : LaneWatcherState} {slot : Slot}
    (h : Advances lagging lane slot) (hfull : lane'.full_snapshot = lane.full_snapshot)
    (hslot : lane'.max_slot = some slot) : Committed lane' :=
  ⟨slot, hslot, fun full hf => h.full full (hfull ▸ hf)⟩

/-- Committed reads the full and the slot of a lane. -/
theorem Committed.congr {lane lane' : LaneWatcherState} (h : Committed lane)
    (hfull : lane'.full_snapshot = lane.full_snapshot) (hslot : lane'.max_slot = lane.max_slot) :
    Committed lane' := by
  obtain ⟨slot, hs, hle⟩ := h
  exact ⟨slot, hslot.trans hs, fun full hf => hle full (hfull ▸ hf)⟩

/-- Built reads the full, the slot and the mint file of a lane. -/
theorem Built.congr {lane lane' : LaneWatcherState} (h : Built lane)
    (hfull : lane'.full_snapshot = lane.full_snapshot) (hslot : lane'.max_slot = lane.max_slot)
    (hmints : lane'.hot_mints_path = lane.hot_mints_path) : Built lane' :=
  ⟨hfull ▸ h.full, h.committed.congr hfull hslot, hmints ▸ h.hot_mints⟩

/-- Where active is between cutovers and no full is shared, any other position
between cutovers will do. -/
theorem Stage.serving_active {s s' : WatcherState} (h : Stage s)
    (hphase : s.active.phase = .Ready ∨ s.active.phase = .IncrementalLoading)
    (hshared : s.shared_full_load = none) (hactive : Serving s'.active)
    (hmints : s'.active.hot_mints_path = s.active.hot_mints_path)
    (hstaging : s'.staging = s.staging) (hcutover : s'.cutover = s.cutover)
    (hshared' : s'.shared_full_load = none) : Stage s' := by
  cases h with
  | serving _ hdisabled hpath hcut _ =>
      exact .serving hactive (hstaging ▸ hdisabled) (hstaging ▸ hpath) (hcutover.trans hcut)
        hshared'
  | sharing _ _ _ _ _ _ _ _ _ hsome => rw [hshared] at hsome; cases hsome
  | preparing _ hpath hprep hbuilt hcut _ =>
      exact .preparing hactive (hmints ▸ hpath) (hstaging ▸ hprep) (hstaging ▸ hbuilt)
        (hcutover.trans hcut) hshared'
  | cutting hpending => rcases hphase with h | h <;> rw [hpending] at h <;> cases h

/-- Where staging is past full loading and before the cutover, so is any other
position it may take. -/
theorem Stage.preparing_staging {s s' : WatcherState} (h : Stage s)
    (hphase : s.staging.phase = .FullMerging ∨ s.staging.phase = .Ready ∨
      s.staging.phase = .IncrementalLoading)
    (hactive : s'.active = s.active) (hstaging : Preparing s'.staging)
    (hfull : s'.staging.full_snapshot = s.staging.full_snapshot)
    (hslot : s'.staging.max_slot = s.staging.max_slot)
    (hpath : s'.staging.hot_mints_path = s.staging.hot_mints_path)
    (hcutover : s'.cutover = s.cutover) (hshared : s'.shared_full_load = s.shared_full_load) :
    Stage s' := by
  cases h with
  | serving _ hdisabled => simp [hdisabled] at hphase
  | sharing _ _ _ _ _ _ _ hload =>
      simp [hload, LaneWatcherState.full_loading, LaneWatcherState.disabled] at hphase
  | preparing hserving hmints _ hbuilt hcut hsh =>
      exact .preparing (hactive ▸ hserving) (hactive ▸ hmints) hstaging
        (hbuilt.congr hfull hslot hpath) (hcutover.trans hcut) (hshared.trans hsh)
  | cutting _ _ hpending => simp [hpending] at hphase

/-- The state recovered from an active group alone is well formed. -/
theorem wellFormed_recovered (slot : Slot) : WellFormed (.recovered_active_only slot) where
  committed := ⟨slot, rfl, fun full hf => by
    simp [WatcherState.recovered_active_only, LaneWatcherState.disabled] at hf⟩
  stage := .serving (.inl rfl) rfl rfl rfl rfl
  paired := fun _ hcutover => nomatch hcutover

/-- What may be written is well formed. -/
theorem JournalStep.wellFormed {w : World} {memory : Option WatcherState} {s' : WatcherState}
    (h : JournalStep w memory s') (hmemory : ∀ s, memory = some s → WellFormed s) :
    WellFormed s' := by
  cases h with
  | initialise slot => exact wellFormed_recovered slot
  | @freeze s path hnone hfile =>
      have hs := hmemory s rfl
      refine ⟨hs.committed.congr rfl rfl, ?_, hs.paired⟩
      cases hs.stage with
      | serving hactive hstaging hpath hcutover hshared =>
          exact .serving hactive hstaging hpath hcutover hshared
      | sharing _ _ _ _ _ _ hmints => simp [hnone] at hmints
      | preparing _ hmints => simp [hnone] at hmints
      | cutting _ hmints => simp [hnone] at hmints
  | @begin_active s candidate hactive hshared hslot =>
      have hs := hmemory s rfl
      refine ⟨hs.committed.congr rfl rfl, hs.stage.serving_active ?_ hshared (.inr ⟨rfl, rfl⟩) rfl
        rfl rfl hshared, hs.paired⟩
      rcases hactive with h | h
      · exact .inl h
      · exact .inr h.1
  | @commit_active s slot hactive hshared hslot =>
      have hs := hmemory s rfl
      exact ⟨hslot.committed rfl rfl, hs.stage.serving_active (.inr hactive) hshared
        (.inl rfl) rfl rfl rfl hshared, hs.paired⟩
  | @abandon_active s hactive hshared =>
      have hs := hmemory s rfl
      exact ⟨hs.committed.congr rfl rfl, hs.stage.serving_active (.inr hactive) hshared
        (.inl rfl) rfl rfl rfl hshared, hs.paired⟩
  | @begin_shared s snapshot resume path hactive hslot hmints hstaging hnewer hfile =>
      have hs := hmemory s rfl
      exact ⟨hs.committed.congr rfl rfl,
        .sharing ⟨full_snapshot_state snapshot, resume⟩ path rfl rfl hslot hnewer hmints
          rfl rfl rfl,
        fun _ hcutover => nomatch hcutover⟩
  | @commit_shared s shared hshared hloaded =>
      have hs := hmemory s rfl
      cases hs.stage with
      | serving _ _ _ _ hnone => rw [hnone] at hshared; cases hshared
      | preparing _ _ _ _ _ hnone => rw [hnone] at hshared; cases hshared
      | cutting _ _ _ _ hnone => rw [hnone] at hshared; cases hshared
      | sharing sh path hactive hinflight hslot hnewer hmints hstaging hcutover hsome =>
          -- the shared load ends: staging holds the full it was loading, and active is behind it
          obtain rfl : sh = shared := Option.some.inj (hsome.symm.trans hshared)
          refine ⟨⟨_, rfl, fun full hf => (hnewer full hf).le⟩, ?_, hs.paired⟩
          refine .preparing (.inl rfl) hmints (.inl rfl) ⟨?_, ⟨_, rfl, ?_⟩, ?_⟩ hcutover rfl
          · simp [WatcherState.commit_shared_full_load, hstaging, LaneWatcherState.full_loading]
          · intro full hf
            simp [WatcherState.commit_shared_full_load, hstaging,
              LaneWatcherState.full_loading] at hf
            simp [← hf]
          · simp [WatcherState.commit_shared_full_load, hstaging]
  | @settle_staging s hstaging =>
      have hs := hmemory s rfl
      exact ⟨hs.committed, hs.stage.preparing_staging (.inl hstaging) rfl (.inr (.inl rfl)) rfl rfl
        rfl rfl rfl, hs.paired⟩
  | @begin_staging s candidate hstaging =>
      have hs := hmemory s rfl
      exact ⟨hs.committed, hs.stage.preparing_staging (.inr (.inl hstaging)) rfl
        (.inr (.inr ⟨rfl, rfl⟩)) rfl rfl rfl rfl rfl, hs.paired⟩
  | @abandon_staging s hstaging =>
      have hs := hmemory s rfl
      exact ⟨hs.committed, hs.stage.preparing_staging (.inr (.inr hstaging)) rfl (.inr (.inl rfl))
        rfl rfl rfl rfl rfl, hs.paired⟩
  | @commit_staging s slot hactive hstaging hslot =>
      have hs := hmemory s rfl
      refine ⟨hs.committed.congr rfl rfl, ?_, hs.paired⟩
      cases hs.stage with
      | serving _ hdisabled => rw [hdisabled] at hstaging; cases hstaging
      | sharing _ _ _ _ _ _ _ hload => rw [hload] at hstaging; cases hstaging
      | cutting _ _ hpending => rw [hpending] at hstaging; cases hstaging
      | preparing hserving hmints hprep hbuilt hcutover hshared =>
          -- the last incremental of staging: what it has built is what the cutover will serve
          exact .cutting rfl hmints rfl
            ⟨hbuilt.full, hslot.committed rfl rfl, hbuilt.hot_mints⟩ hshared
  | @checkpoint s hactive hcutover =>
      have hs := hmemory s rfl
      refine ⟨hs.committed, ?_, fun c hc base => ?_⟩
      rotate_left
      · obtain rfl := Option.some.inj hc
        rfl
      cases hs.stage with
      | serving hserving => rcases hserving with h | h <;> simp [hactive] at h
      | sharing _ _ hloading => rw [hactive] at hloading; cases hloading
      | preparing hserving => rcases hserving with h | h <;> simp [hactive] at h
      | cutting hpending hmints hstaging hbuilt hshared =>
          exact .cutting hpending hmints hstaging hbuilt hshared
  | @commit_cutover s checkpoint hcutover htables =>
      have hs := hmemory s rfl
      cases hs.stage with
      | serving _ _ _ hnone => rw [hnone] at hcutover; cases hcutover
      | sharing _ _ _ _ _ _ _ _ hnone => rw [hnone] at hcutover; cases hcutover
      | preparing _ _ _ _ hnone => rw [hnone] at hcutover; cases hcutover
      | cutting hpending hmints hstaging hbuilt hshared =>
          -- active becomes what staging has built, and staging is disabled
          exact ⟨hbuilt.committed.congr rfl rfl, .serving (.inl rfl) rfl rfl rfl rfl,
            fun _ hnone => nomatch hnone⟩

/-! ### Their mint files are there -/

/-- Every file a journal names is there. -/
structure Held (frozen : List (String × MintFile)) (files : List (String × List Char))
    (s : WatcherState) : Prop where
  active : ∀ path, s.active.hot_mints_path = some path → Holds frozen files path
  staging : ∀ path, s.staging.hot_mints_path = some path → Holds frozen files path

/-- A journal that may be written next names only mint files that are held. -/
theorem JournalStep.held {w : World} {memory : Option WatcherState} {s' : WatcherState}
    (h : JournalStep w memory s')
    (hmemory : ∀ s, memory = some s → Held w.frozen w.directory.files s) :
    Held w.frozen w.directory.files s' := by
  cases h with
  | initialise slot => exact ⟨fun _ hp => (nomatch hp), fun _ hp => (nomatch hp)⟩
  | @freeze s path hnone hfile =>
      refine ⟨fun p hp => ?_, (hmemory s rfl).staging⟩
      obtain rfl : path = p := Option.some.inj hp
      exact hfile.holds
  | @begin_shared s snapshot resume path hactive hslot hmints hstaging hnewer hfile =>
      refine ⟨(hmemory s rfl).active, fun p hp => ?_⟩
      obtain rfl : path = p := Option.some.inj hp
      exact hfile.holds
  | @commit_cutover s checkpoint =>
      exact ⟨(hmemory s rfl).staging, fun _ hp => (nomatch hp)⟩
  | @begin_active s candidate => exact ⟨(hmemory s rfl).active, (hmemory s rfl).staging⟩
  | @commit_active s slot => exact ⟨(hmemory s rfl).active, (hmemory s rfl).staging⟩
  | @abandon_active s => exact ⟨(hmemory s rfl).active, (hmemory s rfl).staging⟩
  | @commit_shared s shared => exact ⟨(hmemory s rfl).active, (hmemory s rfl).staging⟩
  | @settle_staging s => exact ⟨(hmemory s rfl).active, (hmemory s rfl).staging⟩
  | @begin_staging s candidate => exact ⟨(hmemory s rfl).active, (hmemory s rfl).staging⟩
  | @abandon_staging s => exact ⟨(hmemory s rfl).active, (hmemory s rfl).staging⟩
  | @commit_staging s slot => exact ⟨(hmemory s rfl).active, (hmemory s rfl).staging⟩
  | @checkpoint s => exact ⟨(hmemory s rfl).active, (hmemory s rfl).staging⟩

/-! ## What may be asked -/

/-- The journal in memory is the one on disk. -/
def Settled (w : World) (s : WatcherState) : Prop :=
  w.process.memory = some s ∧ w.process.failed = none

/-- A shared full is checkpointed, or its completion could not be written. -/
def Loading (w : World) : Prop :=
  (∃ s shared, Settled w s ∧ s.shared_full_load = some shared) ∨
    w.process.failed = some .shared_commit

/-- The incremental starts no later than the slot and ends beyond it. -/
def Continues (slot : Slot) (snapshot : IncrementalSnapshot) : Prop :=
  snapshot.base_slot ≤ slot ∧ slot < snapshot.slot

/-- What the watcher knows when it has nothing to do. -/
structure Idle (w : World) (s : WatcherState) (active_slot : Slot)
    (incrementals : List IncrementalSnapshot) (fulls : List FullSnapshot) : Prop where
  memory : w.process.memory = some s
  ready : s.active.phase = .Ready
  slot : w.process.lagging = false → s.active.max_slot = some active_slot
  incrementals : ∀ snapshot ∈ incrementals, ¬ Continues active_slot snapshot
  staging : w.process.staging_build = false → w.process.staging_incremental = false →
    s.staging.phase = .Disabled ∨ s.staging.phase = .Ready
  fulls : s.staging.phase = .Disabled → ∀ slot, s.active.max_slot = some slot →
    ∀ snapshot ∈ fulls, snapshot.slot ≤ slot

/-- When each call may be made. -/
def Allowed (state_path : String) (w : World) : Call → Prop
  | .load_watcher_state => w.process.memory = none
  | .persist_watcher_state s => w.process.failed ≠ some .other ∧ JournalStep w w.process.memory s
  | .remove_file path => is_managed_hot_mints_file path (parent state_path) = true ∧
      ∃ s, Settled w s ∧ referenced s path = false
  | .stop_group_merges group | .reset_group group => group = .Backup ∧ Loading w
  | .begin_import group i => group = .Active ∧ i.kind = .Incremental ∧ ∃ s, Settled w s ∧
      s.active.phase = .IncrementalLoading ∧ s.shared_full_load = none ∧
      w.hot_mints s.active = some i.hot_mints
  | .begin_shared_import staging active _ => ∃ s shared, Settled w s ∧
      s.shared_full_load = some shared ∧
      (∃ snapshot, full_snapshot_state snapshot = shared.snapshot ∧
        staging.archive = .Full snapshot) ∧ staging.kind = .Full ∧
      w.hot_mints s.staging = some staging.hot_mints ∧ active.kind = .Incremental ∧
      w.hot_mints s.active = some active.hot_mints ∧
      ∀ base, w.records base (w.physical .Backup base) = .empty
  | .exchange_tables base => ∃ s checkpoint, Settled w s ∧ s.cutover = some checkpoint ∧
      w.physical .Active base = checkpoint.active_tables base ∧
      w.physical .Backup base = checkpoint.staging_tables base ∧
      w.process.importing = [] ∧ w.process.staging_incremental = false
  | .spawn_staging_incremental _ _ hot_mints => ∃ s, Settled w s ∧
      s.staging.phase = .IncrementalLoading ∧ w.hot_mints s.staging = some hot_mints
  | .sleep s active_slot incrementals fulls => Idle w s active_slot incrementals fulls
  | .raise _ => False
  | .spawn_staging_full _ | .try_recv_full_imported | .send_full_import_ack |
    .send_full_imported _ | .recv_full_import_ack => False
  | .start_group_merges _ | .wait_for_group_merges_to_settle _ => False
  | _ => True

/-! ## What stays true -/

/-- Any journal that can be on disk is well formed and its files are there; so
is the one in memory, which differs from the disk's only by a failed write. -/
structure Inv (w : World) : Prop where
  directories : ∀ d ∈ w.directory :: w.unsynced, ∀ s, d.journal = some s →
    WellFormed s ∧ Held w.frozen d.files s
  memory : ∀ s, w.process.memory = some s → WellFormed s ∧ Held w.frozen w.directory.files s
  settled : ∀ s, Settled w s → w.directory.journal = some s

/-- The active lane of a well-formed state is never disabled. -/
theorem active_not_disabled {s : WatcherState} (h : WellFormed s) : s.active.phase ≠ .Disabled := by
  cases h.stage with
  | serving hactive => rcases hactive with h | h <;> simp [h]
  | sharing _ _ hactive => simp [hactive]
  | preparing hactive => rcases hactive with h | h <;> simp [h]
  | cutting hactive => simp [hactive]

/-- A disabled staging lane names no mint file. -/
theorem staging_path_of_disabled {s : WatcherState} (h : WellFormed s)
    (hdisabled : s.staging.phase = .Disabled) : s.staging.hot_mints_path = none := by
  cases h.stage with
  | serving _ _ hpath => exact hpath
  | sharing _ _ _ _ _ _ _ hload => rw [hload] at hdisabled; cases hdisabled
  | preparing _ _ hprep => rcases hprep with h | h | h <;> simp [hdisabled] at h
  | cutting _ _ hpending => rw [hdisabled] at hpending; cases hpending

/-- Where a full is shared, the lanes say so. -/
theorem sharing_of_shared {s : WatcherState} {shared : SharedFullLoadWatcherState}
    (h : WellFormed s) (hshared : s.shared_full_load = some shared) :
    s.active.phase = .IncrementalLoading ∧ s.active.inflight_incremental = some ⟨.Full⟩ ∧
      s.active.max_slot = some shared.active_resume_slot ∧ ∃ path, s.staging =
        { LaneWatcherState.full_loading shared.snapshot with hot_mints_path := some path } := by
  cases h.stage with
  | serving _ _ _ _ hnone => rw [hnone] at hshared; cases hshared
  | preparing _ _ _ _ _ hnone => rw [hnone] at hshared; cases hshared
  | cutting _ _ _ _ hnone => rw [hnone] at hshared; cases hshared
  | sharing sh path hactive hinflight hslot hnewer hmints hstaging hcutover hsome =>
      obtain rfl : sh = shared := Option.some.inj (hsome.symm.trans hshared)
      exact ⟨hactive, hinflight, hslot, path, hstaging⟩

/-- Where a journal has a checkpoint, the lanes are at the cutover. -/
theorem cutting_of_checkpoint {s : WatcherState} {checkpoint : CutoverWatcherState}
    (h : WellFormed s) (hcutover : s.cutover = some checkpoint) :
    s.active.phase = .CutoverPending ∧ s.active.hot_mints_path.isSome ∧
      s.staging.phase = .CutoverPending ∧ s.shared_full_load = none := by
  cases h.stage with
  | serving _ _ _ hnone => rw [hnone] at hcutover; cases hcutover
  | sharing _ _ _ _ _ _ _ _ hnone => rw [hnone] at hcutover; cases hcutover
  | preparing _ _ _ _ hnone => rw [hnone] at hcutover; cases hcutover
  | cutting hactive hmints hstaging _ hshared => exact ⟨hactive, hmints, hstaging, hshared⟩

/-- Anywhere else there is none. -/
theorem no_checkpoint {s : WatcherState} (h : WellFormed s)
    (hphase : s.active.phase ≠ .CutoverPending) : s.cutover = none := by
  cases hcutover : s.cutover with
  | none => rfl
  | some checkpoint => exact absurd (cutting_of_checkpoint h hcutover).1 hphase

/-- Staging goes to the cutover with its full behind it. -/
theorem built_of_cutting {s : WatcherState} (h : WellFormed s)
    (hstaging : s.staging.phase = .CutoverPending) : Built s.staging := by
  cases h.stage with
  | serving _ hdisabled => rw [hdisabled] at hstaging; cases hstaging
  | sharing _ _ _ _ _ _ _ hload => rw [hload] at hstaging; cases hstaging
  | preparing _ _ hprep => rcases hprep with h | h | h <;> simp [hstaging] at h
  | cutting _ _ _ hbuilt => exact hbuilt

/-- A file that is not referenced is not a lane's. -/
theorem not_named {s : WatcherState} (h : WellFormed s) {path : String}
    (hunused : referenced s path = false) :
    s.active.hot_mints_path ≠ some path ∧ s.staging.hot_mints_path ≠ some path := by
  simp only [referenced, Bool.or_eq_false_iff, Bool.and_eq_false_iff, decide_eq_false_iff_not,
    not_not] at hunused
  refine ⟨fun hp => ?_, fun hp => ?_⟩
  · rcases hunused.1 with h' | h'
    · exact active_not_disabled h h'
    · exact h' hp
  · rcases hunused.2 with h' | h'
    · rw [staging_path_of_disabled h h'] at hp
      cases hp
    · exact h' hp

/-- Held files stay held where the files of the two paths do. -/
theorem Held.imp {frozen frozen' : List (String × MintFile)}
    {files files' : List (String × List Char)} {s : WatcherState} (h : Held frozen files s)
    (himp : ∀ path, s.active.hot_mints_path = some path ∨ s.staging.hot_mints_path = some path →
      Holds frozen files path → Holds frozen' files' path) : Held frozen' files' s :=
  ⟨fun path hp => himp path (.inl hp) (h.active path hp),
    fun path hp => himp path (.inr hp) (h.staging path hp)⟩

/-- Removing one file leaves the others readable. -/
theorem lookup_filter_ne {files : List (String × List Char)} {path removed : String}
    (h : path ≠ removed) : (files.filter (·.1 ≠ removed)).lookup path = files.lookup path := by
  induction files with
  | nil => rfl
  | cons file files ih =>
      obtain ⟨name, text⟩ := file
      by_cases hname : name = removed
      · subst hname
        have hne : (path == name) = false := by simpa using h
        simpa [List.lookup_cons, hne] using ih
      · by_cases hpath : path = name
        · subst hpath
          simp [hname]
        · have hne : (path == name) = false := by simpa using hpath
          simpa [List.lookup_cons, hname, hne] using ih

/-- A held file survives the removal of another. -/
theorem Holds.removed {frozen : List (String × MintFile)} {files : List (String × List Char)}
    {path removed : String} (h : Holds frozen files path) (hne : path ≠ removed) :
    Holds frozen (files.filter (·.1 ≠ removed)) path := by
  obtain ⟨file, hread, hlookup⟩ := h
  exact ⟨file, (lookup_filter_ne hne).trans hread, hlookup⟩

section new_file

variable {frozen : List (String × MintFile)} {files : List (String × List Char)}
  {path new : String} {lines : List String}

/-- A set under a new name leaves the others as they are. -/
theorem Holds.frozen_again (h : Holds frozen files path) (hfresh : frozen.lookup new = none) :
    Holds ((new, .written lines) :: frozen) files path := by
  obtain ⟨old, hread, hlookup⟩ := h
  have hne : (path == new) = false := by
    rw [beq_eq_false_iff_ne]
    rintro rfl
    rw [hfresh] at hlookup
    cases hlookup
  exact ⟨old, hread, by rw [List.lookup_cons, hne]; exact hlookup⟩

/-- A held file survives the writing of a file under a fresh name. -/
theorem Holds.written (h : Holds frozen files path) (hfresh : frozen.lookup new = none) :
    Holds ((new, .written lines) :: frozen) ((new, hot_mints_text lines) :: files) path := by
  obtain ⟨old, hread, hlookup⟩ := h
  have hne : (path == new) = false := by
    rw [beq_eq_false_iff_ne]
    rintro rfl
    rw [hfresh] at hlookup
    cases hlookup
  exact ⟨old, by rw [List.lookup_cons, hne]; exact hread,
    by rw [List.lookup_cons, hne]; exact hlookup⟩

theorem holds_new :
    HoldsNew ((new, .written lines) :: frozen) ((new, hot_mints_text lines) :: files) new :=
  ⟨lines, List.lookup_cons_self, List.lookup_cons_self⟩

/-- A new process goes by the files that are there. -/
theorem Holds.started {w : World} (h : Holds w.frozen files path) (bootstrap : Bool) :
    Holds (w.started bootstrap).frozen files path := by
  obtain ⟨file, hread, hlookup⟩ := h
  refine ⟨{ file with reread := file.reread || !bootstrap }, hread, ?_⟩
  rw [World.started_lookup, hlookup]
  rfl

end new_file

/-! ### Under each call -/

variable {w w' : World}

/-- Nothing of it is about the tables or the threads. -/
theorem Inv.of_same (h : Inv w) (hdirectory : w'.directory = w.directory)
    (hunsynced : w'.unsynced = w.unsynced) (hfrozen : w'.frozen = w.frozen)
    (hmemory : w'.process.memory = w.process.memory)
    (hfailed : w'.process.failed = w.process.failed) : Inv w' where
  directories := by rw [hdirectory, hunsynced, hfrozen]; exact h.directories
  memory := by rw [hdirectory, hfrozen, hmemory]; exact h.memory
  settled := fun s hs => by
    rw [hdirectory]
    exact h.settled s ⟨hmemory ▸ hs.1, hfailed ▸ hs.2⟩

/-- Under the invariant a journal step is to a well-formed state whose files are held. -/
theorem Inv.written (h : Inv w) {s : WatcherState} (hs : JournalStep w w.process.memory s) :
    WellFormed s ∧ Held w.frozen w.directory.files s :=
  ⟨hs.wellFormed fun s hs => (h.memory s hs).1, hs.held fun s hs => (h.memory s hs).2⟩

/-- A journal write that completes keeps the invariant. -/
theorem Inv.persisted (h : Inv w) {s : WatcherState} (hs : JournalStep w w.process.memory s) :
    Inv (w.persisted s) where
  directories := by
    intro d hd s' hs'
    obtain rfl : d = { w.directory with journal := some s } := by simpa [World.persisted] using hd
    obtain rfl : s = s' := Option.some.inj hs'
    exact h.written hs
  memory := by
    intro s' hs'
    obtain rfl : s = s' := Option.some.inj hs'
    exact h.written hs
  settled := fun s' hs' => hs'.1

/-- So does one that stops after the rename, with the directory not yet synced. -/
theorem Inv.renamed (h : Inv w) {s : WatcherState} (hs : JournalStep w w.process.memory s) :
    Inv (w.renamed s) where
  directories := by
    intro d hd s' hs'
    rcases List.mem_cons.mp hd with rfl | hd
    · obtain rfl : s = s' := Option.some.inj hs'
      exact h.written hs
    · exact h.directories d hd s' hs'
  memory := by
    intro s' hs'
    obtain rfl : s = s' := Option.some.inj hs'
    exact h.written hs
  settled := fun s' hs' => hs'.1

/-- So does one that stops before the rename. -/
theorem Inv.unwritten (h : Inv w) {s : WatcherState} (hs : JournalStep w w.process.memory s) :
    Inv (w.unwritten s) where
  directories := h.directories
  memory := by
    intro s' hs'
    obtain rfl : s = s' := Option.some.inj hs'
    exact h.written hs
  settled := fun s' hs' => nomatch hs'.2

/-- Loading the journal keeps the invariant. -/
theorem Inv.loaded (h : Inv w) : Inv { w with process :=
    { w.process with memory := w.directory.journal, failed := none } } where
  directories := h.directories
  memory := fun s hs => h.directories w.directory (by simp) s hs
  settled := fun s hs => hs.1

/-- Freezing a set under a fresh name keeps the invariant. -/
theorem Inv.frozen_file (h : Inv w) {path : String} {lines : List String} {synced : Bool}
    (hfresh : w.frozen.lookup path = none) : Inv (w.frozen_file path lines synced) where
  directories := by
    intro d hd s hs
    rcases List.mem_cons.mp hd with rfl | hd
    · have hbefore := h.directories w.directory (by simp) s hs
      exact ⟨hbefore.1, hbefore.2.imp fun p _ hp => hp.written hfresh⟩
    · have hd' : d ∈ w.directory :: w.unsynced := by
        cases synced with
        | true => exact absurd hd (List.not_mem_nil)
        | false => exact hd
      have hbefore := h.directories d hd' s hs
      exact ⟨hbefore.1, hbefore.2.imp fun p _ hp => hp.frozen_again hfresh⟩
  memory := fun s hs =>
    have hbefore := h.memory s hs
    ⟨hbefore.1, hbefore.2.imp fun p _ hp => hp.written hfresh⟩
  settled := fun s hs => h.settled s hs

/-- Removing a file that the settled journal does not reference keeps the invariant. -/
theorem Inv.removed (h : Inv w) {path : String} {s : WatcherState} (hs : Settled w s)
    (hunused : referenced s path = false) : Inv (w.removed path) where
  directories := by
    intro d hd s' hs'
    rcases List.mem_cons.mp hd with rfl | hd
    · obtain rfl : s = s' := Option.some.inj ((h.settled s hs).symm.trans hs')
      have hbefore := h.memory s hs.1
      have hnot := not_named hbefore.1 hunused
      refine ⟨hbefore.1, hbefore.2.imp fun p hp hholds => hholds.removed ?_⟩
      rintro rfl
      exact hp.elim hnot.1 hnot.2
    · exact h.directories d hd s' hs'
  memory := by
    intro s' hs'
    obtain rfl : s = s' := Option.some.inj (hs.1.symm.trans hs')
    have hbefore := h.memory s hs.1
    have hnot := not_named hbefore.1 hunused
    refine ⟨hbefore.1, hbefore.2.imp fun p hp hholds => hholds.removed ?_⟩
    rintro rfl
    exact hp.elim hnot.1 hnot.2
  settled := fun s' hs' => h.settled s' hs'

/-- Syncing the directory keeps the invariant. -/
theorem Inv.synced (h : Inv w) : Inv { w with unsynced := [] } where
  directories := fun d hd s hs => h.directories d (by simp_all) s hs
  memory := h.memory
  settled := h.settled

/-- Completing imports changes the records and nothing that the invariant reads. -/
theorem foldl_complete_import (groups : List TableGroup) (w : World) :
    (groups.foldl World.complete_import w).directory = w.directory ∧
    (groups.foldl World.complete_import w).unsynced = w.unsynced ∧
    (groups.foldl World.complete_import w).frozen = w.frozen ∧
    (groups.foldl World.complete_import w).tables = w.tables := by
  induction groups generalizing w with
  | nil => exact ⟨rfl, rfl, rfl, rfl⟩
  | cons group groups ih => exact ih (w.complete_import group)

/-- **Whatever is allowed keeps the journals sound.** -/
theorem Inv.keeps {state_path : String} {c : Call} {o : Outcome} {a : Answer c} (h : Inv w)
    (hc : Allowed state_path w c) (hr : w.respond c o = some (a, w')) : Inv w' := by
  by_cases hquiet : World.quiet c = true
  · obtain rfl := World.respond_quiet hquiet hr
    exact h
  · -- what `Allowed` asks of a journal is needed however the write of it ends
    cases c with
    | persist_watcher_state s =>
        rcases World.respond_persist hr with ⟨-, rfl⟩ | ⟨-, rfl | rfl⟩
        · exact h.persisted hc.2
        · exact h.renamed hc.2
        · exact h.unwritten hc.2
    | load_watcher_state =>
        rcases World.respond_load hr with ⟨-, rfl⟩ | ⟨-, rfl⟩
        · exact h.loaded
        · exact h
    | persist_frozen_hot_mints mints =>
        rcases World.respond_persist_mints hr with
          ⟨path, lines, -, -, hfresh, rfl⟩ | ⟨-, rfl | ⟨path, lines, hfresh, rfl⟩⟩
        · exact h.frozen_file hfresh
        · exact h
        · exact h.frozen_file hfresh
    | remove_file path =>
        obtain ⟨-, s, hs, hunused⟩ := hc
        rcases World.respond_remove hr with rfl | rfl
        · exact h
        · exact h.removed hs hunused
    | sync_directory =>
        rcases World.respond_sync hr with rfl | rfl
        · exact h
        · exact h.synced
    | reset_group group =>
        rcases World.respond_reset hr with ⟨-, rfl⟩ | ⟨-, bases, rfl⟩
        · exact h.of_same rfl rfl rfl rfl rfl
        · exact h.of_same rfl rfl rfl rfl rfl
    | exchange_tables base =>
        rcases World.respond_exchange hr with ⟨-, rfl⟩ | ⟨-, rfl | rfl⟩
        · exact h.of_same rfl rfl rfl rfl rfl
        · exact h
        · exact h.of_same rfl rfl rfl rfl rfl
    | begin_import group i =>
        rcases World.acknowledge_cases hr with ⟨-, rfl⟩ | ⟨-, rfl⟩
        · exact h.of_same rfl rfl rfl rfl rfl
        · exact h
    | begin_shared_import staging active resume =>
        rcases World.acknowledge_cases hr with ⟨-, rfl⟩ | ⟨-, rfl⟩
        · exact h.of_same rfl rfl rfl rfl rfl
        · exact h
    | end_import =>
        obtain ⟨hdirectory, hunsynced, hfrozen, -⟩ :=
          foldl_complete_import w.process.importing w
        rcases World.respond_end_import hr with ⟨-, rfl⟩ | ⟨-, rfl⟩
        · exact h.of_same hdirectory hunsynced hfrozen rfl rfl
        · exact h.of_same rfl rfl rfl rfl rfl
    | spawn_staging_full snapshot => exact hc.elim
    | spawn_staging_merge_wait snapshot =>
        rcases World.acknowledge_cases hr with ⟨-, rfl⟩ | ⟨-, rfl⟩
        · exact h.of_same rfl rfl rfl rfl rfl
        · exact h
    | spawn_staging_incremental snapshot slot mints =>
        rcases World.acknowledge_cases hr with ⟨-, rfl⟩ | ⟨-, rfl⟩
        · exact h.of_same rfl rfl rfl rfl rfl
        · exact h
    | join_staging_build =>
        rcases World.respond_join_build hr with ⟨-, rfl⟩ | ⟨result, -, rfl⟩
        · exact h
        · exact h.of_same rfl rfl rfl rfl rfl
    | join_staging_incremental =>
        rcases World.respond_join_incremental hr with ⟨-, rfl⟩ | ⟨-, rfl⟩ | ⟨result, -, -, rfl⟩
        · exact h
        · exact h.of_same rfl rfl rfl rfl rfl
        · exact h.of_same rfl rfl rfl rfl rfl
    | _ => exact absurd rfl hquiet

/-- The environment, with what it may be asked and what then stays true of it. -/
def contract (state_path : String) : Contract Call Answer Outcome World where
  respond := World.respond
  Inv := Inv
  Allowed := Allowed state_path
  keeps := Inv.keeps

end SnapshotEtl.Watcher
