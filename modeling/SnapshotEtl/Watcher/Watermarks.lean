/-
The slots recorded for a table only grow.

A lane's slot bounds every slot recorded for its tables since they were last
emptied, and each step of the journal leaves it at that or raises it. A full is
chosen by the slot of active's full, though, and not by how far active has come
since: where active is past it, the shared load takes active's slot back. And a
process that could not write the end of a shared load goes on from where active
was before it.
-/
import SnapshotEtl.Watcher.StagingData

set_option autoImplicit false

namespace SnapshotEtl.Watcher

open Lib

variable {state_path : String} {m m' : Machine} {w w' : World} {s s' : WatcherState}

/-! ## What the runs are -/

/-- A full that is bound is not behind active. -/
def binds_beyond (m : Machine) : Bool :=
  match m.asks with
  | some (.persist_watcher_state s) =>
      s.shared_full_load.all fun shared => shared.active_resume_slot ≤ shared.snapshot.slot
  | _ => true

/-- A start follows the journal, if there is one. -/
def starts_from_journal (m : Machine) : Label → Bool
  | .start args => !args.bootstrap || m.world.directory.journal.isNone
  | _ => true

def ordered_fulls (m : Machine) (l : Label) : Bool :=
  starts_from_journal m l && binds_beyond m && completions_written m l

/-- The three parts of the condition. -/
theorem ordered_fulls_iff {l : Label} : ordered_fulls m l = true ↔
    starts_from_journal m l = true ∧ binds_beyond m = true ∧ completions_written m l = true := by
  simp only [ordered_fulls, Bool.and_eq_true, and_assoc]

/-- A full bound beyond the active slot is bound beyond the resume slot. -/
theorem resume_of_binds_beyond (h : binds_beyond m = true)
    (hc : m.asks = some (.persist_watcher_state s)) {shared : SharedFullLoadWatcherState}
    (hshared : s.shared_full_load = some shared) :
    shared.active_resume_slot ≤ shared.snapshot.slot := by
  unfold binds_beyond at h
  rw [hc] at h
  simpa [hshared] using h

/-! ## A lane's slot -/

/-- The lane's slot is at or past every slot recorded for these tables. -/
def Covers (w : World) (lane : LaneWatcherState) (tables : TableGroupIdentity) : Prop :=
  ∀ slot, lane.max_slot = some slot → ∀ base, ∀ r ∈ (w.records base (tables base)).recorded,
    r ≤ slot

/-- Both lanes are past what was recorded for their tables, and a shared full is
not behind active. -/
structure Beyond (w : World) (s : WatcherState) : Prop where
  active : Covers w s.active (w.lane_tables s)
  staging : Covers w s.staging (w.staging_tables s)
  shared : ∀ shared, s.shared_full_load = some shared →
    shared.active_resume_slot ≤ shared.snapshot.slot

/-- The slots recorded for the table are the same, or it was emptied. -/
def Emptied (w w' : World) : Prop :=
  ∀ base g, (w'.records base g).recorded = (w.records base g).recorded ∨
    (w'.records base g).recorded = []

/-- The case in which every table keeps its recorded slots. -/
theorem Emptied.of_recorded
    (h : ∀ base g, (w'.records base g).recorded = (w.records base g).recorded) : Emptied w w' :=
  fun base g => .inl (h base g)

/-- A lane covers its tables as long as nothing is recorded for them. -/
theorem Covers.mono {lane : LaneWatcherState} {tables : TableGroupIdentity}
    (h : Covers w lane tables) (hrecorded : Emptied w w') : Covers w' lane tables := by
  intro slot hslot base r hr
  rcases hrecorded base (tables base) with heq | heq
  · rw [heq] at hr
    exact h slot hslot base r hr
  · rw [heq] at hr
    cases hr

/-- A lane that only goes forward covers what it covered. -/
theorem Covers.advance {lane lane' : LaneWatcherState} {tables : TableGroupIdentity}
    (h : Covers w lane tables)
    (hslot : ∀ slot, lane'.max_slot = some slot → ∃ old, lane.max_slot = some old ∧ old ≤ slot) :
    Covers w lane' tables := by
  intro slot hs base r hr
  obtain ⟨old, hold, hle⟩ := hslot slot hs
  exact (h old hold base r hr).trans hle

/-- Both lanes stay past what is recorded as long as nothing is added to it. -/
theorem Beyond.mono (h : Beyond w s) (htables : w'.tables = w.tables)
    (hrecorded : Emptied w w') : Beyond w' s := by
  have hactive : w'.lane_tables s = w.lane_tables s := by
    unfold World.lane_tables
    rw [htables]
  have hstaging : w'.staging_tables s = w.staging_tables s := by
    unfold World.staging_tables World.physical
    rw [htables]
  constructor
  · rw [hactive]
    exact h.active.mono hrecorded
  · rw [hstaging]
    exact h.staging.mono hrecorded
  · exact h.shared

/-- The two lanes' tables are the two generations. -/
theorem staging_tables_eq (h : WellFormed s) (base : GroupTable) :
    w.staging_tables s base = (w.lane_tables s base).other := by
  cases hcutover : s.cutover with
  | none =>
      rw [staging_tables_of_none hcutover, lane_tables_of_none hcutover]
      rfl
  | some checkpoint =>
      rw [staging_tables_of_some hcutover, lane_tables_of_some hcutover]
      exact h.paired checkpoint hcutover base

/-! ## Steps of the journal -/

/-- No step takes a lane's slot back. Only the cutover hands it to the other. -/
theorem JournalStep.beyond {memory : Option WatcherState} (h : JournalStep w memory s')
    (hlagging : w.process.lagging = false)
    (hinitial : memory = none → w.process.bootstrap = true ∨ w.directory.journal = none →
      ∀ base g, (w.records base g).recorded = [])
    (hwell : ∀ s, memory = some s → WellFormed s) (hmemory : ∀ s, memory = some s → Beyond w s)
    (hshared : ∀ shared, s'.shared_full_load = some shared →
      shared.active_resume_slot ≤ shared.snapshot.slot) : Beyond w s' := by
  cases h with
  | initialise slot hnone =>
      refine ⟨fun _ _ base r hr => ?_, fun _ hslot => (nomatch hslot), hshared⟩
      rw [hinitial rfl hnone] at hr
      cases hr
  | @freeze s path => exact ⟨(hmemory s rfl).active, (hmemory s rfl).staging, hshared⟩
  | @begin_active s candidate => exact ⟨(hmemory s rfl).active, (hmemory s rfl).staging, hshared⟩
  | @abandon_active s => exact ⟨(hmemory s rfl).active, (hmemory s rfl).staging, hshared⟩
  | @settle_staging s => exact ⟨(hmemory s rfl).active, (hmemory s rfl).staging, hshared⟩
  | @begin_staging s candidate => exact ⟨(hmemory s rfl).active, (hmemory s rfl).staging, hshared⟩
  | @abandon_staging s => exact ⟨(hmemory s rfl).active, (hmemory s rfl).staging, hshared⟩
  | @commit_active s slot _ _ hadvances =>
      obtain ⟨old, hold, -⟩ := (hwell s rfl).committed
      refine ⟨(hmemory s rfl).active.advance fun new hnew => ?_, (hmemory s rfl).staging, hshared⟩
      obtain rfl : slot = new := Option.some.inj hnew
      exact ⟨old, hold, (hadvances.slot hlagging old hold).le⟩
  | @commit_staging s slot _ hphase hadvances =>
      -- a lane that imports an incremental is past its full
      have hbuilt : Built s.staging := by
        cases (hwell s rfl).stage with
        | serving _ hdisabled => rw [hdisabled] at hphase; cases hphase
        | sharing _ _ _ _ _ _ _ hload => rw [hload] at hphase; cases hphase
        | cutting _ _ hpending => rw [hpending] at hphase; cases hphase
        | preparing _ _ _ hbuilt => exact hbuilt
      obtain ⟨old, hold, -⟩ := hbuilt.committed
      refine ⟨(hmemory s rfl).active, (hmemory s rfl).staging.advance fun new hnew => ?_, hshared⟩
      obtain rfl : slot = new := Option.some.inj hnew
      exact ⟨old, hold, (hadvances.slot rfl old hold).le⟩
  | @begin_shared s snapshot resume path hphase =>
      have hcutover := no_checkpoint (hwell s rfl) (by rw [hphase]; decide)
      refine ⟨?_, fun _ hslot => (nomatch hslot), hshared⟩
      have hactive := (hmemory s rfl).active
      rw [lane_tables_of_none hcutover] at hactive
      exact hactive
  | @commit_shared s shared hsome hloaded =>
      obtain ⟨hphase, -, hslot, -⟩ := sharing_of_shared (hwell s rfl) hsome
      have hcutover := no_checkpoint (hwell s rfl) (by rw [hphase]; decide)
      refine ⟨(hmemory s rfl).active.advance fun new hnew => ?_, fun _ _ base r hr => ?_, hshared⟩
      · obtain rfl : shared.snapshot.slot = new := Option.some.inj hnew
        exact ⟨_, hslot, (hmemory s rfl).shared shared hsome⟩
      · -- the tables were emptied for the full, and nothing is recorded for them yet
        obtain ⟨snapshot, mints, -, -, hrecord⟩ := hloaded base
        have htables : w.staging_tables (s.commit_shared_full_load shared.snapshot.slot) =
            w.physical .Backup := staging_tables_of_none hcutover
        rw [htables, hrecord] at hr
        cases hr
  | @checkpoint s hphase hcutover =>
      have hactive := (hmemory s rfl).active
      have hstaging := (hmemory s rfl).staging
      rw [lane_tables_of_none hcutover] at hactive
      rw [staging_tables_of_none hcutover] at hstaging
      exact ⟨hactive, hstaging, hshared⟩
  | @commit_cutover s checkpoint hcutover htables =>
      -- each lane takes its slot and its tables with it
      have hactive := (hmemory s rfl).active
      have hstaging := (hmemory s rfl).staging
      have hbackup : w.physical .Backup = checkpoint.active_tables := by
        funext base
        show (w.tables base).other = checkpoint.active_tables base
        rw [htables, (hwell s rfl).paired checkpoint hcutover, Generation.other_other]
      rw [lane_tables_of_some hcutover, ← hbackup] at hactive
      rw [staging_tables_of_some hcutover, ← funext htables] at hstaging
      exact ⟨hstaging, hactive, hshared⟩

/-- Active's tables take active's slot, if it has one. -/
theorem recorded_active (base : GroupTable) : (w.record s base (w.lane_tables s base)).recorded =
    s.active.max_slot.toList ++ (w.records base (w.lane_tables s base)).recorded := by
  unfold World.record
  rw [if_pos rfl]

/-- The other ones take staging's. -/
theorem recorded_staging (h : WellFormed s) (base : GroupTable) :
    (w.record s base (w.staging_tables s base)).recorded =
      s.staging.max_slot.toList ++ (w.records base (w.staging_tables s base)).recorded := by
  have hne : w.staging_tables s base ≠ w.lane_tables s base := by
    rw [staging_tables_eq h]
    exact Generation.other_ne _
  unfold World.record
  rw [if_neg hne]

/-- The slot of the lane in front of the recorded ones is still in order. -/
theorem Covers.ordered {lane : LaneWatcherState} {tables : TableGroupIdentity}
    (h : Covers w lane tables) {base : GroupTable}
    (hordered : (w.records base (tables base)).recorded.Pairwise (· ≥ ·)) :
    (lane.max_slot.toList ++ (w.records base (tables base)).recorded).Pairwise (· ≥ ·) := by
  cases hslot : lane.max_slot with
  | none => exact hordered
  | some slot => exact List.pairwise_cons.mpr ⟨h slot hslot base, hordered⟩

/-- No recorded slot is beyond the lane's own. -/
theorem Covers.recorded {lane : LaneWatcherState} {tables : TableGroupIdentity}
    (h : Covers w lane tables) {slot : Slot} (hslot : lane.max_slot = some slot)
    {base : GroupTable} {r : Slot}
    (hr : r ∈ lane.max_slot.toList ++ (w.records base (tables base)).recorded) : r ≤ slot := by
  rw [hslot] at hr
  rcases List.mem_cons.mp hr with rfl | hr
  · exact le_refl r
  · exact h slot hslot base r hr

/-- Recording such a journal keeps the slots of every table in order. -/
theorem Beyond.ordered (h : Beyond w s) (hwell : WellFormed s)
    (hordered : ∀ base g, (w.records base g).recorded.Pairwise (· ≥ ·)) (base : GroupTable)
    (g : Generation) : (w.record s base g).recorded.Pairwise (· ≥ ·) := by
  rcases Generation.eq_or_other g (w.lane_tables s base) with rfl | rfl
  · rw [recorded_active]
    exact h.active.ordered (hordered base _)
  · rw [← staging_tables_eq hwell, recorded_staging hwell]
    exact h.staging.ordered (hordered base _)

/-- Once recorded, the lanes' slots are among the slots they are past. -/
theorem Beyond.recorded (h : Beyond w s) (hwell : WellFormed s) (htables : w'.tables = w.tables)
    (hrecords : w'.records = w.record s) : Beyond w' s := by
  have hactive : w'.lane_tables s = w.lane_tables s := by
    unfold World.lane_tables
    rw [htables]
  have hstaging : w'.staging_tables s = w.staging_tables s := by
    unfold World.staging_tables World.physical
    rw [htables]
  refine ⟨fun slot hslot base r hr => ?_, fun slot hslot base r hr => ?_, h.shared⟩
  · rw [hactive, hrecords, recorded_active] at hr
    exact h.active.recorded hslot hr
  · rw [hstaging, hrecords, recorded_staging hwell] at hr
    exact h.staging.recorded hslot hr

/-! ## Along runs -/

/-- The slots recorded for every table are in order, and every journal in force is
past them; without one there are none. -/
structure Ordered (w : World) : Prop where
  followed : w.process.bootstrap = true → w.process.memory = none → w.directory.journal = none
  unrecorded : w.directory.journal = none → ∀ base g, (w.records base g).recorded = []
  ordered : ∀ base g, (w.records base g).recorded.Pairwise (· ≥ ·)
  beyond : ∀ s, InForce w s → Beyond w s

/-- No journal is written, and nothing is recorded. -/
theorem Ordered.mono (h : Ordered w) (hsame : SameJournal w w') (htables : w'.tables = w.tables)
    (hrecorded : Emptied w w') : Ordered w' where
  followed := by
    rw [hsame.bootstrap, hsame.memory, hsame.journal]
    exact h.followed
  unrecorded := by
    intro hnone base g
    rw [hsame.journal] at hnone
    have hold := h.unrecorded hnone base g
    exact (hrecorded base g).elim (fun heq => heq.trans hold) id
  ordered := by
    intro base g
    rcases hrecorded base g with heq | heq
    · rw [heq]
      exact h.ordered base g
    · rw [heq]
      exact List.Pairwise.nil
  beyond := fun s hs => (h.beyond s (hs.of_same hsame)).mono htables hrecorded

/-- The journal is in place, and recorded. -/
theorem Ordered.written (h : Ordered w) (hbeyond : Beyond w s) (hwell : WellFormed s)
    (htables : w'.tables = w.tables) (hrecords : w'.records = w.record s)
    (hjournal : w'.directory.journal = some s) (hmemory : w'.process.memory = some s) :
    Ordered w' where
  followed := fun _ hnone => by rw [hmemory] at hnone; cases hnone
  unrecorded := fun hnone => by rw [hjournal] at hnone; cases hnone
  ordered := by
    rw [hrecords]
    exact hbeyond.ordered hwell h.ordered
  beyond := by
    intro s' hs'
    have hsame : s = s' := by
      rcases hs' with hs' | hs'
      · exact Option.some.inj (hjournal.symm.trans hs')
      · exact Option.some.inj (hmemory.symm.trans hs')
    rw [← hsame]
    exact hbeyond.recorded hwell htables hrecords

theorem Ordered.stopped (h : Ordered w) : Ordered w.stopped where
  followed := nofun
  unrecorded := h.unrecorded
  ordered := h.ordered
  beyond := fun s hs => (h.beyond s hs.of_stopped).mono rfl (.of_recorded fun _ _ => rfl)

/-- What an answer does: a journal that is written is past what is recorded, and
everything else records nothing. -/
theorem Ordered.answered {c : Call} (h : Ordered w) (htimely : Timely w) (hw : Inv w)
    (hc : Allowed state_path w c)
    (hbinds : ∀ s shared, c = .persist_watcher_state s → s.shared_full_load = some shared →
      shared.active_resume_slot ≤ shared.snapshot.slot)
    (heffect : Effect w c w') : Ordered w' := by
  have hstep : ∀ {s}, c = .persist_watcher_state s → Beyond w s ∧ WellFormed s := by
    rintro s rfl
    refine ⟨hc.2.beyond htimely.lagging (fun hmemory hnone => h.unrecorded ?_)
      (fun s hs => (hw.memory s hs).1) (fun s hs => h.beyond s (.inr hs))
      fun shared => hbinds s shared rfl, (hw.written hc.2).1⟩
    exact hnone.elim (fun hbootstrap => h.followed hbootstrap hmemory) id
  cases heffect with
  | quiet hsame htables hrecords =>
      exact h.mono hsame htables (.of_recorded fun _ _ => by rw [hrecords])
  | begun hsame htables hrecords =>
      refine h.mono hsame htables (.of_recorded fun base g => ?_)
      rw [hrecords]
      exact start_import_recorded _ _ _ base g
  | begun_staging hsame htables hrecords =>
      refine h.mono hsame htables (.of_recorded fun base g => ?_)
      rw [hrecords]
      exact start_import_recorded _ _ _ base g
  | begun_shared hsame htables hrecords =>
      refine h.mono hsame htables (.of_recorded fun base g => ?_)
      rw [hrecords, start_import_recorded, start_import_recorded]
  | completed groups hsame htables hrecords =>
      refine h.mono hsame htables (.of_recorded fun base g => ?_)
      rw [hrecords]
      exact (completed_records groups w base g).1
  | @truncated group bases =>
      refine h.mono (.of_same rfl rfl rfl rfl rfl rfl) rfl fun base g => ?_
      rcases truncate_records w group bases base g with heq | ⟨-, heq⟩
      · exact .inl (congrArg TableRecord.recorded heq)
      · exact .inr (congrArg TableRecord.recorded heq)
  | loaded =>
      exact {
        followed := fun _ hnone => hnone
        unrecorded := h.unrecorded
        ordered := h.ordered
        beyond := fun s hs => (h.beyond s hs.of_loaded).mono rfl (.of_recorded fun _ _ => rfl) }
  | persisted =>
      obtain ⟨hbeyond, hwell⟩ := hstep rfl
      exact h.written hbeyond hwell rfl rfl rfl rfl
  | renamed =>
      obtain ⟨hbeyond, hwell⟩ := hstep rfl
      exact h.written hbeyond hwell rfl rfl rfl rfl
  | unwritten =>
      -- only the journal in memory is new, and nothing is recorded
      obtain ⟨hbeyond, -⟩ := hstep rfl
      refine ⟨nofun, h.unrecorded, h.ordered, fun s hs => ?_⟩
      rcases hs.of_unwritten with hs | rfl
      · exact (h.beyond s hs).mono rfl (.of_recorded fun _ _ => rfl)
      · exact hbeyond.mono rfl (.of_recorded fun _ _ => rfl)
  | @exchanged base =>
      -- the journal goes by its checkpoint, and no table is touched
      obtain ⟨state, checkpoint, hsettled, hcutover, -⟩ := hc
      refine ⟨h.followed, h.unrecorded, h.ordered, fun s hs => ?_⟩
      have hs : InForce w s := hs
      obtain rfl := hs.of_settled hw hsettled
      obtain ⟨hactive, hstaging, hshared⟩ := h.beyond s hs
      rw [lane_tables_of_some hcutover] at hactive
      rw [staging_tables_of_some hcutover] at hstaging
      refine ⟨?_, ?_, hshared⟩
      · rw [lane_tables_of_some hcutover]
        exact hactive
      · rw [staging_tables_of_some hcutover]
        exact hstaging

/-- Every step that meets the condition keeps the recorded slots in order. -/
theorem kept_ordered : Kept state_path (fun m l => ordered_fulls m l = true)
    (fun w => Timely w ∧ Ordered w) where
  start := by
    rintro m args hs ⟨-, h⟩ hcond
    obtain ⟨hfollows, -⟩ := ordered_fulls_iff.mp hcond
    refine ⟨⟨nofun, rfl⟩, fun hbootstrap _ => ?_, h.unrecorded, h.ordered, fun s hs =>
      (h.beyond s hs.of_started).mono rfl (.of_recorded fun _ _ => rfl)⟩
    have hbootstrap : args.bootstrap = true := hbootstrap
    change m.world.directory.journal = none
    simpa [starts_from_journal, hbootstrap] using hfollows
  stopped := fun h => ⟨⟨nofun, rfl⟩, h.2.stopped⟩
  reply := by
    rintro m c o a w hs ⟨htimely, h⟩ hc hcond hr
    obtain ⟨-, hbinds, hwritten⟩ := ordered_fulls_iff.mp hcond
    refine ⟨kept_timely.reply hs htimely hc hwritten hr,
      h.answered htimely hs.world (hs.allowed hc) ?_ (effect_of_respond hr)⟩
    rintro s shared rfl hshared
    exact resume_of_binds_beyond hbinds hc hshared
  killed := by
    rintro m c o a w hs ⟨htimely, h⟩ hc hcond hr
    obtain ⟨-, hbinds, -⟩ := ordered_fulls_iff.mp hcond
    refine ⟨⟨nofun, rfl⟩,
      (h.answered htimely hs.world (hs.allowed hc) ?_ (effect_of_respond hr)).stopped⟩
    rintro s shared rfl hshared
    exact resume_of_binds_beyond hbinds hc hshared

theorem ordered_initial (files : List (String × List Char)) :
    Ordered (Machine.initial files).world where
  followed := nofun
  unrecorded := fun _ _ _ => rfl
  ordered := fun _ _ => List.Pairwise.nil
  beyond := fun s hs => by rcases hs with hs | hs <;> cases hs

theorem mints_of_shared (h : WellFormed s) {shared : SharedFullLoadWatcherState}
    (hshared : s.shared_full_load = some shared) : s.active.hot_mints_path.isSome := by
  cases h.stage with
  | serving _ _ _ _ hnone => rw [hnone] at hshared; cases hshared
  | preparing _ hmints => exact hmints
  | cutting _ hmints => exact hmints
  | sharing _ _ _ _ _ _ hmints => exact hmints

/-- What a journal is written over while a full is shared can only be its end. -/
theorem JournalStep.ends_shared (h : JournalStep w (some s) s') (hwell : WellFormed s)
    {shared : SharedFullLoadWatcherState} (hshared : s.shared_full_load = some shared) :
    s'.active.max_slot = some shared.snapshot.slot := by
  obtain ⟨hphase, -, -, path, hlane⟩ := sharing_of_shared hwell hshared
  have hloading : s.staging.phase = .FullLoading := by rw [hlane]; rfl
  cases h with
  | @commit_shared _ shared' hsome =>
      obtain rfl : shared' = shared := Option.some.inj (hsome.symm.trans hshared)
      rfl
  | freeze hnone =>
      have hmints := mints_of_shared hwell hshared
      rw [hnone] at hmints
      cases hmints
  | begin_active _ hnone => rw [hnone] at hshared; cases hshared
  | commit_active _ hnone => rw [hnone] at hshared; cases hshared
  | abandon_active _ hnone => rw [hnone] at hshared; cases hshared
  | begin_shared hready => rw [hready] at hphase; cases hphase
  | settle_staging hother => rw [hother] at hloading; cases hloading
  | begin_staging hother => rw [hother] at hloading; cases hloading
  | abandon_staging hother => rw [hother] at hloading; cases hloading
  | commit_staging _ hother => rw [hother] at hloading; cases hloading
  | checkpoint hpending => rw [hpending] at hphase; cases hphase
  | commit_cutover hcutover =>
      rw [(cutting_of_checkpoint hwell hcutover).1] at hphase
      cases hphase

/-- **The slots recorded for a table since it was last emptied never decrease**, in
every run whose starts follow the journal, in which no full behind active is bound
and no write of a completed shared full fails in a process that goes on; and no
shared full takes active below the slot it resumed from. -/
theorem watermarks_never_decrease {files : List (String × List Char)} {labels : List Label}
    (halong : Lts.Along (step state_path) (fun m l => ordered_fulls m l = true)
      (.initial files) labels)
    (hrun : Lts.run (step state_path) (.initial files) labels = some m) :
    (∀ base g, (m.world.records base g).recorded.Pairwise (· ≥ ·)) ∧
      ∀ s s' shared, m.asks = some (.persist_watcher_state s') →
        m.world.process.memory = some s → s.shared_full_load = some shared →
        ∃ slot, s'.active.max_slot = some slot ∧ shared.active_resume_slot ≤ slot := by
  obtain ⟨hs, -, h⟩ := kept_ordered.along (sound_initial files)
    ⟨timely_initial files, ordered_initial files⟩ halong hrun
  refine ⟨h.ordered, fun s s' shared hc hmemory hshared => ?_⟩
  have hwritten := (hs.allowed hc).2
  rw [hmemory] at hwritten
  exact ⟨_, hwritten.ends_shared (hs.world.memory s hmemory).1 hshared,
    (h.beyond s (.inr hmemory)).shared shared hshared⟩

/-- A full beyond active is loaded. -/
def ordered_run : List Label :=
  first_start 1000 {"a"} "d/solana-snapshot-etl-hot-mints-1.1.txt" ["a"] ++
    bind_full [⟨"full-10", 10⟩] {"a"} "d/solana-snapshot-etl-hot-mints-1.2.txt" ["a"] ++
    load_full [⟨"full-10", 10⟩]

theorem watermarks_never_decrease_bound : ∃ m,
    Lts.run (step "d/state.json") (.initial []) ordered_run = some m ∧
      (m.world.records .raw_account .first).recorded.length = 4 ∧
      (m.world.records .raw_account .first).recorded.Pairwise (· ≥ ·) := by
  have hrun : ((Lts.run (step "d/state.json") (.initial []) ordered_run).map fun m =>
      decide ((m.world.records .raw_account .first).recorded.length = 4)) = some true := by
    decide +kernel
  obtain ⟨m, hrun, hfinal⟩ := Option.map_eq_some_iff.mp hrun
  exact ⟨m, hrun, of_decide_eq_true hfinal,
    (watermarks_never_decrease (Lts.along_of_check (by decide +kernel)) hrun).1 .raw_account .first⟩

/-- Active starts from the slot its rows are at, and an older full is bound. -/
def full_behind : List Label :=
  first_start 1100 {"a"} "d/solana-snapshot-etl-hot-mints-1.1.txt" ["a"] ++
    bind_full [⟨"full-50", 50⟩] {"a"} "d/solana-snapshot-etl-hot-mints-1.2.txt" ["a"] ++
    load_full [⟨"full-50", 50⟩]

/-- No process is killed in it and no call fails. -/
theorem watermark_decreases_over_full_behind : ∃ m,
    Lts.Along (step "d/state.json") (fun m l => starts_from_journal m l = true) (.initial [])
      full_behind ∧
    Lts.run (step "d/state.json") (.initial []) full_behind = some m ∧
      ¬ (m.world.records .raw_account .first).recorded.Pairwise (· ≥ ·) := by
  have hrun : ((Lts.run (step "d/state.json") (.initial []) full_behind).map fun m =>
      decide ((m.world.records .raw_account .first).recorded.Pairwise (· ≥ ·))) = some false := by
    decide +kernel
  obtain ⟨m, hrun, hfinal⟩ := Option.map_eq_some_iff.mp hrun
  exact ⟨m, Lts.along_of_check (by decide +kernel), hrun, of_decide_eq_false hfinal⟩

end SnapshotEtl.Watcher
