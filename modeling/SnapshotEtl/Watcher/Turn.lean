/-
A turn of the loop, block by block, and the start of the process.

Each block leaves `LoopInv` true, and where it hands on to the next one it also
says what that one may start from. Joined in the order of the loop body they
show that a turn keeps the invariant, and the start establishes it from any
sound disk.
-/
import SnapshotEtl.Watcher.Verified

set_option autoImplicit false

namespace SnapshotEtl.Watcher

open Lib Program

section blocks

variable {state_path : String} {s : Locals} {w : World}

/-- A block keeps the invariant, and hands on only to what may start from `P`. -/
abbrev Hands (state_path : String) (block : WatcherM Flow) (P : Locals → Prop) (s : Locals)
    (w : World) : Prop :=
  Runs state_path block (fun flow s' w' => LoopInv s' w' ∧ (flow = .next → P s')) s w

/-- A block that hands on what the rest of the turn needs. -/
theorem keeps_and_then {block : WatcherM Flow} {rest : WatcherM Unit} {P : Locals → Prop}
    (hw : Inv w) (hblock : Hands state_path block P s w)
    (hrest : ∀ s' w', Inv w' → LoopInv s' w' → P s' → Keeps state_path rest s' w') :
    Keeps state_path (and_then block rest) s w := by
  unfold Keeps Runs and_then
  refine hblock.then hw ?_ fun _ _ _ _ _ => trivial
  rintro flow s' w' hw' ⟨hs', hP⟩
  cases flow with
  | next => exact hrest s' w' hw' hs' (hP rfl)
  | turn => exact hs'

/-! ## What well-formedness leaves open at each point -/

/-- At a cutover both lanes wait for it. -/
theorem cutting_of_active {state : WatcherState} (h : WellFormed state)
    (hactive : state.active.phase = .CutoverPending) : state.staging.phase = .CutoverPending := by
  cases h.stage with
  | serving hserving => rcases hserving with h | h <;> simp [hactive] at h
  | sharing _ _ hloading => rw [hactive] at hloading; cases hloading
  | preparing hserving => rcases hserving with h | h <;> simp [hactive] at h
  | cutting _ _ hstaging => exact hstaging

/-- Between cutovers and with no full shared, active serves. -/
theorem serving_of {state : WatcherState} (h : WellFormed state)
    (hcutting : state.active.phase ≠ .CutoverPending) (hshared : state.shared_full_load = none) :
    Serving state.active := by
  cases h.stage with
  | serving hserving => exact hserving
  | sharing _ _ _ _ _ _ _ _ _ hsome => rw [hshared] at hsome; cases hsome
  | preparing hserving => exact hserving
  | cutting hpending => exact absurd hpending hcutting

/-- Then staging is disabled or past full loading. -/
theorem staging_of {state : WatcherState} (h : WellFormed state)
    (hcutting : state.active.phase ≠ .CutoverPending) (hshared : state.shared_full_load = none) :
    state.staging.phase = .Disabled ∨ (Preparing state.staging ∧ Built state.staging) := by
  cases h.stage with
  | serving _ hdisabled => exact .inl hdisabled
  | sharing _ _ _ _ _ _ _ _ _ hsome => rw [hshared] at hsome; cases hsome
  | preparing _ _ hprep hbuilt => exact .inr ⟨hprep, hbuilt⟩
  | cutting hpending => exact absurd hpending hcutting

/-- Where active is ready and no full is shared. -/
structure AtRest (s : Locals) : Prop where
  ready : s.watcher_state.active.phase = .Ready
  shared : s.watcher_state.shared_full_load = none

/-! ## The blocks -/

/-- The cutover block ends with none pending. -/
theorem hands_cut_over (hw : Inv w) (h : LoopInv s w) :
    Hands state_path (cut_over state_path)
      (fun s' => s'.watcher_state.active.phase ≠ .CutoverPending) s w := by
  unfold Hands Runs cut_over
  rw [wp_bind, wp_read]
  split
  next hboth =>
    obtain ⟨mints, hmints, -⟩ := h.staging_hot_mints (by rw [hboth.2]; decide)
    rw [wp_bind]
    refine wp_require hmints ?_
    refine (wp_finish_cutover hw h hboth.1 hboth.2 hmints).then hw ?_ fun _ _ _ _ _ => trivial
    intro _ s' w' _ h'
    exact ⟨h', fun hflow => nomatch hflow⟩
  next hneither =>
    exact ⟨h, fun _ hactive =>
      hneither ⟨hactive, cutting_of_active (hw.memory _ h.memory).1 hactive⟩⟩

/-- A complete reset leaves the six tables of the group empty. -/
theorem truncate_all (w : World) (group : TableGroup) (base : GroupTable) :
    (w.truncate group GROUP_MERGE_TABLES).records base (w.physical group base) = .empty := by
  have h := w.records_on_group group
    (fun base record => if base ∈ GROUP_MERGE_TABLES then .empty else record) base
  rw [if_pos (mem_GROUP_MERGE_TABLES base)] at h
  exact h

/-- Emptying the backup tables is nothing to the loop. -/
theorem LoopInv.truncated (h : LoopInv s w) (group : TableGroup) (bases : List GroupTable) :
    LoopInv s (w.truncate group bases) :=
  ⟨h.memory, h.failed, h.active_path, h.active_slot, h.active_full, h.not_pending, h.hot_mints,
    h.staging_hot_mints, h.building, h.build, h.importing_staging, h.incremental, h.importing,
    h.valid⟩

/-- Cleaning up a failed attempt, whatever becomes of it. -/
theorem keeps_reset_failed_staging (h : LoopInv s w) (hloading : Loading w) :
    Keeps state_path reset_failed_staging s w := by
  unfold Keeps Runs reset_failed_staging
  rw [wp_bind, wp_ask]
  refine ⟨⟨rfl, hloading⟩, fun o a w₁ hr _ => ?_⟩
  obtain rfl := World.respond_quiet (c := .stop_group_merges .Backup) rfl hr
  rw [wp_bind, wp_ask]
  refine ⟨⟨rfl, hloading⟩, fun o a w₂ hr _ => ?_⟩
  rcases World.respond_reset hr with ⟨-, rfl⟩ | ⟨-, bases, rfl⟩
  · exact h.truncated .Backup _
  · exact h.truncated .Backup _

/-- The full that the journal records is found in the listing, or the turn ends. -/
theorem wp_recorded_full {fulls : List FullSnapshot} {recorded : FullSnapshotWatcherState}
    {Q : FullSnapshot → Locals → World → Prop}
    (hQ : ∀ snapshot, full_snapshot_state snapshot = recorded → Q snapshot s w) :
    Runs state_path (recorded_full fulls recorded) Q s w := by
  unfold Runs recorded_full
  cases hfound : find_recorded_full fulls recorded with
  | none => trivial
  | some snapshot => exact hQ snapshot (find_recorded_full_spec hfound)

/-- A shared full load is resumed and completed, so that none is left. -/
theorem hands_resume_shared_full_load {fulls : List FullSnapshot} (hw : Inv w) (h : LoopInv s w)
    (hcutting : s.watcher_state.active.phase ≠ .CutoverPending) :
    Hands state_path (resume_shared_full_load fulls)
      (fun s' => s'.watcher_state.active.phase ≠ .CutoverPending ∧
        s'.watcher_state.shared_full_load = none) s w := by
  unfold Hands Runs resume_shared_full_load
  rw [wp_bind, wp_read]
  cases hshared : s.watcher_state.shared_full_load with
  | none => exact ⟨h, fun _ => ⟨hcutting, hshared⟩⟩
  | some shared =>
      have hwell := (hw.memory _ h.memory).1
      obtain ⟨hloading, hinflight, hslot, path, hlane⟩ := sharing_of_shared hwell hshared
      have hphase : s.watcher_state.staging.phase = .FullLoading := by rw [hlane]; rfl
      have hbuild := h.no_build (by rw [hphase]; decide)
      have hhandle := h.no_handle (by rw [hphase]; decide)
      have hload : Loading w := .inl ⟨_, _, h.settled (by rw [hphase]; decide), hshared⟩
      -- whatever goes wrong here ends the turn
      have hturn : ∀ {x : WatcherM Unit} {s' : Locals} {w' : World}, Inv w' →
          Keeps state_path x s' w' → wp (contract state_path) (do x; pure Flow.turn)
            (fun flow s' w' => LoopInv s' w' ∧
              (flow = .next → s'.watcher_state.active.phase ≠ .CutoverPending ∧
                s'.watcher_state.shared_full_load = none)) (fun _ _ _ => True) s' w' := by
        intro x s' w' hw' hx
        refine hx.then hw' ?_ fun _ _ _ _ _ => trivial
        exact fun _ s'' w'' _ h'' => ⟨h'', fun hflow => nomatch hflow⟩
      dsimp only
      rw [if_neg (by simp [hbuild, hhandle]), wp_bind, wp_ask]
      refine ⟨⟨rfl, hload⟩, fun o a w₁ hr _ => ?_⟩
      obtain rfl := World.respond_quiet (c := .stop_group_merges .Backup) rfl hr
      cases a with
      | none => exact hturn hw (keeps_reset_failed_staging h hload)
      | some _ =>
          dsimp only
          rw [wp_bind, wp_ask]
          refine ⟨⟨rfl, hload⟩, fun o a w₂ hr hw₂ => ?_⟩
          rcases World.respond_reset hr with ⟨rfl, rfl⟩ | ⟨rfl, bases, rfl⟩
          · have h₂ := h.truncated .Backup GROUP_MERGE_TABLES
            obtain ⟨staging, hstaging, hset⟩ := h₂.staging_hot_mints (by rw [hphase]; decide)
            dsimp only
            rw [wp_bind]
            refine wp_recorded_full fun snapshot hsnapshot => ?_
            rw [wp_bind]
            refine wp_require hstaging ?_
            rw [wp_bind, wp_attempt]
            refine (wp_complete_shared_full_load hw₂ h₂ hshared hsnapshot hset fun base =>
              truncate_all w₁ .Backup base).mono hw₂ ?_ ?_
            · intro build s' w' _ h'
              exact ⟨h', fun hflow => nomatch hflow⟩
            · rintro _ s' w' hw' ⟨h', hload'⟩
              exact hturn hw' (keeps_reset_failed_staging h' hload')
          · exact hturn hw₂ (keeps_reset_failed_staging (h.truncated .Backup bases) hload)

/-- Active is never waiting for merges of a full. -/
theorem hands_resume_active_full_merging (hw : Inv w) (h : LoopInv s w)
    (hcutting : s.watcher_state.active.phase ≠ .CutoverPending)
    (hshared : s.watcher_state.shared_full_load = none) :
    Hands state_path resume_active_full_merging (fun s' => s' = s) s w := by
  have hserving := serving_of (hw.memory _ h.memory).1 hcutting hshared
  unfold Hands Runs resume_active_full_merging
  rw [wp_bind, wp_read, if_neg]
  · exact ⟨h, fun _ => rfl⟩
  · intro hmerging
    rcases hserving with h | h <;> simp [hmerging] at h

/-- Nor is it loading a full of its own. -/
theorem hands_resume_active_full_loading {fulls : List FullSnapshot} (hw : Inv w) (h : LoopInv s w)
    (hcutting : s.watcher_state.active.phase ≠ .CutoverPending)
    (hshared : s.watcher_state.shared_full_load = none) :
    Hands state_path (resume_active_full_loading fulls) (fun s' => s' = s) s w := by
  have hserving := serving_of (hw.memory _ h.memory).1 hcutting hshared
  unfold Hands Runs resume_active_full_loading
  rw [wp_bind, wp_read, if_neg]
  · exact ⟨h, fun _ => rfl⟩
  · intro hloading
    rcases hserving with h | h <;> simp [hloading] at h

/-- An incremental of active that is not listed any more is given up. -/
theorem keeps_abandon_active (h : LoopInv s w)
    (hloading : s.watcher_state.active.phase = .IncrementalLoading)
    (hshared : s.watcher_state.shared_full_load = none) :
    Keeps state_path abandon_active_incremental s w := by
  unfold Keeps Runs abandon_active_incremental
  rw [wp_bind, wp_update, wp_persist]
  refine wp_persist_watcher_state h.writable ?_ (fun _ => ?_) fun _ _ _ => trivial
  · rw [h.memory]
    exact .abandon_active hloading hshared
  · exact h.on_active ⟨rfl, rfl, rfl, h.importing⟩ rfl rfl rfl h.active_slot h.active_full rfl rfl
      fun _ => rfl

/-- After the incremental of active is resumed, active is at rest. -/
theorem hands_resume_active_incremental {incrementals : List IncrementalSnapshot}
    {fulls : List FullSnapshot} (hw : Inv w) (h : LoopInv s w)
    (hcutting : s.watcher_state.active.phase ≠ .CutoverPending)
    (hshared : s.watcher_state.shared_full_load = none) :
    Hands state_path (resume_active_incremental incrementals fulls) AtRest s w := by
  have hserving := serving_of (hw.memory _ h.memory).1 hcutting hshared
  unfold Hands Runs resume_active_incremental
  rw [wp_bind, wp_read]
  split
  next hloading =>
    have hinflight : s.watcher_state.active.inflight_incremental = some ⟨.Incremental⟩ := by
      rcases hserving with h | h
      · rw [hloading] at h
        cases h
      · exact h.2
    rw [wp_bind]
    refine wp_require hinflight ?_
    dsimp only [resumed_candidate]
    cases hnewest : newest_eligible_incremental incrementals s.active_slot with
    -- the archive is gone: the phase is given up, and the journal says so
    | none =>
        refine (keeps_abandon_active h hloading hshared).then hw ?_ fun _ _ _ _ _ => trivial
        exact fun _ _ _ _ h' => ⟨h', fun hflow => nomatch hflow⟩
    -- it is applied again from its start
    | some candidate =>
        have hslot := (newest_eligible_incremental_spec hnewest).2.2
        refine (wp_apply_active_incremental h hserving hshared hslot).then hw ?_
          fun _ _ _ _ _ => trivial
        rintro _ s' w' _ ⟨rfl, h', -⟩
        exact ⟨h', fun hflow => nomatch hflow⟩
  next hnot =>
    refine ⟨h, fun _ => ⟨?_, hshared⟩⟩
    rcases hserving with h | h
    · exact h
    · exact absurd h.1 hnot

/-- With active at rest there is no full for staging to load alone. -/
theorem keeps_resume_staging_full_loading {fulls : List FullSnapshot} (hw : Inv w)
    (h : LoopInv s w) (hrest : AtRest s) :
    Runs state_path (resume_staging_full_loading fulls) (fun _ s' w' => s' = s ∧ w' = w) s w := by
  have hstaging := staging_of (hw.memory _ h.memory).1 (by rw [hrest.ready]; decide) hrest.shared
  unfold Runs resume_staging_full_loading
  rw [wp_bind, wp_read, if_neg]
  · exact ⟨rfl, rfl⟩
  · rintro ⟨-, hloading⟩
    rw [hloading] at hstaging
    rcases hstaging with h | ⟨h | h | h, -⟩ <;> simp [hloading] at h

/-- A wait for staging's merges has its thread started again. -/
theorem keeps_resume_staging_full_merging (hw : Inv w) (h : LoopInv s w) (hrest : AtRest s) :
    Runs state_path resume_staging_full_merging
      (fun _ s' w' => LoopInv s' w' ∧ AtRest s' ∧
        (s'.watcher_state.staging.phase = .FullMerging → s'.staging_build ≠ none)) s w := by
  have hstaging := staging_of (hw.memory _ h.memory).1 (by rw [hrest.ready]; decide) hrest.shared
  unfold Runs resume_staging_full_merging
  rw [wp_bind, wp_read]
  split
  next hdue =>
    obtain ⟨hnone, hmerging⟩ := hdue
    -- a lane in this phase has its full
    have hbuilt : Built s.watcher_state.staging := by
      rcases hstaging with hdisabled | h
      · rw [hmerging] at hdisabled
        cases hdisabled
      · exact h.2
    obtain ⟨full, hfull⟩ := Option.isSome_iff_exists.mp hbuilt.full
    rw [wp_bind]
    refine wp_require hfull ?_
    unfold spawn_staging_merge_wait
    rw [wp_bind, wp_bind]
    refine wp_call (c := .spawn_staging_merge_wait _) trivial fun o a w' hr _ => ?_
    rcases World.acknowledge_cases hr with ⟨rfl, rfl⟩ | ⟨rfl, -⟩
    · refine ⟨⟨h.memory, h.failed, h.active_path, h.active_slot, h.active_full, h.not_pending,
        h.hot_mints, h.staging_hot_mints, rfl, fun build hb => ?_, h.importing_staging,
        h.incremental, h.importing, h.valid⟩, ⟨hrest.ready, hrest.shared⟩,
        fun _ hnone => nomatch hnone⟩
      obtain rfl := Option.some.inj hb
      exact ⟨rfl, hmerging⟩
    · trivial
  next hnot =>
    refine ⟨h, hrest, fun hmerging hnone => hnot ⟨?_, hmerging⟩⟩
    rw [hnone]
    rfl

/-- A lane that is merging has its wait, and one that is importing its thread. -/
structure Threads (s : Locals) : Prop extends AtRest s where
  merging : s.watcher_state.staging.phase = .FullMerging → s.staging_build ≠ none
  loading : s.watcher_state.staging.phase = .IncrementalLoading →
    s.staging_incremental_handle ≠ none

/-- A first staging incremental in its thread. -/
theorem wp_spawn_staging_incremental {snapshot : IncrementalSnapshot} {slot : Slot}
    {mints : HotMintSet} {Q : Unit → Locals → World → Prop} (h : LoopInv s w)
    (hready : s.watcher_state.active.phase = .Ready)
    (hloading : s.watcher_state.staging.phase = .IncrementalLoading)
    (hmints : s.staging_hot_mints = some mints)
    (hadvances : Advances false s.watcher_state.staging snapshot.slot)
    (hQ : ∀ w', LoopInv { s with staging_incremental_handle := some snapshot.slot } w' →
      Q () { s with staging_incremental_handle := some snapshot.slot } w') :
    Runs state_path (spawn_staging_incremental snapshot slot mints) Q s w := by
  have hsettled := h.settled (by rw [hloading]; decide)
  obtain ⟨set, hset, hlane⟩ := h.staging_hot_mints (by rw [hloading]; decide)
  obtain rfl : mints = set := Option.some.inj (hmints.symm.trans hset)
  unfold Runs spawn_staging_incremental
  rw [wp_bind]
  refine wp_call (c := .spawn_staging_incremental _ _ _) ⟨_, hsettled, hloading, hlane⟩
    fun o a w' hr _ => ?_
  rcases World.acknowledge_cases hr with ⟨rfl, rfl⟩ | ⟨rfl, -⟩
  · refine hQ _ ⟨h.memory, h.failed, h.active_path, h.active_slot, h.active_full, h.not_pending,
      h.hot_mints, h.staging_hot_mints, h.building, h.build, rfl, fun slot hs => ?_, h.importing,
      h.valid⟩
    obtain rfl := Option.some.inj hs
    exact ⟨hloading, hready, hadvances⟩
  · trivial

/-- A newer slot moves staging on. -/
theorem advances_staging {state : WatcherState} {stage_slot slot : Slot}
    (hbuilt : Built state.staging)
    (hmax : state.staging.max_slot = some stage_slot) (hslot : stage_slot < slot) :
    Advances false state.staging slot := by
  obtain ⟨max, hmax', hfull⟩ := hbuilt.committed
  obtain rfl : max = stage_slot := Option.some.inj (hmax'.symm.trans hmax)
  refine ⟨fun full hf => (hfull full hf).trans hslot.le, fun _ old hold => ?_⟩
  obtain rfl : max = old := Option.some.inj (hmax.symm.trans hold)
  exact hslot

/-- An incremental of staging is started again or given up, and the threads are those the
journal says. -/
theorem hands_resume_staging_incremental {incrementals : List IncrementalSnapshot} (hw : Inv w)
    (h : LoopInv s w) (hrest : AtRest s)
    (hmerging : s.watcher_state.staging.phase = .FullMerging → s.staging_build ≠ none) :
    Hands state_path (resume_staging_incremental incrementals) Threads s w := by
  have hstaging := staging_of (hw.memory _ h.memory).1 (by rw [hrest.ready]; decide) hrest.shared
  unfold Hands Runs resume_staging_incremental
  rw [wp_bind, wp_read]
  split
  next hdue =>
    obtain ⟨hnone, hloading⟩ := hdue
    have hbuild := h.no_build (by rw [hloading]; decide)
    obtain ⟨hinflight, hbuilt⟩ : s.watcher_state.staging.inflight_incremental =
        some ⟨.Incremental⟩ ∧ Built s.watcher_state.staging := by
      rcases hstaging with h | ⟨h | h | h, hbuilt⟩
      · rw [hloading] at h; cases h
      · rw [hloading] at h; cases h
      · rw [hloading] at h; cases h
      · exact ⟨h.2, hbuilt⟩
    obtain ⟨stage_slot, hmax, -⟩ := hbuilt.committed
    obtain ⟨mints, hmints, -⟩ := h.staging_hot_mints (by rw [hloading]; decide)
    rw [wp_bind]
    refine wp_require hinflight ?_
    rw [wp_bind]
    refine wp_require hmax ?_
    rw [if_neg (by decide)]
    -- without a candidate the attempt is given up in the journal
    cases hnewest : newest_eligible_incremental incrementals stage_slot with
    | none =>
        dsimp only
        rw [wp_bind, wp_update, wp_bind, wp_persist]
        refine wp_persist_watcher_state h.writable ?_ (fun _ => ?_) fun _ _ _ => trivial
        · rw [h.memory]
          exact .abandon_staging hloading
        · refine ⟨?_, fun hflow => nomatch hflow⟩
          exact h.on_lanes ⟨rfl, rfl, rfl, h.importing⟩ rfl rfl rfl
            (fun hd => by rw [hloading] at hd; cases hd) h.active_slot h.active_full h.building
            (fun b hb => by rw [hbuild] at hb; cases hb) h.importing_staging
            (fun slot hs => by rw [Option.isNone_iff_eq_none.mp hnone] at hs; cases hs)
    | some snapshot =>
        dsimp only
        rw [wp_bind]
        refine wp_require hmints ?_
        rw [wp_bind]
        refine wp_spawn_staging_incremental h hrest.ready hloading hmints
          (advances_staging hbuilt hmax (newest_eligible_incremental_spec hnewest).2.2)
          fun w' h' => ⟨h', fun _ => ⟨⟨hrest.ready, hrest.shared⟩, ?_, fun _ hn => nomatch hn⟩⟩
        exact fun hm => by rw [hloading] at hm; cases hm
  next hnot =>
    refine ⟨h, fun _ => ⟨hrest, hmerging, fun hloading hnone => hnot ⟨?_, hloading⟩⟩⟩
    rw [hnone]
    rfl

/-- No bootstrap full is pending. -/
theorem hands_bootstrap_full {fulls : List FullSnapshot} (h : LoopInv s w) (hrest : AtRest s) :
    Hands state_path (bootstrap_full fulls) (fun s' => s' = s) s w := by
  unfold Hands Runs bootstrap_full
  rw [wp_bind, wp_read, if_neg (by simp [h.not_pending, hrest.ready])]
  exact ⟨h, fun _ => rfl⟩

/-! ### A new full -/

/-- A set frozen under a new name leaves those of the lanes alone. -/
theorem hot_mints_frozen_file {lane : LaneWatcherState} {mints : HotMintSet} {path : String}
    (lines : List String) (synced : Bool) (h : w.hot_mints lane = some mints)
    (hfresh : w.frozen.lookup path = none) :
    (w.frozen_file path lines synced).hot_mints lane = some mints := by
  obtain ⟨file, hfile, rfl⟩ := Option.map_eq_some_iff.mp h
  obtain ⟨old, hpath, hlookup⟩ := Option.bind_eq_some_iff.mp hfile
  have hne : (old == path) = false := by
    rw [beq_eq_false_iff_ne]
    rintro rfl
    rw [hfresh] at hlookup
    cases hlookup
  refine World.hot_mints_of_lookup hpath ?_
  change ((path, MintFile.written lines) :: w.frozen).lookup old = some file
  rw [List.lookup_cons, hne]
  exact hlookup

/-- The loop once a full is bound to staging, its set frozen. -/
theorem LoopInv.bound {snapshot : FullSnapshot} {resume : Slot} {path : String}
    {lines : List String} {w' : World} (h : LoopInv s w)
    (hdisabled : s.watcher_state.staging.phase = .Disabled) (hfresh : w.frozen.lookup path = none)
    (hfrozen : w'.frozen = (path, .written lines) :: w.frozen)
    (hprocess : w'.process = { w.process with
      memory := some (s.watcher_state.begin_shared_full_load snapshot resume path)
      failed := none }) :
    LoopInv { s with
      watcher_state := s.watcher_state.begin_shared_full_load snapshot resume path
      staging_hot_mints := some lines.toFinset } w' := by
  have hbuild := h.no_build (by rw [hdisabled]; decide)
  have hhandle := h.no_handle (by rw [hdisabled]; decide)
  refine ⟨?_, .inl ?_, h.active_path, ?_, h.active_full, h.not_pending, ?_,
    fun _ => ⟨_, rfl, ?_⟩, ?_, fun b hb => ?_, ?_, fun slot hs => ?_, ?_, h.valid⟩
  · rw [hprocess]
  · rw [hprocess]
  · rw [hprocess]
    exact h.active_slot
  -- active keeps its set: the new file has another name
  · obtain ⟨mints, hmints, hset⟩ := h.hot_mints
    exact ⟨mints, hmints, (World.hot_mints_congr hfrozen rfl).trans
      (hot_mints_frozen_file lines true hset hfresh)⟩
  -- staging has the set of the new file
  · have hlookup : w'.frozen.lookup path = some (.written lines) := by
      rw [hfrozen, List.lookup_cons_self]
    exact World.hot_mints_of_lookup (by rfl) hlookup
  · rw [hprocess]
    exact h.building
  · rw [hbuild] at hb
    cases hb
  · rw [hprocess]
    exact h.importing_staging
  · rw [hhandle] at hs
    cases hs
  · rw [hprocess]
    exact h.importing

/-- Binding a full freezes a set for staging and checkpoints the shared load. -/
theorem wp_begin_shared_full_load {snapshot : FullSnapshot} {Q : HotMintSet → Locals → World → Prop}
    (hw : Inv w) (h : LoopInv s w) (hrest : AtRest s)
    (hdisabled : s.watcher_state.staging.phase = .Disabled)
    (hnewer : ∀ full, s.watcher_state.active.full_snapshot = some full → full.slot < snapshot.slot)
    (hQ : ∀ mints s' w', Inv w' → LoopInv { s' with staging_hot_mints := some mints } w' →
      Q mints s' w') :
    Runs state_path (begin_shared_full_load state_path snapshot) Q s w := by
  obtain ⟨resume, hresume, -⟩ := (hw.memory _ h.memory).1.committed
  unfold Runs begin_shared_full_load
  rw [wp_bind, wp_read, if_neg (not_not.mpr hdisabled), if_neg (not_not.mpr hrest.ready), wp_bind]
  refine wp_require hresume ?_
  rw [wp_bind]
  refine wp_quiet (c := .snapshot_hot_mints) rfl trivial (fun mints => ?_) trivial
  rw [wp_bind]
  refine wp_persist_frozen_hot_mints fun path lines hset hfresh hw₁ => ?_
  rw [wp_bind, wp_update, wp_bind, wp_persist]
  refine wp_persist_watcher_state h.writable ?_ (fun hw₂ => ?_) fun _ _ _ => trivial
  · rw [show (w.frozen_file path lines true).process.memory = _ from h.memory]
    exact .begin_shared hrest.ready hresume h.active_path hdisabled hnewer holds_new
  · rw [wp_bind, wp_read, wp_bind]
    refine (wp_cleanup_or_warn hw₂ ⟨rfl, rfl⟩).mono hw₂ ?_ fun _ _ _ _ h => h
    rintro _ s₃ w₃ hw₃ ⟨rfl, hsame⟩
    refine hQ mints _ _ hw₃ ?_
    rw [← hset]
    exact h.bound hdisabled hfresh hsame.frozen hsame.process

/-- A new full is bound where staging is disabled; where none is bound, none is newer. -/
theorem hands_bind_new_full {fulls : List FullSnapshot} (hw : Inv w) (h : LoopInv s w)
    (hthreads : Threads s) :
    Hands state_path (bind_new_full state_path fulls)
      (fun s' => s' = s ∧ (s.watcher_state.staging.phase = .Disabled → newest_full_generation fulls
        (s.watcher_state.active.full_snapshot.map (·.slot)) = none)) s w := by
  unfold Hands Runs bind_new_full
  rw [wp_bind, wp_read]
  split
  next hdue =>
    cases hnewest : newest_full_generation fulls
        (s.watcher_state.active.full_snapshot.map (·.slot)) with
    | none => exact ⟨h, fun _ => ⟨rfl, fun _ => rfl⟩⟩
    | some snapshot =>
        dsimp only
        rw [wp_bind]
        refine wp_begin_shared_full_load hw h hthreads.toAtRest hdue.1 (fun full hfull => ?_)
          fun mints s' w' _ h' => ⟨h', fun hflow => nomatch hflow⟩
        exact (newest_full_generation_spec hnewest).2 full.slot (by rw [hfull]; rfl)
  next hnot =>
    refine ⟨h, fun _ => ⟨rfl, fun hdisabled => absurd ⟨hdisabled, ?_⟩ hnot⟩⟩
    rw [h.no_build (by rw [hdisabled]; decide)]
    rfl

/-! ### An incremental -/

/-- Nothing continues from the slot, where nothing has failed before. -/
theorem next_candidate_none {incrementals : List IncrementalSnapshot} {slot : Slot}
    (h : next_candidate incrementals slot [] = none) {snapshot : IncrementalSnapshot}
    (hmem : snapshot ∈ incrementals) : ¬ Continues slot snapshot := by
  intro heligible
  have hempty := List.head?_eq_none_iff.mp h
  have hin : snapshot ∈ (eligible_candidates incrementals slot).filter
      fun snapshot => snapshot.path ∉ ([] : List String) :=
    List.mem_filter.mpr ⟨mem_eligible_candidates.mpr ⟨hmem, heligible⟩, by simp⟩
  rw [hempty] at hin
  exact List.not_mem_nil hin

/-- Selecting staging's incremental changes nothing. -/
theorem wp_staging_candidate {incrementals : List IncrementalSnapshot} (hw : Inv w)
    (h : LoopInv s w) (hrest : AtRest s) :
    Runs state_path (staging_candidate incrementals) (fun _ s' w' => s' = s ∧ w' = w) s w := by
  have hstaging := staging_of (hw.memory _ h.memory).1 (by rw [hrest.ready]; decide) hrest.shared
  unfold Runs staging_candidate
  rw [wp_bind, wp_read]
  split
  next hdue =>
    have hbuilt : Built s.watcher_state.staging := by
      rcases hstaging with hdisabled | h
      · rw [hdue.2] at hdisabled
        cases hdisabled
      · exact h.2
    obtain ⟨slot, hslot, -⟩ := hbuilt.committed
    rw [wp_bind]
    refine wp_require hslot ?_
    exact ⟨rfl, rfl⟩
  next => exact ⟨rfl, rfl⟩

/-- Staging's incremental is started on the set of its lane. -/
theorem keeps_start_staging_incremental {incremental : IncrementalSnapshot} (hw : Inv w)
    (h : LoopInv s w) (hrest : AtRest s) :
    Runs state_path (start_staging_incremental incremental)
      (fun _ s' w' => LoopInv s' w' ∧ AtRest s') s w := by
  have hstaging := staging_of (hw.memory _ h.memory).1 (by rw [hrest.ready]; decide) hrest.shared
  unfold Runs start_staging_incremental
  rw [wp_bind, wp_read]
  cases hmax : s.watcher_state.staging.max_slot with
  | none => exact ⟨h, hrest⟩
  | some stage_slot =>
      dsimp only
      split
      next hdue =>
        obtain ⟨hnone, hphase, hslot, -⟩ := hdue
        have hbuild := h.no_build (by rw [hphase]; decide)
        -- a lane that is ready has its full
        have hbuilt : Built s.watcher_state.staging := by
          rcases hstaging with hdisabled | h
          · rw [hphase] at hdisabled
            cases hdisabled
          · exact h.2
        obtain ⟨mints, hmints, -⟩ := h.staging_hot_mints (by rw [hphase]; decide)
        rw [wp_bind]
        refine wp_require hmints ?_
        rw [wp_bind, wp_update, wp_bind, wp_persist]
        refine wp_persist_watcher_state h.writable ?_ (fun _ => ?_) fun _ _ _ => trivial
        · rw [h.memory]
          exact .begin_staging hphase
        · have h₁ : LoopInv { s with watcher_state :=
              s.watcher_state.begin_staging_incremental (.Incremental incremental) }
              (w.persisted
                (s.watcher_state.begin_staging_incremental (.Incremental incremental))) :=
            h.on_lanes ⟨rfl, rfl, rfl, h.importing⟩ rfl rfl rfl
              (fun hd => by rw [hphase] at hd; cases hd) h.active_slot h.active_full h.building
              (fun b hb => by rw [hbuild] at hb; cases hb) h.importing_staging
              (fun slot hs => by rw [Option.isNone_iff_eq_none.mp hnone] at hs; cases hs)
          have hadvances := advances_staging hbuilt hmax hslot
          exact wp_spawn_staging_incremental h₁ hrest.ready rfl hmints
            ⟨hadvances.full, hadvances.slot⟩ fun w' h' => ⟨h', ⟨hrest.ready, hrest.shared⟩⟩
      next => exact ⟨h, hrest⟩

/-- Active takes the selected incremental and is at rest again. -/
theorem keeps_apply_selected_to_active {incremental : IncrementalSnapshot} (hw : Inv w)
    (h : LoopInv s w) (hrest : AtRest s) :
    Keeps state_path (apply_selected_to_active incremental) s w := by
  unfold Keeps Runs apply_selected_to_active
  rw [wp_bind, wp_read]
  split
  next hdue =>
    rw [wp_bind, wp_attempt]
    refine (wp_apply_active_incremental h (.inl hrest.ready) hrest.shared hdue.2.1).mono hw ?_ ?_
    · exact fun _ _ _ _ h' => h'.2.1
    · intro _ _ _ _ _
      rw [wp_bind, wp_assign]
      trivial
  next => exact h

/-- Where no incremental is applied, there is none for active. -/
theorem hands_apply_incremental {incrementals : List IncrementalSnapshot} (hw : Inv w)
    (h : LoopInv s w) (hrest : AtRest s) :
    Hands state_path (apply_incremental incrementals)
      (fun s' => s' = s ∧ active_candidate s incrementals = none) s w := by
  unfold Hands Runs apply_incremental
  rw [wp_bind, wp_read]
  refine (wp_staging_candidate hw h hrest).then hw ?_ fun _ _ _ _ _ => trivial
  rintro staging s' w' hw' ⟨rfl, rfl⟩
  cases hselected : staging.or (active_candidate s' incrementals) with
  | none => exact ⟨h, fun _ => ⟨rfl, (Option.or_eq_none_iff.mp hselected).2⟩⟩
  | some incremental =>
      dsimp only
      refine (keeps_start_staging_incremental hw' h hrest).then hw' ?_ fun _ _ _ _ _ => trivial
      rintro _ s₁ w₁ hw₁ ⟨h₁, hrest₁⟩
      refine (keeps_apply_selected_to_active hw₁ h₁ hrest₁).then hw₁ ?_ fun _ _ _ _ _ => trivial
      exact fun _ _ _ _ h₂ => ⟨h₂, fun hflow => nomatch hflow⟩

/-! ### Nothing to do -/

/-- What the blocks of a turn that comes to its end have found. -/
theorem idle_of {incrementals : List IncrementalSnapshot} {fulls : List FullSnapshot}
    (hw : Inv w) (h : LoopInv s w) (hthreads : Threads s)
    (hfull : s.watcher_state.staging.phase = .Disabled → newest_full_generation fulls
      (s.watcher_state.active.full_snapshot.map (·.slot)) = none)
    (hincremental : active_candidate s incrementals = none) :
    Idle w s.watcher_state s.active_slot incrementals fulls where
  memory := h.memory
  ready := hthreads.ready
  slot := h.active_slot
  incrementals := by
    intro snapshot hmem
    rw [active_candidate, if_pos hthreads.ready, h.valid] at hincremental
    exact next_candidate_none hincremental hmem
  staging := by
    intro hbuilding himporting
    have hstaging := staging_of (hw.memory _ h.memory).1 (by rw [hthreads.ready]; decide)
      hthreads.shared
    rw [h.building] at hbuilding
    rw [h.importing_staging] at himporting
    -- a lane that merges or loads has its task running
    rcases hstaging with hdisabled | ⟨hmerging | hready | hloading, -⟩
    · exact .inl hdisabled
    · exact absurd (by simpa using hbuilding) (hthreads.merging hmerging)
    · exact .inr hready
    · exact absurd (by simpa using himporting) (hthreads.loading hloading.1)
  fulls := by
    intro hdisabled slot hslot snapshot hmem
    obtain ⟨committed, hcommitted, hle⟩ := (hw.memory _ h.memory).1.committed
    obtain rfl : committed = slot := Option.some.inj (hcommitted.symm.trans hslot)
    exact newest_full_generation_none (hfull hdisabled) hle hmem

/-- A turn that finds nothing to do sleeps. -/
theorem keeps_idle {incrementals : List IncrementalSnapshot} {fulls : List FullSnapshot}
    (h : LoopInv s w) (hidle : Idle w s.watcher_state s.active_slot incrementals fulls) :
    Keeps state_path (idle incrementals fulls) s w := by
  unfold Keeps Runs idle
  rw [wp_bind, wp_read, wp_bind]
  refine wp_quiet (c := .sleep _ _ _ _) rfl hidle (fun _ => ?_) trivial
  rw [wp_bind]
  refine wp_call (c := .existing _) trivial fun o a w' hr _ => ?_
  obtain ⟨rfl, ha⟩ := World.report_cases hr
  cases a with
  | none => trivial
  | some there =>
      have hthere : there = [] := by
        rcases ha with ha | ha
        · cases ha
        · rw [h.valid] at ha
          cases o <;> simp [World.reported_existing] at ha
          exact ha
      subst hthere
      dsimp only
      rw [wp_assign]
      exact ⟨h.memory, h.failed, h.active_path, h.active_slot, h.active_full, h.not_pending,
        h.hot_mints, h.staging_hot_mints, h.building, h.build, h.importing_staging, h.incremental,
        h.importing, rfl⟩

/-! ### The turn -/

/-- The blocks after the listing, one after the other. -/
theorem keeps_handle_listing {incrementals : List IncrementalSnapshot} {fulls : List FullSnapshot}
    (hw : Inv w) (h : LoopInv s w) (hcutting : s.watcher_state.active.phase ≠ .CutoverPending) :
    Keeps state_path (handle_listing state_path incrementals fulls) s w := by
  unfold handle_listing
  refine keeps_and_then hw (hands_resume_shared_full_load hw h hcutting) ?_
  rintro s₁ w₁ hw₁ h₁ ⟨hcutting₁, hshared⟩
  refine keeps_and_then hw₁ (hands_resume_active_full_merging hw₁ h₁ hcutting₁ hshared) ?_
  rintro _ w₂ hw₂ h₂ rfl
  refine keeps_and_then hw₂ (hands_resume_active_full_loading hw₂ h₂ hcutting₁ hshared) ?_
  rintro _ w₃ hw₃ h₃ rfl
  refine keeps_and_then hw₃ (hands_resume_active_incremental hw₃ h₃ hcutting₁ hshared) ?_
  rintro s₄ w₄ hw₄ h₄ hrest₄
  refine (keeps_resume_staging_full_loading hw₄ h₄ hrest₄).then hw₄ ?_ fun _ _ _ _ _ => trivial
  rintro _ s₅ w₅ hw₅ ⟨rfl, rfl⟩
  refine (keeps_resume_staging_full_merging hw₅ h₄ hrest₄).then hw₅ ?_ fun _ _ _ _ _ => trivial
  rintro _ s₆ w₆ hw₆ ⟨h₆, hrest₆, hmerging⟩
  refine keeps_and_then hw₆ (hands_resume_staging_incremental hw₆ h₆ hrest₆ hmerging) ?_
  rintro s₇ w₇ hw₇ h₇ hthreads
  refine keeps_and_then hw₇ (hands_bootstrap_full h₇ hthreads.toAtRest) ?_
  rintro _ w₈ hw₈ h₈ rfl
  refine keeps_and_then hw₈ (hands_bind_new_full hw₈ h₈ hthreads) ?_
  rintro _ w₉ hw₉ h₉ ⟨rfl, hfull⟩
  refine keeps_and_then hw₉ (hands_apply_incremental hw₉ h₉ hthreads.toAtRest) ?_
  rintro _ w₁₀ hw₁₀ h₁₀ ⟨rfl, hincremental⟩
  exact keeps_idle h₁₀ (idle_of hw₁₀ h₁₀ hthreads hfull hincremental)

/-- **A turn of the loop keeps its invariant.** -/
theorem keeps_loop_body (hw : Inv w) (h : LoopInv s w) :
    Keeps state_path (loop_body state_path) s w := by
  unfold loop_body
  refine (keeps_receive_full_imported h).then hw ?_ fun _ _ _ _ _ => trivial
  intro _ s w hw h
  refine (keeps_join_staging_build h).then hw ?_ fun _ _ _ _ _ => trivial
  intro _ s w hw h
  refine (keeps_join_staging_incremental h).then hw ?_ fun _ _ _ _ _ => trivial
  intro _ s w hw h
  refine keeps_and_then hw (hands_cut_over hw h) ?_
  intro s w hw h hcutting
  unfold Keeps Runs
  rw [wp_bind]
  refine wp_quiet (c := .discover_incremental_snapshots) rfl trivial (fun incrementals => ?_)
    trivial
  rw [wp_bind]
  refine wp_quiet (c := .discover_full_snapshots) rfl trivial (fun fulls => ?_) trivial
  exact keeps_handle_listing hw h hcutting

end blocks

/-! ## The start -/

section start

variable {state_path : String} {args : Args} {state : WatcherState} {u : Unit} {w : World}

/-- A process that has its journal and nothing under way. -/
structure Started (state : WatcherState) (w : World) : Prop where
  memory : w.process.memory = some state
  failed : w.process.failed = none
  lagging : w.process.lagging = false
  importing : w.process.importing = []
  staging_build : w.process.staging_build = false
  staging_incremental : w.process.staging_incremental = false

theorem Started.same {w' : World} (h : Started state w) (hsame : SameButFiles w w') :
    Started state w' := by
  refine ⟨?_, ?_, ?_, ?_, ?_, ?_⟩ <;> rw [hsame.process]
  · exact h.memory
  · exact h.failed
  · exact h.lagging
  · exact h.importing
  · exact h.staging_build
  · exact h.staging_incremental

/-- The mint files it names go by what they read as. -/
structure Restores (state : WatcherState) (w : World) : Prop where
  active : ∀ path, state.active.hot_mints_path = some path → w.AsRead path
  staging : ∀ path, state.staging.hot_mints_path = some path → w.AsRead path

/-- What goes on with the mint files alone is nothing to it. -/
theorem Restores.same {w' : World} (h : Restores state w) (hfrozen : w'.frozen = w.frozen) :
    Restores state w' :=
  ⟨fun path hpath => (h.active path hpath).of_same hfrozen,
    fun path hpath => (h.staging path hpath).of_same hfrozen⟩

/-- A new journal names none. -/
theorem restores_recovered (slot : Slot) : Restores (.recovered_active_only slot) w :=
  ⟨fun _ hpath => (nomatch hpath), fun _ hpath => (nomatch hpath)⟩

theorem Started.writable (h : Started state w) : w.process.failed ≠ some .other := by
  rw [h.failed]
  nofun

/-- A bootstrap starts with a journal of its own. -/
theorem wp_reset_watcher_state (hprocess : w.process = .started true) :
    Runs state_path (reset_watcher_state state_path)
      (fun state _ w' => Started state w' ∧ Restores state w') u w := by
  unfold Runs reset_watcher_state
  rw [wp_bind]
  refine wp_quiet (c := .max_raw_account_updated_slot) rfl trivial (fun slot => ?_) trivial
  rw [wp_bind]
  refine wp_persist_watcher_state (by rw [hprocess]; nofun) ?_ (fun hw₁ => ?_) fun _ _ _ => trivial
  · rw [hprocess]
    exact .initialise slot (.inl (by rw [hprocess]; rfl))
  · refine (wp_cleanup hw₁ ⟨rfl, rfl⟩).then hw₁ ?_ fun _ _ _ _ _ => trivial
    rintro _ _ w₂ _ ⟨-, hsame⟩
    refine ⟨Started.same (w := w.persisted (.recovered_active_only slot)) ?_ hsame,
      restores_recovered slot⟩
    refine ⟨rfl, rfl, ?_, ?_, ?_, ?_⟩ <;> simp only [World.persisted, hprocess, Process.started]

/-- Any other start goes on with the journal on disk, or with one made from the rows. -/
theorem wp_recover_watcher_state (hprocess : w.process = .started false)
    (hreads : ∀ path, w.AsRead path) :
    Runs state_path (recover_watcher_state args)
      (fun state _ w' => Started state w' ∧ Restores state w') u w := by
  have hloaded : ∀ memory, ({ w.process with memory := memory, failed := none } : Process) =
      { Process.started false with memory := memory } := fun memory => by rw [hprocess]; rfl
  unfold Runs recover_watcher_state
  rw [wp_bind]
  refine wp_call (c := .load_watcher_state) (by change w.process.memory = none; rw [hprocess]; rfl)
    fun o a w₁ hr hw₁ => ?_
  rcases World.respond_load hr with ⟨rfl, rfl⟩ | ⟨rfl, -⟩
  · rw [hloaded] at *
    cases hjournal : w.directory.journal with
    | some state =>
        exact ⟨⟨rfl, rfl, rfl, rfl, rfl, rfl⟩, fun path _ => hreads path, fun path _ => hreads path⟩
    | none =>
        dsimp only
        rw [wp_bind]
        refine wp_quiet (c := .max_raw_account_updated_slot) rfl trivial (fun slot => ?_) trivial
        rw [wp_bind]
        refine wp_persist_watcher_state nofun ?_ (fun _ => ?_) fun _ _ _ => trivial
        · exact .initialise _ (.inr hjournal)
        · exact ⟨⟨rfl, rfl, rfl, rfl, rfl, rfl⟩, restores_recovered _⟩
  · trivial

/-- Either way the process has its journal, in memory and on disk. -/
theorem wp_initial_watcher_state (hprocess : w.process = .started args.bootstrap)
    (hreads : args.bootstrap = false → ∀ path, w.AsRead path) :
    Runs state_path (initial_watcher_state state_path args)
      (fun state _ w' => Started state w' ∧ Restores state w') u w := by
  unfold initial_watcher_state
  cases hbootstrap : args.bootstrap with
  | true => exact wp_reset_watcher_state (hbootstrap ▸ hprocess)
  | false => exact wp_recover_watcher_state (hbootstrap ▸ hprocess) (hreads hbootstrap)

/-- A well-formed journal has no disabled lane that names a mint file. -/
theorem not_disabled_path (h : WellFormed state) : state.has_disabled_hot_mints_path = false := by
  have hactive := active_not_disabled h
  by_cases hstaging : state.staging.phase = .Disabled
  · simp [WatcherState.has_disabled_hot_mints_path, hactive, staging_path_of_disabled h hstaging]
  · simp [WatcherState.has_disabled_hot_mints_path, hactive, hstaging]

/-- Nor does it wait for a bootstrap full. -/
theorem not_bootstrap_pending (h : WellFormed state) : is_bootstrap_pending state = false := by
  cases h.stage with
  | serving hserving => rcases hserving with h | h <;> simp [is_bootstrap_pending, h]
  | sharing _ _ hloading => simp [is_bootstrap_pending, hloading]
  | preparing hserving => rcases hserving with h | h <;> simp [is_bootstrap_pending, h]
  | cutting hpending => simp [is_bootstrap_pending, hpending]

/-- Active's set comes back from its file, or is frozen into a new one. -/
theorem wp_restore_active_hot_mints (hw : Inv w) (h : Started state w) (hreads : Restores state w) :
    Runs state_path (restore_active_hot_mints state) (fun r _ w' => Started r.2 w' ∧
      r.2.active.max_slot = state.active.max_slot ∧ r.2.active.hot_mints_path.isSome ∧
      w'.hot_mints r.2.active = some r.1 ∧
      ∀ path, r.2.staging.hot_mints_path = some path → w'.AsRead path) u w := by
  unfold Runs restore_active_hot_mints
  cases hpath : state.active.hot_mints_path with
  | some path =>
      dsimp only
      rw [wp_bind]
      refine wp_load_frozen_hot_mints ((hw.memory _ h.memory).2.active path hpath)
        (hreads.active path hpath) fun file hfile => ?_
      exact ⟨h, rfl, by rw [hpath]; rfl, World.hot_mints_of_lookup hpath hfile, hreads.staging⟩
  | none =>
      dsimp only
      rw [wp_bind]
      refine wp_quiet (c := .load_enabled_hot_mints) rfl trivial (fun mints => ?_) trivial
      rw [wp_bind]
      refine wp_persist_frozen_hot_mints fun path lines hset hfresh hw₁ => ?_
      rw [wp_bind]
      refine wp_persist_watcher_state h.writable ?_ (fun _ => ?_) fun _ _ _ => trivial
      · rw [show (w.frozen_file path lines true).process.memory = _ from h.memory]
        exact .freeze hpath holds_new
      · refine ⟨⟨rfl, rfl, h.lagging, h.importing, h.staging_build, h.staging_incremental⟩, rfl,
          rfl, ?_, fun old hold => ?_⟩
        · rw [← hset]
          have hlookup : (w.frozen_file path lines true).frozen.lookup path =
              some (.written lines) := List.lookup_cons_self
          exact World.hot_mints_of_lookup (by rfl) hlookup
        · -- the new file is not staging's, which is on record already
          obtain ⟨file, -, hlookup⟩ := (hw.memory _ h.memory).2.staging old hold
          have hne : old ≠ path := by
            rintro rfl
            rw [hfresh] at hlookup
            cases hlookup
          exact ((hreads.staging old hold).frozen_file hne lines true).of_same rfl

/-- Staging's set comes back from its file. -/
theorem wp_restore_staging_hot_mints (hw : Inv w) (h : Started state w)
    (hreads : ∀ path, state.staging.hot_mints_path = some path → w.AsRead path) :
    Runs state_path (restore_staging_hot_mints state) (fun r _ w' => w' = w ∧
      (state.staging.phase ≠ .Disabled → ∃ mints, r = some mints ∧
        w.hot_mints state.staging = some mints)) u w := by
  have hwell := (hw.memory _ h.memory).1
  unfold Runs restore_staging_hot_mints
  cases hpath : state.staging.hot_mints_path with
  | none =>
      refine ⟨rfl, fun hne => ?_⟩
      -- of the stages only the one with a disabled lane goes without a file
      have hsome : state.staging.hot_mints_path.isSome := by
        cases hwell.stage with
        | serving _ hdisabled => exact absurd hdisabled hne
        | sharing _ _ _ _ _ _ _ hload => rw [hload]; rfl
        | preparing _ _ _ hbuilt => exact hbuilt.hot_mints
        | cutting _ _ _ hbuilt => exact hbuilt.hot_mints
      rw [hpath] at hsome
      cases hsome
  | some path =>
      dsimp only
      split
      next hne =>
        rw [wp_bind]
        exact wp_load_frozen_hot_mints ((hw.memory _ h.memory).2.staging path hpath)
          (hreads path hpath) fun file hfile =>
            ⟨rfl, fun _ => ⟨file.in_use, rfl, World.hot_mints_of_lookup hpath hfile⟩⟩
      next hdisabled => exact ⟨rfl, fun hne => absurd hne hdisabled⟩

/-- **The start establishes the loop's invariant from any sound disk.** -/
theorem wp_startup (hw : Inv w) (hprocess : w.process = .started args.bootstrap)
    (hreads : args.bootstrap = false → ∀ path, w.AsRead path) :
    Runs state_path (startup state_path args) (fun s _ w' => LoopInv s w') u w := by
  unfold Runs startup
  refine (wp_initial_watcher_state hprocess hreads).then hw ?_ fun _ _ _ _ _ => trivial
  rintro state _ w₁ hw₁ ⟨h₁, hreads₁⟩
  have hwell := (hw₁.memory _ h₁.memory).1
  rw [wp_bind]
  unfold clear_disabled_lanes
  rw [if_neg (by rw [not_disabled_path hwell]; decide), wp_pure]
  refine (wp_cleanup_or_warn hw₁ ⟨h₁.memory, h₁.failed⟩).then hw₁ ?_ fun _ _ _ _ h => h
  rintro _ _ w₂ hw₂ ⟨-, hsame⟩
  have h₂ := h₁.same hsame
  dsimp only
  rw [not_bootstrap_pending hwell, if_neg (by decide)]
  have hreads₂ := hreads₁.same hsame.frozen
  -- active has a set from here on, read or frozen now
  refine (wp_restore_active_hot_mints hw₂ h₂ hreads₂).then hw₂ ?_ fun _ _ _ _ _ => trivial
  rintro ⟨mints, state'⟩ _ w₃ hw₃ ⟨h₃, hmax, hpath, hmints, hreads₃⟩
  rw [wp_bind, wp_pure]
  refine (wp_restore_staging_hot_mints hw₃ h₃ hreads₃).then hw₃ ?_ fun _ _ _ _ _ => trivial
  rintro staging _ w₄ hw₄ ⟨rfl, hstaging⟩
  obtain ⟨slot, hslot, hfull⟩ := (hw₄.memory _ h₃.memory).1.committed
  dsimp only at hmax hpath hmints
  rw [← hmax, hslot]
  exact ⟨h₃.memory, .inl h₃.failed, hpath, fun _ => hslot, hfull, rfl, ⟨mints, rfl, hmints⟩,
    hstaging, h₃.staging_build, fun _ hb => (nomatch hb), h₃.staging_incremental,
    fun _ hs => (nomatch hs), h₃.importing, rfl⟩

end start

end SnapshotEtl.Watcher
