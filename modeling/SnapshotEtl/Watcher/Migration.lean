/-
The journal of version 2, and what the watcher makes of it.

A v2 journal recorded a slot and a mint file where a lane has a phase now, and the
migration reads the phase off them. A staging lane that had its full comes out ready,
or importing its first incremental; both go on with the frozen set of its mint file,
and v2 did not have to name one. For active the watcher freezes another set then. For
staging it does not, and a journal without the file stops it at every start that finds
an archive to go on with.
-/
import SnapshotEtl.Watcher.Loop

set_option autoImplicit false

namespace SnapshotEtl.Watcher

open Lib Program
open HotMintFiles (hot_mints_text ReadsAsItself read_hot_mints_of_reads)

/-! ## The migration -/

structure LegacyIncrementalWatcherStateV2
deriving DecidableEq, Repr

structure LegacyStagingWatcherStateV2 where
  full_snapshot_path : String
  full_snapshot_slot : Slot
  ready_slot : Option Slot
  hot_mints_path : Option String
  first_incremental : Option LegacyIncrementalWatcherStateV2
  first_incremental_completed : Bool
deriving DecidableEq, Repr

structure LegacyWatcherStateV2 where
  active_slot : Slot
  active_hot_mints_path : Option String
  staging : Option LegacyStagingWatcherStateV2
deriving DecidableEq, Repr

/-- The staging lane of `migrate_v2_state`. -/
def migrate_v2_staging (legacy_staging : LegacyStagingWatcherStateV2) : LaneWatcherState :=
  let inflight_incremental : Option InflightSnapshotWatcherState :=
    legacy_staging.first_incremental.map fun _ => ⟨.Incremental⟩
  { phase :=
      if legacy_staging.ready_slot.isNone then .FullLoading
      -- the six exchanges may have been cut short, so staging does one more incremental
      else if legacy_staging.first_incremental_completed then .Ready
      else if inflight_incremental.isSome then .IncrementalLoading
      else .Ready
    full_snapshot := some ⟨legacy_staging.full_snapshot_path, legacy_staging.full_snapshot_slot⟩
    max_slot := legacy_staging.ready_slot
    hot_mints_path := legacy_staging.hot_mints_path
    inflight_incremental := inflight_incremental }

def migrate_v2_state (legacy : LegacyWatcherStateV2) : WatcherState where
  active :=
    { phase := .Ready
      full_snapshot := none
      max_slot := some legacy.active_slot
      hot_mints_path := legacy.active_hot_mints_path
      inflight_incremental := none }
  staging :=
    match legacy.staging with
    | none => .disabled
    | some legacy_staging => migrate_v2_staging legacy_staging
  cutover := none
  shared_full_load := none

/-! ## Journals to go on from -/

/-- The staging lane has what its phase asks for. -/
structure Resumable (s : WatcherState) : Prop where
  full : s.staging.phase ≠ .Disabled → s.staging.phase ≠ .WaitingForFull →
    s.staging.full_snapshot.isSome
  committed : s.staging.phase = .Ready ∨ s.staging.phase = .IncrementalLoading →
    s.staging.max_slot.isSome ∧ s.staging.hot_mints_path.isSome
  inflight : s.staging.phase = .IncrementalLoading →
    s.staging.inflight_incremental = some ⟨.Incremental⟩

/-- A staging lane that has its full names its mint file. -/
def LegacyWatcherStateV2.NamesMints (legacy : LegacyWatcherStateV2) : Prop :=
  ∀ staging, legacy.staging = some staging → staging.ready_slot.isSome →
    staging.hot_mints_path.isSome

/-- Staging is migrated to full loading, or past it where the old journal has a slot for it.
-/
theorem migrate_v2_staging_phase (staging : LegacyStagingWatcherStateV2) :
    (staging.ready_slot = none ∧ (migrate_v2_staging staging).phase = .FullLoading) ∨
    ∃ slot, staging.ready_slot = some slot ∧
      ((migrate_v2_staging staging).phase = .Ready ∨
        ((migrate_v2_staging staging).phase = .IncrementalLoading ∧
          (migrate_v2_staging staging).inflight_incremental = some ⟨.Incremental⟩)) := by
  cases hready : staging.ready_slot with
  | none => exact .inl ⟨rfl, by simp [migrate_v2_staging, hready]⟩
  | some slot =>
      refine .inr ⟨slot, rfl, ?_⟩
      cases hcompleted : staging.first_incremental_completed with
      | true => exact .inl (by simp [migrate_v2_staging, hready, hcompleted])
      | false =>
          cases hfirst : staging.first_incremental with
          | none => exact .inl (by simp [migrate_v2_staging, hready, hcompleted, hfirst])
          | some first =>
              exact .inr (by simp [migrate_v2_staging, hready, hcompleted, hfirst])

/-- **A migrated journal can be resumed** where a staging lane with a full names its
mint file. -/
theorem resumable_migrated_iff (legacy : LegacyWatcherStateV2) :
    Resumable (migrate_v2_state legacy) ↔ legacy.NamesMints := by
  cases hstaging : legacy.staging with
  | none =>
      have hlane : (migrate_v2_state legacy).staging = .disabled := by
        simp [migrate_v2_state, hstaging]
      refine ⟨fun _ staging hsome => ?_, fun _ => ⟨?_, ?_, ?_⟩⟩
      · rw [hstaging] at hsome
        cases hsome
      all_goals simp [hlane, LaneWatcherState.disabled]
  | some staging =>
      have hlane : (migrate_v2_state legacy).staging = migrate_v2_staging staging := by
        simp [migrate_v2_state, hstaging]
      have hnames : legacy.NamesMints ↔
          (staging.ready_slot.isSome → staging.hot_mints_path.isSome) := by
        simp [LegacyWatcherStateV2.NamesMints, hstaging]
      rw [hnames]
      constructor
      · intro h hready
        have hcommitted := h.committed
        rw [hlane] at hcommitted
        -- a lane with a full is committed, and so has to name its file
        rcases migrate_v2_staging_phase staging with ⟨hnone, -⟩ | ⟨slot, -, hphase | hphase⟩
        · rw [hnone] at hready
          cases hready
        · exact (hcommitted (.inl hphase)).2
        · exact (hcommitted (.inr hphase.1)).2
      · intro h
        rcases migrate_v2_staging_phase staging with ⟨hnone, hphase⟩ | ⟨slot, hready, hphase⟩
        · refine ⟨fun _ _ => by rw [hlane]; rfl, ?_, ?_⟩
          all_goals simp [hlane, hphase]
        · have hpath : staging.hot_mints_path.isSome := h (by simp [hready])
          refine ⟨fun _ _ => by rw [hlane]; rfl, fun _ => ?_, fun hloading => ?_⟩
          · rw [hlane]
            exact ⟨by simp [migrate_v2_staging, hready], hpath⟩
          · rw [hlane] at hloading ⊢
            rcases hphase with hready | hinflight
            · rw [hready] at hloading
              cases hloading
            · exact hinflight.2

/-! ## A start and its first turn -/

/-- An environment that answers as it likes, and in which no internal-consistency
error may be made. -/
def unraised : Contract Call Answer Outcome World where
  respond := World.respond
  Inv := fun _ => True
  Allowed := fun _ c => ∀ e, c ≠ .raise e
  keeps := fun _ _ _ => trivial

/-- No internal-consistency error is made, and without an error the end is in `Q`. -/
abbrev Unraised {σ α : Type} (x : Watch σ α) (Q : α → σ → World → Prop) (s : σ) (w : World) :
    Prop :=
  wp unraised x Q (fun _ _ _ => True) s w

/-- A start with this journal makes no internal-consistency error, and neither does
the turn after it, whatever the directory lists. -/
def Resumes (state_path : String) (rewind : Slot) (state : WatcherState) : Prop :=
  ∀ w : World, w.directory.journal = some state →
    Unraised (startup state_path ⟨false, rewind⟩)
      (fun s _ w => Unraised (loop_body state_path) (fun _ _ _ => True) s w) () w

section rules

variable {σ α : Type} {s : σ} {w : World}

/-- A call raises nothing, if neither what follows its answer nor what follows its failure
does. -/
theorem unraised_call {c : Call} {Q : Reply c → σ → World → Prop}
    {E : WatcherError → σ → World → Prop} (hc : ∀ e, c ≠ .raise e) :
    wp unraised (call c) Q E s w ↔ ∀ o w',
      (∀ reply, w.respond c o = some (some reply, w') → Q reply s w') ∧
      (w.respond c o = some (none, w') → E .external s w') := by
  unfold call
  rw [wp_bind, wp_ask]
  constructor
  · rintro ⟨-, h⟩ o w'
    exact ⟨fun reply hr => h o _ w' hr trivial, fun hr => h o _ w' hr trivial⟩
  · refine fun h => ⟨hc, fun o a w' hr _ => ?_⟩
    cases a with
    | none => exact (h o w').2 hr
    | some reply => exact (h o w').1 reply hr

/-- A value that is required has to be there. -/
theorem unraised_require {value : Option α} {e : Inconsistency} {Q : α → σ → World → Prop}
    {E : WatcherError → σ → World → Prop} :
    wp unraised (require value e) Q E s w ↔ ∃ a, value = some a ∧ Q a s w := by
  cases value with
  | none =>
      refine ⟨fun h => ?_, fun ⟨a, ha, _⟩ => nomatch ha⟩
      unfold require raise at h
      rw [wp_bind, wp_ask] at h
      exact absurd rfl (h.1 e)
  | some a =>
      refine ⟨fun h => ⟨a, rfl, h⟩, ?_⟩
      rintro ⟨b, hb, h⟩
      obtain rfl := Option.some.inj hb
      exact h

/-- A call is harmless where whatever follows it is. -/
theorem unraised_any {c : Call} {Q : Reply c → σ → World → Prop}
    {E : WatcherError → σ → World → Prop} (hc : ∀ e, c ≠ .raise e)
    (hQ : ∀ reply w', Q reply s w') (hE : ∀ w', E .external s w') :
    wp unraised (call c) Q E s w :=
  (unraised_call hc).mpr fun _ w' => ⟨fun reply _ => hQ reply w', fun _ => hE w'⟩

/-- Removing files raises nothing, whichever removals fail. -/
theorem unraised_remove_files (paths : List String) :
    wp unraised (remove_files paths) (fun _ s' _ => s' = s) (fun _ s' _ => s' = s) s w := by
  induction paths generalizing w with
  | nil => exact rfl
  | cons path paths ih =>
      unfold remove_files
      rw [wp_bind]
      exact unraised_any (by simp) (fun _ _ => ih) fun _ => rfl

/-- Cleaning up is of no account to what follows. -/
theorem unraised_cleanup {state_path : String} {state : WatcherState}
    {Q : Unit → σ → World → Prop} (hQ : ∀ w', Q () s w') :
    Unraised (cleanup_unused_frozen_hot_mints_or_warn state_path state) Q s w := by
  unfold cleanup_unused_frozen_hot_mints_or_warn
  rw [Unraised, wp_bind, wp_attempt]
  unfold cleanup_unused_frozen_hot_mints
  rw [wp_bind]
  refine unraised_any (by simp) (fun paths w' => ?_) hQ
  rw [wp_bind]
  refine (unraised_remove_files _).mono trivial (fun _ s' w' _ hs => ?_) fun _ s' w' _ hs => ?_
  · subst hs
    split
    · rw [wp_bind]
      exact unraised_any (by simp) (fun _ w' => hQ w') hQ
    · exact hQ w'
  · subst hs
    exact hQ w'

end rules

/-! ## The start -/

/-- What the loop starts with, from this journal: the journal but for a mint file of
active's own, and the sets of the files. -/
structure Restored (state : WatcherState) (s : Locals) : Prop where
  active : s.watcher_state.active.phase = state.active.phase
  max_slot : s.watcher_state.active.max_slot = state.active.max_slot
  staging : s.watcher_state.staging = state.staging
  shared : s.watcher_state.shared_full_load = state.shared_full_load
  not_pending : s.bootstrap_pending = is_bootstrap_pending state
  staging_hot_mints : state.staging.phase ≠ .Disabled →
    s.staging_hot_mints.isSome = state.staging.hot_mints_path.isSome
  no_build : s.staging_build = none
  no_handle : s.staging_incremental_handle = none
  no_invalid : s.invalid_archives = []

/-- Nor does restoring active's set, from its file or by freezing a new one. -/
theorem unraised_restore_active {state : WatcherState}
    {Q : HotMintSet × WatcherState → Unit → World → Prop} {w : World}
    (hsame : ∀ mints w', Q (mints, state) () w')
    (hfrozen : ∀ mints path w', Q (mints, state.freeze_active_hot_mints path) () w') :
    Unraised (restore_active_hot_mints state) Q () w := by
  unfold restore_active_hot_mints
  cases state.active.hot_mints_path with
  | some path =>
      refine wp_bind.mpr (unraised_any (by simp) (fun mints w' => ?_) fun _ => trivial)
      exact hsame mints w'
  | none =>
      refine wp_bind.mpr (unraised_any (by simp) (fun mints _ => ?_) fun _ => trivial)
      refine wp_bind.mpr (unraised_any (by simp) (fun path _ => ?_) fun _ => trivial)
      refine wp_bind.mpr (unraised_any (by simp) (fun _ w' => ?_) fun _ => trivial)
      exact hfrozen mints path w'

/-- Nor does restoring staging's, which is there if its file is named. -/
theorem unraised_restore_staging {state : WatcherState}
    {Q : Option HotMintSet → Unit → World → Prop} {w : World}
    (hQ : ∀ mints w', (state.staging.phase ≠ .Disabled →
      mints.isSome = state.staging.hot_mints_path.isSome) → Q mints () w') :
    Unraised (restore_staging_hot_mints state) Q () w := by
  unfold restore_staging_hot_mints
  cases hpath : state.staging.hot_mints_path with
  | none => exact hQ none w fun _ => by rw [hpath]; rfl
  | some path =>
      dsimp only
      by_cases hphase : state.staging.phase = .Disabled
      · rw [if_neg (not_not.mpr hphase)]
        exact hQ none w fun h => absurd hphase h
      · rw [if_pos hphase]
        refine wp_bind.mpr (unraised_any (by simp) (fun mints w' => ?_) fun _ => trivial)
        exact hQ (some mints) w' fun _ => by rw [hpath]; rfl

/-- The start raises nothing, if no disabled lane names a mint file. -/
theorem unraised_startup {state_path : String} {rewind : Slot} {state : WatcherState}
    {Q : Locals → Unit → World → Prop} {w : World} (hjournal : w.directory.journal = some state)
    (hpath : state.has_disabled_hot_mints_path = false)
    (hQ : ∀ s w', Restored state s → Q s () w') :
    Unraised (startup state_path ⟨false, rewind⟩) Q () w := by
  unfold startup initial_watcher_state recover_watcher_state
  simp only [Unraised, wp_bind, Bool.false_eq_true, if_false]
  refine (unraised_call (by simp)).mpr fun o w₁ => ⟨fun reply hr => ?_, fun _ => trivial⟩
  rcases World.respond_load hr with ⟨hreply, -⟩ | ⟨hreply, -⟩
  · obtain rfl := Option.some.inj hreply
    rw [hjournal]
    simp only [clear_disabled_lanes, hpath, wp_pure, Bool.false_eq_true, if_false]
    refine unraised_cleanup fun w₂ => ?_
    split
    · -- active's own set is not there yet
      refine wp_bind.mpr (wp_pure.mpr (wp_bind.mpr ?_))
      exact unraised_restore_staging fun mints w' hmints =>
        hQ _ w' ⟨rfl, rfl, rfl, rfl, rfl, hmints, rfl, rfl, rfl⟩
    · refine wp_bind.mpr (unraised_restore_active (fun hot_mints w' => ?_)
        fun hot_mints path w' => ?_)
      all_goals
        refine wp_bind.mpr (wp_pure.mpr (wp_bind.mpr ?_))
        exact unraised_restore_staging fun mints w' hmints =>
          hQ _ w' ⟨rfl, rfl, rfl, rfl, rfl, hmints, rfl, rfl, rfl⟩
  · cases hreply

/-! ## The first turn -/

/-- A staging lane that has, with the set it was restored with, what a turn asks for. -/
inductive Prepared (staging : LaneWatcherState) (hot_mints : Option HotMintSet) : Prop
  | disabled (hphase : staging.phase = .Disabled)
  | full_loading (hphase : staging.phase = .FullLoading) (hfull : staging.full_snapshot.isSome)
  | ready (hphase : staging.phase = .Ready) (hslot : staging.max_slot.isSome)
      (hmints : hot_mints.isSome)
  | incremental_loading (hphase : staging.phase = .IncrementalLoading)
      (hslot : staging.max_slot.isSome) (hmints : hot_mints.isSome)
      (hinflight : staging.inflight_incremental = some ⟨.Incremental⟩)

/-! ### Programs without such an error -/

/-- No internal-consistency error is made from any state. -/
def Quiet {α : Type} (x : WatcherM α) : Prop := ∀ s w, Unraised x (fun _ _ _ => True) s w

/-- Two quiet parts make a quiet whole. -/
theorem Quiet.bind {α β : Type} {x : WatcherM α} {f : α → WatcherM β} (hx : Quiet x)
    (hf : ∀ a, Quiet (f a)) : Quiet (x >>= f) := fun s w =>
  wp_bind.mpr ((hx s w).mono trivial (fun a s' w' _ _ => hf a s' w') fun _ _ _ _ h => h)

theorem quiet_pure {α : Type} (a : α) : Quiet (pure a : WatcherM α) := fun _ _ => trivial

theorem quiet_fail {α : Type} (e : WatcherError) : Quiet (fail e : WatcherM α) := fun _ _ => trivial

theorem quiet_read : Quiet Program.read := fun _ _ => trivial

theorem quiet_assign (f : Locals → Locals) : Quiet (assign f) := fun _ _ => trivial

/-- A call that is no raise is quiet. -/
theorem quiet_call {c : Call} (hc : ∀ e, c ≠ .raise e) : Quiet (call c) := fun _ _ =>
  unraised_any hc (fun _ _ => trivial) fun _ => trivial

theorem Quiet.attempt {α : Type} {x : WatcherM α} (hx : Quiet x) : Quiet (Program.attempt x) :=
  fun s w => wp_attempt.mpr (hx s w)

/-- The clean-up is quiet. -/
theorem quiet_cleanup (state_path : String) (state : WatcherState) :
    Quiet (cleanup_unused_frozen_hot_mints_or_warn state_path state) := fun _ _ =>
  unraised_cleanup fun _ => trivial

/-- A journal write is quiet. -/
theorem quiet_persist : Quiet persist := quiet_read.bind fun _ => quiet_call (by simp)

/-- An import is quiet. -/
theorem quiet_process (candidate : WatchedSnapshot) (kind : SnapshotKind) (group : TableGroup) :
    Quiet (process candidate kind group) := by
  have hmints : Quiet (hot_mints_for kind) := by
    refine quiet_read.bind fun s => ?_
    cases kind with
    | Full => exact (quiet_call (by simp)).bind fun _ => (quiet_assign _).bind fun _ => quiet_pure _
    | Incremental =>
        cases s.hot_mints with
        | some mints => exact (quiet_assign _).bind fun _ => quiet_pure _
        | none =>
            exact (quiet_call (by simp)).bind fun _ => (quiet_assign _).bind fun _ => quiet_pure _
  exact hmints.bind fun _ => (quiet_call (by simp)).bind fun _ => quiet_call (by simp)

/-- Applying an incremental to active is quiet. -/
theorem quiet_apply_active (candidate : WatchedSnapshot) :
    Quiet (apply_active_incremental candidate) := by
  refine quiet_read.bind fun s => ?_
  split
  · exact quiet_pure _
  · exact (quiet_call (by simp)).bind fun _ => (quiet_assign _).bind fun _ =>
      quiet_persist.bind fun _ => (quiet_process _ _ _).bind fun _ => (quiet_assign _).bind fun _ =>
        (quiet_assign _).bind fun _ => quiet_persist.bind fun _ => quiet_pure _

/-- The selected incremental is applied to active without such an error. -/
theorem quiet_apply_selected (incremental : IncrementalSnapshot) :
    Quiet (apply_selected_to_active incremental) := by
  refine quiet_read.bind fun s => ?_
  split
  · refine (quiet_apply_active _).attempt.bind fun r => ?_
    cases r with
    | ok _ => exact quiet_pure _
    | error e => exact (quiet_assign _).bind fun _ => quiet_fail e
  · exact quiet_pure _

/-- An idle turn is quiet. -/
theorem quiet_idle (incrementals : List IncrementalSnapshot) (fulls : List FullSnapshot) :
    Quiet (idle incrementals fulls) :=
  quiet_read.bind fun _ => (quiet_call (by simp)).bind fun _ => (quiet_call (by simp)).bind fun _ =>
    quiet_assign _

section turn

variable {state_path : String} {s : Locals} {w : World}

/-- A block that ends the turn, or leaves it to what is next. -/
theorem unraised_and_then {block : WatcherM Flow} {rest : WatcherM Unit}
    (h : Unraised block (fun flow s' w' =>
      flow = .next → Unraised rest (fun _ _ _ => True) s' w') s w) :
    Unraised (and_then block rest) (fun _ _ _ => True) s w := by
  unfold and_then
  refine wp_bind.mpr (h.mono trivial (fun flow s' w' _ hflow => ?_) fun _ _ _ _ h => h)
  cases flow with
  | next => exact hflow rfl
  | turn => trivial

/-- The block has nothing to do here. -/
def Skips (block : WatcherM Flow) (s : Locals) : Prop :=
  ∀ (Q : Flow → Locals → World → Prop) (E : WatcherError → Locals → World → Prop) (w : World),
    wp unraised block Q E s w ↔ Q .next s w

/-- A block that is skipped decides nothing. -/
theorem Skips.unraised_iff {block : WatcherM Flow} {rest : WatcherM Unit} (h : Skips block s) :
    Unraised (and_then block rest) (fun _ _ _ => True) s w ↔
      Unraised rest (fun _ _ _ => True) s w := by
  unfold and_then
  rw [Unraised, wp_bind, h]

/-- A block that is not due is skipped. -/
theorem skips_unless {due : Locals → Prop} [DecidablePred due] {x : Locals → WatcherM Flow}
    (h : ¬ due s) : Skips (Program.read >>= fun s => if due s then x s else pure .next) s := by
  intro Q E w
  rw [wp_bind, wp_read, if_neg h, wp_pure]

/-- No cutover is due while active is ready. -/
theorem skips_cut_over (hactive : s.watcher_state.active.phase = .Ready) :
    Skips (cut_over state_path) s :=
  skips_unless (by simp [hactive])

/-- Nor is a bootstrap full. -/
theorem skips_bootstrap_full {fulls : List FullSnapshot}
    (hactive : s.watcher_state.active.phase = .Ready) (hpending : s.bootstrap_pending = false) :
    Skips (bootstrap_full fulls) s :=
  skips_unless (by simp [hactive, hpending])

/-- Where active is ready and no shared full is under way, the turn begins with staging. -/
theorem unraised_handle_listing_iff {incrementals : List IncrementalSnapshot}
    {fulls : List FullSnapshot} (hactive : s.watcher_state.active.phase = .Ready)
    (hshared : s.watcher_state.shared_full_load = none) :
    Unraised (handle_listing state_path incrementals fulls) (fun _ _ _ => True) s w ↔
      Unraised (do
        resume_staging_full_loading fulls
        resume_staging_full_merging
        and_then (resume_staging_incremental incrementals) <|
          and_then (bootstrap_full fulls) <|
          and_then (bind_new_full state_path fulls) <|
          and_then (apply_incremental incrementals) <|
          idle incrementals fulls) (fun _ _ _ => True) s w := by
  have hfull : Skips (resume_shared_full_load fulls) s := by
    intro Q E w
    unfold resume_shared_full_load
    rw [wp_bind, wp_read, hshared]
    exact Iff.rfl
  have hmerging : Skips resume_active_full_merging s := skips_unless (by simp [hactive])
  have hloading : Skips (resume_active_full_loading fulls) s := skips_unless (by simp [hactive])
  have hincremental : Skips (resume_active_incremental incrementals fulls) s :=
    skips_unless (by simp [hactive])
  unfold handle_listing
  rw [hfull.unraised_iff, hmerging.unraised_iff, hloading.unraised_iff, hincremental.unraised_iff]

/-- Starting staging's incremental raises nothing, if its set is there. -/
theorem unraised_start_staging {incremental : IncrementalSnapshot}
    (hmints : s.watcher_state.staging.phase = .Ready → s.staging_hot_mints.isSome) :
    Unraised (start_staging_incremental incremental) (fun _ _ _ => True) s w := by
  unfold start_staging_incremental
  refine wp_bind.mpr (wp_read.mpr ?_)
  split
  · split
    · rename_i hdue
      obtain ⟨mints, hsome⟩ := Option.isSome_iff_exists.mp (hmints hdue.2.1)
      refine wp_bind.mpr (unraised_require.mpr ⟨mints, hsome, ?_⟩)
      exact ((quiet_assign _).bind fun _ => quiet_persist.bind fun _ =>
        (quiet_call (by simp)).bind fun _ => quiet_assign _) s w
    · trivial
  · trivial

/-- Selecting it raises nothing, if staging has a slot. -/
theorem unraised_staging_candidate {incrementals : List IncrementalSnapshot}
    (hslot : s.staging_incremental_handle.isNone → s.watcher_state.staging.phase = .Ready →
      s.watcher_state.staging.max_slot.isSome) :
    Unraised (staging_candidate incrementals) (fun _ s' _ => s' = s) s w := by
  unfold staging_candidate
  refine wp_bind.mpr (wp_read.mpr ?_)
  split
  · rename_i hdue
    obtain ⟨slot, hsome⟩ := Option.isSome_iff_exists.mp (hslot hdue.1 hdue.2)
    exact wp_bind.mpr (unraised_require.mpr ⟨slot, hsome, rfl⟩)
  · exact rfl

/-- Applying the listed incrementals raises nothing, if staging has both. -/
theorem unraised_apply_incremental {incrementals : List IncrementalSnapshot}
    (hslot : s.staging_incremental_handle.isNone → s.watcher_state.staging.phase = .Ready →
      s.watcher_state.staging.max_slot.isSome)
    (hmints : s.watcher_state.staging.phase = .Ready → s.staging_hot_mints.isSome) :
    Unraised (apply_incremental incrementals) (fun _ _ _ => True) s w := by
  unfold apply_incremental
  refine wp_bind.mpr (wp_read.mpr (wp_bind.mpr ?_))
  refine (unraised_staging_candidate hslot).mono trivial (fun candidate s' w' _ hs => ?_)
    fun _ _ _ _ h => h
  subst hs
  split
  · refine wp_bind.mpr ((unraised_start_staging hmints).mono trivial (fun _ s' w' _ _ => ?_)
      fun _ _ _ _ h => h)
    exact ((quiet_apply_selected _).bind fun _ => quiet_pure _) s' w'
  · trivial

/-- A new full is bound by lanes that may bind one. -/
theorem unraised_bind_new_full {fulls : List FullSnapshot}
    (hactive : s.watcher_state.active.phase = .Ready)
    (hslot : s.watcher_state.active.max_slot.isSome) :
    Unraised (bind_new_full state_path fulls) (fun flow s' _ => flow = .next → s' = s) s w := by
  unfold bind_new_full
  refine wp_bind.mpr (wp_read.mpr ?_)
  split
  · rename_i hdue
    split
    · obtain ⟨slot, hsome⟩ := Option.isSome_iff_exists.mp hslot
      unfold begin_shared_full_load
      refine wp_bind.mpr (wp_bind.mpr (wp_read.mpr ?_))
      rw [if_neg (not_not.mpr hdue.1), if_neg (not_not.mpr hactive)]
      refine wp_bind.mpr (unraised_require.mpr ⟨slot, hsome, ?_⟩)
      refine wp.mono trivial (((quiet_call (by simp)).bind fun _ => (quiet_call (by simp)).bind
        fun _ => (quiet_assign _).bind fun _ => quiet_persist.bind fun _ => quiet_read.bind
        fun _ => (quiet_cleanup _ _).bind fun _ => quiet_pure _) s w)
        (fun _ _ _ _ _ hnext => nomatch hnext) fun _ _ _ _ h => h
    · exact fun _ => rfl
  · exact fun _ => rfl

/-- The rest of a turn that has nothing to resume. -/
theorem unraised_rest {incrementals : List IncrementalSnapshot} {fulls : List FullSnapshot}
    (hactive : s.watcher_state.active.phase = .Ready)
    (hslot : s.watcher_state.active.max_slot.isSome) (hpending : s.bootstrap_pending = false)
    (hstaging : s.staging_incremental_handle.isNone → s.watcher_state.staging.phase = .Ready →
      s.watcher_state.staging.max_slot.isSome)
    (hmints : s.watcher_state.staging.phase = .Ready → s.staging_hot_mints.isSome) :
    Unraised (and_then (bootstrap_full fulls) <| and_then (bind_new_full state_path fulls) <|
      and_then (apply_incremental incrementals) <| idle incrementals fulls)
      (fun _ _ _ => True) s w := by
  apply (skips_bootstrap_full hactive hpending).unraised_iff.mpr
  apply unraised_and_then
  refine (unraised_bind_new_full hactive hslot).mono trivial (fun flow s' w' _ hsame hnext => ?_)
    fun _ _ _ _ h => h
  obtain rfl := hsame hnext
  apply unraised_and_then
  exact (unraised_apply_incremental hstaging hmints).mono trivial
    (fun _ s' w' _ _ _ => quiet_idle _ _ s' w') fun _ _ _ _ h => h

/-- A prepared staging that is ready has a slot and a set. -/
theorem Prepared.of_ready {staging : LaneWatcherState} {hot_mints : Option HotMintSet}
    (h : Prepared staging hot_mints) (hphase : staging.phase = .Ready) :
    staging.max_slot.isSome ∧ hot_mints.isSome := by
  cases h with
  | ready _ hslot hmints => exact ⟨hslot, hmints⟩
  | disabled h => rw [hphase] at h; cases h
  | full_loading h => rw [hphase] at h; cases h
  | incremental_loading h => rw [hphase] at h; cases h

/-- Resuming a full load of staging raises nothing. -/
theorem unraised_resume_full_loading {fulls : List FullSnapshot}
    (h : Prepared s.watcher_state.staging s.staging_hot_mints) :
    Unraised (resume_staging_full_loading fulls)
      (fun _ s' _ => ∃ build, s' = { s with staging_build := build }) s w := by
  unfold resume_staging_full_loading
  refine wp_bind.mpr (wp_read.mpr ?_)
  split
  · rename_i hdue
    have hfull : s.watcher_state.staging.full_snapshot.isSome := by
      cases h with
      | full_loading _ hfull => exact hfull
      | disabled h => rw [hdue.2] at h; cases h
      | ready h => rw [hdue.2] at h; cases h
      | incremental_loading h => rw [hdue.2] at h; cases h
    obtain ⟨recorded, hsome⟩ := Option.isSome_iff_exists.mp hfull
    refine wp_bind.mpr (unraised_require.mpr ⟨recorded, hsome, wp_bind.mpr ?_⟩)
    unfold recorded_full
    split
    · refine wp_bind.mpr (wp_bind.mpr (unraised_any (by simp) (fun _ _ => ?_) fun _ => trivial))
      exact ⟨_, rfl⟩
    · trivial
  · exact ⟨s.staging_build, rfl⟩

/-- Nor does resuming the wait for its merges. -/
theorem unraised_resume_full_merging
    (h : Prepared s.watcher_state.staging s.staging_hot_mints) :
    Unraised resume_staging_full_merging (fun _ s' _ => s' = s) s w := by
  unfold resume_staging_full_merging
  refine wp_bind.mpr (wp_read.mpr ?_)
  rw [if_neg]
  · exact rfl
  · rintro ⟨-, hmerging⟩
    cases h with
    | disabled h => rw [hmerging] at h; cases h
    | full_loading h => rw [hmerging] at h; cases h
    | ready h => rw [hmerging] at h; cases h
    | incremental_loading h => rw [hmerging] at h; cases h

/-- The interrupted incremental goes on, or is given up and the turn with it. -/
theorem unraised_resume_incremental {incrementals : List IncrementalSnapshot}
    (h : Prepared s.watcher_state.staging s.staging_hot_mints) :
    Unraised (resume_staging_incremental incrementals) (fun flow s' _ => flow = .next →
      ∃ handle, s' = { s with staging_incremental_handle := handle }) s w := by
  unfold resume_staging_incremental
  refine wp_bind.mpr (wp_read.mpr ?_)
  split
  -- a lane in this phase has its slot and its set; in the others nothing is due
  · rename_i hdue
    cases h with
    | disabled h => rw [hdue.2] at h; cases h
    | full_loading h => rw [hdue.2] at h; cases h
    | ready h => rw [hdue.2] at h; cases h
    | incremental_loading _ hslot hmints hinflight =>
        obtain ⟨slot, hslot⟩ := Option.isSome_iff_exists.mp hslot
        obtain ⟨mints, hmints⟩ := Option.isSome_iff_exists.mp hmints
        refine wp_bind.mpr (unraised_require.mpr ⟨_, hinflight, ?_⟩)
        refine wp_bind.mpr (unraised_require.mpr ⟨slot, hslot, ?_⟩)
        rw [if_neg (by simp)]
        split
        · refine wp_bind.mpr (wp_assign.mpr (wp_bind.mpr ?_))
          refine (quiet_persist _ _).mono trivial (fun _ _ _ _ _ hnext => nomatch hnext)
            fun _ _ _ _ h => h
        · refine wp_bind.mpr (unraised_require.mpr ⟨mints, hmints, ?_⟩)
          refine wp_bind.mpr (wp_bind.mpr (unraised_any (by simp) (fun _ _ => ?_) fun _ => trivial))
          exact fun _ => ⟨_, rfl⟩
  · exact fun _ => ⟨_, rfl⟩

/-- The rest of a turn raises nothing, if active is ready and staging prepared. -/
theorem unraised_handle_listing {incrementals : List IncrementalSnapshot}
    {fulls : List FullSnapshot} (hactive : s.watcher_state.active.phase = .Ready)
    (hslot : s.watcher_state.active.max_slot.isSome) (hpending : s.bootstrap_pending = false)
    (hshared : s.watcher_state.shared_full_load = none)
    (hprepared : Prepared s.watcher_state.staging s.staging_hot_mints) :
    Unraised (handle_listing state_path incrementals fulls) (fun _ _ _ => True) s w := by
  apply (unraised_handle_listing_iff hactive hshared).mpr
  refine wp_bind.mpr ?_
  -- staging goes on with what it was at
  refine (unraised_resume_full_loading hprepared).mono trivial (fun _ s₁ w₁ _ hbuild => ?_)
    fun _ _ _ _ h => h
  obtain ⟨build, rfl⟩ := hbuild
  refine wp_bind.mpr ((unraised_resume_full_merging (s := { s with staging_build := build })
    hprepared).mono trivial
    (fun _ s₂ w₂ _ hs => ?_) fun _ _ _ _ h => h)
  subst hs
  apply unraised_and_then
  refine (unraised_resume_incremental (s := { s with staging_build := build })
    hprepared).mono trivial (fun flow s₃ w₃ _ hs hnext => ?_)
    fun _ _ _ _ h => h
  obtain ⟨handle, rfl⟩ := hs hnext
  exact unraised_rest hactive hslot hpending (fun _ hready => (hprepared.of_ready hready).1)
    fun hready => (hprepared.of_ready hready).2

/-- **A prepared turn** makes no internal-consistency error. -/
theorem unraised_loop_body (hactive : s.watcher_state.active.phase = .Ready)
    (hslot : s.watcher_state.active.max_slot.isSome) (hpending : s.bootstrap_pending = false)
    (hshared : s.watcher_state.shared_full_load = none) (hbuild : s.staging_build = none)
    (hhandle : s.staging_incremental_handle = none)
    (hprepared : Prepared s.watcher_state.staging s.staging_hot_mints) :
    Unraised (loop_body state_path) (fun _ _ _ => True) s w := by
  unfold loop_body receive_full_imported join_staging_build join_staging_incremental
  simp only [Unraised, wp_bind, wp_read, hbuild, hhandle, wp_pure]
  apply (skips_cut_over hactive).unraised_iff.mpr
  refine wp_bind.mpr (unraised_any (by simp) (fun incrementals _ => ?_) fun _ => trivial)
  refine wp_bind.mpr (unraised_any (by simp) (fun fulls _ => ?_) fun _ => trivial)
  exact unraised_handle_listing hactive hslot hpending hshared hprepared

end turn

/-! ## A turn that does not have the set -/

section stuck

variable {state_path : String} {s : Locals} {w : World}

/-- A cleanup may fail and do nothing, so whatever holds after any holds now. -/
theorem of_cleanup {σ : Type} {state : WatcherState} {Q : Unit → σ → World → Prop} {s : σ}
    (h : Unraised (cleanup_unused_frozen_hot_mints_or_warn state_path state) Q s w) : Q () s w := by
  unfold cleanup_unused_frozen_hot_mints_or_warn at h
  rw [Unraised, wp_bind, wp_attempt] at h
  unfold cleanup_unused_frozen_hot_mints at h
  rw [wp_bind] at h
  exact ((unraised_call (by simp)).mp h .failed w).2 rfl

/-- Restoring active's set can succeed, where its file is there or a new name is free. -/
theorem of_restore_active {state : WatcherState}
    {Q : HotMintSet × WatcherState → Unit → World → Prop}
    (hactive : ∀ path, state.active.hot_mints_path = some path →
      w.directory.read path = some (hot_mints_text ["a"]))
    (hfresh : state.active.hot_mints_path = none → w.fresh_path "b" = true)
    (h : Unraised (restore_active_hot_mints state) Q () w) :
    ∃ mints state' w', (state' = state ∨ ∃ path, state' = state.freeze_active_hot_mints path) ∧
      Q (mints, state') () w' := by
  unfold restore_active_hot_mints at h
  cases hpath : state.active.hot_mints_path with
  | some path =>
      rw [hpath] at h
      -- the file is read, and the state stays
      have hread : w.respond (.load_frozen_hot_mints path) .ok = some (some {"a"}, w) := by
        have hreads : w.read_mints path = some {"a"} := by
          have ha : ∀ mint ∈ ["a"], ReadsAsItself mint := by decide +kernel
          rw [World.read_mints, hactive path hpath, Option.bind_some,
            read_hot_mints_of_reads ha (List.cons_ne_nil _ _)]
          rfl
        rw [← hreads]
        rfl
      exact ⟨_, _, _, .inl rfl, ((unraised_call (by simp)).mp (wp_bind.mp h) .ok w).1 _ hread⟩
  | none =>
      rw [hpath] at h
      -- without a file the enabled mints are frozen
      have henabled : w.respond .load_enabled_hot_mints (.hot_mints {"a"})
          = some (some {"a"}, w) := rfl
      have h₁ := ((unraised_call (by simp)).mp (wp_bind.mp h) (.hot_mints {"a"}) w).1 _ henabled
      have hwritten : w.respond (.persist_frozen_hot_mints {"a"}) (.written "b" ["a"])
          = some (some "b", w.frozen_file "b" ["a"] true) := by
        change (if w.fresh_path "b" && _ then _ else _) = _
        rw [hfresh hpath]
        rfl
      have h₂ := ((unraised_call (by simp)).mp (wp_bind.mp h₁) (.written "b" ["a"]) _).1 _ hwritten
      exact ⟨_, _, _, .inr ⟨"b", rfl⟩,
        ((unraised_call (by simp)).mp (wp_bind.mp h₂) .ok _).1 () rfl⟩

/-- The start from this journal gets to its loop, if active's mint file is there. -/
theorem of_startup {rewind : Slot} {state : WatcherState} {Q : Locals → Unit → World → Prop}
    (hjournal : w.directory.journal = some state)
    (hdisabled : state.has_disabled_hot_mints_path = false)
    (hpending : is_bootstrap_pending state = false) (hstaging : state.staging.hot_mints_path = none)
    (hactive : ∀ path, state.active.hot_mints_path = some path →
      w.directory.read path = some (hot_mints_text ["a"]))
    (hfresh : state.active.hot_mints_path = none → w.fresh_path "b" = true)
    (h : Unraised (startup state_path ⟨false, rewind⟩) Q () w) :
    ∃ s w', Restored state s ∧ s.staging_hot_mints = none ∧ Q s () w' := by
  unfold startup initial_watcher_state recover_watcher_state at h
  simp only [Unraised, wp_bind, Bool.false_eq_true, if_false] at h
  have h₁ := ((unraised_call (by simp)).mp h .ok _).1 w.directory.journal rfl
  rw [hjournal] at h₁
  simp only [clear_disabled_lanes, hdisabled, hpending, wp_pure, Bool.false_eq_true,
    if_false] at h₁
  -- no lane is cleared, and the clean-up only removes files
  have h₂ := of_cleanup h₁
  have hrestored := fun hactive hfresh => of_restore_active hactive hfresh (wp_bind.mp h₂)
  obtain ⟨mints, state', w', hsame, h₃⟩ := hrestored hactive hfresh
  simp only [wp_bind, wp_pure] at h₃
  have h₄ := h₃
  unfold restore_staging_hot_mints at h₄
  -- the staging lane names no file, whatever was frozen for active
  rcases hsame with rfl | ⟨path, rfl⟩
  · rw [hstaging] at h₄
    exact ⟨_, _, ⟨rfl, rfl, rfl, rfl, hpending.symm, fun _ => by rw [hstaging]; rfl, rfl, rfl, rfl⟩,
      rfl, h₄⟩
  · have hnone : (state.freeze_active_hot_mints path).staging.hot_mints_path = none := hstaging
    rw [hnone] at h₄
    exact ⟨_, _, ⟨rfl, rfl, rfl, rfl, hpending.symm, fun _ => by rw [hstaging]; rfl, rfl, rfl, rfl⟩,
      rfl, h₄⟩

/-- Of one incremental from the slot, that one is chosen. -/
theorem newest_of_one (path : String) (slot : Slot) :
    newest_eligible_incremental [⟨path, slot, slot + 1⟩] slot = some ⟨path, slot, slot + 1⟩ := by
  simp [newest_eligible_incremental, eligible_candidates]

/-- A turn with an archive to go on with does not get by without the set. -/
theorem not_unraised_loop_body (hactive : s.watcher_state.active.phase = .Ready)
    (hpending : s.bootstrap_pending = false) (hshared : s.watcher_state.shared_full_load = none)
    (hbuild : s.staging_build = none) (hhandle : s.staging_incremental_handle = none)
    (hinvalid : s.invalid_archives = []) (slot : Slot)
    (hslot : s.watcher_state.staging.max_slot = some slot)
    (hphase : s.watcher_state.staging.phase = .Ready ∨
      s.watcher_state.staging.phase = .IncrementalLoading)
    (hmints : s.staging_hot_mints = none) :
    ¬ Unraised (loop_body state_path) (fun _ _ _ => True) s w := by
  intro h
  unfold loop_body receive_full_imported join_staging_build join_staging_incremental at h
  simp only [Unraised, wp_bind, wp_read, hbuild, hhandle, wp_pure] at h
  have h₁ := (skips_cut_over hactive).unraised_iff.mp h
  -- the directory lists one incremental that continues staging
  have h₂ := ((unraised_call (by simp)).mp (wp_bind.mp h₁)
    (.incrementals [⟨"c", slot, slot + 1⟩]) w).1 _ rfl
  have h₃ := ((unraised_call (by simp)).mp (wp_bind.mp h₂) (.fulls []) w).1 _ rfl
  have h₄ := (unraised_handle_listing_iff hactive hshared).mp h₃
  unfold resume_staging_full_loading resume_staging_full_merging at h₄
  have hloading : s.watcher_state.staging.phase ≠ .FullLoading := by
    rcases hphase with h | h <;> simp [h]
  have hmerging : s.watcher_state.staging.phase ≠ .FullMerging := by
    rcases hphase with h | h <;> simp [h]
  simp only [Unraised, wp_bind, wp_read, hloading, hmerging, and_false, if_false, wp_pure] at h₄
  rcases hphase with hready | hinflight
  · have hresume : Skips (resume_staging_incremental [⟨"c", slot, slot + 1⟩]) s :=
      skips_unless (by simp [hready])
    have hbind : Skips (bind_new_full state_path []) s := skips_unless (by simp [hready])
    have h₅ := hresume.unraised_iff.mp h₄
    have h₆ := (skips_bootstrap_full hactive hpending).unraised_iff.mp h₅
    have h₇ := wp_bind.mp (hbind.unraised_iff.mp h₆)
    have hnext : next_candidate [⟨"c", slot, slot + 1⟩] slot [] = some ⟨"c", slot, slot + 1⟩ := by
      simp [next_candidate, eligible_candidates]
    unfold apply_incremental staging_candidate at h₇
    simp only [wp_bind, wp_read, hhandle, hready, Option.isNone_none, and_self, if_true, hslot,
      unraised_require, Option.some.injEq, exists_eq_left', wp_pure, hinvalid, hnext] at h₇
    unfold start_staging_incremental at h₇
    simp [wp_bind, wp_read, hslot, hhandle, hready, hmints, unraised_require] at h₇
  · have h₅ := wp_bind.mp h₄
    unfold resume_staging_incremental at h₅
    simp only [wp_bind, wp_read, hhandle, hinflight, Option.isNone_none, and_self, if_true,
      unraised_require, hslot, Option.some.injEq, exists_eq_left'] at h₅
    obtain ⟨recorded, -, h₆⟩ := h₅
    split at h₆
    · unfold raise at h₆
      exact absurd rfl ((wp_bind.mp h₆).1 _)
    · rw [newest_of_one] at h₆
      simp [wp_bind, hmints, unraised_require] at h₆

end stuck

/-! ## Where the migration can be resumed -/

/-- A migrated journal is started with active ready at a slot, and nothing shared. -/
theorem restored_of_migrated {legacy : LegacyWatcherStateV2} {s : Locals}
    (h : Restored (migrate_v2_state legacy) s) : s.watcher_state.active.phase = .Ready ∧
      s.watcher_state.active.max_slot.isSome ∧ s.bootstrap_pending = false ∧
      s.watcher_state.shared_full_load = none := by
  refine ⟨h.active, ?_, h.not_pending, h.shared⟩
  rw [h.max_slot]
  rfl

/-- It has no disabled lane that names a mint file. -/
theorem no_disabled_path (legacy : LegacyWatcherStateV2) :
    (migrate_v2_state legacy).has_disabled_hot_mints_path = false := by
  cases hstaging : legacy.staging with
  | none => simp [WatcherState.has_disabled_hot_mints_path, migrate_v2_state, hstaging,
      LaneWatcherState.disabled]
  | some staging =>
      have hphase := migrate_v2_staging_phase staging
      have hne : (migrate_v2_staging staging).phase ≠ .Disabled := by
        rcases hphase with ⟨-, h⟩ | ⟨slot, -, h | h⟩
        · rw [h]; decide
        · rw [h]; decide
        · rw [h.1]; decide
      simp [WatcherState.has_disabled_hot_mints_path, migrate_v2_state, hstaging, hne]

/-- Where staging names its mint file, it is prepared. -/
theorem prepared_of_names_mints {legacy : LegacyWatcherStateV2} (hnames : legacy.NamesMints)
    {s : Locals} (h : Restored (migrate_v2_state legacy) s) :
    Prepared s.watcher_state.staging s.staging_hot_mints := by
  have hmints := h.staging_hot_mints
  rw [h.staging]
  cases hstaging : legacy.staging with
  | none => exact .disabled (by simp [migrate_v2_state, hstaging, LaneWatcherState.disabled])
  | some staging =>
      have hlane : (migrate_v2_state legacy).staging = migrate_v2_staging staging := by
        simp [migrate_v2_state, hstaging]
      rw [hlane] at hmints ⊢
      rcases migrate_v2_staging_phase staging with ⟨-, hphase⟩ | ⟨slot, hready, hphase⟩
      · exact .full_loading hphase rfl
      · have hpath : staging.hot_mints_path.isSome := hnames staging hstaging (by rw [hready]; rfl)
        have hslot : (migrate_v2_staging staging).max_slot.isSome := by
          simp [migrate_v2_staging, hready]
        rcases hphase with hphase | ⟨hphase, hinflight⟩
        · exact .ready hphase hslot ((hmints (by rw [hphase]; decide)).trans hpath)
        · exact .incremental_loading hphase hslot ((hmints (by rw [hphase]; decide)).trans hpath)
            hinflight

/-- A disk with the migrated journal and the mint file of active, if it names one. -/
def migrated_world (legacy : LegacyWatcherStateV2) : World where
  directory := ⟨some (migrate_v2_state legacy),
    legacy.active_hot_mints_path.toList.map fun path => (path, hot_mints_text ["a"])⟩
  unsynced := []
  frozen := []
  tables := fun _ => .first
  records := fun _ _ => .empty
  process := .started false

/-- Staging has its full and no set, so the first turn stops at the set. -/
theorem not_resumes {state_path : String} {rewind : Slot} {legacy : LegacyWatcherStateV2}
    {staging : LegacyStagingWatcherStateV2} (hstaging : legacy.staging = some staging)
    (hready : staging.ready_slot.isSome) (hnone : staging.hot_mints_path = none) :
    ¬ Resumes state_path rewind (migrate_v2_state legacy) := by
  intro h
  have hlane : (migrate_v2_state legacy).staging = migrate_v2_staging staging := by
    simp [migrate_v2_state, hstaging]
  have hfile : ∀ path, legacy.active_hot_mints_path = some path →
      (migrated_world legacy).directory.read path = some (hot_mints_text ["a"]) := by
    intro path hpath
    simp [migrated_world, Directory.read, hpath]
  have hfresh : legacy.active_hot_mints_path = none →
      (migrated_world legacy).fresh_path "b" = true := by
    intro hpath
    simp [migrated_world, World.fresh_path, Directory.read, hpath]
  -- the start succeeds, as active's file is there
  obtain ⟨s, w, hs, hmints, hturn⟩ := of_startup rfl (no_disabled_path legacy) rfl
    (by rw [hlane]; exact hnone) hfile hfresh (h (migrated_world legacy) rfl)
  obtain ⟨hactive, -, hpending, hshared⟩ := restored_of_migrated hs
  rcases migrate_v2_staging_phase staging with ⟨hmissing, -⟩ | ⟨slot, hslot, hphase⟩
  · rw [hmissing] at hready
    cases hready
  · have hlane' : s.watcher_state.staging = migrate_v2_staging staging := hs.staging.trans hlane
    refine not_unraised_loop_body hactive hpending hshared hs.no_build hs.no_handle hs.no_invalid
      slot ?_ ?_ hmints hturn
    · rw [hlane']
      exact hslot
    · rw [hlane']
      exact hphase.imp_right And.left

/-- **The migration yields a resumable journal**, and a start with it gets through its
first turn, exactly where a staging lane that has its full names its mint file. -/
theorem migration_resumable_iff (state_path : String) (rewind : Slot)
    (legacy : LegacyWatcherStateV2) :
    (Resumable (migrate_v2_state legacy) ↔ legacy.NamesMints) ∧
      (Resumes state_path rewind (migrate_v2_state legacy) ↔ legacy.NamesMints) := by
  refine ⟨resumable_migrated_iff legacy, fun h staging hstaging hready => ?_,
    fun hnames w hjournal => ?_⟩
  · by_contra hnone
    rw [Option.not_isSome_iff_eq_none] at hnone
    exact not_resumes hstaging hready hnone h
  · refine unraised_startup hjournal (no_disabled_path legacy) fun s w' hs => ?_
    obtain ⟨hactive, hslot, hpending, hshared⟩ := restored_of_migrated hs
    exact unraised_loop_body hactive hslot hpending hshared hs.no_build hs.no_handle
      (prepared_of_names_mints hnames hs)

/-- A v2 journal from before the mint files of staging: the full is in at slot 10, and
the first incremental was started. -/
def unnamed_mints : LegacyWatcherStateV2 where
  active_slot := 5
  active_hot_mints_path := some "/state/hot-mints-active.txt"
  staging := some
    { full_snapshot_path := "/snapshots/snapshot-10.tar.zst"
      full_snapshot_slot := 10
      ready_slot := some 10
      hot_mints_path := none
      first_incremental := some {}
      first_incremental_completed := false }

/-- It comes out importing its first incremental without a mint file. -/
theorem unnamed_mints_not_resumable :
    (migrate_v2_state unnamed_mints).staging.phase = .IncrementalLoading ∧
      ¬ Resumable (migrate_v2_state unnamed_mints) ∧
      ¬ Resumes "d/state.json" DEFAULT_RESUME_SLOT_REWIND (migrate_v2_state unnamed_mints) := by
  refine ⟨rfl, fun h => ?_, not_resumes rfl rfl rfl⟩
  exact absurd (h.committed (.inr rfl)).2 (by decide)

end SnapshotEtl.Watcher
