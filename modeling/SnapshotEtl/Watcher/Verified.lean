/-
The watcher keeps to its protocol: whatever the disk it starts from and however
its calls are answered, every call it makes is an allowed one.

`LoopInv` ties what a turn of the loop finds in its variables to the journal in
memory. Each block of the loop body is shown to keep it, from the block's own
text and the four positions a well-formed journal can be in.
-/
import SnapshotEtl.Watcher.Protocol

set_option autoImplicit false

namespace SnapshotEtl.Watcher

open Lib Program
open HotMintFiles (read_hot_mints read_hot_mints_eq_ok)

/-! ## Rules for the calls -/

section rules

variable {state_path : String} {σ α : Type} {s : σ} {w : World}

/-- The program asks for what it may, and ends in `Q` unless with an error. -/
abbrev Runs (state_path : String) (x : Watch σ α) (Q : α → σ → World → Prop) (s : σ) (w : World) :
    Prop :=
  wp (contract state_path) x Q (fun _ _ _ => True) s w

/-- The rule for one call of the watcher: every answer of the world has to be handled. -/
theorem wp_call {c : Call} {Q : Reply c → σ → World → Prop} {E : WatcherError → σ → World → Prop}
    (hc : Allowed state_path w c)
    (h : ∀ o a w', w.respond c o = some (a, w') → Inv w' → match a with
      | some reply => Q reply s w'
      | none => E .external s w') :
    wp (contract state_path) (call c) Q E s w := by
  unfold call
  rw [wp_bind, wp_ask]
  refine ⟨hc, fun o a w' hr hw' => ?_⟩
  have hrest := h o a w' hr hw'
  cases a with
  | none => exact hrest
  | some reply => exact hrest

/-- The rule for a call that changes nothing. -/
theorem wp_quiet {c : Call} {Q : Reply c → σ → World → Prop} {E : WatcherError → σ → World → Prop}
    (hquiet : World.quiet c = true) (hc : Allowed state_path w c) (hQ : ∀ reply, Q reply s w)
    (hE : E .external s w) : wp (contract state_path) (call c) Q E s w := by
  refine wp_call hc fun o a w' hr _ => ?_
  obtain rfl := World.respond_quiet hquiet hr
  cases a with
  | none => exact hE
  | some reply => exact hQ reply

/-- A value that is there passes `require`. -/
theorem wp_require {value : Option α} {e : Inconsistency} {Q : α → σ → World → Prop}
    {E : WatcherError → σ → World → Prop} {a : α} (hvalue : value = some a) (hQ : Q a s w) :
    wp (contract state_path) (require value e) Q E s w := by
  subst hvalue
  exact hQ

/-- The rule for a journal write: it has to be a journal step, and then the journal is the
state. -/
theorem wp_persist_watcher_state {state : WatcherState} {Q : Unit → σ → World → Prop}
    {E : WatcherError → σ → World → Prop} (hfailed : w.process.failed ≠ some .other)
    (hstep : JournalStep w w.process.memory state)
    (hQ : Inv (w.persisted state) → Q () s (w.persisted state))
    (hE : ∀ w', w' = w.renamed state ∨ w' = w.unwritten state → Inv w' → E .external s w') :
    wp (contract state_path) (persist_watcher_state state) Q E s w := by
  refine wp_call (c := .persist_watcher_state state) ⟨hfailed, hstep⟩ fun o a w' hr hw' => ?_
  rcases World.respond_persist hr with ⟨rfl, rfl⟩ | ⟨rfl, hw⟩
  · exact hQ hw'
  · exact hE w' hw hw'

/-- The rule for freezing a set: a file of that set under a fresh name. -/
theorem wp_persist_frozen_hot_mints {mints : HotMintSet} {Q : String → σ → World → Prop}
    (hQ : ∀ path lines, lines.toFinset = mints → w.frozen.lookup path = none →
      Inv (w.frozen_file path lines true) → Q path s (w.frozen_file path lines true)) :
    Runs state_path (persist_frozen_hot_mints mints) Q s w := by
  refine wp_call (c := .persist_frozen_hot_mints mints) trivial fun o a w' hr hw' => ?_
  rcases World.respond_persist_mints hr with
    ⟨path, lines, rfl, hset, hfresh, rfl⟩ | ⟨rfl, -⟩
  · exact hQ path lines hset hfresh hw'
  · trivial

/-- A file a journal names reads as the set that goes by it. -/
theorem wp_load_frozen_hot_mints {path : String} {Q : HotMintSet → σ → World → Prop}
    (hfile : Holds w.frozen w.directory.files path) (hreads : w.AsRead path)
    (hQ : ∀ file, w.frozen.lookup path = some file → Q file.in_use s w) :
    Runs state_path (load_frozen_hot_mints path) Q s w := by
  refine wp_call (c := .load_frozen_hot_mints path) trivial fun o a w' hr _ => ?_
  obtain ⟨file, htext, hlookup⟩ := hfile
  obtain ⟨rfl, ha⟩ := World.respond_load_mints hr
  have hread : w'.read_mints path = (read_hot_mints path file.text).toOption := by
    rw [World.read_mints, Directory.read, htext]
    rfl
  rcases ha with rfl | rfl
  · trivial
  · rw [hread]
    cases hmints : read_hot_mints path file.text with
    | error e => trivial
    | ok mints =>
        obtain ⟨hlines, rfl, -⟩ := read_hot_mints_eq_ok.mp hmints
        have hset := hQ file hlookup
        rw [MintFile.in_use, if_pos ⟨hreads file hlookup, hlines⟩] at hset
        exact hset

end rules

/-! ## Cleaning up -/

/-- Two worlds that differ in the mint files at most. -/
structure SameButFiles (w w' : World) : Prop where
  frozen : w'.frozen = w.frozen
  tables : w'.tables = w.tables
  records : w'.records = w.records
  process : w'.process = w.process

theorem SameButFiles.refl (w : World) : SameButFiles w w := ⟨rfl, rfl, rfl, rfl⟩

/-- Stretches that change files only compose. -/
theorem SameButFiles.trans {w w' w'' : World} (h : SameButFiles w w') (h' : SameButFiles w' w'') :
    SameButFiles w w'' :=
  ⟨h'.frozen.trans h.frozen, h'.tables.trans h.tables, h'.records.trans h.records,
    h'.process.trans h.process⟩

/-- A settled journal stays settled while only files change. -/
theorem SameButFiles.settled {w w' : World} {state : WatcherState} (h : SameButFiles w w')
    (hs : Settled w state) : Settled w' state := by
  unfold Settled
  rw [h.process]
  exact hs

section cleanup

variable {state_path : String} {σ : Type} {s : σ} {w : World} {state : WatcherState}

/-- The clean-up removes managed files that the journal does not reference, and nothing
else. -/
theorem wp_remove_files {w₀ : World} {paths : List String} (hw : SameButFiles w₀ w)
    (hs : Settled w₀ state)
    (hpaths : ∀ path ∈ paths, is_managed_hot_mints_file path (parent state_path) = true ∧
      referenced state path = false) :
    wp (contract state_path) (remove_files (σ := σ) paths)
      (fun _ s' w' => s' = s ∧ SameButFiles w₀ w')
      (fun _ s' w' => s' = s ∧ SameButFiles w₀ w') s w := by
  induction paths generalizing w with
  | nil => exact ⟨rfl, hw⟩
  | cons path paths ih =>
      obtain ⟨hmanaged, hunused⟩ := hpaths path (by simp)
      unfold remove_files
      rw [wp_bind]
      refine wp_call (c := .remove_file path) ⟨hmanaged, state, hw.settled hs, hunused⟩
        fun o a w' hr _ => ?_
      have hw' : SameButFiles w₀ w' := by
        rcases World.respond_remove hr with rfl | rfl
        · exact hw
        · exact hw.trans ⟨rfl, rfl, rfl, rfl⟩
      cases a with
      | none => exact ⟨rfl, hw'⟩
      | some _ => exact ih hw' fun p hp => hpaths p (List.mem_cons_of_mem _ hp)

/-- Cleaning up after the journal that is on disk takes files no lane names. -/
theorem wp_cleanup (hw : Inv w) (hs : Settled w state) :
    wp (contract state_path) (cleanup_unused_frozen_hot_mints (σ := σ) state_path state)
      (fun _ s' w' => s' = s ∧ SameButFiles w w')
      (fun _ s' w' => s' = s ∧ SameButFiles w w') s w := by
  unfold cleanup_unused_frozen_hot_mints
  rw [wp_bind]
  refine wp_quiet (c := .read_dir _) rfl trivial (fun paths => ?_) ⟨rfl, .refl w⟩
  refine (wp_remove_files (.refl w) hs
    (fun path hp => by simpa using (List.mem_filter.mp hp).2)).then hw ?_ fun _ _ _ _ h => h
  rintro _ s' w' - ⟨rfl, hsame⟩
  dsimp only
  split
  · rw [wp_bind]
    refine wp_call (c := .sync_directory) trivial fun o a w'' hr _ => ?_
    have hsame' : SameButFiles w w'' := by
      rcases World.respond_sync hr with rfl | rfl
      · exact hsame
      · exact hsame.trans ⟨rfl, rfl, rfl, rfl⟩
    cases a with
    | none => exact ⟨rfl, hsame'⟩
    | some _ => exact ⟨rfl, hsame'⟩
  · exact ⟨rfl, hsame⟩

/-- The clean-up never fails its caller and changes files only. -/
theorem wp_cleanup_or_warn {E : WatcherError → σ → World → Prop} (hw : Inv w)
    (hs : Settled w state) :
    wp (contract state_path) (cleanup_unused_frozen_hot_mints_or_warn state_path state)
      (fun _ s' w' => s' = s ∧ SameButFiles w w') E s w := by
  unfold cleanup_unused_frozen_hot_mints_or_warn
  rw [wp_bind, wp_attempt]
  exact wp_cleanup hw hs

end cleanup

/-! ## The loop -/

/-- What a turn of the loop starts from. -/
structure LoopInv (s : Locals) (w : World) : Prop where
  memory : w.process.memory = some s.watcher_state
  failed : w.process.failed = none ∨
    (w.process.failed = some .shared_commit ∧ s.watcher_state.staging.phase = .FullMerging)
  active_path : s.watcher_state.active.hot_mints_path.isSome
  active_slot : w.process.lagging = false → s.watcher_state.active.max_slot = some s.active_slot
  active_full : ∀ full, s.watcher_state.active.full_snapshot = some full →
    full.slot ≤ s.active_slot
  not_pending : s.bootstrap_pending = false
  hot_mints : ∃ mints, s.hot_mints = some mints ∧ w.hot_mints s.watcher_state.active = some mints
  staging_hot_mints : s.watcher_state.staging.phase ≠ .Disabled → ∃ mints,
    s.staging_hot_mints = some mints ∧ w.hot_mints s.watcher_state.staging = some mints
  building : w.process.staging_build = s.staging_build.isSome
  build : ∀ build, s.staging_build = some build →
    build.full_imported = false ∧ s.watcher_state.staging.phase = .FullMerging
  importing_staging : w.process.staging_incremental = s.staging_incremental_handle.isSome
  incremental : ∀ slot, s.staging_incremental_handle = some slot →
    s.watcher_state.staging.phase = .IncrementalLoading ∧ s.watcher_state.active.phase = .Ready ∧
      Advances false s.watcher_state.staging slot
  importing : w.process.importing = []
  valid : s.invalid_archives = []

/-- No journal write of the process failed, but that of a completed shared full. -/
theorem LoopInv.writable {s : Locals} {w : World} (h : LoopInv s w) :
    w.process.failed ≠ some .other := by
  rcases h.failed with hnone | ⟨hcommit, -⟩
  · rw [hnone]
    decide
  · rw [hcommit]
    decide

/-- Outside an exchange, memory and journal agree on the state. -/
theorem LoopInv.settled {s : Locals} {w : World} (h : LoopInv s w)
    (hphase : s.watcher_state.staging.phase ≠ .FullMerging) : Settled w s.watcher_state :=
  ⟨h.memory, h.failed.resolve_right fun hlag => hphase hlag.2⟩

/-- A block of the loop keeps the invariant, and may make any allowed calls. -/
abbrev Keeps {α : Type} (state_path : String) (x : WatcherM α) (s : Locals) (w : World) : Prop :=
  Runs state_path x (fun _ s w => LoopInv s w) s w

section steps

variable {state_path : String} {s : Locals} {w : World}

/-- The rule for an assignment to the state in memory. -/
theorem wp_update {f : WatcherState → WatcherState} {Q : Unit → Locals → World → Prop}
    {E : WatcherError → Locals → World → Prop} :
    wp (contract state_path) (update f) Q E s w ↔
      Q () { s with watcher_state := f s.watcher_state } w := Iff.rfl

/-- `persist` writes the state in memory. -/
theorem wp_persist {Q : Unit → Locals → World → Prop} {E : WatcherError → Locals → World → Prop} :
    wp (contract state_path) persist Q E s w ↔
      wp (contract state_path) (persist_watcher_state s.watcher_state) Q E s w := by
  unfold persist
  rw [wp_bind, wp_read]

/-- The world a while later in the same process, with its journal written and
no import under way. -/
structure Later (w w' : World) : Prop where
  frozen : w'.frozen = w.frozen
  failed : w'.process.failed = none
  lagging : w'.process.lagging = w.process.lagging
  importing : w'.process.importing = []

/-- A written change of the two lanes and of the threads. -/
theorem LoopInv.on_lanes {w' : World} {state : WatcherState} {slot : Slot}
    {build : Option StagingBuild} {handle : Option Slot} (h : LoopInv s w) (hw : Later w w')
    (hmemory : w'.process.memory = some state)
    (hactive : state.active.hot_mints_path = s.watcher_state.active.hot_mints_path)
    (hstaging : state.staging.hot_mints_path = s.watcher_state.staging.hot_mints_path)
    (hdisabled : s.watcher_state.staging.phase = .Disabled → state.staging.phase = .Disabled)
    (hslot : w.process.lagging = false → state.active.max_slot = some slot)
    (hfull : ∀ full, state.active.full_snapshot = some full → full.slot ≤ slot)
    (hbuilding : w'.process.staging_build = build.isSome)
    (hbuild : ∀ b, build = some b → b.full_imported = false ∧ state.staging.phase = .FullMerging)
    (himporting : w'.process.staging_incremental = handle.isSome)
    (hhandle : ∀ slot, handle = some slot → state.staging.phase = .IncrementalLoading ∧
      state.active.phase = .Ready ∧ Advances false state.staging slot) :
    LoopInv { s with
      watcher_state := state
      active_slot := slot
      staging_build := build
      staging_incremental_handle := handle } w' where
  memory := hmemory
  failed := .inl hw.failed
  active_path := by rw [hactive]; exact h.active_path
  active_slot := hw.lagging ▸ hslot
  active_full := hfull
  not_pending := h.not_pending
  hot_mints := by
    obtain ⟨mints, hmints, hset⟩ := h.hot_mints
    exact ⟨mints, hmints, (World.hot_mints_congr hw.frozen hactive).trans hset⟩
  staging_hot_mints := fun hne => by
    obtain ⟨mints, hmints, hset⟩ := h.staging_hot_mints fun hd => hne (hdisabled hd)
    exact ⟨mints, hmints, (World.hot_mints_congr hw.frozen hstaging).trans hset⟩
  building := hbuilding
  build := hbuild
  importing_staging := himporting
  incremental := hhandle
  importing := hw.importing
  valid := h.valid

/-- The threads of a loop whose staging lane is in another phase. -/
theorem LoopInv.no_build (h : LoopInv s w) (hphase : s.watcher_state.staging.phase ≠ .FullMerging) :
    s.staging_build = none := by
  by_contra hsome
  obtain ⟨build, hbuild⟩ := Option.ne_none_iff_exists'.mp hsome
  exact hphase (h.build build hbuild).2

/-- There is an import task of staging only in its loading phase. -/
theorem LoopInv.no_handle (h : LoopInv s w)
    (hphase : s.watcher_state.staging.phase ≠ .IncrementalLoading) :
    s.staging_incremental_handle = none := by
  by_contra hsome
  obtain ⟨slot, hslot⟩ := Option.ne_none_iff_exists'.mp hsome
  exact hphase (h.incremental slot hslot).1

/-- A change of active alone. -/
theorem LoopInv.on_active {w' : World} {state : WatcherState} {slot : Slot} (h : LoopInv s w)
    (hw : Later w w') (hmemory : w'.process.memory = some state)
    (hstaging : state.staging = s.watcher_state.staging)
    (hpath : state.active.hot_mints_path = s.watcher_state.active.hot_mints_path)
    (hslot : w.process.lagging = false → state.active.max_slot = some slot)
    (hfull : ∀ full, state.active.full_snapshot = some full → full.slot ≤ slot)
    (hbuilding : w'.process.staging_build = w.process.staging_build)
    (himporting : w'.process.staging_incremental = w.process.staging_incremental)
    (hphase : s.staging_incremental_handle ≠ none → state.active.phase = .Ready) :
    LoopInv { s with watcher_state := state, active_slot := slot } w' := by
  refine h.on_lanes hw hmemory hpath (by rw [hstaging]) (by rw [hstaging]; exact id) hslot hfull
    (hbuilding.trans h.building) (by rw [hstaging]; exact h.build)
    (himporting.trans h.importing_staging) fun slot hhandle => ?_
  obtain ⟨hloading, -, hadvances⟩ := h.incremental slot hhandle
  rw [hstaging]
  exact ⟨hloading, hphase (by rw [hhandle]; simp), hadvances⟩

/-- An import of an incremental takes the set the loop holds. -/
theorem wp_process_active {candidate : WatchedSnapshot} {mints : HotMintSet}
    {Q : Unit → Locals → World → Prop} (hmints : s.hot_mints = some mints)
    (hsettled : Settled w s.watcher_state)
    (hphase : s.watcher_state.active.phase = .IncrementalLoading)
    (hshared : s.watcher_state.shared_full_load = none)
    (hset : w.hot_mints s.watcher_state.active = some mints)
    (hQ : ∀ w', Inv w' → w'.frozen = w.frozen →
      w'.process = { w.process with importing := [] } → Q () s w') :
    Runs state_path (process candidate .Incremental .Active) Q s w := by
  have hlocals : { s with hot_mints := some mints } = s := by rw [← hmints]
  unfold Runs process hot_mints_for set_hot_mints
  simp only [wp_bind, wp_read, hmints, wp_pure, wp_assign, hlocals]
  refine wp_call (c := .begin_import _ _)
    ⟨rfl, rfl, s.watcher_state, hsettled, hphase, hshared, hset⟩ fun o a w' hr _ => ?_
  rcases World.acknowledge_cases hr with ⟨rfl, rfl⟩ | ⟨rfl, -⟩
  · refine wp_call (c := .end_import) trivial fun o a w'' hr hw'' => ?_
    rcases World.respond_end_import hr with ⟨rfl, rfl⟩ | ⟨rfl, -⟩
    · exact hQ _ hw'' (foldl_complete_import _ _).2.2.1 rfl
    · trivial
  · trivial

/-- The rule for an incremental applied to active: the active slot advances to it. -/
theorem wp_apply_active_incremental {candidate : IncrementalSnapshot} (h : LoopInv s w)
    (hactive : Serving s.watcher_state.active) (hshared : s.watcher_state.shared_full_load = none)
    (hslot : s.active_slot < candidate.slot) :
    Runs state_path (apply_active_incremental (.Incremental candidate))
      (fun applied s' w' => applied = true ∧ LoopInv s' w' ∧
        s'.watcher_state.active.phase = .Ready) s w := by
  have hadvances : Advances w.process.lagging s.watcher_state.active candidate.slot := by
    refine ⟨fun full hf => (h.active_full full hf).trans hslot.le, fun hlag old hold => ?_⟩
    rw [h.active_slot hlag] at hold
    exact Option.some.inj hold ▸ hslot
  -- the import is journalled before it starts and again when it is done
  obtain ⟨mints, hmints, hset⟩ := h.hot_mints
  unfold Runs apply_active_incremental
  rw [wp_bind, wp_read, if_neg (show ¬ (WatchedSnapshot.Incremental candidate).slot ≤ s.active_slot
    from Nat.not_le.mpr hslot), wp_bind]
  refine wp_quiet (c := .new_loader _ _) rfl trivial (fun _ => ?_) trivial
  rw [wp_bind, wp_update, wp_bind, wp_persist]
  refine wp_persist_watcher_state h.writable ?_ (fun _ => ?_) fun _ _ _ => trivial
  · rw [h.memory]
    exact .begin_active hactive hshared hadvances
  · rw [wp_bind]
    refine wp_process_active hmints ⟨rfl, rfl⟩ rfl hshared hset fun w' _ hfrozen hprocess => ?_
    rw [wp_bind, wp_assign, wp_bind, wp_update, wp_bind, wp_persist]
    refine wp_persist_watcher_state (by rw [hprocess]; nofun) ?_ (fun _ => ?_) fun _ _ _ => trivial
    · rw [hprocess]
      refine .commit_active rfl hshared ?_
      rw [hprocess]
      exact ⟨hadvances.full, hadvances.slot⟩
    · have hlater : Later w (w'.persisted ((s.watcher_state.begin_active_incremental
          (.Incremental candidate)).commit_active_incremental candidate.slot)) := by
        refine ⟨hfrozen, rfl, ?_, ?_⟩ <;> simp only [World.persisted, hprocess]
      refine ⟨rfl,
        h.on_active hlater rfl rfl rfl (fun _ => rfl) hadvances.full ?_ ?_ fun _ => rfl, rfl⟩
      · simp only [World.persisted, hprocess]
      · simp only [World.persisted, hprocess]

/-! ### The blocks before the listing -/

/-- Taking in the event that the full is imported keeps the invariant of the loop. -/
theorem keeps_receive_full_imported (h : LoopInv s w) :
    Keeps state_path (receive_full_imported state_path) s w := by
  unfold Keeps Runs receive_full_imported
  rw [wp_bind, wp_read]
  cases hbuild : s.staging_build with
  | none => exact h
  | some build =>
      have hmerge_wait := (h.build build hbuild).1
      dsimp only
      rw [if_neg fun hb => by rw [hmerge_wait] at hb; exact absurd hb.2 (by decide)]
      exact h

/-- Joining the staging build keeps the invariant of the loop. -/
theorem keeps_join_staging_build (h : LoopInv s w) : Keeps state_path join_staging_build s w := by
  unfold Keeps Runs join_staging_build
  rw [wp_bind, wp_read]
  cases hbuild : s.staging_build with
  | none => exact h
  | some build =>
      have hmerging := (h.build build hbuild).2
      have hhandle := h.no_handle (by rw [hmerging]; decide)
      dsimp only
      rw [wp_bind]
      refine wp_call (c := .join_staging_build) trivial fun o a w' hr _ => ?_
      rcases World.respond_join_build hr with ⟨rfl, rfl⟩ | ⟨result, rfl, rfl⟩
      · exact h
      · dsimp only
        rw [wp_bind, wp_assign]
        cases result with
        -- the merges have settled: the lane goes to Ready
        | ok =>
            dsimp only
            rw [if_neg (not_not.mpr hmerging), wp_bind, wp_update, wp_persist]
            refine wp_persist_watcher_state h.writable ?_ (fun _ => ?_) fun _ _ _ => trivial
            · rw [show w.process.memory = _ from h.memory]
              exact .settle_staging hmerging
            · exact h.on_lanes ⟨rfl, rfl, rfl, h.importing⟩ rfl rfl rfl
                (fun hd => by rw [hmerging] at hd; cases hd) h.active_slot h.active_full rfl
                (fun _ hb => nomatch hb) h.importing_staging
                (fun slot hs => by rw [hhandle] at hs; cases hs)
        -- a failed build ends the watcher, and what it leaves is on disk
        | failed =>
            dsimp only
            rw [if_pos hmerging]
            trivial
        | panicked =>
            dsimp only
            rw [if_pos hmerging]
            trivial

/-- Joining the staging import keeps the invariant of the loop. -/
theorem keeps_join_staging_incremental (h : LoopInv s w) :
    Keeps state_path join_staging_incremental s w := by
  unfold Keeps Runs join_staging_incremental
  rw [wp_bind, wp_read]
  cases hhandle : s.staging_incremental_handle with
  | none => exact h
  | some slot =>
      obtain ⟨hloading, hready, hadvances⟩ := h.incremental slot hhandle
      have hbuild := h.no_build (by rw [hloading]; decide)
      dsimp only
      rw [wp_bind]
      refine wp_call (c := .join_staging_incremental) trivial fun o a w' hr _ => ?_
      -- it is still running, was imported, or has failed
      rcases World.respond_join_incremental hr with
        ⟨rfl, rfl⟩ | ⟨rfl, rfl⟩ | ⟨result, hresult, rfl, rfl⟩
      · exact h
      · dsimp only
        rw [wp_bind, wp_assign, wp_bind, wp_update, wp_persist]
        refine wp_persist_watcher_state h.writable ?_ (fun _ => ?_) fun _ _ _ => trivial
        · rw [show w.process.memory = _ from h.memory]
          exact .commit_staging hready hloading hadvances
        · exact h.on_lanes ⟨rfl, rfl, rfl, h.importing⟩ rfl rfl rfl
            (fun hd => by rw [hloading] at hd; cases hd) h.active_slot h.active_full h.building
            (fun b hb => by rw [hbuild] at hb; cases hb) rfl (fun _ hs => nomatch hs)
      · dsimp only
        rw [wp_bind, wp_assign]
        cases result with
        | ok => exact absurd rfl hresult
        | failed => trivial
        | panicked => trivial

/-! ### The cutover -/

/-- Asking for the identity of a group answers with its physical tables. -/
theorem wp_identity {group : TableGroup} {Q : TableGroupIdentity → Locals → World → Prop}
    (hQ : Q (w.physical group) s w) :
    Runs state_path (call (.table_group_identity group)) Q s w := by
  refine wp_call (c := .table_group_identity group) trivial fun o a w' hr _ => ?_
  obtain ⟨rfl, rfl | rfl⟩ := World.respond_identity hr
  · trivial
  · exact hQ

/-- The pairs not yet exchanged are the ones it exchanges, each once. -/
theorem wp_exchange_pairs {checkpoint : CutoverWatcherState}
    {active_now backup_now : TableGroupIdentity} {bases : List GroupTable} (hw : Inv w)
    (hnodup : bases.Nodup) (hsettled : Settled w s.watcher_state)
    (hcutover : s.watcher_state.cutover = some checkpoint)
    (himporting : w.process.importing = []) (hstaging : w.process.staging_incremental = false)
    (hactive : ∀ base ∈ bases, active_now base = w.physical .Active base)
    (hbackup : ∀ base ∈ bases, backup_now base = w.physical .Backup base) :
    Runs state_path (exchange_pairs checkpoint active_now backup_now bases)
      (fun _ s' w' => s' = s ∧ w'.process = w.process ∧ w'.frozen = w.frozen ∧
        (∀ base ∈ bases, w'.tables base = checkpoint.staging_tables base) ∧
        ∀ base ∉ bases, w'.tables base = w.tables base) s w := by
  induction bases generalizing w with
  | nil => exact ⟨rfl, rfl, rfl, by simp, fun _ _ => rfl⟩
  | cons base bases ih =>
      obtain ⟨hfirst, hrest⟩ := List.nodup_cons.mp hnodup
      have hnow : active_now base = w.physical .Active base := hactive base (by simp)
      have hbak : backup_now base = w.physical .Backup base := hbackup base (by simp)
      unfold Runs exchange_pairs
      split
      next hdone =>
        -- exchanged before a crash: it is where the checkpoint wants it
        refine (ih hw hrest hsettled himporting hstaging
          (fun b hb => hactive b (List.mem_cons_of_mem _ hb))
          fun b hb => hbackup b (List.mem_cons_of_mem _ hb)).mono hw ?_ fun _ _ _ _ _ => trivial
        rintro _ s' w' - ⟨rfl, hprocess, hfrozen, hexchanged, hothers⟩
        refine ⟨rfl, hprocess, hfrozen, fun b hb => ?_, fun b hb => ?_⟩
        · rcases List.mem_cons.mp hb with rfl | hb
          · rw [hothers b hfirst]
            exact hnow.symm.trans hdone.1
          · exact hexchanged b hb
        · exact hothers b fun hmem => hb (List.mem_cons_of_mem _ hmem)
      next hpending =>
        split
        next hother => trivial
        next hexpected =>
          simp only [not_or, not_not] at hexpected
          rw [wp_bind]
          refine wp_call (c := .exchange_tables base)
            ⟨s.watcher_state, checkpoint, hsettled, hcutover, hnow ▸ hexpected.1,
              hbak ▸ hexpected.2, himporting, hstaging⟩ fun o a w' hr hw' => ?_
          -- exchanged now; the pairs behind it still have the identities they were read with
          rcases World.respond_exchange hr with ⟨rfl, rfl⟩ | ⟨rfl, -⟩
          · have hne : ∀ b ∈ bases, b ≠ base := by
              rintro b hb rfl
              exact hfirst hb
            refine (ih hw' hrest hsettled himporting hstaging
              (fun b hb => (hactive b (List.mem_cons_of_mem _ hb)).trans
                (w.physical_exchange_of_ne (hne b hb) .Active).symm)
              fun b hb => (hbackup b (List.mem_cons_of_mem _ hb)).trans
                (w.physical_exchange_of_ne (hne b hb) .Backup).symm).mono hw' ?_
              fun _ _ _ _ _ => trivial
            rintro _ s' w'' - ⟨rfl, hprocess, hfrozen, hexchanged, hothers⟩
            refine ⟨rfl, hprocess, hfrozen, fun b hb => ?_, fun b hb => ?_⟩
            · rcases List.mem_cons.mp hb with rfl | hb
              · rw [hothers b hfirst, World.exchange_tables, if_pos rfl, ← hbak]
                exact hexpected.2
              · exact hexchanged b hb
            · have hb' : b ≠ base := fun heq => hb (heq ▸ by simp)
              rw [hothers b fun hmem => hb (List.mem_cons_of_mem _ hmem), World.exchange_tables,
                if_neg hb']
          · trivial

/-- A cutover that is due has its checkpoint, taken now or before. -/
theorem wp_take_cutover_checkpoint {mints : HotMintSet} (h : LoopInv s w)
    (hactive : s.watcher_state.active.phase = .CutoverPending)
    (hstaging : s.watcher_state.staging.phase = .CutoverPending) :
    Runs state_path (take_cutover_checkpoint mints)
      (fun _ s' w' => LoopInv s' w' ∧ s'.watcher_state.active.phase = .CutoverPending ∧
        s'.watcher_state.staging.phase = .CutoverPending ∧
        s'.staging_hot_mints = s.staging_hot_mints ∧
        ∃ checkpoint, s'.watcher_state.cutover = some checkpoint) s w := by
  have hbuild := h.no_build (by rw [hstaging]; decide)
  have hhandle := h.no_handle (by rw [hstaging]; decide)
  unfold Runs take_cutover_checkpoint
  rw [wp_bind, wp_read]
  cases hcutover : s.watcher_state.cutover with
  | some checkpoint =>
      -- it was taken before the last stop
      exact ⟨h, hactive, hstaging, rfl, checkpoint, hcutover⟩
  | none =>
      rw [if_pos (by rfl), wp_bind]
      refine wp_quiet (c := .validate_staging_group _) rfl trivial (fun _ => ?_) trivial
      rw [wp_bind]
      refine wp_identity ?_
      rw [wp_bind]
      refine wp_identity ?_
      rw [wp_bind, wp_update, wp_persist]
      -- it is in the journal before the first exchange
      refine wp_persist_watcher_state h.writable ?_ (fun _ => ?_) fun _ _ _ => trivial
      · rw [h.memory]
        exact .checkpoint hactive hcutover
      · refine ⟨?_, hactive, hstaging, rfl, _, rfl⟩
        exact h.on_lanes ⟨rfl, rfl, rfl, h.importing⟩ rfl rfl rfl id h.active_slot h.active_full
          h.building h.build h.importing_staging h.incremental

theorem nodup_GROUP_MERGE_TABLES : GROUP_MERGE_TABLES.Nodup := by decide

/-- The loop after a cutover: staging's set is active's, and staging is disabled. -/
theorem LoopInv.promoted {w' : World} {mints : HotMintSet} (h : LoopInv s w) (hw : Inv w)
    (hstaging : s.watcher_state.staging.phase = .CutoverPending)
    (hmints : s.staging_hot_mints = some mints) (hfrozen : w'.frozen = w.frozen)
    (hprocess : w'.process =
      { w.process with memory := some s.watcher_state.commit_cutover, failed := none }) :
    LoopInv { s with
      hot_mints := some mints
      watcher_state := s.watcher_state.commit_cutover
      active_slot := s.watcher_state.commit_cutover.active.max_slot.getD 0
      staging_hot_mints := none } w' := by
  have hbuilt := built_of_cutting (hw.memory _ h.memory).1 hstaging
  obtain ⟨slot, hslot, hle⟩ := hbuilt.committed
  obtain ⟨set, hset, hlane⟩ := h.staging_hot_mints (by rw [hstaging]; decide)
  have hslot' : s.watcher_state.commit_cutover.active.max_slot = some slot := hslot
  have hbuild := h.no_build (by rw [hstaging]; decide)
  have hhandle := h.no_handle (by rw [hstaging]; decide)
  -- the fields of the loop in turn: active has what staging had, staging has nothing
  refine ⟨?_, .inl ?_, hbuilt.hot_mints, fun _ => ?_, fun full hf => ?_, h.not_pending,
    ⟨mints, rfl, ?_⟩, fun hne => absurd rfl hne, ?_, ?_, ?_, ?_, ?_, h.valid⟩
  · rw [hprocess]
  · rw [hprocess]
  · dsimp only
    rw [hslot', Option.getD_some]
  · dsimp only
    rw [hslot', Option.getD_some]
    exact hle full hf
  · rw [← hmints, hset, ← hlane]
    exact World.hot_mints_congr hfrozen rfl
  · rw [hprocess]
    exact h.building
  · intro build hb
    rw [hbuild] at hb
    cases hb
  · rw [hprocess]
    exact h.importing_staging
  · intro slot hs
    rw [hhandle] at hs
    cases hs
  · rw [hprocess]
    exact h.importing

/-- A cutover that ends leaves the lanes with their tables. -/
theorem wp_finish_cutover {mints : HotMintSet} (hw : Inv w) (h : LoopInv s w)
    (hactive : s.watcher_state.active.phase = .CutoverPending)
    (hstaging : s.watcher_state.staging.phase = .CutoverPending)
    (hmints : s.staging_hot_mints = some mints) :
    Runs state_path (finish_cutover state_path mints)
      (fun _ s' w' => LoopInv { s' with
        active_slot := s'.watcher_state.active.max_slot.getD 0, staging_hot_mints := none } w')
      s w := by
  obtain ⟨slot, hslot, -⟩ := (built_of_cutting (hw.memory _ h.memory).1 hstaging).committed
  unfold Runs finish_cutover
  rw [wp_bind, wp_read, if_neg (by simp [hactive, hstaging]), wp_bind]
  refine wp_require hslot ?_
  refine (wp_take_cutover_checkpoint h hactive hstaging).then hw ?_ fun _ _ _ _ _ => trivial
  rintro _ s₁ w₁ hw₁ ⟨h₁, hactive₁, hstaging₁, hmints₁, checkpoint, hcutover₁⟩
  rw [wp_bind, wp_read, wp_bind]
  refine wp_require hcutover₁ ?_
  have hsettled := h₁.settled (by rw [hstaging₁]; decide)
  have hhandle := h₁.no_handle (by rw [hstaging₁]; decide)
  have hbuild := h₁.no_build (by rw [hstaging₁]; decide)
  -- the pairs not exchanged yet are, so every name ends at its staging table
  have hexchange : Runs state_path (exchange_table_groups checkpoint)
      (fun _ s' w' => s' = s₁ ∧ w'.process = w₁.process ∧ w'.frozen = w₁.frozen ∧
        ∀ base, w'.tables base = checkpoint.staging_tables base) s₁ w₁ := by
    unfold Runs exchange_table_groups
    rw [wp_bind]
    refine wp_identity ?_
    rw [wp_bind]
    refine wp_identity ?_
    refine (wp_exchange_pairs hw₁ nodup_GROUP_MERGE_TABLES hsettled hcutover₁ h₁.importing
      (by rw [h₁.importing_staging, hhandle]; rfl) (fun _ _ => rfl) fun _ _ => rfl).mono hw₁ ?_
      fun _ _ _ _ _ => trivial
    rintro _ s' w' - ⟨hs, hprocess, hfrozen, hexchanged, -⟩
    exact ⟨hs, hprocess, hfrozen, fun base => hexchanged base (mem_GROUP_MERGE_TABLES base)⟩
  refine hexchange.then hw₁ ?_ fun _ _ _ _ _ => trivial
  rintro _ s₂ w₂ hw₂ ⟨rfl, hprocess, hfrozen, htables⟩
  unfold set_hot_mints
  rw [wp_bind, wp_assign, wp_bind, wp_update, wp_bind, wp_persist]
  refine wp_persist_watcher_state (hprocess ▸ h₁.writable) ?_ (fun hw₃ => ?_) fun _ _ _ => trivial
  · rw [hprocess, h₁.memory]
    exact .commit_cutover hcutover₁ htables
  · rw [wp_bind, wp_read]
    refine (wp_cleanup_or_warn hw₃ ⟨rfl, rfl⟩).mono hw₃ ?_ fun _ _ _ _ h => h
    rintro _ s₃ w₃ - ⟨rfl, hsame⟩
    exact h₁.promoted hw₁ hstaging₁ (hmints₁.trans hmints) (hsame.frozen.trans hfrozen)
      (hsame.process.trans (by simp only [World.persisted, hprocess]))

/-! ### The shared full -/

/-- After the fan-out the backup tables hold the full and nothing else. -/
theorem loaded_of_fanout {snapshot : FullSnapshot} {staging active : HotMintSet}
    (hempty : ∀ base, w.records base (w.physical .Backup base) = .empty) :
    Loaded { [TableGroup.Backup, .Active].foldl World.complete_import
        { (w.start_import .Backup ⟨.Full snapshot, .Full, staging, false⟩).start_import .Active
            ⟨.Full snapshot, .Incremental, active, false⟩ with
          process := { w.process with importing := [.Backup, .Active] } } with
        process := { w.process with importing := [] } } (full_snapshot_state snapshot)
      (some staging) := by
  intro base
  refine ⟨snapshot, staging, rfl, rfl, ?_⟩
  have hne : TableGroup.Backup ≠ .Active := by decide
  -- the four changes of the records, of which two are of the backup group
  let w₁ := w.start_import .Backup ⟨.Full snapshot, .Full, staging, false⟩
  let w₂ : World := { w₁.start_import .Active ⟨.Full snapshot, .Incremental, active, false⟩ with
    process := { w.process with importing := [.Backup, .Active] } }
  let w₃ := w₂.complete_import .Backup
  have h₁ := w.records_on_group .Backup (fun _ record => { record with
    imports := ⟨.Full snapshot, .Full, staging, false⟩ :: record.imports }) base
  have h₂ := w₁.records_on_group_of_ne hne (fun _ record => { record with
    imports := ⟨.Full snapshot, .Incremental, active, false⟩ :: record.imports }) base
  have h₃ : w₃.records base (w.physical .Backup base) = _ :=
    w₂.records_on_group .Backup _ base
  have h₄ : (w₃.complete_import .Active).records base (w.physical .Backup base) = _ :=
    w₃.records_on_group_of_ne hne _ base
  change (w₃.complete_import .Active).records base (w.physical .Backup base) = _
  rw [h₄]
  change w₃.records base (w.physical .Backup base) = _
  rw [h₃]
  rw [show w₂.records base (w₂.physical .Backup base) = _ from h₂,
    show w₁.records base (w₁.physical .Backup base) = _ from h₁]
  dsimp only
  rw [hempty]
  rfl

/-- The rule for a shared full: it is in the tables of both lanes, under the sets of both,
or the call has failed. -/
theorem wp_process_shared_full_fanout {snapshot : FullSnapshot} {staging : HotMintSet}
    {shared : SharedFullLoadWatcherState} {resume : Slot} {Q : Unit → Locals → World → Prop}
    {E : WatcherError → Locals → World → Prop} (h : LoopInv s w)
    (hsettled : Settled w s.watcher_state)
    (hshared : s.watcher_state.shared_full_load = some shared)
    (hsnapshot : full_snapshot_state snapshot = shared.snapshot)
    (hstaging : w.hot_mints s.watcher_state.staging = some staging)
    (hempty : ∀ base, w.records base (w.physical .Backup base) = .empty)
    (hQ : ∀ w', Inv w' → w'.frozen = w.frozen → w'.process = w.process →
      Loaded w' shared.snapshot (some staging) → Q () s w')
    (hE : ∀ w', Inv w' → w'.frozen = w.frozen → w'.process = w.process → E .external s w') :
    wp (contract state_path) (process_shared_full_fanout snapshot resume staging) Q E s w := by
  obtain ⟨active, hactive, hset⟩ := h.hot_mints
  unfold process_shared_full_fanout frozen_hot_mints
  rw [wp_bind, wp_bind, wp_read]
  refine wp_require hactive ?_
  rw [wp_bind]
  refine wp_call (c := .begin_shared_import _ _ _) ⟨s.watcher_state, shared, hsettled, hshared,
    ⟨snapshot, hsnapshot, rfl⟩, rfl, hstaging, rfl, hset, hempty⟩ fun o a w' hr hw' => ?_
  rcases World.acknowledge_cases hr with ⟨rfl, rfl⟩ | ⟨rfl, rfl⟩
  · refine wp_call (c := .end_import) trivial fun o a w'' hr hw'' => ?_
    have hprocess : { w.process with importing := [] } = w.process := by rw [← h.importing]
    -- the import has ended, or it failed under way
    rcases World.respond_end_import hr with ⟨rfl, rfl⟩ | ⟨rfl, rfl⟩
    · exact hQ _ hw'' (foldl_complete_import _ _).2.2.1 hprocess
        (hsnapshot ▸ loaded_of_fanout hempty)
    · exact hE _ hw'' rfl hprocess
  · exact hE _ hw' rfl rfl

/-- A failed journal write of the shared commit is reported as one. -/
theorem failure_of_commit_shared {shared : SharedFullLoadWatcherState} (slot : Slot)
    (hmemory : w.process.memory = some s.watcher_state)
    (hshared : s.watcher_state.shared_full_load = some shared) :
    w.failure (s.watcher_state.commit_shared_full_load slot) = .shared_commit := by
  simp [World.failure, hmemory, hshared, WatcherState.commit_shared_full_load]

/-- The loop after a completion it could not write: it goes on from the journal
in memory, with the slot it had before. -/
theorem LoopInv.lag {shared : SharedFullLoadWatcherState} (slot : Slot) {w' : World}
    (h : LoopInv s w) (hshared : s.watcher_state.shared_full_load = some shared)
    (hphase : s.watcher_state.staging.phase = .FullLoading)
    (hprocess : w'.process = w.persist_failed (s.watcher_state.commit_shared_full_load slot))
    (hfrozen : w'.frozen = w.frozen) :
    LoopInv { s with watcher_state := s.watcher_state.commit_shared_full_load slot } w' ∧
      Loading w' := by
  have hfailure := failure_of_commit_shared slot h.memory hshared
  have hbuild := h.no_build (by rw [hphase]; decide)
  have hhandle := h.no_handle (by rw [hphase]; decide)
  have hfailed : w'.process.failed = some .shared_commit := by
    rw [hprocess]
    exact congrArg some hfailure
  -- the completion is in memory and not on disk; the files and the threads are the same
  refine ⟨⟨?_, .inr ⟨hfailed, rfl⟩, h.active_path, fun hlag => ?_, h.active_full, h.not_pending,
    ?_, fun _ => ?_, ?_, ?_, ?_, ?_, ?_, h.valid⟩, .inr hfailed⟩
  · rw [hprocess]
    rfl
  · rw [hprocess] at hlag
    simp [World.persist_failed, hfailure] at hlag
  · obtain ⟨mints, hmints, hset⟩ := h.hot_mints
    exact ⟨mints, hmints, (World.hot_mints_congr hfrozen rfl).trans hset⟩
  · obtain ⟨mints, hmints, hset⟩ := h.staging_hot_mints (by rw [hphase]; decide)
    exact ⟨mints, hmints, (World.hot_mints_congr hfrozen rfl).trans hset⟩
  · rw [hprocess]
    exact h.building
  · intro build hb
    rw [hbuild] at hb
    cases hb
  · rw [hprocess]
    exact h.importing_staging
  · intro slot hs
    rw [hhandle] at hs
    cases hs
  · rw [hprocess]
    exact h.importing

/-- An attempt at the shared full: it ends with the completion written, or with
nothing changed but the tables, or with a completion it could not write. -/
theorem wp_complete_shared_full_load {snapshot : FullSnapshot} {staging : HotMintSet}
    {shared : SharedFullLoadWatcherState} (hw : Inv w) (h : LoopInv s w)
    (hshared : s.watcher_state.shared_full_load = some shared)
    (hsnapshot : full_snapshot_state snapshot = shared.snapshot)
    (hstaging : w.hot_mints s.watcher_state.staging = some staging)
    (hempty : ∀ base, w.records base (w.physical .Backup base) = .empty) :
    wp (contract state_path) (complete_shared_full_load snapshot staging)
      (fun build s' w' => LoopInv { s' with
        active_slot := s'.watcher_state.active.max_slot.getD 0, staging_build := build } w')
      (fun _ s' w' => LoopInv s' w' ∧ Loading w') s w := by
  have hwell := (hw.memory _ h.memory).1
  obtain ⟨hloading, hinflight, hslot, path, hlane⟩ := sharing_of_shared hwell hshared
  have hphase : s.watcher_state.staging.phase = .FullLoading := by rw [hlane]; rfl
  have hbuild := h.no_build (by rw [hphase]; decide)
  have hhandle := h.no_handle (by rw [hphase]; decide)
  have hsettled := h.settled (by rw [hphase]; decide)
  have hchecked : ∀ w', w'.process = w.process → w'.frozen = w.frozen →
      LoopInv s w' ∧ Loading w' := by
    intro w' hprocess hfrozen
    have hmints : ∀ lane, w'.hot_mints lane = w.hot_mints lane := fun lane =>
      World.hot_mints_congr hfrozen rfl
    refine ⟨?_, .inl ⟨_, _, ⟨hprocess ▸ hsettled.1, hprocess ▸ hsettled.2⟩, hshared⟩⟩
    refine ⟨?_, ?_, h.active_path, ?_, h.active_full, h.not_pending, ?_, ?_, ?_, h.build, ?_,
      h.incremental, ?_, h.valid⟩ <;> simp only [hprocess, hmints]
    · exact h.memory
    · exact h.failed
    · exact h.active_slot
    · exact h.hot_mints
    · exact h.staging_hot_mints
    · exact h.building
    · exact h.importing_staging
    · exact h.importing
  have hfields := hsnapshot
  simp only [full_snapshot_state] at hfields
  unfold complete_shared_full_load
  rw [wp_bind, wp_read, wp_bind]
  refine wp_require hshared ?_
  rw [if_neg (by simp [hphase, hloading]), wp_bind]
  refine wp_require hinflight ?_
  rw [if_neg (by simp [← hfields]), if_neg (not_not.mpr hslot), wp_bind]
  refine wp_quiet (c := .new_loader _ _) rfl trivial (fun _ => ?_) (hchecked w rfl rfl)
  rw [wp_bind]
  refine wp_process_shared_full_fanout h hsettled hshared hsnapshot hstaging hempty
    (fun w₁ hw₁ hfrozen hprocess hloaded => ?_) fun w₁ _ hfrozen hprocess =>
      hchecked w₁ hprocess hfrozen
  have hslots : snapshot.slot = shared.snapshot.slot := by rw [← hfields]
  rw [wp_bind, wp_update, wp_bind, wp_persist]
  refine wp_persist_watcher_state (hprocess ▸ h.writable) ?_ (fun hw₂ => ?_) fun w₂ hw₂ _ => ?_
  · rw [hprocess, h.memory, hslots]
    refine .commit_shared hshared ?_
    rw [World.hot_mints_congr hfrozen rfl, hstaging]
    exact hloaded
  · obtain ⟨slot, hmax, hfull⟩ := (hw₂.memory _ rfl).1.committed
    obtain rfl : snapshot.slot = slot := Option.some.inj hmax
    -- the wait for the merges may start, or be left to the next turn
    have hafter : ∀ (build : Option StagingBuild) (w₃ : World),
        (∀ b, build = some b → b.full_imported = false) → w₃.frozen = w₁.frozen →
        w₃.process = { (w₁.persisted
          (s.watcher_state.commit_shared_full_load snapshot.slot)).process with
            staging_build := build.isSome } →
        LoopInv { s with
          watcher_state := s.watcher_state.commit_shared_full_load snapshot.slot
          active_slot := snapshot.slot
          staging_build := build } w₃ := by
      intro build w₃ hmerge_wait hf hp
      have hidle : w.process.staging_incremental = false := by
        rw [h.importing_staging, hhandle]
        rfl
      refine h.on_lanes ⟨hf.trans hfrozen, ?_, ?_, ?_⟩ ?_ rfl rfl
        (fun hd => by rw [hphase] at hd; cases hd) (fun _ => rfl) hfull ?_
        (fun b hb => ⟨hmerge_wait b hb, rfl⟩) ?_
        (fun slot hs => by rw [hhandle] at hs; cases hs) <;>
        simp only [hp, World.persisted, hprocess, hhandle]
      · exact h.importing
      · exact hidle
    rw [wp_bind, wp_attempt]
    unfold spawn_staging_merge_wait
    rw [wp_bind]
    refine wp_call (c := .spawn_staging_merge_wait _) trivial fun o a w₃ hr _ => ?_
    rcases World.acknowledge_cases hr with ⟨rfl, rfl⟩ | ⟨rfl, rfl⟩
    · refine hafter (some ⟨shared.snapshot, false, false⟩) _ (fun b hb => ?_) rfl rfl
      obtain rfl := Option.some.inj hb
      rfl
    · refine hafter none _ (fun b hb => by cases hb) rfl ?_
      simp only [World.persisted, hprocess, h.building, hbuild]
  · refine LoopInv.lag snapshot.slot h hshared hphase ?_ ?_
    · rcases hw₂ with rfl | rfl
      · exact World.persist_failed_congr hprocess _
      · exact World.persist_failed_congr hprocess _
    · rcases hw₂ with rfl | rfl
      · exact hfrozen
      · exact hfrozen

end steps

end SnapshotEtl.Watcher
