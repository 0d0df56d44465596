/-
Bridging active with a full archive.

When the base of the next incremental is missing, the watcher loads a new full
into both groups at once: into `_bak` as a baseline, and into active as if it were
an incremental from the resume slot on. A full carries no tombstones, so an
account closed since the resume slot is not in it, and active goes on showing it;
and the watermark moves to the full's slot, so that no later archive brings the
close. Where no account that is shown was closed, the two ways agree.
-/
import SnapshotEtl.Chain
import SnapshotEtl.FanoutWorker

set_option autoImplicit false

namespace SnapshotEtl

open Replacing Lib

/-- A full archive: of each pubkey its last version, unless that is closed. -/
def Chain.HoldsFull (c : Chain) (slot : Slot) (append_vecs : List AppendVec) : Prop :=
  ∀ v, v ∈ versions append_vecs ↔
    c.last v.account.stored_meta.pubkey slot = some v ∧ canonical_empty v.account = false

namespace FullFanoutWorker

variable (dec : Decoders) (w : FullFanoutWorker)

/-- What the fan-out holds of the active lane once its storages are parsed. -/
def active_lane (append_vecs : List AppendVec) : LaneState :=
  lane_state .Active (append_vecs.flatMap (w.on_append_vec_count dec))

/-- The counters around a storage do not show on a lane. -/
theorem on_lane_on_delivered (v : Worker) (group : TableGroup) (append_vec : AppendVec) :
    on_lane group (v.on_delivered dec append_vec)
      = on_lane group (v.on_append_vec_count dec append_vec) := by
  unfold Worker.on_delivered
  simp only [List.cons_append, on_lane_count, on_lane_append, on_lane_ite, on_lane_nil, ite_self,
    List.append_nil]

/-- It is an incremental of the storages past the resume slot. -/
theorem active_lane_eq (append_vecs : List AppendVec) :
    w.active_lane dec append_vecs
      = (incremental_worker .Active w.active_hot_mints w.snapshot_slot).lane dec
        (append_vecs.filter fun av =>
          should_process_append_vec_slot (some w.active_resume_slot) av.slot) := by
  rw [active_lane, lane_state_fanout, Worker.lane, lane_state, lane_state, on_lane_flatMap,
    on_lane_flatMap]
  simp only [on_lane_on_delivered]
  rfl

end FullFanoutWorker

section Bridge

variable (c : Chain) (dec : Decoders) (w : FullFanoutWorker) (s : ImportedGroup)

/-- Active once the fan-out of a full is completed and recorded. -/
def bridged (full : List AppendVec) : ImportedGroup :=
  ⟨s.tables.import_incremental (w.active_lane dec full) w.snapshot_slot, w.snapshot_slot⟩

/-- No account that active shows was closed since the resume slot. -/
def NoneClosed : Prop :=
  ∀ p v, c.last p w.snapshot_slot = some v → w.active_resume_slot < v.slot →
    canonical_empty v.account = true →
      state_final s.tables.hot_token_account_state (pubkey_string p) = none

/-- The bridge leaves of active what an incremental over the same slots leaves,
the hot token accounts live at the full's slot. -/
structure BridgesAs (l : ListedIncremental) (s' : ImportedGroup) (full : List AppendVec)
    (omitted : Pubkey → Prop) : Prop where
  same : ∀ pubkey, state_final (bridged dec w s full).tables.hot_token_account_state pubkey
    = state_final s'.tables.hot_token_account_state pubkey
  tracks : c.Window dec w.active_hot_mints s l →
    c.Tracks dec w.active_hot_mints (bridged dec w s full).tables.hot_token_account_state
      (bridged dec w s full).slot fun p =>
        omitted p ∧ c.last p w.snapshot_slot = c.last p w.active_resume_slot

variable {c dec w s} {full : List AppendVec}

/-- What the active lane reads of a full. -/
theorem mem_bridged_versions (hfull : c.HoldsFull w.snapshot_slot full) {v : AccountVersion} :
    v ∈ versions (full.filter fun av =>
        should_process_append_vec_slot (some w.active_resume_slot) av.slot) ↔
      w.active_resume_slot < v.slot ∧
        c.last v.account.stored_meta.pubkey w.snapshot_slot = some v ∧
          canonical_empty v.account = false := by
  rw [mem_versions_filter, hfull v]
  simp only [should_process_append_vec_slot, Option.all_some, decide_eq_true_eq]
  tauto

/-- The versions that an incremental brings. -/
abbrev taken (s : ImportedGroup) (l : ListedIncremental) : List AccountVersion :=
  versions (l.append_vecs.filter fun av => should_process_append_vec_slot (some s.slot) av.slot)

/-- The versions that the active lane reads of a full. -/
abbrev bridged_versions (w : FullFanoutWorker) (full : List AppendVec) : List AccountVersion :=
  versions (full.filter fun av =>
    should_process_append_vec_slot (some w.active_resume_slot) av.slot)

/-- The two imports side by side: the bridge reads what the incremental brings, but for the
closed accounts. -/
structure SideBySide (c : Chain) (dec : Decoders) (w : FullFanoutWorker) (s : ImportedGroup)
    (l : ListedIncremental) (s' : ImportedGroup) (full : List AppendVec) : Prop where
  imported : s' = ⟨s.tables.import_incremental ((incremental_worker .Active w.active_hot_mints
    l.candidate.slot).lane dec (l.append_vecs.filter fun av =>
      should_process_append_vec_slot (some s.slot) av.slot)) l.candidate.slot, l.candidate.slot⟩
  taken_iff : ∀ v, v ∈ taken s l ↔
    s.slot < v.slot ∧ c.last v.account.stored_meta.pubkey l.candidate.slot = some v
  read_iff : ∀ v, v ∈ bridged_versions w full ↔ v ∈ taken s l ∧ canonical_empty v.account = false
  older : ∀ v ∈ taken s l, ∀ row ∈ s.tables.hot_token_account_state, row.updated_slot < v.slot
  names : ∀ pubkey row, state_final s.tables.hot_token_account_state pubkey = some row →
    row.mint ≠ "" ∧ row.owner ≠ ""

section sides

variable {l : ListedIncremental} {s' : ImportedGroup} {omitted : Pubkey → Prop}

theorem side_by_side (hresume : s.slot = w.active_resume_slot)
    (hslot : l.candidate.slot = w.snapshot_slot)
    (htracks : c.Tracks dec w.active_hot_mints s.tables.hot_token_account_state s.slot omitted)
    (hfull : c.HoldsFull w.snapshot_slot full)
    (hincremental : c.HoldsIncremental l.candidate.base_slot l.candidate.slot l.append_vecs)
    (h : s.apply_incremental dec .Active w.active_hot_mints l = some s') :
    SideBySide c dec w s l s' full := by
  obtain ⟨hbase, -, hs'⟩ := apply_incremental_spec h
  have htaken : ∀ v, v ∈ taken s l ↔
      s.slot < v.slot ∧ c.last v.account.stored_meta.pubkey l.candidate.slot = some v :=
    fun v => mem_window hincremental hbase
  refine ⟨hs', htaken, fun v => ?_, fun v hv row hrow => ?_, fun pubkey row hshown => ?_⟩
  · rw [mem_bridged_versions hfull, htaken v, hresume, hslot, and_assoc]
  · exact lt_of_le_of_lt (htracks.slots row hrow) ((htaken v).mp hv).1
  · exact htracks.names hshown

namespace SideBySide

variable (h : SideBySide c dec w s l s' full)

include h

theorem canonical : Canonical (taken s l) :=
  canonical_of_last fun v hv => ((h.taken_iff v).mp hv).2

theorem canonical_bridged : Canonical (bridged_versions w full) := fun v hv v' hv' hkey =>
  h.canonical v ((h.read_iff v).mp hv).1 v' ((h.read_iff v').mp hv').1 hkey

/-- An account closed in the window: the incremental hides it, the bridge leaves it. -/
theorem of_closed {v : AccountVersion} (hv : v ∈ taken s l)
    (hempty : canonical_empty v.account = true) :
    state_final s'.tables.hot_token_account_state v.pubkey = none ∧
      state_final (bridged dec w s full).tables.hot_token_account_state v.pubkey
        = state_final s.tables.hot_token_account_state v.pubkey := by
  have hcloses : dec.closes v.account = true := Decoders.closes_of_canonical_empty hempty
  constructor
  · rw [h.imported, state_final_import_of_closes h.canonical hv (h.older v hv) hcloses
      fun row hshown => h.names v.pubkey row hshown]
  · rw [bridged, w.active_lane_eq]
    refine state_final_import_of_silent fun v' hv' hkey => ?_
    obtain ⟨hin, hlive⟩ := (h.read_iff v').mp hv'
    obtain rfl := h.canonical v' hin v hv hkey
    rw [hempty] at hlive
    cases hlive

/-- Both write the last version of any other account. -/
theorem of_live {v : AccountVersion} (hv : v ∈ taken s l)
    (hempty : canonical_empty v.account = false) :
    state_final (bridged dec w s full).tables.hot_token_account_state v.pubkey
      = state_final s'.tables.hot_token_account_state v.pubkey := by
  have hv' := (h.read_iff v).mpr ⟨hv, hempty⟩
  rw [h.imported, bridged, w.active_lane_eq, state_final_import h.canonical hv (h.older v hv)
    fun row hshown => h.names v.pubkey row hshown, state_final_import h.canonical_bridged hv'
    (h.older v hv) fun row hshown => h.names v.pubkey row hshown]

/-- Neither touches an account without a version in the window. -/
theorem of_silent {pubkey : String} (hsilent : ∀ v ∈ taken s l, v.pubkey ≠ pubkey) :
    state_final (bridged dec w s full).tables.hot_token_account_state pubkey
      = state_final s'.tables.hot_token_account_state pubkey := by
  rw [h.imported, bridged, w.active_lane_eq,
    state_final_import_of_silent fun v hv hkey =>
      absurd hkey (hsilent v ((h.read_iff v).mp hv).1),
    state_final_import_of_silent fun v hv hkey => absurd hkey (hsilent v hv)]

/-- They show the same where nothing shown was closed, and only there. -/
theorem same_iff (hresume : s.slot = w.active_resume_slot)
    (hslot : l.candidate.slot = w.snapshot_slot) :
    (∀ pubkey, state_final (bridged dec w s full).tables.hot_token_account_state pubkey
      = state_final s'.tables.hot_token_account_state pubkey) ↔ NoneClosed c w s := by
  constructor
  · intro hsame p v hlast hslot' hempty
    have hp := Chain.last_pubkey hlast
    subst hp
    have hv := (h.taken_iff v).mpr ⟨hresume ▸ hslot', hslot ▸ hlast⟩
    obtain ⟨hhidden, hkept⟩ := h.of_closed hv hempty
    have hpubkey := hsame v.pubkey
    rw [hhidden, hkept] at hpubkey
    exact hpubkey
  · intro hnone pubkey
    -- an account has a version in the window, closed or live, or none
    by_cases hin : ∃ v ∈ taken s l, v.pubkey = pubkey
    · obtain ⟨v, hv, rfl⟩ := hin
      by_cases hempty : canonical_empty v.account = true
      · obtain ⟨hhidden, hkept⟩ := h.of_closed hv hempty
        obtain ⟨hslot', hlast⟩ := (h.taken_iff v).mp hv
        rw [hhidden, hkept]
        exact hnone _ v (hslot ▸ hlast) (hresume ▸ hslot') hempty
      · exact h.of_live hv (Bool.eq_false_iff.mpr hempty)
    · exact h.of_silent fun v hv hkey => hin ⟨v, hv, hkey⟩

end SideBySide

end sides

/-- **The bridge is an incremental exactly when nothing shown was closed.** -/
theorem bridges_as_incremental_iff (omitted : Pubkey → Prop) (l : ListedIncremental)
    (s' : ImportedGroup) (hresume : s.slot = w.active_resume_slot)
    (hslot : l.candidate.slot = w.snapshot_slot)
    (htracks : c.Tracks dec w.active_hot_mints s.tables.hot_token_account_state s.slot omitted)
    (hfull : c.HoldsFull w.snapshot_slot full)
    (hincremental : c.HoldsIncremental l.candidate.base_slot l.candidate.slot l.append_vecs)
    (h : s.apply_incremental dec .Active w.active_hot_mints l = some s') :
    BridgesAs c dec w s l s' full omitted ↔ NoneClosed c w s := by
  have hsides : SideBySide c dec w s l s' full :=
    side_by_side hresume hslot htracks hfull hincremental h
  constructor
  · intro hbridge
    exact (hsides.same_iff hresume hslot).mp hbridge.same
  · intro hnone
    have hsame := (hsides.same_iff hresume hslot).mpr hnone
    refine ⟨hsame, fun hwindow => ?_⟩
    -- what active shows is what it would show after the incremental
    have hnext := (htracks.apply_incremental hwindow h).2
    have hslot' : s'.slot = w.snapshot_slot := by rw [hsides.imported, hslot]
    rw [hslot', hresume] at hnext
    refine ⟨fun pubkey row hshown => ?_, fun p row hlive => ?_, ?_⟩
    · exact hnext.shown_live pubkey row (hsame pubkey ▸ hshown)
    · rw [hsame]
      exact hnext.live_shown p row hlive
    · have hlt := (apply_incremental_spec h).2.1
      rw [bridged, w.active_lane_eq]
      refine state_import_slots (fun row hrow => ?_) fun v hv => ?_
      · exact (htracks.slots row hrow).trans (hslot ▸ hlt.le)
      · exact (Chain.last_spec ((mem_bridged_versions hfull).mp hv).2.1).2

end Bridge

/-- Active shows account 1 when the full at slot 3 comes, in which it is no more. -/
def bridging : FullFanoutWorker := ⟨3, 1, {pubkey_string (.of_be 7)}, ∅⟩

def close_and_open_full : List AppendVec := [⟨3, 0, 0, [holding 2 3]⟩]

/-- The bridge leaves the closed account in active, the incremental does not. -/
theorem bridge_keeps_closed_account : ∃ s',
    close_and_open_base.apply_incremental .amount_only .Active bridging.active_hot_mints
        close_and_open_incremental = some s' ∧
      (state_final (bridged .amount_only bridging close_and_open_base
        close_and_open_full).tables.hot_token_account_state (pubkey_string (.of_be 1))).isSome ∧
      state_final s'.tables.hot_token_account_state (pubkey_string (.of_be 1)) = none ∧
      (Chain.of_versions close_and_open).HoldsFull 3 close_and_open_full ∧
      ¬BridgesAs (.of_versions close_and_open) .amount_only bridging close_and_open_base
        close_and_open_incremental s' close_and_open_full fun _ => True := by
  -- the incremental closes the account, and the bridge never hears of it
  have hrun : (close_and_open_base.apply_incremental .amount_only .Active bridging.active_hot_mints
      close_and_open_incremental).map (fun s' => state_final s'.tables.hot_token_account_state
        (pubkey_string (.of_be 1))) = some none := by decide +kernel
  have hshown : (state_final (bridged .amount_only bridging close_and_open_base
      close_and_open_full).tables.hot_token_account_state (pubkey_string (.of_be 1))).isSome := by
    decide +kernel
  obtain ⟨s', hs', hhidden⟩ := Option.map_eq_some_iff.mp hrun
  refine ⟨s', hs', hshown, hhidden, fun v => ⟨fun hv => ?_, fun hv => ?_⟩, fun h => ?_⟩
  · have hall : ∀ v ∈ versions close_and_open_full, (Chain.of_versions close_and_open).last
        v.account.stored_meta.pubkey 3 = some v ∧ canonical_empty v.account = false := by
      decide +kernel
    exact hall v hv
  · have hall : ∀ v ∈ close_and_open, (Chain.of_versions close_and_open).last
        v.account.stored_meta.pubkey 3 = some v ∧ canonical_empty v.account = false →
          v ∈ versions close_and_open_full := by decide +kernel
    exact hall v (Chain.mem_of_last hv.1) hv
  · have hsame := h.same (pubkey_string (.of_be 1))
    rw [hhidden] at hsame
    rw [hsame] at hshown
    cases hshown

/-- Account 2 is opened beside account 1, which stays as it is. -/
def open_beside : List AccountVersion := [⟨1, holding 1 5⟩, ⟨3, holding 2 3⟩]

def open_beside_full : List AppendVec := [⟨1, 0, 0, [holding 1 5]⟩, ⟨3, 0, 0, [holding 2 3]⟩]

def open_beside_incremental : ListedIncremental :=
  ⟨[⟨"inc", 1, 3⟩], ⟨"inc", 1, 3⟩, [⟨3, 0, 0, [holding 2 3]⟩]⟩

theorem bridges_open_beside : ∃ s',
    close_and_open_base.apply_incremental .amount_only .Active bridging.active_hot_mints
        open_beside_incremental = some s' ∧
      BridgesAs (.of_versions open_beside) .amount_only bridging close_and_open_base
        open_beside_incremental s' open_beside_full fun _ => True := by
  have hrun : (close_and_open_base.apply_incremental .amount_only .Active bridging.active_hot_mints
      open_beside_incremental).isSome := by decide +kernel
  obtain ⟨s', hs'⟩ := Option.isSome_iff_exists.mp hrun
  -- the base, the full and the incremental hold what the chain says
  have htracks : (Chain.of_versions open_beside).Tracks .amount_only bridging.active_hot_mints
      close_and_open_base.tables.hot_token_account_state close_and_open_base.slot fun _ => True :=
    Chain.tracks_of_versions (by decide +kernel) (by decide +kernel) (by decide +kernel)
  have hfull : (Chain.of_versions open_beside).HoldsFull 3 open_beside_full := by
    have hin : ∀ v ∈ versions open_beside_full, (Chain.of_versions open_beside).last
        v.account.stored_meta.pubkey 3 = some v ∧ canonical_empty v.account = false := by
      decide +kernel
    have hall : ∀ v ∈ open_beside, (Chain.of_versions open_beside).last
        v.account.stored_meta.pubkey 3 = some v ∧ canonical_empty v.account = false →
          v ∈ versions open_beside_full := by decide +kernel
    exact fun v => ⟨hin v, fun hv => hall v (Chain.mem_of_last hv.1) hv⟩
  have hincremental : (Chain.of_versions open_beside).HoldsIncremental 1 3
      open_beside_incremental.append_vecs :=
    Chain.holds_of_versions (by decide +kernel) (by decide +kernel)
  have hnone : ∀ v ∈ open_beside, canonical_empty v.account = false := by decide +kernel
  refine ⟨s', hs', (bridges_as_incremental_iff (fun _ => True) open_beside_incremental s' rfl rfl
    htracks hfull hincremental hs').mpr fun p v hlast _ hempty => ?_⟩
  rw [hnone v (Chain.mem_of_last hlast)] at hempty
  cases hempty

end SnapshotEtl
