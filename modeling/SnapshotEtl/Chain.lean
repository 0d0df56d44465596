/-
The chain, and the token accounts an incremental leaves of it.

A chain is what every pubkey was written with at every slot; an incremental over
`(base, slot]` holds the last version of each pubkey last written there. With one
version per pubkey the outcome of an import is decided pubkey by pubkey: a hot
token account shows its row, a version that closes hides whatever was shown, and
anything else leaves it alone. So the table keeps showing the live hot token
accounts as long as an account that is shown ends each window as one or closed.
-/
import SnapshotEtl.Balances
import SnapshotEtl.Journal

set_option autoImplicit false

namespace SnapshotEtl

open Replacing Lib

/-! ## The chain -/

/-- What was written, per pubkey and slot. A closed account is written as the
canonical empty account. -/
structure Chain where
  written : Pubkey → Slot → Option StoredAccountMeta
  written_pubkey : ∀ p s account, written p s = some account → account.stored_meta.pubkey = p

namespace Chain

variable (c : Chain)

/-- The last version of a pubkey up to a slot. -/
def last (p : Pubkey) : Slot → Option AccountVersion
  | 0 => (c.written p 0).map fun account => ⟨0, account⟩
  | m + 1 =>
      match c.written p (m + 1) with
      | some account => some ⟨m + 1, account⟩
      | none => last p m

variable {c} {p : Pubkey}

/-- The last version was written, at or before the slot. -/
theorem last_spec {m : Slot} {v : AccountVersion} (h : c.last p m = some v) :
    c.written p v.slot = some v.account ∧ v.slot ≤ m := by
  induction m with
  | zero =>
      obtain ⟨account, hwritten, rfl⟩ := Option.map_eq_some_iff.mp h
      exact ⟨hwritten, le_refl _⟩
  | succ m ih =>
      rw [last] at h
      cases hwritten : c.written p (m + 1) with
      | some account =>
          rw [hwritten] at h
          obtain rfl := Option.some.inj h
          exact ⟨hwritten, le_refl _⟩
      | none =>
          rw [hwritten] at h
          exact ⟨(ih h).1, (ih h).2.trans (Nat.le_succ m)⟩

/-- The last version of a pubkey is of that pubkey. -/
theorem last_pubkey {m : Slot} {v : AccountVersion} (h : c.last p m = some v) :
    v.account.stored_meta.pubkey = p :=
  c.written_pubkey p v.slot v.account (last_spec h).1

/-- A pubkey that is not last written after `m` shows at a later slot what it
showed at `m`. -/
theorem last_eq_of_unwritten {m n : Slot} (hmn : m ≤ n)
    (h : ∀ v, c.last p n = some v → v.slot ≤ m) : c.last p n = c.last p m := by
  induction n, hmn using Nat.le_induction with
  | base => rfl
  | succ n hmn ih =>
      cases hwritten : c.written p (n + 1) with
      | some account =>
          have hlast : c.last p (n + 1) = some ⟨n + 1, account⟩ := by rw [last, hwritten]
          have hle : n + 1 ≤ m := h _ hlast
          omega
      | none =>
          have hlast : c.last p (n + 1) = c.last p n := by rw [last, hwritten]
          rw [hlast] at h ⊢
          exact ih h

variable (c) (dec : Decoders) (hot_mints : Finset String)

/-- The row of a pubkey that is a hot token account at a slot. -/
def live_row (p : Pubkey) (m : Slot) : Option TokenAccountRow :=
  (c.last p m).bind (dec.hot_row hot_mints)

/-- An incremental archive: of each pubkey last written in `(base, slot]` that
version, and nothing else. -/
def HoldsIncremental (base slot : Slot) (append_vecs : List AppendVec) : Prop :=
  ∀ v, v ∈ versions append_vecs ↔
    base < v.slot ∧ c.last v.account.stored_meta.pubkey slot = some v

/-- `FINAL` shows the hot token accounts live at a slot, with their rows; of those
it does not show, each is omitted and holds nothing. -/
structure Tracks (state : List TokenAccountRow) (max_slot : Slot) (omitted : Pubkey → Prop) :
    Prop where
  shown_live : ∀ pubkey row, state_final state pubkey = some row →
    ∃ p, pubkey = pubkey_string p ∧ c.live_row dec hot_mints p max_slot = some row
  live_shown : ∀ p row, c.live_row dec hot_mints p max_slot = some row →
    state_final state (pubkey_string p) = some row ∨
      state_final state (pubkey_string p) = none ∧ row.amount = 0 ∧ omitted p
  slots : ∀ row ∈ state, row.updated_slot ≤ max_slot

end Chain

/-! ## An import, pubkey by pubkey -/

/-- At most one version of a pubkey. -/
def Canonical (vs : List AccountVersion) : Prop :=
  ∀ v ∈ vs, ∀ v' ∈ vs, v.pubkey = v'.pubkey → v = v'

section Import

variable {dec : Decoders} {group : TableGroup} {hot_mints : Finset String} {slot : Slot}
  {append_vecs : List AppendVec} {g : Group}

/-- A tombstone is due to a pubkey only when a version of it closes. -/
theorem closed_row_of_version {pubkey : String} {row : TokenAccountRow}
    (h : g.closed_row ((incremental_worker group hot_mints slot).lane dec append_vecs) pubkey
      = some row) :
    ∃ v ∈ versions append_vecs, dec.closes v.account = true ∧ v.pubkey = pubkey := by
  obtain ⟨v, hv, hcloses, hkey, -⟩ := incremental_tombstone (g.closed_row_mem h)
  exact ⟨v, hv, hcloses, hkey.trans (g.closed_row_pubkey h)⟩

/-- A pubkey with no row and no close keeps what it shows. -/
theorem state_final_import_of_silent {pubkey : String}
    (h : ∀ v ∈ versions append_vecs, v.pubkey = pubkey →
      dec.hot_row hot_mints v = none ∧ dec.closes v.account = false) :
    state_final (g.import_incremental ((incremental_worker group hot_mints slot).lane dec
        append_vecs) slot).hot_token_account_state pubkey
      = state_final g.hot_token_account_state pubkey := by
  have hkept : g.closed_row ((incremental_worker group hot_mints slot).lane dec append_vecs) pubkey
      = none := by
    rw [Option.eq_none_iff_forall_ne_some]
    intro row hclosed
    obtain ⟨v, hv, hcloses, hkey⟩ := closed_row_of_version hclosed
    rw [(h v hv hkey).2] at hcloses
    cases hcloses
  rw [g.state_final_import_of_kept hkept]
  refine state_final_congr (newest_append_of_absent _ ?_)
  intro row hrow hkey
  obtain ⟨v, hv, hvrow⟩ := mem_incremental_rows.mp hrow
  have hsilent := (h v hv ((Decoders.hot_row_spec hvrow).1.symm.trans hkey)).1
  rw [hvrow] at hsilent
  cases hsilent

/-- Rows carry the slots of their versions. -/
theorem state_import_slots {max_slot : Slot}
    (hold : ∀ row ∈ g.hot_token_account_state, row.updated_slot ≤ max_slot)
    (hversions : ∀ v ∈ versions append_vecs, v.slot ≤ max_slot) :
    ∀ row ∈ (g.import_incremental ((incremental_worker group hot_mints slot).lane dec append_vecs)
      slot).hot_token_account_state, row.updated_slot ≤ max_slot := by
  intro row hrow
  rcases mem_import_incremental_state.mp hrow with hrow | hrow | hrow
  · exact hold row hrow
  · obtain ⟨v, hv, hvrow⟩ := mem_incremental_rows.mp hrow
    rw [(Decoders.hot_row_spec hvrow).2.1]
    exact hversions v hv
  · obtain ⟨v, hv, -, -, hslot⟩ := incremental_tombstone hrow
    rw [← hslot]
    exact hversions v hv

variable (hcanonical : Canonical (versions append_vecs)) {v : AccountVersion}
  (hv : v ∈ versions append_vecs)
  (hold : ∀ row ∈ g.hot_token_account_state, row.updated_slot < v.slot)

include hcanonical hv hold in
/-- **A hot token account shows its row.** -/
theorem state_final_import_of_hot {row : TokenAccountRow}
    (hrow : dec.hot_row hot_mints v = some row) :
    state_final (g.import_incremental ((incremental_worker group hot_mints slot).lane dec
      append_vecs) slot).hot_token_account_state v.pubkey = some row := by
  obtain ⟨hkey, hslot, hopen, -⟩ := Decoders.hot_row_spec hrow
  -- one version of the pubkey at the slot: it does not close the account too
  have hkept : g.closed_row ((incremental_worker group hot_mints slot).lane dec append_vecs)
      v.pubkey = none := by
    rw [Option.eq_none_iff_forall_ne_some]
    intro tombstone hclosed
    obtain ⟨v', hv', hcloses, hkey'⟩ := closed_row_of_version hclosed
    obtain rfl := hcanonical v' hv' v hv hkey'
    rw [Decoders.hot_row_of_closes hcloses] at hrow
    cases hrow
  -- its row is the newest of the import, and newer than the tables
  have hwritten : token_account_engine.newest (token_account_rows ((incremental_worker group
      hot_mints slot).lane dec append_vecs).rows) v.pubkey = some row := by
    refine newest_of_lt _ (mem_incremental_rows.mpr ⟨v, hv, hrow⟩) hkey ?_
    intro other hother hother_key
    obtain ⟨v', hv', hrow'⟩ := mem_incremental_rows.mp hother
    obtain rfl := hcanonical v' hv' v hv ((Decoders.hot_row_spec hrow').1.symm.trans hother_key)
    exact .inl (Option.some.inj (hrow'.symm.trans hrow))
  have hnewest : token_account_engine.newest (g.rows_with ((incremental_worker group
      hot_mints slot).lane dec append_vecs)) v.pubkey = some row := by
    refine newest_append_of_newer _ hwritten ?_
    intro stored hstored _
    change stored.updated_slot ≤ row.updated_slot
    rw [hslot]
    exact (hold stored hstored).le
  rw [g.state_final_import_of_kept hkept, state_final, hnewest, Option.filter_some, hopen]
  rfl

include hcanonical hv hold in
/-- **A version that closes hides the account.** -/
theorem state_final_import_of_closes (hcloses : dec.closes v.account = true)
    (hnames : ∀ row, state_final g.hot_token_account_state v.pubkey = some row →
      row.mint ≠ "" ∧ row.owner ≠ "") :
    state_final (g.import_incremental ((incremental_worker group hot_mints slot).lane dec
      append_vecs) slot).hot_token_account_state v.pubkey = none := by
  have hunwritten : ∀ row ∈ token_account_rows ((incremental_worker group hot_mints slot).lane dec
      append_vecs).rows, row.pubkey ≠ v.pubkey := by
    intro row hrow hkey
    obtain ⟨v', hv', hrow'⟩ := mem_incremental_rows.mp hrow
    obtain rfl := hcanonical v' hv' v hv ((Decoders.hot_row_spec hrow').1.symm.trans hkey)
    rw [Decoders.hot_row_of_closes hcloses] at hrow'
    cases hrow'
  have hstored : state_final (g.rows_with ((incremental_worker group hot_mints slot).lane dec
      append_vecs)) v.pubkey = state_final g.hot_token_account_state v.pubkey :=
    state_final_congr (newest_append_of_absent _ hunwritten)
  cases hprevious : state_final g.hot_token_account_state v.pubkey with
  | none =>
      -- nothing to close
      rw [hprevious] at hstored
      rw [g.state_final_import_of_kept (g.closed_row_of_not_shown hstored), hstored]
  | some previous =>
      -- its tombstone is written, with the slot of the version
      obtain ⟨candidate, hcandidate⟩ := Worker.exists_lane_closed (w := incremental_worker group
        hot_mints slot) rfl hv hcloses
      obtain ⟨⟨v', hv', -, hkey', hslot'⟩, -⟩ := Worker.lane_closed_lookup hcandidate
      obtain rfl := hcanonical v' hv' v hv hkey'
      obtain ⟨hmint, howner⟩ := hnames previous hprevious
      have hlt : previous.updated_slot < candidate := by
        rw [← hslot']
        exact hold previous (state_final_spec hprevious).2.2.mem
      have hclosed : g.closed_row ((incremental_worker group hot_mints slot).lane dec append_vecs)
          v'.pubkey = some (tombstone_row previous v'.pubkey candidate) := by
        refine Option.bind_eq_some_iff.mpr ⟨candidate, hcandidate, close_tombstone_eq_some.mpr ?_⟩
        exact ⟨previous, hstored.trans hprevious, hmint, howner, hlt, rfl⟩
      exact g.state_final_import_of_closed hclosed

/-- What `FINAL` shows of a pubkey once a version of it is imported. -/
def Decoders.shown_after (dec : Decoders) (hot_mints : Finset String) (v : AccountVersion)
    (shown : Option TokenAccountRow) : Option TokenAccountRow :=
  match dec.hot_row hot_mints v with
  | some row => some row
  | none => if dec.closes v.account then none else shown

include hcanonical hv hold in
/-- **What an import shows of a version's pubkey.** -/
theorem state_final_import
    (hnames : ∀ row, state_final g.hot_token_account_state v.pubkey = some row →
      row.mint ≠ "" ∧ row.owner ≠ "") :
    state_final (g.import_incremental ((incremental_worker group hot_mints slot).lane dec
        append_vecs) slot).hot_token_account_state v.pubkey
      = dec.shown_after hot_mints v (state_final g.hot_token_account_state v.pubkey) := by
  unfold Decoders.shown_after
  cases hrow : dec.hot_row hot_mints v with
  | some row => exact state_final_import_of_hot hcanonical hv hold hrow
  | none =>
      cases hcloses : dec.closes v.account with
      | true => exact state_final_import_of_closes hcanonical hv hold hcloses hnames
      | false =>
          refine state_final_import_of_silent fun v' hv' hkey => ?_
          obtain rfl := hcanonical v' hv' v hv hkey
          exact ⟨hrow, hcloses⟩

end Import

/-! ## Incrementals one after the other -/

/-- The filter of the extractor. -/
def should_process_append_vec_slot (minimum_append_vec_slot : Option Slot) (slot : Slot) : Bool :=
  minimum_append_vec_slot.all fun minimum_slot => slot > minimum_slot

/-- A directory, the archive the lane picks, and the storages in it. -/
structure ListedIncremental where
  listing : List IncrementalSnapshot
  candidate : IncrementalSnapshot
  append_vecs : List AppendVec
deriving DecidableEq

def canonical_empty (account : StoredAccountMeta) : Bool :=
  is_canonical_empty_account account.stored_meta.data_len account.account_meta.lamports
    account.account_meta.owner account.account_meta.executable

section Lane

variable (dec : Decoders) (group : TableGroup) (hot_mints : Finset String)

/-- A lane applies an eligible incremental, from its watermark on. -/
def ImportedGroup.apply_incremental (s : ImportedGroup) (l : ListedIncremental) :
    Option ImportedGroup :=
  if l.candidate ∈ eligible_candidates l.listing s.slot then
    s.step dec group hot_mints ⟨l.candidate.slot,
      l.append_vecs.filter fun av => should_process_append_vec_slot (some s.slot) av.slot⟩
  else none

/-- The archive is what its name says, and an account that is shown ends the
window as a token account of a hot mint, or closed. -/
structure Chain.Window (c : Chain) (s : ImportedGroup) (l : ListedIncremental) : Prop where
  holds : c.HoldsIncremental l.candidate.base_slot l.candidate.slot l.append_vecs
  shown_ends : ∀ p v, (state_final s.tables.hot_token_account_state (pubkey_string p)).isSome →
    c.last p l.candidate.slot = some v → s.slot < v.slot →
      (dec.hot_row hot_mints v).isSome ∨ canonical_empty v.account = true

variable {dec group hot_mints} {c : Chain} {s s' : ImportedGroup} {l : ListedIncremental}

/-- The versions of the AppendVecs that a filter keeps. -/
theorem mem_versions_filter {q : Slot → Bool} {append_vecs : List AppendVec} {v : AccountVersion} :
    v ∈ versions (append_vecs.filter fun av => q av.slot) ↔
      v ∈ versions append_vecs ∧ q v.slot = true := by
  simp only [versions, List.mem_flatMap, List.mem_filter, List.mem_map]
  constructor
  · rintro ⟨av, ⟨hav, hq⟩, account, haccount, rfl⟩
    exact ⟨⟨av, hav, account, haccount, rfl⟩, hq⟩
  · rintro ⟨⟨av, hav, account, haccount, rfl⟩, hq⟩
    exact ⟨av, ⟨hav, hq⟩, account, haccount, rfl⟩

/-- What the lane reads of an archive: the last versions past its watermark. -/
theorem mem_window {base m n : Slot} {append_vecs : List AppendVec}
    (hholds : c.HoldsIncremental base n append_vecs) (hbase : base ≤ m) {v : AccountVersion} :
    v ∈ versions (append_vecs.filter fun av => should_process_append_vec_slot (some m) av.slot) ↔
      m < v.slot ∧ c.last v.account.stored_meta.pubkey n = some v := by
  rw [mem_versions_filter, hholds v]
  simp only [should_process_append_vec_slot, Option.all_some, decide_eq_true_eq]
  constructor
  · rintro ⟨⟨-, hlast⟩, hslot⟩
    exact ⟨hslot, hlast⟩
  · rintro ⟨hslot, hlast⟩
    exact ⟨⟨lt_of_le_of_lt hbase hslot, hlast⟩, hslot⟩

/-- One version of each pubkey. -/
theorem canonical_of_last {n : Slot} {vs : List AccountVersion}
    (h : ∀ v ∈ vs, c.last v.account.stored_meta.pubkey n = some v) : Canonical vs := by
  intro v hv v' hv' hkey
  have hsame : v.account.stored_meta.pubkey = v'.account.stored_meta.pubkey :=
    pubkey_string_inj hkey
  have hlast := h v hv
  rw [hsame, h v' hv'] at hlast
  exact (Option.some.inj hlast).symm

/-- What a step of the lane is. -/
theorem apply_incremental_spec (h : s.apply_incremental dec group hot_mints l = some s') :
    l.candidate.base_slot ≤ s.slot ∧ s.slot < l.candidate.slot ∧
      s' = ⟨s.tables.import_incremental
        ((incremental_worker group hot_mints l.candidate.slot).lane dec
        (l.append_vecs.filter fun av => should_process_append_vec_slot (some s.slot) av.slot))
          l.candidate.slot, l.candidate.slot⟩ := by
  unfold ImportedGroup.apply_incremental at h
  split at h
  · next hmem =>
      obtain ⟨-, hbase, hlt⟩ := mem_eligible_candidates.mp hmem
      simp only [ImportedGroup.step, if_pos hlt, Option.some.injEq] at h
      exact ⟨hbase, hlt, h.symm⟩
  · cases h

/-- A row that is shown names its mint and owner. -/
theorem Chain.Tracks.names {state : List TokenAccountRow} {m : Slot} {omitted : Pubkey → Prop}
    (h : c.Tracks dec hot_mints state m omitted) {pubkey : String} {row : TokenAccountRow}
    (hshown : state_final state pubkey = some row) : row.mint ≠ "" ∧ row.owner ≠ "" := by
  obtain ⟨p, -, hlive⟩ := h.shown_live pubkey row hshown
  obtain ⟨v, -, hrow⟩ := Option.bind_eq_some_iff.mp hlive
  exact (Decoders.hot_row_spec hrow).2.2.2

/-- **One window.** -/
theorem Chain.Tracks.apply_incremental {omitted : Pubkey → Prop}
    (hs : c.Tracks dec hot_mints s.tables.hot_token_account_state s.slot omitted)
    (hwindow : c.Window dec hot_mints s l)
    (h : s.apply_incremental dec group hot_mints l = some s') :
    s.slot ≤ s'.slot ∧ c.Tracks dec hot_mints s'.tables.hot_token_account_state s'.slot fun p =>
      omitted p ∧ c.last p s'.slot = c.last p s.slot := by
  obtain ⟨hbase, hlt, rfl⟩ := apply_incremental_spec h
  dsimp only
  have hmem : ∀ v, v ∈ versions (l.append_vecs.filter fun av =>
      should_process_append_vec_slot (some s.slot) av.slot) ↔
        s.slot < v.slot ∧ c.last v.account.stored_meta.pubkey l.candidate.slot = some v :=
    fun v => mem_window hwindow.holds hbase
  have hcanonical := canonical_of_last (c := c) fun v hv => ((hmem v).mp hv).2
  have hold : ∀ v ∈ versions (l.append_vecs.filter fun av =>
      should_process_append_vec_slot (some s.slot) av.slot),
        ∀ row ∈ s.tables.hot_token_account_state, row.updated_slot < v.slot :=
    fun v hv row hrow => lt_of_le_of_lt (hs.slots row hrow) ((hmem v).mp hv).1
  -- a pubkey that is not written in the window shows what it showed
  have hkept : ∀ p, (∀ v, c.last p l.candidate.slot = some v → v.slot ≤ s.slot) →
      ∀ v ∈ versions (l.append_vecs.filter fun av =>
        should_process_append_vec_slot (some s.slot) av.slot), v.pubkey ≠ pubkey_string p := by
    intro p hp v hv hkey
    obtain ⟨hslot, hlast⟩ := (hmem v).mp hv
    rw [pubkey_string_inj hkey] at hlast
    exact absurd hslot (not_lt.mpr (hp v hlast))
  -- one that is shows its last version
  have hwritten : ∀ p v, c.last p l.candidate.slot = some v → s.slot < v.slot →
      state_final (s.tables.import_incremental ((incremental_worker group hot_mints
          l.candidate.slot).lane dec (l.append_vecs.filter fun av =>
            should_process_append_vec_slot (some s.slot) av.slot))
          l.candidate.slot).hot_token_account_state (pubkey_string p)
        = dec.hot_row hot_mints v := by
    intro p v hlast hslot
    have hp := last_pubkey hlast
    subst hp
    have hv := (hmem v).mpr ⟨hslot, hlast⟩
    change state_final _ v.pubkey = _
    rw [state_final_import hcanonical hv (hold v hv) fun row hshown => hs.names hshown,
      Decoders.shown_after]
    cases hrow : dec.hot_row hot_mints v with
    | some row => rfl
    | none =>
        dsimp only
        split
        · rfl
        · next hcloses =>
            rw [← Option.not_isSome_iff_eq_none]
            intro hshown
            rcases hwindow.shown_ends _ v hshown hlast hslot with hhot | hempty
            · rw [hrow] at hhot
              cases hhot
            · exact hcloses (Decoders.closes_of_canonical_empty hempty)
  refine ⟨hlt.le, fun pubkey row hshown => ?_, fun p row hlive => ?_, fun row hrow => ?_⟩
  · by_cases hv : ∃ v ∈ versions (l.append_vecs.filter fun av =>
        should_process_append_vec_slot (some s.slot) av.slot), v.pubkey = pubkey
    · obtain ⟨v, hv, rfl⟩ := hv
      obtain ⟨hslot, hlast⟩ := (hmem v).mp hv
      refine ⟨_, rfl, ?_⟩
      rw [Chain.live_row, hlast, Option.bind_some, ← hwritten _ v hlast hslot]
      exact hshown
    · have hnone : ∀ v ∈ versions (l.append_vecs.filter fun av =>
          should_process_append_vec_slot (some s.slot) av.slot), v.pubkey ≠ pubkey :=
        fun v hmem hkey => hv ⟨v, hmem, hkey⟩
      rw [state_final_import_of_silent fun v hv hkey => absurd hkey (hnone v hv)] at hshown
      obtain ⟨p, rfl, hlive⟩ := hs.shown_live pubkey row hshown
      refine ⟨p, rfl, ?_⟩
      rw [Chain.live_row, last_eq_of_unwritten hlt.le fun v hlast => ?_]
      · exact hlive
      · by_contra hslot
        have hp := last_pubkey hlast
        subst hp
        exact hnone v ((hmem v).mpr ⟨not_le.mp hslot, hlast⟩) rfl
  · obtain ⟨v, hlast, hrow⟩ := Option.bind_eq_some_iff.mp hlive
    by_cases hslot : s.slot < v.slot
    · exact .inl ((hwritten p v hlast hslot).trans hrow)
    · have hunwritten : ∀ v, c.last p l.candidate.slot = some v → v.slot ≤ s.slot := by
        intro v' hlast'
        rw [hlast] at hlast'
        obtain rfl := Option.some.inj hlast'
        exact not_lt.mp hslot
      have hsame := last_eq_of_unwritten hlt.le hunwritten
      rw [state_final_import_of_silent fun v hv hkey => absurd hkey (hkept p hunwritten v hv)]
      rw [Chain.live_row, hsame] at hlive
      rcases hs.live_shown p row hlive with hshown | ⟨hhidden, hzero, homitted⟩
      · exact .inl hshown
      · exact .inr ⟨hhidden, hzero, homitted, hsame⟩
  · exact state_import_slots (fun row hrow => (hs.slots row hrow).trans hlt.le)
      (fun v hv => (last_spec ((hmem v).mp hv).2).2) row hrow

variable (dec group hot_mints c)

/-- **The table tracks the chain.** After any run of incrementals `FINAL` shows
exactly the hot token accounts live at the watermark, up to accounts of amount 0
that the baseline omitted and that were not written since. -/
theorem state_tracks_chain (base : ImportedGroup) (labels : List ListedIncremental)
    (s : ImportedGroup)
    (hbase : c.Tracks dec hot_mints base.tables.hot_token_account_state base.slot fun _ => True)
    (hwindows : Lts.Along (ImportedGroup.apply_incremental dec group hot_mints)
      (c.Window dec hot_mints) base labels)
    (hrun : Lts.run (ImportedGroup.apply_incremental dec group hot_mints) base labels = some s) :
    c.Tracks dec hot_mints s.tables.hot_token_account_state s.slot fun p =>
      state_final base.tables.hot_token_account_state (pubkey_string p) = none ∧
        c.last p s.slot = c.last p base.slot := by
  -- the accounts that the base does not show yet are the exceptions of the start
  have hstart : c.Tracks dec hot_mints base.tables.hot_token_account_state base.slot fun p =>
      state_final base.tables.hot_token_account_state (pubkey_string p) = none ∧
        c.last p base.slot = c.last p base.slot :=
    { hbase with
      live_shown := fun p row hlive => by
        rcases hbase.live_shown p row hlive with hshown | ⟨hhidden, hzero, -⟩
        · exact .inl hshown
        · exact .inr ⟨hhidden, hzero, hhidden, rfl⟩ }
  -- each archive tracks the chain to its own slot, with the same exceptions or fewer
  refine Lts.invariant_along (P := fun s => c.Tracks dec hot_mints
    s.tables.hot_token_account_state s.slot fun p =>
      state_final base.tables.hot_token_account_state (pubkey_string p) = none ∧
        c.last p s.slot = c.last p base.slot) ?_ hstart hwindows hrun
  intro s l s' hs hwindow h
  have hnext := (hs.apply_incremental hwindow h).2
  exact
    { hnext with
      live_shown := fun p row hlive => by
        rcases hnext.live_shown p row hlive with hshown | ⟨hhidden, hzero, ⟨hbase, hsame⟩, hlast⟩
        · exact .inl hshown
        · exact .inr ⟨hhidden, hzero, hbase, hlast.trans hsame⟩ }

end Lane

/-! ## A chain of finitely many versions -/

/-- The chain some versions make, the first one of a pubkey and slot counting. -/
def Chain.of_versions (vs : List AccountVersion) : Chain where
  written p s := (vs.find? fun v => v.account.stored_meta.pubkey = p && v.slot = s).map fun v =>
    v.account
  written_pubkey p s account h := by
    obtain ⟨v, hv, rfl⟩ := Option.map_eq_some_iff.mp h
    have hfound := List.find?_some hv
    simp only [Bool.and_eq_true, decide_eq_true_eq] at hfound
    exact hfound.1

/-- The last version of a list is in it. -/
theorem Chain.mem_of_last {vs : List AccountVersion} {p : Pubkey} {m : Slot} {v : AccountVersion}
    (h : (of_versions vs).last p m = some v) : v ∈ vs := by
  obtain ⟨v', hfound, heq⟩ := Option.map_eq_some_iff.mp (last_spec h).1
  have hslot := List.find?_some hfound
  simp only [Bool.and_eq_true, decide_eq_true_eq] at hslot
  have hsame : v' = v := by
    obtain ⟨slot', account'⟩ := v'
    obtain ⟨slot, account⟩ := v
    simp_all
  exact hsame ▸ List.mem_of_find?_eq_some hfound

/-- Over finitely many versions an archive can be checked. -/
theorem Chain.holds_of_versions {vs : List AccountVersion} {base slot : Slot}
    {append_vecs : List AppendVec}
    (hin : ∀ v ∈ versions append_vecs,
      base < v.slot ∧ (of_versions vs).last v.account.stored_meta.pubkey slot = some v)
    (hall : ∀ v ∈ vs, base < v.slot →
      (of_versions vs).last v.account.stored_meta.pubkey slot = some v → v ∈ versions append_vecs) :
    (of_versions vs).HoldsIncremental base slot append_vecs :=
  fun v => ⟨hin v, fun ⟨hslot, hlast⟩ => hall v (mem_of_last hlast) hslot hlast⟩

/-- And a table. -/
theorem Chain.tracks_of_versions {vs : List AccountVersion} {dec : Decoders}
    {hot_mints : Finset String} {state : List TokenAccountRow} {m : Slot}
    (hrows : ∀ row ∈ state, ∃ v ∈ vs, row.pubkey = v.pubkey ∧
      (of_versions vs).live_row dec hot_mints v.account.stored_meta.pubkey m = some row)
    (hshown : ∀ v ∈ vs, (of_versions vs).last v.account.stored_meta.pubkey m = some v →
      state_final state v.pubkey = dec.hot_row hot_mints v)
    (hslots : ∀ row ∈ state, row.updated_slot ≤ m) :
    (of_versions vs).Tracks dec hot_mints state m fun _ => True where
  shown_live pubkey row h := by
    have hnewest := (state_final_spec h).2.2
    obtain ⟨v, -, hkey, hlive⟩ := hrows row hnewest.mem
    exact ⟨_, hnewest.key_eq.symm.trans hkey, hlive⟩
  live_shown p row h := by
    obtain ⟨v, hlast, hrow⟩ := Option.bind_eq_some_iff.mp h
    have hp := last_pubkey hlast
    subst hp
    exact .inl ((hshown v (mem_of_last hlast) hlast).trans hrow)
  slots := hslots

/-- Account 1 is opened with 5 and closed, account 2 opened with 3. -/
def close_and_open : List AccountVersion := [⟨1, holding 1 5⟩, ⟨2, closed 1⟩, ⟨3, holding 2 3⟩]

def close_and_open_base : ImportedGroup :=
  .full .amount_only .Active {pubkey_string (.of_be 7)} ⟨1, [⟨1, 0, 0, [holding 1 5]⟩]⟩

def close_and_open_incremental : ListedIncremental :=
  ⟨[⟨"inc", 1, 3⟩], ⟨"inc", 1, 3⟩, [⟨2, 0, 0, [closed 1]⟩, ⟨3, 0, 0, [holding 2 3]⟩]⟩

theorem close_and_open_base_tracks : (Chain.of_versions close_and_open).Tracks .amount_only
    {pubkey_string (.of_be 7)} close_and_open_base.tables.hot_token_account_state
    close_and_open_base.slot fun _ => True :=
  Chain.tracks_of_versions (by decide +kernel) (by decide +kernel) (by decide +kernel)

theorem state_tracks_close_and_open : ∃ s,
    Lts.run (ImportedGroup.apply_incremental .amount_only .Active {pubkey_string (.of_be 7)})
        close_and_open_base [close_and_open_incremental] = some s ∧
      s.slot = 3 ∧ (Chain.of_versions close_and_open).Tracks .amount_only
        {pubkey_string (.of_be 7)} s.tables.hot_token_account_state s.slot fun p =>
          state_final close_and_open_base.tables.hot_token_account_state (pubkey_string p) = none ∧
            (Chain.of_versions close_and_open).last p s.slot
              = (Chain.of_versions close_and_open).last p close_and_open_base.slot := by
  have hrun : (Lts.run (ImportedGroup.apply_incremental .amount_only .Active
      {pubkey_string (.of_be 7)}) close_and_open_base [close_and_open_incremental]).map
        ImportedGroup.slot = some 3 := by decide +kernel
  obtain ⟨s, hs, hslot⟩ := Option.map_eq_some_iff.mp hrun
  have hwindow : (Chain.of_versions close_and_open).Window .amount_only {pubkey_string (.of_be 7)}
      close_and_open_base close_and_open_incremental := by
    refine ⟨Chain.holds_of_versions (by decide +kernel) (by decide +kernel), ?_⟩
    intro p v _ hlast hv
    have hends : ∀ v ∈ close_and_open, close_and_open_base.slot < v.slot →
        (Decoders.hot_row .amount_only {pubkey_string (.of_be 7)} v).isSome ∨
          canonical_empty v.account = true := by decide +kernel
    exact hends v (Chain.mem_of_last hlast) hv
  exact ⟨s, hs, hslot, state_tracks_chain _ _ _ _ _ _ s close_and_open_base_tracks
    (Lts.along_single hwindow) hs⟩

end SnapshotEtl
