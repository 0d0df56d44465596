/-
The slot a watcher without a journal resumes from.

It is read off the rows: the greatest `updated_slot` of `raw_account`, less the
rewind. A row is dated by the archive it came in, so the first row an import
commits moves that slot to the end of its archive, long before the rest of the
archive is in. The rewind is a constant and the archives' spans are not. So the
slot is sound exactly where nothing that the last import was given lies at or
below it, apart from what was stored before.
-/
import SnapshotEtl.CrashRetry
import SnapshotEtl.TokenAccounts
import SnapshotEtl.Watermark
import SnapshotEtl.Watcher.Loop

set_option autoImplicit false

namespace SnapshotEtl

open Watcher

/-! ## The slot -/

/-- `SELECT coalesce(max(updated_slot), 0)`. -/
def max_updated_slot (rows : List AccountRow) : Slot :=
  (rows.map AccountRow.updated_slot).foldr max 0

def Group.max_raw_account_updated_slot (g : Group) : Slot := max_updated_slot g.raw_account

/-- The journal a process starts with when it goes by the rows: without a journal
it rewinds, under `--bootstrap` it does not. -/
def initial_state (args : Args) (max_updated_slot : Slot) : WatcherState :=
  if args.bootstrap then .bootstrap_preserving_active max_updated_slot
  else .recovered_active_only
    (resume_slot_from_max_updated_slot max_updated_slot args.resume_slot_rewind)

/-- Its watermark. -/
def initial_slot (args : Args) (max_updated_slot : Slot) : Slot :=
  if args.bootstrap then max_updated_slot
  else resume_slot_from_max_updated_slot max_updated_slot args.resume_slot_rewind

/-- The first state puts active at the initial slot. -/
theorem initial_state_max_slot (args : Args) (slot : Slot) :
    (initial_state args slot).active.max_slot = some (initial_slot args slot) := by
  unfold initial_state initial_slot
  split <;> rfl

/-- It is the journal that the start writes once the rows have answered. -/
theorem start_writes_initial_state (state_path : String) (args : Args) (slot : Slot) :
    ∃ read written,
      read (some slot) = .call (.persist_watcher_state (initial_state args slot)) written ∧
      if args.bootstrap then
        initial_watcher_state state_path args () = .call .max_raw_account_updated_slot read
      else ∃ loaded, initial_watcher_state state_path args () = .call .load_watcher_state loaded ∧
        loaded (some none) = .call .max_raw_account_updated_slot read := by
  obtain ⟨bootstrap, rewind⟩ := args
  cases bootstrap with
  | true => exact ⟨_, _, rfl, rfl⟩
  | false => exact ⟨_, _, rfl, _, rfl, rfl⟩

/-- No row is newer than the greatest slot of the table. -/
theorem le_max_updated_slot {rows : List AccountRow} {row : AccountRow} (h : row ∈ rows) :
    row.updated_slot ≤ max_updated_slot rows := by
  induction rows with
  | nil => cases h
  | cons first rows ih =>
      rcases List.mem_cons.mp h with rfl | h
      · exact le_max_left _ _
      · exact (ih h).trans (le_max_right _ _)

/-- A bound of all the rows bounds the greatest slot. -/
theorem max_updated_slot_le {rows : List AccountRow} {slot : Slot}
    (h : ∀ row ∈ rows, row.updated_slot ≤ slot) : max_updated_slot rows ≤ slot := by
  induction rows with
  | nil => exact Nat.zero_le slot
  | cons first rows ih =>
      refine max_le (h first (by simp)) (ih fun row hrow => h row (by simp [hrow]))

/-- Later rows of one slot move it there. -/
theorem max_updated_slot_append {rows later : List AccountRow} {slot : Slot}
    (hlater : ∀ row ∈ later, row.updated_slot = slot) (hne : later ≠ []) :
    max_updated_slot (rows ++ later) = max (max_updated_slot rows) slot := by
  obtain ⟨last, hlast⟩ := List.exists_mem_of_ne_nil later hne
  refine le_antisymm (max_updated_slot_le fun row hrow => ?_) (max_le ?_ ?_)
  · rcases List.mem_append.mp hrow with hrow | hrow
    · exact (le_max_updated_slot hrow).trans (le_max_left _ _)
    · rw [hlater row hrow]
      exact le_max_right _ _
  · exact max_updated_slot_le fun row hrow => le_max_updated_slot (List.mem_append_left _ hrow)
  · rw [← hlater last hlast]
    exact le_max_updated_slot (List.mem_append_right _ hlast)

/-! ## Imports into active -/

/-- An import into the active group: its archive as the extractor delivers it, from
above the slot it resumes from. -/
structure ActiveImport where
  kind : SnapshotKind
  slot : Slot
  hot_mints : Finset String
  archive : List Delivery

/-- The rows for `raw_account` among those of a sink. -/
def account_rows (rows : List Row) : List AccountRow :=
  rows.filterMap fun
    | .account row => some row
    | _ => none

theorem mem_account_rows {rows : List Row} {row : AccountRow} :
    row ∈ account_rows rows ↔ .account row ∈ rows := by
  unfold account_rows
  rw [List.mem_filterMap]
  constructor
  · rintro ⟨r, hr, heq⟩
    cases r with
    | account r =>
        obtain rfl := Option.some.inj heq
        exact hr
    | _ => cases heq
  · intro h
    exact ⟨_, h, rfl⟩

namespace ActiveImport

variable (dec : Decoders) (i : ActiveImport)

def worker : Worker := .new .Active i.kind i.slot i.hot_mints

def lane : LaneState := i.worker.lane dec (delivered (stream_of i.archive))

/-- The versions its archive holds for it, whether they can be read or not. -/
def given : List AccountVersion := versions (to_deliver i.archive)

/-- The rows it writes of a version. -/
def rows_of (v : AccountVersion) : List Row :=
  rows_sent .Active (i.worker.insert_account dec v.account v.slot)

/-- Its rows for `raw_account` all have the archive's slot. -/
theorem account_rows_slot {row : AccountRow} (h : row ∈ account_rows (i.lane dec).rows) :
    row.updated_slot = i.slot := by
  rw [mem_account_rows, lane, Worker.rows_lane] at h
  obtain ⟨av, -, h⟩ := List.mem_flatMap.mp h
  obtain ⟨account, -, h⟩ := List.mem_flatMap.mp h
  obtain ⟨op, hop, h⟩ := List.mem_flatMap.mp h
  have hwrites := i.worker.writes_insert_account dec account av.slot op hop
  -- the only row for `raw_account` is the account's own
  cases op with
  | count c => cases h
  | lane group op =>
      cases op with
      | write r =>
          have hrow : r = .account row := by
            by_cases hg : group = i.worker.group
            · simpa [ImportOp.rows, hg, eq_comm] using h
            · simp [ImportOp.rows, hg] at h
          rcases hwrites.2 r rfl with heq | htable | htable
          · rw [hrow] at heq
            rw [Row.account.inj heq]
            rfl
          · rw [hrow] at htable
            cases htable
          · rw [hrow] at htable
            cases htable
      | _ => cases h

end ActiveImport

/-! ## Histories -/

/-- The active tables, and the imports into them since they were last emptied. -/
structure ActiveGroup where
  tables : Group
  imports : List ActiveImport

/-- The tables after a full import that stopped: part of its rows, or all of them
and part of the merged metadata. -/
def Group.after_full_crash (lane : LaneState) (snapshot_slot : Slot) : CrashPoint lane → Group
  | .stream rows _ => Group.truncated.insert_all rows
  | .metadata committed | .tombstones committed | .balances committed =>
      { Group.truncated.insert_all lane.rows with
        raw_token_metadata := (Group.truncated.insert_all lane.rows).raw_token_metadata ++
          (write_merged_metadata_patches (Group.truncated.insert_all lane.rows).raw_token_metadata
            lane.metadata_patches false snapshot_slot).take committed }

namespace ActiveGroup

variable (dec : Decoders)

def empty : ActiveGroup := ⟨.truncated, []⟩

/-- What an import finds: a full one has the tables emptied. -/
def before (s : ActiveGroup) (i : ActiveImport) : ActiveGroup :=
  match i.kind with
  | .Full => empty
  | .Incremental => s

/-- A completed import. -/
def complete (s : ActiveGroup) (i : ActiveImport) : ActiveGroup where
  tables := match i.kind with
    | .Full => .import_full (i.lane dec) i.slot
    | .Incremental => s.tables.import_incremental (i.lane dec) i.slot
  imports := (s.before i).imports ++ [i]

/-- The tables an import leaves that stopped at some point. -/
def interrupted (s : ActiveGroup) (i : ActiveImport) (crash : CrashPoint (i.lane dec)) : Group :=
  match i.kind with
  | .Full => .after_full_crash (i.lane dec) i.slot crash
  | .Incremental => s.tables.after_crash (i.lane dec) i.slot crash

def history (completed : List ActiveImport) : ActiveGroup :=
  completed.foldl (ActiveGroup.complete dec) empty

/-- The tables the last import can leave: it is interrupted at any point, or
completed. -/
inductive Leaves (s : ActiveGroup) (last : ActiveImport) : Group → Prop
  | interrupted (crash : CrashPoint (last.lane dec)) : Leaves s last (s.interrupted dec last crash)
  | completed : Leaves s last (s.complete dec last).tables

end ActiveGroup

/-- The import it came with, or one that was given it too, has written all of the
version. -/
def Saved (dec : Decoders) (imports : List ActiveImport) (rows : Multiset Row)
    (v : AccountVersion) : Prop :=
  ∃ i ∈ imports, v ∈ i.given ∧ ∀ row ∈ i.rows_of dec v, row ∈ rows

/-- What is saved stays saved while rows are added. -/
theorem Saved.mono {dec : Decoders} {imports : List ActiveImport} {rows rows' : Multiset Row}
    {v : AccountVersion} (h : Saved dec imports rows v) (hrows : ∀ row ∈ rows, row ∈ rows') :
    Saved dec imports rows' v := by
  obtain ⟨i, hi, hgiven, hwritten⟩ := h
  exact ⟨i, hi, hgiven, fun row hrow => hrows row (hwritten row hrow)⟩

/-- The slot the watcher starts from leaves no gap: what the archives hold at or
below it is in the tables. -/
def Sound (dec : Decoders) (args : Args) (imports : List ActiveImport) (g : Group) : Prop :=
  ∀ slot, (initial_state args g.max_raw_account_updated_slot).active.max_slot = some slot →
    ∀ i ∈ imports, ∀ v ∈ i.given, v.slot ≤ slot → Saved dec imports g.rows v

/-! ## Tables an import leaves -/

/-- The same rows of `raw_account`, and of the other tables those there were. -/
structure Group.Extends (g g' : Group) : Prop where
  accounts : g'.raw_account = g.raw_account
  rows : g.rows ≤ g'.rows

namespace Group.Extends

variable {g g' g'' : Group}

theorem refl (g : Group) : g.Extends g := ⟨rfl, le_refl _⟩

/-- Extensions compose. -/
theorem trans (h : g.Extends g') (h' : g'.Extends g'') : g.Extends g'' :=
  ⟨h'.accounts.trans h.accounts, h.rows.trans h'.rows⟩

theorem metadata (g : Group) (rows : List TokenMetadataRow) :
    g.Extends { g with raw_token_metadata := g.raw_token_metadata ++ rows } := by
  refine ⟨rfl, ?_⟩
  simp only [Group.rows, List.map_append, ← Multiset.coe_add]
  exact add_le_add_right (Multiset.le_add_right _ _) _

theorem state (g : Group) (rows : List TokenAccountRow) :
    g.Extends { g with hot_token_account_state := g.hot_token_account_state ++ rows } := by
  refine ⟨rfl, ?_⟩
  simp only [Group.rows, List.map_append, ← Multiset.coe_add]
  gcongr
  exact Multiset.le_add_right _ _

theorem balances (g : Group) (rows : List WalletBalanceRow) :
    g.Extends { g with hot_wallet_token_balance := rows } := ⟨rfl, le_refl _⟩

end Group.Extends

/-- Inserted rows end up behind the account rows that were there. -/
theorem Group.insert_all_accounts (g : Group) (rows : List Row) :
    (g.insert_all rows).raw_account = g.raw_account ++ account_rows rows := by
  induction rows generalizing g with
  | nil => simp [insert_all, account_rows]
  | cons row rows ih =>
      change ((g.insert row).insert_all rows).raw_account = _
      rw [ih]
      cases row <;> simp [insert, account_rows]

namespace ActiveGroup

variable {dec : Decoders} {s : ActiveGroup} {last : ActiveImport} {g : Group}

/-- What is left goes back to some rows of the import's, stored in what it found. -/
theorem Leaves.extends (h : s.Leaves dec last g) : ∃ rows : List Row,
    (∀ row ∈ rows, row ∈ (last.lane dec).rows) ∧
      ((s.before last).tables.insert_all rows).Extends g := by
  obtain ⟨kind, slot, hot_mints, archive⟩ := last
  cases h with
  -- after its rows a full writes metadata and balances, an incremental tombstones between
  -- them
  | completed =>
      refine ⟨_, fun _ hrow => hrow, ?_⟩
      cases kind with
      | Full => exact (Group.Extends.metadata _ _).trans (.balances _ _)
      | Incremental =>
          exact (Group.Extends.metadata _ _).trans ((Group.Extends.state _ _).trans (.balances _ _))
  -- a crash cuts this off at one of its writes
  | interrupted crash =>
      cases kind with
      | Full =>
          cases crash with
          | stream rows hrows =>
              exact ⟨rows, fun _ hrow => Multiset.mem_of_le hrows hrow, .refl _⟩
          | metadata committed => exact ⟨_, fun _ hrow => hrow, .metadata _ _⟩
          | tombstones committed => exact ⟨_, fun _ hrow => hrow, .metadata _ _⟩
          | balances committed => exact ⟨_, fun _ hrow => hrow, .metadata _ _⟩
      | Incremental =>
          cases crash with
          | stream rows hrows =>
              exact ⟨rows, fun _ hrow => Multiset.mem_of_le hrows hrow, .refl _⟩
          | metadata committed => exact ⟨_, fun _ hrow => hrow, .metadata _ _⟩
          | tombstones committed =>
              exact ⟨_, fun _ hrow => hrow, (Group.Extends.metadata _ _).trans (.state _ _)⟩
          | balances committed =>
              exact ⟨_, fun _ hrow => hrow,
                (Group.Extends.metadata _ _).trans
                  ((Group.Extends.state _ _).trans (.balances _ _))⟩

/-- Any part of its rows can be all that is left. -/
theorem leaves_stream (rows : List Row) (h : (rows : Multiset Row) ≤ (last.lane dec).rows) :
    s.Leaves dec last ((s.before last).tables.insert_all rows) := by
  obtain ⟨kind, slot, hot_mints, archive⟩ := last
  cases kind with
  | Full => exact .interrupted (.stream rows h)
  | Incremental => exact .interrupted (.stream rows h)

end ActiveGroup

/-! ## When the slot is sound -/

/-- What the imports of a history were given at or below the slot the rows before
the last import lead to is in the tables then; and, if the last import adds to
`raw_account`, so is what they were given at or below the slot its archive leads to,
but for a row it adds. -/
structure StoredBefore (dec : Decoders) (args : Args) (s : ActiveGroup) (last : ActiveImport) :
    Prop where
  before : ∀ i ∈ s.imports ++ [last], ∀ v ∈ i.given,
    v.slot ≤ initial_slot args s.tables.max_raw_account_updated_slot →
    Saved dec (s.imports ++ [last]) s.tables.rows v
  begun : ∀ row ∈ account_rows (last.lane dec).rows, ∀ i ∈ s.imports ++ [last], ∀ v ∈ i.given,
    v.slot ≤ initial_slot args (max s.tables.max_raw_account_updated_slot last.slot) →
    Saved dec (s.imports ++ [last]) (s.tables.rows + {.account row}) v

section sound

variable {dec : Decoders} {args : Args} {s : ActiveGroup} {last : ActiveImport} {g : Group}

/-- Some rows of the import's move the slot to its archive's. -/
theorem max_updated_slot_begun {rows : List Row} (hrows : ∀ row ∈ rows, row ∈ (last.lane dec).rows)
    (hne : account_rows rows ≠ []) :
    (s.tables.insert_all rows).max_raw_account_updated_slot =
      max s.tables.max_raw_account_updated_slot last.slot := by
  unfold Group.max_raw_account_updated_slot
  rw [Group.insert_all_accounts]
  refine max_updated_slot_append (fun row hrow => last.account_rows_slot dec ?_) hne
  rw [mem_account_rows] at hrow ⊢
  exact hrows _ hrow

/-- If everything before the last import was stored, what the last one leaves is sound. -/
theorem StoredBefore.sound (h : StoredBefore dec args (s.before last) last)
    (hleaves : s.Leaves dec last g) :
    Sound dec args ((s.before last).imports ++ [last]) g := by
  obtain ⟨rows, hrows, haccounts, hextends⟩ := hleaves.extends
  have hmax : g.max_raw_account_updated_slot =
      ((s.before last).tables.insert_all rows).max_raw_account_updated_slot :=
    congrArg max_updated_slot haccounts
  rw [Group.rows_insert_all] at hextends
  intro slot hslot i hi v hv hle
  rw [initial_state_max_slot, hmax] at hslot
  obtain rfl := Option.some.inj hslot
  have hkept : ∀ row ∈ (s.before last).tables.rows, row ∈ g.rows := fun row hrow =>
    Multiset.mem_of_le hextends (Multiset.mem_add.mpr (.inl hrow))
  by_cases hne : account_rows rows = []
  · -- no row of the import's dates the slot
    unfold Group.max_raw_account_updated_slot at hle
    rw [Group.insert_all_accounts, hne, List.append_nil] at hle
    exact (h.before i hi v hv hle).mono hkept
  -- a row of the import dates the slot, so everything up to it was there
  · obtain ⟨row, hrow⟩ := List.exists_mem_of_ne_nil _ hne
    rw [mem_account_rows] at hrow
    rw [max_updated_slot_begun hrows hne] at hle
    have hsaved := h.begun row (mem_account_rows.mpr (hrows _ hrow)) i hi v hv hle
    refine hsaved.mono fun r hr => ?_
    rcases Multiset.mem_add.mp hr with hr | hr
    · exact hkept r hr
    · obtain rfl := Multiset.mem_singleton.mp hr
      exact Multiset.mem_of_le hextends (Multiset.mem_add.mpr (.inr hrow))

/-- The two points that matter are the one before its first row of `raw_account` and
the one right after it. -/
theorem storedBefore_of_sound (h : ∀ g, s.Leaves dec last g →
    Sound dec args ((s.before last).imports ++ [last]) g) :
    StoredBefore dec args (s.before last) last := by
  constructor
  · intro i hi v hv hle
    have hsound := h _ (ActiveGroup.leaves_stream [] (Multiset.zero_le _))
    exact hsound _ (initial_state_max_slot args _) i hi v hv hle
  · intro row hrow i hi v hv hle
    have hin : ∀ r ∈ [Row.account row], r ∈ (last.lane dec).rows := by
      intro r hr
      rw [List.mem_singleton.mp hr]
      exact mem_account_rows.mp hrow
    have hsound := h _ (ActiveGroup.leaves_stream [.account row]
      (Multiset.singleton_le.mpr (hin _ (List.mem_singleton_self _))))
    have hmax : ((s.before last).tables.insert_all [.account row]).max_raw_account_updated_slot =
        max (s.before last).tables.max_raw_account_updated_slot last.slot :=
      max_updated_slot_begun hin (by simp [account_rows])
    rw [← hmax] at hle
    have hsaved := hsound _ (initial_state_max_slot args _) i hi v hv hle
    rw [Group.rows_insert_all] at hsaved
    exact hsaved

end sound

/-- **The slot read off the rows is sound, however far the last import came, exactly
where everything at or below it was stored before.** The journal with that slot is the
one the start writes (`start_writes_initial_state`). -/
theorem resume_slot_sound_iff (dec : Decoders) (args : Args) (completed : List ActiveImport)
    (last : ActiveImport) :
    (∀ g, (ActiveGroup.history dec completed).Leaves dec last g →
      Sound dec args (((ActiveGroup.history dec completed).before last).imports ++ [last]) g) ↔
      StoredBefore dec args ((ActiveGroup.history dec completed).before last) last :=
  ⟨storedBefore_of_sound, fun h _ hleaves => h.sound hleaves⟩

/-- A storage with one account of the system program. -/
def account_at (slot : Slot) (key : ℕ) : AppendVec where
  slot := slot
  id := 0
  len := 136
  accounts := [⟨⟨0, .of_be key⟩, ⟨1, .default, false⟩, []⟩]

/-- An incremental at slot 5000 whose storages are of the slots 4990 and 20. -/
def long_incremental : ActiveImport :=
  ⟨.Incremental, 5000, ∅, [.ok (account_at 4990 2), .ok (account_at 20 3)]⟩

/-- A full at slot 10 is in. -/
def completed_full : ActiveGroup :=
  .history .accept_nothing [⟨.Full, 10, ∅, [.ok (account_at 10 1)]⟩]

/-- The incremental stops after the first of its two rows; the account of slot 20 is
not in, and the watcher starts from slot 4000. -/
theorem resume_slot_past_unwritten : ∃ g,
    completed_full.Leaves .accept_nothing long_incremental g ∧
      (initial_state ⟨false, DEFAULT_RESUME_SLOT_REWIND⟩
        g.max_raw_account_updated_slot).active.max_slot = some 4000 ∧
      ¬ Sound .accept_nothing ⟨false, DEFAULT_RESUME_SLOT_REWIND⟩
        (completed_full.imports ++ [long_incremental]) g := by
  have hslot : (initial_state ⟨false, DEFAULT_RESUME_SLOT_REWIND⟩
      (completed_full.tables.insert_all ((long_incremental.lane .accept_nothing).rows.take
        1)).max_raw_account_updated_slot).active.max_slot = some 4000 := by
    decide +kernel
  refine ⟨_, ActiveGroup.leaves_stream ((long_incremental.lane .accept_nothing).rows.take 1)
    (List.take_sublist _ _).subperm, hslot, fun hsound => ?_⟩
  have hsaved := hsound 4000 hslot long_incremental (by simp)
    ⟨20, ⟨⟨0, .of_be 3⟩, ⟨1, .default, false⟩, []⟩⟩ (by decide +kernel) (by decide)
  revert hsaved
  unfold Saved
  decide +kernel

end SnapshotEtl
