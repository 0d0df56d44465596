/-
The zero balances a full build leaves out.

A full build writes no row of a token account without balance, and an incremental writes
them all. The group then differs from one built with these rows for good: where such an
account is closed there is no row to write a tombstone of, and no pair to refresh. What
readers see is the same in both. `Settled` makes each of the two tables right on its own,
whatever pairs its refreshes take together, and `Similar` keeps the two in step: a pubkey
has the same last row in both, or none where the other has one that counts for nothing.
Each of the two is merged as it comes, but so that tombstones are kept before the rows
they hide (`KeepsTombstones`): only then does a pair that one group refreshes and the
other does not keep its balance.
-/
import SnapshotEtl.Merges
import SnapshotEtl.TombstonePass

set_option autoImplicit false

namespace SnapshotEtl

open Lib Replacing

/-! ## One window -/

section Window

variable {g : Group} {lane : LaneState} {slot : Slot}

/-- What a window may hold for a table: rows newer than everything stored, of a pubkey all
in one pair, which is the one of its live row. -/
structure FitsWindow (g : Group) (lane : LaneState) : Prop where
  newer : ∀ row ∈ token_account_rows lane.rows, ∀ stored ∈ g.hot_token_account_state,
    stored.updated_slot ≤ row.updated_slot
  one_pair : ∀ row ∈ token_account_rows lane.rows, ∀ row' ∈ token_account_rows lane.rows,
    row.pubkey = row'.pubkey → row.pair = row'.pair
  kept : ∀ row ∈ token_account_rows lane.rows, ∀ before,
    state_final g.hot_token_account_state row.pubkey = some before → row.pair = before.pair
  affected : ∀ row ∈ token_account_rows lane.rows, row.pair ∈ lane.affected_pairs

/-- The token-account rows an incremental adds: those of its lane, then its tombstones. -/
def Group.rows_added (g : Group) (lane : LaneState) : List TokenAccountRow :=
  token_account_rows lane.rows ++ (g.insert_all lane.rows).tombstones lane

/-- A pubkey an import has rows of. -/
def Touched (g : Group) (lane : LaneState) (pubkey : String) : Prop :=
  ∃ row ∈ g.rows_added lane, row.pubkey = pubkey

/-- What an import writes of a pubkey is in one pair, which it refreshes; the last row is
there, and so is the live row before. -/
structure InPair (g : Group) (lane : LaneState) (slot : Slot) (pubkey : String)
    (pair : TokenPair) : Prop where
  written : ∀ row ∈ g.rows_added lane, row.pubkey = pubkey → row.pair = pair
  last : ∀ n, token_account_engine.newest
    (g.import_incremental lane slot).hot_token_account_state pubkey = some n → n.pair = pair
  before : ∀ n, token_account_engine.newest g.hot_token_account_state pubkey = some n →
    n.is_deleted = 0 → n.pair = pair
  refreshed : pair ∈ lane.affected_pairs
    ∪ tombstone_pairs ((g.insert_all lane.rows).tombstones lane)

/-- The L2 rows after an incremental are the old ones and the added ones. -/
theorem state_after_import : (g.import_incremental lane slot).hot_token_account_state
    = g.hot_token_account_state ++ g.rows_added lane := by
  rw [Group.import_incremental_state, List.append_assoc, Group.rows_added]

/-- A pubkey that is not touched keeps what it has. -/
theorem newest_untouched {pubkey : String} (h : ¬ Touched g lane pubkey) :
    token_account_engine.newest (g.import_incremental lane slot).hot_token_account_state pubkey
      = token_account_engine.newest g.hot_token_account_state pubkey := by
  rw [state_after_import]
  refine newest_append_of_absent _ ?_
  intro row hrow hkey
  exact h ⟨row, hrow, hkey⟩

/-- An account without an added row in the pairs keeps its latest row there. -/
theorem latest_in_import {pubkey : String} {pairs : Finset TokenPair}
    (h : ∀ row ∈ g.rows_added lane, row.pubkey = pubkey → row.pair ∉ pairs) :
    latest_in (g.import_incremental lane slot).hot_token_account_state pairs pubkey
      = latest_in g.hot_token_account_state pairs pubkey := by
  rw [latest_in, state_after_import, List.filter_append, latest_in]
  refine newest_append_of_absent _ ?_
  intro row hrow hkey
  obtain ⟨hmem, hpair⟩ := List.mem_filter.mp hrow
  exact h row hmem hkey (by simpa using hpair)

/-- Whatever an import writes is at least as new as what was stored of its pubkey. -/
theorem FitsWindow.written_newer (h : FitsWindow g lane) :
    ∀ row ∈ g.rows_added lane, ∀ stored ∈ g.hot_token_account_state,
      stored.pubkey = row.pubkey → stored.updated_slot ≤ row.updated_slot := by
  intro row hrow stored hstored hkey
  rcases List.mem_append.mp hrow with hlive | htomb
  · exact h.newer row hlive stored hstored
  · have hnewer := tombstone_newer htomb
    rw [Group.insert_all_state] at hnewer
    exact (hnewer stored (List.mem_append_left _ hstored) hkey).le

/-- The pair of a tombstone is that of the live row it closes. -/
theorem tombstone_pair {row : TokenAccountRow}
    (h : row ∈ (g.insert_all lane.rows).tombstones lane) :
    ∃ previous, state_final (g.insert_all lane.rows).hot_token_account_state row.pubkey
      = some previous ∧ row.pair = previous.pair := by
  obtain ⟨candidate, -, hrow⟩ := mem_tombstones.mp h
  obtain ⟨previous, hprevious, -, -, -, hrow⟩ := close_tombstone_eq_some.mp hrow
  refine ⟨previous, hprevious, ?_⟩
  rw [hrow]
  rfl

/-- After the rows of the window, the last row of a pubkey it has is the last of them. -/
theorem FitsWindow.newest_stored (h : FitsWindow g lane) {row : TokenAccountRow}
    (hrow : row ∈ token_account_rows lane.rows) :
    token_account_engine.newest (g.rows_with lane) row.pubkey
      = token_account_engine.newest (token_account_rows lane.rows) row.pubkey := by
  obtain ⟨n, hn⟩ := exists_newest token_account_engine hrow
  have hn' : token_account_engine.newest (token_account_rows lane.rows) row.pubkey = some n := hn
  -- the rows of the window are newer than what is stored, so they decide
  rw [hn']
  refine newest_append_of_newer _ hn' ?_
  intro stored hstored _
  exact h.newer n (newest_spec _ hn').mem stored hstored

/-- **What a window does to a pubkey.** -/
theorem FitsWindow.inPair (h : FitsWindow g lane) {pubkey : String}
    (htouched : Touched g lane pubkey) :
    ∃ pair, InPair g lane slot pubkey pair := by
  -- the last row after the import is one it wrote: nothing stored is newer
  have hlast : ∀ pair, (∀ row ∈ g.rows_added lane, row.pubkey = pubkey → row.pair = pair) →
      ∀ n, token_account_engine.newest
        (g.import_incremental lane slot).hot_token_account_state pubkey = some n →
          n.pair = pair := by
    intro pair hwritten n hn
    have hkey : n.pubkey = pubkey := (newest_spec _ hn).key_eq
    rw [state_after_import] at hn
    have hmem := mem_of_newest_append _ hn htouched fun row hrow hrowkey stored hstored hkey' =>
      h.written_newer row hrow stored hstored (Eq.trans hkey' (Eq.symm hrowkey))
    exact hwritten n hmem hkey
  by_cases hstored : ∃ row ∈ token_account_rows lane.rows, row.pubkey = pubkey
  · -- the window has a live row of it, and a tombstone is of such a row
    obtain ⟨row, hrow, hkey⟩ := hstored
    subst hkey
    have hwritten : ∀ other ∈ g.rows_added lane, other.pubkey = row.pubkey →
          other.pair = row.pair := by
      intro other hother hsame
      rcases List.mem_append.mp hother with hlive | htomb
      · exact h.one_pair other hlive row hrow hsame
      · obtain ⟨previous, hprevious, hpair⟩ := tombstone_pair htomb
        have hsaid := (state_final_spec hprevious).1
        rw [hsame, Group.rows_with_eq, h.newest_stored hrow] at hsaid
        have hspec := newest_spec _ hsaid
        rw [hpair]
        exact h.one_pair previous hspec.mem row hrow hspec.key_eq
    refine ⟨row.pair, hwritten, hlast _ hwritten, ?_, Finset.mem_union_left _ (h.affected row hrow)⟩
    intro n hn hopen
    refine (h.kept row hrow n ?_).symm
    rw [state_final, hn, Option.filter_some, if_pos (by simpa using hopen)]
  · -- it is closed only: its live row is the one stored
    obtain ⟨tombstone, hmem, hkey⟩ := htouched
    subst hkey
    have htomb := (List.mem_append.mp hmem).resolve_left fun hrow => hstored ⟨_, hrow, rfl⟩
    have hwritten : ∀ other ∈ g.rows_added lane, other.pubkey = tombstone.pubkey →
          other.pair = tombstone.pair := by
      intro other hother hsame
      rcases List.mem_append.mp hother with hlive | htomb'
      · exact absurd ⟨other, hlive, hsame⟩ hstored
      · rw [tombstone_unique htomb' htomb hsame]
    refine ⟨tombstone.pair, hwritten, hlast _ hwritten, ?_, ?_⟩
    · intro n hn _
      obtain ⟨previous, hprevious, hpair⟩ := tombstone_pair htomb
      have hsaid := (state_final_spec hprevious).1
      rw [Group.insert_all_state, newest_append_of_absent _ fun row hrow hsame =>
        hstored ⟨row, hrow, hsame⟩, hn, Option.some.injEq] at hsaid
      rw [hpair, hsaid]
    · exact Finset.mem_union_right _ (List.mem_toFinset.mpr (List.mem_map_of_mem htomb))

/-- The import keeps the table settled. -/
theorem Settled.import_incremental (hsettled : Settled g.hot_token_account_state)
    (h : FitsWindow g lane) :
    Settled (g.import_incremental lane slot).hot_token_account_state := by
  intro pubkey n hn left hleft r hr
  by_cases htouched : Touched g lane pubkey
  · obtain ⟨pair, hin⟩ : ∃ pair, InPair g lane slot pubkey pair := h.inPair htouched
    have hne : pair ≠ left := by
      rw [← hin.last n hn]
      exact hleft
    -- nothing new is in the pair that was left
    have hsame : latest_in (g.import_incremental lane slot).hot_token_account_state {left} pubkey
        = latest_in g.hot_token_account_state {left} pubkey := by
      apply latest_in_import
      intro row hrow hkey
      rw [hin.written row hrow hkey, Finset.mem_singleton]
      exact hne
    rw [hsame] at hr
    obtain ⟨before, hbefore⟩ := newest_of_latest hr
    by_cases hold : before.pair = left
    · -- its last row was in the pair, so it was not live
      have hlatest : latest_in g.hot_token_account_state {left} pubkey = some before :=
        newest_filter _ _ hbefore (by simpa using hold)
      rw [hlatest, Option.some.injEq] at hr
      rw [← hr]
      intro hopen
      exact hne ((hin.before before hbefore hopen).symm.trans hold)
    · exact hsettled pubkey before hbefore left hold r hr
  · rw [newest_untouched htouched] at hn
    have hsame : latest_in (g.import_incremental lane slot).hot_token_account_state {left} pubkey
        = latest_in g.hot_token_account_state {left} pubkey := by
      apply latest_in_import
      intro row hrow hkey
      exact absurd ⟨row, hrow, hkey⟩ htouched
    rw [hsame] at hr
    exact hsettled pubkey n hn left hleft r hr

/-- What a pubkey adds to a pair that is not refreshed stays. -/
theorem amount_kept (h : FitsWindow g lane) {pair : TokenPair}
    (hpair : pair ∉ lane.affected_pairs
      ∪ tombstone_pairs ((g.insert_all lane.rows).tombstones lane))
    (pubkey : String) :
    amount_in (token_account_engine.newest
        (g.import_incremental lane slot).hot_token_account_state pubkey) pair
      = amount_in (token_account_engine.newest g.hot_token_account_state pubkey) pair := by
  by_cases htouched : Touched g lane pubkey
  -- the account is in another pair, before the import and after it
  · obtain ⟨other, hin⟩ : ∃ other, InPair g lane slot pubkey other := h.inPair htouched
    have hne : other ≠ pair := by
      intro heq
      rw [← heq] at hpair
      exact hpair hin.refreshed
    have hafter : amount_in (token_account_engine.newest
        (g.import_incremental lane slot).hot_token_account_state pubkey) pair = 0 := by
      cases hn : token_account_engine.newest
          (g.import_incremental lane slot).hot_token_account_state pubkey with
      | none => rfl
      | some n =>
          by_contra hcount
          exact hne ((hin.last n hn).symm.trans (counts_of_amount_in hcount).2)
    have hbefore : amount_in (token_account_engine.newest g.hot_token_account_state pubkey) pair
        = 0 := by
      cases hn : token_account_engine.newest g.hot_token_account_state pubkey with
      | none => rfl
      | some n =>
          by_contra hcount
          obtain ⟨hopen, hsame⟩ := counts_of_amount_in hcount
          exact hne ((hin.before n hn hopen).symm.trans hsame)
    rw [hafter, hbefore]
  · rw [newest_untouched htouched]

/-- An import keeps the balances, where merges keep the tombstones. -/
theorem balanced_of_settled {merges : StateMerges} (hbalanced : g.Balanced)
    (hsettled : Settled g.hot_token_account_state) (h : FitsWindow g lane)
    (hkeeps : KeepsTombstones (g.import_incremental lane slot).hot_token_account_state
      (g.import_merged lane slot merges).hot_token_account_state)
    (hslots : ∀ row ∈ g.hot_wallet_token_balance, row.updated_slot ≤ slot) :
    (g.import_merged lane slot merges).Balanced :=
  (hbalanced.import_merged_iff hslots fun _ hpair pubkey => amount_kept h hpair pubkey).mpr
    (nothing_stale_of_keeps (hsettled.import_incremental h) hkeeps)

end Window

/-! ## The two runs -/

/-- An archive, and the mints that are hot when its import starts. -/
structure HotImport where
  hot_mints : Finset String
  archive : Archive

section Runs

variable (dec : Decoders) (group : TableGroup)

/-- The hot token accounts of an archive. -/
def HotImport.hot_rows (i : HotImport) : List TokenAccountRow :=
  i.archive.versions.filterMap (dec.hot_row i.hot_mints)

/-- A full build under a policy for token accounts without balance. -/
def full_under (policy : ZeroBalanceTokenAccountPolicy) (i : HotImport) : ImportedGroup :=
  ⟨.import_full
    (({ Worker.new group .Full i.archive.slot i.hot_mints with
        zero_balance_token_account_policy := policy } : Worker).lane dec i.archive.append_vecs)
    i.archive.slot, i.archive.slot⟩

/-- An incremental, over either build, and the merges of its group. -/
def import_step (s : ImportedGroup) (i : HotImport × StateMerges) : Option ImportedGroup :=
  s.step_merged dec group i.1.hot_mints (i.1.archive, i.2)

def incremental_lane (i : HotImport) : LaneState :=
  (incremental_worker group i.hot_mints i.archive.slot).lane dec i.archive.append_vecs

variable {dec group}

/-- The rows a full build stores. -/
theorem full_under_state (policy : ZeroBalanceTokenAccountPolicy) (i : HotImport) :
    (full_under dec group policy i).tables.hot_token_account_state
      = (i.hot_rows dec).filter fun row => policy.writes_live_amount row.amount := by
  rw [full_under, import_full_state, Worker.lane_token_account_rows, HotImport.hot_rows,
    List.filter_filterMap]
  rfl

/-- An incremental stores them all. -/
theorem incremental_rows (i : HotImport) :
    token_account_rows (incremental_lane dec group i).rows = i.hot_rows dec := by
  rw [incremental_lane, Worker.lane_token_account_rows, HotImport.hot_rows]
  exact List.filterMap_congr fun v _ => incremental_written_row v

/-- One import of a twin: its slot is later, and the tables are those of the import with its
merges. -/
theorem import_step_eq_some {s s' : ImportedGroup} {i : HotImport × StateMerges} :
    import_step dec group s i = some s' ↔ s.slot < i.1.archive.slot ∧
      s' = ⟨s.tables.import_merged (incremental_lane dec group i.1) i.1.archive.slot i.2,
        i.1.archive.slot⟩ :=
  ImportedGroup.step_merged_eq_some

variable (dec group) in
/-- The merges of an import keep the tombstones there are. -/
def MergesKeep (s : ImportedGroup) (i : HotImport × StateMerges) : Prop :=
  KeepsTombstones
    (s.tables.import_incremental (incremental_lane dec group i.1)
      i.1.archive.slot).hot_token_account_state
    (s.tables.import_merged (incremental_lane dec group i.1) i.1.archive.slot
      i.2).hot_token_account_state

/-- A group whose balances are right, and stay right. -/
structure Steady (s : ImportedGroup) : Prop where
  state_slots : ∀ row ∈ s.tables.hot_token_account_state, row.updated_slot ≤ s.slot
  balance_slots : ∀ row ∈ s.tables.hot_wallet_token_balance, row.updated_slot ≤ s.slot
  settled : Settled s.tables.hot_token_account_state
  balanced : s.tables.Balanced

/-- The full archive: nothing after its slot, and one hot token account of a pubkey. -/
structure FullArchive (dec : Decoders) (full : HotImport) : Prop where
  slots : ∀ v ∈ full.archive.versions, v.slot ≤ full.archive.slot
  canonical : ((full.hot_rows dec).map TokenAccountRow.pubkey).Nodup

/-- A window on a group: versions from after the last archive up to this one's slot, whose
hot token accounts are, for one pubkey, all of one pair, the one of its live row. -/
structure Admitted (dec : Decoders) (s : ImportedGroup) (i : HotImport) : Prop where
  window : ∀ v ∈ i.archive.versions, s.slot < v.slot ∧ v.slot ≤ i.archive.slot
  one_pair : ∀ row ∈ i.hot_rows dec, ∀ row' ∈ i.hot_rows dec, row.pubkey = row'.pubkey →
    row.pair = row'.pair
  kept : ∀ row ∈ i.hot_rows dec, ∀ before,
    state_final s.tables.hot_token_account_state row.pubkey = some before → row.pair = before.pair

/-- A hot row is live and of the slot of a version. -/
theorem hot_rows_spec {i : HotImport} {row : TokenAccountRow} (h : row ∈ i.hot_rows dec) :
    row.is_deleted = 0 ∧ ∃ v ∈ i.archive.versions, row.updated_slot = v.slot := by
  obtain ⟨v, hv, hrow⟩ := List.mem_filterMap.mp h
  obtain ⟨-, hslot, hlive, -, -⟩ := Decoders.hot_row_spec hrow
  exact ⟨hlive, v, hv, hslot⟩

/-- The balances of a full build are of slots of its accounts. -/
theorem full_under_balance_slots {full : HotImport}
    (h : ∀ v ∈ full.archive.versions, v.slot ≤ full.archive.slot)
    (policy : ZeroBalanceTokenAccountPolicy) :
    ∀ row ∈ (full_under dec group policy full).tables.hot_wallet_token_balance,
      row.updated_slot ≤ full.archive.slot := by
  intro row hrow
  refine (mem_wallet_balance_rows hrow).2 _ ?_
  intro r hr
  have hmem : r ∈ (full_under dec group policy full).tables.hot_token_account_state := hr
  rw [full_under_state] at hmem
  obtain ⟨-, v, hv, hslot⟩ := hot_rows_spec (List.mem_of_mem_filter hmem)
  rw [hslot]
  exact h v hv

/-- A full build of such an archive is steady, whatever it leaves out. -/
theorem steady_full {full : HotImport} (h : FullArchive dec full)
    (policy : ZeroBalanceTokenAccountPolicy) : Steady (full_under dec group policy full) := by
  -- of each pubkey the full has one row
  have hnodup : ((full_under dec group policy full).tables.hot_token_account_state.map
      TokenAccountRow.pubkey).Nodup := by
    rw [full_under_state]
    exact (List.filter_sublist.map _).nodup h.canonical
  have hrow : ∀ row ∈ (full_under dec group policy full).tables.hot_token_account_state,
      row.is_deleted = 0 ∧ row.updated_slot ≤ full.archive.slot := by
    intro row hrow
    rw [full_under_state] at hrow
    obtain ⟨hlive, v, hv, hslot⟩ := hot_rows_spec (List.mem_of_mem_filter hrow)
    rw [hslot]
    exact ⟨hlive, h.slots v hv⟩
  have hbalance : (full_under dec group policy full).tables.hot_wallet_token_balance
      = wallet_balance_rows (full_under dec group policy full).tables.hot_token_account_state := rfl
  constructor
  · intro row hmem
    exact (hrow row hmem).2
  · exact full_under_balance_slots h.slots policy
  · -- a pubkey has one row, so none in a pair it has left
    intro pubkey n hn left hleft r hr
    obtain ⟨hmem, hkey, hin, -⟩ := latest_in_spec hr
    have hspec := newest_spec _ hn
    have hsame := List.inj_on_of_nodup_map hnodup hmem hspec.mem (hkey.trans (Eq.symm hspec.key_eq))
    rw [hsame, Finset.mem_singleton] at hin
    exact absurd hin hleft
  · intro pair
    rw [hbalance, balance_final_wallet_balance_rows,
      final_rows_of_nodup hnodup fun row hmem => (hrow row hmem).1]

/-- An admitted import fits the window of a steady state. -/
theorem fitsWindow {s : ImportedGroup} {i : HotImport} (hs : Steady s) (h : Admitted dec s i) :
    FitsWindow s.tables (incremental_lane dec group i) := by
  constructor
  · intro row hrow stored hstored
    rw [incremental_rows] at hrow
    obtain ⟨-, v, hv, hslot⟩ := hot_rows_spec hrow
    rw [hslot]
    exact (hs.state_slots stored hstored).trans (h.window v hv).1.le
  · rw [incremental_rows]
    exact h.one_pair
  · rw [incremental_rows]
    exact h.kept
  · intro row hrow
    exact incremental_row_affected hrow

/-- An admitted window keeps a group steady, under merges that keep the tombstones. -/
theorem Steady.step {s s' : ImportedGroup} {i : HotImport × StateMerges} (hs : Steady s)
    (h : Admitted dec s i.1) (hkeeps : MergesKeep dec group s i)
    (hstep : import_step dec group s i = some s') : Steady s' := by
  obtain ⟨hlater, hs'⟩ := import_step_eq_some.mp hstep
  subst hs'
  have hfits : FitsWindow s.tables (incremental_lane dec group i.1) := fitsWindow hs h
  have hold : ∀ row ∈ s.tables.hot_wallet_token_balance, row.updated_slot ≤ i.1.archive.slot :=
    fun row hrow => (hs.balance_slots row hrow).trans hlater.le
  constructor
  · intro row hrow
    -- a stored row was there, was written, or is a tombstone
    rcases mem_import_incremental_state.mp
        ((Group.merged_import s.tables _ _ i.2).sublist.subset hrow) with hstored | hlive | htomb
    · exact (hs.state_slots row hstored).trans hlater.le
    · rw [incremental_rows] at hlive
      obtain ⟨-, v, hv, hslot⟩ := hot_rows_spec hlive
      rw [hslot]
      exact (h.window v hv).2
    · obtain ⟨v, hv, -, -, hslot⟩ := incremental_tombstone htomb
      rw [← hslot]
      exact (h.window v hv).2
  · intro row hrow
    rw [Group.import_merged_balance] at hrow
    rcases List.mem_append.mp hrow with hstored | hnew
    · exact hold row hstored
    · exact (mem_refresh_wallet_balance.mp hnew).2.2.le
  · exact (hs.settled.import_incremental hfits).of_merged (Group.merged_import ..) hkeeps
  · exact balanced_of_settled hs.balanced hs.settled hfits hkeeps hold

/-! ## Side by side -/

/-- A last row that counts for nothing. -/
def Unseen (row : Option TokenAccountRow) : Prop :=
  ∀ r, row = some r → r.is_deleted ≠ 0 ∨ r.amount = 0

/-- The group that keeps the accounts without balance, and the one that leaves them out. -/
structure Similar (retained omitted : ImportedGroup) : Prop where
  slot : omitted.slot = retained.slot
  newest : ∀ pubkey,
    token_account_engine.newest omitted.tables.hot_token_account_state pubkey
      = token_account_engine.newest retained.tables.hot_token_account_state pubkey ∨
    token_account_engine.newest omitted.tables.hot_token_account_state pubkey = none ∧
      Unseen (token_account_engine.newest retained.tables.hot_token_account_state pubkey)

/-- The live row of a pubkey in the one group is that in the other. -/
theorem Similar.state_final {retained omitted : ImportedGroup} (h : Similar retained omitted)
    {pubkey : String} {row : TokenAccountRow}
    (hrow : state_final omitted.tables.hot_token_account_state pubkey = some row) :
    SnapshotEtl.state_final retained.tables.hot_token_account_state pubkey = some row := by
  rcases h.newest pubkey with hsame | ⟨hnone, -⟩
  · rw [← state_final_congr hsame]
    exact hrow
  · rw [SnapshotEtl.state_final, hnone] at hrow
    cases hrow

/-- What is admitted on the one is on the other. -/
theorem Similar.admitted {retained omitted : ImportedGroup} (h : Similar retained omitted)
    {i : HotImport} (hi : Admitted dec retained i) : Admitted dec omitted i := by
  constructor
  · rw [h.slot]
    exact hi.window
  · exact hi.one_pair
  · intro row hrow before hbefore
    exact hi.kept row hrow before (h.state_final hbefore)

/-- The two full builds. -/
theorem similar_full {full : HotImport} (h : FullArchive dec full) :
    Similar (full_under dec group .Retain full)
      (full_under dec group .ExcludeFromFullBaseline full) := by
  refine ⟨rfl, ?_⟩
  intro pubkey
  have hretained : (full_under dec group .Retain full).tables.hot_token_account_state
      = full.hot_rows dec := by
    rw [full_under_state, List.filter_eq_self]
    intro row _
    simp [ZeroBalanceTokenAccountPolicy.writes_live_amount]
  rw [hretained, full_under_state]
  cases hrow : token_account_engine.newest (full.hot_rows dec) pubkey with
  | none =>
      left
      rw [newest_eq_none] at hrow ⊢
      intro row hmem
      exact hrow row (List.mem_of_mem_filter hmem)
  | some row =>
      by_cases hzero : row.amount = 0
      · -- the only row of the pubkey is left out
        right
        refine ⟨?_, fun r hr => ?_⟩
        · rw [newest_eq_none]
          intro other hother hkey
          obtain ⟨hmem, hkept⟩ := List.mem_filter.mp hother
          have hspec := newest_spec _ hrow
          have hsame := List.inj_on_of_nodup_map h.canonical hmem hspec.mem
            (Eq.trans hkey (Eq.symm hspec.key_eq))
          rw [hsame, hzero] at hkept
          exact absurd hkept (by decide)
        · rw [← Option.some.inj hr]
          exact .inr hzero
      · left
        refine newest_filter _ _ hrow ?_
        simp [ZeroBalanceTokenAccountPolicy.writes_live_amount, Nat.pos_of_ne_zero hzero]

/-- Windows keep the two groups in step, however each is merged. -/
theorem Similar.step {retained omitted retained' : ImportedGroup} {i : HotImport}
    {merges merges' : StateMerges} (h : Similar retained omitted) (hretained : Steady retained)
    (homitted : Steady omitted) (hi : Admitted dec retained i)
    (hstep : import_step dec group retained (i, merges) = some retained') :
    ∃ omitted', import_step dec group omitted (i, merges') = some omitted' ∧
      Similar retained' omitted' := by
  obtain ⟨hlater, hretained'⟩ := import_step_eq_some.mp hstep
  subst hretained'
  refine ⟨_, import_step_eq_some.mpr ⟨?_, rfl⟩, rfl, ?_⟩
  · rw [h.slot]
    exact hlater
  dsimp only
  intro pubkey
  -- both groups go through the same lane, so only the row before it can differ
  rw [(Group.merged_import omitted.tables _ _ merges').newest,
    (Group.merged_import retained.tables _ _ merges).newest, Group.newest_import,
    Group.newest_import]
  by_cases hrow : ∃ row ∈ token_account_rows (incremental_lane dec group i).rows,
      row.pubkey = pubkey
  · -- a row of the window is last in both
    left
    obtain ⟨row, hrow, hkey⟩ := hrow
    have hsame : token_account_engine.newest
        (omitted.tables.rows_with (incremental_lane dec group i)) pubkey
          = token_account_engine.newest
            (retained.tables.rows_with (incremental_lane dec group i)) pubkey := by
      rw [← hkey, (fitsWindow homitted (h.admitted hi)).newest_stored hrow,
        (fitsWindow hretained hi).newest_stored hrow]
    rw [Group.closed_row_congr hsame, hsame]
  · have habsent : ∀ row ∈ token_account_rows (incremental_lane dec group i).rows,
        row.pubkey ≠ pubkey := fun row hmem hkey => hrow ⟨row, hmem, hkey⟩
    have homit : token_account_engine.newest
        (omitted.tables.rows_with (incremental_lane dec group i)) pubkey
          = token_account_engine.newest omitted.tables.hot_token_account_state pubkey :=
      newest_append_of_absent _ habsent
    have hretain : token_account_engine.newest
        (retained.tables.rows_with (incremental_lane dec group i)) pubkey
          = token_account_engine.newest retained.tables.hot_token_account_state pubkey :=
      newest_append_of_absent _ habsent
    rcases h.newest pubkey with hsame | ⟨hnone, hunseen⟩
    · left
      have hsame' := homit.trans (hsame.trans hretain.symm)
      rw [Group.closed_row_congr hsame', hsame']
    · -- nothing to close in the one, and what is closed in the other was not seen
      right
      have hkept : omitted.tables.closed_row (incremental_lane dec group i) pubkey = none := by
        apply Group.closed_row_of_not_shown
        rw [SnapshotEtl.state_final, homit, hnone]
        rfl
      rw [hkept, homit, hnone, hretain]
      refine ⟨rfl, ?_⟩
      intro r hr
      rcases Option.or_eq_some_iff.mp hr with htomb | ⟨-, hstored⟩
      · left
        rw [Group.closed_row_is_deleted _ htomb]
        exact Nat.one_ne_zero
      · exact hunseen r hstored

/-- What readers see of balances and of accounts that hold something. -/
structure SeenAlike (g g' : Group) : Prop where
  balance : ∀ pair, balance_final g.hot_wallet_token_balance pair
    = balance_final g'.hot_wallet_token_balance pair
  live : ((final_rows g.hot_token_account_state).filter fun row => 0 < row.amount).Perm
    ((final_rows g'.hot_token_account_state).filter fun row => 0 < row.amount)

/-- An account that is not shown counts nothing. -/
theorem amount_of_unseen {row : Option TokenAccountRow} (h : Unseen row) (pair : TokenPair) :
    amount_in row pair = 0 := by
  cases row with
  | none => rfl
  | some r =>
      rcases h r rfl with hdeleted | hzero
      · by_contra hcount
        exact hdeleted (counts_of_amount_in hcount).1
      · rw [amount_in, hzero, ite_self]

/-- Similar groups are seen alike, once both are steady. -/
theorem Similar.seenAlike {retained omitted : ImportedGroup} (h : Similar retained omitted)
    (hretained : Steady retained) (homitted : Steady omitted) :
    SeenAlike omitted.tables retained.tables := by
  constructor
  · -- the tables hold different pubkeys: add up over those of both
    intro pair
    have hleft : pubkeys omitted.tables.hot_token_account_state
        ⊆ pubkeys omitted.tables.hot_token_account_state
          ∪ pubkeys retained.tables.hot_token_account_state := Finset.subset_union_left
    have hright : pubkeys retained.tables.hot_token_account_state
        ⊆ pubkeys omitted.tables.hot_token_account_state
          ∪ pubkeys retained.tables.hot_token_account_state := Finset.subset_union_right
    rw [homitted.balanced pair, hretained.balanced pair, wallet_balance_over hleft,
      wallet_balance_over hright]
    congr 1
    refine Finset.sum_congr rfl ?_
    intro pubkey _
    rcases h.newest pubkey with hsame | ⟨hnone, hunseen⟩
    · rw [hsame]
    · rw [hnone, amount_of_unseen hunseen]
      rfl
  -- the live rows with an amount: the rows that only one group has carry none
  · rw [List.perm_ext_iff_of_nodup ((final_rows_nodup _).filter _) ((final_rows_nodup _).filter _)]
    intro row
    rw [List.mem_filter, List.mem_filter, mem_final_rows, mem_final_rows, decide_eq_true_eq]
    constructor
    · intro hrow
      exact ⟨h.state_final hrow.1, hrow.2⟩
    · intro hrow
      obtain ⟨hfinal, hpositive⟩ := hrow
      refine ⟨?_, hpositive⟩
      rcases h.newest row.pubkey with hsame | ⟨-, hunseen⟩
      · rw [state_final_congr hsame]
        exact hfinal
      · obtain ⟨hnewest, hlive, -⟩ := state_final_spec hfinal
        rcases hunseen row hnewest with hdeleted | hzero
        · exact absurd hlive hdeleted
        · rw [hzero] at hpositive
          exact absurd hpositive (lt_irrefl 0)

/-- An incremental for both groups, each of which is merged in its own way. -/
structure TwinImport where
  hot_import : HotImport
  retained_merges : StateMerges
  omitted_merges : StateMerges

variable (dec group)

def retaining_step (s : ImportedGroup) (i : TwinImport) : Option ImportedGroup :=
  import_step dec group s (i.hot_import, i.retained_merges)

def omitting_step (s : ImportedGroup) (i : TwinImport) : Option ImportedGroup :=
  import_step dec group s (i.hot_import, i.omitted_merges)

/-- What the group with the empty accounts asks of a step. -/
structure Retains (s : ImportedGroup) (i : TwinImport) : Prop where
  admitted : Admitted dec s i.hot_import
  keep : MergesKeep dec group s (i.hot_import, i.retained_merges)

/-- And the one without them. -/
def Omits (s : ImportedGroup) (i : TwinImport) : Prop :=
  MergesKeep dec group s (i.hot_import, i.omitted_merges)

/-- **Zero balances need not be in the baseline.** Over a full archive with one hot token
account of a pubkey, windows in which a pubkey stays in one pair, and merges that keep
tombstones before the rows they hide, the group built without the empty accounts shows after
every import what the group built with them shows. -/
theorem zero_balances_unobservable (full : HotImport) (incrementals : List TwinImport)
    (retained : ImportedGroup) (hfull : FullArchive dec full)
    (hretains : Lts.Along (retaining_step dec group) (Retains dec group)
      (full_under dec group .Retain full) incrementals)
    (homits : Lts.Along (omitting_step dec group) (Omits dec group)
      (full_under dec group .ExcludeFromFullBaseline full) incrementals)
    (hrun : Lts.run (retaining_step dec group) (full_under dec group .Retain full) incrementals
      = some retained) :
    ∃ omitted, Lts.run (omitting_step dec group)
        (full_under dec group .ExcludeFromFullBaseline full) incrementals = some omitted ∧
      SeenAlike omitted.tables retained.tables := by
  -- the relation of the two runs: each is steady, and they are in step
  have hsteps : ∀ (s t : ImportedGroup) (i : TwinImport) (s' : ImportedGroup),
      (Steady s ∧ Steady t ∧ Similar s t) → Retains dec group s i → Omits dec group t i →
        retaining_step dec group s i = some s' →
          ∃ t', omitting_step dec group t i = some t' ∧ Steady s' ∧ Steady t' ∧ Similar s' t' := by
    intro s t i s' hrel hi hkeeps hstep
    obtain ⟨hs, ht, hsimilar⟩ := hrel
    obtain ⟨t', ht', hsimilar'⟩ := hsimilar.step hs ht hi.admitted hstep
    exact ⟨t', ht', hs.step hi.admitted hi.keep hstep,
      ht.step (hsimilar.admitted hi.admitted) hkeeps ht', hsimilar'⟩
  obtain ⟨omitted, homitted, hs, ht, hsimilar⟩ := Lts.simulation_along hsteps
    ⟨steady_full hfull .Retain, steady_full hfull .ExcludeFromFullBaseline, similar_full hfull⟩
    hretains homits hrun
  exact ⟨omitted, homitted, hsimilar.seenAlike hs ht⟩

end Runs

/-- An archive for one hot mint. -/
def archive_of (slot : Slot) (append_vecs : List AppendVec) : HotImport :=
  ⟨{pubkey_string (.of_be 7)}, ⟨slot, append_vecs⟩⟩

instance (dec : Decoders) (s : ImportedGroup) (i : HotImport) : Decidable (Admitted dec s i) :=
  decidable_of_iff
    ((∀ v ∈ i.archive.versions, s.slot < v.slot ∧ v.slot ≤ i.archive.slot) ∧
      (∀ row ∈ i.hot_rows dec, ∀ row' ∈ i.hot_rows dec, row.pubkey = row'.pubkey →
        row.pair = row'.pair) ∧
      ∀ row ∈ i.hot_rows dec, ∀ before ∈ state_final s.tables.hot_token_account_state row.pubkey,
        row.pair = before.pair)
    ⟨fun h => ⟨h.1, h.2.1, h.2.2⟩, fun h => ⟨h.window, h.one_pair, h.kept⟩⟩

/-- Account 1 is empty, and account 2 is not. -/
def with_empty_and_held : HotImport :=
  archive_of 1 [⟨1, 0, 0, [token_of 1 0 8, token_of 2 4 8]⟩]

instance (state merged : List TokenAccountRow) : Decidable (KeepsTombstones state merged) :=
  decidable_of_iff
    (∀ row ∈ merged, ∀ t ∈ latest_in state {row.pair} row.pubkey, t.is_deleted ≠ 0 →
      ∀ r ∈ latest_in merged {row.pair} row.pubkey, r.is_deleted ≠ 0)
    ⟨fun h pubkey pair t ht hdeleted r hr => by
      obtain ⟨hmem, hkey, hin, -⟩ := latest_in_spec hr
      have hpair : r.pair = pair := by simpa using hin
      rw [← hkey, ← hpair] at ht hr
      exact h r hmem t ht hdeleted r hr,
    fun h row _ t ht hdeleted r hr => h row.pubkey row.pair t ht hdeleted r hr⟩

instance (dec : Decoders) (group : TableGroup) (s : ImportedGroup) (i : HotImport × StateMerges) :
    Decidable (MergesKeep dec group s i) := by
  unfold MergesKeep
  infer_instance

/-- Account 1 is closed, and opened again under another owner when account 2 is emptied. The
group with the empty account 1 drops its row for the tombstone, the other one drops the first
row of account 2. -/
def closed_and_reopened : List TwinImport :=
  [⟨archive_of 5 [storage 4 (closed 1)], .none, .none⟩,
    ⟨archive_of 7 [storage 6 (token_of 1 3 9), storage 7 (token_of 2 0 8)], ⟨[⟨0, 3⟩], [], []⟩,
      ⟨[], [], [⟨0, 3⟩]⟩⟩]

theorem zero_balances_of_reopened : ∃ retained omitted,
    Lts.run (retaining_step .amount_and_owner .Active)
        (full_under .amount_and_owner .Active .Retain with_empty_and_held) closed_and_reopened
      = some retained ∧
    Lts.run (omitting_step .amount_and_owner .Active)
        (full_under .amount_and_owner .Active .ExcludeFromFullBaseline with_empty_and_held)
        closed_and_reopened = some omitted ∧
      SeenAlike omitted.tables retained.tables := by
  have hrun : (Lts.run (retaining_step .amount_and_owner .Active)
      (full_under .amount_and_owner .Active .Retain with_empty_and_held)
      closed_and_reopened).isSome = true := by
    decide +kernel
  obtain ⟨retained, hretained⟩ := Option.isSome_iff_exists.mp hrun
  have hfull : FullArchive .amount_and_owner with_empty_and_held :=
    ⟨by decide +kernel, by decide +kernel⟩
  -- each run keeps the tombstones that matter to it
  have hretains : Lts.check (retaining_step .amount_and_owner .Active) (fun s i =>
      decide (Admitted .amount_and_owner s i.hot_import) &&
        decide (MergesKeep .amount_and_owner .Active s (i.hot_import, i.retained_merges)))
      (full_under .amount_and_owner .Active .Retain with_empty_and_held) closed_and_reopened
        = true := by
    decide +kernel
  have homits : Lts.check (omitting_step .amount_and_owner .Active) (fun s i =>
      decide (MergesKeep .amount_and_owner .Active s (i.hot_import, i.omitted_merges)))
      (full_under .amount_and_owner .Active .ExcludeFromFullBaseline with_empty_and_held)
      closed_and_reopened = true := by
    decide +kernel
  obtain ⟨omitted, homitted, hseen⟩ := zero_balances_unobservable .amount_and_owner .Active
    with_empty_and_held closed_and_reopened retained hfull
    ((Lts.along_of_check hretains).mono fun s i h => by
      obtain ⟨hadmitted, hkeep⟩ := Bool.and_eq_true _ _ ▸ h
      exact ⟨of_decide_eq_true hadmitted, of_decide_eq_true hkeep⟩)
    ((Lts.along_of_check homits).mono fun s i h => of_decide_eq_true h) hretained
  exact ⟨retained, omitted, hretained, homitted, hseen⟩

/-! ## Archives that are not like this -/

section Observed

variable (dec : Decoders) (group : TableGroup)

/-- A pubkey that is live when the window starts keeps its pair, or ends the window closed. -/
def keeps_unless_closed (s : ImportedGroup) (i : TwinImport) : Bool :=
  (final_rows s.tables.hot_token_account_state).all fun before =>
    (i.hot_import.hot_rows dec).all fun row =>
      row.pubkey ≠ before.pubkey || row.pair = before.pair ||
        (retaining_step dec group s i).all fun s' =>
          (state_final s'.tables.hot_token_account_state before.pubkey).isNone

/-- The omission does not show, where pubkeys keep their pairs so. -/
def Unobservable (full : HotImport) (incrementals : List TwinImport) : Prop :=
  Lts.Along (retaining_step dec group) (fun s i => keeps_unless_closed dec group s i = true)
      (full_under dec group .Retain full) incrementals →
    ∀ retained omitted,
      Lts.run (retaining_step dec group) (full_under dec group .Retain full) incrementals
          = some retained →
        Lts.run (omitting_step dec group) (full_under dec group .ExcludeFromFullBaseline full)
            incrementals = some omitted →
          SeenAlike omitted.tables retained.tables

/-- The balance of a pair after a run: what it was last refreshed with. -/
def last_refresh (pair : TokenPair) (s : ImportedGroup) (amount_raw : ℕ) :
    List (HotImport × StateMerges) → ℕ
  | [] => amount_raw
  | i :: incrementals =>
      -- the rows of the balance table sort by their slot, and the last refresh has the
      -- greatest: its value can be computed without going through `FINAL`
      let s' : ImportedGroup :=
        ⟨s.tables.import_merged (incremental_lane dec group i.1) i.1.archive.slot i.2,
          i.1.archive.slot⟩
      let refreshed := s.tables.refreshed (incremental_lane dec group i.1)
      last_refresh pair s'
        (if pair ∈ refreshed then
          incremental_wallet_balance_aggregate s'.tables.hot_token_account_state refreshed pair
        else amount_raw) incrementals

/-- The last refresh, and the number of accounts that hold something. -/
def shown (policy : ZeroBalanceTokenAccountPolicy) (full : HotImport)
    (incrementals : List (HotImport × StateMerges)) (pair : TokenPair) : Option (ℕ × ℕ) :=
  (Lts.run (import_step dec group) (full_under dec group policy full) incrementals).map fun s =>
    (last_refresh dec group pair (full_under dec group policy full) (balance_final
        (full_under dec group policy full).tables.hot_wallet_token_balance pair) incrementals,
      ((final_rows s.tables.hot_token_account_state).filter fun row => 0 < row.amount).length)

variable {dec group}

/-- Balance rows are of the slots of the archives, so the last refresh is what shows. -/
theorem balance_final_run (pair : TokenPair) {incrementals : List (HotImport × StateMerges)}
    {s s' : ImportedGroup}
    (hslots : ∀ row ∈ s.tables.hot_wallet_token_balance, row.updated_slot ≤ s.slot)
    (hrun : Lts.run (import_step dec group) s incrementals = some s') :
    balance_final s'.tables.hot_wallet_token_balance pair = last_refresh dec group pair s
      (balance_final s.tables.hot_wallet_token_balance pair) incrementals := by
  induction incrementals generalizing s with
  | nil =>
      rw [Lts.run_nil, Option.some.injEq] at hrun
      rw [hrun]
      rfl
  | cons i incrementals ih =>
      obtain ⟨t, ht, hrun⟩ := Lts.run_cons_eq_some.mp hrun
      have hslots' := balance_slots_step_merged hslots ht
      obtain ⟨hlater, ht⟩ := import_step_eq_some.mp ht
      subst ht
      rw [ih hslots' hrun, last_refresh]
      dsimp only
      congr 1
      rw [Group.import_merged_balance]
      -- the last refresh of the pair, if this import has one
      by_cases hpair : pair ∈ s.tables.refreshed (incremental_lane dec group i.1)
      · rw [if_pos hpair]
        exact balance_final_refresh hpair fun row hrow _ => (hslots row hrow).trans hlater.le
      · rw [if_neg hpair]
        exact balance_final_refresh_of_notMem hpair

/-- Two runs that differ in one balance refute the claim. -/
theorem not_unobservable {full : HotImport} {incrementals : List TwinImport} (pair : TokenPair)
    (retained omitted : ℕ × ℕ)
    (hslots : ∀ v ∈ full.archive.versions, v.slot ≤ full.archive.slot)
    (hkeeps : Lts.check (retaining_step dec group) (keeps_unless_closed dec group)
      (full_under dec group .Retain full) incrementals = true)
    (hretained : shown dec group .Retain full
      (incrementals.map fun i => (i.hot_import, i.retained_merges)) pair = some retained)
    (homitted : shown dec group .ExcludeFromFullBaseline full
      (incrementals.map fun i => (i.hot_import, i.omitted_merges)) pair = some omitted)
    (hne : omitted ≠ retained) : ¬ Unobservable dec group full incrementals := by
  intro h
  obtain ⟨r, hr, hretained⟩ := Option.map_eq_some_iff.mp hretained
  obtain ⟨o, ho, homitted⟩ := Option.map_eq_some_iff.mp homitted
  -- the runs of the claim are those of the labels each group sees
  have hr' : Lts.run (retaining_step dec group) (full_under dec group .Retain full) incrementals
      = some r := by
    rw [← hr, Lts.run_map]
    rfl
  have ho' : Lts.run (omitting_step dec group)
      (full_under dec group .ExcludeFromFullBaseline full) incrementals = some o := by
    rw [← ho, Lts.run_map]
    rfl
  have hseen := h (Lts.along_of_check hkeeps) r o hr' ho'
  apply hne
  rw [← homitted, ← hretained, ← balance_final_run pair (full_under_balance_slots hslots _) hr,
    ← balance_final_run pair (full_under_balance_slots hslots _) ho, hseen.balance pair,
    hseen.live.length_eq]

end Observed

/-- A window after which neither group is merged. -/
def unmerged (i : HotImport) : TwinImport := ⟨i, .none, .none⟩

/-- The full archive holds an older record of an account that is empty by now. -/
def emptied_in_full : HotImport :=
  archive_of 10 [storage 3 (token_of 1 5 8), storage 6 (token_of 1 0 8)]

/-- Account 1 is empty. -/
def with_empty : HotImport := archive_of 1 [storage 1 (token_of 1 0 8)]

/-- Account 2 is opened under one owner and goes to another in one window; then account 1
is closed. -/
def moved_when_opened : List TwinImport :=
  [unmerged (archive_of 5 [storage 4 (token_of 2 3 8), storage 5 (token_of 2 2 9)]),
    unmerged (archive_of 7 [storage 6 (closed 1)])]

/-- Account 2 goes to another owner and is closed in one window, in which account 3 is opened
under the first; then account 1 is closed. -/
def moved_and_closed : List TwinImport :=
  [unmerged (archive_of 5
      [storage 3 (token_of 2 3 9), storage 4 (closed 2), storage 5 (token_of 3 1 8)]),
    unmerged (archive_of 7 [storage 6 (closed 1)])]

/-- An incremental with a record from before the slot of the full. -/
def older_record : List TwinImport := [unmerged (archive_of 12 [storage 4 (token_of 1 5 8)])]

/-- Account 2 is closed, and opened again under another owner; then account 1 is closed. Where
account 1 has its row, the tombstone of account 2 is merged away before that. -/
def tombstone_merged : List TwinImport :=
  [unmerged (archive_of 5 [storage 4 (closed 2)]),
    unmerged (archive_of 7 [storage 6 (token_of 2 3 9)]),
    ⟨archive_of 9 [storage 8 (closed 1)], ⟨[⟨2, 2⟩], [], []⟩, .none⟩]

/-- **What else could happen.** A second record of a pubkey in the full archive, a pubkey in
two pairs in the window it is opened in or in the one it is closed in, a record from before
the window, and a tombstone that is merged away under a row it does not hide: each of them
shows what was omitted. -/
theorem omission_observed :
    ¬ Unobservable .amount_and_owner .Active emptied_in_full [] ∧
      ¬ Unobservable .amount_and_owner .Active with_empty moved_when_opened ∧
      ¬ Unobservable .amount_and_owner .Active with_empty_and_held moved_and_closed ∧
      ¬ Unobservable .amount_and_owner .Active (archive_of 10 [storage 6 (token_of 1 0 8)])
        older_record ∧
      ¬ Unobservable .amount_and_owner .Active with_empty_and_held tombstone_merged := by
  refine ⟨?_, ?_, ?_, ?_, ?_⟩
  · exact not_unobservable wallet (5, 0) (5, 1) (by decide +kernel) (by decide +kernel)
      (by decide +kernel) (by decide +kernel) (by decide)
  · exact not_unobservable wallet (3, 1) (0, 1) (by decide +kernel) (by decide +kernel)
      (by decide +kernel) (by decide +kernel) (by decide)
  · exact not_unobservable wallet (5, 1) (1, 1) (by decide +kernel) (by decide +kernel)
      (by decide +kernel) (by decide +kernel) (by decide)
  · exact not_unobservable wallet (0, 0) (5, 1) (by decide +kernel) (by decide +kernel)
      (by decide +kernel) (by decide +kernel) (by decide)
  · exact not_unobservable wallet (4, 1) (0, 1) (by decide +kernel) (by decide +kernel)
      (by decide +kernel) (by decide +kernel) (by decide)

end SnapshotEtl
