/-
Wallet balances over a run of imports, with merges in between.

ClickHouse merges the parts of `hot_token_account_state` when it likes, and leaves
of each pubkey in them the last row. `FINAL` shows the same before and after. The
refresh of an incremental does not read with `FINAL`: of the rows of some pairs it
takes the newest per pubkey. A row that was merged away for one in another pair is
then missing, and where it was the tombstone of a closed account, an older row of
the account that is still stored, in a part that was not merged, counts again.

So the balances follow the accounts exactly as long as the rows that are stale when
a pair is refreshed add up to nothing (`balances_follow_state_iff`). Merges that
keep tombstones before live rows (`KeepsTombstones`) leave none, so there they always
follow (`balances_follow_of_keeps_tombstones`).
-/
import SnapshotEtl.Balances

set_option autoImplicit false

namespace SnapshotEtl

open Replacing Lib

/-! ## An import with merges -/

/-- The merges of `hot_token_account_state` from the end of one import to the refresh of the
next: before it starts, once its rows are stored, and once its tombstones are. -/
structure StateMerges where
  before : List Merge
  stored : List Merge
  closed : List Merge
deriving DecidableEq

/-- None. -/
def StateMerges.none : StateMerges := ⟨[], [], []⟩

namespace Group

def merge (g : Group) (merges : List Merge) : Group :=
  { g with
    hot_token_account_state := token_account_engine.merge_all g.hot_token_account_state merges }

/-- The pairs an incremental refreshes. -/
def refreshed (g : Group) (lane : LaneState) : Finset TokenPair :=
  lane.affected_pairs ∪ tombstone_pairs ((g.insert_all lane.rows).tombstones lane)

/-- An incremental import with merges in between. -/
def import_merged (g : Group) (lane : LaneState) (snapshot_slot : Slot) (merges : StateMerges) :
    Group :=
  let stored := (((g.merge merges.before).insert_all lane.rows).merge_metadata lane true
    snapshot_slot).merge merges.stored
  ((stored.write_tombstones lane).merge merges.closed).refresh_balances
    (lane.affected_pairs ∪ tombstone_pairs (stored.tombstones lane)) snapshot_slot

variable {g g' : Group} {lane : LaneState} {slot : Slot} {merges : StateMerges}

theorem merged_merge (g : Group) (merges : List Merge) : token_account_engine.Merged
    g.hot_token_account_state (g.merge merges).hot_token_account_state :=
  merged_merge_all _ _ _

theorem merged_insert_all (h : token_account_engine.Merged g.hot_token_account_state
    g'.hot_token_account_state) (rows : List Row) :
    token_account_engine.Merged (g.insert_all rows).hot_token_account_state
      (g'.insert_all rows).hot_token_account_state := by
  rw [insert_all_state, insert_all_state]
  exact h.append (Engine.Merged.refl _)

/-- Tombstones are written of what `FINAL` shows, whatever was merged. -/
theorem tombstones_of_merged (h : token_account_engine.Merged g.hot_token_account_state
    g'.hot_token_account_state) : g'.tombstones lane = g.tombstones lane := by
  rw [tombstones, tombstones, write_close_token_account_tombstones_eq,
    write_close_token_account_tombstones_eq]
  refine List.filterMap_congr fun pubkey _ => ?_
  rw [close_tombstone_congr (h.newest pubkey)]

/-- The table the tombstones are written to. -/
theorem merged_stored (g : Group) (lane : LaneState) (slot : Slot) (merges : StateMerges) :
    token_account_engine.Merged (g.insert_all lane.rows).hot_token_account_state
      ((((g.merge merges.before).insert_all lane.rows).merge_metadata lane true slot).merge
        merges.stored).hot_token_account_state :=
  (merged_insert_all (merged_merge g merges.before) lane.rows).trans (merged_merge _ merges.stored)

/-- **An import with merges** leaves the token accounts of one without, up to rows that
`FINAL` does not show. -/
theorem merged_import (g : Group) (lane : LaneState) (slot : Slot) (merges : StateMerges) :
    token_account_engine.Merged (g.import_incremental lane slot).hot_token_account_state
      (g.import_merged lane slot merges).hot_token_account_state := by
  have hstored := merged_stored g lane slot merges
  have hclosed : token_account_engine.Merged
      (g.import_incremental lane slot).hot_token_account_state
      (((((g.merge merges.before).insert_all lane.rows).merge_metadata lane true slot).merge
        merges.stored).write_tombstones lane).hot_token_account_state := by
    rw [import_incremental_state, write_tombstones, ← tombstones_of_merged hstored,
      ← insert_all_state]
    exact hstored.append (Engine.Merged.refl _)
  exact hclosed.trans (merged_merge _ merges.closed)

/-- It refreshes the same pairs, from the rows that are left. -/
theorem import_merged_balance (g : Group) (lane : LaneState) (slot : Slot) (merges : StateMerges) :
    (g.import_merged lane slot merges).hot_wallet_token_balance
      = g.hot_wallet_token_balance ++ refresh_wallet_balance_incremental
        (g.import_merged lane slot merges).hot_token_account_state (g.refreshed lane) slot := by
  have hpairs : tombstone_pairs (((((g.merge merges.before).insert_all lane.rows).merge_metadata
      lane true slot).merge merges.stored).tombstones lane)
        = tombstone_pairs ((g.insert_all lane.rows).tombstones lane) := by
    rw [tombstones_of_merged (merged_stored g lane slot merges)]
  have hbalance : ((((g.merge merges.before).insert_all lane.rows).merge_metadata lane true
      slot).merge merges.stored).hot_wallet_token_balance = g.hot_wallet_token_balance := by
    simp [merge]
  simp only [import_merged, refresh_balances, refreshed, hpairs]
  congr 1

end Group

/-! ## What merges do to a refresh -/

/-- Merges leave out no tombstone of an account in a pair, its newest row there, while they
leave in a live row that the tombstone hid. -/
def KeepsTombstones (state merged : List TokenAccountRow) : Prop :=
  ∀ pubkey pair t, latest_in state {pair} pubkey = some t → t.is_deleted ≠ 0 →
    ∀ r, latest_in merged {pair} pubkey = some r → r.is_deleted ≠ 0

/-- The rows that a refresh counts of accounts which are no longer in its pairs add up to
nothing. -/
def NothingStale (g : Group) (lane : LaneState) (slot : Slot) (merges : StateMerges) : Prop :=
  ∀ pair ∈ g.refreshed lane, stale_amount (g.import_merged lane slot merges).hot_token_account_state
    (g.refreshed lane) pair % u64_modulus = 0

/-- The full query over what `FINAL` shows gives the same after merges. -/
theorem wallet_balance_of_merged {rows merged : List TokenAccountRow}
    (h : token_account_engine.Merged rows merged) (pair : TokenPair) :
    wallet_balance (final_rows merged) pair = wallet_balance (final_rows rows) pair := by
  have hkeys : pubkeys merged ⊆ pubkeys rows := by
    intro pubkey hmem
    rw [mem_pubkeys] at hmem ⊢
    obtain ⟨row, hrow, hkey⟩ := hmem
    exact ⟨row, h.sublist.subset hrow, hkey⟩
  rw [wallet_balance_over hkeys, wallet_balance_over (le_refl _)]
  congr 1
  exact Finset.sum_congr rfl fun pubkey _ => by rw [h.newest pubkey]

/-- What is settled stays so under merges that keep the tombstones. -/
theorem Settled.of_merged {state merged : List TokenAccountRow} (h : Settled state)
    (hmerged : token_account_engine.Merged state merged) (hkeeps : KeepsTombstones state merged) :
    Settled merged := by
  intro pubkey n hn pair hleft r hr
  rw [hmerged.newest] at hn
  -- the row that is left was stored, so there was a newest one
  obtain ⟨hmem, hkey, hin, -⟩ := latest_in_spec hr
  have hstored : r ∈ state.filter fun row => row.pair ∈ ({pair} : Finset TokenPair) :=
    List.mem_filter.mpr ⟨hmerged.sublist.subset hmem, by simpa using hin⟩
  obtain ⟨t, ht⟩ := exists_newest token_account_engine hstored
  have hlatest : latest_in state {pair} pubkey = some t := by
    rw [latest_in, ← hkey]
    exact ht
  exact hkeeps pubkey pair t hlatest (h pubkey n hn pair hleft t hlatest) r hr

/-- Where all rows of a pubkey are of one pair, every merge keeps the tombstones: the newest
row of the pair is the one `FINAL` reads. -/
theorem keeps_tombstones_of_one_pair {state merged : List TokenAccountRow}
    (hmerged : token_account_engine.Merged state merged)
    (hpair : ∀ r ∈ state, ∀ s ∈ state, r.pubkey = s.pubkey → r.pair = s.pair) :
    KeepsTombstones state merged := by
  intro pubkey pair t ht hdeleted r hr
  obtain ⟨htmem, htkey, htin, -⟩ := latest_in_spec ht
  have hall : ∀ row ∈ state, row.pubkey = pubkey → row.pair ∈ ({pair} : Finset TokenPair) := by
    intro row hrow hkey
    rw [hpair row hrow t htmem (hkey.trans htkey.symm)]
    exact htin
  have hstate : latest_in state {pair} pubkey = token_account_engine.newest state pubkey :=
    newest_filter_of_keeps _ fun row hrow hkey => by simpa using hall row hrow hkey
  have hmergedrow : latest_in merged {pair} pubkey = token_account_engine.newest merged pubkey :=
    newest_filter_of_keeps _ fun row hrow hkey => by
      simpa using hall row (hmerged.sublist.subset hrow) hkey
  rw [hmergedrow, hmerged.newest, ← hstate, ht] at hr
  exact Option.some.inj hr ▸ hdeleted

section Import

variable {g g' : Group} {lane : LaneState} {slot : Slot} {merges : StateMerges}

/-- Over a table whose refreshes are right, and merges that keep tombstones. -/
theorem nothing_stale_of_keeps
    (h : Settled (g.import_incremental lane slot).hot_token_account_state)
    (hkeeps : KeepsTombstones (g.import_incremental lane slot).hot_token_account_state
      (g.import_merged lane slot merges).hot_token_account_state) :
    NothingStale g lane slot merges := by
  intro pair _
  rw [(h.of_merged (g.merged_import lane slot merges) hkeeps).stale_amount]
  rfl

/-- **An import keeps the balances exactly where nothing stale is counted**, as long as it
does not touch the accounts of a pair that it does not refresh. -/
theorem Group.Balanced.import_merged_iff (h : g.Balanced)
    (hslots : ∀ row ∈ g.hot_wallet_token_balance, row.updated_slot ≤ slot)
    (huntouched : ∀ pair ∉ g.refreshed lane, ∀ pubkey,
      amount_in (token_account_engine.newest (g.import_incremental lane
          slot).hot_token_account_state pubkey) pair
        = amount_in (token_account_engine.newest g.hot_token_account_state pubkey) pair) :
    (g.import_merged lane slot merges).Balanced ↔ NothingStale g lane slot merges := by
  -- the balance of a refreshed pair is what the refresh read
  have hrefreshed : ∀ pair ∈ g.refreshed lane,
      balance_final (g.import_merged lane slot merges).hot_wallet_token_balance pair
        = incremental_wallet_balance_aggregate
          (g.import_merged lane slot merges).hot_token_account_state (g.refreshed lane) pair := by
    intro pair hpair
    rw [import_merged_balance]
    exact balance_final_refresh hpair fun row hrow _ => hslots row hrow
  constructor
  · intro hbalanced pair hpair
    rw [← aggregate_right_iff hpair, ← hrefreshed pair hpair]
    exact hbalanced pair
  · intro hstale pair
    by_cases hpair : pair ∈ g.refreshed lane
    · rw [hrefreshed pair hpair, aggregate_right_iff hpair]
      exact hstale pair hpair
    · -- the balance stays, and what `FINAL` shows of the pair adds up to the same
      rw [import_merged_balance, balance_final_refresh_of_notMem hpair, h pair,
        wallet_balance_of_merged (g.merged_import lane slot merges),
        wallet_balance_over pubkeys_subset_import, wallet_balance_over (le_refl _)]
      congr 1
      exact Finset.sum_congr rfl fun pubkey _ => (huntouched pair hpair pubkey).symm

/-- An import over merged tables and one over all rows leave the same, up to what `FINAL`
does not show. -/
theorem merged_import_of_merged (h : token_account_engine.Merged g.hot_token_account_state
    g'.hot_token_account_state) : token_account_engine.Merged
      (g.import_incremental lane slot).hot_token_account_state
      (g'.import_incremental lane slot).hot_token_account_state := by
  have hstored := Group.merged_insert_all h lane.rows
  rw [Group.import_incremental_state, Group.import_incremental_state,
    Group.tombstones_of_merged hstored, ← Group.insert_all_state, ← Group.insert_all_state]
  exact hstored.append (Engine.Merged.refl _)

theorem refreshed_of_merged (h : token_account_engine.Merged g.hot_token_account_state
    g'.hot_token_account_state) : g'.refreshed lane = g.refreshed lane := by
  rw [Group.refreshed, Group.refreshed,
    Group.tombstones_of_merged (Group.merged_insert_all h lane.rows)]

end Import

/-! ## Runs -/

section Runs

variable (dec : Decoders) (group : TableGroup) (hot_mints : Finset String)

/-- A completed incremental of a later slot, with the merges since the last one. -/
def ImportedGroup.step_merged (s : ImportedGroup) (i : Archive × StateMerges) :
    Option ImportedGroup :=
  if s.slot < i.1.slot then
    some ⟨s.tables.import_merged
      ((incremental_worker group hot_mints i.1.slot).lane dec i.1.append_vecs) i.1.slot i.2,
      i.1.slot⟩
  else none

/-- `NothingStale` of the refresh of an incremental. -/
def NothingStaleAt (s : ImportedGroup) (i : Archive × StateMerges) : Prop :=
  NothingStale s.tables ((incremental_worker group hot_mints i.1.slot).lane dec i.1.append_vecs)
    i.1.slot i.2

/-- A group beside the one that has every row ever written. -/
structure Beside (written s : ImportedGroup) : Prop where
  slot : s.slot = written.slot
  merged : token_account_engine.Merged written.tables.hot_token_account_state
    s.tables.hot_token_account_state
  balance_slots : ∀ row ∈ s.tables.hot_wallet_token_balance, row.updated_slot ≤ s.slot

variable {dec group hot_mints}

theorem ImportedGroup.step_merged_eq_some {s s' : ImportedGroup} {i : Archive × StateMerges} :
    s.step_merged dec group hot_mints i = some s' ↔ s.slot < i.1.slot ∧
      s' = ⟨s.tables.import_merged
        ((incremental_worker group hot_mints i.1.slot).lane dec i.1.append_vecs) i.1.slot i.2,
        i.1.slot⟩ := by
  rw [ImportedGroup.step_merged, Option.ite_none_right_eq_some, Option.some.injEq,
    eq_comm (b := s')]

/-- Balance rows are of the slots of the archives. -/
theorem balance_slots_step_merged {s s' : ImportedGroup} {i : Archive × StateMerges}
    (hold : ∀ row ∈ s.tables.hot_wallet_token_balance, row.updated_slot ≤ s.slot)
    (h : s.step_merged dec group hot_mints i = some s') :
    ∀ row ∈ s'.tables.hot_wallet_token_balance, row.updated_slot ≤ s'.slot := by
  obtain ⟨hlt, rfl⟩ := ImportedGroup.step_merged_eq_some.mp h
  intro row hrow
  rw [Group.import_merged_balance] at hrow
  rcases List.mem_append.mp hrow with hrow | hrow
  · exact (hold row hrow).trans hlt.le
  · exact (mem_refresh_wallet_balance.mp hrow).2.2.le

/-- They stay beside each other. -/
theorem Beside.step {written written' s : ImportedGroup} {i : Archive × StateMerges}
    (h : Beside written s) (hstep : written.step dec group hot_mints i.1 = some written') :
    ∃ s', s.step_merged dec group hot_mints i = some s' ∧ Beside written' s' := by
  obtain ⟨hlt, rfl⟩ := ImportedGroup.step_eq_some.mp hstep
  have hstep' : s.step_merged dec group hot_mints i = some _ :=
    ImportedGroup.step_merged_eq_some.mpr ⟨h.slot.trans_lt hlt, rfl⟩
  refine ⟨_, hstep', rfl, ?_, balance_slots_step_merged h.balance_slots hstep'⟩
  exact (merged_import_of_merged h.merged).trans (Group.merged_import ..)

/-- **One import.** -/
theorem Beside.balanced_iff {written s s' : ImportedGroup} {i : Archive × StateMerges}
    (h : Beside written s) (hbalanced : s.tables.Balanced)
    (hone : token_account_engine.OneRow (written.tables.import_incremental
      ((incremental_worker group hot_mints i.1.slot).lane dec i.1.append_vecs)
      i.1.slot).hot_token_account_state)
    (hstable : PairStable (written.tables.import_incremental
      ((incremental_worker group hot_mints i.1.slot).lane dec i.1.append_vecs)
      i.1.slot).hot_token_account_state)
    (hstep : s.step_merged dec group hot_mints i = some s') :
    s'.tables.Balanced ↔ NothingStaleAt dec group hot_mints s i := by
  obtain ⟨hlt, rfl⟩ := ImportedGroup.step_merged_eq_some.mp hstep
  refine hbalanced.import_merged_iff (fun row hrow => (h.balance_slots row hrow).trans hlt.le) ?_
  intro pair hpair pubkey
  rw [refreshed_of_merged h.merged] at hpair
  rw [(merged_import_of_merged h.merged).newest, h.merged.newest]
  exact amount_of_untouched hone hstable (fun row hrow => incremental_row_affected hrow)
    incremental_rows_live hpair pubkey

/-- **A run.** After each of its imports the balances are right exactly where each of them
counts nothing stale. -/
theorem Beside.run_iff {seen : List AccountVersion} (hversions : OneVersion seen)
    {incrementals : List (Archive × StateMerges)} {written written' s : ImportedGroup}
    (hseen : ∀ i ∈ incrementals, ∀ v ∈ i.1.versions, v ∈ seen)
    (h : Beside written s) (hbuilt : Built dec hot_mints seen written)
    (hbalanced : s.tables.Balanced)
    (hrun : Lts.run (ImportedGroup.step dec group hot_mints) written (incrementals.map Prod.fst)
      = some written')
    (hstable : PairStable written'.tables.hot_token_account_state) :
    (∀ n t, Lts.run (ImportedGroup.step_merged dec group hot_mints) s (incrementals.take n)
        = some t → t.tables.Balanced) ↔
      Lts.Along (ImportedGroup.step_merged dec group hot_mints)
        (NothingStaleAt dec group hot_mints) s incrementals := by
  induction incrementals generalizing written s with
  | nil =>
      refine ⟨fun _ => trivial, fun _ n t ht => ?_⟩
      rw [List.take_nil, Lts.run_nil, Option.some.injEq] at ht
      exact ht ▸ hbalanced
  | cons i incrementals ih =>
      rw [List.map_cons] at hrun
      obtain ⟨next, hnext, hrun⟩ := Lts.run_cons_eq_some.mp hrun
      obtain ⟨s', hs', hbeside⟩ := h.step hnext
      have hbuilt' := hbuilt.step hversions (hseen i (by simp)) hnext
      have hstable' := hstable.of_run hrun
      have hrest := ih (fun j hj => hseen j (List.mem_cons_of_mem _ hj)) hbeside hbuilt'
      obtain ⟨-, rfl⟩ := ImportedGroup.step_eq_some.mp hnext
      have hiff := h.balanced_iff hbalanced hbuilt'.one_row hstable' hs'
      constructor
      · intro hall
        -- the state after the first import is one of the run
        have hfirst : s'.tables.Balanced := hall 1 s' (by simp [hs'])
        refine ⟨hiff.mp hfirst, fun t ht => ?_⟩
        obtain rfl : s' = t := Option.some.inj (hs'.symm.trans ht)
        refine (hrest hfirst hrun).mp fun n t ht => hall (n + 1) t ?_
        rw [List.take_succ_cons]
        exact Lts.run_cons_eq_some.mpr ⟨s', hs', ht⟩
      · intro halong n t ht
        have hfirst := hiff.mpr halong.1
        cases n with
        | zero =>
            rw [List.take_zero, Lts.run_nil, Option.some.injEq] at ht
            exact ht ▸ hbalanced
        | succ n =>
            rw [List.take_succ_cons, Lts.run_cons, hs'] at ht
            exact (hrest hfirst hrun).mpr (halong.2 s' hs') n t ht

/-- Where the merges have kept the tombstones of all there was, nothing stale is counted. -/
theorem Beside.along_of_keeps {seen : List AccountVersion} (hversions : OneVersion seen)
    {incrementals : List (Archive × StateMerges)} {written written' s : ImportedGroup}
    (hseen : ∀ i ∈ incrementals, ∀ v ∈ i.1.versions, v ∈ seen)
    (h : Beside written s) (hbuilt : Built dec hot_mints seen written)
    (hrun : Lts.run (ImportedGroup.step dec group hot_mints) written (incrementals.map Prod.fst)
      = some written')
    (hstable : PairStable written'.tables.hot_token_account_state)
    (hkeeps : ∀ n w t,
      Lts.run (ImportedGroup.step dec group hot_mints) written ((incrementals.take n).map Prod.fst)
          = some w →
        Lts.run (ImportedGroup.step_merged dec group hot_mints) s (incrementals.take n) = some t →
          KeepsTombstones w.tables.hot_token_account_state t.tables.hot_token_account_state) :
    Lts.Along (ImportedGroup.step_merged dec group hot_mints)
      (NothingStaleAt dec group hot_mints) s incrementals := by
  induction incrementals generalizing written s with
  | nil => trivial
  | cons i incrementals ih =>
      rw [List.map_cons] at hrun
      obtain ⟨next, hnext, hrun⟩ := Lts.run_cons_eq_some.mp hrun
      obtain ⟨s', hs', hbeside⟩ := h.step hnext
      have hbuilt' := hbuilt.step hversions (hseen i (by simp)) hnext
      have hfirst := hkeeps 1 next s' (by simp [hnext]) (by simp [hs'])
      have hsettled := ((hstable.of_run hrun).settled hbuilt'.one_row).of_merged hbeside.merged
        hfirst
      refine ⟨fun pair _ => ?_, fun t ht => ?_⟩
      · obtain ⟨-, rfl⟩ := ImportedGroup.step_merged_eq_some.mp hs'
        rw [hsettled.stale_amount]
        rfl
      · obtain rfl : s' = t := Option.some.inj (hs'.symm.trans ht)
        refine ih (fun j hj => hseen j (List.mem_cons_of_mem _ hj)) hbeside hbuilt' hrun ?_
        intro n w t hw ht
        refine hkeeps (n + 1) w t ?_ ?_
        · rw [List.take_succ_cons, List.map_cons]
          exact Lts.run_cons_eq_some.mpr ⟨next, hnext, hw⟩
        · rw [List.take_succ_cons]
          exact Lts.run_cons_eq_some.mpr ⟨s', hs', ht⟩

/-- A full build has every row of it. -/
theorem beside_full {full : Archive} (hslots : ∀ v ∈ full.versions, v.slot ≤ full.slot) :
    Beside (.full dec group hot_mints full) (.full dec group hot_mints full) :=
  ⟨rfl, Engine.Merged.refl _, full_balance_slots hslots⟩

/-- The versions of a run are those of its archives. -/
theorem seen_of_run (full : Archive) (incrementals : List (Archive × StateMerges)) :
    (∀ v ∈ full.versions,
      v ∈ (full :: incrementals.map Prod.fst).flatMap Archive.versions) ∧
    ∀ i ∈ incrementals, ∀ v ∈ i.1.versions,
      v ∈ (full :: incrementals.map Prod.fst).flatMap Archive.versions := by
  have hseen : ∀ a ∈ full :: incrementals.map Prod.fst, ∀ v ∈ a.versions,
      v ∈ (full :: incrementals.map Prod.fst).flatMap Archive.versions :=
    fun a ha v hv => List.mem_flatMap.mpr ⟨a, ha, hv⟩
  exact ⟨hseen full (by simp),
    fun i hi => hseen i.1 (List.mem_cons_of_mem _ (List.mem_map_of_mem hi))⟩

variable (dec group hot_mints)

/-- Balances follow, in particular, wherever merges keep the tombstones of closed accounts
before the live rows they hide, as they do where nothing is merged. -/
theorem balances_follow_of_keeps_tombstones (full : Archive)
    (incrementals : List (Archive × StateMerges)) (written : ImportedGroup)
    (hcanonical : (full.versions.map AccountVersion.pubkey).Nodup)
    (hslots : ∀ v ∈ full.versions, v.slot ≤ full.slot)
    (hversions : OneVersion ((full :: incrementals.map Prod.fst).flatMap Archive.versions))
    (hwritten : Lts.run (ImportedGroup.step dec group hot_mints)
      (.full dec group hot_mints full) (incrementals.map Prod.fst) = some written)
    (hstable : PairStable written.tables.hot_token_account_state)
    (hkeeps : ∀ n w s,
      Lts.run (ImportedGroup.step dec group hot_mints) (.full dec group hot_mints full)
          ((incrementals.take n).map Prod.fst) = some w →
        Lts.run (ImportedGroup.step_merged dec group hot_mints) (.full dec group hot_mints full)
            (incrementals.take n) = some s →
          KeepsTombstones w.tables.hot_token_account_state s.tables.hot_token_account_state) :
    ∀ n s, Lts.run (ImportedGroup.step_merged dec group hot_mints)
      (.full dec group hot_mints full) (incrementals.take n) = some s → s.tables.Balanced := by
  have hseen := seen_of_run full incrementals
  have hbuilt : Built dec hot_mints _ (.full dec group hot_mints full) :=
    built_full hcanonical hseen.1
  have hbeside : Beside (.full dec group hot_mints full) (.full dec group hot_mints full) :=
    beside_full hslots
  exact (hbeside.run_iff hversions hseen.2 hbuilt (balanced_full hcanonical) hwritten
    hstable).mpr (hbeside.along_of_keeps hversions hseen.2 hbuilt hwritten hstable hkeeps)

end Runs

/-! ## An account that is reopened elsewhere -/

/-- Decoders that read a token account of one mint from its amount and its owner. -/
def Decoders.amount_and_owner : Decoders :=
  { Decoders.accept_nothing with
    unpack_account := fun data => data.head?.map fun amount =>
      ⟨.of_be 7, .of_be (data.getD 1 0).toNat, amount.toNat, none, .Initialized, 0, none⟩ }

/-- A storage of one slot with one account. -/
def storage (slot : Slot) (account : StoredAccountMeta) : AppendVec := ⟨slot, 0, 0, [account]⟩

def token_of (pubkey : ℕ) (amount owner : UInt8) : StoredAccountMeta :=
  ⟨⟨account_len, .of_be pubkey⟩, ⟨1, spl_token_id, false⟩, [amount, owner]⟩

instance (dec : Decoders) (group : TableGroup) (hot_mints : Finset String) (s : ImportedGroup)
    (i : Archive × StateMerges) : Decidable (NothingStaleAt dec group hot_mints s i) := by
  unfold NothingStaleAt NothingStale
  infer_instance

end SnapshotEtl
