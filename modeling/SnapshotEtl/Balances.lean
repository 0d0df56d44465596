/-
Wallet balances, and what the refresh of an incremental makes of them.

The full build sums the table as it stands; an incremental sums the pairs it
touched, over the newest row each pubkey has in one of them. A pubkey whose last
row is in none of these pairs still counts with the newest row it has there
(`stale_row`), and the refresh is right exactly where these rows add up to
nothing. In a table that holds every row ever written they do, as long as a
pubkey changes its pair only across a tombstone (`PairStable.settled`): what it
left behind in a pair is then hidden by the tombstone it got there. One row per
pubkey and slot, which comes from one account version per pubkey and slot, is
what makes "newest" mean one row.
-/
import SnapshotEtl.TokenAccounts
import SnapshotEtl.Lib.Lts

set_option autoImplicit false

namespace SnapshotEtl

open Replacing Lib

/-! ## Balances that agree -/

/-- `hot_wallet_token_balance` shows what the full query would compute from what
`FINAL` shows of `hot_token_account_state`. -/
def Group.Balanced (g : Group) : Prop :=
  ∀ pair, balance_final g.hot_wallet_token_balance pair
    = wallet_balance (final_rows g.hot_token_account_state) pair

/-- A pubkey changes its pair only across a tombstone of it. -/
def PairStable (state : List TokenAccountRow) : Prop :=
  ∀ r ∈ state, ∀ s ∈ state, r.pubkey = s.pubkey → r.updated_slot < s.updated_slot →
    r.pair ≠ s.pair → ∃ t ∈ state, t.pubkey = r.pubkey ∧ t.is_deleted ≠ 0 ∧
      r.updated_slot ≤ t.updated_slot ∧ t.updated_slot < s.updated_slot

/-- A deleted row counts for nothing, so hiding it changes no amount. -/
theorem amount_in_state_final (state : List TokenAccountRow) (pubkey : String) (pair : TokenPair) :
    amount_in (state_final state pubkey) pair
      = amount_in (token_account_engine.newest state pubkey) pair := by
  rw [state_final]
  cases token_account_engine.newest state pubkey with
  | none => rfl
  | some row =>
      by_cases hdeleted : row.is_deleted = 0
      · simp [Option.filter_some, hdeleted]
      · simp [Option.filter_some, hdeleted, amount_in, TokenAccountRow.counts]

/-- What an amount of a row says about it. -/
theorem counts_of_amount_in {row : TokenAccountRow} {pair : TokenPair}
    (h : amount_in (some row) pair ≠ 0) : row.is_deleted = 0 ∧ row.pair = pair := by
  have hcounts := (ite_ne_right_iff.mp h).1
  simp only [TokenAccountRow.counts, Bool.and_eq_true, decide_eq_true_eq] at hcounts
  exact ⟨hcounts.1.1, hcounts.2⟩

/-- A balance is a sum over any pubkeys that are all of the table. -/
theorem wallet_balance_over {state : List TokenAccountRow} {keys : Finset String}
    (h : pubkeys state ⊆ keys) (pair : TokenPair) :
    wallet_balance (final_rows state) pair
      = (∑ pubkey ∈ keys, amount_in (token_account_engine.newest state pubkey) pair)
        % u64_modulus := by
  rw [wallet_balance_final_rows]
  congr 1
  have hsame : ∑ pubkey ∈ pubkeys state, amount_in (state_final state pubkey) pair
      = ∑ pubkey ∈ pubkeys state, amount_in (token_account_engine.newest state pubkey) pair :=
    Finset.sum_congr rfl fun pubkey _ => amount_in_state_final state pubkey pair
  rw [hsame]
  refine Finset.sum_subset h ?_
  intro pubkey _ hnot
  have hnone : token_account_engine.newest state pubkey = none := by
    rw [newest_eq_none]
    intro row hrow hkey
    exact hnot (mem_pubkeys.mpr ⟨row, hrow, hkey⟩)
  rw [hnone]
  rfl

/-- A pubkey with a row in some pairs has a last row. -/
theorem newest_of_latest {state : List TokenAccountRow} {pairs : Finset TokenPair}
    {pubkey : String} {row : TokenAccountRow} (h : latest_in state pairs pubkey = some row) :
    ∃ n, token_account_engine.newest state pubkey = some n := by
  obtain ⟨hmem, hkey, -, -⟩ := latest_in_spec h
  rw [← hkey]
  exact exists_newest token_account_engine hmem

/-! ## What a refresh of some pairs leaves out -/

section Stale

variable {state : List TokenAccountRow} {pairs : Finset TokenPair} {pair : TokenPair}

/-- A pubkey whose last row is of another pair still counts, with the last row it has in
the pairs. -/
def stale_row (state : List TokenAccountRow) (pairs : Finset TokenPair) (pubkey : String) :
    Option TokenAccountRow :=
  if (token_account_engine.newest state pubkey).any fun row => row.pair ∈ pairs then none
  else latest_in state pairs pubkey

/-- What these add to a balance. -/
def stale_amount (state : List TokenAccountRow) (pairs : Finset TokenPair) (pair : TokenPair) : ℕ :=
  ∑ pubkey ∈ pubkeys state, amount_in (stale_row state pairs pubkey) pair

/-- What the refresh reads of an account in a pair: what FINAL shows and the stale amount.
-/
theorem amount_in_latest (hpair : pair ∈ pairs) (pubkey : String) :
    amount_in (latest_in state pairs pubkey) pair
      = amount_in (state_final state pubkey) pair
        + amount_in (stale_row state pairs pubkey) pair := by
  rw [amount_in_state_final, stale_row]
  cases hnewest : token_account_engine.newest state pubkey with
  | none =>
      have hnone : latest_in state pairs pubkey = none := by
        rw [latest_in_eq_none]
        exact fun row hrow _ => (newest_eq_none _).mp hnewest row hrow
      rw [hnone]
      rfl
  | some row =>
      by_cases hin : row.pair ∈ pairs
      · have hsame : latest_in state pairs pubkey = some row :=
          newest_filter _ _ hnewest (by simpa using hin)
        rw [hsame, Option.any_some, if_pos (by simpa using hin)]
        rfl
      · have hzero : amount_in (some row) pair = 0 := by
          by_contra h
          rw [(counts_of_amount_in h).2] at hin
          exact hin hpair
        rw [hzero, Option.any_some, if_neg (by simpa using hin), Nat.zero_add]

/-- A refresh sums what `FINAL` shows, and the stale rows. -/
theorem aggregate_eq (hpair : pair ∈ pairs) :
    incremental_wallet_balance_aggregate state pairs pair
      = (wallet_balance (final_rows state) pair + stale_amount state pairs pair) % u64_modulus := by
  rw [incremental_wallet_balance_aggregate, wallet_balance_final_rows, stale_amount,
    Nat.mod_add_mod, ← Finset.sum_add_distrib]
  congr 1
  refine Finset.sum_congr rfl ?_
  intro pubkey _
  exact amount_in_latest hpair pubkey

/-- It is right where these add up to nothing. -/
theorem aggregate_right_iff (hpair : pair ∈ pairs) :
    incremental_wallet_balance_aggregate state pairs pair = wallet_balance (final_rows state) pair
      ↔ stale_amount state pairs pair % u64_modulus = 0 := by
  have hmod : wallet_balance (final_rows state) pair
      = wallet_balance (final_rows state) pair % u64_modulus := by
    rw [wallet_balance, Nat.mod_mod]
  rw [aggregate_eq hpair]
  constructor
  · intro h
    rw [hmod] at h
    rw [Nat.mod_add_mod] at h
    have hsame : wallet_balance (final_rows state) pair + stale_amount state pairs pair
        ≡ wallet_balance (final_rows state) pair + 0 [MOD u64_modulus] := h
    exact Nat.ModEq.add_left_cancel' _ hsame
  · intro h
    rw [Nat.add_mod, h, Nat.add_zero, Nat.mod_mod]
    exact hmod.symm

end Stale

/-! ## Tables whose refreshes are right -/

/-- In a pair that a pubkey has left, the newest row it has there is its tombstone. -/
def Settled (state : List TokenAccountRow) : Prop :=
  ∀ pubkey n, token_account_engine.newest state pubkey = some n → ∀ pair, n.pair ≠ pair →
    ∀ r, latest_in state {pair} pubkey = some r → r.is_deleted ≠ 0

section Settled

variable {state : List TokenAccountRow} {pairs : Finset TokenPair} {pair : TokenPair}
  {pubkey : String}

/-- The newest row in some pairs is the newest in its own. -/
theorem latest_in_own_pair {r : TokenAccountRow} (h : latest_in state pairs pubkey = some r) :
    latest_in state {r.pair} pubkey = some r := by
  have hin := (latest_in_spec h).2.2.1
  have hown : (state.filter fun row => row.pair ∈ pairs).filter
        (fun row => row.pair ∈ ({r.pair} : Finset TokenPair))
      = state.filter fun row => row.pair ∈ ({r.pair} : Finset TokenPair) := by
    rw [List.filter_filter]
    refine List.filter_congr fun row _ => ?_
    simp only [Finset.mem_singleton, Bool.and_eq_left_iff_imp, decide_eq_true_eq]
    exact fun hsame => hsame ▸ hin
  rw [latest_in, ← hown]
  exact newest_filter _ _ h (by simp)

/-- So it is for any pairs that the pubkey is in none of. -/
theorem Settled.latest (h : Settled state) {n r : TokenAccountRow}
    (hn : token_account_engine.newest state pubkey = some n) (hleft : n.pair ∉ pairs)
    (hr : latest_in state pairs pubkey = some r) : r.is_deleted ≠ 0 := by
  refine h pubkey n hn r.pair (fun hsame => ?_) r (latest_in_own_pair hr)
  rw [hsame] at hleft
  exact hleft (latest_in_spec hr).2.2.1

/-- No stale row counts. -/
theorem Settled.stale_amount (h : Settled state) (pairs : Finset TokenPair) (pair : TokenPair) :
    SnapshotEtl.stale_amount state pairs pair = 0 := by
  refine Finset.sum_eq_zero fun pubkey _ => ?_
  rw [stale_row]
  split
  · rfl
  · next hstale =>
      cases hlatest : latest_in state pairs pubkey with
      | none => rfl
      | some r =>
          by_contra hcount
          have hopen := (counts_of_amount_in hcount).1
          obtain ⟨n, hn⟩ := newest_of_latest hlatest
          rw [hn, Option.any_some, decide_eq_true_eq] at hstale
          exact h.latest hn hstale hlatest hopen

/-- Past a live row that is the newest of its pubkey in some pairs, the pubkey stays in the
pair of that row. -/
theorem same_pair_after (hone : token_account_engine.OneRow state) (hstable : PairStable state)
    {r : TokenAccountRow} (hr : latest_in state pairs pubkey = some r) (hopen : r.is_deleted = 0) :
    ∀ m ∈ state, m.pubkey = pubkey → r.updated_slot < m.updated_slot → m.pair = r.pair := by
  obtain ⟨hmem, hkey, hpair, hlatest⟩ := latest_in_spec hr
  intro m
  -- on the slot of the row: a change would need a tombstone, itself an older row
  induction hslot : m.updated_slot using Nat.strongRecOn generalizing m with
  | ind slot ih =>
      subst hslot
      intro hm hmkey hlt
      by_contra hne
      obtain ⟨t, ht, htkey, hdeleted, hle, htlt⟩ := hstable r hmem m hm (hkey.trans hmkey.symm) hlt
        (Ne.symm hne)
      have htlt' : r.updated_slot < t.updated_slot := by
        refine lt_of_le_of_ne hle fun heq => hdeleted ?_
        rw [← hone r hmem t ht htkey.symm heq]
        exact hopen
      have htpair := ih t.updated_slot htlt t rfl ht (htkey.trans hkey) htlt'
      have hback := hlatest t ht (htkey.trans hkey) (htpair ▸ hpair)
      exact absurd htlt' (not_lt.mpr hback)

/-- **Pairs that are left across a tombstone are settled.** -/
theorem PairStable.settled (hstable : PairStable state)
    (hone : token_account_engine.OneRow state) : Settled state := by
  intro pubkey n hn pair hleft r hr hopen
  obtain ⟨hmem, hkey, hin, -⟩ := latest_in_spec hr
  have hspec := newest_spec _ hn
  have hpair : r.pair = pair := by simpa using hin
  rw [← hpair] at hleft
  have hlt : r.updated_slot < n.updated_slot := by
    refine lt_of_le_of_ne (hspec.le r hmem hkey) fun hslot => hleft ?_
    rw [hone r hmem n hspec.mem (hkey.trans hspec.key_eq.symm) hslot]
  exact hleft (same_pair_after hone hstable hr hopen n hspec.mem hspec.key_eq hlt)

end Settled

/-! ## One incremental -/

section Import

variable {g : Group} {lane : LaneState} {snapshot_slot : Slot}

/-- The L2 rows after an incremental: the old ones, its own rows and its tombstones. -/
theorem mem_import_incremental_state {row : TokenAccountRow} :
    row ∈ (g.import_incremental lane snapshot_slot).hot_token_account_state ↔
      row ∈ g.hot_token_account_state ∨ row ∈ token_account_rows lane.rows ∨
        row ∈ (g.insert_all lane.rows).tombstones lane := by
  rw [Group.import_incremental_state, List.mem_append, List.mem_append, or_assoc]

/-- Rows are only added. -/
theorem pubkeys_subset_import : pubkeys g.hot_token_account_state
    ⊆ pubkeys (g.import_incremental lane snapshot_slot).hot_token_account_state := by
  intro pubkey hmem
  rw [mem_pubkeys] at hmem ⊢
  obtain ⟨row, hrow, hkey⟩ := hmem
  exact ⟨row, mem_import_incremental_state.mpr (.inl hrow), hkey⟩

/-- The rows an import adds are of pairs it refreshes. -/
theorem new_row_refreshed {row : TokenAccountRow}
    (hpairs : ∀ row ∈ token_account_rows lane.rows, row.pair ∈ lane.affected_pairs)
    (hrow : row ∈ (g.import_incremental lane snapshot_slot).hot_token_account_state)
    (hnew : row ∉ g.hot_token_account_state) :
    row.pair ∈ lane.affected_pairs ∪
      tombstone_pairs ((g.insert_all lane.rows).tombstones lane) := by
  rcases mem_import_incremental_state.mp hrow with hold | hlive | htomb
  · exact absurd hold hnew
  · exact Finset.mem_union_left _ (hpairs row hlive)
  · refine Finset.mem_union_right _ ?_
    rw [tombstone_pairs, List.mem_toFinset]
    exact List.mem_map_of_mem htomb

/-- A tombstone older than some row of its pubkey was there before the import. -/
theorem tombstone_old (hlive : ∀ row ∈ token_account_rows lane.rows, row.is_deleted = 0)
    {t s : TokenAccountRow}
    (ht : t ∈ (g.import_incremental lane snapshot_slot).hot_token_account_state)
    (hdeleted : t.is_deleted ≠ 0)
    (hs : s ∈ (g.import_incremental lane snapshot_slot).hot_token_account_state)
    (hkey : s.pubkey = t.pubkey) (hlt : t.updated_slot < s.updated_slot) :
    t ∈ g.hot_token_account_state := by
  rcases mem_import_incremental_state.mp ht with hold | hrow | htomb
  · exact hold
  · exact absurd (hlive t hrow) hdeleted
  · rcases g.tombstone_last htomb s hs hkey with rfl | hlt'
    · exact absurd hlt (lt_irrefl _)
    · exact absurd (hlt.trans hlt') (lt_irrefl _)

/-- What is stable after an import was stable before it. -/
theorem PairStable.of_import (hlive : ∀ row ∈ token_account_rows lane.rows, row.is_deleted = 0)
    (h : PairStable (g.import_incremental lane snapshot_slot).hot_token_account_state) :
    PairStable g.hot_token_account_state := by
  intro r hr s hs hkey hlt hne
  have hold : ∀ row ∈ g.hot_token_account_state,
      row ∈ (g.import_incremental lane snapshot_slot).hot_token_account_state := fun _ hrow =>
    mem_import_incremental_state.mpr (.inl hrow)
  have hr' := hold r hr
  have hs' := hold s hs
  obtain ⟨t, ht, htkey, hdeleted, hle, htlt⟩ := h r hr' s hs' hkey hlt hne
  exact ⟨t, tombstone_old hlive ht hdeleted hs' (hkey.symm.trans htkey.symm) htlt, htkey, hdeleted,
    hle, htlt⟩

variable (hone : token_account_engine.OneRow
    (g.import_incremental lane snapshot_slot).hot_token_account_state)
  (hstable : PairStable (g.import_incremental lane snapshot_slot).hot_token_account_state)
  (hpairs : ∀ row ∈ token_account_rows lane.rows, row.pair ∈ lane.affected_pairs)
  (hlive : ∀ row ∈ token_account_rows lane.rows, row.is_deleted = 0)

include hone hstable hpairs hlive in
/-- **A pair that is not refreshed keeps its accounts.** -/
theorem amount_of_untouched {pair : TokenPair} (hpair : pair ∉ lane.affected_pairs ∪
      tombstone_pairs ((g.insert_all lane.rows).tombstones lane)) (pubkey : String) :
    amount_in (token_account_engine.newest (g.import_incremental lane
        snapshot_slot).hot_token_account_state pubkey) pair
      = amount_in (token_account_engine.newest g.hot_token_account_state pubkey) pair := by
  have hold : ∀ row ∈ g.hot_token_account_state,
      row ∈ (g.import_incremental lane snapshot_slot).hot_token_account_state :=
    fun row hrow => mem_import_incremental_state.mpr (.inl hrow)
  cases hnew : token_account_engine.newest (g.import_incremental lane
      snapshot_slot).hot_token_account_state pubkey with
  | none =>
      have hnone : token_account_engine.newest g.hot_token_account_state pubkey = none := by
        rw [newest_eq_none] at hnew ⊢
        exact fun row hrow => hnew row (hold row hrow)
      rw [hnone]
  | some n =>
      have hn := newest_spec _ hnew
      by_cases hmem : n ∈ g.hot_token_account_state
      · have hsame : token_account_engine.newest g.hot_token_account_state pubkey = some n :=
          (newest_eq_some _ (hone.subset hold)).mpr
            ⟨hmem, hn.key_eq, fun row hrow hkey => hn.le row (hold row hrow) hkey⟩
        rw [hsame]
      · -- the newest row is new, and has left the pair
        have hne : n.pair ≠ pair := fun heq => hpair (heq ▸ new_row_refreshed hpairs hn.mem hmem)
        have hzero : amount_in (some n) pair = 0 :=
          by_contra fun h => hne (counts_of_amount_in h).2
        rw [hzero]
        cases holder : token_account_engine.newest g.hot_token_account_state pubkey with
        | none => rfl
        | some o =>
            have ho := newest_spec _ holder
            by_contra hcount
            obtain ⟨hopen, hopair⟩ := counts_of_amount_in (Ne.symm hcount)
            have hkey : o.pubkey = n.pubkey := ho.key_eq.trans hn.key_eq.symm
            have hlt : o.updated_slot < n.updated_slot := by
              refine lt_of_le_of_ne (hn.le o (hold o ho.mem) ho.key_eq) fun hslot => hmem ?_
              rw [← hone o (hold o ho.mem) n hn.mem hkey hslot]
              exact ho.mem
            obtain ⟨t, ht, htkey, hdeleted, hle, htlt⟩ :=
              hstable o (hold o ho.mem) n hn.mem hkey hlt
              (hopair.trans_ne hne.symm)
            have htold := tombstone_old hlive ht hdeleted hn.mem (hkey.symm.trans htkey.symm) htlt
            have hslot := le_antisymm hle (ho.le t htold (htkey.trans ho.key_eq))
            obtain rfl := hone o (hold o ho.mem) t ht htkey.symm hslot
            exact hdeleted hopen

end Import

/-! ## The full build -/

/-- A row of the full query is the sum of its pair, at a slot of its accounts. -/
theorem mem_wallet_balance_rows {source : List TokenAccountRow} {row : WalletBalanceRow}
    (h : row ∈ wallet_balance_rows source) : row.amount_raw = wallet_balance source row.pair ∧
      ∀ slot, (∀ r ∈ source, r.updated_slot ≤ slot) → row.updated_slot ≤ slot := by
  obtain ⟨pair, -, hrow⟩ := List.mem_filterMap.mp h
  dsimp only at hrow
  split at hrow
  · obtain rfl := Option.some.inj hrow
    refine ⟨rfl, fun slot hslots => ?_⟩
    have hmax : ∀ (slots : List Slot) (best : Slot), best ≤ slot → (∀ s ∈ slots, s ≤ slot) →
        slots.foldl max best ≤ slot := by
      intro slots
      induction slots with
      | nil => exact fun best hbest _ => hbest
      | cons s slots ih =>
          intro best hbest hall
          exact ih _ (max_le hbest (hall s (by simp))) fun s' hs' =>
            hall s' (List.mem_cons_of_mem _ hs')
    refine hmax _ 0 (Nat.zero_le _) fun s hs => ?_
    obtain ⟨r, hr, rfl⟩ := List.mem_map.mp hs
    exact hslots r (List.mem_of_mem_filter (List.mem_of_mem_filter hr))
  · cases hrow

/-- A pair with a positive sum has its row. -/
theorem exists_wallet_balance_row {source : List TokenAccountRow} {pair : TokenPair}
    (h : wallet_balance source pair ≠ 0) : ∃ row ∈ wallet_balance_rows source, row.pair = pair := by
  have hcounted :
      pair ∈ ((source.filter TokenAccountRow.counts).map TokenAccountRow.pair).dedup := by
    rw [List.mem_dedup]
    by_contra hnot
    refine h ?_
    have hnone : (source.filter fun row => row.counts && row.pair = pair) = [] := by
      rw [List.filter_eq_nil_iff]
      intro row hrow hcounts
      simp only [Bool.and_eq_true, decide_eq_true_eq] at hcounts
      exact hnot (List.mem_map.mpr ⟨row, List.mem_filter.mpr ⟨hrow, hcounts.1⟩, hcounts.2⟩)
    rw [wallet_balance, hnone]
    rfl
  refine ⟨_, List.mem_filterMap.mpr ⟨pair, hcounted, if_pos (Nat.pos_of_ne_zero h)⟩, rfl⟩

/-- The rebuilt table shows the sums. -/
theorem balance_final_wallet_balance_rows (source : List TokenAccountRow) (pair : TokenPair) :
    balance_final (wallet_balance_rows source) pair = wallet_balance source pair := by
  rw [balance_final]
  cases hrow : wallet_balance_engine.newest (wallet_balance_rows source) pair with
  | none =>
      by_contra hne
      obtain ⟨row, hrow', hkey⟩ := exists_wallet_balance_row (Ne.symm hne)
      exact (newest_eq_none _).mp hrow row hrow' hkey
  | some row =>
      have hnewest := newest_spec _ hrow
      have hamount := (mem_wallet_balance_rows hnewest.mem).1
      have hkey : row.pair = pair := hnewest.key_eq
      rw [hkey] at hamount
      exact hamount

/-- `FINAL` shows a table of one live row per pubkey as it is. -/
theorem final_rows_of_nodup {state : List TokenAccountRow}
    (hnodup : (state.map TokenAccountRow.pubkey).Nodup)
    (hlive : ∀ row ∈ state, row.is_deleted = 0) : final_rows state = state := by
  have hfinal : ∀ row ∈ state, state_final state row.pubkey = some row := by
    intro row hrow
    have hnewest : token_account_engine.newest state row.pubkey = some row := by
      refine newest_of_lt _ hrow rfl fun other hother hkey => .inl ?_
      exact List.inj_on_of_nodup_map hnodup hother hrow hkey
    rw [state_final, hnewest, Option.filter_some, hlive row hrow]
    rfl
  rw [final_rows, List.dedup_eq_self.mpr hnodup, List.filterMap_map]
  have hsome :
      state.filterMap (state_final state ∘ TokenAccountRow.pubkey) = state.filterMap some :=
    List.filterMap_congr hfinal
  rw [hsome, List.filterMap_some]

/-! ## Archives and runs -/

/-- An archive as the importer is handed it. -/
structure Archive where
  slot : Slot
  append_vecs : List AppendVec
deriving DecidableEq

def Archive.versions (a : Archive) : List AccountVersion := SnapshotEtl.versions a.append_vecs

/-- One pubkey and slot name one version. -/
def OneVersion (seen : List AccountVersion) : Prop :=
  ∀ v ∈ seen, ∀ v' ∈ seen, v.pubkey = v'.pubkey → v.slot = v'.slot → v = v'

/-- A group and the slot of the archive it was last imported from. -/
structure ImportedGroup where
  tables : Group
  slot : Slot

section Runs

variable (dec : Decoders) (group : TableGroup) (hot_mints : Finset String)

def full_worker (slot : Slot) : Worker := .new group .Full slot hot_mints

def incremental_worker (slot : Slot) : Worker := .new group .Incremental slot hot_mints

namespace ImportedGroup

/-- A full build. -/
def full (a : Archive) : ImportedGroup :=
  ⟨.import_full ((full_worker group hot_mints a.slot).lane dec a.append_vecs) a.slot, a.slot⟩

/-- A completed incremental of a later slot. -/
def step (s : ImportedGroup) (a : Archive) : Option ImportedGroup :=
  if s.slot < a.slot then
    some ⟨s.tables.import_incremental
      ((incremental_worker group hot_mints a.slot).lane dec a.append_vecs) a.slot, a.slot⟩
  else none

end ImportedGroup

variable {dec group hot_mints}

/-- A stored row is the row of a version, or the tombstone of one that closes. -/
def FromVersions (dec : Decoders) (hot_mints : Finset String) (seen : List AccountVersion)
    (state : List TokenAccountRow) : Prop :=
  ∀ row ∈ state,
    (row.is_deleted = 0 ∧ ∃ v ∈ seen, dec.hot_row hot_mints v = some row) ∨
    (row.is_deleted ≠ 0 ∧ ∃ v ∈ seen, dec.closes v.account = true ∧ v.pubkey = row.pubkey ∧
      v.slot = row.updated_slot)

/-- A row that is written is the hot row of its version. -/
theorem written_row_spec {w : Worker} {v : AccountVersion} {row : TokenAccountRow}
    (h : w.written_row dec v = some row) : dec.hot_row w.hot_mints v = some row :=
  (Option.filter_eq_some_iff.mp h).1

/-- Every live row of a lane is of one of its versions. -/
theorem lane_row_of_version {w : Worker} {append_vecs : List AppendVec} {row : TokenAccountRow}
    (h : row ∈ token_account_rows (w.lane dec append_vecs).rows) :
    ∃ v ∈ versions append_vecs, dec.hot_row w.hot_mints v = some row := by
  rw [Worker.lane_token_account_rows] at h
  obtain ⟨v, hv, hrow⟩ := List.mem_filterMap.mp h
  exact ⟨v, hv, written_row_spec hrow⟩

section Incremental

variable {slot : Slot} {append_vecs : List AppendVec}

/-- An incremental writes every hot row. -/
theorem incremental_written_row (v : AccountVersion) :
    (incremental_worker group hot_mints slot).written_row dec v = dec.hot_row hot_mints v := by
  have hretain : ∀ amount, (incremental_worker group hot_mints
      slot).zero_balance_token_account_policy.writes_live_amount amount = true := by
    intro amount
    simp [incremental_worker, Worker.new, SnapshotKind.zero_balance_token_account_policy,
      ZeroBalanceTokenAccountPolicy.writes_live_amount]
  rw [Worker.written_row]
  simp only [hretain]
  change (dec.hot_row hot_mints v).filter (fun _ => true) = _
  cases dec.hot_row hot_mints v <;> rfl

/-- The rows of an incremental are the hot rows of its versions. -/
theorem mem_incremental_rows {row : TokenAccountRow} :
    row ∈ token_account_rows ((incremental_worker group hot_mints slot).lane dec append_vecs).rows ↔
      ∃ v ∈ versions append_vecs, dec.hot_row hot_mints v = some row := by
  rw [Worker.lane_token_account_rows, List.mem_filterMap]
  simp only [incremental_written_row]

/-- It refreshes the pairs of its rows. -/
theorem incremental_row_affected {row : TokenAccountRow}
    (h : row ∈ token_account_rows
      ((incremental_worker group hot_mints slot).lane dec append_vecs).rows) :
    row.pair ∈ ((incremental_worker group hot_mints slot).lane dec append_vecs).affected_pairs := by
  rw [Worker.lane_token_account_rows] at h
  obtain ⟨v, hv, hrow⟩ := List.mem_filterMap.mp h
  exact Worker.mem_lane_affected_pairs.mpr ⟨rfl, v, hv, row, hrow, rfl⟩

/-- A tombstone is of a version that closes, and has its slot. -/
theorem incremental_tombstone {g : Group} {row : TokenAccountRow}
    (h : row ∈ (g.insert_all ((incremental_worker group hot_mints slot).lane dec
        append_vecs).rows).tombstones
      ((incremental_worker group hot_mints slot).lane dec append_vecs)) :
    ∃ v ∈ versions append_vecs, dec.closes v.account = true ∧ v.pubkey = row.pubkey ∧
      v.slot = row.updated_slot := by
  obtain ⟨candidate, hcandidate, hclose⟩ := mem_tombstones.mp h
  obtain ⟨⟨v, hv, hcloses, hkey, hslot⟩, -⟩ := Worker.lane_closed_lookup hcandidate
  obtain ⟨previous, -, -, -, -, heq⟩ := close_tombstone_eq_some.mp hclose
  refine ⟨v, hv, hcloses, hkey, ?_⟩
  rw [heq]
  exact hslot

/-- One import: its slot is later, and the tables are those of the incremental. -/
theorem ImportedGroup.step_eq_some {s s' : ImportedGroup} {a : Archive} :
    s.step dec group hot_mints a = some s' ↔ s.slot < a.slot ∧
      s' = ⟨s.tables.import_incremental
        ((incremental_worker group hot_mints a.slot).lane dec a.append_vecs) a.slot, a.slot⟩ := by
  rw [ImportedGroup.step, Option.ite_none_right_eq_some, Option.some.injEq, eq_comm (b := s')]

end Incremental

/-- An incremental adds rows of its versions. -/
theorem FromVersions.import_incremental (group : TableGroup) {g : Group}
    {seen : List AccountVersion} {a : Archive}
    (h : FromVersions dec hot_mints seen g.hot_token_account_state)
    (ha : ∀ v ∈ a.versions, v ∈ seen) :
    FromVersions dec hot_mints seen (g.import_incremental
      ((incremental_worker group hot_mints a.slot).lane dec a.append_vecs)
      a.slot).hot_token_account_state := by
  intro row hrow
  rcases mem_import_incremental_state.mp hrow with hold | hlive | htomb
  · exact h row hold
  · obtain ⟨v, hv, hrow⟩ := mem_incremental_rows.mp hlive
    exact .inl ⟨(Decoders.hot_row_spec hrow).2.2.1, v, ha v hv, hrow⟩
  · have hdeleted := tombstone_is_deleted htomb
    obtain ⟨v, hv, hcloses, hkey, hslot⟩ := incremental_tombstone htomb
    exact .inr ⟨by omega, v, ha v hv, hcloses, hkey, hslot⟩

/-- One version per pubkey and slot makes one row. -/
theorem FromVersions.one_row {g : Group} {lane : LaneState} {snapshot_slot : Slot}
    {seen : List AccountVersion} (hversions : OneVersion seen)
    (hold : token_account_engine.OneRow g.hot_token_account_state)
    (hlive : ∀ row ∈ token_account_rows lane.rows, row.is_deleted = 0)
    (h : FromVersions dec hot_mints seen
      (g.import_incremental lane snapshot_slot).hot_token_account_state) :
    token_account_engine.OneRow
      (g.import_incremental lane snapshot_slot).hot_token_account_state := by
  intro r hr s hs hkey hslot
  change r.pubkey = s.pubkey at hkey
  change r.updated_slot = s.updated_slot at hslot
  -- a live row and a tombstone of one version: the version would be hot and close
  have hmixed : ∀ v ∈ seen, ∀ v' ∈ seen, ∀ live tomb : TokenAccountRow,
      dec.hot_row hot_mints v = some live → dec.closes v'.account = true →
      v'.pubkey = tomb.pubkey → v'.slot = tomb.updated_slot → live.pubkey = tomb.pubkey →
      live.updated_slot = tomb.updated_slot → False := by
    intro v hv v' hv' live tomb hrow hcloses hkey' hslot' hsame hat
    obtain ⟨hvkey, hvslot, -⟩ := Decoders.hot_row_spec hrow
    obtain rfl := hversions v hv v' hv' (hvkey.symm.trans (hsame.trans hkey'.symm))
      (hvslot.symm.trans (hat.trans hslot'.symm))
    rw [Decoders.hot_row_of_closes hcloses] at hrow
    cases hrow
  rcases h r hr with ⟨hropen, v, hv, hvrow⟩ | ⟨hrdeleted, v, hv, hvcloses, hvkey, hvslot⟩
  · rcases h s hs with ⟨hsopen, v', hv', hvrow'⟩ | ⟨hsdeleted, v', hv', hvcloses', hvkey', hvslot'⟩
    · obtain ⟨hk, hsl, -⟩ := Decoders.hot_row_spec hvrow
      obtain ⟨hk', hsl', -⟩ := Decoders.hot_row_spec hvrow'
      obtain rfl := hversions v hv v' hv' (hk.symm.trans (hkey.trans hk'))
        (hsl.symm.trans (hslot.trans hsl'))
      exact Option.some.inj (hvrow.symm.trans hvrow')
    · exact (hmixed v hv v' hv' r s hvrow hvcloses' hvkey' hvslot' hkey hslot).elim
  · rcases h s hs with ⟨hsopen, v', hv', hvrow'⟩ | ⟨hsdeleted, -⟩
    · exact (hmixed v' hv' v hv s r hvrow' hvcloses hvkey hvslot hkey.symm hslot.symm).elim
    · rcases mem_import_incremental_state.mp hr with hr' | hr' | hr'
      · rcases mem_import_incremental_state.mp hs with hs' | hs' | hs'
        · exact hold r hr' s hs' hkey hslot
        · exact absurd (hlive s hs') hsdeleted
        · rcases g.tombstone_last hs' r hr hkey with heq | hlt
          · exact heq
          · exact absurd hslot hlt.ne
      · exact absurd (hlive r hr') hrdeleted
      · rcases g.tombstone_last hr' s hs hkey.symm with heq | hlt
        · exact heq.symm
        · exact absurd hslot.symm hlt.ne

/-- What a run of imports keeps, where nothing is dropped. -/
structure Built (dec : Decoders) (hot_mints : Finset String) (seen : List AccountVersion)
    (s : ImportedGroup) : Prop where
  from_versions : FromVersions dec hot_mints seen s.tables.hot_token_account_state
  one_row : token_account_engine.OneRow s.tables.hot_token_account_state

theorem import_full_state (lane : LaneState) (s : Slot) :
    (Group.import_full lane s).hot_token_account_state = token_account_rows lane.rows :=
  Group.insert_all_state ..

/-- The rows of versions of different pubkeys are of different pubkeys. -/
theorem map_pubkey_sublist (w : Worker) (vs : List AccountVersion) :
    ((vs.filterMap (w.written_row dec)).map TokenAccountRow.pubkey).Sublist
      (vs.map AccountVersion.pubkey) := by
  induction vs with
  | nil => exact List.Sublist.slnil
  | cons v vs ih =>
      cases hrow : w.written_row dec v with
      | none =>
          rw [List.filterMap_cons_none hrow]
          exact ih.cons _
      | some row =>
          rw [List.filterMap_cons_some hrow, List.map_cons, List.map_cons,
            (Decoders.hot_row_spec (written_row_spec hrow)).1]
          exact ih.cons_cons _

section Full

variable {a : Archive} (hcanonical : (a.versions.map AccountVersion.pubkey).Nodup)

/-- The L2 rows of a full are the rows its worker writes. -/
theorem full_state : (ImportedGroup.full dec group hot_mints a).tables.hot_token_account_state
    = a.versions.filterMap ((full_worker group hot_mints a.slot).written_row dec) := by
  rw [ImportedGroup.full, import_full_state, Worker.lane_token_account_rows]
  rfl

/-- Each row of a full is the hot row of a version. -/
theorem full_row_of_version {row : TokenAccountRow}
    (h : row ∈ (ImportedGroup.full dec group hot_mints a).tables.hot_token_account_state) :
    ∃ v ∈ a.versions, dec.hot_row hot_mints v = some row := by
  rw [full_state] at h
  obtain ⟨v, hv, hrow⟩ := List.mem_filterMap.mp h
  exact ⟨v, hv, written_row_spec hrow⟩

include hcanonical in
/-- A canonical archive has one row of a pubkey. -/
theorem full_state_nodup :
    ((ImportedGroup.full dec group hot_mints a).tables.hot_token_account_state.map
      TokenAccountRow.pubkey).Nodup := by
  rw [full_state]
  exact (map_pubkey_sublist _ a.versions).nodup hcanonical

include hcanonical in
/-- A full is built from the versions of its archive. -/
theorem built_full {seen : List AccountVersion} (ha : ∀ v ∈ a.versions, v ∈ seen) :
    Built dec hot_mints seen (.full dec group hot_mints a) := by
  refine ⟨fun row hmem => ?_, fun r hr s hs hkey _ => ?_⟩
  · obtain ⟨v, hv, hvrow⟩ := full_row_of_version hmem
    exact .inl ⟨(Decoders.hot_row_spec hvrow).2.2.1, v, ha v hv, hvrow⟩
  · exact List.inj_on_of_nodup_map (full_state_nodup hcanonical) hr hs hkey

include hcanonical in
/-- **A full build is right**: the rows are those of one version per pubkey, and the
balances their sums. -/
theorem balanced_full : (ImportedGroup.full dec group hot_mints a).tables.Balanced := by
  intro pair
  have hbalance : (ImportedGroup.full dec group hot_mints a).tables.hot_wallet_token_balance
      = wallet_balance_rows
        (ImportedGroup.full dec group hot_mints a).tables.hot_token_account_state := rfl
  rw [hbalance, balance_final_wallet_balance_rows,
    final_rows_of_nodup (full_state_nodup hcanonical)]
  intro row hmem
  obtain ⟨v, -, hv⟩ := full_row_of_version hmem
  exact (Decoders.hot_row_spec hv).2.2.1

/-- Its balances are of slots of its accounts. -/
theorem full_balance_slots (hslots : ∀ v ∈ a.versions, v.slot ≤ a.slot) :
    ∀ row ∈ (ImportedGroup.full dec group hot_mints a).tables.hot_wallet_token_balance,
      row.updated_slot ≤ a.slot := by
  intro row hmem
  refine (mem_wallet_balance_rows hmem).2 a.slot fun r hr => ?_
  obtain ⟨v, hv, hvrow⟩ : ∃ v ∈ a.versions, dec.hot_row hot_mints v = some r :=
    full_row_of_version hr
  rw [(Decoders.hot_row_spec hvrow).2.1]
  exact hslots v hv

end Full

/-- The live rows of an incremental are not deleted ones. -/
theorem incremental_rows_live {slot : Slot} {append_vecs : List AppendVec} :
    ∀ row ∈ token_account_rows
        ((incremental_worker group hot_mints slot).lane dec append_vecs).rows,
      row.is_deleted = 0 := by
  intro row hrow
  obtain ⟨v, -, hv⟩ := mem_incremental_rows.mp hrow
  exact (Decoders.hot_row_spec hv).2.2.1

/-- An incremental adds rows of its versions, one for each. -/
theorem Built.step {seen : List AccountVersion} {s s' : ImportedGroup} {a : Archive}
    (hversions : OneVersion seen) (hs : Built dec hot_mints seen s)
    (ha : ∀ v ∈ a.versions, v ∈ seen) (h : s.step dec group hot_mints a = some s') :
    Built dec hot_mints seen s' := by
  obtain ⟨-, rfl⟩ := ImportedGroup.step_eq_some.mp h
  have hfrom := hs.from_versions.import_incremental group ha
  exact ⟨hfrom, hfrom.one_row hversions hs.one_row incremental_rows_live⟩

/-- What is stable after a run was stable before it. -/
theorem PairStable.of_run {s s' : ImportedGroup} {archives : List Archive}
    (hrun : Lts.run (ImportedGroup.step dec group hot_mints) s archives = some s')
    (h : PairStable s'.tables.hot_token_account_state) :
    PairStable s.tables.hot_token_account_state := by
  induction archives generalizing s with
  | nil =>
      obtain rfl : s = s' := by simpa using hrun
      exact h
  | cons a archives ih =>
      obtain ⟨t, ht, hrun⟩ := Lts.run_cons_eq_some.mp hrun
      have hstable := ih hrun
      obtain ⟨-, rfl⟩ := ImportedGroup.step_eq_some.mp ht
      exact hstable.of_import incremental_rows_live

end Runs

/-! ## Accounts to run this on -/

/-- Decoders that read a token account of one mint and owner from its amount. -/
def Decoders.amount_only : Decoders :=
  { Decoders.accept_nothing with
    unpack_account := fun data => data.head?.map fun amount =>
      ⟨.of_be 7, .of_be 8, amount.toNat, none, .Initialized, 0, none⟩ }

/-- Its pair. -/
def wallet : TokenPair := (pubkey_string (.of_be 7), pubkey_string (.of_be 8))

/-- A token account holding an amount, and a closed one. -/
def holding (pubkey : ℕ) (amount : UInt8) : StoredAccountMeta :=
  ⟨⟨account_len, .of_be pubkey⟩, ⟨1, spl_token_id, false⟩, [amount]⟩

def closed (pubkey : ℕ) : StoredAccountMeta := ⟨⟨0, .of_be pubkey⟩, ⟨0, .default, false⟩, []⟩

instance (state : List TokenAccountRow) : Decidable (PairStable state) := by
  unfold PairStable
  infer_instance

end SnapshotEtl
