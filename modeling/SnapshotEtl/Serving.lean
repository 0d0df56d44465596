/-
From the chain to the balances that are served.

A node leaves a full archive and incrementals behind; a group is built from the
full one and taken through the incrementals that the watcher selects, one after
the other, while ClickHouse merges its parts as it likes. What
`hot_wallet_token_balance` then shows of a mint and an owner is their sum over the
chain, at the highest slot that the archives lead to.

Two conditions on the chain stand behind this. From one watermark to the next a
hot token account ends as one or closed (`Chain.Regular`), and it is one of a
single mint and owner all along (`Chain.OnePair`), so that merges hide no tombstone
another pair would need. The archives themselves are only required to hold what
their names say.
-/
import SnapshotEtl.Bridge
import SnapshotEtl.ArchiveSelection
import SnapshotEtl.ZeroBalances
import Mathlib.Algebra.BigOperators.Finprod

set_option autoImplicit false

namespace SnapshotEtl

open Replacing Lib

/-! ## The full build -/

section Full

variable {dec : Decoders} {group : TableGroup} {hot_mints : Finset String} {c : Chain}
  {a : Archive}

/-- A full build writes the hot accounts that hold something. -/
theorem full_written_row {v : AccountVersion} {row : TokenAccountRow} :
    (full_worker group hot_mints a.slot).written_row dec v = some row ↔
      dec.hot_row hot_mints v = some row ∧ row.amount ≠ 0 := by
  have hpositive : ∀ amount, (full_worker group hot_mints
      a.slot).zero_balance_token_account_policy.writes_live_amount amount = true ↔ amount ≠ 0 := by
    intro amount
    simp [full_worker, Worker.new, SnapshotKind.zero_balance_token_account_policy,
      ZeroBalanceTokenAccountPolicy.writes_live_amount, Nat.pos_iff_ne_zero]
  rw [Worker.written_row, Option.filter_eq_some_iff, hpositive]
  rfl

theorem mem_full_state {row : TokenAccountRow} :
    row ∈ (ImportedGroup.full dec group hot_mints a).tables.hot_token_account_state ↔
      ∃ v ∈ a.versions, dec.hot_row hot_mints v = some row ∧ row.amount ≠ 0 := by
  simp only [full_state, List.mem_filterMap, full_written_row]

/-- **The full build tracks the chain**, up to the accounts it omits. -/
theorem Chain.HoldsFull.tracks (h : c.HoldsFull a.slot a.append_vecs)
    (hnodup : (a.versions.map AccountVersion.pubkey).Nodup) :
    c.Tracks dec hot_mints (ImportedGroup.full dec group hot_mints a).tables.hot_token_account_state
      a.slot fun _ => True := by
  refine ⟨fun pubkey row hshown => ?_, fun p row hlive => ?_, fun row hrow => ?_⟩
  · obtain ⟨-, -, hnewest⟩ := state_final_spec hshown
    obtain ⟨v, hv, hrow, -⟩ := mem_full_state.mp hnewest.mem
    refine ⟨v.account.stored_meta.pubkey, ?_, ?_⟩
    · rw [← hnewest.key_eq]
      exact (Decoders.hot_row_spec hrow).1
    · rw [Chain.live_row, ((h v).mp hv).1]
      exact hrow
  · obtain ⟨v, hlast, hrow⟩ := Option.bind_eq_some_iff.mp hlive
    have hp := last_pubkey hlast
    subst hp
    have hlisted : v ∈ a.versions := by
      refine (h v).mpr ⟨hlast, Bool.eq_false_of_not_eq_true fun hempty => ?_⟩
      rw [Decoders.hot_row_of_closes (Decoders.closes_of_canonical_empty hempty)] at hrow
      cases hrow
    by_cases hzero : row.amount = 0
    · refine .inr ⟨?_, hzero, trivial⟩
      rw [Option.eq_none_iff_forall_ne_some]
      intro other hshown
      obtain ⟨-, -, hnewest⟩ := state_final_spec hshown
      obtain ⟨v', hv', hrow', hamount⟩ := mem_full_state.mp hnewest.mem
      -- the row shown would be of the same version
      have hkey : v'.account.stored_meta.pubkey = v.account.stored_meta.pubkey :=
        pubkey_string_inj ((Decoders.hot_row_spec hrow').1.symm.trans hnewest.key_eq)
      have hlast' := ((h v').mp hv').1
      rw [hkey, hlast] at hlast'
      obtain rfl := Option.some.inj hlast'
      rw [hrow] at hrow'
      obtain rfl := Option.some.inj hrow'
      exact hamount hzero
    · left
      obtain ⟨hkey, -, hopen, -⟩ := Decoders.hot_row_spec hrow
      have hmem : row ∈ (ImportedGroup.full dec group hot_mints a).tables.hot_token_account_state :=
        mem_full_state.mpr ⟨v, hlisted, hrow, hzero⟩
      obtain ⟨n, hn⟩ := exists_newest token_account_engine hmem
      have hsame := List.inj_on_of_nodup_map (full_state_nodup hnodup)
        (newest_spec _ hn).mem hmem (newest_spec _ hn).key_eq
      subst hsame
      change token_account_engine.newest _ n.pubkey = some n at hn
      change state_final _ v.pubkey = some n
      rw [← hkey, state_final, hn, Option.filter_some, hopen]
      rfl
  · obtain ⟨v, hv, hvrow, -⟩ := mem_full_state.mp hrow
    rw [(Decoders.hot_row_spec hvrow).2.1]
    exact (last_spec ((h v).mp hv).1).2

end Full

/-! ## From one watermark to the next -/

/-- What the chain keeps to between two watermarks: a hot token account ends as one, or
closed. -/
def Chain.Regular (c : Chain) (dec : Decoders) (hot_mints : Finset String)
    (base slot : Slot) : Prop :=
  ∀ p v, (c.live_row dec hot_mints p base).isSome → c.last p slot = some v → base < v.slot →
    (dec.hot_row hot_mints v).isSome ∨ canonical_empty v.account = true

/-- A pubkey is a hot token account of one mint and owner only. -/
def Chain.OnePair (c : Chain) (dec : Decoders) (hot_mints : Finset String) : Prop :=
  ∀ p m n q r, c.live_row dec hot_mints p m = some q → c.live_row dec hot_mints p n = some r →
    q.pair = r.pair

section Run

variable (dec : Decoders) (group : TableGroup) (hot_mints : Finset String)

/-- A lane applies an eligible incremental, its group merged in between. -/
def ImportedGroup.apply_incremental_merged (s : ImportedGroup)
    (l : ListedIncremental × StateMerges) : Option ImportedGroup :=
  if l.1.candidate ∈ eligible_candidates l.1.listing s.slot then
    s.step_merged dec group hot_mints (⟨l.1.candidate.slot, l.1.append_vecs.filter fun av =>
      should_process_append_vec_slot (some s.slot) av.slot⟩, l.2)
  else none

variable {dec group hot_mints} {c : Chain}

/-- What is shown of a table is shown of it merged. -/
theorem Chain.Tracks.of_merged {state merged : List TokenAccountRow} {m : Slot}
    {omitted : Pubkey → Prop} (h : c.Tracks dec hot_mints state m omitted)
    (hmerged : token_account_engine.Merged state merged) :
    c.Tracks dec hot_mints merged m omitted := by
  have hshown : ∀ pubkey, state_final merged pubkey = state_final state pubkey :=
    fun pubkey => state_final_congr (hmerged.newest pubkey)
  refine ⟨fun pubkey row hrow => ?_, fun p row hlive => ?_, fun row hrow => ?_⟩
  · exact h.shown_live pubkey row ((hshown pubkey).symm.trans hrow)
  · rw [hshown]
    exact h.live_shown p row hlive
  · exact h.slots row (hmerged.sublist.subset hrow)

/-- Every row of a table is of the pair that the chain has its pubkey in. -/
def Chain.Pairs (c : Chain) (dec : Decoders) (hot_mints : Finset String)
    (state : List TokenAccountRow) : Prop :=
  ∀ row ∈ state, ∃ p m q, c.live_row dec hot_mints p m = some q ∧ row.pubkey = pubkey_string p ∧
    row.pair = q.pair

/-- So there is one for each pubkey. -/
theorem Chain.Pairs.one_pair {state : List TokenAccountRow} (h : c.Pairs dec hot_mints state)
    (hone : c.OnePair dec hot_mints) :
    ∀ r ∈ state, ∀ s ∈ state, r.pubkey = s.pubkey → r.pair = s.pair := by
  intro r hr s hs hkey
  obtain ⟨p, m, q, hlive, hp, hpair⟩ := h r hr
  obtain ⟨p', m', q', hlive', hp', hpair'⟩ := h s hs
  obtain rfl : p = p' := pubkey_string_inj (hp.symm.trans (hkey.trans hp'))
  rw [hpair, hpair', hone p m m' q q' hlive hlive']

/-- A group that has been built and kept from archives of the chain. -/
structure Chain.Serves (c : Chain) (dec : Decoders) (hot_mints : Finset String)
    (s : ImportedGroup) : Prop where
  tracks : c.Tracks dec hot_mints s.tables.hot_token_account_state s.slot fun _ => True
  steady : Steady s
  pairs : c.Pairs dec hot_mints s.tables.hot_token_account_state

variable (group) in
/-- The rows an incremental adds are of the pairs of the chain. -/
theorem Chain.Pairs.import_incremental {g : Group} {slot : Slot} {append_vecs : List AppendVec}
    (h : c.Pairs dec hot_mints g.hot_token_account_state)
    (hlast : ∀ v ∈ versions append_vecs, c.last v.account.stored_meta.pubkey slot = some v) :
    c.Pairs dec hot_mints (g.import_incremental ((incremental_worker group hot_mints slot).lane
      dec append_vecs) slot).hot_token_account_state := by
  -- the rows of the versions, which are live at the slot
  have hlive : ∀ row ∈ token_account_rows
      ((incremental_worker group hot_mints slot).lane dec append_vecs).rows,
        ∃ p m q, c.live_row dec hot_mints p m = some q ∧ row.pubkey = pubkey_string p ∧
          row.pair = q.pair := by
    intro row hrow
    obtain ⟨v, hv, hvrow⟩ := mem_incremental_rows.mp hrow
    refine ⟨v.account.stored_meta.pubkey, slot, row, ?_, (Decoders.hot_row_spec hvrow).1, rfl⟩
    rw [Chain.live_row, hlast v hv]
    exact hvrow
  intro row hrow
  rcases mem_import_incremental_state.mp hrow with hrow | hrow | htomb
  · exact h row hrow
  · exact hlive row hrow
  · -- a tombstone has the pair of a row there was
    obtain ⟨previous, hprevious, hpair⟩ := tombstone_pair htomb
    have hnewest := (state_final_spec hprevious).2.2
    have hmem := hnewest.mem
    rw [Group.insert_all_state] at hmem
    have hkey : previous.pubkey = row.pubkey := hnewest.key_eq
    rw [hpair, ← hkey]
    rcases List.mem_append.mp hmem with hold | hnew
    · exact h previous hold
    · exact hlive previous hnew

/-- **One incremental**, with whatever merges. -/
theorem Chain.Serves.apply_incremental {s s' : ImportedGroup} {l : ListedIncremental × StateMerges}
    (hs : c.Serves dec hot_mints s)
    (hholds : c.HoldsIncremental l.1.candidate.base_slot l.1.candidate.slot l.1.append_vecs)
    (hregular : c.Regular dec hot_mints s.slot l.1.candidate.slot)
    (hone : c.OnePair dec hot_mints)
    (h : s.apply_incremental_merged dec group hot_mints l = some s') :
    c.Serves dec hot_mints s' := by
  obtain ⟨heligible, h⟩ := Option.ite_none_right_eq_some.mp h
  obtain ⟨-, hbase, hlt⟩ := mem_eligible_candidates.mp heligible
  have hmem : ∀ v, v ∈ versions (l.1.append_vecs.filter fun av =>
      should_process_append_vec_slot (some s.slot) av.slot) ↔
        s.slot < v.slot ∧ c.last v.account.stored_meta.pubkey l.1.candidate.slot = some v :=
    fun v => mem_window hholds hbase
  have hcanonical := canonical_of_last (c := c) fun v hv => ((hmem v).mp hv).2
  have hshown : ∀ p q, state_final s.tables.hot_token_account_state (pubkey_string p) = some q →
      c.live_row dec hot_mints p s.slot = some q := by
    intro p q hq
    obtain ⟨p', hkey, hlive⟩ := hs.tracks.shown_live _ q hq
    rw [pubkey_string_inj hkey]
    exact hlive
  -- the table as it would be without merges
  have hunmerged : s.apply_incremental dec group hot_mints l.1
      = some ⟨s.tables.import_incremental ((incremental_worker group hot_mints
          l.1.candidate.slot).lane dec (l.1.append_vecs.filter fun av =>
            should_process_append_vec_slot (some s.slot) av.slot)) l.1.candidate.slot,
          l.1.candidate.slot⟩ := by
    rw [ImportedGroup.apply_incremental, if_pos heligible, ImportedGroup.step, if_pos hlt]
  have htracks := (hs.tracks.apply_incremental ⟨hholds, fun p v hp => by
    obtain ⟨q, hq⟩ := Option.isSome_iff_exists.mp hp
    exact hregular p v (by rw [hshown p q hq]; rfl)⟩ hunmerged).2
  have hpairs := hs.pairs.import_incremental group fun v hv => ((hmem v).mp hv).2
  have hmerged := s.tables.merged_import ((incremental_worker group hot_mints
    l.1.candidate.slot).lane dec (l.1.append_vecs.filter fun av =>
      should_process_append_vec_slot (some s.slot) av.slot)) l.1.candidate.slot l.2
  have hadmitted : Admitted dec s ⟨hot_mints, ⟨l.1.candidate.slot, l.1.append_vecs.filter
      fun av => should_process_append_vec_slot (some s.slot) av.slot⟩⟩ := by
    refine ⟨fun v hv => ⟨((hmem v).mp hv).1, (last_spec ((hmem v).mp hv).2).2⟩, ?_, ?_⟩
    · -- there is one version of a pubkey
      intro row hrow row' hrow' hkey
      obtain ⟨v, hv, hvrow⟩ := List.mem_filterMap.mp hrow
      obtain ⟨v', hv', hvrow'⟩ := List.mem_filterMap.mp hrow'
      obtain rfl := hcanonical v hv v' hv'
        ((Decoders.hot_row_spec hvrow).1.symm.trans (hkey.trans (Decoders.hot_row_spec hvrow').1))
      rw [Option.some.inj (hvrow.symm.trans hvrow')]
    · intro row hrow before hbefore
      obtain ⟨v, hv, hvrow⟩ := List.mem_filterMap.mp hrow
      rw [(Decoders.hot_row_spec hvrow).1] at hbefore
      refine hone v.account.stored_meta.pubkey l.1.candidate.slot s.slot row before ?_
        (hshown _ before hbefore)
      rw [Chain.live_row, ((hmem v).mp hv).2]
      exact hvrow
  have hsteady := hs.steady.step (i := (⟨hot_mints, ⟨l.1.candidate.slot, l.1.append_vecs.filter
    fun av => should_process_append_vec_slot (some s.slot) av.slot⟩⟩, l.2)) hadmitted
    (keeps_tombstones_of_one_pair hmerged (hpairs.one_pair hone)) h
  obtain ⟨-, rfl⟩ := ImportedGroup.step_merged_eq_some.mp h
  refine ⟨Chain.Tracks.of_merged { htracks with live_shown := fun p row hlive => ?_ } hmerged,
    hsteady, fun row hrow => hpairs row (hmerged.sublist.subset hrow)⟩
  rcases htracks.live_shown p row hlive with hshown | ⟨hhidden, hzero, -⟩
  · exact .inl hshown
  · exact .inr ⟨hhidden, hzero, trivial⟩

/-! ## Through all that is selected -/

/-- An archive of the directory, as a lane is handed it. -/
def listed (snapshots : List IncrementalSnapshot)
    (contents : IncrementalSnapshot → List AppendVec) (candidate : IncrementalSnapshot) :
    ListedIncremental :=
  ⟨snapshots, candidate, contents candidate⟩

variable (group) in
/-- A lane applies what is selected for it, and keeps serving. -/
theorem Chain.Serves.select_all {snapshots : List IncrementalSnapshot}
    {contents : IncrementalSnapshot → List AppendVec}
    (merges : IncrementalSnapshot → StateMerges)
    (hholds : ∀ s ∈ snapshots, c.HoldsIncremental s.base_slot s.slot (contents s))
    (hone : c.OnePair dec hot_mints) (slot : Slot) :
    ∀ s : ImportedGroup, s.slot = slot → c.Serves dec hot_mints s →
      List.IsChain (c.Regular dec hot_mints)
        (slot :: (SnapshotEtl.select_all snapshots slot).map IncrementalSnapshot.slot) →
      ∃ s', Lts.run (ImportedGroup.apply_incremental_merged dec group hot_mints) s
          ((SnapshotEtl.select_all snapshots slot).map fun candidate =>
            (listed snapshots contents candidate, merges candidate)) = some s' ∧
        c.Serves dec hot_mints s' ∧ s'.slot = selected_slot snapshots slot := by
  -- the induction of the selection, with the group that has been served so far
  refine select_all_induction (P := fun slot selected => ∀ s : ImportedGroup, s.slot = slot →
    c.Serves dec hot_mints s →
      List.IsChain (c.Regular dec hot_mints) (slot :: selected.map IncrementalSnapshot.slot) →
      ∃ s', Lts.run (ImportedGroup.apply_incremental_merged dec group hot_mints) s
          (selected.map fun candidate =>
            (listed snapshots contents candidate, merges candidate)) = some s' ∧
        c.Serves dec hot_mints s' ∧
          s'.slot = Jumps.final IncrementalSnapshot.slot slot selected)
    (fun slot _ s hslot hs _ => ⟨s, rfl, hs, hslot⟩)
    (fun slot snapshot h ih s hslot hs hregular => ?_)
    slot
  subst hslot
  obtain ⟨hmem, hopen⟩ := newest_eligible_incremental_spec h
  have heligible : snapshot ∈ eligible_candidates snapshots s.slot :=
    mem_eligible_candidates.mpr ⟨hmem, hopen⟩
  -- the selected archive is eligible in the listing, so it is applied
  obtain ⟨t, ht⟩ : ∃ t, s.apply_incremental_merged dec group hot_mints
      (listed snapshots contents snapshot, merges snapshot) = some t := by
    refine Option.isSome_iff_exists.mp ?_
    simp [ImportedGroup.apply_incremental_merged, listed, heligible, ImportedGroup.step_merged,
      hopen.2]
  rw [List.map_cons, List.isChain_cons_cons] at hregular
  have hserves := hs.apply_incremental (hholds snapshot hmem) hregular.1 hone ht
  have htslot : t.slot = snapshot.slot := by
    obtain ⟨-, ht⟩ := Option.ite_none_right_eq_some.mp ht
    obtain ⟨-, rfl⟩ := ImportedGroup.step_merged_eq_some.mp ht
    rfl
  obtain ⟨s', hrun, hserves', hslot'⟩ := ih t htslot hserves hregular.2
  refine ⟨s', ?_, hserves', hslot'⟩
  rw [List.map_cons, Lts.run_cons, ht]
  exact hrun

/-! ## What is served -/

/-- A table that tracks the chain adds up to it. -/
theorem Chain.Tracks.wallet_balance {state : List TokenAccountRow} {m : Slot}
    {omitted : Pubkey → Prop} (h : c.Tracks dec hot_mints state m omitted) (pair : TokenPair) :
    wallet_balance (final_rows state) pair
      = (∑ᶠ p, amount_in (c.live_row dec hot_mints p m) pair) % u64_modulus := by
  have hsame : ∀ p, amount_in (c.live_row dec hot_mints p m) pair
      = amount_in (state_final state (pubkey_string p)) pair := by
    intro p
    cases hlive : c.live_row dec hot_mints p m with
    | none =>
        cases hshown : state_final state (pubkey_string p) with
        | none => rfl
        | some row =>
            obtain ⟨p', hkey, hlive'⟩ := h.shown_live _ row hshown
            rw [← pubkey_string_inj hkey, hlive] at hlive'
            cases hlive'
    | some row =>
        rcases h.live_shown p row hlive with hshown | ⟨hhidden, hzero, -⟩
        · rw [hshown]
        · simp [hhidden, amount_in, hzero]
  rw [wallet_balance_final_rows, finsum_congr hsame,
    ← finsum_mem_range (f := fun pubkey => amount_in (state_final state pubkey) pair)
      fun _ _ => pubkey_string_inj]
  congr 1
  refine (finsum_mem_eq_sum_of_inter_support_eq _ ?_).symm
  -- a pubkey that counts is one of the chain, and one of the table
  ext pubkey
  simp only [Set.mem_inter_iff, Set.mem_range, Function.mem_support, Finset.mem_coe]
  refine and_congr_left fun hcounts => ?_
  obtain ⟨row, hshown⟩ : ∃ row, state_final state pubkey = some row := by
    by_contra hnone
    rw [Option.eq_none_iff_forall_ne_some.mpr fun row hrow => hnone ⟨row, hrow⟩] at hcounts
    exact hcounts rfl
  obtain ⟨p, hkey, -⟩ := h.shown_live pubkey row hshown
  have hnewest := (state_final_spec hshown).2.2
  exact ⟨fun _ => mem_pubkeys.mpr ⟨row, hnewest.mem, hnewest.key_eq⟩, fun _ => ⟨p, hkey.symm⟩⟩

end Run

end SnapshotEtl
