/-
Which closed accounts become close candidates.

A record without lamports is in scope when a token program or AccountsDb's
normalisation has closed it and it unpacks as nothing. The Token-2022 branch tries
one more format before it gives up, the standalone metadata value, and zeros are
such a value: eighty of them are two default keys, three empty strings and no pairs.
So what the map misses is exactly the records that this parser swallows and that no
other record of the pubkey makes up for.
-/
import SnapshotEtl.MintExtensions
import SnapshotEtl.TokenAccounts
import Mathlib.Order.Bounds.Basic

set_option autoImplicit false

namespace SnapshotEtl

open Lib

/-! ## The decoders of this crate -/

/-- The two Token-2022 parsers of the importer itself beside the unpackers of the
token programs. -/
def Decoders.with_parsers (dec : Decoders) : Decoders :=
  { dec with
    parse_token_2022_mint_extensions := fun data =>
      (SnapshotEtl.parse_token_2022_mint_extensions data).toOption
    parse_token_2022_metadata_value := fun data =>
      (SnapshotEtl.parse_token_2022_metadata_value data).toOption }

/-- The data is taken for a metadata value. -/
def accepts_metadata_value (data : Bytes) : Bool :=
  (parse_token_2022_metadata_value data).toOption.isSome

/-- The Token-2022 branch takes the account for standalone metadata. -/
def Swallowed (account : StoredAccountMeta) : Prop :=
  account.account_meta.owner = token_2022_program_id ∧ accepts_metadata_value account.data = true

/-! ## Scope -/

namespace Decoders

variable (dec : Decoders) (account : StoredAccountMeta)

/-- The data is an initialised token account or an initialised mint of the program that
owns it. The unpackers of SPL Token take their own length only. -/
def unpacks : Bool :=
  let owner := account.account_meta.owner
  if owner = spl_token_id then
    (account.stored_meta.data_len = account_len && (dec.unpack_account account.data).isSome) ||
      (account.stored_meta.data_len = mint_len && (dec.unpack_mint account.data).isSome)
  else if owner = token_2022_program_id then
    (dec.unpack_token_2022_base_state account.data).isSome
  else false

/-- Closed, of a kind that may have been a token account. -/
structure InScope : Prop where
  lamports : account.account_meta.lamports = 0
  kind : is_canonical_empty_account account.stored_meta.data_len account.account_meta.lamports
      account.account_meta.owner account.account_meta.executable = true ∨
    (account.account_meta.owner = spl_token_id ∧ account.stored_meta.data_len = account_len) ∨
    account.account_meta.owner = token_2022_program_id
  empty : dec.unpacks account = false

variable {dec account}

theorem spl_token_id_ne_token_2022 : spl_token_id ≠ token_2022_program_id := by decide

/-- **A record is remembered iff it is in scope and not swallowed.** -/
theorem closes_iff :
    dec.with_parsers.closes account = true ↔ dec.InScope account ∧ ¬ Swallowed account := by
  unfold closes is_close_tombstone_candidate Swallowed accepts_metadata_value
  simp only [Bool.and_eq_true, Bool.or_eq_true, decide_eq_true_eq, Option.isNone_iff_eq_none]
  constructor
  · rintro ⟨hlamports, (hempty | ⟨⟨hspl, hlen⟩, hnone⟩) | ⟨⟨⟨hspl, h2022⟩, hnone⟩, hvalue⟩⟩
    · -- normalised by AccountsDb: the owner is neither program
      have hdefault := (is_canonical_empty_account_owner hempty).2
      refine ⟨⟨hlamports, .inl hempty, ?_⟩, ?_⟩
      · unfold unpacks
        rw [hdefault, if_neg spl_token_id_ne_default.symm,
          if_neg token_2022_program_id_ne_default.symm]
      · rw [hdefault]
        exact fun h => token_2022_program_id_ne_default h.1.symm
    · -- SPL Token: of the length of an account, which is not that of a mint
      refine ⟨⟨hlamports, .inr (.inl ⟨hspl, hlen⟩), ?_⟩, ?_⟩
      · have hmint : ¬ account.stored_meta.data_len = mint_len := by
          rw [hlen]
          decide
        have hunpack : dec.unpack_account account.data = none := hnone
        unfold unpacks
        rw [if_pos hspl, hunpack]
        simp [hmint]
      · rw [hspl]
        exact fun h => spl_token_id_ne_token_2022 h.1
    · -- Token-2022: not a token account or a mint, and not a metadata value either
      refine ⟨⟨hlamports, .inr (.inr h2022), ?_⟩, ?_⟩
      · have hbase : dec.unpack_token_2022_base_state account.data = none := hnone
        unfold unpacks
        rw [if_neg hspl, if_pos h2022, hbase]
        rfl
      · have hparse : (SnapshotEtl.parse_token_2022_metadata_value account.data).toOption = none :=
          hvalue
        rw [hparse]
        exact fun h => by cases h.2
  -- the other way, by the kind of account in scope
  · rintro ⟨⟨hlamports, hkind, hempty⟩, hvalue⟩
    refine ⟨hlamports, ?_⟩
    rcases hkind with hcanonical | ⟨hspl, hlen⟩ | h2022
    · exact .inl (.inl hcanonical)
    · refine .inl (.inr ⟨⟨hspl, hlen⟩, ?_⟩)
      unfold unpacks at hempty
      rw [if_pos hspl] at hempty
      simp only [hlen, decide_true, Bool.true_and, Bool.or_eq_false_iff] at hempty
      exact Option.isSome_eq_false_iff.mp hempty.1 |> Option.isNone_iff_eq_none.mp
    · have hspl : account.account_meta.owner ≠ spl_token_id := by
        rw [h2022]
        exact spl_token_id_ne_token_2022.symm
      refine .inr ⟨⟨⟨hspl, h2022⟩, ?_⟩, ?_⟩
      · unfold unpacks at hempty
        rw [if_neg hspl, if_pos h2022] at hempty
        exact Option.isNone_iff_eq_none.mp (Option.isSome_eq_false_iff.mp hempty)
      · show (SnapshotEtl.parse_token_2022_metadata_value account.data).toOption = none
        apply Option.isNone_iff_eq_none.mp
        apply Option.isSome_eq_false_iff.mp
        rw [← Bool.not_eq_true]
        exact fun h => hvalue ⟨h2022, h⟩

end Decoders

/-! ## The map of a worker -/

/-- The slots at which a pubkey has a record in scope. -/
def scope_slots (dec : Decoders) (append_vecs : List AppendVec) (pubkey : String) : Set Slot :=
  {slot | ∃ v ∈ versions append_vecs, dec.InScope v.account ∧ v.pubkey = pubkey ∧ v.slot = slot}

/-- Every record in scope is in the map, with the greatest slot its pubkey has in scope. -/
def CandidatesComplete (dec : Decoders) (w : Worker) (append_vecs : List AppendVec) : Prop :=
  ∀ v ∈ versions append_vecs, dec.InScope v.account →
    ∃ slot,
      (w.lane dec.with_parsers append_vecs).closed_token_accounts.lookup v.pubkey = some slot ∧
      IsGreatest (scope_slots dec append_vecs v.pubkey) slot

/-- **The close candidates are complete iff every swallowed record in scope has a record
of its pubkey in scope that is not swallowed, at its slot or later.** -/
theorem candidates_complete_iff (dec : Decoders) (w : Worker) (append_vecs : List AppendVec)
    (hcollect : w.collect_close_tombstones = true) :
    CandidatesComplete dec w append_vecs ↔
      ∀ v ∈ versions append_vecs, dec.InScope v.account → Swallowed v.account →
        ∃ v' ∈ versions append_vecs, dec.InScope v'.account ∧ ¬ Swallowed v'.account ∧
          v'.pubkey = v.pubkey ∧ v.slot ≤ v'.slot := by
  constructor
  · intro hcomplete v hv hscope _
    obtain ⟨slot, hlookup, hgreatest⟩ := hcomplete v hv hscope
    -- what the map holds was remembered of some record
    obtain ⟨⟨v', hv', hcloses, hpubkey, hslot⟩, -⟩ := Worker.lane_closed_lookup hlookup
    obtain ⟨hscope', hkept⟩ := Decoders.closes_iff.mp hcloses
    refine ⟨v', hv', hscope', hkept, hpubkey, ?_⟩
    rw [hslot]
    exact hgreatest.2 ⟨v, hv, hscope, rfl, rfl⟩
  · intro hcover v hv hscope
    -- what is in scope is remembered, or made up for by what is, at its slot or later
    have hkept : ∀ u ∈ versions append_vecs, dec.InScope u.account →
        ∃ u' ∈ versions append_vecs, dec.with_parsers.closes u'.account = true ∧
          u'.pubkey = u.pubkey ∧ u.slot ≤ u'.slot := by
      intro u hu hu_scope
      by_cases hswallowed : Swallowed u.account
      · obtain ⟨u', hu', hu'_scope, hu'_kept, hpubkey, hle⟩ := hcover u hu hu_scope hswallowed
        exact ⟨u', hu', Decoders.closes_iff.mpr ⟨hu'_scope, hu'_kept⟩, hpubkey, hle⟩
      · exact ⟨u, hu, Decoders.closes_iff.mpr ⟨hu_scope, hswallowed⟩, rfl, le_rfl⟩
    obtain ⟨v', hv', hcloses, hpubkey, -⟩ := hkept v hv hscope
    obtain ⟨slot, hlookup⟩ := Worker.exists_lane_closed hcollect hv' hcloses
    rw [hpubkey] at hlookup
    obtain ⟨⟨u, hu, hu_closes, hu_pubkey, hu_slot⟩, hgreatest⟩ :=
      Worker.lane_closed_lookup hlookup
    refine ⟨slot, hlookup, ⟨u, hu, (Decoders.closes_iff.mp hu_closes).1, hu_pubkey, hu_slot⟩, ?_⟩
    rintro other ⟨t, ht, ht_scope, ht_pubkey, rfl⟩
    obtain ⟨t', ht', ht'_closes, ht'_pubkey, hle⟩ := hkept t ht ht_scope
    exact hle.trans (hgreatest t' ht' ht'_closes (ht'_pubkey.trans ht_pubkey))

/-- A zeroed token account of a token program at slot 7. -/
def zeroed_account (owner : Pubkey) : List AppendVec :=
  [{ slot := 7
     id := 0
     len := 304
     accounts := [⟨⟨165, .of_be 9⟩, ⟨0, owner, false⟩, List.replicate 165 0⟩] }]

theorem candidates_complete_spl_token :
    CandidatesComplete .accept_nothing (.new .Active .Incremental 9 ∅)
      (zeroed_account spl_token_id) :=
  (candidates_complete_iff .accept_nothing (.new .Active .Incremental 9 ∅) _ rfl).mpr <| by
    intro v hv _ hswallowed
    obtain rfl := List.mem_singleton.mp hv
    exact absurd hswallowed.1 Decoders.spl_token_id_ne_token_2022

/-- Under Token-2022 its zeros are a metadata value, and it is no candidate. -/
theorem zeroed_token_2022_account_missed :
    (∃ v ∈ versions (zeroed_account token_2022_program_id),
      Decoders.InScope .accept_nothing v.account) ∧
    ¬ CandidatesComplete .accept_nothing (.new .Active .Incremental 9 ∅)
      (zeroed_account token_2022_program_id) := by
  have hscope : ∀ v ∈ versions (zeroed_account token_2022_program_id),
      Decoders.InScope .accept_nothing v.account := by
    intro v hv
    obtain rfl := List.mem_singleton.mp hv
    exact ⟨rfl, .inr (.inr rfl), by decide⟩
  have hclosed : ∀ v ∈ versions (zeroed_account token_2022_program_id),
      Decoders.accept_nothing.with_parsers.closes v.account = false := by
    decide +kernel
  refine ⟨⟨_, List.mem_singleton.mpr rfl, hscope _ (List.mem_singleton.mpr rfl)⟩, ?_⟩
  intro hcomplete
  obtain ⟨slot, hlookup, -⟩ := hcomplete _ (List.mem_singleton.mpr rfl)
    (hscope _ (List.mem_singleton.mpr rfl))
  obtain ⟨⟨v, hv, hcloses, -⟩, -⟩ := Worker.lane_closed_lookup hlookup
  rw [hclosed v hv] at hcloses
  cases hcloses

end SnapshotEtl
