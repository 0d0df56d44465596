/-
The metadata of a mint over a full import and the incrementals behind it.

An import keeps per mint the greatest candidate of each kind it has seen and merges
it over the stored row, which no longer says from which slot its parts are. That is
enough because an import sees a window of slots that begins at or below what was
imported before: a candidate in the window is newer than everything before the
window, and an empty window leaves the stored part as it is. `Merged` is that
invariant, for the fields and the extensions separately.
-/
import SnapshotEtl.GroupImport

set_option autoImplicit false

namespace SnapshotEtl

open Lib Replacing

/-! ## What an import has recorded -/

/-- The patches after the operations of the workers, in the order they got to the map. -/
def patches_of (ops : List LaneOp) : MetadataPatches :=
  (ops.foldl LaneState.step .empty).metadata_patches

/-- The candidates recorded for a mint. -/
def recorded_fields (ops : List LaneOp) (mint : String) : Set VersionedMetadataFields :=
  {c | .record_metadata_fields mint c ∈ ops}

def recorded_extensions (ops : List LaneOp) (mint : String) : Set VersionedExtensions :=
  {c | .record_extensions mint c ∈ ops}

/-- The patch of a mint holds the greatest candidate of each kind. -/
structure PatchOf (ops : List LaneOp) (mint : String) (patch : MetadataPatch) : Prop where
  fields : GreatestOf (recorded_fields ops mint) patch.fields
  extensions : GreatestOf (recorded_extensions ops mint) patch.extensions

/-- The patches after one more operation. -/
theorem patches_of_concat (ops : List LaneOp) (op : LaneOp) :
    patches_of (ops ++ [op])
      = ((ops.foldl LaneState.step .empty).step op).metadata_patches := by
  rw [patches_of, List.foldl_append]
  rfl

/-- Operations of another kind, or for another mint, record nothing for the mint. -/
theorem PatchOf.of_same {ops : List LaneOp} {op : LaneOp} {mint : String} {patch : MetadataPatch}
    (h : PatchOf ops mint patch) (hfields : ∀ c, op ≠ .record_metadata_fields mint c)
    (hextensions : ∀ c, op ≠ .record_extensions mint c) : PatchOf (ops ++ [op]) mint patch := by
  have hsame_fields : recorded_fields (ops ++ [op]) mint = recorded_fields ops mint := by
    ext c
    simp [recorded_fields, (hfields c).symm]
  have hsame_extensions : recorded_extensions (ops ++ [op]) mint
      = recorded_extensions ops mint := by
    ext c
    simp [recorded_extensions, (hextensions c).symm]
  constructor
  · rw [hsame_fields]
    exact h.fields
  · rw [hsame_extensions]
    exact h.extensions

/-- A candidate for the fields. -/
theorem PatchOf.concat_fields {ops : List LaneOp} {mint : String} {patch : MetadataPatch}
    (h : PatchOf ops mint patch) (c : VersionedMetadataFields) :
    PatchOf (ops ++ [.record_metadata_fields mint c]) mint
      { patch with fields := some (later patch.fields c) } := by
  have hfields : recorded_fields (ops ++ [.record_metadata_fields mint c]) mint
      = insert c (recorded_fields ops mint) := by
    ext c'
    simp [recorded_fields, or_comm]
  have hextensions : recorded_extensions (ops ++ [.record_metadata_fields mint c]) mint
      = recorded_extensions ops mint := by
    ext c'
    simp [recorded_extensions]
  constructor
  · rw [hfields]
    exact h.fields.insert c
  · rw [hextensions]
    exact h.extensions

/-- A candidate for the extensions. -/
theorem PatchOf.concat_extensions {ops : List LaneOp} {mint : String} {patch : MetadataPatch}
    (h : PatchOf ops mint patch) (c : VersionedExtensions) :
    PatchOf (ops ++ [.record_extensions mint c]) mint
      { patch with extensions := some (later patch.extensions c) } := by
  have hfields : recorded_fields (ops ++ [.record_extensions mint c]) mint
      = recorded_fields ops mint := by
    ext c'
    simp [recorded_fields]
  have hextensions : recorded_extensions (ops ++ [.record_extensions mint c]) mint
      = insert c (recorded_extensions ops mint) := by
    ext c'
    simp [recorded_extensions, or_comm]
  constructor
  · rw [hfields]
    exact h.fields
  · rw [hextensions]
    exact h.extensions.insert c

theorem fields_ne_default {patch : MetadataPatch} {c : VersionedMetadataFields}
    (h : some { patch with fields := some c } = some MetadataPatch.default) : False := by
  have hfields : some c = none := congrArg MetadataPatch.fields (Option.some.inj h)
  cases hfields

theorem extensions_ne_default {patch : MetadataPatch} {c : VersionedExtensions}
    (h : some { patch with extensions := some c } = some MetadataPatch.default) : False := by
  have hextensions : some c = none := congrArg MetadataPatch.extensions (Option.some.inj h)
  cases hextensions

/-- **The patch of a mint**, in whatever order its candidates were recorded; and a mint
has a patch only when it has a candidate. -/
theorem patch_of (ops : List LaneOp) (mint : String) :
    PatchOf ops mint (((patches_of ops).lookup mint).getD .default) ∧
      ((patches_of ops).lookup mint = some .default → False) := by
  -- on the operations from the last one back, as the map is folded over them
  induction ops using List.reverseRecOn with
  | nil =>
      have hfields : recorded_fields [] mint = ∅ := by simp [recorded_fields]
      have hextensions : recorded_extensions [] mint = ∅ := by simp [recorded_extensions]
      have hpatch : (patches_of []).lookup mint = none := rfl
      rw [hpatch]
      refine ⟨⟨?_, ?_⟩, fun h => by cases h⟩
      · rw [hfields]
        exact greatestOf_empty
      · rw [hextensions]
        exact greatestOf_empty
  | append_singleton ops op ih =>
      obtain ⟨ih, hne⟩ := ih
      rw [patches_of_concat]
      cases op with
      | record_metadata_fields m c =>
          show PatchOf _ _ (((record_metadata_fields (patches_of ops) m c).lookup mint).getD _) ∧
            ((record_metadata_fields (patches_of ops) m c).lookup mint = _ → False)
          rw [record_metadata_fields, lookup_upsert]
          by_cases hm : mint = m
          · subst hm
            rw [if_pos rfl]
            exact ⟨ih.concat_fields c, fields_ne_default⟩
          · rw [if_neg hm]
            refine ⟨ih.of_same (fun c' h => ?_) (fun c' h => (by cases h)), hne⟩
            exact hm (LaneOp.record_metadata_fields.inj h).1.symm
      | record_extensions m c =>
          show PatchOf _ _ (((record_extensions (patches_of ops) m c).lookup mint).getD _) ∧
            ((record_extensions (patches_of ops) m c).lookup mint = _ → False)
          rw [record_extensions, lookup_upsert]
          by_cases hm : mint = m
          · subst hm
            rw [if_pos rfl]
            exact ⟨ih.concat_extensions c, extensions_ne_default⟩
          · rw [if_neg hm]
            refine ⟨ih.of_same (fun c' h => (by cases h)) (fun c' h => ?_), hne⟩
            exact hm (LaneOp.record_extensions.inj h).1.symm
      | maybe_force_commit =>
          exact ⟨ih.of_same (fun _ h => by cases h) (fun _ h => by cases h), hne⟩
      | write row => exact ⟨ih.of_same (fun _ h => by cases h) (fun _ h => by cases h), hne⟩
      | remember_affected_pair pair =>
          exact ⟨ih.of_same (fun _ h => by cases h) (fun _ h => by cases h), hne⟩
      | remember_close_candidate pubkey slot =>
          exact ⟨ih.of_same (fun _ h => by cases h) (fun _ h => by cases h), hne⟩

/-! ## Imports -/

/-- One import of a sequence: its archive's slot, the slot it resumes from, and what its
workers do, in the order it got to the lane. -/
structure MetadataImport where
  snapshot_slot : Slot
  resume_slot : Slot
  ops : List LaneOp
  leaves_metadata : ∀ row, .write row ∈ ops → row.table ≠ .token_metadata

namespace MetadataImport

def lane (i : MetadataImport) : LaneState := i.ops.foldl LaneState.step .empty

/-- An import writes no metadata row before its merge. -/
theorem lane_rows (i : MetadataImport) : ∀ row ∈ i.lane.rows, row.table ≠ .token_metadata := by
  intro row hrow
  rw [lane, lane_state_foldl_rows] at hrow
  obtain ⟨op, hop, hrow⟩ := List.mem_filterMap.mp ((List.mem_append.mp hrow).resolve_left
    List.not_mem_nil)
  cases op <;> cases hrow
  exact i.leaves_metadata row hop

end MetadataImport

/-- A full import, and incrementals one after the other. -/
def import_all (full : MetadataImport) (incrementals : List MetadataImport) : Group :=
  incrementals.foldl (fun g i => g.import_incremental i.lane i.snapshot_slot)
    (.import_full full.lane full.snapshot_slot)

/-- The archive imported last. -/
def last_import (full : MetadataImport) (incrementals : List MetadataImport) : MetadataImport :=
  incrementals.getLastD full

/-- All there is of a mint, whichever imports see it. -/
structure Candidates where
  fields : Set VersionedMetadataFields
  extensions : Set VersionedExtensions

/-- The workers of an import record for a mint what lies in its window. -/
structure MetadataImport.Sees (i : MetadataImport) (mint : String) (candidates : Candidates)
    (window : Slot → Prop) : Prop where
  fields : recorded_fields i.ops mint = {c ∈ candidates.fields | window c.account_slot}
  extensions : recorded_extensions i.ops mint = {c ∈ candidates.extensions | window c.account_slot}

/-- The window of an incremental. -/
def MetadataImport.window (i : MetadataImport) (slot : Slot) : Prop :=
  i.resume_slot < slot ∧ slot ≤ i.snapshot_slot

/-- `b` continues `a`: a later archive, whose window begins where `a` ends or before. -/
def MetadataImport.Continues (a b : MetadataImport) : Prop :=
  a.snapshot_slot < b.snapshot_slot ∧ b.resume_slot ≤ a.snapshot_slot

/-! ## What is stored -/

/-- What a row tells of a mint. -/
def TokenMetadataRow.told (row : TokenMetadataRow) : TokenMetadataFields × String :=
  (.from_row row, row.extensions)

/-- What the greatest candidates tell of it; a kind without a candidate is the default. -/
def told_by (fields : Option VersionedMetadataFields) (extensions : Option VersionedExtensions) :
    Option (TokenMetadataFields × String) :=
  if fields = none ∧ extensions = none then none
  else some ((fields.map fun c => c.fields).getD .default,
    (extensions.map fun c => c.json).getD "[]")

/-- `FINAL` tells of the mint what the greatest candidates up to the slot tell. -/
def Tells (mint : String) (candidates : Candidates) (rows : List TokenMetadataRow)
    (slot : Slot) : Prop :=
  ∃ fields extensions,
    GreatestOf {c ∈ candidates.fields | c.account_slot ≤ slot} fields ∧
      GreatestOf {c ∈ candidates.extensions | c.account_slot ≤ slot} extensions ∧
      (metadata_final rows mint).map TokenMetadataRow.told = told_by fields extensions

/-- The table at a watermark: it tells of the mint what there is up to the watermark, and
no row of the mint is newer. -/
structure Merged (mint : String) (candidates : Candidates) (rows : List TokenMetadataRow)
    (slot : Slot) : Prop where
  stored : ∀ row ∈ rows, row.mint = mint → row.updated_slot ≤ slot
  tells : Tells mint candidates rows slot

/-- Fields of a later account slot are greater. -/
theorem fields_slot_lt (c c' : VersionedMetadataFields) (h : c.account_slot < c'.account_slot) :
    c < c' :=
  Prod.Lex.lt_iff.mpr (.inl h)

/-- So are extensions. -/
theorem extensions_slot_lt (c c' : VersionedExtensions) (h : c.account_slot < c'.account_slot) :
    c < c' :=
  Prod.Lex.lt_iff.mpr (.inl h)

/-! ## One import -/

/-- A merged row tells the fields of the patch, else those of the row before; the same for
the extensions. -/
theorem told_merge_metadata_patch (mint : String) (patch : MetadataPatch)
    (previous : Option TokenMetadataRow) (s : Slot) :
    (merge_metadata_patch mint patch previous s).told
      = (((patch.fields.map fun c => c.fields).or
          (previous.map TokenMetadataFields.from_row)).getD .default,
        ((patch.extensions.map fun c => c.json).or
          (previous.map fun row => row.extensions)).getD "[]") := rfl

/-- A merged row tells what its patch has, and the rest as the row before it. -/
theorem told_merge (mint : String) {patch : MetadataPatch} {previous : Option TokenMetadataRow}
    {s : Slot} {fields : Option VersionedMetadataFields} {extensions : Option VersionedExtensions}
    (hprevious : previous.map TokenMetadataRow.told = told_by fields extensions)
    (hpatch : patch ≠ .default) :
    some (merge_metadata_patch mint patch previous s).told
      = told_by (patch.fields.or fields) (patch.extensions.or extensions) := by
  have hsome : ¬(patch.fields.or fields = none ∧ patch.extensions.or extensions = none) := by
    intro h
    have hfields := (Option.or_eq_none_iff.mp h.1).1
    have hextensions := (Option.or_eq_none_iff.mp h.2).1
    apply hpatch
    rw [← show (⟨patch.fields, patch.extensions⟩ : MetadataPatch) = patch from rfl, hfields,
      hextensions]
    rfl
  rw [told_by, if_neg hsome, told_merge_metadata_patch]
  cases previous with
  | none =>
      -- no row of the mint: there is nothing of either kind
      by_cases hnone : fields = none ∧ extensions = none
      · rw [hnone.1, hnone.2]
        simp only [Option.map_none, Option.or_none]
      · rw [told_by, if_neg hnone] at hprevious
        cases hprevious
  | some row =>
      by_cases hnone : fields = none ∧ extensions = none
      · rw [told_by, if_pos hnone] at hprevious
        cases hprevious
      · rw [told_by, if_neg hnone] at hprevious
        have hrow := Option.some.inj hprevious
        have hfields : TokenMetadataFields.from_row row = _ := congrArg Prod.fst hrow
        have hextensions : row.extensions = _ := congrArg Prod.snd hrow
        -- a kind the patch has is the patch's, the other one the row's
        cases patch.fields <;> cases patch.extensions <;> simp [hfields, hextensions]

section Merge

variable {rows : List TokenMetadataRow} {patches : MetadataPatches} {preserve : Bool} {s : Slot}
  {mint : String}

/-- The merged row of a patched mint is the one that shows. -/
theorem metadata_final_merge (hrows : ∀ row ∈ rows, row.mint = mint → row.updated_slot < s)
    {patch : MetadataPatch} (hpatch : patches.lookup mint = some patch) :
    metadata_final (rows ++ write_merged_metadata_patches rows patches preserve s) mint
      = some (merge_metadata_patch mint patch
        (if preserve then metadata_final rows mint else none) s) := by
  have hmem : merge_metadata_patch mint patch
      (if preserve then metadata_final rows mint else none) s
        ∈ write_merged_metadata_patches rows patches preserve s := by
    rw [mem_write_merged_metadata_patches]
    refine ⟨mint, Finmap.mem_of_lookup_eq_some hpatch, ?_⟩
    rw [hpatch]
    rfl
  -- every stored row of the mint is older, and the merge writes one row of it
  refine newest_of_lt token_metadata_engine (List.mem_append_right _ hmem) rfl ?_
  intro other hother hmint
  rcases List.mem_append.mp hother with hstored | hwritten
  · right
    exact hrows other hstored hmint
  · left
    obtain ⟨m, -, hm⟩ := mem_write_merged_metadata_patches.mp hwritten
    have hkey : m = mint := by
      rw [← hmint, hm]
      rfl
    rw [hm, hkey, hpatch]
    rfl

/-- A mint without a patch keeps its row. -/
theorem metadata_final_unpatched (hpatch : patches.lookup mint = none) :
    metadata_final (rows ++ write_merged_metadata_patches rows patches preserve s) mint
      = metadata_final rows mint := by
  refine newest_append_of_absent token_metadata_engine ?_
  intro row hrow hmint
  obtain ⟨m, hm, hrow⟩ := mem_write_merged_metadata_patches.mp hrow
  have hkey : m = mint := by
    rw [← hmint, hrow]
    rfl
  rw [hkey] at hm
  exact absurd hm (Finmap.lookup_eq_none.mp hpatch)

/-- Everything a merge writes has the slot of its archive. -/
theorem stored_merge (hrows : ∀ row ∈ rows, row.mint = mint → row.updated_slot ≤ s) :
    ∀ row ∈ rows ++ write_merged_metadata_patches rows patches preserve s, row.mint = mint →
      row.updated_slot ≤ s := by
  intro row hrow hmint
  rcases List.mem_append.mp hrow with hstored | hwritten
  · exact hrows row hstored hmint
  · obtain ⟨m, -, hm⟩ := mem_write_merged_metadata_patches.mp hwritten
    rw [hm]
    exact le_refl s

/-- What `FINAL` tells after a merge, patched mint or not. -/
theorem told_after_merge (hrows : ∀ row ∈ rows, row.mint = mint → row.updated_slot < s)
    {fields : Option VersionedMetadataFields} {extensions : Option VersionedExtensions}
    (hshown : (metadata_final rows mint).map TokenMetadataRow.told = told_by fields extensions)
    (hkept : preserve = false → metadata_final rows mint = none)
    (hdefault : patches.lookup mint = some .default → False) :
    (metadata_final (rows ++ write_merged_metadata_patches rows patches preserve s) mint).map
        TokenMetadataRow.told
      = told_by (((patches.lookup mint).getD .default).fields.or fields)
        (((patches.lookup mint).getD .default).extensions.or extensions) := by
  cases hpatch : patches.lookup mint with
  | none =>
      rw [metadata_final_unpatched hpatch, hshown]
      rfl
  | some patch =>
      have hprevious : (if preserve then metadata_final rows mint else none)
          = metadata_final rows mint := by
        cases preserve with
        | true => rfl
        | false => exact (hkept rfl).symm
      -- without `preserve_existing` no row is read, which is right where there is none
      rw [metadata_final_merge hrows hpatch, hprevious]
      apply told_merge mint hshown
      intro h
      rw [hpatch, h] at hdefault
      exact hdefault rfl

end Merge

/-! ## The sequence -/

section Run

variable {mint : String} {candidates : Candidates}

/-- The metadata of a full: the merged patches and nothing else. -/
theorem import_full_metadata (i : MetadataImport) :
    (Group.import_full i.lane i.snapshot_slot).raw_token_metadata
      = [] ++ write_merged_metadata_patches [] (patches_of i.ops) false i.snapshot_slot := by
  have hrows : (Group.truncated.insert_all i.lane.rows).raw_token_metadata = [] :=
    Group.insert_all_metadata _ _ i.lane_rows
  rw [← hrows]
  rfl

/-- The metadata after an incremental: the merged patches behind the rows that were there.
-/
theorem import_incremental_metadata (g : Group) (i : MetadataImport) :
    (g.import_incremental i.lane i.snapshot_slot).raw_token_metadata
      = g.raw_token_metadata ++ write_merged_metadata_patches g.raw_token_metadata
        (patches_of i.ops) true i.snapshot_slot := by
  have hrows : (g.insert_all i.lane.rows).raw_token_metadata = g.raw_token_metadata :=
    Group.insert_all_metadata _ _ i.lane_rows
  rw [← hrows]
  rfl

/-- After the full import. -/
theorem merged_full {full : MetadataImport}
    (h : full.Sees mint candidates (· ≤ full.snapshot_slot)) :
    Merged mint candidates (Group.import_full full.lane full.snapshot_slot).raw_token_metadata
      full.snapshot_slot := by
  obtain ⟨⟨hfields, hextensions⟩, hdefault⟩ := patch_of full.ops mint
  rw [h.fields] at hfields
  rw [h.extensions] at hextensions
  rw [import_full_metadata]
  constructor
  · apply stored_merge
    intro row hrow
    exact absurd hrow List.not_mem_nil
  · refine ⟨_, _, hfields, hextensions, ?_⟩
    -- the table was empty
    have hshown : (metadata_final [] mint).map TokenMetadataRow.told = told_by none none := rfl
    rw [told_after_merge (fun row hrow => absurd hrow List.not_mem_nil) hshown (fun _ => rfl)
      hdefault, Option.or_none, Option.or_none]

/-- An incremental that continues the last import keeps the table merged: for each kind,
the greatest candidate of its window is the greatest of all, and where the window has
none the stored one is. -/
theorem Merged.step {g : Group} {last i : MetadataImport}
    (h : Merged mint candidates g.raw_token_metadata last.snapshot_slot)
    (hcontinues : last.Continues i) (hsees : i.Sees mint candidates i.window) :
    Merged mint candidates (g.import_incremental i.lane i.snapshot_slot).raw_token_metadata
      i.snapshot_slot := by
  obtain ⟨⟨hfields, hextensions⟩, hdefault⟩ := patch_of i.ops mint
  rw [hsees.fields] at hfields
  rw [hsees.extensions] at hextensions
  obtain ⟨hlater, hresume⟩ := hcontinues
  obtain ⟨fields, extensions, hfields', hextensions', hshown⟩ := h.tells
  rw [import_incremental_metadata]
  constructor
  · apply stored_merge
    intro row hrow hmint
    exact (h.stored row hrow hmint).trans hlater.le
  · -- the window reaches back to the last archive at least, so together they miss nothing
    refine ⟨_, _, hfields.window fields_slot_lt hfields' hresume hlater.le,
      hextensions.window extensions_slot_lt hextensions' hresume hlater.le, ?_⟩
    refine told_after_merge ?_ hshown (fun hnot => absurd hnot (by decide)) hdefault
    intro row hrow hmint
    exact lt_of_le_of_lt (h.stored row hrow hmint) hlater

/-- Every import of the sequence leaves the table merged. -/
theorem merged_all {full : MetadataImport} (incrementals : List MetadataImport)
    (hfull : full.Sees mint candidates (· ≤ full.snapshot_slot))
    (hsees : ∀ i ∈ incrementals, i.Sees mint candidates i.window)
    (hchain : List.IsChain MetadataImport.Continues (full :: incrementals)) :
    Merged mint candidates (import_all full incrementals).raw_token_metadata
      (last_import full incrementals).snapshot_slot := by
  induction incrementals using List.reverseRecOn with
  | nil => exact merged_full hfull
  | append_singleton earlier i ih =>
      rw [← List.cons_append, List.isChain_append] at hchain
      obtain ⟨hearlier, -, hlast⟩ := hchain
      have hmerged := ih (fun j hj => hsees j (List.mem_append_left _ hj)) hearlier
      have hcontinues : (last_import full earlier).Continues i := by
        apply hlast _ _ i rfl
        rw [last_import, List.getLast?_cons, List.getLastD_eq_getLast?]
        rfl
      have hrun : import_all full (earlier ++ [i])
          = (import_all full earlier).import_incremental i.lane i.snapshot_slot := by
        rw [import_all, List.foldl_append]
        rfl
      have hend : last_import full (earlier ++ [i]) = i := by
        simp [last_import]
      rw [hrun, hend]
      exact hmerged.step hcontinues (hsees i (List.mem_append_right _ (List.mem_singleton.mpr rfl)))

/-- **Metadata over a sequence of imports.** After the full import and any number of
incrementals, `FINAL` tells of a mint exactly what its greatest candidates up to the last
archive tell, each kind for itself, however the candidates were split over the imports
and in whatever order the workers recorded them. -/
theorem metadata_of_greatest (full : MetadataImport) (incrementals : List MetadataImport)
    (mint : String) (candidates : Candidates)
    (hfull : full.Sees mint candidates (· ≤ full.snapshot_slot))
    (hsees : ∀ i ∈ incrementals, i.Sees mint candidates i.window)
    (hchain : List.IsChain MetadataImport.Continues (full :: incrementals)) :
    Tells mint candidates (import_all full incrementals).raw_token_metadata
      (last_import full incrementals).snapshot_slot :=
  (merged_all incrementals hfull hsees hchain).tells

end Run

/-- A name for the mint, of slot 3 and of slot 7, and extensions of slot 4. -/
def name_at (slot : Slot) (name : String) : VersionedMetadataFields :=
  ⟨slot, .Metaplex, "account", { TokenMetadataFields.default with name }⟩

def extensions_at_four : VersionedExtensions := ⟨4, "[1]"⟩

def renamed_mint : Candidates := ⟨{name_at 3 "old", name_at 7 "new"}, {extensions_at_four}⟩

/-- The full archive has the first name and the extensions. -/
def named_in_full : MetadataImport where
  snapshot_slot := 5
  resume_slot := 0
  ops :=
    [.record_extensions "mint" extensions_at_four,
      .record_metadata_fields "mint" (name_at 3 "old")]
  leaves_metadata := by simp

/-- The incremental resumes before the full archive ends. -/
def renamed_later : MetadataImport where
  snapshot_slot := 8
  resume_slot := 4
  ops := [.record_metadata_fields "mint" (name_at 7 "new")]
  leaves_metadata := by simp

theorem metadata_of_renamed_mint :
    Tells "mint" renamed_mint (import_all named_in_full [renamed_later]).raw_token_metadata 8 := by
  have hfull : named_in_full.Sees "mint" renamed_mint (· ≤ named_in_full.snapshot_slot) := by
    constructor
    · ext c
      grind [recorded_fields, named_in_full, renamed_mint, name_at]
    · ext c
      grind [recorded_extensions, named_in_full, renamed_mint, extensions_at_four]
  have hlater : renamed_later.Sees "mint" renamed_mint renamed_later.window := by
    constructor
    · ext c
      grind [recorded_fields, renamed_later, renamed_mint, name_at, MetadataImport.window]
    · ext c
      grind [recorded_extensions, renamed_later, renamed_mint, extensions_at_four,
        MetadataImport.window]
  refine metadata_of_greatest named_in_full [renamed_later] "mint" renamed_mint hfull ?_ ?_
  · intro i hi
    rw [List.mem_singleton.mp hi]
    exact hlater
  · simp [MetadataImport.Continues, named_in_full, renamed_later]

end SnapshotEtl
