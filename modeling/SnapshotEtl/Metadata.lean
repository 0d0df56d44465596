/-
Metadata patches: the per-mint candidates the parsers collect, and the rows they
become once the stream is over.

The patch map is shared by the workers behind a mutex, so the two recording
functions are shown to commute with each other and with themselves.
-/
import SnapshotEtl.Tables
import SnapshotEtl.Lib.Summary
import Mathlib.Data.Finset.Sort

set_option autoImplicit false

namespace SnapshotEtl

open Lib Replacing

structure MetadataPatch where
  fields : Option VersionedMetadataFields
  extensions : Option VersionedExtensions
deriving DecidableEq

/-- `MetadataPatch::default()`. -/
def MetadataPatch.default : MetadataPatch := ⟨none, none⟩

/-- `SharedMetadataPatches`. -/
abbrev MetadataPatches := FMap String MetadataPatch

/-- `record_metadata_fields`: the candidate stays when it is greater than the
one the mint has. -/
def record_metadata_fields (patches : MetadataPatches) (mint : String)
    (candidate : VersionedMetadataFields) : MetadataPatches :=
  upsert patches mint fun current =>
    let patch := current.getD .default
    { patch with fields := some (later patch.fields candidate) }

/-- `record_extensions`. -/
def record_extensions (patches : MetadataPatches) (mint : String)
    (candidate : VersionedExtensions) : MetadataPatches :=
  upsert patches mint fun current =>
    let patch := current.getD .default
    { patch with extensions := some (later patch.extensions candidate) }

/-! ## Recording in any order -/

theorem record_metadata_fields_comm (patches : MetadataPatches) (m m' : String)
    (c c' : VersionedMetadataFields) :
    record_metadata_fields (record_metadata_fields patches m c) m' c'
      = record_metadata_fields (record_metadata_fields patches m' c') m c := by
  refine upsert_comm patches m m' _ _ fun o => ?_
  simp [later_comm]

theorem record_extensions_comm (patches : MetadataPatches) (m m' : String)
    (c c' : VersionedExtensions) :
    record_extensions (record_extensions patches m c) m' c'
      = record_extensions (record_extensions patches m' c') m c := by
  refine upsert_comm patches m m' _ _ fun o => ?_
  simp [later_comm]

theorem record_fields_extensions_comm (patches : MetadataPatches) (m m' : String)
    (c : VersionedMetadataFields) (c' : VersionedExtensions) :
    record_extensions (record_metadata_fields patches m c) m' c'
      = record_metadata_fields (record_extensions patches m' c') m c :=
  upsert_comm patches m m' _ _ fun _ => rfl

/-! ## The merged rows -/

/-- `TokenMetadataFields::from_row`. -/
def TokenMetadataFields.from_row (row : TokenMetadataRow) : TokenMetadataFields :=
  ⟨row.name, row.symbol, row.uri, row.update_authority, row.is_mutable, row.token_standard,
    row.seller_fee_basis_points, row.creators⟩

/-- `TokenMetadataFields::into_row`. -/
def TokenMetadataFields.into_row (f : TokenMetadataFields) (mint extensions : String)
    (updated_slot : Slot) : TokenMetadataRow :=
  ⟨mint, f.name, f.symbol, f.uri, f.update_authority, f.is_mutable, f.token_standard,
    f.seller_fee_basis_points, f.creators, extensions, updated_slot⟩

/-- `merge_metadata_patch`: what the patch does not know is taken from the
stored row, then from the defaults. -/
def merge_metadata_patch (mint : String) (patch : MetadataPatch)
    (previous : Option TokenMetadataRow) (snapshot_slot : Slot) : TokenMetadataRow :=
  let fields := ((patch.fields.map fun v => v.fields).or
    (previous.map TokenMetadataFields.from_row)).getD .default
  let extensions := ((patch.extensions.map fun v => v.json).or
    (previous.map fun row => row.extensions)).getD "[]"
  fields.into_row mint extensions snapshot_slot

/-- The rows `write_merged_metadata_patches` sends to its sink: one per patched
mint, in mint order, merged with what `FINAL` shows when `preserve_existing`.
Every stored row is read before the first one is written. -/
def write_merged_metadata_patches (metadata : List TokenMetadataRow)
    (patches : MetadataPatches) (preserve_existing : Bool) (snapshot_slot : Slot) :
    List TokenMetadataRow :=
  (sorted_keys patches).map fun mint =>
    let patch := (patches.lookup mint).getD .default
    let previous := if preserve_existing then metadata_final metadata mint else none
    merge_metadata_patch mint patch previous snapshot_slot

@[simp] theorem merge_metadata_patch_mint (mint : String) (patch : MetadataPatch)
    (previous : Option TokenMetadataRow) (s : Slot) :
    (merge_metadata_patch mint patch previous s).mint = mint := rfl

@[simp] theorem merge_metadata_patch_updated_slot (mint : String) (patch : MetadataPatch)
    (previous : Option TokenMetadataRow) (s : Slot) :
    (merge_metadata_patch mint patch previous s).updated_slot = s := rfl

/-- Merging again over the row just written gives that row: nothing the patch
leaves open is lost in it. -/
theorem merge_metadata_patch_idem (mint : String) (patch : MetadataPatch)
    (previous : Option TokenMetadataRow) (s : Slot) :
    merge_metadata_patch mint patch (some (merge_metadata_patch mint patch previous s)) s
      = merge_metadata_patch mint patch previous s := by
  obtain ⟨fields, extensions⟩ := patch
  cases fields <;> cases extensions <;>
    simp [merge_metadata_patch, TokenMetadataFields.from_row, TokenMetadataFields.into_row]

/-- The rows written are one per patched mint. -/
theorem mem_write_merged_metadata_patches {metadata : List TokenMetadataRow}
    {patches : MetadataPatches} {preserve : Bool} {s : Slot} {row : TokenMetadataRow} :
    row ∈ write_merged_metadata_patches metadata patches preserve s ↔
      ∃ mint ∈ patches, row = merge_metadata_patch mint ((patches.lookup mint).getD .default)
        (if preserve then metadata_final metadata mint else none) s := by
  simp only [write_merged_metadata_patches, List.mem_map, mem_sorted_keys]
  constructor
  · rintro ⟨mint, hmint, h⟩
    exact ⟨mint, hmint, h.symm⟩
  · rintro ⟨mint, hmint, h⟩
    exact ⟨mint, hmint, h.symm⟩

/-- Merging over a part of the rows just written gives the same rows. -/
theorem write_merged_metadata_patches_again {metadata part : List TokenMetadataRow}
    {patches : MetadataPatches} {s : Slot}
    (h : ∀ row ∈ part, row ∈ write_merged_metadata_patches metadata patches true s) :
    write_merged_metadata_patches (metadata ++ part) patches true s
      = write_merged_metadata_patches metadata patches true s := by
  refine List.map_congr_left fun mint _ => ?_
  simp only [if_true]
  cases hpart : token_metadata_engine.newest part mint with
  | none =>
      rw [metadata_final, newest_append, hpart]
      rfl
  | some row =>
      have hrow := newest_spec _ hpart
      obtain ⟨mint', -, hmerged⟩ := mem_write_merged_metadata_patches.mp (h row hrow.mem)
      obtain rfl : mint' = mint := by
        have hkey := hrow.key_eq
        rw [hmerged] at hkey
        exact hkey
      rw [if_pos rfl] at hmerged
      -- either the row just written shows, or the stored one is still newer
      rw [metadata_final, newest_append, hpart]
      cases hstored : token_metadata_engine.newest metadata mint' with
      | none =>
          rw [metadata_final, hstored] at hmerged
          simp only [Engine.newerOf, Engine.newer, hmerged, merge_metadata_patch_idem,
            metadata_final,
            hstored]
      | some stored =>
          rw [metadata_final, hstored] at hmerged
          simp only [Engine.newerOf, Engine.newer, metadata_final, hstored]
          split
          · rw [hmerged, merge_metadata_patch_idem]
          · rfl

end SnapshotEtl
