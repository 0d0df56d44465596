/-
The loaders of an archive, and what a full load of the watcher delivers.

The single-shot loader opens an archive without a filter; the watcher opens it with
the slot it resumes from, and for a full load it resumes from 0. The filter keeps
what is newer than its slot, so the two loads differ by the storages of slot 0.
The archive is what its tar stream yields behind the manifest: entries that fail,
entries that are no storage, and storages, in any order.
-/
import SnapshotEtl.Extractors
import SnapshotEtl.Journal

set_option autoImplicit false

namespace SnapshotEtl.Mapped

/-! ## The archive's iterator -/

/-- What `entries.next()` and `entry.path()` give: an error, or a file with the last
component of its path, if it has one. -/
inductive ArchiveEntry
  | Err (message : String)
  | File (file_name : Option String) (bytes : Bytes)

/-- An error of the tar stream, or of a storage. -/
inductive ArchiveError
  | Tar (message : String)
  | Storage (e : SnapshotError)

/-- What is left of an archive once its manifest is read. -/
structure Archive where
  snapshot_slot : Slot
  accounts_db_fields : AccountsDbFields
  entries : List ArchiveEntry

structure ArchiveSnapshotExtractor where
  archive : Archive
  minimum_append_vec_slot : Option Slot

/-- The slot and the id of an entry that is a storage. -/
def ArchiveEntry.parsed : ArchiveEntry → Option (Slot × ℕ)
  | .Err _ => none
  | .File file_name _ => file_name.bind parse_append_vec_name

namespace ArchiveSnapshotExtractor

def from_reader (archive : Archive) : ArchiveSnapshotExtractor := ⟨archive, none⟩

def with_minimum_append_vec_slot (extractor : ArchiveSnapshotExtractor) (slot : Slot) :
    ArchiveSnapshotExtractor :=
  { extractor with minimum_append_vec_slot := some slot }

/-- `process_entry`, on the bytes of an entry. -/
def process (extractor : ArchiveSnapshotExtractor) (mem : Memory) (bytes : Bytes) (slot : Slot)
    (id : ℕ) : Except ArchiveError AppendVec :=
  match known_vec extractor.archive.accounts_db_fields slot id with
  | none => .error (.Storage .UnexpectedAppendVec)
  | some known_vec =>
      (AppendVec.new_from_reader mem bytes known_vec.accounts_current_len slot id).mapError fun e =>
        .Storage (.IOError e)

/-- One turn of the loop of `unboxed_iter`: an item, or `continue`. -/
def item (extractor : ArchiveSnapshotExtractor) (mem : Memory) (entry : ArchiveEntry) :
    Option (Except ArchiveError AppendVec) :=
  match entry with
  | .Err message => some (.error (.Tar message))
  | .File file_name bytes =>
      match file_name.bind parse_append_vec_name with
      | none => none
      | some (slot, id) =>
          if should_process_append_vec_slot extractor.minimum_append_vec_slot slot then
            some (extractor.process mem bytes slot id)
          else none

def unboxed_iter (extractor : ArchiveSnapshotExtractor) (mem : Memory) :
    List (Except ArchiveError AppendVec) :=
  extractor.archive.entries.filterMap (extractor.item mem)

/-- The AppendVecs among the items. -/
def delivered (extractor : ArchiveSnapshotExtractor) (mem : Memory) : List AppendVec :=
  (extractor.unboxed_iter mem).filterMap Except.toOption

end ArchiveSnapshotExtractor

/-! ## The loaders -/

namespace SupportedLoader

/-- The single-shot loader, of an archive. -/
def new_file (archive : Archive) : ArchiveSnapshotExtractor := .from_reader archive

def new_incremental_snapshot (archive : Archive) (last_processed_slot : Slot) :
    ArchiveSnapshotExtractor :=
  (ArchiveSnapshotExtractor.from_reader archive).with_minimum_append_vec_slot last_processed_slot

def new_full_snapshot (archive : Archive) (last_processed_slot : Slot) : ArchiveSnapshotExtractor :=
  (ArchiveSnapshotExtractor.from_reader archive).with_minimum_append_vec_slot last_processed_slot

end SupportedLoader

/-- `WatchedSnapshot::new_loader`, of the archive at its path. -/
def new_loader (snapshot : WatchedSnapshot) (archive : Archive) (resume_slot : Slot) :
    ArchiveSnapshotExtractor :=
  match snapshot with
  | .Incremental _ => SupportedLoader.new_incremental_snapshot archive resume_slot
  | .Full _ => SupportedLoader.new_full_snapshot archive resume_slot

/-! ## What the filter takes away -/

/-- An entry that the filter at slot 0 skips. -/
def ArchiveEntry.OfSlotZero (entry : ArchiveEntry) : Prop := ∃ id, entry.parsed = some (0, id)

/-- A storage of slot 0 that opens. -/
def ArchiveEntry.OpensAtZero (archive : Archive) (mem : Memory) (entry : ArchiveEntry) : Prop :=
  entry.OfSlotZero ∧ ∃ v, (SupportedLoader.new_file archive).item mem entry = some (.ok v)

section filter

variable (archive : Archive) (mem : Memory) {entry : ArchiveEntry}

theorem item_of_slot_zero (h : entry.OfSlotZero) :
    (SupportedLoader.new_full_snapshot archive 0).item mem entry = none ∧
      ∃ item, (SupportedLoader.new_file archive).item mem entry = some item := by
  obtain ⟨id, hparsed⟩ := h
  cases entry with
  | Err message => cases hparsed
  | File file_name bytes =>
      have hname : file_name.bind parse_append_vec_name = some (0, id) := hparsed
      unfold ArchiveSnapshotExtractor.item
      simp only [hname]
      -- a storage of slot 0 is newer than nothing, and not newer than slot 0
      exact ⟨rfl, _, rfl⟩

theorem item_of_other (h : ¬ entry.OfSlotZero) :
    (SupportedLoader.new_full_snapshot archive 0).item mem entry
      = (SupportedLoader.new_file archive).item mem entry := by
  cases entry with
  | Err message => rfl
  | File file_name bytes =>
      unfold ArchiveSnapshotExtractor.item
      cases hname : file_name.bind parse_append_vec_name with
      | none => simp only [hname]
      | some parsed =>
          obtain ⟨slot, id⟩ := parsed
          have hpos : 0 < slot := by
            apply Nat.pos_of_ne_zero
            rintro rfl
            exact h ⟨id, hname⟩
          have hnewer : should_process_append_vec_slot (some 0) slot = true := by
            show decide (slot > 0) = true
            exact decide_eq_true hpos
          simp only [hname]
          show (if should_process_append_vec_slot (some 0) slot then _ else _) = _
          rw [if_pos hnewer]
          rfl

/-- Dropping what `p` marks from a `filterMap` changes it iff something marked shows
in it. -/
theorem filterMap_eq_iff {α β : Type} {f g : α → Option β} {p : α → Prop} {l : List α}
    (hmarked : ∀ a ∈ l, p a → g a = none ∧ (f a).isSome) (hother : ∀ a ∈ l, ¬ p a → g a = f a) :
    l.filterMap g = l.filterMap f ↔ ∀ a ∈ l, ¬ p a := by
  -- it gets shorter by what is marked and shows, so equal lengths mean there is none
  have hle : ∀ l' : List α, (∀ a ∈ l', a ∈ l) → (l'.filterMap g).length ≤ (l'.filterMap f).length ∧
      ((l'.filterMap g).length = (l'.filterMap f).length → ∀ a ∈ l', ¬ p a) := by
    intro l'
    induction l' with
    | nil => exact fun _ => ⟨le_rfl, fun _ => nofun⟩
    | cons a l' ih =>
        intro hl'
        obtain ⟨hlen, hall⟩ := ih fun b hb => hl' b (List.mem_cons_of_mem _ hb)
        by_cases ha : p a
        · obtain ⟨hg, hf⟩ := hmarked a (hl' a List.mem_cons_self) ha
          obtain ⟨b, hb⟩ := Option.isSome_iff_exists.mp hf
          rw [List.filterMap_cons_none hg, List.filterMap_cons_some hb, List.length_cons]
          exact ⟨by omega, fun h => by omega⟩
        · have hsame := hother a (hl' a List.mem_cons_self) ha
          cases hf : f a with
          | none =>
              rw [List.filterMap_cons_none (hsame.trans hf), List.filterMap_cons_none hf]
              exact ⟨hlen, fun h => List.forall_mem_cons.mpr ⟨ha, hall h⟩⟩
          | some b =>
              rw [List.filterMap_cons_some (hsame.trans hf), List.filterMap_cons_some hf,
                List.length_cons, List.length_cons]
              exact ⟨by omega, fun h => List.forall_mem_cons.mpr ⟨ha, hall (by omega)⟩⟩
  constructor
  · intro h
    exact (hle l fun _ ha => ha).2 (congrArg List.length h)
  · intro h
    exact List.filterMap_congr fun a ha => hother a ha (h a ha)

/-- The two loads yield the same items iff the archive has no entry of slot 0. -/
theorem full_load_items_iff :
    (SupportedLoader.new_full_snapshot archive 0).unboxed_iter mem
        = (SupportedLoader.new_file archive).unboxed_iter mem ↔
      ∀ entry ∈ archive.entries, ¬ entry.OfSlotZero := by
  refine filterMap_eq_iff ?_ ?_
  · intro entry _ hzero
    obtain ⟨hskipped, item, hitem⟩ := item_of_slot_zero archive mem hzero
    exact ⟨hskipped, by rw [hitem]; rfl⟩
  · intro entry _ hother
    exact item_of_other archive mem hother

/-- They deliver the same AppendVecs iff no storage of slot 0 opens. -/
theorem full_load_delivered_iff :
    (SupportedLoader.new_full_snapshot archive 0).delivered mem
        = (SupportedLoader.new_file archive).delivered mem ↔
      ∀ entry ∈ archive.entries, ¬ entry.OpensAtZero archive mem := by
  unfold ArchiveSnapshotExtractor.delivered ArchiveSnapshotExtractor.unboxed_iter
  rw [List.filterMap_filterMap, List.filterMap_filterMap]
  refine filterMap_eq_iff ?_ ?_
  · rintro entry - ⟨hzero, v, hv⟩
    have hskipped := (item_of_slot_zero archive mem hzero).1
    show Option.bind _ _ = none ∧ (Option.bind _ _).isSome
    rw [hskipped, hv]
    exact ⟨rfl, rfl⟩
  · intro entry _ hother
    show Option.bind _ _ = Option.bind _ _
    by_cases hzero : entry.OfSlotZero
    · -- of slot 0 and it does not open: an error, which is no AppendVec
      obtain ⟨hskipped, item, hitem⟩ := item_of_slot_zero archive mem hzero
      rw [hskipped, hitem]
      cases item with
      | error e => rfl
      | ok v => exact absurd ⟨hzero, v, hitem⟩ hother
    · rw [item_of_other archive mem hzero]

end filter

/-- **A full load of the watcher delivers the whole archive iff the archive has no
storage of slot 0 that opens**, and it yields the same items, errors included, iff the
archive has no entry of slot 0 at all. -/
theorem full_load_whole_archive_iff (snapshot : FullSnapshot) (archive : Archive) (mem : Memory) :
    ((new_loader (.Full snapshot) archive 0).delivered mem
        = (SupportedLoader.new_file archive).delivered mem ↔
      ∀ entry ∈ archive.entries, ¬ entry.OpensAtZero archive mem) ∧
    ((new_loader (.Full snapshot) archive 0).unboxed_iter mem
        = (SupportedLoader.new_file archive).unboxed_iter mem ↔
      ∀ entry ∈ archive.entries, ¬ entry.OfSlotZero) :=
  ⟨full_load_delivered_iff archive mem, full_load_items_iff archive mem⟩

/-- The archive of a cluster whose genesis accounts are still where they were stored. -/
def genesis_archive : Archive where
  snapshot_slot := 1
  accounts_db_fields := fun slot => if slot ≤ 1 then some [⟨slot, 136⟩] else none
  entries := [.File (some "0.0") (List.replicate 136 0), .File (some "1.1") (List.replicate 136 0)]

/-- The full load of the watcher leaves the genesis accounts out. -/
theorem genesis_storage_skipped :
    ((new_loader (.Full ⟨"snapshot-1", 1⟩) genesis_archive 0).delivered
        ⟨fun _ => true, fun _ => true⟩).map (fun v => v.slot) = [1] ∧
      ((SupportedLoader.new_file genesis_archive).delivered
        ⟨fun _ => true, fun _ => true⟩).map (fun v => v.slot) = [0, 1] := by
  decide +kernel

end SnapshotEtl.Mapped
