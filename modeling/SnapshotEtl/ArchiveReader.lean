/-
A snapshot archive from its first entry to its last: `ArchiveSnapshotExtractor`.

The manifest comes first; until it is found every other file is passed over, but an
AppendVec is an error. What follows is read file by file, by name, and each storage in
the length that the manifest records. So an archive that opens loses no storage, and of
one that is complete every account of every storage above the minimum slot comes out as
it was appended.
-/
import SnapshotEtl.FullLoader
import SnapshotEtl.StorageLayout

set_option autoImplicit false

namespace SnapshotEtl.ArchiveReader

open Mapped

/-! ## Paths -/

inductive Component
  | RootDir
  | CurDir
  | ParentDir
  | Normal (name : String)
deriving DecidableEq, Repr

/-- `Path::components`: a dot is one only at the start. -/
def components (path : String) : List Component :=
  let parts := (path.toList.splitOn '/').map String.ofList
  let start :=
    if path.toList.head? = some '/' then [.RootDir]
    else if parts.head? = some "." then [.CurDir]
    else []
  start ++ (parts.filter fun part => part ≠ "" ∧ part ≠ ".").map fun part =>
    if part = ".." then .ParentDir else .Normal part

/-- `Path::file_name`. -/
def file_name (path : String) : Option String :=
  match (components path).getLast? with
  | some (.Normal name) => some name
  | _ => none

def is_snapshot_manifest_file (path : String) : Bool :=
  match components path with
  | [.Normal dir, .Normal slot_number_str_1, .Normal slot_number_str_2] =>
      dir = "snapshots" && (u64_from_str slot_number_str_1.toList).isSome &&
        slot_number_str_1 = slot_number_str_2
  | _ => false

def is_appendvec_file (path : String) : Bool :=
  match components path with
  | [.Normal dir, .Normal name] => dir = "accounts" && (parse_append_vec_name name).isSome
  | _ => false

/-! ## Opening an archive -/

/-- What the tar reader yields: a file or an error, of its header or of its path. -/
inductive TarEntry
  | file (path : String) (bytes : Bytes)
  | unreadable_path (err : String)
  | failed (err : String)
deriving DecidableEq

/-- The entry as the iteration has it. -/
def TarEntry.entry : TarEntry → ArchiveEntry
  | .file path bytes => .File (file_name path) bytes
  | .unreadable_path err => .Err err
  | .failed err => .Err err

/-- The errors of `SnapshotError` that an archive is refused with. -/
inductive OpenError
  | IOError (err : String)
  | BincodeError (err : String)
  | NoSnapshotManifest
  | UnexpectedAppendVec
deriving DecidableEq, Repr

def OpenError.message : OpenError → String
  | IOError err => err
  | BincodeError err => s!"Failed to deserialize: {err}"
  | NoSnapshotManifest => "No snapshot manifest file found"
  | UnexpectedAppendVec => "Unexpected AppendVec"

/-- The `HashMap` of the storages, in some order. -/
abbrev Storages := List (Slot × List SerializableAccountStorageEntry)

/-- An archive whose manifest is read, with the entries that are left. -/
structure OpenArchive where
  snapshot_slot : Slot
  accounts_db_fields : Storages
  entries : Option (List TarEntry)

/-- The search for the manifest: its bytes, and the entries after it. -/
def find_manifest : List TarEntry → Except OpenError (Bytes × List TarEntry)
  | [] => .error .NoSnapshotManifest
  | .failed err :: _ => .error (.IOError err)
  | .unreadable_path err :: _ => .error (.IOError err)
  | .file path bytes :: entries =>
      if is_snapshot_manifest_file path then .ok (bytes, entries)
      else if is_appendvec_file path then .error .UnexpectedAppendVec
      else find_manifest entries

/-- `ArchiveSnapshotExtractor::from_reader`, with bincode's reader of the manifest. -/
def from_reader (deserialize : Bytes → Except String (Slot × Storages)) (entries : List TarEntry) :
    Except OpenError OpenArchive := do
  let (snapshot_file, entries) ← find_manifest entries
  let (snapshot_slot, accounts_db_fields) ← (deserialize snapshot_file).mapError .BincodeError
  pure ⟨snapshot_slot, accounts_db_fields, some entries⟩

namespace OpenArchive

/-- The archive to iterate over. -/
def archive (x : OpenArchive) : Mapped.Archive where
  snapshot_slot := x.snapshot_slot
  accounts_db_fields slot := x.accounts_db_fields.lookup slot
  entries := (x.entries.getD []).map TarEntry.entry

def append_vec_count_hint (x : OpenArchive) (minimum_append_vec_slot : Option Slot) : ℕ :=
  ((x.accounts_db_fields.filter fun s =>
    should_process_append_vec_slot minimum_append_vec_slot s.1).map fun s => s.2.length).sum

/-- The items of an iteration, which takes the entries. -/
def iter (x : OpenArchive) (mem : Memory) (minimum_append_vec_slot : Option Slot) :
    List (Except ArchiveError Mapped.AppendVec) × OpenArchive :=
  (ArchiveSnapshotExtractor.unboxed_iter ⟨x.archive, minimum_append_vec_slot⟩ mem,
    { x with entries := none })

end OpenArchive

/-! ## The search for the manifest -/

/-- A file that the search passes over. -/
def TarEntry.Passed (entry : TarEntry) : Prop :=
  ∃ path bytes, entry = .file path bytes ∧ is_snapshot_manifest_file path = false ∧
    is_appendvec_file path = false

/-- The manifest is the first file of that path, after entries that are passed over. -/
theorem find_manifest_eq_ok_iff {entries rest : List TarEntry} {bytes : Bytes} :
    find_manifest entries = .ok (bytes, rest) ↔ ∃ before path, (∀ entry ∈ before, entry.Passed) ∧
      is_snapshot_manifest_file path = true ∧ entries = before ++ .file path bytes :: rest := by
  constructor
  · intro h
    -- along the entries: a file of storage data before the manifest is an error
    induction entries with
    | nil => cases h
    | cons entry entries ih =>
        cases entry with
        | failed err => cases h
        | unreadable_path err => cases h
        | file path bytes' =>
            unfold find_manifest at h
            split at h
            · next hmanifest =>
                obtain ⟨rfl, rfl⟩ := Prod.mk.inj (Except.ok.inj h)
                exact ⟨[], path, nofun, hmanifest, rfl⟩
            · next hmanifest =>
                split at h
                · cases h
                · next happendvec =>
                    obtain ⟨before, path', hbefore, hpath', rfl⟩ := ih h
                    refine ⟨.file path bytes' :: before, path', ?_, hpath', rfl⟩
                    refine List.forall_mem_cons.mpr ⟨⟨path, bytes', rfl, ?_, ?_⟩, hbefore⟩
                    · simpa using hmanifest
                    · simpa using happendvec
  · rintro ⟨before, path, hbefore, hmanifest, rfl⟩
    -- along the entries that are passed over
    induction before with
    | nil =>
        rw [List.nil_append, find_manifest, if_pos hmanifest]
    | cons entry before ih =>
        rw [List.forall_mem_cons] at hbefore
        obtain ⟨⟨path', bytes', rfl, hmanifest', happendvec'⟩, hbefore⟩ := hbefore
        rw [List.cons_append, find_manifest, hmanifest', happendvec']
        exact ih hbefore

/-- A manifest is no AppendVec. -/
theorem not_appendvec_of_manifest {path : String} (h : is_snapshot_manifest_file path = true) :
    is_appendvec_file path = false := by
  unfold is_snapshot_manifest_file at h
  unfold is_appendvec_file
  split at h
  · next hcomponents => rw [hcomponents]
  · cases h

section Opened

variable {deserialize : Bytes → Except String (Slot × Storages)} {entries : List TarEntry}
  {x : OpenArchive}

/-- An archive opens exactly where a manifest is found and deserialised; the entries after
it are left. -/
theorem from_reader_eq_ok_iff : from_reader deserialize entries = .ok x ↔
    ∃ snapshot_file rest, find_manifest entries = .ok (snapshot_file, rest) ∧
      deserialize snapshot_file = .ok (x.snapshot_slot, x.accounts_db_fields) ∧
      x.entries = some rest := by
  unfold from_reader
  cases hfound : find_manifest entries with
  | error e => exact iff_of_false nofun fun ⟨_, _, h, _⟩ => nomatch h
  | ok found =>
      obtain ⟨snapshot_file, rest⟩ := found
      change ((deserialize snapshot_file).mapError OpenError.BincodeError >>= fun read =>
        (.ok ⟨read.1, read.2, some rest⟩ : Except OpenError OpenArchive)) = _ ↔ _
      cases hread : deserialize snapshot_file with
      | error e =>
          refine iff_of_false nofun fun ⟨_, _, hsame, hread', _⟩ => ?_
          obtain ⟨rfl, rfl⟩ := Prod.mk.inj (Except.ok.inj hsame)
          cases hread.symm.trans hread'
      | ok read =>
          constructor
          · intro h
            obtain rfl := Except.ok.inj h
            exact ⟨snapshot_file, rest, rfl, hread, rfl⟩
          · rintro ⟨_, _, hsame, hread', hentries⟩
            obtain ⟨rfl, rfl⟩ := Prod.mk.inj (Except.ok.inj hsame)
            obtain rfl := Except.ok.inj (hread.symm.trans hread')
            cases x
            subst hentries
            rfl

end Opened

/-- An AppendVec of the accounts directory. -/
def TarEntry.is_storage : TarEntry → Bool
  | .file path _ => is_appendvec_file path
  | _ => false

/-- **An archive that opens loses no storage.** From the files of the accounts directory,
wherever in the archive they are, the iteration has all the items there are, in their
order; before the manifest there are none of them. -/
theorem opened_archive_loses_none (mem : Memory)
    (deserialize : Bytes → Except String (Slot × Storages)) (entries : List TarEntry)
    (x : OpenArchive) (h : from_reader deserialize entries = .ok x)
    (minimum_append_vec_slot : Option Slot) :
    (((entries.filter TarEntry.is_storage).map TarEntry.entry).filterMap fun entry =>
        ArchiveSnapshotExtractor.item ⟨x.archive, minimum_append_vec_slot⟩ mem entry).Sublist
      (x.iter mem minimum_append_vec_slot).1 := by
  obtain ⟨snapshot_file, rest, hfound, -, hentries⟩ := from_reader_eq_ok_iff.mp h
  obtain ⟨before, path, hbefore, hmanifest, rfl⟩ := find_manifest_eq_ok_iff.mp hfound
  have hnone : before.filter TarEntry.is_storage = [] := by
    refine List.filter_eq_nil_iff.mpr fun entry hentry => ?_
    obtain ⟨path, bytes, rfl, -, happendvec⟩ := hbefore entry hentry
    simpa [TarEntry.is_storage] using happendvec
  have hother : (TarEntry.file path snapshot_file).is_storage = false :=
    not_appendvec_of_manifest hmanifest
  have hrest : x.archive.entries = rest.map TarEntry.entry := by
    unfold OpenArchive.archive
    rw [hentries]
    rfl
  unfold OpenArchive.iter ArchiveSnapshotExtractor.unboxed_iter
  rw [List.filter_append, hnone, List.nil_append, List.filter_cons_of_neg (by simp [hother]),
    hrest]
  exact (List.filter_sublist.map _).filterMap _

/-- A storage, and a file that has the name of one but is elsewhere. -/
def two_files : List TarEntry :=
  [.file "version" [1], .file "snapshots/9/9" [2], .file "accounts/5.0" [3], .file "other/6.0" [4]]

theorem from_reader_two_files :
    from_reader (fun _ => .ok (9, [(5, [⟨0, 1⟩])])) two_files
      = .ok ⟨9, [(5, [⟨0, 1⟩])], some [.file "accounts/5.0" [3], .file "other/6.0" [4]]⟩ := by
  refine from_reader_eq_ok_iff.mpr ⟨[2], _, find_manifest_eq_ok_iff.mpr
    ⟨[.file "version" [1]], "snapshots/9/9", ?_, by decide +kernel, rfl⟩, rfl, rfl⟩
  exact List.forall_mem_singleton.mpr
    ⟨"version", [1], rfl, by decide +kernel, by decide +kernel⟩

theorem opened_archive_loses_none_two_files :
    ∃ x : OpenArchive, (((two_files.filter TarEntry.is_storage).map TarEntry.entry).filterMap
          fun entry => ArchiveSnapshotExtractor.item ⟨x.archive, none⟩
            ⟨fun _ => true, fun _ => true⟩ entry).Sublist
        (x.iter ⟨fun _ => true, fun _ => true⟩ none).1 :=
  ⟨_, opened_archive_loses_none _ (fun _ => .ok (9, [(5, [⟨0, 1⟩])])) two_files _
    from_reader_two_files none⟩

/-! ## Complete archives -/

/-- A storage of the archive: the accounts that were appended to it, and then anything. -/
structure Storage where
  slot : Slot
  id : ℕ
  appended : List Appended
  name : String
  path : String
  bytes : Bytes
  components : components path = [.Normal "accounts", .Normal name]
  parsed : parse_append_vec_name name = some (slot, id)
  holds : layout appended <+: bytes
  usize : (layout appended).length < u64_modulus

def Storage.entry (s : Storage) : TarEntry := .file s.path s.bytes

def Storage.above (minimum_append_vec_slot : Option Slot) (s : Storage) : Bool :=
  should_process_append_vec_slot minimum_append_vec_slot s.slot

/-- The manifest has the storage, in its length. -/
def Storage.Recorded (s : Storage) (accounts_db_fields : Storages) : Prop :=
  ∃ known_vec,
    Mapped.known_vec (fun slot => accounts_db_fields.lookup slot) s.slot s.id = some known_vec ∧
      known_vec.accounts_current_len = (layout s.appended).length

/-- The storages are the ones that the manifest records. -/
structure Complete (accounts_db_fields : Storages) (storages : List Storage) : Prop where
  recorded : ∀ s ∈ storages, s.Recorded accounts_db_fields
  all : (storages.map fun s => (s.slot, s.id)).Perm
    (accounts_db_fields.flatMap fun s => s.2.map fun known_vec => (s.1, known_vec.id))

/-- What an item says: the slot and the ID of the storage, and its accounts. -/
def read_item (item : Except ArchiveError Mapped.AppendVec) :
    Option (Slot × ℕ × List Mapped.StoredAccountMeta) :=
  item.toOption.map fun v => (v.slot, v.id, v.append_vec_accounts)

section Yields

variable {mem : Memory} {x : OpenArchive} {storages : List Storage}

/-- A storage entry above the minimum yields its storage. -/
theorem item_storage (x : OpenArchive) (minimum_append_vec_slot : Option Slot) (s : Storage) :
    ArchiveSnapshotExtractor.item ⟨x.archive, minimum_append_vec_slot⟩ mem s.entry.entry
      = if s.above minimum_append_vec_slot then
          some (ArchiveSnapshotExtractor.process ⟨x.archive, minimum_append_vec_slot⟩ mem s.bytes
            s.slot s.id)
        else none := by
  have hname : (file_name s.path).bind parse_append_vec_name = some (s.slot, s.id) := by
    unfold file_name
    rw [s.components]
    exact s.parsed
  unfold Storage.entry TarEntry.entry ArchiveSnapshotExtractor.item
  simp only [hname]
  rfl

/-- A recorded storage is processed into its accounts. -/
theorem process_storage {minimum_append_vec_slot : Option Slot} {s : Storage}
    (hrecorded : s.Recorded x.accounts_db_fields)
    (hmem : mem.map_anon (layout s.appended).length = true) :
    read_item (ArchiveSnapshotExtractor.process ⟨x.archive, minimum_append_vec_slot⟩ mem s.bytes
      s.slot s.id) = some (s.slot, s.id, placed 0 s.appended) := by
  obtain ⟨known_vec, hknown, hlen⟩ := hrecorded
  have hprefix : (layout s.appended).length ≤ s.bytes.length := s.holds.length_le
  have hbytes : s.bytes.take (layout s.appended).length = layout s.appended :=
    (List.prefix_iff_eq_take.mp s.holds).symm
  have hfields : Mapped.known_vec x.archive.accounts_db_fields s.slot s.id = some known_vec :=
    hknown
  unfold ArchiveSnapshotExtractor.process Mapped.AppendVec.new_from_reader
  simp only [hfields, hlen, hmem, if_true]
  refine congrArg some (congrArg (Prod.mk s.slot) (congrArg (Prod.mk s.id) ?_))
  refine Mapped.AppendVec.accounts_of_layout s.appended ?_ rfl s.usize
  change (Mapped.AppendVec.copied s.bytes (layout s.appended).length).take
    (layout s.appended).length = _
  rw [Mapped.AppendVec.take_copied hprefix, List.take_take, min_self, hbytes]

/-- The items of the storages are those of the slots above the minimum. -/
theorem items_storages (mem : Memory) (x : OpenArchive) (minimum_append_vec_slot : Option Slot)
    (hrecorded : ∀ s ∈ storages, s.Recorded x.accounts_db_fields)
    (hmem : ∀ s ∈ storages, mem.map_anon (layout s.appended).length = true) :
    (((storages.map Storage.entry).map TarEntry.entry).filterMap fun entry =>
        ArchiveSnapshotExtractor.item ⟨x.archive, minimum_append_vec_slot⟩ mem entry).map read_item
      = (storages.filter (Storage.above minimum_append_vec_slot)).map
        fun s => some (s.slot, s.id, placed 0 s.appended) := by
  induction storages with
  | nil => rfl
  | cons s storages ih =>
      rw [List.forall_mem_cons] at hrecorded hmem
      rw [List.map_cons, List.map_cons, List.filterMap_cons, item_storage]
      by_cases hslot : s.above minimum_append_vec_slot = true
      · rw [if_pos hslot, List.filter_cons_of_pos hslot, List.map_cons, List.map_cons,
          process_storage hrecorded.1 hmem.1, ih hrecorded.2 hmem.2]
      · rw [if_neg hslot, List.filter_cons_of_neg hslot]
        exact ih hrecorded.2 hmem.2

/-- The hint counts the storages of the slots above the minimum. -/
theorem append_vec_count_hint_eq (hcomplete : Complete x.accounts_db_fields storages)
    (minimum_append_vec_slot : Option Slot) :
    x.append_vec_count_hint minimum_append_vec_slot
      = (storages.filter (Storage.above minimum_append_vec_slot)).length := by
  have hpairs := (hcomplete.all.filter fun s =>
    should_process_append_vec_slot minimum_append_vec_slot s.1).length_eq
  rw [List.filter_map, List.length_map] at hpairs
  refine Eq.trans ?_ hpairs.symm
  unfold OpenArchive.append_vec_count_hint
  generalize x.accounts_db_fields = fields
  induction fields with
  | nil => rfl
  | cons f fields ih =>
      rw [List.flatMap_cons, List.filter_append, List.length_append, ← ih, List.filter_map,
        List.length_map]
      by_cases hslot : should_process_append_vec_slot minimum_append_vec_slot f.1 = true
      · simp [hslot, Function.comp_def]
      · simp [hslot, Function.comp_def]

end Yields

/-- **A complete archive yields what was appended.** Files before the manifest are passed
over; then each storage above the minimum slot yields its accounts, in the order of the
archive, as many as the hint says, and a second iteration yields none. -/
theorem archive_yields_appended (mem : Memory)
    (deserialize : Bytes → Except String (Slot × Storages)) (before : List TarEntry)
    (path : String) (snapshot_file : Bytes) (snapshot_slot : Slot) (accounts_db_fields : Storages)
    (storages : List Storage) (hbefore : ∀ entry ∈ before, entry.Passed)
    (hmanifest : is_snapshot_manifest_file path = true)
    (hread : deserialize snapshot_file = .ok (snapshot_slot, accounts_db_fields))
    (hcomplete : Complete accounts_db_fields storages)
    (hmem : ∀ s ∈ storages, mem.map_anon (layout s.appended).length = true) :
    ∃ x, from_reader deserialize (before ++ .file path snapshot_file :: storages.map Storage.entry)
        = .ok x ∧
      x.snapshot_slot = snapshot_slot ∧ ∀ minimum_append_vec_slot : Option Slot,
        (x.iter mem minimum_append_vec_slot).1.map read_item
            = (storages.filter (Storage.above minimum_append_vec_slot)).map
              (fun s => some (s.slot, s.id, placed 0 s.appended)) ∧
        (x.iter mem minimum_append_vec_slot).1.length
          = x.append_vec_count_hint minimum_append_vec_slot ∧
        ((x.iter mem minimum_append_vec_slot).2.iter mem minimum_append_vec_slot).1 = [] := by
  refine ⟨⟨snapshot_slot, accounts_db_fields, some (storages.map Storage.entry)⟩, ?_, rfl, ?_⟩
  · exact from_reader_eq_ok_iff.mpr ⟨snapshot_file, _,
      find_manifest_eq_ok_iff.mpr ⟨before, path, hbefore, hmanifest, rfl⟩, hread, rfl⟩
  · intro minimum_append_vec_slot
    have hitems := items_storages mem
      ⟨snapshot_slot, accounts_db_fields, some (storages.map Storage.entry)⟩
      minimum_append_vec_slot hcomplete.recorded hmem
    have hcount := append_vec_count_hint_eq
      (x := ⟨snapshot_slot, accounts_db_fields, some (storages.map Storage.entry)⟩) hcomplete
      minimum_append_vec_slot
    refine ⟨hitems, ?_, rfl⟩
    have hlength := congrArg List.length hitems
    rw [List.length_map, List.length_map] at hlength
    exact hlength.trans hcount.symm

def lone_storage : Storage where
  slot := 5
  id := 0
  appended := [three_bytes]
  name := "5.0"
  path := "accounts/5.0"
  bytes := layout [three_bytes] ++ [0, 0]
  components := by decide +kernel
  parsed := by decide +kernel
  holds := List.prefix_append _ _
  usize := by decide +kernel

/-- One storage, behind the version file and the manifest. -/
theorem archive_yields_appended_lone :
    ∃ x, from_reader (fun _ => .ok (9, [(5, [⟨0, 144⟩])]))
        [.file "version" [1], .file "snapshots/9/9" [2], lone_storage.entry] = .ok x ∧
      x.snapshot_slot = 9 ∧
      (x.iter ⟨fun _ => true, fun _ => true⟩ none).1.map read_item
        = [some (5, 0, placed 0 [three_bytes])] := by
  obtain ⟨x, hx, hslot, hitems⟩ := archive_yields_appended ⟨fun _ => true, fun _ => true⟩
    (fun _ => .ok (9, [(5, [⟨0, 144⟩])])) [.file "version" [1]] "snapshots/9/9" [2] 9
    [(5, [⟨0, 144⟩])] [lone_storage]
    (List.forall_mem_singleton.mpr
      ⟨"version", [1], rfl, by decide +kernel, by decide +kernel⟩)
    (by decide +kernel) rfl
    ⟨List.forall_mem_singleton.mpr ⟨⟨0, 144⟩, by decide +kernel, by decide +kernel⟩, .refl _⟩
    (fun _ _ => rfl)
  exact ⟨x, hx, hslot, (hitems none).1⟩

end SnapshotEtl.ArchiveReader
