/-
The two extractors: `archived.rs` and `unpacked.rs`.

They look the storages up in the manifest alike and differ in how they take the
bytes. The archive's reader is copied into memory of the recorded length, whether
it has as many bytes or not; the unpacked file is mapped, and refused where it is
shorter than the manifest says or larger than 16 GiB. So a truncated storage is an
error unpacked, and in an archive a storage that ends in accounts of zeros.
-/
import SnapshotEtl.AppendVecs
import SnapshotEtl.Chain

set_option autoImplicit false

namespace SnapshotEtl.Mapped

/-! ## Names -/

/-- `u64::from_str`. -/
def u64_from_str (s : List Char) : Option ℕ :=
  let digits := if s.head? = some '+' then s.tail else s
  if digits = [] ∨ ¬ digits.all Char.isDigit then none
  else
    let value := Nat.ofDigits 10 (digits.reverse.map fun c => c.toNat - '0'.toNat)
    if value < u64_modulus then some value else none

/-- The name up to its first dot and from there on. -/
def parse_append_vec_name (name : String) : Option (Slot × ℕ) := do
  let slot ← u64_from_str (name.toList.takeWhile (· ≠ '.'))
  let id ← u64_from_str (name.toList.dropWhile (· ≠ '.')).tail
  pure (slot, id)

/-! ## Snapshots -/

structure SerializableAccountStorageEntry where
  id : ℕ
  accounts_current_len : ℕ
deriving DecidableEq

/-- `AccountsDbFields`, as far as the extractors go. -/
abbrev AccountsDbFields := Slot → Option (List SerializableAccountStorageEntry)

/-- A file of `accounts/`, which is not empty. -/
structure StorageFile where
  name : String
  bytes : Bytes
  nonempty : bytes ≠ []

/-- The manifest, and the files in the order of the archive. -/
structure Snapshot where
  accounts_db_fields : AccountsDbFields
  files : List StorageFile

inductive SnapshotError
  | IOError (e : AppendVecError)
  | MissingInManifest (path : String) (slot : Slot) (id : ℕ)
  | FailedToOpen (path : String) (slot : Slot) (id expected_len : ℕ) (e : AppendVecError)
  | UnexpectedAppendVec
deriving DecidableEq, Repr

def SnapshotError.message : SnapshotError → String
  | IOError e => e.message
  | MissingInManifest path slot id =>
      s!"appendvec {path} (slot={slot}, id={id}) does not exist in snapshot manifest"
  | FailedToOpen path slot id expected_len e =>
      s!"failed to open/parse appendvec {path} (slot={slot}, id={id}, " ++
        s!"expected_len={expected_len}): {e.message}"
  | UnexpectedAppendVec => "Unexpected AppendVec"

section extract

variable (mem : Memory) (fields : AccountsDbFields)

def known_vec (slot : Slot) (id : ℕ) : Option SerializableAccountStorageEntry :=
  ((fields slot).getD []).find? fun entry => entry.id = id

/-- `ArchiveSnapshotExtractor::process_entry`. -/
def process_entry (file : StorageFile) (slot : Slot) (id : ℕ) : Except SnapshotError AppendVec :=
  match known_vec fields slot id with
  | none => .error .UnexpectedAppendVec
  | some known_vec =>
      (AppendVec.new_from_reader mem file.bytes known_vec.accounts_current_len slot id).mapError
        .IOError

/-- `UnpackedSnapshotExtractor::open_append_vec`. -/
def open_append_vec (slot : Slot) (id : ℕ) (file : StorageFile) : Except SnapshotError AppendVec :=
  match known_vec fields slot id with
  | none => .error (.MissingInManifest file.name slot id)
  | some known_vec =>
      (AppendVec.new_from_file mem file.bytes known_vec.accounts_current_len slot id).mapError
        (.FailedToOpen file.name slot id known_vec.accounts_current_len)

/-- What the archive's iterator makes of a file: an item, or nothing. -/
def archived_item (minimum_append_vec_slot : Option Slot) (file : StorageFile) :
    Option (Except SnapshotError AppendVec) := do
  let (slot, id) ← parse_append_vec_name file.name
  if should_process_append_vec_slot minimum_append_vec_slot slot then
    some (process_entry mem fields file slot id)
  else none

def unpacked_item (file : StorageFile) : Option (Except SnapshotError AppendVec) := do
  let (slot, id) ← parse_append_vec_name file.name
  some (open_append_vec mem fields slot id file)

end extract

/-- `ArchiveSnapshotExtractor::unboxed_iter`. -/
def Snapshot.archived_iter (snapshot : Snapshot) (mem : Memory)
    (minimum_append_vec_slot : Option Slot) : List (Except SnapshotError AppendVec) :=
  snapshot.files.filterMap (archived_item mem snapshot.accounts_db_fields minimum_append_vec_slot)

/-- `UnpackedSnapshotExtractor::iter_streams`, over the directory in some order. -/
def Snapshot.unpacked_iter (snapshot : Snapshot) (mem : Memory) (read_dir : List StorageFile) :
    List (Except SnapshotError AppendVec) :=
  read_dir.filterMap (unpacked_item mem snapshot.accounts_db_fields)

/-! ## Agreement -/

/-- The accounts of an item, or none where it is an error. -/
def item_accounts (item : Except SnapshotError AppendVec) : Option (List StoredAccountMeta) :=
  item.toOption.map AppendVec.append_vec_accounts

/-- The file holds the bytes of the account. -/
def StorageFile.Has (file : StorageFile) (account : StoredAccountMeta) : Prop :=
  account.offset + (STORED_META_SIZE + ACCOUNT_META_SIZE + HASH_SIZE) + account.data.length ≤
    file.bytes.length

/-- Both extractors pass over the file, or fail at it, or find the same accounts in
it; and all that either finds is in the file. -/
structure Agrees (mem : Memory) (fields : AccountsDbFields) (file : StorageFile) : Prop where
  same : (archived_item mem fields none file).map item_accounts =
    (unpacked_item mem fields file).map item_accounts
  within : ∀ item, archived_item mem fields none file = some item ∨
    unpacked_item mem fields file = some item →
    ∀ accounts, item_accounts item = some accounts → ∀ account ∈ accounts, file.Has account

/-- The manifest's entry for the file. -/
def StorageFile.entry (file : StorageFile) (fields : AccountsDbFields) :
    Option SerializableAccountStorageEntry := do
  let (slot, id) ← parse_append_vec_name file.name
  known_vec fields slot id

section agree

variable {mem : Memory} {fields : AccountsDbFields} {file : StorageFile} {slot : Slot} {id : ℕ}
  {entry : SerializableAccountStorageEntry}

theorem item_accounts_mapError (r : Except AppendVecError AppendVec)
    (f : AppendVecError → SnapshotError) :
    item_accounts (r.mapError f) = r.toOption.map AppendVec.append_vec_accounts := by
  cases r <;> rfl

theorem process_entry_accounts (mem : Memory) (file : StorageFile)
    (h : known_vec fields slot id = some entry) :
    item_accounts (process_entry mem fields file slot id) =
      (AppendVec.new_from_reader mem file.bytes entry.accounts_current_len slot
        id).toOption.map AppendVec.append_vec_accounts := by
  unfold process_entry
  rw [h]
  exact item_accounts_mapError _ _

theorem open_append_vec_accounts (mem : Memory) (file : StorageFile)
    (h : known_vec fields slot id = some entry) :
    item_accounts (open_append_vec mem fields slot id file) =
      (AppendVec.new_from_file mem file.bytes entry.accounts_current_len slot
        id).toOption.map AppendVec.append_vec_accounts := by
  unfold open_append_vec
  rw [h]
  exact item_accounts_mapError _ _

/-- The archive's item is an AppendVec where memory can be had. -/
theorem new_from_reader_isSome {bytes : Bytes} {current_len : ℕ} :
    (AppendVec.new_from_reader mem bytes current_len slot id).toOption.isSome =
      mem.map_anon current_len := by
  unfold AppendVec.new_from_reader
  cases mem.map_anon current_len <;> rfl

/-- The unpacked one where the file can be mapped for its length. -/
theorem new_from_file_isSome {bytes : Bytes} {current_len : ℕ} :
    (AppendVec.new_from_file mem bytes current_len slot id).toOption.isSome = true ↔
      AppendVec.Maps mem bytes current_len := by
  constructor
  · intro h
    cases hfile : AppendVec.new_from_file mem bytes current_len slot id with
    | error e =>
        rw [hfile] at h
        cases h
    | ok v => exact (AppendVec.new_from_file_eq_ok hfile).1
  · intro h
    obtain ⟨v, hv⟩ := AppendVec.exists_new_from_file slot id h
    rw [hv]
    rfl

/-- The two constructors map a file of the recorded length to the same bytes. -/
theorem same_bytes {bytes : Bytes} {current_len : ℕ} {v v' : AppendVec}
    (hreader : AppendVec.new_from_reader mem bytes current_len slot id = .ok v)
    (hfile : AppendVec.new_from_file mem bytes current_len slot id = .ok v') :
    v.SameBytes v' := by
  obtain ⟨-, hmap, hlen⟩ := AppendVec.new_from_reader_eq_ok hreader
  obtain ⟨⟨-, -, hle, -⟩, hmap', hlen'⟩ := AppendVec.new_from_file_eq_ok hfile
  constructor
  · rw [hlen, hlen']
  · rw [hmap, hmap', hlen, AppendVec.take_copied hle, List.take_take, Nat.min_self]

/-- They agree where both or neither make an AppendVec. -/
theorem opened_agree_iff {bytes : Bytes} {current_len : ℕ} :
    (AppendVec.new_from_reader mem bytes current_len slot id).toOption.map
        AppendVec.append_vec_accounts =
      (AppendVec.new_from_file mem bytes current_len slot id).toOption.map
        AppendVec.append_vec_accounts ↔
      (AppendVec.Maps mem bytes current_len ↔ mem.map_anon current_len = true) := by
  have hreader : (AppendVec.new_from_reader mem bytes current_len slot id).toOption.isSome =
      mem.map_anon current_len := new_from_reader_isSome
  have hfile : (AppendVec.new_from_file mem bytes current_len slot id).toOption.isSome = true ↔
      AppendVec.Maps mem bytes current_len := new_from_file_isSome
  rw [← hfile, ← hreader]
  cases hr : AppendVec.new_from_reader mem bytes current_len slot id with
  | error e =>
      cases hf : AppendVec.new_from_file mem bytes current_len slot id with
      | error e' => simp [Except.toOption]
      | ok v' => simp [Except.toOption]
  | ok v =>
      cases hf : AppendVec.new_from_file mem bytes current_len slot id with
      | error e' => simp [Except.toOption]
      | ok v' => simp [Except.toOption, (same_bytes hr hf).accounts]

theorem eq_ok_of_toOption {ε α : Type} {r : Except ε α} {a : α} (h : r.toOption = some a) :
    r = .ok a := by
  cases r with
  | error e => cases h
  | ok b => exact congrArg Except.ok (Option.some.inj h)

/-- Where the recorded length lies in the file, so does every account. -/
theorem within_of_le {v : AppendVec} (h : v.current_len ≤ file.bytes.length)
    {account : StoredAccountMeta} (haccount : account ∈ v.append_vec_accounts) :
    file.Has account :=
  (v.append_vec_accounts_lists.within account haccount).trans h

/-- A file of another name is no storage. -/
theorem items_of_none (mem : Memory) (fields : AccountsDbFields)
    (h : parse_append_vec_name file.name = none) :
    archived_item mem fields none file = none ∧ unpacked_item mem fields file = none ∧
      file.entry fields = none := by
  unfold archived_item unpacked_item StorageFile.entry
  rw [h]
  exact ⟨rfl, rfl, rfl⟩

theorem items_of_name (mem : Memory) (fields : AccountsDbFields)
    (h : parse_append_vec_name file.name = some (slot, id)) :
    archived_item mem fields none file = some (process_entry mem fields file slot id) ∧
      unpacked_item mem fields file = some (open_append_vec mem fields slot id file) ∧
      file.entry fields = known_vec fields slot id := by
  unfold archived_item unpacked_item StorageFile.entry
  rw [h]
  exact ⟨rfl, rfl, rfl⟩

theorem agrees_iff : Agrees mem fields file ↔ ∀ entry, file.entry fields = some entry →
    (AppendVec.Maps mem file.bytes entry.accounts_current_len ↔
      mem.map_anon entry.accounts_current_len = true) := by
  cases hname : parse_append_vec_name file.name with
  | none =>
      obtain ⟨harchived, hunpacked, hentry⟩ := items_of_none mem fields hname
      refine ⟨fun _ entry h => ?_, fun _ => ⟨?_, fun item h => ?_⟩⟩
      · rw [hentry] at h
        cases h
      · rw [harchived, hunpacked]
      · rw [harchived, hunpacked] at h
        rcases h with h | h <;> cases h
  | some parsed =>
      obtain ⟨slot, id⟩ := parsed
      obtain ⟨harchived, hunpacked, hentry⟩ := items_of_name mem fields hname
      rw [hentry]
      cases hknown : known_vec fields slot id with
      | none =>
          -- both are errors
          have hitems : item_accounts (process_entry mem fields file slot id) = none ∧
              item_accounts (open_append_vec mem fields slot id file) = none := by
            unfold process_entry open_append_vec
            rw [hknown]
            exact ⟨rfl, rfl⟩
          refine ⟨fun _ entry h => (nomatch h), fun _ => ⟨?_, fun item h accounts haccounts => ?_⟩⟩
          · rw [harchived, hunpacked, Option.map_some, Option.map_some, hitems.1, hitems.2]
          · rw [harchived, hunpacked] at h
            rcases h with h | h
            · rw [← Option.some.inj h, hitems.1] at haccounts
              cases haccounts
            · rw [← Option.some.inj h, hitems.2] at haccounts
              cases haccounts
      | some entry =>
          have hreader := process_entry_accounts mem file hknown
          have hfile := open_append_vec_accounts mem file hknown
          have hsame : (archived_item mem fields none file).map item_accounts =
              (unpacked_item mem fields file).map item_accounts ↔
                (AppendVec.Maps mem file.bytes entry.accounts_current_len ↔
                  mem.map_anon entry.accounts_current_len = true) := by
            rw [harchived, hunpacked, Option.map_some, Option.map_some, Option.some_inj, hreader,
              hfile]
            exact opened_agree_iff
          constructor
          · intro h entry' hentry'
            obtain rfl := Option.some.inj hentry'
            exact hsame.mp h.same
          · intro h
            have hboth := hsame.mpr (h entry rfl)
            refine ⟨hboth, fun item hitem accounts haccounts account haccount => ?_⟩
            -- whichever it is, the unpacked file has it
            have hunpacked_accounts : item_accounts (open_append_vec mem fields slot id file) =
                some accounts := by
              rw [harchived, hunpacked, Option.map_some, Option.map_some, Option.some_inj] at hboth
              rw [harchived, hunpacked] at hitem
              rcases hitem with hitem | hitem
              · rw [← hboth, Option.some.inj hitem, haccounts]
              · rw [Option.some.inj hitem, haccounts]
            rw [hfile] at hunpacked_accounts
            obtain ⟨v, hv, rfl⟩ := Option.map_eq_some_iff.mp hunpacked_accounts
            obtain ⟨⟨-, -, hle, -⟩, -, hlen⟩ := AppendVec.new_from_file_eq_ok (eq_ok_of_toOption hv)
            exact within_of_le (hlen ▸ hle) haccount

end agree

/-- Where they agree on every file, they yield the same items, whatever order the
directory is read in. -/
theorem iter_agrees {mem : Memory} {snapshot : Snapshot} {read_dir : List StorageFile}
    (h : ∀ file ∈ snapshot.files, Agrees mem snapshot.accounts_db_fields file)
    (hread_dir : read_dir.Perm snapshot.files) :
    ((snapshot.unpacked_iter mem read_dir).map item_accounts).Perm
      ((snapshot.archived_iter mem none).map item_accounts) := by
  have hitems : (snapshot.archived_iter mem none).map item_accounts =
      (snapshot.unpacked_iter mem snapshot.files).map item_accounts := by
    unfold Snapshot.archived_iter Snapshot.unpacked_iter
    rw [List.map_filterMap, List.map_filterMap]
    exact List.filterMap_congr fun file hfile => (h file hfile).same
  rw [hitems]
  exact (hread_dir.filterMap _).map _

/-- **The extractors agree on a snapshot exactly where every file the manifest knows
can be mapped for its recorded length if memory of that length can be had.** -/
theorem extractors_agree_iff (mem : Memory) (snapshot : Snapshot) :
    (∀ file ∈ snapshot.files, Agrees mem snapshot.accounts_db_fields file) ↔
      ∀ file ∈ snapshot.files, ∀ entry, file.entry snapshot.accounts_db_fields = some entry →
        (AppendVec.Maps mem file.bytes entry.accounts_current_len ↔
          mem.map_anon entry.accounts_current_len = true) := by
  exact forall_congr' fun file => forall_congr' fun _ => agrees_iff

/-- One byte, where the manifest records an account's length. -/
def truncated_storage : Snapshot where
  accounts_db_fields := fun slot => if slot = 1 then some [⟨0, 136⟩] else none
  files := [⟨"1.0", [7], by decide⟩]

/-- With all the memory one may want, the archive has an account in it and the
unpacked file is refused. -/
theorem truncated_storage_disagrees :
    (truncated_storage.archived_iter ⟨fun _ => true, fun _ => true⟩ none).map
        (fun item => (item_accounts item).map List.length) = [some 1] ∧
      (truncated_storage.unpacked_iter ⟨fun _ => true, fun _ => true⟩ truncated_storage.files).map
        item_accounts = [none] ∧
      ¬ ∀ file ∈ truncated_storage.files,
        Agrees ⟨fun _ => true, fun _ => true⟩ truncated_storage.accounts_db_fields file := by
  have harchived : (truncated_storage.archived_iter ⟨fun _ => true, fun _ => true⟩ none).map
      (fun item => (item_accounts item).map List.length) = [some 1] := by
    decide +kernel
  have hunpacked : (truncated_storage.unpacked_iter ⟨fun _ => true, fun _ => true⟩
      truncated_storage.files).map item_accounts = [none] := by
    decide +kernel
  refine ⟨harchived, hunpacked, fun h => ?_⟩
  have hsame := iter_agrees h (List.Perm.refl _)
  rw [hunpacked] at hsame
  have hitems := hsame.singleton_eq
  have hlengths := congrArg (List.map (Option.map List.length)) hitems
  rw [List.map_map] at hlengths
  change [none] = (truncated_storage.archived_iter ⟨fun _ => true, fun _ => true⟩ none).map
    (fun item => (item_accounts item).map List.length) at hlengths
  rw [harchived] at hlengths
  cases hlengths

end SnapshotEtl.Mapped
