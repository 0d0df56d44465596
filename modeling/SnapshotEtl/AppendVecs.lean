/-
A storage file as bytes: `append_vec.rs`, and the accounts it decodes to.

`current_len` is the length the manifest records. The map has at least as many
bytes, and nothing beyond `current_len` is ever read; what the bytes before it are
is up to the constructor. A file is mapped as it is, and refused where it is
shorter. A reader is copied into a zeroed map of the recorded length, and where it
ends early the zeros stay.
-/
import SnapshotEtl.HotIndexes

set_option autoImplicit false

namespace SnapshotEtl.Mapped

/-! ## Layout -/

/-- `u64_align!`. -/
def u64_align (addr : ℕ) : ℕ := (addr + 7) / 8 * 8

def MAXIMUM_APPEND_VEC_FILE_SIZE : ℕ := 16 * 1024 * 1024 * 1024

/-- A little-endian integer. -/
def le_value (bytes : Bytes) : ℕ := Nat.ofDigits 256 (bytes.map UInt8.toNat)

def read_32 (bytes : Bytes) : Vector UInt8 32 := Vector.ofFn fun i => bytes.getD i 0

structure StoredMeta where
  write_version : ℕ
  data_len : ℕ
  pubkey : Pubkey
deriving DecidableEq

/-- `size_of::<StoredMeta>()`. -/
def STORED_META_SIZE : ℕ := 48

def StoredMeta.read (bytes : Bytes) : StoredMeta where
  write_version := le_value (bytes.take 8)
  data_len := le_value ((bytes.drop 8).take 8)
  pubkey := ⟨read_32 (bytes.drop 16)⟩

structure AccountMeta where
  lamports : ℕ
  rent_epoch : ℕ
  owner : Pubkey
  executable : Bool
deriving DecidableEq

/-- `size_of::<AccountMeta>()`, with the padding after its flag. -/
def ACCOUNT_META_SIZE : ℕ := 56

def AccountMeta.read (bytes : Bytes) : AccountMeta where
  lamports := le_value (bytes.take 8)
  rent_epoch := le_value ((bytes.drop 8).take 8)
  owner := ⟨read_32 (bytes.drop 16)⟩
  -- the source reads a `bool` in place, which is undefined for bytes other than 0 and 1
  executable := bytes.getD 48 0 ≠ 0

/-- `size_of::<Hash>()`. -/
def HASH_SIZE : ℕ := 32

structure StoredAccountMeta where
  stored_meta : StoredMeta
  account_meta : AccountMeta
  data : Bytes
  offset : ℕ
  stored_size : ℕ
  hash : Vector UInt8 32
deriving DecidableEq

/-! ## AppendVecs -/

structure AppendVec where
  slot : Slot
  id : ℕ
  map : Bytes
  current_len : ℕ
  file_size : ℕ
  fits : current_len ≤ map.length

namespace AppendVec

/-- The bytes at `offset`, and where the next item is. -/
def get_slice (v : AppendVec) (offset size : ℕ) : Option (Bytes × ℕ) :=
  if u64_modulus ≤ offset + size ∨ v.current_len < offset + size then none
  else some ((v.map.drop offset).take size, u64_align (offset + size))

def get_type {T : Type} (v : AppendVec) (size : ℕ) (read : Bytes → T) (offset : ℕ) :
    Option (T × ℕ) :=
  (v.get_slice offset size).map fun (data, next) => (read data, next)

def get_account (v : AppendVec) (offset : ℕ) : Option (StoredAccountMeta × ℕ) := do
  let (stored_meta, next) ← v.get_type STORED_META_SIZE StoredMeta.read offset
  let (account_meta, next) ← v.get_type ACCOUNT_META_SIZE AccountMeta.read next
  let (hash, next) ← v.get_type HASH_SIZE read_32 next
  let (data, next) ← v.get_slice next stored_meta.data_len
  pure (⟨stored_meta, account_meta, data, offset, next - offset, hash⟩, next)

/-- `AppendVecAccounts`, called until it ends or the calls run out. -/
def accounts_from (v : AppendVec) : ℕ → ℕ → List StoredAccountMeta
  | 0, _ => []
  | calls + 1, offset =>
      match v.get_account offset with
      | none => []
      | some (account, next) => account :: v.accounts_from calls next

/-- Every account takes more than a byte, so these calls are enough. -/
def append_vec_accounts (v : AppendVec) : List StoredAccountMeta :=
  v.accounts_from v.current_len 0

/-! ### What is read of it -/

variable {v v' : AppendVec} {offset next : ℕ} {account : StoredAccountMeta}

/-- Alignment never goes back. -/
theorem le_u64_align (addr : ℕ) : addr ≤ u64_align addr := by
  unfold u64_align
  omega

/-- A slice that is read lies inside the current length, and the next offset is aligned. -/
theorem get_slice_eq_some {size : ℕ} {data : Bytes}
    (h : v.get_slice offset size = some (data, next)) :
    offset + size ≤ v.current_len ∧ data.length = size ∧ next = u64_align (offset + size) := by
  unfold get_slice at h
  split at h
  · cases h
  next hin =>
    obtain ⟨rfl, rfl⟩ := Prod.mk.inj (Option.some.inj h)
    have hle : offset + size ≤ v.current_len := by omega
    have hfits := v.fits
    refine ⟨hle, ?_, rfl⟩
    rw [List.length_take, List.length_drop]
    omega

/-- So does a record. -/
theorem get_type_eq_some {T : Type} {size : ℕ} {read : Bytes → T} {value : T}
    (h : v.get_type size read offset = some (value, next)) :
    offset + size ≤ v.current_len ∧ next = u64_align (offset + size) := by
  unfold get_type at h
  obtain ⟨⟨data, next'⟩, hslice, heq⟩ := Option.map_eq_some_iff.mp h
  obtain ⟨rfl, rfl⟩ := Prod.mk.inj heq
  obtain ⟨hle, -, hnext⟩ := get_slice_eq_some hslice
  exact ⟨hle, hnext⟩

/-- An account lies within the recorded length, and the next one after it. -/
theorem get_account_eq_some (h : v.get_account offset = some (account, next)) :
    account.offset = offset ∧
      offset + (STORED_META_SIZE + ACCOUNT_META_SIZE + HASH_SIZE) + account.data.length ≤
        v.current_len ∧ offset < next := by
  unfold get_account at h
  simp only [Option.bind_eq_bind, Option.bind_eq_some_iff] at h
  obtain ⟨⟨m, next₁⟩, hmeta, ⟨am, next₂⟩, haccount, ⟨hash, next₃⟩, hhash, ⟨data, next₄⟩, hdata,
    heq⟩ := h
  obtain ⟨rfl, rfl⟩ := Prod.mk.inj (Option.some.inj heq)
  obtain ⟨-, h₁⟩ := get_type_eq_some hmeta
  obtain ⟨-, h₂⟩ := get_type_eq_some haccount
  obtain ⟨-, h₃⟩ := get_type_eq_some hhash
  obtain ⟨hle, hlength, h₄⟩ := get_slice_eq_some hdata
  have hnext₁ := le_u64_align (offset + STORED_META_SIZE)
  have hnext₂ := le_u64_align (next₁ + ACCOUNT_META_SIZE)
  have hnext₃ := le_u64_align (next₂ + HASH_SIZE)
  have hnext₄ := le_u64_align (next₃ + m.data_len)
  dsimp only at h₁ h₂ h₃ h₄ hle hlength
  have hsize : STORED_META_SIZE = 48 := rfl
  refine ⟨rfl, ?_, ?_⟩
  · dsimp only
    omega
  · omega

/-- The accounts from an offset on, to where none can be read. -/
inductive Lists (v : AppendVec) : ℕ → List StoredAccountMeta → Prop
  | stop {offset : ℕ} (h : v.get_account offset = none) : Lists v offset []
  | next {offset next : ℕ} {account : StoredAccountMeta} {accounts : List StoredAccountMeta}
      (h : v.get_account offset = some (account, next)) (hrest : Lists v next accounts) :
      Lists v offset (account :: accounts)

/-- With enough calls the loop lists every account up to the end. -/
theorem accounts_from_lists (v : AppendVec) (calls offset : ℕ)
    (h : v.current_len ≤ offset + calls) :
    v.Lists offset (v.accounts_from calls offset) := by
  induction calls generalizing offset with
  | zero =>
      refine .stop (Option.eq_none_iff_forall_not_mem.mpr fun ⟨account, next⟩ haccount => ?_)
      -- nothing fits behind the recorded length
      obtain ⟨-, hle, -⟩ := get_account_eq_some haccount
      simp only [STORED_META_SIZE] at hle
      omega
  | succ calls ih =>
      unfold accounts_from
      cases haccount : v.get_account offset with
      | none => exact .stop haccount
      | some found =>
          obtain ⟨account, next⟩ := found
          obtain ⟨-, -, hlt⟩ := get_account_eq_some haccount
          exact .next haccount (ih next (by omega))

/-- **The iteration reads to the end.** -/
theorem append_vec_accounts_lists (v : AppendVec) : v.Lists 0 v.append_vec_accounts :=
  accounts_from_lists v v.current_len 0 (by omega)

/-- Every account lies within the recorded length. -/
theorem Lists.within {accounts : List StoredAccountMeta} (h : v.Lists offset accounts) :
    ∀ account ∈ accounts, account.offset + (STORED_META_SIZE + ACCOUNT_META_SIZE + HASH_SIZE) +
      account.data.length ≤ v.current_len := by
  induction h with
  | stop => nofun
  | next hfound _ ih =>
      obtain ⟨hoffset, hle, -⟩ := get_account_eq_some hfound
      intro account haccount
      rcases List.mem_cons.mp haccount with rfl | haccount
      · rw [hoffset]
        exact hle
      · exact ih account haccount

/-- Only the bytes of the recorded length matter. -/
structure SameBytes (v v' : AppendVec) : Prop where
  current_len : v'.current_len = v.current_len
  bytes : v'.map.take v.current_len = v.map.take v.current_len

/-- Two storages with the same bytes have the same slices. -/
theorem SameBytes.get_slice (h : SameBytes v v') (offset size : ℕ) :
    v'.get_slice offset size = v.get_slice offset size := by
  unfold AppendVec.get_slice
  rw [h.current_len]
  split
  · rfl
  next hin =>
    have hle : offset + size ≤ v.current_len := by omega
    have hslice : ∀ map : Bytes,
        (map.drop offset).take size = ((map.take v.current_len).drop offset).take size := by
      intro map
      rw [List.drop_take, List.take_take, min_eq_left (by omega)]
    rw [hslice v'.map, hslice v.map, h.bytes]

/-- They have the same account at each offset. -/
theorem SameBytes.get_account (h : SameBytes v v') (offset : ℕ) :
    v'.get_account offset = v.get_account offset := by
  unfold AppendVec.get_account AppendVec.get_type
  simp only [h.get_slice]

/-- And the same accounts. -/
theorem SameBytes.accounts (h : SameBytes v v') :
    v'.append_vec_accounts = v.append_vec_accounts := by
  have hfrom : ∀ calls offset, v'.accounts_from calls offset = v.accounts_from calls offset := by
    intro calls
    induction calls with
    | zero => exact fun _ => rfl
    | succ calls ih =>
        intro offset
        unfold accounts_from
        rw [h.get_account]
        cases v.get_account offset with
        | none => rfl
        | some found => exact congrArg (found.1 :: ·) (ih found.2)
  unfold append_vec_accounts
  rw [h.current_len]
  exact hfrom v.current_len 0

/-! ### The decoded view -/

end AppendVec

def StoredAccountMeta.decoded (account : StoredAccountMeta) : SnapshotEtl.StoredAccountMeta :=
  ⟨⟨account.stored_meta.data_len, account.stored_meta.pubkey⟩,
    ⟨account.account_meta.lamports, account.account_meta.owner, account.account_meta.executable⟩,
    account.data⟩

/-- What the importer sees of it. -/
def AppendVec.decoded (v : AppendVec) : SnapshotEtl.AppendVec :=
  ⟨v.slot, v.id, v.current_len, v.append_vec_accounts.map StoredAccountMeta.decoded⟩

/-! ## The constructors -/

/-- Which mappings can be made: of a whole file, and of zeroed memory of a length. -/
structure Memory where
  map_file : ℕ → Bool
  map_anon : ℕ → Bool

inductive AppendVecError
  | too_small (file_size : ℕ)
  | too_large (file_size : ℕ)
  | beyond_file (file_size : ℕ)
  | mmap
deriving DecidableEq, Repr

def AppendVecError.message : AppendVecError → String
  | too_small file_size => s!"too small file size {file_size} for AppendVec"
  | too_large file_size => s!"too large file size {file_size} for AppendVec"
  | beyond_file file_size => s!"current_len is larger than file size ({file_size})"
  | mmap => "memory map error"

def sanitize_len_and_size (current_len file_size : ℕ) : Except AppendVecError Unit :=
  if file_size = 0 then .error (.too_small file_size)
  else if MAXIMUM_APPEND_VEC_FILE_SIZE < file_size then .error (.too_large file_size)
  else if file_size < current_len then .error (.beyond_file file_size)
  else .ok ()

/-- The sizes that are accepted. -/
theorem sanitize_eq_ok {current_len file_size : ℕ} :
    sanitize_len_and_size current_len file_size = .ok () ↔
      file_size ≠ 0 ∧ file_size ≤ MAXIMUM_APPEND_VEC_FILE_SIZE ∧ current_len ≤ file_size := by
  unfold sanitize_len_and_size
  split_ifs with hzero hlarge hbeyond
  · simp [hzero]
  · simp [hlarge]
  · simp [hbeyond]
  · simp only [true_iff]
    omega

namespace AppendVec

variable (mem : Memory) (bytes : Bytes) (current_len : ℕ) (slot : Slot) (id : ℕ)

def new_from_file : Except AppendVecError AppendVec :=
  match h : sanitize_len_and_size current_len bytes.length with
  | .error e => .error e
  | .ok () =>
      if mem.map_file bytes.length then
        .ok { slot, id, current_len, map := bytes, file_size := bytes.length,
              fits := (sanitize_eq_ok.mp h).2.2 }
      else .error .mmap

/-- `io::copy` of what the reader has into the zeroed map. -/
def copied : Bytes := bytes.take current_len ++ List.replicate (current_len - bytes.length) 0

theorem length_copied : (copied bytes current_len).length = current_len := by
  unfold copied
  rw [List.length_append, List.length_take, List.length_replicate]
  omega

def new_from_reader : Except AppendVecError AppendVec :=
  if mem.map_anon current_len then
    .ok { slot, id, current_len, map := copied bytes current_len, file_size := current_len,
          fits := (length_copied bytes current_len).ge }
  else .error .mmap

variable {mem bytes current_len slot id} {v : AppendVec}

/-- The recorded length lies in the file, which is neither empty nor too large and can
be mapped. -/
def Maps (mem : Memory) (bytes : Bytes) (current_len : ℕ) : Prop :=
  bytes.length ≠ 0 ∧ bytes.length ≤ MAXIMUM_APPEND_VEC_FILE_SIZE ∧
    current_len ≤ bytes.length ∧ mem.map_file bytes.length = true

/-- A mapped storage has the bytes of its file. -/
theorem new_from_file_eq_ok (h : new_from_file mem bytes current_len slot id = .ok v) :
    Maps mem bytes current_len ∧ v.map = bytes ∧ v.current_len = current_len := by
  unfold new_from_file at h
  split at h
  · cases h
  next hsanitized =>
    split at h
    next hmap =>
      obtain rfl := Except.ok.inj h
      obtain ⟨hne, hle, hlen⟩ := sanitize_eq_ok.mp hsanitized
      exact ⟨⟨hne, hle, hlen, hmap⟩, rfl, rfl⟩
    next => cases h

/-- A file that maps gives a storage. -/
theorem exists_new_from_file (slot : Slot) (id : ℕ) (h : Maps mem bytes current_len) :
    ∃ v, new_from_file mem bytes current_len slot id = .ok v := by
  obtain ⟨hne, hle, hlen, hmap⟩ := h
  unfold new_from_file
  split
  next e herror =>
    rw [sanitize_eq_ok.mpr ⟨hne, hle, hlen⟩] at herror
    cases herror
  next =>
    rw [if_pos hmap]
    exact ⟨_, rfl⟩

/-- A copied storage has the bytes of its entry, up to the current length. -/
theorem new_from_reader_eq_ok (h : new_from_reader mem bytes current_len slot id = .ok v) :
    mem.map_anon current_len = true ∧ v.map = copied bytes current_len ∧
      v.current_len = current_len := by
  unfold new_from_reader at h
  split at h
  next hmap =>
    obtain rfl := Except.ok.inj h
    exact ⟨hmap, rfl, rfl⟩
  next => cases h

/-- Where the file has the recorded length, both have the same bytes. -/
theorem take_copied (h : current_len ≤ bytes.length) :
    copied bytes current_len = bytes.take current_len := by
  unfold copied
  rw [Nat.sub_eq_zero_of_le h, List.replicate_zero, List.append_nil]

end AppendVec

end SnapshotEtl.Mapped
