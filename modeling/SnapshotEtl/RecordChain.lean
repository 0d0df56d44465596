/-
The chain of records of an AppendVec, and the two ways of going along it.

A record starts where the one before it ends, rounded up to a word, so the chain is
fixed by the data lengths the records state (`record_offset`). `append_vec_accounts`
yields the records as it meets them; `append_vec_iter` collects their offsets first
and decodes each record again when its handle is accessed. Both end at the first
record that does not lie within the recorded length.
-/
import SnapshotEtl.AppendVecs

set_option autoImplicit false

namespace SnapshotEtl.Mapped

/-! ## The layout of the headers -/

/-- The size and the alignment of a field. -/
structure FieldLayout where
  size : ℕ
  align : ℕ

def u64_layout : FieldLayout := ⟨8, 8⟩
def bool_layout : FieldLayout := ⟨1, 1⟩

/-- `Pubkey` and `Hash`, which are arrays of 32 bytes. -/
def bytes_32_layout : FieldLayout := ⟨32, 1⟩

def align_up (addr align : ℕ) : ℕ := (addr + (align - 1)) / align * align

/-- The offsets of the fields of a `repr(C)` struct, and where the last one ends. -/
def repr_c_fields : List FieldLayout → ℕ → List ℕ × ℕ
  | [], addr => ([], addr)
  | f :: fields, addr =>
      let offset := align_up addr f.align
      let (offsets, stop) := repr_c_fields fields (offset + f.size)
      (offset :: offsets, stop)

/-- `size_of` a `repr(C)` struct: its end, rounded up to its own alignment. -/
def repr_c_size (fields : List FieldLayout) : ℕ :=
  align_up (repr_c_fields fields 0).2 ((fields.map FieldLayout.align).foldr max 1)

def stored_meta_fields : List FieldLayout := [u64_layout, u64_layout, bytes_32_layout]

def account_meta_fields : List FieldLayout :=
  [u64_layout, u64_layout, bytes_32_layout, bool_layout]

def hash_fields : List FieldLayout := [bytes_32_layout]

/-- The sizes and the field offsets that the readers go by. -/
theorem header_layout :
    repr_c_size stored_meta_fields = STORED_META_SIZE ∧
      repr_c_size account_meta_fields = ACCOUNT_META_SIZE ∧
      repr_c_size hash_fields = HASH_SIZE ∧
      (repr_c_fields stored_meta_fields 0).1 = [0, 8, 16] ∧
      (repr_c_fields account_meta_fields 0).1 = [0, 8, 16, 48] := by
  decide

namespace AppendVec

/-! ## The two iterations -/

/-- The offset pass of `append_vec_iter`, until it ends or the calls run out. -/
def offsets_from (v : AppendVec) : ℕ → ℕ → List ℕ
  | 0, _ => []
  | calls + 1, offset =>
      match v.get_account offset with
      | none => []
      | some (_, next_offset) => offset :: v.offsets_from calls next_offset

end AppendVec

structure StoredAccountMetaHandle where
  append_vec : AppendVec
  offset : ℕ

def StoredAccountMetaHandle.access (handle : StoredAccountMetaHandle) : Option StoredAccountMeta :=
  (handle.append_vec.get_account handle.offset).map Prod.fst

namespace AppendVec

def append_vec_iter (v : AppendVec) : List StoredAccountMetaHandle :=
  (v.offsets_from v.current_len 0).map (StoredAccountMetaHandle.mk v)

variable (v : AppendVec) {v' : AppendVec} {offset next : ℕ} {account : StoredAccountMeta}

/-- The handles are of the accounts the iteration yields, one for each. -/
theorem access_offsets_from (calls offset : ℕ) :
    (v.offsets_from calls offset).map (fun o => (StoredAccountMetaHandle.mk v o).access)
      = (v.accounts_from calls offset).map some := by
  -- on the calls, from any offset: both iterations go on from the same one
  induction calls generalizing offset with
  | zero => rfl
  | succ calls ih =>
      unfold offsets_from accounts_from
      cases haccount : v.get_account offset with
      | none => rfl
      | some found =>
          have haccess : (StoredAccountMetaHandle.mk v offset).access = some found.1 :=
            congrArg (Option.map Prod.fst) haccount
          show (StoredAccountMetaHandle.mk v offset).access :: _ = some found.1 :: _
          rw [haccess, ih found.2]

/-- The iterator yields the accounts, each accessible. -/
theorem access_append_vec_iter :
    v.append_vec_iter.map StoredAccountMetaHandle.access = v.append_vec_accounts.map some := by
  unfold append_vec_iter
  rw [List.map_map]
  exact v.access_offsets_from v.current_len 0

/-! ## The chain -/

/-- The size of a record's headers. -/
def HEADERS_SIZE : ℕ := STORED_META_SIZE + ACCOUNT_META_SIZE + HASH_SIZE

/-- The `data_len` of the record at an offset, a little-endian `u64` behind its
`write_version`. -/
def data_len_at (offset : ℕ) : ℕ := le_value ((v.map.drop (offset + 8)).take 8)

def record_end (offset : ℕ) : ℕ := offset + HEADERS_SIZE + v.data_len_at offset

/-- Where the `i`th record starts, if there is one. -/
def record_offset : ℕ → ℕ
  | 0 => 0
  | i + 1 => u64_align (v.record_end (record_offset i))

/-- The record at an offset neither overflows nor exceeds the recorded length. -/
def RecordFits (offset : ℕ) : Prop :=
  v.record_end offset < u64_modulus ∧ v.record_end offset ≤ v.current_len

/-- What is decoded of the bytes from an offset on. -/
def record_at (offset : ℕ) : StoredAccountMeta where
  stored_meta := StoredMeta.read ((v.map.drop offset).take STORED_META_SIZE)
  account_meta := AccountMeta.read ((v.map.drop (offset + STORED_META_SIZE)).take ACCOUNT_META_SIZE)
  hash := read_32 ((v.map.drop (offset + (STORED_META_SIZE + ACCOUNT_META_SIZE))).take HASH_SIZE)
  data := (v.map.drop (offset + HEADERS_SIZE)).take (v.data_len_at offset)
  offset := offset
  stored_size := u64_align (v.record_end offset) - offset

variable {v}

theorem u64_align_of_dvd {addr : ℕ} (h : 8 ∣ addr) : u64_align addr = addr := by
  unfold u64_align
  omega

theorem dvd_u64_align (addr : ℕ) : 8 ∣ u64_align addr := by
  unfold u64_align
  exact Nat.dvd_mul_left 8 _

/-- Every record starts at a multiple of 8. -/
theorem dvd_record_offset (i : ℕ) : 8 ∣ v.record_offset i := by
  cases i with
  | zero => exact Nat.dvd_zero 8
  | succ i => exact dvd_u64_align _

/-- A slice is taken iff it lies in the recorded length, and then it is what lies
there. -/
theorem get_slice_iff {size : ℕ} {data : Bytes} :
    v.get_slice offset size = some (data, next) ↔
      offset + size < u64_modulus ∧ offset + size ≤ v.current_len ∧
        data = (v.map.drop offset).take size ∧ next = u64_align (offset + size) := by
  unfold get_slice
  by_cases hout : u64_modulus ≤ offset + size ∨ v.current_len < offset + size
  · rw [if_pos hout]
    refine ⟨nofun, ?_⟩
    rintro ⟨hlt, hle, -⟩
    omega
  · rw [if_neg hout, Option.some.injEq, Prod.mk.injEq]
    constructor
    · rintro ⟨rfl, rfl⟩
      exact ⟨by omega, by omega, rfl, rfl⟩
    · rintro ⟨-, -, rfl, rfl⟩
      exact ⟨rfl, rfl⟩

/-- A record is read exactly where it lies inside the current length and its end fits a
`u64`. -/
theorem get_type_iff {T : Type} {size : ℕ} {read : Bytes → T} {value : T} :
    v.get_type size read offset = some (value, next) ↔
      offset + size < u64_modulus ∧ offset + size ≤ v.current_len ∧
        value = read ((v.map.drop offset).take size) ∧ next = u64_align (offset + size) := by
  unfold get_type
  rw [Option.map_eq_some_iff]
  constructor
  · rintro ⟨⟨data, next'⟩, hslice, heq⟩
    obtain ⟨rfl, rfl⟩ := Prod.mk.inj heq
    obtain ⟨hlt, hle, rfl, rfl⟩ := get_slice_iff.mp hslice
    exact ⟨hlt, hle, rfl, rfl⟩
  · rintro ⟨hlt, hle, rfl, rfl⟩
    exact ⟨_, get_slice_iff.mpr ⟨hlt, hle, rfl, rfl⟩, rfl⟩

/-- The data length is read from the header at the offset. -/
theorem read_data_len (offset : ℕ) :
    (StoredMeta.read ((v.map.drop offset).take STORED_META_SIZE)).data_len
      = v.data_len_at offset := by
  show le_value (((_ : Bytes).drop 8).take 8) = le_value _
  rw [List.drop_take, List.drop_drop, List.take_take]
  rfl

/-- **One record.** At a word boundary a record is decoded iff it fits, and the next
one starts at its end, rounded up. -/
theorem get_account_iff (hoffset : 8 ∣ offset) :
    v.get_account offset = some (account, next) ↔
      v.RecordFits offset ∧ account = v.record_at offset ∧
        next = u64_align (v.record_end offset) := by
  -- the headers are whole words, so nothing is skipped between them
  have hmeta : u64_align (offset + STORED_META_SIZE) = offset + STORED_META_SIZE :=
    u64_align_of_dvd (by unfold STORED_META_SIZE; omega)
  have haccount : u64_align (offset + STORED_META_SIZE + ACCOUNT_META_SIZE)
      = offset + STORED_META_SIZE + ACCOUNT_META_SIZE :=
    u64_align_of_dvd (by unfold STORED_META_SIZE ACCOUNT_META_SIZE; omega)
  have hhash : u64_align (offset + STORED_META_SIZE + ACCOUNT_META_SIZE + HASH_SIZE)
      = offset + STORED_META_SIZE + ACCOUNT_META_SIZE + HASH_SIZE :=
    u64_align_of_dvd (by unfold STORED_META_SIZE ACCOUNT_META_SIZE HASH_SIZE; omega)
  have hheaders : offset + HEADERS_SIZE
      = offset + STORED_META_SIZE + ACCOUNT_META_SIZE + HASH_SIZE := by
    unfold HEADERS_SIZE
    omega
  unfold get_account
  simp only [Option.bind_eq_bind, Option.bind_eq_some_iff]
  constructor
  · rintro ⟨⟨m, next₁⟩, hm, ⟨am, next₂⟩, ham, ⟨hash, next₃⟩, hh, ⟨data, next₄⟩, hd, heq⟩
    obtain ⟨-, -, rfl, rfl⟩ := get_type_iff.mp hm
    rw [hmeta] at ham
    obtain ⟨-, -, rfl, rfl⟩ := get_type_iff.mp ham
    rw [haccount] at hh
    obtain ⟨-, -, rfl, rfl⟩ := get_type_iff.mp hh
    rw [hhash, read_data_len, ← hheaders] at hd
    obtain ⟨hlt, hle, rfl, rfl⟩ := get_slice_iff.mp hd
    obtain ⟨rfl, rfl⟩ := Prod.mk.inj (Option.some.inj heq)
    exact ⟨⟨hlt, hle⟩, rfl, rfl⟩
  · rintro ⟨⟨hlt, hle⟩, rfl, rfl⟩
    unfold record_end at hlt hle
    refine ⟨(_, _), get_type_iff.mpr ⟨by omega, by omega, rfl, hmeta.symm⟩, (_, _),
      get_type_iff.mpr ⟨by omega, by omega, rfl, haccount.symm⟩, (_, _),
      get_type_iff.mpr ⟨by omega, by omega, rfl, hhash.symm⟩, (_, _), ?_, rfl⟩
    rw [← hheaders, read_data_len]
    exact get_slice_iff.mpr ⟨hlt, hle, rfl, rfl⟩

/-- The first records of the chain, and that there is no other. -/
theorem chain_of_lists {i : ℕ} {accounts : List StoredAccountMeta}
    (h : v.Lists (v.record_offset i) accounts) :
    (∀ j < accounts.length, v.RecordFits (v.record_offset (i + j))) ∧
      ¬ v.RecordFits (v.record_offset (i + accounts.length)) ∧
      accounts
        = (List.range accounts.length).map fun j => v.record_at (v.record_offset (i + j)) := by
  generalize hoffset : v.record_offset i = offset at h
  induction h generalizing i with
  | stop hstop =>
      subst hoffset
      refine ⟨fun j hj => absurd hj (Nat.not_lt_zero j), fun hfits => ?_, rfl⟩
      have hsome := (get_account_iff (dvd_record_offset i)).mpr ⟨hfits, rfl, rfl⟩
      rw [hstop] at hsome
      cases hsome
  | @next offset next account accounts haccount _ ih =>
      subst hoffset
      obtain ⟨hfits, rfl, rfl⟩ := (get_account_iff (dvd_record_offset i)).mp haccount
      -- the rest is the chain from the next record on
      obtain ⟨hall, hend, hrest⟩ := ih (i := i + 1) rfl
      have hshift : ∀ j, i + 1 + j = i + (j + 1) := fun j => by omega
      refine ⟨?_, ?_, ?_⟩
      · intro j hj
        cases j with
        | zero => exact hfits
        | succ j =>
            rw [← hshift]
            exact hall j (Nat.lt_of_succ_lt_succ hj)
      · rw [List.length_cons, ← hshift]
        exact hend
      · rw [List.length_cons, List.range_succ_eq_map, List.map_cons, List.map_map]
        congr 1
        rw [hrest, List.length_map, List.length_range]
        exact List.map_congr_left fun j _ => by rw [hshift]; rfl

/-- **AppendVec decoding.** The records are those of the chain as far as it fits;
slices lie in the recorded length and rounding up does not overflow; the handles
give the same records; and nothing beyond the recorded length matters. -/
theorem append_vec_decoding (v : AppendVec) (hmap : v.map.length < 2 ^ 63) :
    (∃ n, (∀ i < n, v.RecordFits (v.record_offset i)) ∧ ¬ v.RecordFits (v.record_offset n) ∧
      v.get_account (v.record_offset n) = none ∧
      v.append_vec_accounts = (List.range n).map fun i => v.record_at (v.record_offset i)) ∧
    (∀ offset size data next, v.get_slice offset size = some (data, next) →
      offset + size ≤ v.current_len ∧ data.length = size ∧ offset + size + 7 < u64_modulus) ∧
    v.append_vec_iter.map StoredAccountMetaHandle.access = v.append_vec_accounts.map some ∧
    (∀ v' : AppendVec, SameBytes v v' → v'.append_vec_accounts = v.append_vec_accounts ∧
      v'.append_vec_iter.map StoredAccountMetaHandle.access
        = v.append_vec_iter.map StoredAccountMetaHandle.access) ∧
    repr_c_size stored_meta_fields = 48 ∧ repr_c_size account_meta_fields = 56 ∧
      repr_c_size hash_fields = 32 := by
  refine ⟨?_, ?_, v.access_append_vec_iter, ?_, header_layout.1, header_layout.2.1,
    header_layout.2.2.1⟩
  -- the loop stops at the first record that does not fit
  · obtain ⟨hall, hend, hchain⟩ := chain_of_lists (i := 0) v.append_vec_accounts_lists
    simp only [Nat.zero_add] at hall hend hchain
    refine ⟨_, hall, hend, ?_, hchain⟩
    apply Option.eq_none_iff_forall_ne_some.mpr
    rintro ⟨account, next⟩ haccount
    exact hend ((get_account_iff (dvd_record_offset _)).mp haccount).1
  · intro offset size data next hslice
    obtain ⟨hle, hlength, -⟩ := get_slice_eq_some hslice
    refine ⟨hle, hlength, ?_⟩
    have hfits := v.fits
    unfold u64_modulus
    omega
  · intro v' hsame
    rw [v'.access_append_vec_iter, v.access_append_vec_iter, hsame.accounts]
    exact ⟨rfl, rfl⟩

/-- Zeros, which are accounts without data. -/
def zeroed : AppendVec where
  slot := 1
  id := 0
  map := List.replicate 300 0
  current_len := 290
  file_size := 300
  fits := by rw [List.length_replicate]; omega

theorem append_vec_decoding_zeroed :
    zeroed.append_vec_accounts.map (fun account => account.offset) = [0, 136] ∧
      zeroed.append_vec_iter.map StoredAccountMetaHandle.access
        = zeroed.append_vec_accounts.map some :=
  ⟨by decide +kernel, (append_vec_decoding zeroed (by decide +kernel)).2.2.1⟩

end AppendVec

end SnapshotEtl.Mapped
