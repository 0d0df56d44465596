/-
What a validator appends to a storage, and what is read back of it.

Accounts stand one after another, each with its headers, its hash and its data, filled
up to the next multiple of eight. The source only reads this layout. Of a storage that
holds the accounts it finds them all, in their order, with the bytes they were appended
with; and of one that is cut anywhere it finds those that end before the cut.
-/
import SnapshotEtl.RecordChain
import SnapshotEtl.Lib.Codec
import Mathlib.Data.List.GetD
import Mathlib.Data.List.TakeWhile

set_option autoImplicit false

namespace SnapshotEtl.Mapped

open Lib

/-! ## The layout -/

/-- An account as it is appended: padding and gap are whatever they are. -/
structure Appended where
  write_version : ℕ
  pubkey : Pubkey
  lamports : ℕ
  rent_epoch : ℕ
  owner : Pubkey
  executable : Bool
  padding : Vector UInt8 7
  hash : Vector UInt8 32
  data : Bytes
  gap : Bytes
  write_version_lt : write_version < 256 ^ 8
  lamports_lt : lamports < 256 ^ 8
  rent_epoch_lt : rent_epoch < 256 ^ 8
  data_len_lt : data.length < 256 ^ 8
  aligned : data.length + gap.length = u64_align data.length

namespace Appended

def stored_meta (a : Appended) : StoredMeta := ⟨a.write_version, a.data.length, a.pubkey⟩

def account_meta (a : Appended) : AccountMeta := ⟨a.lamports, a.rent_epoch, a.owner, a.executable⟩

def stored_meta_bytes (a : Appended) : Bytes :=
  Codec.le_bytes 8 a.write_version ++ (Codec.le_bytes 8 a.data.length ++ a.pubkey.bytes.toList)

def account_meta_bytes (a : Appended) : Bytes :=
  Codec.le_bytes 8 a.lamports ++ (Codec.le_bytes 8 a.rent_epoch ++ (a.owner.bytes.toList ++
    ((if a.executable then 1 else 0) :: a.padding.toList)))

def bytes (a : Appended) : Bytes :=
  a.stored_meta_bytes ++ (a.account_meta_bytes ++ (a.hash.toList ++ (a.data ++ a.gap)))

/-- The account where it stands. -/
def stored (a : Appended) (offset : ℕ) : StoredAccountMeta :=
  ⟨a.stored_meta, a.account_meta, a.data, offset, a.bytes.length, a.hash⟩

end Appended

def layout (accounts : List Appended) : Bytes := accounts.flatMap Appended.bytes

def placed : ℕ → List Appended → List StoredAccountMeta
  | _, [] => []
  | offset, a :: accounts => a.stored offset :: placed (offset + a.bytes.length) accounts

/-- Where the data of an account ends. -/
def StoredAccountMeta.data_end (account : StoredAccountMeta) : ℕ :=
  account.offset + AppendVec.HEADERS_SIZE + account.data.length

/-! ## Headers -/

namespace Appended

variable (a : Appended)

theorem length_stored_meta_bytes : a.stored_meta_bytes.length = STORED_META_SIZE := by
  simp [stored_meta_bytes, STORED_META_SIZE]

theorem length_account_meta_bytes : a.account_meta_bytes.length = ACCOUNT_META_SIZE := by
  simp [account_meta_bytes, ACCOUNT_META_SIZE]

/-- An account takes its headers and its data, aligned. -/
theorem length_bytes :
    a.bytes.length = AppendVec.HEADERS_SIZE + u64_align a.data.length := by
  unfold bytes AppendVec.HEADERS_SIZE
  simp only [List.length_append, length_stored_meta_bytes, length_account_meta_bytes,
    Vector.length_toList, HASH_SIZE]
  have haligned := a.aligned
  omega

end Appended

theorem read_32_append (value : Vector UInt8 32) (rest : Bytes) :
    read_32 (value.toList ++ rest) = value := by
  ext i hi
  simp only [read_32, Vector.getElem_ofFn]
  rw [List.getD_eq_getElem _ _ (by simp; omega), List.getElem_append_left (by simpa using hi)]
  simp

theorem read_32_toList (value : Vector UInt8 32) : read_32 value.toList = value := by
  have h := read_32_append value []
  rwa [List.append_nil] at h

/-- A `u64` is read back from its eight bytes. -/
theorem le_value_le_bytes {x : ℕ} (h : x < 256 ^ 8) : le_value (Codec.le_bytes 8 x) = x :=
  Codec.le_value_le_bytes h

theorem drop_add_left {first rest : Bytes} {n : ℕ} (h : first.length = n) (m : ℕ) :
    (first ++ rest).drop (n + m) = rest.drop m := by
  rw [← List.drop_drop, List.drop_left' h]

/-- The header that was written is read back. -/
theorem read_stored_meta (a : Appended) : StoredMeta.read a.stored_meta_bytes = a.stored_meta := by
  have hversion : (Codec.le_bytes 8 a.write_version).length = 8 := Codec.length_le_bytes _ _
  have hlen : (Codec.le_bytes 8 a.data.length).length = 8 := Codec.length_le_bytes _ _
  unfold StoredMeta.read Appended.stored_meta_bytes Appended.stored_meta
  rw [List.take_left' hversion, List.drop_left' hversion, List.take_left' hlen,
    drop_add_left hversion 8, List.drop_left' hlen, read_32_toList,
    le_value_le_bytes a.write_version_lt, le_value_le_bytes a.data_len_lt]

/-- So is the account meta. -/
theorem read_account_meta (a : Appended) :
    AccountMeta.read a.account_meta_bytes = a.account_meta := by
  have hlamports : (Codec.le_bytes 8 a.lamports).length = 8 := Codec.length_le_bytes _ _
  have hepoch : (Codec.le_bytes 8 a.rent_epoch).length = 8 := Codec.length_le_bytes _ _
  have howner : a.owner.bytes.toList.length = 32 := Vector.length_toList ..
  have hflag : a.account_meta_bytes.getD 48 0 = if a.executable then 1 else 0 := by
    have hdrop : a.account_meta_bytes.drop 48
        = (if a.executable then 1 else 0) :: a.padding.toList := by
      unfold Appended.account_meta_bytes
      rw [drop_add_left hlamports 40, drop_add_left hepoch 32, List.drop_left' howner]
    rw [List.getD_eq_getElem?_getD, ← List.head?_drop, hdrop]
    rfl
  unfold AccountMeta.read
  rw [hflag]
  unfold Appended.account_meta_bytes Appended.account_meta
  rw [List.take_left' hlamports, List.drop_left' hlamports, List.take_left' hepoch,
    drop_add_left hlamports 8, List.drop_left' hepoch, read_32_append,
    le_value_le_bytes a.lamports_lt, le_value_le_bytes a.rent_epoch_lt]
  cases a.executable <;> simp

/-! ## Reading what stands there -/

namespace AppendVec

variable {v : AppendVec} {offset : ℕ}

/-- From the offset on there are these bytes, as far as the storage goes. -/
def Holds (v : AppendVec) (offset : ℕ) (bytes : Bytes) : Prop :=
  (v.map.drop offset).take (v.current_len - offset) = bytes.take (v.current_len - offset)

/-- What stands after the first part. -/
theorem Holds.skip {first rest : Bytes} (h : v.Holds offset (first ++ rest)) :
    v.Holds (offset + first.length) rest := by
  unfold Holds at h ⊢
  have hdrop := congrArg (List.drop first.length) h
  rw [List.drop_take, List.drop_take, List.drop_drop, List.drop_left' rfl] at hdrop
  have hlen : v.current_len - offset - first.length = v.current_len - (offset + first.length) := by
    omega
  rwa [hlen] at hdrop

/-- A slice of the first part is the first part. -/
theorem Holds.slice {first rest : Bytes} (h : v.Holds offset (first ++ rest))
    (hend : offset + first.length ≤ v.current_len) :
    (v.map.drop offset).take first.length = first := by
  have htake := congrArg (List.take first.length) h
  rw [List.take_take, List.take_take, min_eq_left (by omega), List.take_left' rfl] at htake
  exact htake

section Account

variable {a : Appended} {rest : Bytes}

/-- The length of the data is read where the field lies in the storage. -/
theorem Holds.data_len (h : v.Holds offset (a.bytes ++ rest))
    (hend : offset + 16 ≤ v.current_len) : v.data_len_at offset = a.data.length := by
  have hversion : (Codec.le_bytes 8 a.write_version).length = 8 := Codec.length_le_bytes _ _
  have hlen : (Codec.le_bytes 8 a.data.length).length = 8 := Codec.length_le_bytes _ _
  simp only [Appended.bytes, Appended.stored_meta_bytes, List.append_assoc] at h
  have hfield := h.skip
  rw [hversion] at hfield
  have hslice := hfield.slice (by omega)
  rw [hlen] at hslice
  unfold AppendVec.data_len_at
  rw [hslice]
  exact le_value_le_bytes a.data_len_lt

/-- The record that lies within the storage is the account. -/
theorem Holds.record_at (h : v.Holds offset (a.bytes ++ rest)) (haligned : 8 ∣ offset)
    (hend : (a.stored offset).data_end ≤ v.current_len) :
    v.record_at offset = a.stored offset ∧
      u64_align (v.record_end offset) = offset + a.bytes.length := by
  have hsizes : STORED_META_SIZE = 48 ∧ ACCOUNT_META_SIZE = 56 ∧ HASH_SIZE = 32 ∧
      HEADERS_SIZE = 136 := ⟨rfl, rfl, rfl, rfl⟩
  have hmeta_size := a.length_stored_meta_bytes
  have haccount_size := a.length_account_meta_bytes
  have hhash_size : a.hash.toList.length = HASH_SIZE := Vector.length_toList ..
  have hbytes := a.length_bytes
  replace hend : offset + HEADERS_SIZE + a.data.length ≤ v.current_len := hend
  have hdata_len := h.data_len (by omega)
  have hnext : u64_align (v.record_end offset) = offset + a.bytes.length := by
    unfold AppendVec.record_end u64_align
    rw [hdata_len, hbytes]
    unfold u64_align
    omega
  -- the parts of the account, one after another
  have hmeta : v.Holds offset (a.stored_meta_bytes ++ (a.account_meta_bytes ++ (a.hash.toList ++
      (a.data ++ (a.gap ++ rest))))) := by
    simpa only [Appended.bytes, List.append_assoc] using h
  have haccount := hmeta.skip
  have hhash := haccount.skip
  have hdata := hhash.skip
  have hmeta_slice := hmeta.slice (by omega)
  have haccount_slice := haccount.slice (by omega)
  have hhash_slice := hhash.slice (by omega)
  have hdata_slice := hdata.slice (by omega)
  rw [hmeta_size] at hmeta_slice haccount_slice hhash_slice hdata_slice
  rw [haccount_size] at haccount_slice hhash_slice hdata_slice
  rw [hhash_size] at hhash_slice hdata_slice
  refine ⟨?_, hnext⟩
  unfold AppendVec.record_at Appended.stored
  rw [hnext, Nat.add_sub_cancel_left, hdata_len, hmeta_slice, haccount_slice, ← Nat.add_assoc,
    hhash_slice, read_stored_meta, read_account_meta, read_32_toList,
    show offset + HEADERS_SIZE = offset + STORED_META_SIZE + ACCOUNT_META_SIZE + HASH_SIZE by omega,
    hdata_slice]

/-- An account that stands at the offset is read, if its data ends within the storage. -/
theorem Holds.get_account (h : v.Holds offset (a.bytes ++ rest)) (haligned : 8 ∣ offset)
    (husize : v.current_len < u64_modulus) :
    v.get_account offset = if (a.stored offset).data_end ≤ v.current_len then
      some (a.stored offset, offset + a.bytes.length) else none := by
  have hsize : HEADERS_SIZE = 136 := rfl
  have hdata_end : (a.stored offset).data_end = offset + HEADERS_SIZE + a.data.length := rfl
  split
  · next hend =>
      obtain ⟨hrecord, hnext⟩ := h.record_at haligned hend
      have hlen := h.data_len (by omega)
      refine (get_account_iff haligned).mpr ⟨⟨?_, ?_⟩, hrecord.symm, hnext.symm⟩
      · unfold AppendVec.record_end
        omega
      · unfold AppendVec.record_end
        omega
  · next hcut =>
      refine Option.eq_none_iff_forall_ne_some.mpr ?_
      rintro ⟨account, next⟩ hsome
      obtain ⟨⟨-, hle⟩, -, -⟩ := (get_account_iff haligned).mp hsome
      -- what fits has its header within the storage, and so its length
      unfold AppendVec.record_end at hle
      have hlen := h.data_len (by omega)
      omega

end Account

/-- The same accounts are listed, however they are found. -/
theorem Lists.unique {accounts accounts' : List StoredAccountMeta} (h : v.Lists offset accounts)
    (h' : v.Lists offset accounts') : accounts = accounts' := by
  induction h generalizing accounts' with
  | stop hnone =>
      cases h' with
      | stop => rfl
      | next hsome => cases hnone.symm.trans hsome
  | next hsome _ ih =>
      cases h' with
      | stop hnone => cases hnone.symm.trans hsome
      | next hsome' hrest =>
          obtain ⟨rfl, rfl⟩ := Prod.mk.inj (Option.some.inj (hsome.symm.trans hsome'))
          exact congrArg (_ :: ·) (ih hrest)

/-- The accounts that stand from the offset on are listed up to the first that is cut. -/
theorem lists_placed (appended : List Appended) (h : v.Holds offset (layout appended))
    (haligned : 8 ∣ offset) (husize : v.current_len < u64_modulus)
    (hlen : v.current_len ≤ offset + (layout appended).length) :
    v.Lists offset ((placed offset appended).takeWhile
      fun account => decide (account.data_end ≤ v.current_len)) := by
  induction appended generalizing offset with
  | nil =>
      replace hlen : v.current_len ≤ offset := hlen
      refine .stop (Option.eq_none_iff_forall_ne_some.mpr ?_)
      rintro ⟨account, next⟩ hsome
      obtain ⟨-, hle, -⟩ := get_account_eq_some hsome
      simp only [STORED_META_SIZE] at hle
      omega
  | cons a appended ih =>
      have hbytes := a.length_bytes
      have hdvd := dvd_u64_align a.data.length
      have hsize : HEADERS_SIZE = 136 := rfl
      replace h : v.Holds offset (a.bytes ++ layout appended) := h
      have hlen : v.current_len ≤ offset + (a.bytes ++ layout appended).length := hlen
      rw [List.length_append] at hlen
      have haccount := h.get_account haligned husize
      unfold placed
      -- an account that ends within the current length is read, and the next one cut off
      by_cases hend : (a.stored offset).data_end ≤ v.current_len
      · rw [if_pos hend] at haccount
        rw [List.takeWhile_cons_of_pos (by simpa using hend)]
        exact .next haccount (ih h.skip (by omega) (by omega))
      · rw [if_neg hend] at haccount
        rw [List.takeWhile_cons_of_neg (by simpa using hend)]
        exact .stop haccount

/-- Every account that was appended ends within the layout. -/
theorem placed_within (appended : List Appended) (offset : ℕ) :
    ∀ account ∈ placed offset appended, account.data_end ≤ offset + (layout appended).length := by
  induction appended generalizing offset with
  | nil => nofun
  | cons a appended ih =>
      have hlayout : (layout (a :: appended)).length
          = a.bytes.length + (layout appended).length := List.length_append
      refine List.forall_mem_cons.mpr ⟨?_, fun account haccount => ?_⟩
      · have hbytes := a.length_bytes
        have halign := le_u64_align a.data.length
        change offset + HEADERS_SIZE + a.data.length ≤ _
        omega
      · have hle := ih (offset + a.bytes.length) account haccount
        omega

/-- A storage of just the layout has all the accounts. -/
theorem accounts_of_layout (appended : List Appended)
    (hmap : v.map.take v.current_len = layout appended)
    (hlen : v.current_len = (layout appended).length) (husize : v.current_len < u64_modulus) :
    v.append_vec_accounts = placed 0 appended := by
  have hholds : v.Holds 0 (layout appended) := by
    unfold Holds
    rw [List.drop_zero, Nat.sub_zero, hmap, hlen, List.take_length]
  rw [v.append_vec_accounts_lists.unique
    (lists_placed appended hholds (Nat.dvd_zero 8) husize (by omega))]
  refine List.takeWhile_eq_self_iff.mpr fun account haccount => decide_eq_true ?_
  have hle := placed_within appended 0 account haccount
  omega

/-- **A storage is read exactly.** Where it holds what was appended up to its recorded
length, wherever that cuts it, the accounts that end before the cut are found, in their
order, and no others. -/
theorem append_vec_reads_appended (v : AppendVec) (appended : List Appended)
    (hmap : v.map.take v.current_len = (layout appended).take v.current_len)
    (hlen : v.current_len ≤ (layout appended).length) (husize : v.current_len < u64_modulus) :
    v.append_vec_accounts = (placed 0 appended).takeWhile
      (fun account => decide (account.data_end ≤ v.current_len)) := by
  have hholds : v.Holds 0 (layout appended) := by
    unfold Holds
    rw [List.drop_zero, Nat.sub_zero, hmap]
  exact v.append_vec_accounts_lists.unique
    (lists_placed appended hholds (Nat.dvd_zero 8) husize (by omega))

end AppendVec

/-- Three bytes of data, of which five bytes are the gap. -/
def three_bytes : Appended where
  write_version := 1
  pubkey := .of_be 7
  lamports := 4
  rent_epoch := 0
  owner := .of_be 9
  executable := true
  padding := Vector.replicate 7 5
  hash := Vector.replicate 32 3
  data := [1, 2, 3]
  gap := [0, 0, 0, 0, 0]
  write_version_lt := by norm_num
  lamports_lt := by norm_num
  rent_epoch_lt := by norm_num
  data_len_lt := by norm_num
  aligned := rfl

/-- Two accounts, cut in the data of the second one. -/
def cut_storage : AppendVec where
  slot := 10
  id := 1
  map := layout [three_bytes, three_bytes]
  current_len := 282
  file_size := 288
  fits := by decide +kernel

theorem append_vec_reads_appended_cut :
    cut_storage.append_vec_accounts = (placed 0 [three_bytes, three_bytes]).takeWhile
        (fun account => decide (account.data_end ≤ cut_storage.current_len)) ∧
      cut_storage.append_vec_accounts.length = 1 := by
  have haccounts := AppendVec.append_vec_reads_appended cut_storage
    [three_bytes, three_bytes] (by decide +kernel) (by decide +kernel) (by decide +kernel)
  refine ⟨haccounts, ?_⟩
  rw [haccounts]
  decide +kernel

end SnapshotEtl.Mapped
