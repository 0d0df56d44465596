/-
The records the importer reads and the rows it writes.

`StoredAccountMeta` and `AppendVec` are the decoded view of a storage file
(what `append_vec_accounts` yields for it); the row types are the RowBinary
structs of the importer, field for field. Machine integers are `ℕ`: slots and
amounts are only compared here, and the one sum that can overflow is reduced
where it is taken.
-/
import SnapshotEtl.Pubkey
import Mathlib.Data.Prod.Lex
import Mathlib.Data.List.Lex
import Mathlib.Data.String.Basic
import Mathlib.Order.WithBot

set_option autoImplicit false

namespace SnapshotEtl

abbrev Slot := ℕ
abbrev Bytes := List UInt8

/-! ## Accounts -/

structure StoredMeta where
  data_len : ℕ
  pubkey : Pubkey
deriving DecidableEq

structure AccountMeta where
  lamports : ℕ
  owner : Pubkey
  executable : Bool
deriving DecidableEq

structure StoredAccountMeta where
  stored_meta : StoredMeta
  account_meta : AccountMeta
  data : Bytes
deriving DecidableEq

/-- A storage file: its slot and id, its length in bytes, and the accounts
`append_vec_accounts` decodes from it in offset order. -/
structure AppendVec where
  slot : Slot
  id : ℕ
  len : ℕ
  accounts : List StoredAccountMeta
deriving DecidableEq

/-- `is_canonical_empty_account`: what AccountsDb leaves of a closed account. -/
def is_canonical_empty_account (data_len lamports : ℕ) (owner : Pubkey) (executable : Bool) :
    Bool :=
  data_len = 0 && lamports = 0 && owner = Pubkey.default && !executable

/-- `is_close_tombstone_candidate`. -/
def is_close_tombstone_candidate (lamports : ℕ) : Bool := lamports = 0

/-! ## Table groups -/

/-- The physical table group a name resolves to: suffix-free or `_bak`. -/
inductive TableGroup
  | Active
  | Backup
deriving DecidableEq, Repr

/-! ## Rows -/

structure AccountRow where
  pubkey : String
  owner : String
  lamports : ℕ
  data_len : ℕ
  executable : Bool
  updated_slot : Slot
deriving DecidableEq

/-- `is_deleted` is the engine's deletion column: 0 live, 1 tombstone. -/
structure TokenAccountRow where
  pubkey : String
  mint : String
  owner : String
  amount : ℕ
  delegate : Option String
  delegated_amount : ℕ
  state : ℕ
  close_authority : Option String
  is_deleted : ℕ
  updated_slot : Slot
deriving DecidableEq

structure TokenMintRow where
  mint : String
  mint_authority : Option String
  supply : ℕ
  decimals : ℕ
  is_initialized : Bool
  freeze_authority : Option String
  updated_slot : Slot
deriving DecidableEq

structure TokenMetadataRow where
  mint : String
  name : String
  symbol : String
  uri : String
  update_authority : String
  is_mutable : Bool
  token_standard : Option ℕ
  seller_fee_basis_points : ℕ
  creators : List String
  extensions : String
  updated_slot : Slot
deriving DecidableEq

structure WalletBalanceRow where
  mint : String
  owner : String
  amount_raw : ℕ
  updated_slot : Slot
deriving DecidableEq

/-- `(mint, owner)`. -/
abbrev TokenPair := String × String

def TokenAccountRow.pair (row : TokenAccountRow) : TokenPair := (row.mint, row.owner)

def WalletBalanceRow.pair (row : WalletBalanceRow) : TokenPair := (row.mint, row.owner)

/-- The four tables a sink streams rows to. -/
inductive RawTable
  | account
  | token_account
  | token_mint
  | token_metadata
deriving DecidableEq, Repr

/-- A row on its way to one of a sink's four tables. -/
inductive Row
  | account (row : AccountRow)
  | token_account (row : TokenAccountRow)
  | token_mint (row : TokenMintRow)
  | token_metadata (row : TokenMetadataRow)
deriving DecidableEq

def Row.table : Row → RawTable
  | .account _ => .account
  | .token_account _ => .token_account
  | .token_mint _ => .token_mint
  | .token_metadata _ => .token_metadata

/-! ## Metadata candidates

The order of two candidates is the derived lexicographic order of the Rust
structs, field by field in declaration order. -/

structure TokenMetadataFields where
  name : String
  symbol : String
  uri : String
  update_authority : String
  is_mutable : Bool
  token_standard : Option ℕ
  seller_fee_basis_points : ℕ
  creators : List String
deriving DecidableEq

/-- `TokenMetadataFields::default()`. -/
def TokenMetadataFields.default : TokenMetadataFields :=
  ⟨"", "", "", "", false, none, 0, []⟩

/-- The fields in comparison order; `None` sorts below every `Some`. -/
def TokenMetadataFields.ord (f : TokenMetadataFields) :
    String ×ₗ String ×ₗ String ×ₗ String ×ₗ Bool ×ₗ WithBot ℕ ×ₗ ℕ ×ₗ List String :=
  toLex (f.name, toLex (f.symbol, toLex (f.uri, toLex (f.update_authority,
    toLex (f.is_mutable, toLex ((f.token_standard : WithBot ℕ),
      toLex (f.seller_fee_basis_points, f.creators)))))))

theorem TokenMetadataFields.ord_injective : Function.Injective TokenMetadataFields.ord := by
  rintro ⟨n, s, u, a, m, t, f, c⟩ ⟨n', s', u', a', m', t', f', c'⟩ h
  simp only [ord, EmbeddingLike.apply_eq_iff_eq, Prod.mk.injEq] at h
  obtain ⟨rfl, rfl, rfl, rfl, rfl, h⟩ := h
  have ht : t = t' := congrArg Prod.fst h
  have hr := congrArg Prod.snd h
  simp only [EmbeddingLike.apply_eq_iff_eq, Prod.mk.injEq] at hr
  simp [ht, hr]

instance : LinearOrder TokenMetadataFields :=
  LinearOrder.lift' TokenMetadataFields.ord TokenMetadataFields.ord_injective

inductive MetadataSource
  | Metaplex
  | Token2022Standalone
  | Token2022Embedded
deriving DecidableEq, Repr

def MetadataSource.ord : MetadataSource → ℕ
  | .Metaplex => 0
  | .Token2022Standalone => 1
  | .Token2022Embedded => 2

instance : LinearOrder MetadataSource :=
  LinearOrder.lift' MetadataSource.ord
    (by intro a b; cases a <;> cases b <;> simp [MetadataSource.ord])

structure VersionedMetadataFields where
  account_slot : Slot
  source : MetadataSource
  source_account : String
  fields : TokenMetadataFields
deriving DecidableEq

def VersionedMetadataFields.ord (v : VersionedMetadataFields) :
    Slot ×ₗ MetadataSource ×ₗ String ×ₗ TokenMetadataFields :=
  toLex (v.account_slot, toLex (v.source, toLex (v.source_account, v.fields)))

instance : LinearOrder VersionedMetadataFields :=
  LinearOrder.lift' VersionedMetadataFields.ord (by
    rintro ⟨s, o, a, f⟩ ⟨s', o', a', f'⟩ h
    simp only [VersionedMetadataFields.ord, EmbeddingLike.apply_eq_iff_eq, Prod.mk.injEq] at h
    simp_all)

structure VersionedExtensions where
  account_slot : Slot
  json : String
deriving DecidableEq

def VersionedExtensions.ord (v : VersionedExtensions) : Slot ×ₗ String :=
  toLex (v.account_slot, v.json)

instance : LinearOrder VersionedExtensions :=
  LinearOrder.lift' VersionedExtensions.ord (by
    rintro ⟨s, j⟩ ⟨s', j'⟩ h
    simp only [VersionedExtensions.ord, EmbeddingLike.apply_eq_iff_eq, Prod.mk.injEq] at h
    simp_all)

end SnapshotEtl
