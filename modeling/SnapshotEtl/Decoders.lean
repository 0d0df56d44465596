/-
The values the token, mint and metadata decoders yield, and the decoders.

The decoders of the token programs and of the Metaplex accounts live in other
crates, so the importer is modelled over a `Decoders` record of uninterpreted
functions. What the importer itself decides stays a definition here: the order
in which the Token-2022 states are tried, the Metaplex reading sequence, and the
fields a decoded metadata value contributes.
-/
import SnapshotEtl.Rows

set_option autoImplicit false

namespace SnapshotEtl

/-! ## Decoded values -/

inductive AccountState
  | Uninitialized
  | Initialized
  | Frozen
deriving DecidableEq, Repr

/-- `state as u8`. -/
def AccountState.as_u8 : AccountState → ℕ
  | .Uninitialized => 0
  | .Initialized => 1
  | .Frozen => 2

/-- `state::Account` of either token program. -/
structure TokenAccount where
  mint : Pubkey
  owner : Pubkey
  amount : ℕ
  delegate : Option Pubkey
  state : AccountState
  delegated_amount : ℕ
  close_authority : Option Pubkey
deriving DecidableEq

/-- `state::Mint` of either token program. -/
structure TokenMint where
  mint_authority : Option Pubkey
  supply : ℕ
  decimals : ℕ
  is_initialized : Bool
  freeze_authority : Option Pubkey
deriving DecidableEq

structure Token2022Metadata where
  update_authority : Option Pubkey
  mint : Pubkey
  name : String
  symbol : String
  uri : String
deriving DecidableEq

inductive Token2022BaseState
  | Account (account : TokenAccount)
  | Mint (mint : TokenMint)
deriving DecidableEq

structure ParsedToken2022MintExtensions where
  json : String
  token_metadata : Option Token2022Metadata
  warnings : List String
deriving DecidableEq

namespace mpl_metadata

inductive AccountKey
  | Uninitialized
  | EditionV1
  | MasterEditionV1
  | ReservationListV1
  | MetadataV1
  | ReservationListV2
  | MasterEditionV2
  | EditionMarker
  | UseAuthorityRecord
  | CollectionAuthorityRecord
deriving DecidableEq, Repr

structure Creator where
  address : Pubkey
  verified : Bool
  share : ℕ
deriving DecidableEq

structure Data where
  name : String
  symbol : String
  uri : String
  seller_fee_basis_points : ℕ
  creators : Option (List Creator)
deriving DecidableEq

structure Metadata where
  update_authority : Pubkey
  mint : Pubkey
  data : Data
  primary_sale_happened : Bool
  is_mutable : Bool
deriving DecidableEq

structure MetadataExt where
  edition_nonce : Option ℕ
deriving DecidableEq

/-- The collection and the uses are read over and not kept. -/
structure MetadataExtV1_2 where
  token_standard : Option ℕ
deriving DecidableEq

end mpl_metadata

/-! ## The decoders -/

/-- The decoders the importer calls. A Borsh `deserialize` advances the slice it
reads, so it returns what is left of it. -/
structure Decoders where
  unpack_account : Bytes → Option TokenAccount
  unpack_mint : Bytes → Option TokenMint
  unpack_account_2022 : Bytes → Option TokenAccount
  unpack_mint_2022 : Bytes → Option TokenMint
  parse_token_2022_mint_extensions : Bytes → Option ParsedToken2022MintExtensions
  parse_token_2022_metadata_value : Bytes → Option Token2022Metadata
  deserialize_account_key : Bytes → Option (mpl_metadata.AccountKey × Bytes)
  deserialize_metadata : Bytes → Option (mpl_metadata.Metadata × Bytes)
  deserialize_metadata_ext : Bytes → Option (mpl_metadata.MetadataExt × Bytes)
  deserialize_metadata_ext_v1_2 : Bytes → Option (mpl_metadata.MetadataExtV1_2 × Bytes)

/-- Decoders that accept nothing. -/
def Decoders.accept_nothing : Decoders where
  unpack_account _ := none
  unpack_mint _ := none
  unpack_account_2022 _ := none
  unpack_mint_2022 _ := none
  parse_token_2022_mint_extensions _ := none
  parse_token_2022_metadata_value _ := none
  deserialize_account_key _ := none
  deserialize_metadata _ := none
  deserialize_metadata_ext _ := none
  deserialize_metadata_ext_v1_2 _ := none

/-- `spl_token::state::Account::LEN`. -/
def account_len : ℕ := 165

/-- `spl_token::state::Mint::LEN`. -/
def mint_len : ℕ := 82

/-- `unpack_token_2022_base_state`: an account first, then a mint. -/
def Decoders.unpack_token_2022_base_state (dec : Decoders) (data : Bytes) :
    Option Token2022BaseState :=
  match dec.unpack_account_2022 data with
  | some account => some (.Account account)
  | none =>
      match dec.unpack_mint_2022 data with
      | some mint => some (.Mint mint)
      | none => none

/-! ## Metadata fields -/

/-- `token_2022_metadata_fields`. -/
def token_2022_metadata_fields (metadata : Token2022Metadata) : TokenMetadataFields where
  name := metadata.name
  symbol := metadata.symbol
  uri := metadata.uri
  update_authority := (metadata.update_authority.map pubkey_string).getD ""
  is_mutable := metadata.update_authority.isSome
  token_standard := none
  seller_fee_basis_points := 0
  creators := []

/-- The mint and the fields of a Metaplex metadata account, `none` where
`insert_token_metadata` returns early: no data, another kind of account, or a
body that does not deserialize. The token standard is read only when the first
extension block deserializes. -/
def Decoders.metaplex_fields (dec : Decoders) (data : Bytes) :
    Option (String × TokenMetadataFields) :=
  if data = [] then none
  else
    match dec.deserialize_account_key data with
    | some (.MetadataV1, data) =>
        match dec.deserialize_metadata data with
        | none => none
        | some (metadata, data) =>
            let metadata_ext_v1_2 :=
              (dec.deserialize_metadata_ext data).bind fun (_, data) =>
                (dec.deserialize_metadata_ext_v1_2 data).map Prod.fst
            some (pubkey_string metadata.mint,
              { name := metadata.data.name
                symbol := metadata.data.symbol
                uri := metadata.data.uri
                update_authority := pubkey_string metadata.update_authority
                is_mutable := metadata.is_mutable
                token_standard := metadata_ext_v1_2.bind fun ext => ext.token_standard
                seller_fee_basis_points := metadata.data.seller_fee_basis_points
                creators := (metadata.data.creators.getD []).map fun c =>
                  pubkey_string c.address })
    | _ => none

end SnapshotEtl
