/-
The extensions of a Token-2022 mint: the loop over the TLV entries, the eight
value decoders and the JSON they make.

A well-formed data section is a list of `TlvEntry`, and what the parser gives for
it is `described`: the decoded first occurrences of the supported types, the
warnings for those that do not decode, the metadata of the first metadata entry.
The loop is followed entry by entry from any state of its locals
(`parse_tlv_entries`), and what may stand behind the entries is looked at once.
A header of type 0 ends the loop only when it is complete, so one to three bytes
of padding are an error where four are none.
-/
import SnapshotEtl.MetadataValue
import Mathlib.Data.Finset.Insert
import Mathlib.Data.List.Sort

set_option autoImplicit false

namespace SnapshotEtl

open Lib

/-! ## JSON -/

/-- `serde_json::Value`, as far as the extensions use it. -/
inductive Value
  | Null
  | Number (n : ℕ)
  | String (s : String)
  | Object (fields : List (String × Value))

/-- `json!` of an object: a `Map` is ordered by its keys. -/
def json_object (fields : List (String × Value)) : Value :=
  .Object (fields.insertionSort fun a b => a.1 ≤ b.1)

def json_option : Option String → Value
  | none => .Null
  | some s => .String s

/-- One character of a string, escaped as serde_json does. -/
def json_escape (c : Char) : String :=
  match c.toNat with
  | 8 => "\\b"
  | 9 => "\\t"
  | 10 => "\\n"
  | 12 => "\\f"
  | 13 => "\\r"
  | 34 => "\\\""
  | 92 => "\\\\"
  | n =>
      if n < 32 then
        "\\u00" ++ String.singleton (Nat.digitChar (n / 16)) ++
          String.singleton (Nat.digitChar (n % 16))
      else String.singleton c

def json_quoted (s : String) : String := "\"" ++ String.join (s.toList.map json_escape) ++ "\""

mutual

def json_to_string : Value → String
  | .Null => "null"
  | .Number n => toString n
  | .String s => json_quoted s
  | .Object fields => "\x7b" ++ String.intercalate "," (json_fields fields) ++ "\x7d"

def json_fields : List (String × Value) → List String
  | [] => []
  | (key, value) :: fields => (json_quoted key ++ ":" ++ json_to_string value) :: json_fields fields

end

/-- `serde_json::to_string` of the vector of extensions. -/
def json_array (values : List Value) : String :=
  "[" ++ String.intercalate "," (values.map json_to_string) ++ "]"

/-! ## Extension values -/

def TOKEN_2022_TLV_START : ℕ := account_len + 1
def TOKEN_2022_TRANSFER_FEE_CONFIG_EXTENSION_TYPE : ℕ := 1
def TOKEN_2022_MINT_CLOSE_AUTHORITY_EXTENSION_TYPE : ℕ := 3
def TOKEN_2022_DEFAULT_ACCOUNT_STATE_EXTENSION_TYPE : ℕ := 6
def TOKEN_2022_NON_TRANSFERABLE_EXTENSION_TYPE : ℕ := 9
def TOKEN_2022_PERMANENT_DELEGATE_EXTENSION_TYPE : ℕ := 12
def TOKEN_2022_TRANSFER_HOOK_EXTENSION_TYPE : ℕ := 14
def TOKEN_2022_METADATA_POINTER_EXTENSION_TYPE : ℕ := 18
def TOKEN_2022_METADATA_EXTENSION_TYPE : ℕ := 19

/-- `data.get(start..stop)`. -/
def slice_get (data : Bytes) (start stop : ℕ) : Option Bytes :=
  if start ≤ stop ∧ stop ≤ data.length then some ((data.drop start).take (stop - start)) else none

def saturating_add (a b : ℕ) : ℕ := min (a + b) (usize_modulus - 1)

def extension_exact_len (value : Bytes) (expected : ℕ) : Except String Bytes :=
  if value.length = expected then .ok value else .error "invalid Token-2022 extension length"

/-- `extension_u64` and `extension_u16`: an integer of `width` bytes. -/
def extension_integer (width : ℕ) (value : Bytes) (offset : ℕ) : Except String ℕ :=
  match slice_get value offset (saturating_add offset width) with
  | none => .error "truncated Token-2022 extension integer"
  | some bytes =>
      if bytes.length = width then .ok (Codec.le_value bytes)
      else .error "invalid Token-2022 extension integer"

def extension_u64 : Bytes → ℕ → Except String ℕ := extension_integer 8

def extension_u16 : Bytes → ℕ → Except String ℕ := extension_integer 2

def extension_optional_pubkey (value : Bytes) (offset : ℕ) : Except String (Option String) :=
  match slice_get value offset (saturating_add offset 32) with
  | none => .error "truncated Token-2022 extension public key"
  | some bytes =>
      if h : bytes.toArray.size = 32 then
        if bytes = List.replicate 32 0 then .ok none
        else .ok (some (pubkey_string ⟨⟨bytes.toArray, h⟩⟩))
      else .error "invalid Token-2022 extension public key"

/-- What an extension contributes: its JSON, and metadata where it carries some. -/
abbrev ParsedExtension := Value × Option Token2022Metadata

/-- The object of an extension. -/
def extension_object (extension : String) (state : List (String × Value)) : Value :=
  json_object [("extension", .String extension), ("state", json_object state)]

def parse_transfer_fee_config (value : Bytes) : Except String ParsedExtension := do
  let value ← extension_exact_len value 108
  let authority ← extension_optional_pubkey value 0
  let older_epoch ← extension_u64 value 72
  let older_maximum_fee ← extension_u64 value 80
  let older_basis_points ← extension_u16 value 88
  let newer_maximum_fee ← extension_u64 value 98
  let newer_basis_points ← extension_u16 value 106
  pure (extension_object "transferFeeConfig"
    [("transferFeeConfigAuthority", json_option authority),
      ("newerTransferFee", json_object
        [("transferFeeBasisPoints", .Number newer_basis_points),
          ("maximumFee", .Number newer_maximum_fee)]),
      ("olderTransferFee", json_object
        [("epoch", .Number older_epoch), ("transferFeeBasisPoints", .Number older_basis_points),
          ("maximumFee", .Number older_maximum_fee)])], none)

/-- `match value[0]` of a value of one byte. -/
def default_account_state (value : Bytes) : Except String String :=
  match value with
  | [0] => .ok "uninitialized"
  | [1] => .ok "initialized"
  | [2] => .ok "frozen"
  | _ => .error "invalid Token-2022 default account state"

def parse_default_account_state (value : Bytes) : Except String ParsedExtension := do
  let value ← extension_exact_len value 1
  let account_state ← default_account_state value
  pure (extension_object "defaultAccountState" [("accountState", .String account_state)], none)

def parse_non_transferable (value : Bytes) : Except String ParsedExtension := do
  let _ ← extension_exact_len value 0
  pure (extension_object "nonTransferable" [], none)

def parse_transfer_hook (value : Bytes) : Except String ParsedExtension := do
  let value ← extension_exact_len value 64
  let authority ← extension_optional_pubkey value 0
  let program_id ← extension_optional_pubkey value 32
  pure (extension_object "transferHook"
    [("authority", json_option authority), ("programId", json_option program_id)], none)

/-- The extensions that are one key at the front of a value of `len` bytes. -/
def parse_leading_pubkey (extension field : String) (len : ℕ) (value : Bytes) :
    Except String ParsedExtension := do
  let value ← extension_exact_len value len
  let pubkey ← extension_optional_pubkey value 0
  pure (extension_object extension [(field, json_option pubkey)], none)

def parse_permanent_delegate : Bytes → Except String ParsedExtension :=
  parse_leading_pubkey "permanentDelegate" "delegate" 32

def parse_mint_close_authority : Bytes → Except String ParsedExtension :=
  parse_leading_pubkey "mintCloseAuthority" "closeAuthority" 32

def parse_metadata_pointer : Bytes → Except String ParsedExtension :=
  parse_leading_pubkey "metadataPointer" "authority" 64

def parse_token_metadata (value : Bytes) : Except String ParsedExtension := do
  let metadata ← parse_token_2022_metadata_value value
  pure (extension_object "tokenMetadata"
    [("name", .String metadata.name), ("symbol", .String metadata.symbol),
      ("uri", .String metadata.uri),
      ("updateAuthority", json_option (metadata.update_authority.map pubkey_string))],
    some metadata)

def parse_token_2022_extension (extension_type : ℕ) (value : Bytes) :
    Except String ParsedExtension :=
  if extension_type = TOKEN_2022_TRANSFER_FEE_CONFIG_EXTENSION_TYPE then
    parse_transfer_fee_config value
  else if extension_type = TOKEN_2022_DEFAULT_ACCOUNT_STATE_EXTENSION_TYPE then
    parse_default_account_state value
  else if extension_type = TOKEN_2022_NON_TRANSFERABLE_EXTENSION_TYPE then
    parse_non_transferable value
  else if extension_type = TOKEN_2022_TRANSFER_HOOK_EXTENSION_TYPE then parse_transfer_hook value
  else if extension_type = TOKEN_2022_PERMANENT_DELEGATE_EXTENSION_TYPE then
    parse_permanent_delegate value
  else if extension_type = TOKEN_2022_MINT_CLOSE_AUTHORITY_EXTENSION_TYPE then
    parse_mint_close_authority value
  else if extension_type = TOKEN_2022_METADATA_POINTER_EXTENSION_TYPE then
    parse_metadata_pointer value
  else if extension_type = TOKEN_2022_METADATA_EXTENSION_TYPE then parse_token_metadata value
  else .error "unsupported Token-2022 extension"

def is_supported_token_2022_extension (extension_type : ℕ) : Bool :=
  [TOKEN_2022_TRANSFER_FEE_CONFIG_EXTENSION_TYPE,
    TOKEN_2022_DEFAULT_ACCOUNT_STATE_EXTENSION_TYPE, TOKEN_2022_NON_TRANSFERABLE_EXTENSION_TYPE,
    TOKEN_2022_TRANSFER_HOOK_EXTENSION_TYPE, TOKEN_2022_PERMANENT_DELEGATE_EXTENSION_TYPE,
    TOKEN_2022_MINT_CLOSE_AUTHORITY_EXTENSION_TYPE, TOKEN_2022_METADATA_POINTER_EXTENSION_TYPE,
    TOKEN_2022_METADATA_EXTENSION_TYPE].contains extension_type

/-! ## The loop -/

/-- The locals of `parse_token_2022_mint_extensions` that its loop fills. -/
structure TlvLocals where
  seen : Finset ℕ
  extensions : List Value
  token_metadata : Option Token2022Metadata
  warnings : List String

def TlvLocals.new : TlvLocals := ⟨∅, [], none, []⟩

/-- `warnings.push(format!("extension type {extension_type}: {err}"))`. -/
def extension_warning (extension_type : ℕ) (err : String) : String :=
  s!"extension type {extension_type}: {err}"

/-- What the loop does with one entry. A type is seen before its value is decoded. -/
def TlvLocals.entry (s : TlvLocals) (extension_type : ℕ) (value : Bytes) : TlvLocals :=
  if is_supported_token_2022_extension extension_type ∧ extension_type ∉ s.seen then
    let seen := insert extension_type s.seen
    match parse_token_2022_extension extension_type value with
    | .ok (extension, metadata) =>
        { seen
          extensions := s.extensions ++ [extension]
          token_metadata := if metadata.isSome then metadata else s.token_metadata
          warnings := s.warnings }
    | .error err =>
        { s with seen, warnings := s.warnings ++ [extension_warning extension_type err] }
  else s

/-- `while offset < data.len()`. -/
def parse_tlv (data : Bytes) (offset : ℕ) (s : TlvLocals) : Except String TlvLocals :=
  if offset < data.length then
    let header_end := offset + 4
    if usize_modulus ≤ header_end then .error "Token-2022 extension header overflow"
    else
      match slice_get data offset header_end with
      | none => .error "truncated Token-2022 extension header"
      | some header =>
          let extension_type := Codec.le_value (header.take 2)
          -- the type is looked at once the whole header is there
          if extension_type = 0 then .ok s
          else
            let value_end := header_end + Codec.le_value (header.drop 2)
            if usize_modulus ≤ value_end then .error "Token-2022 extension length overflow"
            else
              match slice_get data header_end value_end with
              | none => .error "truncated Token-2022 extension value"
              | some value => parse_tlv data value_end (s.entry extension_type value)
  else .ok s
termination_by data.length - offset

def parse_token_2022_mint_extensions (data : Bytes) : Except String ParsedToken2022MintExtensions :=
  if data.length ≤ TOKEN_2022_TLV_START then .ok ⟨"[]", none, []⟩
  else do
    let s ← parse_tlv data TOKEN_2022_TLV_START .new
    pure ⟨json_array s.extensions, s.token_metadata, s.warnings⟩

/-! ## Entries -/

/-- An entry that can be encoded and does not end the loop. -/
structure TlvEntry where
  extension_type : ℕ
  value : Bytes
  type_ne : extension_type ≠ 0
  type_lt : extension_type < 256 ^ 2
  value_lt : value.length < 256 ^ 2

namespace TlvEntry

def header (e : TlvEntry) : Bytes :=
  Codec.le_bytes 2 e.extension_type ++ Codec.le_bytes 2 e.value.length

def bytes (e : TlvEntry) : Bytes := e.header ++ e.value

def supported (e : TlvEntry) : Bool := is_supported_token_2022_extension e.extension_type

def parsed (e : TlvEntry) : Except String ParsedExtension :=
  parse_token_2022_extension e.extension_type e.value

/-- Its JSON, where it decodes. -/
def json (e : TlvEntry) : Option Value := e.parsed.toOption.map Prod.fst

/-- Its warning, where it does not. -/
def warning (e : TlvEntry) : Option String :=
  match e.parsed with
  | .ok _ => none
  | .error err => some (extension_warning e.extension_type err)

theorem length_header (e : TlvEntry) : e.header.length = 4 := by
  unfold header
  rw [List.length_append, Codec.length_le_bytes, Codec.length_le_bytes]

end TlvEntry

def tlv_bytes (entries : List TlvEntry) : Bytes := entries.flatMap TlvEntry.bytes

/-- The first entry of each type, in physical order. -/
def first_of_types : List TlvEntry → List TlvEntry
  | [] => []
  | e :: entries =>
      e :: (first_of_types entries).filter fun other => other.extension_type ≠ e.extension_type

/-- The first entry of each supported type. -/
def first_occurrences (entries : List TlvEntry) : List TlvEntry :=
  first_of_types (entries.filter TlvEntry.supported)

/-- The metadata of the first metadata entry, if it decodes. -/
def first_metadata (entries : List TlvEntry) : Option Token2022Metadata :=
  (entries.find? fun e => e.extension_type = TOKEN_2022_METADATA_EXTENSION_TYPE).bind fun e =>
    (parse_token_2022_metadata_value e.value).toOption

/-- What a list of entries says about the mint. -/
def described (entries : List TlvEntry) : ParsedToken2022MintExtensions where
  json := json_array ((first_occurrences entries).filterMap TlvEntry.json)
  token_metadata := first_metadata entries
  warnings := (first_occurrences entries).filterMap TlvEntry.warning

/-! ## What is read at an offset -/

section at_offset

variable {data tail : Bytes} {offset : ℕ} {s : TlvLocals}

/-- A slice of the length of what stands there is what stands there. -/
theorem slice_get_front {front : Bytes} (hoffset : offset ≤ data.length)
    (h : data.drop offset = front ++ tail) :
    slice_get data offset (offset + front.length) = some front := by
  have hlen := congrArg List.length h
  rw [List.length_drop, List.length_append] at hlen
  unfold slice_get
  rw [if_pos (by omega), Nat.add_sub_cancel_left, h, List.take_left]

/-- A slice past the end is none. -/
theorem slice_get_short {size : ℕ} (h : (data.drop offset).length < size) :
    slice_get data offset (offset + size) = none := by
  rw [List.length_drop] at h
  unfold slice_get
  rw [if_neg (by omega)]

/-- A header at the offset, and its type. -/
theorem parse_tlv_header {header : Bytes} (hdata : data.length < usize_modulus)
    (hheader : header.length = 4) (h : data.drop offset = header ++ tail) :
    parse_tlv data offset s =
      if Codec.le_value (header.take 2) = 0 then .ok s
      else if usize_modulus ≤ offset + 4 + Codec.le_value (header.drop 2) then
        .error "Token-2022 extension length overflow"
      else
        match slice_get data (offset + 4) (offset + 4 + Codec.le_value (header.drop 2)) with
        | none => .error "truncated Token-2022 extension value"
        | some value => parse_tlv data (offset + 4 + Codec.le_value (header.drop 2))
            (s.entry (Codec.le_value (header.take 2)) value) := by
  have hlen := congrArg List.length h
  rw [List.length_drop, List.length_append] at hlen
  have hslice := slice_get_front (by omega) h
  rw [hheader] at hslice
  rw [parse_tlv, if_pos (by omega), if_neg (by omega), hslice]

/-- The header gives the type and the length of the value. -/
theorem TlvEntry.header_values (e : TlvEntry) :
    Codec.le_value (e.header.take 2) = e.extension_type ∧
      Codec.le_value (e.header.drop 2) = e.value.length := by
  have htype := Codec.length_le_bytes 2 e.extension_type
  unfold header
  rw [List.take_left' htype, List.drop_left' htype]
  exact ⟨Codec.le_value_le_bytes e.type_lt, Codec.le_value_le_bytes e.value_lt⟩

/-- One entry: the loop handles it and goes on behind it. -/
theorem parse_tlv_entry {e : TlvEntry} (hdata : data.length < usize_modulus)
    (h : data.drop offset = e.bytes ++ tail) :
    parse_tlv data offset s
      = parse_tlv data (offset + e.bytes.length) (s.entry e.extension_type e.value) := by
  have hlen := congrArg List.length h
  have hheader := e.length_header
  have hbytes : e.bytes.length = 4 + e.value.length := by
    unfold TlvEntry.bytes
    rw [List.length_append, hheader]
  rw [List.length_drop, List.length_append, hbytes] at hlen
  have hvalue : data.drop (offset + 4) = e.value ++ tail := by
    rw [← List.drop_drop, h, TlvEntry.bytes, List.append_assoc, List.drop_left' hheader]
  rw [TlvEntry.bytes, List.append_assoc] at h
  rw [parse_tlv_header hdata hheader h, e.header_values.1, e.header_values.2, if_neg e.type_ne,
    if_neg (by omega), slice_get_front (by omega) hvalue, hbytes, Nat.add_assoc]

/-- The loop over a list of entries. -/
def TlvLocals.entries (s : TlvLocals) (entries : List TlvEntry) : TlvLocals :=
  entries.foldl (fun s e => s.entry e.extension_type e.value) s

/-- The loop takes the entries that stand there one by one, with what follows untouched. -/
theorem parse_tlv_entries {entries : List TlvEntry} (hdata : data.length < usize_modulus)
    (h : data.drop offset = tlv_bytes entries ++ tail) :
    parse_tlv data offset s
      = parse_tlv data (offset + (tlv_bytes entries).length) (s.entries entries) := by
  -- on the entries; the offset and the locals are those of the loop at each of them
  induction entries generalizing offset s with
  | nil => rfl
  | cons e entries ih =>
      have hcons : tlv_bytes (e :: entries) = e.bytes ++ tlv_bytes entries := List.flatMap_cons
      rw [hcons, List.append_assoc] at h
      have hrest : data.drop (offset + e.bytes.length) = tlv_bytes entries ++ tail := by
        rw [← List.drop_drop, h, List.drop_left]
      rw [parse_tlv_entry hdata h, ih hrest, hcons, List.length_append, Nat.add_assoc]
      rfl

/-! ### Behind the entries -/

/-- The loop ends at the end of the data. -/
theorem parse_tlv_end (h : data.drop offset = []) : parse_tlv data offset s = .ok s := by
  rw [List.drop_eq_nil_iff] at h
  rw [parse_tlv, if_neg (by omega)]

/-- A header of type 0 ends the loop, whatever comes behind it. -/
theorem parse_tlv_terminator {header : Bytes} (hdata : data.length < usize_modulus)
    (hheader : header.length = 4) (htype : Codec.le_value (header.take 2) = 0)
    (h : data.drop offset = header ++ tail) : parse_tlv data offset s = .ok s := by
  rw [parse_tlv_header hdata hheader h, if_pos htype]

/-- One to three bytes are no header. -/
theorem parse_tlv_short (hne : data.drop offset ≠ []) (hshort : (data.drop offset).length < 4) :
    ∃ e, parse_tlv data offset s = .error e := by
  have hoffset : offset < data.length := by
    rw [Ne, List.drop_eq_nil_iff] at hne
    omega
  rw [parse_tlv, if_pos hoffset]
  by_cases hoverflow : usize_modulus ≤ offset + 4
  · rw [if_pos hoverflow]
    exact ⟨_, rfl⟩
  · rw [if_neg hoverflow, slice_get_short hshort]
    exact ⟨_, rfl⟩

/-- An entry whose value is cut off. -/
theorem parse_tlv_cut {e : TlvEntry} {cut : Bytes} (hdata : data.length < usize_modulus)
    (hcut : cut.length < e.value.length) (h : data.drop offset = e.header ++ cut) :
    ∃ err, parse_tlv data offset s = .error err := by
  have hvalue : data.drop (offset + 4) = cut := by
    rw [← List.drop_drop, h, List.drop_left' e.length_header]
  rw [parse_tlv_header hdata e.length_header h, e.header_values.1, e.header_values.2,
    if_neg e.type_ne]
  by_cases hoverflow : usize_modulus ≤ offset + 4 + e.value.length
  · rw [if_pos hoverflow]
    exact ⟨_, rfl⟩
  · rw [if_neg hoverflow, slice_get_short (by rw [hvalue]; exact hcut)]
    exact ⟨_, rfl⟩

end at_offset

/-! ## What the loop has made of the entries -/

/-- Decoders that carry no metadata. -/
def Plain (r : Except String ParsedExtension) : Prop := ∀ p, r = .ok p → p.2 = none

/-- A parser with a step in front yields no metadata if no continuation does. -/
theorem plain_bind {T : Type} {r : Except String T} {f : T → Except String ParsedExtension}
    (h : ∀ x, Plain (f x)) : Plain (r >>= f) := by
  intro p hp
  cases r with
  | error e => cases hp
  | ok x => exact h x p hp

theorem plain_pure (v : Value) : Plain (pure (v, none)) := by
  intro p hp
  obtain rfl := Except.ok.inj hp
  rfl

theorem plain_error (e : String) : Plain (.error e) := fun _ hp => by cases hp

/-- Only the metadata extension carries metadata. -/
theorem plain_extension {extension_type : ℕ}
    (h : extension_type ≠ TOKEN_2022_METADATA_EXTENSION_TYPE) (value : Bytes) :
    Plain (parse_token_2022_extension extension_type value) := by
  have hleading : ∀ extension field len, Plain (parse_leading_pubkey extension field len value) :=
    fun _ _ _ => plain_bind fun _ => plain_bind fun _ => plain_pure _
  unfold parse_token_2022_extension
  -- one goal for each supported type, in the order of the dispatch
  split_ifs
  · exact plain_bind fun _ => plain_bind fun _ => plain_bind fun _ => plain_bind fun _ =>
      plain_bind fun _ => plain_bind fun _ => plain_bind fun _ => plain_pure _
  · exact plain_bind fun _ => plain_bind fun _ => plain_pure _
  · exact plain_bind fun _ => plain_pure _
  · exact plain_bind fun _ => plain_bind fun _ => plain_bind fun _ => plain_pure _
  · exact hleading _ _ _
  · exact hleading _ _ _
  · exact hleading _ _ _
  · exact plain_error _

/-- The metadata extension yields what its value parses to. -/
theorem parse_metadata_extension (value : Bytes) :
    (parse_token_2022_extension TOKEN_2022_METADATA_EXTENSION_TYPE value).toOption.bind Prod.snd
      = (parse_token_2022_metadata_value value).toOption := by
  show (parse_token_metadata value).toOption.bind Prod.snd = _
  unfold parse_token_metadata
  cases parse_token_2022_metadata_value value <;> rfl

/-- The entries that a loop which has seen `seen` still decodes. -/
def unseen (seen : Finset ℕ) (entries : List TlvEntry) : List TlvEntry :=
  (first_occurrences entries).filter fun e => e.extension_type ∉ seen

/-- A skipped entry is not among the decoded ones. -/
theorem unseen_cons_skipped {seen : Finset ℕ} {e : TlvEntry} {entries : List TlvEntry}
    (h : ¬ (e.supported ∧ e.extension_type ∉ seen)) :
    unseen seen (e :: entries) = unseen seen entries := by
  unfold unseen first_occurrences
  by_cases hsupported : e.supported
  · -- seen before: it is filtered out, and what it filters out is filtered out anyway
    have hseen : e.extension_type ∈ seen := by
      by_contra hnew
      exact h ⟨hsupported, hnew⟩
    rw [List.filter_cons_of_pos hsupported, first_of_types,
      List.filter_cons_of_neg (by simpa using hseen), List.filter_filter]
    apply List.filter_congr
    intro other _
    by_cases hother : other.extension_type ∈ seen
    · simp [hother]
    · have hne : other.extension_type ≠ e.extension_type := fun heq => hother (heq ▸ hseen)
      simp [hother, hne]
  · rw [List.filter_cons_of_neg hsupported]

/-- A decoded entry is, and its type is seen from then on. -/
theorem unseen_cons_decoded {seen : Finset ℕ} {e : TlvEntry} {entries : List TlvEntry}
    (hsupported : e.supported) (hnew : e.extension_type ∉ seen) :
    unseen seen (e :: entries) = e :: unseen (insert e.extension_type seen) entries := by
  unfold unseen first_occurrences
  rw [List.filter_cons_of_pos hsupported, first_of_types,
    List.filter_cons_of_pos (by simpa using hnew), List.filter_filter]
  congr 1
  apply List.filter_congr
  intro other _
  simp [Bool.and_comm]

/-- The locals after the entries, from any locals before them. -/
structure Described (s s' : TlvLocals) (entries : List TlvEntry) : Prop where
  extensions : s'.extensions = s.extensions ++ (unseen s.seen entries).filterMap TlvEntry.json
  warnings : s'.warnings = s.warnings ++ (unseen s.seen entries).filterMap TlvEntry.warning
  token_metadata : s'.token_metadata =
    if TOKEN_2022_METADATA_EXTENSION_TYPE ∈ s.seen then s.token_metadata
    else (first_metadata entries).or s.token_metadata

/-- The metadata of a list of entries is that of its first metadata entry. -/
theorem first_metadata_cons (e : TlvEntry) (entries : List TlvEntry) :
    first_metadata (e :: entries) =
      if e.extension_type = TOKEN_2022_METADATA_EXTENSION_TYPE then
        (parse_token_2022_metadata_value e.value).toOption
      else first_metadata entries := by
  unfold first_metadata
  by_cases h : e.extension_type = TOKEN_2022_METADATA_EXTENSION_TYPE
  · rw [if_pos h, List.find?_cons_of_pos (by simpa using h)]
    rfl
  · rw [if_neg h, List.find?_cons_of_neg (by simpa using h)]

/-- What one entry that is decoded adds. -/
theorem entry_decoded {s : TlvLocals} {e : TlvEntry} (hsupported : e.supported)
    (hnew : e.extension_type ∉ s.seen) :
    s.entry e.extension_type e.value =
      { seen := insert e.extension_type s.seen
        extensions := s.extensions ++ e.json.toList
        token_metadata := (e.parsed.toOption.bind Prod.snd).or s.token_metadata
        warnings := s.warnings ++ e.warning.toList } := by
  unfold TlvLocals.entry TlvEntry.json TlvEntry.warning TlvEntry.parsed
  rw [if_pos ⟨hsupported, hnew⟩]
  cases parse_token_2022_extension e.extension_type e.value with
  | error err => simp [Except.toOption]
  | ok p =>
      obtain ⟨extension, metadata⟩ := p
      cases metadata <;> simp [Except.toOption]

/-- A type that is not supported or already seen leaves the locals alone. -/
theorem entry_skipped {s : TlvLocals} {e : TlvEntry}
    (h : ¬ (e.supported ∧ e.extension_type ∉ s.seen)) : s.entry e.extension_type e.value = s := by
  unfold TlvLocals.entry
  exact if_neg h

/-- The metadata that one entry and the entries behind it leave. -/
theorem metadata_cons (s : TlvLocals) (e : TlvEntry) (entries : List TlvEntry) :
    (if TOKEN_2022_METADATA_EXTENSION_TYPE ∈ (s.entry e.extension_type e.value).seen then
        (s.entry e.extension_type e.value).token_metadata
      else (first_metadata entries).or (s.entry e.extension_type e.value).token_metadata)
      = if TOKEN_2022_METADATA_EXTENSION_TYPE ∈ s.seen then s.token_metadata
        else (first_metadata (e :: entries)).or s.token_metadata := by
  rw [first_metadata_cons]
  by_cases htype : e.extension_type = TOKEN_2022_METADATA_EXTENSION_TYPE
  · have hsupported : e.supported := by
      unfold TlvEntry.supported
      rw [htype]
      decide
    by_cases hseen : TOKEN_2022_METADATA_EXTENSION_TYPE ∈ s.seen
    · rw [entry_skipped fun h => h.2 (htype ▸ hseen), if_pos hseen, if_pos hseen]
    · -- the first metadata entry: what comes behind it is seen
      have hparsed : e.parsed.toOption.bind Prod.snd
          = (parse_token_2022_metadata_value e.value).toOption := by
        unfold TlvEntry.parsed
        rw [htype, parse_metadata_extension]
      rw [entry_decoded hsupported (htype ▸ hseen), if_neg hseen, if_pos htype, ← hparsed]
      exact if_pos (by rw [htype]; exact Finset.mem_insert_self _ _)
  -- an entry of another type brings no metadata, decoded or not
  · rw [if_neg htype]
    by_cases hdecoded : e.supported ∧ e.extension_type ∉ s.seen
    · have hparsed : e.parsed.toOption.bind Prod.snd = none := by
        unfold TlvEntry.parsed
        cases hp : parse_token_2022_extension e.extension_type e.value with
        | error err => rfl
        | ok p => exact plain_extension htype e.value p hp
      have hseen : TOKEN_2022_METADATA_EXTENSION_TYPE ∈ insert e.extension_type s.seen ↔
          TOKEN_2022_METADATA_EXTENSION_TYPE ∈ s.seen := by
        rw [Finset.mem_insert]
        exact or_iff_right (Ne.symm htype)
      rw [entry_decoded hdecoded.1 hdecoded.2, hparsed]
      exact if_congr hseen rfl rfl
    · rw [entry_skipped hdecoded]

/-- **The loop describes its entries.** -/
theorem entries_described (entries : List TlvEntry) (s : TlvLocals) :
    Described s (s.entries entries) entries := by
  induction entries generalizing s with
  | nil =>
      refine ⟨(List.append_nil _).symm, (List.append_nil _).symm, ?_⟩
      show s.token_metadata = if _ then _ else s.token_metadata
      rw [ite_self]
  | cons e entries ih =>
      have hrest := ih (s.entry e.extension_type e.value)
      have hmetadata := hrest.token_metadata
      rw [metadata_cons] at hmetadata
      show Described s ((s.entry e.extension_type e.value).entries entries) (e :: entries)
      -- an entry is decoded unless its type is unknown or was seen before
      by_cases hdecoded : e.supported ∧ e.extension_type ∉ s.seen
      · have hunseen : unseen s.seen (e :: entries)
            = e :: unseen (insert e.extension_type s.seen) entries :=
          unseen_cons_decoded hdecoded.1 hdecoded.2
        rw [entry_decoded hdecoded.1 hdecoded.2] at hrest hmetadata ⊢
        refine ⟨?_, ?_, hmetadata⟩
        · rw [hrest.extensions, hunseen, List.append_assoc]
          cases hjson : e.json with
          | none => rw [List.filterMap_cons_none hjson]; rfl
          | some v => rw [List.filterMap_cons_some hjson]; rfl
        · rw [hrest.warnings, hunseen, List.append_assoc]
          cases hwarning : e.warning with
          | none => rw [List.filterMap_cons_none hwarning]; rfl
          | some w => rw [List.filterMap_cons_some hwarning]; rfl
      · have hunseen : unseen s.seen (e :: entries) = unseen s.seen entries :=
          unseen_cons_skipped hdecoded
        rw [entry_skipped hdecoded] at hrest hmetadata ⊢
        refine ⟨?_, ?_, hmetadata⟩
        · rw [hunseen]
          exact hrest.extensions
        · rw [hunseen]
          exact hrest.warnings

/-! ## Data sections -/

section data_sections

variable {base tail : Bytes} {entries : List TlvEntry}

/-- The locals at the end of the entries give what the entries describe. -/
theorem described_of_entries (entries : List TlvEntry) :
    (⟨json_array (TlvLocals.new.entries entries).extensions,
      (TlvLocals.new.entries entries).token_metadata,
      (TlvLocals.new.entries entries).warnings⟩ : ParsedToken2022MintExtensions)
      = described entries := by
  have h := entries_described entries .new
  have hunseen : unseen TlvLocals.new.seen entries = first_occurrences entries :=
    List.filter_eq_self.mpr fun e _ => by simp [TlvLocals.new]
  have hmetadata : (TlvLocals.new.entries entries).token_metadata = first_metadata entries := by
    rw [h.token_metadata]
    show (if _ ∈ (∅ : Finset ℕ) then _ else (first_metadata entries).or none) = _
    rw [if_neg (Finset.notMem_empty _), Option.or_none]
  rw [h.extensions, h.warnings, hmetadata, hunseen]
  rfl

/-- What stands after the entries. -/
theorem drop_entries :
    (base ++ tlv_bytes entries ++ tail).drop (base.length + (tlv_bytes entries).length) = tail := by
  rw [← List.length_append]
  exact List.drop_left

/-- What the parser gives depends on how the loop ends behind the entries. -/
theorem parse_mint_extensions_eq (hbase : base.length = TOKEN_2022_TLV_START)
    (hdata : (base ++ tlv_bytes entries ++ tail).length < usize_modulus) :
    parse_token_2022_mint_extensions (base ++ tlv_bytes entries ++ tail) = (do
      let s ← parse_tlv (base ++ tlv_bytes entries ++ tail)
        (base.length + (tlv_bytes entries).length) (TlvLocals.new.entries entries)
      pure ⟨json_array s.extensions, s.token_metadata, s.warnings⟩) := by
  have hdrop : (base ++ tlv_bytes entries ++ tail).drop TOKEN_2022_TLV_START
      = tlv_bytes entries ++ tail := by
    rw [List.append_assoc, List.drop_left' hbase]
  unfold parse_token_2022_mint_extensions
  by_cases hempty : (base ++ tlv_bytes entries ++ tail).length ≤ TOKEN_2022_TLV_START
  · -- nothing behind the base: no entries, and nothing behind them
    have hnil : tlv_bytes entries ++ tail = [] := by
      rw [← hdrop]
      exact List.drop_eq_nil_of_le hempty
    obtain ⟨hentries, htail⟩ := List.append_eq_nil_iff.mp hnil
    have hnone : entries = [] := by
      cases entries with
      | nil => rfl
      | cons e entries =>
          have hlen := congrArg List.length hentries
          rw [tlv_bytes, List.flatMap_cons, List.length_append, TlvEntry.bytes, List.length_append,
            e.length_header] at hlen
          simp at hlen
    rw [if_pos hempty, parse_tlv_end (by rw [drop_entries, htail]), hnone]
    rfl
  · rw [if_neg hempty, parse_tlv_entries hdata hdrop, hbase]

/-- Nothing behind the entries, or a header of type 0 with anything behind it. -/
def EndsEntries (tail : Bytes) : Prop :=
  tail = [] ∨ ∃ len rest, len.length = 2 ∧ tail = [0, 0] ++ len ++ rest

/-- The entries, then an ending: the parse returns their description. -/
theorem parse_ended (hbase : base.length = TOKEN_2022_TLV_START) (htail : EndsEntries tail)
    (hdata : (base ++ tlv_bytes entries ++ tail).length < usize_modulus) :
    parse_token_2022_mint_extensions (base ++ tlv_bytes entries ++ tail)
      = .ok (described entries) := by
  rw [parse_mint_extensions_eq hbase hdata, ← described_of_entries]
  obtain rfl | ⟨len, rest, hlen, rfl⟩ := htail
  · rw [parse_tlv_end drop_entries]
    rfl
  · have hheader : ([0, 0] ++ len).length = 4 := by
      rw [List.length_append, hlen]
      rfl
    rw [parse_tlv_terminator hdata hheader rfl drop_entries]
    rfl

/-- **The entries of a mint.** Ended by the end of the data or by a header of type 0
they give what they describe; cut inside a value they give an error. -/
theorem parse_token_2022_mint_extensions_entries (base : Bytes)
    (hbase : base.length = TOKEN_2022_TLV_START) (entries : List TlvEntry) :
    (∀ tail, EndsEntries tail → (base ++ tlv_bytes entries ++ tail).length < usize_modulus →
      parse_token_2022_mint_extensions (base ++ tlv_bytes entries ++ tail)
        = .ok (described entries)) ∧
    ∀ (e : TlvEntry) (cut : Bytes), cut <+: e.value → cut ≠ e.value →
      (base ++ tlv_bytes entries ++ (e.header ++ cut)).length < usize_modulus →
      ∃ err, parse_token_2022_mint_extensions (base ++ tlv_bytes entries ++ (e.header ++ cut))
        = .error err := by
  constructor
  · intro tail htail hdata
    exact parse_ended hbase htail hdata
  · intro e cut hprefix hne hdata
    have hcut : cut.length < e.value.length := by
      by_contra hlong
      apply hne
      exact hprefix.eq_of_length_le (by omega)
    rw [parse_mint_extensions_eq hbase hdata]
    obtain ⟨err, herr⟩ := parse_tlv_cut hdata hcut drop_entries
    rw [herr]
    exact ⟨err, rfl⟩

/-- An unknown entry, one that decodes, its repetition, and one that does not decode. -/
def mixed_entries : List TlvEntry :=
  [⟨20, [1, 2, 3], by decide, by decide, by decide⟩, ⟨6, [2], by decide, by decide, by decide⟩,
    ⟨6, [0], by decide, by decide, by decide⟩, ⟨3, [1], by decide, by decide, by decide⟩]

def zeroed_base : Bytes := List.replicate TOKEN_2022_TLV_START 0

def mixed_json : String :=
  "[\x7b\"extension\":\"defaultAccountState\",\"state\":\x7b\"accountState\":\"frozen\"\x7d\x7d]"

theorem parse_mixed_entries :
    parse_token_2022_mint_extensions (zeroed_base ++ tlv_bytes mixed_entries ++ [0, 0, 0, 0, 9])
      = .ok ⟨mixed_json, none, ["extension type 3: invalid Token-2022 extension length"]⟩ ∧
    ∃ err, parse_token_2022_mint_extensions (zeroed_base ++ tlv_bytes mixed_entries ++
      ((⟨14, List.replicate 64 0, by decide, by decide, by decide⟩ : TlvEntry).header ++ [0, 0]))
        = .error err := by
  have hmixed := parse_token_2022_mint_extensions_entries zeroed_base (by decide +kernel)
    mixed_entries
  constructor
  · rw [hmixed.1 [0, 0, 0, 0, 9] (.inr ⟨[0, 0], [9], rfl, rfl⟩) (by decide +kernel)]
    have hdescribed : described mixed_entries
        = ⟨mixed_json, none, ["extension type 3: invalid Token-2022 extension length"]⟩ := by
      decide +kernel
    rw [hdescribed]
  · exact hmixed.2 ⟨14, List.replicate 64 0, by decide, by decide, by decide⟩ [0, 0]
      ⟨List.replicate 62 0, rfl⟩ (by decide +kernel) (by decide +kernel)

/-! ### Zero padding -/

/-- Padding that is too short for a header is an error, any other changes nothing. -/
theorem parse_zero_padding (hbase : base.length = TOKEN_2022_TLV_START) (n : ℕ)
    (hdata : (base ++ tlv_bytes entries ++ List.replicate n 0).length < usize_modulus) :
    (n = 0 ∨ 4 ≤ n → parse_token_2022_mint_extensions
      (base ++ tlv_bytes entries ++ List.replicate n 0) = .ok (described entries)) ∧
    (0 < n ∧ n < 4 → ∃ err, parse_token_2022_mint_extensions
      (base ++ tlv_bytes entries ++ List.replicate n 0) = .error err) := by
  constructor
  · intro hn
    apply parse_ended hbase _ hdata
    obtain rfl | hn := hn
    · exact .inl rfl
    · refine .inr ⟨[0, 0], List.replicate (n - 4) 0, rfl, ?_⟩
      obtain ⟨k, rfl⟩ := Nat.exists_eq_add_of_le hn
      rw [Nat.add_sub_cancel_left, List.replicate_add]
      rfl
  · rintro ⟨hpos, hshort⟩
    rw [parse_mint_extensions_eq hbase hdata]
    have hne : List.replicate n (0 : UInt8) ≠ [] := by
      rw [Ne, List.replicate_eq_nil_iff]
      omega
    -- the loop does not end, since bytes are left, and they make no header
    have hcut : ∃ err, parse_tlv (base ++ tlv_bytes entries ++ List.replicate n 0)
        (base.length + (tlv_bytes entries).length) (TlvLocals.new.entries entries)
          = .error err := by
      apply parse_tlv_short <;> rw [drop_entries]
      · exact hne
      · rw [List.length_replicate]
        exact hshort
    obtain ⟨err, herr⟩ := hcut
    rw [herr]
    exact ⟨err, rfl⟩

/-- **Zero padding is ignored unless it is one to three bytes.** -/
theorem zero_padding_ignored_iff (base : Bytes) (hbase : base.length = TOKEN_2022_TLV_START)
    (entries : List TlvEntry) (n : ℕ)
    (hdata : (base ++ tlv_bytes entries ++ List.replicate n 0).length < usize_modulus) :
    parse_token_2022_mint_extensions (base ++ tlv_bytes entries ++ List.replicate n 0)
        = parse_token_2022_mint_extensions (base ++ tlv_bytes entries) ↔ n = 0 ∨ 4 ≤ n := by
  have hunpadded : parse_token_2022_mint_extensions (base ++ tlv_bytes entries)
      = .ok (described entries) := by
    have h : parse_token_2022_mint_extensions (base ++ tlv_bytes entries ++ [])
        = .ok (described entries) := by
      apply parse_ended hbase (.inl rfl)
      rw [List.append_nil]
      rw [List.length_append] at hdata
      omega
    rwa [List.append_nil] at h
  have hpadded := parse_zero_padding hbase n hdata
  rw [hunpadded]
  constructor
  · intro hsame
    by_contra hn
    obtain ⟨err, herr⟩ := hpadded.2 (by omega)
    rw [herr] at hsame
    cases hsame
  · exact hpadded.1

/-- The entries of a mint with a metadata pointer, a transfer fee, a default state and
no transfers: with them the account is as long as a multisig, 355 bytes. -/
def multisig_sized : List TlvEntry :=
  [⟨18, List.replicate 64 1, by decide, by decide, by decide⟩,
    ⟨1, List.replicate 108 1, by decide, by decide, by decide⟩,
    ⟨6, [1], by decide, by decide, by decide⟩, ⟨9, [], by decide, by decide, by decide⟩]

/-- The two zero bytes that tell such a mint from a multisig lose its extensions. -/
theorem padded_against_multisig :
    (zeroed_base ++ tlv_bytes multisig_sized).length = 355 ∧
      (∃ parsed, parse_token_2022_mint_extensions (zeroed_base ++ tlv_bytes multisig_sized)
        = .ok parsed) ∧
      ∃ err, parse_token_2022_mint_extensions
        (zeroed_base ++ tlv_bytes multisig_sized ++ List.replicate 2 0) = .error err := by
  refine ⟨by decide +kernel, ⟨described multisig_sized, ?_⟩, ?_⟩
  · have h : parse_token_2022_mint_extensions
        (zeroed_base ++ tlv_bytes multisig_sized ++ List.replicate 0 0)
          = .ok (described multisig_sized) :=
      (parse_zero_padding (by decide +kernel) 0 (by decide +kernel)).1 (.inl rfl)
    rwa [List.replicate_zero, List.append_nil] at h
  · exact (parse_zero_padding (by decide +kernel) 2 (by decide +kernel)).2 ⟨by omega, by omega⟩

theorem zero_padding_four :
    parse_token_2022_mint_extensions (zeroed_base ++ tlv_bytes multisig_sized ++ List.replicate 4 0)
      = parse_token_2022_mint_extensions (zeroed_base ++ tlv_bytes multisig_sized) :=
  (zero_padding_ignored_iff zeroed_base (by decide +kernel) multisig_sized 4
    (by decide +kernel)).mpr (.inr (by omega))

end data_sections

end SnapshotEtl
