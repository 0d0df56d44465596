/-
The Token-2022 metadata value, and the reader that decodes it.

The value is Borsh: two keys, three strings, and a counted list of pairs of
strings that are read over. `TokenMetadata.borsh` is that layout, put together
from the codecs of its parts, and each function of the reader is shown to read
one codec (`Reads`). The check the source makes before its loop, that a pair
takes eight bytes at least, refuses nothing the loop would not refuse.
-/
import SnapshotEtl.Decoders
import SnapshotEtl.Lib.Codec

set_option autoImplicit false

namespace SnapshotEtl

open Lib

/-- Lengths and offsets are `usize`, of 64 bits. -/
def usize_modulus : ℕ := 2 ^ 64

/-! ## The reader -/

structure Token2022MetadataReader where
  data : Bytes
  offset : ℕ

namespace Token2022MetadataReader

/-- `&mut self` and a `Result<_, &'static str>`. -/
abbrev Read (T : Type) := StateT Token2022MetadataReader (Except String) T

def new (data : Bytes) : Token2022MetadataReader := ⟨data, 0⟩

def read_exact (len : ℕ) : Read Bytes := fun r =>
  if usize_modulus ≤ r.offset + len then .error "Token-2022 metadata offset overflow"
  else if r.data.length < r.offset + len then .error "truncated Token-2022 metadata"
  else .ok ((r.data.drop r.offset).take len, { r with offset := r.offset + len })

def read_u32 : Read ℕ := do
  let bytes ← read_exact 4
  if bytes.length = 4 then pure (Codec.le_value bytes)
  else throw "invalid Token-2022 metadata integer"

def read_string : Read String := do
  let len ← read_u32
  let bytes ← read_exact len
  match String.fromUTF8? bytes.toByteArray with
  | some value => pure value
  | none => throw "Token-2022 metadata contains invalid UTF-8"

def read_pubkey : Read Pubkey := do
  let bytes ← read_exact 32
  if h : bytes.toArray.size = 32 then pure ⟨⟨bytes.toArray, h⟩⟩
  else throw "invalid Token-2022 metadata public key"

/-- The loop over the additional metadata. -/
def read_pairs : ℕ → Read Unit
  | 0 => pure ()
  | n + 1 => do
      let _ ← read_string
      let _ ← read_string
      read_pairs n

def read_additional_metadata : Read Unit := do
  let additional_metadata_len ← read_u32
  let reader ← get
  -- each pair has at least two `u32` string lengths
  if (reader.data.length - reader.offset) / 8 < additional_metadata_len then
    throw "invalid Token-2022 additional metadata length"
  read_pairs additional_metadata_len

end Token2022MetadataReader

open Token2022MetadataReader

def read_token_2022_metadata : Read Token2022Metadata := do
  let update_authority ← read_pubkey
  let mint ← read_pubkey
  let name ← read_string
  let symbol ← read_string
  let uri ← read_string
  read_additional_metadata
  pure
    { update_authority := if update_authority = Pubkey.default then none else some update_authority
      mint, name, symbol, uri }

def parse_token_2022_metadata_value (data : Bytes) : Except String Token2022Metadata :=
  read_token_2022_metadata.run' (.new data)

/-! ## The layout -/

def string_bytes (s : String) : Bytes := s.toByteArray.data.toList

/-- A string with its length in front. -/
def borsh_string (s : String) : Bytes :=
  Codec.le_bytes 4 (string_bytes s).length ++ string_bytes s

def borsh_pair (pair : String × String) : Bytes := borsh_string pair.1 ++ borsh_string pair.2

/-- What a metadata value is made of. -/
structure TokenMetadata where
  update_authority : Pubkey
  mint : Pubkey
  name : String
  symbol : String
  uri : String
  additional_metadata : List (String × String)

/-- A length that a `u32` can hold. -/
def FitsU32 (s : String) : Prop := (string_bytes s).length < 256 ^ 4

namespace TokenMetadata

/-- The lengths and the count fit their `u32`, so the value has a layout. -/
structure Fits (v : TokenMetadata) : Prop where
  name : FitsU32 v.name
  symbol : FitsU32 v.symbol
  uri : FitsU32 v.uri
  count : v.additional_metadata.length < 256 ^ 4
  pairs : ∀ pair ∈ v.additional_metadata, FitsU32 pair.1 ∧ FitsU32 pair.2

def borsh (v : TokenMetadata) : Bytes :=
  v.update_authority.bytes.toList ++ v.mint.bytes.toList ++ borsh_string v.name ++
    borsh_string v.symbol ++ borsh_string v.uri ++
    Codec.le_bytes 4 v.additional_metadata.length ++ v.additional_metadata.flatMap borsh_pair

/-- What the importer keeps of it. -/
def kept (v : TokenMetadata) : Token2022Metadata where
  update_authority := if v.update_authority = Pubkey.default then none else some v.update_authority
  mint := v.mint
  name := v.name
  symbol := v.symbol
  uri := v.uri

end TokenMetadata

/-! ## The codecs of its parts -/

/-- Bytes decode to a string exactly where they are its UTF-8. -/
theorem fromUTF8_eq_some {bytes : Bytes} {s : String} :
    String.fromUTF8? bytes.toByteArray = some s ↔ bytes = string_bytes s := by
  unfold String.fromUTF8? string_bytes
  constructor
  · intro h
    split at h
    · rw [← Option.some.inj h]
      exact List.toList_data_toByteArray.symm
    · cases h
  · rintro rfl
    have hbytes : s.toByteArray.data.toList.toByteArray = s.toByteArray := by
      apply ByteArray.ext
      apply Array.toList_inj.mp
      exact List.toList_data_toByteArray
    rw [hbytes, dif_pos s.isValidUTF8]
    rfl

def u32_codec : Codec UInt8 ℕ := .le 4

def pubkey_codec : Codec UInt8 Pubkey :=
  (Codec.cells UInt8 32).refine
    (fun bytes => if h : bytes.toArray.size = 32 then some ⟨⟨bytes.toArray, h⟩⟩ else none)
    (fun key => key.bytes.toList) (fun _ => True) <| by
      intro bytes key hlen
      have hsize : bytes.toArray.size = 32 := hlen
      rw [dif_pos hsize, Option.some.injEq, true_and]
      constructor
      · rintro rfl
        rfl
      · rintro rfl
        rfl

def string_codec : Codec UInt8 String :=
  (Codec.sized u32_codec).refine (fun bytes => String.fromUTF8? bytes.toByteArray) string_bytes
    (fun _ => True) <| by
      intro bytes s _
      rw [true_and]
      exact fromUTF8_eq_some

def pairs_codec (n : ℕ) : Codec UInt8 (List (String × String)) :=
  (string_codec.seq string_codec).replicate n

def additional_metadata_codec : Codec UInt8 (List (String × String)) :=
  .counted u32_codec (string_codec.seq string_codec)

/-- A string is written where its length fits a `u32`. -/
theorem valid_string {s : String} : string_codec.valid s ↔ FitsU32 s := by
  show True ∧ u32_codec.valid _ ∧ _ ↔ _
  rw [true_and, u32_codec, Codec.le_valid]
  exact and_iff_left rfl

/-- Two lengths alone take eight bytes. -/
theorem eight_le_pair (pair : String × String) :
    8 ≤ ((string_codec.seq string_codec).encode pair).length := by
  show 8 ≤ (Codec.le_bytes 4 _ ++ string_bytes pair.1 ++
    (Codec.le_bytes 4 _ ++ string_bytes pair.2)).length
  simp only [List.length_append, Codec.length_le_bytes]
  omega

/-! ## The reader reads the codecs -/

namespace Token2022MetadataReader

/-- What is left to read. -/
def remaining (r : Token2022MetadataReader) : Bytes := r.data.drop r.offset

/-- The reader when `rest` is left. -/
def leave (r : Token2022MetadataReader) (rest : Bytes) : Token2022MetadataReader :=
  { r with offset := r.data.length - rest.length }

/-- The data is a slice, and the offset lies in it. -/
structure Inside (r : Token2022MetadataReader) : Prop where
  slice : r.data.length < usize_modulus
  offset : r.offset ≤ r.data.length

/-- `f` succeeds on what begins with a layout of `c`, with `value` of what is laid
out, and moves behind it; on anything else it fails. -/
def Reads {A T : Type} (c : Codec UInt8 A) (value : A → T) (f : Read T) : Prop :=
  ∀ r : Token2022MetadataReader, r.Inside →
    (f r).toOption = (c.read r.remaining).map fun x => (value x.1, r.leave x.2)

variable {A C H T U : Type} {r : Token2022MetadataReader} {rest : Bytes}

theorem remaining_leave (h : rest <:+ r.remaining) : (r.leave rest).remaining = rest := by
  have hsuffix : rest <:+ r.data := h.trans (List.drop_suffix _ _)
  exact (List.suffix_iff_eq_drop.mp hsuffix).symm

theorem Inside.leave (h : r.Inside) (rest : Bytes) : (r.leave rest).Inside :=
  ⟨h.slice, Nat.sub_le _ _⟩

/-- A reader that goes on with what the one before it has read. -/
theorem Reads.then {c : Codec UInt8 A} {value : A → T} {f : Read T} {g : T → Read U}
    (hf : Reads c value f) (hr : r.Inside) :
    ((f >>= g) r).toOption = (c.read r.remaining).bind fun x =>
      (g (value x.1) (r.leave x.2)).toOption := by
  have hf := hf r hr
  show (Except.bind (f r) fun x => g x.1 x.2).toOption = _
  cases hresult : f r with
  | error e =>
      rw [hresult] at hf
      rw [Option.map_eq_none_iff.mp hf.symm]
      rfl
  | ok x =>
      rw [hresult] at hf
      obtain ⟨y, hy, hxy⟩ := Option.map_eq_some_iff.mp hf.symm
      rw [hy, ← hxy]
      rfl

/-- Readers in sequence read the codecs in sequence. -/
theorem Reads.bind {c : Codec UInt8 A} {d : Codec UInt8 C} {value : A → T} {value' : A × C → U}
    {f : Read T} {g : T → Read U} (hf : Reads c value f)
    (hg : ∀ a, Reads d (fun x => value' (a, x)) (g (value a))) :
    Reads (c.seq d) value' (f >>= g) := by
  intro r hr
  rw [hf.then hr]
  show _ = Option.map _ (Option.bind _ _)
  -- the first codec fails and so does the pair, or the second starts behind it
  cases hc : c.read r.remaining with
  | none => rfl
  | some x =>
      show (g (value x.1) (r.leave x.2)).toOption = Option.map _ (Option.map _ _)
      rw [hg x.1 _ (hr.leave _), remaining_leave (c.suffix_of_read hc), Option.map_map]
      rfl

/-- A header and what it announces, for any codec that reads so. -/
theorem Reads.headed {c : Codec UInt8 A} {header : Codec UInt8 H} (body : H → Codec UInt8 A)
    (hc : ∀ l, c.read l = (header.read l).bind fun x => (body x.1).read x.2) {value : A → T}
    {f : Read H} {g : H → Read T} (hf : Reads header id f) (hg : ∀ x, Reads (body x) value (g x)) :
    Reads c value (f >>= g) := by
  intro r hr
  rw [hf.then hr, hc]
  cases hheader : header.read r.remaining with
  | none => rfl
  | some x =>
      show (g x.1 (r.leave x.2)).toOption = Option.map _ ((body x.1).read x.2)
      rw [hg x.1 _ (hr.leave _), remaining_leave (header.suffix_of_read hheader)]
      rfl

/-- A pure function of what was read. -/
theorem Reads.pure {c : Codec UInt8 A} {value : A → T} {f : Read T} (hf : Reads c value f)
    (g : T → U) : Reads c (g ∘ value) (f >>= fun x => pure (g x)) := by
  intro r hr
  rw [hf.then hr]
  cases c.read r.remaining <;> rfl

/-! ### One lemma per function -/

theorem reads_exact (len : ℕ) : Reads (.cells UInt8 len) id (read_exact len) := by
  intro r hr
  have hoffset := hr.offset
  have hslice := hr.slice
  have hlen : r.remaining.length = r.data.length - r.offset := List.length_drop
  unfold read_exact
  by_cases hfits : len ≤ r.remaining.length
  · -- no end lies behind the last byte of a slice, so none overflows
    rw [if_neg (by omega), if_neg (by omega)]
    show _ = Option.map _ (if _ then _ else _)
    rw [if_pos hfits]
    have hleave : r.leave (r.remaining.drop len) = { r with offset := r.offset + len } := by
      unfold leave
      rw [List.length_drop, hlen]
      congr 1
      omega
    rw [Option.map_some, hleave]
    rfl
  · show _ = Option.map _ (if _ then _ else _)
    rw [if_neg hfits]
    by_cases hoverflow : usize_modulus ≤ r.offset + len
    · rw [if_pos hoverflow]
      rfl
    · rw [if_neg hoverflow, if_pos (by omega)]
      rfl

/-- A conversion of what was read, with the error of its failure. -/
theorem Reads.refine {c : Codec UInt8 C} {raw : Codec UInt8 A} (decode : A → Option C)
    (hc : ∀ l, c.read l = (raw.read l).bind fun x => (decode x.1).map fun y => (y, x.2))
    {f : Read A} {g : A → Read C} (hf : Reads raw id f)
    (hg : ∀ a, raw.valid a → ∀ r, (g a r).toOption = (decode a).map fun x => (x, r)) :
    Reads c id (f >>= g) := by
  intro r hr
  rw [hf.then hr, hc]
  cases hraw : raw.read r.remaining with
  | none => rfl
  | some x =>
      show (g x.1 (r.leave x.2)).toOption = Option.map _ (Option.map _ _)
      rw [hg x.1 (raw.valid_of_read hraw), Option.map_map]
      rfl

theorem reads_u32 : Reads u32_codec id read_u32 := by
  apply Reads.refine (fun bytes => some (Codec.le_value bytes)) (fun _ => rfl) (reads_exact 4)
  intro bytes hlen r
  rw [if_pos (show bytes.length = 4 from hlen)]
  rfl

theorem reads_pubkey : Reads pubkey_codec id read_pubkey := by
  apply Reads.refine (fun bytes => if h : bytes.toArray.size = 32 then some ⟨⟨bytes.toArray, h⟩⟩
    else none) (fun _ => rfl) (reads_exact 32)
  intro bytes hlen r
  have hsize : bytes.toArray.size = 32 := hlen
  rw [dif_pos hsize, dif_pos hsize]
  rfl

theorem reads_string : Reads string_codec id read_string := by
  have hsized : Reads (.sized u32_codec) id (read_u32 >>= read_exact) :=
    Reads.headed (Codec.cells UInt8) (fun _ => rfl) reads_u32 reads_exact
  -- a length and that many bytes, then the conversion: regroup the binds so
  have hread : read_string = (read_u32 >>= read_exact) >>= fun bytes =>
      match String.fromUTF8? bytes.toByteArray with
      | some value => pure value
      | none => throw "Token-2022 metadata contains invalid UTF-8" := by
    rw [bind_assoc]
    rfl
  rw [hread]
  apply Reads.refine (fun bytes => String.fromUTF8? bytes.toByteArray) (fun _ => rfl) hsized
  intro bytes _ r
  cases String.fromUTF8? bytes.toByteArray <;> rfl

theorem reads_pairs (n : ℕ) : Reads (pairs_codec n) (fun _ => ()) (read_pairs n) := by
  -- on the number of pairs, which is the counter of the loop
  induction n with
  | zero =>
      intro r hr
      have hleave : r.leave r.remaining = r := by
        unfold leave remaining
        have hoffset := hr.offset
        rw [List.length_drop, Nat.sub_sub_self hoffset]
      show some ((), r) = some ((), r.leave r.remaining)
      rw [hleave]
  | succ n ih =>
      have hpair : Reads (string_codec.seq string_codec) (fun _ => ())
          (read_string >>= fun _ => read_string >>= fun _ => pure ()) :=
        reads_string.bind fun _ => reads_string.pure fun _ => ()
      have hread : read_pairs (n + 1)
          = (read_string >>= fun _ => read_string >>= fun _ => pure ()) >>=
            fun _ => read_pairs n := by
        simp only [bind_assoc, pure_bind]
        rfl
      have hall : Reads ((string_codec.seq string_codec).seq (pairs_codec n)) (fun _ => ())
          (read_pairs (n + 1)) := by
        rw [hread]
        exact hpair.bind fun _ => ih
      intro r hr
      rw [hall r hr]
      -- a pair and `n` pairs are `n + 1` pairs
      show Option.map _ (Option.bind _ _) = Option.map _ (Option.bind _ _)
      cases (string_codec.seq string_codec).read r.remaining with
      | none => rfl
      | some x =>
          show Option.map _ (Option.map _ _) = Option.map _ (Option.map _ _)
          rw [Option.map_map, Option.map_map]
          rfl

/-- **The check before the loop refuses nothing the loop accepts.** -/
theorem reads_additional_metadata :
    Reads additional_metadata_codec (fun _ => ()) read_additional_metadata := by
  apply Reads.headed pairs_codec (fun _ => rfl) reads_u32
  intro n r hr
  have hlen : r.remaining.length = r.data.length - r.offset := List.length_drop
  show (((if _ then _ else _) : Read Unit) r).toOption = _
  by_cases hcount : (r.data.length - r.offset) / 8 < n
  · rw [if_pos hcount]
    -- the pairs would be longer than what is left
    cases hpairs : (pairs_codec n).read r.remaining with
    | none => rfl
    | some x =>
        have hlong := Codec.length_replicate_encode (string_codec.seq string_codec)
          eight_le_pair n ((pairs_codec n).valid_of_read hpairs)
        have htotal := congrArg List.length ((pairs_codec n).eq_of_read hpairs)
        rw [List.length_append] at htotal
        change 8 * n ≤ ((pairs_codec n).encode x.1).length at hlong
        omega
  · rw [if_neg hcount]
    exact reads_pairs n r hr

end Token2022MetadataReader

/-! ## The value -/

def metadata_codec :
    Codec UInt8 (Pubkey × Pubkey × String × String × String × List (String × String)) :=
  pubkey_codec.seq (pubkey_codec.seq (string_codec.seq (string_codec.seq (string_codec.seq
    additional_metadata_codec))))

namespace TokenMetadata

def parts (v : TokenMetadata) :
    Pubkey × Pubkey × String × String × String × List (String × String) :=
  (v.update_authority, v.mint, v.name, v.symbol, v.uri, v.additional_metadata)

def of_parts (x : Pubkey × Pubkey × String × String × String × List (String × String)) :
    TokenMetadata :=
  ⟨x.1, x.2.1, x.2.2.1, x.2.2.2.1, x.2.2.2.2.1, x.2.2.2.2.2⟩

/-- The parts of a value are valid exactly where the value fits. -/
theorem valid_parts (v : TokenMetadata) : metadata_codec.valid v.parts ↔ v.Fits := by
  have hkey : ∀ key, pubkey_codec.valid key := fun key => ⟨trivial, Vector.length_toList⟩
  have hpairs : additional_metadata_codec.valid v.additional_metadata ↔
      v.additional_metadata.length < 256 ^ 4 ∧
        ∀ pair ∈ v.additional_metadata, FitsU32 pair.1 ∧ FitsU32 pair.2 := by
    show u32_codec.valid _ ∧ (_ ∧ ∀ pair ∈ v.additional_metadata,
      string_codec.valid pair.1 ∧ string_codec.valid pair.2) ↔ _
    rw [u32_codec, Codec.le_valid, eq_self, true_and]
    simp only [valid_string]
  show pubkey_codec.valid _ ∧ pubkey_codec.valid _ ∧ string_codec.valid v.name ∧
    string_codec.valid v.symbol ∧ string_codec.valid v.uri ∧
      additional_metadata_codec.valid v.additional_metadata ↔ _
  rw [hpairs, valid_string, valid_string, valid_string]
  constructor
  · rintro ⟨-, -, hname, hsymbol, huri, hcount, hpair⟩
    exact ⟨hname, hsymbol, huri, hcount, hpair⟩
  · intro h
    exact ⟨hkey _, hkey _, h.name, h.symbol, h.uri, h.count, h.pairs⟩

/-- And they are written as the value is. -/
theorem encode_parts (v : TokenMetadata) : metadata_codec.encode v.parts = v.borsh := by
  show v.update_authority.bytes.toList ++ (v.mint.bytes.toList ++ (borsh_string v.name ++
    (borsh_string v.symbol ++ (borsh_string v.uri ++ (Codec.le_bytes 4 v.additional_metadata.length
      ++ v.additional_metadata.flatMap borsh_pair))))) = _
  unfold borsh
  simp only [List.append_assoc]

end TokenMetadata

/-- The parser reads the codec of the metadata, and keeps the fields it keeps. -/
theorem reads_token_2022_metadata : Token2022MetadataReader.Reads metadata_codec
    (fun x => (TokenMetadata.of_parts x).kept) read_token_2022_metadata := by
  unfold read_token_2022_metadata
  apply reads_pubkey.bind
  intro update_authority
  apply reads_pubkey.bind
  intro mint
  apply reads_string.bind
  intro name
  apply reads_string.bind
  intro symbol
  apply reads_string.bind
  intro uri
  exact reads_additional_metadata.pure fun _ => (⟨update_authority, mint, name, symbol, uri, []⟩ :
    TokenMetadata).kept

/-- The parser takes what the codec reads off the front and drops the rest. -/
theorem parse_metadata_value_toOption {d : Bytes} (hd : d.length < usize_modulus) :
    (parse_token_2022_metadata_value d).toOption
      = (metadata_codec.read d).map fun x => (TokenMetadata.of_parts x.1).kept := by
  have hread := reads_token_2022_metadata (.new d) ⟨hd, Nat.zero_le _⟩
  have hremaining : (Token2022MetadataReader.new d).remaining = d := List.drop_zero
  rw [hremaining] at hread
  show ((Prod.fst <$> read_token_2022_metadata (.new d) : Except String _)).toOption = _
  cases hresult : read_token_2022_metadata (.new d) with
  | error e =>
      rw [hresult] at hread
      rw [Option.map_eq_none_iff.mp hread.symm]
      rfl
  | ok x =>
      rw [hresult] at hread
      obtain ⟨y, hy, hxy⟩ := Option.map_eq_some_iff.mp hread.symm
      rw [hy, ← hxy]
      rfl

/-- **The metadata value codec.** The parser accepts exactly what begins with the
layout of a value, gives what that value holds, and refuses what ends inside one. -/
theorem parse_token_2022_metadata_value_iff (d : Bytes) (hd : d.length < usize_modulus) :
    (∀ m, parse_token_2022_metadata_value d = .ok m ↔
      ∃ v : TokenMetadata, v.Fits ∧ v.borsh <+: d ∧ m = v.kept) ∧
    ∀ v : TokenMetadata, v.Fits → d <+: v.borsh → d ≠ v.borsh →
      ∃ e, parse_token_2022_metadata_value d = .error e := by
  have hparse := parse_metadata_value_toOption hd
  constructor
  · intro m
    have hok : parse_token_2022_metadata_value d = .ok m ↔
        (parse_token_2022_metadata_value d).toOption = some m := by
      cases parse_token_2022_metadata_value d <;> simp [Except.toOption]
    rw [hok, hparse, Option.map_eq_some_iff]
    constructor
    · rintro ⟨⟨x, rest⟩, hread, rfl⟩
      have hlayout := (metadata_codec.accepts_iff).mp ⟨rest, hread⟩
      refine ⟨.of_parts x, ?_, ?_, rfl⟩
      · rw [← TokenMetadata.valid_parts]
        exact hlayout.1
      · rw [← TokenMetadata.encode_parts]
        exact hlayout.2
    · rintro ⟨v, hfits, hprefix, rfl⟩
      rw [← TokenMetadata.valid_parts] at hfits
      rw [← TokenMetadata.encode_parts] at hprefix
      obtain ⟨rest, hread⟩ := (metadata_codec.accepts_iff).mpr ⟨hfits, hprefix⟩
      exact ⟨_, hread, rfl⟩
  · intro v hfits hprefix hne
    rw [← TokenMetadata.valid_parts] at hfits
    rw [← TokenMetadata.encode_parts] at hprefix hne
    -- a layout is no proper prefix of another, so what is cut off reads as nothing
    rw [metadata_codec.read_strict_prefix hfits hprefix hne] at hparse
    cases hresult : parse_token_2022_metadata_value d with
    | error e => exact ⟨e, rfl⟩
    | ok m =>
        rw [hresult] at hparse
        cases hparse

/-- A value without an update authority and with one additional pair. -/
def additional_name : TokenMetadata :=
  ⟨.default, .of_be 1, "Token", "TKN", "", [("key", "value")]⟩

theorem parse_additional_name :
    parse_token_2022_metadata_value (additional_name.borsh ++ [7]) = .ok additional_name.kept ∧
      ∃ e, parse_token_2022_metadata_value additional_name.borsh.dropLast = .error e := by
  have hfits : additional_name.Fits := by
    refine ⟨?_, ?_, ?_, by decide, ?_⟩ <;> unfold FitsU32 <;> decide +kernel
  constructor
  · apply ((parse_token_2022_metadata_value_iff _ (by decide +kernel)).1 _).mpr
    exact ⟨additional_name, hfits, List.prefix_append _ _, rfl⟩
  · apply (parse_token_2022_metadata_value_iff _ (by decide +kernel)).2 additional_name hfits
    · exact List.dropLast_prefix _
    · intro h
      have hlength := congrArg List.length h
      revert hlength
      decide +kernel

end SnapshotEtl
