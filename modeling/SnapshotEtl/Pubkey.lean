/-
Public keys and their base58 rendering.

Every table of the importer is keyed by `pubkey_string`, the `Display` of a
32-byte key, so the model renders keys the same way instead of assuming an
injective rendering: `pubkey_string_inj` and `pubkey_string_ne_empty` are what
the row-level modules use.
-/
import Mathlib.Data.Nat.Digits.Lemmas
import Mathlib.Data.List.Basic

set_option autoImplicit false

namespace SnapshotEtl

/-- `solana_sdk::pubkey::Pubkey`: 32 bytes. -/
structure Pubkey where
  bytes : Vector UInt8 32
deriving DecidableEq

/-- `Pubkey::default()`: all zeros. -/
def Pubkey.default : Pubkey := ⟨Vector.replicate 32 0⟩

/-- The key whose bytes are the big-endian digits of `n`. -/
def Pubkey.of_be (n : ℕ) : Pubkey :=
  ⟨Vector.ofFn fun i => UInt8.ofNat (n / 256 ^ (31 - i.val))⟩

/-! ## base58 -/

def base58_alphabet : List Char :=
  "123456789ABCDEFGHJKLMNPQRSTUVWXYZabcdefghijkmnopqrstuvwxyz".toList

def base58_char (d : ℕ) : Char := base58_alphabet.getD d '1'

def base58_index (c : Char) : ℕ := base58_alphabet.idxOf c

/-- The number whose big-endian bytes these are. -/
def be_value (bytes : List UInt8) : ℕ :=
  Nat.ofDigits 256 (bytes.reverse.map UInt8.toNat)

/-- base58 without checksum: one `1` per leading zero byte, then the digits of
the number, most significant first. -/
def base58_encode (bytes : List UInt8) : List Char :=
  List.replicate (bytes.takeWhile (· = 0)).length '1'
    ++ ((Nat.digits 58 (be_value bytes)).map base58_char).reverse

/-- `pubkey.to_string()`. -/
def pubkey_string (pubkey : Pubkey) : String :=
  String.ofList (base58_encode pubkey.bytes.toList)

theorem base58_index_char {d : ℕ} (hd : d < 58) : base58_index (base58_char d) = d := by
  have h : ∀ d : Fin 58, base58_index (base58_char d) = d := by decide
  exact h ⟨d, hd⟩

/-- Reading the characters back as base-58 digits gives the number: the leading
`1`s are the zero digits above it. -/
theorem ofDigits_base58_encode (bytes : List UInt8) :
    Nat.ofDigits 58 ((base58_encode bytes).reverse.map base58_index) = be_value bytes := by
  have hone : base58_index '1' = 0 := by decide
  have hdigits : (Nat.digits 58 (be_value bytes)).map (base58_index ∘ base58_char)
      = Nat.digits 58 (be_value bytes) := by
    refine (List.map_congr_left fun d hd => ?_).trans (List.map_id _)
    exact base58_index_char (Nat.digits_lt_base (by norm_num) hd)
  have hzeros : ∀ n, Nat.ofDigits 58 (List.replicate n 0) = 0 := by
    intro n
    induction n with
    | zero => rfl
    | succ n ih => simp [List.replicate_succ, Nat.ofDigits_cons, ih]
  simp only [base58_encode, List.reverse_append, List.reverse_reverse, List.reverse_replicate,
    List.map_append, List.map_map, List.map_replicate, hone, hdigits]
  rw [Nat.ofDigits_append, hzeros, Nat.ofDigits_digits, mul_zero, add_zero]

theorem be_value_inj {a b : List UInt8} (hlen : a.length = b.length)
    (h : be_value a = be_value b) : a = b := by
  have hlt : ∀ (l : List UInt8), ∀ d ∈ l.reverse.map UInt8.toNat, d < 256 := by
    intro l d hd
    obtain ⟨x, -, rfl⟩ := List.mem_map.mp hd
    exact x.toNat_lt
  have hrev := Nat.ofDigits_inj_of_len_eq (by norm_num) (by simpa using hlen) (hlt a) (hlt b) h
  have hinj : Function.Injective UInt8.toNat := fun x y hxy => UInt8.toNat_inj.mp hxy
  exact List.reverse_injective (hinj.list_map hrev)

/-- Two keys are rendered alike only when they are equal. -/
theorem pubkey_string_inj {a b : Pubkey} (h : pubkey_string a = pubkey_string b) : a = b := by
  have henc : base58_encode a.bytes.toList = base58_encode b.bytes.toList :=
    String.ofList_injective h
  have hval : be_value a.bytes.toList = be_value b.bytes.toList := by
    rw [← ofDigits_base58_encode, henc, ofDigits_base58_encode]
  have hbytes := be_value_inj (by simp) hval
  obtain ⟨a⟩ := a
  obtain ⟨b⟩ := b
  rw [Pubkey.mk.injEq]
  exact Vector.toList_inj.mp hbytes

/-- A rendered key is never empty: a zero key has leading zero bytes, any other
has a digit. -/
theorem pubkey_string_ne_empty (p : Pubkey) : pubkey_string p ≠ "" := by
  intro h
  have henc : base58_encode p.bytes.toList = [] := String.ofList_injective h
  simp only [base58_encode, List.append_eq_nil_iff, List.replicate_eq_nil_iff,
    List.reverse_eq_nil_iff, List.map_eq_nil_iff, Nat.digits_eq_nil_iff_eq_zero] at henc
  obtain ⟨hlead, hval⟩ := henc
  have hzero : p.bytes.toList = List.replicate 32 0 := by
    apply be_value_inj (by simp)
    rw [hval]
    decide
  rw [hzero] at hlead
  revert hlead
  decide

/-- A string of base58 characters. -/
def Base58 (s : String) : Prop := ∀ c ∈ s.toList, c ∈ base58_alphabet

instance : DecidablePred Base58 := fun s =>
  List.decidableBAll (fun c => c ∈ base58_alphabet) s.toList

/-! ## The program ids the parser dispatches on -/

/-- `spl_token::id()`. -/
def spl_token_id : Pubkey :=
  .of_be 0x06ddf6e1d765a193d9cbe146ceeb79ac1cb485ed5f5b37913a8cf5857eff00a9

/-- `token_2022_program_id()`. -/
def token_2022_program_id : Pubkey :=
  .of_be 0x06ddf6e1ee758fde18425dbce46ccddab61afc4d83b90d27febdf928d8a18bfc

/-- `mpl_metadata::id()`. -/
def mpl_metadata_id : Pubkey :=
  .of_be 0x0b7065b1e3d17c45389d527f6b04c3cd58b86c731aa0fdb549b6d1bc03f82946

example : pubkey_string token_2022_program_id
    = "TokenzQdBNbLqP5VEhdkAS6EPFLC1PHnBqCXEpPxuEb" := by decide +kernel

end SnapshotEtl
