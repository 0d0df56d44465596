/-
Layouts that can be read from the front of anything.

A `Codec` is a set of values, the cells each of them is laid out in, and a
reader; its one law says that the reader takes exactly the layouts off the
front. The law determines the reader, so two layouts never overlap, a reader
accepts a text iff it begins with a layout, and what ends inside a layout is
refused (`Codec.read_encode`, `Codec.accepts_iff`, `Codec.read_strict_prefix`).
Layouts are put together by `seq`, `refine` and `headed`; a counted or a
length-prefixed layout is a `headed` one.
-/
import Mathlib.Data.List.Basic
import Mathlib.Data.Nat.Digits.Lemmas
import Mathlib.Algebra.Order.Group.Nat

set_option autoImplicit false

namespace SnapshotEtl.Lib

/-- The values of `A` that have a layout in cells of `B`, and the reader that
takes a layout off the front. -/
structure Codec (B A : Type*) where
  valid : A → Prop
  encode : A → List B
  read : List B → Option (A × List B)
  read_iff : ∀ {cells a rest},
    read cells = some (a, rest) ↔ valid a ∧ cells = encode a ++ rest

namespace Codec

variable {B A C H : Type*}

/-! ## What the law gives -/

section laws

variable (c : Codec B A) {a b : A} {cells rest : List B}

/-- A valid value is read back, with the rest left. -/
theorem read_encode (h : c.valid a) (rest : List B) :
    c.read (c.encode a ++ rest) = some (a, rest) :=
  c.read_iff.mpr ⟨h, rfl⟩

/-- What is read is valid. -/
theorem valid_of_read (h : c.read cells = some (a, rest)) : c.valid a := (c.read_iff.mp h).1

/-- What is read stands at the front, as it is written. -/
theorem eq_of_read (h : c.read cells = some (a, rest)) : cells = c.encode a ++ rest :=
  (c.read_iff.mp h).2

/-- What is left is an end of what there was. -/
theorem suffix_of_read (h : c.read cells = some (a, rest)) : rest <:+ cells :=
  ⟨c.encode a, (c.eq_of_read h).symm⟩

/-- No layout is the beginning of another one. -/
theorem prefix_free {s : List B} (ha : c.valid a) (hb : c.valid b)
    (h : c.encode a ++ rest = c.encode b ++ s) : a = b ∧ rest = s := by
  have hread := c.read_encode ha rest
  rw [h, c.read_encode hb s] at hread
  obtain ⟨rfl, rfl⟩ := Prod.mk.inj (Option.some.inj hread)
  exact ⟨rfl, rfl⟩

/-- A text is accepted iff it begins with a layout. -/
theorem accepts_iff :
    (∃ rest, c.read cells = some (a, rest)) ↔ c.valid a ∧ c.encode a <+: cells := by
  constructor
  · rintro ⟨rest, h⟩
    exact ⟨c.valid_of_read h, rest, (c.eq_of_read h).symm⟩
  · rintro ⟨ha, rest, rfl⟩
    exact ⟨rest, c.read_encode ha rest⟩

/-- What ends inside a layout is refused. -/
theorem read_strict_prefix (ha : c.valid a) (h : cells <+: c.encode a) (hne : cells ≠ c.encode a) :
    c.read cells = none := by
  rw [Option.eq_none_iff_forall_ne_some]
  rintro ⟨b, rest⟩ hread
  obtain ⟨more, hmore⟩ := h
  have heq := c.eq_of_read hread
  -- a layout read from the part would be read from the whole as well
  rw [heq, List.append_assoc, ← List.append_nil (c.encode a)] at hmore
  obtain ⟨rfl, hrest⟩ := c.prefix_free (c.valid_of_read hread) ha hmore
  apply hne
  rw [heq, (List.append_eq_nil_iff.mp hrest).1, List.append_nil]

end laws

/-! ## Layouts put together -/

/-- Any `n` cells. -/
def cells (B : Type*) (n : ℕ) : Codec B (List B) where
  valid l := l.length = n
  encode l := l
  read l := if n ≤ l.length then some (l.take n, l.drop n) else none
  read_iff := by
    intro l a rest
    by_cases hn : n ≤ l.length
    · rw [if_pos hn, Option.some.injEq, Prod.mk.injEq]
      constructor
      · rintro ⟨rfl, rfl⟩
        exact ⟨List.length_take_of_le hn, (List.take_append_drop n l).symm⟩
      · rintro ⟨rfl, rfl⟩
        exact ⟨List.take_left, List.drop_left⟩
    · rw [if_neg hn]
      refine ⟨nofun, ?_⟩
      rintro ⟨rfl, rfl⟩
      rw [List.length_append] at hn
      omega

/-- One layout after another. -/
def seq (c : Codec B A) (d : Codec B C) : Codec B (A × C) where
  valid x := c.valid x.1 ∧ d.valid x.2
  encode x := c.encode x.1 ++ d.encode x.2
  read l := (c.read l).bind fun (a, l) => (d.read l).map fun (x, l) => ((a, x), l)
  read_iff := by
    rintro l ⟨a, x⟩ rest
    rw [Option.bind_eq_some_iff]
    constructor
    · rintro ⟨⟨a', l'⟩, hc, hsecond⟩
      obtain ⟨⟨x', l''⟩, hd, heq⟩ := Option.map_eq_some_iff.mp hsecond
      obtain ⟨hax, rfl⟩ := Prod.mk.inj heq
      obtain ⟨rfl, rfl⟩ := Prod.mk.inj hax
      refine ⟨⟨c.valid_of_read hc, d.valid_of_read hd⟩, ?_⟩
      rw [c.eq_of_read hc, d.eq_of_read hd, List.append_assoc]
    · rintro ⟨⟨ha, hx⟩, rfl⟩
      refine ⟨(a, d.encode x ++ rest), ?_, ?_⟩
      · rw [List.append_assoc]
        exact c.read_encode ha _
      · exact Option.map_eq_some_iff.mpr ⟨_, d.read_encode hx rest, rfl⟩

/-- The layouts of `c` that `decode` makes something of. -/
def refine (c : Codec B A) (decode : A → Option C) (undo : C → A) (ok : C → Prop)
    (h : ∀ {a x}, c.valid a → (decode a = some x ↔ ok x ∧ a = undo x)) : Codec B C where
  valid x := ok x ∧ c.valid (undo x)
  encode x := c.encode (undo x)
  read l := (c.read l).bind fun (a, l) => (decode a).map fun x => (x, l)
  read_iff := by
    intro l x rest
    rw [Option.bind_eq_some_iff]
    constructor
    · rintro ⟨⟨a, l'⟩, hc, hdecoded⟩
      obtain ⟨x', hdecode, heq⟩ := Option.map_eq_some_iff.mp hdecoded
      obtain ⟨rfl, rfl⟩ := Prod.mk.inj heq
      obtain ⟨hok, rfl⟩ := (h (c.valid_of_read hc)).mp hdecode
      exact ⟨⟨hok, c.valid_of_read hc⟩, c.eq_of_read hc⟩
    · rintro ⟨⟨hok, hvalid⟩, rfl⟩
      refine ⟨(undo x, rest), c.read_encode hvalid rest, ?_⟩
      exact Option.map_eq_some_iff.mpr ⟨x, (h hvalid).mpr ⟨hok, rfl⟩, rfl⟩

/-- A header, and a body laid out as the header says. -/
def headed (header : Codec B H) (body : H → Codec B A) (head : A → H)
    (h : ∀ {x a}, (body x).valid a → head a = x) : Codec B A where
  valid a := header.valid (head a) ∧ (body (head a)).valid a
  encode a := header.encode (head a) ++ (body (head a)).encode a
  read l := (header.read l).bind fun (x, l) => (body x).read l
  read_iff := by
    intro l a rest
    rw [Option.bind_eq_some_iff]
    constructor
    · rintro ⟨⟨x, l'⟩, hheader, hbody⟩
      obtain rfl := h ((body x).valid_of_read hbody)
      refine ⟨⟨header.valid_of_read hheader, (body (head a)).valid_of_read hbody⟩, ?_⟩
      rw [header.eq_of_read hheader, (body (head a)).eq_of_read hbody, List.append_assoc]
    · rintro ⟨⟨hhead, hbody⟩, rfl⟩
      refine ⟨(head a, (body (head a)).encode a ++ rest), ?_,
        (body (head a)).read_encode hbody rest⟩
      rw [List.append_assoc]
      exact header.read_encode hhead _

/-- `n` layouts of `c` off the front. -/
def read_list (c : Codec B A) : ℕ → List B → Option (List A × List B)
  | 0, l => some ([], l)
  | n + 1, l => (c.read l).bind fun (a, l) => (c.read_list n l).map fun (as, l) => (a :: as, l)

/-- `n` layouts of `c` in a row. -/
def replicate (c : Codec B A) (n : ℕ) : Codec B (List A) where
  valid as := as.length = n ∧ ∀ a ∈ as, c.valid a
  encode as := as.flatMap c.encode
  read := c.read_list n
  read_iff := by
    intro l as rest
    induction n generalizing l as with
    | zero =>
        rw [read_list, Option.some.injEq, Prod.mk.injEq, List.length_eq_zero_iff]
        constructor
        · rintro ⟨rfl, rfl⟩
          exact ⟨⟨rfl, nofun⟩, rfl⟩
        · rintro ⟨⟨rfl, -⟩, rfl⟩
          exact ⟨rfl, rfl⟩
    | succ n ih =>
        rw [read_list, Option.bind_eq_some_iff]
        constructor
        · rintro ⟨⟨a, l'⟩, hc, hrest⟩
          obtain ⟨⟨as', l''⟩, hlist, heq⟩ := Option.map_eq_some_iff.mp hrest
          obtain ⟨rfl, rfl⟩ := Prod.mk.inj heq
          obtain ⟨⟨hlen, hvalid⟩, hl'⟩ := ih.mp hlist
          refine ⟨⟨congrArg (· + 1) hlen,
            List.forall_mem_cons.mpr ⟨c.valid_of_read hc, hvalid⟩⟩, ?_⟩
          rw [c.eq_of_read hc, hl', List.flatMap_cons, List.append_assoc]
        · rintro ⟨⟨hlen, hvalid⟩, rfl⟩
          obtain ⟨a, as, rfl⟩ := List.exists_cons_of_length_eq_add_one hlen
          rw [List.forall_mem_cons] at hvalid
          refine ⟨(a, as.flatMap c.encode ++ rest), ?_, ?_⟩
          · rw [List.flatMap_cons, List.append_assoc]
            exact c.read_encode hvalid.1 _
          · refine Option.map_eq_some_iff.mpr ⟨_, ih.mpr ⟨⟨?_, hvalid.2⟩, rfl⟩, rfl⟩
            rw [List.length_cons] at hlen
            omega

/-- Layouts of at least `k` cells take at least `k` cells each. -/
theorem length_replicate_encode (c : Codec B A) {k : ℕ} (hk : ∀ a, k ≤ (c.encode a).length)
    (n : ℕ) {as : List A} (h : (c.replicate n).valid as) :
    k * n ≤ ((c.replicate n).encode as).length := by
  obtain ⟨rfl, -⟩ := h
  show k * as.length ≤ (as.flatMap c.encode).length
  induction as with
  | nil => exact Nat.zero_le _
  | cons a as ih =>
      have ha := hk a
      rw [List.flatMap_cons, List.length_append, List.length_cons, Nat.mul_succ]
      omega

/-- A count, and that many layouts. -/
def counted (count : Codec B ℕ) (c : Codec B A) : Codec B (List A) :=
  headed count c.replicate List.length fun h => h.1

/-- A length, and that many cells. -/
def sized (length : Codec B ℕ) : Codec B (List B) :=
  headed length (cells B) List.length id

/-! ## Little-endian integers -/

/-- The number whose least significant byte comes first. -/
def le_value (bytes : List UInt8) : ℕ := Nat.ofDigits 256 (bytes.map UInt8.toNat)

/-- The `n` low bytes of a number, the least significant first. -/
def le_bytes : ℕ → ℕ → List UInt8
  | 0, _ => []
  | n + 1, x => UInt8.ofNat (x % 256) :: le_bytes n (x / 256)

@[simp] theorem length_le_bytes (n x : ℕ) : (le_bytes n x).length = n := by
  induction n generalizing x with
  | zero => rfl
  | succ n ih => rw [le_bytes, List.length_cons, ih]

theorem le_value_cons (b : UInt8) (bytes : List UInt8) :
    le_value (b :: bytes) = b.toNat + 256 * le_value bytes := by
  rw [le_value, List.map_cons, Nat.ofDigits_cons]
  rfl

/-- Bytes make a number below their bound. -/
theorem le_value_lt (bytes : List UInt8) : le_value bytes < 256 ^ bytes.length := by
  induction bytes with
  | nil => exact Nat.one_pos
  | cons b bytes ih =>
      have hb := b.toNat_lt
      rw [le_value_cons, List.length_cons, pow_succ]
      omega

/-- A number that fits is read back from its bytes. -/
theorem le_value_le_bytes {n x : ℕ} (h : x < 256 ^ n) : le_value (le_bytes n x) = x := by
  induction n generalizing x with
  | zero =>
      rw [pow_zero] at h
      obtain rfl : x = 0 := by omega
      rfl
  | succ n ih =>
      rw [pow_succ] at h
      have hb : (UInt8.ofNat (x % 256)).toNat = x % 256 := by
        rw [UInt8.toNat_ofNat']
        exact Nat.mod_eq_of_lt (Nat.mod_lt _ (by norm_num))
      rw [le_bytes, le_value_cons, hb, ih (by omega)]
      exact Nat.mod_add_div x 256

/-- Bytes are written back from their number. -/
theorem le_bytes_le_value (bytes : List UInt8) :
    le_bytes bytes.length (le_value bytes) = bytes := by
  induction bytes with
  | nil => rfl
  | cons b bytes ih =>
      have hb := b.toNat_lt
      have hlow : (b.toNat + 256 * le_value bytes) % 256 = b.toNat := by omega
      have hhigh : (b.toNat + 256 * le_value bytes) / 256 = le_value bytes := by omega
      rw [List.length_cons, le_value_cons, le_bytes, hlow, hhigh, ih, UInt8.ofNat_toNat]

/-- A number in `n` little-endian bytes. -/
def le (n : ℕ) : Codec UInt8 ℕ :=
  (cells UInt8 n).refine (fun bytes => some (le_value bytes)) (le_bytes n) (· < 256 ^ n) <| by
    intro bytes x hvalid
    obtain rfl : bytes.length = n := hvalid
    rw [Option.some.injEq]
    constructor
    · rintro rfl
      exact ⟨le_value_lt bytes, (le_bytes_le_value bytes).symm⟩
    · rintro ⟨hlt, hbytes⟩
      rw [hbytes]
      exact le_value_le_bytes hlt

theorem le_valid {n x : ℕ} : (le n).valid x ↔ x < 256 ^ n :=
  and_iff_left (length_le_bytes n x)

end Codec

end SnapshotEtl.Lib
