/-
Quoted literals, and the tokens of a text that has them.

A literal stands between two quotes. Inside, a doubled quote is one quote, and an
escape gives the next symbol another reading; outside, every symbol is a token of its
own. A writer that doubles quotes and leaves escapes alone is read back exactly where
there are none: the first run of escapes comes out half as long, and whatever is read
after it cannot make up for that (`notMem_of_body_literal`).

A statement is text and literals in turn. `Reads` says what a part of it contributes to
its tokens, in front of whatever may follow it, and on what condition; parts are put
together by `Reads.append` and `Reads.join`, and their conditions with them.
-/
import Mathlib.Algebra.Group.Even
import Mathlib.Algebra.Group.Nat.Even
import Mathlib.Data.List.Forall2

set_option autoImplicit false

namespace SnapshotEtl.Lib.Quoting

/-- Which symbols are the quote, the escape and the blank, and what an escaped symbol
stands for: only the escape for itself. -/
structure Syntax (α : Type*) where
  quote : α
  esc : α
  blank : α
  escaped : α → α
  quote_ne_esc : quote ≠ esc
  blank_ne_quote : blank ≠ quote
  escaped_iff : ∀ c, escaped c = esc ↔ c = esc

inductive Token (α : Type*)
  | string (value : List α)
  | symbol (c : α)
deriving DecidableEq, Repr

variable {α : Type*} [DecidableEq α] (S : Syntax α)

/-! ## The writer -/

def double (value : List α) : List α := value.flatMap fun c => if c = S.quote then [c, c] else [c]

def literal (value : List α) : List α := S.quote :: (double S value ++ [S.quote])

/-! ## The reader -/

/-- The value of the literal that has been opened, and the text after it. -/
def body : List α → Option (List α × List α)
  | [] => none
  | [c] => if c = S.quote then some ([], []) else none
  | c :: d :: text =>
      if c = S.esc then (body text).map fun r => (S.escaped d :: r.1, r.2)
      else if c = S.quote then
        if d = S.quote then (body text).map fun r => (S.quote :: r.1, r.2)
        else some ([], d :: text)
      else (body (d :: text)).map fun r => (c :: r.1, r.2)

/-- The literal a text begins with, and the text after it. -/
def read_literal : List α → Option (List α × List α)
  | [] => none
  | c :: text => if c = S.quote then body S text else none

/-- The tokens of a text of at most so many symbols. -/
def tokens_upto : ℕ → List α → Option (List (Token α))
  | _, [] => some []
  | 0, _ :: _ => none
  | n + 1, c :: text =>
      if c = S.quote then
        (body S text).bind fun r => (tokens_upto n r.2).map (Token.string r.1 :: ·)
      else if c = S.blank then tokens_upto n text
      else (tokens_upto n text).map (Token.symbol c :: ·)

def tokens (text : List α) : Option (List (Token α)) := tokens_upto S text.length text

variable {S} {value rest text read : List α}

/-! ## Literals -/

theorem double_cons (c : α) (value : List α) :
    double S (c :: value) = (if c = S.quote then [c, c] else [c]) ++ double S value :=
  List.flatMap_cons

/-- Any other symbol is read as itself. -/
theorem body_cons {c : α} (hesc : c ≠ S.esc) (hquote : c ≠ S.quote) (text : List α) :
    body S (c :: text) = (body S text).map fun r => (c :: r.1, r.2) := by
  cases text with
  | nil => simp [body, hquote]
  | cons d text => rw [body, if_neg hesc, if_neg hquote]

/-- An escape takes the next character with it. -/
theorem body_esc (d : α) (text : List α) : body S (S.esc :: d :: text)
    = (body S text).map fun r => (S.escaped d :: r.1, r.2) := by
  rw [body, if_pos rfl]

/-- A doubled quote is one quote of the value. -/
theorem body_doubled (text : List α) : body S (S.quote :: S.quote :: text)
    = (body S text).map fun r => (S.quote :: r.1, r.2) := by
  rw [body, if_neg S.quote_ne_esc, if_pos rfl, if_pos rfl]

/-- A quote that is not doubled ends the literal. -/
theorem body_closed (h : rest.head? ≠ some S.quote) :
    body S (S.quote :: rest) = some ([], rest) := by
  cases rest with
  | nil => simp [body]
  | cons d rest =>
      rw [body, if_neg S.quote_ne_esc, if_pos rfl, if_neg fun hd => h (by rw [hd]; rfl)]

/-- **A value without escapes is read back**, up to the text after its literal. -/
theorem body_double (hvalue : S.esc ∉ value) (hrest : rest.head? ≠ some S.quote) :
    body S (double S value ++ S.quote :: rest) = some (value, rest) := by
  induction value with
  | nil => exact body_closed hrest
  | cons c value ih =>
      rw [List.mem_cons, not_or] at hvalue
      rw [double_cons, List.append_assoc]
      by_cases hc : c = S.quote
      · rw [if_pos hc, hc, List.cons_append, List.singleton_append, body_doubled, ih hvalue.2]
        rfl
      · rw [if_neg hc, List.singleton_append, body_cons (Ne.symm hvalue.1) hc, ih hvalue.2]
        rfl

/-- The first symbol of a doubled value is its own. -/
theorem exists_double_cons (c : α) (value tail : List α) :
    ∃ text, double S (c :: value) ++ tail = c :: text := by
  rw [double_cons]
  split
  · exact ⟨_, rfl⟩
  · exact ⟨_, rfl⟩

section Owed

variable {n : ℕ} {c : α} {r : List α × List α}

omit [DecidableEq α] in
/-- Where another symbol comes first, no escape is owed. -/
theorem not_owed (hc : c ≠ S.esc)
    (h : (c :: r.1, r.2) = (List.replicate n S.esc ++ value, read)) :
    n = 0 ∧ c :: r.1 = value := by
  cases n with
  | zero => exact ⟨rfl, (Prod.mk.inj h).1⟩
  | succ n => exact absurd (List.cons.inj (Prod.mk.inj h).1).1 hc

omit [DecidableEq α] in
/-- Two escapes are read as one, and one more is owed. -/
theorem owed_succ
    (h : (S.esc :: r.1, r.2) = (List.replicate n S.esc ++ S.esc :: S.esc :: value, read)) :
    r.1 = List.replicate (n + 1) S.esc ++ value := by
  have htail := (Prod.mk.inj h).1
  rw [List.append_cons, ← List.replicate_succ', List.replicate_succ, List.cons_append] at htail
  rw [(List.cons.inj htail).2, List.append_cons, ← List.replicate_succ']

theorem not_owed_nil (h : body S (S.quote :: rest) = some (List.replicate n S.esc, read)) :
    n = 0 := by
  by_cases hrest : rest.head? = some S.quote
  · obtain ⟨text, rfl⟩ := List.head?_eq_some_iff.mp hrest
    rw [body_doubled] at h
    obtain ⟨r, -, hr⟩ := Option.map_eq_some_iff.mp h
    have hshape : (S.quote :: r.1, r.2) = (List.replicate n S.esc ++ [], read) := by
      rw [hr, List.append_nil]
    exact (not_owed S.quote_ne_esc hshape).1
  · rw [body_closed hrest] at h
    have hnil := (Prod.mk.inj (Option.some.inj h)).1
    simpa using hnil.symm

end Owed

/-- Escapes that are owed are never made up for. -/
theorem owed_of_body {n : ℕ} (h : body S (double S value ++ S.quote :: rest)
      = some (List.replicate n S.esc ++ value, read)) : n = 0 ∧ S.esc ∉ value := by
  induction hlen : value.length using Nat.strongRecOn generalizing value n read with
  | ind len ih =>
      cases value with
      | nil => exact ⟨not_owed_nil (by simpa [double] using h), by simp⟩
      | cons c value =>
          rw [List.length_cons] at hlen
          rw [double_cons, List.append_assoc] at h
          by_cases hesc : c = S.esc
          · subst hesc
            rw [if_neg S.quote_ne_esc.symm, List.singleton_append] at h
            cases value with
            | nil =>
                -- it escapes the quote at the end
                rw [show double S [] = [] from rfl, List.nil_append, body_esc] at h
                obtain ⟨r, -, heq⟩ := Option.map_eq_some_iff.mp h
                have hne : S.escaped S.quote ≠ S.esc := fun heq =>
                  S.quote_ne_esc ((S.escaped_iff _).mp heq)
                exact absurd (List.cons.inj (not_owed hne heq).2).1 hne
            | cons d value =>
                by_cases hd : d = S.esc
                · subst hd
                  rw [double_cons, if_neg S.quote_ne_esc.symm, List.append_assoc,
                    List.singleton_append, body_esc, (S.escaped_iff _).mpr rfl] at h
                  obtain ⟨r, hr, heq⟩ := Option.map_eq_some_iff.mp h
                  have howed := ih value.length (by rw [← hlen, List.length_cons]; omega)
                    (hr.trans (congrArg some (Prod.ext (owed_succ heq) rfl))) rfl
                  cases howed.1
                · -- it gives the next symbol another reading
                  obtain ⟨text, htext⟩ := exists_double_cons (S := S) d value (S.quote :: rest)
                  rw [htext, body_esc] at h
                  obtain ⟨r, -, heq⟩ := Option.map_eq_some_iff.mp h
                  have hne : S.escaped d ≠ S.esc := fun heq => hd ((S.escaped_iff _).mp heq)
                  exact absurd (List.cons.inj (not_owed hne heq).2).1 hne
          · -- the symbol is read as itself, from one place or from two
            have hread : ∃ r, body S (double S value ++ S.quote :: rest) = some r ∧
                (c :: r.1, r.2) = (List.replicate n S.esc ++ c :: value, read) := by
              by_cases hquote : c = S.quote
              · rw [if_pos hquote, hquote, List.cons_append, List.singleton_append,
                  body_doubled] at h
                rw [hquote]
                exact Option.map_eq_some_iff.mp h
              · rw [if_neg hquote, List.singleton_append, body_cons hesc hquote] at h
                exact Option.map_eq_some_iff.mp h
            obtain ⟨r, hr, heq⟩ := hread
            obtain ⟨rfl, hvalue⟩ := not_owed hesc heq
            have hclean := ih value.length (by omega) (n := 0)
              (hr.trans (congrArg some (Prod.ext (List.cons.inj hvalue).2 rfl))) rfl
            rw [List.mem_cons, not_or]
            exact ⟨rfl, Ne.symm hesc, hclean.2⟩

/-- **A value that is read back has no escapes**, whatever text comes after it. -/
theorem notMem_of_body_literal
    (h : body S (double S value ++ S.quote :: rest) = some (value, read)) :
    S.esc ∉ value := (owed_of_body (n := 0) h).2

/-- A value in quotes is read back as itself exactly where it has no escape. -/
theorem read_literal_iff (hrest : rest.head? ≠ some S.quote) :
    read_literal S (literal S value ++ rest) = some (value, rest) ↔ S.esc ∉ value := by
  rw [literal, List.cons_append, read_literal, if_pos rfl, List.append_assoc,
    List.singleton_append]
  exact ⟨notMem_of_body_literal, fun h => body_double h hrest⟩

/-! ## Tokens -/

/-- The literal that `text` opens ends at a quote, and what comes after that is left. -/
def Closes (S : Syntax α) (text value rest : List α) : Prop :=
  ∃ inside, text = inside ++ S.quote :: rest ∧
    (rest ≠ [] → ∀ more, body S (text ++ more) = some (value, rest ++ more))

/-- Symbols in front of a literal that closes. -/
theorem closes_append (head : List α) (f : List α → List α)
    (hhead : ∀ text, body S (head ++ text) = (body S text).map fun r => (f r.1, r.2))
    (h : (body S text).map (fun r => (f r.1, r.2)) = some (value, rest))
    (ih : ∀ {value}, body S text = some (value, rest) → Closes S text value rest) :
    Closes S (head ++ text) value rest := by
  obtain ⟨r, hr, heq⟩ := Option.map_eq_some_iff.mp h
  obtain ⟨rfl, rfl⟩ := Prod.mk.inj heq
  obtain ⟨inside, hinside, hmore⟩ := ih hr
  refine ⟨head ++ inside, by rw [List.append_assoc, ← hinside], fun hne more => ?_⟩
  rw [List.append_assoc, hhead, hmore hne more, Option.map_some]

/-- What the reader returns has the shape of a closed literal. -/
theorem body_eq (h : body S text = some (value, rest)) : Closes S text value rest := by
  fun_induction body S text generalizing value with
  | case1 => cases h
  | case2 =>
      obtain ⟨rfl, rfl⟩ := Prod.mk.inj (Option.some.inj h)
      exact ⟨[], rfl, fun hne => absurd rfl hne⟩
  | case3 => cases h
  | case4 d text ih =>
      exact closes_append [S.esc, d] (fun inside => S.escaped d :: inside) (body_esc d) h ih
  | case5 text _ ih =>
      exact closes_append [S.quote, S.quote] (fun inside => S.quote :: inside) body_doubled h ih
  | case6 d text =>
      obtain ⟨rfl, rfl⟩ := Prod.mk.inj (Option.some.inj h)
      refine ⟨[], rfl, fun _ more => ?_⟩
      rw [List.cons_append]
      exact body_closed (by simpa using ‹d ≠ S.quote›)
  | case7 c d text hesc hquote ih =>
      exact closes_append [c] (fun inside => c :: inside) (body_cons hesc hquote) h ih

/-- Reading a literal uses up text. -/
theorem length_body (h : body S text = some (value, rest)) : rest.length < text.length := by
  obtain ⟨inside, rfl, -⟩ := body_eq h
  rw [List.length_append, List.length_cons]
  omega

/-- More symbols than there are make no difference. -/
theorem tokens_upto_eq {n : ℕ} (h : text.length ≤ n) : tokens_upto S n text = tokens S text := by
  have hsame : ∀ (n m : ℕ) (text : List α), text.length ≤ n → text.length ≤ m →
      tokens_upto S n text = tokens_upto S m text := by
    intro n
    induction n with
    | zero =>
        intro m text hn _
        obtain rfl := List.length_eq_zero_iff.mp (Nat.le_zero.mp hn)
        cases m <;> rfl
    | succ n ih =>
        intro m text hn hm
        cases text with
        | nil => cases m <;> rfl
        | cons c text =>
            rw [List.length_cons] at hn hm
            obtain ⟨m, rfl⟩ : ∃ m', m = m' + 1 := ⟨m - 1, by omega⟩
            rw [tokens_upto, tokens_upto, ih m text (by omega) (by omega)]
            congr 1
            apply Option.bind_congr
            intro r hr
            have hlt := length_body hr
            rw [ih m r.2 (by omega) (by omega)]
  exact hsame _ _ _ h (Nat.le_refl _)

@[simp] theorem tokens_nil : tokens S [] = some [] := rfl

theorem tokens_blank (text : List α) : tokens S (S.blank :: text) = tokens S text := by
  rw [tokens, List.length_cons, tokens_upto, if_neg S.blank_ne_quote, if_pos rfl]
  rfl

theorem tokens_symbol {c : α} (hquote : c ≠ S.quote) (hblank : c ≠ S.blank) (text : List α) :
    tokens S (c :: text) = (tokens S text).map (Token.symbol c :: ·) := by
  rw [tokens, List.length_cons, tokens_upto, if_neg hquote, if_neg hblank]
  rfl

/-- A quote outside a literal opens one. -/
theorem tokens_quote (text : List α) : tokens S (S.quote :: text)
    = (body S text).bind fun r => (tokens S r.2).map (Token.string r.1 :: ·) := by
  rw [tokens, List.length_cons, tokens_upto, if_pos rfl]
  apply Option.bind_congr
  intro r hr
  rw [tokens_upto_eq (Nat.le_of_lt (length_body hr))]

/-! ## Parts of a statement -/

variable (S)

/-- No quote comes first. -/
def Unquoted (text : List α) : Prop := text.head? ≠ some S.quote

/-- In front of a text that may follow it, `part` is read as `read` where the condition
holds, and in no other case. -/
structure Reads (follow : List α → Prop) (part : List α) (read : List (Token α)) (cond : Prop) :
    Prop where
  reads : cond → ∀ rest, follow rest →
    tokens S (part ++ rest) = (tokens S rest).map (read ++ ·)
  cond_of : ∀ rest after, follow rest → tokens S (part ++ rest) = some (read ++ after) → cond

/-- A text that can stand between literals: it ends outside of one, and not at a quote. -/
structure Outside (text : List α) (read : List (Token α)) : Prop where
  tokens_eq : tokens S text = some read
  opens : text.head? ≠ some S.quote
  closes : text.getLast? ≠ some S.quote

variable {S}

/-- A quoted value reads as one string token, on the condition that it has no escape. -/
theorem reads_literal (value : List α) :
    Reads S (Unquoted S) (literal S value) [.string value] (S.esc ∉ value) where
  reads := by
    intro hvalue rest hrest
    rw [literal, List.cons_append, tokens_quote, List.append_assoc, List.singleton_append,
      body_double hvalue hrest]
    rfl
  cond_of := by
    intro rest after _ h
    rw [literal, List.cons_append, tokens_quote, List.append_assoc, List.singleton_append] at h
    obtain ⟨r, hbody, hr⟩ := Option.bind_eq_some_iff.mp h
    obtain ⟨after', -, heq⟩ := Option.map_eq_some_iff.mp hr
    obtain rfl : r.1 = value := by simpa using (List.cons.inj heq).1
    exact notMem_of_body_literal hbody

/-- A text that does not end at a quote goes on after its literal. -/
theorem rest_of_body {r : List α × List α} (hbody : body S text = some r)
    (hlast : text.getLast? ≠ some S.quote) : r.2 ≠ [] ∧ r.2.getLast? ≠ some S.quote := by
  obtain ⟨inside, hinside, -⟩ := body_eq hbody
  have hne : r.2 ≠ [] := by
    intro hnil
    rw [hinside, hnil] at hlast
    simp at hlast
  rw [hinside, List.getLast?_append_of_ne_nil _ (by simp),
    List.getLast?_cons_of_ne_nil hne] at hlast
  exact ⟨hne, hlast⟩

/-- What follows a text makes no difference to it. -/
theorem tokens_append {text : List α} {read : List (Token α)} (h : tokens S text = some read)
    (hlast : text.getLast? ≠ some S.quote) (rest : List α) :
    tokens S (text ++ rest) = (tokens S rest).map (read ++ ·) := by
  induction hlen : text.length using Nat.strongRecOn generalizing text read with
  | ind n ih =>
      cases text with
      | nil =>
          obtain rfl : [] = read := Option.some.inj h
          simp
      | cons c text =>
          rw [List.length_cons] at hlen
          have htail : text ≠ [] → text.getLast? ≠ some S.quote := by
            intro hne hquote
            rw [List.getLast?_cons_of_ne_nil hne] at hlast
            exact hlast hquote
          -- the rest of the text, by the induction
          have hsame : ∀ read, tokens S text = some read →
              tokens S (text ++ rest) = (tokens S rest).map (read ++ ·) := by
            intro read hread
            by_cases hne : text = []
            · subst hne
              obtain rfl : [] = read := Option.some.inj hread
              simp
            · exact ih _ (by omega) hread (htail hne) rfl
          rw [List.cons_append]
          by_cases hquote : c = S.quote
          · subst hquote
            -- a literal that is closed in the text is read the same in the longer one
            rw [tokens_quote] at h ⊢
            obtain ⟨r, hbody, hr⟩ := Option.bind_eq_some_iff.mp h
            obtain ⟨after, hafter, rfl⟩ := Option.map_eq_some_iff.mp hr
            obtain ⟨-, -, hmore⟩ := body_eq hbody
            have htext := htail (List.ne_nil_of_length_pos (Nat.zero_lt_of_lt (length_body hbody)))
            obtain ⟨hne, hlast'⟩ := rest_of_body hbody htext
            have hlt := length_body hbody
            rw [hmore hne rest, Option.bind_some, ih r.2.length (by omega) hafter hlast' rfl,
              Option.map_map]
            rfl
          · by_cases hblank : c = S.blank
            · subst hblank
              rw [tokens_blank] at h ⊢
              exact hsame read h
            · rw [tokens_symbol hquote hblank] at h ⊢
              obtain ⟨after, hafter, rfl⟩ := Option.map_eq_some_iff.mp h
              rw [hsame after hafter, Option.map_map]
              rfl

/-- A text outside of every literal reads the same whatever follows, on no condition. -/
theorem Outside.reads {text : List α} {read : List (Token α)} (h : Outside S text read)
    (follow : List α → Prop) : Reads S follow text read True where
  reads := fun _ rest _ => tokens_append h.tokens_eq h.closes rest
  cond_of := fun _ _ _ _ => trivial

/-- A text that no literal and no escape can be left open in: the quotes come in
pairs, none of them at an end. -/
structure Balanced (quote esc : α) (text : List α) : Prop where
  ne_nil : text ≠ []
  no_esc : esc ∉ text
  pairs : Even (text.count quote)
  opens : text.head? ≠ some quote
  closes : text.getLast? ≠ some quote

instance (quote esc : α) (text : List α) : Decidable (Balanced quote esc text) :=
  decidable_of_iff (text ≠ [] ∧ esc ∉ text ∧ Even (text.count quote) ∧
      text.head? ≠ some quote ∧ text.getLast? ≠ some quote)
    ⟨fun h => ⟨h.1, h.2.1, h.2.2.1, h.2.2.2.1, h.2.2.2.2⟩,
      fun h => ⟨h.ne_nil, h.no_esc, h.pairs, h.opens, h.closes⟩⟩

/-- Inside of a literal, a text with one more quote to come is read to its end. -/
theorem exists_body (hesc : S.esc ∉ text) (hodd : ¬ Even (text.count S.quote)) :
    ∃ value rest, body S text = some (value, rest) ∧ Even (rest.count S.quote) := by
  fun_induction body S text with
  | case1 => simp at hodd
  | case2 => exact ⟨[], [], rfl, by simp⟩
  | case3 c hc => simp [hc] at hodd
  | case4 => simp at hesc
  | case5 text _ ih =>
      rw [List.count_cons_self, List.count_cons_self, Nat.even_add_one, Nat.even_add_one,
        not_not] at hodd
      obtain ⟨value, rest, hbody, heven⟩ :=
        ih (fun hmem => hesc (List.mem_cons_of_mem _ (List.mem_cons_of_mem _ hmem))) hodd
      exact ⟨_, rest, Option.map_eq_some_iff.mpr ⟨_, hbody, rfl⟩, heven⟩
  | case6 d text =>
      rw [List.count_cons_self, Nat.even_add_one, not_not] at hodd
      exact ⟨[], d :: text, rfl, hodd⟩
  | case7 c d text _ hquote ih =>
      rw [List.count_cons_of_ne hquote] at hodd
      obtain ⟨value, rest, hbody, heven⟩ := ih (fun hmem => hesc (List.mem_cons_of_mem _ hmem)) hodd
      exact ⟨_, rest, Option.map_eq_some_iff.mpr ⟨_, hbody, rfl⟩, heven⟩

/-- Text with no escape and an even number of quotes lexes. -/
theorem exists_tokens (hesc : S.esc ∉ text) (heven : Even (text.count S.quote)) :
    ∃ read, tokens S text = some read := by
  induction hlen : text.length using Nat.strongRecOn generalizing text with
  | ind n ih =>
      cases text with
      | nil => exact ⟨[], rfl⟩
      | cons c text =>
          rw [List.mem_cons, not_or] at hesc
          rw [List.length_cons] at hlen
          by_cases hquote : c = S.quote
          · subst hquote
            rw [List.count_cons_self, Nat.even_add_one] at heven
            obtain ⟨value, rest, hbody, hrest⟩ := exists_body hesc.2 heven
            have hlt := length_body hbody
            have hno : S.esc ∉ rest := by
              obtain ⟨inside, hinside, -⟩ := body_eq hbody
              intro hmem
              exact hesc.2 (by rw [hinside]; simp [hmem])
            obtain ⟨read, hread⟩ := ih rest.length (by omega) hno hrest rfl
            exact ⟨.string value :: read, by rw [tokens_quote, hbody, Option.bind_some, hread]; rfl⟩
          · rw [List.count_cons_of_ne hquote] at heven
            obtain ⟨read, hread⟩ := ih text.length (by omega) hesc.2 heven rfl
            by_cases hblank : c = S.blank
            · exact ⟨read, by rw [hblank, tokens_blank, hread]⟩
            · exact ⟨.symbol c :: read, by rw [tokens_symbol hquote hblank, hread]; rfl⟩

/-- Balanced text reads as some list of tokens, whatever follows. -/
theorem Balanced.exists_outside (h : Balanced S.quote S.esc text) :
    ∃ read, Outside S text read := by
  obtain ⟨read, hread⟩ := exists_tokens h.no_esc h.pairs
  exact ⟨read, hread, h.opens, h.closes⟩

/-- So does each text of a list. -/
theorem exists_forall₂_outside {texts : List (List α)}
    (h : ∀ text ∈ texts, Balanced S.quote S.esc text) :
    ∃ reads, List.Forall₂ (Outside S) texts reads := by
  induction texts with
  | nil => exact ⟨[], .nil⟩
  | cons text texts ih =>
      rw [List.forall_mem_cons] at h
      obtain ⟨read, hread⟩ := h.1.exists_outside
      obtain ⟨reads, hreads⟩ := ih h.2
      exact ⟨read :: reads, .cons hread hreads⟩

section Balanced

variable {quote esc : α} {text' : List α}

/-- Balanced texts one after the other are balanced. -/
theorem Balanced.append (h : Balanced quote esc text) (h' : Balanced quote esc text') :
    Balanced quote esc (text ++ text') where
  ne_nil := by simp [h.ne_nil]
  no_esc := by simp [h.no_esc, h'.no_esc]
  pairs := by
    rw [List.count_append]
    exact h.pairs.add h'.pairs
  opens := by
    rw [List.head?_append_of_ne_nil _ h.ne_nil]
    exact h.opens
  closes := by
    rw [List.getLast?_append_of_ne_nil _ h'.ne_nil]
    exact h'.closes

/-- A name without quotes and escapes changes nothing. -/
theorem Balanced.of_plain (hne : text ≠ []) (hquote : quote ∉ text) (hesc : esc ∉ text) :
    Balanced quote esc text where
  ne_nil := hne
  no_esc := hesc
  pairs := by simp [List.count_eq_zero_of_not_mem hquote]
  opens := fun hhead => hquote (List.mem_of_mem_head? hhead)
  closes := fun hlast => hquote (List.mem_of_getLast? hlast)

end Balanced

namespace Reads

variable {follow follow' : List α → Prop} {part part' : List α} {toks toks' : List (Token α)}
  {cond cond' : Prop}

/-- **Parts in a row** are read on both conditions. -/
theorem append (h : Reads S follow part toks cond) (h' : Reads S follow' part' toks' cond')
    (hfollow : ∀ rest, follow' rest → follow (part' ++ rest)) :
    Reads S follow' (part ++ part') (toks ++ toks') (cond ∧ cond') where
  reads := by
    rintro ⟨hcond, hcond'⟩ rest hrest
    rw [List.append_assoc, h.reads hcond _ (hfollow rest hrest), h'.reads hcond' rest hrest,
      Option.map_map]
    congr 1
    funext after
    exact (List.append_assoc toks toks' after).symm
  cond_of := by
    intro rest after hrest heq
    rw [List.append_assoc, List.append_assoc] at heq
    have hcond := h.cond_of _ _ (hfollow rest hrest) heq
    rw [h.reads hcond _ (hfollow rest hrest)] at heq
    obtain ⟨read, hread, hsame⟩ := Option.map_eq_some_iff.mp heq
    rw [List.append_cancel_left hsame] at hread
    exact ⟨hcond, h'.cond_of _ _ hrest hread⟩

theorem congr (h : Reads S follow part toks cond) (hcond : cond ↔ cond') :
    Reads S follow part toks cond' :=
  ⟨fun hc => h.reads (hcond.mpr hc), fun rest after hrest heq =>
    hcond.mp (h.cond_of rest after hrest heq)⟩

theorem nil : Reads S follow [] [] True where
  reads := fun _ rest _ => by simp
  cond_of := fun _ _ _ _ => trivial

/-- A part that reads before any follower of a kind reads before fewer of them. -/
theorem mono (h : Reads S follow part toks cond) (himp : ∀ rest, follow' rest → follow rest) :
    Reads S follow' part toks cond :=
  ⟨fun hc rest hrest => h.reads hc rest (himp rest hrest),
    fun rest after hrest heq => h.cond_of rest after (himp rest hrest) heq⟩

/-- A text in front is read in any case. -/
theorem after_outside {read : List (Token α)} (h : Reads S follow part toks cond)
    (htext : Outside S text read) : Reads S follow (text ++ part) (read ++ toks) cond := by
  have hall := (htext.reads fun _ => True).append h fun _ _ => trivial
  rwa [true_and] at hall

/-- So is one behind, and anything may follow it. -/
theorem then_outside {read : List (Token α)} (h : Reads S (Unquoted S) part toks cond)
    (htext : Outside S text read) (hne : text ≠ []) :
    Reads S (fun _ => True) (part ++ text) (toks ++ read) cond := by
  have hall := h.append (htext.reads fun _ => True) fun rest _ => by
    obtain ⟨c, text', rfl⟩ := List.exists_cons_of_ne_nil hne
    exact htext.opens
  rwa [and_true] at hall

/-- **Items with a separator between them** are read where each of them is. -/
theorem join {ι : Type*} {sep : List α} {sep_read : List (Token α)} (hsep : Outside S sep sep_read)
    (hne : sep ≠ []) {item : ι → List α} {read : ι → List (Token α)} {ok : ι → Prop}
    {items : List ι} (h : ∀ i ∈ items, Reads S (Unquoted S) (item i) (read i) (ok i)) :
    Reads S (Unquoted S) (List.intercalate sep (items.map item))
      (List.intercalate sep_read (items.map read)) (∀ i ∈ items, ok i) := by
  induction items with
  | nil => exact nil.congr (by simp)
  | cons i items ih =>
      rw [List.forall_mem_cons] at h
      cases items with
      | nil =>
          have hone : ok i ↔ ∀ j ∈ [i], ok j := by simp
          simpa [List.intercalate] using h.1.congr hone
      | cons j items =>
          -- the separator comes between the first item and the others
          have hall := (h.1.then_outside hsep hne).append (ih h.2) fun _ _ => trivial
          rw [← List.forall_mem_cons] at hall
          simp only [List.map_cons, List.intercalate_cons_cons] at hall ⊢
          exact hall

/-- **A frame of texts** keeps its own tokens around the values it has in each of its
gaps. -/
theorem frame (h : Reads S (Unquoted S) part toks cond) {texts : List (List α)}
    {reads : List (List (Token α))} (hreads : List.Forall₂ (Outside S) texts reads)
    (hne : ∀ text ∈ texts, text ≠ []) (hgap : 2 ≤ texts.length) :
    Reads S (fun _ => True) (List.intercalate part texts) (List.intercalate toks reads) cond := by
  induction hreads with
  | nil => simp at hgap
  | @cons text read texts reads houtside hreads ih =>
      rw [List.forall_mem_cons] at hne
      cases hreads with
      | nil => simp at hgap
      | @cons text' read' texts reads houtside' hreads =>
          have hfirst := h.after_outside houtside
          rw [List.intercalate_cons_cons, List.intercalate_cons_cons]
          cases hreads with
          | nil =>
              have hlast := hfirst.then_outside houtside' (hne.2 text' (by simp))
              simpa [List.intercalate] using hlast
          | @cons text'' read'' texts reads houtside'' hreads =>
              have hall := hfirst.append (ih hne.2 (by simp)) fun rest _ => by
                obtain ⟨c, tail, hcons⟩ := List.exists_cons_of_ne_nil (hne.2 text' (by simp))
                have hopens := houtside'.opens
                rw [hcons] at hopens ⊢
                rw [List.intercalate_cons_cons, List.append_assoc, List.append_assoc]
                exact hopens
              rwa [and_self] at hall

/-- What is read of a whole text. -/
theorem tokens_iff (h : Reads S follow part toks cond) (hfollow : follow []) :
    tokens S part = some toks ↔ cond := by
  constructor
  · intro heq
    exact h.cond_of [] [] hfollow (by rw [List.append_nil, List.append_nil, heq])
  · intro hcond
    have heq := h.reads hcond [] hfollow
    rw [List.append_nil] at heq
    rw [heq]
    simp

end Reads

end SnapshotEtl.Lib.Quoting
