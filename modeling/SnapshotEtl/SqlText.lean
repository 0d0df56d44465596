/-
The SQL that values are written into.

Mints, owners and pubkeys go into `IN` lists and arrays as string literals whose
quotes are doubled. ClickHouse has a second way to end a literal late: a backslash
takes the next character, a quote too, out of its role, and nobody escapes those. The
pubkeys and pairs an import collects are base58, but a hot mint is any string of
`hot_token_enabled`. So each of the four statements is read as it was meant, with its
frame around exactly its values, on one condition, that no value has a backslash.
-/
import SnapshotEtl.Rows
import SnapshotEtl.Pubkey
import SnapshotEtl.Lib.Quoting

set_option autoImplicit false

namespace SnapshotEtl

open Lib Quoting

/-! ## ClickHouse's literals -/

/-- What the character after a backslash is read as. -/
structure Escapes where
  char : Char → Char
  backslash_iff : ∀ c, char c = '\\' ↔ c = '\\'

/-- The characters that an escape takes literally. -/
def Escapes.literal : Escapes := ⟨id, fun _ => Iff.rfl⟩

def clickhouse (escapes : Escapes) : Quoting.Syntax Char where
  quote := '\''
  esc := '\\'
  blank := ' '
  escaped := escapes.char
  quote_ne_esc := by decide
  blank_ne_quote := by decide
  escaped_iff := escapes.backslash_iff

/-! ## The writers -/

/-- `value.replace('\'', "''")`. -/
def replace_quotes (value : String) : String :=
  String.ofList (value.toList.flatMap fun c => if c = '\'' then [c, c] else [c])

def sql_string_literal (value : String) : String := "'" ++ replace_quotes value ++ "'"

def sql_string_list (values : List String) : String :=
  ", ".intercalate (values.map sql_string_literal)

def TableGroup.suffix : TableGroup → String
  | .Active => ""
  | .Backup => "_bak"

def TableGroup.table (group : TableGroup) (base : String) : String := base ++ group.suffix

/-- `format!`, with the values in each of the gaps. -/
def filled (values : String) (frame : List String) : String := values.intercalate frame

def token_info_batch_insert_sql (temporary mint_values mint_source metadata_source : String) :
    String :=
  filled mint_values [
    "INSERT INTO " ++ temporary ++ (" (mint, decimals, supply_raw, name, symbol, uri, " ++
      "token_standard, extensions, mint_updated_slot, metadata_updated_slot, updated_slot) " ++
      "SELECT h.mint, ifNull(m.decimals, 0), ifNull(m.supply, 0), ifNull(md.name, ''), " ++
      "ifNull(md.symbol, ''), ifNull(md.uri, ''), md.token_standard, " ++
      "ifNull(nullIf(md.extensions, ''), '[]'), ifNull(m.updated_slot, 0), " ++
      "ifNull(md.updated_slot, 0), " ++
      "greatest(ifNull(m.updated_slot, 0), ifNull(md.updated_slot, 0)) FROM (SELECT arrayJoin(["),
    "]) AS mint) AS h LEFT ANY JOIN (SELECT mint, decimals, supply, updated_slot FROM " ++
      mint_source ++ " WHERE mint IN (",
    ")) AS m USING (mint) LEFT ANY JOIN (SELECT mint, name, symbol, uri, token_standard, " ++
      "extensions, updated_slot FROM " ++ metadata_source ++ " WHERE mint IN (",
    ")) AS md USING (mint)"]

/-- The name that no other build has. -/
def temporary_table (target : String) (pid nanos : ℕ) : String :=
  target ++ "__build_" ++ toString pid ++ "_" ++ toString nanos

def raw_source (group : TableGroup) (base : String) (raw_is_full_baseline : Bool) : String :=
  if raw_is_full_baseline then group.table base else group.table base ++ " FINAL"

/-- The INSERT of one batch of `rebuild_token_info_table`. -/
def token_info_sql (group : TableGroup) (raw_is_full_baseline : Bool) (pid nanos : ℕ)
    (mint_batch : List String) : String :=
  token_info_batch_insert_sql (temporary_table (group.table "hot_token_info") pid nanos)
    (sql_string_list mint_batch) (raw_source group "raw_token_mint" raw_is_full_baseline)
    (raw_source group "raw_token_metadata" raw_is_full_baseline)

/-- The query of `write_merged_metadata_patches` for one batch. -/
def existing_metadata_sql (group : TableGroup) (batch : List String) : String :=
  filled (sql_string_list batch) [
    "SELECT mint, name, symbol, uri, update_authority, is_mutable, token_standard, " ++
      "seller_fee_basis_points, creators, extensions, updated_slot FROM " ++
      group.table "raw_token_metadata" ++ " FINAL WHERE mint IN (",
    ")"]

def incremental_wallet_balance_aggregate_sql (state : String) (pair_literals : List String) :
    String :=
  filled (", ".intercalate pair_literals) [
    "SELECT tupleElement(latest, 1) AS mint, tupleElement(latest, 2) AS owner, " ++
      "sum(tupleElement(latest, 3)) AS amount_raw FROM ( SELECT argMax( " ++
      "tuple(s.mint, s.owner, s.amount, s.state, s.is_deleted), s.updated_slot ) AS latest FROM " ++
      state ++ " AS s WHERE (s.mint, s.owner) IN (",
    ") GROUP BY s.pubkey HAVING tupleElement(latest, 5) = 0 AND tupleElement(latest, 4) != 0 ) " ++
      "GROUP BY mint, owner"]

def pair_literal (pair : String × String) : String :=
  "(" ++ sql_string_literal pair.1 ++ ", " ++ sql_string_literal pair.2 ++ ")"

/-- The query of `refresh_wallet_balance_incremental`. -/
def wallet_balance_sql (group : TableGroup) (pairs : List (String × String)) : String :=
  incremental_wallet_balance_aggregate_sql (group.table "hot_token_account_state")
    (pairs.map pair_literal)

/-- The query of `write_close_token_account_tombstones` for one batch. -/
def previous_rows_sql (group : TableGroup) (pubkeys : List String) : String :=
  filled (sql_string_list pubkeys) [
    "SELECT pubkey, mint, owner, updated_slot FROM " ++ group.table "hot_token_account_state" ++
      " FINAL WHERE is_deleted = 0 AND pubkey IN (",
    ")"]

/-! ## What is read of them -/

section Reading

variable (escapes : Escapes)

/-- Items with commas between them. -/
def comma_separated (items : List (List (Token Char))) : List (Token Char) :=
  List.intercalate [.symbol ','] items

def string_tokens (values : List String) : List (Token Char) :=
  comma_separated (values.map fun value => [.string value.toList])

def pair_tokens (pairs : List (String × String)) : List (Token Char) :=
  comma_separated (pairs.map fun pair => [.symbol '(', .string pair.1.toList, .symbol ',',
    .string pair.2.toList, .symbol ')'])

/-- The literal, on characters, is that of the general library. -/
theorem toList_sql_string_literal (value : String) :
    (sql_string_literal value).toList = Quoting.literal (clickhouse escapes) value.toList := by
  rw [sql_string_literal, replace_quotes, String.toList_append, String.toList_append]
  simp only [String.toList_ofList]
  rfl

variable {escapes}

/-- A text that is lexed on its own, and neither begins nor ends at a quote. -/
theorem outside_of {text : List Char} {read : List (Token Char)}
    (h : tokens (clickhouse escapes) text = some read) (hopens : text.head? ≠ some '\'')
    (hcloses : text.getLast? ≠ some '\'') : Outside (clickhouse escapes) text read :=
  ⟨h, hopens, hcloses⟩

theorem outside_comma : Outside (clickhouse escapes) ", ".toList [.symbol ','] :=
  outside_of rfl (by decide) (by decide)

/-- A literal is read as its value exactly where that has no backslash. -/
theorem reads_sql_string_literal (value : String) :
    Reads (clickhouse escapes) (Unquoted (clickhouse escapes)) (sql_string_literal value).toList
      [.string value.toList] ('\\' ∉ value.toList) := by
  rw [toList_sql_string_literal escapes]
  exact reads_literal value.toList

/-- A list is read as its values exactly where none has a backslash. -/
theorem reads_sql_string_list (values : List String) :
    Reads (clickhouse escapes) (Unquoted (clickhouse escapes)) (sql_string_list values).toList
      (string_tokens values) (∀ value ∈ values, '\\' ∉ value.toList) := by
  rw [sql_string_list, String.toList_intercalate, List.map_map]
  exact Reads.join outside_comma (by decide) fun value _ => reads_sql_string_literal value

/-- A pair is read as its two values between parentheses. -/
theorem reads_pair_literal (pair : String × String) :
    Reads (clickhouse escapes) (Unquoted (clickhouse escapes)) (pair_literal pair).toList
      [.symbol '(', .string pair.1.toList, .symbol ',', .string pair.2.toList, .symbol ')']
      ('\\' ∉ pair.1.toList ∧ '\\' ∉ pair.2.toList) := by
  have hopen : Outside (clickhouse escapes) "(".toList [.symbol '('] :=
    outside_of rfl (by decide) (by decide)
  have hclose : Outside (clickhouse escapes) ")".toList [.symbol ')'] :=
    outside_of rfl (by decide) (by decide)
  have hcomma : Outside (clickhouse escapes) ", ".toList [.symbol ','] := outside_comma
  have hfirst := (reads_sql_string_literal pair.1).then_outside hcomma (by decide)
  have hsecond := (reads_sql_string_literal pair.2).then_outside hclose (by decide)
  have hall := (hfirst.append hsecond fun _ _ => trivial).after_outside hopen
  rw [pair_literal]
  simp only [String.toList_append, List.append_assoc] at hall ⊢
  exact hall.mono fun _ _ => trivial

/-- And a list of pairs as that of their tokens. -/
theorem reads_pair_literals (pairs : List (String × String)) :
    Reads (clickhouse escapes) (Unquoted (clickhouse escapes))
      (", ".intercalate (pairs.map pair_literal)).toList (pair_tokens pairs)
      (∀ pair ∈ pairs, '\\' ∉ pair.1.toList ∧ '\\' ∉ pair.2.toList) := by
  rw [String.toList_intercalate, List.map_map]
  exact Reads.join outside_comma (by decide) fun pair _ => reads_pair_literal pair

end Reading

/-! ## The frames of the statements -/

/-- A name that is neither quoted nor a quote. -/
def PlainName (name : String) : Prop := name ≠ "" ∧ '\'' ∉ name.toList ∧ '\\' ∉ name.toList

instance : DecidablePred PlainName := fun name =>
  inferInstanceAs (Decidable (name ≠ "" ∧ '\'' ∉ name.toList ∧ '\\' ∉ name.toList))

/-- Plain names may be put together. -/
theorem PlainName.append {a b : String} (ha : PlainName a) (hb : PlainName b) :
    PlainName (a ++ b) := by
  refine ⟨fun h => ha.1 ?_, ?_, ?_⟩
  · exact (String.append_eq_empty_iff.mp h).1
  · rw [String.toList_append, List.mem_append, not_or]
    exact ⟨ha.2.1, hb.2.1⟩
  · rw [String.toList_append, List.mem_append, not_or]
    exact ⟨ha.2.2, hb.2.2⟩

/-- A plain name opens no quote. -/
theorem PlainName.balanced {name : String} (h : PlainName name) : Balanced '\'' '\\' name.toList :=
  .of_plain (fun hnil => h.1 (String.toList_eq_nil_iff.mp hnil)) h.2.1 h.2.2

theorem balanced_ofList {text : List Char} (h : Balanced '\'' '\\' text) :
    Balanced '\'' '\\' (String.ofList text).toList := by
  rwa [String.toList_ofList]

theorem balanced_append {a b : String} (ha : Balanced '\'' '\\' a.toList)
    (hb : Balanced '\'' '\\' b.toList) : Balanced '\'' '\\' (a ++ b).toList := by
  rw [String.toList_append]
  exact ha.append hb

/-- Nor does it in the middle of a text that closes what it opens. -/
theorem PlainName.balanced_between {name before after : String} (h : PlainName name)
    (hbefore : Balanced '\'' '\\' before.toList) (hafter : Balanced '\'' '\\' after.toList) :
    Balanced '\'' '\\' (before ++ name ++ after).toList :=
  balanced_append (balanced_append hbefore h.balanced) hafter

theorem plain_name_toString (n : ℕ) : PlainName (toString n) := by
  have hdigit : ∀ c ∈ (toString n).toList, c.isDigit = true := by
    intro c hc
    rw [Nat.toString_eq_ofList_toDigits, String.toList_ofList] at hc
    exact Nat.isDigit_of_mem_toDigits (by decide) (by decide) hc
  refine ⟨fun h => ?_, fun h => ?_, fun h => ?_⟩
  · have hnil := congrArg String.toList h
    rw [Nat.toString_eq_ofList_toDigits, String.toList_ofList] at hnil
    exact Nat.toDigits_ne_nil hnil
  · exact absurd (hdigit _ h) (by decide)
  · exact absurd (hdigit _ h) (by decide)

/-- The tables of both groups have plain names. -/
theorem plain_table (group : TableGroup) (base : String) (h : PlainName base) :
    PlainName (group.table base) := by
  cases group with
  | Active =>
      rw [TableGroup.table, TableGroup.suffix, String.append_empty]
      exact h
  | Backup => exact h.append (by decide)

/-- So have the temporary tables of the builds. -/
theorem plain_temporary_table (target : String) (h : PlainName target) (pid nanos : ℕ) :
    PlainName (temporary_table target pid nanos) :=
  ((h.append (by decide)).append (plain_name_toString pid)).append (by decide) |>.append
    (plain_name_toString nanos)

/-- And what a build reads from, with or without `FINAL`. -/
theorem plain_raw_source (group : TableGroup) (base : String) (h : PlainName base)
    (raw_is_full_baseline : Bool) : PlainName (raw_source group base raw_is_full_baseline) := by
  unfold raw_source
  split
  · exact plain_table group base h
  · exact (plain_table group base h).append (by decide)

variable (escapes : Escapes)

/-- The tokens of the statement are those of its values in the gaps of a fixed frame
exactly where no value has a backslash. -/
def KeepsStructure {β : Type} (sql : β → String) (values : β → List String)
    (read : β → List (Token Char)) : Prop :=
  ∃ frame : List (List (Token Char)), ∀ b,
    tokens (clickhouse escapes) (sql b).toList = some (List.intercalate (read b) frame) ↔
      ∀ value ∈ values b, '\\' ∉ value.toList

variable {escapes}

/-- A frame whose texts close their quotes keeps the structure of what is put into it, if
that is read for itself. -/
theorem keeps_structure {β : Type} {part : β → String} {values : β → List String}
    {read : β → List (Token Char)} {frame : List String}
    (hframe : ∀ text ∈ frame, Balanced '\'' '\\' text.toList) (hgap : 2 ≤ frame.length)
    (hpart : ∀ b, Reads (clickhouse escapes) (Unquoted (clickhouse escapes)) (part b).toList
      (read b) (∀ value ∈ values b, '\\' ∉ value.toList)) :
    KeepsStructure escapes (fun b => filled (part b) frame) values read := by
  have htexts : ∀ text ∈ frame.map String.toList, Balanced '\'' '\\' text := by
    intro text htext
    obtain ⟨piece, hpiece, rfl⟩ := List.mem_map.mp htext
    exact hframe piece hpiece
  obtain ⟨reads, hreads⟩ := exists_forall₂_outside (S := clickhouse escapes) htexts
  refine ⟨reads, fun b => ?_⟩
  change tokens _ ((part b).intercalate frame).toList = _ ↔ _
  rw [String.toList_intercalate]
  exact ((hpart b).frame hreads (fun text hmem => (htexts text hmem).ne_nil)
    (by rwa [List.length_map])).tokens_iff trivial

/-- The INSERT of the token info build keeps its structure. -/
theorem token_info_keeps_structure (group : TableGroup) (raw_is_full_baseline : Bool)
    (pid nanos : ℕ) : KeepsStructure escapes (token_info_sql group raw_is_full_baseline pid nanos)
      id string_tokens := by
  have htemporary := plain_temporary_table _
    (plain_table group "hot_token_info" (by decide)) pid nanos
  have hmint := plain_raw_source group "raw_token_mint" (by decide) raw_is_full_baseline
  have hmetadata := plain_raw_source group "raw_token_metadata" (by decide) raw_is_full_baseline
  refine keeps_structure ?_ (by simp) reads_sql_string_list
  simp only [List.forall_mem_cons]
  refine ⟨htemporary.balanced_between ?_ ?_, hmint.balanced_between ?_ ?_,
    hmetadata.balanced_between ?_ ?_, ?_, by simp⟩
  all_goals repeat' with_reducible refine balanced_append ?_ ?_
  all_goals
    apply balanced_ofList
    decide +kernel

/-- So does the query for the metadata rows to be merged. -/
theorem existing_metadata_keeps_structure (group : TableGroup) :
    KeepsStructure escapes (existing_metadata_sql group) id string_tokens := by
  have htable := plain_table group "raw_token_metadata" (by decide)
  refine keeps_structure ?_ (by simp) reads_sql_string_list
  simp only [List.forall_mem_cons]
  refine ⟨htable.balanced_between ?_ ?_, ?_, by simp⟩
  all_goals repeat' with_reducible refine balanced_append ?_ ?_
  all_goals
    apply balanced_ofList
    decide +kernel

/-- The mints and the owners of the pairs. -/
def pair_values (pairs : List (String × String)) : List String :=
  pairs.flatMap fun pair => [pair.1, pair.2]

theorem forall_mem_pair_values {pairs : List (String × String)} (P : String → Prop) :
    (∀ value ∈ pair_values pairs, P value) ↔ ∀ pair ∈ pairs, P pair.1 ∧ P pair.2 := by
  induction pairs with
  | nil => simp [pair_values]
  | cons pair pairs ih =>
      rw [List.forall_mem_cons, ← ih, and_assoc]
      exact List.forall_mem_cons.trans (and_congr_right fun _ => List.forall_mem_cons)

/-- So does the balance query. -/
theorem wallet_balance_keeps_structure (group : TableGroup) :
    KeepsStructure escapes (wallet_balance_sql group) pair_values pair_tokens := by
  have htable := plain_table group "hot_token_account_state" (by decide)
  unfold wallet_balance_sql incremental_wallet_balance_aggregate_sql
  refine keeps_structure ?_ (by simp) fun pairs =>
    (reads_pair_literals pairs).congr (forall_mem_pair_values fun value => '\\' ∉ value.toList).symm
  simp only [List.forall_mem_cons]
  refine ⟨htable.balanced_between ?_ ?_, ?_, by simp⟩
  all_goals repeat' with_reducible refine balanced_append ?_ ?_
  all_goals
    apply balanced_ofList
    decide +kernel

/-- So does the query for the rows of closed accounts. -/
theorem previous_rows_keeps_structure (group : TableGroup) :
    KeepsStructure escapes (previous_rows_sql group) id string_tokens := by
  have htable := plain_table group "hot_token_account_state" (by decide)
  refine keeps_structure ?_ (by simp) reads_sql_string_list
  simp only [List.forall_mem_cons]
  refine ⟨htable.balanced_between ?_ ?_, ?_, by simp⟩
  all_goals
    apply balanced_ofList
    decide +kernel

/-! ## The literals decode -/

/-- **SQL string literals decode to their values** exactly where these have no
backslash: alone, in a list, and in each of the statements they are written into. -/
theorem sql_strings_decode_iff (escapes : Escapes) :
    (∀ values : List String,
      tokens (clickhouse escapes) (sql_string_list values).toList = some (string_tokens values) ↔
        ∀ value ∈ values, '\\' ∉ value.toList) ∧
    (∀ (value : String) (rest : List Char), rest.head? = some ',' ∨ rest.head? = some ')' →
      (read_literal (clickhouse escapes) ((sql_string_literal value).toList ++ rest)
        = some (value.toList, rest) ↔ '\\' ∉ value.toList)) ∧
    ∀ group : TableGroup,
      (∀ raw_is_full_baseline pid nanos, KeepsStructure escapes
        (token_info_sql group raw_is_full_baseline pid nanos) id string_tokens) ∧
      KeepsStructure escapes (existing_metadata_sql group) id string_tokens ∧
      KeepsStructure escapes (wallet_balance_sql group) pair_values pair_tokens ∧
      KeepsStructure escapes (previous_rows_sql group) id string_tokens := by
  refine ⟨fun values => ?_, fun value rest hrest => ?_, fun group => ⟨?_, ?_, ?_, ?_⟩⟩
  · exact (reads_sql_string_list values).tokens_iff (by simp [Unquoted])
  · rw [toList_sql_string_literal escapes]
    apply read_literal_iff
    rcases hrest with h | h
    · rw [h]
      exact fun heq => absurd (Option.some.inj heq) (by decide : ',' ≠ '\'')
    · rw [h]
      exact fun heq => absurd (Option.some.inj heq) (by decide : ')' ≠ '\'')
  · exact token_info_keeps_structure group
  · exact existing_metadata_keeps_structure group
  · exact wallet_balance_keeps_structure group
  · exact previous_rows_keeps_structure group

/-- Base58 values decode. -/
theorem notMem_of_base58 {value : String} (h : Base58 value) : '\\' ∉ value.toList :=
  fun hmem => absurd (h _ hmem) (by decide)

/-- A backslash at the end of a mint takes the quote with it, and the literal does not
end. -/
theorem backslash_not_decoded : tokens (clickhouse .literal) (sql_string_list ["mint\\"]).toList
    ≠ some (string_tokens ["mint\\"]) := by
  decide +kernel

end SnapshotEtl
