/-
What a lane makes of one account.

Whatever branch the parser takes, an account leaves at most one row for the
token-account table, its pair beside it, or one close candidate, and never a row
and a candidate: a candidate is an account that unpacks as no token account. So
what an import reads of an archive is the list of its account versions, each with
its `hot_row`.
-/
import SnapshotEtl.GroupImport

set_option autoImplicit false

namespace SnapshotEtl

open Lib

/-! ## Versions and rows -/

/-- An account as it was written at a slot. -/
structure AccountVersion where
  slot : Slot
  account : StoredAccountMeta
deriving DecidableEq

def AccountVersion.pubkey (v : AccountVersion) : String :=
  pubkey_string v.account.stored_meta.pubkey

/-- The versions some storages hold, in the order they are parsed. -/
def versions (append_vecs : List AppendVec) : List AccountVersion :=
  append_vecs.flatMap fun av => av.accounts.map fun account => ⟨av.slot, account⟩

/-- The token account a version unpacks as, by the program that owns it. -/
def Decoders.token_account (dec : Decoders) (account : StoredAccountMeta) : Option TokenAccount :=
  if account.account_meta.owner = spl_token_id then
    if account.stored_meta.data_len = account_len then dec.unpack_account account.data else none
  else if account.account_meta.owner = token_2022_program_id then
    match dec.unpack_token_2022_base_state account.data with
    | some (.Account token_account) => some token_account
    | _ => none
  else none

/-- The row of a token account. -/
def TokenAccount.row (token_account : TokenAccount) (v : AccountVersion) : TokenAccountRow where
  pubkey := v.pubkey
  mint := pubkey_string token_account.mint
  owner := pubkey_string token_account.owner
  amount := token_account.amount
  delegate := token_account.delegate.map pubkey_string
  delegated_amount := token_account.delegated_amount
  state := token_account.state.as_u8
  close_authority := token_account.close_authority.map pubkey_string
  is_deleted := 0
  updated_slot := v.slot

/-- The row of a version that is a token account of a hot mint. -/
def Decoders.hot_row (dec : Decoders) (hot_mints : Finset String) (v : AccountVersion) :
    Option TokenAccountRow :=
  ((dec.token_account v.account).filter fun token_account =>
    pubkey_string token_account.mint ∈ hot_mints).map fun token_account => token_account.row v

/-- A version without lamports is a close candidate when it is the canonical
empty account, or when a token program owns it and it unpacks as nothing. -/
def Decoders.closes (dec : Decoders) (account : StoredAccountMeta) : Bool :=
  let owner := account.account_meta.owner
  is_close_tombstone_candidate account.account_meta.lamports &&
    (is_canonical_empty_account account.stored_meta.data_len account.account_meta.lamports owner
        account.account_meta.executable ||
      (owner = spl_token_id && account.stored_meta.data_len = account_len &&
        (dec.unpack_account account.data).isNone) ||
      (owner ≠ spl_token_id && owner = token_2022_program_id &&
        (dec.unpack_token_2022_base_state account.data).isNone &&
        (dec.parse_token_2022_metadata_value account.data).isNone))

/-- A hot row has the pubkey and the slot of its version, is live and of a hot mint. -/
theorem Decoders.hot_row_spec {dec : Decoders} {hot_mints : Finset String} {v : AccountVersion}
    {row : TokenAccountRow} (h : dec.hot_row hot_mints v = some row) :
    row.pubkey = v.pubkey ∧ row.updated_slot = v.slot ∧ row.is_deleted = 0 ∧ row.mint ≠ "" ∧
      row.owner ≠ "" := by
  obtain ⟨token_account, -, rfl⟩ := Option.map_eq_some_iff.mp h
  exact ⟨rfl, rfl, rfl, pubkey_string_ne_empty _, pubkey_string_ne_empty _⟩

/-- A canonical empty account has no lamports and the default owner. -/
theorem is_canonical_empty_account_owner {data_len lamports : ℕ} {owner : Pubkey}
    {executable : Bool} (h : is_canonical_empty_account data_len lamports owner executable = true) :
    lamports = 0 ∧ owner = .default := by
  simp only [is_canonical_empty_account, Bool.and_eq_true, decide_eq_true_eq] at h
  exact ⟨h.1.1.2, h.1.2⟩

/-- The default owner is no token program. -/
theorem spl_token_id_ne_default : spl_token_id ≠ .default := by decide

theorem token_2022_program_id_ne_default : token_2022_program_id ≠ .default := by decide

/-- An account of the default owner is no token account. -/
theorem token_account_of_default {dec : Decoders} {account : StoredAccountMeta}
    (h : account.account_meta.owner = .default) : dec.token_account account = none := by
  simp [Decoders.token_account, h, spl_token_id_ne_default.symm,
    token_2022_program_id_ne_default.symm]

/-- A close candidate is no token account. -/
theorem Decoders.token_account_of_closes {dec : Decoders} {account : StoredAccountMeta}
    (h : dec.closes account = true) : dec.token_account account = none := by
  simp only [closes, Bool.and_eq_true, Bool.or_eq_true, decide_eq_true_eq] at h
  rcases h.2 with (hempty | ⟨⟨hspl, hlen⟩, hnone⟩) | ⟨⟨⟨hspl, h2022⟩, hnone⟩, -⟩
  · exact token_account_of_default (is_canonical_empty_account_owner hempty).2
  · simpa [token_account, hspl, hlen] using hnone
  · have hbase : dec.unpack_token_2022_base_state account.data = none := by simpa using hnone
    rw [token_account, if_neg hspl, if_pos h2022, hbase]

/-- A version that closes an account has no hot row. -/
theorem Decoders.hot_row_of_closes {dec : Decoders} {hot_mints : Finset String}
    {v : AccountVersion} (h : dec.closes v.account = true) : dec.hot_row hot_mints v = none := by
  rw [hot_row, token_account_of_closes h]
  rfl

/-- A canonical empty account closes its pubkey. -/
theorem Decoders.closes_of_canonical_empty {dec : Decoders} {account : StoredAccountMeta}
    (h : is_canonical_empty_account account.stored_meta.data_len account.account_meta.lamports
      account.account_meta.owner account.account_meta.executable = true) :
    dec.closes account = true := by
  have hlamports : is_close_tombstone_candidate account.account_meta.lamports = true := by
    simpa [is_close_tombstone_candidate] using (is_canonical_empty_account_owner h).1
  simp [closes, hlamports, h]

/-! ## One account -/

/-- Operations that bear on the token-account table. -/
def LaneOp.on_state : LaneOp → Bool
  | .write (.token_account _) => true
  | .remember_affected_pair _ => true
  | .remember_close_candidate _ _ => true
  | _ => false

/-- Those of a lane, in order. -/
def state_ops (group : TableGroup) (ops : List ImportOp) : List LaneOp :=
  (on_lane group ops).filter LaneOp.on_state

section StateOps

variable (group : TableGroup)

@[simp] theorem state_ops_nil : state_ops group [] = [] := rfl

@[simp] theorem state_ops_count (counter : Counter) (ops : List ImportOp) :
    state_ops group (.count counter :: ops) = state_ops group ops := rfl

@[simp] theorem state_ops_lane (op : LaneOp) (ops : List ImportOp) :
    state_ops group (.lane group op :: ops)
      = if op.on_state then op :: state_ops group ops else state_ops group ops := by
  simp [state_ops, List.filter_cons]

@[simp] theorem state_ops_append (ops ops' : List ImportOp) :
    state_ops group (ops ++ ops') = state_ops group ops ++ state_ops group ops' := by
  simp [state_ops]

theorem state_ops_ite (p : Prop) [Decidable p] (ops ops' : List ImportOp) :
    state_ops group (if p then ops else ops')
      = if p then state_ops group ops else state_ops group ops' :=
  apply_ite (state_ops group) p ops ops'

/-- The L2 operations of a run of parts are those of the parts, in order. -/
theorem state_ops_flatMap {α : Type*} (xs : List α) (f : α → List ImportOp) :
    state_ops group (xs.flatMap f) = xs.flatMap fun x => state_ops group (f x) := by
  simp [state_ops, on_lane_flatMap, List.filter_flatMap]

end StateOps

namespace Worker

variable (dec : Decoders) (w : Worker)

/-- The row the worker writes of a version. -/
def written_row (v : AccountVersion) : Option TokenAccountRow :=
  (dec.hot_row w.hot_mints v).filter fun row =>
    w.zero_balance_token_account_policy.writes_live_amount row.amount

/-- The candidate it remembers. -/
def close_ops (v : AccountVersion) : List LaneOp :=
  if w.collect_close_tombstones && dec.closes v.account then
    [.remember_close_candidate v.pubkey v.slot]
  else []

/-- The row and its pair. -/
def row_ops (row : Option TokenAccountRow) : List LaneOp :=
  row.toList.flatMap fun row =>
    (if w.collect_affected_pairs then [.remember_affected_pair row.pair] else []) ++
      [.write (.token_account row)]

/-- A close candidate is one L2 operation, where the worker collects them. -/
theorem state_ops_record_close_candidate (v : AccountVersion) :
    state_ops w.group (w.record_close_candidate v.account v.slot)
      = if w.collect_close_tombstones &&
            is_close_tombstone_candidate v.account.account_meta.lamports then
          [.remember_close_candidate v.pubkey v.slot] else [] := by
  rw [record_close_candidate, state_ops_ite]
  congr 1
  simp [LaneOp.on_state, AccountVersion.pubkey]

/-- A token account is written where its mint is hot and the policy keeps it. -/
theorem state_ops_write_hot_token_account_row (v : AccountVersion) (token_account : TokenAccount) :
    state_ops w.group (if pubkey_string token_account.mint ∈ w.hot_mints then
        w.write_hot_token_account_row v.account v.slot (pubkey_string token_account.mint)
          (pubkey_string token_account.owner) token_account.amount
          (token_account.delegate.map pubkey_string) token_account.delegated_amount
          token_account.state.as_u8 (token_account.close_authority.map pubkey_string)
      else [])
      = w.row_ops (((some token_account).filter fun token_account =>
          pubkey_string token_account.mint ∈ w.hot_mints).map (fun token_account =>
            token_account.row v) |>.filter fun row =>
              w.zero_balance_token_account_policy.writes_live_amount row.amount) := by
  by_cases hhot : pubkey_string token_account.mint ∈ w.hot_mints
  · by_cases hamount :
      w.zero_balance_token_account_policy.writes_live_amount token_account.amount = true
    · by_cases hpairs : w.collect_affected_pairs = true
      · simp [hhot, hamount, hpairs, row_ops, write_hot_token_account_row, remember_affected_pair,
          TokenAccount.row, TokenAccountRow.pair, LaneOp.on_state, Option.filter_some,
          AccountVersion.pubkey]
      · simp [hhot, hamount, hpairs, row_ops, write_hot_token_account_row, remember_affected_pair,
          TokenAccount.row, LaneOp.on_state, Option.filter_some,
          AccountVersion.pubkey]
    · simp [hhot, hamount, row_ops, write_hot_token_account_row, TokenAccount.row,
        Option.filter_some]
  · simp [hhot, row_ops, Option.filter_some]

/-- Metadata patches are no L2 operation. -/
theorem state_ops_record_token_2022_metadata (metadata : Token2022Metadata)
    (expected_mint : Option Pubkey) (slot : Slot) (source : MetadataSource) (account : String) :
    state_ops w.group (w.record_token_2022_metadata metadata expected_mint slot source account).1
      = [] := by
  unfold record_token_2022_metadata
  split
  · rfl
  · dsimp only
    split
    · rfl
    · simp [LaneOp.on_state]

/-- Nor is token metadata. -/
theorem state_ops_insert_token_metadata (account : StoredAccountMeta) (slot : Slot) :
    state_ops w.group (w.insert_token_metadata dec account slot) = [] := by
  unfold insert_token_metadata
  split
  · rfl
  · split
    · rfl
    · simp [LaneOp.on_state]

/-- What an account leaves under `spl_token`. -/
theorem state_ops_insert_spl_token (v : AccountVersion)
    (hspl : v.account.account_meta.owner = spl_token_id) :
    state_ops w.group (w.insert_spl_token dec v.account v.slot)
      = w.close_ops dec v ++ w.row_ops (w.written_row dec v) := by
  have hdefault := spl_token_id_ne_default
  have hcloses : dec.closes v.account
      = (is_close_tombstone_candidate v.account.account_meta.lamports &&
        (decide (v.account.stored_meta.data_len = account_len) &&
          (dec.unpack_account v.account.data).isNone)) := by
    simp [Decoders.closes, is_canonical_empty_account, hspl, hdefault]
  unfold insert_spl_token close_ops written_row Decoders.hot_row
  rw [hcloses, Decoders.token_account, if_pos hspl]
  -- by the length of the data: an account, a mint, or something else
  by_cases haccount : v.account.stored_meta.data_len = account_len
  · simp only [haccount, if_true, decide_true, Bool.true_and]
    cases hunpack : dec.unpack_account v.account.data with
    | some token_account =>
        dsimp only
        rw [state_ops_append, state_ops_write_hot_token_account_row]
        simp
    | none =>
        dsimp only
        rw [state_ops_count, state_ops_record_close_candidate]
        simp [row_ops]
  · simp only [haccount, if_false, decide_false, Bool.false_and, Bool.and_false]
    by_cases hmint : v.account.stored_meta.data_len = mint_len
    · simp only [hmint, if_true]
      cases dec.unpack_mint v.account.data with
      | some token_mint =>
          dsimp only
          rw [state_ops_append, state_ops_ite]
          simp [LaneOp.on_state, row_ops]
      | none => simp [row_ops]
    · simp [hmint, row_ops]

/-- And under Token-2022. -/
theorem state_ops_insert_token_2022 (v : AccountVersion)
    (hspl : v.account.account_meta.owner ≠ spl_token_id)
    (h2022 : v.account.account_meta.owner = token_2022_program_id) :
    state_ops w.group (w.insert_token_2022 dec v.account v.slot)
      = w.close_ops dec v ++ w.row_ops (w.written_row dec v) := by
  have hdefault := token_2022_program_id_ne_default
  -- an account of this program is not the canonical empty one
  have hcloses : dec.closes v.account
      = (is_close_tombstone_candidate v.account.account_meta.lamports &&
        ((dec.unpack_token_2022_base_state v.account.data).isNone &&
          (dec.parse_token_2022_metadata_value v.account.data).isNone)) := by
    rw [h2022] at hspl
    simp [Decoders.closes, is_canonical_empty_account, h2022, hspl, hdefault]
  unfold insert_token_2022 close_ops written_row Decoders.hot_row
  rw [hcloses, Decoders.token_account, if_neg hspl, if_pos h2022]
  cases hbase : dec.unpack_token_2022_base_state v.account.data with
  | some base =>
      cases base with
      | Account token_account =>
          dsimp only
          rw [state_ops_append, state_ops_write_hot_token_account_row]
          simp
      | Mint token_mint =>
          dsimp only
          rw [state_ops_append, state_ops_ite]
          cases dec.parse_token_2022_mint_extensions v.account.data with
          | none => simp [LaneOp.on_state, row_ops]
          | some parsed =>
              cases hmetadata : parsed.token_metadata with
              | none => simp [hmetadata, LaneOp.on_state, row_ops]
              | some metadata =>
                  simp [hmetadata, LaneOp.on_state, row_ops, state_ops_record_token_2022_metadata]
  | none =>
      cases hvalue : dec.parse_token_2022_metadata_value v.account.data with
      | some metadata =>
          dsimp only
          rw [state_ops_append, state_ops_append, state_ops_record_token_2022_metadata,
            state_ops_ite]
          simp [row_ops]
      | none =>
          dsimp only
          rw [state_ops_count, state_ops_record_close_candidate]
          simp [row_ops]

/-- **What an account leaves.** Its close candidate, or its pair and its row. -/
theorem state_ops_insert_account (v : AccountVersion) :
    state_ops w.group (w.insert_account dec v.account v.slot)
      = w.close_ops dec v ++ w.row_ops (w.written_row dec v) := by
  unfold insert_account
  dsimp only
  simp only [state_ops_append, state_ops_lane, state_ops_count, state_ops_nil, state_ops_ite,
    state_ops_insert_token_metadata, LaneOp.on_state, ite_self, List.append_nil, List.nil_append,
    Bool.false_eq_true, if_false]
  -- by the owner of the account
  by_cases hspl : v.account.account_meta.owner = spl_token_id
  · have hempty : is_canonical_empty_account v.account.stored_meta.data_len
        v.account.account_meta.lamports v.account.account_meta.owner
        v.account.account_meta.executable = false := by
      simp [is_canonical_empty_account, hspl, spl_token_id_ne_default]
    rw [hempty, if_pos hspl, w.state_ops_insert_spl_token dec v hspl]
    simp
  · rw [if_neg hspl]
    by_cases h2022 : v.account.account_meta.owner = token_2022_program_id
    · have hempty : is_canonical_empty_account v.account.stored_meta.data_len
          v.account.account_meta.lamports v.account.account_meta.owner
          v.account.account_meta.executable = false := by
        simp [is_canonical_empty_account, h2022, token_2022_program_id_ne_default]
      rw [hempty, if_pos h2022, w.state_ops_insert_token_2022 dec v hspl h2022]
      simp
    · -- no token program owns it, so only the canonical empty account is a candidate
      rw [if_neg h2022, state_ops_record_close_candidate, close_ops, written_row, Decoders.hot_row,
        Decoders.token_account, if_neg hspl, if_neg h2022, Decoders.closes]
      simp only [hspl, h2022, decide_false, Bool.false_and, Bool.and_false, Bool.or_false,
        Option.filter_none, Option.map_none, row_ops, Option.toList_none, List.flatMap_nil,
        List.append_nil]
      cases w.collect_close_tombstones <;>
        cases is_close_tombstone_candidate v.account.account_meta.lamports <;> simp

/-- What the storages leave, version by version. -/
theorem state_ops_on_delivered (append_vecs : List AppendVec) :
    state_ops w.group (append_vecs.flatMap (w.on_delivered dec))
      = (versions append_vecs).flatMap fun v =>
          w.close_ops dec v ++ w.row_ops (w.written_row dec v) := by
  rw [state_ops_flatMap, versions, List.flatMap_assoc]
  congr 1
  funext av
  have hcount : state_ops w.group (if av.accounts.length = 0 then
      [.count .nonempty_zero_account_append_vecs] else []) = [] := by
    split <;> rfl
  simp only [on_delivered, on_append_vec_count, List.cons_append, state_ops_count,
    state_ops_append, state_ops_flatMap, hcount, state_ops_nil, List.append_nil]
  rw [List.flatMap_map]
  exact List.flatMap_congr fun account _ => w.state_ops_insert_account dec ⟨av.slot, account⟩

end Worker

/-! ## The lane -/

/-- The row an operation writes to the table. -/
def LaneOp.token_account_row : LaneOp → Option TokenAccountRow
  | .write (.token_account row) => some row
  | _ => none

/-- The candidate it remembers. -/
def LaneOp.close_candidate : LaneOp → Option (String × Slot)
  | .remember_close_candidate pubkey slot => some (pubkey, slot)
  | _ => none

/-- The rows of a lane for the table. -/
theorem lane_state_token_account_rows (group : TableGroup) (ops : List ImportOp) :
    token_account_rows (lane_state group ops).rows
      = (state_ops group ops).filterMap LaneOp.token_account_row := by
  rw [lane_state, lane_state_foldl_rows, LaneState.empty, List.nil_append, token_account_rows,
    List.filterMap_filterMap, state_ops, List.filterMap_filter]
  refine List.filterMap_congr fun op _ => ?_
  cases op with
  | write row => cases row <;> rfl
  | _ => rfl

/-- A pair is affected when it was before or when an operation remembers it. -/
theorem foldl_affected_pairs (ops : List LaneOp) (s : LaneState) (pair : TokenPair) :
    pair ∈ (ops.foldl LaneState.step s).affected_pairs ↔
      pair ∈ s.affected_pairs ∨ .remember_affected_pair pair ∈ ops := by
  induction ops generalizing s with
  | nil => simp
  | cons op ops ih =>
      rw [List.foldl_cons, ih]
      cases op <;> simp [LaneState.step]
      tauto

/-- Its affected pairs. -/
theorem mem_lane_state_affected_pairs {group : TableGroup} {ops : List ImportOp}
    {pair : TokenPair} : pair ∈ (lane_state group ops).affected_pairs ↔
      .remember_affected_pair pair ∈ state_ops group ops := by
  rw [lane_state, foldl_affected_pairs, state_ops, List.mem_filter]
  simp [LaneState.empty, LaneOp.on_state]

/-- The candidates after a run of operations: each pubkey at the greatest slot remembered.
-/
theorem foldl_closed_token_accounts (ops : List LaneOp) (s : LaneState) :
    (ops.foldl LaneState.step s).closed_token_accounts
      = (ops.filterMap LaneOp.close_candidate).foldl (fun m e => keep_max m e.1 e.2)
        s.closed_token_accounts := by
  induction ops generalizing s with
  | nil => rfl
  | cons op ops ih =>
      rw [List.foldl_cons, ih]
      cases op <;> rfl

/-- Its close candidates. -/
theorem lane_state_closed (group : TableGroup) (ops : List ImportOp) :
    (lane_state group ops).closed_token_accounts
      = ((state_ops group ops).filterMap LaneOp.close_candidate).foldl
        (fun m e => keep_max m e.1 e.2) ∅ := by
  rw [lane_state, foldl_closed_token_accounts, state_ops, List.filterMap_filter]
  congr 1
  refine List.filterMap_congr fun op _ => ?_
  cases op with
  | write row => cases row <;> rfl
  | _ => rfl

namespace Worker

variable {dec : Decoders} {w : Worker} {append_vecs : List AppendVec}

/-- The token-account rows of a lane, in order. -/
theorem lane_token_account_rows : token_account_rows (w.lane dec append_vecs).rows
    = (versions append_vecs).filterMap (w.written_row dec) := by
  rw [lane, lane_state_token_account_rows, state_ops_on_delivered, List.filterMap_flatMap,
    List.filterMap_eq_flatMap_toList]
  refine List.flatMap_congr fun v _ => ?_
  rw [close_ops, row_ops]
  cases w.written_row dec v with
  | none => split <;> rfl
  | some row => split <;> split <;> rfl

/-- The pairs it remembers. -/
theorem mem_lane_affected_pairs {pair : TokenPair} :
    pair ∈ (w.lane dec append_vecs).affected_pairs ↔ w.collect_affected_pairs = true ∧
      ∃ v ∈ versions append_vecs, ∃ row, w.written_row dec v = some row ∧ row.pair = pair := by
  have hone : ∀ v,
      .remember_affected_pair pair ∈ w.close_ops dec v ++ w.row_ops (w.written_row dec v)
      ↔ w.collect_affected_pairs = true ∧ ∃ row, w.written_row dec v = some row ∧
        row.pair = pair := by
    intro v
    rw [close_ops, row_ops]
    cases w.written_row dec v with
    | none => split <;> simp
    | some row =>
        cases w.collect_affected_pairs with
        | true => split <;> simp [eq_comm]
        | false => split <;> simp
  rw [lane, mem_lane_state_affected_pairs, state_ops_on_delivered, List.mem_flatMap]
  simp only [hone]
  constructor
  · rintro ⟨v, hv, hcollect, hrow⟩
    exact ⟨hcollect, v, hv, hrow⟩
  · rintro ⟨hcollect, v, hv, hrow⟩
    exact ⟨v, hv, hcollect, hrow⟩

/-- The closes of some versions. -/
def close_entries (dec : Decoders) (w : Worker) (vs : List AccountVersion) : List (String × Slot) :=
  (vs.filter fun v => w.collect_close_tombstones && dec.closes v.account).map fun v =>
    (v.pubkey, v.slot)

/-- A remembered candidate is a version that closes, on a worker that collects. -/
theorem mem_close_entries {vs : List AccountVersion} {pubkey : String} {slot : Slot} :
    (pubkey, slot) ∈ close_entries dec w vs ↔ w.collect_close_tombstones = true ∧
      ∃ v ∈ vs, dec.closes v.account = true ∧ v.pubkey = pubkey ∧ v.slot = slot := by
  simp only [close_entries, List.mem_map, List.mem_filter, Bool.and_eq_true, Prod.mk.injEq]
  constructor
  · rintro ⟨v, ⟨hv, hcollect, hcloses⟩, hkey, hslot⟩
    exact ⟨hcollect, v, hv, hcloses, hkey, hslot⟩
  · rintro ⟨hcollect, v, hv, hcloses, hkey, hslot⟩
    exact ⟨v, ⟨hv, hcollect, hcloses⟩, hkey, hslot⟩

/-- The close candidates: per pubkey the newest of them. -/
theorem lane_closed : (w.lane dec append_vecs).closed_token_accounts
    = (close_entries dec w (versions append_vecs)).foldl (fun m e => keep_max m e.1 e.2) ∅ := by
  rw [lane, lane_state_closed, state_ops_on_delivered, List.filterMap_flatMap]
  congr 1
  rw [close_entries, ← List.filterMap_eq_map, List.filterMap_filter,
    List.filterMap_eq_flatMap_toList]
  refine List.flatMap_congr fun v _ => ?_
  rw [close_ops, row_ops]
  cases w.written_row dec v with
  | none => cases w.collect_close_tombstones && dec.closes v.account <;> rfl
  | some row =>
      cases w.collect_close_tombstones && dec.closes v.account <;>
        cases w.collect_affected_pairs <;> rfl

/-- A candidate is a version of the archive, and no later one closes. -/
theorem lane_closed_lookup {pubkey : String} {slot : Slot}
    (h : (w.lane dec append_vecs).closed_token_accounts.lookup pubkey = some slot) :
    (∃ v ∈ versions append_vecs, dec.closes v.account = true ∧ v.pubkey = pubkey ∧
        v.slot = slot) ∧
      ∀ v ∈ versions append_vecs, dec.closes v.account = true → v.pubkey = pubkey →
        v.slot ≤ slot := by
  have hspec := lookup_foldl_keep_max (close_entries dec w (versions append_vecs)) pubkey
  rw [← lane_closed, h] at hspec
  obtain ⟨hcollect, hv⟩ := mem_close_entries.mp hspec.1
  exact ⟨hv, fun v hv hcloses hkey =>
    hspec.2 v.slot (mem_close_entries.mpr ⟨hcollect, v, hv, hcloses, hkey, rfl⟩)⟩

/-- A version that closes is a candidate. -/
theorem exists_lane_closed {v : AccountVersion} (hcollect : w.collect_close_tombstones = true)
    (hv : v ∈ versions append_vecs) (hcloses : dec.closes v.account = true) :
    ∃ slot, (w.lane dec append_vecs).closed_token_accounts.lookup v.pubkey = some slot := by
  have hspec := lookup_foldl_keep_max (close_entries dec w (versions append_vecs)) v.pubkey
  rw [← lane_closed] at hspec
  cases hlookup : (w.lane dec append_vecs).closed_token_accounts.lookup v.pubkey with
  | some slot => exact ⟨slot, rfl⟩
  | none =>
      rw [hlookup] at hspec
      exact absurd (mem_close_entries.mpr ⟨hcollect, v, hv, hcloses, rfl, rfl⟩) (hspec v.slot)

end Worker

end SnapshotEtl
