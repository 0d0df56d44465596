/-
`solana-opcode-stats`: the opcodes of a program's text section, counted.

The loop decodes one instruction after another, each of one slot of eight bytes or,
for `LD_DW_IMM`, of two. The loader is told not to reject broken programs and no
verifier has seen the text, so any bytes can come. A wide instruction in the last
slot is one the loop has no branch for: the second half of it is sliced off the end.
Whether the loop meets one there is decided by the slots at the end of the section:
everything before them is left with a boundary behind it either way.
-/
import Mathlib.Algebra.BigOperators.Fin
import Mathlib.Algebra.Order.BigOperators.Group.Finset
import Mathlib.Data.UInt

set_option autoImplicit false

namespace SnapshotEtl

/-! ## The counts -/

structure OpcodeStat where
  num_programs : ℕ := 0
  num_instructions : ℕ := 0
deriving DecidableEq, Repr

abbrev OpcodeStats : Type := Fin 0x100 → OpcodeStat

namespace OpcodeStats

def default : OpcodeStats := fun _ => {}

/-- What one instruction does to the statistics. -/
def count (stats : OpcodeStats) (opc : UInt8) : OpcodeStats :=
  Function.update stats opc.toFin
    ⟨(stats opc.toFin).num_programs ||| 1, (stats opc.toFin).num_instructions + 1⟩

def num_instructions (stats : OpcodeStats) : ℕ := ∑ i, (stats i).num_instructions

theorem num_instructions_default : default.num_instructions = 0 := by
  simp [num_instructions, default]

/-- A counted opcode is one more instruction. -/
theorem num_instructions_count (stats : OpcodeStats) (opc : UInt8) :
    (stats.count opc).num_instructions = stats.num_instructions + 1 := by
  have hrest : ∀ i ∈ (Finset.univ.erase opc.toFin),
      (stats.count opc i).num_instructions = (stats i).num_instructions := by
    intro i hi
    rw [count, Function.update_of_ne (Finset.ne_of_mem_erase hi)]
  rw [num_instructions, num_instructions,
    ← Finset.add_sum_erase Finset.univ _ (Finset.mem_univ opc.toFin),
    ← Finset.add_sum_erase Finset.univ (fun i => (stats i).num_instructions)
      (Finset.mem_univ opc.toFin), Finset.sum_congr rfl hrest, count, Function.update_self]
  exact Nat.add_right_comm _ 1 _

/-- Each opcode is counted under its own number. -/
theorem count_apply (stats : OpcodeStats) (opc opc' : UInt8) :
    (stats.count opc opc'.toFin).num_instructions
      = (stats opc'.toFin).num_instructions + if opc = opc' then 1 else 0 := by
  by_cases h : opc = opc'
  · subst h
    simp [count]
  · have hne : opc'.toFin ≠ opc.toFin := fun heq => h (UInt8.toFin_inj.mp heq).symm
    rw [count, Function.update_of_ne hne, if_neg h]
    rfl

end OpcodeStats

/-! ## The loop -/

/-- A decoded instruction, as far as the loop looks at it. -/
structure Insn where
  opc : UInt8

/-- What the loop uses of `solana_rbpf::ebpf`. -/
structure Ebpf where
  LD_DW_IMM : UInt8
  get_insn : List UInt8 → ℕ → Insn

/-- The opcode of an instruction is the first byte of its slot. -/
def Ebpf.ReadsOpcode (ebpf : Ebpf) : Prop :=
  ∀ text : List UInt8, 8 ≤ text.length → text.head? = some (ebpf.get_insn text 0).opc

/-- A slice that starts beyond the end. -/
inductive Panic
  | slice_start_index_len_fail (index len : ℕ)
deriving DecidableEq, Repr

namespace OpcodeStats

variable (ebpf : Ebpf)

def op_size (opc : UInt8) : ℕ := if opc ≠ ebpf.LD_DW_IMM then 8 else 16

/-- Every instruction takes up bytes, so the scan ends. -/
theorem op_size_pos (opc : UInt8) : 0 < op_size ebpf opc := by
  unfold op_size
  split <;> decide

/-- The loop of `from_program`, from the text that is left and the counts so far. -/
def scan (text_bytes : List UInt8) (stats : OpcodeStats) : Except Panic OpcodeStats :=
  if text_bytes = [] then
    .ok stats
  else
    let opc := (ebpf.get_insn text_bytes 0).opc
    if op_size ebpf opc ≤ text_bytes.length then
      scan (text_bytes.drop (op_size ebpf opc)) (stats.count opc)
    else
      .error (.slice_start_index_len_fail (op_size ebpf opc) text_bytes.length)
termination_by text_bytes.length
decreasing_by
  have hpos := op_size_pos ebpf (ebpf.get_insn text_bytes 0).opc
  have hle : op_size ebpf (ebpf.get_insn text_bytes 0).opc ≤ text_bytes.length := ‹_›
  rw [List.length_drop]
  omega

/-- `from_program`, from the text section of the program. -/
def from_program (text_bytes : List UInt8) : Except Panic OpcodeStats :=
  scan ebpf text_bytes default

variable {ebpf}

theorem scan_nil (stats : OpcodeStats) : scan ebpf [] stats = .ok stats := by
  rw [scan, if_pos rfl]

/-- One instruction: it is counted and stepped over, or it does not fit. -/
theorem scan_insn {text : List UInt8} (stats : OpcodeStats) (hne : text ≠ []) {opc : UInt8}
    (hopc : (ebpf.get_insn text 0).opc = opc) :
    scan ebpf text stats =
      if op_size ebpf opc ≤ text.length then
        scan ebpf (text.drop (op_size ebpf opc)) (stats.count opc)
      else .error (.slice_start_index_len_fail (op_size ebpf opc) text.length) := by
  rw [scan, if_neg hne]
  subst hopc
  rfl

/-- **The accounts.** Every slot of a text that is scanned to its end belongs to an
instruction, and two of them to a wide one. -/
theorem scan_accounts {text : List UInt8} {stats result : OpcodeStats}
    (h : scan ebpf text stats = .ok result) :
    8 * result.num_instructions + 8 * (result ebpf.LD_DW_IMM.toFin).num_instructions
      = 8 * stats.num_instructions + 8 * (stats ebpf.LD_DW_IMM.toFin).num_instructions
        + text.length := by
  induction hlen : text.length using Nat.strongRecOn generalizing text stats with
  | ind n ih =>
      by_cases hne : text = []
      · subst hne
        rw [scan_nil] at h
        obtain rfl := Except.ok.inj h
        rw [← hlen, List.length_nil, Nat.add_zero]
      · rw [scan_insn stats hne rfl] at h
        split at h
        · rename_i hle
          have hpos := op_size_pos ebpf (ebpf.get_insn text 0).opc
          have hrest := ih _ (by rw [List.length_drop]; omega) h rfl
          rw [hrest, num_instructions_count, count_apply, List.length_drop]
          -- one instruction, counted once more if it is a wide one
          unfold op_size at hle ⊢
          split at hle <;> split <;> simp_all <;> omega
        · cases h

/-! ## The slots -/

/-- The first byte of every slot. -/
def opcodes (text : List UInt8) : List UInt8 :=
  (List.range (text.length / 8)).map fun i => text.getD (8 * i) 0

/-- The first opcode of a text and those of the rest. -/
theorem opcodes_cons {text : List UInt8} {opc : UInt8} (h : 8 ≤ text.length)
    (hopc : text.head? = some opc) : opcodes text = opc :: opcodes (text.drop 8) := by
  have hlen : text.length / 8 = (text.drop 8).length / 8 + 1 := by
    rw [List.length_drop]
    omega
  have hfirst : text.getD (8 * 0) 0 = opc := by
    rw [List.head?_eq_getElem?] at hopc
    rw [List.getD_eq_getElem?_getD, Nat.mul_zero, hopc]
    rfl
  rw [opcodes, hlen, List.range_succ_eq_map, List.map_cons, hfirst, List.map_map, opcodes]
  congr 1
  apply List.map_congr_left
  intro i _
  rw [Function.comp_apply, List.getD_eq_getElem?_getD, List.getD_eq_getElem?_getD,
    List.getElem?_drop, Nat.mul_succ, Nat.add_comm]

/-- How many slots at the end look like wide instructions, without a gap. -/
def wide_tail (wide : UInt8) (opcodes : List UInt8) : ℕ :=
  (opcodes.reverse.takeWhile (· = wide)).length

theorem wide_tail_le (wide : UInt8) (ops : List UInt8) : wide_tail wide ops ≤ ops.length := by
  have hle : wide_tail wide ops ≤ ops.reverse.length := (List.takeWhile_sublist _).length_le
  rwa [List.length_reverse] at hle

/-- The wide tail of a list with one more opcode in front. -/
theorem wide_tail_cons (wide opc : UInt8) (ops : List UInt8) :
    wide_tail wide (opc :: ops) =
      if wide_tail wide ops = ops.length then ops.length + if opc = wide then 1 else 0
      else wide_tail wide ops := by
  rw [wide_tail, List.reverse_cons, List.takeWhile_append, List.length_reverse, ← wide_tail]
  split
  · rw [List.length_append, List.length_reverse]
    by_cases hopc : opc = wide <;> simp [hopc]
  · rfl

/-- A narrow instruction ends every run before it. -/
theorem even_wide_tail_narrow {wide opc : UInt8} (h : opc ≠ wide) (ops : List UInt8) :
    Even (wide_tail wide (opc :: ops)) ↔ Even (wide_tail wide ops) := by
  rw [wide_tail_cons, if_neg h]
  split <;> simp_all

/-- A wide one takes two slots: where the second starts a run of the whole rest, two
are gone from it, and where it ends a run, none is. -/
theorem even_wide_tail_wide (wide opc : UInt8) (ops : List UInt8) :
    Even (wide_tail wide (wide :: opc :: ops)) ↔ Even (wide_tail wide ops) := by
  have hle := wide_tail_le wide ops
  rw [wide_tail_cons wide wide, wide_tail_cons wide opc, List.length_cons]
  by_cases hall : wide_tail wide ops = ops.length
  · by_cases hopc : opc = wide
    · simp [hall, hopc, Nat.even_add_one]
    · simp [hall, hopc]
  · rw [if_neg hall, if_neg (by omega)]

/-! ## Where the scan ends -/

/-- **The end of the text.** A text of whole slots is scanned to its end exactly where
the wide opcodes in its last slots come in pairs. -/
theorem scan_ok_iff (h : ebpf.ReadsOpcode) {text : List UInt8} (hslots : 8 ∣ text.length)
    (stats : OpcodeStats) :
    (∃ result, scan ebpf text stats = .ok result) ↔
      Even (wide_tail ebpf.LD_DW_IMM (opcodes text)) := by
  induction hlen : text.length using Nat.strongRecOn generalizing text stats with
  | ind n ih =>
      by_cases hne : text = []
      · subst hne
        rw [scan_nil]
        simp [opcodes, wide_tail]
      · have hpos := List.length_pos_of_ne_nil hne
        have hfull : 8 ≤ text.length := Nat.le_of_dvd hpos hslots
        have hdrop : 8 ∣ (text.drop 8).length := by
          rw [List.length_drop]
          exact Nat.dvd_sub hslots (Nat.dvd_refl 8)
        have hcons := opcodes_cons hfull (h text hfull)
        rw [scan_insn stats hne rfl, hcons]
        -- a wide instruction takes two slots, any other one
        by_cases hwide : (ebpf.get_insn text 0).opc = ebpf.LD_DW_IMM
        · have hsize : op_size ebpf (ebpf.get_insn text 0).opc = 16 := by simp [op_size, hwide]
          rw [hsize]
          by_cases hlast : text.length = 8
          · -- the last slot: its second half is not there
            have hrest : text.drop 8 = [] := List.drop_eq_nil_of_le hlast.le
            rw [if_neg (by omega), hrest, hwide]
            simp [opcodes, wide_tail]
          · have hnext : 8 ≤ (text.drop 8).length := by
              rw [List.length_drop] at hdrop ⊢
              exact Nat.le_of_dvd (by omega) hdrop
            have hdrop' : 8 ∣ (text.drop 16).length := by
              rw [List.length_drop] at hdrop ⊢
              omega
            rw [if_pos (by rw [List.length_drop] at hnext; omega),
              ih _ (by rw [List.length_drop]; omega) hdrop' _ rfl,
              opcodes_cons hnext (h _ hnext), List.drop_drop, hwide, even_wide_tail_wide]
        · have hsize : op_size ebpf (ebpf.get_insn text 0).opc = 8 := by simp [op_size, hwide]
          rw [hsize, if_pos hfull, ih _ (by rw [List.length_drop]; omega) hdrop _ rfl,
            even_wide_tail_narrow hwide]

/-- **The scan stays in bounds and accounts for every slot** of a text of whole slots
exactly where the wide opcodes in its last slots come in pairs. -/
theorem from_program_accounts_iff (h : ebpf.ReadsOpcode) {text : List UInt8}
    (hslots : 8 ∣ text.length) :
    (∃ stats, from_program ebpf text = .ok stats ∧
      8 * stats.num_instructions + 8 * (stats ebpf.LD_DW_IMM.toFin).num_instructions
        = text.length) ↔
      Even (wide_tail ebpf.LD_DW_IMM (opcodes text)) := by
  rw [← scan_ok_iff h hslots default]
  constructor
  · rintro ⟨stats, hscan, -⟩
    exact ⟨stats, hscan⟩
  · rintro ⟨stats, hscan⟩
    refine ⟨stats, hscan, ?_⟩
    rw [scan_accounts hscan, num_instructions_default]
    simp [default]

/-- The decoder of the instruction set, at the first slot. -/
def sbf : Ebpf where
  LD_DW_IMM := 0x18
  get_insn text pc := ⟨text.getD (8 * pc) 0⟩

/-- The real decoder reads the opcode from the first byte. -/
theorem sbf_reads_opcode : sbf.ReadsOpcode := by
  intro text h
  cases text with
  | nil => simp at h
  | cons byte text => rfl

/-- `LD_DW_IMM` over two slots, then `EXIT`. -/
theorem from_program_accounts_wide_exit :
    ∃ stats, from_program sbf
        [0x18, 0, 0, 0, 0, 0, 0, 0, 0, 0, 0, 0, 0, 0, 0, 0, 0x95, 0, 0, 0, 0, 0, 0, 0] = .ok stats ∧
      8 * stats.num_instructions + 8 * (stats sbf.LD_DW_IMM.toFin).num_instructions = 24 :=
  (from_program_accounts_iff sbf_reads_opcode (by decide)).mpr (by decide)

/-- A section of one slot, the first of a wide instruction. -/
theorem from_program_panics_on_last_slot :
    from_program sbf [0x18, 0, 0, 0, 0, 0, 0, 0] = .error (.slice_start_index_len_fail 16 8) ∧
      ¬ ∃ stats, from_program sbf [0x18, 0, 0, 0, 0, 0, 0, 0] = .ok stats ∧
        8 * stats.num_instructions + 8 * (stats sbf.LD_DW_IMM.toFin).num_instructions = 8 := by
  have hpanic : from_program sbf [0x18, 0, 0, 0, 0, 0, 0, 0]
      = .error (.slice_start_index_len_fail 16 8) := by
    rw [from_program, scan_insn default (by decide) rfl]
    rfl
  refine ⟨hpanic, ?_⟩
  rintro ⟨stats, hscan, -⟩
  rw [hpanic] at hscan
  cases hscan

end OpcodeStats

end SnapshotEtl
