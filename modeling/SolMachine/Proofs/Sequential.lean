import SolMachine.Proofs.Effects
import SolMachine.Proofs.SourceRun

/-!
# Sequential programs

* `Statement.isSequential` : a statement after which the next one comes, and that leaves the program
  alone;
* `Carries` : the program is in memory with nothing but zeros after it, and the stack holds what the
  statements before the program counter have left there; a program starts so (`carries_load`);
* `Carries.fault_ne`, `Carries.of_ran` : then a step finds room and words on the stack, and leaves the
  machine so; `Carries.of_after` is the same of any number of steps, and `Carries.of_stop` tells what the
  last step leaves;
* `sequential_keeps_balance` : the stack of every run of a sequential program is the one that the
  assembler has counted.
-/

namespace SolMachine.Assembly
open SolMachine.Text

/-- Whether the statement is an instruction that neither jumps nor writes to memory. -/
def Statement.isSequential (s : Statement) : Bool :=
  match s.body with
  | .instruction i => !i.jumps && !i.stores
  | .fill _ => false

section Instructions
variable {ss : List Statement} {a : Nat} {s : Statement} {i : Instruction AddressOperand}

theorem exists_instruction_of_sequential (h : s.isSequential) :
    ∃ i, s.body = .instruction i ∧ i.jumps = false ∧ i.stores = false := by
  unfold Statement.isSequential at h
  cases hs : s.body with
  | fill v => rw [hs] at h; cases h
  | instruction i =>
    rw [hs] at h
    refine ⟨i, rfl, ?_⟩
    simpa using h

theorem gain_eq (hi : s.body = .instruction i) : s.gain = i.gain := by
  unfold Statement.gain
  rw [hi]
  cases i <;> rfl

/-- Labels have become numbers, and nothing else of an instruction has changed. -/
theorem parts_instructionOf (ss : List Statement) (a : Nat) (i : Instruction AddressOperand) :
    (instructionOf ss a i).jumps = i.jumps ∧ (instructionOf ss a i).stores = i.stores ∧
      (instructionOf ss a i).gain = i.gain := by
  cases i with
  | transfer op a b x => cases op <;> exact ⟨rfl, rfl, rfl⟩
  | _ => exact ⟨rfl, rfl, rfl⟩

theorem balance_take_succ (hs : ss[a]? = some s) :
    balance (ss.take (a + 1)) = balance (ss.take a) + s.gain := by
  rw [List.take_add_one, hs, Option.toList_some, balance_append_singleton]

end Instructions

/-- The program is in memory with nothing but zeros after it, and the stack holds the words that the
statements before the program counter have left there. -/
structure Carries (ss : List Statement) (m : Machine) : Prop where
  program : ∀ a s, ss[a]? = some s → m.memory.get? a = some (wordOf ss a s)
  beyond : ∀ a w, ss.length ≤ a → m.memory.get? a = some w → w = 0
  stack : (m.stack.size : Int) = balance (ss.take m.pc)
  capacity : m.stack.capacity = 32
  inside : m.pc ≤ 16383

section Run
variable {ss : List Statement} {m k : Machine} {i : Instruction Displacement}

theorem carries_load {words : List Word} {before : Machine}
    (hwords : words = ss.mapIdx (wordOf ss)) (hempty : before.stack = .empty 32)
    (hload : before.load words = .ok m) : Carries ss m := by
  have hfits : ¬ maxWords < words.length := by
    intro h
    rw [Machine.load, if_pos h] at hload
    cases hload
  rw [Machine.load, if_neg hfits] at hload
  obtain rfl := Except.ok.inj hload
  have hget : ∀ a, (Memory.ofList words).get? a = (ss[a]?).map (wordOf ss a) := by
    intro a
    rw [← List.getElem?_mapIdx, ← hwords]
    exact List.getElem?_toArray
  refine ⟨fun a s hs => ?_, fun a w ha hw => ?_, ?_, ?_, Nat.zero_le _⟩
  · rw [hget, hs, Option.map_some]
  · rw [hget, List.getElem?_eq_none ha] at hw
    cases hw
  · show (before.stack.size : Int) = balance []
    rw [hempty]
    rfl
  · show before.stack.capacity = 32
    rw [hempty]
    rfl

/-- What stands at the program counter is a statement of the program, or an addition after it. -/
theorem Carries.instruction (h : Carries ss m) (hseq : ∀ s ∈ ss, s.isSequential)
    (hi : m.instruction? = some i) : i.jumps = false ∧ i.stores = false ∧
      balance (ss.take (m.pc + 1)) = balance (ss.take m.pc) + i.gain := by
  obtain ⟨w, hw, hdecode⟩ := Machine.instruction?_eq_some_iff.1 hi
  cases hs : ss[m.pc]? with
  | some s =>
    obtain ⟨j, hj, hjumps, hstores⟩ := exists_instruction_of_sequential
      (hseq s (List.mem_of_getElem? hs))
    obtain rfl := Option.some.inj (hw.symm.trans (h.program m.pc s hs))
    obtain rfl := Except.ok.inj (hdecode.symm.trans (decode_wordOf hj))
    obtain ⟨hjumps', hstores', hgain⟩ := parts_instructionOf ss m.pc j
    rw [hjumps', hstores', hgain, balance_take_succ hs, gain_eq hj]
    exact ⟨hjumps, hstores, rfl⟩
  | none =>
    have hlength : ss.length ≤ m.pc := List.getElem?_eq_none_iff.1 hs
    have hzero : Instruction.decode 0 = .ok (.alu .add 0 0 0) := by decide
    obtain rfl := h.beyond m.pc w hlength hw
    obtain rfl := Except.ok.inj (hdecode.symm.trans hzero)
    rw [List.take_of_length_le hlength, List.take_of_length_le (Nat.le_succ_of_le hlength)]
    exact ⟨rfl, rfl, (Int.add_zero _).symm⟩

/-- A step finds room for what it pushes, and a word that it can pop. -/
theorem Carries.fault_ne (h : Carries ss m) (hseq : ∀ s ∈ ss, s.isSequential)
    (hbalanced : Balanced ss) :
    m.step.2 ≠ .fault .stackOverflow ∧ m.step.2 ≠ .fault .stackUnderflow := by
  cases hi : m.instruction? with
  | none =>
    rcases Machine.step_of_no_instruction hi with hstep | ⟨code, hstep⟩ <;> simp [hstep]
  | some i =>
    obtain ⟨-, -, hnext⟩ := h.instruction hseq hi
    obtain ⟨hlo, hhi⟩ := hbalanced _ (List.take_prefix (m.pc + 1) ss)
    have hstack := h.stack
    have hcapacity := h.capacity
    rw [hnext] at hlo hhi
    rw [Machine.step_eq_execute_of hi]
    constructor
    · intro hf
      obtain ⟨hgain, hfull⟩ := Machine.explained_of_execute hf
      omega
    · intro hf
      obtain ⟨hgain, hempty⟩ := Machine.explained_of_execute hf
      omega

/-- A step goes to the next address, and the stack is then what the statements before that one leave. -/
theorem Carries.of_ran (h : Carries ss m) (hseq : ∀ s ∈ ss, s.isSequential)
    (hstep : m.step = (k, .ran)) : Carries ss k := by
  obtain ⟨i, hi, hexecute⟩ := Machine.exists_instruction_of_ran hstep
  obtain ⟨hjumps, hstores, hnext⟩ := h.instruction hseq hi
  have hhalt : i ≠ .halt := by
    rintro rfl
    cases hexecute
  have hleads := Machine.leads_of_execute hexecute
  have hmemory : m.memory.Extends k.memory := Machine.extends_of_view (hleads.memory hstores)
  have hpc : k.pc = m.pc + 1 := Int.ofNat.inj (hleads.pc hjumps hhalt)
  refine ⟨fun a s hs => ?_, fun a w ha hw => ?_, ?_, hleads.capacity.trans h.capacity, ?_⟩
  · have hprogram := h.program a s hs
    rcases hmemory a with hsame | ⟨hnone, -⟩
    · rw [hsame, hprogram]
    · cases hprogram.symm.trans hnone
  · rcases hmemory a with hsame | ⟨-, hzero⟩
    · exact h.beyond a w ha (hsame.symm.trans hw)
    · exact (Option.some.inj (hzero.symm.trans hw)).symm
  · rw [hpc, hnext, Machine.size_of_execute hexecute, h.stack]
  · have hinside := h.inside
    rcases (Machine.evolves_of_step hstep).pc with hsame | hlt
    · omega
    · exact Nat.le_of_lt_succ hlt

/-- After the step that stops a run, the stack is what the statements before it have left, or at the
last address what that one leaves too. -/
theorem Carries.of_stop (h : Carries ss m) (hseq : ∀ s ∈ ss, s.isSequential)
    (hstop : m.step.2 ≠ .ran) : m.step.1.pc = m.pc ∧
      ((m.step.1.stack.size : Int) = balance (ss.take m.pc) ∨
        m.pc = 16383 ∧ m.step.2 = .fault (.pcOutOfBounds 16384) ∧
          (m.step.1.stack.size : Int) = balance (ss.take 16384)) := by
  obtain ⟨hpc, hstack | ⟨hlast, hfault, i, hi, hsize⟩⟩ := Machine.stack_of_stop h.inside hstop
  · refine ⟨hpc, .inl ?_⟩
    rw [hstack]
    exact h.stack
  · obtain ⟨-, -, hnext⟩ := h.instruction hseq hi
    rw [hlast] at hnext
    refine ⟨hpc, .inr ⟨hlast, hfault, ?_⟩⟩
    rw [hsize, hnext, h.stack, hlast]

theorem Carries.of_after {n : Nat} (h : Carries ss m) (hseq : ∀ s ∈ ss, s.isSequential)
    (hafter : m.after n = some k) : Carries ss k := by
  induction n generalizing m with
  | zero =>
    obtain rfl := Option.some.inj hafter
    exact h
  | succ n ih =>
    rw [Machine.after] at hafter
    split at hafter
    · next m' hstep => exact ih (h.of_ran hseq hstep) hafter
    · cases hafter

end Run

/-- The stack of a sequential program is at every time what the assembler has counted: before each
step it holds one word for each `push` and none for each `pop` among the statements before the
program counter, wherever that is, and no step overflows or underflows it. The step that stops a run
leaves it so, unless it is found at the last address, with the work of the instruction there done, that no
address follows: then its `push` or `pop` is counted too. The machine starts with any registers, and an
empty stack of the usual capacity. -/
theorem sequential_keeps_balance {source : String} {debug : Bool} {p : Program}
    (h : assemble source debug = .ok p)
    (hseq : ∀ s ∈ (readSource source.toList).statements, s.isSequential)
    {before : Machine} (hempty : before.stack = .empty 32) :
    ∃ m, before.load p.words = .ok m ∧ ∀ n k, m.after n = some k →
      (k.stack.size : Int) = balance ((readSource source.toList).statements.take k.pc) ∧
      k.step.2 ≠ .fault .stackOverflow ∧ k.step.2 ≠ .fault .stackUnderflow ∧
      (k.step.2 ≠ .ran → k.step.1.pc = k.pc ∧ ((k.step.1.stack.size : Int) =
          balance ((readSource source.toList).statements.take k.pc) ∨
        k.pc = 16383 ∧ k.step.2 = .fault (.pcOutOfBounds 16384) ∧ (k.step.1.stack.size : Int) =
          balance ((readSource source.toList).statements.take 16384))) := by
  obtain ⟨hacc, hwords⟩ := acceptable_of_assemble h
  obtain ⟨m, hload⟩ := (hwords ▸ (implements_of_acceptable hacc).load before :
    ∃ m, before.load p.words = .ok m)
  have hcarries : Carries _ m := carries_load hwords hempty hload
  refine ⟨m, hload, fun n k hafter => ?_⟩
  have hk := hcarries.of_after hseq hafter
  obtain ⟨hover, hunder⟩ := hk.fault_ne hseq hacc.stack
  exact ⟨hk.stack, hover, hunder, hk.of_stop hseq⟩

/-- A program without a `halt`. Its `lw` puts zeros into memory up to address 5, so that it runs past its
end, and stops at address 6 with the one word on the stack that is not popped. -/
theorem sequential_keeps_balance_zeros :
    let source := " push 1\n lw 0 2 5\n push 2\n pop 3"
    let before : Machine := { Machine.new .standard with registers := Vector.replicate 16 0 }
    ∃ p m k, assemble source false = .ok p ∧ before.load p.words = .ok m ∧ m.after 6 = some k ∧
      k.pc = 6 ∧ k.step.2 = .fault (.pcOutOfBounds 6) ∧ k.step.1.stack.size = 1 ∧
      balance ((readSource source.toList).statements.take k.step.1.pc) = 1 := by
  intro source before
  have hseq : ∀ s ∈ (readSource source.toList).statements, s.isSequential := by decide +kernel
  obtain ⟨p, hp, hwords⟩ := @assemble_of_no_faults source (by decide +kernel) (by decide +kernel) false
  obtain ⟨m, hload, hkeeps⟩ := @sequential_keeps_balance source false p hp hseq before rfl
  have hrun : (before.load ((readSource source.toList).statements.mapIdx
      (wordOf (readSource source.toList).statements))).toOption.bind (fun m => (m.after 6).map
        fun k => (k.pc, k.step.2, k.step.1.stack.size)) =
      some (6, .fault (.pcOutOfBounds 6), 1) := by decide +kernel
  rw [← hwords, hload] at hrun
  obtain ⟨k, hafter, hk⟩ := Option.map_eq_some_iff.1 hrun
  obtain ⟨hpc, hstop, hsize⟩ : k.pc = 6 ∧ k.step.2 = .fault (.pcOutOfBounds 6) ∧
    k.step.1.stack.size = 1 := by simpa using hk
  obtain ⟨-, -, -, hstack⟩ := hkeeps 6 k hafter
  obtain ⟨hsame, hcount | ⟨hlast, -⟩⟩ := hstack (by simp [hstop])
  · rw [hsize, ← hsame] at hcount
    exact ⟨p, m, k, hp, hload, hafter, hpc, hstop, hsize, hcount.symm⟩
  · omega

end SolMachine.Assembly
