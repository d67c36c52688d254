import SolMachine.Proofs.Evolution

/-!
# What instructions do to memory, stack and program counter

* `Instruction.stores`, `Instruction.gain` : whether an instruction writes to memory, and by how much it
  makes the stack grow;
* `View.Leads` : what a step does to memory, stack and program counter; `effect?_leads` reads it off
  the table, and `leads_of_execute` is the same of the machine;
* `Memory.Extends` : nothing but zeros comes to memory;
* `size_of_execute` : how an instruction that is carried out changes the size of the stack;
* `Fault.Explained`, `explained_of_execute` : the stack is full where it overflows, and empty where it
  underflows;
* `step_of_no_instruction`, `exists_instruction_of_ran`, `stack_of_stop` : the step without an
  instruction, the instruction of a step that goes on, and the stack after one that does not.
-/

namespace SolMachine

namespace Instruction
variable {α : Type}

/-- Whether the instruction writes a word to memory. -/
def stores : Instruction α → Bool
  | .transfer .sw .. => true
  | _ => false

/-- By how much the instruction makes the stack grow. -/
def gain : Instruction α → Int
  | .push _ => 1
  | .pop _ => -1
  | _ => 0

end Instruction

/-! ## The table -/

/-- What instruction `i` does to memory, stack and program counter if it is carried out. -/
structure View.Leads (v w : View) (i : Instruction Displacement) : Prop where
  memory : i.stores = false → ∀ a, w.memory a = v.memory a ∨ v.memory a = none ∧ w.memory a = some 0
  stack : (w.stack.length : Int) = v.stack.length + i.gain
  capacity : w.capacity = v.capacity
  pc : i.jumps = false → i ≠ .halt → w.pc = v.pc + 1

section Table
variable {v w : View}

theorem View.cover_memory (v : View) (n a : Nat) :
    (v.cover n).memory a = v.memory a ∨ v.memory a = none ∧ (v.cover n).memory a = some 0 := by
  show (v.memory a).or (if a ≤ n then some 0 else none) = _ ∨ _ ∧
    (v.memory a).or (if a ≤ n then some 0 else none) = _
  cases v.memory a with
  | some x => exact .inl rfl
  | none =>
    rw [Option.none_or]
    by_cases h : a ≤ n
    · exact .inr ⟨rfl, if_pos h⟩
    · exact .inl (if_neg h)

theorem leads_transfer (v : View) (op : Transfer) (a b : Register) (d : Displacement) (n : Nat) :
    v.Leads (v.transfer op b n).next (.transfer op a b d) := by
  cases op with
  | lw => exact ⟨fun _ => v.cover_memory n, (Int.add_zero _).symm, rfl, fun _ _ => rfl⟩
  | sw => exact ⟨nofun, (Int.add_zero _).symm, rfl, fun _ _ => rfl⟩

theorem effect?_leads {i : Instruction Displacement} (h : i.effect? v = some w) : v.Leads w i := by
  have hstay : (v.stack.length : Int) = v.stack.length + 0 := (Int.add_zero _).symm
  cases i with
  | alu op a b c =>
    obtain ⟨n, -, rfl⟩ := Option.map_eq_some_iff.1 h
    cases op <;> exact ⟨fun _ _ => .inl rfl, hstay, rfl, fun _ _ => rfl⟩
  | transfer op a b d =>
    simp only [Instruction.effect?] at h
    split at h
    · obtain rfl := Option.some.inj h
      exact leads_transfer v op a b d _
    · cases h
  | branch op a b d =>
    obtain rfl := Option.some.inj h
    exact ⟨fun _ _ => .inl rfl, hstay, rfl, nofun⟩
  | jarl a b =>
    simp only [Instruction.effect?] at h
    split at h <;>
    · obtain rfl := Option.some.inj h
      exact ⟨fun _ _ => .inl rfl, hstay, rfl, nofun⟩
  | halt =>
    obtain rfl := Option.some.inj h
    exact ⟨fun _ _ => .inl rfl, hstay, rfl, fun _ hne => absurd rfl hne⟩
  | scan op a b =>
    simp only [Instruction.effect?] at h
    split at h <;>
    · obtain rfl := Option.some.inj h
      exact ⟨fun _ _ => .inl rfl, hstay, rfl, fun _ _ => rfl⟩
  | jne d =>
    obtain rfl := Option.some.inj h
    exact ⟨fun _ _ => .inl rfl, hstay, rfl, nofun⟩
  | pop r =>
    simp only [Instruction.effect?] at h
    split at h
    · cases h
    · next n rest hs =>
      obtain rfl := Option.some.inj h
      refine ⟨fun _ _ => .inl rfl, ?_, rfl, fun _ _ => rfl⟩
      rw [hs, List.length_cons]
      show (rest.length : Int) = _ + -1
      omega
  | push r =>
    simp only [Instruction.effect?] at h
    split at h
    · obtain rfl := Option.some.inj h
      exact ⟨fun _ _ => .inl rfl, rfl, rfl, fun _ _ => rfl⟩
    · cases h

end Table

/-! ## The machine -/

/-- What was in memory stays there, and what comes to it is zero. -/
def Memory.Extends (m n : Memory) : Prop :=
  ∀ a, n.get? a = m.get? a ∨ m.get? a = none ∧ n.get? a = some 0

namespace Stack
variable {s : Stack} {f : Fault} {w : Word}

theorem le_size_of_push_error (h : s.push w = .error f) : s.capacity ≤ s.size := by
  unfold push at h
  split at h
  · next hfull => exact hfull
  · cases h

theorem size_of_pop_error (h : s.pop = .error f) : s.size = 0 := by
  unfold pop at h
  split at h
  · next hempty => exact congrArg List.length hempty
  · cases h

end Stack

/-- The faults of the stack have their reasons: there is a word to push and no room, or there is no
word to pop. -/
def Fault.Explained (s : Stack) (i : Instruction Displacement) : Fault → Prop
  | .stackOverflow => i.gain = 1 ∧ s.capacity ≤ s.size
  | .stackUnderflow => i.gain = -1 ∧ s.size = 0
  | _ => True

namespace Machine

section Execute
variable {m k : Machine} {i : Instruction Displacement} {f : Fault}

theorem leads_of_execute (h : m.execute i = (k, .ran)) : m.view.Leads k.view i := by
  have hne : i ≠ .halt := by
    rintro rfl
    cases h
  have hobeys := m.execute_obeys hne
  rw [h] at hobeys
  cases hobeys with
  | ran hview => exact effect?_leads hview

theorem size_of_execute (h : m.execute i = (k, .ran)) :
    (k.stack.size : Int) = m.stack.size + i.gain := by
  have hlengths : ((k.stack.words.map BitVec.toInt).length : Int) =
    (m.stack.words.map BitVec.toInt).length + i.gain := (leads_of_execute h).stack
  rwa [List.length_map, List.length_map] at hlengths

theorem extends_of_view (h : ∀ a, k.view.memory a = m.view.memory a ∨
    m.view.memory a = none ∧ k.view.memory a = some 0) : m.memory.Extends k.memory := by
  have hinj : Function.Injective (Option.map (BitVec.toInt : Word → Int)) :=
    Option.map_injective fun _ _ => BitVec.eq_of_toInt_eq
  intro a
  rcases h a with hsame | ⟨hnone, hzero⟩
  · exact .inl (hinj hsame)
  · exact .inr ⟨Option.map_eq_none_iff.1 hnone, hinj (hzero.trans rfl)⟩

theorem explained_of_advance {s : Stack} {target : Int} (h : (m.advance target).2 = .fault f) :
    f.Explained s i := by
  by_cases ht : 0 ≤ target ∧ target < maxWords
  · rw [m.advance_eq ht] at h
    cases h
  · rw [m.advance_eq_fault ht] at h
    cases h
    trivial

theorem explained_of_next {s : Stack} (h : m.next.2 = .fault f) : f.Explained s i :=
  explained_of_advance h

theorem explained_of_jump {taken : Bool} {d : Displacement} {s : Stack}
    (h : (m.jump taken d).2 = .fault f) : f.Explained s i := by
  unfold jump at h
  split at h
  · exact explained_of_advance h
  · exact explained_of_next h

theorem explained_of_execute (h : (m.execute i).2 = .fault f) : f.Explained m.stack i := by
  cases i with
  | alu op a b c =>
    simp only [execute, compute] at h
    split at h
    · cases h
      trivial
    · cases op <;> exact explained_of_next h
  | transfer op a b d =>
    cases op with
    | lw =>
      simp only [execute, transfer] at h
      split at h
      · next g hread =>
        cases h
        rw [Memory.fault_of_read hread]
        trivial
      · exact explained_of_next h
    | sw =>
      simp only [execute, transfer] at h
      split at h
      · next g hwrite =>
        cases h
        rw [Memory.fault_of_write hwrite]
        trivial
      · exact explained_of_next h
  | branch op a b d => exact explained_of_jump h
  | jarl a b =>
    simp only [execute] at h
    rw [jumpAndLink_of_target rfl] at h
    split at h
    · cases h
    · cases h
      trivial
  | halt => cases h
  | scan op a b =>
    simp only [execute, scan] at h
    split at h <;> exact explained_of_next h
  | jne d => exact explained_of_jump h
  | pop r =>
    simp only [execute] at h
    cases hpop : m.stack.pop with
    | ok x =>
      rw [hpop] at h
      exact explained_of_next h
    | error g =>
      rw [hpop] at h
      cases h
      rw [Stack.fault_of_pop hpop]
      exact ⟨rfl, Stack.size_of_pop_error hpop⟩
  | push r =>
    simp only [execute] at h
    cases hpush : m.stack.push (m.register r) with
    | ok x =>
      rw [hpush] at h
      exact explained_of_next h
    | error g =>
      rw [hpush] at h
      cases h
      rw [Stack.fault_of_push hpush]
      exact ⟨rfl, Stack.le_size_of_push_error hpush⟩

end Execute

/-! ## Steps -/

section Step
variable {m k : Machine}

/-- Without an instruction at the program counter, nothing is done: there is no word, or it is none. -/
theorem step_of_no_instruction (hi : m.instruction? = none) :
    m.step = (m, .fault (.pcOutOfBounds m.pc)) ∨ ∃ code, m.step = (m, .fault (.illegalOpcode code)) := by
  have hends := m.step_ends
  generalize m.step = r at hends
  cases hends with
  | lost => exact .inl rfl
  | @illegal code => exact .inr ⟨code, rfl⟩
  | executed hi' => cases hi.symm.trans hi'

theorem exists_instruction_of_ran (h : m.step = (k, .ran)) :
    ∃ i, m.instruction? = some i ∧ m.execute i = (k, .ran) := by
  cases hi : m.instruction? with
  | some i => exact ⟨i, rfl, (step_eq_execute_of hi).symm.trans h⟩
  | none =>
    rcases step_of_no_instruction hi with hstep | ⟨code, hstep⟩ <;> cases h.symm.trans hstep

/-- A step that stops a run leaves the stack as it was. At the last address the work may be done, and
only then is it found that no address follows. -/
theorem stack_of_stop (hpc : m.pc ≤ 16383) (hstop : m.step.2 ≠ .ran) :
    m.step.1.pc = m.pc ∧ (m.step.1.stack = m.stack ∨
      m.pc = 16383 ∧ m.step.2 = .fault (.pcOutOfBounds 16384) ∧ ∃ i, m.instruction? = some i ∧
        (m.step.1.stack.size : Int) = m.stack.size + i.gain) := by
  have hends := m.step_ends
  generalize m.step = r at hends hstop
  cases hends with
  | lost | illegal => exact ⟨rfl, .inl rfl⟩
  | @executed i _ hi ends =>
    cases ends with
    | halted | strayed | refused => exact ⟨rfl, .inl rfl⟩
    | jumped => exact absurd rfl hstop
    | @worked registers memory stack flag _ _ _ _ anywhere =>
      by_cases hlast : m.pc = 16383
      · have hout : ¬ ((0 : Int) ≤ m.pc + 1 ∧ (m.pc + 1 : Int) < maxWords) := by
          rw [hlast]
          decide
        -- the work is the same at address 0, where the next instruction can be reached
        have hnext : (0 : Int) ≤ (0 : Nat) + 1 ∧ ((0 : Nat) + 1 : Int) < maxWords := by decide
        have hwork := (anywhere 0).trans (advance_eq _ hnext)
        have hsize : (stack.size : Int) = m.stack.size + i.gain := size_of_execute hwork
        rw [next, advance_eq_fault _ hout]
        exact ⟨rfl, .inr ⟨hlast, by rw [hlast]; rfl, i, hi, hsize⟩⟩
      · have hmax : maxWords = 16384 := rfl
        have hinside : (0 : Int) ≤ m.pc + 1 ∧ (m.pc + 1 : Int) < maxWords := by omega
        rw [next, advance_eq _ hinside] at hstop
        exact absurd rfl hstop

end Step

end Machine

end SolMachine
