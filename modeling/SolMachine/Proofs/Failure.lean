import SolMachine.Proofs.History

/-!
# Failed steps

* `Instruction.effect?_goto` : the table says the same at every address, but for jumps;
* `Machine.Early` : the faults of a step that has not done anything yet;
* `Machine.FailedStep`, `failedStep_of_stepIn` : the two ways in which a step fails: before it has done
  anything, or at the last address, with everything done but the way on;
* `stepIn_fault_keeps` : what a failed step leaves.
-/

namespace SolMachine

theorem Instruction.effect?_goto {i : Instruction Displacement} (hi : i.jumps = false) (hh : i ≠ .halt)
    (v : View) (p : Int) : i.effect? (v.goto p) = (i.effect? v).map fun u => u.goto (p + 1) := by
  cases i with
  | alu op a b c =>
    show (op.result? (v.registers a) (v.registers b)).map _ =
      ((op.result? (v.registers a) (v.registers b)).map _).map _
    rw [Option.map_map]
    cases op <;> rfl
  | transfer op a b d =>
    show _ = (if _ then _ else _ : Option View).map _
    rw [apply_ite (Option.map _)]
    cases op <;> rfl
  | scan op a b =>
    show _ = (if _ then _ else _ : Option View).map _
    rw [apply_ite (Option.map _)]
    rfl
  | pop r =>
    obtain ⟨registers, memory, stack, capacity, flag, pc⟩ := v
    cases stack <;> rfl
  | push r =>
    show _ = (if _ then _ else _ : Option View).map _
    rw [apply_ite (Option.map _)]
    rfl
  | halt => exact absurd rfl hh
  | branch | jarl | jne => cases hi

namespace Machine

section Failures
variable {m after : Machine} {f : Fault}

/-- The fault is told before the step has done anything: it is not about the program counter, or the
program counter was lost before, or an instruction jumps there. -/
def Early (m : Machine) : Fault → Prop
  | .illegalOpcode _ | .divideByZero | .accessViolation _ | .stackOverflow | .stackUnderflow => True
  | .pcOutOfBounds _ => m.memory.get? m.pc = none ∨ ∃ i, m.instruction? = some i ∧ i.jumps
  | .programTooLarge _ => False

theorem early_of_work (m : Machine) (h : f.OfWork) : m.Early f := by
  cases f with
  | illegalOpcode | pcOutOfBounds | programTooLarge => cases h
  | divideByZero | accessViolation | stackOverflow | stackUnderflow => trivial

/-- The ways in which a step fails. -/
inductive FailedStep (m : Machine) : Machine → Fault → Prop
  /-- Nothing is done. -/
  | early {f : Fault} (h : m.Early f) : FailedStep m { m with halted := false } f
  /-- The work of an instruction is done, which is what the table says, but no address follows. -/
  | late {i : Instruction Displacement} {v : View} {registers : Registers} {memory : Memory}
      {stack : Stack} {flag : Bool} (hi : m.instruction? = some i) (hj : i.jumps = false)
      (hh : i ≠ .halt) (heffect : i.effect? m.view = some v) (hv : v.pc = m.pc + 1)
      (hview : ({ m with registers, memory, stack, flag } : Machine).view = v.goto m.pc)
      (out : maxWords ≤ m.pc + 1) :
      FailedStep m { m with registers, memory, stack, flag, halted := false }
        (.pcOutOfBounds (m.pc + 1))

/-- What is done at any address is what the table says. -/
theorem effect?_of_anywhere {i : Instruction Displacement} {registers : Registers} {memory : Memory}
    {stack : Stack} {flag : Bool} (hi : i.jumps = false) (hh : i ≠ .halt)
    (anywhere : ∀ p, ({ m with pc := p } : Machine).execute i =
      ({ m with registers, memory, stack, flag, pc := p } : Machine).next) :
    ∃ v, i.effect? m.view = some v ∧ v.pc = m.pc + 1 ∧
      ({ m with registers, memory, stack, flag } : Machine).view = v.goto m.pc := by
  -- at address 0 the next address is in memory, and so the table applies
  have hobeys := execute_obeys { m with pc := 0 } hh
  have hinside : (0 : Int) ≤ (0 : Nat) + 1 ∧ ((0 : Nat) + 1 : Int) < maxWords := by decide
  rw [anywhere 0, next, advance_eq _ hinside] at hobeys
  cases hobeys with
  | ran htable =>
    have hgoto := Instruction.effect?_goto hi hh m.view 0
    obtain ⟨v, hv, hview⟩ := Option.map_eq_some_iff.1 (hgoto.symm.trans htable)
    have hsame := Instruction.effect?_goto hi hh m.view m.pc
    rw [show m.view.goto m.pc = m.view from rfl, hv] at hsame
    exact ⟨v, hv, congrArg View.pc (Option.some.inj hsame),
      (congrArg (fun u => u.goto m.pc) hview).symm⟩

theorem failedStep_of_stepIn (h : m.stepIn = (after, .fault f)) : m.FailedStep after f := by
  have hends := step_ends { m with halted := false }
  unfold stepIn at h
  generalize ({ m with halted := false } : Machine).step = r at h hends
  obtain ⟨n, o⟩ := r
  obtain ⟨rfl, rfl⟩ := Prod.mk.inj h
  generalize hr : (n, Outcome.fault f) = r at hends
  cases hends with
  | lost hw =>
    obtain ⟨rfl, hf⟩ := Prod.mk.inj hr
    obtain rfl := Outcome.fault.inj hf
    exact .early (.inl hw)
  | illegal =>
    obtain ⟨rfl, hf⟩ := Prod.mk.inj hr
    obtain rfl := Outcome.fault.inj hf
    exact .early trivial
  | @executed i _ hi ends =>
    cases ends with
    | halted | jumped => cases hr
    | strayed hj =>
      obtain ⟨rfl, hf⟩ := Prod.mk.inj hr
      obtain rfl := Outcome.fault.inj hf
      exact .early (.inr ⟨i, hi, hj⟩)
    | refused _ hf =>
      obtain ⟨rfl, hf'⟩ := Prod.mk.inj hr
      obtain rfl := Outcome.fault.inj hf'
      exact .early (m.early_of_work hf)
    | worked hj hh _ _ anywhere =>
      obtain ⟨v, heffect, hv, hview⟩ := effect?_of_anywhere hj hh anywhere
      by_cases hin : (0 : Int) ≤ m.pc + 1 ∧ (m.pc + 1 : Int) < maxWords
      · rw [next, advance_eq _ hin] at hr
        cases hr
      · rw [next, advance_eq_fault _ hin] at hr
        obtain ⟨rfl, hf⟩ := Prod.mk.inj hr
        obtain rfl := Outcome.fault.inj hf
        exact .late hi hj hh heffect hv hview (by omega)

/-- A failed step from any state that a machine can come to: the program counter and the count stay,
and the machine has not halted. If the fault comes early, nothing else has changed, and the next step
fails in the same way. Otherwise the instruction stands at the last address and neither jumps nor
halts, and all that the table says of it is done, but for the way on. -/
theorem stepIn_fault_keeps (hm : m.Reachable) (h : m.stepIn = (after, .fault f)) :
    after.pc = m.pc ∧ after.executed = m.executed ∧ after.halted = false ∧
    (m.Early f → after = { m with halted := false } ∧ after.stepIn = (after, .fault f)) ∧
    (¬ m.Early f → f = .pcOutOfBounds 16384 ∧ m.pc = 16383 ∧
      ∃ i v, m.instruction? = some i ∧ i.jumps = false ∧ i ≠ .halt ∧
        i.effect? m.view = some v ∧ v.pc = 16384 ∧ after.view = { v with pc := 16383 } ∧
        after.config = m.config) := by
  have hpc : m.pc < 16384 := hm.bounded.pc
  cases failedStep_of_stepIn h with
  | early hearly => exact ⟨rfl, rfl, rfl, fun _ => ⟨rfl, h⟩, fun hlate => absurd hearly hlate⟩
  | @late i v registers memory stack flag hi hj hh heffect hv hview out =>
    have hmax : maxWords = 16384 := rfl
    have hlast : m.pc = 16383 := by omega
    refine ⟨rfl, rfl, rfl, ?_, fun _ => ?_⟩
    · rintro (hlost | ⟨j, hj', hjumps⟩)
      · rw [instruction?, hlost] at hi
        cases hi
      · rw [hi] at hj'
        obtain rfl := Option.some.inj hj'
        rw [hj] at hjumps
        cases hjumps
    · have hfault : Fault.pcOutOfBounds (m.pc + 1) = .pcOutOfBounds 16384 := by
        rw [hlast]
        rfl
      have hstays : v.goto m.pc = { v with pc := 16383 } := by
        rw [hlast]
        rfl
      rw [hlast] at hv
      exact ⟨hfault, hlast, i, v, hi, hj, hh, heffect, hv, hview.trans hstays, rfl⟩

/-- An `add` at the last address, reached by a jump, doubles its register and is not left. -/
theorem stepIn_fault_keeps_last :
    ∃ m after : Machine, m.Reachable ∧ m.stepIn = (after, .fault (.pcOutOfBounds 16384)) ∧
      m.pc = 16383 ∧ after.pc = 16383 ∧ m.register 0 = 5 ∧ after.register 0 = 10 := by
  -- the last address is named, so that no proof counts up to it
  obtain ⟨last, hlast⟩ : ∃ last : Nat, last = 16383 := ⟨_, rfl⟩
  have hmax : (maxWords : Int) = 16384 := rfl
  let actions : List Action := [.load [(Instruction.jarl 1 2).encode], .read 16383,
    .setRegister 0 5, .setRegister 1 16383]
  let start : Machine := { new .standard with
    memory := Memory.cover (.ofList [(Instruction.jarl 1 2).encode]) last
    registers := ((Vector.replicate 16 0).set 0 5).set 1 16383 }
  let m : Machine :=
    { start with registers := start.registers.set 2 1, pc := (last : Int).toNat, executed := 1 }
  let after : Machine := { m with registers := m.registers.set 0 10 }
  have hstart : (new .standard).play actions = some start := by
    subst hlast
    rfl
  have hjump : start.stepIn = (m, .ran) := by
    have hfetch : start.memory.get? 0 = some (Instruction.jarl 1 2).encode := by
      rw [Memory.get?_cover]
      rfl
    have hinstruction := instruction?_eq_some_iff.2 ⟨_, hfetch, Instruction.decode_encode _⟩
    have htarget : (if start.register 1 = start.register 2 then (1, ((start.pc + 1 : Nat) : Int))
        else (2, (start.register 1).toInt)) = ((2 : Register), (last : Int)) := by
      subst hlast
      decide
    have hinside : (0 : Int) ≤ last ∧ (last : Int) < maxWords := by omega
    have hexecute : start.execute (.jarl 1 2) = (m, .ran) :=
      (jumpAndLink_of_target htarget).trans (if_pos hinside)
    unfold stepIn
    rw [show ({ start with halted := false } : Machine) = start from rfl,
      step_eq_execute_of hinstruction, hexecute]
    rfl
  have hm : m.Reachable := by
    refine ⟨.standard, .replicate 16 0, actions ++ [.step], ?_⟩
    rw [play_append, hstart]
    exact congrArg (fun r => some r.1) hjump
  have hfault : m.stepIn = (after, .fault (.pcOutOfBounds 16384)) := by
    have hfetch : m.memory.get? m.pc = some 0 := by
      show (Memory.cover _ last).get? (last : Int).toNat = some 0
      rw [Memory.get?_cover, Int.toNat_natCast, if_neg, if_pos (Nat.le_refl _)]
      subst hlast
      decide
    have hinstruction : m.instruction? = some (.alu .add 0 0 0) :=
      instruction?_eq_some_iff.2 ⟨0, hfetch, rfl⟩
    have hout : ¬ ((0 : Int) ≤ last + 1 ∧ (last + 1 : Int) < maxWords) := by omega
    have hnext : after.next = (after, .fault (.pcOutOfBounds (last + 1))) :=
      after.advance_eq_fault hout
    have hexecute : m.execute (.alu .add 0 0 0) = after.next := rfl
    unfold stepIn
    rw [show ({ m with halted := false } : Machine) = m from rfl, step_eq_execute_of hinstruction,
      hexecute, hnext, hlast]
    rfl
  have hkeeps := stepIn_fault_keeps hm hfault
  exact ⟨m, after, hm, hfault, hlast, hkeeps.1.trans hlast, rfl, rfl⟩

end Failures

end Machine

end SolMachine
