import SolMachine.Machine.Step
import SolMachine.Proofs.Acceptance

/-!
# Running the source

* `Source.execute` : what a source instruction does, where a label stands for the address of its
  statement;
* `Machine.after`, `trail` : the machine before its `k`-th step, and what the first steps give;
* `Runs` : the machine stands at an instruction of the program whose word is still in memory;
* `step_eq_execute` : one step, and `trail_eq` : any number of them;
* `assemble_preserves_meaning` : the program of a text runs as its source does.
-/

namespace SolMachine

/-! ## Steps -/

/-- The machine before step number `k`, if the steps before it ran. -/
def Machine.after : Nat → Machine → Option Machine
  | 0, m => some m
  | k + 1, m =>
    match m.step with
    | (m, .ran) => m.after k
    | _ => none

/-- What the first `n` steps give; a step that does not run is the last one, and so is one that has
no result. -/
def trail (f : Machine → Option (Machine × Outcome)) : Nat → Machine → List (Machine × Outcome)
  | 0, _ => []
  | n + 1, m =>
    match f m with
    | none => []
    | some (m, .ran) => (m, .ran) :: trail f n m
    | some stopped => [stopped]

/-- Runs agree where their steps do on all states that are passed. -/
theorem trail_eq {f : Machine → Option (Machine × Outcome)} {n : Nat} {m : Machine}
    (h : ∀ k < n, ∀ m', m.after k = some m' → f m' = some m'.step) :
    trail f n m = trail (fun m => some m.step) n m := by
  induction n generalizing m with
  | zero => rfl
  | succ n ih =>
    have hfirst : f m = some m.step := h 0 (Nat.zero_lt_succ n) m rfl
    have hrest : ∀ m', m.step = (m', .ran) → trail f n m' = trail (fun m => some m.step) n m' := by
      intro m' hstep
      refine ih fun k hk m'' hafter => h (k + 1) (Nat.succ_lt_succ hk) m'' ?_
      rw [Machine.after, hstep]
      exact hafter
    unfold trail
    rw [hfirst]
    rcases hstep : m.step with ⟨m', outcome⟩
    cases outcome with
    | ran => exact congrArg ((m', Outcome.ran) :: ·) (hrest m' hstep)
    | halted => rfl
    | fault f => rfl

namespace Assembly
open SolMachine.Text

/-! ## Source instructions -/

namespace Source

/-- The word that an address operand names. -/
def word? (ss : List Statement) : AddressOperand → Option Word
  | .int w => some w
  | .label l => (labelAddress? ss l.name).map (BitVec.ofNat 32)

/-- The address that a branch at address `pc` leads to. -/
def target? (ss : List Statement) (pc : Nat) : AddressOperand → Option Int
  | .int w => some (pc + 1 + w.toInt)
  | .label l => (labelAddress? ss l.name).map Int.ofNat

/-- Loads register `b` from an address, or stores it there. -/
def access (m : Machine) (op : Transfer) (b : Register) (address : Word) : Machine × Outcome :=
  match op with
  | .lw =>
    match m.memory.read address with
    | .error f => (m, .fault f)
    | .ok (w, memory) => ({ m with memory := memory }.setRegister b w).next
  | .sw =>
    match m.memory.write address (m.register b) with
    | .error f => (m, .fault f)
    | .ok memory => { m with memory := memory }.next

/-- Goes to an address, or to the next instruction. -/
def jump (m : Machine) (taken : Bool) (target : Int) : Machine × Outcome :=
  if taken then m.advance target else m.next

/-- Carries out a source instruction of the program `ss`, if its label is defined there. -/
def execute (ss : List Statement) (m : Machine) :
    Instruction AddressOperand → Option (Machine × Outcome)
  | .alu op a b c => some (m.compute op a b c)
  | .transfer op a b x => (word? ss x).map fun w => access m op b (m.register a + w)
  | .branch op a b x =>
    (target? ss m.pc x).map (jump m (op.taken (m.register a) (m.register b)))
  | .jarl a b => some (m.jumpAndLink a b)
  | .halt => some ({ m with executed := m.executed + 1 }, .halted)
  | .scan op a b => some (m.scan op a b)
  | .jne x => (target? ss m.pc x).map (jump m m.flag)
  | .pop r => some (m.execute (.pop r))
  | .push r => some (m.execute (.push r))

/-- Carries out the statement at the program counter; data and places after the program are no
instructions. -/
def step (ss : List Statement) (m : Machine) : Option (Machine × Outcome) :=
  ss[m.pc]?.bind fun s =>
    match s.body with
    | .instruction i => execute ss m i
    | .fill _ => none

end Source

/-- The machine stands at an instruction of the program, and its word is still in memory. -/
structure Runs (ss : List Statement) (words : List Word) (m : Machine) : Prop where
  instruction : ∃ s i, ss[m.pc]? = some s ∧ s.body = .instruction i
  intact : m.memory.get? m.pc = words[m.pc]?

/-! ## One instruction -/

section Execute
variable {ss : List Statement} {s : Statement} {i : Instruction AddressOperand} {a : Nat}
  {x : AddressOperand}

theorem transfer_eq_access (m : Machine) (op : Transfer) (a b : Register) (d : Displacement) :
    m.transfer op a b d = Source.access m op b (m.register a + d.value) := by
  cases op <;> rfl

theorem exists_labelAddress?_of_resolvable (hr : Resolvable ss) (hs : ss[a]? = some s)
    (hi : s.body = .instruction i) {l : Label} (hl : i.address? = some (.label l)) :
    ∃ b, labelAddress? ss l.name = some b := by
  apply exists_labelAddress?
  apply hr.defined s (List.mem_of_getElem? hs) l
  rw [hi]
  exact hl

/-- The displacement of `lw` and `sw` has the word that the operand names. -/
theorem word?_eq (hr : Resolvable ss) (hss : ss.length ≤ 16384) (hs : ss[a]? = some s)
    (hi : s.body = .instruction i) (hx : i.address? = some x) (hrel : i.opcode.isRelative = false) :
    Source.word? ss x = some (Offset.ofInt 15 (operandNumber ss a i.opcode.isRelative x)).value := by
  rw [← BitVec.ofInt_toInt (x := (Offset.ofInt 15 _).value), toInt_operandNumber hr hss hs hi hx, hrel]
  cases x with
  | int w => rw [operandNumber, BitVec.ofInt_toInt]; rfl
  | label l =>
    obtain ⟨b, hb⟩ := exists_labelAddress?_of_resolvable hr hs hi hx
    simp only [Source.word?, operandNumber, hb, Option.map_some, Option.getD_some,
      Bool.false_eq_true, if_false, BitVec.ofInt_natCast]

/-- The displacement of a branch leads to the address that the operand names. -/
theorem target?_eq (hr : Resolvable ss) (hss : ss.length ≤ 16384) (hs : ss[a]? = some s)
    (hi : s.body = .instruction i) (hx : i.address? = some x) (hrel : i.opcode.isRelative = true) :
    Source.target? ss a x =
      some (a + 1 + (Offset.ofInt 15 (operandNumber ss a i.opcode.isRelative x)).value.toInt) := by
  rw [toInt_operandNumber hr hss hs hi hx, hrel]
  cases x with
  | int w => rfl
  | label l =>
    obtain ⟨b, hb⟩ := exists_labelAddress?_of_resolvable hr hs hi hx
    simp only [Source.target?, operandNumber, hb, Option.map_some, Option.getD_some, if_true]
    congr 1
    show (b : Int) = _
    omega

/-- A machine instruction does what its source instruction does. -/
theorem execute_instructionOf (hr : Resolvable ss) (hss : ss.length ≤ 16384) {m : Machine}
    (hs : ss[m.pc]? = some s) (hi : s.body = .instruction i) :
    Source.execute ss m i = some (m.execute (instructionOf ss m.pc i)) := by
  cases i with
  | alu | jarl | halt | scan | pop | push => rfl
  | transfer op a b x =>
    show (Source.word? ss x).map (fun w => Source.access m op b (m.register a + w)) = _
    rw [word?_eq hr hss hs hi rfl rfl, Option.map_some, ← transfer_eq_access]
    rfl
  | branch op a b x =>
    show (Source.target? ss m.pc x).map _ = _
    rw [target?_eq hr hss hs hi rfl rfl]
    rfl
  | jne x =>
    show (Source.target? ss m.pc x).map _ = _
    rw [target?_eq hr hss hs hi rfl rfl]
    rfl

/-- One step: a machine whose word is that of a source instruction does what it does. -/
theorem step_eq_execute (hr : Resolvable ss) (hss : ss.length ≤ 16384) {m : Machine}
    (hs : ss[m.pc]? = some s) (hi : s.body = .instruction i)
    (hm : m.memory.get? m.pc = (ss.mapIdx (wordOf ss))[m.pc]?) :
    Source.execute ss m i = some m.step := by
  rw [List.getElem?_mapIdx, hs, Option.map_some] at hm
  unfold Machine.step
  simp only [hm, decode_wordOf hi]
  exact execute_instructionOf hr hss hs hi

end Execute

/-! ## Any number of instructions -/

theorem step_eq_step {ss : List Statement} (hr : Resolvable ss) (hss : ss.length ≤ 16384)
    {m : Machine} (h : Runs ss (ss.mapIdx (wordOf ss)) m) : Source.step ss m = some m.step := by
  obtain ⟨s, i, hs, hi⟩ := h.instruction
  unfold Source.step
  simp only [hs, Option.bind_some, hi]
  exact step_eq_execute hr hss hs hi h.intact

theorem statements?_of_acceptable {cs : List Char} (h : Acceptable cs) :
    statements? cs = .ok (readSource cs).statements := by
  unfold statements?
  simp only [(faults_eq_nil_iff cs).2 h.lines, List.isEmpty_nil, if_true]

/-- The words of a program run as its statements do. -/
structure Implements (words : List Word) (ss : List Statement) : Prop where
  length : words.length = ss.length
  /-- The address of a label is that of the one statement that carries it. -/
  label : ∀ name a, labelAddress? ss name = some a ↔
    ∃ s l, ss[a]? = some s ∧ s.label = some l ∧ l.name = name
  /-- A step does what the source instruction does, from any state in which the word at the program
  counter is still that of the program. -/
  step : ∀ (m : Machine) s i, ss[m.pc]? = some s → s.body = .instruction i →
    m.memory.get? m.pc = words[m.pc]? → Source.execute ss m i = some m.step
  /-- The same of a step that notes whether it was a `halt`. -/
  stepIn : ∀ (m : Machine) s i, ss[m.pc]? = some s → s.body = .instruction i →
    m.memory.get? m.pc = words[m.pc]? → (Source.execute ss { m with halted := false } i).map
      (fun (after, outcome) => ({ after with halted := outcome = .halted }, outcome)) = some m.stepIn
  /-- The words can be loaded into any machine. -/
  load : ∀ before : Machine, ∃ m, before.load words = .ok m
  /-- The runs of the loaded program are those of the source, whatever the machine held before, for
  as long as they stay in the program and do not overwrite what they execute. -/
  run : ∀ (before m : Machine) (n : Nat), before.load words = .ok m →
    (∀ k < n, ∀ m', m.after k = some m' → Runs ss words m') →
    trail (Source.step ss) n m = trail (fun m => some m.step) n m

theorem implements_of_acceptable {cs : List Char} (h : Acceptable cs) :
    Implements ((readSource cs).statements.mapIdx (wordOf (readSource cs).statements))
      (readSource cs).statements := by
  have hmax : maxWords = 16384 := rfl
  have hsize := h.size
  rw [← length_statements] at hsize
  refine ⟨List.length_mapIdx, fun _ _ => labelAddress?_eq_some_iff h.labels,
    fun m s i hs hi hm => ?_, fun m s i hs hi hm => ?_, fun before => ?_,
    fun before m n _ hruns => ?_⟩
  · exact step_eq_execute h.operands hsize hs hi hm
  · have hstep := step_eq_execute (m := { m with halted := false }) h.operands hsize hs hi hm
    rw [hstep, Option.map_some]
    rfl
  · unfold Machine.load
    rw [List.length_mapIdx, if_neg (by omega)]
    exact ⟨_, rfl⟩
  · exact trail_eq fun k hk m' hafter => step_eq_step h.operands hsize (hruns k hk m' hafter)

/-- The program of a text runs as its source does. -/
theorem assemble_preserves_meaning {source : String} {debug : Bool} {p : Program}
    (h : assemble source debug = .ok p) :
    ∃ ss, statements? source.toList = .ok ss ∧ Implements p.words ss := by
  obtain ⟨hacc, hwords⟩ := acceptable_of_assemble h
  rw [hwords]
  exact ⟨_, statements?_of_acceptable hacc, implements_of_acceptable hacc⟩

/-- A text whose first line names itself. Its flag is clear, so it goes on to the `halt`. -/
theorem assemble_preserves_meaning_loop : ∃ p, assemble "go jne go\n halt" false = .ok p ∧
    ∃ ss, statements? "go jne go\n halt".toList = .ok ss ∧ Implements p.words ss ∧
      ∃ m, (Machine.new .standard).load p.words = .ok m ∧
        (trail (Source.step ss) 2 m).map Prod.snd = [.ran, .halted] := by
  obtain ⟨p, hp, hwords⟩ := @assemble_of_no_faults "go jne go\n halt" (by decide +kernel)
    (by decide +kernel) false
  obtain ⟨ss, hss, himplements⟩ := assemble_preserves_meaning hp
  obtain rfl := Except.ok.inj
    (hss.symm.trans (statements?_of_acceptable (acceptable_of_assemble hp).1))
  obtain ⟨m, hm⟩ := himplements.load (.new .standard)
  refine ⟨p, hp, _, hss, himplements, m, hm, ?_⟩
  rw [hwords] at hm
  have hrun : ((Machine.new .standard).load ((readSource "go jne go\n halt".toList).statements.mapIdx
      (wordOf (readSource "go jne go\n halt".toList).statements))).toOption.map
        (fun m => (trail (Source.step (readSource "go jne go\n halt".toList).statements) 2 m).map
          Prod.snd) = some [.ran, .halted] := by decide +kernel
  rw [hm] at hrun
  exact Option.some.inj hrun

end Assembly

end SolMachine
