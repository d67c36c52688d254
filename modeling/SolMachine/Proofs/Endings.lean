import SolMachine.Proofs.InstructionTable

/-!
# How an instruction ends

* `Memory.Grows`, `Stack.Keeps` : what accesses do to the sizes of memory and stack;
* `Machine.Ends` : the five ways in which an instruction ends; `execute_ends`;
* `Machine.StepEnds` : the ways in which a step ends; `step_ends`.

All that later proofs need of a step is read off these two inductive types.
-/

namespace SolMachine

/-! ## Sizes -/

namespace Memory

/-- No address goes out of memory, and none comes in beyond the last one that can be accessed. -/
structure Grows (m n : Memory) : Prop where
  le : m.size ≤ n.size
  bound : n.size ≤ max m.size maxWords

theorem Grows.refl (m : Memory) : m.Grows m := ⟨Nat.le_refl _, Nat.le_max_left _ _⟩

theorem Grows.trans {m n k : Memory} (h : m.Grows n) (h' : n.Grows k) : m.Grows k := by
  have hle := h.le
  have hle' := h'.le
  have hbound := h.bound
  have hbound' := h'.bound
  exact ⟨by omega, by omega⟩

theorem lt_of_index? {address : Word} {i : Nat} (h : index? address = some i) : i < maxWords := by
  unfold index? at h
  split at h
  · obtain rfl := Option.some.inj h
    omega
  · cases h

theorem grows_cover (m : Memory) {i : Nat} (h : i < maxWords) : m.Grows (m.cover i) := by
  have hsize := m.size_cover i
  exact ⟨by omega, by omega⟩

theorem grows_of_read {m n : Memory} {address w : Word} (h : m.read address = .ok (w, n)) :
    m.Grows n := by
  unfold read at h
  cases hi : index? address with
  | none => rw [hi] at h; cases h
  | some i =>
    rw [hi] at h
    obtain ⟨-, rfl⟩ := Prod.mk.inj (Except.ok.inj h)
    exact m.grows_cover (lt_of_index? hi)

theorem grows_of_write {m n : Memory} {address w : Word} (h : m.write address w = .ok n) :
    m.Grows n := by
  unfold write at h
  cases hi : index? address with
  | none => rw [hi] at h; cases h
  | some i =>
    rw [hi] at h
    obtain rfl := Except.ok.inj h
    obtain ⟨hle, hbound⟩ := m.grows_cover (lt_of_index? hi)
    refine ⟨?_, ?_⟩ <;> (unfold size at *; rw [Array.size_setIfInBounds]; omega)

theorem fault_of_read {m : Memory} {address : Word} {f : Fault} (h : m.read address = .error f) :
    f = .accessViolation address := by
  unfold read at h
  split at h <;> cases h
  rfl

theorem fault_of_write {m : Memory} {address w : Word} {f : Fault}
    (h : m.write address w = .error f) : f = .accessViolation address := by
  unfold write at h
  split at h <;> cases h
  rfl

end Memory

namespace Stack

/-- The capacity stays, and it is not passed unless it was before. -/
structure Keeps (s t : Stack) : Prop where
  capacity : t.capacity = s.capacity
  bound : t.size ≤ max s.size s.capacity

theorem Keeps.refl (s : Stack) : s.Keeps s := ⟨rfl, Nat.le_max_left _ _⟩

theorem Keeps.trans {s t u : Stack} (h : s.Keeps t) (h' : t.Keeps u) : s.Keeps u := by
  have hbound := h.bound
  have hbound' := h'.bound
  have hcapacity := h.capacity
  exact ⟨h'.capacity.trans hcapacity, by omega⟩

theorem keeps_of_push {s t : Stack} {w : Word} (h : s.push w = .ok t) : s.Keeps t := by
  obtain ⟨hroom, rfl⟩ := push_eq_ok_iff.1 h
  refine ⟨rfl, ?_⟩
  show s.words.length + 1 ≤ _
  unfold size at *
  omega

theorem keeps_of_pop {s t : Stack} {w : Word} (h : s.pop = .ok (w, t)) : s.Keeps t := by
  unfold pop at h
  cases hs : s.words with
  | nil => rw [hs] at h; cases h
  | cons v vs =>
    rw [hs] at h
    obtain ⟨-, rfl⟩ := Prod.mk.inj (Except.ok.inj h)
    refine ⟨rfl, ?_⟩
    show vs.length ≤ max s.words.length s.capacity
    rw [hs, List.length_cons]
    omega

theorem fault_of_push {s : Stack} {w : Word} {f : Fault} (h : s.push w = .error f) :
    f = .stackOverflow := by
  unfold push at h
  split at h <;> cases h
  rfl

theorem fault_of_pop {s : Stack} {f : Fault} (h : s.pop = .error f) : f = .stackUnderflow := by
  unfold pop at h
  split at h <;> cases h
  rfl

end Stack

/-! ## One instruction -/

/-- Whether the instruction says which one comes next. -/
def Instruction.jumps {α : Type} : Instruction α → Bool
  | .branch .. | .jarl .. | .jne _ => true
  | _ => false

/-- The faults of an instruction that cannot do its work. -/
def Fault.OfWork : Fault → Prop
  | .divideByZero | .accessViolation _ | .stackOverflow | .stackUnderflow => True
  | .illegalOpcode _ | .pcOutOfBounds _ | .programTooLarge _ => False

namespace Machine

/-- How an instruction ends. -/
inductive Ends (m : Machine) (i : Instruction Displacement) : Machine × Outcome → Prop
  /-- A `halt` is counted. -/
  | halted (hi : i = .halt) : Ends m i ({ m with executed := m.executed + 1 }, .halted)
  /-- A jump leads to an address of memory, and may write a register. -/
  | jumped {target : Int} {registers : Registers} (hi : i.jumps)
      (inside : 0 ≤ target ∧ target < maxWords) :
      Ends m i ({ m with registers, pc := target.toNat, executed := m.executed + 1 }, .ran)
  /-- A jump leads out of memory, and nothing is done. -/
  | strayed {target : Int} (hi : i.jumps) : Ends m i (m, .fault (.pcOutOfBounds target))
  /-- The work cannot be done, and nothing is done. -/
  | refused {f : Fault} (hi : i.jumps = false) (hf : f.OfWork) : Ends m i (m, .fault f)
  /-- The work is done, which is the same at any address, and then the next instruction comes. -/
  | worked {registers : Registers} {memory : Memory} {stack : Stack} {flag : Bool}
      (hi : i.jumps = false) (hh : i ≠ .halt) (grows : m.memory.Grows memory)
      (keeps : m.stack.Keeps stack)
      (anywhere : ∀ p, ({ m with pc := p } : Machine).execute i =
        ({ m with registers, memory, stack, flag, pc := p } : Machine).next) :
      Ends m i ({ m with registers, memory, stack, flag } : Machine).next

section Rows
variable (m : Machine)

theorem advance_ends {i : Instruction Displacement} (hi : i.jumps) (target : Int) :
    m.Ends i (m.advance target) := by
  unfold advance
  by_cases h : 0 ≤ target ∧ target < maxWords
  · rw [if_pos h]
    exact .jumped hi h
  · rw [if_neg h]
    exact .strayed hi

theorem jump_ends {i : Instruction Displacement} (hi : i.jumps) (taken : Bool) (d : Displacement) :
    m.Ends i (m.jump taken d) := by
  unfold jump next
  split <;> exact m.advance_ends hi _

theorem jumpAndLink_ends (a b : Register) : m.Ends (.jarl a b) (m.jumpAndLink a b) := by
  obtain ⟨⟨kept, target⟩, h⟩ : ∃ r, (if m.register a = m.register b then
      (a, ((m.pc + 1 : Nat) : Int)) else (b, (m.register a).toInt)) = r := ⟨_, rfl⟩
  rw [jumpAndLink_of_target h]
  by_cases ht : 0 ≤ target ∧ target < maxWords
  · rw [if_pos ht]
    exact .jumped rfl ht
  · rw [if_neg ht]
    exact .strayed rfl

theorem compute_ends (op : Alu) (a b c : Register) :
    m.Ends (.alu op a b c) (m.compute op a b c) := by
  have hanywhere : ∀ p, ({ m with pc := p } : Machine).execute (.alu op a b c) =
      ({ m with pc := p } : Machine).compute op a b c := fun _ => rfl
  unfold compute at *
  cases hv : op.value? (m.register a) (m.register b) with
  | none => exact .refused rfl trivial
  | some w =>
    have hvalue : ∀ p, op.value? (({ m with pc := p } : Machine).register a)
        (({ m with pc := p } : Machine).register b) = some w := fun _ => hv
    simp only [hvalue] at hanywhere
    cases op <;> exact .worked rfl (fun h => by cases h) (.refl _) (.refl _) hanywhere

theorem load_ends (a b : Register) (d : Displacement) :
    m.Ends (.transfer .lw a b d) (m.transfer .lw a b d) := by
  unfold transfer
  cases hr : m.memory.read (m.effective a d) with
  | error f => exact .refused rfl (Memory.fault_of_read hr ▸ trivial)
  | ok r =>
    refine .worked rfl (fun h => by cases h) (Memory.grows_of_read hr) (.refl _) fun p => ?_
    show ({ m with pc := p } : Machine).transfer .lw a b d = _
    unfold transfer
    simp only [show m.memory.read (({ m with pc := p } : Machine).effective a d) = .ok r from hr]
    rfl

theorem store_ends (a b : Register) (d : Displacement) :
    m.Ends (.transfer .sw a b d) (m.transfer .sw a b d) := by
  unfold transfer
  cases hw : m.memory.write (m.effective a d) (m.register b) with
  | error f => exact .refused rfl (Memory.fault_of_write hw ▸ trivial)
  | ok memory =>
    refine .worked rfl (fun h => by cases h) (Memory.grows_of_write hw) (.refl _) fun p => ?_
    show ({ m with pc := p } : Machine).transfer .sw a b d = _
    unfold transfer
    simp only [show m.memory.write (({ m with pc := p } : Machine).effective a d)
      (({ m with pc := p } : Machine).register b) = .ok memory from hw]

theorem scan_ends (op : Scan) (a b : Register) : m.Ends (.scan op a b) (m.scan op a b) := by
  unfold scan
  cases hi : op.index? (m.register a) with
  | none =>
    refine .worked rfl (fun h => by cases h) (.refl _) (.refl _) fun p => ?_
    show ({ m with pc := p } : Machine).scan op a b = _
    unfold scan
    simp only [show op.index? (({ m with pc := p } : Machine).register a) = none from hi]
    rfl
  | some k =>
    refine .worked rfl (fun h => by cases h) (.refl _) (.refl _) fun p => ?_
    show ({ m with pc := p } : Machine).scan op a b = _
    unfold scan
    simp only [show op.index? (({ m with pc := p } : Machine).register a) = some k from hi]
    rfl

theorem pop_ends (r : Register) : m.Ends (.pop r) (m.execute (.pop r)) := by
  unfold execute
  cases hs : m.stack.pop with
  | error f => exact .refused rfl (Stack.fault_of_pop hs ▸ trivial)
  | ok x =>
    refine .worked rfl (fun h => by cases h) (.refl _) (Stack.keeps_of_pop hs) fun p => ?_
    unfold execute
    simp only [hs]
    rfl

theorem push_ends (r : Register) : m.Ends (.push r) (m.execute (.push r)) := by
  unfold execute
  cases hs : m.stack.push (m.register r) with
  | error f =>
    simp only [hs]
    rw [Stack.fault_of_push hs]
    exact .refused rfl trivial
  | ok stack =>
    simp only [hs]
    refine .worked rfl (fun h => by cases h) (.refl _) (Stack.keeps_of_push hs) fun p => ?_
    unfold execute
    simp only [show m.stack.push (({ m with pc := p } : Machine).register r) = .ok stack from hs]

/-- Every instruction ends in one of the five ways. -/
theorem execute_ends (i : Instruction Displacement) : m.Ends i (m.execute i) := by
  cases i with
  | alu op a b c => exact m.compute_ends op a b c
  | transfer op a b d => cases op with
    | lw => exact m.load_ends a b d
    | sw => exact m.store_ends a b d
  | branch op a b d => exact m.jump_ends rfl _ d
  | jarl a b => exact m.jumpAndLink_ends a b
  | halt => exact .halted rfl
  | scan op a b => exact m.scan_ends op a b
  | jne d => exact m.jump_ends rfl _ d
  | pop r => exact m.pop_ends r
  | push r => exact m.push_ends r

end Rows

/-! ## One step -/

/-- The instruction at the program counter, if there is one. -/
def instruction? (m : Machine) : Option (Instruction Displacement) :=
  (m.memory.get? m.pc).bind fun w => (Instruction.decode w).toOption

theorem instruction?_eq_some_iff {m : Machine} {i : Instruction Displacement} :
    m.instruction? = some i ↔ ∃ w, m.memory.get? m.pc = some w ∧ Instruction.decode w = .ok i := by
  unfold instruction?
  rw [Option.bind_eq_some_iff]
  refine exists_congr fun w => and_congr_right fun _ => ?_
  cases Instruction.decode w with
  | error code => exact ⟨nofun, nofun⟩
  | ok j => exact ⟨fun h => congrArg _ (Option.some.inj h), fun h => congrArg _ (Except.ok.inj h)⟩

theorem step_eq_execute_of {m : Machine} {i : Instruction Displacement}
    (h : m.instruction? = some i) : m.step = m.execute i := by
  obtain ⟨w, hw, hi⟩ := instruction?_eq_some_iff.1 h
  unfold step
  simp only [hw, hi]

/-- How a step ends: there is no word, the word is no instruction, or the instruction ends. -/
inductive StepEnds (m : Machine) : Machine × Outcome → Prop
  | lost (hw : m.memory.get? m.pc = none) : StepEnds m (m, .fault (.pcOutOfBounds m.pc))
  | illegal {code : Nat} (hi : m.instruction? = none) : StepEnds m (m, .fault (.illegalOpcode code))
  | executed {i : Instruction Displacement} {r : Machine × Outcome} (hi : m.instruction? = some i)
      (ends : m.Ends i r) : StepEnds m r

theorem step_ends (m : Machine) : m.StepEnds m.step := by
  unfold step
  cases hw : m.memory.get? m.pc with
  | none => exact .lost hw
  | some w =>
    have hinstruction : m.instruction? = (Instruction.decode w).toOption := by
      rw [instruction?, hw, Option.bind_some]
    cases hd : Instruction.decode w with
    | error code =>
      rw [hd] at hinstruction
      simp only [hd]
      exact .illegal hinstruction
    | ok i =>
      rw [hd] at hinstruction
      simp only [hd]
      exact .executed hinstruction (m.execute_ends i)

end Machine

end SolMachine
