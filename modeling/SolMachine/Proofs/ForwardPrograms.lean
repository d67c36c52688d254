import SolMachine.Proofs.Effects
import SolMachine.Proofs.History

/-!
# Programs that only lead forward

* `Instruction.isForward` : whether an instruction writes nothing to memory and cannot lead back;
* `Machine.Forward` : memory holds no other instruction, whatever else it holds;
* `Forward.of_ran`, `Forward.pc_lt` : a step keeps it so, and goes to a greater address;
* `Forward.snd_walk_ne_paused` : so a run is over before it has made as many steps as addresses are left;
* `loop_eq_walk_of_ended` : a run without limit ends as a run of enough steps does;
* `forward_runs_end` : every run of such a program comes to an end.

The zeros that a load adds to memory are instructions too, and are forward.
-/

namespace SolMachine

/-- Whether the instruction neither writes to memory nor can lead to its own address or one before. -/
def Instruction.isForward : Instruction Displacement → Bool
  | .transfer .sw .. | .jarl .. => false
  | .branch _ _ _ d | .jne d => decide (0 ≤ d.value.toInt)
  | _ => true

theorem Instruction.stores_of_isForward {i : Instruction Displacement} (h : i.isForward) :
    i.stores = false := by
  cases i with
  | transfer op a b d => cases op <;> first | rfl | cases h
  | _ => rfl

namespace Machine

/-- No word in memory is an instruction that writes to memory or can lead back. -/
def Forward (m : Machine) : Prop :=
  ∀ a w i, m.memory.get? a = some w → Instruction.decode w = .ok i → i.isForward

/-! ## One step -/

section Step
variable {m k : Machine} {i : Instruction Displacement}

theorem pc_of_advance {target : Int} (h : m.advance target = (k, .ran)) : (k.pc : Int) = target := by
  by_cases ht : 0 ≤ target ∧ target < maxWords
  · rw [m.advance_eq ht] at h
    obtain ⟨rfl, -⟩ := Prod.mk.inj h
    exact Int.toNat_of_nonneg ht.1
  · rw [m.advance_eq_fault ht] at h
    cases h

theorem lt_pc_of_jump {taken : Bool} {d : Displacement} (hd : 0 ≤ d.value.toInt)
    (h : m.jump taken d = (k, .ran)) : m.pc < k.pc := by
  unfold jump next at h
  split at h
  · have hpc := pc_of_advance h
    omega
  · have hpc := pc_of_advance h
    omega

theorem lt_pc_of_execute (hi : i.isForward) (h : m.execute i = (k, .ran)) : m.pc < k.pc := by
  have hnext : i.jumps = false → i ≠ .halt → (k.pc : Int) = m.pc + 1 := (leads_of_execute h).pc
  cases i with
  | branch op a b d => exact lt_pc_of_jump (of_decide_eq_true hi) h
  | jne d => exact lt_pc_of_jump (of_decide_eq_true hi) h
  | jarl a b => cases hi
  | halt => cases h
  | alu | transfer | scan | pop | push =>
    have hpc := hnext rfl (by simp)
    omega

theorem Forward.instruction (hm : m.Forward) (hi : m.instruction? = some i) : i.isForward := by
  obtain ⟨w, hw, hdecode⟩ := instruction?_eq_some_iff.1 hi
  exact hm m.pc w i hw hdecode

/-- A step of such a program goes to a greater address. -/
theorem Forward.pc_lt (hm : m.Forward) (h : m.step = (k, .ran)) : m.pc < k.pc := by
  obtain ⟨i, hi, hexecute⟩ := exists_instruction_of_ran h
  exact lt_pc_of_execute (hm.instruction hi) hexecute

/-- A step of such a program adds nothing to memory but zeros, which are additions and lead forward. -/
theorem Forward.of_ran (hm : m.Forward) (h : m.step = (k, .ran)) : k.Forward := by
  obtain ⟨i, hi, hexecute⟩ := exists_instruction_of_ran h
  have hstores := Instruction.stores_of_isForward (hm.instruction hi)
  have hmemory : m.memory.Extends k.memory :=
    extends_of_view ((leads_of_execute hexecute).memory hstores)
  intro a w j hw hj
  rcases hmemory a with hsame | ⟨-, hzero⟩
  · exact hm a w j (hsame.symm.trans hw) hj
  · have hadd : Instruction.decode 0 = .ok (.alu .add 0 0 0) := rfl
    obtain rfl := Option.some.inj (hzero.symm.trans hw)
    obtain rfl := Except.ok.inj (hadd.symm.trans hj)
    rfl

end Step

/-! ## Runs -/

section Runs
variable {m : Machine} {n fuel : Nat}

/-- Each step of a run takes at least one of the addresses that are left. -/
theorem Forward.snd_walk_ne_paused (hm : m.Forward) (hpc : m.pc < maxWords)
    (hn : maxWords ≤ m.pc + n) : (walk n m).2 ≠ .paused := by
  induction n, m using walk.induct with
  | case1 m => omega
  | case2 n m k hstep ih =>
    have hlt := hm.pc_lt hstep
    have hinside : k.pc < maxWords := by
      rcases (evolves_of_step hstep).pc with hsame | hinside
      · omega
      · exact hinside
    rw [walk_of_ran hstep]
    exact ih (hm.of_ran hstep) hinside (by omega)
  | case3 n m k hstep =>
    rw [walk_of_halted hstep]
    simp
  | case4 n m k f hstep =>
    rw [walk_of_fault hstep]
    simp

/-- A run without limit goes as far as a run that has ended. -/
theorem loop_eq_walk_of_ended (h : (walk n m).2 ≠ .paused) (hn : n ≤ fuel) :
    loop (fun k => (true, k)) fuel m = some (walk n m) := by
  induction n, m using walk.induct generalizing fuel with
  | case1 m => exact absurd rfl h
  | case2 n m k hstep ih =>
    obtain ⟨fuel, rfl⟩ := Nat.exists_eq_add_of_lt hn
    rw [walk_of_ran hstep] at h ⊢
    rw [loop_succ fun _ => rfl, if_pos rfl, hstep]
    exact ih h (by omega)
  | case3 n m k hstep =>
    obtain ⟨fuel, rfl⟩ := Nat.exists_eq_add_of_lt hn
    rw [loop_succ fun _ => rfl, if_pos rfl, hstep, walk_of_halted hstep]
  | case4 n m k f hstep =>
    obtain ⟨fuel, rfl⟩ := Nat.exists_eq_add_of_lt hn
    rw [loop_succ fun _ => rfl, if_pos rfl, hstep, walk_of_fault hstep]

/-- A machine whose memory only leads forward comes to a `halt` or a fault, whatever else its words are
and whatever its registers, stack and flag hold. From address `m.pc`, which in every machine with a
history is one of memory (`Reachable.bounded`), it needs no more steps than there are addresses from there
on, and without a limit it ends in the same way. -/
theorem forward_runs_end {m : Machine} (hpc : m.pc < 16384) (hm : m.Forward) :
    ∃ k e, m.runLimited (UInt64.ofNat (16384 - m.pc)) = some (k, e) ∧
      (e = .halted ∧ k.halted = true ∨ ∃ f, e = .fault f) ∧
      ∀ fuel, 16384 - m.pc ≤ fuel → m.run fuel = some (k, e) := by
  have hmax : maxWords = 16384 := rfl
  have hleft : m.pc + (16384 - m.pc) = 16384 := by omega
  have hlimit : (UInt64.ofNat (16384 - m.pc)).toNat = 16384 - m.pc := by
    refine UInt64.toNat_ofNat_of_lt' ?_
    have hsize : 16384 < UInt64.size := by decide
    omega
  have hawake : m.awake.Forward := hm
  have hended : (walk (16384 - m.pc) m.awake).2 ≠ .paused :=
    hawake.snd_walk_ne_paused hpc (Nat.le_of_eq hleft.symm)
  refine ⟨(walk (16384 - m.pc) m.awake).1, (walk (16384 - m.pc) m.awake).2, ?_, ?_,
    fun fuel hfuel => loop_eq_walk_of_ended hended hfuel⟩
  · rw [runLimited_eq, hlimit]
    rfl
  · have hhalted : (walk (16384 - m.pc) m.awake).1.halted = true ↔ _ := halted_walk rfl
    cases he : (walk (16384 - m.pc) m.awake).2 with
    | paused => exact absurd he hended
    | halted => exact .inl ⟨rfl, hhalted.2 he⟩
    | fault f => exact .inr ⟨f, rfl⟩

/-- A branch over a word that is no instruction, and a load that adds the word at address 5 to memory:
the run goes through the zeros that are added, and ends behind them. -/
theorem forward_runs_end_zeros :
    ∃ m k : Machine, m.Reachable ∧ m.pc < 16384 ∧ m.Forward ∧
      m.runLimited 16384 = some (k, .fault (.pcOutOfBounds 6)) ∧ k.memory.size = 6 ∧
      ∀ fuel, 16384 ≤ fuel → m.run fuel = some (k, .fault (.pcOutOfBounds 6)) := by
  let words : List Word := [(Instruction.branch .beq 0 0 (Offset.wrap 15 1)).encode, -1,
    (Instruction.transfer .lw 0 1 (Offset.wrap 15 5)).encode]
  let m : Machine := { new .standard with memory := .ofList words }
  have hforward : m.Forward := by
    have hwords : words.all fun w =>
        match Instruction.decode w with
        | .ok i => i.isForward
        | .error _ => true := by decide +kernel
    intro a w i hw hi
    have hmem : w ∈ words := List.mem_toArray.1 (Array.mem_of_getElem? hw)
    have hw := List.all_eq_true.1 hwords w hmem
    rwa [hi] at hw
  have hstart : m.pc < 16384 := by decide
  have hrun : (m.runLimited 16384).map (fun r => (r.1.memory.size, r.2)) =
      some (6, .fault (.pcOutOfBounds 6)) := by decide +kernel
  obtain ⟨k, e, hlimited, -, hunlimited⟩ := forward_runs_end hstart hforward
  have hlimited' : m.runLimited 16384 = some (k, e) := hlimited
  rw [hlimited', Option.map_some] at hrun
  obtain ⟨hsize, rfl⟩ := Prod.mk.inj (Option.some.inj hrun)
  exact ⟨m, k, ⟨.standard, .replicate 16 0, [.load words], rfl⟩, hstart, hforward, hlimited', hsize,
    hunlimited⟩

end Runs

end Machine

end SolMachine
