import SolMachine.Machine.Trace
import SolMachine.Proofs.Endings

/-!
# What execution keeps

* `Machine.Evolves` : memory grows and does not pass its limit, the stack does not pass its capacity,
  and the program counter stays or goes to an address of memory;
* `step_evolves` : a step, whether it succeeds or not, and from it `evolves_of_loop`,
  `evolves_of_traceLoop` : runs of any length;
* `RoundEnds`, `traceRound_ends` : what one round of a trace does;
* `instruction?_of_halted` : a step that ends in a `halt` leaves the machine at it, and so does a run
  (`instruction?_of_loop`).
-/

namespace SolMachine.Machine

/-- `n` comes from `m` by execution. -/
structure Evolves (m n : Machine) : Prop where
  memory : m.memory.Grows n.memory
  stack : m.stack.Keeps n.stack
  pc : n.pc = m.pc ∨ n.pc < maxWords
  config : n.config = m.config

theorem Evolves.refl (m : Machine) : m.Evolves m := ⟨.refl _, .refl _, .inl rfl, rfl⟩

theorem Evolves.trans {m n k : Machine} (h : m.Evolves n) (h' : n.Evolves k) : m.Evolves k := by
  refine ⟨h.memory.trans h'.memory, h.stack.trans h'.stack, ?_, h'.config.trans h.config⟩
  rcases h'.pc with hpc | hpc
  · rw [hpc]
    exact h.pc
  · exact .inr hpc

/-! ## One step -/

section Step
variable {m n : Machine}

theorem advance_eq (m : Machine) {target : Int} (h : 0 ≤ target ∧ target < maxWords) :
    m.advance target = ({ m with pc := target.toNat, executed := m.executed + 1 }, .ran) := if_pos h

theorem advance_eq_fault (m : Machine) {target : Int} (h : ¬ (0 ≤ target ∧ target < maxWords)) :
    m.advance target = (m, .fault (.pcOutOfBounds target)) := if_neg h

theorem Evolves.advance (h : m.Evolves n) (target : Int) : m.Evolves (n.advance target).1 := by
  by_cases ht : 0 ≤ target ∧ target < maxWords
  · have hpc : target.toNat < maxWords := by omega
    rw [n.advance_eq ht]
    exact ⟨h.memory, h.stack, .inr hpc, h.config⟩
  · rw [n.advance_eq_fault ht]
    exact h

theorem Ends.evolves {i : Instruction Displacement} {r : Machine × Outcome} (h : m.Ends i r) :
    m.Evolves r.1 := by
  cases h with
  | halted => exact ⟨.refl _, .refl _, .inl rfl, rfl⟩
  | @jumped target _ _ inside =>
    have hpc : target.toNat < maxWords := by omega
    exact ⟨.refl _, .refl _, .inr hpc, rfl⟩
  | strayed | refused => exact .refl m
  | @worked registers memory stack flag _ _ grows keeps =>
    have hwork : m.Evolves { m with registers, memory, stack, flag } := ⟨grows, keeps, .inl rfl, rfl⟩
    exact hwork.advance _

theorem StepEnds.evolves {r : Machine × Outcome} (h : m.StepEnds r) : m.Evolves r.1 := by
  cases h with
  | lost | illegal => exact .refl m
  | executed _ ends => exact ends.evolves

/-- A step, whether it succeeds or not. -/
theorem step_evolves (m : Machine) : m.Evolves m.step.1 := m.step_ends.evolves

theorem evolves_of_step {o : Outcome} (h : m.step = (n, o)) : m.Evolves n := by
  have hevolves := m.step_evolves
  rwa [h] at hevolves

/-- Whether the last run ended at a `halt` does not matter to evolution. -/
theorem Evolves.withHalted (h : m.Evolves n) (b c : Bool) :
    ({ m with halted := b } : Machine).Evolves { n with halted := c } :=
  ⟨h.memory, h.stack, h.pc, h.config⟩

theorem stepIn_evolves (m : Machine) : m.Evolves m.stepIn.1 :=
  (step_evolves { m with halted := false }).withHalted m.halted _

theorem evolves_of_stepIn {o : Outcome} (h : m.stepIn = (n, o)) : m.Evolves n := by
  have hevolves := m.stepIn_evolves
  rwa [h] at hevolves

theorem fst_advance_halted (m : Machine) (target : Int) : (m.advance target).1.halted = m.halted := by
  unfold advance
  split <;> rfl

theorem StepEnds.halted_eq {r : Machine × Outcome} (h : m.StepEnds r) : r.1.halted = m.halted := by
  cases h with
  | lost | illegal => rfl
  | executed _ ends =>
    cases ends with
    | halted | jumped | strayed | refused => rfl
    | worked =>
      unfold next
      rw [fst_advance_halted]

/-- A step does not say whether the run has ended. -/
theorem fst_step_halted (m : Machine) : m.step.1.halted = m.halted := m.step_ends.halted_eq

theorem snd_advance_ne_halted (m : Machine) (target : Int) : (m.advance target).2 ≠ .halted := by
  unfold advance
  split <;> exact fun h => by cases h

/-- A step that ends in a `halt` leaves the machine at it. -/
theorem instruction?_of_halted (h : m.step = (n, .halted)) : n.instruction? = some .halt := by
  have hends := m.step_ends
  generalize hr : m.step = r at hends
  rw [h] at hr
  cases hends with
  | lost | illegal => cases hr
  | executed hi ends =>
    cases ends with
    | halted hhalt =>
      obtain ⟨rfl, -⟩ := Prod.mk.inj hr
      rw [← hhalt, ← hi]
      rfl
    | jumped | strayed | refused => cases hr
    | worked => exact absurd (congrArg Prod.snd hr).symm (snd_advance_ne_halted _ _)

theorem executed_of_advance {target : Int} (h : m.advance target = (n, .ran)) :
    n.executed = m.executed + 1 := by
  unfold advance at h
  split at h
  · obtain ⟨rfl, -⟩ := Prod.mk.inj h
    rfl
  · cases h

/-- A step that goes on is counted. -/
theorem executed_of_ran (h : m.step = (n, .ran)) : n.executed = m.executed + 1 := by
  have hends := m.step_ends
  generalize hr : m.step = r at hends
  rw [h] at hr
  cases hends with
  | lost | illegal => cases hr
  | executed hi ends =>
    cases ends with
    | jumped =>
      obtain ⟨rfl, -⟩ := Prod.mk.inj hr
      rfl
    | halted | strayed | refused => cases hr
    | worked => exact (executed_of_advance hr.symm).trans rfl

end Step

/-! ## Runs -/

section Runs
variable {condition : Machine → Bool × Machine} {m n : Machine} {e : RunEnd} {fuel : Nat}

/-- The ways in which a loop goes on, for a condition that leaves the machine alone. -/
theorem loop_succ (hc : ∀ k, (condition k).2 = k) (m : Machine) (fuel : Nat) :
    loop condition (fuel + 1) m =
      if (condition m).1 then
        match m.step with
        | (m, .ran) => loop condition fuel m
        | (m, .halted) => some ({ m with halted := true }, .halted)
        | (m, .fault f) => some (m, .fault f)
      else some (m, .paused) := by
  have hm := hc m
  rw [loop]
  generalize condition m = r at hm
  obtain ⟨b, k⟩ := r
  obtain rfl : k = m := hm
  cases b <;> rfl

theorem evolves_of_loop (hc : ∀ k, (condition k).2 = k)
    (h : loop condition fuel m = some (n, e)) : m.Evolves n := by
  induction fuel generalizing m with
  | zero => cases h
  | succ fuel ih =>
    rw [loop_succ hc] at h
    split at h
    · split at h
      · next k hstep => exact (evolves_of_step hstep).trans (ih h)
      · next k hstep =>
        obtain ⟨rfl, -⟩ := Prod.mk.inj (Option.some.inj h)
        exact (evolves_of_step hstep).withHalted m.halted true
      · next k f hstep =>
        obtain ⟨rfl, -⟩ := Prod.mk.inj (Option.some.inj h)
        exact evolves_of_step hstep
    · obtain ⟨rfl, -⟩ := Prod.mk.inj (Option.some.inj h)
      exact .refl m

/-- A run that is said to have halted has stopped at a `halt`. -/
theorem instruction?_of_loop (hc : ∀ k, (condition k).2 = k) (hm : m.halted = false)
    (h : loop condition fuel m = some (n, e)) (hn : n.halted) : n.instruction? = some .halt := by
  induction fuel generalizing m with
  | zero => cases h
  | succ fuel ih =>
    have hkept := m.fst_step_halted
    rw [loop_succ hc] at h
    split at h
    · split at h
      · next k hstep =>
        rw [hstep] at hkept
        exact ih (hkept.trans hm) h
      · next k hstep =>
        obtain ⟨rfl, -⟩ := Prod.mk.inj (Option.some.inj h)
        have hinstruction := instruction?_of_halted hstep
        exact hinstruction
      · next k f hstep =>
        obtain ⟨rfl, -⟩ := Prod.mk.inj (Option.some.inj h)
        rw [hstep] at hkept
        rw [hkept, hm] at hn
        cases hn
    · obtain ⟨rfl, -⟩ := Prod.mk.inj (Option.some.inj h)
      rw [hm] at hn
      cases hn

end Runs

/-! ## Traces -/

/-- What one round of a trace does: it goes on with a machine and a text, or it ends there. -/
inductive RoundEnds (start : UInt64) (limit : Option UInt64) (m : Machine) (sink : Sink) :
    (Machine × Sink) ⊕ TraceResult → Prop where
  | limit {n : UInt64} (hat : m.atLimit start limit = some n) :
    RoundEnds start limit m sink (.inr ⟨m, sink, .error (.stepLimit n)⟩)
  | fault {k : Machine} {f : Fault} (hat : m.atLimit start limit = none)
    (hstep : m.stepIn = (k, .fault f)) :
    RoundEnds start limit m sink (.inr ⟨k, sink, .error (.fault f)⟩)
  | halted {k : Machine} {after : Sink} (hat : m.atLimit start limit = none)
    (hstep : m.stepIn = (k, .halted)) (hput : sink.put k.haltText = (after, true)) :
    RoundEnds start limit m sink (.inr ⟨k, after, .ok k.executed⟩)
  | ran {k : Machine} {after : Sink} (hat : m.atLimit start limit = none)
    (hstep : m.stepIn = (k, .ran)) (hput : sink.put k.stateText = (after, true)) :
    RoundEnds start limit m sink (.inl (k, after))
  | full {k : Machine} {o : Outcome} {piece : String} {after : Sink}
    (hat : m.atLimit start limit = none) (hstep : m.stepIn = (k, o))
    (hput : sink.put piece = (after, false)) :
    RoundEnds start limit m sink (.inr ⟨k, after, .error .full⟩)

theorem traceRound_ends (start : UInt64) (limit : Option UInt64) (m : Machine) (sink : Sink) :
    RoundEnds start limit m sink (traceRound start limit m sink) := by
  unfold traceRound
  cases hat : m.atLimit start limit with
  | some n => exact .limit hat
  | none =>
    rcases hstep : m.stepIn with ⟨k, outcome⟩
    cases outcome with
    | fault f => exact .fault hat hstep
    | halted =>
      dsimp only
      rcases hput : sink.put k.haltText with ⟨after, _ | _⟩
      · exact .full hat hstep hput
      · exact .halted hat hstep hput
    | ran =>
      dsimp only
      rcases hput : sink.put k.stateText with ⟨after, _ | _⟩
      · exact .full hat hstep hput
      · exact .ran hat hstep hput

theorem evolves_of_traceLoop {start : UInt64} {limit : Option UInt64} {fuel : Nat} {m : Machine}
    {sink : Sink} {r : TraceResult} (h : traceLoop start limit fuel m sink = some r) :
    m.Evolves r.machine := by
  induction fuel generalizing m sink with
  | zero => cases h
  | succ fuel ih =>
    have hends := traceRound_ends start limit m sink
    rw [traceLoop] at h
    generalize traceRound start limit m sink = round at h hends
    cases hends with
    | ran hat hstep hput => exact (evolves_of_stepIn hstep).trans (ih h)
    | limit hat =>
      obtain rfl := Option.some.inj h
      exact .refl m
    | fault hat hstep | halted hat hstep hput | full hat hstep hput =>
      obtain rfl := Option.some.inj h
      exact evolves_of_stepIn hstep

theorem evolves_of_traceWith {limit : Option UInt64} {room : Option Nat} {fuel : Nat} {m : Machine}
    {r : TraceResult} (h : m.traceWith limit room fuel = some r) : m.Evolves r.machine := by
  unfold traceWith traceFrom at h
  split at h
  · obtain rfl := Option.some.inj h
    exact .refl m
  · split at h
    · obtain rfl := Option.some.inj h
      exact .refl m
    · exact evolves_of_traceLoop h

end SolMachine.Machine
