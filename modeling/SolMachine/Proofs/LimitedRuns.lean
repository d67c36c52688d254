import SolMachine.Proofs.Walks

/-!
# Runs to a limit and single steps

* `Machine.stepMany` : single steps from outside, until one fails or comes to a `halt`, or so many are
  made, with the outcome of each;
* `Machine.Retraces`, `retraces_stepMany` : a run makes the same steps, and their outcomes count what it
  passes and what it executes;
* `snd_walk_eq_paused_iff` : a run pauses exactly if it passes as many steps as it may;
* `Machine.stepped`, `stepped_of_halt` : further steps of a machine that stands at a `halt`;
* `Machine.StepsTo` : what a run to a limit has in common with single steps;
* `limited_runs_exact` : every run to a limit has that, from every machine, and a machine that has
  halted goes on being at its `halt`.
-/

namespace SolMachine

/-- How a run ends whose last step ended so. -/
def Outcome.runEnd : Outcome → RunEnd
  | .ran => .paused
  | .halted => .halted
  | .fault f => .fault f

/-- Whether the step was carried out. -/
def Outcome.succeeds : Outcome → Bool
  | .ran | .halted => true
  | .fault _ => false

/-- How steps with these outcomes have ended; where there is none, nothing has ended them. -/
def RunEnd.ofOutcomes (os : List Outcome) : RunEnd := (os.getLast?.map Outcome.runEnd).getD .paused

theorem RunEnd.ofOutcomes_ran (os : List Outcome) : ofOutcomes (.ran :: os) = ofOutcomes os := by
  unfold ofOutcomes
  cases os with
  | nil => rfl
  | cons o os => rw [List.getLast?_cons_cons]

namespace Machine

/-! ## Single steps, one after the other -/

/-- The machine after single steps, which are made until one fails or comes to a `halt`, or until `n`
are made, and the outcome of each. -/
def stepMany : Nat → Machine → Machine × List Outcome
  | 0, m => (m, [])
  | n + 1, m =>
    match m.stepIn with
    | (k, .ran) => ((stepMany n k).1, .ran :: (stepMany n k).2)
    | (k, o) => (k, [o])

/-- The machine after `j` single steps, whatever comes of them. -/
def stepped : Nat → Machine → Machine
  | 0, m => m
  | j + 1, m => stepped j m.stepIn.1

section StepMany
variable {m k : Machine} {n : Nat} {f : Fault}

theorem stepMany_of_ran (h : m.stepIn = (k, .ran)) (n : Nat) :
    stepMany (n + 1) m = ((stepMany n k).1, .ran :: (stepMany n k).2) := by
  rw [stepMany, h]

theorem stepMany_of_halted (h : m.stepIn = (k, .halted)) (n : Nat) :
    stepMany (n + 1) m = (k, [.halted]) := by
  rw [stepMany, h]

theorem stepMany_of_fault (h : m.stepIn = (k, .fault f)) (n : Nat) :
    stepMany (n + 1) m = (k, [.fault f]) := by
  rw [stepMany, h]

/-- A single step forgets by itself whether the last run ended at a `halt`. -/
theorem stepMany_awake (n : Nat) (m : Machine) : stepMany (n + 1) m.awake = stepMany (n + 1) m := rfl

theorem snd_stepMany_awake (n : Nat) (m : Machine) : (stepMany n m.awake).2 = (stepMany n m).2 := by
  cases n with
  | zero => rfl
  | succ n => rw [stepMany_awake]

/-- Single steps with the result `r` are those of a run of at most `n` steps. -/
structure Retraces (n : Nat) (m : Machine) (r : Machine × List Outcome) : Prop where
  run : walk n m = (r.1, .ofOutcomes r.2)
  /-- The steps that go on are those that the run passes. -/
  passes : r.2.count .ran = (passed n m).length
  /-- The steps that succeed are those that the run executes. -/
  executes : r.2.countP Outcome.succeeds = steps n m

/-- A run makes the same steps as are made from outside. -/
theorem retraces_stepMany (hm : m.halted = false) : Retraces n m (stepMany n m) := by
  induction n, m using walk.induct with
  | case1 m => exact ⟨rfl, rfl, rfl⟩
  | case2 n m k hstep ih =>
    have hin : m.stepIn = (k, .ran) := stepIn_of_ran (by rwa [awake_eq hm])
    have hk : k.halted = false := halted_of_step (m := m) (by rwa [awake_eq hm])
    obtain ⟨hrun, hpasses, hexecutes⟩ := ih hk
    rw [stepMany_of_ran hin]
    refine ⟨?_, ?_, ?_⟩
    · rw [walk_of_ran hstep, hrun, RunEnd.ofOutcomes_ran]
    · rw [passed_of_ran hstep, List.count_cons_self, hpasses, List.length_cons]
    · rw [steps_of_ran hstep, List.countP_cons_of_pos rfl, hexecutes]
  | case3 n m k hstep =>
    have hin : m.stepIn = ({ k with halted := true }, .halted) :=
      stepIn_of_halted (by rwa [awake_eq hm])
    rw [stepMany_of_halted hin]
    refine ⟨walk_of_halted hstep n, ?_, ?_⟩
    · rw [passed_of_halted hstep]
      rfl
    · rw [steps_of_halted hstep]
      rfl
  | case4 n m k f hstep =>
    have hin : m.stepIn = (k, .fault f) := stepIn_of_fault (by rwa [awake_eq hm])
    rw [stepMany_of_fault hin]
    refine ⟨walk_of_fault hstep n, ?_, ?_⟩
    · rw [passed_of_fault hstep]
      rfl
    · rw [steps_of_fault hstep]
      rfl

/-- A run pauses exactly if it passes as many steps as it may make. -/
theorem snd_walk_eq_paused_iff (n : Nat) (m : Machine) :
    (walk n m).2 = .paused ↔ (passed n m).length = n := by
  induction n, m using walk.induct with
  | case1 m => exact ⟨fun _ => rfl, fun _ => rfl⟩
  | case2 n m k hstep ih =>
    rw [walk_of_ran hstep, passed_of_ran hstep, List.length_cons, Nat.succ_inj]
    exact ih
  | case3 n m k hstep => simp [walk_of_halted hstep, passed_of_halted hstep]
  | case4 n m k f hstep => simp [walk_of_fault hstep, passed_of_fault hstep]

end StepMany

/-! ## After a halt -/

section Halt
variable {m k : Machine}

/-- A run that halted, whatever its condition, stands at the `halt`. -/
theorem at_halt_of_loop {condition : Machine → Bool × Machine} {fuel : Nat}
    (h : loop condition fuel m = some (k, .halted)) :
    k.halted = true ∧ k.instruction? = some .halt := by
  induction fuel generalizing m with
  | zero => cases h
  | succ fuel ih =>
    rw [loop] at h
    generalize condition m = checked at h
    obtain ⟨goes, n⟩ := checked
    cases goes with
    | false => cases h
    | true =>
      rcases hstep : n.step with ⟨n', o⟩
      simp only [hstep] at h
      cases o with
      | ran => exact ih h
      | fault f => cases h
      | halted =>
        obtain ⟨rfl, -⟩ := Prod.mk.inj (Option.some.inj h)
        have hinstruction := instruction?_of_halted hstep
        exact ⟨rfl, hinstruction⟩

theorem stepIn_of_halt (hm : m.halted = true) (hi : m.instruction? = some .halt) :
    m.stepIn = ({ m with executed := m.executed + 1 }, .halted) := by
  have hawake : m.awake.instruction? = some .halt := hi
  have hstep : m.awake.step = ({ m.awake with executed := m.executed + 1 }, .halted) :=
    step_eq_execute_of hawake
  rw [stepIn_of_halted hstep, ← hm]
  rfl

/-- Further steps of a machine at its `halt` are only counted. -/
theorem stepped_of_halt (hm : m.halted = true) (hi : m.instruction? = some .halt) (j : Nat) :
    stepped j m = { m with executed := m.executed + UInt64.ofNat j } := by
  induction j generalizing m with
  | zero =>
    show m = { m with executed := m.executed + 0 }
    rw [UInt64.add_zero]
  | succ j ih =>
    have hnext : stepped j { m with executed := m.executed + 1 } = _ := ih hm hi
    rw [stepped, stepIn_of_halt hm hi, hnext, UInt64.ofNat_add, UInt64.add_comm (UInt64.ofNat j),
      ← UInt64.add_assoc]
    rfl

end Halt

/-! ## Runs to a limit -/

/-- What a run of `m` to a limit, which ends in `k` in the way `e`, has in common with single steps. -/
structure StepsTo (m : Machine) (limit : UInt64) (k : Machine) (e : RunEnd) : Prop where
  /-- Where no step is allowed, nothing is executed. -/
  idle : limit = 0 → k = { m with halted := false } ∧ e = .paused
  /-- Otherwise the run ends in the machine and in the way in which single steps do. -/
  same : limit ≠ 0 →
    k = (stepMany limit.toNat m).1 ∧ e = .ofOutcomes (stepMany limit.toNat m).2
  halted : k.halted = true ↔ e = .halted
  /-- The limit is reached exactly if as many steps have gone on. -/
  paused : e = .paused ↔ (stepMany limit.toNat m).2.count .ran = limit.toNat
  /-- The count grows by the steps that succeed; it may start again from 0. -/
  executed : k.executed =
    m.executed + UInt64.ofNat ((stepMany limit.toNat m).2.countP Outcome.succeeds)
  /-- Where the limit is reached, a second run goes on like one run to the sum of the limits. -/
  goes_on : e = .paused → ∀ more : UInt64, limit.toNat + more.toNat < UInt64.size →
    k.runLimited more = m.runLimited (limit + more)

section Limit
variable (m : Machine) (limit : UInt64)

theorem runLimited_eq_walk : m.runLimited limit = some (walk limit.toNat m.awake) :=
  m.runLimited_eq limit

theorem goes_on_of_paused (h : (walk limit.toNat m.awake).2 = .paused) {more : UInt64}
    (hsum : limit.toNat + more.toNat < UInt64.size) :
    (walk limit.toNat m.awake).1.runLimited more = m.runLimited (limit + more) := by
  have htoNat : (limit + more).toNat = limit.toNat + more.toNat := by
    rw [UInt64.toNat_add]
    exact Nat.mod_eq_of_lt hsum
  have hawake : (walk limit.toNat m.awake).1.halted = false := by
    have hiff := halted_walk (n := limit.toNat) (m := m.awake) rfl
    rw [h] at hiff
    simpa using hiff
  rw [runLimited_eq_walk, runLimited_eq_walk, htoNat, walk_add h, awake_eq hawake]

theorem stepsTo_walk :
    m.StepsTo limit (walk limit.toNat m.awake).1 (walk limit.toNat m.awake).2 where
  idle h := by
    subst h
    exact ⟨rfl, rfl⟩
  same h := by
    obtain ⟨n, hn⟩ : ∃ n, limit.toNat = n + 1 := by
      refine Nat.exists_eq_succ_of_ne_zero fun hzero => h ?_
      exact UInt64.toNat_inj.1 hzero
    rw [hn, ← stepMany_awake, (retraces_stepMany rfl).run]
    exact ⟨rfl, rfl⟩
  halted := halted_walk rfl
  paused := by
    rw [← snd_stepMany_awake, (retraces_stepMany rfl).passes]
    exact snd_walk_eq_paused_iff _ _
  executed := by
    rw [← snd_stepMany_awake, (retraces_stepMany rfl).executes]
    exact executed_walk _ _
  goes_on h _ hsum := m.goes_on_of_paused limit h hsum

end Limit

/-- A run to a limit makes exactly the single steps that the limit allows, from every machine, with
any count to begin with, and two runs can be put together. After any run that halted, each further
single step succeeds as a `halt` again and is only counted. -/
theorem limited_runs_exact (m : Machine) (limit : UInt64) :
    (∃ k e, m.runLimited limit = some (k, e) ∧ m.StepsTo limit k e) ∧
    ∀ condition fuel k, m.runWhile condition fuel = some (k, .halted) → ∀ j,
      stepped j k = { k with executed := k.executed + UInt64.ofNat j } ∧
        (stepped j k).stepIn.2 = .halted := by
  refine ⟨⟨_, _, m.runLimited_eq_walk limit, m.stepsTo_walk limit⟩, fun condition fuel k h j => ?_⟩
  obtain ⟨hhalted, hinstruction⟩ := at_halt_of_loop h
  have hstepped := stepped_of_halt hhalted hinstruction j
  have hnext : ({ k with executed := k.executed + UInt64.ofNat j } : Machine).stepIn = _ :=
    stepIn_of_halt hhalted hinstruction
  refine ⟨hstepped, ?_⟩
  rw [hstepped, hnext]

/-- An addition and a `halt`, from a machine whose count starts again from 0 between them: one run to the
limit of 2 halts at its last step, as do two runs to the limit of 1. -/
theorem limited_runs_exact_wrap :
    let m := { Machine.new .standard with
      memory := .ofList [0, 0x03000000], executed := 18446744073709551615 }
    ∃ k l, m.runLimited 1 = some (k, .paused) ∧ k.executed = 0 ∧ k.runLimited 1 = some (l, .halted) ∧
      m.runLimited 2 = some (l, .halted) ∧ l.executed = 1 ∧ (stepped 3 l).executed = 4 ∧
      (stepped 3 l).stepIn.2 = .halted := by
  intro m
  have hends : (m.runLimited 1).map (fun r => (r.1.executed, r.2)) = some (0, .paused) ∧
      (m.runLimited 2).map (fun r => (r.1.executed, r.2)) = some (1, .halted) := by decide +kernel
  obtain ⟨⟨k, e, hk, hfirst⟩, hagain⟩ := limited_runs_exact m 1
  obtain ⟨⟨l, e', hl, -⟩, hafter⟩ := limited_runs_exact m 2
  rw [hk, hl, Option.map_some, Option.map_some] at hends
  obtain ⟨hexecuted, rfl⟩ := Prod.mk.inj (Option.some.inj hends.1)
  obtain ⟨hexecuted', rfl⟩ := Prod.mk.inj (Option.some.inj hends.2)
  have hrest : k.runLimited 1 = m.runLimited 2 := hfirst.goes_on rfl 1 (by decide)
  obtain ⟨hstepped, hhalted⟩ := hafter _ _ l hl 3
  refine ⟨k, l, hk, hexecuted, hrest.trans hl, hl, hexecuted', ?_, hhalted⟩
  rw [hstepped]
  show l.executed + 3 = 4
  rw [show l.executed = 1 from hexecuted']
  rfl

end Machine

end SolMachine
