import SolMachine.Proofs.Evolution

/-!
# Runs of a given length

* `Machine.walk` : a run of at most so many steps, by recursion on their number; `Machine.passed` : the
  machines after those steps that went on;
* `Machine.awake` : the machine as a run finds it; `stepIn_of_ran`, `stepIn_of_halted` and
  `stepIn_of_fault` : its step is the single step from outside;
* `walk_add`, `passed_add` : a run goes on where a shorter one paused, and `walk_of_ended` : one that has
  ended does not go on;
* `halted_walk` : whether a run ended at a `halt`;
* `executed_walk` : what a run adds to the count of executed instructions;
* `runLimited_eq` : a run with a limit is such a walk, and so it ends (`exists_runLimited`).
-/

namespace SolMachine.Machine

/-- A run of at most `n` steps. -/
def walk : Nat → Machine → Machine × RunEnd
  | 0, m => (m, .paused)
  | n + 1, m =>
    match m.step with
    | (m, .ran) => walk n m
    | (m, .halted) => ({ m with halted := true }, .halted)
    | (m, .fault f) => (m, .fault f)

/-- The machines that a run of at most `n` steps passes: the one after each step that goes on. -/
def passed : Nat → Machine → List Machine
  | 0, _ => []
  | n + 1, m =>
    match m.step with
    | (m, .ran) => m :: passed n m
    | _ => []

/-- The machine before a run: whether the last one ended at a `halt` is forgotten. -/
def awake (m : Machine) : Machine := { m with halted := false }

/-! ## Single steps -/

section Step
variable {m k : Machine} {f : Fault}

theorem awake_eq (h : m.halted = false) : m.awake = m := by
  unfold awake
  rw [← h]

theorem halted_of_step {o : Outcome} (h : m.awake.step = (k, o)) : k.halted = false := by
  have hkept := m.awake.fst_step_halted
  rw [h] at hkept
  exact hkept

theorem stepIn_of_ran (h : m.awake.step = (k, .ran)) : m.stepIn = (k, .ran) := by
  have hk : k.awake = k := awake_eq (halted_of_step h)
  unfold stepIn
  rw [show ({ m with halted := false } : Machine).step = (k, .ran) from h]
  exact congrArg (·, Outcome.ran) hk

theorem stepIn_of_fault (h : m.awake.step = (k, .fault f)) : m.stepIn = (k, .fault f) := by
  have hk : k.awake = k := awake_eq (halted_of_step h)
  unfold stepIn
  rw [show ({ m with halted := false } : Machine).step = (k, .fault f) from h]
  exact congrArg (·, Outcome.fault f) hk

theorem stepIn_of_halted (h : m.awake.step = (k, .halted)) :
    m.stepIn = ({ k with halted := true }, .halted) := by
  unfold stepIn
  rw [show ({ m with halted := false } : Machine).step = (k, .halted) from h]
  rfl

theorem step_of_stepIn_ran (h : m.stepIn = (k, .ran)) : m.awake.step = (k, .ran) := by
  rcases hstep : m.awake.step with ⟨l, outcome⟩
  cases outcome with
  | ran => rwa [stepIn_of_ran hstep] at h
  | halted => rw [stepIn_of_halted hstep] at h; cases h
  | fault f => rw [stepIn_of_fault hstep] at h; cases h

end Step

/-! ## Runs step by step -/

section Walk
variable {m k : Machine} {n j : Nat} {f : Fault}

theorem walk_of_ran (h : m.step = (k, .ran)) (n : Nat) : walk (n + 1) m = walk n k := by
  rw [walk, h]

theorem walk_of_halted (h : m.step = (k, .halted)) (n : Nat) :
    walk (n + 1) m = ({ k with halted := true }, .halted) := by
  rw [walk, h]

theorem walk_of_fault (h : m.step = (k, .fault f)) (n : Nat) :
    walk (n + 1) m = (k, .fault f) := by
  rw [walk, h]

theorem passed_of_ran (h : m.step = (k, .ran)) (n : Nat) :
    passed (n + 1) m = k :: passed n k := by
  rw [passed, h]

theorem passed_of_halted (h : m.step = (k, .halted)) (n : Nat) : passed (n + 1) m = [] := by
  rw [passed, h]

theorem passed_of_fault (h : m.step = (k, .fault f)) (n : Nat) : passed (n + 1) m = [] := by
  rw [passed, h]

/-! ## Longer runs -/

/-- A run that paused goes on from there. -/
theorem walk_add (h : (walk n m).2 = .paused) (j : Nat) :
    walk (n + j) m = walk j (walk n m).1 := by
  induction n, m using walk.induct with
  | case1 m => rw [Nat.zero_add]; rfl
  | case2 n m k hstep ih =>
    rw [walk_of_ran hstep] at h ⊢
    rw [Nat.succ_add, walk_of_ran hstep]
    exact ih h
  | case3 n m k hstep => rw [walk_of_halted hstep] at h; cases h
  | case4 n m k f hstep => rw [walk_of_fault hstep] at h; cases h

theorem passed_add (h : (walk n m).2 = .paused) (j : Nat) :
    passed (n + j) m = passed n m ++ passed j (walk n m).1 := by
  induction n, m using walk.induct with
  | case1 m => rw [Nat.zero_add]; rfl
  | case2 n m k hstep ih =>
    rw [walk_of_ran hstep] at h ⊢
    rw [Nat.succ_add, passed_of_ran hstep, passed_of_ran hstep, List.cons_append, ih h]
  | case3 n m k hstep => rw [walk_of_halted hstep] at h; cases h
  | case4 n m k f hstep => rw [walk_of_fault hstep] at h; cases h

/-- A run that has ended does not go on. -/
theorem walk_of_ended (h : (walk n m).2 ≠ .paused) (hn : n ≤ j) : walk j m = walk n m := by
  induction n, m using walk.induct generalizing j with
  | case1 m => exact absurd rfl h
  | case2 n m k hstep ih =>
    obtain ⟨j, rfl⟩ := Nat.exists_eq_add_of_lt hn
    rw [walk_of_ran hstep] at h ⊢
    rw [walk_of_ran hstep]
    exact ih h (Nat.le_add_right n j)
  | case3 n m k hstep =>
    obtain ⟨j, rfl⟩ := Nat.exists_eq_add_of_lt hn
    rw [walk_of_halted hstep, walk_of_halted hstep]
  | case4 n m k f hstep =>
    obtain ⟨j, rfl⟩ := Nat.exists_eq_add_of_lt hn
    rw [walk_of_fault hstep, walk_of_fault hstep]

/-- A run leaves a mark on the machine if it ends at a `halt`. -/
theorem halted_walk (hm : m.halted = false) :
    (walk n m).1.halted = true ↔ (walk n m).2 = .halted := by
  have hkept := m.fst_step_halted
  induction n, m using walk.induct with
  | case1 m =>
    show m.halted = true ↔ _
    simp [hm, walk]
  | case2 n m k hstep ih =>
    rw [hstep] at hkept
    rw [walk_of_ran hstep]
    exact ih (hkept.trans hm) k.fst_step_halted
  | case3 n m k hstep =>
    rw [walk_of_halted hstep]
    exact ⟨fun _ => rfl, fun _ => rfl⟩
  | case4 n m k f hstep =>
    rw [hstep] at hkept
    rw [walk_of_fault hstep, show k.halted = false from hkept.trans hm]
    simp

/-! ## Counting -/

/-- What a step adds to the count of executed instructions: it is counted unless it fails. -/
def counted : Outcome → UInt64
  | .ran | .halted => 1
  | .fault _ => 0

theorem executed_advance (m : Machine) (target : Int) :
    (m.advance target).1.executed = m.executed + counted (m.advance target).2 := by
  by_cases h : 0 ≤ target ∧ target < maxWords
  · rw [m.advance_eq h]
    rfl
  · rw [m.advance_eq_fault h]
    exact (UInt64.add_zero m.executed).symm

theorem executed_step (m : Machine) :
    m.step.1.executed = m.executed + counted m.step.2 := by
  have hends := m.step_ends
  generalize m.step = r at hends
  cases hends with
  | lost | illegal => exact (UInt64.add_zero m.executed).symm
  | executed hi ends =>
    cases ends with
    | halted | jumped => rfl
    | strayed | refused => exact (UInt64.add_zero m.executed).symm
    | @worked registers memory stack flag =>
      unfold next
      exact executed_advance { m with registers, memory, stack, flag } _

/-- The number of instructions that a run executes: those that it passes, and a `halt`. -/
def steps (n : Nat) (m : Machine) : Nat :=
  (passed n m).length + if (walk n m).2 = .halted then 1 else 0

theorem steps_of_ran (h : m.step = (k, .ran)) (n : Nat) : steps (n + 1) m = steps n k + 1 := by
  unfold steps
  rw [passed_of_ran h, walk_of_ran h, List.length_cons]
  omega

theorem steps_of_halted (h : m.step = (k, .halted)) (n : Nat) : steps (n + 1) m = 1 := by
  unfold steps
  rw [passed_of_halted h, walk_of_halted h, if_pos rfl]
  rfl

theorem steps_of_fault (h : m.step = (k, .fault f)) (n : Nat) : steps (n + 1) m = 0 := by
  unfold steps
  rw [passed_of_fault h, walk_of_fault h, if_neg (fun he => by cases he)]
  rfl

theorem steps_le (n : Nat) (m : Machine) : steps n m ≤ n := by
  induction n, m using walk.induct with
  | case1 m => exact Nat.le_refl 0
  | case2 n m k hstep ih =>
    rw [steps_of_ran hstep]
    exact Nat.succ_le_succ ih
  | case3 n m k hstep =>
    rw [steps_of_halted hstep]
    exact Nat.succ_le_succ (Nat.zero_le n)
  | case4 n m k f hstep =>
    rw [steps_of_fault hstep]
    exact Nat.zero_le _

/-- The count of a machine grows by the instructions that are executed; it may start again from 0. -/
theorem executed_walk (n : Nat) (m : Machine) :
    (walk n m).1.executed = m.executed + UInt64.ofNat (steps n m) := by
  induction n, m using walk.induct with
  | case1 m => exact (UInt64.add_zero m.executed).symm
  | case2 n m k hstep ih =>
    have hk : k.executed = m.executed + 1 := executed_of_ran hstep
    rw [walk_of_ran hstep, ih, hk, steps_of_ran hstep, UInt64.ofNat_add, UInt64.add_assoc,
      UInt64.add_comm 1]
    rfl
  | case3 n m k hstep =>
    have hk := m.executed_step
    rw [hstep] at hk
    rw [walk_of_halted hstep, steps_of_halted hstep]
    exact hk
  | case4 n m k f hstep =>
    have hk := m.executed_step
    rw [hstep] at hk
    rw [walk_of_fault hstep, steps_of_fault hstep]
    exact hk

end Walk

/-! ## Runs with a limit -/

section Limit
variable {m k : Machine} {start limit : UInt64} {n fuel : Nat}

/-- The count of a run grows by one with a step that goes on. -/
theorem count_of_ran (h : m.step = (k, .ran)) (hlt : (m.executed - start).toNat < limit.toNat) :
    (k.executed - start).toNat = (m.executed - start).toNat + 1 := by
  have hlimit := limit.toNat_lt
  have hswap : m.executed + 1 - start = m.executed - start + 1 := by grind
  rw [executed_of_ran h, hswap, UInt64.toNat_add, UInt64.toNat_one]
  omega

/-- A loop that counts from `start` up to `limit` makes the steps that are left. -/
theorem loop_eq_walk (h : (m.executed - start).toNat + n = limit.toNat) (hfuel : n < fuel) :
    loop (fun k => (decide (k.executed - start < limit), k)) fuel m = some (walk n m) := by
  induction n, m using walk.induct generalizing fuel with
  | case1 m =>
    obtain ⟨fuel, rfl⟩ := Nat.exists_eq_add_of_lt hfuel
    have hout : ¬ m.executed - start < limit := by rw [UInt64.lt_iff_toNat_lt]; omega
    rw [loop_succ fun _ => rfl, decide_eq_false hout, if_neg Bool.false_ne_true]
    rfl
  | case2 n m k hstep ih =>
    obtain ⟨fuel, rfl⟩ := Nat.exists_eq_add_of_lt hfuel
    have hin : (m.executed - start).toNat < limit.toNat := by omega
    have hcount := count_of_ran hstep hin
    rw [loop_succ fun _ => rfl, decide_eq_true (UInt64.lt_iff_toNat_lt.2 hin), if_pos rfl, hstep,
      walk_of_ran hstep]
    exact ih (by omega) (by omega)
  | case3 n m k hstep =>
    obtain ⟨fuel, rfl⟩ := Nat.exists_eq_add_of_lt hfuel
    have hin : (m.executed - start).toNat < limit.toNat := by omega
    rw [loop_succ fun _ => rfl, decide_eq_true (UInt64.lt_iff_toNat_lt.2 hin), if_pos rfl, hstep,
      walk_of_halted hstep]
  | case4 n m k f hstep =>
    obtain ⟨fuel, rfl⟩ := Nat.exists_eq_add_of_lt hfuel
    have hin : (m.executed - start).toNat < limit.toNat := by omega
    rw [loop_succ fun _ => rfl, decide_eq_true (UInt64.lt_iff_toNat_lt.2 hin), if_pos rfl, hstep,
      walk_of_fault hstep]

/-- A run with a limit is a walk of so many steps. -/
theorem runLimited_eq (m : Machine) (limit : UInt64) :
    m.runLimited limit = some (walk limit.toNat { m with halted := false }) := by
  refine loop_eq_walk ?_ (Nat.lt_succ_self _)
  rw [UInt64.sub_self, UInt64.toNat_zero, Nat.zero_add]

/-- A run with a limit ends. -/
theorem exists_runLimited (m : Machine) (limit : UInt64) :
    ∃ n e, m.runLimited limit = some (n, e) :=
  ⟨_, _, m.runLimited_eq limit⟩

end Limit

end SolMachine.Machine
