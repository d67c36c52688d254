import SolMachine.Proofs.Walks

/-!
# Histories of a machine

* `Action` : what can be done with a machine from outside; `Machine.perform`, `Machine.play`;
* `Settings` : the configuration that is in force, and the one of the last start;
* `Machine.Acts`, `acts_of_perform` : the four things that an action can be;
* `Machine.Bounded`, `Machine.Follows` : what every action keeps, and so every history;
* `history_keeps_bounds` : all of it.

The registers can come to hold any values: an unseeded start takes the words that are drawn for it, and
`Action.setRegister` sets each register.
-/

namespace SolMachine

/-- What can be done with a machine from outside. An access to memory or to the stack is made directly,
not by an instruction. Runs and traces that may not end come with the number of steps to wait for
them, and a reset with the words that are drawn for it. -/
inductive Action where
  | load (words : List Word)
  | step
  | runLimited (limit : UInt64)
  | run (fuel : Nat)
  | trace (limit : Option UInt64) (room : Option Nat) (fuel : Nat)
  | reset (drawn : Registers)
  | configure (config : Config)
  | setRegister (r : Register) (w : Word)
  | read (address : Word)
  | write (address w : Word)
  | push (w : Word)
  | pop
  deriving DecidableEq, Repr, Inhabited

namespace Action

/-- Whether the action leaves what is in memory to the machine. -/
def keepsMemory : Action → Bool
  | load _ | reset _ => false
  | _ => true

/-- Whether the action executes instructions and notes whether it came to a `halt`. -/
def executes : Action → Bool
  | step | runLimited _ | run _ => true
  | _ => false

/-- Whether it is the machine that says when the action ends. -/
def mayLast : Action → Bool
  | run _ | trace .. => true
  | _ => false

end Action

/-- The configuration that is in force, and the one that the machine was last started with. -/
structure Settings where
  current : Config
  started : Config
  deriving DecidableEq, Repr, Inhabited

def Settings.after (s : Settings) : Action → Settings
  | .configure config => { s with current := config }
  | .reset _ => { s with started := s.current }
  | _ => s

namespace Machine

/-- The machine after a direct access to memory; one that fails leaves it as it was. -/
def withMemory (m : Machine) : Except Fault Memory → Machine
  | .error _ => m
  | .ok memory => { m with memory }

/-- The machine after a direct access to the stack; one that fails leaves it as it was. -/
def withStack (m : Machine) : Except Fault Stack → Machine
  | .error _ => m
  | .ok stack => { m with stack }

/-- The machine after an action, whether the action succeeded or not; none if the machine is still
running. -/
def perform (m : Machine) : Action → Option Machine
  | .load words => some ((m.load words).toOption.getD m)
  | .step => some m.stepIn.1
  | .runLimited limit => (m.runLimited limit).map Prod.fst
  | .run fuel => (m.run fuel).map Prod.fst
  | .trace limit room fuel => (m.traceWith limit room fuel).map TraceResult.machine
  | .reset drawn => some (m.reset drawn)
  | .configure config => some { m with config }
  | .setRegister r w => some (m.setRegister r w)
  | .read address => some (m.withMemory ((m.memory.read address).map Prod.snd))
  | .write address w => some (m.withMemory (m.memory.write address w))
  | .push w => some (m.withStack (m.stack.push w))
  | .pop => some (m.withStack (m.stack.pop.map Prod.snd))

def play : Machine → List Action → Option Machine
  | m, [] => some m
  | m, a :: actions => (m.perform a).bind fun n => n.play actions

theorem play_cons_eq_some {m n : Machine} {a : Action} {actions : List Action}
    (h : m.play (a :: actions) = some n) : ∃ k, m.perform a = some k ∧ k.play actions = some n :=
  Option.bind_eq_some_iff.1 h

theorem play_append (m : Machine) (before after : List Action) :
    m.play (before ++ after) = (m.play before).bind fun n => n.play after := by
  induction before generalizing m with
  | nil => rfl
  | cons a before ih =>
    show (m.perform a).bind (fun n => n.play (before ++ after)) =
      ((m.perform a).bind fun n => n.play before).bind _
    rw [Option.bind_assoc]
    exact congrArg _ (funext fun n => ih n)

/-- The machine has a history that begins at a new machine. -/
def Reachable (m : Machine) : Prop :=
  ∃ config drawn actions, (new config drawn).play actions = some m

/-! ## One action -/

section Actions
variable {m n : Machine} {a : Action}

/-- What an action is: a new start, a program that fits, a configuration, or a piece of execution. -/
inductive Acts (m : Machine) : Action → Machine → Prop
  | started (drawn : Registers) : Acts m (.reset drawn) (m.reset drawn)
  | loaded {words : List Word} (fits : words.length ≤ maxWords) :
      Acts m (.load words) { m with memory := .ofList words, pc := 0 }
  | configured (config : Config) : Acts m (.configure config) { m with config }
  | evolved {a : Action} {n : Machine} (settings : ∀ s : Settings, s.after a = s) (h : m.Evolves n) :
      Acts m a n

theorem evolves_of_runLimited {limit : UInt64} {e : RunEnd} (h : m.runLimited limit = some (n, e)) :
    m.Evolves n := by
  have hrun := evolves_of_loop (fun _ => rfl) h
  exact hrun.withHalted m.halted n.halted

theorem evolves_of_run {fuel : Nat} {e : RunEnd} (h : m.run fuel = some (n, e)) : m.Evolves n := by
  have hrun := evolves_of_loop (fun _ => rfl) h
  exact hrun.withHalted m.halted n.halted

theorem evolves_withMemory {r : Except Fault Memory}
    (h : ∀ memory, r = .ok memory → m.memory.Grows memory) : m.Evolves (m.withMemory r) := by
  cases r with
  | error f => exact .refl m
  | ok memory => exact ⟨h memory rfl, .refl _, .inl rfl, rfl⟩

theorem evolves_withStack {r : Except Fault Stack}
    (h : ∀ stack, r = .ok stack → m.stack.Keeps stack) : m.Evolves (m.withStack r) := by
  cases r with
  | error f => exact .refl m
  | ok stack => exact ⟨.refl _, h stack rfl, .inl rfl, rfl⟩

theorem load_eq (m : Machine) {words : List Word} (h : words.length ≤ maxWords) :
    m.load words = .ok { m with memory := .ofList words, pc := 0 } := if_neg (Nat.not_lt.2 h)

theorem load_eq_fault (m : Machine) {words : List Word} (h : maxWords < words.length) :
    m.load words = .error (.programTooLarge words.length) := if_pos h

theorem perform_load (m : Machine) {words : List Word} (h : words.length ≤ maxWords) :
    m.perform (.load words) = some { m with memory := .ofList words, pc := 0 } := by
  rw [perform, m.load_eq h]
  rfl

theorem perform_load_of_lt (m : Machine) {words : List Word} (h : maxWords < words.length) :
    m.perform (.load words) = some m := by
  rw [perform, m.load_eq_fault h]
  rfl

theorem acts_of_perform (h : m.perform a = some n) : m.Acts a n := by
  cases a with
  | load words =>
    by_cases hfits : words.length ≤ maxWords
    · rw [m.perform_load hfits] at h
      obtain rfl := Option.some.inj h
      exact .loaded hfits
    · rw [m.perform_load_of_lt (Nat.lt_of_not_le hfits)] at h
      obtain rfl := Option.some.inj h
      exact .evolved (fun _ => rfl) (.refl m)
  | step =>
    obtain rfl := Option.some.inj h
    exact .evolved (fun _ => rfl) m.stepIn_evolves
  | runLimited limit =>
    obtain ⟨⟨k, e⟩, hrun, rfl⟩ := Option.map_eq_some_iff.1 h
    exact .evolved (fun _ => rfl) (evolves_of_runLimited hrun)
  | run fuel =>
    obtain ⟨⟨k, e⟩, hrun, rfl⟩ := Option.map_eq_some_iff.1 h
    exact .evolved (fun _ => rfl) (evolves_of_run hrun)
  | trace limit room fuel =>
    obtain ⟨r, htrace, rfl⟩ := Option.map_eq_some_iff.1 h
    exact .evolved (fun _ => rfl) (evolves_of_traceWith htrace)
  | reset drawn =>
    obtain rfl := Option.some.inj h
    exact .started drawn
  | configure config =>
    obtain rfl := Option.some.inj h
    exact .configured config
  | setRegister r w =>
    obtain rfl := Option.some.inj h
    exact .evolved (fun _ => rfl) ⟨.refl _, .refl _, .inl rfl, rfl⟩
  | read address =>
    obtain rfl := Option.some.inj h
    refine .evolved (fun _ => rfl) (evolves_withMemory fun memory hmemory => ?_)
    cases hread : m.memory.read address with
    | error f => rw [hread] at hmemory; cases hmemory
    | ok r =>
      rw [hread] at hmemory
      obtain rfl := Except.ok.inj hmemory
      exact Memory.grows_of_read hread
  | write address w =>
    obtain rfl := Option.some.inj h
    exact .evolved (fun _ => rfl) (evolves_withMemory fun memory => Memory.grows_of_write)
  | push w =>
    obtain rfl := Option.some.inj h
    exact .evolved (fun _ => rfl) (evolves_withStack fun stack => Stack.keeps_of_push)
  | pop =>
    obtain rfl := Option.some.inj h
    refine .evolved (fun _ => rfl) (evolves_withStack fun stack hstack => ?_)
    cases hpop : m.stack.pop with
    | error f => rw [hpop] at hstack; cases hstack
    | ok r =>
      rw [hpop] at hstack
      obtain rfl := Except.ok.inj hstack
      exact Stack.keeps_of_pop hpop

/-- Only runs and traces without limit may go on for ever. -/
theorem exists_perform (m : Machine) (ha : a.mayLast = false) : ∃ n, m.perform a = some n := by
  cases a with
  | runLimited limit =>
    obtain ⟨n, e, hrun⟩ := m.exists_runLimited limit
    exact ⟨n, congrArg (Option.map Prod.fst) hrun⟩
  | run | trace => cases ha
  | load | step | reset | configure | setRegister | read | write | push | pop => exact ⟨_, rfl⟩

/-- A machine that is said to have halted right after it executed has stopped at a `halt`. -/
theorem instruction?_of_perform (ha : a.executes) (h : m.perform a = some n) (hn : n.halted) :
    n.instruction? = some .halt := by
  cases a with
  | step =>
    obtain rfl := Option.some.inj h
    have hhalted : ({ m with halted := false } : Machine).step.2 = .halted := of_decide_eq_true hn
    have hinstruction := instruction?_of_halted (Prod.ext rfl hhalted)
    exact hinstruction
  | runLimited limit =>
    obtain ⟨⟨k, e⟩, hrun, rfl⟩ := Option.map_eq_some_iff.1 h
    exact instruction?_of_loop (fun _ => rfl) rfl hrun hn
  | run fuel =>
    obtain ⟨⟨k, e⟩, hrun, rfl⟩ := Option.map_eq_some_iff.1 h
    exact instruction?_of_loop (fun _ => rfl) rfl hrun hn
  | _ => cases ha

theorem size_le_of_perform (ha : a.keepsMemory) (h : m.perform a = some n) :
    m.memory.size ≤ n.memory.size := by
  cases acts_of_perform h with
  | started | loaded => cases ha
  | configured => exact Nat.le_refl _
  | evolved _ hevolves => exact hevolves.memory.le

end Actions

/-! ## What every action keeps -/

section Bounds
variable {m n : Machine} {a : Action} {s : Settings}

/-- The machine is within its bounds. -/
structure Bounded (m : Machine) : Prop where
  pc : m.pc < maxWords
  memory : m.memory.size ≤ maxWords
  stack : m.stack.size ≤ m.stack.capacity

theorem bounded_new (config : Config) (drawn : Registers) : (new config drawn).Bounded := by
  have hpc : 0 < maxWords := by decide
  exact ⟨hpc, Nat.zero_le _, Nat.zero_le _⟩

theorem Bounded.of_evolves (h : m.Bounded) (he : m.Evolves n) : n.Bounded := by
  have hpc := h.pc
  have hmemory := h.memory
  have hstack := h.stack
  have hsize := he.memory.bound
  have hheight := he.stack.bound
  have hcapacity := he.stack.capacity
  refine ⟨?_, by omega, by omega⟩
  rcases he.pc with hsame | hinside
  · omega
  · exact hinside

theorem Bounded.of_perform (h : m.Bounded) (ha : m.perform a = some n) : n.Bounded := by
  cases acts_of_perform ha with
  | started drawn => exact bounded_new m.config drawn
  | loaded fits => exact ⟨show 0 < maxWords by decide, fits, h.stack⟩
  | configured config => exact ⟨h.pc, h.memory, h.stack⟩
  | evolved _ hevolves => exact h.of_evolves hevolves

/-- The settings are those of the machine. -/
structure Follows (m : Machine) (s : Settings) : Prop where
  current : m.config = s.current
  started : m.stack.capacity = s.started.stackCapacity

theorem Follows.of_perform (h : m.Follows s) (ha : m.perform a = some n) :
    n.Follows (s.after a) := by
  cases acts_of_perform ha with
  | started => exact ⟨h.current, congrArg Config.stackCapacity h.current⟩
  | loaded => exact ⟨h.current, h.started⟩
  | configured config => exact ⟨rfl, h.started⟩
  | evolved settings hevolves =>
    rw [settings]
    exact ⟨hevolves.config.trans h.current, hevolves.stack.capacity.trans h.started⟩

end Bounds

/-! ## Histories -/

section Histories
variable {m n : Machine} {actions : List Action}

theorem Bounded.of_play (h : m.Bounded) (ha : m.play actions = some n) : n.Bounded := by
  induction actions generalizing m with
  | nil => exact Option.some.inj ha ▸ h
  | cons a actions ih =>
    obtain ⟨k, hperform, hplay⟩ := play_cons_eq_some ha
    exact ih (h.of_perform hperform) hplay

theorem Follows.of_play {s : Settings} (h : m.Follows s) (ha : m.play actions = some n) :
    n.Follows (actions.foldl Settings.after s) := by
  induction actions generalizing m s with
  | nil => exact Option.some.inj ha ▸ h
  | cons a actions ih =>
    obtain ⟨k, hperform, hplay⟩ := play_cons_eq_some ha
    exact ih (h.of_perform hperform) hplay

theorem size_le_of_play (hkeep : ∀ a ∈ actions, a.keepsMemory) (h : m.play actions = some n) :
    m.memory.size ≤ n.memory.size := by
  induction actions generalizing m with
  | nil => exact Option.some.inj h ▸ Nat.le_refl _
  | cons a actions ih =>
    obtain ⟨k, hperform, hplay⟩ := play_cons_eq_some h
    obtain ⟨ha, hrest⟩ := List.forall_mem_cons.1 hkeep
    exact Nat.le_trans (size_le_of_perform ha hperform) (ih hrest hplay)

theorem Reachable.bounded (h : m.Reachable) : m.Bounded := by
  obtain ⟨config, drawn, actions, hplay⟩ := h
  exact (bounded_new config drawn).of_play hplay

/-- Every history, of any length, keeps the bounds of the machine: the program counter is an address
of memory, memory is not larger than its limit, and the stack not higher than the capacity that the
machine was last started with. If the last action executed and the machine is said to have halted, it
stands at a `halt`. Memory shrinks only with a new program or a new start. Then any action can follow,
and only runs and traces without limit may fail to end; a program is loaded if it fits, and otherwise
nothing is done. -/
theorem history_keeps_bounds {config : Config} {drawn : Registers} {actions : List Action}
    {m : Machine} (h : (new config drawn).play actions = some m) :
    (m.pc < 16384 ∧ m.memory.size ≤ 16384 ∧ m.stack.size ≤ m.stack.capacity ∧
      m.stack.capacity =
        (actions.foldl Settings.after ⟨config, config⟩).started.stackCapacity) ∧
    (∀ before a, actions = before ++ [a] → a.executes → m.halted →
      ∃ w, m.memory.get? m.pc = some w ∧ Instruction.decode w = .ok .halt) ∧
    (∀ before after n, actions = before ++ after → (∀ a ∈ after, a.keepsMemory) →
      (new config drawn).play before = some n → n.memory.size ≤ m.memory.size) ∧
    (∀ a, a.mayLast = false → ∃ n, m.perform a = some n) ∧
    ∀ words, if 16384 < words.length then
        m.load words = .error (.programTooLarge words.length) ∧
          m.perform (.load words) = some m
      else
        m.load words = .ok { m with memory := ⟨words.toArray⟩, pc := 0 } ∧
          m.perform (.load words) = some { m with memory := ⟨words.toArray⟩, pc := 0 } := by
  have hbounded := (bounded_new config drawn).of_play h
  have hnew : (new config drawn).Follows ⟨config, config⟩ := ⟨rfl, rfl⟩
  refine ⟨⟨hbounded.pc, hbounded.memory, hbounded.stack, (hnew.of_play h).started⟩, ?_, ?_,
    fun a ha => m.exists_perform ha, fun words => ?_⟩
  · rintro before a rfl ha hm
    rw [play_append] at h
    obtain ⟨k, -, hlast⟩ := Option.bind_eq_some_iff.1 h
    obtain ⟨n, hperform, hend⟩ := play_cons_eq_some hlast
    obtain rfl := Option.some.inj hend
    exact instruction?_eq_some_iff.1 (instruction?_of_perform ha hperform hm)
  · rintro before after n rfl hkeep hn
    rw [play_append, hn] at h
    exact size_le_of_play hkeep h
  · split
    · next hlarge => exact ⟨m.load_eq_fault hlarge, m.perform_load_of_lt hlarge⟩
    · next hfits =>
      exact ⟨m.load_eq (Nat.le_of_not_lt hfits), m.perform_load (Nat.le_of_not_lt hfits)⟩

/-- A machine that is started again without a seed and with a stack of one word, pushes a word that was
drawn and comes to the `halt`. -/
theorem history_keeps_bounds_push :
    let before : List Action := [.configure ⟨.unseeded, 1⟩, .reset (Vector.replicate 16 7),
      .load [(Instruction.push 3).encode, (Instruction.halt).encode], .write 9 4]
    ∃ m, (new .standard).play (before ++ [.runLimited 5]) = some m ∧ m.halted ∧
      m.memory.size = 10 ∧ m.stack = ⟨[7], 1⟩ ∧ m.stack.size ≤ m.stack.capacity ∧
      ∃ w, m.memory.get? m.pc = some w ∧ Instruction.decode w = .ok .halt := by
  intro before
  have hsome : ((new .standard).play (before ++ [.runLimited 5])).isSome := by decide +kernel
  obtain ⟨m, hm⟩ := Option.isSome_iff_exists.1 hsome
  have hbounds := history_keeps_bounds hm
  have hend : ((new .standard).play (before ++ [.runLimited 5])).map
      (fun m => (m.halted, m.memory.size, m.stack)) = some (true, 10, ⟨[7], 1⟩) := by decide +kernel
  rw [hm] at hend
  injection hend with hend
  injection hend with hhalted hend
  injection hend with hsize hstack
  exact ⟨m, hm, hhalted, hsize, hstack, hbounds.1.2.2.1, hbounds.2.1 before _ rfl rfl hhalted⟩

end Histories

end Machine

end SolMachine
