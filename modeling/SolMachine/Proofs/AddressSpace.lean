import Mathlib.Logic.Function.Basic
import SolMachine.Proofs.History

/-!
# Memory as an address space

Memory grows, but to a program it is an array of 16384 words that starts as the program and zeros.

* `Access` : loads and stores; `Memory.after` : what an access leaves, whether it succeeds or not;
* `Memory.space` : the word at an address, where addresses that memory does not reach hold zero;
  `space_after_read`, `space_after_write` : accesses in that space, and `size_after` : how far memory
  reaches afterwards;
* `Machine.access?` : the access of the next instruction; `Machine.fst_step_memory` : a step makes it, and
  leaves memory alone otherwise;
* `Event`, `Logged` : accesses that are made directly or by instructions, with a log of them;
  `content`, `extent` : what the log says of the words in memory and of its size;
* `Logged.Faithful` : the log is right, which every event preserves (`Logged.Faithful.next`), and
  `Logged.exists_events_of_walk` : runs are sequences of events;
* `Logged.Serves` : what memory does with every load, store and fetch that comes next;
  `memory_refines_zero_filled` : it does so after any events.
-/

namespace SolMachine

/-- An access to memory, at any address. -/
inductive Access where
  | read (address : Word)
  | write (address value : Word)
  deriving DecidableEq, Repr, Inhabited

namespace Access

def address : Access → Word
  | read address => address
  | write address _ => address

/-- The word that the access stores at index `i`, if it stores one there. -/
def storedAt? (i : Nat) : Access → Option Word
  | read _ => none
  | write address value => if Memory.index? address = some i then some value else none

@[simp] theorem address_read (address : Word) : (read address).address = address := rfl

@[simp] theorem address_write (address value : Word) : (write address value).address = address := rfl

@[simp] theorem storedAt?_read (i : Nat) (address : Word) : (read address).storedAt? i = none := rfl

@[simp] theorem storedAt?_write (i : Nat) (address value : Word) :
    (write address value).storedAt? i =
      if Memory.index? address = some i then some value else none := rfl

end Access

namespace Memory

/-- An address that can be accessed. -/
def Inside (address : Word) : Prop := 0 ≤ address.toInt ∧ address.toInt < maxWords

instance (address : Word) : Decidable (Inside address) :=
  inferInstanceAs (Decidable (0 ≤ address.toInt ∧ address.toInt < maxWords))

/-- Memory after an access; one that fails leaves it as it was. -/
def after (m : Memory) : Access → Memory
  | .read address => ((m.read address).map Prod.snd).toOption.getD m
  | .write address value => (m.write address value).toOption.getD m

/-- The word at an index, where memory that does not reach there holds zero. -/
def space (m : Memory) (i : Nat) : Word := (m.get? i).getD 0

/-! ## One access -/

section Access
variable {m : Memory} {address w : Word} {i j : Nat} {a : Access}

theorem index?_of_inside (h : Inside address) : index? address = some address.toInt.toNat := if_pos h

theorem index?_of_not_inside (h : ¬ Inside address) : index? address = none := if_neg h

theorem get?_eq_space (m : Memory) (i : Nat) :
    m.get? i = if i < m.size then some (m.space i) else none := by
  unfold space get? size
  split
  · next h => rw [Array.getElem?_eq_getElem h, Option.getD_some]
  · next h => exact Array.getElem?_eq_none (Nat.le_of_not_lt h)

theorem space_cover (m : Memory) (i : Nat) : (m.cover i).space = m.space := by
  funext j
  unfold space
  rw [get?_cover]
  by_cases hj : j < m.size
  · rw [if_pos hj]
  · rw [if_neg hj, m.get?_eq_space j, if_neg hj]
    split <;> rfl

theorem read_eq (h : index? address = some i) :
    m.read address = .ok (m.space i, m.cover i) := by
  unfold read
  rw [h]
  show Except.ok ((m.cover i).space i, m.cover i) = _
  rw [space_cover]

theorem read_eq_error (h : index? address = none) :
    m.read address = .error (.accessViolation address) := by
  unfold read
  rw [h]

theorem write_eq (h : index? address = some i) :
    m.write address w = .ok ⟨(m.cover i).words.setIfInBounds i w⟩ := by
  unfold write
  rw [h]

theorem write_eq_error (h : index? address = none) :
    m.write address w = .error (.accessViolation address) := by
  unfold write
  rw [h]

theorem after_read (h : index? address = some i) : m.after (.read address) = m.cover i := by
  show ((m.read address).map Prod.snd).toOption.getD m = _
  rw [read_eq h]
  rfl

theorem after_write (h : index? address = some i) :
    m.after (.write address w) = ⟨(m.cover i).words.setIfInBounds i w⟩ := by
  show (m.write address w).toOption.getD m = _
  rw [write_eq h]
  rfl

/-- An access that fails leaves memory as it was. -/
theorem after_of_none (h : index? a.address = none) : m.after a = m := by
  cases a with
  | read address =>
    rw [Access.address_read] at h
    show ((m.read address).map Prod.snd).toOption.getD m = _
    rw [read_eq_error h]
    rfl
  | write address w =>
    rw [Access.address_write] at h
    show (m.write address w).toOption.getD m = _
    rw [write_eq_error h]
    rfl

/-- Memory reaches as far as it did, and up to the index of the access. -/
theorem size_after (h : index? a.address = some i) : (m.after a).size = max m.size (i + 1) := by
  cases a with
  | read address =>
    rw [Access.address_read] at h
    rw [after_read h, size_cover]
  | write address w =>
    rw [Access.address_write] at h
    rw [after_write h, ← size_cover]
    exact Array.size_setIfInBounds

theorem space_after_read (h : index? address = some i) : (m.after (.read address)).space = m.space := by
  rw [after_read h, space_cover]

/-- A store changes the word at its own index. -/
theorem space_after_write (h : index? address = some i) :
    (m.after (.write address w)).space = Function.update m.space i w := by
  have hsize : i < (m.cover i).words.size := by
    show i < (m.cover i).size
    rw [size_cover]
    omega
  rw [after_write h, ← m.space_cover i]
  funext j
  unfold space get?
  rw [Array.getElem?_setIfInBounds]
  by_cases hj : i = j
  · subst hj
    rw [if_pos rfl, if_pos hsize, Function.update_self, Option.getD_some]
  · rw [if_neg hj, Function.update_of_ne (Ne.symm hj)]

/-- What an access does to the word at an index. -/
theorem space_after (m : Memory) (a : Access) (j : Nat) :
    (m.after a).space j = (a.storedAt? j).getD (m.space j) := by
  cases hindex : index? a.address with
  | none =>
    rw [after_of_none hindex]
    cases a with
    | read address => rfl
    | write address w =>
      rw [Access.address_write] at hindex
      rw [Access.storedAt?_write, hindex, if_neg nofun, Option.getD_none]
  | some i =>
    cases a with
    | read address =>
      rw [Access.address_read] at hindex
      rw [space_after_read hindex, Access.storedAt?_read, Option.getD_none]
    | write address w =>
      rw [Access.address_write] at hindex
      rw [space_after_write hindex, Access.storedAt?_write, hindex, Function.update_apply]
      by_cases hj : j = i
      · rw [if_pos hj, if_pos (congrArg some hj.symm), Option.getD_some]
      · rw [if_neg hj, if_neg fun h => hj (Option.some.inj h).symm, Option.getD_none]

end Access

end Memory

/-! ## Instructions -/

namespace Machine

/-- The access to memory that an instruction makes. -/
def accessOf? (m : Machine) : Instruction Displacement → Option Access
  | .transfer .lw a _ d => some (.read (m.effective a d))
  | .transfer .sw a b d => some (.write (m.effective a d) (m.register b))
  | _ => none

/-- The access to memory that the instruction at the program counter makes. -/
def access? (m : Machine) : Option Access := m.instruction?.bind m.accessOf?

section Instructions
variable {m : Machine}

theorem fst_advance_memory (m : Machine) (target : Int) : (m.advance target).1.memory = m.memory := by
  unfold advance
  split <;> rfl

theorem fst_next_memory (m : Machine) : m.next.1.memory = m.memory := by
  unfold next
  rw [fst_advance_memory]

theorem fst_jump_memory (m : Machine) (taken : Bool) (d : Displacement) :
    (m.jump taken d).1.memory = m.memory := by
  unfold jump
  split
  · rw [fst_advance_memory]
  · rw [fst_next_memory]

theorem fst_compute_memory (m : Machine) (op : Alu) (a b c : Register) :
    (m.compute op a b c).1.memory = m.memory := by
  unfold compute
  split
  · rfl
  · dsimp only
    split <;> (rw [fst_next_memory]; rfl)

theorem fst_load_memory (m : Machine) (a b : Register) (d : Displacement) :
    (m.transfer .lw a b d).1.memory = m.memory.after (.read (m.effective a d)) := by
  show _ = ((m.memory.read (m.effective a d)).map Prod.snd).toOption.getD m.memory
  unfold transfer
  dsimp only
  cases m.memory.read (m.effective a d) with
  | error f => rfl
  | ok r =>
    dsimp only
    rw [fst_next_memory]
    rfl

theorem fst_store_memory (m : Machine) (a b : Register) (d : Displacement) :
    (m.transfer .sw a b d).1.memory = m.memory.after (.write (m.effective a d) (m.register b)) := by
  show _ = (m.memory.write (m.effective a d) (m.register b)).toOption.getD m.memory
  unfold transfer
  dsimp only
  cases m.memory.write (m.effective a d) (m.register b) with
  | error f => rfl
  | ok memory =>
    dsimp only
    rw [fst_next_memory]
    rfl

theorem fst_jumpAndLink_memory (m : Machine) (a b : Register) :
    (m.jumpAndLink a b).1.memory = m.memory := by
  obtain ⟨⟨kept, target⟩, h⟩ : ∃ r, (if m.register a = m.register b then
      (a, ((m.pc + 1 : Nat) : Int)) else (b, (m.register a).toInt)) = r := ⟨_, rfl⟩
  rw [jumpAndLink_of_target h]
  split <;> rfl

theorem fst_scan_memory (m : Machine) (op : Scan) (a b : Register) :
    (m.scan op a b).1.memory = m.memory := by
  unfold scan
  split <;> (rw [fst_next_memory]; rfl)

theorem fst_pop_memory (m : Machine) (r : Register) : (m.execute (.pop r)).1.memory = m.memory := by
  unfold execute
  dsimp only
  cases m.stack.pop with
  | error f => rfl
  | ok x =>
    dsimp only
    rw [fst_next_memory]
    rfl

theorem fst_push_memory (m : Machine) (r : Register) : (m.execute (.push r)).1.memory = m.memory := by
  unfold execute
  dsimp only
  cases m.stack.push (m.register r) with
  | error f => rfl
  | ok stack =>
    dsimp only
    rw [fst_next_memory]

/-- An instruction makes its access, and leaves memory alone if it makes none. -/
theorem fst_execute_memory (m : Machine) (i : Instruction Displacement) :
    (m.execute i).1.memory = (m.accessOf? i).elim m.memory m.memory.after := by
  cases i with
  | alu op a b c => exact m.fst_compute_memory op a b c
  | transfer op a b d =>
    cases op with
    | lw => exact m.fst_load_memory a b d
    | sw => exact m.fst_store_memory a b d
  | branch op a b d => exact m.fst_jump_memory _ d
  | jarl a b => exact m.fst_jumpAndLink_memory a b
  | halt => rfl
  | scan op a b => exact m.fst_scan_memory op a b
  | jne d => exact m.fst_jump_memory _ d
  | pop r => exact m.fst_pop_memory r
  | push r => exact m.fst_push_memory r

/-- A step makes the access of its instruction, and leaves memory alone if it makes none. -/
theorem fst_step_memory (m : Machine) :
    m.step.1.memory = m.access?.elim m.memory m.memory.after := by
  have hends := m.step_ends
  unfold access?
  cases hi : m.instruction? with
  | none =>
    generalize m.step = r at hends
    cases hends with
    | lost | illegal => rfl
    | executed h => cases hi.symm.trans h
  | some i =>
    rw [step_eq_execute_of hi, fst_execute_memory]
    rfl

end Instructions

/-- A load from an address that can be accessed brings the word that is there into a register. -/
theorem step_load {m : Machine} {a b : Register} {d : Displacement}
    (h : m.instruction? = some (.transfer .lw a b d)) :
    m.step = if Memory.Inside (m.effective a d) then
        ({ m with memory := m.memory.after (.read (m.effective a d)) }.setRegister b
          (m.memory.space (m.effective a d).toInt.toNat)).next
      else (m, .fault (.accessViolation (m.effective a d))) := by
  rw [step_eq_execute_of h]
  show m.transfer .lw a b d = _
  unfold transfer
  dsimp only
  by_cases hin : Memory.Inside (m.effective a d)
  · have hindex := Memory.index?_of_inside hin
    rw [if_pos hin, Memory.read_eq hindex, Memory.after_read hindex]
  · rw [if_neg hin, Memory.read_eq_error (Memory.index?_of_not_inside hin)]

theorem step_store {m : Machine} {a b : Register} {d : Displacement}
    (h : m.instruction? = some (.transfer .sw a b d)) :
    m.step = if Memory.Inside (m.effective a d) then
        { m with memory := m.memory.after (.write (m.effective a d) (m.register b)) }.next
      else (m, .fault (.accessViolation (m.effective a d))) := by
  rw [step_eq_execute_of h]
  show m.transfer .sw a b d = _
  unfold transfer
  dsimp only
  by_cases hin : Memory.Inside (m.effective a d)
  · have hindex := Memory.index?_of_inside hin
    rw [if_pos hin, Memory.write_eq hindex, Memory.after_write hindex]
  · rw [if_neg hin, Memory.write_eq_error (Memory.index?_of_not_inside hin)]

/-- An instruction is fetched from the words that memory reaches. -/
theorem step_fetch (m : Machine) :
    m.step = if m.pc < m.memory.size then
        match Instruction.decode (m.memory.space m.pc) with
        | .error code => (m, .fault (.illegalOpcode code))
        | .ok i => m.execute i
      else (m, .fault (.pcOutOfBounds m.pc)) := by
  have hget := m.memory.get?_eq_space m.pc
  by_cases h : m.pc < m.memory.size
  · rw [if_pos h] at hget ⊢
    cases hdecode : Instruction.decode (m.memory.space m.pc) <;> simp only [step, hget, hdecode]
  · rw [if_neg h] at hget ⊢
    simp only [step, hget]

end Machine

/-! ## Accesses after one another -/

/-- A direct access, or a step of a machine whose memory is the one at hand and all else is anything. -/
inductive Event where
  | direct (a : Access)
  | step (m : Machine)

namespace Event

/-- The access that the event makes. -/
def access? (memory : Memory) : Event → Option Access
  | direct a => some a
  | step m => ({ m with memory } : Machine).access?

/-- Memory after the event. -/
def run (memory : Memory) : Event → Memory
  | direct a => memory.after a
  | step m => ({ m with memory } : Machine).step.1.memory

theorem run_step {m : Machine} {memory : Memory} (h : m.memory = memory) :
    (step m).run memory = m.step.1.memory := by
  subst h
  rfl

theorem run_eq (memory : Memory) (e : Event) :
    e.run memory = (e.access? memory).elim memory memory.after := by
  cases e with
  | direct a => rfl
  | step m => exact Machine.fst_step_memory _

end Event

/-- The word that was last stored at an index, or the word of the program there, or zero. The log has the
last access first. -/
def content (words : List Word) (log : List Access) (i : Nat) : Word :=
  (log.findSome? (Access.storedAt? i)).getD (words.getD i 0)

/-- The number of words of the program, or one more than the largest index that was accessed. -/
def extent (words : List Word) (log : List Access) : Nat :=
  (log.filterMap fun a => Memory.index? a.address).foldr (fun i size => max size (i + 1)) words.length

section Log
variable {words : List Word} {log : List Access} {a : Access}

theorem content_cons (i : Nat) :
    content words (a :: log) i = (a.storedAt? i).getD (content words log i) := by
  unfold content
  rw [List.findSome?_cons]
  cases a.storedAt? i <;> rfl

theorem extent_cons : extent words (a :: log) =
    (Memory.index? a.address).elim (extent words log) fun i => max (extent words log) (i + 1) := by
  unfold extent
  rw [List.filterMap_cons]
  cases Memory.index? a.address <;> rfl

theorem extent_le (h : words.length ≤ maxWords) : extent words log ≤ maxWords := by
  induction log with
  | nil => exact h
  | cons a log ih =>
    rw [extent_cons]
    cases hi : Memory.index? a.address with
    | none => exact ih
    | some i => exact Nat.max_le.2 ⟨ih, Memory.lt_of_index? hi⟩

end Log

/-- Memory with the log of the accesses that were made to it. -/
structure Logged where
  memory : Memory
  log : List Access

namespace Logged

def start (words : List Word) : Logged := ⟨.ofList words, []⟩

def next (s : Logged) (e : Event) : Logged := ⟨e.run s.memory, (e.access? s.memory).toList ++ s.log⟩

def play (s : Logged) (events : List Event) : Logged := events.foldl next s

/-- The log says right what is in memory and how far it reaches. -/
structure Faithful (words : List Word) (s : Logged) : Prop where
  size : s.memory.size = extent words s.log
  space : ∀ i, s.memory.space i = content words s.log i

section Faithful
variable {words : List Word} {s : Logged}

theorem faithful_start (words : List Word) : (start words).Faithful words := by
  refine ⟨List.size_toArray, fun i => ?_⟩
  show ((words.toArray)[i]?).getD 0 = words.getD i 0
  rw [List.getElem?_toArray, List.getD_eq_getElem?_getD]

theorem Faithful.access (h : s.Faithful words) (a : Access) :
    Faithful words ⟨s.memory.after a, a :: s.log⟩ := by
  refine ⟨?_, fun i => ?_⟩
  · rw [extent_cons, ← h.size]
    cases hi : Memory.index? a.address with
    | none =>
      dsimp only
      rw [Memory.after_of_none hi]
      rfl
    | some i => exact Memory.size_after hi
  · rw [content_cons, ← h.space]
    exact s.memory.space_after a i

/-- Every event keeps the log right. -/
theorem Faithful.next (h : s.Faithful words) (e : Event) : (s.next e).Faithful words := by
  unfold Logged.next
  rw [e.run_eq]
  cases e.access? s.memory with
  | none => exact h
  | some a => exact h.access a

theorem Faithful.play (h : s.Faithful words) (events : List Event) :
    (s.play events).Faithful words := by
  induction events generalizing s with
  | nil => exact h
  | cons e events ih => exact ih (h.next e)

end Faithful

/-- A run of a machine is a sequence of steps, each of which finds the memory that the last one left. -/
theorem exists_events_of_walk {m : Machine} {s : Logged} (n : Nat) (h : m.memory = s.memory) :
    ∃ events, (s.play events).memory = (Machine.walk n m).1.memory := by
  induction n, m using Machine.walk.induct generalizing s with
  | case1 m => exact ⟨[], h.symm⟩
  | case2 n m k hstep ih =>
    have hnext : k.memory = (s.next (.step m)).memory := by
      show _ = (Event.step m).run s.memory
      rw [Event.run_step h, hstep]
    obtain ⟨events, hevents⟩ := ih hnext
    rw [Machine.walk_of_ran hstep]
    exact ⟨.step m :: events, hevents⟩
  | case3 n m k hstep =>
    refine ⟨[.step m], ?_⟩
    rw [Machine.walk_of_halted hstep]
    show (Event.step m).run s.memory = _
    rw [Event.run_step h, hstep]
  | case4 n m k f hstep =>
    refine ⟨[.step m], ?_⟩
    rw [Machine.walk_of_fault hstep]
    show (Event.step m).run s.memory = _
    rw [Event.run_step h, hstep]

/-- What memory does with the access that comes next, whichever it is. -/
structure Serves (words : List Word) (s : Logged) : Prop where
  /-- Memory reaches as far as the program, and up to the last index that was accessed. -/
  size : s.memory.size = extent words s.log
  size_le : s.memory.size ≤ maxWords
  /-- It holds the words that were last stored, else those of the program, else zeros. -/
  get? : ∀ i, s.memory.get? i =
    if i < extent words s.log then some (content words s.log i) else none
  /-- A load succeeds at the addresses from 0 to 16383, with the word that is there. -/
  read : ∀ address, s.memory.read address =
    if Memory.Inside address then
      .ok (content words s.log address.toInt.toNat, s.memory.after (.read address))
    else .error (.accessViolation address)
  /-- So does a store. -/
  write : ∀ address w, s.memory.write address w =
    if Memory.Inside address then .ok (s.memory.after (.write address w))
    else .error (.accessViolation address)
  /-- An instruction that loads does the same, and leaves the whole machine as it was if it fails. -/
  load : ∀ (m : Machine) (a b : Register) (d : Displacement), m.memory = s.memory →
    m.instruction? = some (.transfer .lw a b d) →
    m.step = if Memory.Inside (m.effective a d) then
        ({ m with memory := s.memory.after (.read (m.effective a d)) }.setRegister b
          (content words s.log (m.effective a d).toInt.toNat)).next
      else (m, .fault (.accessViolation (m.effective a d)))
  /-- So does an instruction that stores. -/
  store : ∀ (m : Machine) (a b : Register) (d : Displacement), m.memory = s.memory →
    m.instruction? = some (.transfer .sw a b d) →
    m.step = if Memory.Inside (m.effective a d) then
        { m with memory := s.memory.after (.write (m.effective a d) (m.register b)) }.next
      else (m, .fault (.accessViolation (m.effective a d)))
  /-- An access that fails leaves memory as it was. -/
  refused : ∀ a : Access, ¬ Memory.Inside a.address → s.memory.after a = s.memory
  /-- A load changes no word, and a store only the one at its address. -/
  loaded : ∀ address, (s.memory.after (.read address)).space = s.memory.space
  stored : ∀ address w, Memory.Inside address → (s.memory.after (.write address w)).space =
    Function.update s.memory.space address.toInt.toNat w
  /-- An instruction is fetched from an index that memory reaches, and from no other. -/
  fetch : ∀ m : Machine, m.memory = s.memory →
    m.step = if m.pc < extent words s.log then
        match Instruction.decode (content words s.log m.pc) with
        | .error code => (m, .fault (.illegalOpcode code))
        | .ok i => m.execute i
      else (m, .fault (.pcOutOfBounds m.pc))

theorem Faithful.serves {words : List Word} {s : Logged} (h : s.Faithful words)
    (hwords : words.length ≤ maxWords) : s.Serves words where
  size := h.size
  size_le := by
    rw [h.size]
    exact extent_le hwords
  get? i := by rw [s.memory.get?_eq_space, h.size, h.space]
  read address := by
    by_cases hin : Memory.Inside address
    · have hindex := Memory.index?_of_inside hin
      rw [if_pos hin, Memory.read_eq hindex, Memory.after_read hindex, h.space]
    · rw [if_neg hin, Memory.read_eq_error (Memory.index?_of_not_inside hin)]
  write address w := by
    by_cases hin : Memory.Inside address
    · have hindex := Memory.index?_of_inside hin
      rw [if_pos hin, Memory.write_eq hindex, Memory.after_write hindex]
    · rw [if_neg hin, Memory.write_eq_error (Memory.index?_of_not_inside hin)]
  load m a b d hm hi := by rw [Machine.step_load hi, hm, h.space]
  store m a b d hm hi := by rw [Machine.step_store hi, hm]
  refused a hout := Memory.after_of_none (Memory.index?_of_not_inside hout)
  loaded address := by
    by_cases hin : Memory.Inside address
    · exact Memory.space_after_read (Memory.index?_of_inside hin)
    · have hnone : Memory.index? (Access.read address).address = none :=
        Memory.index?_of_not_inside hin
      rw [Memory.after_of_none hnone]
  stored address w hin := Memory.space_after_write (Memory.index?_of_inside hin)
  fetch m hm := by rw [m.step_fetch, hm, h.size, h.space]

end Logged

/-- Memory is an array of 16384 words that starts as the program and zeros, for every program that fits
and after every sequence of direct accesses and steps. -/
theorem memory_refines_zero_filled {words : List Word} (hwords : words.length ≤ maxWords)
    (events : List Event) :
    (∀ m : Machine, m.load words = .ok { m with memory := (Logged.start words).memory, pc := 0 }) ∧
      ((Logged.start words).play events).Serves words :=
  ⟨fun m => m.load_eq hwords, ((Logged.faithful_start words).play events).serves hwords⟩

/-- A program of one word, a store at address 3, and a load at address -1 that fails: the stored word, the
zeros between and the program are there, and no address from 4 on can be fetched. -/
theorem memory_refines_zero_filled_store :
    let s := (Logged.start [5]).play [.direct (.write 3 7), .direct (.read (-1))]
    [(5 : Word)].length ≤ maxWords ∧ s.memory.size = 4 ∧
      s.memory.read 3 = .ok (7, s.memory.after (.read 3)) ∧
      s.memory.read 2 = .ok (0, s.memory.after (.read 2)) ∧
      s.memory.read 0 = .ok (5, s.memory.after (.read 0)) ∧
      s.memory.read (-1) = .error (.accessViolation (-1)) ∧
      ∀ m : Machine, m.memory = s.memory → m.pc = 4 → m.step = (m, .fault (.pcOutOfBounds 4)) := by
  intro s
  have hfits : [(5 : Word)].length ≤ maxWords := by decide
  obtain ⟨-, hserves⟩ :=
    memory_refines_zero_filled hfits [.direct (.write 3 7), .direct (.read (-1))]
  refine ⟨hfits, hserves.size, hserves.read 3, hserves.read 2, hserves.read 0, hserves.read (-1),
    fun m hm hpc => ?_⟩
  rw [hserves.fetch m hm, hpc]
  rfl

end SolMachine
