import SolMachine.Proofs.Encoding
import SolMachine.Proofs.WordValues

/-!
# The instruction table

* `View`, `Machine.view` : a machine as numbers; nothing but counters is left out
  (`eq_of_view_eq`);
* `Instruction.effect?` : the table: what each instruction makes of a machine;
* `Machine.Obeys` : a step ended as the table says; `advance_obeys` is the end of every instruction
  but `halt`, and `compute_obeys` to `push_obeys` are the rows;
* `step_follows_table` : a step from any state is what the table says.
-/

namespace SolMachine

/-- A machine as numbers; words are read as signed. -/
@[ext] structure View where
  registers : Register → Int
  memory : Nat → Option Int
  stack : List Int
  capacity : Nat
  flag : Bool
  pc : Int

/-- The numbers in a machine. -/
def Machine.view (m : Machine) : View where
  registers r := (m.register r).toInt
  memory j := (m.memory.get? j).map BitVec.toInt
  stack := m.stack.words.map BitVec.toInt
  capacity := m.stack.capacity
  flag := m.flag
  pc := m.pc

namespace View

/-- Writes a number to a register, which keeps its 32 low bits. -/
def set (v : View) (r : Register) (n : Int) : View :=
  { v with registers := fun s => if s = r then Word.signed n else v.registers s }

/-- Exchanges what two registers hold. -/
def exchange (v : View) (a b : Register) : View :=
  { v with registers := fun r =>
      if r = a then v.registers b else if r = b then v.registers a else v.registers r }

/-- Writes a result to register `c`. The signed division then exchanges registers `a` and `b`. -/
def compute (v : View) (op : Alu) (a b c : Register) (n : Int) : View :=
  match op with
  | .xidiv => (v.set c n).exchange a b
  | _ => v.set c n

/-- Puts zeros at the addresses up to `n` that are not in memory. -/
def cover (v : View) (n : Nat) : View :=
  { v with memory := fun j => (v.memory j).or (if j ≤ n then some 0 else none) }

/-- Writes a number to an address. -/
def store (v : View) (j : Nat) (n : Int) : View :=
  { v with memory := fun k => if k = j then some n else v.memory k }

/-- Loads register `b` from an address, or stores it there; memory then reaches up to it. -/
def transfer (v : View) (op : Transfer) (b : Register) (n : Nat) : View :=
  match op with
  | .lw => (v.cover n).set b (((v.cover n).memory n).getD 0)
  | .sw => (v.cover n).store n (v.registers b)

/-- Goes to an address. -/
def goto (v : View) (target : Int) : View := { v with pc := target }

/-- Goes to the next address. -/
def next (v : View) : View := v.goto (v.pc + 1)

/-- Goes to the next address, or to the one at a displacement from it. -/
def jump (v : View) (taken : Prop) [Decidable taken] (d : Displacement) : View :=
  v.goto (if taken then v.pc + 1 + d.value.toInt else v.pc + 1)

end View

instance (op : Branch) (x y : Int) : Decidable (op.Holds x y) :=
  match op with
  | .beq => inferInstanceAs (Decidable (x = y))
  | .jmae => inferInstanceAs (Decidable (y ≤ x))
  | .jmnae => inferInstanceAs (Decidable (x < y))

/-- The table: what an instruction makes of a machine, if there is something to divide by, an address
to access, or room or a word on the stack. -/
def Instruction.effect? (v : View) : Instruction Displacement → Option View
  | .alu op a b c =>
    (op.result? (v.registers a) (v.registers b)).map fun n => (v.compute op a b c n).next
  | .transfer op a b d =>
    let address := Word.signed (v.registers a + d.value.toInt)
    if 0 ≤ address ∧ address < 16384 then some (v.transfer op b address.toNat).next else none
  | .branch op a b d => some (v.jump (op.Holds (v.registers a) (v.registers b)) d)
  | .jarl a b =>
    if v.registers a = v.registers b then some ((v.set a (v.pc + 1)).goto (v.pc + 1))
    else some ((v.set b (v.pc + 1)).goto (v.registers a))
  | .halt => some v
  | .scan op a b =>
    if v.registers a = 0 then some ({ v with flag := false }.set b (-1)).next
    else some ({ v with flag := true }.set b (op.result (v.registers a))).next
  | .jne d => some (v.jump v.flag d)
  | .pop r =>
    match v.stack with
    | [] => none
    | n :: rest => some ({ v with stack := rest }.set r n).next
  | .push r =>
    if v.stack.length < v.capacity then
      some { v with stack := v.registers r :: v.stack }.next
    else none

/-- How a step from `m` of an instruction other than `halt` can end. -/
inductive Machine.Obeys (m : Machine) (v? : Option View) : Machine × Outcome → Prop
  /-- It did what the table says, and counted. -/
  | ran {after : Machine} (view : v? = some after.view) (inside : after.pc < 16384)
      (executed : after.executed = m.executed + 1) (halted : after.halted = m.halted)
      (config : after.config = m.config) : Obeys m v? (after, .ran)
  /-- The table says nothing, or leads out of memory. -/
  | fault {after : Machine} {f : Fault} (out : ∀ v, v? = some v → v.pc < 0 ∨ 16384 ≤ v.pc) :
      Obeys m v? (after, .fault f)

namespace Machine

/-! ## Views of changed machines -/

section Views
variable (m : Machine)

theorem view_setRegister (r : Register) {w : Word} {n : Int} (h : w.toInt = Word.signed n) :
    (m.setRegister r w).view = m.view.set r n := by
  refine View.ext (funext fun s => ?_) rfl rfl rfl rfl rfl
  show ((m.setRegister r w).register s).toInt = if s = r then Word.signed n else (m.register s).toInt
  rw [register_setRegister, ← h]
  by_cases hs : s = r
  · rw [if_pos hs, if_pos hs.symm]
  · rw [if_neg hs, if_neg (Ne.symm hs)]

theorem view_exchange (a b : Register) :
    ((m.setRegister a (m.register b)).setRegister b (m.register a)).view = m.view.exchange a b := by
  refine View.ext (funext fun s => ?_) rfl rfl rfl rfl rfl
  show (((m.setRegister a (m.register b)).setRegister b (m.register a)).register s).toInt = _
  rw [register_setRegister, register_setRegister]
  unfold View.exchange view
  simp only
  by_cases ha : s = a
  · by_cases hb : b = s
    · rw [if_pos hb, if_pos ha, hb, ha]
    · rw [if_neg hb, if_pos ha.symm, if_pos ha]
  · rw [if_neg ha, if_neg (Ne.symm ha)]
    by_cases hb : s = b
    · rw [if_pos hb, if_pos hb.symm]
    · rw [if_neg hb, if_neg (Ne.symm hb)]

theorem view_cover (n : Nat) :
    ({ m with memory := m.memory.cover n } : Machine).view = m.view.cover n := by
  refine View.ext rfl (funext fun j => ?_) rfl rfl rfl rfl
  show ((m.memory.cover n).get? j).map BitVec.toInt =
    ((m.memory.get? j).map BitVec.toInt).or (if j ≤ n then some 0 else none)
  rw [Memory.get?_cover]
  by_cases hj : j < m.memory.size
  · have hget : m.memory.get? j = some m.memory.words[j] := Array.getElem?_eq_getElem hj
    rw [if_pos hj, hget]
    rfl
  · have hget : m.memory.get? j = none := Array.getElem?_eq_none (Nat.le_of_not_lt hj)
    rw [if_neg hj, hget]
    split <;> rfl

theorem view_store {n : Nat} (hn : n < m.memory.size) (w : Word) :
    ({ m with memory := ⟨m.memory.words.setIfInBounds n w⟩ } : Machine).view =
      m.view.store n w.toInt := by
  refine View.ext rfl (funext fun j => ?_) rfl rfl rfl rfl
  show ((m.memory.words.setIfInBounds n w)[j]?).map BitVec.toInt =
    if j = n then some w.toInt else (m.memory.get? j).map BitVec.toInt
  by_cases hj : j = n
  · have hn' : j < m.memory.words.size := hj ▸ hn
    rw [if_pos hj, ← hj, Array.getElem?_setIfInBounds_self_of_lt hn']
    rfl
  · rw [if_neg hj, Array.getElem?_setIfInBounds_ne (Ne.symm hj)]
    rfl

theorem view_goto {target : Int} (h : 0 ≤ target) :
    ({ m with pc := target.toNat, executed := m.executed + 1 } : Machine).view =
      m.view.goto target := by
  refine View.ext rfl rfl rfl rfl rfl ?_
  show (target.toNat : Int) = target
  omega

theorem toInt_getD (w? : Option Word) : (w?.getD 0).toInt =
    Word.signed ((w?.map BitVec.toInt).getD 0) := by
  cases w? with
  | none => rfl
  | some w => exact (Word.signed_toInt w).symm

theorem view_load (b : Register) (n : Nat) :
    (({ m with memory := m.memory.cover n } : Machine).setRegister b
      (((m.memory.cover n).get? n).getD 0)).view = m.view.transfer .lw b n := by
  rw [view_setRegister _ b (toInt_getD _), View.transfer, ← view_cover]
  rfl

theorem view_save (b : Register) (n : Nat) :
    ({ m with memory := ⟨(m.memory.cover n).words.setIfInBounds n (m.register b)⟩ } : Machine).view =
      m.view.transfer .sw b n := by
  have hn : n < (m.memory.cover n).size := by
    rw [Memory.size_cover]
    omega
  rw [View.transfer, ← view_cover]
  exact view_store { m with memory := m.memory.cover n } hn (m.register b)

end Views

/-! ## Rows of the table -/

section Rows
variable {m n : Machine}

/-- The counters of a machine that an instruction has changed, but not yet left. -/
structure SameCounters (m n : Machine) : Prop where
  executed : n.executed = m.executed
  halted : n.halted = m.halted
  config : n.config = m.config

theorem toNat_lt_of_target {target : Int} (h : 0 ≤ target ∧ target < maxWords) :
    target.toNat < 16384 := by
  have hmax : (maxWords : Int) = 16384 := rfl
  omega

/-- A step cannot leave memory. -/
theorem leave_obeys (m : Machine) {v : View} {f : Fault} (h : ¬ (0 ≤ v.pc ∧ v.pc < maxWords)) :
    m.Obeys (some v) (n, .fault f) := by
  have hmax : (maxWords : Int) = 16384 := rfl
  refine .fault fun v' hv => ?_
  obtain rfl := Option.some.inj hv
  omega

theorem advance_obeys (h : SameCounters m n) (target : Int) :
    m.Obeys (some (n.view.goto target)) (n.advance target) := by
  unfold advance
  by_cases ht : 0 ≤ target ∧ target < maxWords
  · rw [if_pos ht, ← n.view_goto ht.1]
    exact .ran rfl (toNat_lt_of_target ht) (congrArg (· + 1) h.executed) h.halted h.config
  · rw [if_neg ht]
    exact leave_obeys m ht

theorem fault_obeys (m : Machine) {f : Fault} : m.Obeys none (n, .fault f) :=
  .fault fun v hv => by cases hv

theorem next_obeys (h : SameCounters m n) : m.Obeys (some n.view.next) n.next := by
  unfold next View.next
  exact advance_obeys h (n.pc + 1)

theorem jump_obeys (m : Machine) {taken : Bool} {p : Prop} [Decidable p] (h : taken = true ↔ p)
    (d : Displacement) : m.Obeys (some (m.view.jump p d)) (m.jump taken d) := by
  unfold jump View.jump
  by_cases ht : taken = true
  · rw [if_pos ht, if_pos (h.1 ht)]
    exact advance_obeys ⟨rfl, rfl, rfl⟩ (m.pc + 1 + d.value.toInt)
  · rw [if_neg ht, if_neg (mt h.2 ht)]
    exact next_obeys ⟨rfl, rfl, rfl⟩

theorem compute_obeys (m : Machine) (op : Alu) (a b c : Register) :
    m.Obeys ((Instruction.alu op a b c).effect? m.view) (m.compute op a b c) := by
  have hvalue := toInt_value? op (m.register a) (m.register b)
  unfold compute
  show m.Obeys ((op.result? (m.register a).toInt (m.register b).toInt).map
    fun n => (m.view.compute op a b c n).next) _
  cases hw : op.value? (m.register a) (m.register b) with
  | none =>
    rw [hw] at hvalue
    rw [Option.map_eq_none_iff.1 hvalue.symm]
    exact fault_obeys m
  | some w =>
    rw [hw] at hvalue
    obtain ⟨n, hn, hnw⟩ := Option.map_eq_some_iff.1 hvalue.symm
    have hset := m.view_setRegister c hnw.symm
    rw [hn, Option.map_some]
    cases op with
    | xidiv =>
      show m.Obeys (some ((m.view.set c n).exchange a b).next)
        (((m.setRegister c w).setRegister a ((m.setRegister c w).register b)).setRegister b
          ((m.setRegister c w).register a)).next
      rw [← hset, ← view_exchange]
      exact next_obeys ⟨rfl, rfl, rfl⟩
    | _ =>
      show m.Obeys (some (m.view.set c n).next) (m.setRegister c w).next
      rw [← hset]
      exact next_obeys ⟨rfl, rfl, rfl⟩

theorem toInt_effective (m : Machine) (a : Register) (d : Displacement) :
    (m.effective a d).toInt = Word.signed ((m.register a).toInt + d.value.toInt) :=
  BitVec.toInt_add _ _

theorem transfer_obeys (m : Machine) (op : Transfer) (a b : Register) (d : Displacement) :
    m.Obeys ((Instruction.transfer op a b d).effect? m.view) (m.transfer op a b d) := by
  have hmax : (maxWords : Int) = 16384 := rfl
  show m.Obeys (if 0 ≤ Word.signed ((m.register a).toInt + d.value.toInt) ∧
      Word.signed ((m.register a).toInt + d.value.toInt) < 16384 then
    some (m.view.transfer op b (Word.signed ((m.register a).toInt + d.value.toInt)).toNat).next
    else none) _
  rw [← toInt_effective, ← hmax]
  by_cases hin : 0 ≤ (m.effective a d).toInt ∧ (m.effective a d).toInt < maxWords
  · have hindex : Memory.index? (m.effective a d) = some (m.effective a d).toInt.toNat := if_pos hin
    rw [if_pos hin]
    generalize (m.effective a d).toInt.toNat = n at hindex
    unfold transfer Memory.read Memory.write
    rw [hindex]
    cases op with
    | lw =>
      rw [← view_load]
      exact next_obeys ⟨rfl, rfl, rfl⟩
    | sw =>
      rw [← view_save]
      exact next_obeys ⟨rfl, rfl, rfl⟩
  · have hindex : Memory.index? (m.effective a d) = none := if_neg hin
    rw [if_neg hin]
    unfold transfer Memory.read Memory.write
    rw [hindex]
    cases op <;> exact fault_obeys m

theorem scan_obeys (m : Machine) (op : Scan) (a b : Register) :
    m.Obeys ((Instruction.scan op a b).effect? m.view) (m.scan op a b) := by
  show m.Obeys (if (m.register a).toInt = 0 then
      some ({ m.view with flag := false }.set b (-1)).next
    else some ({ m.view with flag := true }.set b (op.result (m.register a).toInt)).next) _
  unfold scan
  cases hi : op.index? (m.register a) with
  | none =>
    rw [if_pos ((Word.toInt_eq_zero_iff _).2 (index?_eq_none_iff.1 hi))]
    have hset := view_setRegister { m with flag := false } b (w := -1) (n := -1) rfl
    show m.Obeys (some (({ m with flag := false } : Machine).view.set b (-1)).next) _
    rw [← hset]
    exact next_obeys ⟨rfl, rfl, rfl⟩
  | some n =>
    have hne : (m.register a).toInt ≠ 0 := fun h0 => by
      rw [index?_eq_none_iff.2 ((Word.toInt_eq_zero_iff _).1 h0)] at hi
      cases hi
    have hset := view_setRegister { m with flag := true } b (Word.toInt_ofNat n)
    rw [if_neg hne, result_eq_of_index? hi]
    show m.Obeys (some (({ m with flag := true } : Machine).view.set b n).next) _
    rw [← hset]
    exact next_obeys ⟨rfl, rfl, rfl⟩

/-- A jump goes to its target and then writes the link. -/
theorem jumpAndLink_of_target {a b kept : Register} {target : Int}
    (h : (if m.register a = m.register b then (a, ((m.pc + 1 : Nat) : Int))
      else (b, (m.register a).toInt)) = (kept, target)) :
    m.jumpAndLink a b = if 0 ≤ target ∧ target < maxWords then
      (({ m with pc := target.toNat, executed := m.executed + 1 } : Machine).setRegister kept
        (BitVec.ofNat 32 (m.pc + 1)), .ran)
    else (m, .fault (.pcOutOfBounds target)) := by
  unfold jumpAndLink advance
  simp only [h]
  by_cases ht : 0 ≤ target ∧ target < maxWords
  · simp only [if_pos ht]
  · simp only [if_neg ht]

theorem link_obeys (m : Machine) (r : Register) (target : Int) :
    m.Obeys (some ((m.view.set r (m.pc + 1)).goto target))
      (if 0 ≤ target ∧ target < maxWords then
        (({ m with pc := target.toNat, executed := m.executed + 1 } : Machine).setRegister r
          (BitVec.ofNat 32 (m.pc + 1)), .ran)
      else (m, .fault (.pcOutOfBounds target))) := by
  by_cases ht : 0 ≤ target ∧ target < maxWords
  · have hlink := Word.toInt_ofNat (m.pc + 1)
    rw [Int.natCast_add, Int.natCast_one] at hlink
    rw [if_pos ht]
    refine .ran (congrArg some ?_) (toNat_lt_of_target ht) rfl rfl rfl
    rw [view_setRegister _ r hlink, view_goto m ht.1]
    rfl
  · rw [if_neg ht]
    exact leave_obeys m ht

theorem jumpAndLink_obeys (m : Machine) (a b : Register) :
    m.Obeys ((Instruction.jarl a b).effect? m.view) (m.jumpAndLink a b) := by
  show m.Obeys (if (m.register a).toInt = (m.register b).toInt then
      some ((m.view.set a (m.pc + 1)).goto (m.pc + 1))
    else some ((m.view.set b (m.pc + 1)).goto (m.register a).toInt)) _
  by_cases hab : m.register a = m.register b
  · rw [if_pos (congrArg BitVec.toInt hab), jumpAndLink_of_target (if_pos hab), Int.natCast_add,
      Int.natCast_one]
    exact link_obeys m a (m.pc + 1)
  · rw [if_neg (mt BitVec.eq_of_toInt_eq hab), jumpAndLink_of_target (if_neg hab)]
    exact link_obeys m b (m.register a).toInt

theorem pop_obeys (m : Machine) (r : Register) :
    m.Obeys ((Instruction.pop r).effect? m.view) (m.execute (.pop r)) := by
  show m.Obeys (match m.stack.words.map BitVec.toInt with
    | [] => none
    | n :: rest => some ({ m.view with stack := rest }.set r n).next) _
  unfold execute Stack.pop
  cases hs : m.stack.words with
  | nil => exact fault_obeys m
  | cons w ws =>
    have hset := view_setRegister { m with stack := { m.stack with words := ws } } r
      (Word.signed_toInt w).symm
    show m.Obeys (some (({ m with stack := { m.stack with words := ws } } : Machine).view.set r
      w.toInt).next) _
    rw [← hset]
    exact next_obeys ⟨rfl, rfl, rfl⟩

theorem push_obeys (m : Machine) (r : Register) :
    m.Obeys ((Instruction.push r).effect? m.view) (m.execute (.push r)) := by
  show m.Obeys (if (m.stack.words.map BitVec.toInt).length < m.stack.capacity then
    some { m.view with stack := (m.register r).toInt :: m.stack.words.map BitVec.toInt }.next
    else none) _
  rw [List.length_map]
  unfold execute
  by_cases hroom : m.stack.words.length < m.stack.capacity
  · have hpush : m.stack.push (m.register r) = .ok { m.stack with words := _ :: m.stack.words } :=
      Stack.push_eq_ok_iff.2 ⟨hroom, rfl⟩
    rw [if_pos hroom]
    simp only [hpush]
    exact next_obeys (n := { m with stack := { m.stack with words := m.register r :: m.stack.words } })
      ⟨rfl, rfl, rfl⟩
  · have hpush : m.stack.push (m.register r) = .error .stackOverflow := if_pos (Nat.le_of_not_lt hroom)
    rw [if_neg hroom]
    simp only [hpush]
    exact fault_obeys m

theorem execute_obeys (m : Machine) {i : Instruction Displacement} (hi : i ≠ .halt) :
    m.Obeys (i.effect? m.view) (m.execute i) := by
  cases i with
  | alu op a b c => exact m.compute_obeys op a b c
  | transfer op a b d => exact m.transfer_obeys op a b d
  | branch op a b d => exact m.jump_obeys (taken_eq_true_iff op _ _) d
  | jarl a b => exact m.jumpAndLink_obeys a b
  | halt => exact absurd rfl hi
  | scan op a b => exact m.scan_obeys op a b
  | jne d => exact m.jump_obeys Iff.rfl d
  | pop r => exact m.pop_obeys r
  | push r => exact m.push_obeys r

end Rows

/-! ## All of it -/

/-- The view leaves nothing out but the counters and the configuration. -/
theorem eq_of_view_eq {m n : Machine} (h : m.view = n.view) (he : m.executed = n.executed)
    (hh : m.halted = n.halted) (hc : m.config = n.config) : m = n := by
  obtain ⟨⟨memory⟩, registers, pc, ⟨words, capacity⟩, flag, executed, halted, config⟩ := m
  obtain ⟨⟨memory'⟩, registers', pc', ⟨words', capacity'⟩, flag', executed', halted', config'⟩ := n
  injection h with hregisters hmemory hstack hcapacity hflag hpc
  have hinjective : Function.Injective (BitVec.toInt : Word → Int) := fun _ _ => BitVec.eq_of_toInt_eq
  have hregs : registers = registers' := by
    apply Vector.ext
    intro k hk
    exact hinjective (congrFun hregisters ⟨k, hk⟩)
  have hmem : memory = memory' := by
    apply Array.ext_getElem?
    intro k
    exact Option.map_injective hinjective (congrFun hmemory k)
  have hwords : words = words' := (List.map_inj_right fun x y h => hinjective h).1 hstack
  have hpc' : pc = pc' := Int.ofNat.inj hpc
  subst hregs hmem hwords hpc' hcapacity hflag he hh hc
  rfl

/-- A step from any state is what the table says: it changes what stands there and nothing else, for
all registers, equal or not, and it fails only where the table has no entry or leads out of memory.
Where a number that fits a word is written, it is kept as it is (`Word.signed_of_mem`). -/
theorem step_follows_table {m : Machine} {w : Word} {i : Instruction Displacement}
    (hw : m.memory.get? m.pc = some w) (hi : Instruction.decode w = .ok i) :
    (match m.step with
      | (_, .fault _) => ∀ v, i.effect? m.view = some v → v.pc < 0 ∨ 16384 ≤ v.pc
      | (after, outcome) =>
        i.effect? m.view = some after.view ∧ (outcome = .halted ↔ i = .halt) ∧
        (i ≠ .halt → after.pc < 16384) ∧
        after.executed = m.executed + 1 ∧ after.halted = m.halted ∧ after.config = m.config) ∧
    ∀ a b c, m.execute (.alu .mul a b c) = m.execute (.alu .imul a b c) := by
  have hstep : m.step = m.execute i := by
    unfold step
    simp only [hw, hi]
  refine ⟨?_, fun a b c => ?_⟩
  · rw [hstep]
    by_cases hhalt : i = .halt
    · subst hhalt
      exact ⟨rfl, ⟨fun _ => rfl, fun _ => rfl⟩, fun h => absurd rfl h, rfl, rfl, rfl⟩
    · have hobeys := m.execute_obeys hhalt
      generalize m.execute i = r at hobeys
      cases hobeys with
      | ran hview hinside hexecuted hhalted hconfig =>
        exact ⟨hview, ⟨fun h => Outcome.noConfusion h, fun h => absurd h hhalt⟩, fun _ => hinside,
          hexecuted, hhalted, hconfig⟩
      | fault hout => exact hout
  · show m.compute .mul a b c = m.compute .imul a b c
    unfold compute
    rw [value?_mul_eq_imul]

/-- A signed division of -7 by 2 whose quotient goes to the dividend's register. -/
theorem step_follows_table_xidiv :
    let i : Instruction Displacement := .alu .xidiv 1 2 1
    let m : Machine := { Machine.new .standard with
      memory := .ofList [i.encode]
      registers := ((Vector.replicate 16 0).set 1 (-7)).set 2 2 }
    i.effect? m.view = some m.step.1.view ∧
      m.step.1.view.registers 1 = 2 ∧ m.step.1.view.registers 2 = -3 := by
  intro i m
  have hfetch : m.memory.get? m.pc = some i.encode := rfl
  have hran : m.step.2 = .ran := by decide +kernel
  have htable := (step_follows_table hfetch (Instruction.decode_encode i)).1
  rw [← Prod.eta m.step, hran] at htable
  exact ⟨htable.1, by decide +kernel, by decide +kernel⟩

end Machine

end SolMachine
