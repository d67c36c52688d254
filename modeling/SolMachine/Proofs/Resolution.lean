import Mathlib.Data.List.Basic
import SolMachine.Assembly.Program
import SolMachine.Proofs.Offset
import SolMachine.Proofs.Survey

/-!
# What operands stand for

* `Instruction.address?`, `Instruction.map` : the address operand, and another one in its place;
* `operandNumber` : the number that an address operand stands for; `wordOf` : the word of a
  statement;
* `operandFault?` : what is wrong with the operand of a statement, if anything is;
* `StandsFor`, `displacement_of_standsFor` : an operand that stands for a number by the symbol table
  becomes it, if it is short and lands;
* `wordAt_eq` : a statement without such a fault becomes that word, and any other gives the fault;
* `encodeStatements_eq` : the same for all statements of a program.

The rules for programs are stated over integers and the statements themselves; the symbol table comes
in only through `Knows`.
-/

namespace SolMachine.Instruction

variable {α β γ ε : Type}

/-- Puts `f t` in the place of the address operand `t`. -/
def map (f : α → β) : Instruction α → Instruction β
  | alu op a b c => alu op a b c
  | transfer op a b t => transfer op a b (f t)
  | branch op a b t => branch op a b (f t)
  | jarl a b => jarl a b
  | halt => halt
  | scan op a b => scan op a b
  | jne t => jne (f t)
  | pop r => pop r
  | push r => push r

/-- The address operand. -/
def address? : Instruction α → Option α
  | transfer _ _ _ t | branch _ _ _ t | jne t => some t
  | _ => none

@[simp] theorem opcode_map (f : α → β) (i : Instruction α) : (i.map f).opcode = i.opcode := by
  cases i <;> rfl

theorem map_map (f : α → β) (g : β → γ) (i : Instruction α) : (i.map f).map g = i.map (g ∘ f) := by
  cases i <;> rfl

theorem address?_map (f : α → β) (i : Instruction α) : (i.map f).address? = i.address?.map f := by
  cases i <;> rfl

theorem fields_map (f : α → β) (i : Instruction α) : (i.map f).fields = i.fields.map (.map id f) := by
  cases i <;> rfl

theorem resolve_of_none {i : Instruction α} (h : i.address? = none) (f : α → Except ε β)
    (g : α → β) : i.resolve f = .ok (i.map g) := by
  cases i <;> first | rfl | cases h

theorem resolve_of_ok {i : Instruction α} {t : α} (h : i.address? = some t) {f : α → Except ε β}
    {g : α → β} (hf : f t = .ok (g t)) : i.resolve f = .ok (i.map g) := by
  cases i <;> cases h <;> simp only [resolve, hf, map, Except.map]

theorem resolve_of_error {i : Instruction α} {t : α} (h : i.address? = some t)
    {f : α → Except ε β} {e : ε} (hf : f t = .error e) : i.resolve f = .error e := by
  cases i <;> cases h <;> simp only [resolve, hf, Except.map]

end SolMachine.Instruction

namespace SolMachine.Assembly
open SolMachine.Text

/-- The value, unless there is a fault. -/
def checked {ε α : Type} : Option ε → α → Except ε α
  | none, value => .ok value
  | some e, _ => .error e

/-- The address operand of a body. -/
def Body.address? : Body → Option AddressOperand
  | .instruction i => i.address?
  | .fill v => some v

/-- The number that an operand of the statement at address `a` stands for. A label is its address
or, for a branch, the distance to it from the next instruction. -/
def operandNumber (ss : List Statement) (a : Nat) (relative : Bool) : AddressOperand → Int
  | .int w => w.toInt
  | .label l =>
    let target := (labelAddress? ss l.name).getD 0
    if relative then target - a - 1 else target

/-- The machine instruction of a source instruction at address `a`. -/
def instructionOf (ss : List Statement) (a : Nat) (i : Instruction AddressOperand) :
    Instruction Displacement :=
  i.map fun t => Offset.ofInt 15 (operandNumber ss a i.opcode.isRelative t)

/-- The word of a statement at address `a`. -/
def wordOf (ss : List Statement) (a : Nat) (s : Statement) : Word :=
  match s.body with
  | .instruction i => (instructionOf ss a i).encode
  | .fill v => BitVec.ofInt 32 (operandNumber ss a false v)

/-- What is wrong with an integer operand of an instruction at address `a`: it does not fit fifteen
bits, or a branch by it leaves memory. -/
def integerFault? (a : Nat) (relative : Bool) (span : Span) (n : Int) : Option Diagnostic :=
  if n < -16384 ∨ 16383 < n then some (.of (.offsetTooWide 15) span)
  else if relative ∧ (a + 1 + n < 0 ∨ 16383 < a + 1 + n) then some (.of .branchOutOfRange span)
  else none

/-- What is wrong with a label that is used: it is not defined. -/
def labelUseFault? (ss : List Statement) (l : Label) : Option Diagnostic :=
  if l.name ∈ labelNames ss then none else some (.of .undefinedLabel l.span)

/-- What is wrong with the operand of an instruction at address `a`. A label that is defined is never
out of range. -/
def addressFault? (ss : List Statement) (a : Nat) (relative : Bool) (span : Span) :
    AddressOperand → Option Diagnostic
  | .int w => integerFault? a relative span w.toInt
  | .label l => labelUseFault? ss l

/-- What is wrong with the operand of the statement at address `a`. -/
def operandFault? (ss : List Statement) (a : Nat) (s : Statement) : Option Diagnostic :=
  match s.body with
  | .instruction i => i.address?.bind (addressFault? ss a i.opcode.isRelative s.span)
  | .fill (.int _) => none
  | .fill (.label l) => labelUseFault? ss l

/-- What is wrong with the operands of a program, statement by statement. -/
def operandFaults (ss : List Statement) : List Diagnostic :=
  ss.zipIdx.filterMap fun (s, a) => operandFault? ss a s

/-- The table has the addresses of the labels of a program. -/
def SymbolTable.Knows (t : SymbolTable) (ss : List Statement) : Prop :=
  ∀ name, t.addressOf? name = labelAddress? ss name

/-! ## One operand -/

/-- The value is one of a displacement. -/
def IsShort (d : Int) : Prop := -16384 ≤ d ∧ d ≤ 16383

/-- A branch at address `a` by `d` leads to an address of memory. -/
def Lands (a : Nat) (d : Int) : Prop := 0 ≤ a + 1 + d ∧ a + 1 + d ≤ 16383

instance (d : Int) : Decidable (IsShort d) := inferInstanceAs (Decidable (_ ∧ _))

instance (a : Nat) (d : Int) : Decidable (Lands a d) := inferInstanceAs (Decidable (_ ∧ _))

/-- An operand at address `a`, of a branch if `r` holds, stands for the number `d`. -/
inductive StandsFor (t : SymbolTable) (a : Nat) : Bool → AddressOperand → Int → Prop where
  | int (r : Bool) (w : Word) : StandsFor t a r (.int w) w.toInt
  | address {l : Label} {b : Nat} (h : t.addressOf? l.name = some b) :
    StandsFor t a false (.label l) b
  /-- The distance to the label from the next instruction. -/
  | distance {l : Label} {b : Nat} (h : t.addressOf? l.name = some b) :
    StandsFor t a true (.label l) (b - a - 1)

/-- Where the faults of an operand lie. -/
def spot (span : Span) : AddressOperand → Span
  | .int _ => span
  | .label l => l.span

theorem displacementOf_eq (n : Int) (span : Span) :
    displacementOf n span =
      if IsShort n then .ok (Offset.ofInt 15 n) else .error (.of (.offsetTooWide 15) span) := by
  have hbound : Offset.bound 15 = 16384 := rfl
  have hshort : (-16384 ≤ n ∧ n < 16384) ↔ IsShort n := by unfold IsShort; omega
  unfold displacementOf
  rw [Offset.ofInt?_eq (by decide) (by decide), hbound]
  by_cases h : IsShort n
  · rw [if_pos (hshort.2 h), if_pos h]
  · rw [if_neg (mt hshort.1 h), if_neg h]

theorem integerFault?_eq (a : Nat) (r : Bool) (span : Span) (n : Int) :
    integerFault? a r span n =
      if ¬ IsShort n then some (.of (.offsetTooWide 15) span)
      else if r = true ∧ ¬ Lands a n then some (.of .branchOutOfRange span)
      else none := by
  have hshort : (n < -16384 ∨ 16383 < n) ↔ ¬ IsShort n := by unfold IsShort; omega
  have hlands : (a + 1 + n < 0 ∨ 16383 < a + 1 + n) ↔ ¬ Lands a n := by unfold Lands; omega
  simp only [integerFault?, hshort, hlands]

section Operand
variable {ss : List Statement} {t : SymbolTable} {a : Nat} {r : Bool} {span : Span}
  {x : AddressOperand} {d : Int}

theorem operandValue_of_addressOf? (f : Nat → Int) {l : Label} {b : Nat}
    (h : t.addressOf? l.name = some b) : operandValue t span f (.label l) = .ok (f b, l.span) := by
  simp only [operandValue, SymbolTable.find, h, Except.map]

theorem operandValue_of_standsFor (h : StandsFor t a r x d) (span : Span) :
    operandValue t span (fun b => if r then b - a - 1 else b) x = .ok (d, spot span x) := by
  cases h with
  | int w => rfl
  | address hl => exact operandValue_of_addressOf? _ hl
  | distance hl => exact operandValue_of_addressOf? _ hl

/-- The width is looked at first, and for a branch then the target. -/
theorem displacement_of_standsFor (h : StandsFor t a r x d) (span : Span) :
    (if r then relative t a span x else absolute t span x) =
      if ¬ IsShort d then .error (.of (.offsetTooWide 15) (spot span x))
      else if r = true ∧ ¬ Lands a d then .error (.of .branchOutOfRange (spot span x))
      else .ok (Offset.ofInt 15 d) := by
  have hvalue := operandValue_of_standsFor h span
  cases r with
  | false =>
    simp only [Bool.false_eq_true, if_false, false_and] at hvalue ⊢
    rw [absolute, hvalue, ite_not]
    exact displacementOf_eq d _
  | true =>
    have htarget : (0 ≤ a + d + 1 ∧ a + d + 1 < (maxWords : Int)) ↔ Lands a d := by
      have hmax : (maxWords : Int) = 16384 := rfl
      unfold Lands
      omega
    simp only [if_true, true_and] at hvalue ⊢
    rw [relative, hvalue]
    by_cases hshort : IsShort d
    · have hd := (displacementOf_eq d (spot span x)).trans (if_pos hshort)
      simp only [hd, if_neg (not_not_intro hshort), htarget, ite_not]
    · have hd := (displacementOf_eq d (spot span x)).trans (if_neg hshort)
      simp only [hd, if_pos hshort]

theorem displacement_of_undefined {l : Label} (hl : t.addressOf? l.name = none) (r : Bool)
    (span : Span) : (if r then relative t a span (.label l) else absolute t span (.label l)) =
      .error (.of .undefinedLabel l.span) := by
  have hvalue : ∀ f, operandValue t span f (.label l) = .error (.of .undefinedLabel l.span) :=
    fun f => by simp only [operandValue, SymbolTable.find, hl, Except.map]
  unfold relative absolute
  rw [hvalue, hvalue, ite_self]

theorem absolute_of_addressOf? {l : Label} {b : Nat} (h : t.addressOf? l.name = some b)
    (hb : b < maxWords) : absolute t span (.label l) = .ok (Offset.ofInt 15 b) := by
  have hmax : maxWords = 16384 := rfl
  unfold absolute
  rw [operandValue_of_addressOf? _ h]
  exact (displacementOf_eq _ _).trans (if_pos ⟨by omega, by omega⟩)

/-- The distance between two addresses of memory always fits. The farthest one, to address 0 from the
last one, is the least number of fifteen bits. -/
theorem relative_of_addressOf? {l : Label} {b : Nat} (h : t.addressOf? l.name = some b)
    (hb : b < maxWords) (ha : a < maxWords) :
    relative t a span (.label l) = .ok (Offset.ofInt 15 (b - a - 1)) := by
  have hmax : maxWords = 16384 := rfl
  have hshort : IsShort (b - a - 1) := ⟨by omega, by omega⟩
  have hlands : Lands a (b - a - 1) := ⟨by omega, by omega⟩
  have hbranch := displacement_of_standsFor (.distance h : StandsFor t a true _ _) span
  rwa [if_pos rfl, if_neg (not_not_intro hshort), if_neg fun hout => hout.2 hlands] at hbranch

theorem find_of_mem (hk : t.Knows ss) {l : Label} (hl : l.name ∈ labelNames ss) :
    t.find l = .ok ((labelAddress? ss l.name).getD 0) := by
  obtain ⟨b, hb⟩ := exists_labelAddress? hl
  unfold SymbolTable.find
  rw [hk, hb]
  rfl

theorem find_of_not_mem (hk : t.Knows ss) {l : Label} (hl : l.name ∉ labelNames ss) :
    t.find l = .error (.of .undefinedLabel l.span) := by
  unfold SymbolTable.find
  rw [hk, labelAddress?_eq_none_iff.2 hl]

/-- A label of the program, used within memory, becomes what it stands for. -/
theorem displacement_of_mem (hk : t.Knows ss) (hss : ss.length ≤ maxWords) (ha : a < maxWords)
    (span : Span) (r : Bool) {l : Label} (hl : l.name ∈ labelNames ss) :
    (if r then relative t a span (.label l) else absolute t span (.label l)) =
      .ok (Offset.ofInt 15 (operandNumber ss a r (.label l))) := by
  obtain ⟨b, hb⟩ := exists_labelAddress? hl
  have hlt := labelAddress?_lt hb
  have htable : t.addressOf? l.name = some b := (hk l.name).trans hb
  simp only [operandNumber, hb, Option.getD_some]
  cases r with
  | false => exact absolute_of_addressOf? htable (by omega)
  | true => exact relative_of_addressOf? htable (by omega) ha

/-- The displacement of an operand, or what is wrong with it. -/
theorem displacement_eq (hk : t.Knows ss) (hss : ss.length ≤ maxWords) (ha : a < maxWords)
    (span : Span) (r : Bool) (x : AddressOperand) :
    (if r then relative t a span x else absolute t span x) =
      checked (addressFault? ss a r span x) (Offset.ofInt 15 (operandNumber ss a r x)) := by
  cases x with
  | int w =>
    rw [displacement_of_standsFor (.int r w), addressFault?, integerFault?_eq, spot, operandNumber]
    split_ifs <;> rfl
  | label l =>
    rw [addressFault?, labelUseFault?]
    by_cases hl : l.name ∈ labelNames ss
    · rw [if_pos hl]
      exact displacement_of_mem hk hss ha span r hl
    · rw [if_neg hl]
      exact displacement_of_undefined ((hk _).trans (labelAddress?_eq_none_iff.2 hl)) r span

end Operand

/-! ## One statement -/

section Statement
variable {ss : List Statement} {t : SymbolTable} {a : Nat}

theorem machineInstruction_eq (hk : t.Knows ss) (hss : ss.length ≤ maxWords) (ha : a < maxWords)
    (span : Span) (i : Instruction AddressOperand) :
    machineInstruction t a span i =
      checked (i.address?.bind (addressFault? ss a i.opcode.isRelative span))
        (instructionOf ss a i) := by
  unfold machineInstruction instructionOf
  cases hx : i.address? with
  | none => exact Instruction.resolve_of_none hx _ _
  | some x =>
    have hd := displacement_eq hk hss ha span i.opcode.isRelative x
    rw [Option.bind_some]
    cases hf : addressFault? ss a i.opcode.isRelative span x with
    | none =>
      rw [hf] at hd
      exact Instruction.resolve_of_ok hx hd
    | some d =>
      rw [hf] at hd
      exact Instruction.resolve_of_error hx hd

/-- A statement becomes its word, or what is wrong with its operand is told. -/
theorem wordAt_eq (hk : t.Knows ss) (hss : ss.length ≤ maxWords) (ha : a < maxWords)
    (s : Statement) :
    wordAt t a s = checked (operandFault? ss a s) (wordOf ss a s) := by
  unfold wordAt wordOf operandFault?
  cases s.body with
  | instruction i =>
    simp only [machineInstruction_eq hk hss ha]
    cases i.address?.bind (addressFault? ss a i.opcode.isRelative s.span) <;> rfl
  | fill v => cases v with
    | int w => simp only [operandNumber, BitVec.ofInt_toInt, checked]
    | label l =>
      unfold labelUseFault?
      by_cases hl : l.name ∈ labelNames ss
      · simp only [find_of_mem hk hl, if_pos hl, Except.map, operandNumber]
        rfl
      · simp only [find_of_not_mem hk hl, if_neg hl, Except.map, checked]

end Statement

/-! ## The whole program -/

section Collect
variable {α β ε : Type}

/-- The error, if it is one. -/
def errorOf? : Except ε α → Option ε
  | .ok _ => none
  | .error e => some e

theorem collect_eq (results : List (Except ε α)) :
    collect results = if results.filterMap errorOf? = [] then
      .ok (results.filterMap Except.toOption) else .error (results.filterMap errorOf?) := by
  have herror : ∀ f : Except ε α → Option ε, (∀ r, f r = errorOf? r) →
      results.filterMap f = results.filterMap errorOf? := fun f hf => by rw [funext hf]
  unfold collect
  rw [herror]
  · simp only [List.isEmpty_iff]
  · intro r
    cases r <;> rfl

theorem collect_map (xs : List α) (fault? : α → Option ε) (value : α → β) :
    collect (xs.map fun x => checked (fault? x) (value x)) =
      if xs.filterMap fault? = [] then .ok (xs.map value) else .error (xs.filterMap fault?) := by
  have herrors : (xs.map fun x => checked (fault? x) (value x)).filterMap errorOf? =
      xs.filterMap fault? := by
    rw [List.filterMap_map]
    apply List.filterMap_congr
    intro x _
    cases hx : fault? x <;> simp only [Function.comp, hx, checked, errorOf?]
  rw [collect_eq, herrors]
  by_cases hnil : xs.filterMap fault? = []
  · rw [if_pos hnil, if_pos hnil, List.filterMap_map, ← List.filterMap_eq_map]
    congr 1
    apply List.filterMap_congr
    intro x hx
    have hnone := List.filterMap_eq_nil_iff.1 hnil x hx
    simp only [Function.comp, hnone, checked, Except.toOption]
  · rw [if_neg hnil, if_neg hnil]

end Collect

/-- The words of a program, or what is wrong with its operands. -/
theorem encodeStatements_eq {ss : List Statement} {t : SymbolTable} (hk : t.Knows ss)
    (hss : ss.length ≤ maxWords) :
    encodeStatements t ss =
      if operandFaults ss = [] then .ok (ss.mapIdx (wordOf ss)) else .error (operandFaults ss) := by
  have hwords : (ss.zipIdx.map fun (s, a) => wordAt t a s) = ss.zipIdx.map fun x =>
      checked (operandFault? ss x.2 x.1) (wordOf ss x.2 x.1) := by
    apply List.map_congr_left
    rintro ⟨s, a⟩ hs
    have ha := (List.getElem?_eq_some_iff.1 (List.mem_zipIdx_iff_getElem?.1 hs)).1
    exact wordAt_eq hk hss (by omega) s
  unfold encodeStatements
  rw [hwords, collect_map, List.mapIdx_eq_zipIdx_map]
  rfl

/-- The table of a program without faults has its labels. -/
theorem SymbolTable.knows_of_build {ss : List Statement} {source : Option SourceMap} {t : SymbolTable}
    (hs : ∀ s ∈ ss, ∀ l, s.label = some l → l.Spanned) (h : build ss source = .ok t) :
    t.Knows ss := by
  intro name
  obtain ⟨-, rfl⟩ := build_eq_ok_iff.1 h
  unfold addressOf? labelAddress?
  rw [ofProgram, (survey_of hs).labels, Option.map_map]
  rfl

end SolMachine.Assembly
