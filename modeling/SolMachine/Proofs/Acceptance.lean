import SolMachine.Proofs.Encoding
import SolMachine.Proofs.Passes

/-!
# Which texts are accepted, and as what

* `Acceptable` : what a text has to be like, stated over its lines and statements;
* `acceptable_iff` : it is the absence of faults;
* `decode_wordOf`, `toInt_operandNumber` : the word of an instruction is read as that instruction,
  and no bit of its operand is lost;
* `assemble_accepts_exactly` : the texts that `assemble` accepts, and the words it gives for them.
-/

namespace SolMachine.Assembly
open SolMachine.Text

/-- A text that can be assembled. -/
structure Acceptable (cs : List Char) : Prop where
  /-- Every line can be read. -/
  lines : ∀ l ∈ lines cs, (readLine l).faults = []
  /-- The lines that are not blank fit in memory. -/
  size : (nonblankLines cs).length ≤ 16384
  /-- Names of labels are distinct. -/
  labels : (labelNames (readSource cs).statements).Nodup
  /-- After no line has there been a `pop` without its `push`, or more than 32 of them open. -/
  stack : Balanced (readSource cs).statements
  /-- Labels that are used are defined, and integers are in range. -/
  operands : Resolvable (readSource cs).statements

theorem acceptable_iff (cs : List Char) :
    Acceptable cs ↔ earlyFaults cs = [] ∧ operandFaults (readSource cs).statements = [] := by
  rw [earlyFaults_eq_nil_iff, faults_eq_nil_iff, programFaults_eq_nil_iff, operandFaults_eq_nil_iff]
  constructor
  · rintro ⟨hlines, hsize, hlabels, hstack, hoperands⟩
    exact ⟨⟨hlines, length_statements cs ▸ hsize, hlabels, hstack⟩, hoperands⟩
  · rintro ⟨⟨hlines, hsize, hlabels, hstack⟩, hoperands⟩
    exact ⟨hlines, length_statements cs ▸ hsize, hlabels, hstack, hoperands⟩

/-! ## Words -/

section Words
variable {ss : List Statement} {a : Nat} {s : Statement} {i : Instruction AddressOperand}

/-- The word of an instruction is read as that instruction. -/
theorem decode_wordOf (hi : s.body = .instruction i) :
    Instruction.decode (wordOf ss a s) = .ok (instructionOf ss a i) := by
  unfold wordOf
  rw [hi]
  exact Instruction.decode_encode _

/-- What an operand stands for fits fifteen bits. -/
theorem operandNumber_mem (hr : Resolvable ss) (hss : ss.length ≤ 16384) (hs : ss[a]? = some s)
    (hi : s.body = .instruction i) {x : AddressOperand} (hx : i.address? = some x) :
    -16384 ≤ operandNumber ss a i.opcode.isRelative x ∧
      operandNumber ss a i.opcode.isRelative x ≤ 16383 := by
  have ha : a < ss.length := (List.getElem?_eq_some_iff.1 hs).1
  cases x with
  | int w => exact (((operandFault?_eq_none_iff ss a s).1
      ((operandFaults_eq_nil_iff_forall ss).1 ((operandFaults_eq_nil_iff ss).2 hr) a s hs)).2
        i hi w hx).1
  | label l =>
    have hmem : s ∈ ss := List.mem_of_getElem? hs
    have hdefined := hr.defined s hmem l (by rw [hi]; exact hx)
    obtain ⟨b, hb⟩ := exists_labelAddress? hdefined
    have hlt := labelAddress?_lt hb
    simp only [operandNumber, hb, Option.getD_some]
    split <;> omega

/-- No bit of what an operand stands for is lost. -/
theorem toInt_operandNumber (hr : Resolvable ss) (hss : ss.length ≤ 16384) (hs : ss[a]? = some s)
    (hi : s.body = .instruction i) {x : AddressOperand} (hx : i.address? = some x) :
    (Offset.ofInt 15 (operandNumber ss a i.opcode.isRelative x)).value.toInt =
      operandNumber ss a i.opcode.isRelative x := by
  have hbound : Offset.bound 15 = 16384 := rfl
  obtain ⟨hlo, hhi⟩ := operandNumber_mem hr hss hs hi hx
  exact Offset.toInt_value_ofInt (by decide) (by decide) (by omega) (by omega)

theorem address?_instructionOf {x : AddressOperand} (hx : i.address? = some x) :
    (instructionOf ss a i).address? =
      some (Offset.ofInt 15 (operandNumber ss a i.opcode.isRelative x)) := by
  rw [instructionOf, Instruction.address?_map, hx, Option.map_some]

end Words

/-! ## The assembler -/

section Assemble
variable {source : String} {debug : Bool}

theorem acceptable_of_assemble {p : Program} (h : assemble source debug = .ok p) :
    Acceptable source.toList ∧ p.words = (readSource source.toList).statements.mapIdx
      (wordOf (readSource source.toList).statements) := by
  by_cases hearly : earlyFaults source.toList = []
  · by_cases hoperands : operandFaults (readSource source.toList).statements = []
    · obtain ⟨q, hq, hwords⟩ := assemble_of_no_faults hearly hoperands debug
      obtain rfl := Except.ok.inj (h.symm.trans hq)
      exact ⟨(acceptable_iff _).2 ⟨hearly, hoperands⟩, hwords⟩
    · rw [assemble_of_operandFaults hearly hoperands debug] at h
      cases h
  · rw [assemble_of_earlyFaults hearly debug] at h
    cases h

theorem not_acceptable_of_assemble {ds : Diagnostics} (h : assemble source debug = .error ds) :
    ¬ Acceptable source.toList := by
  intro hacc
  obtain ⟨hearly, hoperands⟩ := (acceptable_iff _).1 hacc
  obtain ⟨p, hp, -⟩ := assemble_of_no_faults hearly hoperands debug
  rw [hp] at h
  cases h

end Assemble

/-- `assemble` accepts exactly the acceptable texts. It gives one word for each line that is not
blank, in order: the encoding of its statement, in which a label has become a number, and in which
that number or the integer that was written can be read again. A label is never too far. -/
theorem assemble_accepts_exactly (source : String) (debug : Bool) :
    (match assemble source debug with
      | .error _ => ¬ Acceptable source.toList
      | .ok p => Acceptable source.toList ∧
        let ss := (readSource source.toList).statements
        ss.map some = (nonblankLines source.toList).map (fun l => (readLine l).statement) ∧
        p.words = ss.mapIdx (wordOf ss) ∧
        ∀ (a : Nat) s i, ss[a]? = some s → s.body = .instruction i →
          Instruction.decode (wordOf ss a s) = .ok (instructionOf ss a i) ∧
          ∀ x ∈ i.address?, ∃ d ∈ (instructionOf ss a i).address?,
            d.value.toInt = operandNumber ss a i.opcode.isRelative x) ∧
    ∀ (t : SymbolTable) (l : Label) (span : Span) (a b : Nat), t.addressOf? l.name = some b →
      a < 16384 → b < 16384 →
      absolute t span (.label l) = .ok (Offset.ofInt 15 b) ∧
      relative t a span (.label l) = .ok (Offset.ofInt 15 (b - a - 1)) := by
  refine ⟨?_, fun t l span a b h ha hb =>
    ⟨absolute_of_addressOf? h hb, relative_of_addressOf? h hb ha⟩⟩
  cases h : assemble source debug with
  | error ds => exact not_acceptable_of_assemble h
  | ok p =>
    obtain ⟨hacc, hwords⟩ := acceptable_of_assemble h
    have hsize := hacc.size
    rw [← length_statements] at hsize
    refine ⟨hacc, map_some_statements source.toList, hwords, fun a s i hs hi => ?_⟩
    refine ⟨decode_wordOf hi, fun x hx => ⟨_, address?_instructionOf hx, ?_⟩⟩
    exact toInt_operandNumber hacc.operands hsize hs hi hx

end SolMachine.Assembly
