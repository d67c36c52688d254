import Mathlib.Order.Monotone.Basic
import SolMachine.Proofs.FieldReading
import SolMachine.Proofs.Unplaced

/-!
# Lines whose parts stand elsewhere

* `Span.move`, `Statement.move`, `Diagnostic.move` and the like : the same thing, where the byte `p` of
  the text has become the byte `φ p`;
* `map_unplaced_move` : but for places, statements that stand elsewhere are the same;
* `Steady` : a field all of whose bytes move together;
* `readFields` : how a line is read from its fields; `readLine_eq`;
* `readFields_move` : fields that stand elsewhere are read as the same statement and the same faults,
  elsewhere; the lemmas before it are the same for the parts of a line.
-/

namespace SolMachine.Text

variable (φ : Nat → Nat)

def Span.move (s : Span) : Span := ⟨φ s.start, φ s.stop⟩

def Place.move (p : Place) : Place := ⟨p.first.move φ, p.second.map (Span.move φ)⟩

end SolMachine.Text

namespace SolMachine.Assembly
open SolMachine.Text

/-! ## Things elsewhere -/

section Things
variable (φ : Nat → Nat)

def Diagnostic.move (d : Diagnostic) : Diagnostic := ⟨d.problem, d.place.move φ⟩

def Label.move (l : Label) : Label := ⟨l.name, l.span.move φ⟩

def AddressOperand.move : AddressOperand → AddressOperand
  | .int w => .int w
  | .label l => .label (l.move φ)

def Body.move : Body → Body
  | .instruction i => .instruction (i.map (AddressOperand.move φ))
  | .fill v => .fill (v.move φ)

def Statement.move (s : Statement) : Statement :=
  ⟨s.label.map (Label.move φ), s.body.move φ, s.span.move φ⟩

def Field.move (f : Field) : Field := ⟨φ f.start, f.chars⟩

def Operands.move (o : Operands) : Operands :=
  { o with address := o.address.move φ, stop := φ o.stop, faults := o.faults.map (Diagnostic.move φ) }

def LineResult.move (r : LineResult) : LineResult :=
  ⟨r.statement.map (Statement.move φ), r.faults.map (Diagnostic.move φ)⟩

/-- The bytes of the field move together. -/
def Steady (f : Field) : Prop := ∀ i ≤ byteLength f.chars, φ (f.start + i) = φ f.start + i

end Things

/-! ## Places that do not count -/

section Unplaced
variable {φ : Nat → Nat}

theorem Body.unplaced_move (b : Body) : (b.move φ).unplaced = b.unplaced := by
  have hoperand : AddressOperand.unplaced ∘ AddressOperand.move φ = AddressOperand.unplaced := by
    funext v
    cases v <;> rfl
  cases b with
  | fill v => exact congrArg Body.fill (congrFun hoperand v)
  | instruction i =>
    show Body.instruction ((i.map (AddressOperand.move φ)).map AddressOperand.unplaced) = _
    rw [Instruction.map_map, hoperand]
    rfl

theorem Statement.unplaced_move (s : Statement) : (s.move φ).unplaced = s.unplaced := by
  unfold Statement.unplaced
  rw [← s.body.unplaced_move]
  show Statement.mk ((s.label.map (Label.move φ)).map Label.unplaced) _ _ = _
  rw [Option.map_map]
  rfl

/-- But for places, statements that stand elsewhere are the same. -/
theorem map_unplaced_move (ss : List Statement) :
    (ss.map (Statement.move φ)).map Statement.unplaced = ss.map Statement.unplaced := by
  rw [List.map_map]
  exact List.map_congr_left fun s _ => s.unplaced_move

end Unplaced

/-! ## Reading a line -/

/-- The result of a reader, elsewhere. -/
def moved {α : Type} (φ : Nat → Nat) (g : α → α) : Except Diagnostic α → Except Diagnostic α
  | .ok x => .ok (g x)
  | .error d => .error (d.move φ)

/-- Reads the fields of a line, of which the first is a label if the line begins with it. -/
def readFields (labelled : Bool) : List Field → LineResult
  | [] => ⟨none, []⟩
  | first :: rest =>
    if labelled then
      match readLabel first with
      | .ok label => readRest first (some label) [] rest
      | .error d => readRest first none [d] rest
    else readRest first none [] (first :: rest)

theorem readLine_eq (l : Line) : readLine l = readFields (hasLabel l) (fields l) := by
  unfold readLine readFields
  cases fields l <;> rfl

section Reading
variable {φ : Nat → Nat} {f : Field} {fs : List Field}

theorem Steady.span (hf : Steady φ f) : (f.move φ).span = f.span.move φ := by
  have hstop := hf (byteLength f.chars) (Nat.le_refl _)
  unfold Field.span Span.ofChars Span.move
  rw [hstop]
  rfl

theorem readLabel_move (hf : Steady φ f) :
    readLabel (f.move φ) = moved φ (Label.move φ) (readLabel f) := by
  unfold readLabel
  rw [hf.span]
  show (if isLabel f.chars then _ else _) = _
  cases isLabel f.chars <;> rfl

theorem readToken_move (hf : Steady φ f) : readToken (f.move φ) = moved φ id (readToken f) := by
  unfold readToken
  show (readField f.chars).mapError _ = _
  cases hread : readField f.chars with
  | ok t => rfl
  | error e =>
    obtain ⟨-, part, hmarks, -⟩ := readField_eq_error hread
    obtain ⟨-, hle, hstop⟩ := hmarks.bounds
    rw [Nat.zero_add] at hstop
    have hspan : e.2.shift (φ f.start) = (e.2.shift f.start).move φ := by
      unfold Span.shift Span.move
      rw [hf _ (Nat.le_trans hle hstop), hf _ hstop]
    show Except.error (Diagnostic.of _ (e.2.shift (φ f.start))) = _
    rw [hspan]
    rfl

theorem readRegister_move (hf : Steady φ f) (t : Token) :
    readRegister (f.move φ) t = moved φ id (readRegister f t) := by
  unfold readRegister
  rw [hf.span]
  cases t with
  | int w => dsimp only; split <;> rfl
  | ident | directive => rfl

theorem readAddress_move (hf : Steady φ f) (t : Token) :
    readAddress (f.move φ) t = moved φ (AddressOperand.move φ) (readAddress f t) := by
  unfold readAddress
  rw [hf.span]
  cases t with
  | int | directive => rfl
  | ident s => dsimp only; split <;> rfl

section Operands
variable (o : Operands)

theorem Operands.setRegister_move (i : Nat) (r : Register) :
    (o.move φ).setRegister i r = (o.setRegister i r).move φ := by
  unfold setRegister
  split <;> rfl

theorem Operands.fault_move (d : Diagnostic) :
    (o.move φ).fault (d.move φ) = (o.fault d).move φ := by
  unfold fault Operands.move
  rw [List.map_append]
  rfl

theorem Operands.through_move (hf : Steady φ f) :
    (o.move φ).through (f.move φ) = (o.through f).move φ := by
  unfold through
  rw [hf.span]
  rfl

theorem Operands.take_move (hf : Steady φ f) (i : Nat) (kind : OperandKind) (t : Token) :
    (o.move φ).take i kind (f.move φ) t = (o.take i kind f t).move φ := by
  unfold take
  dsimp only
  rw [← through_move _ hf]
  congr 1
  cases kind with
  | register =>
    dsimp only
    rw [readRegister_move hf]
    cases readRegister f t with
    | ok r => exact setRegister_move o i r
    | error d => exact fault_move o d
  | address =>
    dsimp only
    rw [readAddress_move hf]
    cases readAddress f t with
    | ok v => rfl
    | error d => exact fault_move o d

theorem readOperands_move (hfs : ∀ f ∈ fs, Steady φ f) (required i : Nat)
    (kinds : List OperandKind) :
    readOperands required i (fs.map (Field.move φ)) kinds (o.move φ) =
      (readOperands required i fs kinds o).move φ := by
  induction fs generalizing i kinds o with
  | nil => rfl
  | cons f fs ih =>
    obtain ⟨hf, hrest⟩ := List.forall_mem_cons.1 hfs
    cases kinds with
    | nil => rfl
    | cons kind kinds =>
      rw [List.map_cons, readOperands, readOperands, readToken_move hf]
      cases readToken f with
      | error d =>
        show (if required ≤ i then _ else _) = _
        dsimp only
        rw [Operands.fault_move, ih _ hrest]
        split <;> rfl
      | ok t =>
        show (if _ then _ else _) = _
        dsimp only [id]
        rw [Operands.take_move _ hf, ih _ hrest]
        split <;> rfl

end Operands

theorem Mnemonic.body_move (m : Mnemonic) (a b c : Register) (v : AddressOperand) :
    (m.body a b c v).move φ = m.body a b c (v.move φ) := by
  cases m with
  | operation op => cases op <;> rfl
  | fill => rfl

/-- The span of the last operand, or of the mnemonic if there is none. -/
theorem lastSpan_move (hf : Steady φ f) (hfs : ∀ f ∈ fs, Steady φ f) :
    ((fs.map (Field.move φ)).getLast?.map Field.span).getD (f.move φ).span =
      ((fs.getLast?.map Field.span).getD f.span).move φ := by
  rw [List.getLast?_map, hf.span]
  cases hlast : fs.getLast? with
  | none => rfl
  | some g => exact (hfs g (List.mem_of_getLast? hlast)).span

theorem readBody_move (hf : Steady φ f) (hfs : ∀ f ∈ fs, Steady φ f) (label : Option Label) :
    readBody (label.map (Label.move φ)) (f.move φ) (fs.map (Field.move φ)) =
      ((readBody label f fs).1.move φ, (readBody label f fs).2.map (Diagnostic.move φ)) := by
  have hinitial : ∀ m : Mnemonic, Operands.initial m (f.move φ).span.stop =
      (Operands.initial m f.span.stop).move φ := fun m => by
    rw [hf.span]
    rfl
  have hstatement : ∀ (m : Mnemonic) (o : Operands),
      (⟨label.map (Label.move φ), m.body o.a o.b o.c (o.address.move φ),
        ⟨(f.move φ).span.start, φ o.stop⟩⟩ : Statement) =
        (⟨label, m.body o.a o.b o.c o.address, ⟨f.span.start, o.stop⟩⟩ : Statement).move φ :=
    fun m o => by
      rw [hf.span, ← Mnemonic.body_move]
      rfl
  unfold readBody
  rw [show (f.move φ).text = f.text from rfl]
  cases Mnemonic.ofName? f.text with
  | none =>
    dsimp only
    rw [hf.span]
    rfl
  | some m =>
    have hoperands : ∀ g ∈ fs.take m.operands.length, Steady φ g :=
      fun g hg => hfs g (List.mem_of_mem_take hg)
    dsimp only
    rw [← List.map_take, List.length_map, lastSpan_move hf hoperands, hinitial,
      readOperands_move _ hoperands]
    generalize fs.take m.operands.length = operands
    by_cases hmissing : operands.length < m.required
    · have hfault (o : Operands) (p : Problem) (s : Span) : (o.move φ).fault (.of p (s.move φ)) =
        (o.fault (.of p s)).move φ := Operands.fault_move o (.of p s)
      rw [if_pos hmissing, if_pos hmissing, hfault, ← hstatement]
      rfl
    · rw [if_neg hmissing, if_neg hmissing, ← hstatement]
      rfl

theorem readRest_move (hf : Steady φ f) (hfs : ∀ f ∈ fs, Steady φ f) (label : Option Label)
    (faults : List Diagnostic) :
    readRest (f.move φ) (label.map (Label.move φ)) (faults.map (Diagnostic.move φ))
        (fs.map (Field.move φ)) =
      (readRest f label faults fs).move φ := by
  cases fs with
  | nil =>
    unfold readRest LineResult.move
    rw [List.map_append, hf.span]
    rfl
  | cons g rest =>
    obtain ⟨hg, hrest⟩ := List.forall_mem_cons.1 hfs
    rw [List.map_cons, readRest, readBody_move hg hrest]
    show LineResult.mk _ _ = LineResult.mk _ (List.map _ (_ ++ _))
    rw [List.map_append]
    rfl

/-- Fields that stand elsewhere are read as the same, elsewhere. -/
theorem readFields_move (hfs : ∀ f ∈ fs, Steady φ f) (labelled : Bool) :
    readFields labelled (fs.map (Field.move φ)) = (readFields labelled fs).move φ := by
  cases fs with
  | nil => rfl
  | cons first rest =>
    obtain ⟨hfirst, hrest⟩ := List.forall_mem_cons.1 hfs
    rw [List.map_cons, readFields, readFields, readLabel_move hfirst]
    cases labelled with
    | false => exact readRest_move hfirst hfs none []
    | true =>
      cases readLabel first with
      | ok label => exact readRest_move hfirst hrest (some label) []
      | error d => exact readRest_move hfirst hrest none [d]

end Reading

end SolMachine.Assembly
