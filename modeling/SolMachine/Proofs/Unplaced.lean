import SolMachine.Proofs.Acceptance

/-!
# Statements without their places

* `Statement.unplaced` : a statement without the places of its parts in the text;
* `render_unplaced` : it is written in the same way;
* `labelNames_unplaced`, `labelAddress?_unplaced`, `balance_unplaced` : labels and stack do not depend
  on places;
* `wellFormed_unplaced`, `resolvable_unplaced`, `words_unplaced` : so it does not depend on them
  whether a program can be assembled, nor to which words.
-/

namespace SolMachine.Assembly
open SolMachine.Text

def Label.unplaced (l : Label) : Label := ⟨l.name, ⟨0, 0⟩⟩

def AddressOperand.unplaced : AddressOperand → AddressOperand
  | .int w => .int w
  | .label l => .label l.unplaced

def Body.unplaced : Body → Body
  | .instruction i => .instruction (i.map AddressOperand.unplaced)
  | .fill v => .fill v.unplaced

/-- The statement without the places of its parts. -/
def Statement.unplaced (s : Statement) : Statement :=
  ⟨s.label.map Label.unplaced, s.body.unplaced, ⟨0, 0⟩⟩

/-! ## One statement -/

section Statement
variable (s : Statement)

theorem AddressOperand.render_unplaced (v : AddressOperand) : v.unplaced.render = v.render := by
  cases v <;> rfl

theorem Body.render_unplaced (b : Body) : b.unplaced.render = b.render := by
  cases b with
  | fill v => exact congrArg (fun text => fillName ++ " " ++ text) v.render_unplaced
  | instruction i =>
    show (i.map AddressOperand.unplaced).render AddressOperand.render = i.render AddressOperand.render
    unfold Instruction.render
    rw [Instruction.opcode_map, Instruction.fields_map, List.map_map]
    congr 2
    apply List.map_congr_left
    rintro (r | v) -
    · rfl
    · exact v.render_unplaced

theorem Statement.name?_unplaced : s.unplaced.name? = s.name? := by
  unfold Statement.name? Statement.unplaced
  rw [Option.map_map]
  rfl

/-- A statement is written in the same way without its places. -/
theorem Statement.render_unplaced : s.unplaced.render = s.render := by
  unfold Statement.render
  rw [show s.unplaced.label.map Label.name = s.label.map Label.name from s.name?_unplaced,
    show s.unplaced.body.render = s.body.render from s.body.render_unplaced]

theorem Statement.isPush_unplaced : s.unplaced.isPush = s.isPush := by
  unfold Statement.isPush Statement.unplaced Body.unplaced
  rcases s.body with i | v
  · cases i <;> rfl
  · rfl

theorem Statement.isPop_unplaced : s.unplaced.isPop = s.isPop := by
  unfold Statement.isPop Statement.unplaced Body.unplaced
  rcases s.body with i | v
  · cases i <;> rfl
  · rfl

end Statement

/-! ## Programs -/

section Program
variable (ss : List Statement)

theorem labelNames_unplaced : labelNames (ss.map Statement.unplaced) = labelNames ss := by
  unfold labelNames
  rw [List.filterMap_map]
  exact congrArg (fun f => ss.filterMap f) (funext Statement.name?_unplaced)

theorem labelAddress?_append_singleton (s : Statement) (name : String) :
    labelAddress? (ss ++ [s]) name =
      (labelAddress? ss name).or (if s.name? = some name then some ss.length else none) := by
  unfold labelAddress? Statement.name?
  rw [firstDefinition?_append_singleton, Option.map_or]
  congr 1
  cases s.label with
  | none => rfl
  | some l =>
    by_cases hl : l.name = name
    · simp [hl]
    · simp [hl]

theorem labelAddress?_unplaced (name : String) :
    labelAddress? (ss.map Statement.unplaced) name = labelAddress? ss name := by
  induction ss using List.reverseRecOn with
  | nil => rfl
  | append_singleton ss s ih =>
    rw [List.map_append, List.map_singleton, labelAddress?_append_singleton,
      labelAddress?_append_singleton, ih, s.name?_unplaced, List.length_map]

theorem balance_unplaced : balance (ss.map Statement.unplaced) = balance ss := by
  unfold balance
  rw [List.countP_map, List.countP_map]
  rw [show Statement.isPush ∘ Statement.unplaced = Statement.isPush from
      funext Statement.isPush_unplaced,
    show Statement.isPop ∘ Statement.unplaced = Statement.isPop from funext Statement.isPop_unplaced]

theorem balanced_unplaced : Balanced (ss.map Statement.unplaced) ↔ Balanced ss := by
  constructor
  · intro h before hbefore
    rw [← balance_unplaced]
    exact h _ (hbefore.map _)
  · intro h before hbefore
    obtain ⟨start, hstart, rfl⟩ := List.prefix_map_iff.1 hbefore
    rw [balance_unplaced]
    exact h start hstart

theorem wellFormed_unplaced : WellFormed (ss.map Statement.unplaced) ↔ WellFormed ss := by
  constructor
  · rintro ⟨hsize, hlabels, hstack⟩
    rw [List.length_map] at hsize
    rw [labelNames_unplaced] at hlabels
    exact ⟨hsize, hlabels, (balanced_unplaced ss).1 hstack⟩
  · rintro ⟨hsize, hlabels, hstack⟩
    rw [← labelNames_unplaced] at hlabels
    exact ⟨by rwa [List.length_map], hlabels, (balanced_unplaced ss).2 hstack⟩

end Program

/-! ## Words -/

section Words
variable (ss : List Statement) (a : Nat)

theorem operandNumber_unplaced (relative : Bool) (v : AddressOperand) :
    operandNumber (ss.map Statement.unplaced) a relative v.unplaced =
      operandNumber ss a relative v := by
  cases v with
  | int w => rfl
  | label l =>
    unfold AddressOperand.unplaced operandNumber Label.unplaced
    simp only [labelAddress?_unplaced]

theorem wordOf_unplaced (s : Statement) :
    wordOf (ss.map Statement.unplaced) a s.unplaced = wordOf ss a s := by
  obtain ⟨label, i | v, span⟩ := s
  · show ((i.map AddressOperand.unplaced).map _).encode = (i.map _).encode
    rw [Instruction.map_map, Instruction.opcode_map]
    congr 2
    exact funext fun v => congrArg _ (operandNumber_unplaced ss a _ v)
  · show BitVec.ofInt 32 (operandNumber _ a false v.unplaced) = BitVec.ofInt 32 _
    rw [operandNumber_unplaced]

/-- The words of a program do not depend on places. -/
theorem words_unplaced :
    (ss.map Statement.unplaced).mapIdx (wordOf (ss.map Statement.unplaced)) =
      ss.mapIdx (wordOf ss) := by
  apply List.ext_getElem?
  intro a
  rw [List.getElem?_mapIdx, List.getElem?_mapIdx, List.getElem?_map, Option.map_map]
  exact congrArg (fun f => ss[a]?.map f) (funext fun s => wordOf_unplaced ss a s)

theorem addressFault?_unplaced (relative : Bool) (span span' : Span) (v : AddressOperand) :
    addressFault? (ss.map Statement.unplaced) a relative span' v.unplaced = none ↔
      addressFault? ss a relative span v = none := by
  cases v with
  | int w =>
    show integerFault? a relative span' w.toInt = none ↔ integerFault? a relative span w.toInt = none
    rw [integerFault?_eq_none_iff, integerFault?_eq_none_iff]
  | label l =>
    show labelUseFault? (ss.map Statement.unplaced) l.unplaced = none ↔ labelUseFault? ss l = none
    rw [labelUseFault?_eq_none_iff, labelUseFault?_eq_none_iff, labelNames_unplaced]
    rfl

theorem operandFault?_unplaced (s : Statement) :
    operandFault? (ss.map Statement.unplaced) a s.unplaced = none ↔ operandFault? ss a s = none := by
  obtain ⟨label, i | v, span⟩ := s
  · show ((i.map AddressOperand.unplaced).address?.bind (addressFault? _ a _ ⟨0, 0⟩)) = none ↔
      i.address?.bind (addressFault? ss a i.opcode.isRelative span) = none
    rw [Instruction.address?_map, Instruction.opcode_map]
    cases i.address? with
    | none => exact Iff.rfl
    | some v => exact addressFault?_unplaced ss a _ span ⟨0, 0⟩ v
  · cases v with
    | int w => exact Iff.rfl
    | label l => exact addressFault?_unplaced ss a false span ⟨0, 0⟩ (.label l)

/-- Whether all operands have values in range does not depend on places. -/
theorem resolvable_unplaced : Resolvable (ss.map Statement.unplaced) ↔ Resolvable ss := by
  rw [← operandFaults_eq_nil_iff, ← operandFaults_eq_nil_iff, operandFaults_eq_nil_iff_forall,
    operandFaults_eq_nil_iff_forall]
  simp only [List.getElem?_map, Option.map_eq_some_iff, forall_exists_index, and_imp,
    forall_apply_eq_imp_iff₂, operandFault?_unplaced]

end Words

end SolMachine.Assembly
