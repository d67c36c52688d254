import SolMachine.Proofs.Passes

/-!
# What operands become

* `Instruction.registers`, `Instruction.Keeps` : the registers of an instruction, and another one that
  has the same operation and registers; `Instruction.Keeps.unique` : with the address operand they are
  all of it;
* `SymbolTable.InMemory` : the labels of a table are at addresses of memory; those of every table of a
  program are (`inMemory_of_build`);
* `Resolves` : what becomes of an operand at an address; `Resolves.eq` : it becomes that, and
  `exists_resolves` : no operand is left out;
* `Resolved` : what becomes of an instruction; `machineInstruction_exact` : it becomes that, and nothing
  else.

The rules are stated over integers. An address may lie outside memory.
-/

namespace SolMachine.Instruction

variable {α β : Type}

/-- The registers, in the order in which they are written. -/
def registers (i : Instruction α) : List Register := i.fields.filterMap Sum.getLeft?

/-- The instruction `j` has the operation and the registers of `i`. -/
structure Keeps (i : Instruction α) (j : Instruction β) : Prop where
  opcode : j.opcode = i.opcode
  registers : j.registers = i.registers

theorem keeps_map (f : α → β) (i : Instruction α) : i.Keeps (i.map f) := by
  cases i <;> exact ⟨rfl, rfl⟩

/-- The operation, the registers and the address operand are all of an instruction. -/
theorem Keeps.unique {i : Instruction α} {j k : Instruction β} (hj : i.Keeps j) (hk : i.Keeps k)
    (haddress : j.address? = k.address?) : j = k := by
  have hopcode := hj.opcode.trans hk.opcode.symm
  have hregisters := hj.registers.trans hk.registers.symm
  cases j <;> cases k <;>
    simp_all [Instruction.opcode, Instruction.registers, fields, address?, Sum.getLeft?]

end SolMachine.Instruction

namespace SolMachine.Assembly
open SolMachine.Text

/-! ## Addresses of labels -/

/-- The labels of the table are at addresses of memory. -/
def SymbolTable.InMemory (t : SymbolTable) : Prop :=
  ∀ name b, t.addressOf? name = some b → b ≤ 16383

theorem address_of_define {s : Survey} {a : Nat} {l : Label} {name : String} {d : Definition}
    (h : (s.define a l).labels[name]? = some d) : s.labels[name]? = some d ∨ d.address = a := by
  unfold Survey.define at h
  split at h
  · exact .inl h
  · rw [Std.HashMap.getElem?_insert] at h
    split at h
    · exact .inr (Option.some.inj h ▸ rfl)
    · exact .inl h

/-- A visit defines labels at the address of its statement only. -/
theorem address_of_visit {s : Survey} {a : Nat} {st : Statement} {name : String} {d : Definition}
    (h : (s.visit a st).labels[name]? = some d) : s.labels[name]? = some d ∨ d.address = a := by
  unfold Survey.visit at h
  rw [(Survey.follow_labels _ _ _).1] at h
  cases hl : st.label with
  | none =>
    rw [hl] at h
    exact .inl h
  | some l =>
    rw [hl] at h
    exact address_of_define h

theorem address_lt_of_survey {ss : List Statement} {name : String} {d : Definition}
    (h : (survey ss).labels[name]? = some d) : d.address < ss.length := by
  induction ss using List.reverseRecOn with
  | nil =>
    have hnone : (survey []).labels[name]? = none := Survey.Of.initial.labels name
    rw [hnone] at h
    cases h
  | append_singleton before st ih =>
    rw [survey_append_singleton] at h
    rw [List.length_append, List.length_singleton]
    rcases address_of_visit h with hbefore | haddress
    · exact Nat.lt_succ_of_lt (ih hbefore)
    · omega

/-- The labels of a program that gets a table are at addresses of memory. -/
theorem inMemory_of_build {ss : List Statement} {source : Option SourceMap} {t : SymbolTable}
    (h : SymbolTable.build ss source = .ok t) : t.InMemory := by
  have hmax : maxWords = 16384 := rfl
  obtain ⟨hfaults, rfl⟩ := SymbolTable.build_eq_ok_iff.1 h
  have hsize : ss[maxWords]? = none := by
    unfold surveyFaults at hfaults
    simpa using (List.append_eq_nil_iff.1 (List.append_eq_nil_iff.1 hfaults).1).1
  have hle := List.getElem?_eq_none_iff.1 hsize
  intro name b hb
  obtain ⟨d, hd, rfl⟩ := Option.map_eq_some_iff.1 hb
  have hlt := address_lt_of_survey hd
  omega

/-! ## Operands -/

section Operand
variable (t : SymbolTable) (a : Nat) (r : Bool) (span : Span)

/-- What becomes of an operand at address `a`, of a branch if `r` holds, in a statement at `span`.
The only label that can be too far is the target of a branch, and only an integer leads outside. -/
inductive Resolves : AddressOperand → Except Diagnostic Displacement → Prop where
  | value {x : AddressOperand} {o : Displacement} (hx : StandsFor t a r x o.value.toInt)
    (hshort : IsShort o.value.toInt) (hlands : r = true → Lands a o.value.toInt) : Resolves x (.ok o)
  | undefined {l : Label} (hl : t.addressOf? l.name = none) :
    Resolves (.label l) (.error (.of .undefinedLabel l.span))
  | tooFar {l : Label} {b : Nat} (hr : r = true) (hl : t.addressOf? l.name = some b)
    (hlong : ¬ IsShort (b - a - 1)) : Resolves (.label l) (.error (.of (.offsetTooWide 15) l.span))
  | tooWide {w : Word} (hlong : ¬ IsShort w.toInt) :
    Resolves (.int w) (.error (.of (.offsetTooWide 15) span))
  | outside {w : Word} (hr : r = true) (hshort : IsShort w.toInt) (hout : ¬ Lands a w.toInt) :
    Resolves (.int w) (.error (.of .branchOutOfRange span))

variable {t a r span} {x : AddressOperand} {d : Int}

/-- The operand becomes what the rules say. -/
theorem Resolves.eq {result : Except Diagnostic Displacement} (h : Resolves t a r span x result) :
    (if r then relative t a span x else absolute t span x) = result := by
  cases h with
  | @value _ o hx hshort hlands =>
    have hnot : ¬ (r = true ∧ ¬ Lands a o.value.toInt) := fun h => h.2 (hlands h.1)
    rw [displacement_of_standsFor hx, if_neg (not_not_intro hshort), if_neg hnot,
      Offset.ofInt_toInt_value (by decide)]
  | undefined hl => exact displacement_of_undefined hl r span
  | tooFar hr hl hlong =>
    subst hr
    rw [displacement_of_standsFor (.distance hl), if_pos hlong, spot]
  | tooWide hlong => rw [displacement_of_standsFor (.int r _), if_pos hlong, spot]
  | outside hr hshort hout =>
    rw [displacement_of_standsFor (.int r _), if_neg (not_not_intro hshort), if_pos ⟨hr, hout⟩, spot]

/-- A number that fits and lands is what the operand becomes. -/
theorem Resolves.of_standsFor (hx : StandsFor t a r x d) (hshort : IsShort d)
    (hlands : r = true → Lands a d) : Resolves t a r span x (.ok (.ofInt 15 d)) := by
  have hvalue : (Offset.ofInt 15 d).value.toInt = d :=
    Offset.toInt_value_ofInt (by decide) (by decide) hshort.1 (Int.lt_add_one_of_le hshort.2)
  apply Resolves.value <;> rw [hvalue]
  · exact hx
  · exact hshort
  · exact hlands

/-- The rules leave out no operand. A label in memory is short as an address, and a distance to it
leads back to it. -/
theorem exists_resolves (ht : t.InMemory) (a : Nat) (r : Bool) (span : Span) (x : AddressOperand) :
    ∃ result, Resolves t a r span x result := by
  cases x with
  | int w =>
    by_cases hshort : IsShort w.toInt
    · by_cases hout : r = true ∧ ¬ Lands a w.toInt
      · exact ⟨_, .outside hout.1 hshort hout.2⟩
      · have hlands : r = true → Lands a w.toInt := fun hr => by_contra fun h => hout ⟨hr, h⟩
        exact ⟨_, .of_standsFor (.int r w) hshort hlands⟩
    · exact ⟨_, .tooWide hshort⟩
  | label l =>
    cases hl : t.addressOf? l.name with
    | none => exact ⟨_, .undefined hl⟩
    | some b =>
      have hb := ht l.name b hl
      cases r with
      | false =>
        have hshort : IsShort b := ⟨by omega, by omega⟩
        exact ⟨_, .of_standsFor (.address hl) hshort nofun⟩
      | true =>
        by_cases hshort : IsShort (b - a - 1)
        · have hlands : Lands a (b - a - 1) := ⟨by omega, by omega⟩
          exact ⟨_, .of_standsFor (.distance hl) hshort fun _ => hlands⟩
        · exact ⟨_, .tooFar rfl hl hshort⟩

end Operand

/-! ## Instructions -/

/-- What becomes of an instruction at address `a`, in a statement at `span`. -/
inductive Resolved (t : SymbolTable) (a : Nat) (span : Span) (i : Instruction AddressOperand) :
    Except Diagnostic (Instruction Displacement) → Prop where
  | plain {j : Instruction Displacement} (hi : i.address? = none) (hj : j.address? = none)
    (h : i.Keeps j) : Resolved t a span i (.ok j)
  | operand {j : Instruction Displacement} {x : AddressOperand} {o : Displacement}
    (hi : i.address? = some x) (hj : j.address? = some o) (h : i.Keeps j)
    (hx : Resolves t a i.opcode.isRelative span x (.ok o)) : Resolved t a span i (.ok j)
  | fault {x : AddressOperand} {d : Diagnostic} (hi : i.address? = some x)
    (hx : Resolves t a i.opcode.isRelative span x (.error d)) : Resolved t a span i (.error d)

variable {ss : List Statement} {source : Option SourceMap} {t : SymbolTable} {a : Nat} {span : Span}
  {i : Instruction AddressOperand}

/-- The instruction becomes what the rules say. -/
theorem Resolved.eq {result : Except Diagnostic (Instruction Displacement)}
    (h : Resolved t a span i result) : machineInstruction t a span i = result := by
  unfold machineInstruction
  cases h with
  | plain hi hj h =>
    rw [Instruction.resolve_of_none hi _ fun _ => (default : Displacement)]
    refine congrArg Except.ok ((Instruction.keeps_map _ i).unique h ?_)
    rw [Instruction.address?_map, hi, hj, Option.map_none]
  | @operand _ x o hi hj h hx =>
    rw [Instruction.resolve_of_ok hi (g := fun _ => o) hx.eq]
    refine congrArg Except.ok ((Instruction.keeps_map _ i).unique h ?_)
    rw [Instruction.address?_map, hi, hj, Option.map_some]
  | fault hi hx => exact Instruction.resolve_of_error hi hx.eq

theorem exists_resolved (ht : t.InMemory) (a : Nat) (span : Span) (i : Instruction AddressOperand) :
    ∃ result, Resolved t a span i result := by
  cases hi : i.address? with
  | none =>
    refine ⟨_, .plain hi ?_ (Instruction.keeps_map (fun _ => (default : Displacement)) i)⟩
    rw [Instruction.address?_map, hi, Option.map_none]
  | some x =>
    obtain ⟨result, hx⟩ := exists_resolves ht a i.opcode.isRelative span x
    cases result with
    | error d => exact ⟨_, .fault hi hx⟩
    | ok o =>
      refine ⟨_, .operand hi ?_ (Instruction.keeps_map (fun _ => o) i) hx⟩
      rw [Instruction.address?_map, hi, Option.map_some]

/-- The instructions of a program become what the rules say, and nothing else, wherever they stand.
The address counts for branches only. -/
theorem machineInstruction_exact (h : SymbolTable.build ss source = .ok t) (a : Nat) (span : Span)
    (i : Instruction AddressOperand) :
    (∀ result, machineInstruction t a span i = result ↔ Resolved t a span i result) ∧
      (i.opcode.isRelative = false →
        ∀ b, machineInstruction t b span i = machineInstruction t a span i) := by
  refine ⟨fun result => ⟨?_, Resolved.eq⟩, fun hi b => ?_⟩
  · rintro rfl
    obtain ⟨result, hresolved⟩ := exists_resolved (inMemory_of_build h) a span i
    rwa [hresolved.eq]
  · unfold machineInstruction
    simp only [hi, Bool.false_eq_true, if_false]

/-- Branches to a label at address 0, from the last address in reach of it and from the next one, and
a branch by an integer from the last address of all. -/
theorem machineInstruction_exact_reach :
    let ss : List Statement := [⟨some ⟨"L", 0, 1⟩, .instruction .halt, 2, 6⟩]
    let jne : Instruction AddressOperand := .jne (.label ⟨"L", 9, 10⟩)
    ∃ t, SymbolTable.build ss none = .ok t ∧
      machineInstruction t 16383 ⟨5, 10⟩ jne = .ok (.jne (.ofInt 15 (-16384))) ∧
      machineInstruction t 16384 ⟨5, 10⟩ jne = .error (.of (.offsetTooWide 15) ⟨9, 10⟩) ∧
      machineInstruction t 4294967295 ⟨5, 10⟩ (.jne (.int 3)) =
        .error (.of .branchOutOfRange ⟨5, 10⟩) := by
  intro ss jne
  have hs : ∀ s ∈ ss, ∀ l, s.label = some l → l.Spanned := by
    rintro s hs l hl
    obtain rfl := List.mem_singleton.1 hs
    obtain rfl := Option.some.inj hl
    rfl
  obtain ⟨t, ht, hk⟩ := exists_build hs (by decide) none
  have hl : t.addressOf? "L" = some 0 := (hk "L").trans (by decide)
  have hleast : (Offset.ofInt 15 (-16384)).value.toInt = (0 : Nat) - (16383 : Nat) - 1 := by decide
  refine ⟨t, ht, ?_, ?_, ?_⟩ <;> refine ((machineInstruction_exact ht _ _ _).1 _).2 ?_
  · exact .operand rfl rfl ⟨rfl, rfl⟩
      (.value (hleast ▸ .distance hl) (by decide) fun _ => by decide)
  · exact .fault rfl (.tooFar rfl hl (by decide))
  · exact .fault rfl (.outside rfl (by decide) (by decide))

end SolMachine.Assembly
