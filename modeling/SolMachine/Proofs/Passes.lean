import SolMachine.Proofs.Lines
import SolMachine.Proofs.Validity

/-!
# The passes of the assembler

* `earlyFaults` : the faults that are found before operands get their values;
* `assemble_of_earlyFaults`, `assemble_of_operandFaults` : the two ways to fail;
* `assemble_of_no_faults` : the program of a text without faults.
-/

namespace SolMachine.Assembly
open SolMachine.Text

/-- The faults of lines in the order of the text, and after them those of the survey in the order of
their places. -/
def earlyFaults (cs : List Char) : List Diagnostic :=
  (readSource cs).faults ++ Diagnostics.sort (programFaults (readSource cs).statements)

theorem Diagnostics.sort_eq_nil_iff (ds : List Diagnostic) : sort ds = [] ↔ ds = [] := by
  unfold sort
  rw [← List.length_eq_zero_iff, List.length_mergeSort, List.length_eq_zero_iff]

theorem earlyFaults_eq_nil_iff (cs : List Char) :
    earlyFaults cs = [] ↔
      (readSource cs).faults = [] ∧ programFaults (readSource cs).statements = [] := by
  unfold earlyFaults
  rw [List.append_eq_nil_iff, Diagnostics.sort_eq_nil_iff]

/-! ## The table -/

section Build
variable {ss : List Statement}

theorem build_of_programFaults (hs : ∀ s ∈ ss, ∀ l, s.label = some l → l.Spanned)
    (h : programFaults ss ≠ []) (source : Option SourceMap) :
    SymbolTable.build ss source = .error (.ofList (programFaults ss)) := by
  unfold SymbolTable.build
  simp only [surveyFaults_eq hs]

theorem exists_build (hs : ∀ s ∈ ss, ∀ l, s.label = some l → l.Spanned) (h : programFaults ss = [])
    (source : Option SourceMap) :
    ∃ t, SymbolTable.build ss source = .ok t ∧ t.Knows ss := by
  have hbuild : SymbolTable.build ss source = .ok (.ofProgram ss source) :=
    SymbolTable.build_eq_ok_iff.2 ⟨(surveyFaults_eq hs).trans h, rfl⟩
  exact ⟨_, hbuild, SymbolTable.knows_of_build hs hbuild⟩

end Build

/-! ## The outcome -/

section Outcome
variable {source : String}

theorem assemble_of_earlyFaults (h : earlyFaults source.toList ≠ []) (debug : Bool) :
    assemble source debug = .error (.ofList (earlyFaults source.toList)) := by
  unfold assemble
  by_cases hp : programFaults (readSource source.toList).statements = []
  · obtain ⟨t, ht, -⟩ := exists_build spanned_of_mem_statements hp
      (if debug then some (.ofText source.toList) else none)
    have hearly : earlyFaults source.toList = (readSource source.toList).faults := by
      rw [earlyFaults, (Diagnostics.sort_eq_nil_iff _).2 hp, List.append_nil]
    rw [hearly] at h
    simp only [ht, hearly, List.isEmpty_iff, if_neg h]
  · simp only [build_of_programFaults spanned_of_mem_statements hp]
    rfl

theorem length_le_of_programFaults {ss : List Statement} (h : programFaults ss = []) :
    ss.length ≤ maxWords := ((programFaults_eq_nil_iff ss).1 h).size

theorem assemble_of_operandFaults (h : earlyFaults source.toList = [])
    (ho : operandFaults (readSource source.toList).statements ≠ []) (debug : Bool) :
    assemble source debug = .error (.ofList (operandFaults (readSource source.toList).statements)) := by
  obtain ⟨hf, hp⟩ := (earlyFaults_eq_nil_iff _).1 h
  obtain ⟨t, ht, hk⟩ := exists_build spanned_of_mem_statements hp
    (if debug then some (.ofText source.toList) else none)
  unfold assemble
  simp only [ht, hf, List.isEmpty_nil, if_true, encodeStatements_eq hk (length_le_of_programFaults hp),
    if_neg ho]

theorem assemble_of_no_faults (h : earlyFaults source.toList = [])
    (ho : operandFaults (readSource source.toList).statements = []) (debug : Bool) :
    ∃ p, assemble source debug = .ok p ∧ p.words = (readSource source.toList).statements.mapIdx
      (wordOf (readSource source.toList).statements) := by
  obtain ⟨hf, hp⟩ := (earlyFaults_eq_nil_iff _).1 h
  obtain ⟨t, ht, hk⟩ := exists_build spanned_of_mem_statements hp
    (if debug then some (.ofText source.toList) else none)
  unfold assemble
  simp only [ht, hf, List.isEmpty_nil, if_true, encodeStatements_eq hk (length_le_of_programFaults hp),
    if_pos ho]
  exact ⟨_, rfl, rfl⟩

end Outcome

end SolMachine.Assembly
