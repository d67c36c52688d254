import Mathlib.Data.List.TakeWhile
import SolMachine.Assembly.LineReader
import SolMachine.Proofs.Survey

/-!
# What the lines of a text give

* `Line.isBlank`, `nonblankLines` : the lines that hold more than blanks;
* `Reading`, `reading` : the ways in which a line can be read;
* `isSome_statement_readLine` : the lines that are not blank give a statement, faulty or not;
* `map_some_statements` : the statements of a text are theirs, in order;
* `spanned_of_mem_statements` : the span of a label has the length of its name;
* `Diagnostic.Early` : a problem that is found before operands get their values.
-/

namespace SolMachine.Text

/-- Whether the line holds nothing but blanks. -/
def Line.isBlank (l : Line) : Bool := l.chars.all Text.isBlank

/-- The lines of a text that hold more than blanks. -/
def nonblankLines (cs : List Char) : List Line := (lines cs).filter fun l => !l.isBlank

theorem utf8ByteSize_ofList (cs : List Char) : (String.ofList cs).utf8ByteSize = byteLength cs := by
  induction cs with
  | nil => rfl
  | cons c cs ih =>
    rw [String.ofList_cons, String.utf8ByteSize_append, String.utf8ByteSize_singleton, ih,
      byteLength_cons]

theorem byteLength_toList (s : String) : byteLength s.toList = s.utf8ByteSize := by
  rw [← utf8ByteSize_ofList, String.ofList_toList]

end SolMachine.Text

namespace SolMachine.Assembly
open SolMachine.Text

/-! ## The ways to read a line -/

theorem splitFields_eq_nil_iff (pos : Nat) (cs : List Char) :
    splitFields pos cs = [] ↔ cs.all isBlank := by
  rw [List.all_eq_true, ← List.dropWhile_eq_nil_iff]
  unfold splitFields
  split
  · next h => simp only [h]
  · next c rest h => simp only [h, reduceCtorEq]

theorem fields_eq_nil_iff (l : Line) : fields l = [] ↔ l.isBlank := splitFields_eq_nil_iff _ _

section Reading
variable {l : Line} {first : Field} {rest : List Field}

theorem readLine_of_isBlank (h : l.isBlank) : readLine l = ⟨none, []⟩ := by
  unfold readLine
  rw [(fields_eq_nil_iff l).2 h]

theorem readLine_of_labelled (hl : hasLabel l) (hfields : fields l = first :: rest) {label : Label}
    (hlabel : readLabel first = .ok label) : readLine l = readRest first (some label) [] rest := by
  unfold readLine
  simp only [hfields, if_pos hl, hlabel]

theorem readLine_of_mislabelled (hl : hasLabel l) (hfields : fields l = first :: rest)
    {d : Diagnostic} (hlabel : readLabel first = .error d) :
    readLine l = readRest first none [d] rest := by
  unfold readLine
  simp only [hfields, if_pos hl, hlabel]

theorem readLine_of_unlabelled (hl : hasLabel l = false) (hfields : fields l = first :: rest) :
    readLine l = readRest first none [] (first :: rest) := by
  unfold readLine
  simp only [hfields, hl, Bool.false_eq_true, if_false]

/-- How a line is read. -/
inductive Reading (l : Line) : Prop
  | blank : l.isBlank → readLine l = ⟨none, []⟩ → Reading l
  | labelled {first : Field} {rest : List Field} {label : Label} : hasLabel l →
      fields l = first :: rest → readLabel first = .ok label →
      readLine l = readRest first (some label) [] rest → Reading l
  | mislabelled {first : Field} {rest : List Field} {d : Diagnostic} : fields l = first :: rest →
      readLabel first = .error d → readLine l = readRest first none [d] rest → Reading l
  | unlabelled {first : Field} {rest : List Field} : fields l = first :: rest →
      readLine l = readRest first none [] (first :: rest) → Reading l

theorem reading (l : Line) : Reading l := by
  cases hfields : fields l with
  | nil =>
    have hblank := (fields_eq_nil_iff l).1 hfields
    exact .blank hblank (readLine_of_isBlank hblank)
  | cons first rest =>
    cases hl : hasLabel l with
    | false => exact .unlabelled hfields (readLine_of_unlabelled hl hfields)
    | true =>
      cases hlabel : readLabel first with
      | ok label => exact .labelled hl hfields hlabel (readLine_of_labelled hl hfields hlabel)
      | error d => exact .mislabelled hfields hlabel (readLine_of_mislabelled hl hfields hlabel)

end Reading

/-! ## Statements -/

theorem isSome_statement_readRest (first : Field) (label : Option Label) (faults : List Diagnostic)
    (fs : List Field) : (readRest first label faults fs).statement.isSome := by
  cases fs <;> rfl

/-- Every line that holds more than blanks gives a statement. -/
theorem isSome_statement_readLine (l : Line) : (readLine l).statement.isSome = !l.isBlank := by
  have hnot : ∀ {first rest}, fields l = first :: rest → l.isBlank = false := fun hfields => by
    rw [← Bool.not_eq_true, ← fields_eq_nil_iff, hfields]
    exact List.cons_ne_nil _ _
  cases reading l with
  | blank hblank h =>
    rw [h, hblank]
    rfl
  | labelled _ hfields _ h | mislabelled hfields _ h | unlabelled hfields h =>
    rw [h, hnot hfields]
    exact isSome_statement_readRest ..

/-- The statements of a text are those of its lines that hold more than blanks. -/
theorem map_some_statements (cs : List Char) :
    (readSource cs).statements.map some = (nonblankLines cs).map fun l => (readLine l).statement := by
  have hcomp : (readSource cs).statements = (lines cs).filterMap fun l => (readLine l).statement :=
    List.filterMap_map
  rw [hcomp, nonblankLines]
  induction lines cs with
  | nil => rfl
  | cons l ls ih =>
    rw [List.filterMap_cons, List.filter_cons, ← isSome_statement_readLine]
    cases hs : (readLine l).statement with
    | none => exact ih
    | some s => simp only [Option.isSome_some, if_true, List.map_cons, hs, ih]

theorem length_statements (cs : List Char) :
    (readSource cs).statements.length = (nonblankLines cs).length := by
  have h := congrArg List.length (map_some_statements cs)
  rwa [List.length_map, List.length_map] at h

theorem exists_line_of_mem_statements {cs : List Char} {s : Statement}
    (h : s ∈ (readSource cs).statements) : ∃ l ∈ lines cs, (readLine l).statement = some s := by
  unfold readSource at h
  obtain ⟨r, hr, hs⟩ := List.mem_filterMap.1 h
  obtain ⟨l, hl, rfl⟩ := List.mem_map.1 hr
  exact ⟨l, hl, hs⟩

theorem statements?_eq_ok_iff {cs : List Char} {ss : List Statement} :
    statements? cs = .ok ss ↔ (readSource cs).faults = [] ∧ (readSource cs).statements = ss := by
  unfold statements?
  cases h : (readSource cs).faults <;> simp [h]

theorem faults_eq_nil_iff (cs : List Char) :
    (readSource cs).faults = [] ↔ ∀ l ∈ lines cs, (readLine l).faults = [] := by
  unfold readSource
  simp only [List.flatMap_eq_nil_iff, List.forall_mem_map]

/-! ## Labels -/

theorem label_readBody (label : Option Label) (f : Field) (rest : List Field) :
    (readBody label f rest).1.label = label := by
  unfold readBody
  split <;> rfl

theorem label_readRest {first : Field} {label : Option Label} {faults : List Diagnostic}
    {fs : List Field} {s : Statement} (h : (readRest first label faults fs).statement = some s) :
    s.label = label := by
  cases fs with
  | nil => obtain rfl := Option.some.inj h; rfl
  | cons f rest => obtain rfl := Option.some.inj h; exact label_readBody label f rest

theorem spanned_of_readLabel {f : Field} {l : Label} (h : readLabel f = .ok l) : l.Spanned := by
  unfold readLabel at h
  split at h
  · obtain rfl := Except.ok.inj h
    unfold Label.Spanned Field.span Field.text Span.ofChars
    rw [utf8ByteSize_ofList]
  · cases h

/-- The label of a statement is read from the first field of its line. -/
theorem label_of_readLine {l : Line} {s : Statement} {label : Label}
    (h : (readLine l).statement = some s) (hlabel : s.label = some label) :
    hasLabel l ∧ ∃ first rest, fields l = first :: rest ∧ readLabel first = .ok label := by
  cases reading l with
  | blank _ hread =>
    rw [hread] at h
    cases h
  | labelled hl hfields hfirst hread =>
    rw [hread] at h
    obtain rfl := Option.some.inj ((label_readRest h).symm.trans hlabel)
    exact ⟨hl, _, _, hfields, hfirst⟩
  | mislabelled _ _ hread | unlabelled _ hread =>
    rw [hread] at h
    rw [label_readRest h] at hlabel
    cases hlabel

theorem spanned_of_readLine {l : Line} {s : Statement} {label : Label}
    (h : (readLine l).statement = some s) (hlabel : s.label = some label) : label.Spanned := by
  obtain ⟨-, first, rest, -, hfirst⟩ := label_of_readLine h hlabel
  exact spanned_of_readLabel hfirst

theorem spanned_of_mem_statements {cs : List Char} :
    ∀ s ∈ (readSource cs).statements, ∀ l, s.label = some l → l.Spanned := by
  intro s hs l hl
  obtain ⟨line, -, hline⟩ := exists_line_of_mem_statements hs
  exact spanned_of_readLine hline hl

/-! ## Problems of lines -/

/-- Whether the problem is one of operands that get their values. -/
def Problem.ofResolution : Problem → Bool
  | undefinedLabel | offsetTooWide _ | branchOutOfRange => true
  | _ => false

/-- The problem is found before operands get their values. -/
def Diagnostic.Early (d : Diagnostic) : Prop := d.problem.ofResolution = false

end SolMachine.Assembly
