import SolMachine.Proofs.Excerpts
import SolMachine.Proofs.Places
import SolMachine.Proofs.Reports
import SolMachine.Proofs.SymbolTables

/-!
# Places that are reported

* `placed_of_mem_programFaults`, `placed_of_mem_operandFaults` : the faults of a program have the places
  of its statements and labels;
* `placed_of_assemble` : so all faults that `assemble` reports are placed in the text;
* `Shows`, `shows_report` : the entry of a report for a fault that is placed in the text;
* `PointsInto`, `WellPlaced`, `wellPlaced` : everything that is read, assembled or reported points at
  characters of the text.
-/

namespace SolMachine.Text

theorem mem_spans_pair {r s t : Span} (h : r ∈ (Place.pair s t).spans) : r = s ∨ r = t := by
  unfold Place.pair at h
  split at h
  · simpa [Place.spans] using h
  · simpa [Place.spans, or_comm] using h

end SolMachine.Text

namespace SolMachine.Assembly
open SolMachine.Text

/-! ## Faults of programs -/

section Program
variable {P : Span → List Char → Prop} {ss : List Statement} {d : Diagnostic}

theorem exists_of_mem_newLabels {l : Label} (h : l ∈ newLabels ss) : ∃ s ∈ ss, s.label = some l := by
  obtain ⟨a, s, hs, hl⟩ := (mem_eachWithPrefix newLabel).1 h
  obtain ⟨hlabel, -⟩ := Option.filter_eq_some_iff.1 (Option.mem_toList.1 hl)
  exact ⟨s, List.mem_of_getElem? hs, hlabel⟩

variable (hss : ∀ s ∈ ss, s.Placed P)
include hss

theorem placed_of_mem_visitFaults {before : List Statement} {s : Statement}
    (hbefore : before ⊆ ss) (hs : s ∈ ss) (h : d ∈ visitFaults before s) : d.Placed P := by
  obtain ⟨spanned, hspan⟩ := (hss s hs).span
  rcases List.mem_append.1 h with h | h
  · unfold labelFaults at h
    split at h
    · cases h
    · next l hl =>
      split at h
      · cases h
      · next a first hfirst =>
        obtain rfl := List.mem_singleton.1 h
        obtain ⟨t, ht, hlabel, -⟩ := firstDefinition?_eq_some hfirst
        intro r hr
        rcases mem_spans_pair hr with rfl | rfl
        · exact ⟨_, (hss t (hbefore (List.mem_of_getElem? ht))).label first hlabel⟩
        · exact ⟨_, (hss s hs).label l hl⟩
  · unfold stackFaults at h
    repeat' split at h
    all_goals first | cases h; done | rw [List.mem_singleton.1 h]; exact Diagnostic.placed_of hspan

/-- The faults of a program as a whole have the places of its statements and labels. -/
theorem placed_of_mem_programFaults (hbegin : ∀ s part, P s part → P ⟨s.start, s.start⟩ [])
    (h : d ∈ programFaults ss) : d.Placed P := by
  unfold programFaults at h
  rcases List.mem_append.1 h with h | h
  · rcases List.mem_append.1 h with h | h
    · unfold sizeFaults at h
      split at h
      · cases h
      · next s hs =>
        obtain ⟨part, hpart⟩ := (hss s (List.mem_of_getElem? hs)).span
        rw [List.mem_singleton.1 h]
        exact Diagnostic.placed_of hpart
    · obtain ⟨a, s, hs, hd⟩ := (mem_eachWithPrefix _).1 h
      exact placed_of_mem_visitFaults hss (List.take_subset a ss) (List.mem_of_getElem? hs) hd
  · unfold countFaults at h
    split at h
    · next hcount =>
      rw [← length_newLabels] at hcount
      have hne : newLabels ss ≠ [] := List.ne_nil_of_length_pos (Nat.lt_of_le_of_lt (Nat.zero_le _) hcount)
      obtain ⟨s, hs, hl⟩ := exists_of_mem_newLabels (List.getLast_mem hne)
      rw [List.mem_singleton.1 h, lastNewStart, List.getLast?_eq_some_getLast hne]
      exact Diagnostic.placed_of (hbegin _ _ ((hss s hs).label _ hl))
    · cases h

/-- The faults of operands have the places of statements, or of the labels that are used. -/
theorem placed_of_mem_operandFaults (h : d ∈ operandFaults ss) : d.Placed P := by
  obtain ⟨⟨s, a⟩, hs, hd⟩ := List.mem_filterMap.1 h
  have hplaced := hss s (List.mem_of_getElem? (List.mem_zipIdx_iff_getElem?.1 hs))
  have huse : ∀ l, s.body.address? = some (.label l) → labelUseFault? ss l = some d → d.Placed P :=
    fun l hl hfault => by
      unfold labelUseFault? at hfault
      split at hfault
      · cases hfault
      · obtain rfl := Option.some.inj hfault
        exact Diagnostic.placed_of (hplaced.operand l hl)
  dsimp only [operandFault?] at hd
  split at hd
  · next i hbody =>
    obtain ⟨x, hx, hfault⟩ := Option.bind_eq_some_iff.1 hd
    have hx : s.body.address? = some x := hbody ▸ hx
    cases x with
    | int w =>
      obtain ⟨part, hpart⟩ := hplaced.span
      unfold addressFault? integerFault? at hfault
      dsimp only at hfault
      repeat' split at hfault
      all_goals first | cases hfault; done | obtain rfl := Option.some.inj hfault
      all_goals exact Diagnostic.placed_of hpart
    | label l => exact huse l hx hfault
  · cases hd
  · next l hbody => exact huse l (hbody ▸ rfl) hd

end Program

/-! ## Faults of texts -/

section Assemble
variable {source : String} {debug : Bool} {ds : Diagnostics} {d : Diagnostic}

/-- What is reported are faults of lines, of the program as a whole, or of operands. -/
theorem mem_of_assemble_error (h : assemble source debug = .error ds) (hd : d ∈ ds.toList) :
    d ∈ (readSource source.toList).faults ∨ d ∈ programFaults (readSource source.toList).statements ∨
      d ∈ operandFaults (readSource source.toList).statements := by
  by_cases hearly : earlyFaults source.toList = []
  · by_cases ho : operandFaults (readSource source.toList).statements = []
    · obtain ⟨p, hok, -⟩ := assemble_of_no_faults hearly ho debug
      cases hok.symm.trans h
    · obtain rfl := Except.error.inj ((assemble_of_operandFaults hearly ho debug).symm.trans h)
      exact .inr (.inr ((isStableSort_sort _).mem_iff.1 hd))
  · obtain rfl := Except.error.inj ((assemble_of_earlyFaults hearly debug).symm.trans h)
    rcases List.mem_append.1 ((isStableSort_sort _).mem_iff.1 hd) with hline | hprogram
    · exact .inl hline
    · exact .inr (.inl ((isStableSort_sort _).mem_iff.1 hprogram))

theorem placed_of_assemble (h : assemble source debug = .error ds) :
    ∀ d ∈ ds.toList, d.Placed (Cites source.toList) := by
  intro d hd
  rcases mem_of_assemble_error h hd with hline | hprogram | hoperand
  · exact placed_of_mem_faults d hline
  · exact placed_of_mem_programFaults placed_of_mem_statements (fun _ _ => Cites.begin) hprogram
  · exact placed_of_mem_operandFaults placed_of_mem_statements hoperand

/-- The symbols of a program are those of the statements of its text. -/
theorem exists_ofProgram {p : Program} {t : SymbolTable} (h : assemble source debug = .ok p)
    (ht : p.symbols = some t) :
    ∃ lines, t = SymbolTable.ofProgram (readSource source.toList).statements lines := by
  unfold assemble at h
  dsimp only at h
  split at h
  · cases h
  · next u hbuild =>
    split at h
    · split at h
      · obtain rfl := Except.ok.inj h
        obtain ⟨-, hu⟩ := Option.ite_none_right_eq_some.1 ht
        obtain rfl := Option.some.inj hu
        exact ⟨_, (SymbolTable.build_eq_ok_iff.1 hbuild).2⟩
      · cases h
    · cases h

theorem cites_of_definitionSpan? {cs : List Char} {lines : Option SourceMap} {name : String}
    {span : Span}
    (h : (SymbolTable.ofProgram (readSource cs).statements lines).definitionSpan? name = some span) :
    Cites cs span name.toList := by
  rw [SymbolTable.definitionSpan?, SymbolTable.labels_getElem? spanned_of_mem_statements,
    Option.map_map] at h
  obtain ⟨⟨a, l⟩, hfirst, rfl⟩ := Option.map_eq_some_iff.1 h
  obtain ⟨s, hs, hl, rfl⟩ := firstDefinition?_eq_some hfirst
  have hmem := List.mem_of_getElem? hs
  have hspanned : l.span = ⟨l.span.start, l.span.start + l.name.utf8ByteSize⟩ :=
    congrArg (Span.mk l.span.start) (spanned_of_mem_statements s hmem l hl)
  have hcites := (placed_of_mem_statements s hmem).label l hl
  rwa [hspanned] at hcites

end Assemble

/-! ## Reports -/

/-- The line of a report with advice, if there is any. -/
def Problem.advice (p : Problem) : String :=
  match p.help with
  | some text => "  = help: " ++ text ++ "\n"
  | none => ""

/-- The entry of a report for a fault of a text: its first span starts behind the characters `before`,
and lines are counted by the line feeds among them; the column is that of the byte in its line, and the
excerpt is the line without the blanks around it. -/
inductive Shows (file : String) (cs : List Char) (d : Diagnostic) : String → Prop
  | entry {before after earlier head tail later excerpt : List Char} : cs = before ++ after →
      byteLength before = d.start → InLine before after earlier head tail later →
      Trimmed (head ++ tail) excerpt → excerpt ≠ [] →
      Shows file cs d ("error: " ++ file ++ ":" ++ Nat.repr (before.count '\n' + 1) ++ ":" ++
        Nat.repr (byteLength head + 1) ++ ": " ++ d.problem.message ++ "\n" ++
        ("  | " ++ String.ofList excerpt ++ "\n") ++ d.problem.advice)

/-- A fault that is placed in a text is shown with its line. -/
theorem shows_report {cs : List Char} {d : Diagnostic} (h : d.Placed (Cites cs)) (file : String) :
    Shows file cs d (d.report file (.ofText cs)) := by
  obtain ⟨part, ⟨before, after, hcs, hfirst, c, rest, hc, hblank⟩, -⟩ :=
    h d.place.first (List.mem_cons_self ..)
  rw [List.append_assoc] at hcs
  have hstart : byteLength before = d.start := by
    rw [Diagnostic.start, hfirst]
    exact (Nat.zero_add _).symm
  obtain ⟨earlier, head, tail, later, hin, hline⟩ := exists_inLine before (part ++ after)
  -- The line holds the character at the start of the span.
  have hmem : c ∈ head ++ tail := by
    have hbehind := hin.after_eq
    rw [hc] at hbehind
    cases tail with
    | nil =>
      rcases hin.ends with rfl | ⟨ds, rfl⟩
      · cases hbehind
      · obtain ⟨rfl, -⟩ := List.cons.inj hbehind
        cases hblank
    | cons d tail =>
      obtain ⟨rfl, -⟩ := List.cons.inj hbehind
      simp
  have htrim := trimmed_trim (head ++ tail)
  have hposition := position_ofText hin hline
  have hexcerpt := readLine?_ofText hline
  rw [← hcs] at hposition hexcerpt
  have hentry : Shows file cs d _ := .entry hcs hstart hin htrim (htrim.ne_nil hmem hblank)
  unfold Diagnostic.report
  rw [← hstart, hposition]
  dsimp only
  rw [hexcerpt]
  exact hentry

/-! ## Texts -/

/-- The span is a range of bytes of the source, between whole characters, which are `part`. They are in
one line, and the character at the start of the span is no blank. -/
structure PointsInto (source : String) (s : Span) (part : List Char) : Prop where
  ordered : s.start ≤ s.stop
  inside : s.stop ≤ source.utf8ByteSize
  chars : ∃ before after, source.toList = before ++ part ++ after ∧ s = .ofChars (byteLength before) part
  text : String.Pos.Raw.extract source ⟨s.start⟩ ⟨s.stop⟩ = String.ofList part
  oneLine : '\n' ∉ part
  visible : ∃ before c after, source.toList = before ++ c :: after ∧ byteLength before = s.start ∧
    isBlank c = false

theorem pointsInto_of_cites {source : String} {s : Span} {part : List Char}
    (h : Cites source.toList s part) : PointsInto source s part := by
  obtain ⟨hpoints, hline⟩ := h
  obtain ⟨-, hordered, hinside⟩ := hpoints.marks.bounds
  have hextract := hpoints.marks.extract_eq
  rw [Nat.zero_add, byteLength_toList] at hinside
  rw [String.ofList_toList] at hextract
  obtain ⟨before, after, hcs, rfl, c, rest, hc, hblank⟩ := hpoints
  rw [Nat.zero_add] at *
  refine ⟨hordered, hinside, ⟨before, after, hcs, rfl⟩, hextract, hline, before, c, rest, ?_, rfl, hblank⟩
  rw [hcs, List.append_assoc, hc]

/-- All that is read and assembled from a source, and all that is reported on it, is well placed. -/
structure WellPlaced (source : String) (debug : Bool) (file : String) : Prop where
  statements : ∀ s ∈ (readSource source.toList).statements, s.Placed (PointsInto source)
  faults : ∀ d ∈ (readSource source.toList).faults, d.Placed (PointsInto source)
  /-- The span of a label that is defined or used has the length of its name. -/
  spanned : ∀ s ∈ (readSource source.toList).statements, ∀ l,
    s.label = some l ∨ s.body.address? = some (.label l) → l.Spanned
  errors : ∀ ds, assemble source debug = .error ds → ∀ d ∈ ds.toList, d.Placed (PointsInto source)
  symbols : ∀ p t, assemble source debug = .ok p → p.symbols = some t →
    ∀ name span, t.definitionSpan? name = some span → PointsInto source span name.toList
  /-- A report has one entry for each fault, in their order. -/
  report : ∀ ds, assemble source debug = .error ds → ∃ entries,
    ds.report file source = String.join entries ∧
      List.Forall₂ (Shows file source.toList) ds.toList entries

theorem PointsInto.spanned {source : String} {l : Label}
    (h : PointsInto source l.span l.name.toList) : l.Spanned := by
  obtain ⟨before, after, -, hspan⟩ := h.chars
  rw [Label.Spanned, hspan, ← byteLength_toList]
  rfl

theorem pointsInto_of_mem_statements {source : String} :
    ∀ s ∈ (readSource source.toList).statements, s.Placed (PointsInto source) :=
  fun s hs => (placed_of_mem_statements s hs).mono fun _ _ => pointsInto_of_cites

/-- Every span of a statement, a label or a fault points at characters of one line of the source, from
one that is no blank; that of a label at its name. So a report shows each fault with its line. -/
theorem wellPlaced (source : String) (debug : Bool) (file : String) :
    WellPlaced source debug file where
  statements := pointsInto_of_mem_statements
  faults d hd := (placed_of_mem_faults d hd).mono fun _ _ => pointsInto_of_cites
  spanned s hs l hl := by
    have hplaced := pointsInto_of_mem_statements s hs
    rcases hl with hl | hl
    · exact (hplaced.label l hl).spanned
    · exact (hplaced.operand l hl).spanned
  errors ds hds d hd := (placed_of_assemble hds d hd).mono fun _ _ => pointsInto_of_cites
  symbols p t hp ht name span hspan := by
    obtain ⟨lines, rfl⟩ := exists_ofProgram hp ht
    exact pointsInto_of_cites (cites_of_definitionSpan? hspan)
  report ds hds := by
    refine ⟨ds.toList.map fun d => d.report file (.ofText source.toList), rfl, ?_⟩
    rw [List.forall₂_map_right_iff, List.forall₂_same]
    exact fun d hd => shows_report (placed_of_assemble hds d hd) file

end SolMachine.Assembly
