import SolMachine.Assembly.SymbolTable
import SolMachine.Proofs.Labels

/-!
# What the survey of a program finds

* `depth` : the depth of the stack after statements, where a `push` or `pop` that fails leaves it;
* `labelFaults`, `stackFaults` : what is wrong with a statement, given the statements before it;
  `sizeFaults`, `countFaults` : what is wrong with a program as a whole;
* `Survey.Of` : what the survey knows after some statements; `Survey.Of.visit` is the step, and
  `survey_of` the whole pass;
* `surveyFaults_eq` : the faults of a program, in the order in which they are noted;
* `SymbolTable.build_eq_ok_iff` : the table of a program without such faults.
-/

namespace SolMachine.Assembly
open SolMachine.Text

/-- The span of the label has the length of its name. -/
def Label.Spanned (l : Label) : Prop := l.span.stop = l.span.start + l.name.utf8ByteSize

/-- The depth of the stack after a statement; a `push` or `pop` that fails leaves it. -/
def nextDepth (d : Nat) (s : Statement) : Nat :=
  match s.body with
  | .instruction (.push _) => if d < stackCapacity then d + 1 else d
  | .instruction (.pop _) => d - 1
  | _ => d

/-- The depth of the stack after statements. -/
def depth (ss : List Statement) : Nat := ss.foldl nextDepth 0

/-- The label of a statement is defined before. -/
def labelFaults (before : List Statement) (s : Statement) : List Diagnostic :=
  match s.label with
  | none => []
  | some l =>
    match firstDefinition? before l.name with
    | none => []
    | some (_, first) => [⟨.duplicateLabel, .pair first.span l.span⟩]

/-- The statement pushes to a full stack or pops an empty one. -/
def stackFaults (before : List Statement) (s : Statement) : List Diagnostic :=
  match s.body with
  | .instruction (.push _) =>
    if depth before = stackCapacity then [.of .stackOverflow s.span] else []
  | .instruction (.pop _) => if depth before = 0 then [.of .stackUnderflow s.span] else []
  | _ => []

/-- What is wrong with a statement, given the statements before it. -/
def visitFaults (before : List Statement) (s : Statement) : List Diagnostic :=
  labelFaults before s ++ stackFaults before s

/-- There are more statements than fit in memory. -/
def sizeFaults (ss : List Statement) : List Diagnostic :=
  match ss[maxWords]? with
  | none => []
  | some s => [.of .programTooLarge s.span]

/-- Where the last label that is new starts. -/
def lastNewStart (ss : List Statement) : Nat :=
  ((newLabels ss).getLast?.map fun l => l.span.start).getD 0

/-- There are more labels than fit in memory. -/
def countFaults (ss : List Statement) : List Diagnostic :=
  if maxWords < (labelNames ss).eraseDups.length then
    [.of .tooManyLabels ⟨lastNewStart ss, lastNewStart ss⟩]
  else []

/-- What is wrong with a program before its operands are looked at. -/
def programFaults (ss : List Statement) : List Diagnostic :=
  sizeFaults ss ++ eachWithPrefix visitFaults ss ++ countFaults ss

/-! ## The depth of the stack -/

theorem depth_append_singleton (ss : List Statement) (s : Statement) :
    depth (ss ++ [s]) = nextDepth (depth ss) s := List.foldl_append

theorem nextDepth_le {d : Nat} (h : d ≤ stackCapacity) (s : Statement) :
    nextDepth d s ≤ stackCapacity := by
  unfold nextDepth
  split
  · split <;> omega
  · omega
  · exact h

theorem depth_le (ss : List Statement) : depth ss ≤ stackCapacity := by
  induction ss using List.reverseRecOn with
  | nil => exact Nat.zero_le _
  | append_singleton ss s ih =>
    rw [depth_append_singleton]
    exact nextDepth_le ih s

/-! ## The label of a statement -/

section Label
variable {before : List Statement} {st : Statement} {l first : Label} {b : Nat}

theorem labelFaults_of_none (hl : st.label = none) : labelFaults before st = [] := by
  rw [labelFaults, hl]

theorem labelFaults_of_not_mem (hl : st.label = some l) (h : l.name ∉ labelNames before) :
    labelFaults before st = [] := by
  simp only [labelFaults, hl, firstDefinition?_eq_none_iff.2 h]

theorem labelFaults_of_some (hl : st.label = some l)
    (h : firstDefinition? before l.name = some (b, first)) :
    labelFaults before st = [⟨.duplicateLabel, .pair first.span l.span⟩] := by
  simp only [labelFaults, hl, h]

theorem labelFaults_eq_nil_iff :
    labelFaults before st = [] ↔ ∀ l, st.label = some l → l.name ∉ labelNames before := by
  constructor
  · intro h l hl hmem
    obtain ⟨b, first, hfirst⟩ := exists_firstDefinition? hmem
    rw [labelFaults_of_some hl hfirst] at h
    cases h
  · intro h
    cases hl : st.label with
    | none => exact labelFaults_of_none hl
    | some l => exact labelFaults_of_not_mem hl (h l hl)

/-- A statement without a new name changes no definition. -/
theorem firstDefinition?_of_no_new (h : ∀ l, st.label = some l → l.name ∈ labelNames before)
    (name : String) : firstDefinition? (before ++ [st]) name = firstDefinition? before name := by
  rw [firstDefinition?_append_singleton]
  cases hl : st.label with
  | none => simp
  | some l =>
    by_cases hn : l.name = name
    · obtain ⟨b, first, hfirst⟩ := exists_firstDefinition? (hn ▸ h l hl)
      rw [hfirst, Option.some_or]
    · simp [Option.filter_some, hn]

end Label

/-! ## One statement -/

namespace Survey

/-- What the survey knows after the statements `before`. -/
structure Of (before : List Statement) (s : Survey) : Prop where
  labels : ∀ name, s.labels[name]? =
    (firstDefinition? before name).map fun (a, l) => ⟨a, l.span.start⟩
  size : s.labels.size = (newLabels before).length
  lastStart : s.lastStart = lastNewStart before
  depth : s.depth = Assembly.depth before
  faults : s.faults.toList = eachWithPrefix visitFaults before

theorem follow_labels (s : Survey) (body : Body) (span : Span) :
    (s.follow body span).labels = s.labels ∧ (s.follow body span).lastStart = s.lastStart := by
  unfold follow fault
  repeat' split
  all_goals exact ⟨rfl, rfl⟩

/-- The depth and the faults after a body, where the depth was that of the statements before. -/
theorem follow_depth {before : List Statement} {s : Survey} (st : Statement)
    (h : s.depth = Assembly.depth before) :
    (s.follow st.body st.span).depth = nextDepth (Assembly.depth before) st ∧
      (s.follow st.body st.span).faults.toList = s.faults.toList ++ stackFaults before st := by
  have hle := depth_le before
  obtain ⟨label, body, span⟩ := st
  unfold follow nextDepth stackFaults
  rw [h]
  cases body with
  | fill v => exact ⟨h, (List.append_nil _).symm⟩
  | instruction i =>
    cases i with
    | push r =>
      by_cases hfull : stackCapacity ≤ Assembly.depth before
      · have heq : Assembly.depth before = stackCapacity := Nat.le_antisymm hle hfull
        simp only [if_pos hfull, if_neg (Nat.not_lt.2 hfull), if_pos heq]
        exact ⟨h, Array.toList_push⟩
      · have hlt : Assembly.depth before < stackCapacity := Nat.not_le.1 hfull
        simp only [if_neg hfull, if_pos hlt, if_neg (Nat.ne_of_lt hlt)]
        exact ⟨trivial, (List.append_nil _).symm⟩
    | pop r =>
      by_cases hempty : Assembly.depth before = 0
      · simp only [if_pos hempty]
        exact ⟨h.trans (by rw [hempty]), Array.toList_push⟩
      · simp only [if_neg hempty]
        exact ⟨trivial, (List.append_nil _).symm⟩
    | _ => exact ⟨h, (List.append_nil _).symm⟩

/-- What `define` leaves where no statement before defines the name. -/
theorem define_of_not_mem {before : List Statement} {s : Survey} (h : s.Of before) {l : Label}
    (a : Nat) (hl : l.name ∉ labelNames before) :
    s.define a l =
      { s with labels := s.labels.insert l.name ⟨a, l.span.start⟩, lastStart := l.span.start } := by
  unfold define
  rw [h.labels, firstDefinition?_eq_none_iff.2 hl]
  rfl

/-- What `define` leaves where a statement before defines the name. -/
theorem define_of_some {before : List Statement} {s : Survey} (h : s.Of before) {l first : Label}
    (a : Nat) {b : Nat} (hs : first.Spanned) (hl : firstDefinition? before l.name = some (b, first)) :
    s.define a l = s.fault ⟨.duplicateLabel, .pair first.span l.span⟩ := by
  obtain ⟨-, -, -, hname⟩ := firstDefinition?_eq_some hl
  have hspan : (⟨b, first.span.start⟩ : Definition).span l.name = first.span := by
    unfold Definition.span
    rw [← hname, ← hs]
  unfold define
  rw [h.labels, hl]
  simp only [Option.map_some, hspan]

theorem Of.initial : Survey.initial.Of [] where
  labels _ := Std.HashMap.getElem?_empty
  size := Std.HashMap.size_empty
  lastStart := rfl
  depth := rfl
  faults := rfl

/-- What the survey knows after the statements `before` and the label of `st`. -/
structure Defined (before : List Statement) (st : Statement) (s : Survey) : Prop where
  labels : ∀ name, s.labels[name]? =
    (firstDefinition? (before ++ [st]) name).map fun (a, l) => ⟨a, l.span.start⟩
  size : s.labels.size = (newLabels (before ++ [st])).length
  lastStart : s.lastStart = lastNewStart (before ++ [st])
  depth : s.depth = Assembly.depth before
  faults : s.faults.toList = eachWithPrefix visitFaults before ++ labelFaults before st

section Visit
variable {before : List Statement} {s : Survey} {st : Statement} {l first : Label} {b : Nat}

theorem Of.defined_of_none (h : s.Of before) (hl : st.label = none) : s.Defined before st where
  labels name := by rw [h.labels, firstDefinition?_of_no_new (by simp [hl])]
  size := by rw [h.size, newLabels_append_singleton, newLabel_of_none hl, List.append_nil]
  lastStart := by
    rw [h.lastStart, lastNewStart, lastNewStart, newLabels_append_singleton, newLabel_of_none hl,
      List.append_nil]
  depth := h.depth
  faults := by rw [h.faults, labelFaults_of_none hl, List.append_nil]

theorem Of.defined_of_some (h : s.Of before) (hl : st.label = some l) (hs : first.Spanned)
    (hfirst : firstDefinition? before l.name = some (b, first)) :
    (s.define before.length l).Defined before st := by
  have hmem : l.name ∈ labelNames before := mem_labelNames_of_firstDefinition? hfirst
  rw [define_of_some h _ hs hfirst]
  refine ⟨fun name => ?_, ?_, ?_, h.depth, ?_⟩
  · rw [firstDefinition?_of_no_new (by simp [hl, hmem])]
    exact h.labels name
  · rw [newLabels_append_singleton, newLabel_of_mem hl hmem, List.append_nil]
    exact h.size
  · rw [lastNewStart, newLabels_append_singleton, newLabel_of_mem hl hmem, List.append_nil]
    exact h.lastStart
  · rw [labelFaults_of_some hl hfirst, fault, Array.toList_push, h.faults]

theorem Of.defined_of_not_mem (h : s.Of before) (hl : st.label = some l)
    (hmem : l.name ∉ labelNames before) : (s.define before.length l).Defined before st := by
  have hnone := firstDefinition?_eq_none_iff.2 hmem
  have hfresh : l.name ∉ s.labels := by
    rw [Std.HashMap.mem_iff_isSome_getElem?, h.labels, hnone]
    simp
  rw [define_of_not_mem h _ hmem]
  refine ⟨fun name => ?_, ?_, ?_, h.depth, ?_⟩
  · rw [Std.HashMap.getElem?_insert, firstDefinition?_append_singleton, hl, Option.filter_some]
    by_cases hn : l.name = name
    · subst hn
      simp [hnone]
    · simp [hn, h.labels]
  · rw [Std.HashMap.size_insert, if_neg hfresh, h.size, newLabels_append_singleton,
      newLabel_of_not_mem hl hmem, List.length_append, List.length_singleton]
  · rw [lastNewStart, newLabels_append_singleton, newLabel_of_not_mem hl hmem,
      List.getLast?_concat]
    rfl
  · rw [labelFaults_of_not_mem hl hmem, List.append_nil]
    exact h.faults

theorem Defined.follow (h : s.Defined before st) : (s.follow st.body st.span).Of (before ++ [st]) := by
  obtain ⟨hl, hs⟩ := follow_labels s st.body st.span
  obtain ⟨hd, hf⟩ := follow_depth st h.depth
  refine ⟨?_, ?_, ?_, ?_, ?_⟩
  · rw [hl]; exact h.labels
  · rw [hl]; exact h.size
  · rw [hs]; exact h.lastStart
  · rw [hd, depth_append_singleton]
  · rw [hf, h.faults, eachWithPrefix_append_singleton, visitFaults, List.append_assoc]

/-- The step: a visit adds what the statement gives to what is known. -/
theorem Of.visit (h : s.Of before) (st : Statement)
    (hs : ∀ t ∈ before, ∀ l, t.label = some l → l.Spanned) :
    (s.visit before.length st).Of (before ++ [st]) := by
  unfold Survey.visit
  cases hl : st.label with
  | none => exact (h.defined_of_none hl).follow
  | some l =>
    by_cases hmem : l.name ∈ labelNames before
    · obtain ⟨b, first, hfirst⟩ := exists_firstDefinition? hmem
      obtain ⟨t, ht, hlabel, -⟩ := firstDefinition?_eq_some hfirst
      have hspan := hs t (List.mem_of_getElem? ht) first hlabel
      exact (h.defined_of_some hl hspan hfirst).follow
    · exact (h.defined_of_not_mem hl hmem).follow

end Visit

end Survey

/-! ## The whole pass -/

theorem survey_append_singleton (before : List Statement) (st : Statement) :
    survey (before ++ [st]) = (survey before).visit before.length st := by
  unfold survey
  rw [List.zipIdx_append, List.foldl_append, List.zipIdx_singleton, Nat.zero_add]
  rfl

/-- The run: the survey knows what the statements give. -/
theorem survey_of {ss : List Statement} (hs : ∀ t ∈ ss, ∀ l, t.label = some l → l.Spanned) :
    (survey ss).Of ss := by
  induction ss using List.reverseRecOn with
  | nil => exact Survey.Of.initial
  | append_singleton before st ih =>
    have hbefore : ∀ t ∈ before, ∀ l, t.label = some l → l.Spanned :=
      fun t ht => hs t (List.mem_append_left _ ht)
    rw [survey_append_singleton]
    exact (ih hbefore).visit st hbefore

/-- The faults of a program, in the order in which they are noted. -/
theorem surveyFaults_eq {ss : List Statement}
    (hs : ∀ t ∈ ss, ∀ l, t.label = some l → l.Spanned) :
    surveyFaults ss (survey ss) = programFaults ss := by
  have h := survey_of hs
  unfold surveyFaults programFaults sizeFaults countFaults
  rw [h.faults, h.size, h.lastStart, length_newLabels]
  cases ss[maxWords]? <;> rfl

/-! ## The table -/

namespace SymbolTable

/-- What is put into the table of a program. -/
def ofProgram (ss : List Statement) (source : Option SourceMap) : SymbolTable where
  labels := (survey ss).labels
  names := (ss.map fun st => st.label.map Label.name).toArray
  lineTable := source.map fun m => ⟨(ss.map fun st => m.lineOf st.span.start).toArray, m⟩

theorem build_eq_ok_iff {ss : List Statement} {source : Option SourceMap} {t : SymbolTable} :
    build ss source = .ok t ↔ surveyFaults ss (survey ss) = [] ∧ t = ofProgram ss source := by
  unfold build
  dsimp only
  cases surveyFaults ss (survey ss) with
  | nil => exact ⟨fun h => ⟨rfl, (Except.ok.inj h).symm⟩, fun h => congrArg Except.ok h.2.symm⟩
  | cons d ds => exact ⟨fun h => (by cases h), fun h => (by cases h.1)⟩

end SymbolTable

end SolMachine.Assembly
