import SolMachine.Proofs.LineParts
import SolMachine.Proofs.LineSearch

/-!
# Symbol tables and their source

* `DefinedAt` : a statement of a program has a label of that name;
* `nonblankNumbers` : the numbers of the lines of a text that hold more than blanks; the statements of
  a text stand on them, in order (`map_lineOf_statements`);
* `startsLine_of_readLine` : a label stands at the start of its line;
* `SymbolTable.Names`, `SymbolTable.Places`, `SymbolTable.Numbers` : what a table knows of labels, of
  the places of labels, and of lines;
* `SymbolTable.matches_source` : the table of a text that is read without faults knows all of these.
-/

namespace SolMachine.Assembly
open SolMachine.Text

/-- The statement at address `a` has a label of that name. -/
def DefinedAt (ss : List Statement) (name : String) (a : Nat) : Prop :=
  ∃ s l, ss[a]? = some s ∧ s.label = some l ∧ l.name = name

/-- The numbers of the lines of a text that hold more than blanks. -/
def nonblankNumbers (cs : List Char) : List Nat := (lines cs).findIdxs fun l => !l.isBlank

theorem DefinedAt.unique {ss : List Statement} {name name' : String} {a : Nat}
    (h : DefinedAt ss name a) (h' : DefinedAt ss name' a) : name = name' := by
  obtain ⟨s, l, hs, hl, rfl⟩ := h
  obtain ⟨s', l', hs', hl', rfl⟩ := h'
  obtain rfl := Option.some.inj (hs.symm.trans hs')
  obtain rfl := Option.some.inj (hl.symm.trans hl')
  rfl

/-! ## Where statements and labels stand -/

section Line
variable {l : Line} {s : Statement}

/-- A statement starts with a field of its line. -/
theorem start_of_readLine (h : (readLine l).statement = some s) :
    ∃ f ∈ fields l, s.span.start = f.start := by
  obtain ⟨f, rest, hsuffix, g, -, hspan⟩ := ((readFrom_readLine l).statement s h).span
  exact ⟨f, hsuffix.subset (List.mem_cons_self ..), congrArg Span.start hspan⟩

/-- A statement starts within its line. -/
theorem start_bounds_of_readLine (h : (readLine l).statement = some s) :
    l.start ≤ s.span.start ∧ s.span.start ≤ l.stop := by
  obtain ⟨f, hmem, hstart⟩ := start_of_readLine h
  have hbounds := mem_splitFields_bounds l.start l.chars f hmem
  have hle : f.start ≤ f.span.stop := Nat.le_add_right _ _
  have hstop : l.stop = l.start + byteLength l.chars := rfl
  omega

/-- The first field of a line that begins with no blank is where the line begins. -/
theorem fields_of_hasLabel (h : hasLabel l) :
    ∃ word after rest, fields l = ⟨l.start, word⟩ :: rest ∧ l.chars = word ++ after := by
  obtain ⟨start, cs⟩ := l
  cases cs with
  | nil => cases h
  | cons c cs =>
    have hc : ¬ isBlank c := by simpa [hasLabel] using h
    let word := c :: cs.takeWhile fun d => !isBlank d
    let after := cs.dropWhile fun d => !isBlank d
    refine ⟨word, after, splitFields (start + byteLength word) after, ?_, ?_⟩
    · show splitFields start (c :: cs) = _
      rw [splitFields_eq, List.dropWhile_cons_of_neg hc, List.takeWhile_cons_of_neg hc]
      rfl
    · exact congrArg (c :: ·) List.takeWhile_append_dropWhile.symm

/-- A label stands at the start of its line. -/
theorem startsLine_of_readLine {cs : List Char} {label : Label} (hl : l ∈ lines cs)
    (h : (readLine l).statement = some s) (hlabel : s.label = some label) :
    StartsLine cs label.span.start label.name.toList := by
  obtain ⟨hhas, first, rest, hfields, hread⟩ := label_of_readLine h hlabel
  obtain ⟨word, after, rest', hword, hchars⟩ := fields_of_hasLabel hhas
  obtain ⟨rfl, -⟩ := List.cons.inj (hfields.symm.trans hword)
  have hline := startsLine_of_mem_lines hl
  rw [hchars] at hline
  unfold readLabel at hread
  split at hread
  · obtain rfl := Except.ok.inj hread
    rw [show (Label.name ⟨Field.text ⟨l.start, word⟩, _⟩).toList = word from String.toList_ofList]
    exact hline.left
  · cases hread

end Line

section Source
variable (cs : List Char)

/-- The statements of a text stand on its lines that hold more than blanks, in order. -/
theorem map_lineOf_statements :
    (readSource cs).statements.map (fun s => (SourceMap.ofText cs).lineOf s.span.start) =
      nonblankNumbers cs := by
  have hread : (readSource cs).statements =
      ((lines cs).zipIdx.map Prod.fst).filterMap fun l => (readLine l).statement := by
    rw [List.zipIdx_map_fst]
    exact List.filterMap_map
  rw [hread, nonblankNumbers, List.findIdxs_eq_filterMap_zipIdx, List.filterMap_map,
    List.map_filterMap]
  refine List.filterMap_congr fun (l, i) hl => ?_
  have hget := List.mem_zipIdx_iff_getElem?.1 hl
  have hsome := isSome_statement_readLine l
  dsimp only [Function.comp] at hget ⊢
  cases hs : (readLine l).statement with
  | none =>
    rw [hs] at hsome
    rw [← hsome]
    rfl
  | some s =>
    rw [hs] at hsome
    obtain ⟨hstart, hstop⟩ := start_bounds_of_readLine hs
    rw [← hsome, Option.map_some, lineOf_ofText hget hstart hstop]
    rfl

theorem mem_nonblankNumbers {i : Nat} :
    i ∈ nonblankNumbers cs ↔ ∃ l, (lines cs)[i]? = some l ∧ l.isBlank = false := by
  unfold nonblankNumbers
  rw [List.mem_findIdxs_iff_exists_getElem_pos]
  constructor
  · rintro ⟨hi, hl⟩
    exact ⟨_, List.getElem?_eq_getElem hi, by simpa using hl⟩
  · rintro ⟨l, hget, hl⟩
    obtain ⟨hi, rfl⟩ := List.getElem?_eq_some_iff.1 hget
    exact ⟨hi, by simpa using hl⟩

end Source

/-! ## What a table knows -/

namespace SymbolTable
variable (t : SymbolTable)

/-- The table has the labels of the statements, each at the address of its statement. -/
structure Names (ss : List Statement) : Prop where
  address : ∀ name a, t.addressOf? name = some a ↔ DefinedAt ss name a
  label : ∀ name a, t.labelAt? a = some name ↔ DefinedAt ss name a
  /-- An entry with an address is the one of its label, in whatever order the entries are scanned. -/
  scan : ∀ entries : List (String × Definition), entries.Perm t.labels.toList → ∀ name a,
    (entries.find? fun e => e.2.address = a).map Prod.fst = some name ↔ DefinedAt ss name a
  distinct : ∀ name name' a, t.addressOf? name = some a → t.addressOf? name' = some a → name = name'

/-- The table has the place in the text of each of its labels: there the text is the name, and a line
starts. -/
structure Places (cs : List Char) : Prop where
  defined : ∀ name, (t.definitionSpan? name).isSome = (t.addressOf? name).isSome
  span : ∀ name span, t.definitionSpan? name = some span →
    span = .ofChars span.start name.toList ∧ StartsLine cs span.start name.toList

/-- The table has the lines of the text that hold more than blanks, each for one address. -/
structure Numbers (cs : List Char) (n : Nat) : Prop where
  count : (nonblankNumbers cs).length = n
  line : ∀ a, t.lineOf? a = (nonblankNumbers cs)[a]?
  increasing : ∀ a b x y, a < b → t.lineOf? a = some x → t.lineOf? b = some y → x < y
  address : ∀ x a, t.addressOfLine? x = some a ↔ t.lineOf? a = some x
  blank : ∀ x l, (lines cs)[x]? = some l → l.isBlank → t.addressOfLine? x = none
  pastText : ∀ x, (lines cs).length ≤ x → t.addressOfLine? x = none
  pastProgram : ∀ a, n ≤ a → t.lineOf? a = none

/-- The tables say the same of labels. -/
structure SameLabels (u : SymbolTable) : Prop where
  address : u.addressOf? = t.addressOf?
  label : u.labelAt? = t.labelAt?
  span : u.definitionSpan? = t.definitionSpan?

variable {t} {ss : List Statement} {source : Option SourceMap}

/-! ## Labels -/

section Labels
variable (hs : ∀ s ∈ ss, ∀ l, s.label = some l → l.Spanned)
include hs

theorem labels_getElem? (name : String) : (ofProgram ss source).labels[name]? =
    (firstDefinition? ss name).map fun (a, l) => ⟨a, l.span.start⟩ :=
  (survey_of hs).labels name

theorem addressOf?_iff_definedAt (hd : (labelNames ss).Nodup) (name : String) (a : Nat) :
    (ofProgram ss source).addressOf? name = some a ↔ DefinedAt ss name a := by
  rw [addressOf?, labels_getElem? hs, Option.map_map]
  exact labelAddress?_eq_some_iff hd

theorem names_ofProgram (hd : (labelNames ss).Nodup) : (ofProgram ss source).Names ss := by
  have haddress : ∀ name a, (ofProgram ss source).addressOf? name = some a ↔ DefinedAt ss name a :=
    addressOf?_iff_definedAt hs hd
  refine ⟨haddress, fun name a => ?_, fun entries hperm name a => ?_, fun name name' a h h' => ?_⟩
  · unfold labelAt? ofProgram DefinedAt
    simp [Option.join_eq_some_iff]
  · have hentry : ∀ e ∈ entries, DefinedAt ss e.1 e.2.address := fun e he => by
      refine (haddress e.1 e.2.address).1 ?_
      rw [addressOf?, Std.HashMap.mem_toList_iff_getElem?_eq_some.1 (hperm.mem_iff.1 he)]
      rfl
    constructor
    · intro h
      obtain ⟨e, he, rfl⟩ := Option.map_eq_some_iff.1 h
      obtain rfl : e.2.address = a := by simpa using List.find?_some he
      exact hentry e (List.mem_of_find?_eq_some he)
    · intro h
      obtain ⟨d, hget, rfl⟩ := Option.map_eq_some_iff.1 ((haddress name a).2 h)
      have hmem : (name, d) ∈ entries :=
        hperm.mem_iff.2 (Std.HashMap.mem_toList_iff_getElem?_eq_some.2 hget)
      have hfound : (entries.find? fun e => e.2.address = d.address).isSome :=
        List.find?_isSome.2 ⟨(name, d), hmem, decide_eq_true rfl⟩
      obtain ⟨e, he⟩ := Option.isSome_iff_exists.1 hfound
      -- The entry that is found has the address of the statement, so it is for its label.
      have hat : e.2.address = d.address := by simpa using List.find?_some he
      have hdefined := hentry e (List.mem_of_find?_eq_some he)
      rw [hat] at hdefined
      rw [he, Option.map_some, hdefined.unique h]
  · exact ((haddress name a).1 h).unique ((haddress name' a).1 h')

end Labels

/-! ## Tables of a text -/

section Text
variable {cs : List Char}

/-- The places of labels are those at which they were read. -/
theorem places_ofProgram : (ofProgram (readSource cs).statements source).Places cs := by
  have hget : ∀ name, (ofProgram (readSource cs).statements source).labels[name]? = _ :=
    labels_getElem? spanned_of_mem_statements
  refine ⟨fun name => ?_, fun name span h => ?_⟩
  · rw [definitionSpan?, addressOf?, Option.isSome_map, Option.isSome_map]
  · rw [definitionSpan?, hget, Option.map_map] at h
    obtain ⟨⟨a, l⟩, hfirst, rfl⟩ := Option.map_eq_some_iff.1 h
    obtain ⟨s, hs, hl, rfl⟩ := firstDefinition?_eq_some hfirst
    obtain ⟨line, hline, hread⟩ := exists_line_of_mem_statements (List.mem_of_getElem? hs)
    refine ⟨?_, startsLine_of_readLine hline hread hl⟩
    show Span.mk l.span.start (l.span.start + l.name.utf8ByteSize) = .ofChars l.span.start _
    rw [Span.ofChars, ← utf8ByteSize_ofList, String.ofList_toList]

theorem lines_ofProgram :
    (ofProgram (readSource cs).statements (some (.ofText cs))).lineTable =
      some ⟨(nonblankNumbers cs).toArray, .ofText cs⟩ := by
  rw [← map_lineOf_statements]
  rfl

theorem lineOf?_ofProgram (a : Nat) :
    (ofProgram (readSource cs).statements (some (.ofText cs))).lineOf? a =
      (nonblankNumbers cs)[a]? := by
  rw [lineOf?, lines_ofProgram]
  exact List.getElem?_toArray

/-- The lines increase, so the search for one of them finds it. -/
theorem addressOfLine?_ofProgram (x a : Nat) :
    (ofProgram (readSource cs).statements (some (.ofText cs))).addressOfLine? x = some a ↔
      (nonblankNumbers cs)[a]? = some x := by
  rw [addressOfLine?, lines_ofProgram]
  have hascending : Ascending (nonblankNumbers cs).toArray := List.pairwise_findIdxs
  rw [← List.getElem?_toArray]
  constructor
  · intro h
    obtain ⟨hget, ha⟩ := Option.ite_none_right_eq_some.1 h
    rw [← Option.some.inj ha]
    exact hget
  · intro h
    show (if _ then some _ else none) = _
    rw [hascending.find h, if_pos h]

theorem numbers_ofProgram :
    (ofProgram (readSource cs).statements (some (.ofText cs))).Numbers cs
      (readSource cs).statements.length := by
  have hcount : (nonblankNumbers cs).length = (readSource cs).statements.length := by
    rw [← map_lineOf_statements, List.length_map]
  -- What the search finds is the number of a line that holds more than blanks.
  have hnone : ∀ x, x ∉ nonblankNumbers cs →
      (ofProgram (readSource cs).statements (some (.ofText cs))).addressOfLine? x = none :=
    fun x hx => Option.eq_none_iff_forall_not_mem.2 fun a ha =>
      hx (List.mem_of_getElem? ((addressOfLine?_ofProgram x a).1 ha))
  refine ⟨hcount, lineOf?_ofProgram, fun a b x y hab hx hy => ?_, fun x a => ?_,
    fun x l hl hblank => hnone x fun hx => ?_, fun x hx => hnone x fun hmem => ?_, fun a ha => ?_⟩
  · rw [lineOf?_ofProgram] at hx hy
    obtain ⟨ha, rfl⟩ := List.getElem?_eq_some_iff.1 hx
    obtain ⟨hb, rfl⟩ := List.getElem?_eq_some_iff.1 hy
    exact List.pairwise_iff_getElem.1 List.pairwise_findIdxs a b ha hb hab
  · rw [lineOf?_ofProgram]
    exact addressOfLine?_ofProgram x a
  · obtain ⟨k, hk, hnot⟩ := (mem_nonblankNumbers cs).1 hx
    obtain rfl := Option.some.inj (hl.symm.trans hk)
    rw [hblank] at hnot
    cases hnot
  · obtain ⟨k, hk, -⟩ := (mem_nonblankNumbers cs).1 hmem
    rw [List.getElem?_eq_none hx] at hk
    cases hk
  · rw [lineOf?_ofProgram]
    exact List.getElem?_eq_none (by omega)

end Text

/-- The symbol table of a source and the source say the same. Names and addresses belong together as
in the statements, whatever the order of the entries; a label has the place where its line starts;
the statements have the lines that hold more than blanks, in order, and the search for a line gives
the statement on it and none for any other line. Without the source, the table has the same labels. -/
theorem matches_source {source : String} {ss : List Statement} {t : SymbolTable}
    (hread : statements? source.toList = .ok ss)
    (hbuild : build ss (some (.ofText source.toList)) = .ok t) :
    t.Names ss ∧ t.Places source.toList ∧ t.Numbers source.toList ss.length ∧
      ∃ u, build ss none = .ok u ∧ t.SameLabels u := by
  obtain ⟨-, rfl⟩ := statements?_eq_ok_iff.1 hread
  obtain ⟨hfaults, rfl⟩ := build_eq_ok_iff.1 hbuild
  have hs := @spanned_of_mem_statements source.toList
  have hwell : WellFormed (readSource source.toList).statements :=
    (programFaults_eq_nil_iff _).1 ((surveyFaults_eq hs).symm.trans hfaults)
  exact ⟨names_ofProgram hs hwell.labels, places_ofProgram, numbers_ofProgram,
    _, build_eq_ok_iff.2 ⟨hfaults, rfl⟩, rfl, rfl, rfl⟩

/-- Two statements, with blank lines before, between and behind them. -/
theorem matches_source_blanks :
    let source := "\nx add 1 2 1\n \n\tbeq 0 0 x\n"
    ∃ ss t, statements? source.toList = .ok ss ∧
      build ss (some (.ofText source.toList)) = .ok t ∧
      t.labelAt? 0 = some "x" ∧ t.addressOf? "x" = some 0 ∧
      t.lineOf? 0 = some 1 ∧ t.lineOf? 1 = some 3 ∧
      t.addressOfLine? 3 = some 1 ∧ t.addressOfLine? 2 = none := by
  intro source
  have hread : statements? source.toList = .ok (readSource source.toList).statements :=
    statements?_eq_ok_iff.2 ⟨by decide +kernel, rfl⟩
  have hfaults : surveyFaults (readSource source.toList).statements
      (survey (readSource source.toList).statements) = [] := by
    rw [surveyFaults_eq spanned_of_mem_statements]
    decide +kernel
  have hbuild := build_eq_ok_iff.2
    ⟨hfaults, rfl (a := ofProgram _ (some (.ofText source.toList)))⟩
  obtain ⟨hnames, -, hnumbers, -⟩ := matches_source hread hbuild
  have hlines : nonblankNumbers source.toList = [1, 3] := by decide +kernel
  have hlabel : (ofProgram (readSource source.toList).statements
      (some (.ofText source.toList))).labelAt? 0 = some "x" := by decide +kernel
  have hline : ∀ a, _ = [1, 3][a]? := fun a => hlines ▸ hnumbers.line a
  have hblank : (lines source.toList)[2]?.map Line.isBlank = some true := by decide +kernel
  obtain ⟨l, hl, hl'⟩ := Option.map_eq_some_iff.1 hblank
  exact ⟨_, _, hread, hbuild, hlabel, (hnames.address "x" 0).2 ((hnames.label "x" 0).1 hlabel),
    hline 0, hline 1, (hnumbers.address 3 1).2 (hline 1),
    hnumbers.blank 2 l hl hl'⟩

end SymbolTable

end SolMachine.Assembly
