import SolMachine.Proofs.Marks
import SolMachine.Proofs.MovedFaults
import SolMachine.Proofs.WrittenFields

/-!
# Layout and comments

* `Line.content` : what of a line counts: whether it begins with a blank, and the characters of its
  fields up to the last one that an operation looks at;
* `packed`, `readPacked` : the same fields with one byte between them, and what is read from them;
* `exists_spread` : fields that stand apart are packed fields that are moved, in order;
* `exists_readSource` : every text is read like its packed fields, elsewhere;
* `layout_does_not_count` : texts with the same content give the same statements and words, or the
  same problems in the same order.
-/

namespace SolMachine.Assembly
open SolMachine.Text

/-! ## The fields that count -/

/-- The number of operands that are looked at behind the mnemonic in a field. -/
def operandPositions (f : Field) : Nat :=
  match Mnemonic.ofName? f.text with
  | none => 0
  | some m => m.operands.length

/-- The mnemonic and the fields of its operands. -/
def countedBody : List Field → List Field
  | [] => []
  | f :: rest => f :: rest.take (operandPositions f)

/-- The label of a line that has one, the mnemonic, and the fields of its operands. -/
def counted : Bool → List Field → List Field
  | true, first :: rest => first :: countedBody rest
  | _, fs => countedBody fs

/-- The fields of a line that count. -/
def Line.counted (l : Line) : List Field := Assembly.counted (hasLabel l) (fields l)

/-- What of a line counts: whether its first character is no blank, and the characters of the fields
that count. -/
def Line.content (l : Line) : Bool × List (List Char) := (hasLabel l, (Line.counted l).map Field.chars)

/-- What of the lines of a text counts; blank lines do not. -/
def contents (cs : List Char) : List (Bool × List (List Char)) := (nonblankLines cs).map Line.content

section Counted
variable (fs : List Field)

theorem readBody_take (label : Option Label) (f : Field) :
    readBody label f (fs.take (operandPositions f)) = readBody label f fs := by
  unfold readBody operandPositions
  cases Mnemonic.ofName? f.text with
  | none => rfl
  | some m =>
    dsimp only
    rw [List.take_take, Nat.min_self]

theorem readRest_countedBody (first : Field) (label : Option Label) (faults : List Diagnostic) :
    readRest first label faults (countedBody fs) = readRest first label faults fs := by
  cases fs with
  | nil => rfl
  | cons f rest =>
    unfold countedBody readRest
    dsimp only
    rw [readBody_take]

/-- Fields that do not count are not read. -/
theorem readFields_counted (labelled : Bool) :
    readFields labelled (counted labelled fs) = readFields labelled fs := by
  cases fs with
  | nil => cases labelled <;> rfl
  | cons first rest =>
    cases labelled with
    | false => exact readRest_countedBody (first :: rest) first none []
    | true =>
      unfold counted readFields
      dsimp only
      rw [if_pos rfl, if_pos rfl]
      cases readLabel first with
      | ok label => exact readRest_countedBody rest first (some label) []
      | error d => exact readRest_countedBody rest first none [d]

theorem counted_sublist (labelled : Bool) : (counted labelled fs).Sublist fs := by
  have hbody : ∀ fs, (countedBody fs).Sublist fs := fun fs => by
    cases fs with
    | nil => exact .slnil
    | cons f rest => exact (List.take_sublist _ rest).cons_cons f
  cases fs with
  | nil => cases labelled <;> exact .slnil
  | cons first rest =>
    cases labelled with
    | false => exact hbody (first :: rest)
    | true => exact (hbody rest).cons_cons first

end Counted

theorem readLine_eq_counted (l : Line) :
    readLine l = readFields (hasLabel l) (Line.counted l) := by
  rw [Line.counted, readFields_counted, readLine_eq]

/-! ## Fields stand apart -/

/-- There is at least a byte between the one field and the other. -/
def Apart (f g : Field) : Prop := f.span.stop < g.start

/-- The fields of a text stand in it. -/
theorem marks_of_mem_splitFields (pos : Nat) (cs : List Char) :
    ∀ f ∈ splitFields pos cs, f.span.Marks pos cs f.chars := by
  induction pos, cs using splitFields.induct with
  | case1 pos cs h =>
    rw [splitFields_eq, h]
    exact List.forall_mem_nil _
  | case2 pos cs c rest h start word ih =>
    have hcs : cs = cs.takeWhile isBlank ++ word ++ rest.dropWhile fun d => !isBlank d := by
      have hword : word ++ rest.dropWhile (fun d => !isBlank d) = c :: rest :=
        congrArg (c :: ·) List.takeWhile_append_dropWhile
      rw [List.append_assoc, hword, ← h, List.takeWhile_append_dropWhile]
    rw [splitFields_eq, h]
    refine List.forall_mem_cons.2 ⟨⟨_, _, hcs, rfl⟩, fun f hf => ?_⟩
    -- The other fields stand in what comes behind the first one.
    have hbehind : (Span.ofChars (start + byteLength word) _).Marks pos cs _ :=
      ⟨_, [], hcs.trans (List.append_nil _).symm, by rw [byteLength_append, ← Nat.add_assoc]⟩
    exact hbehind.inside (ih f hf)

theorem mem_splitFields_bounds (pos : Nat) (cs : List Char) :
    ∀ f ∈ splitFields pos cs, pos ≤ f.start ∧ f.span.stop ≤ pos + byteLength cs := by
  intro f hf
  obtain ⟨hstart, -, hstop⟩ := (marks_of_mem_splitFields pos cs f hf).bounds
  exact ⟨hstart, hstop⟩

/-- The fields of a text that does not begin with a field are behind its start. -/
theorem lt_start_of_mem_splitFields {pos : Nat} {cs : List Char} (h : ∀ c ∈ cs.head?, isBlank c) :
    ∀ f ∈ splitFields pos cs, pos < f.start := by
  intro f hf
  cases cs with
  | nil =>
    rw [(splitFields_eq_nil_iff pos []).2 rfl] at hf
    cases hf
  | cons c cs =>
    rw [splitFields_blank (h c rfl)] at hf
    have hpos := c.utf8Size_pos
    have hle := (mem_splitFields_bounds _ cs f hf).1
    omega

/-- The fields of a text stand apart. -/
theorem pairwise_splitFields (pos : Nat) (cs : List Char) :
    (splitFields pos cs).Pairwise Apart := by
  induction pos, cs using splitFields.induct with
  | case1 pos cs h =>
    rw [splitFields_eq, h]
    exact .nil
  | case2 pos cs c rest h start word ih =>
    have hhead : ∀ d ∈ (rest.dropWhile fun d => !isBlank d).head?, isBlank d := fun d hd => by
      have hnot := List.head?_dropWhile_not (fun d => !isBlank d) rest
      rw [Option.mem_def.1 hd] at hnot
      simpa using hnot
    rw [splitFields_eq, h]
    exact List.pairwise_cons.2 ⟨lt_start_of_mem_splitFields hhead, ih⟩

theorem pairwise_locate (base : Nat) (ls : List (List Char)) :
    (∀ l ∈ locate base ls, base ≤ l.start) ∧
      (locate base ls).Pairwise fun l k => l.stop < k.start := by
  induction ls generalizing base with
  | nil => exact ⟨List.forall_mem_nil _, .nil⟩
  | cons cs ls ih =>
    obtain ⟨hstart, hpair⟩ := ih (base + byteLength cs + 1)
    rw [locate]
    refine ⟨fun l hl => ?_, List.pairwise_cons.2 ⟨fun l hl => ?_, hpair⟩⟩
    · rcases List.mem_cons.1 hl with rfl | hl
      · exact Nat.le_refl base
      · have := hstart l hl
        omega
    · exact hstart l hl

/-- The fields of a text that count stand apart. -/
theorem pairwise_counted (cs : List Char) :
    ((nonblankLines cs).flatMap Line.counted).Pairwise Apart := by
  have hin : ∀ l : Line, ∀ f ∈ Line.counted l, l.start ≤ f.start ∧ f.span.stop ≤ l.stop :=
    fun l f hf => mem_splitFields_bounds _ _ f ((counted_sublist (fields l) _).subset hf)
  rw [List.pairwise_flatMap]
  refine ⟨fun l _ => ?_, ?_⟩
  · exact (pairwise_splitFields l.start l.chars).sublist (counted_sublist (fields l) _)
  · refine ((pairwise_locate 0 (cs.splitOn '\n')).2.filter _).imp fun {l k} hlk f hf g hg => ?_
    have hl := (hin l f hf).2
    have hk := (hin k g hg).1
    exact Nat.lt_of_le_of_lt hl (Nat.lt_of_lt_of_le hlk hk)

/-! ## Packed fields -/

/-- Fields one behind the other from byte `c` on, with one byte between them. -/
def packed (c : Nat) : List (List Char) → List Field
  | [] => []
  | w :: ws => ⟨c, w⟩ :: packed (c + byteLength w + 1) ws

/-- Reads lines whose fields are packed from byte `c` on. -/
def readPacked (c : Nat) : List (Bool × List (List Char)) → List LineResult
  | [] => []
  | (labelled, ws) :: rest =>
    readFields labelled (packed c ws) :: readPacked (c + byteLengthOfLines ws) rest

theorem le_start_of_mem_packed {c : Nat} {ws : List (List Char)} :
    ∀ f ∈ packed c ws, c ≤ f.start := by
  induction ws generalizing c with
  | nil => exact List.forall_mem_nil _
  | cons w ws ih =>
    intro f hf
    rcases List.mem_cons.1 hf with rfl | hf
    · exact Nat.le_refl c
    · have := ih f hf
      omega

theorem length_packed (c : Nat) (ws : List (List Char)) : (packed c ws).length = ws.length := by
  induction ws generalizing c with
  | nil => rfl
  | cons w ws ih => rw [packed, List.length_cons, ih, List.length_cons]

theorem packed_append (c : Nat) (ws vs : List (List Char)) :
    packed c (ws ++ vs) = packed c ws ++ packed (c + byteLengthOfLines ws) vs := by
  induction ws generalizing c with
  | nil => rfl
  | cons w ws ih =>
    have hnext : c + byteLength w + 1 + byteLengthOfLines ws = c + byteLengthOfLines (w :: ws) := by
      show _ = c + (byteLength w + 1 + byteLengthOfLines ws)
      omega
    rw [List.cons_append, packed, packed, ih, hnext, List.cons_append]

/-- Bytes before byte `c` stay, those of a field at `c` go to the field `f`, and `ψ` moves the others. -/
def graft (c : Nat) (f : Field) (ψ : Nat → Nat) (p : Nat) : Nat :=
  if p < c then p else if p ≤ c + byteLength f.chars then f.start + (p - c) else ψ p

section Graft
variable {c : Nat} {f : Field} {ψ : Nat → Nat}

theorem graft_of_le {i : Nat} (hi : i ≤ byteLength f.chars) : graft c f ψ (c + i) = f.start + i := by
  unfold graft
  rw [if_neg (by omega), if_pos (by omega), Nat.add_sub_cancel_left]

theorem graft_of_lt {p : Nat} (hp : c + byteLength f.chars < p) : graft c f ψ p = ψ p := by
  unfold graft
  rw [if_neg (by omega), if_neg (by omega)]

theorem strictMono_graft (hψ : StrictMono ψ) (hc : c ≤ f.start)
    (hstop : f.span.stop < ψ (c + byteLength f.chars + 1)) : StrictMono (graft c f ψ) := by
  have hspan : f.span.stop = f.start + byteLength f.chars := rfl
  refine strictMono_nat_of_lt_succ fun p => ?_
  have hnext := hψ (Nat.lt_succ_self p)
  unfold graft
  by_cases hlast : p = c + byteLength f.chars
  · subst hlast
    rw [if_neg (by omega), if_pos (by omega), if_neg (by omega), if_neg (by omega)]
    omega
  · repeat' split
    all_goals omega

end Graft

/-- Fields that stand apart are packed fields, moved in order. -/
theorem exists_spread {fs : List Field} {b c : Nat} (hapart : fs.Pairwise Apart)
    (hb : ∀ f ∈ fs, b ≤ f.start) (hc : c ≤ b) :
    ∃ φ : Nat → Nat, StrictMono φ ∧ b ≤ φ c ∧
      (packed c (fs.map Field.chars)).map (Field.move φ) = fs ∧
      ∀ f ∈ packed c (fs.map Field.chars), Steady φ f := by
  induction fs generalizing b c with
  | nil =>
    refine ⟨fun p => p + (b - c), fun p q hpq => Nat.add_lt_add_right hpq _, ?_, rfl,
      List.forall_mem_nil _⟩
    show b ≤ c + (b - c)
    omega
  | cons f fs ih =>
    obtain ⟨hfirst, hrest⟩ := List.pairwise_cons.1 hapart
    have hbf : b ≤ f.start := hb f (List.mem_cons_self ..)
    have hnext : c + byteLength f.chars + 1 ≤ f.span.stop + 1 := by
      show _ ≤ f.start + byteLength f.chars + 1
      omega
    obtain ⟨ψ, hψ, hstop, hmoved, hsteady⟩ := ih hrest hfirst hnext
    have hstart : graft c f ψ c = f.start := graft_of_le (i := 0) (Nat.zero_le _)
    -- The other packed fields are behind the first one, where `ψ` moves them.
    have hbehind : ∀ g ∈ packed (c + byteLength f.chars + 1) (fs.map Field.chars),
        ∀ i, graft c f ψ (g.start + i) = ψ (g.start + i) := fun g hg i => by
      have := le_start_of_mem_packed g hg
      exact graft_of_lt (by omega)
    refine ⟨graft c f ψ, strictMono_graft hψ (Nat.le_trans hc hbf) hstop, by rwa [hstart], ?_, ?_⟩
    · rw [List.map_cons, packed, List.map_cons]
      congr 1
      · unfold Field.move
        rw [hstart]
      · refine Eq.trans (List.map_congr_left fun g hg => ?_) hmoved
        exact congrArg (Field.mk · g.chars) (hbehind g hg 0)
    · intro g hg i hi
      rcases List.mem_cons.1 hg with rfl | hg
      · show graft c f ψ (c + i) = graft c f ψ c + i
        rw [hstart]
        exact graft_of_le hi
      · have hzero : graft c f ψ g.start = ψ g.start := hbehind g hg 0
        rw [hbehind g hg, hzero]
        exact hsteady g hg i hi

/-! ## Reading packed fields -/

theorem readPacked_move (ls : List (Bool × List Field)) {φ : Nat → Nat} {c : Nat}
    (hmoved : (packed c (ls.flatMap fun l => l.2.map Field.chars)).map (Field.move φ) =
      ls.flatMap Prod.snd)
    (hsteady : ∀ f ∈ packed c (ls.flatMap fun l => l.2.map Field.chars), Steady φ f) :
    (ls.map fun l => readFields l.1 l.2) =
      (readPacked c (ls.map fun l => (l.1, l.2.map Field.chars))).map (LineResult.move φ) := by
  induction ls generalizing c with
  | nil => rfl
  | cons l ls ih =>
    rw [List.flatMap_cons, packed_append] at hmoved hsteady
    rw [List.map_append, List.flatMap_cons] at hmoved
    obtain ⟨hfirst, hrest⟩ := List.append_inj hmoved (by
      rw [List.length_map, length_packed, List.length_map])
    obtain ⟨hsfirst, hsrest⟩ := List.forall_mem_append.1 hsteady
    have hl := readFields_move hsfirst l.1
    rw [hfirst] at hl
    rw [List.map_cons, List.map_cons, readPacked, List.map_cons, ← ih hrest hsrest, hl]

/-- What is read from the lines of a text. -/
def gather (rs : List LineResult) : SourceResult :=
  ⟨rs.filterMap LineResult.statement, rs.flatMap LineResult.faults⟩

theorem gather_move (φ : Nat → Nat) (rs : List LineResult) :
    gather (rs.map (LineResult.move φ)) = (gather rs).move φ := by
  unfold gather SourceResult.move
  dsimp only
  rw [List.filterMap_map, List.flatMap_map, List.map_filterMap, List.map_flatMap]
  rfl

/-- Blank lines give nothing. -/
theorem readSource_eq_gather (cs : List Char) :
    readSource cs = gather ((nonblankLines cs).map readLine) := by
  show gather ((lines cs).map readLine) = _
  unfold nonblankLines
  induction lines cs with
  | nil => rfl
  | cons l ls ih =>
    unfold gather at ih ⊢
    obtain ⟨hstatements, hfaults⟩ := SourceResult.mk.inj ih
    rw [List.filter_cons, List.map_cons, List.filterMap_cons, List.flatMap_cons]
    cases hl : l.isBlank with
    | true =>
      rw [readLine_of_isBlank hl]
      exact ih
    | false =>
      rw [hstatements, hfaults]
      rfl

/-- A text is read like its packed fields, elsewhere. -/
theorem exists_readSource (cs : List Char) :
    ∃ φ : Nat → Nat, StrictMono φ ∧ readSource cs = (gather (readPacked 0 (contents cs))).move φ := by
  obtain ⟨φ, hφ, -, hmoved, hsteady⟩ := exists_spread (b := 0) (c := 0) (pairwise_counted cs)
    (fun f _ => Nat.zero_le f.start) (Nat.le_refl 0)
  rw [List.map_flatMap] at hmoved hsteady
  have hread := readPacked_move ((nonblankLines cs).map fun l => (hasLabel l, Line.counted l))
    (by rw [List.flatMap_map, List.flatMap_map]; exact hmoved)
    (by rw [List.flatMap_map]; exact hsteady)
  rw [List.map_map, List.map_map] at hread
  have hlines : (nonblankLines cs).map readLine =
      (readPacked 0 (contents cs)).map (LineResult.move φ) :=
    (List.map_congr_left fun l _ => readLine_eq_counted l).trans hread
  exact ⟨φ, hφ, by rw [readSource_eq_gather, hlines, gather_move]⟩

/-! ## Texts with the same content -/

/-- What `statements?` gives for a text, without the places. -/
theorem statements?_of_move {cs : List Char} {r : SourceResult} {φ : Nat → Nat} (hφ : StrictMono φ)
    (h : readSource cs = r.move φ) :
    ((statements? cs).map (List.map Statement.unplaced)).mapError Diagnostics.problems =
      if r.faults = [] then .ok (r.statements.map Statement.unplaced)
      else .error (Diagnostics.ofList r.faults).problems := by
  have hempty : (r.move φ).faults.isEmpty ↔ r.faults = [] := by
    rw [List.isEmpty_iff]
    exact List.map_eq_nil_iff
  unfold statements?
  rw [h]
  by_cases hfaults : r.faults = []
  · rw [if_pos hfaults]
    dsimp only
    rw [if_pos (hempty.2 hfaults)]
    exact congrArg Except.ok (map_unplaced_move r.statements)
  · rw [if_neg hfaults]
    dsimp only
    rw [if_neg (mt hempty.1 hfaults)]
    exact congrArg Except.error (SourceResult.problems_move hφ r.faults)

/-- Layout and comments do not count. Texts whose lines that are not blank have the same fields up to
the last one that counts, and begin with a blank or not alike, give the same statements but for places,
or the same problems in the same order; and they are assembled to the same words, or have the same
problems in the same order. -/
theorem layout_does_not_count {s t : String} (h : contents s.toList = contents t.toList)
    (debug debug' : Bool) :
    ((statements? s.toList).map (List.map Statement.unplaced)).mapError Diagnostics.problems =
      ((statements? t.toList).map (List.map Statement.unplaced)).mapError Diagnostics.problems ∧
    ((assemble s debug).map Program.words).mapError Diagnostics.problems =
      ((assemble t debug').map Program.words).mapError Diagnostics.problems := by
  obtain ⟨φ, hφ, hs⟩ := exists_readSource s.toList
  obtain ⟨ψ, hψ, ht⟩ := exists_readSource t.toList
  rw [← h] at ht
  refine ⟨?_, ?_⟩
  · rw [statements?_of_move hφ hs, statements?_of_move hψ ht]
  · rw [assemble_outcome, assemble_outcome, hs, ht, SourceResult.outcome_move _ hφ,
      SourceResult.outcome_move _ hψ]

/-- Other blanks, a blank line less, carriage returns and no comments. The label is defined twice; that
problem has the place of the first definition, before all others. -/
theorem layout_does_not_count_duplicate :
    let s := "x lw 1 2 y ; far\n\nx add 0 1 99z more\n foo 1 2"
    let t := "x  lw\t1 2 y\r\nx\tadd  0 1 99z\r\n\tfoo"
    let problems : List Problem := [.duplicateLabel, .lexical .badNumeral, .unknownMnemonic]
    contents s.toList = contents t.toList ∧
      ((assemble s false).map Program.words).mapError Diagnostics.problems = .error problems ∧
      ((assemble t true).map Program.words).mapError Diagnostics.problems = .error problems := by
  intro s t problems
  have h : contents s.toList = contents t.toList := by decide +kernel
  have hs : ((assemble s false).map Program.words).mapError Diagnostics.problems =
      .error problems := by
    let bad : Diagnostic := .of (.lexical .badNumeral) ⟨28, 31⟩
    let unknown : Diagnostic := .of .unknownMnemonic ⟨38, 41⟩
    let duplicate : Diagnostic := ⟨.duplicateLabel, ⟨⟨0, 1⟩, some ⟨18, 19⟩⟩⟩
    have hfaults : (readSource s.toList).faults = [bad, unknown] := by decide +kernel
    have hprogram : programFaults (readSource s.toList).statements = [duplicate] := by
      decide +kernel
    have hearly : (readSource s.toList).earlyFaults = [bad, unknown, duplicate] := by
      unfold SourceResult.earlyFaults Diagnostics.sort
      rw [hfaults, hprogram, List.mergeSort_singleton]
      rfl
    have hsort : Diagnostics.sort [bad, unknown, duplicate] = [duplicate, bad, unknown] := by
      have h : duplicate.start < bad.start ∧ bad.start < unknown.start := by decide
      unfold Diagnostics.sort
      simp [List.mergeSort, h, Nat.le_of_lt]
    rw [assemble_outcome, SourceResult.outcome, hearly, if_pos (List.cons_ne_nil _ _),
      Diagnostics.ofList, hsort]
    rfl
  exact ⟨h, hs, (layout_does_not_count h false true).2.symm.trans hs⟩

end SolMachine.Assembly
