import SolMachine.Proofs.Shifting

/-!
# Texts are read line by line

* `lines_induction` : texts by their lines: one line, or a line, a line feed and another text;
* `readLine_alone` : a line is read as it is at the start of a text, further down;
* `LineByLine`, `readSource_lineByLine` : a text is read as each of its lines is when it is all of a
  text;
* `ReadApart`, `readSource_apart` : two texts with a line feed between them are read apart.
-/

namespace SolMachine.Text

/-! ## Lines -/

/-- A text is one line, or a line, a line feed and another text. -/
@[elab_as_elim]
theorem lines_induction {motive : List Char → Prop} (line : ∀ cs, '\n' ∉ cs → motive cs)
    (feed : ∀ as bs, '\n' ∉ as → motive bs → motive (as ++ '\n' :: bs)) (cs : List Char) :
    motive cs := by
  by_cases h : '\n' ∈ cs
  · obtain ⟨as, bs, hcs, has⟩ := List.eq_append_cons_of_mem h
    rw [hcs]
    exact feed as bs has (lines_induction line feed bs)
  · exact line cs h
termination_by cs.length
decreasing_by
  rw [hcs, List.length_append, List.length_cons]
  omega

theorem lines_of_newline_not_mem {cs : List Char} (h : '\n' ∉ cs) : lines cs = [⟨0, cs⟩] := by
  rw [lines, List.splitOn_eq_singleton h]
  rfl

theorem newline_not_mem_of_mem_lines {cs : List Char} : ∀ l ∈ lines cs, '\n' ∉ l.chars := by
  induction cs using lines_induction with
  | line cs h =>
    rw [lines_of_newline_not_mem h]
    exact List.forall_mem_singleton.2 h
  | feed as bs has ih =>
    rw [lines_append, lines_of_newline_not_mem has]
    refine List.forall_mem_cons.2 ⟨has, fun l hl => ?_⟩
    obtain ⟨k, hk, rfl⟩ := List.mem_map.1 hl
    exact ih k hk

end SolMachine.Text

namespace SolMachine.Assembly
open SolMachine.Text

/-! ## Reading -/

/-- A line is read as it is at the start of a text, further down. -/
theorem readLine_alone (l : Line) : readLine l = (readLine ⟨0, l.chars⟩).shift l.start :=
  readLine_shift l.start ⟨0, l.chars⟩

theorem readSource_of_newline_not_mem {cs : List Char} (h : '\n' ∉ cs) :
    readSource cs = ⟨(readLine ⟨0, cs⟩).statement.toList, (readLine ⟨0, cs⟩).faults⟩ := by
  unfold readSource
  rw [lines_of_newline_not_mem h]
  cases hread : (readLine ⟨0, cs⟩).statement <;> simp [hread]

/-- The statements and the faults of a text are those of its lines, each of which is read as if it
were all of a text. -/
structure LineByLine (cs : List Char) : Prop where
  statements : (readSource cs).statements = (lines cs).flatMap fun l =>
    (readSource l.chars).statements.map (Statement.shift l.start)
  faults : (readSource cs).faults = (lines cs).flatMap fun l =>
    (readSource l.chars).faults.map (Diagnostic.shift l.start)

theorem readSource_lineByLine (cs : List Char) : LineByLine cs := by
  have hline : ∀ l ∈ lines cs, readSource l.chars =
      ⟨(readLine ⟨0, l.chars⟩).statement.toList, (readLine ⟨0, l.chars⟩).faults⟩ :=
    fun l hl => readSource_of_newline_not_mem (newline_not_mem_of_mem_lines l hl)
  constructor
  · change ((lines cs).map readLine).filterMap LineResult.statement = _
    rw [List.filterMap_map, List.filterMap_eq_flatMap_toList]
    refine List.flatMap_congr fun l hl => ?_
    rw [hline l hl, Function.comp_apply, readLine_alone l]
    exact Option.toList_map ..
  · change ((lines cs).map readLine).flatMap LineResult.faults = _
    rw [List.flatMap_map]
    refine List.flatMap_congr fun l hl => ?_
    rw [hline l hl, readLine_alone l]
    rfl

/-- What two texts with a line feed between them give: what the first one gives, and then what the
second one gives, all of it as far down as the second one stands. -/
structure ReadApart (a b : String) : Prop where
  statements : (readSource (a ++ "\n" ++ b).toList).statements =
    (readSource a.toList).statements ++
      (readSource b.toList).statements.map (Statement.shift (a.utf8ByteSize + 1))
  faults : (readSource (a ++ "\n" ++ b).toList).faults =
    (readSource a.toList).faults ++
      (readSource b.toList).faults.map (Diagnostic.shift (a.utf8ByteSize + 1))
  /-- What a line gives is the same whatever the other lines are. -/
  lineByLine : LineByLine (a ++ "\n" ++ b).toList
  /-- The whole has statements if both texts do. -/
  accepted : (∃ ss, statements? (a ++ "\n" ++ b).toList = .ok ss) ↔
    (∃ ss, statements? a.toList = .ok ss) ∧ ∃ ts, statements? b.toList = .ok ts

theorem exists_statements?_iff {cs : List Char} :
    (∃ ss, statements? cs = .ok ss) ↔ (readSource cs).faults = [] := by
  simp [statements?_eq_ok_iff]

/-- Two texts with a line feed between them are read apart. -/
theorem readSource_apart (a b : String) : ReadApart a b := by
  have hread := readSource_append a.toList b.toList
  rw [← toList_joined, byteLength_toList] at hread
  refine ⟨by rw [hread], by rw [hread], readSource_lineByLine _, ?_⟩
  simp only [exists_statements?_iff, hread, List.append_eq_nil_iff, List.map_eq_nil_iff]

end SolMachine.Assembly
