import SolMachine.Proofs.TraceLines

/-!
# The state blocks of a trace

* `Trace.blockCount` : the number of state blocks in a text, by the lines that open one;
  `Trace.blockCount_unlines` : in the text of some lines, it is the number of those lines;
* `count_dumpLines`, `count_stateLines`, `count_haltLines` : the blocks in each part of a trace.
-/

namespace SolMachine.Trace

/-- The line that opens a state block. -/
def opening : List Char := "@@@".toList

/-- The number of state blocks in a text. -/
def blockCount (text : String) : Nat := (text.toList.splitOn '\n').count opening

section Count
variable {ls : List String}

theorem blockCount_unlines (h : ∀ l ∈ ls, OneLine l) : blockCount (unlines ls) = ls.count "@@@" := by
  induction ls with
  | nil => decide
  | cons l ls ih =>
    obtain ⟨hl, hrest⟩ := List.forall_mem_cons.1 h
    have hsame : (l.toList == opening) = (l == "@@@") := by
      rw [Bool.eq_iff_iff, beq_iff_eq, beq_iff_eq, ← String.toList_inj]
      rfl
    have hsplit : (unlines (l :: ls)).toList.splitOn '\n' =
        l.toList :: (unlines ls).toList.splitOn '\n' := by
      rw [unlines_cons, String.toList_append, String.toList_append]
      refine (List.splitOn_append_cons_self _ _).trans ?_
      rw [List.splitOn_eq_singleton hl]
      rfl
    rw [blockCount, hsplit, List.count_cons, List.count_cons, hsame, ← ih hrest]
    rfl

theorem ne_opening_of_mem {l : String} {c : Char} (h : c ∈ l.toList) (hc : c ≠ '@') : l ≠ "@@@" := by
  rintro rfl
  exact hc (by simpa using h)

/-- The line of a word opens no block. -/
theorem count_wordLines (before between : String) (ws : List Word) :
    (wordLines before between ws).count "@@@" = 0 := by
  refine List.count_eq_zero.2 fun hmem => ?_
  obtain ⟨i, w, hline⟩ := mem_wordLines hmem
  exact ne_opening_of_mem (c := '[') (by simp) (by decide) hline.symm

end Count

end SolMachine.Trace

namespace SolMachine

open Trace in
theorem Shown.count_lines (s : Shown) : s.lines.count "@@@" = 1 := by
  have hpc : s!"\tpc {s.pc}" ≠ "@@@" :=
    ne_opening_of_mem (c := '\t') (String.toList_append ▸ List.mem_append_left _ (by decide)) (by decide)
  have hflag : s!"\tflag: {s.flag}" ≠ "@@@" := by cases s.flag <;> decide
  unfold lines
  simp only [List.count_append, List.count_cons, List.count_nil, count_wordLines, beq_iff_eq, hpc,
    hflag]
  decide

namespace Machine
open Trace

section Parts
variable (m : Machine)

theorem count_dumpLines : m.dumpLines.count "@@@" = 0 := by
  unfold dumpLines
  rw [List.count_append, count_wordLines]
  decide

theorem count_stateLines : m.stateLines.count "@@@" = 1 := by
  unfold stateLines
  rw [List.count_append, Shown.count_lines]
  decide

/-- There are as many blocks as states. -/
theorem count_flatMap_stateLines (ks : List Machine) :
    (ks.flatMap stateLines).count "@@@" = ks.length := by
  induction ks with
  | nil => rfl
  | cons k ks ih =>
    rw [List.flatMap_cons, List.count_append, count_stateLines, ih, List.length_cons, Nat.add_comm]

theorem count_haltLines : m.haltLines.count "@@@" = 2 := by
  have hcount : s!"total of {m.executed.toNat} instructions executed" ≠ "@@@" :=
    ne_opening_of_mem (c := 'i') (String.toList_append ▸ List.mem_append_right _ (by decide)) (by decide)
  unfold haltLines
  simp only [List.count_append, List.count_cons, List.count_nil, Shown.count_lines, beq_iff_eq, hcount]
  decide

end Parts

end Machine

end SolMachine
