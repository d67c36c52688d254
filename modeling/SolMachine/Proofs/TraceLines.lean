import SolMachine.Machine.Trace
import SolMachine.Proofs.Decimals

/-!
# The lines of a trace

What a trace consists of, line by line, without the functions that write it.

* `Trace.unlines` : the text of some lines; `Trace.OneLine` : texts that are one line;
* `Trace.wordLines` : a line for each word;
* `Shown` : what a trace shows of a machine; `Shown.lines` : the lines of a state block;
* `Machine.dumpLines`, `Machine.stateLines`, `Machine.haltLines` : the lines of memory, of a state, and of a
  machine that halts; `oneLine_dumpLines`, `oneLine_stateLines`, `oneLine_haltLines` : none of them has a
  line feed in it;
* `memoryText_eq_unlines`, `join_stateText`, `haltText_eq_unlines` : just those lines are written.
-/

namespace SolMachine

namespace Trace

/-- The text of some lines, each of which is closed by a line feed. -/
def unlines (lines : List String) : String := String.join (lines.map fun l => l ++ "\n")

/-- A text without a line feed. -/
def OneLine (text : String) : Prop := '\n' ∉ text.toList

instance : DecidablePred OneLine := fun text =>
  inferInstanceAs (Decidable ('\n' ∉ text.toList))

/-- A line for each word, with its number, counted from 0, and its value. -/
def wordLines (before between : String) (words : List Word) : List String :=
  words.mapIdx fun i w => s!"{before}[ {i} ]{between}{w.toInt}"

section Lines
variable {l s t : String} {ls ks : List String}

theorem unlines_nil : unlines [] = "" := rfl

theorem unlines_cons : unlines (l :: ls) = l ++ ("\n" ++ unlines ls) := by
  unfold unlines
  rw [List.map_cons, String.join_cons, String.append_assoc]

theorem unlines_append : unlines (ls ++ ks) = unlines ls ++ unlines ks := by
  unfold unlines
  rw [List.map_append, String.join_append]

theorem oneLine_append : OneLine (s ++ t) ↔ OneLine s ∧ OneLine t := by
  unfold OneLine
  rw [String.toList_append, List.mem_append, not_or]

theorem oneLine_repr (n : Nat) : OneLine (Nat.repr n) := by
  intro hmem
  exact absurd (Decimal.isDigit_of_mem_repr _ hmem) (by decide)

theorem oneLine_write (n : Int) : OneLine (Decimal.write n) := by
  intro hmem
  exact absurd (Decimal.mem_write hmem) (by decide)

theorem mem_wordLines {before between : String} {ws : List Word} (h : l ∈ wordLines before between ws) :
    ∃ i, ∃ w : Word, l = before ++ "[ " ++ Nat.repr i ++ " ]" ++ between ++ Decimal.write w.toInt := by
  obtain ⟨i, hi, rfl⟩ := List.mem_mapIdx.1 h
  refine ⟨i, ws[i], ?_⟩
  rw [Decimal.write_eq_toString]
  rfl

theorem oneLine_wordLines {before between : String} (hbefore : OneLine before)
    (hbetween : OneLine between) (ws : List Word) : ∀ l ∈ wordLines before between ws, OneLine l := by
  intro l hl
  obtain ⟨i, w, rfl⟩ := mem_wordLines hl
  simp only [oneLine_append]
  exact ⟨⟨⟨⟨⟨hbefore, by decide⟩, oneLine_repr i⟩, by decide⟩, hbetween⟩, oneLine_write w.toInt⟩

end Lines

end Trace

/-- What a trace shows of a machine. -/
structure Shown where
  pc : Nat
  memory : Memory
  registers : Registers
  stack : List Word
  flag : Bool
  deriving DecidableEq, Repr

open Trace in
/-- The lines of a state block. -/
def Shown.lines (s : Shown) : List String :=
  ["@@@", "state:", s!"\tpc {s.pc}", "\tmemory:"] ++ wordLines "\t\tmem" " " s.memory.words.toList ++
    ["\tregisters:"] ++ wordLines "\t\treg" " " s.registers.toList ++
    ["\tstack:"] ++ wordLines "\t\tst" " " s.stack ++ [s!"\tflag: {s.flag}", "end state"]

open Trace in
theorem Shown.oneLine_lines (s : Shown) : ∀ l ∈ s.lines, OneLine l := by
  have hpc : OneLine s!"\tpc {s.pc}" := oneLine_append.2 ⟨by decide, oneLine_repr s.pc⟩
  have hflag : OneLine s!"\tflag: {s.flag}" := by cases s.flag <;> decide
  have hmemory := oneLine_wordLines (by decide : OneLine "\t\tmem") (by decide : OneLine " ")
    s.memory.words.toList
  have hregisters := oneLine_wordLines (by decide : OneLine "\t\treg") (by decide : OneLine " ")
    s.registers.toList
  have hstack := oneLine_wordLines (by decide : OneLine "\t\tst") (by decide : OneLine " ") s.stack
  unfold lines
  simp only [List.forall_mem_append, List.forall_mem_cons, List.not_mem_nil, false_implies,
    implies_true, and_true, and_assoc]
  exact ⟨by decide, by decide, hpc, by decide, hmemory, by decide, hregisters, by decide, hstack, hflag,
    by decide⟩

namespace Machine
open Trace

def shown (m : Machine) : Shown := ⟨m.pc, m.memory, m.registers, m.stack.words, m.flag⟩

/-- A line for each word in memory, and two empty lines. -/
def dumpLines (m : Machine) : List String :=
  wordLines "memory" " = " m.memory.words.toList ++ ["", ""]

/-- A state block and an empty line. -/
def stateLines (m : Machine) : List String := m.shown.lines ++ [""]

/-- The state block of a machine that halts, the number of instructions that it has executed, and the
same block once more, with the program counter past the `halt`. -/
def haltLines (m : Machine) : List String :=
  m.shown.lines ++ ["machine halted", s!"total of {m.executed.toNat} instructions executed",
    "final state of machine:", ""] ++ { m.shown with pc := m.pc + 1 }.lines ++ [""]

section Parts
variable (m : Machine)

theorem oneLine_dumpLines : ∀ l ∈ m.dumpLines, OneLine l :=
  List.forall_mem_append.2 ⟨oneLine_wordLines (by decide) (by decide) _, by decide⟩

theorem oneLine_stateLines : ∀ l ∈ m.stateLines, OneLine l :=
  List.forall_mem_append.2 ⟨m.shown.oneLine_lines, by decide⟩

theorem oneLine_haltLines : ∀ l ∈ m.haltLines, OneLine l := by
  have hcount : OneLine s!"total of {m.executed.toNat} instructions executed" :=
    oneLine_append.2 ⟨oneLine_append.2 ⟨by decide, oneLine_repr _⟩, by decide⟩
  unfold haltLines
  simp only [List.forall_mem_append, List.forall_mem_cons, List.not_mem_nil, false_implies,
    implies_true, and_true, and_assoc]
  exact ⟨m.shown.oneLine_lines, by decide, hcount, by decide, by decide, Shown.oneLine_lines _, by decide⟩

theorem numbered_eq (before between : String) (words : List Word) :
    numbered before between words = unlines (wordLines before between words) := by
  unfold numbered unlines wordLines
  rw [List.mapIdx_eq_zipIdx_map, List.map_map]
  refine congrArg String.join (List.map_congr_left fun ⟨w, i⟩ _ => ?_)
  dsimp only
  rw [Decimal.write_eq_toString]
  rfl

theorem memoryText_eq_unlines : m.memoryText = unlines m.dumpLines := by
  unfold memoryText dumpLines
  rw [numbered_eq, unlines_append]
  rfl

/-- A block is written as its lines, but for the line feed at its end. -/
theorem block_append (pc : Nat) (t : String) :
    m.block pc ++ ("\n" ++ t) = unlines { m.shown with pc }.lines ++ t := by
  have hhead : "@@@\nstate:\n\tpc " = "@@@" ++ ("\n" ++ ("state:" ++ ("\n" ++ "\tpc "))) := by decide
  have hmemory : "\n\tmemory:\n" = "\n" ++ ("\tmemory:" ++ "\n") := by decide
  have hregisters : "\tregisters:\n" = "\tregisters:" ++ "\n" := by decide
  have hstack : "\tstack:\n" = "\tstack:" ++ "\n" := by decide
  have hend : "\nend state" = "\n" ++ "end state" := by decide
  have hflag : (if m.flag then "true" else "false") = toString m.flag := by cases m.flag <;> rfl
  unfold block Shown.lines
  rw [hhead, hmemory, hregisters, hstack, hend, hflag]
  simp only [numbered_eq, unlines_append, unlines_cons, unlines_nil, String.append_assoc,
    String.empty_append]
  rfl

theorem stateText_eq_unlines : m.stateText = unlines m.stateLines := by
  unfold stateText stateLines
  rw [unlines_append]
  exact m.block_append m.pc "\n"

theorem join_stateText (ks : List Machine) :
    String.join (ks.map stateText) = unlines (ks.flatMap stateLines) := by
  induction ks with
  | nil => rfl
  | cons k ks ih =>
    rw [List.map_cons, String.join_cons, List.flatMap_cons, unlines_append, stateText_eq_unlines, ih]

theorem haltText_eq_unlines : m.haltText = unlines m.haltLines := by
  have hbanner : "\nmachine halted\ntotal of " =
      "\n" ++ ("machine halted" ++ ("\n" ++ "total of ")) := by decide
  have hfinal : " instructions executed\nfinal state of machine:\n\n" =
      " instructions executed" ++ ("\n" ++ ("final state of machine:" ++ ("\n" ++ "\n"))) := by decide
  have hend : "\n\n" = "\n" ++ "\n" := by decide
  unfold haltText haltLines
  rw [hbanner, hfinal, hend]
  simp only [unlines_append, unlines_cons, unlines_nil, String.append_assoc, block_append]
  rfl

end Parts

end Machine

end SolMachine
