import SolMachine.Proofs.Moving
import SolMachine.Proofs.WrittenFields

/-!
# Lines further down in a text

* `Statement.shift`, `Diagnostic.shift` and the like : the same thing, `n` bytes further down;
* `readLine_shift` : a line that stands further down is read as the same statement and the same
  faults, further down;
* `lines_append` : the lines of two texts with a line feed between them;
* `readSource_append` : they are read apart, and the places of the second text move.
-/

namespace SolMachine.Text

def Place.shift (n : Nat) (p : Place) : Place := ⟨p.first.shift n, p.second.map (Span.shift n)⟩

def Line.shift (n : Nat) (l : Line) : Line := ⟨n + l.start, l.chars⟩

/-! ## Lines of two texts -/

theorem locate_add (n base : Nat) (ls : List (List Char)) :
    locate (n + base) ls = (locate base ls).map (Line.shift n) := by
  induction ls generalizing base with
  | nil => rfl
  | cons cs ls ih =>
    rw [locate, locate, List.map_cons, Nat.add_assoc, Nat.add_assoc, ih, Nat.add_assoc]
    rfl

/-- Each line has its characters, and one byte that ends it; the last one has no such byte. -/
theorem byteLengthOfLines_eq {ls : List (List Char)} (h : ls ≠ []) :
    byteLengthOfLines ls = byteLength (['\n'].intercalate ls) + 1 := by
  induction ls with
  | nil => exact absurd rfl h
  | cons cs ls ih =>
    cases ls with
    | nil =>
      rw [List.intercalate_singleton]
      rfl
    | cons ds ls =>
      have hfeed : byteLength ['\n'] = 1 := by decide
      have hrest := ih (List.cons_ne_nil ds ls)
      show byteLength cs + 1 + byteLengthOfLines (ds :: ls) = _
      rw [List.intercalate_cons_cons, byteLength_append, byteLength_append, hfeed, hrest]
      omega

theorem lines_append (as bs : List Char) :
    lines (as ++ '\n' :: bs) = lines as ++ (lines bs).map (Line.shift (byteLength as + 1)) := by
  have hlength : byteLengthOfLines (as.splitOn '\n') = byteLength as + 1 := by
    rw [byteLengthOfLines_eq (List.splitOn_ne_nil _ _), List.intercalate_splitOn]
  unfold lines
  rw [List.splitOn_append_cons_self, locate_append, hlength, Nat.zero_add,
    ← locate_add (byteLength as + 1) 0, Nat.add_zero]

theorem toList_joined (a b : String) : (a ++ "\n" ++ b).toList = a.toList ++ '\n' :: b.toList := by
  rw [String.toList_append, String.toList_append, List.append_assoc]
  rfl

end SolMachine.Text

namespace SolMachine.Assembly
open SolMachine.Text

/-! ## Things further down -/

def Diagnostic.shift (n : Nat) (d : Diagnostic) : Diagnostic := ⟨d.problem, d.place.shift n⟩

def Label.shift (n : Nat) (l : Label) : Label := ⟨l.name, l.span.shift n⟩

def AddressOperand.shift (n : Nat) : AddressOperand → AddressOperand
  | .int w => .int w
  | .label l => .label (l.shift n)

def Body.shift (n : Nat) : Body → Body
  | .instruction i => .instruction (i.map (AddressOperand.shift n))
  | .fill v => .fill (v.shift n)

def Statement.shift (n : Nat) (s : Statement) : Statement :=
  ⟨s.label.map (Label.shift n), s.body.shift n, s.span.shift n⟩

def LineResult.shift (n : Nat) (r : LineResult) : LineResult :=
  ⟨r.statement.map (Statement.shift n), r.faults.map (Diagnostic.shift n)⟩

/-! ## Reading a line -/

section Reading
variable (n : Nat)

theorem Diagnostic.shift_eq_move : Diagnostic.shift n = Diagnostic.move (n + ·) := rfl

theorem AddressOperand.shift_eq_move : AddressOperand.shift n = AddressOperand.move (n + ·) := by
  funext v
  cases v <;> rfl

theorem Body.shift_eq_move (b : Body) : b.shift n = b.move (n + ·) := by
  cases b with
  | fill v => exact congrArg Body.fill (congrFun (AddressOperand.shift_eq_move n) v)
  | instruction i =>
    exact congrArg (fun g => Body.instruction (i.map g)) (AddressOperand.shift_eq_move n)

theorem Statement.shift_eq_move : Statement.shift n = Statement.move (n + ·) := by
  funext s
  unfold Statement.shift Statement.move
  rw [s.body.shift_eq_move]
  rfl

theorem LineResult.shift_eq_move (r : LineResult) : r.shift n = r.move (n + ·) := by
  unfold LineResult.shift LineResult.move
  rw [Statement.shift_eq_move, Diagnostic.shift_eq_move]

theorem splitFields_add (pos : Nat) (cs : List Char) :
    splitFields (n + pos) cs = (splitFields pos cs).map (Field.move (n + ·)) := by
  induction pos, cs using splitFields.induct with
  | case1 pos cs h => rw [splitFields_eq, splitFields_eq pos, h, List.map_nil]
  | case2 pos cs c rest h start word ih =>
    have hstart : n + pos + byteLength (cs.takeWhile isBlank) = n + start := Nat.add_assoc ..
    rw [splitFields_eq, splitFields_eq pos, h]
    dsimp only
    rw [hstart, Nat.add_assoc n start, ih]
    rfl

theorem fields_shift (l : Line) : fields (l.shift n) = (fields l).map (Field.move (n + ·)) :=
  splitFields_add n l.start l.chars

theorem hasLabel_shift (l : Line) : hasLabel (l.shift n) = hasLabel l := rfl

end Reading

/-- A line further down is read as the same, further down. -/
theorem readLine_shift (n : Nat) (l : Line) : readLine (l.shift n) = (readLine l).shift n := by
  have hsteady : ∀ f ∈ fields l, Steady (n + ·) f := fun f _ i _ => (Nat.add_assoc n f.start i).symm
  rw [readLine_eq, readLine_eq, fields_shift, hasLabel_shift, readFields_move hsteady,
    LineResult.shift_eq_move]

/-- Two texts with a line feed between them are read apart, and what is in the second one lies further
down. -/
theorem readSource_append (as bs : List Char) :
    readSource (as ++ '\n' :: bs) =
      ⟨(readSource as).statements ++
        (readSource bs).statements.map (Statement.shift (byteLength as + 1)),
      (readSource as).faults ++ (readSource bs).faults.map (Diagnostic.shift (byteLength as + 1))⟩ := by
  have hmoved : (lines (as ++ '\n' :: bs)).map readLine = (lines as).map readLine ++
      ((lines bs).map readLine).map (LineResult.shift (byteLength as + 1)) := by
    rw [lines_append, List.map_append, List.map_map, List.map_map]
    exact congrArg _ (List.map_congr_left fun l _ => readLine_shift _ l)
  unfold readSource
  dsimp only
  rw [hmoved]
  generalize (lines as).map readLine = rs
  generalize (lines bs).map readLine = ts
  rw [List.filterMap_append, List.flatMap_append, List.filterMap_map, List.flatMap_map,
    List.map_filterMap, List.map_flatMap]
  rfl

end SolMachine.Assembly
