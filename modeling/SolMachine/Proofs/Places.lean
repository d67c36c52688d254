import SolMachine.Proofs.FieldReading
import SolMachine.Proofs.LineByLine
import SolMachine.Proofs.LineParts
import SolMachine.Proofs.LineSearch

/-!
# Places of what is read

* `Diagnostic.Placed`, `Statement.Placed` : all spans of a fault or a statement are those of
  characters, and the spans of labels those of their names;
* `Standing`, `standing_fields` : fields that stand in a line, one behind the other; what is read from
  them is placed in it (`Diagnostic.ReadFrom.placed`, `Statement.ReadFrom.placed`);
* `Cites` : a span of characters in one line of a text; what is read from a text is placed so
  (`placed_of_mem_statements`, `placed_of_mem_faults`).
-/

namespace SolMachine.Text

/-- The span is that of the characters `part` of a line of the text, and starts at a character that is
no blank. -/
def Cites (cs : List Char) (s : Span) (part : List Char) : Prop := s.PointsAt 0 cs part ∧ '\n' ∉ part

section Cites
variable {cs part : List Char} {s : Span} {l : Line}

theorem Cites.begin (h : Cites cs s part) : Cites cs ⟨s.start, s.start⟩ [] :=
  ⟨h.1.begin, List.not_mem_nil⟩

/-- What is in a line is in the text. -/
theorem Span.PointsAt.cites (h : s.PointsAt l.start l.chars part) (hl : l ∈ lines cs) :
    Cites cs s part := by
  refine ⟨h.inside (marks_of_mem_lines hl), fun hmem => newline_not_mem_of_mem_lines l hl ?_⟩
  obtain ⟨before, after, hchars, -⟩ := h
  rw [hchars]
  exact List.mem_append_left after (List.mem_append_right before hmem)

end Cites

end SolMachine.Text

namespace SolMachine.Assembly
open SolMachine.Text

/-! ## Placed things -/

section Placed
variable (P : Span → List Char → Prop)

/-- Every span of the fault is that of some characters. -/
def Diagnostic.Placed (d : Diagnostic) : Prop := ∀ s ∈ d.place.spans, ∃ part, P s part

/-- The span of the statement is that of some characters, and the spans of its labels are those of
their names. -/
structure Statement.Placed (s : Statement) : Prop where
  span : ∃ part, P s.span part
  label : ∀ l, s.label = some l → P l.span l.name.toList
  operand : ∀ l, s.body.address? = some (.label l) → P l.span l.name.toList

variable {P} {Q : Span → List Char → Prop} {d : Diagnostic} {s : Statement}

theorem Diagnostic.Placed.mono (h : d.Placed P) (himp : ∀ s part, P s part → Q s part) :
    d.Placed Q := fun s hs => (h s hs).imp fun part => himp s part

theorem Statement.Placed.mono (h : s.Placed P) (himp : ∀ s part, P s part → Q s part) :
    s.Placed Q where
  span := h.span.imp fun part => himp s.span part
  label l hl := himp _ _ (h.label l hl)
  operand l hl := himp _ _ (h.operand l hl)

theorem Diagnostic.placed_of {p : Problem} {span : Span} {part : List Char} (h : P span part) :
    (Diagnostic.of p span).Placed P := fun _ hs => by
  obtain rfl := List.mem_singleton.1 hs
  exact ⟨part, h⟩

end Placed

/-! ## Fields -/

/-- Fields that stand in a text, one behind the other. -/
structure Standing (pos : Nat) (cs : List Char) (fs : List Field) : Prop where
  marks : ∀ f ∈ fs, f.span.Marks pos cs f.chars
  unbroken : ∀ f ∈ fs, Unbroken f.chars
  apart : fs.Pairwise Apart

theorem standing_fields (l : Line) : Standing l.start l.chars (fields l) where
  marks := marks_of_mem_splitFields l.start l.chars
  unbroken := unbroken_of_mem_fields
  apart := pairwise_splitFields l.start l.chars

section Fields
variable {pos : Nat} {cs : List Char} {fs : List Field} {f : Field}

theorem Unbroken.exists_cons {cs : List Char} (h : Unbroken cs) :
    ∃ c rest, cs = c :: rest ∧ Text.isBlank c = false := by
  obtain ⟨c, rest, rfl⟩ := List.exists_cons_of_ne_nil h.ne_nil
  exact ⟨c, rest, rfl, h.isBlank c (List.mem_cons_self ..)⟩

theorem Standing.pointsAt (h : Standing pos cs fs) (hf : f ∈ fs) :
    f.span.PointsAt pos cs f.chars := by
  have hmarks := h.marks f hf
  obtain ⟨c, rest, hchars, hc⟩ := (h.unbroken f hf).exists_cons
  rw [hchars] at hmarks ⊢
  exact hmarks.pointsAt hc

/-- What is wrong with the characters of a field is in the field. -/
theorem Standing.pointsAt_of_readField (h : Standing pos cs fs) (hf : f ∈ fs) {e : LexError} {s : Span}
    (hread : readField f.chars = .error (e, s)) : ∃ part, (s.shift f.start).PointsAt pos cs part := by
  have hunbroken := h.unbroken f hf
  obtain ⟨-, part, hmarks, hempty⟩ := readField_eq_error hread
  have hin := (h.marks f hf).inside (hmarks.shift f.start)
  obtain ⟨c, rest, rfl⟩ := List.exists_cons_of_ne_nil fun hnil => hunbroken.ne_nil (hempty hnil)
  obtain ⟨before, after, hchars, -⟩ := hmarks
  have hc : c ∈ f.chars := by simp [hchars]
  exact ⟨c :: rest, hin.pointsAt (hunbroken.isBlank c hc)⟩

theorem Diagnostic.ReadFrom.placed {d : Diagnostic} (h : d.ReadFrom fs) (hfs : Standing pos cs fs) :
    d.Placed fun s part => s.PointsAt pos cs part := by
  cases h with
  | field hf => exact Diagnostic.placed_of (hfs.pointsAt hf)
  | lexical hf hread =>
    obtain ⟨part, hpart⟩ := hfs.pointsAt_of_readField hf hread
    exact Diagnostic.placed_of hpart

theorem Statement.ReadFrom.placed {s : Statement} (h : s.ReadFrom fs) (hfs : Standing pos cs fs) :
    s.Placed fun s part => s.PointsAt pos cs part := by
  have htext : ∀ f : Field, f.text.toList = f.chars := fun f => String.toList_ofList
  refine ⟨?_, fun l hl => ?_, fun l hl => ?_⟩
  · obtain ⟨f, rest, hsuffix, g, hg, hspan⟩ := h.span
    have hf : f ∈ fs := hsuffix.subset (List.mem_cons_self ..)
    have hle : f.start ≤ g.start := by
      rcases List.mem_cons.1 hg with rfl | hrest
      · exact Nat.le_refl _
      · have hapart := (List.pairwise_cons.1 (hfs.apart.sublist hsuffix.sublist)).1 g hrest
        exact Nat.le_of_lt (Nat.lt_of_le_of_lt (Nat.le_add_right _ _) hapart)
    rw [hspan]
    exact (hfs.pointsAt hf).join (hfs.marks g (hsuffix.subset hg)) hle
  · obtain ⟨f, hf, -, rfl⟩ := h.label l hl
    exact (htext f).symm ▸ hfs.pointsAt hf
  · cases h.operand _ hl with
    | @label f hf => exact (htext f).symm ▸ hfs.pointsAt hf

end Fields

/-! ## Texts -/

section Source
variable {cs : List Char}

theorem placed_of_mem_statements : ∀ s ∈ (readSource cs).statements, s.Placed (Cites cs) := by
  intro s hs
  obtain ⟨l, hl, hread⟩ := exists_line_of_mem_statements hs
  have hplaced := ((readFrom_readLine l).statement s hread).placed (standing_fields l)
  exact hplaced.mono fun _ _ h => h.cites hl

theorem placed_of_mem_faults : ∀ d ∈ (readSource cs).faults, d.Placed (Cites cs) := by
  intro d hd
  obtain ⟨l, hl, hmem⟩ := exists_line_of_mem_faults hd
  have hplaced := ((readFrom_readLine l).faults d hmem).placed (standing_fields l)
  exact hplaced.mono fun _ _ h => h.cites hl

end Source

end SolMachine.Assembly
