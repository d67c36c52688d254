import Mathlib.Data.String.Basic
import SolMachine.Proofs.Lines

/-!
# Characters that spans mark

* `Span.Marks` : a span is that of certain characters of a text; then it lies in the text
  (`Span.Marks.bounds`), between whole characters of it, which are what is found there
  (`Span.Marks.extract_eq`);
* `Span.Marks.inside`, `Span.Marks.shift` : what a part of a text marks, and what is marked in a text
  that begins at another byte;
* `Span.PointsAt` : the same for a span that starts at a character that is no blank;
  `Span.PointsAt.join` : from the start of one span to the end of a later one.
-/

namespace SolMachine.Text

/-- The span is that of the characters `part` of the text `cs`, which begins at byte `pos`. -/
def Span.Marks (s : Span) (pos : Nat) (cs part : List Char) : Prop :=
  ∃ before after, cs = before ++ part ++ after ∧ s = .ofChars (pos + byteLength before) part

section Marks
variable {s t : Span} {pos : Nat} {cs part inner : List Char}

theorem Span.Marks.bounds (h : s.Marks pos cs part) :
    pos ≤ s.start ∧ s.start ≤ s.stop ∧ s.stop ≤ pos + byteLength cs := by
  obtain ⟨before, after, rfl, rfl⟩ := h
  simp only [Span.ofChars, byteLength_append]
  omega

/-- Characters of a part are characters of the text. -/
theorem Span.Marks.inside (h : s.Marks pos cs part) (ht : t.Marks s.start part inner) :
    t.Marks pos cs inner := by
  obtain ⟨before, after, rfl, rfl⟩ := h
  obtain ⟨first, last, rfl, rfl⟩ := ht
  refine ⟨before ++ first, last ++ after, by simp, ?_⟩
  simp only [Span.ofChars, byteLength_append, Nat.add_assoc]

theorem Span.Marks.shift (h : s.Marks pos cs part) (n : Nat) :
    (s.shift n).Marks (n + pos) cs part := by
  obtain ⟨before, after, rfl, rfl⟩ := h
  refine ⟨before, after, rfl, ?_⟩
  simp only [Span.shift, Span.ofChars, Nat.add_assoc]

theorem utf8Len_eq (cs : List Char) : String.utf8Len cs = byteLength cs := by
  rw [← String.utf8ByteSize_ofList, SolMachine.Text.utf8ByteSize_ofList]

/-- What is found in the text from the start of the span to its end. -/
theorem Span.Marks.extract_eq (h : s.Marks 0 cs part) :
    String.Pos.Raw.extract (String.ofList cs) ⟨s.start⟩ ⟨s.stop⟩ = String.ofList part := by
  obtain ⟨before, after, rfl, rfl⟩ := h
  have hextract := String.extract_of_valid before part after
  rwa [utf8Len_eq, utf8Len_eq, ← Nat.zero_add (byteLength before)] at hextract

end Marks

/-- The span is that of the characters `part`, and the character at its start is no blank. -/
def Span.PointsAt (s : Span) (pos : Nat) (cs part : List Char) : Prop :=
  ∃ before after, cs = before ++ part ++ after ∧ s = .ofChars (pos + byteLength before) part ∧
    ∃ c rest, part ++ after = c :: rest ∧ isBlank c = false

section PointsAt
variable {s t : Span} {pos : Nat} {cs part inner : List Char}

theorem Span.PointsAt.marks (h : s.PointsAt pos cs part) : s.Marks pos cs part := by
  obtain ⟨before, after, hcs, hs, -⟩ := h
  exact ⟨before, after, hcs, hs⟩

theorem Span.Marks.pointsAt {c : Char} {rest : List Char} (h : s.Marks pos cs (c :: rest))
    (hc : isBlank c = false) : s.PointsAt pos cs (c :: rest) := by
  obtain ⟨before, after, hcs, hs⟩ := h
  exact ⟨before, after, hcs, hs, c, rest ++ after, rfl, hc⟩

theorem Span.PointsAt.inside (ht : t.PointsAt s.start part inner) (h : s.Marks pos cs part) :
    t.PointsAt pos cs inner := by
  obtain ⟨before, after, rfl, rfl⟩ := h
  obtain ⟨first, last, rfl, rfl, c, rest, hc, hblank⟩ := ht
  refine ⟨before ++ first, last ++ after, by simp, ?_, c, rest ++ after, ?_, hblank⟩
  · simp only [Span.ofChars, byteLength_append, Nat.add_assoc]
  · rw [← List.append_assoc, hc, List.cons_append]

/-- The place before the first character. -/
theorem Span.PointsAt.begin (h : s.PointsAt pos cs part) :
    Span.PointsAt ⟨s.start, s.start⟩ pos cs [] := by
  obtain ⟨before, after, rfl, rfl, c, rest, hc, hblank⟩ := h
  exact ⟨before, part ++ after, by simp, rfl, c, rest, hc, hblank⟩

theorem prefix_of_byteLength_le {as bs : List Char} (ha : as <+: cs) (hb : bs <+: cs)
    (h : byteLength as ≤ byteLength bs) : as <+: bs := by
  rcases List.prefix_or_prefix_of_prefix ha hb with hab | ⟨ds, rfl⟩
  · exact hab
  · cases ds with
    | nil => simp
    | cons d ds =>
      have hd := d.utf8Size_pos
      rw [byteLength_append, byteLength_cons] at h
      omega

/-- From the start of one span to the end of a later one. -/
theorem Span.PointsAt.join (hs : s.PointsAt pos cs part) (ht : t.Marks pos cs inner)
    (h : s.start ≤ t.start) : ∃ all, Span.PointsAt ⟨s.start, t.stop⟩ pos cs all := by
  obtain ⟨before, after, hcs, rfl, c, rest, hc, hblank⟩ := hs
  obtain ⟨before', after', hcs', rfl⟩ := ht
  rw [List.append_assoc] at hcs hcs'
  obtain ⟨between, rfl⟩ := prefix_of_byteLength_le ⟨_, hcs.symm⟩ ⟨_, hcs'.symm⟩
    (Nat.le_of_add_le_add_left h)
  -- Behind what comes before the first span stands what is between, and then the second one.
  have hbehind : part ++ after = between ++ inner ++ after' := by
    rw [hcs, List.append_assoc before] at hcs'
    exact (List.append_cancel_left hcs').trans (List.append_assoc ..).symm
  refine ⟨between ++ inner, before, after', by simp [hcs, hbehind], ?_, c, rest,
    hbehind ▸ hc, hblank⟩
  simp only [Span.ofChars, byteLength_append, Nat.add_assoc]

end PointsAt

end SolMachine.Text
