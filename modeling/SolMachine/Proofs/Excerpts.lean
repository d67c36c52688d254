import Mathlib.Data.List.DropRight
import SolMachine.Proofs.LineByLine
import SolMachine.Proofs.LineSearch

/-!
# Excerpts of a text

* `TrimmedEnd`, `Trimmed` : a text without the blanks at its end, and around it, which there is one of
  each (`trimmedEnd_trimEnd`, `trimmed_trim`, `Trimmed.trim_eq`), and which is empty if the text holds
  nothing but blanks, and only then (`Trimmed.eq_nil`, `Trimmed.ne_nil`);
* `InLine` : a place of a text, in its line; every place is in a line, and as many line feeds come
  before it as there are lines before (`exists_inLine`);
* `position_ofText`, `readLine?_ofText` : the line, the column and the excerpt of a place.
-/

namespace SolMachine.Text

/-! ## Trimmed texts -/

/-- The excerpt is the text without the blanks around it. -/
structure Trimmed (cs excerpt : List Char) : Prop where
  around : ∃ lead trail, cs = lead ++ excerpt ++ trail ∧ (∀ c ∈ lead, isBlank c) ∧
    ∀ c ∈ trail, isBlank c
  first : ∀ c ∈ excerpt.head?, isBlank c = false
  last : ∀ c ∈ excerpt.getLast?, isBlank c = false

theorem Trimmed.ne_nil {cs excerpt : List Char} (h : Trimmed cs excerpt) {c : Char} (hc : c ∈ cs)
    (hblank : isBlank c = false) : excerpt ≠ [] := by
  rintro rfl
  obtain ⟨lead, trail, rfl, hlead, htrail⟩ := h.around
  rw [List.append_nil] at hc
  rcases List.mem_append.1 hc with hc | hc
  · exact Bool.false_ne_true (hblank.symm.trans (hlead c hc))
  · exact Bool.false_ne_true (hblank.symm.trans (htrail c hc))

theorem Trimmed.eq_nil {cs excerpt : List Char} (h : Trimmed cs excerpt)
    (hblank : ∀ c ∈ cs, isBlank c) : excerpt = [] := by
  obtain ⟨lead, trail, rfl, -, -⟩ := h.around
  cases excerpt with
  | nil => rfl
  | cons c rest => exact absurd (hblank c (by simp)) (by simp [h.first c rfl])

/-- The start `part` of the text is the text without the blanks at its end. -/
structure TrimmedEnd (cs part : List Char) : Prop where
  behind : ∃ trail, cs = part ++ trail ∧ ∀ c ∈ trail, isBlank c
  last : ∀ c ∈ part.getLast?, isBlank c = false

theorem trimEnd_eq (cs : List Char) : trimEnd cs = cs.rdropWhile isBlank := rfl

theorem trimmedEnd_trimEnd (cs : List Char) : TrimmedEnd cs (trimEnd cs) := by
  refine ⟨⟨cs.rtakeWhile isBlank, ?_, fun c hc => List.mem_rtakeWhile_imp hc⟩, fun c hc => ?_⟩
  · rw [trimEnd_eq, List.rdropWhile_append_rtakeWhile]
  · obtain ⟨hne, rfl⟩ := List.mem_getLast?_eq_getLast hc
    exact Bool.not_eq_true _ ▸ List.rdropWhile_last_not isBlank cs hne

theorem TrimmedEnd.trimEnd_eq {cs part : List Char} (h : TrimmedEnd cs part) :
    trimEnd cs = part := by
  obtain ⟨trail, rfl, htrail⟩ := h.behind
  have hself : part.rdropWhile isBlank = part :=
    List.rdropWhile_eq_self_iff.2 fun hne => by
      simp [h.last _ (List.getLast?_eq_some_getLast hne)]
  unfold trimEnd
  rw [List.reverse_append, List.dropWhile_append_of_pos fun c hc => htrail c (List.mem_reverse.1 hc)]
  exact hself

theorem trimmed_trim (cs : List Char) : Trimmed cs (trim cs) := by
  obtain ⟨⟨trail, hcs, htrail⟩, hlast⟩ := trimmedEnd_trimEnd cs
  have hsuffix : trim cs <:+ trimEnd cs := List.dropWhile_suffix isBlank
  refine ⟨⟨(trimEnd cs).takeWhile isBlank, trail, ?_, fun c hc => List.mem_takeWhile_imp hc, htrail⟩,
    fun c hc => ?_, fun c hc => ?_⟩
  · rw [trim, List.takeWhile_append_dropWhile]
    exact hcs
  · have hfirst := List.head?_dropWhile_not isBlank (trimEnd cs)
    rwa [show ((trimEnd cs).dropWhile isBlank).head? = some c from hc] at hfirst
  · obtain ⟨hne, rfl⟩ := List.mem_getLast?_eq_getLast hc
    refine hlast _ ?_
    rw [hsuffix.getLast hne]
    exact List.getLast?_eq_some_getLast _

/-- There is only one text without the blanks around a text. -/
theorem Trimmed.trim_eq {cs excerpt : List Char} (h : Trimmed cs excerpt) : trim cs = excerpt := by
  obtain ⟨lead, trail, rfl, hlead, htrail⟩ := h.around
  cases excerpt with
  | nil =>
    have hend : TrimmedEnd (lead ++ [] ++ trail) [] := by
      refine ⟨⟨lead ++ trail, by simp, fun c hc => ?_⟩, by simp⟩
      exact (List.mem_append.1 hc).elim (hlead c) (htrail c)
    rw [trim, hend.trimEnd_eq]
    rfl
  | cons c rest =>
    have hend : TrimmedEnd (lead ++ c :: rest ++ trail) (lead ++ c :: rest) :=
      ⟨⟨trail, rfl, htrail⟩, by simpa using h.last⟩
    rw [trim, hend.trimEnd_eq, List.dropWhile_append_of_pos hlead]
    exact List.dropWhile_cons_of_neg (by simp [h.first c rfl])

/-! ## Places in their lines -/

/-- A place of a text, between `before` and `after`: `head` and `tail` are what its line has before and
behind it, and `earlier` and `later` the text around the line. -/
structure InLine (before after earlier head tail later : List Char) : Prop where
  before_eq : before = earlier ++ head
  after_eq : after = tail ++ later
  oneLine : '\n' ∉ head ++ tail
  begins : earlier = [] ∨ ∃ cs, earlier = cs ++ ['\n']
  ends : later = [] ∨ ∃ cs, later = '\n' :: cs

section InLine
variable {before after earlier head tail later : List Char}

/-- The same place behind another line. -/
theorem InLine.behind (h : InLine before after earlier head tail later) (line : List Char) :
    InLine (line ++ '\n' :: before) after (line ++ '\n' :: earlier) head tail later := by
  refine { h with before_eq := by simp [h.before_eq], begins := .inr ?_ }
  rcases h.begins with rfl | ⟨cs, rfl⟩
  · exact ⟨line, rfl⟩
  · exact ⟨line ++ '\n' :: cs, by simp⟩

/-- Every place is in a line; as many line feeds come before it as lines. -/
theorem exists_inLine (before after : List Char) : ∃ earlier head tail later,
    InLine before after earlier head tail later ∧
      (lines (before ++ after))[before.count '\n']? = some ⟨byteLength earlier, head ++ tail⟩ := by
  induction before using lines_induction with
  | line cs h =>
    rw [List.count_eq_zero.2 h]
    by_cases hfeed : '\n' ∈ after
    · obtain ⟨tail, rest, rfl, htail⟩ := List.eq_append_cons_of_mem hfeed
      have hline : '\n' ∉ cs ++ tail := by simp [h, htail]
      refine ⟨[], cs, tail, '\n' :: rest, ⟨rfl, rfl, hline, .inl rfl, .inr ⟨rest, rfl⟩⟩, ?_⟩
      rw [← List.append_assoc, lines_append, lines_of_newline_not_mem hline]
      rfl
    · have hline : '\n' ∉ cs ++ after := by simp [h, hfeed]
      refine ⟨[], cs, after, [], ⟨rfl, by simp, hline, .inl rfl, .inl rfl⟩, ?_⟩
      rw [lines_of_newline_not_mem hline]
      rfl
  | feed as bs has ih =>
    obtain ⟨earlier, head, tail, later, hin, hline⟩ := ih
    refine ⟨as ++ '\n' :: earlier, head, tail, later, hin.behind as, ?_⟩
    have hfeed : '\n'.utf8Size = 1 := by decide
    rw [List.count_append, List.count_eq_zero.2 has, List.count_cons_self, Nat.zero_add,
      List.append_assoc, List.cons_append, lines_append, lines_of_newline_not_mem has,
      List.singleton_append, List.getElem?_cons_succ, List.getElem?_map, hline]
    simp [Line.shift, hfeed, Nat.add_assoc]

/-- A place has the number of its line, and as column the number of bytes before it in the line. -/
theorem position_ofText (h : InLine before after earlier head tail later)
    (hline : (lines (before ++ after))[before.count '\n']? =
      some ⟨byteLength earlier, head ++ tail⟩) :
    (SourceMap.ofText (before ++ after)).position (byteLength before) =
      (before.count '\n', byteLength head) := by
  have hlength : byteLength before = byteLength earlier + byteLength head := by
    rw [h.before_eq, byteLength_append]
  have hstop : Line.stop ⟨byteLength earlier, head ++ tail⟩ =
      byteLength earlier + (byteLength head + byteLength tail) := by
    rw [Line.stop, byteLength_append]
  have hget : (SourceMap.ofText (before ++ after)).lines[before.count '\n']? =
      some ⟨byteLength earlier, head ++ tail⟩ := List.getElem?_toArray.trans hline
  unfold SourceMap.position
  rw [lineOf_ofText hline (by dsimp only; omega) (by omega)]
  dsimp only
  rw [hget, hlength]
  simp

end InLine

theorem readLine?_ofText {cs : List Char} {i : Nat} {l : Line} (h : (lines cs)[i]? = some l) :
    (SourceMap.ofText cs).readLine? i = some (String.ofList (trim l.chars)) := by
  have hget : (SourceMap.ofText cs).lines[i]? = some l := List.getElem?_toArray.trans h
  rw [SourceMap.readLine?, hget]
  rfl

end SolMachine.Text
