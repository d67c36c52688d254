import SolMachine.Proofs.Excerpts

/-!
# Bytes in their lines

* `utf8`, `feedsBefore` : the bytes of a text, and how many line feeds come before one of them;
* `lineStart`, `getElem?_lines` : the byte at which a line starts, and the line of a number;
* `exists_line_of_byte` : as many lines come before a byte as line feeds;
* `StandsAt`, `standsAt_position` : the line and the column of a byte; they increase with it
  (`StandsAt.lex`);
* `Excerpt`, `exists_excerpt` : the span and the text of a line without the blanks around it;
* `Mapped`, `sourceMap_exact` : the lines and columns of every text are those of its bytes.
-/

namespace SolMachine.Text

/-! ## Bytes -/

/-- The bytes of the UTF-8 form of the characters. -/
def utf8 (cs : List Char) : List UInt8 := cs.flatMap String.utf8EncodeChar

/-- The number of bytes before `index` that are line feeds. -/
def feedsBefore (cs : List Char) (index : Nat) : Nat := ((utf8 cs).take index).count 10

theorem utf8_toList (text : String) : utf8 text.toList = text.toUTF8.data.toList := by
  have hbytes : text.toUTF8 = (utf8 text.toList).toByteArray := by
    conv_lhs => rw [← String.ofList_toList (s := text)]
    rfl
  rw [hbytes, List.toList_data_toByteArray]

theorem length_utf8 (cs : List Char) : (utf8 cs).length = byteLength cs := by
  induction cs with
  | nil => rfl
  | cons c cs ih =>
    rw [utf8, List.flatMap_cons, List.length_append, String.length_utf8EncodeChar, byteLength_cons,
      ← ih, utf8]

/-- A line feed is the only character whose bytes hold that of a line feed. -/
theorem eq_newline_of_mem_utf8EncodeChar {c : Char} (h : 10 ∈ String.utf8EncodeChar c) :
    c = '\n' := by
  have hten : UInt8.toNat 10 = 10 := rfl
  have hvalue : c.val.toNat = 10 := by
    rw [String.utf8EncodeChar.eq_1] at h
    split_ifs at h <;> simp only [List.mem_cons, List.not_mem_nil, or_false, ← UInt8.toNat_inj,
      UInt8.toNat_ofNat', hten, Nat.reducePow] at h <;> omega
  exact Char.ext (UInt32.toNat_inj.1 hvalue)

theorem newline_not_mem_utf8 {cs : List Char} (h : '\n' ∉ cs) : 10 ∉ utf8 cs := fun hmem => by
  obtain ⟨c, hc, hbyte⟩ := List.mem_flatMap.1 hmem
  exact h (eq_newline_of_mem_utf8EncodeChar hbyte ▸ hc)

theorem feedsBefore_of_newline_not_mem {cs : List Char} (h : '\n' ∉ cs) (index : Nat) :
    feedsBefore cs index = 0 :=
  List.count_eq_zero.2 fun hmem => newline_not_mem_utf8 h (List.mem_of_mem_take hmem)

/-- No line feed comes before a byte of the first line, or that of the feed that ends it. -/
theorem feedsBefore_first {as : List Char} (has : '\n' ∉ as) (bs : List Char) {index : Nat}
    (h : index ≤ byteLength as) : feedsBefore (as ++ bs) index = 0 := by
  unfold feedsBefore utf8
  rw [List.flatMap_append, List.take_append_of_le_length]
  · exact feedsBefore_of_newline_not_mem has index
  · exact (length_utf8 as).symm ▸ h

/-- Behind the first line there is one line feed more before a byte. -/
theorem feedsBefore_behind {as : List Char} (has : '\n' ∉ as) (bs : List Char) (index : Nat) :
    feedsBefore (as ++ '\n' :: bs) (byteLength as + 1 + index) = feedsBefore bs index + 1 := by
  have hfeed : String.utf8EncodeChar '\n' = [10] := rfl
  have hlength : byteLength as + 1 + index = (utf8 as).length + (index + 1) := by
    rw [length_utf8]
    omega
  unfold feedsBefore
  rw [utf8, List.flatMap_append, List.flatMap_cons, hfeed, hlength, ← utf8, List.take_length_add_append,
    List.count_append, List.count_eq_zero.2 (newline_not_mem_utf8 has), List.singleton_append,
    List.take_succ_cons, List.count_cons_self, Nat.zero_add]
  rfl

/-! ## Lines -/

/-- The byte at which the line with that number starts: behind the lines before it and the line feeds
that end them. -/
def lineStart (cs : List Char) (n : Nat) : Nat := byteLengthOfLines ((cs.splitOn '\n').take n)

theorem getElem?_locate (base : Nat) (ls : List (List Char)) (n : Nat) :
    (locate base ls)[n]? = ls[n]?.map fun piece => ⟨base + byteLengthOfLines (ls.take n), piece⟩ := by
  induction ls generalizing base n with
  | nil => rfl
  | cons cs ls ih =>
    cases n with
    | zero => rfl
    | succ n =>
      rw [locate, List.getElem?_cons_succ, ih, List.getElem?_cons_succ, List.take_succ_cons]
      simp only [byteLengthOfLines, List.foldr_cons, Nat.add_assoc]

theorem getElem?_lines (cs : List Char) (n : Nat) :
    (lines cs)[n]? = (cs.splitOn '\n')[n]?.map fun piece => ⟨lineStart cs n, piece⟩ := by
  unfold lines lineStart
  simp only [getElem?_locate, Nat.zero_add]

theorem getElem?_lines_of_piece {cs piece : List Char} {n : Nat}
    (h : (cs.splitOn '\n')[n]? = some piece) : (lines cs)[n]? = some ⟨lineStart cs n, piece⟩ := by
  rw [getElem?_lines, h, Option.map_some]

theorem length_lines (cs : List Char) : (lines cs).length = (cs.splitOn '\n').length :=
  length_locate ..

/-- As many lines come before the line of a byte as line feeds come before the byte. It is in that line
or ends it, or else it is past the end of the text, and the line is the last one. -/
theorem exists_line_of_byte (cs : List Char) (index : Nat) :
    ∃ l, (lines cs)[feedsBefore cs index]? = some l ∧ l.start ≤ index ∧
      (index ≤ l.stop ∨ byteLength cs < index ∧ feedsBefore cs index + 1 = (lines cs).length) := by
  induction cs using lines_induction generalizing index with
  | line cs h =>
    rw [feedsBefore_of_newline_not_mem h, lines_of_newline_not_mem h]
    refine ⟨⟨0, cs⟩, rfl, Nat.zero_le _, ?_⟩
    rw [Line.stop, Nat.zero_add]
    exact (Nat.lt_or_ge (byteLength cs) index).symm.imp_right fun hlt => ⟨hlt, rfl⟩
  | feed as bs has ih =>
    rw [lines_append, lines_of_newline_not_mem has, List.singleton_append]
    by_cases hindex : index ≤ byteLength as
    · rw [feedsBefore_first has _ hindex]
      refine ⟨⟨0, as⟩, rfl, Nat.zero_le _, .inl ?_⟩
      rwa [Line.stop, Nat.zero_add]
    · obtain ⟨rest, rfl⟩ := Nat.exists_eq_add_of_le (Nat.lt_of_not_le hindex)
      have hfeed : '\n'.utf8Size = 1 := by decide
      obtain ⟨l, hl, hstart, hstop⟩ := ih rest
      rw [Nat.succ_eq_add_one, feedsBefore_behind has, List.getElem?_cons_succ, List.getElem?_map, hl,
        byteLength_append, byteLength_cons, hfeed, List.length_cons, List.length_map]
      refine ⟨l.shift (byteLength as + 1), rfl, Nat.add_le_add_left hstart _, ?_⟩
      rw [show (l.shift (byteLength as + 1)).stop = byteLength as + 1 + l.stop from Nat.add_assoc ..]
      omega

/-! ## Positions -/

/-- The byte of the text at `index` stands in that line, at that column. -/
structure StandsAt (text : String) (index line column : Nat) : Prop where
  /-- As many lines come before it as line feeds; so a line feed is in the line that it ends. -/
  feeds : line = (text.toUTF8.data.toList.take index).count 10
  offset : index = lineStart text.toList line + column
  /-- Within the text, the column is at most the length of the line. -/
  inside : index ≤ text.utf8ByteSize →
    ∃ piece, (text.toList.splitOn '\n')[line]? = some piece ∧ column ≤ byteLength piece
  /-- Past the end of the text, the line is the last one. -/
  behind : text.utf8ByteSize < index → line + 1 = (text.toList.splitOn '\n').length

/-- Every byte has its line and column. -/
theorem standsAt_position (text : String) (index : Nat) :
    StandsAt text index ((SourceMap.ofText text.toList).position index).1
      ((SourceMap.ofText text.toList).position index).2 := by
  obtain ⟨l, hl, hstart, hstop⟩ := exists_line_of_byte text.toList index
  have hline : (SourceMap.ofText text.toList).lineOf index = feedsBefore text.toList index := by
    refine lineOf_eq hl hstart fun k hk => ?_
    rcases hstop with hin | ⟨-, hlast⟩
    · exact Nat.lt_of_le_of_lt hin (stop_lt_start hl hk)
    · rw [hlast, List.getElem?_length] at hk
      cases hk
  have hget : (SourceMap.ofText text.toList).lines[feedsBefore text.toList index]? = some l :=
    List.getElem?_toArray.trans hl
  have hinText : l.stop ≤ byteLength text.toList := by
    have hbounds := (marks_of_mem_lines (List.mem_of_getElem? hl)).bounds.2.2
    rwa [Nat.zero_add] at hbounds
  obtain ⟨piece, hpiece, rfl⟩ := Option.map_eq_some_iff.1 ((getElem?_lines _ _).symm.trans hl)
  have hposition : (SourceMap.ofText text.toList).position index =
      (feedsBefore text.toList index, index - lineStart text.toList (feedsBefore text.toList index)) := by
    unfold SourceMap.position
    dsimp only
    rw [hline, hget]
    rfl
  rw [hposition]
  rw [byteLength_toList] at hstop hinText
  dsimp only [Line.stop] at hstart hstop hinText ⊢
  refine ⟨?_, by omega, fun hin => ⟨piece, hpiece, by omega⟩, fun hbehind => ?_⟩
  · rw [feedsBefore, utf8_toList]
  · rw [← length_lines]
    omega

/-- A later byte stands in a later line, or in the same one at a later column. -/
theorem StandsAt.lex {text : String} {i j line column line' column' : Nat}
    (hi : StandsAt text i line column) (hj : StandsAt text j line' column') (h : i < j) :
    Prod.Lex (· < ·) (· < ·) (line, column) (line', column') := by
  have hle : line ≤ line' := by
    rw [hi.feeds, hj.feeds]
    exact (List.take_prefix_take_left (Nat.le_of_lt h)).sublist.count_le 10
  rcases Nat.eq_or_lt_of_le hle with rfl | hlt
  · have hi' := hi.offset
    have hj' := hj.offset
    exact .right _ (by omega)
  · exact .left _ _ hlt

/-! ## Excerpts -/

/-- The span is that of `excerpt`, which is left of line `n`, the characters `piece`, without the blanks
around it. -/
structure Excerpt (text : String) (n : Nat) (piece : List Char) (span : Span) (excerpt : List Char) :
    Prop where
  trimmed : Trimmed piece excerpt
  /-- The span lies in the line. -/
  start_le : lineStart text.toList n ≤ span.start
  start_le_stop : span.start ≤ span.stop
  stop_le : span.stop ≤ lineStart text.toList n + byteLength piece
  /-- The excerpt is what the text has there. -/
  found : String.Pos.Raw.extract text ⟨span.start⟩ ⟨span.stop⟩ = String.ofList excerpt
  /-- Of a blank line nothing is left. -/
  blank : (∀ c ∈ piece, isBlank c) → span.start = span.stop

/-- The span of a line marks what is read of it. -/
theorem marks_lineSpan (l : Line) : Span.Marks
    ⟨l.start + byteLength ((trimEnd l.chars).takeWhile isBlank), l.start + byteLength (trimEnd l.chars)⟩
    l.start l.chars (trim l.chars) := by
  obtain ⟨trail, hchars, -⟩ := (trimmedEnd_trimEnd l.chars).behind
  have hkept : (trimEnd l.chars).takeWhile isBlank ++ trim l.chars = trimEnd l.chars :=
    List.takeWhile_append_dropWhile
  refine ⟨(trimEnd l.chars).takeWhile isBlank, trail, hkept.symm ▸ hchars, ?_⟩
  rw [Span.ofChars, Nat.add_assoc, ← byteLength_append, hkept]

/-- Every line has its excerpt. -/
theorem exists_excerpt {text : String} {n : Nat} {piece : List Char}
    (h : (text.toList.splitOn '\n')[n]? = some piece) : ∃ span,
      (SourceMap.ofText text.toList).lineSpan? n = some span ∧
      (SourceMap.ofText text.toList).readLine? n = some (String.ofList (trim piece)) ∧
      Excerpt text n piece span (trim piece) := by
  have hline := getElem?_lines_of_piece h
  have hget : (SourceMap.ofText text.toList).lines[n]? = some ⟨lineStart text.toList n, piece⟩ :=
    List.getElem?_toArray.trans hline
  have hmarks := marks_lineSpan ⟨lineStart text.toList n, piece⟩
  obtain ⟨hstart, hordered, hstop⟩ := hmarks.bounds
  refine ⟨_, by rw [SourceMap.lineSpan?, hget]; rfl, readLine?_ofText hline, trimmed_trim piece, hstart,
    hordered, hstop, ?_, fun hblank => ?_⟩
  · have hin := (marks_of_mem_lines (List.mem_of_getElem? hline)).inside hmarks
    rw [← hin.extract_eq, String.ofList_toList]
  · obtain ⟨before, after, -, hspan⟩ := hmarks
    rw [hspan, (trimmed_trim piece).eq_nil hblank]
    rfl

/-! ## The whole text -/

/-- What the lines and columns of a text tell. -/
structure Mapped (text : String) (m : SourceMap) : Prop where
  count : m.countLines = (text.toList.splitOn '\n').length
  position : ∀ index, StandsAt text index (m.position index).1 (m.position index).2
  increasing : ∀ i j, i < j → Prod.Lex (· < ·) (· < ·) (m.position i) (m.position j)
  line : ∀ n piece, (text.toList.splitOn '\n')[n]? = some piece → ∃ span excerpt,
    m.lineSpan? n = some span ∧ m.readLine? n = some (String.ofList excerpt) ∧
      Excerpt text n piece span excerpt
  noLine : ∀ n, m.countLines ≤ n → m.lineSpan? n = none ∧ m.readLine? n = none

/-- The lines and columns of every text are those of its bytes. -/
theorem sourceMap_exact (text : String) : Mapped text (SourceMap.ofText text.toList) where
  count := length_lines text.toList
  position := standsAt_position text
  increasing i j h := (standsAt_position text i).lex (standsAt_position text j) h
  line n piece h := by
    obtain ⟨span, hspan, hread, hexcerpt⟩ := exists_excerpt h
    exact ⟨span, _, hspan, hread, hexcerpt⟩
  noLine n h := by
    have hget : (SourceMap.ofText text.toList).lines[n]? = none := Array.getElem?_eq_none h
    rw [SourceMap.lineSpan?, SourceMap.readLine?, hget]
    exact ⟨rfl, rfl⟩

end SolMachine.Text
