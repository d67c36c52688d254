import SolMachine.Machine.State
import SolMachine.Proofs.Acceptance
import SolMachine.Proofs.WrittenFields
import SolMachine.WordFile

/-!
# Word files

* `Text.trimEnd_append_word`, `Text.trim_word` : nothing is trimmed from words of visible characters;
* `toList_write` : a word file holds the texts of its words, with a line feed between them;
* `readLines_write`, `read_write` : they are read as the words, if these fit in memory;
* `length_le_of_read` : what is read fits in memory;
* `write_carries_words` : a program comes unchanged from the assembler to the machine.
-/

namespace SolMachine.Text
open SolMachine.Assembly (IsWord)

section Trim
variable {c : Char} {w : List Char}

theorem not_isBlank_of_mem_word (hw : IsWord w) (hc : c ∈ w) : ¬ isBlank c := by
  rw [isBlank_of_isVisible (hw.visible c hc)]
  exact Bool.false_ne_true

theorem trimEnd_append_word (cs : List Char) (hw : IsWord w) : trimEnd (cs ++ w) = cs ++ w := by
  obtain ⟨start, last, rfl⟩ := (List.eq_nil_or_concat' w).resolve_left hw.ne_nil
  have hlast : ¬ isBlank last :=
    not_isBlank_of_mem_word hw (List.mem_append_right _ (List.mem_singleton_self _))
  unfold trimEnd
  rw [← List.append_assoc, List.reverse_append, List.reverse_singleton, List.singleton_append,
    List.dropWhile_cons_of_neg hlast, List.reverse_cons, List.reverse_reverse]

theorem trim_word (hw : IsWord w) : trim w = w := by
  have hend : trimEnd w = w := trimEnd_append_word [] hw
  unfold trim
  rw [hend]
  cases w with
  | nil => rfl
  | cons c w =>
    have hc : ¬ isBlank c := not_isBlank_of_mem_word hw List.mem_cons_self
    rw [List.dropWhile_cons_of_neg hc]

end Trim

end SolMachine.Text

namespace SolMachine.WordFile
open SolMachine.Text SolMachine.Assembly

/-- The text of a word. -/
def wordText (w : Word) : List Char := (Decimal.write w.toInt).toList

theorem isWord_wordText (w : Word) : IsWord (wordText w) := isWord_write w.toInt

/-! ## Writing -/

theorem toList_write (words : List Word) :
    (write words).toList = ['\n'].intercalate (words.map wordText) := by
  unfold write
  rw [String.toList_intercalate, List.map_map]
  rfl

/-- The text of words ends with that of the last one. -/
theorem exists_toList_write {words : List Word} (h : words ≠ []) :
    ∃ cs w, (write words).toList = cs ++ wordText w := by
  rw [toList_write]
  induction words with
  | nil => exact absurd rfl h
  | cons v words ih =>
    cases words with
    | nil => exact ⟨[], v, List.intercalate_singleton⟩
    | cons u words =>
      obtain ⟨cs, w, hcs⟩ := ih (List.cons_ne_nil _ _)
      refine ⟨wordText v ++ '\n' :: cs, w, ?_⟩
      rw [List.map_cons] at hcs
      rw [List.map_cons, List.map_cons, List.intercalate_cons_cons, hcs]
      simp only [List.append_assoc, List.cons_append, List.nil_append]

/-! ## Reading -/

theorem readLines_write (number : Nat) (words : List Word) :
    readLines number (words.map wordText) = .ok words := by
  induction words generalizing number with
  | nil => rfl
  | cons w words ih =>
    have hread : Decimal.read (trim (wordText w)) = .ok w := by
      rw [trim_word (isWord_wordText w)]
      exact Decimal.read_write w
    rw [List.map_cons, readLines, hread]
    simp only [ih, Except.map]

theorem splitOn_write {words : List Word} (h : words ≠ []) :
    (write words).toList.splitOn '\n' = words.map wordText := by
  have hlines : ∀ l ∈ words.map wordText, '\n' ∉ l := by
    refine List.forall_mem_map.2 fun w _ hmem => ?_
    cases (isWord_wordText w).visible _ hmem
  rw [toList_write, List.splitOn_intercalate _ hlines (mt List.map_eq_nil_iff.1 h)]

/-- The text of words is read as those words, if they fit in memory. -/
theorem read_write (words : List Word) :
    read (write words) =
      if maxWords < words.length then .error (.tooLarge words.length) else .ok words := by
  by_cases h : words = []
  · subst h
    rfl
  · obtain ⟨cs, w, htext⟩ := exists_toList_write h
    have hword := isWord_wordText w
    have htrim : trimEnd (write words).toList = (write words).toList := by
      rw [htext]
      exact trimEnd_append_word cs hword
    unfold read
    rw [htrim]
    split
    · next hnil =>
      rw [htext] at hnil
      exact absurd (List.append_eq_nil_iff.1 hnil).2 hword.ne_nil
    · rw [splitOn_write h, readLines_write]

theorem length_le_of_read {text : String} {words : List Word} (h : read text = .ok words) :
    words.length ≤ maxWords := by
  unfold read at h
  split at h
  · obtain rfl := Except.ok.inj h
    exact Nat.zero_le _
  · split at h
    · cases h
    · split at h
      · cases h
      · next hfits =>
        obtain rfl := Except.ok.inj h
        exact Nat.le_of_not_lt hfits

theorem read_write_of_length_le {words : List Word} (h : words.length ≤ maxWords) :
    read (write words) = .ok words := by
  rw [read_write, if_neg (Nat.not_lt.2 h)]

/-! ## From the assembler to the machine -/

theorem length_le_of_assemble {source : String} {debug : Bool} {p : Program}
    (h : assemble source debug = .ok p) : p.words.length ≤ maxWords := by
  obtain ⟨hacc, hwords⟩ := acceptable_of_assemble h
  rw [hwords, List.length_mapIdx, length_statements]
  exact hacc.size

/-- A word file carries every program unchanged. Words that fit in memory are read again as they were
written, and of too many the number is told; so no two programs that can be loaded have the same text.
The program of any source comes through the file into the memory of any machine. What was read from
any text, with whatever blanks and signs, and is written again, is read again as the same words. -/
theorem write_carries_words :
    (∀ words : List Word, read (write words) =
      if 16384 < words.length then .error (.tooLarge words.length) else .ok words) ∧
    (∀ ws vs : List Word, ws.length ≤ 16384 → vs.length ≤ 16384 → write ws = write vs → ws = vs) ∧
    (∀ source debug p, assemble source debug = .ok p → ∀ m : Machine, ∃ words n,
      read (write p.words) = .ok words ∧ m.load words = .ok n ∧ n.memory.words.toList = p.words) ∧
    ∀ text words, read text = .ok words → read (write words) = .ok words := by
  refine ⟨read_write, fun ws vs hws hvs h => ?_, fun source debug p hp m => ?_,
    fun text words h => read_write_of_length_le (length_le_of_read h)⟩
  · have hread := read_write_of_length_le hws
    rw [h, read_write_of_length_le hvs] at hread
    exact (Except.ok.inj hread).symm
  · have hfits := length_le_of_assemble hp
    refine ⟨p.words, { m with memory := .ofList p.words, pc := 0 },
      read_write_of_length_le hfits, if_neg (Nat.not_lt.2 hfits), ?_⟩
    exact List.toList_toArray

/-- The least word, with a blank line and a comment in the source, and with a sign and a carriage
return in another text of the same words. -/
theorem write_carries_words_least :
    let source := "x .fill -2147483648\n\n lw 0 1 x rest"
    let words : List Word := [0x80000000, 0x01008000]
    write words = "-2147483648\n16809984" ∧
    read "-02147483648 \r\n+16809984\n\n" = .ok words ∧
    read (write words) = .ok words ∧
    ∃ p n, assemble source false = .ok p ∧ p.words = words ∧
      (Machine.new .standard).load p.words = .ok n ∧ n.memory.words.toList = p.words := by
  intro source words
  obtain ⟨-, -, hmachine, hagain⟩ := write_carries_words
  have hread : read "-02147483648 \r\n+16809984\n\n" = .ok words := by decide +kernel
  obtain ⟨p, hp, hwords⟩ := @assemble_of_no_faults source (by decide +kernel) (by decide +kernel) false
  have hsame : p.words = words := by
    rw [hwords]
    decide +kernel
  obtain ⟨ws, n, hws, hn, hmemory⟩ := hmachine source false p hp (.new .standard)
  have hcarried : ws = p.words := by
    rw [hsame, hagain _ _ hread] at hws
    rw [hsame]
    exact (Except.ok.inj hws).symm
  refine ⟨by decide +kernel, hread, hagain _ _ hread, p, n, hp, hsame, hcarried ▸ hn, hmemory⟩

end SolMachine.WordFile
