import SolMachine.Proofs.Decimals
import SolMachine.Proofs.Excerpts
import SolMachine.WordFile

/-!
# The format of word files

* `Holds`, `IsWordLine` : a line holds a number, and one that a word can hold;
* `Gives` : what the lines of a word file give: their words, or the first problem;
* `readLines_of_forall₂`, `readLines_of_badLine` : the lines are read so;
* `Reads` : what a text is read as; `read_accepts_exactly` : it is read as that, and as nothing else.
-/

namespace SolMachine.WordFile
open SolMachine.Text

/-! ## Lines -/

/-- The line holds the decimal numeral of a number, with or without blanks around it. -/
def Holds (line : List Char) (n : Int) : Prop :=
  ∃ numeral, Trimmed line numeral ∧ Decimal.Numeral numeral n

/-- The line holds a number of 32 bits. -/
def IsWordLine (line : List Char) : Prop :=
  ∃ n, Holds line n ∧ -2147483648 ≤ n ∧ n ≤ 2147483647

/-- What lines give: their words in order; or that the first line that is not well-formed is not, and
why, however many lines there are; or that there are too many. -/
inductive Gives (ls : List (List Char)) : Except ReadError (List Word) → Prop
  | words {ws : List Word} : List.Forall₂ Holds ls (ws.map BitVec.toInt) → ls.length ≤ 16384 →
      Gives ls (.ok ws)
  | badLine {good rest : List (List Char)} {bad excerpt : List Char} : ls = good ++ bad :: rest →
      (∀ l ∈ good, IsWordLine l) → ¬ IsWordLine bad → Trimmed bad excerpt →
      Gives ls (.error (.badLine good.length (Decimal.fault excerpt)))
  | tooLarge : (∀ l ∈ ls, IsWordLine l) → 16384 < ls.length →
      Gives ls (.error (.tooLarge ls.length))

/-- What a text is read as: no words, if it is blank, and else what the lines give that are left
without the blanks at its end. -/
inductive Reads (text : String) : Except ReadError (List Word) → Prop
  | blank : TrimmedEnd text.toList [] → Reads text (.ok [])
  | lines {part : List Char} {r : Except ReadError (List Word)} : TrimmedEnd text.toList part →
      part ≠ [] → Gives (part.splitOn '\n') r → Reads text r

section Lines
variable {line : List Char} {ls : List (List Char)} {ws : List Word}

theorem holds_iff {n : Int} : Holds line n ↔ Decimal.Numeral (trim line) n :=
  ⟨fun ⟨_, htrimmed, hnumeral⟩ => htrimmed.trim_eq ▸ hnumeral, fun h => ⟨_, trimmed_trim line, h⟩⟩

theorem isWordLine_iff : IsWordLine line ↔ ∃ w : Word, Holds line w.toInt := by
  constructor
  · rintro ⟨n, hn, hrange⟩
    exact ⟨BitVec.ofInt 32 n, (Decimal.toInt_ofInt_of_inRange hrange).symm ▸ hn⟩
  · rintro ⟨w, hw⟩
    exact ⟨w.toInt, hw, Decimal.inRange_toInt w⟩

theorem read_of_holds {w : Word} (h : Holds line w.toInt) : Decimal.read (trim line) = .ok w :=
  Decimal.read_eq_ok_iff.2 (holds_iff.1 h)

theorem read_of_not_isWordLine (h : ¬ IsWordLine line) :
    Decimal.read (trim line) = .error (Decimal.fault (trim line)) :=
  Decimal.read_eq_fault fun ⟨n, hn, hrange⟩ => h ⟨n, holds_iff.2 hn, hrange⟩

/-- Lines that hold numbers are read as their words. -/
theorem readLines_of_forall₂ (h : List.Forall₂ Holds ls (ws.map BitVec.toInt)) (number : Nat) :
    readLines number ls = .ok ws := by
  induction ws generalizing ls number with
  | nil =>
    cases h
    rfl
  | cons w ws ih =>
    cases h with
    | cons hw hrest =>
      rw [readLines, read_of_holds hw]
      simp only [ih hrest, Except.map]

/-- The first line that is not well-formed is reported, whatever follows it. -/
theorem readLines_of_badLine {good rest : List (List Char)} {bad : List Char}
    (hgood : ∀ l ∈ good, IsWordLine l) (hbad : ¬ IsWordLine bad) (number : Nat) :
    readLines number (good ++ bad :: rest) =
      .error (.badLine (number + good.length) (Decimal.fault (trim bad))) := by
  induction good generalizing number with
  | nil => rw [List.nil_append, readLines, read_of_not_isWordLine hbad]; rfl
  | cons l good ih =>
    obtain ⟨hl, hrest⟩ := List.forall_mem_cons.1 hgood
    obtain ⟨w, hw⟩ := isWordLine_iff.1 hl
    rw [List.cons_append, readLines, read_of_holds hw]
    simp only [ih hrest, Except.map, List.length_cons, Nat.add_assoc, Nat.add_comm 1]

theorem exists_forall₂ (h : ∀ l ∈ ls, IsWordLine l) :
    ∃ ws : List Word, List.Forall₂ Holds ls (ws.map BitVec.toInt) := by
  induction ls with
  | nil => exact ⟨[], .nil⟩
  | cons l ls ih =>
    obtain ⟨hl, hrest⟩ := List.forall_mem_cons.1 h
    obtain ⟨w, hw⟩ := isWordLine_iff.1 hl
    obtain ⟨ws, hws⟩ := ih hrest
    exact ⟨w :: ws, .cons hw hws⟩

end Lines

/-! ## Texts -/

section Texts
variable {ls : List (List Char)} {r : Except ReadError (List Word)}

/-- What is read of lines that give something, with the size checked. -/
theorem Gives.read (h : Gives ls r) :
    (match readLines 0 ls with
      | .error e => .error e
      | .ok ws =>
        if maxWords < ws.length then .error (.tooLarge ws.length) else .ok ws) = r := by
  have hmax : maxWords = 16384 := rfl
  cases h with
  | @words ws hws hfits =>
    have hlength := hws.length_eq
    rw [List.length_map] at hlength
    rw [readLines_of_forall₂ hws]
    exact if_neg (by omega)
  | badLine hls hgood hbad htrimmed =>
    subst hls
    rw [readLines_of_badLine hgood hbad, Nat.zero_add, htrimmed.trim_eq]
  | tooLarge hall hmany =>
    obtain ⟨ws, hws⟩ := exists_forall₂ hall
    have hlength := hws.length_eq
    rw [List.length_map] at hlength
    rw [readLines_of_forall₂ hws, hlength]
    exact if_pos (by omega)

/-- All lines give something: either all are well-formed or there is a first one that is not. -/
theorem exists_gives (ls : List (List Char)) : ∃ r, Gives ls r := by
  classical
  cases hfirst : ls.find? fun l => ¬ IsWordLine l with
  | none =>
    have hall : ∀ l ∈ ls, IsWordLine l := by simpa using hfirst
    by_cases hfits : ls.length ≤ 16384
    · obtain ⟨ws, hws⟩ := exists_forall₂ hall
      exact ⟨_, .words hws hfits⟩
    · exact ⟨_, .tooLarge hall (Nat.lt_of_not_le hfits)⟩
  | some bad =>
    obtain ⟨hbad, good, rest, hls, hgood⟩ := List.find?_eq_some_iff_append.1 hfirst
    exact ⟨_, .badLine hls (by simpa using hgood) (by simpa using hbad) (trimmed_trim bad)⟩

theorem Reads.read {text : String} (h : Reads text r) : read text = r := by
  unfold WordFile.read
  cases h with
  | blank hblank => rw [hblank.trimEnd_eq]
  | lines hpart hne hgives =>
    rw [hpart.trimEnd_eq]
    split
    · exact absurd rfl hne
    · exact hgives.read

theorem exists_reads (text : String) : ∃ r, Reads text r := by
  have htrimmed := trimmedEnd_trimEnd text.toList
  by_cases hnil : trimEnd text.toList = []
  · exact ⟨_, .blank (hnil ▸ htrimmed)⟩
  · obtain ⟨r, hr⟩ := exists_gives ((trimEnd text.toList).splitOn '\n')
    exact ⟨r, .lines htrimmed hnil hr⟩

end Texts

/-- Every text is read as the format of word files says, and as nothing else. -/
theorem read_accepts_exactly (text : String) (r : Except ReadError (List Word)) :
    read text = r ↔ Reads text r := by
  obtain ⟨r', hr'⟩ := exists_reads text
  constructor
  · rintro rfl
    rwa [hr'.read]
  · exact Reads.read

-- A blank line between others is a bad one, and one at the end of the text does not count.
example : read "1\n \n2" = .error (.badLine 1 .empty) ∧ read "1\n2\n \n" = .ok [1, 2] := by
  decide +kernel

end SolMachine.WordFile
