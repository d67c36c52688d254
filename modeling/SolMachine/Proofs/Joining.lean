import SolMachine.Proofs.Shifting
import SolMachine.Proofs.WordValues

/-!
# One program after the other

* `balance_append`, `balanced_append`, `labelAddress?_append` : stack and labels of two lists of
  statements, one after the other;
* `Joinable` : what two programs need to be one program; `joinable_iff`;
* `operandNumber_first`, `operandNumber_second` : what operands stand for in the joined program: the
  labels of the second one lie further down, and so do the branches to them;
* `Relocated` : how the words of the second program change; `relocated_wordOf`;
* `assemble_append` : the program of two texts with a line feed between them.
-/

namespace SolMachine.Instruction

theorem map_congr {α β : Type} {f g : α → β} {i : Instruction α}
    (h : ∀ x, i.address? = some x → f x = g x) : i.map f = i.map g := by
  cases i with
  | transfer op a b x => exact congrArg (transfer op a b) (h x rfl)
  | branch op a b x => exact congrArg (branch op a b) (h x rfl)
  | jne x => exact congrArg jne (h x rfl)
  | _ => rfl

end SolMachine.Instruction

namespace SolMachine.Assembly
open SolMachine.Text

/-! ## Lists of statements -/

section Append
variable (ss ts : List Statement)

theorem balance_append : balance (ss ++ ts) = balance ss + balance ts := by
  unfold balance
  rw [List.countP_append, List.countP_append]
  omega

theorem prefix_append_iff {before : List Statement} :
    before <+: ss ++ ts ↔ before <+: ss ∨ ∃ rest, rest <+: ts ∧ before = ss ++ rest := by
  constructor
  · intro h
    rcases List.prefix_or_prefix_of_prefix h (List.prefix_append ss ts) with hshort | ⟨rest, rfl⟩
    · exact .inl hshort
    · exact .inr ⟨rest, (List.prefix_append_right_inj ss).1 h, rfl⟩
  · rintro (hshort | ⟨rest, hrest, rfl⟩)
    · exact hshort.trans (List.prefix_append ss ts)
    · exact (List.prefix_append_right_inj ss).2 hrest

theorem balanced_append : Balanced (ss ++ ts) ↔ Balanced ss ∧
    ∀ before, before <+: ts → 0 ≤ balance ss + balance before ∧ balance ss + balance before ≤ 32 := by
  constructor
  · intro h
    refine ⟨fun before hb => h before ((prefix_append_iff ss ts).2 (.inl hb)), fun before hb => ?_⟩
    rw [← balance_append]
    exact h _ ((prefix_append_iff ss ts).2 (.inr ⟨before, hb, rfl⟩))
  · rintro ⟨hss, hts⟩ before hb
    rcases (prefix_append_iff ss ts).1 hb with hb | ⟨rest, hrest, rfl⟩
    · exact hss before hb
    · rw [balance_append]
      exact hts rest hrest

theorem labelAddress?_append (name : String) : labelAddress? (ss ++ ts) name =
    (labelAddress? ss name).or ((labelAddress? ts name).map (· + ss.length)) := by
  induction ts using List.reverseRecOn with
  | nil => rw [List.append_nil]; exact (Option.or_none).symm
  | append_singleton ts t ih =>
    rw [← List.append_assoc, labelAddress?_append_singleton, ih, labelAddress?_append_singleton,
      Option.map_or, Option.or_assoc, List.length_append, Nat.add_comm ss.length]
    congr 2
    split <;> rfl

end Append

/-- What two programs need to be one program. -/
structure Joinable (ss ts : List Statement) : Prop where
  /-- No label is defined in both. -/
  labels : ∀ name ∈ labelNames ss, name ∉ labelNames ts
  size : ss.length + ts.length ≤ 16384
  /-- What the first one leaves on the stack is below all that the second one has there. -/
  stack : ∀ before, before <+: ts → balance ss + balance before ≤ 32
  /-- The integers of branches in the second one lead to addresses of memory. -/
  branches : ∀ (j : Nat) s i w, ts[j]? = some s → s.body = .instruction i → i.opcode.isRelative →
    i.address? = some (.int w) → (ss.length : Int) + j + 1 + w.toInt ≤ 16383

section Join
variable {ss ts : List Statement}

theorem nodup_labelNames_append : (labelNames (ss ++ ts)).Nodup ↔ (labelNames ss).Nodup ∧
    (labelNames ts).Nodup ∧ ∀ name ∈ labelNames ss, name ∉ labelNames ts := by
  rw [labelNames_append, List.nodup_append]
  refine and_congr_right fun _ => and_congr_right fun _ => ⟨fun h name hs ht => ?_, ?_⟩
  · exact h name hs name ht rfl
  · rintro h name hs name' ht rfl
    exact h name hs ht

theorem wellFormed_append (hss : WellFormed ss) (hts : WellFormed ts) :
    WellFormed (ss ++ ts) ↔ (∀ name ∈ labelNames ss, name ∉ labelNames ts) ∧
      ss.length + ts.length ≤ 16384 ∧ ∀ before, before <+: ts → balance ss + balance before ≤ 32 := by
  constructor
  · rintro ⟨hsize, hlabels, hstack⟩
    rw [List.length_append] at hsize
    exact ⟨(nodup_labelNames_append.1 hlabels).2.2, hsize,
      fun before hbefore => (((balanced_append ss ts).1 hstack).2 before hbefore).2⟩
  · rintro ⟨hlabels, hsize, hstack⟩
    refine ⟨by rwa [List.length_append], nodup_labelNames_append.2 ⟨hss.labels, hts.labels, hlabels⟩,
      (balanced_append ss ts).2 ⟨hss.stack, fun before hbefore => ⟨?_, hstack before hbefore⟩⟩⟩
    have hfirst := (hss.stack ss (List.prefix_refl ss)).1
    have hsecond := (hts.stack before hbefore).1
    omega

theorem resolvable_append (hss : Resolvable ss) (hts : Resolvable ts) :
    Resolvable (ss ++ ts) ↔ ∀ (j : Nat) s i w, ts[j]? = some s → s.body = .instruction i →
      i.opcode.isRelative → i.address? = some (.int w) →
      (ss.length : Int) + j + 1 + w.toInt ≤ 16383 := by
  constructor
  · intro h j s i w hs hi hrel hw
    have hplace : (ss ++ ts)[ss.length + j]? = some s := by
      rw [List.getElem?_append_right (Nat.le_add_right _ _), Nat.add_sub_cancel_left, hs]
    have hrange := (h.relative (ss.length + j) s i w hplace hi hrel hw).2.2
    omega
  · intro h
    refine ⟨fun s hs l hl => ?_, fun s hs op a b w hbody => ?_, fun a s i w hs hi hrel hw => ?_⟩
    · rw [labelNames_append, List.mem_append]
      rcases List.mem_append.1 hs with hs | hs
      · exact .inl (hss.defined s hs l hl)
      · exact .inr (hts.defined s hs l hl)
    · rcases List.mem_append.1 hs with hs | hs
      · exact hss.absolute s hs op a b w hbody
      · exact hts.absolute s hs op a b w hbody
    · by_cases ha : a < ss.length
      · rw [List.getElem?_append_left ha] at hs
        exact hss.relative a s i w hs hi hrel hw
      · rw [List.getElem?_append_right (Nat.le_of_not_lt ha)] at hs
        have hupper := h (a - ss.length) s i w hs hi hrel hw
        obtain ⟨hfits, hlower, -⟩ := hts.relative (a - ss.length) s i w hs hi hrel hw
        refine ⟨hfits, ?_, ?_⟩ <;> omega

/-- Two programs that can be assembled are one program if they can be joined. -/
theorem joinable_iff (hss : WellFormed ss) (hts : WellFormed ts) (hss' : Resolvable ss)
    (hts' : Resolvable ts) : WellFormed (ss ++ ts) ∧ Resolvable (ss ++ ts) ↔ Joinable ss ts := by
  rw [wellFormed_append hss hts, resolvable_append hss' hts']
  constructor
  · rintro ⟨⟨hlabels, hsize, hstack⟩, hbranches⟩
    exact ⟨hlabels, hsize, hstack, hbranches⟩
  · rintro ⟨hlabels, hsize, hstack, hbranches⟩
    exact ⟨⟨hlabels, hsize, hstack⟩, hbranches⟩

end Join

/-! ## Words -/

/-- How the word `w` of a statement changes to `w'` when the statement comes to lie behind `k` others:
a `.fill` of a label is larger by `k`, and so is the displacement of a `lw` or `sw` with a label. -/
def Relocated (k : Nat) (s : Statement) (w w' : Word) : Prop :=
  match s.body with
  | .fill (.label _) => w'.toInt = w.toInt + k
  | .instruction (.transfer op a b (.label _)) => ∃ d d' : Displacement,
    w = (Instruction.transfer op a b d).encode ∧ w' = (Instruction.transfer op a b d').encode ∧
      d'.value.toInt = d.value.toInt + k
  | _ => w' = w

section Words
variable {ss ts : List Statement} {s : Statement} {a j : Nat} {l : Label} {x : AddressOperand}

/-- The labels of the first program stay where they are. -/
theorem operandNumber_first (hx : ∀ l, x = .label l → l.name ∈ labelNames ss) (relative : Bool) :
    operandNumber (ss ++ ts) a relative x = operandNumber ss a relative x := by
  cases x with
  | int w => rfl
  | label l =>
    obtain ⟨b, hb⟩ := exists_labelAddress? (hx l rfl)
    simp only [operandNumber, labelAddress?_append, hb, Option.some_or]

/-- The labels of the second program move as its statements do. -/
theorem labelAddress?_second (hjoin : Joinable ss ts) (hl : l.name ∈ labelNames ts) :
    ∃ b < ts.length, labelAddress? ts l.name = some b ∧
      labelAddress? (ss ++ ts) l.name = some (b + ss.length) := by
  obtain ⟨b, hb⟩ := exists_labelAddress? hl
  have hfirst : labelAddress? ss l.name = none :=
    labelAddress?_eq_none_iff.2 fun hmem => hjoin.labels _ hmem hl
  refine ⟨b, labelAddress?_lt hb, hb, ?_⟩
  rw [labelAddress?_append, hfirst, hb]
  rfl

/-- A branch and its target move together. -/
theorem operandNumber_relative (hjoin : Joinable ss ts)
    (hx : ∀ l, x = .label l → l.name ∈ labelNames ts) :
    operandNumber (ss ++ ts) (j + ss.length) true x = operandNumber ts j true x := by
  cases x with
  | int w => rfl
  | label l =>
    obtain ⟨b, -, hb, hmoved⟩ := labelAddress?_second hjoin (hx l rfl)
    simp only [operandNumber, hb, hmoved, Option.getD_some, if_true]
    omega

/-- The address of a label grows by the length of the first program. -/
theorem operandNumber_absolute (hjoin : Joinable ss ts) (hl : l.name ∈ labelNames ts) :
    operandNumber (ss ++ ts) (j + ss.length) false (.label l) =
        operandNumber ts j false (.label l) + ss.length ∧
      0 ≤ operandNumber ts j false (.label l) ∧
      operandNumber ts j false (.label l) < ts.length := by
  obtain ⟨b, hlt, hb, hmoved⟩ := labelAddress?_second hjoin hl
  simp only [operandNumber, hb, hmoved, Option.getD_some, Bool.false_eq_true, if_false]
  omega

theorem wordOf_first (hss : Resolvable ss) (hs : ss[a]? = some s) :
    wordOf (ss ++ ts) a s = wordOf ss a s := by
  have hdefined := hss.defined s (List.mem_of_getElem? hs)
  unfold wordOf
  cases hbody : s.body with
  | fill v =>
    rw [hbody] at hdefined
    exact congrArg (BitVec.ofInt 32)
      (operandNumber_first (fun l hl => hdefined l (congrArg some hl)) false)
  | instruction i =>
    rw [hbody] at hdefined
    refine congrArg Instruction.encode (Instruction.map_congr fun x hx => ?_)
    rw [operandNumber_first fun l hl => hdefined l (hl ▸ hx)]

theorem relocated_wordOf (hjoin : Joinable ss ts) (hts : Resolvable ts)
    (hjoined : Resolvable (ss ++ ts)) (hs : ts[j]? = some s) :
    Relocated ss.length s (wordOf ts j s) (wordOf (ss ++ ts) (j + ss.length) s) := by
  have hdefined := hts.defined s (List.mem_of_getElem? hs)
  have hsize := hjoin.size
  have hplace : (ss ++ ts)[j + ss.length]? = some s := by
    rw [List.getElem?_append_right (Nat.le_add_left _ _), Nat.add_sub_cancel, hs]
  have hbranch : ∀ i : Instruction AddressOperand, s.body = .instruction i → i.opcode.isRelative →
      instructionOf (ss ++ ts) (j + ss.length) i = instructionOf ts j i := by
    refine fun i hi hrel => Instruction.map_congr fun x hx => ?_
    rw [hrel, operandNumber_relative hjoin fun l hl => hdefined l (by rw [hi]; exact hl ▸ hx)]
  obtain ⟨label, body, span⟩ := s
  cases body with
  | fill v =>
    cases v with
    | int w => rfl
    | label l =>
      obtain ⟨hmoved, hlo, hhi⟩ := operandNumber_absolute (j := j) hjoin (hdefined l rfl)
      show (BitVec.ofInt 32 _).toInt = (BitVec.ofInt 32 _).toInt + _
      rw [hmoved, Word.toInt_ofInt, Word.toInt_ofInt, Word.signed_of_mem (by omega) (by omega),
        Word.signed_of_mem (by omega) (by omega)]
  | instruction i =>
    cases i with
    | transfer op a b x =>
      cases x with
      | int w => rfl
      | label l =>
        obtain ⟨hmoved, -, -⟩ := operandNumber_absolute (j := j) hjoin (hdefined l rfl)
        refine ⟨_, _, rfl, rfl, ?_⟩
        have hbefore := toInt_operandNumber hts (by omega) hs rfl (x := .label l) rfl
        have hafter := toInt_operandNumber hjoined (by rw [List.length_append]; omega) hplace rfl
          (x := .label l) rfl
        exact hafter.trans (hmoved.trans (congrArg (· + (ss.length : Int)) hbefore.symm))
    | branch op a b x => exact congrArg Instruction.encode (hbranch _ rfl rfl)
    | jne x => exact congrArg Instruction.encode (hbranch _ rfl rfl)
    | _ => rfl

end Words

/-! ## The assembler -/

/-- A text can be assembled if its lines can be read, and its statements are a program whose operands
all have values. -/
theorem exists_assemble_iff {source : String} {debug : Bool} :
    (∃ p, assemble source debug = .ok p) ↔ (readSource source.toList).faults = [] ∧
      WellFormed (readSource source.toList).statements ∧
      Resolvable (readSource source.toList).statements := by
  rw [← programFaults_eq_nil_iff, ← operandFaults_eq_nil_iff, ← and_assoc, ← earlyFaults_eq_nil_iff]
  constructor
  · rintro ⟨p, hp⟩
    exact (acceptable_iff _).1 (acceptable_of_assemble hp).1
  · rintro ⟨hearly, hoperands⟩
    obtain ⟨p, hp, -⟩ := assemble_of_no_faults hearly hoperands debug
    exact ⟨p, hp⟩

/-- But for places, the statements of two texts are those of the one and then those of the other. -/
theorem unplaced_joined (a b : String) :
    (readSource (a ++ "\n" ++ b).toList).statements.map Statement.unplaced =
      ((readSource a.toList).statements ++ (readSource b.toList).statements).map
        Statement.unplaced := by
  rw [toList_joined, readSource_append, List.map_append, List.map_append, Statement.shift_eq_move,
    map_unplaced_move]

theorem words_first {ss ts : List Statement} (hss : Resolvable ss) :
    ss.mapIdx (wordOf (ss ++ ts)) = ss.mapIdx (wordOf ss) := by
  apply List.ext_getElem?
  intro a
  rw [List.getElem?_mapIdx, List.getElem?_mapIdx]
  cases hs : ss[a]? with
  | none => rw [Option.map_none, Option.map_none]
  | some s => rw [Option.map_some, Option.map_some, wordOf_first hss hs]

/-- The program of two texts with a line feed between them. If each of them can be assembled, so can the
whole if no label is defined in both, it fits in memory, the stack of the first leaves room for the
second, and the integers of branches still lead to addresses of memory; and else it cannot. Its words are
those of the first text, and then those of the second, one for each statement, in which nothing has
changed but what stands for a label: in a `.fill`, a `lw` or a `sw` it is larger by the number of words
before. Branches keep their words, those to labels too. -/
theorem assemble_append {a b : String} {debug : Bool} {p q : Program}
    (hp : assemble a debug = .ok p) (hq : assemble b debug = .ok q) :
    ((∃ r, assemble (a ++ "\n" ++ b) debug = .ok r) ↔
      Joinable (readSource a.toList).statements (readSource b.toList).statements) ∧
    ∀ r, assemble (a ++ "\n" ++ b) debug = .ok r → ∃ moved, r.words = p.words ++ moved ∧
      moved.length = q.words.length ∧
      q.words.length = (readSource b.toList).statements.length ∧
      ∀ (j : Nat) s w w', (readSource b.toList).statements[j]? = some s → q.words[j]? = some w →
        moved[j]? = some w' → Relocated p.words.length s w w' := by
  have hsame := unplaced_joined a b
  have hread := readSource_append a.toList b.toList
  rw [← toList_joined] at hread
  obtain ⟨hfaults, hformed, hresolvable⟩ := exists_assemble_iff.1 ⟨p, hp⟩
  obtain ⟨hfaults', hformed', hresolvable'⟩ := exists_assemble_iff.1 ⟨q, hq⟩
  have hwords := (acceptable_of_assemble hp).2
  have hwords' := (acceptable_of_assemble hq).2
  generalize (readSource a.toList).statements = ss at *
  generalize (readSource b.toList).statements = ts at *
  have hjoinable := joinable_iff hformed hformed' hresolvable hresolvable'
  have hnone : (readSource (a ++ "\n" ++ b).toList).faults = [] := by
    rw [hread, hfaults, hfaults']
    rfl
  have hiff : (∃ r, assemble (a ++ "\n" ++ b) debug = .ok r) ↔ Joinable ss ts := by
    rw [exists_assemble_iff, ← wellFormed_unplaced, ← resolvable_unplaced, hsame,
      wellFormed_unplaced, resolvable_unplaced, hjoinable]
    exact and_iff_right hnone
  refine ⟨hiff, fun r hr => ?_⟩
  have hjoin := hiff.1 ⟨r, hr⟩
  obtain ⟨-, hjoined⟩ := hjoinable.2 hjoin
  refine ⟨ts.mapIdx fun j => wordOf (ss ++ ts) (j + ss.length), ?_, ?_, ?_,
    fun j s w w' hs hw hw' => ?_⟩
  · rw [(acceptable_of_assemble hr).2, ← words_unplaced, hsame, words_unplaced, List.mapIdx_append,
      words_first hresolvable, hwords]
  · rw [hwords', List.length_mapIdx, List.length_mapIdx]
  · rw [hwords', List.length_mapIdx]
  · rw [hwords', List.getElem?_mapIdx, hs] at hw
    rw [List.getElem?_mapIdx, hs] at hw'
    obtain rfl := Option.some.inj hw
    obtain rfl := Option.some.inj hw'
    rw [hwords, List.length_mapIdx]
    exact relocated_wordOf hjoin hresolvable' hjoined hs

/-- The word of a label in the second text grows by the two words of the first one, and a branch to that
label does not change. -/
theorem assemble_append_labels :
    let a := "x lw 0 1 x\n push 2"
    let b := "y .fill y\n\n beq 0 0 y"
    ∃ p q r moved, assemble a false = .ok p ∧ assemble b false = .ok q ∧
      assemble (a ++ "\n" ++ b) false = .ok r ∧
      Joinable (readSource a.toList).statements (readSource b.toList).statements ∧
      r.words = p.words ++ moved ∧ q.words = [0, 0x02007FFE] ∧
      moved.map BitVec.toInt = [2, 0x02007FFE] := by
  intro a b
  obtain ⟨s, hs, hfill⟩ : ∃ s, (readSource b.toList).statements[0]? = some s ∧
    s.body = .fill (.label ⟨"y", 8, 9⟩) := Option.map_eq_some_iff.1 (by decide +kernel)
  obtain ⟨t, ht, hbeq⟩ : ∃ t, (readSource b.toList).statements[1]? = some t ∧
    t.body = .instruction (.branch .beq 0 0 (.label ⟨"y", 20, 21⟩)) :=
      Option.map_eq_some_iff.1 (by decide +kernel)
  obtain ⟨p, hp, hpwords⟩ := @assemble_of_no_faults a (by decide +kernel) (by decide +kernel) false
  obtain ⟨q, hq, hqwords⟩ := @assemble_of_no_faults b (by decide +kernel) (by decide +kernel) false
  obtain ⟨r, hr, -⟩ := @assemble_of_no_faults (a ++ "\n" ++ b) (by decide +kernel)
    (by decide +kernel) false
  obtain ⟨hjoinable, hmoves⟩ := assemble_append hp hq
  obtain ⟨moved, hwords, hlength, -, hrelocated⟩ := hmoves r hr
  have hp2 : p.words.length = 2 := by
    rw [hpwords]
    decide +kernel
  have hq2 : q.words = [0, 0x02007FFE] := by
    rw [hqwords]
    decide +kernel
  rw [hq2] at hlength hrelocated
  refine ⟨p, q, r, moved, hp, hq, hr, hjoinable.1 ⟨r, hr⟩, hwords, hq2, ?_⟩
  obtain ⟨v, w, rfl⟩ := List.length_eq_two.1 hlength
  have hv := hrelocated 0 s _ v hs rfl rfl
  have hw := hrelocated 1 t _ w ht rfl rfl
  unfold Relocated at hv hw
  rw [hfill, hp2] at hv
  rw [hbeq] at hw
  rw [List.map_cons, List.map_singleton, hv, hw]
  decide

end SolMachine.Assembly
