import SolMachine.Proofs.LineGrammar
import SolMachine.Proofs.LineParts
import SolMachine.Proofs.Unplaced

/-!
# Programs that are written

* `Statement.Readable`, `readable_of_mem_statements` : the names in statements that were read are names
  that can be read again;
* `Body.words`, `toList_render` : a statement is written as words that follow spaces;
* `exists_denotes_render`, `readLine_render` : so its line is in the grammar, and is read again;
* `printed`, `readSource_printed` : a program with a line for each statement;
* `printed_reads_back` : printing undoes reading.
-/

namespace SolMachine.Assembly
open SolMachine.Text

/-! ## What readers give -/

/-- An operand that can be read again: a label that is used has a name of letters. -/
def AddressOperand.Readable : AddressOperand → Prop
  | .int _ => True
  | .label l => l.name.toList ≠ [] ∧ ∀ c ∈ l.name.toList, c.isAlpha

/-- A statement that can be read again. -/
structure Statement.Readable (s : Statement) : Prop where
  label : ∀ l, s.label = some l → isLabel l.name.toList
  operand : ∀ v, s.body.address? = some v → v.Readable

theorem readable_of_readLine {l : Line} {s : Statement} (h : (readLine l).statement = some s) :
    s.Readable := by
  have hread := (readFrom_readLine l).statement s h
  refine ⟨fun label hlabel => ?_, fun v hv => ?_⟩
  · obtain ⟨f, -, hname, rfl⟩ := hread.label label hlabel
    rwa [Field.text, String.toList_ofList]
  · cases hread.operand v hv with
    | int => trivial
    | @label f hf halpha =>
      have hname : f.text.toList = f.chars := String.toList_ofList
      exact ⟨hname ▸ (unbroken_of_mem_fields f hf).ne_nil, hname ▸ halpha⟩

/-- Statements that were read can be read again. -/
theorem readable_of_mem_statements {cs : List Char} :
    ∀ s ∈ (readSource cs).statements, s.Readable := by
  intro s hs
  obtain ⟨l, -, hl⟩ := exists_line_of_mem_statements hs
  exact readable_of_readLine hl

/-! ## How statements are written -/

/-- The text of an operand. -/
def operandText : Register ⊕ AddressOperand → List Char
  | .inl r => (Nat.repr r.val).toList
  | .inr v => v.render.toList

/-- The words of a body: its name and its operands. -/
def Body.words (b : Body) : List (List Char) := b.name.toList :: b.fields.map operandText

section Words

theorem spaced_cons (w : List Char) (ws : List (List Char)) :
    spaced (w :: ws) = ' ' :: [' '].intercalate (w :: ws) := by
  induction ws generalizing w with
  | nil => rw [List.intercalate_singleton]; exact congrArg _ (List.append_nil _)
  | cons v ws ih =>
    rw [List.intercalate_cons_cons, List.append_assoc, List.singleton_append, ← ih]
    rfl

theorem spaced_words (b : Body) : spaced b.words = ' ' :: b.render.toList := by
  unfold Body.words
  rw [spaced_cons]
  cases b with
  | fill v =>
    rw [Body.render, String.toList_append, String.toList_append]
    exact congrArg _ (List.intercalate_cons_cons.trans (congrArg _ List.intercalate_singleton))
  | instruction i =>
    rw [Body.render, Instruction.render, String.toList_intercalate, List.map_cons, List.map_map]
    congr 3
    apply List.map_congr_left
    rintro (r | v) - <;> rfl

/-- A statement is written as its label and words that follow spaces. -/
theorem toList_render (s : Statement) :
    s.render.toList = (s.name?.getD "").toList ++ spaced s.body.words := by
  unfold Statement.render
  rw [spaced_words, String.toList_append, String.toList_append, List.append_assoc]
  rfl

theorem write_register (r : Register) : Decimal.write r.val = Nat.repr r.val := by
  have hneg : ¬ (r.val : Int) < 0 := by omega
  unfold Decimal.write
  rw [if_neg hneg, Int.natAbs_natCast]

theorem isWord_of_isLabel {cs : List Char} (h : isLabel cs) : IsWord cs := by
  cases cs with
  | nil => cases h
  | cons c cs =>
    obtain ⟨hc, hcs⟩ := Bool.and_eq_true_iff.1 h
    refine ⟨List.cons_ne_nil _ _, List.forall_mem_cons.2 ⟨isVisible_of_isAlpha hc, fun d hd => ?_⟩⟩
    exact isVisible_of_isAlphanum (List.all_eq_true.1 hcs d hd)

theorem isWord_name (b : Body) : IsWord b.name.toList := by
  have hnames : ∀ op ∈ Opcode.all, op.name.toList ≠ [] ∧ op.name.toList.all isVisible := by
    decide +kernel
  have hfill : fillName.toList ≠ [] ∧ fillName.toList.all isVisible := by decide +kernel
  cases b with
  | instruction i =>
    obtain ⟨hne, hvisible⟩ := hnames _ (Opcode.mem_all i.opcode)
    exact ⟨hne, List.all_eq_true.1 hvisible⟩
  | fill v => exact ⟨hfill.1, List.all_eq_true.1 hfill.2⟩

theorem isWord_operandText {x : Register ⊕ AddressOperand} (h : ∀ v, x = .inr v → v.Readable) :
    IsWord (operandText x) := by
  rcases x with r | v
  · rw [operandText, ← write_register]
    exact isWord_write _
  · cases v with
    | int w => exact isWord_write _
    | label l =>
      obtain ⟨hne, halpha⟩ := h _ rfl
      exact isWord_of_isLabel (isLabel_of_isAlpha hne halpha)

theorem address?_of_mem_fields {b : Body} {v : AddressOperand} (h : .inr v ∈ b.fields) :
    b.address? = some v := by
  cases b with
  | fill u => exact congrArg some (Sum.inr.inj (List.mem_singleton.1 h)).symm
  | instruction i => cases i <;> simp_all [Body.fields, Instruction.fields, Body.address?,
      Instruction.address?]

theorem isWord_of_mem_words {b : Body} (h : ∀ v, b.address? = some v → v.Readable) :
    ∀ w ∈ b.words, IsWord w := by
  refine List.forall_mem_cons.2 ⟨isWord_name b, List.forall_mem_map.2 fun x hx => ?_⟩
  refine isWord_operandText fun v hv => h v ?_
  exact address?_of_mem_fields (hv ▸ hx)

end Words

/-! ## How they are read again -/

section Reading
variable {f : Field} {b : Body}

/-- The operand without its place in the text. -/
def unplacedOperand : Register ⊕ AddressOperand → Register ⊕ AddressOperand :=
  Sum.map id AddressOperand.unplaced

theorem Body.fields_unplaced (b : Body) : b.unplaced.fields = b.fields.map unplacedOperand := by
  cases b with
  | fill v => rfl
  | instruction i => exact Instruction.fields_map _ i

theorem Body.mnemonic_unplaced (b : Body) : b.unplaced.mnemonic = b.mnemonic := by
  cases b with
  | fill v => rfl
  | instruction i => exact congrArg Mnemonic.operation (Instruction.opcode_map _ i)

/-- The mnemonic and the operands determine a body. -/
theorem Body.eq_of_fields {c : Body} (hm : b.mnemonic = c.mnemonic) (hfields : b.fields = c.fields) :
    b = c := by
  have h := (body_put b 0).1
  rw [hm, hfields] at h
  exact h.symm.trans (body_put c 0).1

/-- A field with the text of an operand is that operand, but for its place. -/
theorem exists_gives {x : Register ⊕ AddressOperand} (hx : ∀ v, x = .inr v → v.Readable)
    (hf : f.chars = operandText x) : ∃ y, f.Gives y ∧ unplacedOperand y = unplacedOperand x := by
  rcases x with r | v
  · refine ⟨.inl r, .register ?_, rfl⟩
    rw [hf, operandText, ← write_register, ← toInt_ofNat_register]
    exact Decimal.numeral_write _
  · cases v with
    | int w => exact ⟨.inr (.int w), .int (hf ▸ Decimal.numeral_write w), rfl⟩
    | label l =>
      have hname : f.chars = l.name.toList := hf
      obtain ⟨hne, halpha⟩ := hx _ rfl
      refine ⟨_, .label (by rwa [hname]) (by rwa [hname]), ?_⟩
      rw [Field.text, hname, String.ofList_toList]
      rfl

theorem exists_forall₂_gives {xs : List (Register ⊕ AddressOperand)} {fs : List Field}
    (hxs : ∀ v, .inr v ∈ xs → v.Readable) (hfs : fs.map Field.chars = xs.map operandText) :
    ∃ ys, List.Forall₂ Field.Gives fs ys ∧ ys.map unplacedOperand = xs.map unplacedOperand := by
  induction xs generalizing fs with
  | nil =>
    obtain rfl := List.map_eq_nil_iff.1 hfs
    exact ⟨[], .nil, rfl⟩
  | cons x xs ih =>
    obtain ⟨f, fs, rfl, hf, hrest⟩ := List.map_eq_cons_iff.1 hfs
    obtain ⟨y, hy, hsame⟩ := exists_gives (fun v hv => hxs v (hv ▸ List.mem_cons_self)) hf
    obtain ⟨ys, hys, hrestsame⟩ := ih (fun v hv => hxs v (List.mem_cons_of_mem _ hv)) hrest
    exact ⟨y :: ys, .cons hy hys, by rw [List.map_cons, List.map_cons, hsame, hrestsame]⟩

/-- The words of a body say that body, but for places. -/
theorem exists_writtenIn_words (hb : ∀ v, b.address? = some v → v.Readable) (label : Option Label)
    {fs : List Field} (hfs : fs.map Field.chars = b.words) :
    ∃ (f : Field) (rest : List Field) (t : Statement), fs = f :: rest ∧ t.label = label ∧
      t.WrittenIn f rest ∧ t.body.unplaced = b.unplaced := by
  obtain ⟨f, rest, rfl, hf, hrest⟩ := List.map_eq_cons_iff.1 hfs
  obtain ⟨ys, hgives, hsame⟩ :=
    exists_forall₂_gives (fun v hv => hb v (address?_of_mem_fields hv)) hrest
  have hkind : ∀ xs : List (Register ⊕ AddressOperand),
      (xs.map unplacedOperand).map operandKind = xs.map operandKind := fun xs => by
    rw [List.map_map]
    exact List.map_congr_left fun x _ => by cases x <;> rfl
  have hkinds : ys.map operandKind = b.mnemonic.operands := by
    rw [← hkind, hsame, hkind, map_operandKind_fields]
  obtain ⟨c, hm, rfl⟩ := exists_body hkinds
  refine ⟨f, rest, ⟨label, c, _⟩, rfl, rfl, ⟨?_, rest, .operands List.prefix_rfl hgives, rfl⟩, ?_⟩
  · rw [Field.text, hf, String.ofList_toList, ← c.name_mnemonic, hm, b.name_mnemonic]
  · apply Body.eq_of_fields
    · rw [Body.mnemonic_unplaced, hm, ← Body.mnemonic_unplaced]
    · rw [Body.fields_unplaced, hsame, ← Body.fields_unplaced]

theorem hasLabel_of_isWord {start : Nat} {w : List Char} (hw : IsWord w) (cs : List Char) :
    hasLabel ⟨start, w ++ cs⟩ := by
  obtain ⟨hne, hvisible⟩ := hw
  obtain ⟨c, w, rfl⟩ := List.exists_cons_of_ne_nil hne
  show (!isBlank c)
  rw [isBlank_of_isVisible (hvisible c List.mem_cons_self)]
  rfl

/-- The line of a statement is in the grammar, and denotes that statement, but for places. -/
theorem exists_denotes_render {s : Statement} (hs : s.Readable) (start : Nat) :
    ∃ t, Denotes ⟨start, s.render.toList⟩ t ∧ t.unplaced = s.unplaced := by
  obtain ⟨label, b, span⟩ := s
  rw [toList_render]
  cases label with
  | none =>
    have hchars := chars_splitFields_spaced start (isWord_of_mem_words hs.operand)
    obtain ⟨f, rest, t, hfields, hlabel, hwritten, hbody⟩ :=
      exists_writtenIn_words hs.operand none hchars
    refine ⟨t, .unlabelled rfl hfields hlabel hwritten, ?_⟩
    unfold Statement.unplaced
    rw [hlabel, hbody]
  | some l =>
    have hname := hs.label l rfl
    have hword := isWord_of_isLabel hname
    have hsplit := splitFields_word start hword (isBlank_of_mem_head?_spaced b.words)
    have hchars :=
      chars_splitFields_spaced (start + byteLength l.name.toList) (isWord_of_mem_words hs.operand)
    let first : Field := ⟨start, l.name.toList⟩
    obtain ⟨f, rest, t, hfields, hlabel, hwritten, hbody⟩ :=
      exists_writtenIn_words hs.operand (some ⟨first.text, first.span⟩) hchars
    refine ⟨t, .labelled (hasLabel_of_isWord hword _) (hsplit.trans (congrArg _ hfields)) hname
      hlabel hwritten, ?_⟩
    unfold Statement.unplaced Label.unplaced
    rw [hlabel, hbody, Option.map_some, Option.map_some, Field.text, String.ofList_toList]

/-- The line of a statement is read as that statement. -/
theorem readLine_render {s : Statement} (hs : s.Readable) (start : Nat) :
    ∃ t, readLine ⟨start, s.render.toList⟩ = ⟨some t, []⟩ ∧ t.unplaced = s.unplaced := by
  obtain ⟨t, hdenotes, hsame⟩ := exists_denotes_render hs start
  exact ⟨t, hdenotes.read, hsame⟩

end Reading

/-! ## Programs -/

/-- The text of a program, with a line for each statement. -/
def printed (ss : List Statement) : String := "\n".intercalate (ss.map Statement.render)

section Printed
variable {ss : List Statement}

theorem newline_not_mem_render {s : Statement} (hs : s.Readable) : '\n' ∉ s.render.toList := by
  have hword : ∀ w, IsWord w → '\n' ∉ w := fun w hw h => by cases hw.visible _ h
  rw [toList_render, List.mem_append, spaced, List.mem_flatMap]
  rintro (h | ⟨w, hw, h⟩)
  · obtain ⟨label, b, span⟩ := s
    cases label with
    | none => cases h
    | some l => exact hword _ (isWord_of_isLabel (hs.label l rfl)) h
  · rcases List.mem_cons.1 h with hspace | h
    · cases hspace
    · exact hword w (isWord_of_mem_words hs.operand w hw) h

theorem readLine_locate (hss : ∀ s ∈ ss, s.Readable) (base : Nat) :
    ∃ ts : List Statement, (locate base (ss.map fun s => s.render.toList)).map readLine =
        ts.map (fun t => ⟨some t, []⟩) ∧
      ts.map Statement.unplaced = ss.map Statement.unplaced := by
  induction ss generalizing base with
  | nil => exact ⟨[], rfl, rfl⟩
  | cons s ss ih =>
    obtain ⟨hs, hrest⟩ := List.forall_mem_cons.1 hss
    obtain ⟨t, hline, ht⟩ := readLine_render hs base
    obtain ⟨ts, hlines, hts⟩ := ih hrest (base + byteLength s.render.toList + 1)
    refine ⟨t :: ts, ?_, ?_⟩
    · rw [List.map_cons, locate, List.map_cons, hline, hlines]
      rfl
    · rw [List.map_cons, List.map_cons, ht, hts]

/-- A program that is written is read again. -/
theorem readSource_printed (hss : ∀ s ∈ ss, s.Readable) :
    ∃ ts, readSource (printed ss).toList = ⟨ts, []⟩ ∧
      ts.map Statement.unplaced = ss.map Statement.unplaced := by
  have htext : (printed ss).toList = ['\n'].intercalate (ss.map fun s => s.render.toList) := by
    rw [printed, String.toList_intercalate, List.map_map]
    rfl
  unfold readSource lines
  rw [htext]
  by_cases hnil : ss = []
  · subst hnil
    have hblank : readLine ⟨0, []⟩ = ⟨none, []⟩ := readLine_of_isBlank rfl
    refine ⟨[], ?_, rfl⟩
    rw [List.map_nil, List.intercalate_nil, List.splitOn_nil]
    simp only [locate, List.map_cons, hblank]
    rfl
  · have hlines : ∀ l ∈ ss.map (fun s => s.render.toList), '\n' ∉ l :=
      List.forall_mem_map.2 fun s hs => newline_not_mem_render (hss s hs)
    rw [List.splitOn_intercalate _ hlines (mt List.map_eq_nil_iff.1 hnil)]
    obtain ⟨ts, hread, hts⟩ := readLine_locate hss 0
    refine ⟨ts, ?_, hts⟩
    simp only [hread, List.filterMap_map, List.flatMap_map, SourceResult.mk.injEq]
    exact ⟨List.filterMap_some, List.flatMap_eq_nil_iff.2 fun _ _ => rfl⟩

theorem printed_eq_of_unplaced {ts : List Statement}
    (h : ts.map Statement.unplaced = ss.map Statement.unplaced) : printed ts = printed ss := by
  have hrender : ∀ us : List Statement,
      us.map Statement.render = (us.map Statement.unplaced).map Statement.render := fun us => by
    rw [List.map_map]
    exact List.map_congr_left fun s _ => s.render_unplaced.symm
  unfold printed
  rw [hrender, h, ← hrender]

/-- Programs that are the same but for places are assembled to the same words. -/
theorem assemble_of_unplaced {source text : String} {debug : Bool} {p : Program}
    (hfaults : (readSource text.toList).faults = [])
    (hsame : (readSource text.toList).statements.map Statement.unplaced =
      (readSource source.toList).statements.map Statement.unplaced)
    (h : assemble source debug = .ok p) :
    ∃ q, assemble text debug = .ok q ∧ q.words = p.words := by
  obtain ⟨hacc, hwords⟩ := acceptable_of_assemble h
  obtain ⟨hearly, hoperands⟩ := (acceptable_iff _).1 hacc
  have hformed := (programFaults_eq_nil_iff _).1 ((earlyFaults_eq_nil_iff _).1 hearly).2
  have hresolvable := (operandFaults_eq_nil_iff _).1 hoperands
  rw [← wellFormed_unplaced, ← hsame, wellFormed_unplaced] at hformed
  rw [← resolvable_unplaced, ← hsame, resolvable_unplaced] at hresolvable
  obtain ⟨q, hq, hqwords⟩ := assemble_of_no_faults
    ((earlyFaults_eq_nil_iff _).2 ⟨hfaults, (programFaults_eq_nil_iff _).2 hformed⟩)
    ((operandFaults_eq_nil_iff _).2 hresolvable) debug
  refine ⟨q, hq, ?_⟩
  rw [hqwords, hwords, ← words_unplaced, hsame, words_unplaced]

/-- Printing undoes reading. The statements of a text, written with a line for each, are read again as
the same statements but for the places of their parts, and are then written in the same way. If the
text can be assembled, so can what is written, and to the same words. -/
theorem printed_reads_back {source : String} {ss : List Statement}
    (h : statements? source.toList = .ok ss) :
    ∃ ts, statements? (printed ss).toList = .ok ts ∧
      ts.map Statement.unplaced = ss.map Statement.unplaced ∧
      printed ts = printed ss ∧
      ∀ debug p, assemble source debug = .ok p →
        ∃ q, assemble (printed ss) debug = .ok q ∧ q.words = p.words := by
  have hss : (readSource source.toList).statements = ss := by
    simp only [statements?] at h
    split at h
    · exact Except.ok.inj h
    · cases h
  subst hss
  obtain ⟨ts, hread, hts⟩ := readSource_printed fun s hs => readable_of_mem_statements s hs
  refine ⟨ts, ?_, hts, printed_eq_of_unplaced hts, fun debug p hp => ?_⟩
  · unfold statements?
    rw [hread]
    rfl
  · exact assemble_of_unplaced (by rw [hread]) (by rw [hread]; exact hts) hp

/-- A comment and an empty line are dropped, and the register of a `push` is written out. -/
theorem printed_reads_back_push :
    let source := "go push\n\n pop 2 tidy\nx .fill -7\n jne go\n lw 3 4 x"
    ∃ ss ts, statements? source.toList = .ok ss ∧
      printed ss = "go push 1\n pop 2\nx .fill -7\n jne go\n lw 3 4 x" ∧
      statements? (printed ss).toList = .ok ts ∧
      ts.map Statement.unplaced = ss.map Statement.unplaced ∧
      ∃ p q, assemble source false = .ok p ∧ assemble (printed ss) false = .ok q ∧
        q.words = p.words := by
  intro source
  have hprinted : (statements? source.toList).toOption.map printed =
      some "go push 1\n pop 2\nx .fill -7\n jne go\n lw 3 4 x" := by decide +kernel
  obtain ⟨p, hp, -⟩ := @assemble_of_no_faults source (by decide +kernel) (by decide +kernel) false
  cases hss : statements? source.toList with
  | error ds => rw [hss] at hprinted; cases hprinted
  | ok ss =>
    rw [hss] at hprinted
    obtain ⟨ts, hts, hsame, -, hassemble⟩ := printed_reads_back hss
    obtain ⟨q, hq, hwords⟩ := hassemble false p hp
    exact ⟨ss, ts, rfl, Option.some.inj hprinted, hts, hsame, p, q, hp, hq, hwords⟩

end Printed

end SolMachine.Assembly
