import SolMachine.Proofs.OperandGrammar

/-!
# The grammar of lines

* `Body.WrittenIn`, `Statement.WrittenIn` : the fields that say a body, and a statement but for its
  label;
* `Denotes` : a line is in the grammar and denotes a statement; `Denotes.read` : then it is read so;
* `BodyDefects`, `Defects` : what is wrong with a line, in order; `Defects.faults` : that is reported;
* `exists_defects`, `Defects.exists_denotes` : every line that is not blank has its defects, and one
  without any is in the grammar;
* `readLine_exact` : a line is read as the statement that it denotes, or its defects are reported.
-/

namespace SolMachine.Assembly
open SolMachine.Text

/-! ## The grammar -/

/-- What stands behind the label in the line of a body. -/
def Body.mnemonic : Body → Mnemonic
  | .instruction i => .operation i.opcode
  | .fill _ => .fill

/-- The operations that need no operand and can have one. -/
def Mnemonic.Sparing (m : Mnemonic) : Prop := m = .operation .push ∨ m = .operation .pop

/-- The fields `rest` behind the mnemonic say the operands of the body, in the fields `taken`. -/
inductive Body.WrittenIn (b : Body) (rest : List Field) : List Field → Prop
  /-- A field for each operand; those behind them are a comment. -/
  | operands {taken : List Field} : taken <+: rest → List.Forall₂ Field.Gives taken b.fields →
      b.WrittenIn rest taken
  /-- No integer follows, so the register is the default one, and all that follows is a comment. -/
  | spare : b.mnemonic.Sparing → b.fields = [.inl .stackDefault] →
      (∀ g ∈ rest.head?, ¬ g.IsInteger) → b.WrittenIn rest []

/-- The field `f` and the fields behind it say the body of the statement, where it stands. -/
structure Statement.WrittenIn (s : Statement) (f : Field) (rest : List Field) : Prop where
  name : f.text = s.body.name
  operands : ∃ taken, s.body.WrittenIn rest taken ∧
    s.span = ⟨f.start, (taken.getLast?.getD f).span.stop⟩

/-- The line is in the grammar, and denotes the statement. -/
inductive Denotes (l : Line) (s : Statement) : Prop
  | labelled {first f : Field} {rest : List Field} : hasLabel l → fields l = first :: f :: rest →
      isLabel first.chars → s.label = some ⟨first.text, first.span⟩ → s.WrittenIn f rest → Denotes l s
  | unlabelled {f : Field} {rest : List Field} : hasLabel l = false → fields l = f :: rest →
      s.label = none → s.WrittenIn f rest → Denotes l s

/-! ## Defects -/

/-- What is wrong behind the label, in a line whose first field is `first`. -/
inductive BodyDefects (first : Field) : List Field → List Diagnostic → Prop
  | missingMnemonic : BodyDefects first [] [.of .missingMnemonic first.span]
  | unknownMnemonic {f : Field} {rest : List Field} : (∀ m : Mnemonic, f.text ≠ m.name) →
      BodyDefects first (f :: rest) [.of .unknownMnemonic f.span]
  | missingOperands {f : Field} {rest : List Field} {m : Mnemonic} : f.text = m.name →
      rest.length < m.required → BodyDefects first (f :: rest)
        [.of (.missingOperands m.name m.required rest.length) (rest.getLast?.getD f).span]
  | operands {f : Field} {rest : List Field} {m : Mnemonic} {ds : List Diagnostic} :
      f.text = m.name → m.operands.length ≤ rest.length →
      (m.Sparing → ∀ g ∈ rest.head?, g.IsInteger) → OperandDefects m.operands rest ds →
      BodyDefects first (f :: rest) ds
  | spare {f : Field} {rest : List Field} {m : Mnemonic} : f.text = m.name → m.Sparing →
      (∀ g ∈ rest.head?, ¬ g.IsInteger) → BodyDefects first (f :: rest) []

/-- What is wrong with a line, in order. -/
inductive Defects (l : Line) : List Diagnostic → Prop
  | labelled {first : Field} {rest : List Field} {ds : List Diagnostic} : hasLabel l →
      fields l = first :: rest → isLabel first.chars → BodyDefects first rest ds → Defects l ds
  | mislabelled {first : Field} {rest : List Field} {ds : List Diagnostic} : hasLabel l →
      fields l = first :: rest → isLabel first.chars = false → BodyDefects first rest ds →
      Defects l (.of .invalidLabel first.span :: ds)
  | unlabelled {first : Field} {rest : List Field} {ds : List Diagnostic} : hasLabel l = false →
      fields l = first :: rest → BodyDefects first (first :: rest) ds → Defects l ds

/-! ## Mnemonics -/

section Mnemonic
variable {m : Mnemonic} (b : Body)

theorem Body.name_mnemonic : b.mnemonic.name = b.name := by cases b <;> rfl

theorem ofName?_name : Mnemonic.ofName? b.name = some b.mnemonic := by
  have hnames : ∀ op ∈ Opcode.all, op.name ≠ fillName := by decide
  cases b with
  | fill v => rfl
  | instruction i =>
    unfold Mnemonic.ofName? Body.name
    rw [if_neg (hnames _ (Opcode.mem_all _)), Opcode.ofName?_name]
    rfl

theorem map_operandKind_fields : b.fields.map operandKind = b.mnemonic.operands := by
  cases b with
  | fill v => rfl
  | instruction i => cases i <;> rfl

theorem required_le : b.mnemonic.required ≤ b.fields.length := by
  cases b with
  | fill v => exact Nat.le_refl 1
  | instruction i => cases i with
    | pop | push => exact Nat.zero_le _
    | _ => exact Nat.le_refl _

/-- The operands of a body make that body. -/
theorem body_put (stop : Nat) :
    let o := (Operands.initial b.mnemonic stop).put 0 b.fields
    b.mnemonic.body o.a o.b o.c o.address = b ∧ o.faults = [] := by
  cases b with
  | fill v => exact ⟨rfl, rfl⟩
  | instruction i => cases i <;> exact ⟨rfl, rfl⟩

theorem operandKind_eq_register {xs : List (Register ⊕ AddressOperand)} {kinds : List OperandKind}
    (h : xs.map operandKind = .register :: kinds) :
    ∃ r ys, xs = .inl r :: ys ∧ ys.map operandKind = kinds := by
  obtain ⟨x, ys, rfl, hx, hys⟩ := List.map_eq_cons_iff.1 h
  rcases x with r | v
  · exact ⟨r, ys, rfl, hys⟩
  · cases hx

theorem operandKind_eq_address {xs : List (Register ⊕ AddressOperand)} {kinds : List OperandKind}
    (h : xs.map operandKind = .address :: kinds) :
    ∃ v ys, xs = .inr v :: ys ∧ ys.map operandKind = kinds := by
  obtain ⟨x, ys, rfl, hx, hys⟩ := List.map_eq_cons_iff.1 h
  rcases x with r | v
  · cases hx
  · exact ⟨v, ys, rfl, hys⟩

/-- Operands of the right kinds make a body. -/
theorem exists_body {xs : List (Register ⊕ AddressOperand)} (h : xs.map operandKind = m.operands) :
    ∃ b : Body, b.mnemonic = m ∧ b.fields = xs := by
  cases m with
  | fill =>
    obtain ⟨v, ys, rfl, hys⟩ := operandKind_eq_address h
    obtain rfl := List.map_eq_nil_iff.1 hys
    exact ⟨.fill v, rfl, rfl⟩
  | operation op =>
    cases op with
    | halt =>
      obtain rfl := List.map_eq_nil_iff.1 h
      exact ⟨.instruction .halt, rfl, rfl⟩
    | jne =>
      obtain ⟨v, ys, rfl, hys⟩ := operandKind_eq_address h
      obtain rfl := List.map_eq_nil_iff.1 hys
      exact ⟨.instruction (.jne v), rfl, rfl⟩
    | pop =>
      obtain ⟨p, ys, rfl, hys⟩ := operandKind_eq_register h
      obtain rfl := List.map_eq_nil_iff.1 hys
      exact ⟨.instruction (.pop p), rfl, rfl⟩
    | push =>
      obtain ⟨p, ys, rfl, hys⟩ := operandKind_eq_register h
      obtain rfl := List.map_eq_nil_iff.1 hys
      exact ⟨.instruction (.push p), rfl, rfl⟩
    | jarl =>
      obtain ⟨p, ys, rfl, hys⟩ := operandKind_eq_register h
      obtain ⟨q, zs, rfl, hzs⟩ := operandKind_eq_register hys
      obtain rfl := List.map_eq_nil_iff.1 hzs
      exact ⟨.instruction (.jarl p q), rfl, rfl⟩
    | scan op =>
      obtain ⟨p, ys, rfl, hys⟩ := operandKind_eq_register h
      obtain ⟨q, zs, rfl, hzs⟩ := operandKind_eq_register hys
      obtain rfl := List.map_eq_nil_iff.1 hzs
      exact ⟨.instruction (.scan op p q), rfl, rfl⟩
    | alu op =>
      obtain ⟨p, ys, rfl, hys⟩ := operandKind_eq_register h
      obtain ⟨q, zs, rfl, hzs⟩ := operandKind_eq_register hys
      obtain ⟨r, us, rfl, hus⟩ := operandKind_eq_register hzs
      obtain rfl := List.map_eq_nil_iff.1 hus
      exact ⟨.instruction (.alu op p q r), rfl, rfl⟩
    | transfer op =>
      obtain ⟨p, ys, rfl, hys⟩ := operandKind_eq_register h
      obtain ⟨q, zs, rfl, hzs⟩ := operandKind_eq_register hys
      obtain ⟨v, us, rfl, hus⟩ := operandKind_eq_address hzs
      obtain rfl := List.map_eq_nil_iff.1 hus
      exact ⟨.instruction (.transfer op p q v), rfl, rfl⟩
    | branch op =>
      obtain ⟨p, ys, rfl, hys⟩ := operandKind_eq_register h
      obtain ⟨q, zs, rfl, hzs⟩ := operandKind_eq_register hys
      obtain ⟨v, us, rfl, hus⟩ := operandKind_eq_address hzs
      obtain rfl := List.map_eq_nil_iff.1 hus
      exact ⟨.instruction (.branch op p q v), rfl, rfl⟩

theorem Mnemonic.ofName?_eq_some_iff {s : String} : ofName? s = some m ↔ s = m.name := by
  constructor
  · intro h
    unfold ofName? at h
    split at h
    · obtain rfl := Option.some.inj h
      assumption
    · obtain ⟨op, hop, rfl⟩ := Option.map_eq_some_iff.1 h
      unfold Opcode.ofName? at hop
      have hname := List.find?_some hop
      exact (beq_iff_eq.1 hname).symm
  · rintro rfl
    let b := m.body .zero .zero .zero (.int 0)
    have hb : b.mnemonic = m := by
      cases m with
      | fill => rfl
      | operation op => exact congrArg Mnemonic.operation (Instruction.opcode_ofParts ..)
    rw [← hb, Body.name_mnemonic, ofName?_name]

theorem Mnemonic.required_of_sparing (h : m.Sparing) : m.required = 0 ∧ m.operands = [.register] := by
  rcases h with rfl | rfl <;> exact ⟨rfl, rfl⟩

theorem Mnemonic.required_of_not_sparing (h : ¬ m.Sparing) : m.required = m.operands.length := by
  cases m with
  | fill => rfl
  | operation op => cases op with
    | push => exact absurd (.inl rfl) h
    | pop => exact absurd (.inr rfl) h
    | _ => rfl

theorem Mnemonic.required_le (m : Mnemonic) : m.required ≤ m.operands.length := by
  by_cases h : m.Sparing
  · rw [(required_of_sparing h).1]
    exact Nat.zero_le _
  · exact Nat.le_of_eq (required_of_not_sparing h)

end Mnemonic

/-! ## The fields behind the label -/

section Body
variable {first f : Field} {rest fs : List Field} {s : Statement} {ds : List Diagnostic}

theorem ofName?_of_ne (h : ∀ m : Mnemonic, f.text ≠ m.name) : Mnemonic.ofName? f.text = none := by
  cases hm : Mnemonic.ofName? f.text with
  | none => rfl
  | some m => exact absurd (Mnemonic.ofName?_eq_some_iff.1 hm) (h m)

/-- Where no integer follows an operation that needs no operand, nothing is taken. -/
theorem readOperands_spare {m : Mnemonic} (hm : m.Sparing) (hrest : ∀ g ∈ rest, Unbroken g.chars)
    (hnot : ∀ g ∈ rest.head?, ¬ g.IsInteger) (o : Operands) :
    readOperands m.required 0 rest m.operands o = o := by
  rw [(Mnemonic.required_of_sparing hm).1]
  cases rest with
  | nil => rfl
  | cons g rest =>
    exact readOperands_comment (hrest g List.mem_cons_self) (Nat.le_refl 0) (hnot g rfl) o

/-- How the fields behind a mnemonic are read where they are enough. -/
theorem readBody_of_name {m : Mnemonic} (hname : f.text = m.name) (hle : m.required ≤ rest.length)
    (label : Option Label) :
    let o := readOperands m.required 0 rest m.operands (.initial m f.span.stop)
    readBody label f rest =
      (⟨label, m.body o.a o.b o.c o.address, ⟨f.span.start, o.stop⟩⟩, o.faults) := by
  have henough : ¬ (rest.take m.operands.length).length < m.required := by
    have := m.required_le
    rw [List.length_take]
    omega
  unfold readBody
  simp only [Mnemonic.ofName?_eq_some_iff.2 hname, if_neg henough, readOperands_take]

/-- The operands of an operation are all required, or they are registers. -/
theorem noComment_of_gives {b : Body} {taken : List Field}
    (h : List.Forall₂ Field.Gives taken b.fields) :
    NoComment b.mnemonic.required 0 b.fields.length taken := by
  have hkinds := map_operandKind_fields b
  by_cases hs : b.mnemonic.Sparing
  · rw [(Mnemonic.required_of_sparing hs).2] at hkinds
    obtain ⟨r, ys, hfields, hys⟩ := operandKind_eq_register hkinds
    obtain rfl := List.map_eq_nil_iff.1 hys
    rw [hfields] at h
    obtain ⟨g, gs, hg, hgs, rfl⟩ := List.forall₂_cons_right_iff.1 h
    obtain rfl := List.forall₂_nil_right_iff.1 hgs
    exact .inr fun k hk => List.mem_singleton.1 (List.mem_of_mem_take hk) ▸ hg.isInteger
  · refine .inl ?_
    rw [Mnemonic.required_of_not_sparing hs, ← hkinds, List.length_map, Nat.zero_add]

/-- The operands of a body, from the fields that say it. -/
theorem Body.WrittenIn.read {b : Body} {taken : List Field} (h : b.WrittenIn rest taken)
    (hrest : ∀ g ∈ rest, Unbroken g.chars) (stop : Nat) :
    b.mnemonic.required ≤ rest.length ∧
      readOperands b.mnemonic.required 0 rest b.mnemonic.operands (.initial b.mnemonic stop) =
        { (Operands.initial b.mnemonic stop).put 0 b.fields with
          stop := (taken.getLast?.map fun g => g.span.stop).getD stop } := by
  cases h with
  | operands htaken hgives =>
    have hlength := hgives.length_eq
    have htake : rest.take b.fields.length = taken := by
      rw [← hlength]
      exact (List.prefix_iff_eq_take.1 htaken).symm
    refine ⟨?_, ?_⟩
    · have := required_le b
      have := htaken.length_le
      omega
    · rw [← map_operandKind_fields, ← readOperands_take, List.length_map, htake]
      exact readOperands_of_gives hgives (fun g hg => hrest g (htaken.subset hg))
        (noComment_of_gives hgives) _
  | spare hs hfields hnot =>
    have hdefault : b.mnemonic.defaultA = .stackDefault := by
      rcases hs with hm | hm <;> (rw [hm]; rfl)
    refine ⟨by rw [(Mnemonic.required_of_sparing hs).1]; exact Nat.zero_le _, ?_⟩
    rw [readOperands_spare hs hrest hnot, hfields, ← hdefault]
    rfl

/-- The fields that say a statement are read as it, without a fault. -/
theorem Statement.WrittenIn.read (h : s.WrittenIn f rest) (hrest : ∀ g ∈ rest, Unbroken g.chars) :
    readBody s.label f rest = (s, []) := by
  obtain ⟨label, b, span⟩ := s
  obtain ⟨hname, taken, hwritten, hspan⟩ := h
  obtain ⟨hle, hread⟩ := hwritten.read hrest f.span.stop
  obtain ⟨hbody, hfaults⟩ := body_put b f.span.stop
  have hstop : (taken.getLast?.map fun g => g.span.stop).getD f.span.stop =
      (taken.getLast?.getD f).span.stop := Option.getD_map (fun g : Field => g.span.stop) f _
  rw [← Body.name_mnemonic] at hname
  rw [readBody_of_name hname hle, hread]
  dsimp only at hspan ⊢
  rw [hbody, hfaults, hspan, hstop]
  rfl

/-- What is wrong behind the label is what is reported. -/
theorem faults_readBody (h : BodyDefects first (f :: rest) ds) (hrest : ∀ g ∈ rest, Unbroken g.chars)
    (label : Option Label) : (readBody label f rest).2 = ds := by
  cases h with
  | unknownMnemonic hne =>
    unfold readBody
    rw [ofName?_of_ne hne]
  | @missingOperands _ _ m hname hlt =>
    have hall : rest.take m.operands.length = rest :=
      List.take_of_length_le (Nat.le_of_lt (Nat.lt_of_lt_of_le hlt m.required_le))
    unfold readBody
    simp only [Mnemonic.ofName?_eq_some_iff.2 hname, hall, if_pos hlt, Option.getD_map]
    rfl
  | @operands _ _ m _ hname hle hint hds =>
    have hnc : NoComment m.required 0 m.operands.length rest := by
      by_cases hs : m.Sparing
      · refine .inr fun g hg => hint hs g ?_
        rw [(Mnemonic.required_of_sparing hs).2, List.length_singleton, List.take_one] at hg
        exact Option.mem_toList.1 hg
      · exact .inl (by rw [Mnemonic.required_of_not_sparing hs, Nat.zero_add])
    rw [readBody_of_name hname (Nat.le_trans m.required_le hle)]
    exact faults_readOperands hds hrest hnc _
  | @spare _ _ m hname hs hnot =>
    have hle : m.required ≤ rest.length := by
      rw [(Mnemonic.required_of_sparing hs).1]
      exact Nat.zero_le _
    rw [readBody_of_name hname hle, readOperands_spare hs hrest hnot]
    rfl

theorem exists_bodyDefects (first : Field) (hfs : ∀ g ∈ fs, Unbroken g.chars) :
    ∃ ds, BodyDefects first fs ds := by
  cases fs with
  | nil => exact ⟨_, .missingMnemonic⟩
  | cons f rest =>
    obtain ⟨-, hrest⟩ := List.forall_mem_cons.1 hfs
    by_cases hknown : ∃ m : Mnemonic, f.text = m.name
    · obtain ⟨m, hname⟩ := hknown
      by_cases hs : m.Sparing
      · by_cases hint : ∃ g ∈ rest.head?, g.IsInteger
        · obtain ⟨g, hg, hinteger⟩ := hint
          have hle : m.operands.length ≤ rest.length := by
            rw [(Mnemonic.required_of_sparing hs).2]
            exact List.length_pos_of_mem (List.mem_of_head? hg)
          obtain ⟨ds, hds⟩ := exists_operandDefects hrest hle
          refine ⟨ds, .operands hname hle (fun _ k hk => ?_) hds⟩
          rwa [← Option.some.inj (hg.symm.trans hk)]
        · exact ⟨[], .spare hname hs fun g hg hinteger => hint ⟨g, hg, hinteger⟩⟩
      · by_cases hlt : rest.length < m.required
        · exact ⟨_, .missingOperands hname hlt⟩
        · have hle : m.operands.length ≤ rest.length := by
            rw [← Mnemonic.required_of_not_sparing hs]
            exact Nat.le_of_not_lt hlt
          obtain ⟨ds, hds⟩ := exists_operandDefects hrest hle
          exact ⟨ds, .operands hname hle (fun h => absurd h hs) hds⟩
    · exact ⟨_, .unknownMnemonic fun m hname => hknown ⟨m, hname⟩⟩

/-- Where nothing is wrong behind the label, the fields say a statement. -/
theorem BodyDefects.exists_writtenIn (h : BodyDefects first (f :: rest) []) (label : Option Label) :
    ∃ s : Statement, s.label = label ∧ s.WrittenIn f rest := by
  cases h with
  | operands hname hle hint hds =>
    obtain ⟨taken, xs, htaken, hgives, hkinds⟩ := hds.exists_gives
    obtain ⟨b, rfl, rfl⟩ := exists_body hkinds
    exact ⟨⟨label, b, _⟩, rfl, hname.trans b.name_mnemonic, taken, .operands htaken hgives, rfl⟩
  | @spare _ _ m hname hs hnot =>
    obtain ⟨b, rfl, hfields⟩ : ∃ b : Body, b.mnemonic = m ∧ b.fields = [.inl .stackDefault] :=
      exists_body (Mnemonic.required_of_sparing hs).2.symm
    exact ⟨⟨label, b, _⟩, rfl, hname.trans b.name_mnemonic, [], .spare hs hfields hnot, rfl⟩

end Body

/-! ## Lines -/

section Line
variable {l : Line} {first : Field} {rest : List Field} {s : Statement} {ds : List Diagnostic}

theorem unbroken_of_fields_eq {fs : List Field} (hfields : fields l = fs) :
    ∀ f ∈ fs, Unbroken f.chars := hfields ▸ unbroken_of_mem_fields

theorem faults_readRest {fs : List Field} (h : BodyDefects first fs ds)
    (hfs : ∀ f ∈ fs, Unbroken f.chars) (label : Option Label) (faults : List Diagnostic) :
    (readRest first label faults fs).faults = faults ++ ds := by
  cases fs with
  | nil =>
    cases h
    rfl
  | cons f rest =>
    exact congrArg (faults ++ ·) (faults_readBody h (List.forall_mem_cons.1 hfs).2 label)

/-- A line that denotes a statement is read as it, without a fault. -/
theorem Denotes.read (h : Denotes l s) : readLine l = ⟨some s, []⟩ := by
  cases h with
  | labelled hl hfields hname hlabel hs =>
    have hbehind := (List.forall_mem_cons.1 (unbroken_of_fields_eq hfields)).2
    have hrest := (List.forall_mem_cons.1 hbehind).2
    rw [readLine_of_labelled hl hfields (if_pos hname), ← hlabel, readRest, hs.read hrest]
    rfl
  | unlabelled hl hfields hlabel hs =>
    have hrest := (List.forall_mem_cons.1 (unbroken_of_fields_eq hfields)).2
    rw [readLine_of_unlabelled hl hfields, ← hlabel, readRest, hs.read hrest]
    rfl

/-- What is wrong with a line is what is reported. -/
theorem Defects.faults (h : Defects l ds) : (readLine l).faults = ds := by
  cases h with
  | labelled hl hfields hlabel hds =>
    have hrest := (List.forall_mem_cons.1 (unbroken_of_fields_eq hfields)).2
    rw [readLine_of_labelled hl hfields (if_pos hlabel)]
    exact faults_readRest hds hrest _ _
  | mislabelled hl hfields hlabel hds =>
    have hrest := (List.forall_mem_cons.1 (unbroken_of_fields_eq hfields)).2
    rw [readLine_of_mislabelled hl hfields (if_neg (Bool.not_eq_true _ ▸ hlabel))]
    exact faults_readRest hds hrest _ _
  | unlabelled hl hfields hds =>
    rw [readLine_of_unlabelled hl hfields]
    exact faults_readRest hds (unbroken_of_fields_eq hfields) _ _

theorem exists_defects (h : l.isBlank = false) : ∃ ds, Defects l ds := by
  obtain ⟨first, rest, hfields⟩ : ∃ first rest, fields l = first :: rest := by
    refine List.exists_cons_of_ne_nil fun hnil => ?_
    rw [(fields_eq_nil_iff l).1 hnil] at h
    cases h
  have hfs := unbroken_of_fields_eq hfields
  cases hl : hasLabel l with
  | false =>
    obtain ⟨ds, hds⟩ := exists_bodyDefects first hfs
    exact ⟨ds, .unlabelled hl hfields hds⟩
  | true =>
    obtain ⟨ds, hds⟩ := exists_bodyDefects first (List.forall_mem_cons.1 hfs).2
    cases hlabel : isLabel first.chars with
    | false => exact ⟨_, .mislabelled hl hfields hlabel hds⟩
    | true => exact ⟨ds, .labelled hl hfields hlabel hds⟩

/-- A line with nothing wrong is in the grammar. -/
theorem Defects.exists_denotes (h : Defects l []) : ∃ s, Denotes l s := by
  cases h with
  | @labelled first rest _ hl hfields hlabel hds =>
    cases rest with
    | nil => cases hds
    | cons f rest =>
      obtain ⟨s, hs, hwritten⟩ := hds.exists_writtenIn (some ⟨first.text, first.span⟩)
      exact ⟨s, .labelled hl hfields hlabel hs hwritten⟩
  | unlabelled hl hfields hds =>
    obtain ⟨s, hs, hwritten⟩ := hds.exists_writtenIn none
    exact ⟨s, .unlabelled hl hfields hs hwritten⟩

/-- A line is read as the statement that it denotes, or its defects are reported. A line of blanks
gives nothing, and any other line a statement; it is read without a fault as the statement that it
denotes, and as no other, if it is in the grammar; and the faults are what is wrong with the line, in
order. -/
theorem readLine_exact (l : Line) :
    (l.isBlank → readLine l = ⟨none, []⟩) ∧
    (l.isBlank = false → (readLine l).statement.isSome) ∧
    (∀ s, readLine l = ⟨some s, []⟩ ↔ Denotes l s) ∧
    (l.isBlank = false → ∀ ds, (readLine l).faults = ds ↔ Defects l ds) := by
  have hdefects : l.isBlank = false → ∀ ds, (readLine l).faults = ds ↔ Defects l ds := by
    intro hblank ds
    refine ⟨?_, Defects.faults⟩
    rintro rfl
    obtain ⟨ds, hds⟩ := exists_defects hblank
    rwa [hds.faults]
  refine ⟨readLine_of_isBlank, fun hblank => ?_, fun s => ⟨fun hread => ?_, Denotes.read⟩, hdefects⟩
  · rw [isSome_statement_readLine, hblank]
    rfl
  · have hblank : l.isBlank = false := by
      have hsome := isSome_statement_readLine l
      rw [hread] at hsome
      simpa using hsome.symm
    obtain ⟨t, ht⟩ := ((hdefects hblank []).1 (by rw [hread])).exists_denotes
    obtain rfl : t = s := by simpa [ht.read] using hread
    exact ht

/-- Behind `push`, a word is a comment, and an integer is a register. -/
theorem readLine_exact_push :
    let comment : Line := ⟨0, " push save 16".toList⟩
    let register : Line := ⟨0, "9x push 16".toList⟩
    Denotes comment ⟨none, .instruction (.push .stackDefault), ⟨1, 5⟩⟩ ∧
      Defects register [.of .invalidLabel ⟨0, 2⟩, .of .registerOutOfRange ⟨8, 10⟩] := by
  intro comment register
  have hdenotes : (readLine comment).statement =
      some ⟨none, .instruction (.push .stackDefault), ⟨1, 5⟩⟩ ∧ (readLine comment).faults = [] := by
    decide +kernel
  have hfaults : (readLine register).faults =
      [.of .invalidLabel ⟨0, 2⟩, .of .registerOutOfRange ⟨8, 10⟩] := by
    decide +kernel
  refine ⟨((readLine_exact comment).2.2.1 _).1 ?_,
    ((readLine_exact register).2.2.2 (by decide +kernel) _).1 hfaults⟩
  rw [← hdenotes.1, ← hdenotes.2]

end Line

end SolMachine.Assembly
