import Mathlib.Data.List.Forall2
import SolMachine.Proofs.FieldTokens
import SolMachine.Proofs.Lines

/-!
# The grammar of operands

* `Field.Gives`, `Field.Faulty` : the operand that a field is, and what can be wrong with it; one of
  them holds of every field and kind of operand (`Field.gives_or_faulty`);
* `OperandDefects` : what is wrong with operand fields, in order;
* `NoComment`, `readOperands_cons` : the step for a field that is no comment;
* `faults_readOperands`, `readOperands_of_gives` : what is wrong with operand fields is reported, and
  fields that are operands are put into their positions.
-/

namespace SolMachine.Assembly
open SolMachine.Text SolMachine.Decimal

/-! ## Operand fields -/

/-- The kind of an operand. -/
def operandKind : Register ⊕ AddressOperand → OperandKind
  | .inl _ => .register
  | .inr _ => .address

/-- Puts operands into their positions, from position `i` on. -/
def Operands.put (o : Operands) : Nat → List (Register ⊕ AddressOperand) → Operands
  | _, [] => o
  | i, .inl r :: xs => (o.setRegister i r).put (i + 1) xs
  | i, .inr v :: xs => { o with address := v }.put (i + 1) xs

/-- The field is the numeral of an integer that fits a word. -/
def Field.IsInteger (f : Field) : Prop := ∃ w : Word, Numeral f.chars w.toInt

/-- The operand that a field is: a register by its number, an integer, or a label of letters. -/
inductive Field.Gives (f : Field) : Register ⊕ AddressOperand → Prop
  | register {r : Register} : Numeral f.chars r.val → f.Gives (.inl r)
  | int {w : Word} : Numeral f.chars w.toInt → f.Gives (.inr (.int w))
  | label : f.chars ≠ [] → (∀ c ∈ f.chars, c.isAlpha) → f.Gives (.inr (.label ⟨f.text, f.span⟩))

/-- What is wrong with a field as an operand of a kind. -/
inductive Field.Faulty (f : Field) : OperandKind → Diagnostic → Prop
  | lexical {kind : OperandKind} {e : LexError} {s : Span} : readField f.chars = .error (e, s) →
      f.Faulty kind (.of (.lexical e) (s.shift f.start))
  | registerOutOfRange {w : Word} : Numeral f.chars w.toInt → ¬ (0 ≤ w.toInt ∧ w.toInt ≤ 15) →
      f.Faulty .register (.of .registerOutOfRange f.span)
  | expectedRegister : isLabel f.chars ∨ isDirective f.chars →
      f.Faulty .register (.of .expectedRegister f.span)
  | invalidAddressSymbol : isLabel f.chars → ¬ (∀ c ∈ f.chars, c.isAlpha) →
      f.Faulty .address (.of .invalidAddressSymbol f.span)
  | expectedAddress : isDirective f.chars → f.Faulty .address (.of .expectedAddress f.span)

/-- What is wrong with the fields in operand positions of those kinds, one thing for each field that
is no operand of its kind. -/
inductive OperandDefects : List OperandKind → List Field → List Diagnostic → Prop
  | nil {fs : List Field} : OperandDefects [] fs []
  | good {x : Register ⊕ AddressOperand} {f : Field} {kinds : List OperandKind} {fs : List Field}
      {ds : List Diagnostic} : f.Gives x → OperandDefects kinds fs ds →
      OperandDefects (operandKind x :: kinds) (f :: fs) ds
  | bad {kind : OperandKind} {d : Diagnostic} {f : Field} {kinds : List OperandKind}
      {fs : List Field} {ds : List Diagnostic} : f.Faulty kind d → OperandDefects kinds fs ds →
      OperandDefects (kind :: kinds) (f :: fs) (d :: ds)

/-! ## One operand -/

section Operand
variable {f : Field} {x : Register ⊕ AddressOperand} {kind : OperandKind} {d : Diagnostic}
  {fs : List Field} {kinds : List OperandKind} {required i : Nat}

theorem readField_of_readToken {t : Token} (h : readToken f = .ok t) : readField f.chars = .ok t := by
  unfold readToken at h
  cases hr : readField f.chars with
  | error e => rw [hr] at h; cases h
  | ok u =>
    rw [hr] at h
    exact congrArg _ (Except.ok.inj h)

theorem readToken_of_readField {t : Token} (h : readField f.chars = .ok t) : readToken f = .ok t := by
  unfold readToken
  rw [h]
  rfl

theorem toInt_ofNat_register (r : Register) : (BitVec.ofNat 32 r.val).toInt = r.val := by
  revert r
  decide

theorem Field.Gives.isInteger {r : Register} (h : f.Gives (.inl r)) : f.IsInteger := by
  cases h with
  | register hnumeral => exact ⟨BitVec.ofNat 32 r.val, by rwa [toInt_ofNat_register]⟩

theorem readToken_of_numeral (hf : Unbroken f.chars) {w : Word} (h : Numeral f.chars w.toInt) :
    readToken f = .ok (.int w) :=
  readToken_of_readField ((readField_eq_int_iff hf).2 h)

/-- A field that is an operand is a token, and is taken as that operand. -/
theorem Field.Gives.take (hf : Unbroken f.chars) (h : f.Gives x) (i : Nat) :
    ∃ t, readToken f = .ok t ∧
      ∀ o : Operands, o.take i (operandKind x) f t = (o.put i [x]).through f := by
  cases h with
  | @register r hnumeral =>
    rw [← toInt_ofNat_register] at hnumeral
    refine ⟨_, readToken_of_numeral hf hnumeral, fun o => ?_⟩
    have hregister : readRegister f (.int (BitVec.ofNat 32 r.val)) = .ok r := by
      unfold readRegister
      simp only [toInt_ofNat_register, Register.ofInt?_val]
    unfold operandKind Operands.take
    simp only [hregister]
    rfl
  | int hnumeral => exact ⟨_, readToken_of_numeral hf hnumeral, fun o => rfl⟩
  | label hne halpha =>
    have hname : f.text.toList = f.chars := String.toList_ofList
    have hread := (readField_eq_ident_iff hf).2 ⟨rfl, isLabel_of_isAlpha hne halpha⟩
    refine ⟨.ident f.text, readToken_of_readField hread, fun o => ?_⟩
    have haddress : readAddress f (.ident f.text) = .ok (.label ⟨f.text, f.span⟩) :=
      if_pos (by rw [hname, List.all_eq_true]; exact halpha)
    unfold operandKind Operands.take
    simp only [haddress]
    rfl

/-- A field that is no operand is no token, or one that is not taken. -/
theorem Field.Faulty.take (hf : Unbroken f.chars) (h : f.Faulty kind d) (i : Nat) :
    readToken f = .error d ∨
      ∃ t, readToken f = .ok t ∧ ∀ o : Operands, (o.take i kind f t).faults = o.faults ++ [d] := by
  have hident : isLabel f.chars → readToken f = .ok (.ident f.text) := fun hlabel =>
    readToken_of_readField ((readField_eq_ident_iff hf).2 ⟨rfl, hlabel⟩)
  have hdirective : isDirective f.chars → ∃ name, readToken f = .ok (.directive name) := fun hdir =>
    ⟨_, readToken_of_readField ((readField_eq_directive_iff hf).2 ⟨rfl, hdir⟩)⟩
  cases h with
  | lexical hread =>
    refine .inl ?_
    unfold readToken
    rw [hread]
    rfl
  | @registerOutOfRange w hnumeral hrange =>
    refine .inr ⟨_, readToken_of_numeral hf hnumeral, fun o => ?_⟩
    have hnone : Register.ofInt? w.toInt = none := dif_neg (by omega)
    have hregister : readRegister f (.int w) = .error (.of .registerOutOfRange f.span) := by
      unfold readRegister
      simp only [hnone]
    unfold Operands.take
    simp only [hregister]
    rfl
  | expectedRegister hshape =>
    obtain hread | ⟨name, hread⟩ := hshape.imp hident hdirective
    · exact .inr ⟨_, hread, fun o => rfl⟩
    · exact .inr ⟨_, hread, fun o => rfl⟩
  | invalidAddressSymbol hlabel halpha =>
    refine .inr ⟨_, hident hlabel, fun o => ?_⟩
    have hname : f.text.toList = f.chars := String.toList_ofList
    have haddress : readAddress f (.ident f.text) = .error (.of .invalidAddressSymbol f.span) :=
      if_neg (by rw [hname, List.all_eq_true]; exact halpha)
    unfold Operands.take
    simp only [haddress]
    rfl
  | expectedAddress hdir =>
    obtain ⟨name, hread⟩ := hdirective hdir
    exact .inr ⟨_, hread, fun o => rfl⟩

/-- Every field is an operand of a kind, or something is wrong with it. -/
theorem Field.gives_or_faulty (hf : Unbroken f.chars) (kind : OperandKind) :
    (∃ x, operandKind x = kind ∧ f.Gives x) ∨ ∃ d, f.Faulty kind d := by
  cases hread : readField f.chars with
  | error e => exact .inr ⟨_, .lexical hread⟩
  | ok t =>
    obtain ⟨w, -, hnumeral⟩ | ⟨-, hlabel⟩ | ⟨-, hdir⟩ := (readField_ok_iff hf).1 hread
    · cases kind with
      | address => exact .inl ⟨.inr (.int w), rfl, .int hnumeral⟩
      | register =>
        by_cases hrange : 0 ≤ w.toInt ∧ w.toInt ≤ 15
        · have hval : ((w.toInt.toNat : Nat) : Int) = w.toInt := Int.toNat_of_nonneg hrange.1
          exact .inl ⟨.inl ⟨w.toInt.toNat, by omega⟩, rfl, .register (by rwa [hval])⟩
        · exact .inr ⟨_, .registerOutOfRange hnumeral hrange⟩
    · cases kind with
      | register => exact .inr ⟨_, .expectedRegister (.inl hlabel)⟩
      | address =>
        by_cases halpha : ∀ c ∈ f.chars, c.isAlpha
        · exact .inl ⟨_, rfl, .label hf.ne_nil halpha⟩
        · exact .inr ⟨_, .invalidAddressSymbol hlabel halpha⟩
    · cases kind with
      | register => exact .inr ⟨_, .expectedRegister (.inr hdir)⟩
      | address => exact .inr ⟨_, .expectedAddress hdir⟩

/-! ## Operands -/

/-- None of the fields in the `n` positions from `i` on is a comment: the operands are all required,
or the fields are integers. -/
def NoComment (required i n : Nat) (fs : List Field) : Prop :=
  i + n ≤ required ∨ ∀ f ∈ fs.take n, f.IsInteger

theorem NoComment.tail {n : Nat} (h : NoComment required i (n + 1) (f :: fs)) :
    NoComment required (i + 1) n fs :=
  h.imp (fun h => by omega) fun h => (List.forall_mem_cons.1 h).2

theorem Operands.faults_setRegister (o : Operands) (i : Nat) (r : Register) :
    (o.setRegister i r).faults = o.faults := by
  unfold Operands.setRegister
  split <;> rfl

theorem Operands.faults_put (o : Operands) (i : Nat) (xs : List (Register ⊕ AddressOperand)) :
    (o.put i xs).faults = o.faults := by
  induction xs generalizing i o with
  | nil => rfl
  | cons x xs ih =>
    rcases x with r | v
    · exact (ih (o.setRegister i r) (i + 1)).trans (faults_setRegister o i r)
    · exact ih { o with address := v } (i + 1)

theorem Operands.put_through (o : Operands) (f : Field) (i : Nat)
    (xs : List (Register ⊕ AddressOperand)) :
    (o.through f).put i xs = (o.put i xs).through f := by
  induction xs generalizing i o with
  | nil => rfl
  | cons x xs ih =>
    rcases x with r | v
    · have hset : (o.through f).setRegister i r = (o.setRegister i r).through f := by
        unfold setRegister
        split <;> rfl
      show ((o.through f).setRegister i r).put (i + 1) xs = _
      rw [hset]
      exact ih (o.setRegister i r) (i + 1)
    · exact ih { o with address := v } (i + 1)

theorem readOperands_take (required i : Nat) (fs : List Field) (kinds : List OperandKind)
    (o : Operands) :
    readOperands required i (fs.take kinds.length) kinds o = readOperands required i fs kinds o := by
  induction fs generalizing i kinds o with
  | nil => rw [List.take_nil]
  | cons f fs ih =>
    cases kinds with
    | nil => rfl
    | cons kind kinds =>
      rw [List.length_cons, List.take_succ_cons, readOperands, readOperands]
      simp only [ih]

/-- The step for a field that is no comment. -/
theorem readOperands_cons {n : Nat} (hf : Unbroken f.chars)
    (hnc : NoComment required i (n + 1) (f :: fs)) (o : Operands) :
    readOperands required i (f :: fs) (kind :: kinds) o =
      readOperands required (i + 1) fs kinds
        (match readToken f with
          | .ok t => o.take i kind f t
          | .error d => o.fault d) := by
  rw [readOperands]
  rcases hnc with hle | hint
  · have hi : ¬ required ≤ i := by omega
    cases readToken f with
    | error d => exact if_neg hi
    | ok t => simp only [hi, decide_false, Bool.false_and, Bool.false_eq_true, if_false]
  · obtain ⟨w, hnumeral⟩ := hint f (List.mem_cons_self (l := fs.take n))
    rw [readToken_of_numeral hf hnumeral]
    simp only [Token.isInt, Bool.not_true, Bool.and_false, Bool.false_eq_true, if_false]

/-- A field that may be a comment, and is no integer, ends the operands. -/
theorem readOperands_comment (hf : Unbroken f.chars) (hi : required ≤ i) (hnot : ¬ f.IsInteger)
    (o : Operands) : readOperands required i (f :: fs) kinds o = o := by
  cases kinds with
  | nil => rfl
  | cons kind kinds =>
    rw [readOperands]
    cases ht : readToken f with
    | error d => exact if_pos hi
    | ok t =>
      have hint : t.isInt = false := by
        cases t with
        | int w => exact absurd ⟨w, (readField_eq_int_iff hf).1 (readField_of_readToken ht)⟩ hnot
        | _ => rfl
      simp only [hi, hint, decide_true, Bool.not_false, Bool.and_self, if_true]

theorem faults_readOperands {ds : List Diagnostic} (h : OperandDefects kinds fs ds)
    (hfs : ∀ f ∈ fs, Unbroken f.chars) (hnc : NoComment required i kinds.length fs)
    (o : Operands) : (readOperands required i fs kinds o).faults = o.faults ++ ds := by
  induction h generalizing i o with
  | @nil fs => cases fs <;> exact (List.append_nil _).symm
  | good hx _ ih =>
    obtain ⟨hf, hrest⟩ := List.forall_mem_cons.1 hfs
    obtain ⟨t, ht, htake⟩ := hx.take hf i
    rw [readOperands_cons hf hnc, ht]
    dsimp only
    rw [htake, ih hrest hnc.tail, ← Operands.faults_put o i [_]]
    rfl
  | bad hd _ ih =>
    obtain ⟨hf, hrest⟩ := List.forall_mem_cons.1 hfs
    rw [readOperands_cons hf hnc, ih hrest hnc.tail]
    obtain herror | ⟨t, ht, htake⟩ := hd.take hf i
    · rw [herror]
      exact List.append_assoc ..
    · rw [ht]
      dsimp only
      rw [htake, List.append_assoc]
      rfl

/-- Fields that are operands are put into their positions. -/
theorem readOperands_of_gives {taken : List Field} {xs : List (Register ⊕ AddressOperand)}
    (h : List.Forall₂ Field.Gives taken xs) (hfs : ∀ f ∈ taken, Unbroken f.chars)
    (hnc : NoComment required i xs.length taken) (o : Operands) :
    readOperands required i taken (xs.map operandKind) o =
      { o.put i xs with stop := (taken.getLast?.map fun g => g.span.stop).getD o.stop } := by
  induction h generalizing i o with
  | nil => rfl
  | @cons f x taken xs hx _ ih =>
    obtain ⟨hf, hrest⟩ := List.forall_mem_cons.1 hfs
    obtain ⟨t, ht, htake⟩ := hx.take hf i
    have hput : (o.put i [x]).put (i + 1) xs = o.put i (x :: xs) := by cases x <;> rfl
    have hstop : (taken.getLast?.map fun g => g.span.stop).getD f.span.stop =
        ((f :: taken).getLast?.map fun g => g.span.stop).getD o.stop := by
      rw [List.getLast?_cons]
      exact Option.getD_map (fun g : Field => g.span.stop) f taken.getLast?
    rw [List.map_cons, readOperands_cons hf hnc, ht]
    dsimp only
    rw [htake, ih hrest hnc.tail, Operands.put_through, hput, ← hstop]
    rfl

theorem exists_operandDefects (hfs : ∀ f ∈ fs, Unbroken f.chars) (hle : kinds.length ≤ fs.length) :
    ∃ ds, OperandDefects kinds fs ds := by
  induction kinds generalizing fs with
  | nil => exact ⟨[], .nil⟩
  | cons kind kinds ih =>
    cases fs with
    | nil => cases hle
    | cons f fs =>
      obtain ⟨hf, hrest⟩ := List.forall_mem_cons.1 hfs
      obtain ⟨ds, hds⟩ := ih hrest (Nat.le_of_succ_le_succ hle)
      obtain ⟨x, rfl, hx⟩ | ⟨d, hd⟩ := Field.gives_or_faulty hf kind
      · exact ⟨ds, .good hx hds⟩
      · exact ⟨d :: ds, .bad hd hds⟩

/-- Where nothing is wrong with operand fields, they are operands of their kinds. -/
theorem OperandDefects.exists_gives (h : OperandDefects kinds fs []) :
    ∃ taken xs, taken <+: fs ∧ List.Forall₂ Field.Gives taken xs ∧ xs.map operandKind = kinds := by
  generalize hds : ([] : List Diagnostic) = ds at h
  induction h with
  | nil => exact ⟨[], [], List.nil_prefix, .nil, rfl⟩
  | @good x f kinds fs ds hx _ ih =>
    obtain ⟨taken, xs, htaken, hgives, hkinds⟩ := ih hds
    exact ⟨f :: taken, x :: xs, (List.prefix_cons_inj f).2 htaken, .cons hx hgives,
      congrArg (_ :: ·) hkinds⟩
  | bad => cases hds

end Operand

end SolMachine.Assembly
