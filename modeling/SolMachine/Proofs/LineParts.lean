import SolMachine.Proofs.OperandGrammar
import SolMachine.Proofs.Resolution

/-!
# What is read comes from fields

* `Diagnostic.ReadFrom`, `AddressOperand.ReadFrom`, `Statement.ReadFrom` : faults, operands and
  statements that are read from certain fields: which of the fields decide what is in them;
* `Operands.ReadFrom.take`, `Operands.ReadFrom.readOperands` : one more operand, and all operands;
* `readFrom_readLine` : what a line gives is read from its fields;
* `early_of_mem_faults` : what is wrong with lines is found before operands get their values.
-/

namespace SolMachine.Assembly
open SolMachine.Text

/-! ## Things that are read from fields -/

/-- The fault is one of a field as a whole, or one of characters in it. -/
inductive Diagnostic.ReadFrom (fs : List Field) : Diagnostic → Prop
  | field {f : Field} {p : Problem} : f ∈ fs → p.ofResolution = false → ReadFrom fs (.of p f.span)
  | lexical {f : Field} {e : LexError} {s : Span} : f ∈ fs → readField f.chars = .error (e, s) →
      ReadFrom fs (.of (.lexical e) (s.shift f.start))

/-- The operand is an integer, or a field that is a name of letters. -/
inductive AddressOperand.ReadFrom (fs : List Field) : AddressOperand → Prop
  | int {w : Word} : ReadFrom fs (.int w)
  | label {f : Field} : f ∈ fs → (∀ c ∈ f.chars, c.isAlpha) → ReadFrom fs (.label ⟨f.text, f.span⟩)

structure Operands.ReadFrom (fs : List Field) (o : Operands) : Prop where
  address : o.address.ReadFrom fs
  stop : ∃ f ∈ fs, o.stop = f.span.stop
  faults : ∀ d ∈ o.faults, d.ReadFrom fs

/-- The label is one of the fields, and the statement stands from the start of a field to the end of
that field or a later one. -/
structure Statement.ReadFrom (fs : List Field) (s : Statement) : Prop where
  label : ∀ l, s.label = some l → ∃ f ∈ fs, isLabel f.chars ∧ l = ⟨f.text, f.span⟩
  operand : ∀ v, s.body.address? = some v → v.ReadFrom fs
  span : ∃ f rest, f :: rest <:+ fs ∧ ∃ g ∈ f :: rest, s.span = ⟨f.start, g.span.stop⟩

structure LineResult.ReadFrom (fs : List Field) (r : LineResult) : Prop where
  statement : ∀ s, r.statement = some s → s.ReadFrom fs
  faults : ∀ d ∈ r.faults, d.ReadFrom fs

section Readers
variable {fs gs : List Field} {f first : Field} {t : Token} {d : Diagnostic} {label : Option Label}

theorem Diagnostic.ReadFrom.mono (h : d.ReadFrom gs) (hsub : gs ⊆ fs) : d.ReadFrom fs := by
  cases h with
  | field hf hp => exact .field (hsub hf) hp
  | lexical hf hread => exact .lexical (hsub hf) hread

theorem AddressOperand.ReadFrom.mono {v : AddressOperand} (h : v.ReadFrom gs) (hsub : gs ⊆ fs) :
    v.ReadFrom fs := by
  cases h with
  | int => exact .int
  | label hf halpha => exact .label (hsub hf) halpha

/-! ## Operands -/

theorem readFrom_of_readToken (hf : f ∈ fs) (h : readToken f = .error d) : d.ReadFrom fs := by
  unfold readToken at h
  cases hread : readField f.chars with
  | ok t => rw [hread] at h; cases h
  | error e =>
    rw [hread] at h
    obtain rfl := Except.error.inj h
    exact .lexical hf hread

theorem readFrom_of_readRegister (hf : f ∈ fs) (h : readRegister f t = .error d) : d.ReadFrom fs := by
  unfold readRegister at h
  repeat' split at h
  all_goals cases h
  all_goals exact .field hf rfl

theorem readFrom_of_readAddress (hf : f ∈ fs) (h : readAddress f t = .error d) : d.ReadFrom fs := by
  unfold readAddress at h
  repeat' split at h
  all_goals cases h
  all_goals exact .field hf rfl

theorem AddressOperand.ReadFrom.of_readAddress {v : AddressOperand} (hf : f ∈ fs)
    (hunbroken : Unbroken f.chars) (ht : readToken f = .ok t) (h : readAddress f t = .ok v) :
    v.ReadFrom fs := by
  unfold readAddress at h
  split at h
  · obtain rfl := Except.ok.inj h
    exact .int
  · obtain ⟨rfl, -⟩ := (readField_eq_ident_iff hunbroken).1 (readField_of_readToken ht)
    split at h
    · next halpha =>
      obtain rfl := Except.ok.inj h
      rw [String.toList_ofList, List.all_eq_true] at halpha
      exact .label hf halpha
    · cases h
  · cases h

section Operands
variable {o : Operands} (ho : o.ReadFrom fs)
include ho

theorem Operands.ReadFrom.fault (hd : d.ReadFrom fs) : (o.fault d).ReadFrom fs := by
  refine { ho with faults := fun e he => ?_ }
  rcases List.mem_append.1 he with he | he
  · exact ho.faults e he
  · obtain rfl := List.mem_singleton.1 he
    exact hd

theorem Operands.ReadFrom.setRegister (i : Nat) (r : Register) : (o.setRegister i r).ReadFrom fs := by
  obtain ⟨haddress, hstop, hfaults⟩ := ho
  unfold Operands.setRegister
  split <;> exact ⟨haddress, hstop, hfaults⟩

/-- The step: one more operand. -/
theorem Operands.ReadFrom.take (hf : f ∈ fs) (hunbroken : Unbroken f.chars)
    (ht : readToken f = .ok t) (i : Nat) (kind : OperandKind) : (o.take i kind f t).ReadFrom fs := by
  have hthrough : ∀ {o : Operands}, o.ReadFrom fs → (o.through f).ReadFrom fs :=
    fun ho => { ho with stop := ⟨f, hf, rfl⟩ }
  unfold Operands.take
  refine hthrough ?_
  cases kind with
  | register =>
    cases hr : readRegister f t with
    | ok r => exact ho.setRegister i r
    | error d => exact ho.fault (readFrom_of_readRegister hf hr)
  | address =>
    cases hv : readAddress f t with
    | ok v => exact { ho with address := .of_readAddress hf hunbroken ht hv }
    | error d => exact ho.fault (readFrom_of_readAddress hf hv)

/-- The run: all operands. -/
theorem Operands.ReadFrom.readOperands (hgs : ∀ g ∈ gs, g ∈ fs ∧ Unbroken g.chars)
    (required i : Nat) (kinds : List OperandKind) :
    (readOperands required i gs kinds o).ReadFrom fs := by
  induction gs generalizing i kinds o with
  | nil => simpa only [Assembly.readOperands] using ho
  | cons g gs ih =>
    cases kinds with
    | nil => simpa only [Assembly.readOperands] using ho
    | cons kind kinds =>
      obtain ⟨⟨hg, hunbroken⟩, hrest⟩ := List.forall_mem_cons.1 hgs
      unfold Assembly.readOperands
      split
      · next d hd =>
        split
        · exact ho
        · exact ih (ho.fault (readFrom_of_readToken hg hd)) hrest _ _
      · next t ht =>
        split
        · exact ho
        · exact ih (ho.take hg hunbroken ht i kind) hrest _ _

end Operands

/-! ## Lines -/

/-- The address operand of a body is the one that it is given. -/
theorem address?_body {m : Mnemonic} {a b c : Register} {v x : AddressOperand}
    (h : (m.body a b c v).address? = some x) : x = v := by
  cases m with
  | fill => exact (Option.some.inj h).symm
  | operation op => cases op <;> cases h <;> rfl

/-- What is read from the mnemonic and the fields behind it. -/
theorem readFrom_readBody (hfs : f :: gs <:+ fs) (hunbroken : ∀ g ∈ gs, Unbroken g.chars)
    (hlabel : ∀ l, label = some l → ∃ f ∈ fs, isLabel f.chars ∧ l = ⟨f.text, f.span⟩) :
    (readBody label f gs).1.ReadFrom fs ∧ ∀ d ∈ (readBody label f gs).2, d.ReadFrom fs := by
  have hf : f ∈ fs := hfs.subset (List.mem_cons_self ..)
  unfold readBody
  split
  · refine ⟨⟨hlabel, fun v hv => ?_, f, gs, hfs, f, List.mem_cons_self .., rfl⟩, fun d hd => ?_⟩
    · obtain rfl := Option.some.inj hv
      exact .int
    · rw [List.mem_singleton.1 hd]
      exact .field hf rfl
  · next m _ =>
    have hinitial : (Operands.initial m f.span.stop).ReadFrom (f :: gs) :=
      ⟨.int, ⟨f, List.mem_cons_self .., rfl⟩, List.forall_mem_nil _⟩
    have htake : ∀ g ∈ gs.take m.operands.length, g ∈ f :: gs := fun g hg =>
      List.mem_cons_of_mem f (List.mem_of_mem_take hg)
    have hread : Operands.ReadFrom (f :: gs) (if (gs.take m.operands.length).length < m.required then
        (Operands.initial m f.span.stop).fault (.of
          (.missingOperands m.name m.required (gs.take m.operands.length).length)
          (((gs.take m.operands.length).getLast?.map Field.span).getD f.span))
        else readOperands m.required 0 (gs.take m.operands.length) m.operands
          (Operands.initial m f.span.stop)) := by
      split
      · refine hinitial.fault ?_
        cases hlast : (gs.take m.operands.length).getLast? with
        | none => exact .field (List.mem_cons_self ..) rfl
        | some g => exact .field (htake g (List.mem_of_getLast? hlast)) rfl
      · exact hinitial.readOperands
          (fun g hg => ⟨htake g hg, hunbroken g (List.mem_of_mem_take hg)⟩) _ _ _
    obtain ⟨g, hg, hstop⟩ := hread.stop
    refine ⟨⟨hlabel, fun v hv => ?_, f, gs, hfs, g, hg, ?_⟩, fun d hd => ?_⟩
    · rw [address?_body hv]
      exact hread.address.mono hfs.subset
    · exact congrArg (Span.mk f.start) hstop
    · exact (hread.faults d hd).mono hfs.subset

theorem readFrom_readRest {faults : List Diagnostic} (hfirst : first ∈ fs) (hfs : gs <:+ fs)
    (hunbroken : ∀ g ∈ gs, Unbroken g.chars)
    (hlabel : ∀ l, label = some l → ∃ f ∈ fs, isLabel f.chars ∧ l = ⟨f.text, f.span⟩)
    (hfaults : ∀ d ∈ faults, d.ReadFrom fs) : (readRest first label faults gs).ReadFrom fs := by
  cases gs with
  | nil =>
    obtain ⟨before, after, hsplit⟩ := List.append_of_mem hfirst
    refine ⟨fun s hs => ?_, fun d hd => ?_⟩
    · obtain rfl := Option.some.inj hs
      refine ⟨hlabel, fun v hv => ?_, first, after, ⟨before, hsplit.symm⟩, first,
        List.mem_cons_self .., rfl⟩
      obtain rfl := Option.some.inj hv
      exact .int
    · rcases List.mem_append.1 hd with hd | hd
      · exact hfaults d hd
      · rw [List.mem_singleton.1 hd]
        exact .field hfirst rfl
  | cons f gs =>
    obtain ⟨hstatement, hfound⟩ :=
      readFrom_readBody hfs (List.forall_mem_cons.1 hunbroken).2 hlabel
    refine ⟨fun s hs => ?_, fun d hd => ?_⟩
    · obtain rfl := Option.some.inj hs
      exact hstatement
    · rcases List.mem_append.1 hd with hd | hd
      · exact hfaults d hd
      · exact hfound d hd

theorem readFrom_of_readLabel {d : Diagnostic} (hf : f ∈ fs) (h : readLabel f = .error d) :
    d.ReadFrom fs := by
  unfold readLabel at h
  split at h
  · cases h
  · obtain rfl := Except.error.inj h
    exact .field hf rfl

theorem eq_of_readLabel {l : Label} (h : readLabel f = .ok l) :
    isLabel f.chars ∧ l = ⟨f.text, f.span⟩ := by
  unfold readLabel at h
  split at h
  · next hlabel => exact ⟨hlabel, (Except.ok.inj h).symm⟩
  · cases h

end Readers

/-- What a line gives is read from its fields. -/
theorem readFrom_readLine (l : Line) : (readLine l).ReadFrom (fields l) := by
  have hunbroken := unbroken_of_mem_fields (l := l)
  have hnone : ∀ k, (none : Option Label) = some k →
      ∃ f ∈ fields l, isLabel f.chars ∧ k = ⟨f.text, f.span⟩ := fun k hk => by cases hk
  have hnil : ∀ d ∈ ([] : List Diagnostic), d.ReadFrom (fields l) := List.forall_mem_nil _
  cases reading l with
  | blank _ h =>
    rw [h]
    exact ⟨fun s hs => (by cases hs), hnil⟩
  | @labelled first rest label _ hfields hfirst h =>
    rw [h]
    rw [hfields] at hunbroken hnil ⊢
    refine readFrom_readRest (List.mem_cons_self ..) (List.suffix_cons first rest)
      (List.forall_mem_cons.1 hunbroken).2 (fun k hk => ?_) hnil
    obtain rfl := Option.some.inj hk
    exact ⟨first, List.mem_cons_self .., eq_of_readLabel hfirst⟩
  | @mislabelled first rest d hfields hfirst h =>
    rw [h]
    rw [hfields] at hunbroken hnone ⊢
    exact readFrom_readRest (List.mem_cons_self ..) (List.suffix_cons first rest)
      (List.forall_mem_cons.1 hunbroken).2 hnone
      (List.forall_mem_singleton.2 (readFrom_of_readLabel (List.mem_cons_self ..) hfirst))
  | @unlabelled first rest hfields h =>
    rw [h]
    rw [hfields] at hunbroken hnone hnil ⊢
    exact readFrom_readRest (List.mem_cons_self ..) List.suffix_rfl hunbroken hnone hnil

/-! ## Texts -/

theorem Diagnostic.ReadFrom.early {fs : List Field} {d : Diagnostic} (h : d.ReadFrom fs) : d.Early := by
  cases h with
  | field _ hp => exact hp
  | lexical => rfl

section Source
variable {cs : List Char}

theorem exists_line_of_mem_faults {d : Diagnostic} (h : d ∈ (readSource cs).faults) :
    ∃ l ∈ lines cs, d ∈ (readLine l).faults := by
  obtain ⟨r, hr, hd⟩ := List.mem_flatMap.1 h
  obtain ⟨l, hl, rfl⟩ := List.mem_map.1 hr
  exact ⟨l, hl, hd⟩

/-- What is wrong with lines is found before operands get their values. -/
theorem early_of_mem_faults : ∀ d ∈ (readSource cs).faults, d.Early := by
  intro d hd
  obtain ⟨l, -, hl⟩ := exists_line_of_mem_faults hd
  exact ((readFrom_readLine l).faults d hl).early

end Source

end SolMachine.Assembly
