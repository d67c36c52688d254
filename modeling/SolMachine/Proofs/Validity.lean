import SolMachine.Proofs.Resolution

/-!
# Programs without faults

* `balance` : how many more `push` than `pop` there are;
* `depth_eq_balance` : as long as that stays between 0 and the capacity of the stack, it is the depth;
* `WellFormed`, `programFaults_eq_nil_iff` : the programs in which the survey finds no fault;
* `Resolvable`, `operandFaults_eq_nil_iff` : those whose operands all have values in range.
-/

namespace SolMachine.Assembly
open SolMachine.Text

/-- Whether the statement is a `push`. -/
def Statement.isPush (s : Statement) : Bool :=
  match s.body with
  | .instruction (.push _) => true
  | _ => false

/-- Whether the statement is a `pop`. -/
def Statement.isPop (s : Statement) : Bool :=
  match s.body with
  | .instruction (.pop _) => true
  | _ => false

/-- The number of `push` less the number of `pop`. -/
def balance (ss : List Statement) : Int :=
  (ss.countP Statement.isPush : Int) - (ss.countP Statement.isPop : Int)

/-- What a statement adds to the balance. -/
def Statement.gain (s : Statement) : Int :=
  match s.body with
  | .instruction (.push _) => 1
  | .instruction (.pop _) => -1
  | _ => 0

/-- After no statement is the balance below zero or above the capacity of the stack. -/
def Balanced (ss : List Statement) : Prop :=
  ∀ before, before <+: ss → 0 ≤ balance before ∧ balance before ≤ 32

/-- A program in which the survey finds no fault. -/
structure WellFormed (ss : List Statement) : Prop where
  size : ss.length ≤ 16384
  labels : (labelNames ss).Nodup
  stack : Balanced ss

/-- A program whose operands all have values, and values that are in range. -/
structure Resolvable (ss : List Statement) : Prop where
  /-- A label that is used is defined, before or after its use. -/
  defined : ∀ s ∈ ss, ∀ l, s.body.address? = some (.label l) → l.name ∈ labelNames ss
  /-- An integer of `lw` or `sw` fits fifteen bits. -/
  absolute : ∀ s ∈ ss, ∀ op a b w, s.body = .instruction (.transfer op a b (.int w)) →
    -16384 ≤ w.toInt ∧ w.toInt ≤ 16383
  /-- An integer of a branch fits fifteen bits and leads to an address of memory. -/
  relative : ∀ (a : Nat) s i w, ss[a]? = some s → s.body = .instruction i → i.opcode.isRelative →
    i.address? = some (.int w) →
    (-16384 ≤ w.toInt ∧ w.toInt ≤ 16383) ∧
      0 ≤ (a : Int) + 1 + w.toInt ∧ (a : Int) + 1 + w.toInt ≤ 16383

/-! ## The stack -/

theorem balanced_append_singleton (ss : List Statement) (s : Statement) :
    Balanced (ss ++ [s]) ↔
      Balanced ss ∧ 0 ≤ balance (ss ++ [s]) ∧ balance (ss ++ [s]) ≤ 32 := by
  constructor
  · intro h
    refine ⟨fun before hb => h before ?_, h _ (List.prefix_refl _)⟩
    exact hb.trans (List.prefix_append ss [s])
  · rintro ⟨h, hs⟩ before hb
    rcases List.prefix_concat_iff.1 hb with rfl | hb
    · exact hs
    · exact h before hb

/-- A statement pushes, pops, or leaves the stack alone. -/
theorem Statement.push_or_pop_or (s : Statement) :
    (∃ r, s.body = .instruction (.push r)) ∨ (∃ r, s.body = .instruction (.pop r)) ∨
      ((s.isPush = false ∧ s.isPop = false ∧ s.gain = 0) ∧
        (∀ before, stackFaults before s = []) ∧ ∀ d, nextDepth d s = d) := by
  obtain ⟨label, body, span⟩ := s
  cases body with
  | fill v => exact .inr (.inr ⟨⟨rfl, rfl, rfl⟩, fun _ => rfl, fun _ => rfl⟩)
  | instruction i =>
    cases i with
    | push r => exact .inl ⟨r, rfl⟩
    | pop r => exact .inr (.inl ⟨r, rfl⟩)
    | _ => exact .inr (.inr ⟨⟨rfl, rfl, rfl⟩, fun _ => rfl, fun _ => rfl⟩)

theorem balance_append_singleton (ss : List Statement) (s : Statement) :
    balance (ss ++ [s]) = balance ss + s.gain := by
  unfold balance
  rw [List.countP_append, List.countP_append, List.countP_singleton, List.countP_singleton]
  rcases s.push_or_pop_or with ⟨r, hr⟩ | ⟨r, hr⟩ | ⟨⟨hpush, hpop, hgain⟩, -⟩
  · simp only [Statement.isPush, Statement.isPop, Statement.gain, hr, if_true, Bool.false_eq_true,
      if_false]
    omega
  · simp only [Statement.isPush, Statement.isPop, Statement.gain, hr, if_true, Bool.false_eq_true,
      if_false]
    omega
  · simp only [hpush, hpop, hgain, Bool.false_eq_true, if_false]
    omega

/-- Where the depth is the balance, a statement gives no fault if and only if the balance after it is in
range. -/
theorem stackFaults_eq_nil_iff {before : List Statement} (h : (depth before : Int) = balance before)
    (s : Statement) :
    stackFaults before s = [] ↔ 0 ≤ balance (before ++ [s]) ∧ balance (before ++ [s]) ≤ 32 := by
  have hcap : stackCapacity = 32 := rfl
  have hle := depth_le before
  rw [balance_append_singleton]
  rcases s.push_or_pop_or with ⟨r, hr⟩ | ⟨r, hr⟩ | ⟨⟨-, -, hgain⟩, hfaults, -⟩
  · simp only [stackFaults, Statement.gain, hr, ite_eq_right_iff, List.cons_ne_nil, imp_false]
    omega
  · simp only [stackFaults, Statement.gain, hr, ite_eq_right_iff, List.cons_ne_nil, imp_false]
    omega
  · simp only [hfaults, hgain, true_iff]
    omega

/-- Where the depth is the balance, it is the balance again after a statement that keeps it in range. -/
theorem nextDepth_eq_balance {before : List Statement} (h : (depth before : Int) = balance before)
    {s : Statement} (hlo : 0 ≤ balance (before ++ [s])) (hhi : balance (before ++ [s]) ≤ 32) :
    (nextDepth (depth before) s : Int) = balance (before ++ [s]) := by
  have hcap : stackCapacity = 32 := rfl
  rw [balance_append_singleton] at hlo hhi ⊢
  rcases s.push_or_pop_or with ⟨r, hr⟩ | ⟨r, hr⟩ | ⟨⟨-, -, hgain⟩, -, hdepth⟩
  · simp only [Statement.gain, hr] at hlo hhi
    simp only [nextDepth, Statement.gain, hr]
    rw [if_pos (by omega)]
    omega
  · simp only [Statement.gain, hr] at hlo hhi
    simp only [nextDepth, Statement.gain, hr]
    omega
  · rw [hdepth, hgain]
    omega

theorem depth_eq_balance {ss : List Statement} (h : Balanced ss) : (depth ss : Int) = balance ss := by
  induction ss using List.reverseRecOn with
  | nil => rfl
  | append_singleton ss s ih =>
    obtain ⟨hbefore, hlo, hhi⟩ := (balanced_append_singleton ss s).1 h
    rw [depth_append_singleton]
    exact nextDepth_eq_balance (ih hbefore) hlo hhi

/-! ## What the survey checks -/

theorem nodup_labelNames_append_singleton (ss : List Statement) (s : Statement) :
    (labelNames (ss ++ [s])).Nodup ↔ (labelNames ss).Nodup ∧ labelFaults ss s = [] := by
  rw [labelNames_append, labelNames_singleton, Statement.name?]
  cases hl : s.label with
  | none => simp [labelFaults_of_none hl]
  | some l =>
    have hfault : labelFaults ss s = [] ↔ l.name ∉ labelNames ss := by
      rw [labelFaults_eq_nil_iff, hl]
      exact ⟨fun h => h l rfl, fun h k hk => Option.some.inj hk ▸ h⟩
    rw [hfault, Option.map_some, Option.toList_some, List.nodup_append]
    refine and_congr_right fun _ => ⟨fun h hmem => ?_, fun h => ⟨?_, ?_⟩⟩
    · exact h.2 _ hmem _ (List.mem_singleton_self _) rfl
    · exact List.nodup_cons.2 ⟨List.not_mem_nil, List.nodup_nil⟩
    · rintro name hname k hk rfl
      exact h (List.mem_singleton.1 hk ▸ hname)

/-- No statement gives a fault if names are distinct and the stack is balanced, and else one does. -/
theorem eachWithPrefix_visitFaults_eq_nil_iff (ss : List Statement) :
    eachWithPrefix visitFaults ss = [] ↔ (labelNames ss).Nodup ∧ Balanced ss := by
  induction ss using List.reverseRecOn with
  | nil =>
    refine ⟨fun _ => ⟨List.nodup_nil, fun before hb => ?_⟩, fun _ => rfl⟩
    rw [List.prefix_nil.1 hb]
    decide
  | append_singleton ss s ih =>
    rw [eachWithPrefix_append_singleton, List.append_eq_nil_iff, ih, visitFaults,
      List.append_eq_nil_iff, nodup_labelNames_append_singleton, balanced_append_singleton]
    constructor
    · rintro ⟨⟨hn, hb⟩, hlabel, hstack⟩
      exact ⟨⟨hn, hlabel⟩, hb, (stackFaults_eq_nil_iff (depth_eq_balance hb) s).1 hstack⟩
    · rintro ⟨⟨hn, hlabel⟩, hb, hs⟩
      exact ⟨⟨hn, hb⟩, hlabel, (stackFaults_eq_nil_iff (depth_eq_balance hb) s).2 hs⟩

theorem sizeFaults_eq_nil_iff (ss : List Statement) : sizeFaults ss = [] ↔ ss.length ≤ 16384 := by
  have hmax : maxWords = 16384 := rfl
  unfold sizeFaults
  rw [← hmax, ← List.getElem?_eq_none_iff]
  cases ss[maxWords]? <;> simp

/-- Labels can only be too many where statements are. -/
theorem countFaults_eq_nil {ss : List Statement} (h : ss.length ≤ 16384) : countFaults ss = [] := by
  have hmax : maxWords = 16384 := rfl
  have hle := length_newLabels_le ss
  rw [length_newLabels] at hle
  unfold countFaults
  rw [if_neg (by omega)]

/-- The survey finds no fault in well-formed programs, and some fault in any other. -/
theorem programFaults_eq_nil_iff (ss : List Statement) : programFaults ss = [] ↔ WellFormed ss := by
  unfold programFaults
  rw [List.append_eq_nil_iff, List.append_eq_nil_iff, sizeFaults_eq_nil_iff,
    eachWithPrefix_visitFaults_eq_nil_iff]
  constructor
  · rintro ⟨⟨hsize, hlabels, hstack⟩, -⟩
    exact ⟨hsize, hlabels, hstack⟩
  · rintro ⟨hsize, hlabels, hstack⟩
    exact ⟨⟨hsize, hlabels, hstack⟩, countFaults_eq_nil hsize⟩

/-! ## What the operands need -/

theorem integerFault?_eq_none_iff (a : Nat) (relative : Bool) (span : Span) (n : Int) :
    integerFault? a relative span n = none ↔ (-16384 ≤ n ∧ n ≤ 16383) ∧
      (relative → 0 ≤ (a : Int) + 1 + n ∧ (a : Int) + 1 + n ≤ 16383) := by
  unfold integerFault?
  by_cases hwide : n < -16384 ∨ 16383 < n
  · rw [if_pos hwide]
    simp only [reduceCtorEq, false_iff]
    omega
  · rw [if_neg hwide]
    have hfits : -16384 ≤ n ∧ n ≤ 16383 := by omega
    simp only [hfits, ite_eq_right_iff, reduceCtorEq, imp_false, not_and, true_and]
    exact forall_congr' fun _ => by omega

theorem labelUseFault?_eq_none_iff (ss : List Statement) (l : Label) :
    labelUseFault? ss l = none ↔ l.name ∈ labelNames ss := by
  unfold labelUseFault?
  split <;> simp_all

/-- An instruction with an address operand transfers a word or branches. -/
theorem transfer_or_isRelative {α : Type} {i : Instruction α} {x : α} (h : i.address? = some x) :
    (∃ op a b, i = .transfer op a b x) ∨ i.opcode.isRelative := by
  cases i with
  | transfer op a b t => exact .inl ⟨op, a, b, by rw [Option.some.inj h]⟩
  | branch | jne => exact .inr rfl
  | _ => cases h

theorem operandFault?_eq_none_iff (ss : List Statement) (a : Nat) (s : Statement) :
    operandFault? ss a s = none ↔
      (∀ l, s.body.address? = some (.label l) → l.name ∈ labelNames ss) ∧
      ∀ i, s.body = .instruction i → ∀ w, i.address? = some (.int w) →
        (-16384 ≤ w.toInt ∧ w.toInt ≤ 16383) ∧ (i.opcode.isRelative →
          0 ≤ (a : Int) + 1 + w.toInt ∧ (a : Int) + 1 + w.toInt ≤ 16383) := by
  unfold operandFault? Body.address?
  cases s.body with
  | fill v => cases v with
    | int w => simp
    | label l => simp [labelUseFault?_eq_none_iff]
  | instruction i =>
    simp only [Body.instruction.injEq, forall_eq']
    cases hx : i.address? with
    | none => simp
    | some x => cases x with
      | int w => simp [addressFault?, integerFault?_eq_none_iff]
      | label l => simp [addressFault?, labelUseFault?_eq_none_iff]

theorem operandFaults_eq_nil_iff_forall (ss : List Statement) :
    operandFaults ss = [] ↔ ∀ a s, ss[a]? = some s → operandFault? ss a s = none := by
  unfold operandFaults
  rw [List.filterMap_eq_nil_iff]
  constructor
  · exact fun h a s hs => h (s, a) (List.mem_zipIdx_iff_getElem?.2 hs)
  · exact fun h x hx => h x.2 x.1 (List.mem_zipIdx_iff_getElem?.1 hx)

/-- All operands have values in range, or one of them is reported. -/
theorem operandFaults_eq_nil_iff (ss : List Statement) : operandFaults ss = [] ↔ Resolvable ss := by
  rw [operandFaults_eq_nil_iff_forall]
  constructor
  · intro h
    have hnone : ∀ a s, ss[a]? = some s → _ :=
      fun a s hs => (operandFault?_eq_none_iff ss a s).1 (h a s hs)
    refine ⟨fun s hs l hl => ?_, fun s hs op a b w hbody => ?_, fun a s i w hs hbody hrel hw => ?_⟩
    · obtain ⟨a, ha⟩ := List.getElem?_of_mem hs
      exact (hnone a s ha).1 l hl
    · obtain ⟨c, hc⟩ := List.getElem?_of_mem hs
      exact ((hnone c s hc).2 _ hbody w rfl).1
    · obtain ⟨hfits, hin⟩ := (hnone a s hs).2 i hbody w hw
      exact ⟨hfits, hin hrel⟩
  · rintro ⟨hdefined, habsolute, hrelative⟩ a s hs
    have hmem : s ∈ ss := List.mem_of_getElem? hs
    refine (operandFault?_eq_none_iff ss a s).2 ⟨hdefined s hmem, fun i hbody w hw => ?_⟩
    rcases transfer_or_isRelative hw with ⟨op, r, q, rfl⟩ | hrel
    · exact ⟨habsolute s hmem op r q w hbody, fun h => by cases h⟩
    · obtain ⟨hfits, hin⟩ := hrelative a s i w hs hbody hrel hw
      exact ⟨hfits, fun _ => hin⟩

end SolMachine.Assembly
