import SolMachine.Proofs.Moving
import SolMachine.Proofs.Reports

/-!
# The faults of programs whose parts stand elsewhere

The order of the parts stays: `φ` is strictly increasing.

* `programFaults_move`, `operandFaults_move` : the faults of a program whose parts stand elsewhere are
  the same faults, elsewhere;
* `sort_move` : they have the same order;
* `SourceResult.outcome` : the words of a program or its problems in the order of their places, and
  `outcome_move` : it does not depend on where the parts stand;
* `assemble_outcome` : it is what `assemble` gives.
-/

namespace SolMachine.Assembly
open SolMachine.Text

variable {φ : Nat → Nat}

/-! ## Labels and the stack -/

section Survey
variable (ss before : List Statement) (s : Statement)

theorem labelNames_move : labelNames (ss.map (Statement.move φ)) = labelNames ss := by
  rw [← labelNames_unplaced, map_unplaced_move, labelNames_unplaced]

theorem firstDefinition?_move (name : String) :
    firstDefinition? (ss.map (Statement.move φ)) name =
      (firstDefinition? ss name).map fun (a, l) => (a, l.move φ) := by
  induction ss using List.reverseRecOn with
  | nil => rfl
  | append_singleton ss s ih =>
    have hfilter : ((s.move φ).label.filter fun l => l.name = name) =
        (s.label.filter fun l => l.name = name).map (Label.move φ) := Option.filter_map
    rw [List.map_append, List.map_singleton, firstDefinition?_append_singleton,
      firstDefinition?_append_singleton, ih, Option.map_or, hfilter, Option.map_map, Option.map_map,
      List.length_map]
    rfl

theorem nextDepth_move (d : Nat) : nextDepth d (s.move φ) = nextDepth d s := by
  obtain ⟨label, i | v, span⟩ := s
  · cases i <;> rfl
  · rfl

theorem depth_move : depth (ss.map (Statement.move φ)) = depth ss := by
  unfold depth
  rw [List.foldl_map]
  exact congrArg (fun f => ss.foldl f 0) (funext fun d => funext fun s => nextDepth_move s d)

theorem stackFaults_move :
    stackFaults (before.map (Statement.move φ)) (s.move φ) =
      (stackFaults before s).map (Diagnostic.move φ) := by
  have hfault (c : Prop) [Decidable c] (p : Problem) (t : Span) :
      (if c then [Diagnostic.of p (t.move φ)] else []) =
        (if c then [Diagnostic.of p t] else []).map (Diagnostic.move φ) := by
    split <;> rfl
  unfold stackFaults
  rw [depth_move]
  obtain ⟨label, i | v, span⟩ := s
  · cases i with
    | push r => exact hfault _ _ _
    | pop r => exact hfault _ _ _
    | _ => rfl
  · rfl

/-- What is found along a program moves with the parts of the program. -/
theorem eachWithPrefix_move {β : Type} {f : List Statement → Statement → List β} {g : β → β}
    (h : ∀ before s, f (before.map (Statement.move φ)) (s.move φ) = (f before s).map g) :
    eachWithPrefix f (ss.map (Statement.move φ)) = (eachWithPrefix f ss).map g := by
  induction ss using List.reverseRecOn with
  | nil => rfl
  | append_singleton ss s ih =>
    rw [List.map_append, List.map_singleton, eachWithPrefix_append_singleton,
      eachWithPrefix_append_singleton, ih, h, List.map_append]

theorem newLabels_move : newLabels (ss.map (Statement.move φ)) = (newLabels ss).map (Label.move φ) := by
  refine eachWithPrefix_move ss fun before s => ?_
  unfold newLabel
  rw [labelNames_move]
  show ((s.label.map (Label.move φ)).filter _).toList = _
  rw [Option.filter_map, Option.toList_map]
  rfl

end Survey

/-! ## Faults -/

section Faults
variable (ss before : List Statement) (s : Statement)

theorem pair_move (hφ : StrictMono φ) (s t : Span) :
    Place.pair (s.move φ) (t.move φ) = (Place.pair s t).move φ := by
  have hle : (s.move φ).start ≤ (t.move φ).start ↔ s.start ≤ t.start := hφ.le_iff_le
  unfold Place.pair
  by_cases h : s.start ≤ t.start
  · rw [if_pos h, if_pos (hle.2 h)]
    rfl
  · rw [if_neg h, if_neg fun hmoved => h (hle.1 hmoved)]
    rfl

theorem labelFaults_move (hφ : StrictMono φ) :
    labelFaults (before.map (Statement.move φ)) (s.move φ) =
      (labelFaults before s).map (Diagnostic.move φ) := by
  have hlabel : (s.move φ).label = s.label.map (Label.move φ) := rfl
  unfold labelFaults
  rw [hlabel]
  cases s.label with
  | none => rfl
  | some l =>
    have hname : (l.move φ).name = l.name := rfl
    rw [Option.map_some]
    dsimp only
    rw [hname, firstDefinition?_move]
    cases firstDefinition? before l.name with
    | none => rfl
    | some d =>
      show [Diagnostic.mk _ (Place.pair (d.2.span.move φ) (l.span.move φ))] = _
      rw [pair_move hφ]
      rfl

theorem sizeFaults_move :
    sizeFaults (ss.map (Statement.move φ)) = (sizeFaults ss).map (Diagnostic.move φ) := by
  unfold sizeFaults
  rw [List.getElem?_map]
  cases ss[maxWords]? <;> rfl

theorem countFaults_move :
    countFaults (ss.map (Statement.move φ)) = (countFaults ss).map (Diagnostic.move φ) := by
  unfold countFaults
  rw [labelNames_move]
  split
  · next h =>
    -- There is a new label, so the place is not the one that stands for none.
    have hlast : lastNewStart (ss.map (Statement.move φ)) = φ (lastNewStart ss) := by
      unfold lastNewStart
      rw [newLabels_move, List.getLast?_map]
      cases hnew : (newLabels ss).getLast? with
      | none =>
        rw [← length_newLabels, List.getLast?_eq_none_iff.1 hnew] at h
        exact absurd h (Nat.not_lt_zero _)
      | some l => rfl
    rw [hlast]
    rfl
  · rfl

/-- The faults of the survey are the same, elsewhere. -/
theorem programFaults_move (hφ : StrictMono φ) :
    programFaults (ss.map (Statement.move φ)) = (programFaults ss).map (Diagnostic.move φ) := by
  have hvisit : eachWithPrefix visitFaults (ss.map (Statement.move φ)) =
      (eachWithPrefix visitFaults ss).map (Diagnostic.move φ) :=
    eachWithPrefix_move ss fun before s => by
      unfold visitFaults
      rw [labelFaults_move before s hφ, stackFaults_move, List.map_append]
  unfold programFaults
  rw [sizeFaults_move, hvisit, countFaults_move, List.map_append, List.map_append]

variable (a : Nat)

theorem integerFault?_move (relative : Bool) (span : Span) (n : Int) :
    integerFault? a relative (span.move φ) n =
      (integerFault? a relative span n).map (Diagnostic.move φ) := by
  unfold integerFault?
  split
  · rfl
  · split <;> rfl

theorem labelUseFault?_move (l : Label) :
    labelUseFault? (ss.map (Statement.move φ)) (l.move φ) =
      (labelUseFault? ss l).map (Diagnostic.move φ) := by
  unfold labelUseFault?
  rw [labelNames_move]
  show (if l.name ∈ labelNames ss then _ else _) = _
  split <;> rfl

theorem addressFault?_move (relative : Bool) (span : Span) (v : AddressOperand) :
    addressFault? (ss.map (Statement.move φ)) a relative (span.move φ) (v.move φ) =
      (addressFault? ss a relative span v).map (Diagnostic.move φ) := by
  cases v with
  | int w => exact integerFault?_move a relative span w.toInt
  | label l => exact labelUseFault?_move ss l

theorem operandFault?_move :
    operandFault? (ss.map (Statement.move φ)) a (s.move φ) =
      (operandFault? ss a s).map (Diagnostic.move φ) := by
  obtain ⟨label, i | v, span⟩ := s
  · show (i.map (AddressOperand.move φ)).address?.bind
        (addressFault? _ a (i.map (AddressOperand.move φ)).opcode.isRelative (span.move φ)) =
      (i.address?.bind (addressFault? ss a i.opcode.isRelative span)).map (Diagnostic.move φ)
    rw [Instruction.address?_map, Instruction.opcode_map]
    cases i.address? with
    | none => rfl
    | some v => exact addressFault?_move ss a _ span v
  · cases v with
    | int w => rfl
    | label l => exact labelUseFault?_move ss l

/-- The faults of operands are the same, elsewhere. -/
theorem operandFaults_move :
    operandFaults (ss.map (Statement.move φ)) = (operandFaults ss).map (Diagnostic.move φ) := by
  unfold operandFaults
  rw [List.zipIdx_map, List.filterMap_map, List.map_filterMap]
  exact congrArg (fun f => ss.zipIdx.filterMap f) (funext fun x => operandFault?_move ss x.1 x.2)

/-- Faults keep their order. -/
theorem sort_move (hφ : StrictMono φ) (ds : List Diagnostic) :
    Diagnostics.sort (ds.map (Diagnostic.move φ)) = (Diagnostics.sort ds).map (Diagnostic.move φ) := by
  refine (List.map_mergeSort fun d _ e _ => ?_).symm
  have hle : (d.move φ).start ≤ (e.move φ).start ↔ d.start ≤ e.start := hφ.le_iff_le
  exact decide_eq_decide.2 hle.symm

end Faults

/-! ## The outcome -/

/-- The problems in the order of their places. -/
def Diagnostics.problems (ds : Diagnostics) : List Problem := ds.toList.map Diagnostic.problem

namespace SourceResult

def move (φ : Nat → Nat) (r : SourceResult) : SourceResult :=
  ⟨r.statements.map (Statement.move φ), r.faults.map (Diagnostic.move φ)⟩

/-- The faults that are found before operands get their values. -/
def earlyFaults (r : SourceResult) : List Diagnostic :=
  r.faults ++ Diagnostics.sort (programFaults r.statements)

/-- The words of a program, or its problems in the order of their places. -/
def outcome (r : SourceResult) : Except (List Problem) (List Word) :=
  if r.earlyFaults ≠ [] then .error (Diagnostics.ofList r.earlyFaults).problems
  else if operandFaults r.statements ≠ [] then
    .error (Diagnostics.ofList (operandFaults r.statements)).problems
  else .ok (r.statements.mapIdx (wordOf r.statements))

variable (r : SourceResult) (hφ : StrictMono φ)
include hφ

theorem problems_move (ds : List Diagnostic) :
    (Diagnostics.ofList (ds.map (Diagnostic.move φ))).problems =
      (Diagnostics.ofList ds).problems := by
  show (Diagnostics.sort (ds.map (Diagnostic.move φ))).map Diagnostic.problem = _
  rw [sort_move hφ, List.map_map]
  rfl

theorem earlyFaults_move :
    (r.move φ).earlyFaults = r.earlyFaults.map (Diagnostic.move φ) := by
  unfold earlyFaults SourceResult.move
  dsimp only
  rw [programFaults_move _ hφ, sort_move hφ, List.map_append]

/-- Where the parts of a program stand does not change what becomes of it. -/
theorem outcome_move : (r.move φ).outcome = r.outcome := by
  have hwords : (r.move φ).statements.mapIdx (wordOf (r.move φ).statements) =
      r.statements.mapIdx (wordOf r.statements) := by
    show (r.statements.map (Statement.move φ)).mapIdx
      (wordOf (r.statements.map (Statement.move φ))) = _
    rw [← words_unplaced, map_unplaced_move, words_unplaced]
  have hoperands : operandFaults (r.move φ).statements =
      (operandFaults r.statements).map (Diagnostic.move φ) := operandFaults_move _
  unfold outcome
  rw [r.earlyFaults_move hφ, hoperands, hwords, problems_move hφ, problems_move hφ]
  simp only [ne_eq, List.map_eq_nil_iff]

end SourceResult

/-- What `assemble` gives for a text. -/
theorem assemble_outcome (source : String) (debug : Bool) :
    ((assemble source debug).map Program.words).mapError Diagnostics.problems =
      (readSource source.toList).outcome := by
  have hsame : (readSource source.toList).earlyFaults = earlyFaults source.toList := rfl
  unfold SourceResult.outcome
  rw [hsame]
  by_cases hearly : earlyFaults source.toList = []
  · rw [if_neg (not_not_intro hearly)]
    by_cases hoperands : operandFaults (readSource source.toList).statements = []
    · obtain ⟨p, hp, hwords⟩ := assemble_of_no_faults hearly hoperands debug
      rw [if_neg (not_not_intro hoperands), hp, ← hwords]
      rfl
    · rw [if_pos hoperands, assemble_of_operandFaults hearly hoperands debug]
      rfl
  · rw [if_pos hearly, assemble_of_earlyFaults hearly debug]
    rfl

end SolMachine.Assembly
