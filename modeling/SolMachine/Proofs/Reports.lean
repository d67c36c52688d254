import SolMachine.Proofs.LineParts
import SolMachine.Proofs.Passes

/-!
# What is reported

* `IsStableSort` : the order of diagnostics; there is one such order (`IsStableSort.unique`), and
  `Diagnostics.sort` finds it (`isStableSort_sort`);
* `early_of_mem_programFaults`, `not_early_of_mem_operandFaults` : which pass finds which problem;
* `assemble_reports_exactly` : the faults that `assemble` reports, in their order.
-/

namespace SolMachine.Assembly
open SolMachine.Text

/-- The diagnostics `es` are `ds` by the start of their first span, and those that start together
stand in the order that they have in `ds`. -/
structure IsStableSort (ds es : List Diagnostic) : Prop where
  sorted : es.Pairwise fun d e => d.start ≤ e.start
  stable : ∀ k, (es.filter fun d => d.start = k) = ds.filter fun d => d.start = k

/-! ## Sorting -/

section Order
variable {ds es fs : List Diagnostic}

theorem mem_of_filter_eq (h : ∀ k, (es.filter fun d => d.start = k) = fs.filter fun d => d.start = k)
    {d : Diagnostic} (hd : d ∈ es) : d ∈ fs := by
  have hmem : d ∈ es.filter fun e => e.start = d.start :=
    List.mem_filter.2 ⟨hd, decide_eq_true rfl⟩
  rw [h] at hmem
  exact (List.mem_filter.1 hmem).1

/-- Sorted diagnostics are determined by those of every start. -/
theorem eq_of_filter_eq (hes : es.Pairwise fun d e => d.start ≤ e.start)
    (hfs : fs.Pairwise fun d e => d.start ≤ e.start)
    (h : ∀ k, (es.filter fun d => d.start = k) = fs.filter fun d => d.start = k) : es = fs := by
  induction es generalizing fs with
  | nil =>
    cases fs with
    | nil => rfl
    | cons f fs =>
      have hf : f ∈ [] := mem_of_filter_eq (fun k => (h k).symm) (List.mem_cons_self ..)
      cases hf
  | cons e es ih =>
    cases fs with
    | nil =>
      have he : e ∈ [] := mem_of_filter_eq h (List.mem_cons_self ..)
      cases he
    | cons f fs =>
      obtain ⟨hle, hes'⟩ := List.pairwise_cons.1 hes
      obtain ⟨hlf, hfs'⟩ := List.pairwise_cons.1 hfs
      -- Each of the two first elements occurs in the other list, so they start together.
      have hef : e.start ≤ f.start := by
        have hmem : f ∈ e :: es := mem_of_filter_eq (fun k => (h k).symm) (List.mem_cons_self ..)
        rcases List.mem_cons.1 hmem with rfl | hf
        · exact Nat.le_refl _
        · exact hle f hf
      have hfe : f.start ≤ e.start := by
        have hmem : e ∈ f :: fs := mem_of_filter_eq h (List.mem_cons_self ..)
        rcases List.mem_cons.1 hmem with rfl | he
        · exact Nat.le_refl _
        · exact hlf e he
      have hstart : f.start = e.start := Nat.le_antisymm hfe hef
      have hhead := h e.start
      rw [List.filter_cons_of_pos (by simp), List.filter_cons_of_pos (by simp [hstart])] at hhead
      obtain ⟨rfl, -⟩ := List.cons.inj hhead
      refine congrArg (e :: ·) (ih hes' hfs' fun k => ?_)
      have hk := h k
      by_cases hek : e.start = k
      · rw [List.filter_cons_of_pos (by simp [hek]), List.filter_cons_of_pos (by simp [hek])] at hk
        exact (List.cons.inj hk).2
      · rwa [List.filter_cons_of_neg (by simp [hek]), List.filter_cons_of_neg (by simp [hek])] at hk

theorem IsStableSort.unique (he : IsStableSort ds es) (hf : IsStableSort ds fs) : es = fs :=
  eq_of_filter_eq he.sorted hf.sorted fun k => (he.stable k).trans (hf.stable k).symm

theorem isStableSort_sort (ds : List Diagnostic) : IsStableSort ds (Diagnostics.sort ds) := by
  have htrans : ∀ d e f : Diagnostic, decide (d.start ≤ e.start) → decide (e.start ≤ f.start) →
      decide (d.start ≤ f.start) := by
    simp only [decide_eq_true_eq]
    omega
  have htotal : ∀ d e : Diagnostic, decide (d.start ≤ e.start) || decide (e.start ≤ d.start) := by
    simp only [Bool.or_eq_true, decide_eq_true_eq]
    omega
  refine ⟨?_, fun k => ?_⟩
  · exact (List.pairwise_mergeSort htrans htotal ds).imp fun h => of_decide_eq_true h
  · -- Those that start at `k` are a sorted sublist, which the sort keeps; it has no others.
    have hkept : (ds.filter fun d => d.start = k).Pairwise fun d e => decide (d.start ≤ e.start) := by
      refine List.Pairwise.imp_of_mem ?_ (List.pairwise_of_forall fun _ _ => trivial)
      intro d e hd he _
      have hdk := of_decide_eq_true (List.mem_filter.1 hd).2
      have hek := of_decide_eq_true (List.mem_filter.1 he).2
      exact decide_eq_true (by omega)
    have hsub := (List.sublist_mergeSort htrans htotal hkept List.filter_sublist).filter
      fun d => decide (d.start = k)
    rw [List.filter_filter] at hsub
    simp only [Bool.and_self] at hsub
    have hperm := (List.mergeSort_perm ds fun d e => decide (d.start ≤ e.start)).filter
      fun d => decide (d.start = k)
    exact (hsub.eq_of_length hperm.length_eq.symm).symm

theorem IsStableSort.mem_iff (h : IsStableSort ds es) {d : Diagnostic} : d ∈ es ↔ d ∈ ds :=
  ⟨mem_of_filter_eq h.stable, mem_of_filter_eq fun k => (h.stable k).symm⟩

end Order

/-! ## Which pass finds what -/

theorem early_of_mem_visitFaults {before : List Statement} {s : Statement} {d : Diagnostic}
    (h : d ∈ visitFaults before s) : d.Early := by
  rcases List.mem_append.1 h with h | h
  · unfold labelFaults at h
    repeat' split at h
    all_goals first | cases h; done | rw [List.mem_singleton.1 h]; rfl
  · unfold stackFaults at h
    repeat' split at h
    all_goals first | cases h; done | rw [List.mem_singleton.1 h]; rfl

theorem early_of_mem_programFaults {ss : List Statement} {d : Diagnostic}
    (h : d ∈ programFaults ss) : d.Early := by
  unfold programFaults at h
  rcases List.mem_append.1 h with h | h
  · rcases List.mem_append.1 h with h | h
    · unfold sizeFaults at h
      split at h
      · cases h
      · rw [List.mem_singleton.1 h]
        rfl
    · obtain ⟨a, s, -, hd⟩ := (mem_eachWithPrefix _).1 h
      exact early_of_mem_visitFaults hd
  · unfold countFaults at h
    split at h
    · rw [List.mem_singleton.1 h]
      rfl
    · cases h

theorem early_of_mem_earlyFaults {cs : List Char} {d : Diagnostic} (h : d ∈ earlyFaults cs) :
    d.Early := by
  rcases List.mem_append.1 h with h | h
  · exact early_of_mem_faults d h
  · exact early_of_mem_programFaults ((isStableSort_sort _).mem_iff.1 h)

theorem not_early_of_integerFault? {a : Nat} {relative : Bool} {span : Span} {n : Int}
    {d : Diagnostic} (h : integerFault? a relative span n = some d) : ¬ d.Early := by
  unfold integerFault? at h
  repeat' split at h
  all_goals first | cases h; done | obtain rfl := Option.some.inj h; exact Bool.noConfusion

theorem not_early_of_labelUseFault? {ss : List Statement} {l : Label} {d : Diagnostic}
    (h : labelUseFault? ss l = some d) : ¬ d.Early := by
  unfold labelUseFault? at h
  split at h
  · cases h
  · obtain rfl := Option.some.inj h
    exact Bool.noConfusion

theorem not_early_of_operandFault? {ss : List Statement} {a : Nat} {s : Statement} {d : Diagnostic}
    (h : operandFault? ss a s = some d) : ¬ d.Early := by
  unfold operandFault? at h
  split at h
  · obtain ⟨x, -, hx⟩ := Option.bind_eq_some_iff.1 h
    cases x with
    | int w => exact not_early_of_integerFault? hx
    | label l => exact not_early_of_labelUseFault? hx
  · cases h
  · exact not_early_of_labelUseFault? h

theorem not_early_of_mem_operandFaults {ss : List Statement} {d : Diagnostic}
    (h : d ∈ operandFaults ss) : ¬ d.Early := by
  obtain ⟨x, -, hx⟩ := List.mem_filterMap.1 h
  exact not_early_of_operandFault? hx

/-! ## The report -/

/-- Labels are only too many where statements are. -/
theorem sizeFaults_ne_nil_of_countFaults {ss : List Statement} (h : countFaults ss ≠ []) :
    sizeFaults ss ≠ [] := by
  rw [ne_eq, sizeFaults_eq_nil_iff]
  exact fun hsize => h (countFaults_eq_nil hsize)

theorem sizeFaults_ne_nil_iff (ss : List Statement) : sizeFaults ss ≠ [] ↔ 16384 < ss.length := by
  rw [ne_eq, sizeFaults_eq_nil_iff, Nat.not_le]

theorem countFaults_ne_nil_iff (ss : List Statement) :
    countFaults ss ≠ [] ↔ 16384 < (labelNames ss).eraseDups.length := by
  have hmax : maxWords = 16384 := rfl
  unfold countFaults
  rw [hmax]
  split
  · next h => exact ⟨fun _ => h, fun _ => List.cons_ne_nil _ _⟩
  · next h => exact ⟨fun hne => absurd rfl hne, fun hlt => absurd hlt h⟩

/-- `assemble` reports every fault, in the order of the text, and never those of operands together
with others. Faults of lines come before those of the survey that start at the same place. The
statements that are surveyed are those of all lines that are not blank, the faulty ones included. -/
theorem assemble_reports_exactly (source : String) (debug : Bool) :
    let read := readSource source.toList
    let ss := read.statements
    (match assemble source debug with
      | .ok _ => read.faults = [] ∧ programFaults ss = [] ∧ operandFaults ss = []
      | .error ds =>
        ds.toList ≠ [] ∧ (ds.toList.Pairwise fun d e => d.start ≤ e.start) ∧
        (((read.faults ≠ [] ∨ programFaults ss ≠ []) ∧
            (∃ found, IsStableSort (programFaults ss) found ∧
              IsStableSort (read.faults ++ found) ds.toList) ∧
            ∀ d ∈ ds.toList, d.Early) ∨
          (read.faults = [] ∧ programFaults ss = [] ∧
            IsStableSort (operandFaults ss) ds.toList ∧ ∀ d ∈ ds.toList, ¬ d.Early))) ∧
    ss.map some = (nonblankLines source.toList).map (fun l => (readLine l).statement) ∧
    (sizeFaults ss ≠ [] ↔ 16384 < ss.length) ∧
    (countFaults ss ≠ [] ↔ 16384 < (labelNames ss).eraseDups.length) ∧
    (countFaults ss ≠ [] → sizeFaults ss ≠ []) := by
  intro read ss
  refine ⟨?_, map_some_statements source.toList, sizeFaults_ne_nil_iff ss,
    countFaults_ne_nil_iff ss, sizeFaults_ne_nil_of_countFaults⟩
  by_cases hearly : earlyFaults source.toList = []
  · obtain ⟨hf, hp⟩ := (earlyFaults_eq_nil_iff source.toList).1 hearly
    by_cases ho : operandFaults ss = []
    · obtain ⟨p, hok, -⟩ := assemble_of_no_faults hearly ho debug
      rw [hok]
      exact ⟨hf, hp, ho⟩
    · have hsort := isStableSort_sort (operandFaults ss)
      rw [assemble_of_operandFaults hearly ho debug]
      refine ⟨fun hnil => ho ((Diagnostics.sort_eq_nil_iff _).1 hnil), hsort.sorted, .inr ?_⟩
      exact ⟨hf, hp, hsort, fun d hd => not_early_of_mem_operandFaults (hsort.mem_iff.1 hd)⟩
  · have hsort := isStableSort_sort (earlyFaults source.toList)
    rw [assemble_of_earlyFaults hearly debug]
    refine ⟨fun hnil => hearly ((Diagnostics.sort_eq_nil_iff _).1 hnil), hsort.sorted, .inl ?_⟩
    refine ⟨?_, ⟨_, isStableSort_sort (programFaults ss), hsort⟩, fun d hd => ?_⟩
    · rw [earlyFaults_eq_nil_iff, not_and_or] at hearly
      exact hearly
    · exact early_of_mem_earlyFaults (hsort.mem_iff.1 hd)

end SolMachine.Assembly
