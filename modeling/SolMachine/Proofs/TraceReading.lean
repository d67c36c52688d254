import SolMachine.Proofs.Tracing

/-!
# Traces tell runs apart

A trace is read from its start: every part of it ends where another kind of line begins, so that two
traces with the same text agree part by part.

* `Trace.OneLine.inj` : a text determines its first line and the lines after it;
* `Machine.numbered_inj` : the lines of a section and what comes after them, if no such line can stand
  there;
* `Machine.block_inj` : a block determines what it shows of a machine;
* `Machine.record_inj` : so do the blocks of a run, with the last one of a halted machine;
* `Machine.states` : the machines at the start of a run and after every instruction that is executed;
* `trace_lossless` : traces with the same text show runs of the same length, which agree in every state.
-/

namespace SolMachine.Trace

/-! ## Lines -/

section Lines
variable {s t u v : String}

theorem cons_line_inj {c : Char} {as bs cs ds : List Char} (has : c ∉ as) (hbs : c ∉ bs)
    (h : as ++ c :: cs = bs ++ c :: ds) : as = bs ∧ cs = ds := by
  induction as generalizing bs with
  | nil =>
    cases bs with
    | nil => exact ⟨rfl, (List.cons.inj h).2⟩
    | cons b bs => exact absurd (List.cons.inj h).1 (List.ne_of_not_mem_cons hbs)
  | cons a as ih =>
    cases bs with
    | nil => exact absurd (List.cons.inj h).1.symm (List.ne_of_not_mem_cons has)
    | cons b bs =>
      obtain ⟨rfl, htail⟩ := List.cons.inj h
      obtain ⟨rfl, hrest⟩ :=
        ih (List.not_mem_of_not_mem_cons has) (List.not_mem_of_not_mem_cons hbs) htail
      exact ⟨rfl, hrest⟩

/-- A text determines its first line and what comes after it. -/
theorem OneLine.inj (hs : OneLine s) (ht : OneLine t) (h : s ++ ("\n" ++ u) = t ++ ("\n" ++ v)) :
    s = t ∧ u = v := by
  have hlist := congrArg String.toList h
  simp only [String.toList_append] at hlist
  obtain ⟨hline, hrest⟩ := cons_line_inj hs ht hlist
  exact ⟨String.toList_inj.1 hline, String.toList_inj.1 hrest⟩

end Lines

end SolMachine.Trace

namespace SolMachine

namespace Machine
open Trace

/-! ## Sections of numbered words -/

/-- The line of a word with its number. -/
def numberedLine (before between : String) (p : Word × Nat) : String :=
  before ++ "[ " ++ Nat.repr p.2 ++ " ]" ++ between ++ Decimal.write p.1.toInt ++ "\n"

section Numbered
variable {before between t u : String} {i : Nat}

/-- The lines of words that are numbered from `i` on. -/
def numberedFrom (before between : String) (i : Nat) (ws : List Word) : String :=
  String.join ((ws.zipIdx i).map (numberedLine before between))

theorem numberedFrom_cons (w : Word) (ws : List Word) :
    numberedFrom before between i (w :: ws) ++ t =
      before ++ ("[ " ++ (Nat.repr i ++ (" ]" ++ (between ++ (Decimal.write w.toInt ++
        ("\n" ++ (numberedFrom before between (i + 1) ws ++ t))))))) := by
  unfold numberedFrom
  rw [List.zipIdx_cons, List.map_cons, String.join_cons, numberedLine]
  simp only [String.append_assoc]

/-- The lines of a section determine its words, and what comes after them, where that does not begin
like a line of the section. -/
theorem numberedFrom_inj {vs ws : List Word} (ht : ∀ x, before ++ x ≠ t) (hu : ∀ x, before ++ x ≠ u)
    (h : numberedFrom before between i vs ++ t = numberedFrom before between i ws ++ u) :
    vs = ws ∧ t = u := by
  induction vs generalizing ws i with
  | nil =>
    cases ws with
    | nil => exact ⟨rfl, (String.append_right_inj _).1 h⟩
    | cons w ws =>
      rw [numberedFrom_cons] at h
      exact absurd (h.symm.trans String.empty_append) (ht _)
  | cons v vs ih =>
    cases ws with
    | nil =>
      rw [numberedFrom_cons] at h
      exact absurd (h.trans String.empty_append) (hu _)
    | cons w ws =>
      rw [numberedFrom_cons, numberedFrom_cons] at h
      simp only [String.append_right_inj] at h
      obtain ⟨hword, hrest⟩ := (oneLine_write v.toInt).inj (oneLine_write w.toInt) h
      obtain ⟨rfl, htail⟩ := ih hrest
      exact ⟨congrArg (· :: vs) (Decimal.write_inj hword), htail⟩

theorem numbered_inj {vs ws : List Word} (h : numbered before between vs ++ t =
    numbered before between ws ++ u) (ht : ∀ x, before ++ x ≠ t) (hu : ∀ x, before ++ x ≠ u) :
    vs = ws ∧ t = u :=
  numberedFrom_inj (i := 0) ht hu h

end Numbered

/-! ## Blocks -/

section Block
variable {m k : Machine} {t u : String}

/-- A block determines what it shows, and what comes after it. -/
theorem block_inj (h : m.block m.pc ++ t = k.block k.pc ++ u) : m.shown = k.shown ∧ t = u := by
  have hmemory : "\n\tmemory:\n" = "\n" ++ "\tmemory:\n" := by decide
  have hend : "\nend state" = "\n" ++ "end state" := by decide
  have hline : ∀ b : Bool, OneLine (if b then "true" else "false") := by decide
  unfold block at h
  rw [hmemory, hend] at h
  simp only [String.append_assoc, String.append_right_inj] at h
  obtain ⟨hpc, h⟩ := (oneLine_repr m.pc).inj (oneLine_repr k.pc) h
  obtain ⟨hwords, h⟩ := numbered_inj ((String.append_right_inj _).1 h)
    (by simp [← String.toList_inj]) (by simp [← String.toList_inj])
  obtain ⟨hregisters, h⟩ := numbered_inj ((String.append_right_inj _).1 h)
    (by simp [← String.toList_inj]) (by simp [← String.toList_inj])
  obtain ⟨hstack, h⟩ := numbered_inj ((String.append_right_inj _).1 h)
    (by simp [← String.toList_inj]) (by simp [← String.toList_inj])
  obtain ⟨hflag, h⟩ := (hline m.flag).inj (hline k.flag) ((String.append_right_inj _).1 h)
  have hbit : m.flag = k.flag := by
    cases hm : m.flag <;> cases hk : k.flag <;> simp [hm, hk] at hflag ⊢
  have hmem : m.memory = k.memory := congrArg Memory.mk (Array.toList_inj.1 hwords)
  refine ⟨?_, (String.append_right_inj _).1 h⟩
  unfold shown
  rw [Decimal.repr_inj hpc, hmem, Vector.toList_inj.1 hregisters, hstack, hbit]

theorem block_append_ne_empty {pc : Nat} : m.block pc ++ t ≠ "" := by
  unfold block
  simp only [String.append_assoc]
  intro h
  exact absurd (String.append_eq_empty_iff.1 h).1 (by decide)

theorem stateText_inj (h : m.stateText ++ t = k.stateText ++ u) : m.shown = k.shown ∧ t = u := by
  unfold stateText at h
  rw [String.append_assoc, String.append_assoc] at h
  obtain ⟨hshown, hrest⟩ := block_inj h
  exact ⟨hshown, (String.append_right_inj _).1 hrest⟩

theorem haltText_inj (h : m.haltText = k.haltText) : m.shown = k.shown := by
  unfold haltText at h
  simp only [String.append_assoc] at h
  exact (block_inj h).1

/-- After the block of a halted machine, the text goes on otherwise than after other blocks. -/
theorem stateText_append_ne_haltText : m.stateText ++ t ≠ k.haltText := by
  unfold stateText haltText
  simp only [String.append_assoc]
  intro h
  have hrest := (block_inj h).2
  simp [← String.toList_inj] at hrest

theorem stateText_append_ne_empty : m.stateText ++ t ≠ "" := by
  unfold stateText
  rw [String.append_assoc]
  exact block_append_ne_empty

theorem haltText_ne_empty : m.haltText ≠ "" := by
  unfold haltText
  simp only [String.append_assoc]
  exact block_append_ne_empty

end Block

/-! ## Runs -/

/-- The text of the states of a run, and of the machine that it halts in, if it does. -/
def record (ks : List Machine) (last : Option Machine) : String :=
  String.join (ks.map stateText) ++ (last.map haltText).getD ""

section Record
variable {k : Machine} {ks js : List Machine} {last last' : Option Machine}

theorem record_cons : record (k :: ks) last = k.stateText ++ record ks last := by
  unfold record
  rw [List.map_cons, String.join_cons, String.append_assoc]

theorem record_nil : record [] last = (last.map haltText).getD "" := String.empty_append

/-- No text records two runs that differ in what it shows of them. -/
theorem record_inj (h : record ks last = record js last') :
    ks.map shown = js.map shown ∧ last.map shown = last'.map shown := by
  induction ks generalizing js with
  | nil =>
    cases js with
    | nil =>
      rw [record_nil, record_nil] at h
      cases last with
      | none =>
        cases last' with
        | none => exact ⟨rfl, rfl⟩
        | some j => exact absurd h.symm haltText_ne_empty
      | some k =>
        cases last' with
        | none => exact absurd h haltText_ne_empty
        | some j => exact ⟨rfl, congrArg some (haltText_inj h)⟩
    | cons j js =>
      rw [record_nil, record_cons] at h
      cases last with
      | none => exact absurd h.symm stateText_append_ne_empty
      | some k => exact absurd h.symm stateText_append_ne_haltText
  | cons k ks ih =>
    cases js with
    | nil =>
      rw [record_nil, record_cons] at h
      cases last' with
      | none => exact absurd h stateText_append_ne_empty
      | some j => exact absurd h stateText_append_ne_haltText
    | cons j js =>
      rw [record_cons, record_cons] at h
      obtain ⟨hshown, hrest⟩ := stateText_inj h
      obtain ⟨hstates, hlast⟩ := ih hrest
      exact ⟨List.cons_eq_cons.2 ⟨hshown, hstates⟩, hlast⟩

end Record

/-- The machine in which a run of at most `n` steps halts, if it does. -/
def haltedIn? (n : Nat) (m : Machine) : Option Machine :=
  if (walk n m).2 = .halted then some (walk n m).1 else none

/-- The machine at the start of a run of at most `n` steps, and after every instruction that is
executed. -/
def states (n : Nat) (m : Machine) : List Machine := m :: passed n m ++ (haltedIn? n m).toList

section States
variable {m k : Machine} {n j : Nat} {t u : String}

theorem isSome_haltedIn? : (haltedIn? n m).isSome ↔ (walk n m).2 = .halted := by
  unfold haltedIn?
  split <;> simp [*]

theorem length_states : (states n m).length = steps n m + 1 := by
  unfold states steps haltedIn?
  rw [List.length_append, List.length_cons]
  split
  · rfl
  · rfl

/-- The text that a trace of machine `m` has after `n` steps. -/
theorem openingText_append (n : Nat) (m : Machine) :
    m.openingText ++ courseText n m.awake =
      m.memoryText ++ record (m.awake :: passed n m.awake) (haltedIn? n m.awake) := by
  have hstate : m.awake.stateText = m.stateText := rfl
  rw [record_cons, hstate]
  unfold openingText courseText record haltedIn?
  rw [String.append_assoc]
  split <;> rfl

/-- Runs with the same text agree in every state, and both of them halt or neither. -/
theorem states_of_text (h : m.openingText ++ courseText n m.awake =
    k.openingText ++ courseText j k.awake) :
    (states n m.awake).map shown = (states j k.awake).map shown ∧
      ((walk n m.awake).2 = .halted ↔ (walk j k.awake).2 = .halted) := by
  rw [openingText_append, openingText_append] at h
  unfold memoryText at h
  rw [String.append_assoc, String.append_assoc] at h
  obtain ⟨-, hrecord⟩ := numbered_inj h (by simp [← String.toList_inj])
    (by simp [← String.toList_inj])
  obtain ⟨hpassed, hlast⟩ := record_inj ((String.append_right_inj _).1 hrecord)
  constructor
  · unfold states
    rw [List.map_append, List.map_append, hpassed, ← Option.toList_map, ← Option.toList_map, hlast]
  · have hsome := congrArg Option.isSome hlast
    rw [Option.isSome_map, Option.isSome_map] at hsome
    rw [← isSome_haltedIn?, ← isSome_haltedIn?, hsome]

end States

/-- No text is the trace of two runs that differ in what it shows. Take traces of any two machines to any
limits, or without one, that come to an end in any number of rounds: if they have the same text, both runs
execute the same number of instructions, both of them halt or neither, and at the start and after each
instruction the machines agree in program counter, memory, registers, stack and flag. -/
theorem trace_lossless {m m' : Machine} {limit limit' : Option UInt64} {fuel fuel' : Nat}
    {r r' : TraceResult} (hr : m.traceWith limit none fuel = some r)
    (hr' : m'.traceWith limit' none fuel' = some r') (htext : r.sink.text = r'.sink.text) :
    ∃ n n', (m.awake.Reaches n limit ∧ m.awake.Recounts (limit.getD 0) n m.openingText r) ∧
      (m'.awake.Reaches n' limit' ∧ m'.awake.Recounts (limit'.getD 0) n' m'.openingText r') ∧
      steps n m.awake = steps n' m'.awake ∧
      ((walk n m.awake).2 = .halted ↔ (walk n' m'.awake).2 = .halted) ∧
      (states n m.awake).map shown = (states n' m'.awake).map shown := by
  obtain ⟨n, hreaches, hrecounts⟩ := m.recounts_of_traceWith hr
  obtain ⟨n', hreaches', hrecounts'⟩ := m'.recounts_of_traceWith hr'
  rw [hrecounts.text, hrecounts'.text] at htext
  obtain ⟨hstates, hhalted⟩ := states_of_text htext
  have hlength := congrArg List.length hstates
  rw [List.length_map, List.length_map, length_states, length_states] at hlength
  exact ⟨n, n', ⟨hreaches, hrecounts⟩, ⟨hreaches', hrecounts'⟩, Nat.succ.inj hlength, hhalted,
    hstates⟩

/-- An addition before a word that is no instruction: a run with a limit of 1 and one without limit, of
a machine that has halted before and has no room on its stack, write the same trace. -/
theorem trace_lossless_illegal :
    let m := { Machine.new .standard with memory := .ofList [0, 0xFF000000] }
    let m' := { m with executed := 7, halted := true, stack := .empty 0 }
    ∃ fuel fuel' r r' n n', m.traceWith (some 1) none fuel = some r ∧
      m'.traceWith none none fuel' = some r' ∧
      r.sink.text = r'.sink.text ∧ r.result = .error (.stepLimit 1) ∧
      r'.result = .error (.fault (.illegalOpcode 30)) ∧
      steps n m.awake = steps n' m'.awake ∧
      (states n m.awake).map shown = (states n' m'.awake).map shown := by
  intro m m'
  have hlimit : m.awake.Reaches 1 (some 1) := rfl
  have hends : m'.awake.Reaches 2 none := show (walk 2 m'.awake).2 ≠ .paused by decide +kernel
  obtain ⟨fuel, r, hr, hrecounts⟩ := m.exists_traceWith hlimit
  obtain ⟨fuel', r', hr', hrecounts'⟩ := m'.exists_traceWith hends
  have htext : r.sink.text = r'.sink.text := by
    rw [hrecounts.text, hrecounts'.text]
    decide +kernel
  have hpaused : (walk 1 m.awake).2 = .paused := by decide +kernel
  have hfault : (walk 2 m'.awake).2 = .fault (.illegalOpcode 30) := by decide +kernel
  obtain ⟨n, n', -, -, hsteps, -, hstates⟩ := trace_lossless hr hr' htext
  refine ⟨fuel, fuel', r, r', n, n', hr, hr', htext, ?_, ?_, hsteps, hstates⟩
  · rw [hrecounts.result, hpaused]
    rfl
  · rw [hrecounts'.result, hfault]
    rfl

end Machine

end SolMachine
