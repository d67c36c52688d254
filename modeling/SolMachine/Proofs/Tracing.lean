import SolMachine.Proofs.TraceText
import SolMachine.Proofs.Walks

/-!
# Traces observe runs

* `Machine.courseText` : the text of a walk: the state after each step that goes on, and the text of the
  `halt`; `courseText_of_le` : a longer walk adds to it;
* `Machine.Recounts` : a trace writes the text of a walk and ends as it does; `traceRound_eq` : a round of
  a trace, and from it `traceLoop_limited`, `traceLoop_unlimited` : traces of any length;
* `traceOn_eq`, `traceOn_of_traceLoop` : a trace takes as many rounds as it needs, and if some number of
  them is enough, it is the trace in that many rounds;
* `Machine.traceLines`, `text_eq_unlines` : the lines of a whole trace, which are what is written;
* `recounts_of_traceWith`, `exists_trace_of_reaches` : every trace that comes to an end recounts a run,
  and every run that goes as far as it can has its trace;
* `Machine.Observes` : what a trace has in common with the run, and the lines of its text;
* `trace_observes_run` : every trace to a limit observes the run to that limit.
-/

namespace SolMachine

theorem Sink.text_put {sink : Sink} (h : sink.room = none) (piece : String) :
    ((sink.put piece).1.room = none ∧ (sink.put piece).2 = true) ∧
      (sink.put piece).1.text = sink.text ++ piece := by
  unfold put text
  rw [h]
  refine ⟨⟨rfl, rfl⟩, ?_⟩
  rw [List.reverse_cons, String.join_append, String.join_cons, String.join_nil, String.append_empty]

namespace Machine
open Trace

/-! ## The text of a walk -/

/-- The state after each step that goes on, and what is written at a `halt`. -/
def courseText (n : Nat) (m : Machine) : String :=
  String.join ((passed n m).map stateText) ++
    if (walk n m).2 = .halted then (walk n m).1.haltText else ""

section Course
variable {m k : Machine} {f : Fault} {n j : Nat}

theorem courseText_zero (m : Machine) : courseText 0 m = "" := by
  unfold courseText passed walk
  rw [if_neg (by simp)]
  rfl

theorem courseText_of_ran (h : m.step = (k, .ran)) (n : Nat) :
    courseText (n + 1) m = k.stateText ++ courseText n k := by
  unfold courseText
  rw [passed_of_ran h, walk_of_ran h, List.map_cons, String.join_cons, String.append_assoc]

theorem courseText_of_halted (h : m.step = (k, .halted)) (n : Nat) :
    courseText (n + 1) m = k.haltText := by
  unfold courseText
  rw [passed_of_halted h, walk_of_halted h, if_pos rfl]
  exact String.empty_append

theorem courseText_of_fault (h : m.step = (k, .fault f)) (n : Nat) : courseText (n + 1) m = "" := by
  unfold courseText
  rw [passed_of_fault h, walk_of_fault h, if_neg (by simp)]
  rfl

/-- A walk that goes on where a shorter one paused adds to its text. -/
theorem courseText_of_le (h : (walk n m).2 = .paused) (hn : n ≤ j) :
    ∃ rest, courseText j m = courseText n m ++ rest := by
  obtain ⟨i, rfl⟩ := Nat.exists_eq_add_of_le hn
  have hshort : courseText n m = String.join ((passed n m).map stateText) := by
    unfold courseText
    rw [h, if_neg (by simp), String.append_empty]
  refine ⟨courseText i (walk n m).1, ?_⟩
  rw [hshort]
  unfold courseText
  rw [passed_add h, walk_add h, List.map_append, String.join_append, String.append_assoc]

end Course

/-! ## The loop of a trace -/

/-- The result of a trace to a limit whose run ends in `k`. -/
def verdict (limit : UInt64) (k : Machine) : RunEnd → Except TraceError UInt64
  | .paused => .error (.stepLimit limit)
  | .halted => .ok k.executed
  | .fault f => .error (.fault f)

/-- The trace `r` has added to a text what a walk of at most `n` steps from `m` writes, and ends as that
walk does. Where the walk pauses, it is because of the limit. -/
structure Recounts (m : Machine) (limit : UInt64) (n : Nat) (written : String) (r : TraceResult) :
    Prop where
  machine : r.machine.awake = (walk n m).1.awake
  result : r.result = verdict limit (walk n m).1 (walk n m).2
  text : r.sink.text = written ++ courseText n m

/-- Whether `n` steps are as many as a run from `m` makes: all that the limit allows, or without limit
enough of them to come to its end. -/
def Reaches (m : Machine) (n : Nat) : Option UInt64 → Prop
  | some limit => n = limit.toNat
  | none => (walk n m).2 ≠ .paused

section Recounts
variable {m k : Machine} {limit : UInt64} {n : Nat} {written : String} {r : TraceResult} {f : Fault}

theorem Recounts.of_ran (h : m.step = (k, .ran)) (hrest : k.Recounts limit n (written ++ k.stateText) r) :
    m.Recounts limit (n + 1) written r := by
  refine ⟨?_, ?_, ?_⟩
  · rw [walk_of_ran h]
    exact hrest.machine
  · rw [walk_of_ran h]
    exact hrest.result
  · rw [courseText_of_ran h, ← String.append_assoc]
    exact hrest.text

theorem Recounts.of_halted {sink : Sink} (h : m.step = (k, .halted))
    (htext : sink.text = written ++ k.haltText) :
    m.Recounts limit (n + 1) written ⟨{ k with halted := true }, sink, .ok k.executed⟩ := by
  refine ⟨?_, ?_, ?_⟩
  · rw [walk_of_halted h]
  · rw [walk_of_halted h]
    rfl
  · rw [courseText_of_halted h]
    exact htext

theorem Recounts.of_fault {sink : Sink} (h : m.step = (k, .fault f)) :
    m.Recounts limit (n + 1) sink.text ⟨k, sink, .error (.fault f)⟩ := by
  refine ⟨?_, ?_, ?_⟩
  · rw [walk_of_fault h]
  · rw [walk_of_fault h]
    rfl
  · rw [courseText_of_fault h, String.append_empty]

end Recounts

section Loop
variable {start limit : UInt64} {m : Machine} {sink : Sink} {n fuel : Nat} {r : TraceResult}

/-- A round of a trace, where it may go on and there is no end to what can be written. -/
theorem traceRound_eq {limit : Option UInt64} (hroom : sink.room = none)
    (h : m.atLimit start limit = none) :
    traceRound start limit m sink =
      match m.awake.step with
      | (k, .ran) => .inl (k, (sink.put k.stateText).1)
      | (k, .halted) => .inr ⟨{ k with halted := true }, (sink.put k.haltText).1, .ok k.executed⟩
      | (k, .fault f) => .inr ⟨k, sink, .error (.fault f)⟩ := by
  have hput : ∀ piece, sink.put piece = ((sink.put piece).1, true) := fun piece =>
    Prod.ext rfl (Sink.text_put hroom piece).1.2
  rw [traceRound, h]
  rcases hstep : m.awake.step with ⟨k, outcome⟩
  cases outcome with
  | ran =>
    rw [stepIn_of_ran hstep]
    dsimp only
    rw [hput]
  | halted =>
    have htext : ({ k with halted := true } : Machine).haltText = k.haltText := rfl
    rw [stepIn_of_halted hstep]
    dsimp only
    rw [htext, hput]
  | fault f => rw [stepIn_of_fault hstep]

theorem atLimit_of_lt (h : (m.executed - start).toNat < limit.toNat) :
    m.atLimit start (some limit) = none := by
  unfold atLimit
  exact if_neg (by rw [UInt64.le_iff_toNat_le]; omega)

theorem atLimit_of_le (h : limit.toNat ≤ (m.executed - start).toNat) :
    m.atLimit start (some limit) = some limit := by
  unfold atLimit
  exact if_pos (UInt64.le_iff_toNat_le.2 h)

theorem lt_of_atLimit (h : m.atLimit start (some limit) = none) :
    (m.executed - start).toNat < limit.toNat := by
  refine Nat.lt_of_not_le fun hle => ?_
  rw [atLimit_of_le hle] at h
  cases h

theorem traceRound_of_le (h : limit.toNat ≤ (m.executed - start).toNat) :
    traceRound start (some limit) m sink = .inr ⟨m, sink, .error (.stepLimit limit)⟩ := by
  rw [traceRound, atLimit_of_le h]

/-- A trace goes from round to round until one of them ends it. -/
theorem traceOn_eq {limit : Option UInt64} : traceOn start limit m sink =
    match traceRound start limit m sink with
    | .inl (m, sink) => traceOn start limit m sink
    | .inr r => some r := by
  unfold traceOn
  rw [repeatM_eq_of_monadTail, repeatM.body]
  rcases hround : traceRound start limit m sink with ⟨k, after⟩ | r
  · simp only [hround]
    rfl
  · simp only [hround]
    rfl

/-- A trace that ends in some number of rounds is the one in as many rounds as it takes. -/
theorem traceOn_of_traceLoop {limit : Option UInt64}
    (h : traceLoop start limit fuel m sink = some r) : traceOn start limit m sink = some r := by
  induction fuel generalizing m sink with
  | zero => cases h
  | succ fuel ih =>
    rw [traceLoop] at h
    rw [traceOn_eq]
    rcases hround : traceRound start limit m sink with ⟨k, after⟩ | r'
    · rw [hround] at h
      exact ih h
    · rw [hround] at h
      exact h

/-- A trace that counts from `start` up to `limit` makes the steps that are left, and writes them. -/
theorem traceLoop_limited (hroom : sink.room = none)
    (h : (m.executed - start).toNat + n = limit.toNat) :
    ∃ r, traceLoop start (some limit) (n + 1) m sink = some r ∧
      m.awake.Recounts limit n sink.text r := by
  induction n generalizing m sink with
  | zero =>
    refine ⟨⟨m, sink, .error (.stepLimit limit)⟩, ?_, rfl, rfl, ?_⟩
    · rw [traceLoop, traceRound_of_le (by omega)]
    · rw [courseText_zero, String.append_empty]
  | succ n ih =>
    have hlt : (m.executed - start).toNat < limit.toNat := by omega
    rw [traceLoop, traceRound_eq hroom (atLimit_of_lt hlt)]
    rcases hstep : m.awake.step with ⟨k, outcome⟩
    cases outcome with
    | ran =>
      obtain ⟨⟨hroom', -⟩, htext⟩ := Sink.text_put hroom k.stateText
      have hcount : (k.executed - start).toNat = (m.executed - start).toNat + 1 :=
        count_of_ran (m := m.awake) hstep hlt
      obtain ⟨r, hr, hrest⟩ := ih hroom' (show (k.executed - start).toNat + n = _ by omega)
      rw [awake_eq (halted_of_step hstep), htext] at hrest
      exact ⟨r, hr, .of_ran hstep hrest⟩
    | halted => exact ⟨_, rfl, .of_halted hstep (Sink.text_put hroom k.haltText).2⟩
    | fault f => exact ⟨_, rfl, .of_fault hstep⟩

/-- A trace without limit that ends in some number of rounds has written a run that ends. -/
theorem traceLoop_unlimited (hroom : sink.room = none)
    (h : traceLoop start none fuel m sink = some r) :
    (walk fuel m.awake).2 ≠ .paused ∧ m.awake.Recounts 0 fuel sink.text r := by
  induction fuel generalizing m sink with
  | zero => cases h
  | succ fuel ih =>
    rw [traceLoop, traceRound_eq hroom rfl] at h
    rcases hstep : m.awake.step with ⟨k, outcome⟩
    rw [hstep] at h
    cases outcome with
    | ran =>
      obtain ⟨⟨hroom', -⟩, htext⟩ := Sink.text_put hroom k.stateText
      have hrest := ih hroom' h
      rw [awake_eq (halted_of_step hstep), htext] at hrest
      rw [walk_of_ran hstep]
      exact ⟨hrest.1, .of_ran hstep hrest.2⟩
    | halted =>
      obtain rfl := Option.some.inj h
      rw [walk_of_halted hstep]
      exact ⟨by simp, .of_halted hstep (Sink.text_put hroom k.haltText).2⟩
    | fault f =>
      obtain rfl := Option.some.inj h
      rw [walk_of_fault hstep]
      exact ⟨by simp, .of_fault hstep⟩

/-- A trace without limit of a run that ends comes to an end. -/
theorem exists_traceLoop (hroom : sink.room = none) (h : (walk n m.awake).2 ≠ .paused) :
    ∃ r, traceLoop start none n m sink = some r := by
  induction n generalizing m sink with
  | zero => exact absurd rfl h
  | succ n ih =>
    rw [traceLoop, traceRound_eq hroom rfl]
    rcases hstep : m.awake.step with ⟨k, outcome⟩
    cases outcome with
    | ran =>
      rw [walk_of_ran hstep, ← awake_eq (halted_of_step hstep)] at h
      exact ih (Sink.text_put hroom k.stateText).1.1 h
    | halted => exact ⟨_, rfl⟩
    | fault f => exact ⟨_, rfl⟩

end Loop

/-! ## Whole traces -/

section Trace
variable (m : Machine) (limit : UInt64)

/-- The text before the first step. -/
def openingText : String := m.memoryText ++ m.stateText

/-- A trace goes on from the text of memory and the first state. -/
theorem exists_opening : ∃ sink : Sink, sink.room = none ∧ sink.text = m.openingText ∧
    ∀ run, m.traceFrom none run = run m sink := by
  refine ⟨⟨[m.stateText, m.memoryText], none⟩, rfl, ?_, fun run => rfl⟩
  show String.join [m.memoryText, m.stateText] = _
  rw [String.join_cons, String.join_cons, String.join_nil, String.append_empty]
  rfl

/-- A run that goes as far as the limit lets it, or ends without one, has its trace in some number of
rounds. -/
theorem exists_traceWith {limit : Option UInt64} {n : Nat} (h : m.awake.Reaches n limit) :
    ∃ fuel r, m.traceWith limit none fuel = some r ∧
      m.awake.Recounts (limit.getD 0) n m.openingText r := by
  obtain ⟨sink, hroom, htext, hrun⟩ := m.exists_opening
  rw [← htext]
  cases limit with
  | some limit =>
    obtain rfl : n = limit.toNat := h
    have hcount : (m.executed - m.executed).toNat + limit.toNat = limit.toNat := by
      rw [UInt64.sub_self, UInt64.toNat_zero, Nat.zero_add]
    obtain ⟨r, hr, hrecounts⟩ := traceLoop_limited hroom hcount
    exact ⟨limit.toNat + 1, r, (hrun _).trans hr, hrecounts⟩
  | none =>
    obtain ⟨r, hr⟩ : ∃ r, traceLoop m.executed none n m sink = some r := exists_traceLoop hroom h
    exact ⟨n, r, (hrun _).trans hr, (traceLoop_unlimited hroom hr).2⟩

/-- A trace goes on from some text, if there is room for it. -/
theorem full_or_opened (room : Option Nat) :
    (∃ sink, ∀ run, m.traceFrom room run = some ⟨m, sink, .error .full⟩) ∨
      ∃ sink, ∀ run, m.traceFrom room run = run m sink := by
  unfold traceFrom
  split
  · exact .inl ⟨_, fun _ => rfl⟩
  · split
    · exact .inl ⟨_, fun _ => rfl⟩
    · exact .inr ⟨_, fun _ => rfl⟩

/-- A trace that ends in some number of rounds is the trace. -/
theorem trace_of_traceWith {limit : Option UInt64} {room : Option Nat} {fuel : Nat} {r : TraceResult}
    (h : m.traceWith limit room fuel = some r) : m.trace limit room = some r := by
  unfold traceWith at h
  unfold trace
  rcases m.full_or_opened room with ⟨sink, hfull⟩ | ⟨sink, hrun⟩
  · rw [hfull] at h ⊢
    exact h
  · rw [hrun] at h ⊢
    exact traceOn_of_traceLoop h

theorem exists_trace_of_reaches {limit : Option UInt64} {n : Nat} (h : m.awake.Reaches n limit) :
    ∃ r, m.trace limit none = some r ∧ m.awake.Recounts (limit.getD 0) n m.openingText r := by
  obtain ⟨fuel, r, hr, hrecounts⟩ := m.exists_traceWith h
  exact ⟨r, m.trace_of_traceWith hr, hrecounts⟩

/-- A trace to a limit ends. -/
theorem exists_trace : ∃ r, m.trace (some limit) none = some r ∧
    m.awake.Recounts limit limit.toNat m.openingText r :=
  m.exists_trace_of_reaches (show m.awake.Reaches limit.toNat (some limit) from rfl)

/-- Every trace that comes to an end is that of a run that goes as far as the limit lets it, or ends
without one. -/
theorem recounts_of_traceWith {limit : Option UInt64} {fuel : Nat} {r : TraceResult}
    (h : m.traceWith limit none fuel = some r) :
    ∃ n, m.awake.Reaches n limit ∧ m.awake.Recounts (limit.getD 0) n m.openingText r := by
  cases limit with
  | some limit =>
    obtain ⟨r', hr', hrecounts⟩ := m.exists_trace limit
    rw [m.trace_of_traceWith h] at hr'
    obtain rfl := Option.some.inj hr'
    exact ⟨limit.toNat, rfl, hrecounts⟩
  | none =>
    obtain ⟨sink, hroom, htext, hrun⟩ := m.exists_opening
    rw [traceWith, hrun] at h
    rw [← htext]
    exact ⟨fuel, traceLoop_unlimited hroom h⟩

/-- The number of instructions that a run to a limit executes. -/
theorem executed_of_limit :
    ((walk limit.toNat m.awake).1.executed - m.executed).toNat = steps limit.toNat m.awake := by
  have hsize : steps limit.toNat m.awake < UInt64.size :=
    Nat.lt_of_le_of_lt (steps_le limit.toNat m.awake) limit.toNat_lt_size
  have hexecuted : (walk limit.toNat m.awake).1.executed =
      m.executed + UInt64.ofNat (steps limit.toNat m.awake) := executed_walk _ _
  have hcancel : m.executed + UInt64.ofNat (steps limit.toNat m.awake) - m.executed =
      UInt64.ofNat (steps limit.toNat m.awake) := by grind
  rw [hexecuted, hcancel, UInt64.toNat_ofNat_of_lt' hsize]

/-- The lines that a trace has after `n` steps. -/
def traceLines (n : Nat) (m : Machine) : List String :=
  m.dumpLines ++ (m :: passed n m.awake).flatMap stateLines ++
    if (walk n m.awake).2 = .halted then (walk n m.awake).1.haltLines else []

theorem text_eq_unlines (n : Nat) (m : Machine) :
    m.openingText ++ courseText n m.awake = unlines (traceLines n m) := by
  unfold openingText courseText traceLines
  rw [unlines_append, unlines_append, List.flatMap_cons, unlines_append, ← join_stateText,
    ← memoryText_eq_unlines, ← stateText_eq_unlines]
  simp only [String.append_assoc]
  split
  · rw [haltText_eq_unlines]
  · rfl

theorem oneLine_traceLines (n : Nat) (m : Machine) : ∀ l ∈ traceLines n m, OneLine l := by
  have hstates : ∀ l ∈ (m :: passed n m.awake).flatMap stateLines, OneLine l := by
    intro l hl
    obtain ⟨k, -, hk⟩ := List.mem_flatMap.1 hl
    exact k.oneLine_stateLines l hk
  unfold traceLines
  refine List.forall_mem_append.2 ⟨List.forall_mem_append.2 ⟨m.oneLine_dumpLines, hstates⟩, ?_⟩
  split
  · exact oneLine_haltLines _
  · nofun

theorem count_traceLines (n : Nat) (m : Machine) : (traceLines n m).count "@@@" =
    (passed n m.awake).length + if (walk n m.awake).2 = .halted then 3 else 1 := by
  unfold traceLines
  rw [List.count_append, List.count_append, count_dumpLines, count_flatMap_stateLines, List.length_cons]
  split
  · rw [count_haltLines]
    omega
  · rw [List.count_nil]
    omega

/-- A longer course adds to the text of a run that paused. -/
theorem text_of_le {n j : Nat} {t u : String} (hpaused : (walk n m.awake).2 = .paused) (hle : n ≤ j)
    (ht : t = m.openingText ++ courseText n m.awake)
    (hu : u = m.openingText ++ courseText j m.awake) : ∃ rest, u = t ++ rest := by
  obtain ⟨rest, hrest⟩ := courseText_of_le hpaused hle
  refine ⟨rest, ?_⟩
  rw [hu, ht, hrest, String.append_assoc]

end Trace

/-- What the trace `r` of machine `m` to a limit has in common with the run to that limit, which ends
in `k` in the way `e`. -/
structure Observes (m : Machine) (limit : UInt64) (k : Machine) (e : RunEnd) (r : TraceResult) :
    Prop where
  /-- They end in the same state; only a limit of 0 leaves another mark of an earlier `halt`. -/
  machine : r.machine = { k with halted := r.machine.halted }
  halted : k.halted = true ↔ e = .halted
  /-- The result is the count at a `halt`, the fault of the run, or that the limit was reached. -/
  result : r.result = verdict limit k e
  /-- The text consists of the lines of memory, of the state at the start and after every step that goes
  on, and of the `halt`. -/
  text : r.sink.text = unlines (m.dumpLines ++
    (m :: passed limit.toNat { m with halted := false }).flatMap stateLines ++
      if e = .halted then k.haltLines else [])
  /-- The instructions that were executed are the steps that went on, and the `halt`. -/
  count : (k.executed - m.executed).toNat =
    (passed limit.toNat { m with halted := false }).length + if e = .halted then 1 else 0
  /-- There is one more state than instructions, and two more after a `halt`. -/
  blocks : blockCount r.sink.text =
    (k.executed - m.executed).toNat + if e = .halted then 2 else 1

/-- A trace observes the run without changing it, for every machine and every limit. Where the limit
is reached, its text is the start of the text of every trace to a larger limit, and of the trace without
limit if that ends. -/
theorem trace_observes_run (m : Machine) (limit : UInt64) :
    ∃ k e r, m.runLimited limit = some (k, e) ∧ m.trace (some limit) none = some r ∧
      m.Observes limit k e r ∧
      (e = .paused →
        (∀ larger r', limit ≤ larger → m.trace (some larger) none = some r' →
          ∃ rest, r'.sink.text = r.sink.text ++ rest) ∧
        ∀ fuel r', m.traceWith none none fuel = some r' →
          ∃ rest, r'.sink.text = r.sink.text ++ rest) := by
  obtain ⟨r, hr, hmachine, hresult, htext⟩ := m.exists_trace limit
  have hcount := m.executed_of_limit limit
  have hrun : m.runLimited limit =
    some ((walk limit.toNat m.awake).1, (walk limit.toNat m.awake).2) := m.runLimited_eq limit
  refine ⟨_, _, r, hrun, hr, ⟨?_, halted_walk rfl, hresult, ?_, ?_, ?_⟩,
    fun hpaused => ⟨?_, ?_⟩⟩
  · exact congrArg (fun n : Machine => { n with halted := r.machine.halted }) hmachine
  · exact htext.trans (text_eq_unlines _ m)
  · exact hcount
  · rw [htext, text_eq_unlines, blockCount_unlines (oneLine_traceLines _ m), count_traceLines, hcount,
      steps]
    by_cases hhalted : (walk limit.toNat m.awake).2 = .halted
    · rw [if_pos hhalted, if_pos hhalted, if_pos hhalted]
    · rw [if_neg hhalted, if_neg hhalted, if_neg hhalted]
  · intro larger r' hle hr'
    obtain ⟨r'', hr'', -, -, htext'⟩ := m.exists_trace larger
    obtain rfl := Option.some.inj (hr'.symm.trans hr'')
    exact m.text_of_le hpaused (UInt64.le_iff_toNat_le.1 hle) htext htext'
  · intro fuel r' hr'
    obtain ⟨n, hended, -, -, htext'⟩ := m.recounts_of_traceWith hr'
    have hle : limit.toNat ≤ n := by
      refine Nat.le_of_not_lt fun hlt => hended ?_
      rw [← walk_of_ended hended (Nat.le_of_lt hlt)]
      exact hpaused
    exact m.text_of_le hpaused hle htext htext'

/-- An addition and a `halt`: a limit of 1 stops before the `halt`, and a limit of 2 just lets it
happen. -/
theorem trace_observes_run_halt :
    let m := { Machine.new .standard with memory := .ofList [0, 0x03000000] }
    ∃ r r', m.trace (some 1) none = some r ∧ m.trace (some 2) none = some r' ∧
      r.result = .error (.stepLimit 1) ∧ blockCount r.sink.text = 2 ∧
      r'.result = .ok 2 ∧ blockCount r'.sink.text = 4 ∧
      ∃ rest, r'.sink.text = r.sink.text ++ rest := by
  intro m
  have hends : (m.runLimited 1).map (fun r => (r.1.executed, r.2)) = some (1, .paused) ∧
      (m.runLimited 2).map (fun r => (r.1.executed, r.2)) = some (2, .halted) := by decide +kernel
  obtain ⟨k, e, r, hrun, hr, hobserves, hlonger⟩ := trace_observes_run m 1
  obtain ⟨k', e', r', hrun', hr', hobserves', -⟩ := trace_observes_run m 2
  rw [hrun, hrun', Option.map_some, Option.map_some] at hends
  obtain ⟨hexecuted, rfl⟩ := Prod.mk.inj (Option.some.inj hends.1)
  obtain ⟨hexecuted', rfl⟩ := Prod.mk.inj (Option.some.inj hends.2)
  refine ⟨r, r', hr, hr', hobserves.result, ?_, ?_, ?_, (hlonger rfl).1 2 r' (by decide) hr'⟩
  · rw [hobserves.blocks, show k.executed = 1 from hexecuted]
    decide
  · rw [hobserves'.result, verdict, show k'.executed = 2 from hexecuted']
  · rw [hobserves'.blocks, show k'.executed = 2 from hexecuted']
    decide

end Machine

end SolMachine
