import SolMachine.Proofs.CommandLines
import SolMachine.Proofs.FileTrees
import SolMachine.Proofs.Tracing
import SolMachine.Proofs.WordFiles
import SolMachine.Tool.Run
import SolMachine.Tool.World

/-!
# Outputs are whole or absent

* `World.after` : how a tool ends in a world in memory, and the files that it leaves;
  `after_assembleFile`, `after_simulateFile` : the answer for each tool, by the steps that can fail;
* `Machine.HaltsWithin` : machines that halt within a limit; `Machine.exists_trace_result` : just those
  have a trace that ends in success;
* `World.Completes`, `World.Discards`, `World.Refuses` : a tool leaves all of its output, no output, or
  every file as it was;
* `World.Assembled`, `World.Simulated` : when each of the tools does which; `Tool.assembled_assembleFile`,
  `Tool.simulated_simulateFile` : that they do so;
* `Tool.output_whole_or_absent` : the same for every run that a command line can ask for.

The registers of a machine without a seed are part of the world, so that what holds in every world holds
for all registers that a run can start from.
-/

namespace SolMachine
open SolMachine.Assembly

/-! ## Steps of a tool -/

namespace World

/-- How a tool ends that runs in the world `w`, and the files that it leaves. -/
def after (w : World) (x : StateM World Exit) : Exit × FileTree := ((x w).1, (x w).2.files)

/-- The machine that the simulator starts, with the words of its input in memory. -/
def machine (w : World) (options : Options) (words : List Word) : Machine :=
  { Machine.new (Tool.configOf options) w.drawn with memory := .ofList words }

section Host
variable {α : Type} {w : World} {path text : String} {place : List String} {e : FileError}

theorem after_bind (w : World) (x : StateM World α) (f : α → StateM World Exit) :
    w.after (x >>= f) = (x w).2.after (f (x w).1) := rfl

theorem readText_eq (w : World) (path : String) :
    (Host.readText path : StateM World _) w = (w.files.readText w.base path, w) := rfl

theorem write_ok (h : w.files.creatable w.base path = .ok place) (text : String) :
    World.write path text w =
      (.ok (), { w with files := w.files.insert place (.file text.toUTF8) }) := by
  unfold write FileTree.writeText
  rw [h]
  rfl

theorem write_error (h : w.files.creatable w.base path = .error e) (text : String) :
    World.write path text w = (.error e, w) := by
  unfold write FileTree.writeText
  rw [h]
  rfl

theorem create_eq (w : World) (path : String) :
    (Host.create path : StateM World _) w = World.write path "" w := rfl

theorem writeText_eq (w : World) (path text : String) :
    (Host.writeText path text : StateM World _) w = World.write path text w := rfl

theorem remove_eq (w : World) (path : String) : (Host.remove path : StateM World _) w =
    ((), { w with files := w.files.remove w.base path }) := rfl

theorem draw_eq (w : World) : (Host.draw : StateM World _) w = (w.drawn, w) := rfl

theorem load_eq {options : Options} {words : List Word} (h : words.length ≤ maxWords) :
    (Machine.new (Tool.configOf options) w.drawn).load words = .ok (w.machine options words) :=
  if_neg (Nat.not_lt.2 h)

/-- Without a seed, a machine with random registers has those that are drawn. -/
theorem registers_machine {options : Options} (hseed : options.seed = none)
    (hrandom : options.randomInit) (words : List Word) :
    (w.machine options words).registers = w.drawn := by
  have hconfig : Tool.configOf options = ⟨.unseeded, stackCapacity⟩ := by
    unfold Tool.configOf
    rw [hseed, hrandom]
  unfold machine
  rw [hconfig]
  rfl

end Host

end World

namespace Tool
open World

section Steps
variable {w : World} {output text : String} {place : List String}

theorem after_failWith (w : World) (chain : List String) (help : Option String) :
    w.after (failWith chain help) = (.failure, w.files) := by
  cases help <;> rfl

/-- Once an output was created, its text is written in its place. -/
theorem after_finishOutput (h : w.files.creatable w.base output = .ok place) :
    w.after (finishOutput output text) = (.success, w.files.insert place (.file text.toUTF8)) := by
  unfold finishOutput
  rw [after_bind, writeText_eq, write_ok h]
  rfl

/-- An output that was created is removed again where a tool fails. -/
theorem after_discard (h : w.files.creatable w.base output = .ok place) (chain : List String)
    (help : Option String) :
    World.after { w with files := w.files.insert place (.file "".toUTF8) }
      (do Host.remove output; failWith chain help) = (.failure, w.files.erase place) := by
  rw [after_bind, remove_eq]
  dsimp only
  rw [after_failWith, FileTree.remove_insert h]

theorem after_assembleFile (w : World) (input output : String) :
    w.after (assembleFile input output) =
      match w.files.readText w.base input with
      | .error _ => (.failure, w.files)
      | .ok source =>
        match assemble source false with
        | .error _ => (.failure, w.files)
        | .ok program =>
          match w.files.creatable w.base output with
          | .error _ => (.failure, w.files)
          | .ok place =>
            (.success, w.files.insert place (.file (WordFile.write program.words).toUTF8)) := by
  unfold assembleFile
  rw [after_bind, readText_eq]
  dsimp only
  cases w.files.readText w.base input with
  | error e => exact after_failWith _ _ _
  | ok source =>
    dsimp only
    cases assemble source false with
    | error ds =>
      dsimp only
      rw [after_bind]
      exact after_failWith _ _ _
    | ok program =>
      dsimp only
      rw [after_bind, create_eq]
      cases hcreatable : w.files.creatable w.base output with
      | error e =>
        rw [write_error hcreatable]
        exact after_failWith _ _ _
      | ok place =>
        rw [write_ok hcreatable]
        dsimp only
        rw [after_finishOutput (FileTree.creatable_insert hcreatable _)]
        dsimp only
        rw [FileTree.insert_insert]

theorem after_traceFile (w : World) (machine : Machine) (output : String) (limit : Option UInt64) :
    w.after (traceFile machine output limit) =
      match w.files.creatable w.base output with
      | .error _ => (.failure, w.files)
      | .ok place =>
        match machine.trace limit none with
        | some ⟨_, sink, .ok _⟩ => (.success, w.files.insert place (.file sink.text.toUTF8))
        | _ => (.failure, w.files.erase place) := by
  unfold traceFile
  rw [after_bind, create_eq]
  cases hcreatable : w.files.creatable w.base output with
  | error e =>
    rw [write_error hcreatable]
    exact after_failWith _ _ _
  | ok place =>
    rw [write_ok hcreatable]
    dsimp only
    rcases machine.trace limit none with _ | ⟨after, sink, e | count⟩
    · exact after_discard hcreatable _ _
    · exact after_discard hcreatable _ _
    · dsimp only
      rw [after_finishOutput (FileTree.creatable_insert hcreatable _)]
      dsimp only
      rw [FileTree.insert_insert]

theorem after_simulateFile (w : World) (input output : String) (options : Options) :
    w.after (simulateFile input output options) =
      match w.files.readText w.base input with
      | .error _ => (.failure, w.files)
      | .ok text =>
        match WordFile.read text with
        | .error _ => (.failure, w.files)
        | .ok words => w.after (traceFile (w.machine options words) output options.maxSteps) := by
  unfold simulateFile
  rw [after_bind, readText_eq]
  dsimp only
  cases w.files.readText w.base input with
  | error e => exact after_failWith _ _ _
  | ok text =>
    dsimp only
    cases hwords : WordFile.read text with
    | error e => exact after_failWith _ _ _
    | ok words =>
      dsimp only
      rw [after_bind, draw_eq]
      dsimp only
      rw [load_eq (WordFile.length_le_of_read hwords)]

end Steps

end Tool

/-! ## Runs that halt within a limit -/

namespace Machine

/-- The machine comes to a `halt`, within the limit if there is one. -/
def HaltsWithin (m : Machine) (limit : Option UInt64) : Prop :=
  ∃ n, (∀ l, limit = some l → n ≤ l.toNat) ∧ (walk n m).2 = .halted

section Halts
variable {m : Machine} {limit : Option UInt64} {n : Nat}

theorem haltsWithin_iff (h : m.Reaches n limit) : m.HaltsWithin limit ↔ (walk n m).2 = .halted := by
  constructor
  · rintro ⟨j, hj, hhalted⟩
    have hended : (walk j m).2 ≠ .paused := by rw [hhalted]; nofun
    cases limit with
    | some l =>
      obtain rfl : n = l.toNat := h
      rwa [walk_of_ended hended (hj l rfl)]
    | none =>
      rcases Nat.le_total j n with hle | hle
      · rwa [walk_of_ended hended hle]
      · rwa [← walk_of_ended h hle]
  · intro hhalted
    refine ⟨n, fun l hl => ?_, hhalted⟩
    subst hl
    exact Nat.le_of_eq h

/-- Only a run without limit need not end. -/
theorem exists_reaches (h : limit = none → ∃ n, (walk n m).2 ≠ .paused) :
    ∃ n, m.Reaches n limit := by
  cases limit with
  | some l => exact ⟨l.toNat, rfl⟩
  | none => exact h rfl

theorem exists_verdict_eq_ok_iff {l : UInt64} {k : Machine} {e : RunEnd} :
    (∃ count, verdict l k e = .ok count) ↔ e = .halted := by
  cases e <;> simp [verdict]

/-- The trace of a run that ends has a count as its result if the run halts within the limit. -/
theorem exists_trace_result (hm : m.halted = false) (h : m.Reaches n limit) :
    ∃ r, m.trace limit none = some r ∧ (m.HaltsWithin limit ↔ ∃ count, r.result = .ok count) := by
  rw [← awake_eq hm] at h
  obtain ⟨r, hr, hrecounts⟩ := m.exists_trace_of_reaches h
  rw [awake_eq hm] at h hrecounts
  refine ⟨r, hr, ?_⟩
  rw [haltsWithin_iff h, hrecounts.result, exists_verdict_eq_ok_iff]

end Halts

end Machine

/-! ## What the tools leave -/

namespace World

/-- The input is a text that assembles to the program. -/
def Assembles (w : World) (input : String) (program : Program) : Prop :=
  ∃ source, w.files.readText w.base input = .ok source ∧ assemble source false = .ok program

/-- The input is a text that holds the words of a program that fits in memory. -/
def Loads (w : World) (input : String) (words : List Word) : Prop :=
  ∃ text, w.files.readText w.base input = .ok text ∧ WordFile.read text = .ok words

def Creates (w : World) (output : String) : Prop := ∃ place, w.files.creatable w.base output = .ok place

/-- The tool succeeds, and the files are as before but for the output, which holds the text. -/
structure Completes (w : World) (output text : String) (r : Exit × FileTree) : Prop where
  code : r.1.code = 0
  readText : r.2.readText w.base output = .ok text
  differs : ∃ place, w.files.creatable w.base output = .ok place ∧
    w.files.Differs r.2 place (some (.file text.toUTF8))

/-- The tool fails, and the files are as before but for the output, which is not there. -/
structure Discards (w : World) (output : String) (r : Exit × FileTree) : Prop where
  code : r.1.code = 1
  readText : r.2.readText w.base output = .error .notFound
  differs : ∃ place, w.files.creatable w.base output = .ok place ∧ w.files.Differs r.2 place none

/-- The tool fails, and all files are as before. -/
structure Refuses (w : World) (r : Exit × FileTree) : Prop where
  code : r.1.code = 1
  files : r.2 = w.files

/-- What the assembler has done, by its input and output. -/
structure Assembled (w : World) (input output : String) (r : Exit × FileTree) : Prop where
  /-- It succeeds if its input can be read and assembled, and its output created. -/
  succeeds : r.1.code = 0 ↔ (∃ program, w.Assembles input program) ∧ w.Creates output
  /-- Then the output holds the words of the program, and no other file has changed. -/
  whole : ∀ program, w.Assembles input program → w.Creates output →
    w.Completes output (WordFile.write program.words) r
  /-- Else no file has changed. -/
  absent : r.1.code ≠ 0 → w.Refuses r

/-- What the simulator has done, by its input and output and the options of its run. -/
structure Simulated (w : World) (input output : String) (options : Options) (r : Exit × FileTree) :
    Prop where
  /-- With random registers and no seed, the machine starts from the words that are drawn, whatever they
  are. -/
  registers : options.seed = none → options.randomInit → ∀ words,
    (w.machine options words).registers = w.drawn
  /-- It succeeds if its input can be read as words, its output created, and the machine halts within the
  limit. -/
  succeeds : r.1.code = 0 ↔ ∃ words, w.Loads input words ∧ w.Creates output ∧
    (w.machine options words).HaltsWithin options.maxSteps
  /-- Then the output holds the trace to its end, and no other file has changed. -/
  whole : ∀ words, w.Loads input words → w.Creates output →
    (w.machine options words).HaltsWithin options.maxSteps → ∃ trace count,
      (w.machine options words).trace options.maxSteps none = some trace ∧
      trace.result = .ok count ∧ w.Completes output trace.sink.text r
  /-- If the machine does not halt, the output is not there, even if it was before, and no other file has
  changed. -/
  discarded : ∀ words, w.Loads input words → w.Creates output →
    ¬ (w.machine options words).HaltsWithin options.maxSteps → w.Discards output r
  /-- If it does not come to a run, no file has changed. -/
  absent : ¬ ((∃ words, w.Loads input words) ∧ w.Creates output) → w.Refuses r

section Leaves
variable {w : World} {output text : String} {place : List String}

theorem completes_insert (h : w.files.creatable w.base output = .ok place) (text : String) :
    w.Completes output text (.success, w.files.insert place (.file text.toUTF8)) :=
  ⟨rfl, FileTree.readText_insert h text,
    place, h, w.files.differs_insert (FileTree.ne_nil_of_creatable h) _⟩

theorem discards_erase (h : w.files.creatable w.base output = .ok place) :
    w.Discards output (.failure, w.files.erase place) := by
  have hdiffers := w.files.differs_erase (FileTree.ne_nil_of_creatable h)
  refine ⟨rfl, ?_, place, h, hdiffers⟩
  unfold FileTree.readText
  rw [FileTree.target_of_creatable h hdiffers]
  rfl

theorem refuses_rfl : w.Refuses (.failure, w.files) := ⟨rfl, rfl⟩

theorem Refuses.code_ne_zero {r : Exit × FileTree} (h : w.Refuses r) : r.1.code ≠ 0 := by
  rw [h.code]
  decide

theorem Discards.code_ne_zero {r : Exit × FileTree} (h : w.Discards output r) : r.1.code ≠ 0 := by
  rw [h.code]
  decide

theorem Loads.unique {input : String} {words words' : List Word} (h : w.Loads input words)
    (h' : w.Loads input words') : words = words' := by
  obtain ⟨text, htext, hread⟩ := h
  obtain ⟨text', htext', hread'⟩ := h'
  obtain rfl := Except.ok.inj (htext.symm.trans htext')
  exact Except.ok.inj (hread.symm.trans hread')

end Leaves

end World

namespace Tool
open World

section Outputs
variable {w : World} {args : List String} {input output : String} {options : Options}
  {program : Program} {words : List Word}

theorem completes_of_assembles (ha : w.Assembles input program) (hc : w.Creates output) :
    w.Completes output (WordFile.write program.words) (w.after (assembleFile input output)) := by
  obtain ⟨source, hread, hprogram⟩ := ha
  obtain ⟨place, hplace⟩ := hc
  rw [after_assembleFile, hread]
  dsimp only
  rw [hprogram]
  dsimp only
  rw [hplace]
  exact completes_insert hplace _

theorem refuses_of_not_assembles (h : ¬ ((∃ program, w.Assembles input program) ∧ w.Creates output)) :
    w.Refuses (w.after (assembleFile input output)) := by
  rw [after_assembleFile]
  cases hread : w.files.readText w.base input with
  | error e => exact refuses_rfl
  | ok source =>
    dsimp only
    cases hprogram : assemble source false with
    | error ds => exact refuses_rfl
    | ok program =>
      dsimp only
      cases hplace : w.files.creatable w.base output with
      | error e => exact refuses_rfl
      | ok place => exact absurd ⟨⟨program, source, hread, hprogram⟩, place, hplace⟩ h

/-- A run with its output: either it halts within the limit and all of its trace is there, or none. -/
theorem outcome_of_loads (hl : w.Loads input words) (hc : w.Creates output)
    (hends : ∃ n, (w.machine options words).Reaches n options.maxSteps) :
    ((w.machine options words).HaltsWithin options.maxSteps → ∃ trace count,
      (w.machine options words).trace options.maxSteps none = some trace ∧
      trace.result = .ok count ∧
      w.Completes output trace.sink.text (w.after (simulateFile input output options))) ∧
    (¬ (w.machine options words).HaltsWithin options.maxSteps →
      w.Discards output (w.after (simulateFile input output options))) := by
  obtain ⟨text, hread, hwords⟩ := hl
  obtain ⟨place, hplace⟩ := hc
  obtain ⟨n, hn⟩ := hends
  obtain ⟨⟨after, sink, result⟩, htrace, hhalts⟩ := Machine.exists_trace_result rfl hn
  rw [after_simulateFile, hread]
  dsimp only
  rw [hwords]
  dsimp only
  rw [after_traceFile, hplace, hhalts]
  dsimp only
  rw [htrace]
  constructor
  · rintro ⟨count, rfl⟩
    exact ⟨_, count, rfl, rfl, completes_insert hplace _⟩
  · intro herror
    cases result with
    | ok count => exact absurd ⟨count, rfl⟩ herror
    | error e => exact discards_erase hplace

theorem refuses_of_not_loads (h : ¬ ((∃ words, w.Loads input words) ∧ w.Creates output)) :
    w.Refuses (w.after (simulateFile input output options)) := by
  rw [after_simulateFile]
  cases hread : w.files.readText w.base input with
  | error e => exact refuses_rfl
  | ok text =>
    dsimp only
    cases hwords : WordFile.read text with
    | error e => exact refuses_rfl
    | ok words =>
      dsimp only
      rw [after_traceFile]
      cases hplace : w.files.creatable w.base output with
      | error e => exact refuses_rfl
      | ok place => exact absurd ⟨⟨words, text, hread, hwords⟩, place, hplace⟩ h

/-- Whatever stops the assembler does so before the output is created. -/
theorem assembled_assembleFile (w : World) (input output : String) :
    w.Assembled input output (w.after (assembleFile input output)) := by
  by_cases h : (∃ program, w.Assembles input program) ∧ w.Creates output
  · obtain ⟨⟨program, hprogram⟩, hcreates⟩ := h
    have hcode := (completes_of_assembles hprogram hcreates).code
    exact ⟨iff_of_true hcode ⟨⟨program, hprogram⟩, hcreates⟩, fun program => completes_of_assembles,
      absurd hcode⟩
  · have hrefuses := refuses_of_not_assembles h
    exact ⟨iff_of_false hrefuses.code_ne_zero h,
      fun program hprogram hcreates => absurd ⟨⟨program, hprogram⟩, hcreates⟩ h, fun _ => hrefuses⟩

/-- Once the output was created, a run that does not halt within the limit removes it again. -/
theorem simulated_simulateFile (hends : options.maxSteps = none → ∀ words, w.Loads input words →
      ∃ n, (Machine.walk n (w.machine options words)).2 ≠ .paused) :
    w.Simulated input output options (w.after (simulateFile input output options)) := by
  have houtcome {words} (hwords : w.Loads input words) (hcreates : w.Creates output) :=
    outcome_of_loads hwords hcreates (Machine.exists_reaches fun hnone => hends hnone words hwords)
  refine ⟨fun hseed hrandom => registers_machine hseed hrandom, ⟨fun hcode => ?_, ?_⟩,
    fun words hwords hcreates => (houtcome hwords hcreates).1,
    fun words hwords hcreates => (houtcome hwords hcreates).2, refuses_of_not_loads⟩
  · by_cases h : (∃ words, w.Loads input words) ∧ w.Creates output
    · obtain ⟨⟨words, hwords⟩, hcreates⟩ := h
      by_cases hhalts : (w.machine options words).HaltsWithin options.maxSteps
      · exact ⟨words, hwords, hcreates, hhalts⟩
      · exact absurd hcode ((houtcome hwords hcreates).2 hhalts).code_ne_zero
    · exact absurd hcode (refuses_of_not_loads h).code_ne_zero
  · rintro ⟨words, hwords, hcreates, hhalts⟩
    obtain ⟨trace, count, -, -, hcompletes⟩ := (houtcome hwords hcreates).1 hhalts
    exact hcompletes.code

theorem assembler_run (h : assembler.parse args = .ok (.run input output options)) :
    (assembler.run args : StateM World Exit) = assembleFile input output := by
  unfold run
  rw [h]

theorem simulator_run (h : simulator.parse args = .ok (.run input output options)) :
    (simulator.run args : StateM World Exit) = simulateFile input output options := by
  unfold run
  rw [h]

end Outputs

/-- Each tool leaves all of its output or none of it, in every world in which files can be read, written
and removed as they stand there. A command line can ask for a run with any two paths that have the
extensions of the tool, and with any options that the tool takes and that do not exclude each other. For the
simulator, a run without limit is one that ends. -/
theorem output_whole_or_absent (w : World) (input output : String) (options : Options) :
    (∀ t : Tool, (∃ args, t.parse args = .ok (.run input output options)) ↔
      t.Accepts input output options) ∧
    (∀ args, assembler.parse args = .ok (.run input output options) →
      w.Assembled input output (w.after (assembler.run args))) ∧
    ∀ args, simulator.parse args = .ok (.run input output options) →
      (options.maxSteps = none → ∀ words, w.Loads input words →
        ∃ n, (Machine.walk n (w.machine options words)).2 ≠ .paused) →
      w.Simulated input output options (w.after (simulator.run args)) := by
  refine ⟨fun t => exists_parse_iff, fun args hparse => ?_, fun args hparse hends => ?_⟩
  · rw [assembler_run hparse]
    exact assembled_assembleFile w input output
  · rw [simulator_run hparse]
    exact simulated_simulateFile hends

/-- A program of one `halt`, the output of an earlier run, and sevens for random registers. Without limit the
output holds the new trace afterwards, and with a limit of 0 it is gone; the assembler does not find its
input. -/
theorem output_whole_or_absent_halt :
    let w : World := { World.ofTree ⟨[(["a.mc"], .file "50331648".toUTF8),
      (["a.txt"], .file "old".toUTF8)]⟩ [] with drawn := Vector.replicate 16 7 }
    (∃ options, simulator.Accepts "a.mc" "a.txt" options ∧
      (w.machine options [0x03000000]).registers = Vector.replicate 16 7) ∧
      (w.after (simulator.run ["--random-init", "a.mc", "a.txt"])).1.code = 0 ∧
      w.Discards "a.txt" (w.after (simulator.run ["--max-steps", "0", "a.mc", "a.txt"])) ∧
      w.Refuses (w.after (assembler.run ["a.as", "a.mc"])) := by
  intro w
  let random : Options := ⟨["a.mc", "a.txt"], 0, false, none, none, true⟩
  let limited : Options := ⟨["a.mc", "a.txt"], 0, false, some 0, none, false⟩
  have hloads : w.Loads "a.mc" [0x03000000] := ⟨"50331648", by decide +kernel, by decide +kernel⟩
  have hcreates : w.Creates "a.txt" := ⟨["a.txt"], by decide +kernel⟩
  have hhalted : (Machine.walk 1 (w.machine random [0x03000000])).2 = .halted := by
    decide +kernel
  have hpaused : ¬ (w.machine limited [0x03000000]).HaltsWithin (some 0) := by
    rw [Machine.haltsWithin_iff (show Machine.Reaches _ 0 (some 0) from rfl)]
    nofun
  have hmissing : ¬ ∃ program, w.Assembles "a.as" program := by
    rintro ⟨program, source, hsource, -⟩
    cases hsource
  obtain ⟨hlines, -, hrandom⟩ := output_whole_or_absent w "a.mc" "a.txt" random
  obtain ⟨-, -, hlimited⟩ := output_whole_or_absent w "a.mc" "a.txt" limited
  obtain ⟨-, hassembler, -⟩ :=
    output_whole_or_absent w "a.as" "a.mc" ⟨["a.as", "a.mc"], 0, false, none, none, false⟩
  have hparse : simulator.parse ["--random-init", "a.mc", "a.txt"] = .ok (.run "a.mc" "a.txt" random) := by
    decide +kernel
  have hsimulated := hrandom _ hparse fun _ words h => ⟨1, by rw [h.unique hloads, hhalted]; nofun⟩
  have hassembled := hassembler ["a.as", "a.mc"] (by decide +kernel)
  refine ⟨⟨random, (hlines simulator).1 ⟨_, hparse⟩, hsimulated.registers rfl rfl _⟩, ?_, ?_, ?_⟩
  · exact hsimulated.succeeds.2 ⟨_, hloads, hcreates, 1, nofun, hhalted⟩
  · exact (hlimited _ (by decide +kernel) nofun).discarded _ hloads hcreates hpaused
  · exact hassembled.absent fun hcode => hmissing (hassembled.succeeds.1 hcode).1

end Tool

end SolMachine
