import SolMachine.Proofs.Decimals
import SolMachine.Tool.Arguments

/-!
# What command lines can ask for

* `Tool.Accepts` : a run with the options that a tool takes;
* `Tool.Allows` : options that can be set when a part of a command line is read; every argument keeps
  them so, and the run that is asked for at the end is accepted (`Tool.accepts_read`);
* `Tool.commandLine` : a command line for given options; `Tool.parse_commandLine` : it asks for the run;
* `Tool.exists_parse_iff` : command lines ask for just the runs that a tool accepts.
-/

namespace SolMachine

/-! ## Counts -/

namespace Decimal

theorem foldl_digitValue (cs : List Char) (n : Nat) :
    cs.foldl (fun acc c => acc * 10 + digitValue c) n = Nat.ofDigitChars 10 cs n := by
  induction cs generalizing n with
  | nil => rfl
  | cons c cs ih => rw [List.foldl_cons, Nat.ofDigitChars_cons, ih, Nat.mul_comm, digitValue]

/-- Digits are read as the count that they name. -/
theorem readCount_of_digits {cs : List Char} {n : UInt64} (hne : cs ≠ []) (hcs : ∀ c ∈ cs, c.isDigit)
    (hvalue : Nat.ofDigitChars 10 cs 0 = n.toNat) : readCount cs = some n := by
  have hdigits : cs.isEmpty = false ∧ cs.all Char.isDigit = true :=
    ⟨List.isEmpty_eq_false_iff.2 hne, List.all_eq_true.2 hcs⟩
  have hfold := (foldl_digitValue cs 0).trans hvalue
  unfold readCount
  split
  · exact absurd (hcs '+' List.mem_cons_self) (by decide)
  · simp [hdigits, hfold, n.toNat_lt_size]

theorem readCount_repr (n : UInt64) : readCount (Nat.repr n.toNat).toList = some n :=
  readCount_of_digits (toList_repr_ne_nil _) isDigit_of_mem_repr (ofDigitChars_repr _)

end Decimal

namespace Tool

/-! ## What a command line has set -/

/-- The extensions of the files that a tool takes, in order. -/
def extensions (t : Tool) : List String := [t.inputExtension, t.outputExtension]

/-- Options that can be set when a part of a command line is read: the files so far have the extensions
of the tool, and the assembler has no options of its own. -/
structure Allows (t : Tool) (o : Options) : Prop where
  files : o.files.map Path.extension? <+: t.extensions.map some
  own : t = assembler → o.maxSteps = none ∧ o.seed = none ∧ o.randomInit = false

/-- A run that the tool accepts. -/
structure Accepts (t : Tool) (input output : String) (o : Options) : Prop where
  files : o.files = [input, output]
  input : Path.extension? input = some t.inputExtension
  output : Path.extension? output = some t.outputExtension
  level : o.quiet → o.verbose = 0
  start : o.seed.isSome → o.randomInit = false
  own : t = assembler → o.maxSteps = none ∧ o.seed = none ∧ o.randomInit = false

/-- An action that sets only what the tool has, and asks for no run. -/
def Action.Sound (t : Tool) : Action → Prop
  | .set f => ∀ o o', t.Allows o → f o = .ok o' → t.Allows o'
  | .take f => ∀ n o o', t.Allows o → f n o = .ok o' → t.Allows o'
  | .answer r => ∀ input output o, r ≠ .run input output o

section Reading
variable {t : Tool} {o o' : Options} {input output : String}

theorem allows_initial (t : Tool) : t.Allows .initial :=
  ⟨List.nil_prefix, fun _ => ⟨rfl, rfl, rfl⟩⟩

/-- What an option sets that can be given once. -/
theorem eq_of_once {c : Prop} [Decidable c] {e : UsageError}
    (h : (if c then Except.error e else Except.ok o) = .ok o') : o = o' := by
  split at h
  · cases h
  · exact Except.ok.inj h

theorem sound_quiet (t : Tool) : quietAction.Sound t := by
  intro o o' h ho
  cases eq_of_once ho
  exact ⟨h.files, h.own⟩

theorem sound_verbose (t : Tool) : verboseAction.Sound t := by
  intro o o' h ho
  cases ho
  exact ⟨h.files, h.own⟩

theorem sound_simulatorAction {name : String} {a : Action} (h : simulatorAction? name = some a) :
    a.Sound simulator := by
  unfold simulatorAction? at h
  split at h
  · cases h
    intro n o o' ho hset
    cases eq_of_once hset
    exact ⟨ho.files, nofun⟩
  · cases h
    intro n o o' ho hset
    cases eq_of_once hset
    exact ⟨ho.files, nofun⟩
  · cases h
    intro o o' ho hset
    cases eq_of_once hset
    exact ⟨ho.files, nofun⟩
  · cases h

theorem sound_longAction {name : String} {a : Action} (h : t.longAction? name = some a) :
    a.Sound t := by
  unfold longAction? at h
  split at h
  · cases h
    exact sound_quiet t
  · cases h
    exact sound_verbose t
  · cases h
    nofun
  · cases h
    nofun
  · split at h
    · next ht =>
      subst ht
      exact sound_simulatorAction h
    · cases h

theorem sound_shortAction {c : Char} {a : Action} (h : shortAction? c = some a) : a.Sound t := by
  unfold shortAction? at h
  split at h
  · cases h
    exact sound_quiet t
  · cases h
    exact sound_verbose t
  · cases h
    nofun
  · cases h
    nofun
  · cases h

theorem allows_takeValue {f : UInt64 → Options → Except UsageError Options} {value : String}
    (hf : Action.Sound t (.take f)) (h : t.Allows o) (ho : takeValue f value o = .ok o') :
    t.Allows o' := by
  unfold takeValue at ho
  split at ho
  · exact hf _ _ _ h ho
  · cases ho

/-- A file is added if it has the extension that is next. -/
theorem addFile_eq_ok_iff {path : String} : t.addFile o path = .ok o' ↔
    (∃ ext, t.extensions[o.files.length]? = some ext ∧ Path.extension? path = some ext) ∧
      { o with files := o.files ++ [path] } = o' := by
  obtain ⟨files, verbose, quiet, maxSteps, seed, randomInit⟩ := o
  unfold addFile Path.requireExtension
  rcases files with _ | ⟨first, _ | ⟨second, rest⟩⟩
  · by_cases h : Path.extension? path = some t.inputExtension <;> simp [h, extensions]
  · by_cases h : Path.extension? path = some t.outputExtension <;> simp [h, extensions]
  · simp [extensions]

theorem allows_addFile {path : String} (h : t.Allows o) (ho : t.addFile o path = .ok o') :
    t.Allows o' := by
  obtain ⟨⟨ext, hnext, hpath⟩, rfl⟩ := addFile_eq_ok_iff.1 ho
  refine ⟨?_, h.own⟩
  have hfiles := List.prefix_iff_eq_take.1 h.files
  rw [List.length_map] at hfiles
  rw [List.map_append, hfiles, List.map_singleton, hpath]
  have hsucc : (t.extensions.map some).take (o.files.length + 1) =
      (t.extensions.map some).take o.files.length ++ [some ext] := by
    rw [List.take_add_one, List.getElem?_map, hnext]
    rfl
  rw [← hsucc]
  exact List.take_prefix _ _

theorem allows_readShort {cs : List Char} (h : t.Allows o) (ho : readShort o cs = .ok (.inl o')) :
    t.Allows o' := by
  fun_induction readShort o cs with
  | case1 o =>
    cases ho
    exact h
  | case2 o c cs f ha o₁ ho₁ ih => exact ih (sound_shortAction ha _ _ h ho₁) ho
  | case3 => cases ho
  | case4 => cases ho
  | case5 => cases ho

theorem readShort_ne_run {cs : List Char} : readShort o cs ≠ .ok (.inr (.run input output o')) := by
  fun_induction readShort o cs with
  | case1 o => nofun
  | case2 o c cs f ha o₁ ho₁ ih => exact ih
  | case3 => nofun
  | case4 o c cs r ha =>
    intro h
    cases h
    exact (sound_shortAction ha : Action.Sound assembler _) _ _ _ rfl
  | case5 => nofun

/-- The check at the end of a line. -/
theorem finish_eq_run_iff : t.finish o = .ok (.run input output o') ↔
    o.files = [input, output] ∧ (o.quiet → o.verbose = 0) ∧
      (o.seed.isSome → o.randomInit = false) ∧ o = o' := by
  unfold finish
  split
  · next first second hfiles =>
    rw [hfiles]
    split
    · next hlevel => simp [hlevel]
    · next hlevel =>
      split
      · next hstart => simp [hstart]
      · next hstart =>
        have hlevel : o.quiet → o.verbose = 0 := fun hquiet => by simpa [hquiet] using hlevel
        have hstart : o.seed.isSome → o.randomInit = false := fun hseed => by
          simpa [hseed] using hstart
        rw [and_iff_right hlevel, and_iff_right hstart]
        simp [and_assoc]
  · next first hfiles => simp [hfiles]
  · next htwo _ => exact iff_of_false nofun fun h => htwo _ _ h.1

theorem accepts_finish (h : t.Allows o) (ho : t.finish o = .ok (.run input output o')) :
    t.Accepts input output o' := by
  obtain ⟨hfiles, hlevel, hstart, rfl⟩ := finish_eq_run_iff.1 ho
  have hextensions := h.files
  rw [hfiles] at hextensions
  obtain ⟨hinput, houtput⟩ : Path.extension? input = some t.inputExtension ∧
      Path.extension? output = some t.outputExtension := by
    simpa [extensions] using hextensions
  exact ⟨hfiles, hinput, houtput, hlevel, hstart, h.own⟩

theorem accepts_readFiles {paths : List String} (h : t.Allows o)
    (ho : t.readFiles o paths = .ok (.run input output o')) : t.Accepts input output o' := by
  fun_induction readFiles t o paths with
  | case1 o => exact accepts_finish h ho
  | case2 o path rest o₁ ho₁ ih => exact ih (allows_addFile h ho₁) ho
  | case3 => cases ho

/-- What a line asks for is accepted, by induction on the arguments: each of them keeps the options
allowed, and the check at the end does the rest. -/
theorem accepts_read {args : List String} (h : t.Allows o)
    (ho : t.read o args = .ok (.run input output o')) : t.Accepts input output o' := by
  fun_induction read t o args with
  | case1 o => exact accepts_finish h ho
  | case2 o arg rest harg => exact accepts_readFiles h ho
  | case3 o arg rest path harg o₁ ho₁ ih => exact ih (allows_addFile h ho₁) ho
  | case5 o arg rest cluster harg o₁ ho₁ ih => exact ih (allows_readShort h ho₁) ho
  | case6 o arg rest cluster harg r hr =>
    cases ho
    exact absurd hr readShort_ne_run
  | case9 o arg rest name r ha =>
    cases ho
    exact absurd rfl (sound_longAction ha _ _ _)
  | case10 o arg rest name f ha o₁ ho₁ harg ih => exact ih (sound_longAction ha _ _ h ho₁) ho
  | case12 o arg rest name f v ha o₁ ho₁ harg ih =>
    exact ih (allows_takeValue (sound_longAction ha) h ho₁) ho
  | case15 o arg name f ha v rest path hv o₁ ho₁ harg ih =>
    exact ih (allows_takeValue (sound_longAction ha) h ho₁) ho
  | _ => cases ho

end Reading

/-! ## A command line for each run -/

/-- An option, if it is set. -/
def flag (option : String) (set : Bool) : List String := if set then [option] else []

/-- An option and its value, if it is set. -/
def valued (option : String) : Option UInt64 → List String
  | none => []
  | some n => [option, Nat.repr n.toNat]

/-- A command line that sets the options. The files come last, where a dash at the start of a path does
not make it an option. -/
def commandLine (o : Options) : List String :=
  flag "--quiet" o.quiet ++ (List.replicate o.verbose "--verbose" ++
    (valued "--max-steps" o.maxSteps ++ (valued "--seed" o.seed ++
      (flag "--random-init" o.randomInit ++ "--" :: o.files))))

section Writing
variable {t : Tool} {o o' : Options} {input output arg : String} {rest : List String}

theorem ofString_repr (n : Nat) : Argument.ofString (Nat.repr n) = .file (Nat.repr n) := by
  have hdash : ∀ cs, (Nat.repr n).toList ≠ '-' :: cs := fun cs hcs =>
    absurd (Decimal.isDigit_of_mem_repr (n := n) '-' (by rw [hcs]; exact List.mem_cons_self)) (by decide)
  unfold Argument.ofString
  split
  · next h => exact absurd h (hdash _)
  · next h => exact absurd h (hdash _)
  · next h => exact absurd h (hdash _)
  · rfl

theorem read_set (name : String) {f : Options → Except UsageError Options}
    (harg : Argument.ofString arg = .long name none) (ha : t.longAction? name = some (.set f))
    (hf : f o = .ok o') : t.read o (arg :: rest) = t.read o' rest := by
  rw [read, harg]
  dsimp only
  rw [ha]
  dsimp only
  rw [hf]

theorem read_take (name : String) {f : UInt64 → Options → Except UsageError Options} {n : UInt64}
    (harg : Argument.ofString arg = .long name none) (ha : t.longAction? name = some (.take f))
    (hf : f n o = .ok o') : t.read o (arg :: Nat.repr n.toNat :: rest) = t.read o' rest := by
  rw [read, harg]
  dsimp only
  rw [ha]
  dsimp only
  rw [ofString_repr]
  dsimp only
  unfold takeValue
  rw [Decimal.readCount_repr]
  dsimp only
  rw [hf]

theorem read_flag (name : String) {f : Options → Except UsageError Options} {set : Bool}
    (harg : Argument.ofString arg = .long name none) (hunset : set = false → o = o')
    (hset : set = true → t.longAction? name = some (.set f) ∧ f o = .ok o') :
    t.read o (flag arg set ++ rest) = t.read o' rest := by
  cases set with
  | false => exact congrArg (fun o => t.read o rest) (hunset rfl)
  | true => exact read_set name harg (hset rfl).1 (hset rfl).2

theorem read_valued (name : String) {f : UInt64 → Options → Except UsageError Options}
    {value : Option UInt64} (harg : Argument.ofString arg = .long name none)
    (hunset : value = none → o = o')
    (hset : ∀ n, value = some n → t.longAction? name = some (.take f) ∧ f n o = .ok o') :
    t.read o (valued arg value ++ rest) = t.read o' rest := by
  cases value with
  | none => exact congrArg (fun o => t.read o rest) (hunset rfl)
  | some n => exact read_take name harg (hset n rfl).1 (hset n rfl).2

theorem read_verbose (n : Nat) : t.read o (List.replicate n "--verbose" ++ rest) =
    t.read { o with verbose := o.verbose + n } rest := by
  induction n generalizing o with
  | zero => rfl
  | succ n ih =>
    rw [List.replicate_succ, List.cons_append, read_set "verbose" rfl rfl rfl, ih]
    dsimp only
    rw [Nat.add_assoc, Nat.add_comm 1]

/-- Only the simulator has options of its own. -/
theorem Accepts.eq_simulator (h : t.Accepts input output o)
    (hset : o.maxSteps ≠ none ∨ o.seed ≠ none ∨ o.randomInit ≠ false) : t = simulator := by
  cases t with
  | assembler =>
    obtain ⟨hmaxSteps, hseed, hrandom⟩ := h.own rfl
    simp [hmaxSteps, hseed, hrandom] at hset
  | simulator => rfl

theorem readFiles_of_accepts (h : t.Accepts input output o) :
    t.readFiles { o with files := [] } o.files = .ok (.run input output o) := by
  have hinput : t.addFile { o with files := [] } input = .ok { o with files := [input] } :=
    addFile_eq_ok_iff.2 ⟨⟨_, rfl, h.input⟩, rfl⟩
  have houtput : t.addFile { o with files := [input] } output = .ok { o with files := [input, output] } :=
    addFile_eq_ok_iff.2 ⟨⟨_, rfl, h.output⟩, rfl⟩
  rw [h.files, readFiles, hinput]
  dsimp only
  rw [readFiles, houtput]
  dsimp only
  rw [readFiles, ← h.files]
  exact finish_eq_run_iff.2 ⟨h.files, h.level, h.start, rfl⟩

/-- The line of a run that is accepted asks for this run. -/
theorem parse_commandLine (h : t.Accepts input output o) :
    t.parse (commandLine o) = .ok (.run input output o) := by
  have hmaxSteps {n : UInt64} (hn : o.maxSteps = some n) :=
    h.eq_simulator (.inl (by rw [hn]; nofun))
  have hseed {n : UInt64} (hn : o.seed = some n) :=
    h.eq_simulator (.inr (.inl (by rw [hn]; nofun)))
  have hrandom (hset : o.randomInit = true) :=
    h.eq_simulator (.inr (.inr (by rw [hset]; nofun)))
  calc t.read .initial (commandLine o)
    _ = t.read ⟨[], 0, o.quiet, none, none, false⟩ _ :=
      read_flag "quiet" rfl (fun hset => by rw [hset]; rfl) fun hset => ⟨rfl, by rw [hset]; rfl⟩
    _ = t.read ⟨[], o.verbose, o.quiet, none, none, false⟩ _ := by
      rw [read_verbose]
      dsimp only
      rw [Nat.zero_add]
    _ = t.read ⟨[], o.verbose, o.quiet, o.maxSteps, none, false⟩ _ :=
      read_valued "max-steps" rfl (fun hset => by rw [hset]) fun n hn =>
        ⟨by rw [hmaxSteps hn]; rfl, by rw [hn]; rfl⟩
    _ = t.read ⟨[], o.verbose, o.quiet, o.maxSteps, o.seed, false⟩ _ :=
      read_valued "seed" rfl (fun hset => by rw [hset]) fun n hn =>
        ⟨by rw [hseed hn]; rfl, by rw [hn]; rfl⟩
    _ = t.read { o with files := [] } ("--" :: o.files) :=
      read_flag "random-init" rfl (fun hset => by rw [hset]) fun hset =>
        ⟨by rw [hrandom hset]; rfl, by rw [hset]; rfl⟩
    _ = .ok (.run input output o) := readFiles_of_accepts h

/-- There are command lines for just the runs that a tool accepts. -/
theorem exists_parse_iff :
    (∃ args, t.parse args = .ok (.run input output o)) ↔ t.Accepts input output o :=
  ⟨fun ⟨_, hargs⟩ => accepts_read (allows_initial t) hargs, fun h => ⟨_, parse_commandLine h⟩⟩

end Writing

end Tool

end SolMachine
