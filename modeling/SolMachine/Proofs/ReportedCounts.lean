import SolMachine.Proofs.Tracing

/-!
# The number that a trace returns

* `Machine.HaltsAfter` : single steps come to a `halt`, and so many instructions are executed;
  `HaltsAfter.executed` : the count of the machine grows by them;
* `haltsAfter_of_traceLoop`, `haltsAfter_of_traceWith` : rounds, and a trace, that end well do so;
* `trace_returns_total` : a trace returns the count of its machine, which is the number of the
  instructions that the trace has executed only if the machine comes to it with a count of 0.

The limit counts from where the trace begins, the number that is returned does not.
-/

namespace SolMachine.Machine

/-- Single steps from `m` execute `count` instructions, of which the last one is a `halt`, and leave
`k`. -/
inductive HaltsAfter : Machine → Nat → Machine → Prop where
  | halt {m k : Machine} (h : m.stepIn = (k, .halted)) : HaltsAfter m 1 k
  | next {m k l : Machine} {count : Nat} (h : m.stepIn = (k, .ran)) (rest : HaltsAfter k count l) :
    HaltsAfter m (count + 1) l

/-- What the number `n` that is returned by a trace of `m` to a limit says, where the trace has executed
`count` instructions and left `k`. -/
structure Returns (m : Machine) (limit : Option UInt64) (n : UInt64) (count : Nat) (k : Machine) :
    Prop where
  halts : m.HaltsAfter count k
  limited : ∀ max, limit = some max → count ≤ max.toNat
  /-- It counts the instructions before the trace too. -/
  total : n = m.executed + .ofNat count
  exact : n.toNat = count ↔ m.executed = 0 ∧ count < UInt64.size
  within : m.executed = 0 → ∀ max, limit = some max → n ≤ max

section Count
variable {m k : Machine} {count : Nat}

/-- What a single step from outside adds to the count. -/
theorem executed_stepIn (m : Machine) :
    m.stepIn.1.executed = m.executed + counted m.stepIn.2 := by
  have hstep := m.awake.executed_step
  rcases h : m.awake.step with ⟨k, outcome⟩
  rw [h] at hstep
  cases outcome with
  | ran => rw [stepIn_of_ran h]; exact hstep
  | halted => rw [stepIn_of_halted h]; exact hstep
  | fault f => rw [stepIn_of_fault h]; exact hstep

theorem HaltsAfter.executed (h : m.HaltsAfter count k) : k.executed = m.executed + .ofNat count := by
  induction h with
  | @halt m k h =>
    have hstep := m.executed_stepIn
    rw [h] at hstep
    exact hstep
  | @next m k l count h _ ih =>
    have hstep := m.executed_stepIn
    rw [h] at hstep
    rw [ih, hstep, counted, UInt64.ofNat_add, UInt64.add_assoc, UInt64.add_comm 1]
    rfl

theorem HaltsAfter.pos (h : m.HaltsAfter count k) : 0 < count := by
  cases h <;> exact Nat.succ_pos _

/-- A sum that is its second part has 0 as its first. -/
theorem toNat_add_ofNat_eq_iff (x : UInt64) (count : Nat) :
    (x + .ofNat count).toNat = count ↔ x = 0 ∧ count < UInt64.size := by
  constructor
  · intro h
    have hlt : count < UInt64.size := h ▸ UInt64.toNat_lt_size _
    have hsum : x + .ofNat count = .ofNat count := by
      rw [← UInt64.toNat_inj, h, UInt64.toNat_ofNat_of_lt' hlt]
    exact ⟨by grind, hlt⟩
  · rintro ⟨rfl, hlt⟩
    rw [UInt64.zero_add, UInt64.toNat_ofNat_of_lt' hlt]

end Count

/-! ## Rounds -/

section Round
variable {m : Machine} {start n : UInt64} {limit : Option UInt64} {sink : Sink} {fuel : Nat}
  {r : TraceResult}

/-- Rounds that end well come to a `halt`, within the limit that is left. -/
theorem haltsAfter_of_traceLoop (h : traceLoop start limit fuel m sink = some r)
    (hr : r.result = .ok n) :
    ∃ count, m.HaltsAfter count r.machine ∧ n = r.machine.executed ∧
      ∀ max, limit = some max → (m.executed - start).toNat + count ≤ max.toNat := by
  induction fuel generalizing m sink with
  | zero => cases h
  | succ fuel ih =>
    have hends := traceRound_ends start limit m sink
    rw [traceLoop] at h
    generalize traceRound start limit m sink = round at h hends
    cases hends with
    | @ran k after hat hstep hput =>
      obtain ⟨count, hhalts, hn, hlimit⟩ := ih h
      refine ⟨count + 1, .next hstep hhalts, hn, ?_⟩
      rintro max rfl
      -- Below the limit the count from the start on grows by one, and does not wrap.
      have hgrows : (k.executed - start).toNat = (m.executed - start).toNat + 1 :=
        count_of_ran (m := m.awake) (step_of_stepIn_ran hstep) (lt_of_atLimit hat)
      have hleft := hlimit max rfl
      omega
    | halted hat hstep hput =>
      obtain rfl := Option.some.inj h
      obtain rfl := Except.ok.inj hr
      refine ⟨1, .halt hstep, rfl, ?_⟩
      rintro max rfl
      exact lt_of_atLimit hat
    | limit hat | fault hat hstep | full hat hstep hput =>
      obtain rfl := Option.some.inj h
      cases hr

end Round

/-! ## Whole traces -/

section Trace
variable {m : Machine} {limit : Option UInt64} {room : Option Nat} {fuel : Nat} {r : TraceResult}
  {n : UInt64}

theorem haltsAfter_of_traceWith (h : m.traceWith limit room fuel = some r) (hr : r.result = .ok n) :
    ∃ count, m.HaltsAfter count r.machine ∧ n = r.machine.executed ∧
      ∀ max, limit = some max → count ≤ max.toNat := by
  unfold traceWith at h
  rcases m.full_or_opened room with ⟨sink, hfull⟩ | ⟨sink, hrun⟩
  · rw [hfull] at h
    obtain rfl := Option.some.inj h
    cases hr
  · rw [hrun] at h
    obtain ⟨count, hhalts, hn, hlimit⟩ := haltsAfter_of_traceLoop h hr
    exact ⟨count, hhalts, hn, fun max hmax => Nat.le_of_add_left_le (hlimit max hmax)⟩

/-- A trace that comes to a `halt` returns the count of its machine. The limit holds for the number of
instructions that the trace executes. What it returns is that number, and so within the limit, if the
machine had executed none before; otherwise it is another number, and can be past the limit. -/
theorem trace_returns_total (h : m.traceWith limit room fuel = some r) (hr : r.result = .ok n) :
    m.trace limit room = some r ∧ ∃ count, m.Returns limit n count r.machine := by
  obtain ⟨count, hhalts, hn, hlimited⟩ := haltsAfter_of_traceWith h hr
  have htotal : n = m.executed + .ofNat count := hn.trans hhalts.executed
  have hexact : n.toNat = count ↔ m.executed = 0 ∧ count < UInt64.size :=
    htotal ▸ toNat_add_ofNat_eq_iff m.executed count
  refine ⟨m.trace_of_traceWith h, count, hhalts, hlimited, htotal, hexact, fun hzero max hmax => ?_⟩
  have hle := hlimited max hmax
  rw [UInt64.le_iff_toNat_le, hexact.2 ⟨hzero, Nat.lt_of_le_of_lt hle max.toNat_lt_size⟩]
  exact hle

end Trace

/-- A machine that has executed nothing, with an addition and a `halt`, and the limit that just lets
them happen. -/
theorem trace_returns_total_new :
    let m := { Machine.new .standard with memory := .ofList [0, 0x03000000] }
    ∃ r, m.trace (some 2) none = some r ∧ r.result = .ok 2 ∧ m.Returns (some 2) 2 2 r.machine := by
  intro m
  have hresult : (m.traceWith (some 2) none 2).map (·.result) = some (.ok 2) := by
    decide +kernel
  obtain ⟨r, h, hr⟩ := Option.map_eq_some_iff.1 hresult
  obtain ⟨htrace, count, hreturns⟩ := trace_returns_total h hr
  have hle : count ≤ 2 := hreturns.limited 2 rfl
  obtain rfl : 2 = count := hreturns.exact.2 ⟨rfl, Nat.lt_of_le_of_lt hle (by decide)⟩
  exact ⟨r, htrace, hr, hreturns⟩

/-- A machine that has come to a `halt` and is traced as it does so once more. The trace executes one
instruction, as many as the limit allows, and returns 2. -/
theorem trace_returns_total_again :
    let m := ({ Machine.new .standard with memory := .ofList [0x03000000] } : Machine).stepIn.1
    ∃ r, m.trace (some 1) none = some r ∧ r.result = .ok 2 ∧ m.HaltsAfter 1 r.machine := by
  intro m
  have hresult : (m.traceWith (some 1) none 1).map (·.result) = some (.ok 2) := by
    decide +kernel
  obtain ⟨r, h, hr⟩ := Option.map_eq_some_iff.1 hresult
  obtain ⟨count, hhalts, -, hlimited⟩ := haltsAfter_of_traceWith h hr
  have hle : count ≤ 1 := hlimited 1 rfl
  obtain rfl : 1 = count := Nat.le_antisymm hhalts.pos hle
  exact ⟨r, m.trace_of_traceWith h, hr, hhalts⟩

end SolMachine.Machine
