import SolMachine.Machine.Step

/-!
# Runs

* `RunEnd` : how a run ends;
* `Machine.runWhile` : executes instructions for as long as a condition holds;
* `Machine.runLimited`, `Machine.run` : a run of at most so many instructions, and one without limit.

A run may go on for ever, so `runWhile` takes the number of conditions that it may check and answers
`none` when they are used up. A limited run checks no more conditions than its limit and one.
-/

namespace SolMachine

inductive RunEnd where
  /-- The condition did not hold. -/
  | paused
  | halted
  | fault (f : Fault)
  deriving DecidableEq, Repr, Inhabited

namespace Machine

/-- Executes instructions until the condition fails, a `halt` is executed or a fault occurs. The
condition may change the machine. -/
def loop (condition : Machine → Bool × Machine) : Nat → Machine → Option (Machine × RunEnd)
  | 0, _ => none
  | fuel + 1, m =>
    match condition m with
    | (false, m) => some (m, .paused)
    | (true, m) =>
      match m.step with
      | (m, .ran) => loop condition fuel m
      | (m, .halted) => some ({ m with halted := true }, .halted)
      | (m, .fault f) => some (m, .fault f)

/-- A run that goes on for as long as the condition holds, checked at most `fuel` times. -/
def runWhile (m : Machine) (condition : Machine → Bool × Machine) (fuel : Nat) :
    Option (Machine × RunEnd) :=
  loop condition fuel { m with halted := false }

/-- A run of at most `limit` instructions; the count may pass 2^64 and start again from 0. -/
def runLimited (m : Machine) (limit : UInt64) : Option (Machine × RunEnd) :=
  m.runWhile (fun k => (decide (k.executed - m.executed < limit), k)) (limit.toNat + 1)

/-- A run that only a `halt` or a fault ends. -/
def run (m : Machine) (fuel : Nat) : Option (Machine × RunEnd) :=
  m.runWhile (fun k => (true, k)) fuel

/-- More instructions than a machine executes in a century, as the fuel of runs without limit. -/
def horizon : Nat := 1 <<< 62

end Machine

end SolMachine
