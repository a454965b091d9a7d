import ScriptCore.Demo

/-!
# The program

Reads the command line, plays the demonstration and prints what it reports.
-/

open ScriptCore

/-- Steps one task of the demonstration may take. -/
def stepBound : Nat := 1_000_000_000_000

/-- The code of a run that was cut off. -/
def abortCode : Nat := 134

def main (args : List String) : IO UInt32 := do
  let report := Demo.report stepBound (CommandLine.read args)
  for line in report.lines do
    IO.println line
  match report.complaint with
  | some complaint => IO.eprintln complaint
  | none => pure ()
  if report.exit = some 2 then
    IO.eprintln "error: unexpected or invalid argument"
  return UInt32.ofNat (report.exit.getD abortCode)
