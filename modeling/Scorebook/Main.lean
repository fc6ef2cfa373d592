import Scorebook.Dump.Run

/-!
# The program

Reads the database file named on the command line, if there is one, and prints what the dump of it
consists of.
-/

open Scorebook.Dump

/-- What the database file of a request holds now. -/
def diskOf (invocation : Invocation) : IO Scorebook.Disk := do
  match invocation with
  | .run { database := some path, .. } =>
    try
      let bytes ← IO.FS.readBinFile path
      return .ok ⟨bytes, 0⟩
    catch reason => return .error (toString reason)
  | _ => return .error "no database file was named"

def main (args : List String) : IO UInt32 := do
  let invocation := Invocation.ofArguments args
  let printout := invocation.printout (← diskOf invocation)
  for line in printout.output do
    IO.println line
  for complaint in printout.complaints do
    IO.eprintln complaint.text
  return UInt32.ofNat printout.exit
