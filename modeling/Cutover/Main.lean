import Cutover.CommandLine

/-! # The program

Reads arguments and settings from the environment and prints what the command leaves behind.  The
one database that can be reached without a server or a file is the empty one in memory.
-/

open Cutover

/-- The database in memory, which holds nothing. -/
def memoryDatabases : CommandLine.Databases := fun url =>
  if url = Database.inMemory.url then some ⟨"", "", [], []⟩ else none

/-- Runs the command line. -/
def main (args : List String) : IO UInt32 := do
  let settings ← Settings.keys.filterMapM fun key => do
    return (← IO.getEnv key).map fun value => (key, value)
  let outcome := CommandLine.invoke args (List.lookup · settings) memoryDatabases
  for text in outcome.printed do
    IO.println text
  if let some failure := outcome.failure then
    IO.eprintln ("Error: " ++ failure.message)
  return UInt32.ofNat outcome.exit
