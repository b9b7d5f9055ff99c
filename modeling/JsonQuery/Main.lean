import JsonQuery.CommandLine.Run

/-! The program: arguments and standard input in, text and an exit code out. -/
namespace JsonQuery.CommandLine

/-- The remainder of a stream. -/
partial def readAll (stream : IO.FS.Stream) (before : String) : IO String := do
  let line ← stream.getLine
  if line.isEmpty then return before
  readAll stream (before ++ line)

end JsonQuery.CommandLine

open JsonQuery.CommandLine in
def main (arguments : List String) : IO UInt32 := do
  let stdin ←
    if (request? arguments).any wantsInput then readAll (← IO.getStdin) "" else pure ""
  let outcome := run arguments stdin
  IO.print outcome.stdout
  IO.eprint outcome.stderr
  return outcome.code.toUInt32
