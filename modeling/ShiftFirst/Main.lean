import ShiftFirst.CommandLine

open ShiftFirst in
def main (arguments : List String) : IO UInt32 := do
  let input ←
    if CommandLine.readsInput arguments then (← IO.getStdin).readBinToEnd else pure .empty
  let result := CommandLine.run arguments input.toList
  (← IO.getStdout).putStr result.output
  (← IO.getStderr).putStr result.errors
  return .ofNat result.code
