import PathDirectives.Demo.OpenPit

/-!
The command line: prints the open-pit demonstration.
-/

def main : IO UInt32 := do
  let (lines, result) := PathDirectives.OpenPit.lines
  lines.forM fun line => IO.println line
  match result with
  | .ok () => return 0
  | .error error =>
      IO.eprintln ("Error: " ++ error.message)
      return 1
