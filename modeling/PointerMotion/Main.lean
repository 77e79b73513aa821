import PointerMotion.Showcase

/-!
# The showcase as a program

The only argument, if there is one, is the path of a settings document.
-/

open PointerMotion

/-- The source of the settings for the arguments of the program. -/
def showcaseSource : List String → IO Showcase.Source
  | [] => return .default
  | path :: _ => do
    try
      return .document (← IO.FS.readFile path)
    catch _ =>
      return .missing path

/-- Print the showcase, or say on the error output why there is none. -/
def main (arguments : List String) : IO UInt32 := do
  match Showcase.report (← showcaseSource arguments) with
  | .ok text =>
    IO.print text
    return 0
  | .error e =>
    IO.eprintln s!"Error: {e.message}"
    return 1
