import LeftRecursion.Rendering

/-!
# Command lines

A command line names the action first, then the options, then at most one file.
-/

namespace LeftRecursion

inductive Source where
  | standardInput
  | file (name : String)
  deriving DecidableEq

structure Options where
  /-- Whether to eliminate left recursion. -/
  eliminate : Bool
  /-- Whether to show the grammar as it was read, above its elimination. -/
  showInput : Bool
  format : Format
  deriving DecidableEq

inductive Command where
  | help
  | process (options : Options) (source : Source)
  deriving DecidableEq

namespace Command

def action : String := "elf"

/-- Reads the arguments after the action words. The first argument that is no option is the file,
and it has to be the last one. -/
def readOptions (o : Options) : List String → Command
  | [] => process o .standardInput
  | arg :: args =>
    if arg = "-h" ∨ arg = "--help" then help
    else if arg = "-o" then readOptions { o with showInput := true } args
    else if arg = "-l" then readOptions { o with format := .latex } args
    else if arg = "-j" then readOptions { o with format := .json } args
    else if args = [] then process o (.file arg)
    else help

def ofArgs (args : List String) : Command :=
  readOptions ⟨args.head? = some action, false, .plain⟩ (args.dropWhile (· = action))

def helpText : String :=
  "Usage: left-recursion-eliminator [actions] [options] [grammar file]\n" ++
  "actions:\n" ++
  "  elf: Eliminate left recursion\n" ++
  "options:\n" ++
  "  -h: Print this help\n" ++
  "  -o: Also print the original grammar\n" ++
  "  -l: Print in LaTeX format\n" ++
  "  -j: Print in JSON format\n" ++
  "\n" ++
  "One production per line, alternatives separated by spaces or '|':\n" ++
  "  S -> Aa | b\n" ++
  "  A -> Ac Sd m\n" ++
  "Uppercase letters are non-terminals, a lone 'e' is the empty production.\n"

end Command

end LeftRecursion
