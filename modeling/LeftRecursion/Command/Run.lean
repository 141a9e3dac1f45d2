import LeftRecursion.Answer
import LeftRecursion.Command.Arguments
import LeftRecursion.Command.Directory
import LeftRecursion.Command.Log

/-!
# Running a command

A command either prints its text and succeeds or prints one error and nothing else. What it tells the
log on the way stands on the error output too, before the error.
-/

namespace LeftRecursion

structure Outcome where
  exitCode : UInt8
  standardOutput : String
  /-- What the log was told, in order. -/
  entries : List LogEntry
  /-- What stands on the error output behind the lines of the log. -/
  report : String
  deriving DecidableEq

namespace Outcome

def errorMark : String := "error: "

def success (entries : List LogEntry) (text : String) : Outcome :=
  ⟨0, text, entries, ""⟩

def failure (entries : List LogEntry) (message : String) : Outcome :=
  ⟨1, "", entries, errorMark ++ message ++ "\n"⟩

def standardError (o : Outcome) (log : Log) : String :=
  String.ofList (log.write o.entries) ++ o.report

/-- The lines of an error output that report an error. -/
def errorsIn (standardError : String) : List String :=
  ((Text.lines standardError.toList).filter errorMark.toList.isPrefixOf).map String.ofList

/-- The errors on an error output to which no log writes. -/
def errorLines (o : Outcome) : List String :=
  errorsIn o.report

end Outcome

/-- A computation that may fail and tells the log something on the way. -/
abbrev Logged := ExceptT Failure (StateM (List LogEntry))

namespace Logged

def tell (e : LogEntry) : Logged Unit :=
  modify (· ++ [e])

def ofTraced {α : Type} (x : Traced α) : Logged α := do
  modify (· ++ x.events.map LogEntry.event)
  MonadExcept.ofExcept x.result

end Logged

def decodeText (bytes : ByteArray) : Except FileError String :=
  match String.fromUTF8? bytes with
  | some s => .ok s
  | none => .error .notUtf8

def Source.report : Source → FileError → String
  | .standardInput, e => e.message
  | .file name, e => "failed to read " ++ name ++ ": " ++ e.message

/-- What the options make of a written grammar. -/
def Options.print (o : Options) (text : String) : Logged String := do
  let g ← .ofTraced (Grammar.parseTraced text)
  .tell (.parsed g.nonTerminals.length)
  if o.eliminate then
    let h ← .ofTraced g.eliminateTraced
    .tell (.eliminated (h.nonTerminals.length - g.nonTerminals.length))
    let before := if o.showInput then g.render o.format ++ "\n\n" else ""
    return before ++ h.render o.format ++ "\n"
  else
    return g.render o.format ++ "\n"

def Options.respond (o : Options) (source : Source) (input : Except FileError ByteArray) :
    Outcome :=
  match input >>= decodeText with
  | .error e => .failure [] (source.report e)
  | .ok text =>
    match (o.print text).run.run [] with
    | (.error e, entries) => .failure entries e.message
    | (.ok printed, entries) => .success entries printed

/-- Runs a command that gets its input by `fetch`. -/
def Command.run {m : Type → Type} [Monad m] (fetch : Source → m (Except FileError ByteArray)) :
    Command → m Outcome
  | .help => return .success [] helpText
  | .process options source => return options.respond source (← fetch source)

/-- Runs the command line `args` where the sources yield what `fetch` says. -/
def runWith (args : List String) (fetch : Source → Except FileError ByteArray) : Outcome :=
  Id.run ((Command.ofArgs args).run (m := Id) fetch)

def Source.read (standardInput : ByteArray) (d : Directory) : Source → Except FileError ByteArray
  | .standardInput => .ok standardInput
  | .file name => d.read name

def run (args : List String) (standardInput : ByteArray) (d : Directory) : Outcome :=
  runWith args (Source.read standardInput d)

end LeftRecursion
