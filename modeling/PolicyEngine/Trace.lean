/-!
What can be observed of an evaluation besides its answer: trace events and printed lines. Neither has an
influence on the answer.
-/
namespace PolicyEngine

/-- What a trace event reports. -/
inductive TraceOp where
  | enter
  | exit
  | eval
  | fail
  | note
  deriving DecidableEq, Repr

def TraceOp.name : TraceOp → String
  | .enter => "Enter"
  | .exit => "Exit"
  | .eval => "Eval"
  | .fail => "Fail"
  | .note => "Note"

/-- An event, with the number of rules being evaluated around it. -/
structure TraceEvent where
  op : TraceOp
  depth : Nat
  subject : String
  deriving DecidableEq, Repr

namespace TraceEvent

def text (e : TraceEvent) : String := e.op.name ++ " " ++ e.subject

/-- The event on a line of its own, indented by its depth. -/
def line (e : TraceEvent) : String := "".intercalate (List.replicate e.depth "| ") ++ e.text ++ "\n"

/-- The events one to a line. -/
def pretty (events : List TraceEvent) : String := "".intercalate (events.map line)

end TraceEvent

/-- What surrounds an evaluation: the events and lines it has produced, and a counter for built-ins that
number their calls. -/
structure Host where
  events : Array TraceEvent := #[]
  prints : Array String := #[]
  counter : Nat := 0

namespace Host

def emit (e : TraceEvent) (h : Host) : Host := { h with events := h.events.push e }
def print (line : String) (h : Host) : Host := { h with prints := h.prints.push line }

end Host
end PolicyEngine
