import AvroGraph.Projection

/-!
# Writers

A writer projects one schema after another from the same registry and remembers what it has written
in full, also by a call that failed.
-/

namespace AvroGraph

/-- The state of a writer: the registry it writes from and what it has written in full. -/
structure Writer where
  registry : Registry
  written : List Handle

namespace Writer

/-- A writer that has written nothing. -/
def new (registry : Registry) : Writer :=
  ⟨registry, []⟩

/-- Whether an entry has been written in full. -/
def isWritten (writer : Writer) (handle : Handle) : Bool :=
  writer.written.contains handle

/-- Write a schema within a namespace. -/
def write (writer : Writer) (schema : Schema) (around : Option String) :
    Except Violation Json × Writer :=
  let (result, written) := (writer.registry.write schema around).outcome writer.written
  (result, { writer with written })

/-- Write schemas one after another, each within a namespace. -/
def writeAll (writer : Writer) :
    List (Schema × Option String) → List (Except Violation Json) × Writer
  | [] => ([], writer)
  | (schema, around) :: rest =>
    let (answer, next) := writer.write schema around
    let (answers, last) := next.writeAll rest
    (answer :: answers, last)

end Writer

end AvroGraph
