import TypedLowering.Diagnostic.Basic

/-!
A queue that collects diagnostics. It refuses errors beyond a limit and, if asked to, diagnostics
that are already queued; flushing it returns what it holds in the order of location.
-/
namespace TypedLowering
set_option autoImplicit false

/-- What a queue refuses. -/
structure QueueConfig where
  /-- The most errors held at a time; zero for no limit. -/
  errorLimit : Nat := 10
  /-- Whether a diagnostic equal to a queued one is dropped. -/
  deduplicate : Bool := true
  deriving DecidableEq, Repr

/-- Nothing is refused. -/
def QueueConfig.unlimited : QueueConfig := ⟨0, false⟩

/-- The diagnostics held, in the order of report, and the number of errors among them. -/
structure DiagnosticQueue where
  config : QueueConfig := {}
  queued : Array Diagnostic := #[]
  errorCount : Nat := 0

namespace DiagnosticQueue

def ofConfig (config : QueueConfig) : DiagnosticQueue := { config }

def size (q : DiagnosticQueue) : Nat := q.queued.size

def isEmpty (q : DiagnosticQueue) : Bool := q.queued.isEmpty

def hasErrors (q : DiagnosticQueue) : Bool := 0 < q.errorCount

def limitReached (q : DiagnosticQueue) : Bool :=
  0 < q.config.errorLimit && q.config.errorLimit ≤ q.errorCount

/-- Whether a diagnostic would be taken. -/
def accepts (q : DiagnosticQueue) (d : Diagnostic) : Bool :=
  !(d.isError && q.limitReached) && !(q.config.deduplicate && q.queued.contains d)

/-- Adds a diagnostic at the end, if it is accepted, and says whether it was. -/
def add (q : DiagnosticQueue) (d : Diagnostic) : Bool × DiagnosticQueue :=
  if q.accepts d then
    (true, { q with
      queued := q.queued.push d
      errorCount := if d.isError then q.errorCount + 1 else q.errorCount })
  else (false, q)

/-- Diagnostics are ordered by where their first primary label starts; one without comes last. -/
def sortKey (d : Diagnostic) : Nat :=
  match d.primarySpan with
  | some s => s.start
  | none => 0xFFFFFFFF

/-- Takes out all diagnostics in the order of location, those at the same place in the order of
report. -/
def flush (q : DiagnosticQueue) : List Diagnostic × DiagnosticQueue :=
  (q.queued.toList.mergeSort fun a b => sortKey a ≤ sortKey b,
    { q with queued := #[], errorCount := 0 })

end DiagnosticQueue

end TypedLowering
