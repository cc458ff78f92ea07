import AdviceCompiler.Diagnostic

/-!
# Reports

A report gathers diagnostics.  With a limit it keeps the first ones and counts
the others.
-/

namespace AdviceCompiler

structure Report where
  /-- The number of diagnostics kept at most; `0` is no limit. -/
  limit : Nat := 0
  /-- The diagnostics kept, in order. -/
  diagnostics : List Diagnostic := []
  /-- The number of diagnostics left out. -/
  omitted : Nat := 0
  deriving DecidableEq

namespace Report

/-- The empty report with this limit. -/
def limited (limit : Nat) : Report :=
  { limit }

/-- Whether nothing was ever reported. -/
def isClean (report : Report) : Bool :=
  report.diagnostics.isEmpty && report.omitted == 0

/-- Whether a kept diagnostic is of this kind. -/
def hasKind (report : Report) (kind : DiagnosticKind) : Bool :=
  report.diagnostics.any fun diagnostic => diagnostic.kind = kind

/-- Whether the limit has been reached. -/
def isFull (report : Report) : Bool :=
  report.limit ≠ 0 ∧ report.limit ≤ report.diagnostics.length

/-- Adds a diagnostic, or counts it if the report is full. -/
def add (report : Report) (diagnostic : Diagnostic) : Report :=
  if report.isFull then { report with omitted := report.omitted + 1 }
  else { report with diagnostics := report.diagnostics ++ [diagnostic] }

/-- Adds diagnostics in order. -/
def addAll (report : Report) (diagnostics : List Diagnostic) : Report :=
  diagnostics.foldl add report

/-- Takes over another report under the limit of this one. -/
def merge (report other : Report) : Report :=
  { report with omitted := report.omitted + other.omitted }.addAll other.diagnostics

/-- The report of these diagnostics. -/
def ofList (limit : Nat) (diagnostics : List Diagnostic) : Report :=
  (limited limit).addAll diagnostics

/-- The kept diagnostics and the number of the others. -/
def text (report : Report) : String :=
  if report.isClean then "verification succeeded"
  else
    String.join (report.diagnostics.map Diagnostic.text) ++
      if 0 < report.omitted then toString report.omitted ++ " more diagnostics omitted" else ""

end Report

end AdviceCompiler
