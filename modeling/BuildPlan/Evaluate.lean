import BuildPlan.Session.Load

/-! # Evaluating declarations

`evaluateFile` and `evaluateText` run declarations in a fresh session and answer the registry
that they filled.  An error of a declaration is told apart from all others
(`EvalError.ofFault`), however many functions it has passed through on its way out of included
files.  A panic that nothing caught is no error: there is no answer then. -/

namespace BuildPlan

/-- Why declarations could not be evaluated. -/
inductive EvalError where
  /-- A declaration was refused. -/
  | declaration (cause : PlanError)
  /-- Anything else went wrong. -/
  | script (cause : Fault)
deriving DecidableEq, Repr

namespace EvalError

/-- The error that a fault ends an evaluation with: that of the declaration behind it, if there is
one. -/
def ofFault (f : Fault) : EvalError :=
  match f.planError? with
  | some cause => .declaration cause
  | none => .script f

/-- The error of the declaration behind a failure, if there is one. -/
def planError? : EvalError → Option PlanError
  | .declaration cause => some cause
  | .script _ => none

/-- The sentence that tells the error to a user. -/
def message : EvalError → String
  | .declaration cause => "declaration error: " ++ cause.message
  | .script cause => "lua error: " ++ cause.describe

end EvalError

/-- How an evaluation ended, and what happened during it. -/
structure Evaluation where
  /-- The registry or the error; nothing if a panic broke the evaluation off. -/
  result : Option (Except EvalError Registry)
  printed : Bytes
  events : List Event

/-- The evaluation that a run in a fresh session is. -/
def Evaluation.ofRun (m : Machine) (x : Run Value) : Evaluation :=
  match x.perform (.start m) with
  | (some (.ok _), s) => ⟨some (.ok s.registry), s.printed, s.events.toList⟩
  | (some (.error f), s) => ⟨some (.error (.ofFault f)), s.printed, s.events.toList⟩
  | (none, s) => ⟨none, s.printed, s.events.toList⟩

/-- Evaluates a declaration file. -/
def evaluateFile (w : Workspace) (path : String) : Evaluation :=
  let e := Evaluation.ofRun w.machine (Run.loadFirst w path)
  match e.result with
  | some (.ok r) => { e with events := e.events ++ [.evaluated path r.size] }
  | _ => e

/-- Evaluates a text as declarations. -/
def evaluateText (w : Workspace) (source name : String) : Evaluation :=
  Evaluation.ofRun w.machine (Run.loadText w source name)

end BuildPlan
