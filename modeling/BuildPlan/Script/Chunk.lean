import BuildPlan.Script.Value

/-! # Chunks of the script language

The text of a script, once read, is a chunk: statements in order and the expressions whose
values it answers.  The language has calls, assignments and local variables, and no loops,
branches or functions of its own, so every chunk ends after a number of steps that its text
bounds.  Lines are kept where a message names them: that of a call is where its arguments begin,
that of an index where its value was first needed. -/

namespace BuildPlan

mutual

/-- An expression. -/
inductive Expr where
  | literal (v : Value)
  /-- A local variable, if one of this name is in scope, else a global one. -/
  | name (n : String)
  | index (base key : Expr) (line : Nat)
  | call (callee : Expr) (arguments : List Expr) (line : Nat)
  /-- An expression in parentheses has one value. -/
  | single (e : Expr)
  /-- Two or more operands joined to one string; `line` is that of the last operator. -/
  | join (operands : List Expr) (line : Nat)
  | table (fields : List Field)

/-- A field of a table that is being made. -/
inductive Field where
  /-- A value at the next free position, counted from 1. -/
  | item (value : Expr)
  | keyed (key value : Expr) (line : Nat)

end

/-- What a value can be assigned to. -/
inductive Target where
  | name (n : String)
  | field (base key : Expr)

/-- A statement. -/
inductive Statement where
  | call (e : Expr)
  | declare (names : List String) (values : List Expr)
  | assign (targets : List Target) (values : List Expr) (line : Nat)

/-- A script: what it does and what it answers. -/
structure Chunk where
  statements : List Statement
  answers : List Expr

namespace Expr

/-- The expression as it is looked up on `line`. -/
def onLine (line : Nat) : Expr → Expr
  | .index base key _ => .index base key line
  | e => e

/-- The expression in parentheses: one that may have several values, or could be assigned to,
becomes a single value. -/
def enclosed : Expr → Expr
  | .name n => .single (.name n)
  | .index base key line => .single (.index base key line)
  | .call callee arguments line => .single (.call callee arguments line)
  | e => e

/-- The expression without parentheses around it. -/
def bare : Expr → Expr
  | .single e => e.bare
  | e => e

/-- Two operands joined by a join on `line`.  Joins on the right are carried out together with
this one, on the line of the last. -/
def joined (left right : Expr) (line : Nat) : Expr :=
  match right with
  | .join operands last => .join (left :: operands) last
  | e => .join [left, e] line

/-- What a value can be assigned to, if the expression is a variable or a field. -/
def target? : Expr → Option Target
  | .name n => some (.name n)
  | .index base key _ => some (.field base key)
  | _ => none

end Expr

end BuildPlan
