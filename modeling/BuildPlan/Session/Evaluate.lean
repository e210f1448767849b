import BuildPlan.Script.Chunk
import BuildPlan.Session.Call

/-! # Evaluating chunks

Every expression answers a list of values: a call as many as its function answers, any other
expression one.  A list of expressions takes the first value of each and all of the last one.
The functions follow the text, so evaluation ends; only including a file leads to another text,
and that is the loader's part. -/

namespace BuildPlan

/-- The first of the values of an expression. -/
def firstValue (vs : List Value) : Value := vs.headD .nil

/-- The local variables in scope, the latest first. -/
abbrev Locals := List (String × Value)

/-- The local variables with a new value for one that is in scope. -/
def Locals.assign (n : String) (v : Value) : Locals → Locals
  | [] => []
  | (m, w) :: rest => if m = n then (m, v) :: rest else (m, w) :: Locals.assign n v rest

/-- Where a chunk is evaluated: the name it is shown under, its callers, the loader, and how many
levels may still be opened. -/
structure Activation where
  chunk : Bytes
  callers : List Caller
  load : Loader
  room : Nat

/-- What is known of where an expression takes its value from, for complaints about it. -/
def Expr.origin (env : Locals) : Expr → Option Origin
  | .name n =>
      some ⟨if (env.lookup n).isSome then "local" else "global", Utf8.encode n⟩
  | .index _ (.literal (.string k)) _ => some ⟨"field", k⟩
  | .index _ (.literal (.integer i)) _ =>
      some ⟨"field", Utf8.encode (if 0 ≤ i ∧ i < 256 then "integer index" else "?")⟩
  | .index _ _ _ => some ⟨"field", Utf8.encode "?"⟩
  | .literal (.string k) => some ⟨"constant", k⟩
  | .single e => e.origin env
  | _ => none

/-- A table that is being made: its fields so far, the number of items among them, and the
items that were evaluated but not stored yet, the latest first. -/
structure Making where
  table : Table
  stored : Nat
  pending : List Value

namespace Making

/-- The table before any field. -/
def start : Making := ⟨.empty, 0, []⟩

/-- Stores the pending items. -/
def flush (m : Making) : Making :=
  ⟨m.table.setFrom (m.stored + 1) m.pending.reverse, m.stored + m.pending.length, []⟩

/-- How many items are stored at a time. -/
def batch : Nat := 50

/-- Stores the pending items if they are as many as are stored at a time. -/
def prepare (m : Making) : Making := if m.pending.length = batch then m.flush else m

/-- Adds items. -/
def add (m : Making) (vs : List Value) : Making := { m with pending := vs.reverse ++ m.pending }

end Making

namespace Activation

/-- The callers of a function that the chunk calls at a line. -/
def callersAt (a : Activation) (line : Nat) (origin : Option Origin) : List Caller :=
  .script a.chunk line (origin.map Origin.shownName) :: a.callers

/-- Raises a complaint at a line.  On the last level there is no room for one. -/
def complain {α : Type} (a : Activation) (line : Nat) (message : Bytes) : Run α :=
  Run.complain (a.callersAt line none)
    (if a.room = 0 then Run.exhaustedText else message)

/-- Raises a complaint about the type of a value at a line. -/
def reject {α : Type} (a : Activation) (line : Nat) (action : String) (v : Value)
    (origin : Option Origin) : Run α :=
  a.complain line (Run.typeMessage action v origin)

/-- The value of a field; of other values than tables only strings have fields. -/
def look (a : Activation) (line : Nat) (origin : Option Origin) : Value → Value → Run Value
  | .table r, k => Run.getField r k
  | .string _, k => return k.textField
  | v, _ => a.reject line "index" v origin

/-- Raises a complaint about a value that no table can have as a key. -/
def checkKey (a : Activation) (line : Nat) (k : Value) : Run Unit :=
  if Table.canKey k then return ()
  else
    a.complain line
      (Utf8.encode (if k = .nil then "table index is nil" else "table index is NaN"))

/-- Sets a field. -/
def store (a : Activation) (line : Nat) (origin : Option Origin) : Value → Value → Value → Run Unit
  | .table r, k, v => do a.checkKey line k; Run.setField r k v
  | w, _, _ => a.reject line "index" w origin

/-- Calls a value that a script finds at a line.  On the last level there is no room for what a
function raises. -/
def call (a : Activation) (line : Nat) (origin : Option Origin) (f : Value)
    (arguments : List Value) : Run (List Value) :=
  match f with
  | .function _ => do
      match ← Run.attempt (Run.call a.load a.room (a.callersAt line origin) f arguments) with
      | .ok answers => return answers
      | .error v => throw (if a.room = 0 then Run.exhausted else v)
  | v => a.reject line "call" v origin

/-- Joins operands to one string, from the right: the last two are looked at first, the left one
of them before the right one. -/
def join (a : Activation) (line : Nat) (operands : List (Value × Option Origin)) : Run Value :=
  let order := match operands.reverse with
    | last :: previous :: rest => previous :: last :: rest
    | rest => rest
  match order.find? (fun operand => operand.1.bytes?.isNone) with
  | some (v, origin) => a.reject line "concatenate" v origin
  | none => return .string (operands.flatMap fun operand => operand.1.bytes?.getD [])

/-- The value of a variable: local if one is in scope, else global. -/
def lookUp (env : Locals) (n : String) : Run Value :=
  match env.lookup n with
  | some v => return v
  | none => do
      let s ← get
      return s.globals.get (.text n)

mutual

/-- The values of an expression. -/
def eval (a : Activation) (env : Locals) : Expr → Run (List Value)
  | .literal v => return [v]
  | .name n => return [← lookUp env n]
  | .index base key line => do
      let b := firstValue (← eval a env base)
      let k := firstValue (← eval a env key)
      return [← a.look line (base.origin env) b k]
  | .call callee arguments line => do
      let f := firstValue (← eval a env callee)
      let vs ← evalList a env arguments
      a.call line (callee.origin env) f vs
  | .single e => return [firstValue (← eval a env e)]
  | .join operands line => do
      let vs ← evalEach a env operands
      return [← a.join line (vs.zip (operands.map (Expr.origin env)))]
  | .table fields => do
      let t ← evalFields a env .start fields
      return [← Run.newTable t]

/-- The first values of expressions, and all values of the last one. -/
def evalList (a : Activation) (env : Locals) : List Expr → Run (List Value)
  | [] => return []
  | e :: es => do
      let vs ← eval a env e
      if es.isEmpty then return vs else return firstValue vs :: (← evalList a env es)

/-- The first values of expressions. -/
def evalEach (a : Activation) (env : Locals) : List Expr → Run (List Value)
  | [] => return []
  | e :: es => do
      let v := firstValue (← eval a env e)
      return v :: (← evalEach a env es)

/-- The table with fields; all values of an item at the end belong to it. -/
def evalFields (a : Activation) (env : Locals) (m : Making) : List Field → Run Table
  | [] => return m.flush.table
  | .item e :: fields => do
      let m := m.prepare
      let vs ← eval a env e
      if fields.isEmpty then return (m.add vs).flush.table
      else evalFields a env (m.add [firstValue vs]) fields
  | .keyed key value line :: fields => do
      let m := m.prepare
      let k := firstValue (← eval a env key)
      let v := firstValue (← eval a env value)
      a.checkKey line k
      evalFields a env { m with table := m.table.set k v } fields

end

/-- A target whose table and key are known. -/
inductive Slot where
  | name (n : String)
  | field (base : Value) (origin : Option Origin) (key : Value)

/-- Finds the table and the key of each target. -/
def slots (a : Activation) (env : Locals) : List Target → Run (List Slot)
  | [] => return []
  | .name n :: targets => return .name n :: (← slots a env targets)
  | .field base key :: targets => do
      let b := firstValue (← eval a env base)
      let k := firstValue (← eval a env key)
      return .field b (base.origin env) k :: (← slots a env targets)

/-- Assigns values to targets, the last one first; missing values are nil. -/
def assign (a : Activation) (line : Nat) (env : Locals) : List Slot → List Value → Run Locals
  | [], _ => return env
  | slot :: slots, vs => do
      let env ← assign a line env slots vs.tail
      let v := firstValue vs
      match slot with
      | .name n =>
          if (env.lookup n).isSome then return env.assign n v
          modify fun s => { s with globals := s.globals.set (.text n) v }
          return env
      | .field base origin key =>
          a.store line origin base key v
          return env

/-- Brings local variables into scope, the last one innermost; missing values are nil. -/
def declare (env : Locals) : List String → List Value → Locals
  | [], _ => env
  | n :: ns, vs => declare ((n, firstValue vs) :: env) ns vs.tail

/-- Carries a statement out. -/
def exec (a : Activation) (env : Locals) : Statement → Run Locals
  | .call e => do
      let _ ← eval a env e
      return env
  | .declare ns es => do
      let vs ← evalList a env es
      return declare env ns vs
  | .assign targets es line => do
      let slots ← slots a env targets
      let vs ← evalList a env es
      a.assign line env slots vs

/-- Carries statements out one after the other. -/
def execAll (a : Activation) (env : Locals) : List Statement → Run Locals
  | [] => return env
  | s :: ss => do
      let env ← a.exec env s
      a.execAll env ss

/-- Evaluates a chunk: its statements, then its answers. -/
def run (a : Activation) (c : Chunk) : Run (List Value) := do
  let env ← a.execAll [] c.statements
  a.evalList env c.answers

end Activation

end BuildPlan
