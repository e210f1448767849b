import BuildPlan.Script.Chunk.Reader

/-! # Operands

An expression that was read is not carried out at once: a constant stays one, and a variable or
field is looked up when its value is needed, on the line that the reader has reached by then.
`Operand.settle` looks it up, `Operand.hold` brings the value into some register, and
`Operand.push` into the next one that is free. -/

namespace BuildPlan

/-- Where the value of an expression is. -/
inductive Place where
  /-- It is known from the text. -/
  | constant (v : Value)
  /-- In the register of a local variable. -/
  | scope
  /-- In the register that was taken into use last. -/
  | register
  /-- It is still to be looked up, for which the last registers in use are needed. -/
  | field (registers : Nat)
  /-- It is the first of the answers of a call, the others of which may be wanted as well. -/
  | answers
  /-- It was looked up and is in no register yet. -/
  | loose

/-- The registers that are in use for a value. -/
def Place.registers : Place → Nat
  | .register | .answers => 1
  | .field registers => registers
  | .constant _ | .scope | .loose => 0

/-- An expression that was read. -/
structure Operand where
  expr : Expr
  place : Place

namespace Operand

/-- The longest name, in bytes, under which a field can be looked up directly. -/
def nameLimit : Nat := 40

/-- A constant. -/
def constant (v : Value) : Operand := ⟨.literal v, .constant v⟩

/-- Looks the value up, if that is still to be done; of the answers of a call one is kept. -/
def settle (o : Operand) : Reader Operand := do
  match o.place with
  | .field registers =>
      Reader.release registers
      return ⟨o.expr.onLine (← get).line, .loose⟩
  | .answers => return { o with place := .register }
  | _ => return o

/-- Brings the value into the next register. -/
def push (o : Operand) : Reader Operand := do
  let o ← o.settle
  Reader.release o.place.registers
  Reader.reserve 1
  match o.place with
  | .constant v => Reader.noteLoaded v
  | _ => pure ()
  return { o with place := .register }

/-- Brings the value into a register, unless it is in one. -/
def hold (o : Operand) : Reader Operand := do
  let o ← o.settle
  match o.place with
  | .scope | .register => return o
  | _ => o.push

/-- Brings the value into a register, unless it is in one or is a constant that can be named. -/
def keep (o : Operand) : Reader Operand := do
  match o.place with
  | .constant v => if ← Reader.note v then return o else o.push
  | _ => o.hold

/-- Brings a key into a register, unless it is a constant under which fields are looked up
directly. -/
def keepKey (key : Operand) : Reader Operand := do
  match key.place with
  | .constant (.string bytes) =>
      let first ← Reader.note (.string bytes)
      if first && bytes.length ≤ nameLimit then return key else key.push
  | .constant (.integer i) => if 0 ≤ i ∧ i < 256 then return key else key.hold
  | _ => key.hold

/-- The field of a table, both of which are held. -/
def index (base key : Operand) : Reader Operand := do
  let key ← key.keepKey
  return ⟨.index base.expr key.expr (← get).line,
    .field (base.place.registers + key.place.registers)⟩

/-- A variable: a local one if one of the name is in scope, else a field of the table of global
variables. -/
def ofName (n : String) : Reader Operand := do
  if (← get).scope.contains n then return ⟨.name n, .scope⟩
  let first ← Reader.note (.text n)
  if first && n.utf8ByteSize ≤ nameLimit then return ⟨.name n, .field 0⟩
  Reader.reserve 2
  return ⟨.name n, .field 2⟩

/-- The number with the other sign.  It is a constant as well, except for a zero in floating
point, whose sign is changed in a register. -/
def negate (o : Operand) : Reader Operand := do
  match o.place with
  | .constant v =>
      match Numeral.negate? v with
      | none => Reader.refuse .malformed
      | some (.number x) =>
          if x.toInt? = some 0 then
            let _ ← o.push
            Reader.release 1
            return ⟨.literal (.number x), .loose⟩
          else return constant (.number x)
      | some v => return constant v
  | _ => Reader.refuse .malformed

/-- Two operands joined to one string, from the registers in which they are to the first of
these. -/
def join (left right : Operand) (line : Nat) : Reader Operand := do
  let right ← right.push
  Reader.release 1
  return ⟨left.expr.joined right.expr line, .register⟩

/-- The value in parentheses. -/
def enclose (o : Operand) : Reader Operand := do
  let o ← o.settle
  return { o with expr := o.expr.enclosed }

/-- Whether the answers of a call are open in number. -/
def isCall (o : Operand) : Bool :=
  match o.place with
  | .answers => true
  | _ => false

end Operand

end BuildPlan
