import BuildPlan.Binary64
import BuildPlan.Script.Fault
import BuildPlan.Text.Blank

/-! # Values of scripts

The values that scripts compute with, tables, and the heap that holds the tables, so that two
variables can share one.  A table keeps no field with the value nil, and a number with a whole
value is the same key as that integer (`Value.key`).  Tables, faults, panics and idle functions
that were made apart are different values, also when they are alike: a table has a place of its
own, any other of them a serial number. -/

namespace BuildPlan

/-- The functions that scripts can call. -/
inductive Builtin where
  /-- Declares a project. -/
  | project
  /-- Declares a composite. -/
  | compositeTarget
  /-- Runs another declaration file. -/
  | include
  /-- Raises its argument. -/
  | raise
  /-- Calls a function and catches what it raises. -/
  | protect
  /-- Answers the text of its argument. -/
  | describe
  /-- Prints the texts of its arguments. -/
  | print
  /-- What strings have as the field of a name.  The scripts considered here only hand it on; what
  a call of it would do is left out, and a call does nothing. -/
  | textField (name : String)
  /-- Does nothing. -/
  | idle (serial : Nat)
deriving DecidableEq, Repr

/-- The place of a table in the heap. -/
structure Ref where
  index : Nat
deriving DecidableEq, Repr

/-- A value of a script.  Integers are those of 64 bits: numerals are read so, and nothing
here computes with them. -/
inductive Value where
  | nil
  | boolean (b : Bool)
  | integer (i : Int)
  | number (x : Binary64)
  | string (bytes : Bytes)
  | table (r : Ref)
  | function (f : Builtin)
  | fault (serial : Nat) (f : Fault)
  /-- A failure of the program itself, which goes on in the program when that takes the value. -/
  | panic (serial : Nat)
deriving DecidableEq, Repr

instance : Inhabited Value := ⟨.nil⟩

namespace Value

/-- A string value. -/
def text (s : String) : Value := .string (Utf8.encode s)

/-- The type of a value. -/
def type : Value → ValueType
  | .nil => .nil
  | .boolean _ => .boolean
  | .integer _ => .integer
  | .number _ => .number
  | .string _ => .string
  | .table _ => .table
  | .function _ => .function
  | .fault _ _ => .fault
  | .panic _ => .fault

/-- The value under which a field is kept: a number with the value of an integer is that
integer. -/
def key : Value → Value
  | .number x =>
      match x.toInt? with
      | some i => if -0x8000000000000000 ≤ i ∧ i < 0x8000000000000000 then .integer i else .number x
      | none => .number x
  | v => v

/-- The bytes of a value that can be joined to a string. -/
def bytes? : Value → Option Bytes
  | .string bytes => some bytes
  | .integer i => some (Utf8.encode (toString i))
  | .number x => some (Utf8.encode x.text)
  | _ => none

/-- The text of a string or number. -/
def toText (v : Value) : Except ConversionFault String :=
  match v.bytes? with
  | none => .error (.notText v.type)
  | some bytes => (Utf8.decode bytes).mapError .badText

/-- The table that a value stands for. -/
def toTable (v : Value) : Except ConversionFault Ref :=
  match v with
  | .table r => .ok r
  | v => .error (.notTable v.type)

/-- The names of the fields that strings have. -/
def textFields : List String := ["byte", "char", "dump", "find", "format", "gmatch", "gsub", "len",
  "lower", "match", "pack", "packsize", "rep", "reverse", "sub", "unpack", "upper"]

/-- The field of a string under a key, the same for all strings; nil if strings have none. -/
def textField (k : Value) : Value :=
  match textFields.find? fun name => text name = k with
  | some name => .function (.textField name)
  | none => .nil

/-- The value that a script gets back for one that the program took from it: a fault is a new one
with a new serial number, and a panic has gone on. -/
def renewed (n : Nat) : Value → Value
  | .fault _ f => .fault n f
  | .panic _ => .nil
  | v => v

end Value

/-- A table: its fields, the latest set first, each key once and no value nil. -/
structure Table where
  fields : List (Value × Value)
deriving DecidableEq, Repr

namespace Table

/-- The table without fields. -/
def empty : Table := ⟨[]⟩

instance : Inhabited Table := ⟨empty⟩

/-- The value of a field, nil if it was never set. -/
def get (t : Table) (k : Value) : Value := (t.fields.lookup k.key).getD .nil

/-- The table without a field. -/
def erase (t : Table) (k : Value) : Table := ⟨t.fields.filter fun field => field.1 ≠ k.key⟩

/-- The table with a field set; nil removes it. -/
def set (t : Table) (k v : Value) : Table :=
  if v = .nil then t.erase k else ⟨(k.key, v) :: (t.erase k).fields⟩

/-- The table with values at consecutive integers from `start` on. -/
def setFrom (t : Table) (start : Nat) : List Value → Table
  | [] => t
  | v :: vs => (t.set (.integer start) v).setFrom (start + 1) vs

/-- The values at the integers from `start` on up to the first nil, at most `limit` of them. -/
def valuesFrom (t : Table) (start : Nat) : Nat → List Value
  | 0 => []
  | limit + 1 =>
      match t.get (.integer start) with
      | .nil => []
      | v => v :: t.valuesFrom (start + 1) limit

/-- The values at 1, 2, ... up to the first nil. -/
def sequence (t : Table) : List Value := t.valuesFrom 1 t.fields.length

/-- Whether a table can keep a field under a value. -/
def canKey : Value → Bool
  | .nil => false
  | .number (.nan _) => false
  | _ => true

theorem get_erase_self (t : Table) (k : Value) : (t.erase k).get k = .nil := by
  have : (t.erase k).fields.lookup k.key = none := by
    rw [List.lookup_eq_none_iff]
    intro field hf
    have hne : ¬field.1 = k.key := by simpa using (List.mem_filter.1 hf).2
    exact bne_iff_ne.2 fun e => hne e.symm
  rw [get, this]
  rfl

theorem get_erase_of_ne (t : Table) {k j : Value} (h : j.key ≠ k.key) :
    (t.erase k).get j = t.get j := by
  have hrest : ∀ fs : List (Value × Value),
      (fs.filter fun field => field.1 ≠ k.key).lookup j.key = fs.lookup j.key := by
    intro fs
    induction fs with
    | nil => rfl
    | cons f fs ih =>
        by_cases hf : f.1 = k.key
        · rw [List.filter_cons_of_neg (by simpa using hf), ih, List.lookup_cons,
            show (j.key == f.1) = false from by simpa [hf] using h]
        · rw [List.filter_cons_of_pos (by simpa using hf), List.lookup_cons, List.lookup_cons, ih]
  exact congrArg (Option.getD · Value.nil) (hrest t.fields)

/-- A field holds what was set last. -/
theorem get_set_self (t : Table) (k v : Value) : (t.set k v).get k = v := by
  unfold set
  by_cases hv : v = .nil
  · rw [if_pos hv, get_erase_self, hv]
  · rw [if_neg hv, get, List.lookup_cons_self]
    rfl

/-- Setting a field changes no other. -/
theorem get_set_of_ne (t : Table) {k j : Value} (v : Value) (h : j.key ≠ k.key) :
    (t.set k v).get j = t.get j := by
  unfold set
  by_cases hv : v = .nil
  · rw [if_pos hv, get_erase_of_ne t h]
  · rw [if_neg hv, get, List.lookup_cons, show (j.key == k.key) = false from by simpa using h]
    exact get_erase_of_ne t h

end Table

/-- The tables that were made during a run. -/
structure Heap where
  tables : Array Table

namespace Heap

/-- The heap without tables. -/
def empty : Heap := ⟨#[]⟩

/-- The table at a place. -/
def get (h : Heap) (r : Ref) : Table := h.tables[r.index]?.getD .empty

/-- The heap with another table at a place. -/
def set (h : Heap) (r : Ref) (t : Table) : Heap := ⟨h.tables.setIfInBounds r.index t⟩

/-- The heap with one more table, and its place. -/
def alloc (h : Heap) (t : Table) : Heap × Ref := (⟨h.tables.push t⟩, ⟨h.tables.size⟩)

end Heap

end BuildPlan
