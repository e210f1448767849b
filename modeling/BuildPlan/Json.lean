import BuildPlan.Json.Quoted

/-! # JSON values and their texts

The values that plans and descriptors are written as: texts, arrays, and objects whose members
keep their order.  `compact` is the text without any white space, from which digests are taken;
`pretty` puts every item and member on a line of its own, two columns further in. -/

namespace BuildPlan

/-- A JSON value of the kinds that are written. -/
inductive Json where
  | text (s : String)
  | array (items : List Json)
  | object (members : List (String × Json))

namespace Json

/-- An array of texts. -/
def texts (ss : List String) : Json := .array (ss.map .text)

mutual

/-- The compact text of a value. -/
def write : Json → List Char
  | .text s => Quoted.encode s.toList
  | .array items => '[' :: (writeItems items ++ [']'])
  | .object members => '\x7b' :: (writeMembers members ++ ['\x7d'])

/-- The items of an array, with commas between them. -/
def writeItems : List Json → List Char
  | [] => []
  | v :: vs => write v ++ writeMoreItems vs

/-- The items after the first, each behind a comma. -/
def writeMoreItems : List Json → List Char
  | [] => []
  | v :: vs => ',' :: (write v ++ writeMoreItems vs)

/-- The members of an object, with commas between them. -/
def writeMembers : List (String × Json) → List Char
  | [] => []
  | (k, v) :: ms => Quoted.encode k.toList ++ ':' :: (write v ++ writeMoreMembers ms)

/-- The members after the first, each behind a comma. -/
def writeMoreMembers : List (String × Json) → List Char
  | [] => []
  | (k, v) :: ms => ',' :: (Quoted.encode k.toList ++ ':' :: (write v ++ writeMoreMembers ms))

end

/-- The text of a value without white space. -/
def compact (v : Json) : String := String.ofList (write v)

/-- The start of a line at a given depth. -/
def newline (depth : Nat) : List Char := '\n' :: List.replicate (2 * depth) ' '

mutual

/-- The text of a value over several lines, inside `depth` brackets. -/
def writePretty (depth : Nat) : Json → List Char
  | .text s => Quoted.encode s.toList
  | .array [] => ['[', ']']
  | .array (v :: vs) =>
      '[' :: (newline (depth + 1) ++ writePretty (depth + 1) v ++ prettyItems depth vs
        ++ newline depth ++ [']'])
  | .object [] => ['\x7b', '\x7d']
  | .object ((k, v) :: ms) =>
      '\x7b' :: (newline (depth + 1) ++ Quoted.encode k.toList ++ [':', ' ']
        ++ writePretty (depth + 1) v ++ prettyMembers depth ms ++ newline depth ++ ['\x7d'])

/-- The items after the first. -/
def prettyItems (depth : Nat) : List Json → List Char
  | [] => []
  | v :: vs => ',' :: (newline (depth + 1) ++ writePretty (depth + 1) v ++ prettyItems depth vs)

/-- The members after the first. -/
def prettyMembers (depth : Nat) : List (String × Json) → List Char
  | [] => []
  | (k, v) :: ms =>
      ',' :: (newline (depth + 1) ++ Quoted.encode k.toList ++ [':', ' ']
        ++ writePretty (depth + 1) v ++ prettyMembers depth ms)

end

/-- The text of a value with one item or member a line. -/
def pretty (v : Json) : String := String.ofList (writePretty 0 v)

end Json

/-- The text that a JSON text stands for, if it is one quoted string. -/
def readJsonText? (source : String) : Option String :=
  (Json.Quoted.decode? source.toList).map String.ofList

end BuildPlan
