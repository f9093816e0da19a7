/-
ParticleStore.Report — the layout of reports on values.

A report names a value's type and shows every part of it:
`PoolId(1)`, `Point([1.0, 2.0])`, `Pair { left: 0, right: Some(1) }`, `None`. A
type's own `report` function says which parts are shown; the layout is the same
for all of them and stands here.
-/

namespace ParticleStore.Report

/-- The parts with `, ` between them. -/
def joined (parts : List String) : String := String.intercalate ", " parts

/-- A list: `[1.0, 2.0]`. -/
def list (parts : List String) : String := "[" ++ joined parts ++ "]"

/-- A name applied to unnamed parts: `PoolId(1)`. -/
def applied (name : String) (parts : List String) : String := name ++ "(" ++ joined parts ++ ")"

/-- A name with named parts in braces. -/
def fields (name : String) (parts : List (String × String)) : String :=
  name ++ " \x7b " ++ joined (parts.map fun part => part.1 ++ ": " ++ part.2) ++ " \x7d"

/-- A value that may be missing: `None`, `Some(3)`. -/
def optional : Option String → String
  | none => "None"
  | some part => applied "Some" [part]

/-- How a character stands inside quotation marks. -/
def escaped : Char → String
  | '"' => "\\\""
  | '\\' => "\\\\"
  | '\n' => "\\n"
  | '\r' => "\\r"
  | '\t' => "\\t"
  | c => String.ofList [c]

/-- A text in quotation marks. -/
def quoted (s : String) : String := "\"" ++ String.join (s.toList.map escaped) ++ "\""

end ParticleStore.Report
