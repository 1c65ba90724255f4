/-
**The form of printed reports.**

Reports are printed as JSON, indented by two spaces, with the members of an object in the order in
which they are given.  Characters above the control characters are printed as they are.

Main definitions:

* `Allotment.Json` — the values of a report;
* `Allotment.Json.print` — their printed form.
-/

set_option relaxedAutoImplicit false
set_option autoImplicit false

namespace Allotment

/-- A value of a report. -/
inductive Json where
  /-- A truth value. -/
  | bool (b : Bool)
  /-- A number. -/
  | num (n : Nat)
  /-- A text. -/
  | str (s : String)
  /-- A sequence. -/
  | arr (elements : List Json)
  /-- An object with named members. -/
  | obj (members : List (String × Json))

namespace Json

/-- The hexadecimal digits of a byte. -/
def hexByte (n : Nat) : String :=
  String.ofList [Nat.digitChar (n / 16 % 16), Nat.digitChar (n % 16)]

/-- How a character stands in a printed text. -/
def escape (c : Char) : String :=
  if c = '"' then "\\\""
  else if c = '\\' then "\\\\"
  else if c = '\x08' then "\\b"
  else if c = '\t' then "\\t"
  else if c = '\n' then "\\n"
  else if c = '\x0c' then "\\f"
  else if c = '\r' then "\\r"
  else if c.toNat < 0x20 then "\\u00" ++ hexByte c.toNat
  else c.toString

/-- The printed form of a text. -/
def quote (s : String) : String :=
  s.toList.foldl (fun r c => r ++ escape c) "\"" ++ "\""

/-- A new line at a depth of indentation. -/
def newLine (depth : Nat) : String := String.ofList ('\n' :: List.replicate (2 * depth) ' ')

/-- Encloses parts in a pair of brackets, each part on a line of its own. -/
def enclose (left right : String) (depth : Nat) (parts : List String) : String :=
  if parts.isEmpty then left ++ right
  else left ++ newLine (depth + 1) ++ String.intercalate ("," ++ newLine (depth + 1)) parts ++
    newLine depth ++ right

mutual

/-- The printed form of a value at a depth of indentation. -/
def printAt (depth : Nat) : Json → String
  | bool true => "true"
  | bool false => "false"
  | num n => toString n
  | str s => quote s
  | arr elements => enclose "[" "]" depth (printElements (depth + 1) elements)
  | obj members => enclose "\x7b" "\x7d" depth (printMembers (depth + 1) members)

/-- The printed forms of the elements of a sequence. -/
def printElements (depth : Nat) : List Json → List String
  | [] => []
  | j :: js => printAt depth j :: printElements depth js

/-- The printed forms of the members of an object. -/
def printMembers (depth : Nat) : List (String × Json) → List String
  | [] => []
  | (name, j) :: ms => (quote name ++ ": " ++ printAt depth j) :: printMembers depth ms

end

/-- The printed form of a report. -/
def print (j : Json) : String := printAt 0 j

end Json

end Allotment
