/-!
Printed forms of composite values: a record with its fields in declaration order, a sequence in
brackets, a table in braces, and an optional value.
-/

namespace CoreEngines.Text

/-- A field as it appears inside a printed record. -/
structure Field where
  name : String
  text : String

def Field.print (field : Field) : String :=
  field.name ++ ": " ++ field.text

/-- Put `parts` in braces after `name`, separated by commas. -/
def braced (name : String) (parts : List String) : String :=
  name ++ " \x7b " ++ ", ".intercalate parts ++ " \x7d"

/-- A record that shows every field it has. -/
def record (name : String) (fields : List Field) : String :=
  braced name (fields.map Field.print)

/-- A record that keeps some fields to itself, which two dots stand for. -/
def openRecord (name : String) (fields : List Field) : String :=
  braced name (fields.map Field.print ++ [".."])

def sequence (entries : List String) : String :=
  "[" ++ ", ".intercalate entries ++ "]"

/-- A table from printed keys to printed values, in the order given. -/
def table (entries : List (String × String)) : String :=
  "\x7b" ++ ", ".intercalate (entries.map fun entry => entry.1 ++ ": " ++ entry.2) ++ "\x7d"

def optional : Option String → String
  | none => "None"
  | some text => "Some(" ++ text ++ ")"

def truth (value : Bool) : String :=
  if value then "true" else "false"

end CoreEngines.Text
