/-
Records as text: a name, then its fields between braces. Faults, settings,
instructions and whole machines are shown this way in logs and listings.
-/

namespace Chip8.Text

/-- A field of a record: its name and the text of its value. -/
abbrev Field := String × String

/-- The fields in order, each as `name: value`. -/
def fieldList (fields : List Field) : String :=
  ", ".intercalate (fields.map fun (name, value) => name ++ ": " ++ value)

/-- A record with all of its fields. One without fields is its name alone. -/
def record (name : String) (fields : List Field) : String :=
  if fields.isEmpty then name else name ++ " \x7b " ++ fieldList fields ++ " \x7d"

/-- A record that leaves some of its fields out, and says so by two dots. -/
def openRecord (name : String) (fields : List Field) : String :=
  name ++ " \x7b " ++ fieldList fields ++ ", .. \x7d"

/-- Values between square brackets. -/
def listing (items : List String) : String :=
  "[" ++ ", ".intercalate items ++ "]"

/-- The text between double quotes; a quote or a backslash inside gets a backslash. -/
def quoted (text : String) : String :=
  "\"" ++ String.ofList (text.toList.flatMap fun c =>
    if c == '"' || c == '\\' then ['\\', c] else [c]) ++ "\""

end Chip8.Text
