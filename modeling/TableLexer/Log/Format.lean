import TableLexer.Log.Event

/-!
# Log lines

An event is printed on a line in one of three formats. In the two plain formats a
field called `message` is printed without its name, and the control characters in
it that a terminal would act on are made visible.
-/

namespace TableLexer

inductive LogFormat where
  | pretty
  | compact
  | json
  deriving DecidableEq, Repr

namespace LogFormat

/-- The code of `c` in at least `width` hexadecimal digits. -/
def hexCode (width : Nat) (c : Char) : String :=
  let digits := Nat.toDigits 16 c.toNat
  String.ofList (List.replicate (width - digits.length) '0' ++ digits)

/-- Bell, backspace, form feed, escape, delete and the second block of controls are
written by number. -/
def visible (c : Char) : String :=
  if c = '\x07' ∨ c = '\x08' ∨ c = '\x0c' ∨ c = '\x1b' ∨ c = '\x7f' then "\\x" ++ hexCode 2 c
  else if '\x80' ≤ c ∧ c.toNat ≤ 0x9f then "\\u\x7b" ++ hexCode 0 c ++ "\x7d"
  else c.toString

def visibleText (s : String) : String := String.join (s.toList.map visible)

/-- A field in a plain format, with `sign` between name and value. -/
def plainField (sign : String) (field : String × Value) : String :=
  if field.1 = "message" then visibleText field.2.toText else field.1 ++ sign ++ field.2.toText

def alignRight (width : Nat) (s : String) : String :=
  String.ofList (List.replicate (width - s.length) ' ') ++ s

def jsonChar (c : Char) : String :=
  if c = '"' then "\\\""
  else if c = '\\' then "\\\\"
  else if c = '\n' then "\\n"
  else if c = '\r' then "\\r"
  else if c = '\t' then "\\t"
  else if c = '\x08' then "\\b"
  else if c = '\x0c' then "\\f"
  else if c.toNat < 0x20 then "\\u" ++ hexCode 4 c
  else c.toString

def jsonString (s : String) : String := "\"" ++ String.join (s.toList.map jsonChar) ++ "\""

def jsonValue : Value → String
  | .text s => jsonString s
  | .number n => describe n
  | .flag b => describe b

def jsonObject (members : List (String × String)) : String :=
  "\x7b" ++ String.intercalate "," (members.map fun m => jsonString m.1 ++ ":" ++ m.2) ++ "\x7d"

/-- Of several fields with one name the last is kept. -/
def lastOfEach : List (String × Value) → List (String × Value)
  | [] => []
  | field :: fields =>
    if fields.any fun later => later.1 == field.1 then lastOfEach fields
    else field :: lastOfEach fields

def line {α : Type} [Described α] (format : LogFormat) (e : Event α) : String :=
  match format with
  | .compact =>
    alignRight 5 e.level.upperName ++ " " ++
      String.intercalate " " (e.fields.map (plainField "="))
  | .pretty =>
    alignRight 5 e.level.upperName ++ " " ++ e.phase.target ++ ": " ++
      String.intercalate ", " (e.fields.map (plainField ": "))
  | .json =>
    jsonObject
      [("level", jsonString e.level.upperName),
        ("fields", jsonObject ((lastOfEach e.fields).map fun f => (f.1, jsonValue f.2))),
        ("target", jsonString e.phase.target)]

end LogFormat

end TableLexer
