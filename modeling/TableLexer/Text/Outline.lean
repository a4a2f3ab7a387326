import TableLexer.Text.Quoted

/-!
# Outlines of values

An outline is the shape of a printed value: plain text, a named entry, or a
bracketed group. It is written either on one line or with one item a line, four
more spaces for each level and a comma after every item. `Described` gives the
outline of a type's values.
-/

namespace TableLexer

/-- The brackets around a group of items. -/
inductive Bracket where
  | round (name : String)
  | curly (name : String)
  | square
  deriving DecidableEq, Repr

namespace Bracket

def opening : Bracket → String
  | .round name => name ++ "("
  | .curly name => name ++ " \x7b"
  | .square => "["

def closing : Bracket → String
  | .round _ => ")"
  | .curly _ => "\x7d"
  | .square => "]"

/-- What stands between a bracket and the items on one line. -/
def padding : Bracket → String
  | .curly _ => " "
  | _ => ""

/-- A group without items: its name alone, or an empty pair of square brackets. -/
def empty : Bracket → String
  | .round name => name
  | .curly name => name
  | .square => "[]"

end Bracket

inductive Outline where
  | atom (text : String)
  | entry (key : String) (value : Outline)
  | group (bracket : Bracket) (items : List Outline)

namespace Outline

def tuple (name : String) (items : List Outline) : Outline := .group (.round name) items

def record (name : String) (fields : List (String × Outline)) : Outline :=
  .group (.curly name) (fields.map fun f => .entry f.1 f.2)

def list (items : List Outline) : Outline := .group .square items

mutual

/-- The outline on one line. -/
def inline : Outline → String
  | .atom text => text
  | .entry key value => key ++ ": " ++ value.inline
  | .group bracket [] => bracket.empty
  | .group bracket (item :: items) =>
    bracket.opening ++ bracket.padding ++ item.inline ++ inlineRest items ++
      bracket.padding ++ bracket.closing

def inlineRest : List Outline → String
  | [] => ""
  | item :: items => ", " ++ item.inline ++ inlineRest items

end

def margin (depth : Nat) : String := String.ofList (List.replicate (4 * depth) ' ')

mutual

/-- The outline over several lines, its first line already at `depth`. -/
def expandedAt (depth : Nat) : Outline → String
  | .atom text => text
  | .entry key value => key ++ ": " ++ value.expandedAt depth
  | .group bracket [] => bracket.empty
  | .group bracket (item :: items) =>
    bracket.opening ++ "\n" ++ margin (depth + 1) ++ item.expandedAt (depth + 1) ++ ",\n" ++
      expandedRest (depth + 1) items ++ margin depth ++ bracket.closing

def expandedRest (depth : Nat) : List Outline → String
  | [] => ""
  | item :: items => margin depth ++ item.expandedAt depth ++ ",\n" ++ expandedRest depth items

end

def expanded (o : Outline) : String := o.expandedAt 0

end Outline

/-- Types whose values have an outline. -/
class Described (α : Type) where
  outline : α → Outline

export Described (outline)

/-- The one-line text of a value. -/
def describe {α : Type} [Described α] (a : α) : String := (outline a).inline

instance : Described String := ⟨fun s => .atom (Text.quoteString s)⟩
instance : Described Char := ⟨fun c => .atom (Text.quoteChar c)⟩
instance : Described Nat := ⟨fun n => .atom n.repr⟩
instance : Described Int := ⟨fun n => .atom n.repr⟩
instance : Described Bool := ⟨fun b => .atom (if b then "true" else "false")⟩

instance {α : Type} [Described α] : Described (Option α) :=
  ⟨fun
    | none => .atom "None"
    | some a => .tuple "Some" [outline a]⟩

instance {α β : Type} [Described α] [Described β] : Described (α × β) :=
  ⟨fun p => .tuple "" [outline p.1, outline p.2]⟩

instance {α : Type} [Described α] : Described (List α) := ⟨fun as => .list (as.map outline)⟩

end TableLexer
