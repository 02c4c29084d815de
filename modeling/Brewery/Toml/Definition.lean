import Brewery.Toml.Value

/-!
Defining keys and tables. Nothing is defined twice: a key is given once, a header opens a
table once, and a dotted key adds only to tables that dotted keys have made. A table that
was only implied may still get a header of its own.
-/

namespace Brewery.Toml.Entries

/-- Whether a path of keys may go on through a table. -/
def isOpen (dotted : Bool) : Origin → Bool
  | .braces => false
  | .header => !dotted
  | .implied => true
  | .dotted => true

/-- Changes the table that a path of keys leads to. Tables that are missing on the way are
made; an array of tables stands for the last of them. -/
def edit (dotted : Bool) (change : Origin → Entries → Option Entries) :
    List Text → Origin → Entries → Option Entries
  | [], origin, entries => change origin entries
  | key :: rest, _, entries =>
      match entries.get? key with
      | none => do
          let made : Origin := if dotted then .dotted else .implied
          let inner ← edit dotted change rest made []
          some (entries ++ [(key, .table made inner)])
      | some (.table origin inner) =>
          if isOpen dotted origin then do
            let inner ← edit dotted change rest origin inner
            some (entries.replace key (.table origin inner))
          else none
      | some (.tables elements) =>
          match elements.getLast? with
          | none => none
          | some inner => do
              let inner ← edit dotted change rest .header inner
              some (entries.replace key (.tables (elements.dropLast ++ [inner])))
      | some _ => none

/-- Gives a key its value in the table reached. -/
def give (dotted : Bool) (key : Text) (value : Value) (origin : Origin) (entries : Entries) :
    Option Entries :=
  if decide (origin = .dotted) == dotted && (entries.get? key).isNone then
    some (entries ++ [(key, value)])
  else none

/-- Defines a dotted key: the keys before the last one lead to the table that gets it. -/
def define (path : List Text) (key : Text) (value : Value) (origin : Origin) (entries : Entries) :
    Option Entries :=
  edit true (give (!path.isEmpty) key value) path origin entries

/-- Opens the table of a header. -/
def openTable (path : List Text) (key : Text) (entries : Entries) : Option Entries :=
  edit false (fun _ entries =>
    match entries.get? key with
    | none => some (entries ++ [(key, .table .header [])])
    | some (.table .implied inner) => some (entries.replace key (.table .header inner))
    | some _ => none) path .header entries

/-- Opens one more table of an array of tables. -/
def openElement (path : List Text) (key : Text) (entries : Entries) : Option Entries :=
  edit false (fun _ entries =>
    match entries.get? key with
    | none => some (entries ++ [(key, .tables [[]])])
    | some (.tables elements) => some (entries.replace key (.tables (elements ++ [[]])))
    | some _ => none) path .header entries

end Brewery.Toml.Entries
