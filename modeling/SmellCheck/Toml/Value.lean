/-!
TOML values, and how keys and headers add to a document. A table can be added to in some ways and
not in others, which depends on how it came to be; an addition that is not allowed has no result.
-/

set_option autoImplicit false

namespace SmellCheck.Toml

inductive Origin where
  -- The document itself, or a table with a header of its own.
  | header
  -- A table known from the header of a table inside it.
  | implied
  -- A table known from a dotted key.
  | dotted
  | inline
deriving DecidableEq

inductive Value where
  | string (text : String)
  | integer (number : Int)
  | float (text : String)
  | boolean (value : Bool)
  | dateTime (text : String)
  | array (items : List Value)
  | table (origin : Origin) (entries : List (String × Value))
  -- An array of tables that has headers of its own.
  | tables (items : List (List (String × Value)))

abbrev Entries := List (String × Value)

def alter (key : String) (change : Option Value → Option Value) : Entries → Option Entries
  | [] => (change none).map fun value => [(key, value)]
  | (name, value) :: rest =>
      if name = key then (change (some value)).map fun changed => (name, changed) :: rest
      else (alter key change rest).map ((name, value) :: ·)

-- Changes the table that a path leads to. Tables missing on the way are created; the way leads
-- through the last table of an array, and never through an inline table. A dotted key does not
-- reach into a table that has a header.
def within (created : Origin) (change : Origin → Entries → Option Entries) :
    List String → Origin → Entries → Option Entries
  | [], origin, entries => change origin entries
  | key :: path, _, entries =>
      alter key (fun
        | none => (within created change path created []).map (.table created)
        | some (.table origin inner) =>
            if origin = .inline || (created = .dotted && origin = .header) then none
            else (within created change path origin inner).map (.table origin)
        | some (.tables items) =>
            items.getLast?.bind fun last =>
              (within created change path .header last).map fun changed =>
                .tables (items.dropLast ++ [changed])
        | some _ => none) entries

def addNew (key : String) (value : Value) (entries : Entries) : Option Entries :=
  if entries.any (·.1 == key) then none else some (entries ++ [(key, value)])

-- Adds a value under a dotted key. Keys of several parts add to tables made by such keys only.
def addValue (path : List String) (key : String) (value : Value) (origin : Origin)
    (entries : Entries) : Option Entries :=
  within .dotted (fun origin entries =>
    if (origin == .dotted) == path.isEmpty then none else addNew key value entries)
    path origin entries

def openTable (path : List String) (key : String) (document : Entries) : Option Entries :=
  within .implied (fun _ entries => alter key (fun
    | none => some (.table .header [])
    | some (.table .implied entries) => some (.table .header entries)
    | some _ => none) entries) path .header document

def openNext (path : List String) (key : String) (document : Entries) : Option Entries :=
  within .implied (fun _ entries => alter key (fun
    | none => some (.tables [[]])
    | some (.tables items) => some (.tables (items ++ [[]]))
    | some _ => none) entries) path .header document

end SmellCheck.Toml
