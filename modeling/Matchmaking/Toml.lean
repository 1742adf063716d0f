/-!
# TOML tables

A configuration is a table of named values.  The values it can use are texts,
whole numbers, arrays and tables, so other kinds of values have no place here.

A document builds its table from three kinds of lines, and each remembers how a
table came about.

* A header makes its table *explicit*, once.  Tables on the way to it that are
  not there become *implied*, and a later header may still make them explicit.
* A dotted name makes the tables on its way *dotted*.  It may add to tables that
  are dotted and pass through implied ones.  No header may open a dotted table.
* A value is final.  Nothing is added to an array or an inline table.

`Toml.Table.openHeader` and `Toml.Table.assign` carry out these rules.
-/

namespace Matchmaking

namespace Toml

/-- A value of a document. -/
inductive Value where
  /-- A text. -/
  | string (text : String)
  /-- A whole number. -/
  | integer (value : Int)
  /-- Values in a row. -/
  | array (items : List Value)
  /-- Named values. -/
  | table (entries : List (String × Value))
deriving Inhabited

/-- How a table came about. -/
inductive Origin where
  /-- By a header of its own. -/
  | explicit
  /-- On the way of a header. -/
  | implied
  /-- On the way of a dotted name. -/
  | dotted
deriving DecidableEq

/-- A value of a document under construction. -/
inductive Node where
  /-- A final value. -/
  | value (v : Value)
  /-- A table that lines may still add to. -/
  | table (origin : Origin) (entries : List (String × Node))
deriving Inhabited

/-- The entries of a table under construction. -/
abbrev Table := List (String × Node)

namespace Table

/-- The node of a name. -/
def node? (t : Table) (name : String) : Option Node :=
  (List.find? (fun entry => entry.1 == name) t).map (·.2)

/-- The table with another node in the place of a name. -/
def replace (t : Table) (name : String) (node : Node) : Table :=
  List.map (fun entry => if entry.1 == name then (name, node) else entry) t

/-- Opens the table that a header names. -/
def openHeader : List String → Table → Option Table
  | [], _ => none
  | [name], t =>
    match node? t name with
    | none => some (t ++ [(name, .table .explicit [])])
    | some (.table .implied entries) => some (replace t name (.table .explicit entries))
    | some _ => none
  | name :: path, t =>
    match node? t name with
    | none => (openHeader path []).map fun entries => t ++ [(name, .table .implied entries)]
    | some (.table origin entries) =>
      (openHeader path entries).map fun entries => replace t name (.table origin entries)
    | some (.value _) => none

/-- Gives a value to a name that has none. -/
def assignLast (name : String) (v : Value) (t : Table) : Option Table :=
  match node? t name with
  | none => some (t ++ [(name, .value v)])
  | some _ => none

/-- Gives a value to a dotted name. -/
def assign (v : Value) : List String → Table → Option Table
  | [], _ => none
  | [name], t => assignLast name v t
  | name :: path, t =>
    match node? t name with
    | none => (assign v path []).map fun entries => t ++ [(name, .table .dotted entries)]
    | some (.table .dotted entries) =>
      (assign v path entries).map fun entries => replace t name (.table .dotted entries)
    | some (.table .implied entries) =>
      if path.length = 1 then none
      else (assign v path entries).map fun entries => replace t name (.table .implied entries)
    | some _ => none

/-- Gives a value to a dotted name within the table that a header opened. -/
def assignIn (v : Value) (path : List String) : List String → Table → Option Table
  | [], t => assign v path t
  | name :: header, t =>
    match node? t name with
    | some (.table origin entries) =>
      (assignIn v path header entries).map fun entries => replace t name (.table origin entries)
    | _ => none

end Table

mutual

/-- The value of a node. -/
def Node.close : Node → Value
  | .value v => v
  | .table _ entries => .table (Node.closeAll entries)

/-- The values of named nodes. -/
def Node.closeAll : List (String × Node) → List (String × Value)
  | [] => []
  | (name, node) :: entries => (name, node.close) :: Node.closeAll entries

end

end Toml

end Matchmaking
