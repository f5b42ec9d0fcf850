import BotScript.Toml.Reader

/-!
# Settings files

What the lines of a file make together. A header opens a table, which the entries after it belong
to. A table can be opened only once, no key is given twice, and a table written with points in a key
is complete with the table it stands in; but a header may name tables that are opened later, or not
at all.

## Main definitions

* `Toml.Node`: an entry of a file that is being put together.
* `Toml.openTable`, `Toml.openItem`, `Toml.addEntry`: the effect of the lines.
* `Toml.parse?`: the table that is the content of a file.
-/

namespace BotScript.Toml

/-- How a table came to be. -/
inductive TableForm where
  /-- A header named it on the way to another table. -/
  | named
  /-- A key with points named it. -/
  | dotted
  /-- It has a header of its own. -/
  | opened
  deriving DecidableEq, Repr

/-- An entry of a file that is being put together. -/
inductive Node where
  | value (v : Toml)
  | table (form : TableForm) (entries : List (String × Node))
  /-- An array of tables, the newest first. -/
  | tables (items : List (List (String × Node)))

/-- The entries of a table that is being put together. -/
abbrev Nodes := List (String × Node)

/-- Give a key a new node, in its place if it has one. -/
def Nodes.put (nodes : Nodes) (key : String) (node : Node) : Nodes :=
  if nodes.any (·.1 == key) then nodes.map fun (k, old) => if k == key then (k, node) else (k, old)
  else nodes ++ [(key, node)]

/-- Change the table at the end of a path of headers; of an array of tables, the newest is meant. -/
def descend (change : Nodes → Option Nodes) : List String → Nodes → Option Nodes
  | [], nodes => change nodes
  | key :: path, nodes =>
    match nodes.lookup key with
    | none => do return nodes.put key (.table .named (← descend change path []))
    | some (.table form inner) => do
      return nodes.put key (.table form (← descend change path inner))
    | some (.tables (newest :: older)) => do
      return nodes.put key (.tables ((← descend change path newest) :: older))
    | some (.tables []) | some (.value _) => none

/-- Open a table. -/
def openTable (path : List String) (nodes : Nodes) : Option Nodes :=
  match path.getLast? with
  | none => none
  | some key => descend (change key) path.dropLast nodes
where
  /-- A table may have been named before, but not opened. -/
  change (key : String) (nodes : Nodes) : Option Nodes :=
    match nodes.lookup key with
    | none => some (nodes.put key (.table .opened []))
    | some (.table .named inner) => some (nodes.put key (.table .opened inner))
    | some _ => none

/-- Open a further table of an array of tables. -/
def openItem (path : List String) (nodes : Nodes) : Option Nodes :=
  match path.getLast? with
  | none => none
  | some key => descend (change key) path.dropLast nodes
where
  /-- The key has no value, or is an array of tables. -/
  change (key : String) (nodes : Nodes) : Option Nodes :=
    match nodes.lookup key with
    | none => some (nodes.put key (.tables [[]]))
    | some (.tables items) => some (nodes.put key (.tables ([] :: items)))
    | some _ => none

/-- Put a value at a path within a table. The tables on the way are new, or were named
the same way. -/
def place (v : Toml) : List String → Nodes → Option Nodes
  | [], _ => none
  | [key], nodes => if nodes.any (·.1 == key) then none else some (nodes.put key (.value v))
  | key :: path, nodes =>
    match nodes.lookup key with
    | none => do return nodes.put key (.table .dotted (← place v path []))
    | some (.table .dotted inner) => do return nodes.put key (.table .dotted (← place v path inner))
    | some _ => none

/-- The effect of the lines, of which the first ones belong to the table at a path. -/
def build : List String → List Line → Nodes → Option Nodes
  | _, [], nodes => some nodes
  | _, .header path :: rest, nodes => do build path rest (← openTable path nodes)
  | _, .arrayHeader path :: rest, nodes => do build path rest (← openItem path nodes)
  | here, .entry path v :: rest, nodes => do build here rest (← descend (place v path) here nodes)

mutual

/-- The value of an entry. -/
def Node.toToml : Node → Toml
  | .value v => v
  | .table _ entries => .table (nodeEntries entries)
  | .tables items => .arr (nodeItems items).reverse

/-- The entries of a table. -/
def nodeEntries : List (String × Node) → Entries
  | [] => []
  | (key, node) :: rest => (key, node.toToml) :: nodeEntries rest

/-- The tables of an array. -/
def nodeItems : List (List (String × Node)) → List Toml
  | [] => []
  | entries :: rest => .table (nodeEntries entries) :: nodeItems rest

end

/-- The content of a file. -/
def parse? (s : String) : Option Entries := do
  return nodeEntries (← build [] (← lines? s) [])

end BotScript.Toml
