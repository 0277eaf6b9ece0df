import GoSignatures.Toml.Basic

/-!
# Tables while they are read

The entries of a table may come from several places of a document: headers, dotted keys, and
headers of tables below it. A key may be given once; what counts as a second time depends on how a
table came about, so that is noted beside its entries.

* `Node` — what stands under a key
* `Builder.addPair` — the entries with one more pair, whose key may be dotted
* `Builder.addSection` — the entries with the pairs under a header added
* `Builder.toToml` — the value that the entries make up
-/

namespace GoSignatures.Toml

/-- How a table came about. -/
inductive Origin where
  /-- It has a header of its own. -/
  | header
  /-- The header of a table below it mentions it. -/
  | mentioned
  /-- A dotted key mentions it. -/
  | dotted
deriving DecidableEq, Repr

/-- What stands under a key while a document is read. -/
inductive Node where
  | value (v : Toml)
  | table (origin : Origin) (entries : List (String × Node))
  /-- The tables under repeated headers in double brackets, the last first. -/
  | tables (last : List (String × Node)) (before : List (List (String × Node)))

/-- The entries of a table while a document is read, each key once. -/
abbrev Builder := List (String × Node)

/-- What stands between a key and its value. -/
structure Pair where
  /-- The keys before the last point. -/
  path : List String
  key : String
  value : Toml

/-- A header and the pairs under it. -/
structure Section where
  /-- The keys before the last point. -/
  path : List String
  key : String
  /-- Whether the header stands in double brackets. -/
  repeated : Bool
  pairs : List Pair

namespace Builder

/-- The entries with `node` under `key`. -/
def put (entries : Builder) (key : String) (node : Node) : Builder :=
  if entries.any (·.1 == key) then entries.map fun e => if e.1 == key then (key, node) else e
  else entries ++ [(key, node)]

/-! ## Pairs -/

/-- The entries with a value put under a dotted key. The table that receives it must come from
dotted keys too, and none on the way may have a header of its own, save in double brackets. -/
def addDotted (key : String) (v : Toml) : List String → Builder → Option Builder
  | [], entries =>
    match entries.lookup key with
    | some _ => none
    | none => some (entries ++ [(key, .value v)])
  | step :: path, entries =>
    match entries.lookup step with
    | none => do return entries ++ [(step, .table .dotted (← addDotted key v path []))]
    | some (.table .dotted below) => do
      return entries.put step (.table .dotted (← addDotted key v path below))
    | some (.table .mentioned below) =>
      if path.isEmpty then none
      else do return entries.put step (.table .mentioned (← addDotted key v path below))
    | some (.tables last before) =>
      if path.isEmpty then none
      else do return entries.put step (.tables (← addDotted key v path last) before)
    | some _ => none

/-- The entries with one more pair. -/
def addPair (entries : Builder) (pair : Pair) : Option Builder :=
  addDotted pair.key pair.value pair.path entries

/-! ## Sections -/

/-- The node of a section under its key, given what stands there. A table may have one header;
double brackets add a table to those before. -/
def sectionNode (s : Section) (found : Option Node) : Option Node :=
  if s.repeated then
    match found with
    | none => do return .tables (← s.pairs.foldlM addPair []) []
    | some (.tables last before) => do
      return .tables (← s.pairs.foldlM addPair []) (last :: before)
    | some _ => none
  else
    match found with
    | none => do return .table .header (← s.pairs.foldlM addPair [])
    | some (.table .mentioned below) => do
      return .table .header (← s.pairs.foldlM addPair below)
    | some _ => none

/-- The entries with a section added under a path. -/
def addAt (s : Section) : List String → Builder → Option Builder
  | [], entries => do return entries.put s.key (← sectionNode s (entries.lookup s.key))
  | step :: path, entries =>
    match entries.lookup step with
    | none => do return entries ++ [(step, .table .mentioned (← addAt s path []))]
    | some (.table origin below) => do
      return entries.put step (.table origin (← addAt s path below))
    | some (.tables last before) => do
      return entries.put step (.tables (← addAt s path last) before)
    | some (.value _) => none

/-- The entries with a section added. -/
def addSection (entries : Builder) (s : Section) : Option Builder :=
  addAt s s.path entries

end Builder

/-! ## Values -/

mutual

/-- The value of a node. -/
def Node.toToml : Node → Toml
  | .value v => v
  | .table _ entries => .table (Builder.toEntries entries)
  | .tables last before => .array (Builder.toTables before [.table (Builder.toEntries last)])

/-- The entries with their values. -/
def Builder.toEntries : List (String × Node) → List (String × Toml)
  | [] => []
  | (key, node) :: entries => (key, node.toToml) :: Builder.toEntries entries

/-- The values of tables that come last first, before those already found. -/
def Builder.toTables : List (List (String × Node)) → List Toml → List Toml
  | [], found => found
  | entries :: before, found =>
    Builder.toTables before (.table (Builder.toEntries entries) :: found)

end

/-- The table that entries make up. -/
def Builder.toToml (entries : Builder) : Toml :=
  .table (Builder.toEntries entries)

end GoSignatures.Toml
