import Matchmaking.Service
import Matchmaking.Toml.Document

/-!
# Configuration

A configuration names the databases of a service and its limits.  It is read from
a TOML document.  Every entry may be left out, unknown entries are refused, and
`default` has to be among the databases.

A directory may hold a configuration file.  Loading from a directory without one
writes a template first, which describes the configuration that holds by default.
-/

namespace Matchmaking

/-- Where values are kept. -/
inductive Backend where
  /-- In the memory of the process. -/
  | memory
deriving DecidableEq

/-- The name of a backend in a configuration. -/
def Backend.name : Backend → String
  | memory => "memory"

/-- The names of the databases and the limits of transactions. -/
structure Config where
  /-- Where values are kept. -/
  backend : Backend
  /-- The names of the databases. -/
  databases : List String
  /-- The limits of transactions. -/
  settings : Settings
deriving DecidableEq

namespace Config

/-- The database for lookups that are kept at hand. -/
def cacheDatabase : String := "cache"

/-- The configuration that holds unless another is given. -/
def default : Config := ⟨.memory, [defaultDatabase, cacheDatabase], .default⟩

/-- The name of a configuration file. -/
def fileName : String := "matchstore.toml"

/-- Why a configuration cannot be used. -/
inductive Fault where
  /-- The document is no configuration. -/
  | invalid
  /-- No database is named. -/
  | noDatabases
  /-- The default database is not named. -/
  | noDefault
  /-- No dequeue could take anything. -/
  | noDequeue
  /-- The file cannot be read. -/
  | unreadable (path : String)
  /-- The file cannot be written. -/
  | unwritable (path : String)
deriving DecidableEq

namespace Fault

/-- The words for a fault. -/
def message : Fault → String
  | invalid => "Invalid " ++ fileName ++ ": the document is no configuration"
  | noDatabases => "At least one database must be configured"
  | noDefault => "The '" ++ defaultDatabase ++ "' database must be configured"
  | noDequeue => "max_dequeue must be positive"
  | unreadable path => "Cannot read " ++ path ++ ": there is no such text file"
  | unwritable path => "Cannot write " ++ path ++ ": there is no such directory"

/-- A fault as a store error. -/
def toError (f : Fault) : StoreError := .configuration f.message

end Fault

/-- Checks what a configuration of any origin has to satisfy. -/
def validate (c : Config) : Except Fault Config :=
  if c.databases.isEmpty then .error .noDatabases
  else if !c.databases.contains defaultDatabase then .error .noDefault
  else if c.settings.maxDequeue = 0 then .error .noDequeue
  else .ok c

/-! ## Documents -/

/-- A backend: its name, or a table that maps the name to nothing. -/
def backend? : Toml.Value → Option Backend
  | .string "memory" => some .memory
  | .table [("memory", .array [])] => some .memory
  | .table [("memory", .table [])] => some .memory
  | _ => none

/-- A text. -/
def text? : Toml.Value → Option String
  | .string text => some text
  | _ => none

/-- Texts in a row. -/
def texts? : Toml.Value → Option (List String)
  | .array items => items.mapM text?
  | _ => none

/-- A natural number. -/
def natural? : Toml.Value → Option Nat
  | .integer (.ofNat n) => some n
  | _ => none

/-- A configuration with one entry of a document. -/
def withEntry (c : Config) (entry : String × Toml.Value) : Option Config :=
  match entry with
  | ("backend", v) => (backend? v).map fun b => { c with backend := b }
  | ("databases", v) => (texts? v).map fun names => { c with databases := names }
  | ("max_dequeue", v) =>
    (natural? v).map fun n => { c with settings := { c.settings with maxDequeue := n } }
  | ("slow_commit_threshold_ms", v) =>
    (natural? v).map fun n => { c with settings := { c.settings with slowCommitMillis := n } }
  | _ => none

/-- The configuration that a document describes. -/
def ofDocument (document : String) : Except Fault Config :=
  match (Toml.parse document).bind (·.foldlM withEntry default) with
  | some c => c.validate
  | none => .error .invalid

/-! ## Files -/

/-- The document that describes the default configuration. -/
def template : String := String.intercalate "\n" [
  "# matchstore configuration",
  "#",
  "# Store implementation. Only \"memory\" is built in.",
  "backend = \"memory\"",
  "",
  "# Logical databases. \"default\" is required; \"cache\" holds cached lookups.",
  "databases = [\"default\", \"cache\"]",
  "",
  "# Largest number of ids one dequeue may pop.",
  "max_dequeue = 1000",
  "",
  "# Commits slower than this many milliseconds are logged as warnings.",
  "slow_commit_threshold_ms = 100",
  ""]

/-- What is known of a directory. -/
structure Directory where
  /-- Its path. -/
  path : String
  /-- Whether there is such a directory. -/
  present : Bool
  /-- The bytes of the configuration file, if there is one. -/
  file : Option ByteArray

namespace Directory

/-- The path of a file in the directory. -/
def pathOf (d : Directory) (name : String) : String := d.path ++ "/" ++ name

/-- The configuration in a file of the directory, where only the configuration
file can be there. -/
def read (d : Directory) (name : String) : Except Fault Config :=
  let bytes := if name = fileName then d.file else none
  match bytes.bind String.fromUTF8? with
  | some document => ofDocument document
  | none => .error (.unreadable (d.pathOf name))

/-- Loads the configuration of the directory, after writing the template if there
is no file. -/
def load (d : Directory) : Except Fault Config × Directory :=
  match d.file with
  | some _ => (d.read fileName, d)
  | none =>
    if d.present then
      let d := { d with file := some template.toUTF8 }
      (d.read fileName, d)
    else (.error (.unwritable (d.pathOf fileName)), d)

end Directory

end Config

/-- The service of a configuration. -/
def Service.ofConfig (c : Config) : Except StoreError Service :=
  match c.validate with
  | .ok c => Service.start c.databases c.settings
  | .error fault => .error fault.toError

end Matchmaking
