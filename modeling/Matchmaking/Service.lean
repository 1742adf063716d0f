import Matchmaking.Database
import Matchmaking.Procedure

/-!
# The service

A service keeps one database per name.  Its clients share the limits of
transactions and number their transactions from one counter, so transactions of
different databases have different numbers.  One of the databases is the default
one.
-/

namespace Matchmaking

/-- The name of the database that every service has. -/
def defaultDatabase : String := "default"

/-- What a client of one database works on. -/
structure Connection where
  /-- The database. -/
  database : Database
  /-- The limits of its transactions. -/
  settings : Settings
  /-- The number of transactions opened so far. -/
  opened : Nat

namespace Connection

/-- Answers a request of a client. -/
def serve : (r : Request) → Connection → r.Answer × Connection
  | .begin, c => (.empty (c.opened + 1) c.settings, { c with opened := c.opened + 1 })
  | .readString key, c => (c.database.keyspace.string key, c)
  | .readFields key, c => (c.database.keyspace.fields key, c)
  | .readMembers key, c => (c.database.keyspace.members key, c)
  | .contains key, c => (c.database.keyspace.contains key, c)
  | .execute batch, c =>
    let (answer, database) := c.database.execute batch
    (answer, { c with database := database })

end Connection

/-- Databases by name, with what their clients share. -/
structure Service where
  /-- The databases. -/
  databases : Std.ExtTreeMap String Database
  /-- The limits of transactions. -/
  settings : Settings
  /-- The number of transactions opened so far. -/
  opened : Nat

namespace Service

/-- Why a service with these databases cannot be started. -/
inductive StartFault where
  /-- A name is given twice. -/
  | duplicate (name : String)
  /-- The default database is not given. -/
  | noDefault
deriving DecidableEq

/-- The words for a fault. -/
def StartFault.message : StartFault → String
  | duplicate name => "Database '" ++ name ++ "' configured twice"
  | noDefault => "The '" ++ defaultDatabase ++ "' database must be configured"

/-- Empty databases of the given names, none of which may be given twice. -/
def emptyDatabases (into : Std.ExtTreeMap String Database) :
    List String → Except StartFault (Std.ExtTreeMap String Database)
  | [] => .ok into
  | name :: names =>
    if into.contains name then .error (.duplicate name)
    else emptyDatabases (into.insert name .empty) names

/-- A service with an empty database for each name. -/
def start (names : List String) (settings : Settings) : Except StoreError Service :=
  match emptyDatabases ∅ names with
  | .error fault => .error (.configuration fault.message)
  | .ok databases =>
    if databases.contains defaultDatabase then .ok ⟨databases, settings, 0⟩
    else .error (.configuration StartFault.noDefault.message)

/-- The names of the databases in order. -/
def names (s : Service) : List String := s.databases.keys

/-- The database of a name. -/
def database (s : Service) (name : String) : Except StoreError Database :=
  match s.databases[name]? with
  | some db => .ok db
  | none => .error (.unknownDatabase name)

/-- The service with another content of one database. -/
def setDatabase (s : Service) (name : String) (db : Database) : Service :=
  { s with databases := s.databases.insert name db }

/-- Runs a procedure for a client of one database. -/
def run {ε α : Type} (s : Service) (name : String) (p : Procedure ε α) :
    Except StoreError (Except ε α × Service) := do
  let db ← s.database name
  let (result, c) := p.run Connection.serve ⟨db, s.settings, s.opened⟩
  pure (result, { s.setDatabase name c.database with opened := c.opened })

end Service

end Matchmaking
