import Matchmaking.Keyspace

/-!
# Databases

A database is a keyspace that clients share, together with the faults that the
next batches will meet.  A fault takes the place of the execution of one batch,
or lets another client write just before it.  Reads meet no faults.
-/

namespace Matchmaking

/-- What one batch meets. -/
inductive Fault where
  /-- The store fails and executes nothing. -/
  | fail (reason : String)
  /-- The store says that conditions did not hold, and executes nothing. -/
  | reject (held : List Bool)
  /-- The store says that so many commands are done, and executes nothing. -/
  | pretend (count : Nat)
  /-- Another client writes, and then the store executes the batch. -/
  | precede (commands : List Command)
deriving DecidableEq

/-- A keyspace and the faults to come. -/
structure Database where
  /-- The values. -/
  keyspace : Keyspace
  /-- What the next batches meet, one after the other; none for nothing. -/
  faults : List (Option Fault)
  /-- How many batches were received. -/
  received : Nat

namespace Database

/-- The database that holds nothing and meets no faults. -/
def empty : Database := ⟨∅, [], 0⟩

instance : Inhabited Database := ⟨empty⟩

/-- The answer to a batch that meets a fault, and the keyspace afterwards. -/
def meet (ks : Keyspace) (batch : Batch) : Option Fault → Except StoreError Outcome × Keyspace
  | none => ks.execute batch
  | some (.fail reason) => (.error (.backend reason), ks)
  | some (.reject held) => (.ok (.rejected held), ks)
  | some (.pretend count) => (.ok (.committed (List.replicate count .done)), ks)
  | some (.precede commands) => (ks.execute ⟨[], commands⟩).2.execute batch

/-- Executes a batch with the next fault. -/
def execute (db : Database) (batch : Batch) : Except StoreError Outcome × Database :=
  let (answer, ks) := meet db.keyspace batch db.faults.head?.join
  (answer, ⟨ks, db.faults.tail, db.received + 1⟩)

/-- Appends texts to a list. -/
def append (db : Database) (key : Key) (texts : List String) : Except StoreError Nat × Database :=
  let (answer, ks) := db.keyspace.append key texts
  (answer, { db with keyspace := ks })

/-- Removes every key. -/
def flush (db : Database) : Database := { db with keyspace := ∅ }

/-- Replaces the faults to come. -/
def arm (db : Database) (faults : List (Option Fault)) : Database := { db with faults := faults }

end Database

end Matchmaking
