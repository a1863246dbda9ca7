import MemStream.Db.Impl.AofFile
import MemStream.Db.Impl.Db

/-!
This module contains the start of a database in `db.rs`: `load_and_apply` with the file it reads, and
`DB::new`, which does not go on without it. `schedule` is the order in which the three tasks get to the
entries that were loaded.
-/

namespace MemStream

inductive LoadError where
  | io (msg : String)
  -- a task of the replay has panicked
  | join
  deriving DecidableEq

namespace DB

variable (buildKey : String → UInt64 → UInt64) (fromStr : String → Option AofEntry)

def loadAndApplyFile (db : DB) (file : Option (List UInt8)) (schedule : List (AofEntry × Env))
    : Outcome LoadError Unit × DB :=
  match AofFile.loadAofSeparated fromStr file with
  | .err msg => (.err (.io msg), db)
  | .panic => (.panic, db)
  | .ok _ =>
    match applyAll buildKey db.toStores schedule with
    | (.ok (), s) => (.ok (), { db with toStores := s })
    | (_, s) => (.err .join, { db with toStores := s })

-- `expect("failed to load aof")`
def startUp (alloc : Bool) (events : Option (List AofEntry)) (file : Option (List UInt8))
    (schedule : List (AofEntry × Env))
    : Outcome ListError DB :=
  match new alloc events with
  | .ok db =>
    match db.loadAndApplyFile buildKey fromStr file schedule with
    | (.ok (), db) => .ok db
    | _ => .panic
  | res => res

end DB
end MemStream
