import MemStream.Db.Impl.Db
import MemStream.Db.Spec.Logs
import MemStream.Db.Spec.Queues

namespace MemStream

structure View where
  kv : KvStore
  lists : Pooled
  logs : Logs

namespace View

def onKv (v : View) (wrap : String → DBError) (res : Outcome String Unit × KvStore)
    : Outcome DBError Unit × View :=
  (res.1.mapErr wrap, { v with kv := res.2 })

def onLists {α : Type} (v : View) (wrap : ListError → DBError) (res : Outcome ListError α × Pooled)
    : Outcome DBError Unit × View :=
  ((res.1.mapErr wrap).map fun _ => (), { v with lists := res.2 })

def onLogs {α : Type} (v : View) (wrap : GroupError → DBError) (res : Outcome GroupError α × Logs)
    : Outcome DBError Unit × View :=
  ((res.1.mapErr wrap).map fun _ => (), { v with logs := res.2 })

def perform (v : View) (env : Env) : AofEntry → Outcome DBError Unit × View
  | .kvSet db key val ttl =>
    v.onKv .kvSetError (v.kv.set env.clock env.order db key val ttl)
  | .kvDel db key => v.onKv .kvDelError (v.kv.del db key)
  | .kvFlush db => v.onKv .kvFlushError (v.kv.flush db)
  | .logCreateGroup name => v.onLogs .logCreateGroupError (v.logs.createGroup env.alloc name)
  | .logDropGroup name => v.onLogs .logDropGroupError (v.logs.dropGroup name)
  | .logAdd group timestamp payload =>
    v.onLogs .logAppendError (v.logs.add (env.alloc 0) group timestamp payload)
  | .logAddRange group entries =>
    v.onLogs .logAppendRangeError (v.logs.addRange env.alloc group entries)
  | .logRemove group upToId => v.onLogs .logRemoveError (v.logs.remove group upToId)
  | .listPush key payload => v.onLists .listPushError (v.lists.push (env.alloc 0) key payload)
  | .listPushRange key items =>
    v.onLists .listPushRangeError (v.lists.pushRange env.alloc key items)
  | .listPop key => v.onLists .listPopError (v.lists.pop key)
  | .listPopRange key start stop =>
    v.onLists .listPopRangeError (v.lists.popRange key start stop)
  | .listPopCount key count => v.onLists .listPopCountError (v.lists.popCount key count)
  | .listFlush key => v.onLists .listFlushError (v.lists.flush key)

def replay (v : View) : List (AofEntry × Env) → Outcome DBError Unit × View
  | [] => (.ok (), v)
  | (entry, env) :: entries =>
    match v.perform env entry with
    | (.panic, v) => (.panic, v)
    | (_, v) => v.replay entries

end View

-- what callers can see of the stores: a missing list is an empty one
structure Contents where
  kv : String → String → Option DBEntry
  lists : String → List (List UInt8)
  logs : String → Option (UInt64 × (UInt64 → Option (UInt64 × List UInt8)))

namespace View

def contents (v : View) : Contents where
  kv := fun db key => (v.kv.getDb db).entries.lookup key
  lists := v.lists.queues.get
  logs := fun group => (v.logs group).map fun log => (log.nextId, log.live)

end View
end MemStream
