import MemStream.Db.Impl.Display
import MemStream.Server.Impl.Response
import MemStream.Server.Impl.Sync

/-!
This module contains `handle_command` of `server.rs`, and what a connection does with a frame. A handler
gives the bytes that are sent back, or panics, and then the task of its connection is gone.

`register` is what `register_follower` returns, which is in the module `Ha`.
-/

namespace MemStream

-- `envs` has one environment for each entry of an `HaSync`, the other commands have the first
structure ServerEnv where
  envs : Nat → Env
  register : Except String Unit

def ServerEnv.env (senv : ServerEnv) : Env :=
  senv.envs 0

namespace Server

open ResponseBuilder

abbrev Response := Outcome Empty (List UInt8)

def respond {α : Type} (res : Outcome DBError α × DB) (ok : α → List UInt8) : Response × DB :=
  match res.1 with
  | .ok val => (.ok (ok val), res.2)
  | .err e => (.ok (err e.toText), res.2)
  | .panic => (.panic, res.2)

def okDone (_ : Unit) : List UInt8 :=
  okEmpty

def okEntryOption : Option DBEntry → List UInt8
  | some entry => okBytes entry.val
  | none => okEmpty

-- `(ttl_secs * 1000) as i64`, where the product wraps around
def ttlMillis (ttlSecs : UInt64) : Int64 :=
  (ttlSecs * 1000).toInt64

variable (buildKey : String → UInt64 → UInt64) (fromSlice : List UInt8 → Except String AofEntry)

def handleCommand (db : DB) (senv : ServerEnv) : Command → Response × DB
  | .createGroup name => respond (db.logCreateGroup senv.env name) okDone
  | .dropGroup name => respond (db.logDropGroup name) okDone
  | .add group timestamp payload => respond (db.logAdd buildKey senv.env group timestamp payload) okU64
  | .addRange group entries =>
    respond (db.logAddRange buildKey senv.env group entries) fun ids => okU64Pair ids.1 ids.2
  | .read group id =>
    respond (db.logRead buildKey senv.env group id) fun entry => okEntry entry.1 entry.2.1 entry.2.2
  | .readRange group start stop =>
    respond (db.logReadRange buildKey senv.env group start stop) okEntries
  | .remove group upToId => respond (db.logRemove buildKey group upToId) okDone
  | .listGroups => respond (db.logListGroups senv.env) okGroupList
  | .groupStats group =>
    respond (db.logGroupStats group) fun stats =>
      okStats (UInt64.ofNat stats.totalEntries) stats.totalSegments stats.nextId
  | .setKey d key val ttlSecs => respond (db.kvSet senv.env d key val (ttlMillis ttlSecs)) okDone
  | .getKey d key => respond (db.kvGet senv.env d key) okEntryOption
  | .delKey d key => respond (db.kvDel d key) okDone
  | .keys d => respond (db.kvKeys senv.env d) okStringList
  | .flush d => respond (db.kvFlush d) okDone
  | .lPush key val => respond (db.listPush senv.env key val) okDone
  | .lPushRange key vals => respond (db.listPushRange senv.env key vals) okDone
  | .lPop key => respond (db.listPop key) okBytes
  | .lPopRange key start stop => respond (db.listPopRange key start.toNat stop.toNat) okBytesList
  | .lPopCount key count => respond (db.listPopCount key count.toNat) okBytesList
  | .lLen key => respond (db.listLen key) fun n => okU64 (UInt64.ofNat n)
  | .lFlush key => respond (db.listFlush key) okDone
  | .haRegisterFollower _ =>
    match senv.register with
    | .ok () => (.ok okEmpty, db)
    | .error e => (.ok (err e), db)
  | .haHeartBeat => (.ok (okBytes "ACK".toUTF8.data.toList), db)
  | .haSync entries =>
    -- there is no error here, whatever cannot be decoded panics
    match decodeEntries fromSlice entries with
    | .ok decoded =>
      respond (db.applyAof buildKey (decoded.zipIdx.map fun e => (e.1, senv.envs e.2))) okDone
    | _ => (.panic, db)

-- a reservation of the parser that fails ends the whole process, so that no frame is handled any more
def handleFrame (db : DB) (senv : ServerEnv) (frame : List UInt8) : Response × DB :=
  match parseCommand ample frame with
  | .ok cmd => handleCommand buildKey fromSlice db senv cmd
  | .err e => (.ok (err ("parse error: " ++ e.msg)), db)
  | .panic => (.panic, db)

end Server
end MemStream
