import MemStream.Client.Impl.Answers
import MemStream.Client.Impl.Json
import MemStream.Client.Impl.StreamClient
import MemStream.Lib.Assoc

/-!
This module contains the handlers of the HTTP interface in `handlers.rs`. A handler takes a connection from
the pool, sends at most one request on it, and makes its response from the answer. Where it unwraps what is
not there it panics and has no response.

What is used of `serde_json`, `base64`, `zstd` and `chrono` is an argument, and so are the readings of the
clock and the order in which a hash map gives its fields.
-/

namespace MemStream

inductive StatusCode where
  | ok
  | badRequest
  | notFound
  | internalServerError
  deriving DecidableEq

structure HttpResponse where
  status : StatusCode
  body : Value

abbrev Payload := AList fun _ : String => Value

structure Codecs where
  -- `serde_json::to_vec` and `from_slice`
  toVec : Value → List UInt8
  fromSlice : List UInt8 → Option Value
  -- base64 of the standard alphabet
  encode : List UInt8 → String
  decode : String → Option (List UInt8)
  -- `zstd::encode_all` at level 3, and `decode_all`
  encodeAll : List UInt8 → List UInt8
  decodeAll : List UInt8 → Option (List UInt8)
  -- a time in milliseconds, as it is written in Tehran
  formatTehran : Int64 → Option String

structure HttpEnv where
  now : Nat → Int64
  order : Nat → Assoc.Order String

structure ApiPool (σ : Type) where
  acquire : σ → Except String Unit × σ
  sendRecv : σ → List UInt8 → Except String (List UInt8) × σ

namespace Api

abbrev Handled := Outcome Empty HttpResponse

def success (fields : List (String × Value)) : Handled :=
  .ok ⟨.ok, Value.json fields⟩

def failure (status : StatusCode) (e : String) : Handled :=
  .ok ⟨status, Value.json [("error", .string e)]⟩

def done (status : String) (_ : Unit) : Handled :=
  success [("status", .string status)]

section Payloads

variable (codecs : Codecs)

def fieldsOf (order : Assoc.Order String) (payload : Payload) : List (String × Value) :=
  (order.arrange payload.keys).filterMap fun name => (payload.lookup name).map fun val => (name, val)

def encodePayloadB64 (order : Assoc.Order String) (payload : Payload) : List UInt8 :=
  let jsonStr := codecs.toVec (.object (fieldsOf order payload))
  let b64 := codecs.encode jsonStr
  codecs.encodeAll (StreamClient.asBytes b64)

def decodePayloadB64 (encoded : List UInt8) : Option Value := do
  let decompressed ← codecs.decodeAll encoded
  let b64Str ← String.fromUTF8? ⟨decompressed.toArray⟩
  let jsonStr ← codecs.decode b64Str
  match codecs.fromSlice jsonStr with
  | some (.object fields) => some (.object fields)
  | _ => none

def entryTime (timestamp : UInt64) : String :=
  (codecs.formatTehran timestamp.toInt64).getD "invalid timestamp"

end Payloads

variable {σ α : Type} (pool : ApiPool σ) (codecs : Codecs) (env : HttpEnv)

def acquired (s : σ) (handler : σ → Handled × σ) : Handled × σ :=
  match pool.acquire s with
  | (.ok (), s) => handler s
  | (.error e, s) => (failure .internalServerError e, s)

def respond (s : σ) (frame : List UInt8) (answer : List UInt8 → Outcome String α) (ok : α → Handled)
    : Handled × σ :=
  match pool.sendRecv s frame with
  | (.ok resp, s) =>
    match answer resp with
    | .ok val => (ok val, s)
    | .err e => (failure .badRequest e, s)
    | .panic => (.panic, s)
  | (.error e, s) => (failure .internalServerError e, s)

def createGroup (s : σ) (name : String) : Handled × σ :=
  acquired pool s fun s =>
    respond pool s (StreamClient.createGroup name) StreamClient.createGroupAnswer (done "group created")

def listGroups (s : σ) : Handled × σ :=
  acquired pool s fun s =>
    respond pool s StreamClient.listGroups StreamClient.listGroupsAnswer fun groups =>
      success [("groups", .ofStrings groups)]

def dropGroup (s : σ) (name : String) : Handled × σ :=
  acquired pool s fun s =>
    respond pool s (StreamClient.dropGroup name) StreamClient.dropGroupAnswer (done "group dropped")

def groupStats (s : σ) (name : String) : Handled × σ :=
  acquired pool s fun s =>
    respond pool s (StreamClient.groupStats name) StreamClient.groupStatsAnswer
      fun (entries, segments, nextId) =>
        success
          [("entries", .ofU64 entries), ("segments", .ofU64 segments.toUInt64),
            ("next_id", .ofU64 nextId)]

def addEntry (s : σ) (name : String) (req : Payload) : Handled × σ :=
  acquired pool s fun s =>
    let payload := encodePayloadB64 codecs (env.order 0) req
    let timestamp := (env.now 0).toUInt64
    respond pool s (StreamClient.add name timestamp payload) StreamClient.addAnswer fun id =>
      success [("status", .string "entry added"), ("id", .ofU64 id)]

def addRangeEntries (s : σ) (name : String) (req : List Payload) : Handled × σ :=
  acquired pool s fun s =>
    let entries := req.zipIdx.map fun (e, i) =>
      ((env.now i).toUInt64, encodePayloadB64 codecs (env.order i) e)
    respond pool s (StreamClient.addRange name entries) StreamClient.addRangeAnswer
      fun (first, last) =>
        success [("status", .string "entries added"), ("first", .ofU64 first), ("last", .ofU64 last)]

def readEntry (s : σ) (name : String) (id : UInt64) : Handled × σ :=
  acquired pool s fun s =>
    respond pool s (StreamClient.read name id) StreamClient.readAnswer fun (id, timestamp, payload) =>
      match decodePayloadB64 codecs payload with
      | some payloadDecoded =>
        success
          [("id", .ofU64 id), ("timestamp", .string (entryTime codecs timestamp)),
            ("payload", payloadDecoded)]
      | none => .panic

-- here the time is not formatted
def readRangeEntries (s : σ) (name : String) (startId endId : UInt64) : Handled × σ :=
  acquired pool s fun s =>
    respond pool s (StreamClient.readRange name startId endId) StreamClient.readRangeAnswer fun entries =>
      let entriesDecoded := entries.mapM fun (id, timestamp, payload) =>
        (decodePayloadB64 codecs payload).map fun payloadDecoded =>
          Value.json
            [("id", .ofU64 id), ("timestamp", .ofU64 timestamp), ("payload", payloadDecoded)]
      match entriesDecoded with
      | some vals => success [("entries", .array vals)]
      | none => .panic

def dropEntries (s : σ) (group : String) (uptoId : UInt64) : Handled × σ :=
  acquired pool s fun s =>
    respond pool s (StreamClient.remove group uptoId) StreamClient.removeAnswer
      (done ("entries dropped up to id " ++ toString uptoId))

-- a time to live that is not a number is none
def ttlSecs (req : Value) : UInt64 :=
  ((req.get "ttl").bind Value.asU64).getD 0

def kvSet (s : σ) (db key : String) (req : Value) : Handled × σ :=
  acquired pool s fun s =>
    match req.get "val" with
    | some v =>
      respond pool s (StreamClient.kvSet db key (codecs.toVec v) (ttlSecs req)) StreamClient.kvSetAnswer
        (done "ok")
    | none => (failure .badRequest "missing val", s)

def kvGet (s : σ) (db key : String) : Handled × σ :=
  acquired pool s fun s =>
    respond pool s (StreamClient.kvGet db key) StreamClient.kvGetAnswer fun
      | some bytes => success [("val", (codecs.fromSlice bytes).getD .null)]
      | none => failure .notFound "key not found"

def kvDel (s : σ) (db key : String) : Handled × σ :=
  acquired pool s fun s =>
    respond pool s (StreamClient.kvDel db key) StreamClient.kvDelAnswer (done "deleted")

def kvKeys (s : σ) (db : String) : Handled × σ :=
  acquired pool s fun s =>
    respond pool s (StreamClient.kvKeys db) StreamClient.kvKeysAnswer fun keys =>
      success [("keys", .ofStrings keys)]

def kvFlush (s : σ) (db : String) : Handled × σ :=
  acquired pool s fun s =>
    respond pool s (StreamClient.kvFlush db) StreamClient.kvFlushAnswer (done "flushed")

def listPush (s : σ) (key : String) (req : Value) : Handled × σ :=
  acquired pool s fun s =>
    match (req.get "val").bind Value.asStr with
    | some v =>
      respond pool s (StreamClient.lPush key (StreamClient.asBytes v)) StreamClient.lPushAnswer (done "ok")
    | none => (failure .badRequest "missing val", s)

def listPushRange (s : σ) (key : String) (req : Value) : Handled × σ :=
  acquired pool s fun s =>
    match (req.get "vals").bind Value.asStrings with
    | some vals =>
      respond pool s (StreamClient.lPushRange key (vals.map StreamClient.asBytes))
        StreamClient.lPushRangeAnswer (done "ok")
    | none => (failure .badRequest "missing vals", s)

def listPop (s : σ) (key : String) : Handled × σ :=
  acquired pool s fun s =>
    respond pool s (StreamClient.lPop key) StreamClient.lPopAnswer fun
      | some val => success [("val", .string (Utf8.fromUtf8Lossy val))]
      | none => failure .notFound "list empty or not found"

def listPopRange (s : σ) (key : String) (req : Value) : Handled × σ :=
  acquired pool s fun s =>
    match (req.get "start").bind Value.asU64 with
    | none => (failure .badRequest "missing start", s)
    | some start =>
      match (req.get "end").bind Value.asU64 with
      | none => (failure .badRequest "missing end", s)
      | some stop =>
        respond pool s (StreamClient.lPopRange key start.toUInt32 stop.toUInt32)
          StreamClient.lPopRangeAnswer fun vals =>
            success [("vals", .ofStrings (vals.map Utf8.fromUtf8Lossy))]

def listPopCount (s : σ) (key : String) (req : Value) : Handled × σ :=
  acquired pool s fun s =>
    match (req.get "count").bind Value.asU64 with
    | none => (failure .badRequest "missing count", s)
    | some count =>
      respond pool s (StreamClient.lPopCount key count.toUInt32) StreamClient.lPopCountAnswer fun vals =>
        success [("vals", .ofStrings (vals.map Utf8.fromUtf8Lossy))]

def listLen (s : σ) (key : String) : Handled × σ :=
  acquired pool s fun s =>
    respond pool s (StreamClient.lLen key) StreamClient.lLenAnswer fun len =>
      success [("len", .ofU64 len)]

def listFlush (s : σ) (key : String) : Handled × σ :=
  acquired pool s fun s =>
    respond pool s (StreamClient.lFlush key) StreamClient.lFlushAnswer (done "flushed")

def health : Handled :=
  done "ok" ()

end Api

inductive HttpRequest where
  | createGroup (name : String)
  | listGroups
  | dropGroup (name : String)
  | groupStats (name : String)
  | addEntry (name : String) (req : Payload)
  | addRangeEntries (name : String) (req : List Payload)
  | readEntry (name : String) (id : UInt64)
  | readRangeEntries (name : String) (startId endId : UInt64)
  | dropEntries (group : String) (uptoId : UInt64)
  | kvSet (db key : String) (req : Value)
  | kvGet (db key : String)
  | kvDel (db key : String)
  | kvKeys (db : String)
  | kvFlush (db : String)
  | listPush (key : String) (req : Value)
  | listPushRange (key : String) (req : Value)
  | listPop (key : String)
  | listPopRange (key : String) (req : Value)
  | listPopCount (key : String) (req : Value)
  | listLen (key : String)
  | listFlush (key : String)
  | health

def HttpRequest.handle {σ : Type} (pool : ApiPool σ) (codecs : Codecs) (env : HttpEnv) (s : σ)
    : HttpRequest → Api.Handled × σ
  | .createGroup name => Api.createGroup pool s name
  | .listGroups => Api.listGroups pool s
  | .dropGroup name => Api.dropGroup pool s name
  | .groupStats name => Api.groupStats pool s name
  | .addEntry name req => Api.addEntry pool codecs env s name req
  | .addRangeEntries name req => Api.addRangeEntries pool codecs env s name req
  | .readEntry name id => Api.readEntry pool codecs s name id
  | .readRangeEntries name startId endId => Api.readRangeEntries pool codecs s name startId endId
  | .dropEntries group uptoId => Api.dropEntries pool s group uptoId
  | .kvSet db key req => Api.kvSet pool codecs s db key req
  | .kvGet db key => Api.kvGet pool codecs s db key
  | .kvDel db key => Api.kvDel pool s db key
  | .kvKeys db => Api.kvKeys pool s db
  | .kvFlush db => Api.kvFlush pool s db
  | .listPush key req => Api.listPush pool s key req
  | .listPushRange key req => Api.listPushRange pool s key req
  | .listPop key => Api.listPop pool s key
  | .listPopRange key req => Api.listPopRange pool s key req
  | .listPopCount key req => Api.listPopCount pool s key req
  | .listLen key => Api.listLen pool s key
  | .listFlush key => Api.listFlush pool s key
  | .health => (Api.health, s)

end MemStream
