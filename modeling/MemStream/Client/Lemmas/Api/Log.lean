import MemStream.Client.Lemmas.Api.Basic
import MemStream.Db.Lemmas.Base64
import MemStream.Db.Lemmas.Groups.Ranges

namespace MemStream

structure JsonLog where
  nextId : UInt64
  live : UInt64 → Option (UInt64 × Value)

namespace JsonLog

def empty : JsonLog where
  nextId := 1
  live := fun _ => none

def add (log : JsonLog) (entry : UInt64 × Value) : JsonLog where
  nextId := log.nextId + 1
  live := fun id => if id = log.nextId then some entry else log.live id

def addAll (log : JsonLog) (entries : List (UInt64 × Value)) : JsonLog :=
  entries.foldl add log

def trim (log : JsonLog) (cutoffId : UInt64) : JsonLog :=
  { log with live := fun id => if id < cutoffId then none else log.live id }

end JsonLog

abbrev JsonLogs := String → Option JsonLog

def JsonLogs.set (logs : JsonLogs) (name : String) (log : Option JsonLog) : JsonLogs :=
  fun name' => if name' = name then log else logs name'

theorem JsonLogs.set_self {logs : JsonLogs} {name : String} {log : Option JsonLog} (h : logs name = log)
    : logs.set name log = logs := by
  funext name'
  unfold JsonLogs.set
  split
  . next heq => rw [heq, h]
  . rfl

def Value.ofPayload (payload : Payload) : Value :=
  .json (payload.entries.map fun e => (e.1, e.2))

namespace Codecs

variable (codecs : Codecs)

structure RoundTrips : Prop where
  base64 : ∀ bytes, codecs.decode (codecs.encode bytes) = some bytes
  zstd : ∀ bytes, codecs.decodeAll (codecs.encodeAll bytes) = some bytes

def ReadsPayload (payload : Payload) : Prop :=
  ∀ order, codecs.fromSlice (codecs.toVec (.object (Api.fieldsOf order payload))) = some (.ofPayload payload)

variable {codecs}

theorem RoundTrips.decode_encodePayloadB64 (h : codecs.RoundTrips) {payload : Payload}
    (hreads : codecs.ReadsPayload payload) (order : Assoc.Order String)
    : Api.decodePayloadB64 codecs (Api.encodePayloadB64 codecs order payload)
        =
      some (.ofPayload payload) := by
  unfold Api.decodePayloadB64 Api.encodePayloadB64
  dsimp only
  rw [h.zstd, Option.bind_eq_bind, Option.bind_some]
  have htext (s : String) : String.fromUTF8? ⟨(StreamClient.asBytes s).toArray⟩ = some s :=
    Utf8.fromUTF8?_toUTF8 s
  rw [htext, Option.bind_eq_bind, Option.bind_some, h.base64, Option.bind_some, hreads order]
  rfl

end Codecs

namespace HttpRequest

variable (codecs : Codecs) (env : HttpEnv)

/-- A message of the server, or no response if the server has none. -/
def Refused (res : Api.Handled) : Prop :=
  (∃ e, res = Api.failure .badRequest e) ∨ res = .panic

def posted (req : List Payload) : List (UInt64 × Value) :=
  req.zipIdx.map fun e => ((env.now e.2).toUInt64, .ofPayload e.1)

def listed (entry : UInt64 × UInt64 × Value) : Value :=
  .json [("id", .ofU64 entry.1), ("timestamp", .ofU64 entry.2.1), ("payload", entry.2.2)]

/-- What a request does to the logs, and what it is answered. -/
def Logged (logs : JsonLogs) (res : Api.Handled) (logs' : JsonLogs) : HttpRequest → Prop
  | .createGroup name =>
    (logs name = none ∧ res = Api.done "group created" () ∧ logs' = logs.set name (some .empty))
      ∨ (Refused res ∧ logs' = logs)
  | .dropGroup name =>
    match logs name with
    | some _ => res = Api.done "group dropped" () ∧ logs' = logs.set name none
    | none => Refused res ∧ logs' = logs
  | .listGroups =>
    logs' = logs
      ∧ ∃ groups : List String,
          groups.Nodup
            ∧ (∀ name, name ∈ groups ↔ (logs name).isSome)
            ∧ res = Api.success [("groups", .ofStrings groups)]
  | .groupStats name =>
    logs' = logs
      ∧ match logs name with
        | some log =>
          ∃ entries segments,
            res = Api.success
              [("entries", .ofU64 entries), ("segments", .ofU64 segments), ("next_id", .ofU64 log.nextId)]
        | none => Refused res
  | .addEntry name req =>
    (∃ log,
        logs name = some log
          ∧ res = Api.success [("status", .string "entry added"), ("id", .ofU64 log.nextId)]
          ∧ logs' = logs.set name (some (log.addAll (posted env [req]))))
      ∨ (Refused res ∧ logs' = logs)
  | .addRangeEntries name req =>
    (∃ log last,
        logs name = some log
          ∧ last + 1 = (log.addAll (posted env req)).nextId
          ∧ res = Api.success
              [("status", .string "entries added"), ("first", .ofU64 log.nextId), ("last", .ofU64 last)]
          ∧ logs' = logs.set name (some (log.addAll (posted env req))))
      -- the entries before one that is refused stay
      ∨ (Refused res ∧ (logs' = logs
          ∨ ∃ log n, logs name = some log ∧ logs' = logs.set name (some (log.addAll ((posted env req).take n)))))
  | .readEntry name id =>
    logs' = logs
      ∧ match (logs name).bind fun log => log.live id with
        | some (timestamp, payload) =>
          res = Api.success
            [("id", .ofU64 id), ("timestamp", .string (Api.entryTime codecs timestamp)),
              ("payload", payload)]
        | none => Refused res
  | .readRangeEntries name startId endId =>
    logs' = logs
      ∧ match logs name with
        | some log =>
          if startId ≤ endId ∧ 40 * (endId - startId + 1).toNat ≤ 2 ^ 63 - 1
              ∨ endId.toNat + 1 = startId.toNat then
            ∃ entries : List (UInt64 × UInt64 × Value),
              entries.Pairwise (fun e e' => e.1 < e'.1)
                ∧ (∀ id timestamp payload,
                    (id, timestamp, payload) ∈ entries
                      ↔ log.live id = some (timestamp, payload) ∧ startId ≤ id ∧ id ≤ endId)
                ∧ res = Api.success [("entries", .array (entries.map listed))]
          else
            Refused res
        | none => Refused res
  | .dropEntries group uptoId =>
    match logs group with
    | some log =>
      res = Api.done ("entries dropped up to id " ++ toString uptoId) ()
        ∧ logs' = logs.set group (some (log.trim uptoId))
    | none => Refused res ∧ logs' = logs
  | _ => logs' = logs

/-- The payloads that are posted can be read back. -/
def Readable : HttpRequest → Prop
  | .addEntry _ req => codecs.ReadsPayload req
  | .addRangeEntries _ req => ∀ payload ∈ req, codecs.ReadsPayload payload
  | _ => True

end HttpRequest

def Decoded (codecs : Codecs) (entry : UInt64 × List UInt8) (val : UInt64 × Value) : Prop :=
  entry.1 = val.1 ∧ Api.decodePayloadB64 codecs entry.2 = some val.2

theorem decoded_posted {codecs : Codecs} (h : codecs.RoundTrips) (env : HttpEnv) {req : List Payload}
    (hreads : ∀ payload ∈ req, codecs.ReadsPayload payload)
    : List.Forall₂ (Decoded codecs)
        (req.zipIdx.map fun e => ((env.now e.2).toUInt64, Api.encodePayloadB64 codecs (env.order e.2) e.1))
        (HttpRequest.posted env req) := by
  unfold HttpRequest.posted
  rw [List.forall₂_map_left_iff, List.forall₂_map_right_iff, List.forall₂_same]
  intro e he
  exact ⟨rfl, h.decode_encodePayloadB64 (hreads e.1 (List.fst_mem_of_mem_zipIdx he)) (env.order e.2)⟩

namespace LogSpec

structure HoldsJson (codecs : Codecs) (log : LogSpec) (json : JsonLog) : Prop where
  nextId : log.nextId = json.nextId
  live : ∀ id, Option.Rel (Decoded codecs) (log.live id) (json.live id)

variable {codecs : Codecs} {log : LogSpec} {json : JsonLog}

theorem holdsJson_empty (codecs : Codecs) : empty.HoldsJson codecs .empty where
  nextId := rfl
  live := fun _ => .none

theorem HoldsJson.live_of_log (h : log.HoldsJson codecs json) {id timestamp : UInt64} {bytes : List UInt8}
    (hlive : log.live id = some (timestamp, bytes))
    : ∃ payload,
        Api.decodePayloadB64 codecs bytes = some payload ∧ json.live id = some (timestamp, payload) := by
  have hrel := h.live id
  rw [hlive] at hrel
  cases hval : json.live id with
  | none =>
    rw [hval] at hrel
    cases hrel
  | some val =>
    rw [hval] at hrel
    cases hrel with
    | some hdecoded =>
      rcases val with ⟨timestamp', payload⟩
      rcases hdecoded with ⟨htime, hpayload⟩
      cases htime
      exact ⟨payload, hpayload, rfl⟩

theorem HoldsJson.live_of_json (h : log.HoldsJson codecs json) {id timestamp : UInt64} {payload : Value}
    (hlive : json.live id = some (timestamp, payload))
    : ∃ bytes,
        log.live id = some (timestamp, bytes) ∧ Api.decodePayloadB64 codecs bytes = some payload := by
  have hrel := h.live id
  rw [hlive] at hrel
  cases hentry : log.live id with
  | none =>
    rw [hentry] at hrel
    cases hrel
  | some entry =>
    rw [hentry] at hrel
    cases hrel with
    | some hdecoded =>
      rcases entry with ⟨timestamp', bytes⟩
      rcases hdecoded with ⟨htime, hpayload⟩
      cases htime
      exact ⟨bytes, rfl, hpayload⟩

theorem HoldsJson.trim (h : log.HoldsJson codecs json) (cutoffId : UInt64)
    : (log.trim cutoffId).HoldsJson codecs (json.trim cutoffId) := by
  refine ⟨h.nextId, ?_⟩
  intro id
  simp only [LogSpec.trim, JsonLog.trim]
  split
  . exact .none
  . exact h.live id

theorem HoldsJson.append (h : log.HoldsJson codecs json) (alloc : Bool) {entry : UInt64 × List UInt8}
    {val : UInt64 × Value} (hdecoded : Decoded codecs entry val)
    : ((log.append alloc entry.1 entry.2).1 = .ok json.nextId
          ∧ (log.append alloc entry.1 entry.2).2.HoldsJson codecs (json.add val))
        ∨ ((log.append alloc entry.1 entry.2).1.isOk = false
            ∧ (log.append alloc entry.1 entry.2).2.HoldsJson codecs json) := by
  unfold LogSpec.append
  rcases log.space.claim alloc (SegLog.headerSize + entry.2.length) with ⟨res, space⟩
  cases res with
  | ok _ =>
    left
    refine ⟨congrArg Outcome.ok h.nextId, ?_⟩
    unfold enter
    refine ⟨congrArg (· + 1) h.nextId, ?_⟩
    intro id
    simp only [JsonLog.add, ← h.nextId]
    split
    . exact .some hdecoded
    . exact h.live id
  | err e => exact .inr ⟨rfl, h.nextId, h.live⟩
  | panic => exact .inr ⟨rfl, h.nextId, h.live⟩

theorem HoldsJson.appendRest (h : log.HoldsJson codecs json) (alloc : Nat → Bool) {lastId : UInt64}
    (hlast : lastId + 1 = json.nextId) {entries : List (UInt64 × List UInt8)}
    {vals : List (UInt64 × Value)} (hdecoded : List.Forall₂ (Decoded codecs) entries vals)
    : (∃ last,
          (log.appendRest alloc lastId entries).1 = .ok last
            ∧ last + 1 = (json.addAll vals).nextId
            ∧ (log.appendRest alloc lastId entries).2.HoldsJson codecs (json.addAll vals))
        ∨ ((log.appendRest alloc lastId entries).1.isOk = false
            ∧ ∃ n, (log.appendRest alloc lastId entries).2.HoldsJson codecs (json.addAll (vals.take n))) := by
  induction hdecoded generalizing log json alloc lastId with
  | nil => exact .inl ⟨lastId, rfl, hlast, h⟩
  | @cons entry val entries vals hentry _ ih =>
    rcases entry with ⟨timestamp, payload⟩
    unfold LogSpec.appendRest
    rcases happend : log.append (alloc 0) timestamp payload with ⟨res, log'⟩
    have hlog := h.append (alloc 0) hentry
    rw [happend] at hlog
    rcases hlog with ⟨hres, hholds⟩ | ⟨hres, hholds⟩
    . dsimp only at hres
      rw [hres]
      rcases ih hholds (fun i => alloc (i + 1)) rfl with hok | ⟨hrefused, n, hrest⟩
      . exact .inl hok
      . exact .inr ⟨hrefused, n + 1, hrest⟩
    . cases res with
      | ok id => cases hres
      | err e => exact .inr ⟨rfl, 0, hholds⟩
      | panic => exact .inr ⟨rfl, 0, hholds⟩

theorem HoldsJson.appendAll (h : log.HoldsJson codecs json) (alloc : Nat → Bool) {entry : UInt64 × List UInt8}
    {val : UInt64 × Value} (hdecoded : Decoded codecs entry val) {entries : List (UInt64 × List UInt8)}
    {vals : List (UInt64 × Value)} (hrest : List.Forall₂ (Decoded codecs) entries vals)
    : (∃ last,
          (log.appendAll alloc entry.1 entry.2 entries).1 = .ok (json.nextId, last)
            ∧ last + 1 = (json.addAll (val :: vals)).nextId
            ∧ (log.appendAll alloc entry.1 entry.2 entries).2.HoldsJson codecs (json.addAll (val :: vals)))
        ∨ ((log.appendAll alloc entry.1 entry.2 entries).1.isOk = false
            ∧ ∃ n, (log.appendAll alloc entry.1 entry.2 entries).2.HoldsJson codecs
                (json.addAll ((val :: vals).take n))) := by
  unfold LogSpec.appendAll
  rcases happend : log.append (alloc 0) entry.1 entry.2 with ⟨res, log'⟩
  have hlog := h.append (alloc 0) hdecoded
  rw [happend] at hlog
  rcases hlog with ⟨hres, hholds⟩ | ⟨hres, hholds⟩
  . dsimp only at hres
    rw [hres]
    rcases hholds.appendRest (fun i => alloc (i + 1)) rfl hrest with
      ⟨last, hok, hnext, hlog'⟩ | ⟨hrefused, n, hlog'⟩
    . left
      refine ⟨last, ?_, hnext, hlog'⟩
      dsimp only
      rw [hok]
      rfl
    . right
      refine ⟨?_, n + 1, hlog'⟩
      dsimp only
      cases hrestRes : (log'.appendRest (fun i => alloc (i + 1)) json.nextId entries).1 with
      | ok last =>
        rw [hrestRes] at hrefused
        cases hrefused
      | err e => rfl
      | panic => rfl
  . cases res with
    | ok id => cases hres
    | err e => exact .inr ⟨rfl, 0, hholds⟩
    | panic => exact .inr ⟨rfl, 0, hholds⟩

end LogSpec

theorem mapM_eq_some {α β : Type} {f : α → Option β} {as : List α} (h : ∀ a ∈ as, (f a).isSome)
    : as.mapM f = some (as.filterMap f) := by
  induction as with
  | nil => rfl
  | cons a as ih =>
    rcases Option.isSome_iff_exists.mp (h a (by simp)) with ⟨b, hb⟩
    rw [List.mapM_cons, hb, ih fun a' ha => h a' (by simp [ha]), List.filterMap_cons_some hb]
    rfl

theorem LogSpec.HoldsJson.exists_listed {codecs : Codecs} {log : LogSpec} {json : JsonLog}
    (h : log.HoldsJson codecs json) {startId endId : UInt64}
    {entries : List (UInt64 × UInt64 × List UInt8)} (hsorted : entries.Pairwise fun e e' => e.1 < e'.1)
    (hmem : ∀ id timestamp payload,
      (id, timestamp, payload) ∈ entries
        ↔ log.live id = some (timestamp, payload) ∧ startId ≤ id ∧ id ≤ endId)
    : ∃ vals : List (UInt64 × UInt64 × Value),
        vals.Pairwise (fun e e' => e.1 < e'.1)
          ∧ (∀ id timestamp payload,
              (id, timestamp, payload) ∈ vals
                ↔ json.live id = some (timestamp, payload) ∧ startId ≤ id ∧ id ≤ endId)
          ∧ (entries.mapM fun e =>
                (Api.decodePayloadB64 codecs e.2.2).map fun payload =>
                  HttpRequest.listed (e.1, e.2.1, payload))
              = some (vals.map HttpRequest.listed) := by
  have hdecoded : ∀ e ∈ entries, ∃ payload,
      Api.decodePayloadB64 codecs e.2.2 = some payload ∧ json.live e.1 = some (e.2.1, payload) := by
    intro e he
    exact h.live_of_log ((hmem e.1 e.2.1 e.2.2).mp he).1
  refine ⟨entries.filterMap fun e =>
    (Api.decodePayloadB64 codecs e.2.2).map fun payload => (e.1, e.2.1, payload), ?_, ?_, ?_⟩
  . rw [List.pairwise_filterMap]
    apply hsorted.imp
    intro e e' hlt val hval val' hval'
    rcases Option.map_eq_some_iff.mp hval with ⟨_, _, rfl⟩
    rcases Option.map_eq_some_iff.mp hval' with ⟨_, _, rfl⟩
    exact hlt
  . intro id timestamp payload
    rw [List.mem_filterMap]
    constructor
    . rintro ⟨e, he, hval⟩
      rcases Option.map_eq_some_iff.mp hval with ⟨payload', hpayload, heq⟩
      cases heq
      rcases hdecoded e he with ⟨payload', hpayload', hlive⟩
      rw [hpayload, Option.some.injEq] at hpayload'
      rw [hpayload']
      exact ⟨hlive, ((hmem e.1 e.2.1 e.2.2).mp he).2⟩
    . rintro ⟨hval, hrange⟩
      rcases h.live_of_json hval with ⟨bytes, hentry, hpayload⟩
      refine ⟨(id, timestamp, bytes), (hmem id timestamp bytes).mpr ⟨hentry, hrange⟩, ?_⟩
      dsimp only
      rw [hpayload]
      rfl
  . rw [mapM_eq_some, List.map_filterMap]
    . congr 2
      funext e
      rw [Option.map_map]
      rfl
    . intro e he
      rcases hdecoded e he with ⟨payload, hpayload, _⟩
      rw [hpayload]
      rfl

structure HoldsLogs (buildKey : String → UInt64 → UInt64) (codecs : Codecs) (logs : JsonLogs)
    (gm : GroupManager) : Prop where
  inv : gm.Inv buildKey
  logs : ∀ name, Option.Rel (LogSpec.HoldsJson codecs) (gm.abs name) (logs name)

/-- The server does what the logs allow, and the handler responds what they say. -/
def Serves (buildKey : String → UInt64 → UInt64) (codecs : Codecs) (logs : JsonLogs) (env : HttpEnv)
    (http : HttpRequest) (req : Request) (res : Outcome DBError Reply × DB) : Prop :=
  ∃ handled logs',
    http.Logged codecs env logs handled logs'
      ∧ (∀ body, req.answer body = Request.received res.1 → http.response codecs env body = handled)
      ∧ HoldsLogs buildKey codecs logs' res.2.groupManager

structure Performs {α : Type} (op : Outcome GroupError α × GroupManager) (wrap : GroupError → DBError)
    (f : α → Reply) (res : Outcome DBError Reply × DB) : Prop where
  result : res.1 = (op.1.mapErr wrap).map f
  groups : res.2.groupManager = op.2

namespace Performs

variable {α : Type} {op : Outcome GroupError α × GroupManager} {wrap : GroupError → DBError} {f : α → Reply}
  {res : Outcome DBError Reply × DB} {buildKey : String → UInt64 → UInt64} {codecs : Codecs}
  {logs logs' : JsonLogs} {env : HttpEnv} {http : HttpRequest} {req : Request}

theorem of_log (db : DB) (op : Outcome GroupError α × GroupManager) (wrap : GroupError → DBError)
    (f : α → Reply) (entry : AofEntry)
    : Performs op wrap f (Request.reply ({ db with groupManager := op.2 }.log op.1 wrap entry) f) := by
  refine ⟨rfl, ?_⟩
  unfold Request.reply DB.log
  split
  . rfl
  . rfl

theorem serves (h : Performs op wrap f res) {val : α} (hok : op.1 = .ok val) {handled : Api.Handled}
    (hlogged : http.Logged codecs env logs handled logs')
    (hresponse : ∀ body, req.answer body = .ok (f val).received → http.response codecs env body = handled)
    (hholds : HoldsLogs buildKey codecs logs' op.2)
    : Serves buildKey codecs logs env http req res := by
  refine ⟨handled, logs', hlogged, ?_, ?_⟩
  . intro body hanswer
    rw [h.result, hok] at hanswer
    exact hresponse body hanswer
  . rw [h.groups]
    exact hholds

theorem refused (h : Performs op wrap f res) (hsends : http.request codecs env = some req)
    (hres : op.1.isOk = false)
    (hlogged : ∀ handled, HttpRequest.Refused handled → http.Logged codecs env logs handled logs')
    (hholds : HoldsLogs buildKey codecs logs' op.2)
    : Serves buildKey codecs logs env http req res := by
  have hok : res.1.isOk = false := by
    rw [h.result, Outcome.isOk_map, Outcome.isOk_mapErr]
    exact hres
  refine ⟨HttpRequest.refusal res.1, logs', hlogged _ ?_, ?_, ?_⟩
  . cases hcase : res.1 with
    | ok reply =>
      rw [hcase] at hok
      cases hok
    | err e => exact .inl ⟨_, rfl⟩
    | panic => exact .inr rfl
  . intro body hanswer
    exact HttpRequest.response_of_refused hsends hok hanswer
  . rw [h.groups]
    exact hholds

end Performs

namespace HoldsLogs

variable {buildKey : String → UInt64 → UInt64} {codecs : Codecs} {logs : JsonLogs} {gm gm' : GroupManager}

theorem of_new {db : DB} {events : Option (List AofEntry)} (hdb : DB.new true events = .ok db)
    : HoldsLogs buildKey codecs (fun _ => none) db.groupManager := by
  have hempty : db.groupManager = .new := by
    rw [DB.new_eq, Outcome.ok.injEq] at hdb
    rw [← hdb]
  rw [hempty]
  exact ⟨GroupManager.inv_new buildKey, fun _ => .none⟩

theorem same (h : HoldsLogs buildKey codecs logs gm) (hinv : gm'.Inv buildKey) (habs : gm.abs = gm'.abs)
    : HoldsLogs buildKey codecs logs gm' := by
  refine ⟨hinv, ?_⟩
  rw [← habs]
  exact h.logs

theorem set (h : HoldsLogs buildKey codecs logs gm) (hinv : gm'.Inv buildKey) {name : String}
    {log : Option LogSpec} {json : Option JsonLog} (habs : gm.abs.set name log = gm'.abs)
    (hrel : Option.Rel (LogSpec.HoldsJson codecs) log json)
    : HoldsLogs buildKey codecs (logs.set name json) gm' := by
  refine ⟨hinv, ?_⟩
  intro name'
  rw [← habs]
  unfold Logs.set JsonLogs.set
  split
  . exact hrel
  . exact h.logs name'

theorem eq_none (h : HoldsLogs buildKey codecs logs gm) {name : String} (hlog : gm.abs name = none)
    : logs name = none := by
  have hrel := h.logs name
  rw [hlog] at hrel
  cases hjson : logs name with
  | none => rfl
  | some json =>
    rw [hjson] at hrel
    cases hrel

theorem eq_some (h : HoldsLogs buildKey codecs logs gm) {name : String} {log : LogSpec}
    (hlog : gm.abs name = some log)
    : ∃ json, logs name = some json ∧ log.HoldsJson codecs json := by
  have hrel := h.logs name
  rw [hlog] at hrel
  cases hjson : logs name with
  | none =>
    rw [hjson] at hrel
    cases hrel
  | some json =>
    rw [hjson] at hrel
    cases hrel with
    | some hholds => exact ⟨json, rfl, hholds⟩

theorem lookup_eq_none (h : HoldsLogs buildKey codecs logs gm) {name : String}
    (hgrp : gm.groups.lookup name = none)
    : logs name = none := by
  apply h.eq_none
  unfold GroupManager.abs
  rw [hgrp]
  rfl

theorem lookup_eq_some (h : HoldsLogs buildKey codecs logs gm) {name : String} {grp : Group}
    (hgrp : gm.groups.lookup name = some grp)
    : ∃ json, logs name = some json ∧ grp.log.abs.HoldsJson codecs json := by
  apply h.eq_some
  unfold GroupManager.abs
  rw [hgrp]
  rfl

variable {db : DB} {name : String} (h : HoldsLogs buildKey codecs logs db.groupManager) (env : HttpEnv)
  (senv : Env)

include h

theorem createGroup (name : String)
    : Serves buildKey codecs logs env (.createGroup name) (.createGroup name)
        ((Request.createGroup name).perform buildKey db senv) := by
  have hperforms : Performs (db.groupManager.createGroup senv.alloc name) .logCreateGroupError
      (fun _ => .done) ((Request.createGroup name).perform buildKey db senv) :=
    Performs.of_log db _ _ _ (.logCreateGroup name)
  have ⟨hinv, hspec⟩ := h.inv.createGroup_refines senv.alloc name
  rcases hop : db.groupManager.createGroup senv.alloc name with ⟨res, gm⟩
  rw [hop] at hperforms hinv hspec
  dsimp only at hinv hspec
  unfold Logs.createGroup at hspec
  cases hlog : db.groupManager.abs name with
  | some log =>
    rw [hlog] at hspec
    rcases Prod.mk.inj hspec with ⟨hres, habs⟩
    apply hperforms.refused rfl
    . dsimp only
      rw [← hres]
      rfl
    . intro handled hrefused
      exact .inr ⟨hrefused, rfl⟩
    . exact h.same hinv habs
  | none =>
    rw [hlog] at hspec
    dsimp only at hspec
    split at hspec
    . rcases Prod.mk.inj hspec with ⟨hres, habs⟩
      apply hperforms.serves
      . exact hres.symm
      . exact .inl ⟨h.eq_none hlog, rfl, rfl⟩
      . intro body hanswer
        rcases Outcome.map_eq_ok hanswer with ⟨val, hok, _⟩
        show (Api.respond (Api.answering body) [] _ _ _).1 = _
        rw [Api.respond_answering, hok]
        rfl
      . exact h.set hinv habs (.some (LogSpec.holdsJson_empty codecs))
    . rcases Prod.mk.inj hspec with ⟨hres, habs⟩
      apply hperforms.refused rfl
      . dsimp only
        rw [← hres]
        rfl
      . intro handled hrefused
        exact .inr ⟨hrefused, rfl⟩
      . exact h.same hinv habs

theorem dropGroup (name : String)
    : Serves buildKey codecs logs env (.dropGroup name) (.dropGroup name)
        ((Request.dropGroup name).perform buildKey db senv) := by
  have hperforms : Performs (db.groupManager.dropGroup name) .logDropGroupError (fun _ => .done)
      ((Request.dropGroup name).perform buildKey db senv) :=
    Performs.of_log db _ _ _ (.logDropGroup name)
  have ⟨hinv, hspec⟩ := h.inv.dropGroup_refines name
  rcases hop : db.groupManager.dropGroup name with ⟨res, gm⟩
  rw [hop] at hperforms hinv hspec
  dsimp only at hinv hspec
  unfold Logs.dropGroup at hspec
  cases hlog : db.groupManager.abs name with
  | some log =>
    rcases h.eq_some hlog with ⟨json, hjson, _⟩
    rw [hlog] at hspec
    rcases Prod.mk.inj hspec with ⟨hres, habs⟩
    apply hperforms.serves
    . exact hres.symm
    . dsimp only [HttpRequest.Logged]
      rw [hjson]
      exact ⟨rfl, rfl⟩
    . intro body hanswer
      rcases Outcome.map_eq_ok hanswer with ⟨val, hok, _⟩
      show (Api.respond (Api.answering body) [] _ _ _).1 = _
      rw [Api.respond_answering, hok]
      rfl
    . exact h.set hinv habs .none
  | none =>
    have hjson := h.eq_none hlog
    rw [hlog] at hspec
    rcases Prod.mk.inj hspec with ⟨hres, habs⟩
    apply hperforms.refused rfl
    . dsimp only
      rw [← hres]
      rfl
    . intro handled hrefused
      dsimp only [HttpRequest.Logged]
      rw [hjson]
      exact ⟨hrefused, rfl⟩
    . exact h.same hinv habs

theorem addEntry (hcodecs : codecs.RoundTrips) {name : String} {payload : Payload}
    (hreads : codecs.ReadsPayload payload) {req : Request}
    (hsends : (HttpRequest.addEntry name payload).request codecs env = some req)
    : Serves buildKey codecs logs env (.addEntry name payload) req (req.perform buildKey db senv) := by
  cases hsends
  let entry : UInt64 × List UInt8 :=
    ((env.now 0).toUInt64, Api.encodePayloadB64 codecs (env.order 0) payload)
  have hdecoded : Decoded codecs entry ((env.now 0).toUInt64, .ofPayload payload) :=
    ⟨rfl, hcodecs.decode_encodePayloadB64 hreads (env.order 0)⟩
  have hperforms : Performs
      (db.groupManager.add buildKey (senv.alloc 0) (senv.instant 0) name entry.1 entry.2)
      .logAppendError .u64 ((Request.add name entry.1 entry.2).perform buildKey db senv) :=
    Performs.of_log db _ _ _ (.logAdd name entry.1 entry.2)
  have ⟨hinv, hspec⟩ := h.inv.add_refines (senv.alloc 0) (senv.instant 0) name entry.1 entry.2
  rcases hop : db.groupManager.add buildKey (senv.alloc 0) (senv.instant 0) name entry.1 entry.2 with ⟨res, gm⟩
  rw [hop] at hperforms hinv hspec
  dsimp only at hinv hspec
  unfold Logs.add Logs.onLog at hspec
  have hrefused : ∀ handled, HttpRequest.Refused handled →
      (HttpRequest.addEntry name payload).Logged codecs env logs handled logs :=
    fun handled hrefused => .inr ⟨hrefused, rfl⟩
  cases hlog : db.groupManager.abs name with
  | some log =>
    rcases h.eq_some hlog with ⟨json, hjson, hholds⟩
    rw [hlog] at hspec
    rcases Prod.mk.inj hspec with ⟨hres, habs⟩
    rcases hholds.append (senv.alloc 0) hdecoded with ⟨hok, hlog'⟩ | ⟨hnot, hlog'⟩
    . apply hperforms.serves
      . dsimp only
        rw [← hres, hok]
        rfl
      . exact .inl ⟨json, hjson, rfl, rfl⟩
      . intro body hanswer
        rcases Outcome.map_eq_ok hanswer with ⟨val, hok, heq⟩
        cases heq
        show (Api.respond (Api.answering body) [] _ _ _).1 = _
        rw [Api.respond_answering, hok]
        rfl
      . exact h.set hinv habs (.some hlog')
    . apply hperforms.refused rfl
      . dsimp only
        rw [← hres, Outcome.isOk_mapErr]
        exact hnot
      . exact hrefused
      . rw [← JsonLogs.set_self hjson]
        exact h.set hinv habs (.some hlog')
  | none =>
    rw [hlog] at hspec
    rcases Prod.mk.inj hspec with ⟨hres, habs⟩
    apply hperforms.refused rfl
    . dsimp only
      rw [← hres]
      rfl
    . exact hrefused
    . exact h.same hinv habs

theorem dropEntries (group : String) (uptoId : UInt64)
    : Serves buildKey codecs logs env (.dropEntries group uptoId) (.remove group uptoId)
        ((Request.remove group uptoId).perform buildKey db senv) := by
  have hperforms : Performs (db.groupManager.remove buildKey group uptoId) .logRemoveError
      (fun _ => .done) ((Request.remove group uptoId).perform buildKey db senv) :=
    Performs.of_log db _ _ _ (.logRemove group uptoId)
  have ⟨hinv, hspec⟩ := h.inv.remove_refines group uptoId
  rcases hop : db.groupManager.remove buildKey group uptoId with ⟨res, gm⟩
  rw [hop] at hperforms hinv hspec
  dsimp only at hinv hspec
  unfold Logs.remove Logs.onLog at hspec
  cases hlog : db.groupManager.abs group with
  | some log =>
    rcases h.eq_some hlog with ⟨json, hjson, hholds⟩
    rw [hlog] at hspec
    rcases Prod.mk.inj hspec with ⟨hres, habs⟩
    apply hperforms.serves
    . exact hres.symm
    . dsimp only [HttpRequest.Logged]
      rw [hjson]
      exact ⟨rfl, rfl⟩
    . intro body hanswer
      rcases Outcome.map_eq_ok hanswer with ⟨val, hok, _⟩
      show (Api.respond (Api.answering body) [] _ _ _).1 = _
      rw [Api.respond_answering, hok]
      rfl
    . exact h.set hinv habs (.some (hholds.trim uptoId))
  | none =>
    have hjson := h.eq_none hlog
    rw [hlog] at hspec
    rcases Prod.mk.inj hspec with ⟨hres, habs⟩
    apply hperforms.refused rfl
    . dsimp only
      rw [← hres]
      rfl
    . intro handled hrefused
      dsimp only [HttpRequest.Logged]
      rw [hjson]
      exact ⟨hrefused, rfl⟩
    . exact h.same hinv habs

theorem addRangeEntries (hcodecs : codecs.RoundTrips) {name : String} {payloads : List Payload}
    (hreads : ∀ payload ∈ payloads, codecs.ReadsPayload payload) {req : Request}
    (hsends : (HttpRequest.addRangeEntries name payloads).request codecs env = some req)
    : Serves buildKey codecs logs env (.addRangeEntries name payloads) req
        (req.perform buildKey db senv) := by
  cases hsends
  have hdecoded := decoded_posted hcodecs env hreads
  generalize hentries : (payloads.zipIdx.map fun e =>
    ((env.now e.2).toUInt64, Api.encodePayloadB64 codecs (env.order e.2) e.1)) = entries at hdecoded ⊢
  have hsends : (HttpRequest.addRangeEntries name payloads).request codecs env
      = some (.addRange name entries) := by
    rw [← hentries]
    rfl
  have hperforms : Performs (db.groupManager.addRange buildKey (Stores.addRangeEnv senv) name entries)
      .logAppendRangeError (fun ids => .u64Pair ids.1 ids.2)
      ((Request.addRange name entries).perform buildKey db senv) :=
    Performs.of_log db _ _ _ (.logAddRange name entries)
  have ⟨hinv, hspec⟩ := h.inv.addRange_refines (Stores.addRangeEnv senv) name entries
  rcases hop : db.groupManager.addRange buildKey (Stores.addRangeEnv senv) name entries with ⟨res, gm⟩
  rw [hop] at hperforms hinv hspec
  dsimp only at hinv hspec
  have hnothing (hres : res.isOk = false) (habs : db.groupManager.abs = gm.abs)
      : Serves buildKey codecs logs env (.addRangeEntries name payloads) (.addRange name entries)
          ((Request.addRange name entries).perform buildKey db senv) := by
    apply hperforms.refused hsends
    . exact hres
    . exact fun handled hrefused => .inr ⟨hrefused, .inl rfl⟩
    . exact h.same hinv habs
  unfold Logs.addRange Logs.onLog at hspec
  generalize hvals : HttpRequest.posted env payloads = vals at hdecoded
  cases hdecoded with
  | nil =>
    rcases Prod.mk.inj hspec with ⟨hres, habs⟩
    apply hnothing _ habs
    rw [← hres]
    rfl
  | @cons entry val entries vals hentry hrest =>
    cases hlog : db.groupManager.abs name with
    | none =>
      rw [hlog] at hspec
      rcases Prod.mk.inj hspec with ⟨hres, habs⟩
      apply hnothing _ habs
      rw [← hres]
      rfl
    | some log =>
      rcases h.eq_some hlog with ⟨json, hjson, hholds⟩
      rw [hlog] at hspec
      rcases Prod.mk.inj hspec with ⟨hres, habs⟩
      rcases hholds.appendAll (fun i => (Stores.addRangeEnv senv i).1) hentry hrest with
        ⟨last, hok, hnext, hlog'⟩ | ⟨hnot, n, hlog'⟩
      . apply hperforms.serves
        . dsimp only
          rw [← hres, hok]
          rfl
        . dsimp only [HttpRequest.Logged]
          rw [hvals]
          exact .inl ⟨json, last, hjson, hnext, rfl, rfl⟩
        . intro body hanswer
          rcases Outcome.map_eq_ok hanswer with ⟨⟨first, last'⟩, hok, heq⟩
          cases heq
          show (Api.respond (Api.answering body) [] _ _ _).1 = _
          rw [Api.respond_answering, hok]
          rfl
        . exact h.set hinv habs (.some hlog')
      . apply hperforms.refused hsends
        . dsimp only
          rw [← hres, Outcome.isOk_mapErr]
          exact hnot
        . intro handled hrefused
          dsimp only [HttpRequest.Logged]
          rw [hvals]
          exact .inr ⟨hrefused, .inr ⟨json, n, hjson, rfl⟩⟩
        . exact h.set hinv habs (.some hlog')

theorem readEntry (hinj : Function.Injective (buildKey name)) (id : UInt64)
    : Serves buildKey codecs logs env (.readEntry name id) (.read name id)
        ((Request.read name id).perform buildKey db senv) := by
  have hperforms : Performs (db.groupManager.read buildKey (senv.instant 0) name id) .logReadError
      (fun entry => .entry entry.1 entry.2.1 entry.2.2) ((Request.read name id).perform buildKey db senv) :=
    ⟨rfl, rfl⟩
  have ⟨hinv, habs⟩ := h.inv.read_frame (senv.instant 0) name id
  have hholds := h.same hinv habs.symm
  cases hgrp : db.groupManager.groups.lookup name with
  | none =>
    have hjson := h.lookup_eq_none hgrp
    apply hperforms.refused rfl
    . unfold GroupManager.read GroupManager.onGroup
      rw [hgrp]
      rfl
    . intro handled hrefused
      dsimp only [HttpRequest.Logged]
      rw [hjson]
      exact ⟨rfl, hrefused⟩
    . exact hholds
  | some grp =>
    rcases h.lookup_eq_some hgrp with ⟨json, hjson, hdecoded⟩
    have hres : (db.groupManager.read buildKey (senv.instant 0) name id).1
        = (grp.log.read id).mapErr .logError := by
      unfold GroupManager.read GroupManager.onGroup
      rw [hgrp]
      exact (h.inv name grp hgrp).read_eq hinj (senv.instant 0) id
    rw [(h.inv name grp hgrp).log.read_eq] at hres
    cases hentry : grp.log.entryAt id with
    | none =>
      rw [hentry] at hres
      have hnone : json.live id = none := by
        cases hval : json.live id with
        | none => rfl
        | some val =>
          rcases hdecoded.live_of_json hval with ⟨bytes, hlive, _⟩
          cases hentry.symm.trans hlive
      apply hperforms.refused rfl
      . rw [hres]
        rfl
      . intro handled hrefused
        dsimp only [HttpRequest.Logged]
        rw [hjson, Option.bind_some, hnone]
        exact ⟨rfl, hrefused⟩
      . exact hholds
    | some entry =>
      rw [hentry] at hres
      rcases entry with ⟨timestamp, bytes⟩
      rcases hdecoded.live_of_log hentry with ⟨payload, hpayload, hval⟩
      apply hperforms.serves hres
      . dsimp only [HttpRequest.Logged]
        rw [hjson, Option.bind_some, hval]
        exact ⟨rfl, rfl⟩
      . intro body hanswer
        rcases Outcome.map_eq_ok hanswer with ⟨⟨id', timestamp', bytes'⟩, hok, heq⟩
        cases heq
        show (Api.respond (Api.answering body) [] _ _ _).1 = _
        rw [Api.respond_answering, hok]
        unfold Api.finish
        dsimp only
        rw [hpayload]
      . exact hholds

theorem readRangeEntries (hinj : Function.Injective (buildKey name)) (startId endId : UInt64)
    : Serves buildKey codecs logs env (.readRangeEntries name startId endId) (.readRange name startId endId)
        ((Request.readRange name startId endId).perform buildKey db senv) := by
  have hperforms : Performs (db.groupManager.readRange buildKey senv.instant name startId endId)
      .logReadRangeError .entryList ((Request.readRange name startId endId).perform buildKey db senv) :=
    ⟨rfl, rfl⟩
  have ⟨hinv, habs⟩ := h.inv.readRange_frame senv.instant name startId endId
  have hholds := h.same hinv habs.symm
  cases hgrp : db.groupManager.groups.lookup name with
  | none =>
    have hjson := h.lookup_eq_none hgrp
    apply hperforms.refused rfl
    . unfold GroupManager.readRange GroupManager.onGroup
      rw [hgrp]
      rfl
    . intro handled hrefused
      dsimp only [HttpRequest.Logged]
      rw [hjson]
      exact ⟨rfl, hrefused⟩
    . exact hholds
  | some grp =>
    rcases h.lookup_eq_some hgrp with ⟨json, hjson, hdecoded⟩
    have hgrpInv := h.inv name grp hgrp
    have hres : (db.groupManager.readRange buildKey senv.instant name startId endId).1
        = (grp.readRange buildKey senv.instant startId endId).1 := by
      unfold GroupManager.readRange GroupManager.onGroup
      rw [hgrp]
    have hlisted := hgrpInv.listsRange_iff hinj senv.instant startId endId
    by_cases hrange : startId ≤ endId ∧ 40 * (endId - startId + 1).toNat ≤ 2 ^ 63 - 1
        ∨ endId.toNat + 1 = startId.toNat
    . rcases hlisted.mpr hrange with ⟨entries, hok, hsorted, hmem⟩
      rcases hdecoded.exists_listed hsorted hmem with ⟨vals, hvals, hmem', hmap⟩
      apply hperforms.serves (hres.trans hok)
      . dsimp only [HttpRequest.Logged]
        rw [hjson]
        dsimp only
        rw [if_pos hrange]
        exact ⟨rfl, vals, hvals, hmem', rfl⟩
      . intro body hanswer
        rcases Outcome.map_eq_ok hanswer with ⟨entries', hok', heq⟩
        cases heq
        show (Api.respond (Api.answering body) [] _ _ _).1 = _
        rw [Api.respond_answering, hok']
        unfold Api.finish
        dsimp only
        unfold HttpRequest.listed at hmap
        rw [hmap]
        rfl
      . exact hholds
    . apply hperforms.refused rfl
      . rw [hres]
        by_cases hle : startId ≤ endId
        . have hlong : 2 ^ 63 - 1 < 40 * (endId - startId + 1).toNat := by
            apply Nat.lt_of_not_le
            intro hcap
            exact hrange (.inl ⟨hle, hcap⟩)
          rw [Group.readRange_of_too_long senv.instant hlong]
          rfl
        . rw [Group.readRange_backwards senv.instant (UInt64.not_le.mp hle),
            if_neg fun hnext => hrange (.inr hnext)]
          rfl
      . intro handled hrefused
        dsimp only [HttpRequest.Logged]
        rw [hjson]
        dsimp only
        rw [if_neg hrange]
        exact ⟨rfl, hrefused⟩
      . exact hholds

theorem listGroups
    : Serves buildKey codecs logs env .listGroups .listGroups (Request.listGroups.perform buildKey db senv) := by
  let groups := db.groupManager.listGroups senv.order
  have hperm : groups.Perm db.groupManager.groups.keys := senv.order.perm _
  refine ⟨Api.success [("groups", .ofStrings groups)], logs, ⟨rfl, groups, ?_, ?_, rfl⟩, ?_, h⟩
  . exact hperm.nodup_iff.mpr db.groupManager.groups.keys_nodup
  . intro name
    rw [hperm.mem_iff, ← AList.mem_keys, ← AList.lookup_isSome]
    have habs : (db.groupManager.abs name).isSome = (db.groupManager.groups.lookup name).isSome := by
      unfold GroupManager.abs
      rw [Option.isSome_map]
    rw [← habs]
    cases hlog : db.groupManager.abs name with
    | none =>
      rw [h.eq_none hlog]
      rfl
    | some log =>
      rcases h.eq_some hlog with ⟨json, hjson, _⟩
      rw [hjson]
      rfl
  . intro body hanswer
    rcases Outcome.map_eq_ok hanswer with ⟨groups', hok, heq⟩
    cases heq
    show (Api.respond (Api.answering body) [] _ _ _).1 = _
    rw [Api.respond_answering, hok]
    rfl

theorem groupStats (name : String)
    : Serves buildKey codecs logs env (.groupStats name) (.groupStats name)
        ((Request.groupStats name).perform buildKey db senv) := by
  have hperforms : Performs (db.groupManager.groupStats name, db.groupManager) .logGroupStatsError
      (fun stats => .stats (UInt64.ofNat stats.totalEntries) (UInt32.ofNat stats.totalSegments) stats.nextId)
      ((Request.groupStats name).perform buildKey db senv) :=
    ⟨rfl, rfl⟩
  cases hgrp : db.groupManager.groups.lookup name with
  | none =>
    have hjson := h.lookup_eq_none hgrp
    apply hperforms.refused rfl
    . unfold GroupManager.groupStats
      rw [hgrp]
      rfl
    . intro handled hrefused
      dsimp only [HttpRequest.Logged]
      rw [hjson]
      exact ⟨rfl, hrefused⟩
    . exact h
  | some grp =>
    rcases h.lookup_eq_some hgrp with ⟨json, hjson, hholds⟩
    have hres : db.groupManager.groupStats name = .ok grp.stats := by
      unfold GroupManager.groupStats
      rw [hgrp]
    have hnext : grp.stats.nextId = json.nextId := hholds.nextId
    have hlogged : (HttpRequest.groupStats name).Logged codecs env logs
        (Api.success
          [("entries", .ofU64 (UInt64.ofNat grp.stats.totalEntries)),
            ("segments", .ofU64 (UInt32.ofNat grp.stats.totalSegments).toUInt64),
            ("next_id", .ofU64 json.nextId)])
        logs := by
      dsimp only [HttpRequest.Logged]
      rw [hjson]
      exact ⟨rfl, _, _, rfl⟩
    apply hperforms.serves hres hlogged
    . intro body hanswer
      rcases Outcome.map_eq_ok hanswer with ⟨⟨entries, segments, nextId⟩, hok, heq⟩
      cases heq
      show (Api.respond (Api.answering body) [] _ _ _).1 = _
      rw [Api.respond_answering, hok, ← hnext]
      rfl
    . exact h

theorem idle {http : HttpRequest} {req : Request} (hsends : http.request codecs env = some req)
    (hlogged : ∀ handled, http.Logged codecs env logs handled logs)
    (hgroups : (req.perform buildKey db senv).2.groupManager = db.groupManager)
    : Serves buildKey codecs logs env http req (req.perform buildKey db senv) := by
  have hholds : HoldsLogs buildKey codecs logs (req.perform buildKey db senv).2.groupManager := by
    rw [hgroups]
    exact h
  by_cases hbody : ∃ body, req.answer body = Request.received (req.perform buildKey db senv).1
  . rcases hbody with ⟨body, hbody⟩
    refine ⟨http.response codecs env body, logs, hlogged _, ?_, hholds⟩
    intro body' hanswer
    exact HttpRequest.response_congr hsends (hanswer.trans hbody.symm)
  . refine ⟨.panic, logs, hlogged _, ?_, hholds⟩
    intro body hanswer
    exact absurd ⟨body, hanswer⟩ hbody

theorem perform (hcodecs : codecs.RoundTrips) (hinj : ∀ name, Function.Injective (buildKey name))
    (call : ApiCall codecs) (hreads : call.http.Readable codecs)
    : Serves buildKey codecs logs call.env call.http call.req (call.req.perform buildKey db senv) := by
  rcases call with ⟨http, env, req, hsends⟩
  cases http with
  | createGroup name =>
    cases hsends
    exact h.createGroup env senv name
  | dropGroup name =>
    cases hsends
    exact h.dropGroup env senv name
  | listGroups =>
    cases hsends
    exact h.listGroups env senv
  | groupStats name =>
    cases hsends
    exact h.groupStats env senv name
  | addEntry name payload => exact h.addEntry env senv hcodecs hreads hsends
  | addRangeEntries name payloads => exact h.addRangeEntries env senv hcodecs hreads hsends
  | readEntry name id =>
    cases hsends
    exact h.readEntry env senv (hinj name) id
  | readRangeEntries name startId endId =>
    cases hsends
    exact h.readRangeEntries env senv (hinj name) startId endId
  | dropEntries group uptoId =>
    cases hsends
    exact h.dropEntries env senv group uptoId
  | kvSet d key json =>
    rcases Option.map_eq_some_iff.mp hsends with ⟨val, _, rfl⟩
    exact h.idle env senv hsends (fun _ => rfl) rfl
  | kvDel d key =>
    cases hsends
    exact h.idle env senv rfl (fun _ => rfl) (congrArg (·.groupManager) (DB.log_toStores _ _ .kvDelError _))
  | listPush | listPushRange | listPop | listPopRange | listPopCount | listLen | listFlush | health =>
    cases hsends
  | _ =>
    cases hsends
    exact h.idle env senv rfl (fun _ => rfl) rfl

end HoldsLogs

namespace Listener

open ApiCall

variable {buildKey : String → UInt64 → UInt64} {fromSlice : List UInt8 → Except String AofEntry}
  {codecs : Codecs} {logs : JsonLogs} {db : DB} {l : Listener}

def loggedStep (logs : JsonLogs) (e : ClientCall × ApiCall codecs) (handled : Api.Handled) (logs' : JsonLogs)
    : Prop :=
  e.2.http.Logged codecs e.2.env logs handled logs'

def AnsweredLog (e : ClientCall × ApiCall codecs) (res : Outcome DBError Reply) (handled : Api.Handled) : Prop :=
  ∀ body, e.1.req.answer body = Request.received res → e.2.response body = handled

theorem holdsLogs_run (hcodecs : codecs.RoundTrips) (hinj : ∀ name, Function.Injective (buildKey name))
    (h : HoldsLogs buildKey codecs logs db.groupManager) {order : ApiCall.Order codecs}
    (horder : ∀ e ∈ order, e.1.req = e.2.req ∧ e.2.http.Readable codecs)
    : ∃ history logs',
        Machine.Runs loggedStep logs history logs'
          ∧ List.Forall₂ (fun e e' => e.1 = e'.1 ∧ AnsweredLog e.1 e.2 e'.2)
              (Machine.run (perform buildKey) db order).1 history
          ∧ HoldsLogs buildKey codecs logs' (Machine.run (perform buildKey) db order).2.groupManager := by
  have hstep : ∀ (db : DB) (logs : JsonLogs) (e : ClientCall × ApiCall codecs),
      e.1.req = e.2.req ∧ e.2.http.Readable codecs →
      HoldsLogs buildKey codecs logs db.groupManager →
      ∃ handled logs',
        loggedStep logs e handled logs'
          ∧ AnsweredLog e (perform buildKey db e).1 handled
          ∧ HoldsLogs buildKey codecs logs' (perform buildKey db e).2.groupManager := by
    rintro db logs ⟨c, call⟩ ⟨hreq, hreads⟩ h
    have hperform : perform buildKey db (c, call) = call.req.perform buildKey db c.senv.env := by
      unfold perform ClientCall.perform
      rw [← hreq]
    rw [hperform]
    rcases h.perform c.senv.env hcodecs hinj call hreads with ⟨handled, logs', hlogged, hanswered, hholds⟩
    refine ⟨handled, logs', hlogged, ?_, hholds⟩
    intro body hanswer
    dsimp only at hanswer hreq
    rw [hreq] at hanswer
    exact hanswered body hanswer
  exact Machine.runs_forall₂ hstep h horder

/--
The handlers see the logs of JSON objects that have been posted. There is an order of their requests, in which the
server has handled them, and a run of the logs with the same requests in this order, such that each response that
has come back completely is the one of this run, and the groups hold the logs at its end.
-/
theorem log_api_linearizable (hcodecs : codecs.RoundTrips)
    (hinj : ∀ name, Function.Injective (buildKey name))
    (hholds : HoldsLogs buildKey codecs logs db.groupManager) {actions : List Action}
    (hrun : Trace.run (step buildKey fromSlice) (new db) actions = some l)
    (calls : Nat → List (ApiCall codecs))
    (hcalls : ∀ i, ∀ call ∈ calls i,
      call.http.Readable codecs
        ∧ call.req.Fits
        ∧ call.req.frame.length ≤ LengthPrefixCodec.maxFrameSize)
    (hreceived : ∀ i task, l.tasks[i]? = some task →
      task.received <+: Request.stream ((calls i).map (·.req)))
    : ∃ (order : ApiCall.Order codecs) (history : List ((ClientCall × ApiCall codecs) × Api.Handled))
        (logs' : JsonLogs),
        order.map (·.1.handled) = handled buildKey fromSlice (new db) actions
          ∧ (∀ e ∈ order, e.1.req = e.2.req)
          ∧ history.map Prod.fst = order
          ∧ Machine.Runs loggedStep logs history logs'
          ∧ HoldsLogs buildKey codecs logs' l.db.groupManager
          ∧ ∀ i task, l.tasks[i]? = some task →
              let mine := ofConn i history
              let answers := (Framing.Reader.new.read task.written).frames
              mine.map (·.1.2) <+: calls i
                ∧ ((∀ e ∈ ofConn i (Machine.run (perform buildKey) db order).1, Request.FitsFrame e.2) →
                    (task.pc = .reading → answers.length = mine.length)
                      ∧ ∀ (k : Nat) (body : List UInt8), answers[k]? = some body →
                          ∃ e handled,
                            mine[k]? = some (e, handled) ∧ e.2.response body = handled) := by
  rcases exists_api_order hrun (fun i call hcall => (hcalls i call hcall).2) hreceived with
    ⟨order, hhandled, hreq, hfirst, hlinearized⟩
  have hreads : ∀ e ∈ order, e.1.req = e.2.req ∧ e.2.http.Readable codecs :=
    fun e he => ⟨hreq e he, (hcalls e.1.conn e.2 (mem_of_first hfirst he)).1⟩
  rcases holdsLogs_run hcodecs hinj hholds hreads with ⟨history, logs', hruns, hhistory, hend⟩
  have hops : history.map Prod.fst = order := by
    have hsame : List.Forall₂ (· = ·) ((Machine.run (perform buildKey) db order).1.map Prod.fst)
        (history.map Prod.fst) := by
      rw [List.forall₂_map_left_iff, List.forall₂_map_right_iff]
      exact hhistory.imp fun _ _ h => h.1
    rw [List.forall₂_eq_eq_eq, Machine.run_ops] at hsame
    exact hsame.symm
  refine ⟨order, history, logs', hhandled, hreq, hops, hruns, ?_, ?_⟩
  . rw [← hlinearized.db_eq, run_perform]
    exact hend
  . intro i task hget mine answers
    refine ⟨?_, ?_⟩
    . rw [ofConn_map, hops]
      exact hfirst i
    . intro hfits
      have ⟨hlength, hanswers⟩ := hlinearized.api_answered hhistory hget hfits
      refine ⟨hlength, ?_⟩
      intro k body hbody
      rcases hanswers k body hbody with ⟨e, res, handled, hk, hanswered, hanswer⟩
      exact ⟨e, handled, hk, hanswered body hanswer⟩

def ofSeven : Payload :=
  AList.singleton "n" (.ofU64 7)

def sevenText : List UInt8 :=
  "\x7b\"n\":7\x7d".toUTF8.data.toList

-- JSON of this object only, and frames of zstd with one block that is not compressed
def shortFrames : Codecs where
  toVec
    | .object [("n", .number (.posInt 7))] => sevenText
    | _ => "null".toUTF8.data.toList
  fromSlice bytes := if bytes = sevenText then some (.object [("n", .ofU64 7)]) else none
  encode bytes := String.ofList (Base64.encode bytes)
  decode s := some (Base64.decode s.toUTF8.data.toList)
  encodeAll bytes :=
    [0x28, 0xb5, 0x2f, 0xfd, 0, 0x58] ++ LittleEndian.encode 3 (8 * bytes.length + 1) ++ bytes
  decodeAll bytes := some (bytes.drop 9)
  formatTehran _ := none

theorem shortFrames_roundTrips : shortFrames.RoundTrips where
  base64 := by
    intro bytes
    unfold shortFrames
    dsimp only
    rw [Utf8.toUTF8_ofList, Base64.decode_encode]
  zstd := by
    intro bytes
    unfold shortFrames
    dsimp only
    rw [List.drop_left']
    rw [List.length_append, LittleEndian.encode_length]
    rfl

theorem reads_ofSeven : shortFrames.ReadsPayload ofSeven := by
  intro order
  have hfields : Api.fieldsOf order ofSeven = [("n", .ofU64 7)] := by
    have hperm := order.perm ["n"]
    have hkeys : order.arrange ofSeven.keys = ["n"] := List.perm_singleton.mp hperm
    unfold Api.fieldsOf
    rw [hkeys]
    rfl
  rw [hfields]
  rfl

def loggedCalls : Nat → List (ApiCall shortFrames)
  | 0 =>
    [⟨.createGroup "g", .steady, .createGroup "g", rfl⟩,
      ⟨.addEntry "g" ofSeven, .steady, _, rfl⟩]
  | 1 => [⟨.readEntry "g" 1, .steady, .read "g" 1, rfl⟩]
  | _ => []

-- the entry is read behind the request that posts it
def logging : List Action :=
  let requests (i : Nat) := Request.stream ((loggedCalls i).map (·.req))
  [.accept, .accept, .read 0 (requests 0), .decode 0, .handle 0 .steady, .write 0 5, .decode 0,
    .read 1 (requests 1), .decode 1, .handle 0 .steady, .handle 1 .steady, .write 0 13, .write 1 46]

def loggedOrder : ApiCall.Order shortFrames :=
  inOrder ((loggedCalls 0).map (0, ·) ++ (loggedCalls 1).map (1, ·))

theorem first_loggedOrder (i : Nat)
    : ((loggedOrder.filter fun e => e.1.conn == i).map Prod.snd) <+: loggedCalls i := by
  rcases i with _ | _ | i
  . exact List.prefix_refl _
  . exact List.prefix_refl _
  . simp [loggedOrder, inOrder, loggedCalls]

def readBack : List UInt8 :=
  [0, 1, 0, 0, 0, 0, 0, 0, 0, 0, 0, 0, 0, 0, 0, 0, 0, 21, 0, 0, 0, 40, 181, 47, 253, 0, 88, 97, 0, 0,
    101, 121, 74, 117, 73, 106, 111, 51, 102, 81, 61, 61]

theorem readable_loggedCalls
    : ∀ i, ∀ call ∈ loggedCalls i,
        call.http.Readable shortFrames
          ∧ call.req.Fits
          ∧ call.req.frame.length ≤ LengthPrefixCodec.maxFrameSize := by
  intro i call hcall
  have hname : Request.Name "g" := by
    unfold Request.Name
    decide
  rcases i with _ | _ | i
  . rcases List.mem_cons.mp hcall with rfl | hlast
    . exact ⟨trivial, hname, by decide⟩
    . cases List.mem_singleton.mp hlast
      refine ⟨reads_ofSeven, ⟨hname, ?_⟩, by decide +kernel⟩
      unfold Request.Sized
      decide +kernel
  . cases List.mem_singleton.mp hcall
    exact ⟨trivial, hname, by decide⟩
  . cases hcall

theorem fitsFrame_loggedOrder
    : ∀ e ∈ (Machine.run (perform fun _ id => id) DB.freshDb loggedOrder).1, Request.FitsFrame e.2 := by
  intro e he
  rcases List.mem_cons.mp he with rfl | hrest
  . exact ⟨by decide, trivial⟩
  . rcases List.mem_cons.mp hrest with rfl | hlast
    . exact ⟨by decide +kernel, trivial⟩
    . cases List.mem_singleton.mp hlast
      exact ⟨by decide +kernel, trivial⟩

theorem log_api_linearizable_logged
    : let fromSlice (_ : List UInt8) : Except String AofEntry := .error "expected value"
      ∃ l,
        Trace.run (step (fun _ id => id) fromSlice) (new DB.freshDb) logging = some l
          ∧ ∃ (order : ApiCall.Order shortFrames)
                (history : List ((ClientCall × ApiCall shortFrames) × Api.Handled)) (logs : JsonLogs),
              order.map (·.1.handled) = handled (fun _ id => id) fromSlice (new DB.freshDb) logging
                ∧ (∀ e ∈ order, e.1.req = e.2.req)
                ∧ history.map Prod.fst = order
                ∧ Machine.Runs loggedStep (fun _ => none) history logs
                ∧ HoldsLogs (fun _ id => id) shortFrames logs l.db.groupManager
                ∧ (∀ i task, l.tasks[i]? = some task →
                    let mine := ofConn i history
                    mine.map (·.1.2) <+: loggedCalls i
                      ∧ ∀ (k : Nat) (body : List UInt8),
                          (Framing.Reader.new.read task.written).frames[k]? = some body →
                            ∃ e handled, mine[k]? = some (e, handled) ∧ e.2.response body = handled)
                ∧ l.tasks.map (fun task => (Framing.Reader.new.read task.written).frames)
                    = [[[0], [0, 1, 0, 0, 0, 0, 0, 0, 0]], [readBack]]
                ∧ (ofConn 1 history).map (fun e => (e.1.2.http, e.2))
                    = [(.readEntry "g" 1,
                        Api.success
                          [("id", .ofU64 1), ("timestamp", .string (Api.entryTime shortFrames 0)),
                            ("payload", .ofPayload ofSeven)])] := by
  intro fromSlice
  have hsome : (Trace.run (step (fun _ id => id) fromSlice) (new DB.freshDb) logging).map
        (fun l => (l.tasks.map (·.received), l.tasks.map fun task => (Framing.Reader.new.read task.written).frames))
      = some
          ([Request.stream ((loggedCalls 0).map (·.req)), Request.stream ((loggedCalls 1).map (·.req))],
            [[[0], [0, 1, 0, 0, 0, 0, 0, 0, 0]], [readBack]]) := by
    decide +kernel
  rcases Option.map_eq_some_iff.mp hsome with ⟨l, hrun, hl⟩
  rw [Prod.mk.injEq] at hl
  rcases hl with ⟨hreceived, hframes⟩
  have hfirst : ∀ i task, l.tasks[i]? = some task →
      task.received <+: Request.stream ((loggedCalls i).map (·.req)) := by
    intro i task hget
    rw [eq_of_pair (g := fun i => Request.stream ((loggedCalls i).map (·.req))) hreceived i task hget]
  have hinj : ∀ name : String, Function.Injective fun id : UInt64 => id := fun _ _ _ h => h
  have hholds : HoldsLogs (fun _ id => id) shortFrames (fun _ => none) DB.freshDb.groupManager :=
    HoldsLogs.of_new (DB.new_eq none)
  rcases log_api_linearizable shortFrames_roundTrips hinj hholds hrun loggedCalls
    readable_loggedCalls hfirst with
    ⟨order, history, logs, hhandled, hreq, hops, hruns, hend, hmine⟩
  have hknown : order = loggedOrder := by
    have hconns := congrArg (List.map HandledFrame.conn) hhandled
    rw [List.map_map] at hconns
    have horder : ∀ e ∈ order, e.1.senv = .steady ∧ e.1.req = e.2.req :=
      order_spec hhandled hreq (by simp [logging])
    have hsame : (handled (fun _ id => id) fromSlice (new DB.freshDb) logging).map HandledFrame.conn
        = loggedOrder.map (·.1.conn) := by
      decide +kernel
    apply order_eq (n := 2) (hconns.trans hsame) horder _ (inOrder_spec (by simp [loggedCalls]))
      fun i _ => first_loggedOrder i
    intro i hi
    rcases exists_of_pair hframes hi with ⟨task, hget⟩
    rw [← hops, ← ofConn_map]
    exact (hmine i task hget).1
  have hanswered : ∀ i task, l.tasks[i]? = some task →
      ∀ (k : Nat) (body : List UInt8), (Framing.Reader.new.read task.written).frames[k]? = some body →
        ∃ e handled, (ofConn i history)[k]? = some (e, handled) ∧ e.2.response body = handled := by
    intro i task hget
    apply ((hmine i task hget).2 _).2
    intro e he
    apply fitsFrame_loggedOrder
    rw [← hknown]
    exact (List.mem_filter.mp he).1
  refine ⟨l, hrun, order, history, logs, hhandled, hreq, hops, hruns, hend, ?_, hframes, ?_⟩
  . intro i task hget
    exact ⟨(hmine i task hget).1, hanswered i task hget⟩
  . rcases exists_of_pair hframes Nat.one_lt_two with ⟨task, hget⟩
    have hbody : (Framing.Reader.new.read task.written).frames = [readBack] :=
      eq_of_pair (g := fun i => if i = 0 then [[0], [0, 1, 0, 0, 0, 0, 0, 0, 0]] else [readBack])
        hframes 1 task hget
    rcases hanswered 1 task hget 0 readBack (by rw [hbody]; rfl) with ⟨e, handled, hget', hresponse⟩
    have hone : (ofConn 1 history).map (·.1.2) = loggedCalls 1 := by
      rw [ofConn_map, hops, hknown]
      rfl
    rcases List.map_eq_singleton_iff.mp hone with ⟨answered, hlist, hcall⟩
    rw [hlist, List.getElem?_cons_zero, Option.some.injEq] at hget'
    rw [hget'] at hlist hcall
    rw [hlist, List.map_cons, List.map_nil, ← hresponse, hcall]
    rfl

end Listener
end MemStream
