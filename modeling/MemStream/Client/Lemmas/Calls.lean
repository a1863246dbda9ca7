import MemStream.Client.Lemmas.Presence
import MemStream.Client.Lemmas.Requests
import MemStream.Lib.Framing
import MemStream.Server.Impl.Handler

namespace MemStream

inductive Reply where
  | done
  | u64 (val : UInt64)
  | u64Pair (a b : UInt64)
  | entry (id ts : UInt64) (payload : List UInt8)
  | entryList (vals : List (UInt64 × UInt64 × List UInt8))
  | names (vals : List String)
  | stats (entries : UInt64) (segments : UInt32) (nextId : UInt64)
  | value (val : Option (List UInt8))
  deriving DecidableEq

namespace Reply

def response : Reply → List UInt8
  | .done => ResponseBuilder.okEmpty
  | .u64 val => ResponseBuilder.okU64 val
  | .u64Pair a b => ResponseBuilder.okU64Pair a b
  | .entry id ts payload => ResponseBuilder.okEntry id ts payload
  | .entryList vals => ResponseBuilder.okEntries vals
  | .names vals => ResponseBuilder.okNames vals
  | .stats entries segments nextId => ResponseBuilder.okStats entries segments.toNat nextId
  | .value none => ResponseBuilder.okEmpty
  | .value (some val) => ResponseBuilder.okBytes val

def body (reply : Reply) : List UInt8 :=
  reply.response.drop 4

-- an empty value is taken for a missing one
def received : Reply → Reply
  | .value (some []) => .value none
  | reply => reply

def Fits (reply : Reply) : Prop :=
  reply.body.length < 4294967296
    ∧ match reply with
      | .names vals => ∀ name ∈ vals, name.utf8ByteSize ≤ 65535
      | _ => True

end Reply

namespace Request

open StreamClient

def answer (resp : List UInt8) : Request → Outcome String Reply
  | .createGroup _ => (createGroupAnswer resp).map fun _ => .done
  | .dropGroup _ => (dropGroupAnswer resp).map fun _ => .done
  | .add _ _ _ => (addAnswer resp).map .u64
  | .addRange _ _ => (addRangeAnswer resp).map fun ids => .u64Pair ids.1 ids.2
  | .read _ _ => (readAnswer resp).map fun entry => .entry entry.1 entry.2.1 entry.2.2
  | .readRange _ _ _ => (readRangeAnswer resp).map .entryList
  | .remove _ _ => (removeAnswer resp).map fun _ => .done
  | .listGroups => (listGroupsAnswer resp).map .names
  | .groupStats _ => (groupStatsAnswer resp).map fun stats => .stats stats.1 stats.2.1 stats.2.2
  | .kvSet _ _ _ _ => (kvSetAnswer resp).map fun _ => .done
  | .kvGet _ _ => (kvGetAnswer resp).map .value
  | .kvDel _ _ => (kvDelAnswer resp).map fun _ => .done
  | .kvKeys _ => (kvKeysAnswer resp).map .names
  | .kvFlush _ => (kvFlushAnswer resp).map fun _ => .done

def reply {α : Type} (res : Outcome DBError α × DB) (f : α → Reply) : Outcome DBError Reply × DB :=
  (res.1.map f, res.2)

variable (buildKey : String → UInt64 → UInt64)

def perform (db : DB) (env : Env) : Request → Outcome DBError Reply × DB
  | .createGroup name => reply (db.logCreateGroup env name) fun _ => .done
  | .dropGroup name => reply (db.logDropGroup name) fun _ => .done
  | .add group timestamp payload => reply (db.logAdd buildKey env group timestamp payload) .u64
  | .addRange group entries =>
    reply (db.logAddRange buildKey env group entries) fun ids => .u64Pair ids.1 ids.2
  | .read group id =>
    reply (db.logRead buildKey env group id) fun entry => .entry entry.1 entry.2.1 entry.2.2
  | .readRange group start stop => reply (db.logReadRange buildKey env group start stop) .entryList
  | .remove group upToId => reply (db.logRemove buildKey group upToId) fun _ => .done
  | .listGroups => reply (db.logListGroups env) .names
  | .groupStats group =>
    reply (db.logGroupStats group) fun stats =>
      .stats (UInt64.ofNat stats.totalEntries) (UInt32.ofNat stats.totalSegments) stats.nextId
  | .kvSet d key val ttlSecs =>
    reply (db.kvSet env d key val (Server.ttlMillis ttlSecs)) fun _ => .done
  | .kvGet d key => reply (db.kvGet env d key) fun entry => .value (entry.map DBEntry.val)
  | .kvDel d key => reply (db.kvDel d key) fun _ => .done
  | .kvKeys d => reply (db.kvKeys env d) .names
  | .kvFlush d => reply (db.kvFlush d) fun _ => .done

end Request

namespace StreamClient

variable {msg : String}

theorem extractErr_err (hne : msg ≠ "") (hsize : msg.utf8ByteSize ≤ 65535)
    : extractErr (statusErr :: (LittleEndian.encode 2 msg.utf8ByteSize ++ msg.toUTF8.data.toList))
        =
      msg := by
  have hlength : msg.toUTF8.data.toList.length = msg.utf8ByteSize := by rfl
  have hpos : 0 < msg.utf8ByteSize := by
    by_contra h
    exact hne (String.utf8ByteSize_eq_zero_iff.mp (by omega))
  have hdecode : LittleEndian.decode (LittleEndian.encode 2 msg.utf8ByteSize) = msg.utf8ByteSize := by
    apply LittleEndian.decode_encode_of_lt
    omega
  unfold extractErr
  rw [if_neg (by simp; omega)]
  simp only [List.drop_succ_cons, List.drop_zero, List.length_cons, List.length_append,
    LittleEndian.encode_length, hlength]
  rw [List.take_left' (LittleEndian.encode_length 2 _), hdecode, if_pos (by omega)]
  rw [List.drop_left' (LittleEndian.encode_length 2 _), ← hlength, List.take_length,
    Utf8.fromUtf8Lossy_toUTF8]

end StreamClient

namespace Request

open StreamClient ResponseBuilder

variable {buildKey : String → UInt64 → UInt64} {fromSlice : List UInt8 → Except String AofEntry}
variable {db : DB} {env : Env} {senv : ServerEnv}

def responseOf : Outcome DBError Reply → Server.Response
  | .ok reply => .ok reply.response
  | .err e => .ok (err e.toText)
  | .panic => .panic

-- what the client makes of it; where the handler panics there is no response
def received : Outcome DBError Reply → Outcome String Reply
  | .ok reply => .ok reply.received
  | .err e => .err e.toText
  | .panic => .panic

theorem respond_eq {α : Type} (res : Outcome DBError α × DB) {ok : α → List UInt8} {f : α → Reply}
    (h : ∀ val, ok val = (f val).response)
    : Server.respond res ok = (responseOf (reply res f).1, (reply res f).2) := by
  rcases res with ⟨res, db⟩
  unfold Server.respond reply
  cases res with
  | ok val =>
    dsimp only
    rw [h]
    rfl
  | err e => rfl
  | panic => rfl

theorem okStats_eq (entries nextId : UInt64) (segments : Nat)
    : okStats entries segments nextId = okStats entries (UInt32.ofNat segments).toNat nextId := by
  unfold okStats
  rw [UInt32.toNat_ofNat', ← LittleEndian.encode_mod 4 segments]
  rfl

theorem handleCommand_command (req : Request)
    : Server.handleCommand buildKey fromSlice db senv req.command
        =
      (responseOf (req.perform buildKey db senv.env).1, (req.perform buildKey db senv.env).2) := by
  cases req with
  | groupStats group =>
    apply respond_eq
    intro stats
    exact okStats_eq _ _ _
  | kvGet d key =>
    unfold command Server.handleCommand perform
    apply respond_eq
    intro entry
    cases entry with
    | none => rfl
    | some entry => rfl
  | _ =>
    unfold command Server.handleCommand perform
    apply respond_eq
    intro val
    rfl

theorem handleFrame_frame {req : Request} (h : req.Fits)
    : Server.handleFrame buildKey fromSlice db senv req.frame
        =
      (responseOf (req.perform buildKey db senv.env).1, (req.perform buildKey db senv.env).2) := by
  have hparses : Parses req.frame req.command := by
    rw [frame_eq]
    exact parses_of_reads (reads_fields (fits_command req h))
  unfold Server.handleFrame
  rw [hparses.1]
  exact handleCommand_command req

theorem answer_err (req : Request) (fields : List UInt8)
    : req.answer (statusErr :: fields) = .err (extractErr (statusErr :: fields)) := by
  cases req with
  | _ => rfl

theorem reply_eq_ok {α : Type} {res : Outcome DBError α × DB} {f : α → Reply} {r : Reply}
    (h : (reply res f).1 = .ok r)
    : ∃ val, f val = r := by
  unfold reply at h
  cases hres : res.1 with
  | ok val =>
    rw [hres] at h
    cases h
    exact ⟨val, rfl⟩
  | err e =>
    rw [hres] at h
    cases h
  | panic =>
    rw [hres] at h
    cases h

theorem answer_body (req : Request) {r : Reply} (h : (req.perform buildKey db env).1 = .ok r)
    (hfits : r.Fits)
    : req.answer r.body = .ok r.received := by
  rcases hfits with ⟨hsize, hfields⟩
  have hdone : checkStatus (Reply.body .done) = .ok () := by
    rfl
  cases req with
  | add group timestamp payload =>
    rcases reply_eq_ok h with ⟨val, rfl⟩
    have hbody : Reply.body (.u64 val) = statusOk :: Answer.fields (.u64 val) := Answer.body_eq (.u64 val)
    have hdecoded : addAnswer (Reply.body (.u64 val)) = .ok val := by
      unfold addAnswer
      rw [hbody, fixedAnswer_ok (by simp [Answer.fields])]
      exact Answer.decoded_u64 val
    unfold answer
    rw [hdecoded]
    rfl
  | addRange group entries =>
    rcases reply_eq_ok h with ⟨⟨a, b⟩, rfl⟩
    have hbody : Reply.body (.u64Pair a b) = statusOk :: Answer.fields (.u64Pair a b) :=
      Answer.body_eq (.u64Pair a b)
    unfold answer
    dsimp only
    rw [hbody, Answer.decoded_u64Pair]
    rfl
  | read group id =>
    rcases reply_eq_ok h with ⟨⟨id, ts, payload⟩, rfl⟩
    have hbody : Reply.body (.entry id ts payload) = statusOk :: Answer.fields (.entry id ts payload) :=
      Answer.body_eq (.entry id ts payload)
    rw [hbody] at hsize
    simp only [Answer.fields, List.length_cons, List.length_append] at hsize
    unfold answer
    dsimp only
    rw [hbody, Answer.decoded_entry (by omega)]
    rfl
  | readRange group start stop =>
    rcases reply_eq_ok h with ⟨vals, rfl⟩
    have hbody : Reply.body (.entryList vals) = statusOk :: Answer.fields (.entryList vals) :=
      Answer.body_eq (.entryList vals)
    rw [hbody, List.length_cons] at hsize
    unfold answer readRangeAnswer
    dsimp only
    rw [hbody, fixedAnswer_ok (by simp [Answer.fields]), Answer.decoded_entries (by omega)]
    rfl
  | listGroups =>
    rcases reply_eq_ok h with ⟨names, rfl⟩
    have hbody : Reply.body (.names names) = statusOk :: Answer.fields (.groupList names) :=
      Answer.body_eq (.groupList names)
    rw [hbody, List.length_cons] at hsize
    unfold answer listGroupsAnswer
    dsimp only
    rw [hbody, fixedAnswer_ok (by simp [Answer.fields]), Answer.decoded_names (by omega) hfields]
    rfl
  | groupStats group =>
    rcases reply_eq_ok h with ⟨stats, rfl⟩
    let segments := UInt32.ofNat stats.totalSegments
    have hbody : Reply.body (.stats (UInt64.ofNat stats.totalEntries) segments stats.nextId)
        = statusOk :: Answer.fields
            (.stats (UInt64.ofNat stats.totalEntries) segments.toNat stats.nextId) :=
      Answer.body_eq (.stats (UInt64.ofNat stats.totalEntries) segments.toNat stats.nextId)
    unfold answer
    dsimp only
    rw [hbody, Answer.decoded_stats _ _ segments.toNat_lt, UInt32.ofNat_toNat]
    rfl
  | kvGet d key =>
    rcases reply_eq_ok h with ⟨entry, rfl⟩
    cases entry with
    | none => rfl
    | some entry =>
      have hbody : Reply.body (.value (some entry.val))
          = statusOk :: (LittleEndian.encode 4 entry.val.length ++ entry.val) := by
        show (okBytes entry.val).drop 4 = _
        rw [okBytes_eq, List.drop_left' (LittleEndian.encode_length 4 _)]
      rw [Option.map_some, hbody] at hsize
      simp only [List.length_cons, List.length_append, LittleEndian.encode_length] at hsize
      unfold answer kvGetAnswer
      rw [Option.map_some, hbody, optionAnswer_value (by omega)]
      cases entry.val with
      | nil => rfl
      | cons b bytes => rfl
  | kvKeys d =>
    rcases reply_eq_ok h with ⟨names, rfl⟩
    -- a list of keys has the layout of a list of groups
    have hbody : Reply.body (.names names) = statusOk :: Answer.fields (.groupList names) :=
      Answer.body_eq (.stringList names)
    rw [hbody, List.length_cons] at hsize
    unfold answer kvKeysAnswer
    dsimp only
    rw [hbody, statusAnswer_ok, Answer.decoded_names (by omega) hfields]
    rfl
  | _ =>
    rcases reply_eq_ok h with ⟨val, rfl⟩
    exact congrArg (Outcome.map fun _ => Reply.done) hdone

def FitsFrame : Outcome DBError Reply → Prop
  | .ok reply => reply.Fits
  | .err e => e.toText.utf8ByteSize ≤ 65535
  | .panic => True

theorem finalize_eq_frame (buf : List UInt8) : finalize buf = Framing.frame (buf.drop 4) := by
  unfold finalize Framing.frame
  rw [List.length_drop]

theorem response_eq_frame (reply : Reply) : reply.response = Framing.frame reply.body := by
  have hframe (buf : List UInt8) : finalize buf = Framing.frame ((finalize buf).drop 4) := by
    rw [finalize_eq_frame, Framing.frame_drop]
  unfold Reply.body
  cases reply with
  | value val =>
    cases val with
    | none => exact hframe _
    | some val => exact hframe _
  | _ => exact hframe _

theorem toText_ne_empty (e : DBError) : e.toText ≠ "" := by
  have happend {s : String} (t : String) (hs : s ≠ "") : s ++ t ≠ "" := by
    intro h
    exact hs (String.append_eq_empty_iff.mp h).1
  unfold DBError.toText
  cases e <;> exact happend _ (by decide)

theorem err_eq_frame (msg : String)
    : err msg
        =
      Framing.frame (statusErr :: (LittleEndian.encode 2 msg.utf8ByteSize ++ msg.toUTF8.data.toList)) := by
  unfold err
  rw [finalize_eq_frame]
  simp

theorem answered {req : Request} {bytes : List UInt8}
    (h : responseOf (req.perform buildKey db env).1 = .ok bytes)
    (hfits : FitsFrame (req.perform buildKey db env).1)
    : ∃ body,
        bytes = Framing.frame body
          ∧ body.length < 4294967296
          ∧ req.answer body = received (req.perform buildKey db env).1 := by
  cases hres : (req.perform buildKey db env).1 with
  | ok reply =>
    rw [hres] at h hfits
    unfold FitsFrame at hfits
    cases h
    exact ⟨reply.body, response_eq_frame reply, hfits.1, answer_body req hres hfits⟩
  | err e =>
    rw [hres] at h hfits
    unfold FitsFrame at hfits
    cases h
    have hlength : e.toText.toUTF8.data.toList.length = e.toText.utf8ByteSize := by rfl
    refine ⟨_, err_eq_frame e.toText, ?_, ?_⟩
    . rw [List.length_cons, List.length_append, LittleEndian.encode_length]
      omega
    . rw [answer_err, extractErr_err (toText_ne_empty e) hfits]
      rfl
  | panic =>
    rw [hres] at h
    cases h

end Request
end MemStream
