import MemStream.Client.Lemmas.Api.Basic
import MemStream.Db.Lemmas.Db.Overwrite

namespace MemStream

open Overwrite

abbrev JsonStore := String × String → Option Value

def Codecs.Reads (codecs : Codecs) (val : Value) : Prop :=
  codecs.toVec val ≠ [] ∧ codecs.fromSlice (codecs.toVec val) = some val

namespace HttpRequest

def effect : HttpRequest → String × String → Option (Option Value)
  | .kvSet d key req, name => if name = (d, key) then (req.get "val").map some else none
  | .kvDel d key, name => if name = (d, key) then some none else none
  | .kvFlush d, name => if name.1 = d then some none else none
  | _, _ => none

/-- What the requests for keys are answered where these are the values. -/
def Responds (store : JsonStore) (res : Api.Handled) : HttpRequest → Prop
  | .kvSet _ _ _ => res = Api.done "ok" ()
  | .kvGet d key =>
    res = match store (d, key) with
      | some val => Api.success [("val", val)]
      | none => Api.failure .notFound "key not found"
  | .kvDel d key =>
    res = match store (d, key) with
      | some _ => Api.done "deleted" ()
      | none => Api.failure .badRequest ("failed to del key: " ++ (key ++ " not found"))
  | .kvKeys d =>
    ∃ keys : List String,
      keys.Nodup
        ∧ (∀ key, key ∈ keys ↔ (store (d, key)).isSome)
        ∧ res = Api.success [("keys", .ofStrings keys)]
  | .kvFlush _ => res = Api.done "flushed" ()
  | _ => True

/-- Values are set with one of the names and for ever, and can be read back. -/
def Within (codecs : Codecs) (names : Keyspace) : HttpRequest → Prop
  | .kvSet d key req =>
    Api.ttlSecs req = 0
      ∧ key ∈ names.keys d
      ∧ ∀ val, req.get "val" = some val → codecs.Reads val
  | _ => True

end HttpRequest

namespace Request

def op : Request → DB.Op
  | .createGroup name => .logCreateGroup name
  | .dropGroup name => .logDropGroup name
  | .add group timestamp payload => .logAdd group timestamp payload
  | .addRange group entries => .logAddRange group entries
  | .read group id => .logRead group id
  | .readRange group start stop => .logReadRange group start stop
  | .remove group upToId => .logRemove group upToId
  | .listGroups => .logListGroups
  | .groupStats group => .logGroupStats group
  | .kvSet d key val ttlSecs => .kvSet d key val (Server.ttlMillis ttlSecs)
  | .kvGet d key => .kvGet d key
  | .kvDel d key => .kvDel d key
  | .kvKeys d => .kvKeys d
  | .kvFlush d => .kvFlush d

theorem perform_kvStore (buildKey : String → UInt64 → UInt64) (req : Request) (db : DB) (env : Env)
    : (req.perform buildKey db env).2.kvStore = db.kvStore.afterOp env req.op := by
  have hcall : (db.call buildKey env req.op).2.kvStore = db.kvStore.afterOp env req.op :=
    DB.call_kvStore db env req.op
  rw [← hcall]
  cases req with
  | _ => rfl

end Request

theorem Reply.received_of_ne {val : List UInt8} (hne : val ≠ [])
    : Reply.received (.value (some val)) = .value (some val) := by
  unfold Reply.received
  split
  . next heq => exact absurd (Option.some.inj (Reply.value.inj heq)) hne
  . rfl

structure HoldsJson (codecs : Codecs) (names : Keyspace) (store : JsonStore) (db : DB) : Prop where
  covers : names.Covers db.kvStore.values
  lasting : db.kvStore.Lasting
  values : ∀ name, db.kvStore.values name = (store name).map codecs.toVec
  reads : ∀ name val, store name = some val → codecs.Reads val

namespace HoldsJson

variable {buildKey : String → UInt64 → UInt64} {codecs : Codecs} {names : Keyspace} {store : JsonStore}
  {db db' : DB} {http : HttpRequest} {call : ApiCall codecs} {env : Env}

theorem of_new {events : Option (List AofEntry)} (hdb : DB.new true events = .ok db)
    : HoldsJson codecs names (fun _ => none) db := by
  have ⟨hfresh, _⟩ := DB.new_eq_ok hdb
  have ⟨hnone, hlasting⟩ := values_of_new hfresh
  refine ⟨?_, hlasting, ?_, ?_⟩
  . rw [hnone]
    exact names.covers_none
  . intro name
    exact congrFun hnone name
  . intro name val h
    cases h

theorem afterEntry (h : HoldsJson codecs names store db) (env : Env) {entry : AofEntry}
    (hentry : entry.Within names)
    (heffect : ∀ name, entry.effect name = (http.effect name).map (Option.map codecs.toVec))
    (hreads : ∀ name val, http.effect name = some (some val) → codecs.Reads val)
    (hdb : db'.kvStore = db.kvStore.afterEntry env entry)
    : HoldsJson codecs names (write HttpRequest.effect store http) db' := by
  have hvalues : db'.kvStore.values = write AofEntry.effect db.kvStore.values entry := by
    rw [hdb]
    exact KvStore.values_afterEntry h.covers env hentry
  refine ⟨?_, ?_, ?_, ?_⟩
  . rw [hvalues]
    exact h.covers.write hentry
  . rw [hdb]
    exact KvStore.lasting_afterEntry h.lasting env hentry
  . intro name
    rw [hvalues]
    unfold write
    rw [heffect]
    cases http.effect name with
    | none => exact h.values name
    | some val => rfl
  . intro name val hval
    unfold write at hval
    cases heffect' : http.effect name with
    | none =>
      rw [heffect'] at hval
      exact h.reads name val hval
    | some val' =>
      rw [heffect'] at hval
      apply hreads name
      rw [heffect']
      exact congrArg some hval

theorem idle (h : HoldsJson codecs names store db) (hidle : ∀ name, http.effect name = none)
    (hvalues : db'.kvStore.values = db.kvStore.values) (hlasting : db'.kvStore.Lasting)
    : HoldsJson codecs names (write HttpRequest.effect store http) db' := by
  rw [write_of_idle hidle]
  refine ⟨?_, hlasting, ?_, h.reads⟩
  . rw [hvalues]
    exact h.covers
  . rw [hvalues]
    exact h.values

theorem perform (h : HoldsJson codecs names store db) (hwithin : call.http.Within codecs names)
    (buildKey : String → UInt64 → UInt64) (env : Env)
    : HoldsJson codecs names (write HttpRequest.effect store call.http)
        (call.req.perform buildKey db env).2 := by
  rcases call with ⟨http, henv, req, hsends⟩
  have hdb := req.perform_kvStore buildKey db env
  cases http with
  | kvSet d key json =>
    rcases Option.map_eq_some_iff.mp hsends with ⟨val, hval, rfl⟩
    rcases hwithin with ⟨httl, hkey, hreads⟩
    rw [httl] at hdb
    have hentry : (AofEntry.kvSet d key (codecs.toVec val) 0).Within names := ⟨rfl, hkey⟩
    apply h.afterEntry env hentry
    . intro name
      simp only [AofEntry.effect, HttpRequest.effect, hval]
      split
      . rfl
      . rfl
    . intro name val' heffect
      simp only [HttpRequest.effect, hval] at heffect
      split at heffect
      . cases heffect
        exact hreads _ hval
      . cases heffect
    . dsimp only
      rw [httl]
      exact hdb
  | kvDel d key =>
    cases hsends
    have hentry : (AofEntry.kvDel d key).Within names := trivial
    apply h.afterEntry env hentry _ _ hdb
    . intro name
      simp only [AofEntry.effect, HttpRequest.effect]
      split
      . rfl
      . rfl
    . intro name val heffect
      simp only [HttpRequest.effect] at heffect
      split at heffect
      . cases heffect
      . cases heffect
  | kvFlush d =>
    cases hsends
    have hentry : (AofEntry.kvFlush d).Within names := trivial
    apply h.afterEntry env hentry _ _ hdb
    . intro name
      simp only [AofEntry.effect, HttpRequest.effect]
      split
      . rfl
      . rfl
    . intro name val heffect
      simp only [HttpRequest.effect] at heffect
      split at heffect
      . cases heffect
      . cases heffect
  | kvGet d key =>
    cases hsends
    apply h.idle (fun _ => rfl)
    . funext name
      exact h.lasting.value_get env.clock d key name.1 name.2
    . exact h.lasting.get env.clock d key
  | listPush | listPushRange | listPop | listPopRange | listPopCount | listLen | listFlush | health =>
    cases hsends
  | _ =>
    cases hsends
    apply h.idle (fun _ => rfl)
    . rw [hdb]
      rfl
    . rw [hdb]
      exact h.lasting

theorem exists_keys (h : HoldsJson codecs names store db) (order : Assoc.Order String) (d : String)
    : ∃ keys,
        db.kvStore.keys order d = .ok keys
          ∧ keys.Nodup
          ∧ ∀ key, key ∈ keys ↔ (store (d, key)).isSome := by
  have hmem : ∀ key, key ∈ (db.kvStore.getDb d).entries.keys ↔ (store (d, key)).isSome := by
    intro key
    have hvalue : db.kvStore.value d key = (store (d, key)).map codecs.toVec := h.values (d, key)
    rw [KvStore.mem_keys_iff_value, hvalue, Option.isSome_map]
  unfold KvStore.keys
  unfold KvStore.getDb at hmem
  cases hlookup : db.kvStore.dbs.lookup d with
  | none =>
    rw [hlookup] at hmem
    exact ⟨[], rfl, List.nodup_nil, hmem⟩
  | some kvDb =>
    rw [hlookup] at hmem
    have hperm := order.perm kvDb.entries.keys
    refine ⟨kvDb.keys order, rfl, ?_, ?_⟩
    . exact hperm.nodup_iff.mpr kvDb.entries.keys_nodup
    . intro key
      exact hperm.mem_iff.trans (hmem key)

theorem found_val (h : HoldsJson codecs names store db) (clock : KvClock) (d key : String)
    : (db.kvStore.found clock d key).map DBEntry.val = (store (d, key)).map codecs.toVec := by
  have hvalue : db.kvStore.value d key = (store (d, key)).map codecs.toVec := h.values (d, key)
  rw [← hvalue, KvStore.value_eq, h.lasting.found_eq, Option.map_map]
  rfl

theorem get_spec (h : HoldsJson codecs names store db) (env : Env) (d key : String)
    : (Request.perform buildKey db env (.kvGet d key)).1
        =
      .ok (.value ((store (d, key)).map codecs.toVec)) := by
  rw [← h.found_val env.clock]
  rfl

theorem keys_spec (h : HoldsJson codecs names store db) (env : Env) (d : String)
    : ∃ keys,
        (Request.perform buildKey db env (.kvKeys d)).1 = .ok (.names keys)
          ∧ keys.Nodup
          ∧ ∀ key, key ∈ keys ↔ (store (d, key)).isSome := by
  rcases h.exists_keys env.order d with ⟨keys, hkeys, hspec⟩
  refine ⟨keys, ?_, hspec⟩
  show ((db.kvStore.keys env.order d).mapErr DBError.kvKeysError).map Reply.names = _
  rw [hkeys]
  rfl

theorem del_spec (h : HoldsJson codecs names store db) (env : Env) (d key : String)
    : (Request.perform buildKey db env (.kvDel d key)).1
        =
      match store (d, key) with
      | some _ => .ok .done
      | none => .err (.kvDelError (key ++ " not found")) := by
  have hvalue : db.kvStore.value d key = (store (d, key)).map codecs.toVec := h.values (d, key)
  have hres : (Request.perform buildKey db env (.kvDel d key)).1
      = ((db.kvStore.del d key).1.mapErr DBError.kvDelError).map fun _ => .done := by
    rfl
  rw [hres]
  unfold KvStore.value at hvalue
  unfold KvStore.del KvDb.del
  cases hval : store (d, key) with
  | none =>
    rw [hval, Option.map_none, Option.map_eq_none_iff] at hvalue
    rw [hvalue]
    rfl
  | some val =>
    rw [hval, Option.map_some] at hvalue
    rcases Option.map_eq_some_iff.mp hvalue with ⟨e, hlookup, _⟩
    rw [hlookup]
    rfl

theorem responds (h : HoldsJson codecs names store db) (hwithin : call.http.Within codecs names)
    {body : List UInt8}
    (hanswer : call.req.answer body = Request.received (call.req.perform buildKey db env).1)
    : call.http.Responds store (call.response body) := by
  rcases call with ⟨http, henv, req, hsends⟩
  unfold ApiCall.response HttpRequest.response
  cases http with
  | kvSet d key json =>
    rcases Option.map_eq_some_iff.mp hsends with ⟨val, hval, rfl⟩
    have hdone : StreamClient.kvSetAnswer body = .ok () := by
      rcases Outcome.map_eq_ok hanswer with ⟨val, hok, _⟩
      exact hok
    unfold HttpRequest.handle Api.kvSet
    dsimp only
    rw [Api.acquired_answering]
    simp only [hval]
    rw [Api.respond_answering, hdone]
    rfl
  | kvGet d key =>
    cases hsends
    rw [h.get_spec] at hanswer
    show (Api.respond (Api.answering body) [] _ _ _).1 = _
    rw [Api.respond_answering]
    cases hval : store (d, key) with
    | none =>
      rw [hval] at hanswer
      rcases Outcome.map_eq_ok hanswer with ⟨val, hok, heq⟩
      cases heq
      rw [hok]
      rfl
    | some val =>
      have ⟨hne, hread⟩ := h.reads (d, key) val hval
      rw [hval] at hanswer
      rcases Outcome.map_eq_ok hanswer with ⟨val', hok, heq⟩
      rw [Option.map_some, Reply.received_of_ne hne] at heq
      cases heq
      rw [hok]
      show Api.success [("val", (codecs.fromSlice (codecs.toVec val)).getD .null)] = _
      rw [hread]
      rfl
  | kvDel d key =>
    cases hsends
    rw [h.del_spec] at hanswer
    show (Api.respond (Api.answering body) [] _ _ _).1 = _
    rw [Api.respond_answering]
    cases hval : store (d, key) with
    | none =>
      rw [hval] at hanswer
      have herr := Outcome.map_eq_err hanswer
      rw [herr]
      rfl
    | some val =>
      rw [hval] at hanswer
      rcases Outcome.map_eq_ok hanswer with ⟨val', hok, _⟩
      rw [hok]
      rfl
  | kvKeys d =>
    cases hsends
    rcases h.keys_spec env d with ⟨keys, hkeys, hnodup, hmem⟩
    rw [hkeys] at hanswer
    rcases Outcome.map_eq_ok hanswer with ⟨keys', hok, heq⟩
    cases heq
    refine ⟨keys, hnodup, hmem, ?_⟩
    show (Api.respond (Api.answering body) [] _ _ _).1 = _
    rw [Api.respond_answering, hok]
    rfl
  | kvFlush d =>
    cases hsends
    have hdone : StreamClient.kvFlushAnswer body = .ok () := by
      rcases Outcome.map_eq_ok hanswer with ⟨val, hok, _⟩
      exact hok
    show (Api.respond (Api.answering body) [] _ _ _).1 = _
    rw [Api.respond_answering, hdone]
    rfl
  | _ => trivial

end HoldsJson

namespace Listener

open ApiCall

variable {buildKey : String → UInt64 → UInt64} {fromSlice : List UInt8 → Except String AofEntry}
  {codecs : Codecs} {names : Keyspace} {store : JsonStore} {db : DB} {l : Listener}

def jsonStep (store : JsonStore) (e : ClientCall × ApiCall codecs) : JsonStore × JsonStore :=
  (store, write HttpRequest.effect store e.2.http)

def AnsweredJson (e : ClientCall × ApiCall codecs) (res : Outcome DBError Reply) (store : JsonStore) : Prop :=
  ∀ body, e.1.req.answer body = Request.received res → e.2.http.Responds store (e.2.response body)

theorem holdsJson_run (h : HoldsJson codecs names store db) (buildKey : String → UInt64 → UInt64)
    {order : ApiCall.Order codecs}
    (horder : ∀ e ∈ order, e.1.req = e.2.req ∧ e.2.http.Within codecs names)
    : List.Forall₂ (fun e e' => e.1 = e'.1 ∧ AnsweredJson e.1 e.2 e'.2)
          (Machine.run (perform buildKey) db order).1 (Machine.run jsonStep store order).1
        ∧ HoldsJson codecs names (Machine.run jsonStep store order).2
            (Machine.run (perform buildKey) db order).2 := by
  apply Machine.run_forall₂ (R := fun db store => HoldsJson codecs names store db) _ h horder
  rintro db store ⟨c, call⟩ ⟨hreq, hwithin⟩ h
  have hperform : perform buildKey db (c, call) = call.req.perform buildKey db c.senv.env := by
    unfold perform ClientCall.perform
    rw [← hreq]
  rw [hperform]
  refine ⟨?_, h.perform hwithin buildKey c.senv.env⟩
  intro body hanswer
  dsimp only at hanswer hreq
  rw [hreq] at hanswer
  exact h.responds hwithin hanswer

/--
The handlers see one map of JSON values. There is an order of their requests, in which the server has handled them,
such that each response that has come back completely is what the values say that the requests before it have left.
-/
theorem kv_api_linearizable (hholds : HoldsJson codecs names store db) {actions : List Action}
    (hrun : Trace.run (step buildKey fromSlice) (new db) actions = some l)
    (calls : Nat → List (ApiCall codecs))
    (hcalls : ∀ i, ∀ call ∈ calls i,
      call.http.Within codecs names
        ∧ call.req.Fits
        ∧ call.req.frame.length ≤ LengthPrefixCodec.maxFrameSize)
    (hreceived : ∀ i task, l.tasks[i]? = some task →
      task.received <+: Request.stream ((calls i).map (·.req)))
    : ∃ order : ApiCall.Order codecs,
        order.map (·.1.handled) = handled buildKey fromSlice (new db) actions
          ∧ (∀ e ∈ order, e.1.req = e.2.req)
          ∧ HoldsJson codecs names (Machine.run jsonStep store order).2 l.db
          ∧ ∀ i task, l.tasks[i]? = some task →
              let mine := ofConn i (Machine.run jsonStep store order).1
              let answers := (Framing.Reader.new.read task.written).frames
              mine.map (·.1.2) <+: calls i
                ∧ ((∀ e ∈ ofConn i (Machine.run (perform buildKey) db order).1, Request.FitsFrame e.2) →
                    (task.pc = .reading → answers.length = mine.length)
                      ∧ ∀ (k : Nat) (body : List UInt8), answers[k]? = some body →
                          ∃ e values,
                            mine[k]? = some (e, values)
                              ∧ e.2.http.Responds values (e.2.response body)) := by
  rcases exists_api_order hrun (fun i call hcall => (hcalls i call hcall).2) hreceived with
    ⟨order, hhandled, hreq, hfirst, hlinearized⟩
  have hwithin : ∀ e ∈ order, e.1.req = e.2.req ∧ e.2.http.Within codecs names :=
    fun e he => ⟨hreq e he, (hcalls e.1.conn e.2 (mem_of_first hfirst he)).1⟩
  have ⟨hhistory, hend⟩ := holdsJson_run hholds buildKey hwithin
  refine ⟨order, hhandled, hreq, ?_, ?_⟩
  . rw [← hlinearized.db_eq, run_perform]
    exact hend
  . intro i task hget mine answers
    refine ⟨?_, ?_⟩
    . rw [ofConn_run]
      exact hfirst i
    . intro hfits
      have ⟨hlength, hanswers⟩ := hlinearized.api_answered hhistory hget hfits
      refine ⟨hlength, ?_⟩
      intro k body hbody
      rcases hanswers k body hbody with ⟨e, res, values, hk, hresponds, hanswer⟩
      exact ⟨e, values, hk, hresponds body hanswer⟩

-- a part of JSON: the number 7, and `null`
def sevenOrNull : Codecs where
  toVec
    | .number (.posInt 7) => "7".toUTF8.data.toList
    | _ => "null".toUTF8.data.toList
  fromSlice bytes :=
    if bytes = "7".toUTF8.data.toList then some (.ofU64 7)
    else if bytes = "null".toUTF8.data.toList then some .null
    else none
  encode _ := ""
  decode _ := none
  encodeAll bytes := bytes
  decodeAll bytes := some bytes
  formatTehran _ := none

def postedSeven : HttpRequest :=
  .kvSet "d" "k" (.json [("val", .ofU64 7)])

def postedCalls : Nat → List (ApiCall sevenOrNull)
  | 0 => [⟨.kvGet "d" "k", .steady, .kvGet "d" "k", rfl⟩]
  | 1 => [⟨postedSeven, .steady, .kvSet "d" "k" "7".toUTF8.data.toList 0, rfl⟩]
  | _ => []

-- the value is asked for first, and handled behind the request that posts it
def posting : List Action :=
  [.accept, .accept, .read 0 (Request.stream ((postedCalls 0).map (·.req))), .decode 0,
    .read 1 (Request.stream ((postedCalls 1).map (·.req))), .decode 1, .handle 1 .steady,
    .handle 0 .steady, .write 0 10, .write 1 5]

def postedOrder : ApiCall.Order sevenOrNull :=
  inOrder ((postedCalls 1).map (1, ·) ++ (postedCalls 0).map (0, ·))

theorem first_postedOrder (i : Nat)
    : ((postedOrder.filter fun e => e.1.conn == i).map Prod.snd) <+: postedCalls i := by
  rcases i with _ | _ | i
  . exact List.prefix_refl _
  . exact List.prefix_refl _
  . simp [postedOrder, inOrder, postedCalls]

theorem within_postedCalls
    : ∀ i, ∀ call ∈ postedCalls i,
        call.http.Within sevenOrNull (.single "k")
          ∧ call.req.Fits
          ∧ call.req.frame.length ≤ LengthPrefixCodec.maxFrameSize := by
  intro i call hcall
  have hname : Request.Name "d" ∧ Request.Name "k" := by
    unfold Request.Name
    decide
  rcases i with _ | _ | i
  . cases List.mem_singleton.mp hcall
    exact ⟨trivial, hname, by decide⟩
  . cases List.mem_singleton.mp hcall
    refine ⟨⟨rfl, by simp [Keyspace.single], ?_⟩, ⟨hname.1, hname.2, ?_⟩, by decide⟩
    . intro val hval
      cases hval
      exact ⟨by decide, rfl⟩
    . unfold Request.Sized
      decide
  . cases hcall

theorem fitsFrame_postedOrder
    : ∀ e ∈ (Machine.run (perform fun _ id => id) DB.freshDb postedOrder).1, Request.FitsFrame e.2 := by
  intro e he
  rcases List.mem_cons.mp he with rfl | hlast
  . exact ⟨by decide, trivial⟩
  . cases List.mem_singleton.mp hlast
    exact ⟨by decide, trivial⟩

theorem kv_api_linearizable_posted
    : let fromSlice (_ : List UInt8) : Except String AofEntry := .error "expected value"
      ∃ l,
        Trace.run (step (fun _ id => id) fromSlice) (new DB.freshDb) posting = some l
          ∧ ∃ order : ApiCall.Order sevenOrNull,
              order.map (·.1.handled) = handled (fun _ id => id) fromSlice (new DB.freshDb) posting
                ∧ (∀ e ∈ order, e.1.req = e.2.req)
                ∧ HoldsJson sevenOrNull (.single "k") (Machine.run jsonStep (fun _ => none) order).2 l.db
                ∧ (∀ i task, l.tasks[i]? = some task →
                    let mine := ofConn i (Machine.run jsonStep (fun _ => none) order).1
                    mine.map (·.1.2) <+: postedCalls i
                      ∧ ∀ (k : Nat) (body : List UInt8),
                          (Framing.Reader.new.read task.written).frames[k]? = some body →
                            ∃ e values,
                              mine[k]? = some (e, values)
                                ∧ e.2.http.Responds values (e.2.response body))
                ∧ l.tasks.map (fun task => (Framing.Reader.new.read task.written).frames)
                    = [[[0, 1, 0, 0, 0, 55]], [[0]]]
                ∧ (ofConn 0 (Machine.run jsonStep (fun _ => none) order).1).map
                      (fun e => (e.1.2.http, e.2 ("d", "k")))
                    = [(.kvGet "d" "k", some (.ofU64 7))] := by
  intro fromSlice
  have hrun : ∃ l,
      Trace.run (step (fun _ id => id) fromSlice) (new DB.freshDb) posting = some l
        ∧ l.tasks.map (·.received)
            = [Request.stream ((postedCalls 0).map (·.req)), Request.stream ((postedCalls 1).map (·.req))]
        ∧ l.tasks.map (fun task => (Framing.Reader.new.read task.written).frames)
            = [[[0, 1, 0, 0, 0, 55]], [[0]]] := by
    exact ⟨_, rfl, rfl, rfl⟩
  rcases hrun with ⟨l, hrun, hreceived, hframes⟩
  have hfirst : ∀ i task, l.tasks[i]? = some task →
      task.received <+: Request.stream ((postedCalls i).map (·.req)) := by
    intro i task hget
    rw [eq_of_pair (g := fun i => Request.stream ((postedCalls i).map (·.req))) hreceived i task hget]
  have hholds : HoldsJson sevenOrNull (.single "k") (fun _ => none) DB.freshDb :=
    HoldsJson.of_new (DB.new_eq none)
  rcases kv_api_linearizable hholds hrun postedCalls within_postedCalls hfirst with
    ⟨order, hhandled, hreq, hend, hmine⟩
  have hknown : order = postedOrder := by
    have hconns := congrArg (List.map HandledFrame.conn) hhandled
    rw [List.map_map] at hconns
    have horder : ∀ e ∈ order, e.1.senv = .steady ∧ e.1.req = e.2.req :=
      order_spec hhandled hreq (by simp [posting])
    apply order_eq (n := 2) (hconns.trans rfl) horder _ (inOrder_spec (by simp [postedCalls]))
      fun i _ => first_postedOrder i
    intro i hi
    rcases exists_of_pair hframes hi with ⟨task, hget⟩
    rw [← ofConn_run jsonStep fun _ => none]
    exact (hmine i task hget).1
  refine ⟨l, hrun, order, hhandled, hreq, hend, ?_, hframes, ?_⟩
  . intro i task hget mine
    have ⟨hfirst', hanswers⟩ := hmine i task hget
    refine ⟨hfirst', (hanswers ?_).2⟩
    intro e he
    apply fitsFrame_postedOrder
    rw [← hknown]
    exact (List.mem_filter.mp he).1
  . rw [hknown]
    rfl

end Listener
end MemStream
