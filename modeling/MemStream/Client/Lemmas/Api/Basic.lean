import MemStream.Client.Impl.Handlers
import MemStream.Client.Lemmas.Concurrent

namespace MemStream

namespace Api

def answering (body : List UInt8) : ApiPool (List (List UInt8)) where
  acquire sent := (.ok (), sent)
  sendRecv sent frame := (.ok body, sent ++ [frame])

def finish {α : Type} (res : Outcome String α) (ok : α → Handled) : Handled :=
  match res with
  | .ok val => ok val
  | .err e => failure .badRequest e
  | .panic => .panic

theorem respond_answering {α : Type} (body : List UInt8) (sent : List (List UInt8)) (frame : List UInt8)
    (answer : List UInt8 → Outcome String α) (ok : α → Handled)
    : respond (answering body) sent frame answer ok = (finish (answer body) ok, sent ++ [frame]) := by
  unfold respond finish answering
  dsimp only
  cases answer body with
  | ok val => rfl
  | err e => rfl
  | panic => rfl

theorem acquired_answering (body : List UInt8) (sent : List (List UInt8))
    (handler : List (List UInt8) → Handled × List (List UInt8))
    : acquired (answering body) sent handler = handler sent := by
  rfl

theorem respond_sent {α : Type} (body : List UInt8) (sent : List (List UInt8)) (frame : List UInt8)
    (answer : List UInt8 → Outcome String α) (ok : α → Handled)
    : respond (answering body) sent frame answer ok
        =
      ((respond (answering body) [] frame answer ok).1, sent ++ [frame]) := by
  rw [respond_answering, respond_answering]

end Api

def HttpEnv.steady : HttpEnv where
  now _ := 0
  order _ := Env.steady.order

def ServerEnv.steady : ServerEnv :=
  ⟨fun _ => Env.steady, .ok ()⟩

namespace HttpRequest

def request (codecs : Codecs) (env : HttpEnv) : HttpRequest → Option Request
  | .createGroup name => some (.createGroup name)
  | .listGroups => some .listGroups
  | .dropGroup name => some (.dropGroup name)
  | .groupStats name => some (.groupStats name)
  | .addEntry name req =>
    some (.add name (env.now 0).toUInt64 (Api.encodePayloadB64 codecs (env.order 0) req))
  | .addRangeEntries name req =>
    some (.addRange name (req.zipIdx.map fun e =>
      ((env.now e.2).toUInt64, Api.encodePayloadB64 codecs (env.order e.2) e.1)))
  | .readEntry name id => some (.read name id)
  | .readRangeEntries name startId endId => some (.readRange name startId endId)
  | .dropEntries group uptoId => some (.remove group uptoId)
  | .kvSet db key req => (req.get "val").map fun v => .kvSet db key (codecs.toVec v) (Api.ttlSecs req)
  | .kvGet db key => some (.kvGet db key)
  | .kvDel db key => some (.kvDel db key)
  | .kvKeys db => some (.kvKeys db)
  | .kvFlush db => some (.kvFlush db)
  | _ => none

def response (http : HttpRequest) (codecs : Codecs) (env : HttpEnv) (body : List UInt8) : Api.Handled :=
  (http.handle (Api.answering body) codecs env []).1

variable {codecs : Codecs} {env : HttpEnv}

theorem handle_answering {http : HttpRequest} {req : Request} (h : http.request codecs env = some req)
    (body : List UInt8) (sent : List (List UInt8))
    : http.handle (Api.answering body) codecs env sent
        =
      (http.response codecs env body, sent ++ [req.frame]) := by
  unfold response
  cases http with
  | kvSet db key json =>
    unfold request at h
    rcases Option.map_eq_some_iff.mp h with ⟨v, hval, rfl⟩
    unfold handle
    dsimp only
    unfold Api.kvSet
    rw [Api.acquired_answering, Api.acquired_answering]
    simp only [hval]
    exact Api.respond_sent body sent _ _ _
  | listPush | listPushRange | listPop | listPopRange | listPopCount | listLen | listFlush | health => cases h
  | _ =>
    cases h
    exact Api.respond_sent body sent _ _ _

theorem exists_finish {http : HttpRequest} {req : Request} (h : http.request codecs env = some req)
    : ∃ (α : Type) (answer : List UInt8 → Outcome String α) (f : α → Reply) (ok : α → Api.Handled),
        Function.Injective f
          ∧ ∀ body,
              req.answer body = (answer body).map f
                ∧ http.response codecs env body = Api.finish (answer body) ok := by
  unfold response
  cases http with
  | kvSet db key json =>
    rcases Option.map_eq_some_iff.mp h with ⟨v, hval, rfl⟩
    refine ⟨Unit, StreamClient.kvSetAnswer, fun _ => .done, Api.done "ok",
      Function.injective_of_subsingleton _, ?_⟩
    intro body
    refine ⟨rfl, ?_⟩
    unfold handle
    dsimp only
    unfold Api.kvSet
    rw [Api.acquired_answering]
    simp only [hval]
    rw [Api.respond_answering]
  | listPush | listPushRange | listPop | listPopRange | listPopCount | listLen | listFlush | health => cases h
  | _ =>
    cases h
    refine ⟨_, _, _, _, ?_, fun body => ⟨rfl, congrArg Prod.fst (Api.respond_answering body [] _ _ _)⟩⟩
    intro val val' heq
    grind

theorem response_congr {http : HttpRequest} {req : Request} (h : http.request codecs env = some req)
    {body body' : List UInt8} (hanswer : req.answer body = req.answer body')
    : http.response codecs env body = http.response codecs env body' := by
  rcases exists_finish h with ⟨α, answer, f, ok, hinj, hfinish⟩
  have hsame : answer body = answer body' := by
    apply Outcome.map_injective hinj
    rw [← (hfinish body).1, ← (hfinish body').1]
    exact hanswer
  rw [(hfinish body).2, (hfinish body').2, hsame]

def refusal : Outcome DBError Reply → Api.Handled
  | .err e => Api.failure .badRequest e.toText
  | _ => .panic

theorem response_of_refused {http : HttpRequest} {req : Request} (h : http.request codecs env = some req)
    {res : Outcome DBError Reply} (hres : res.isOk = false) {body : List UInt8}
    (hanswer : req.answer body = Request.received res)
    : http.response codecs env body = refusal res := by
  rcases exists_finish h with ⟨α, answer, f, ok, _, hall⟩
  have ⟨hmap, hfinish⟩ := hall body
  rw [hmap] at hanswer
  rw [hfinish]
  cases res with
  | ok reply => cases hres
  | err e =>
    rw [Outcome.map_eq_err hanswer]
    rfl
  | panic =>
    rw [Outcome.map_eq_panic hanswer]
    rfl

end HttpRequest

structure ApiCall (codecs : Codecs) where
  http : HttpRequest
  env : HttpEnv
  req : Request
  sends : http.request codecs env = some req

namespace ApiCall

variable {codecs : Codecs}

def response (call : ApiCall codecs) (body : List UInt8) : Api.Handled :=
  call.http.response codecs call.env body

abbrev Order (codecs : Codecs) :=
  List (ClientCall × ApiCall codecs)

def ofConn {α : Type} (i : Nat) (history : List ((ClientCall × ApiCall codecs) × α))
    : List ((ClientCall × ApiCall codecs) × α) :=
  history.filter fun e => e.1.1.conn == i

def perform (buildKey : String → UInt64 → UInt64) (db : DB) (e : ClientCall × ApiCall codecs)
    : Outcome DBError Reply × DB :=
  e.1.perform buildKey db

theorem run_perform (buildKey : String → UInt64 → UInt64) (db : DB) (order : Order codecs)
    : Machine.run (ClientCall.perform buildKey) db (order.map Prod.fst)
        =
      ((Machine.run (perform buildKey) db order).1.map (fun e => (e.1.1, e.2)),
        (Machine.run (perform buildKey) db order).2) := by
  apply Machine.run_map (g := id)
  intro s e _
  rfl

theorem own_run_perform (buildKey : String → UInt64 → UInt64) (db : DB) (order : Order codecs) (i : Nat)
    : ClientCall.own i (Machine.run (ClientCall.perform buildKey) db (order.map Prod.fst)).1
        =
      (ofConn i (Machine.run (perform buildKey) db order).1).map fun e => (e.1.1, e.2) := by
  rw [run_perform]
  unfold ClientCall.own ofConn
  rw [List.filter_map]
  rfl

theorem ofConn_map {α : Type} (i : Nat) (history : List ((ClientCall × ApiCall codecs) × α))
    : (ofConn i history).map (·.1.2)
        =
      ((history.map Prod.fst).filter fun e => e.1.conn == i).map Prod.snd := by
  unfold ofConn
  rw [List.filter_map, List.map_map]
  rfl

theorem ofConn_run {σ ρ : Type} (step : σ → ClientCall × ApiCall codecs → ρ × σ) (s : σ) (order : Order codecs)
    (i : Nat)
    : (ofConn i (Machine.run step s order).1).map (·.1.2)
        =
      (order.filter fun e => e.1.conn == i).map Prod.snd := by
  rw [ofConn_map, Machine.run_ops]

theorem mem_of_first {order : Order codecs} {calls : Nat → List (ApiCall codecs)}
    (hfirst : ∀ i, ((order.filter fun e => e.1.conn == i).map Prod.snd) <+: calls i)
    {e : ClientCall × ApiCall codecs} (he : e ∈ order)
    : e.2 ∈ calls e.1.conn := by
  apply (hfirst e.1.conn).subset
  apply List.mem_map_of_mem
  exact List.mem_filter.mpr ⟨he, by simp⟩

theorem first_cons {n : Nat} {e : ClientCall × ApiCall codecs} {order : Order codecs}
    {calls : Nat → List (ApiCall codecs)} (hconn : e.1.conn < n)
    (hfirst : ∀ i < n, (((e :: order).filter fun e => e.1.conn == i).map Prod.snd) <+: calls i)
    : (calls e.1.conn).head? = some e.2
        ∧ ∀ i < n, ((order.filter fun e => e.1.conn == i).map Prod.snd)
            <+: if i = e.1.conn then (calls i).tail else calls i := by
  have hown := hfirst e.1.conn hconn
  rw [List.filter_cons_of_pos (by simp), List.map_cons] at hown
  rcases hown with ⟨rest, hrest⟩
  refine ⟨by rw [← hrest]; rfl, fun i hi => ?_⟩
  split
  . next heq =>
    rw [heq, ← hrest]
    exact List.prefix_append _ rest
  . next hne =>
    have hother := hfirst i hi
    rw [List.filter_cons_of_neg (by simpa using fun h => hne h.symm)] at hother
    exact hother

theorem order_eq {n : Nat} {senv : ServerEnv} {order order' : Order codecs}
    {calls : Nat → List (ApiCall codecs)}
    (hconns : order.map (·.1.conn) = order'.map (·.1.conn))
    (horder : ∀ e ∈ order, e.1.senv = senv ∧ e.1.req = e.2.req)
    (hfirst : ∀ i < n, ((order.filter fun e => e.1.conn == i).map Prod.snd) <+: calls i)
    (horder' : ∀ e ∈ order', e.1.conn < n ∧ e.1.senv = senv ∧ e.1.req = e.2.req)
    (hfirst' : ∀ i < n, ((order'.filter fun e => e.1.conn == i).map Prod.snd) <+: calls i)
    : order = order' := by
  induction order generalizing order' calls with
  | nil => exact (List.map_eq_nil_iff.mp hconns.symm).symm
  | cons e order ih =>
    cases order' with
    | nil => cases hconns
    | cons e' order' =>
      rw [List.map_cons, List.map_cons, List.cons.injEq] at hconns
      rcases hconns with ⟨hhead, htail⟩
      rcases e with ⟨⟨conn, req, env⟩, call⟩
      rcases e' with ⟨⟨conn', req', env'⟩, call'⟩
      cases hhead
      have ⟨henv, hreq⟩ := horder _ (List.mem_cons_self ..)
      have ⟨hconn, henv', hreq'⟩ := horder' _ (List.mem_cons_self ..)
      have ⟨hcall, hrest⟩ := first_cons (e := (⟨conn, req, env⟩, call)) hconn hfirst
      have ⟨hcall', hrest'⟩ := first_cons (e := (⟨conn, req', env'⟩, call')) hconn hfirst'
      rw [hcall, Option.some.injEq] at hcall'
      dsimp only at henv hreq henv' hreq' hcall'
      rw [henv, hreq, henv', hreq', hcall', ih htail (fun e he => horder e (List.mem_cons_of_mem _ he)) hrest
        (fun e he => horder' e (List.mem_cons_of_mem _ he)) hrest']

theorem exists_getElem? {α β : Type} {R : α → β → Prop} {as : List α} {bs : List β}
    (h : List.Forall₂ R as bs) {k : Nat} {a : α} (hk : as[k]? = some a)
    : ∃ b, bs[k]? = some b ∧ R a b := by
  induction h generalizing k with
  | nil => simp at hk
  | cons hab _ ih =>
    cases k with
    | zero =>
      rw [List.getElem?_cons_zero, Option.some.injEq] at hk
      rw [← hk]
      exact ⟨_, rfl, hab⟩
    | succ k =>
      rw [List.getElem?_cons_succ] at hk
      exact ih hk

def inOrder (calls : List (Nat × ApiCall codecs)) : Order codecs :=
  calls.map fun e => (⟨e.1, e.2.req, .steady⟩, e.2)

theorem inOrder_spec {calls : List (Nat × ApiCall codecs)} {n : Nat} (h : ∀ e ∈ calls, e.1 < n)
    : ∀ e ∈ inOrder calls, e.1.conn < n ∧ e.1.senv = .steady ∧ e.1.req = e.2.req := by
  intro e he
  rcases List.mem_map.mp he with ⟨call, hcall, rfl⟩
  exact ⟨h call hcall, rfl, rfl⟩

end ApiCall

namespace Listener

open ApiCall

variable {buildKey : String → UInt64 → UInt64} {fromSlice : List UInt8 → Except String AofEntry}
  {codecs : Codecs} {l : Listener} {db : DB}

theorem order_spec {actions : List Action} {l : Listener} {order : Order codecs}
    (hhandled : order.map (·.1.handled) = handled buildKey fromSlice l actions)
    (hreq : ∀ e ∈ order, e.1.req = e.2.req) {senv : ServerEnv}
    (hsenv : ∀ a ∈ actions, ∀ i senv', a = .handle i senv' → senv' = senv)
    : ∀ e ∈ order, e.1.senv = senv ∧ e.1.req = e.2.req := by
  intro e he
  refine ⟨?_, hreq e he⟩
  apply hsenv _ _ e.1.conn e.1.senv rfl
  apply handle_mem_of_handled (h := e.1.handled)
  rw [← hhandled]
  exact List.mem_map_of_mem he

theorem exists_api_order {actions : List Action}
    (hrun : Trace.run (step buildKey fromSlice) (new db) actions = some l)
    {calls : Nat → List (ApiCall codecs)}
    (hcalls : ∀ i, ∀ call ∈ calls i,
      call.req.Fits ∧ call.req.frame.length ≤ LengthPrefixCodec.maxFrameSize)
    (hreceived : ∀ i task, l.tasks[i]? = some task →
      task.received <+: Request.stream ((calls i).map (·.req)))
    : ∃ order : Order codecs,
        order.map (·.1.handled) = handled buildKey fromSlice (new db) actions
          ∧ (∀ e ∈ order, e.1.req = e.2.req)
          ∧ (∀ i, ((order.filter fun e => e.1.conn == i).map Prod.snd) <+: calls i)
          ∧ Linearized buildKey db (fun i => (calls i).map (·.req)) l (order.map Prod.fst) := by
  have hreqs : ∀ i, ∀ req ∈ (calls i).map (·.req),
      req.Fits ∧ req.frame.length ≤ LengthPrefixCodec.maxFrameSize := by
    intro i req hreq
    rcases List.mem_map.mp hreq with ⟨call, hcall, rfl⟩
    exact hcalls i call hcall
  rcases exists_linearized hrun hreqs hreceived with ⟨reqs, hhandled, h⟩
  rcases List.exists_of_parts h.order with ⟨order, horder, hkey, hfirst⟩
  refine ⟨order, ?_, hkey, hfirst, ?_⟩
  . rw [← hhandled, ← horder, List.map_map]
    rfl
  . rw [horder]
    exact h

theorem Linearized.api_answered {reqs : Nat → List Request} {order : Order codecs}
    (h : Linearized buildKey db reqs l (order.map Prod.fst)) {ρ : Type}
    {history : List ((ClientCall × ApiCall codecs) × ρ)}
    {Q : ClientCall × ApiCall codecs → Outcome DBError Reply → ρ → Prop}
    (hhistory : List.Forall₂ (fun e e' => e.1 = e'.1 ∧ Q e.1 e.2 e'.2)
      (Machine.run (perform buildKey) db order).1 history)
    {i : Nat} {task : ConnectionTask} (hget : l.tasks[i]? = some task)
    (hfits : ∀ e ∈ ofConn i (Machine.run (perform buildKey) db order).1, Request.FitsFrame e.2)
    : let answers := (Framing.Reader.new.read task.written).frames
      (task.pc = .reading → answers.length = (ofConn i history).length)
        ∧ ∀ (k : Nat) (body : List UInt8), answers[k]? = some body →
            ∃ e res r,
              (ofConn i history)[k]? = some (e, r)
                ∧ Q e res r
                ∧ e.1.req.answer body = Request.received res := by
  intro answers
  have hown := own_run_perform buildKey db order i
  have hanswered := h.answered i task hget
  rw [hown] at hanswered
  have hfits' : ∀ e ∈ (ofConn i (Machine.run (perform buildKey) db order).1).map
      (fun e => (e.1.1, e.2)), Request.FitsFrame e.2 := by
    intro e he
    rcases List.mem_map.mp he with ⟨e', he', rfl⟩
    exact hfits e' he'
  have ⟨hlength, hbodies⟩ := hanswered hfits'
  have hconn : List.Forall₂ (fun e e' => e.1 = e'.1 ∧ Q e.1 e.2 e'.2)
      (ofConn i (Machine.run (perform buildKey) db order).1) (ofConn i history) := by
    apply List.rel_filter _ hhistory
    intro e e' hee
    dsimp only
    rw [hee.1]
  refine ⟨?_, ?_⟩
  . intro hpc
    rw [hlength hpc, List.length_map, hconn.length_eq]
  . intro k body hbody
    rcases hbodies k body hbody with ⟨c, res, hk, hanswer⟩
    rw [List.getElem?_map] at hk
    rcases Option.map_eq_some_iff.mp hk with ⟨⟨e, res'⟩, hk', heq⟩
    rcases exists_getElem? hconn hk' with ⟨⟨e', r⟩, hr, rfl, hq⟩
    cases heq
    exact ⟨e, res', r, hr, hq, hanswer⟩

end Listener
end MemStream
