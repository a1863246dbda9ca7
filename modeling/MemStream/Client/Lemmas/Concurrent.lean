import MemStream.Client.Lemmas.Calls
import MemStream.Lib.Interleave
import MemStream.Server.Lemmas.Listener

namespace MemStream

namespace Incoming

open LengthPrefixCodec Framing

theorem frames_feed_of_prefix {bodies : List (List UInt8)}
    (h : ∀ body ∈ bodies, body.length ≤ maxFrameSize) {bytes : List UInt8}
    (hbytes : bytes <+: bodies.flatMap frame)
    : (new.feed bytes).frames <+: bodies := by
  rcases drain_take [] h bytes.length with ⟨k, rest, _, hdrain, _, _⟩
  rw [← List.prefix_iff_eq_take.mp hbytes] at hdrain
  rw [new_feed, hdrain, List.nil_append]
  exact List.take_prefix k bodies

theorem frames_feed_flatMap {bodies : List (List UInt8)} (h : ∀ body ∈ bodies, body.length ≤ maxFrameSize)
    : (new.feed (bodies.flatMap frame)).frames = bodies := by
  rcases drain_take [] h (bodies.flatMap frame).length with ⟨k, rest, hk, hdrain, _, hnext⟩
  rw [List.take_length] at hdrain
  rw [new_feed, hdrain, List.nil_append]
  apply List.take_of_length_le
  -- a frame that is missing would be cut off by the end of the stream
  by_contra hlt
  have hcut := hnext (by omega)
  have hle : ((bodies.take (k + 1)).flatMap frame).length ≤ (bodies.flatMap frame).length := by
    conv => rhs; rw [← List.take_append_drop (k + 1) bodies, List.flatMap_append, List.length_append]
    omega
  omega

end Incoming

def Request.stream (reqs : List Request) : List UInt8 :=
  reqs.flatMap fun req => Framing.frame req.frame

structure ClientCall where
  conn : Nat
  req : Request
  senv : ServerEnv

namespace ClientCall

open LengthPrefixCodec

variable {buildKey : String → UInt64 → UInt64} {fromSlice : List UInt8 → Except String AofEntry}

def handled (c : ClientCall) : HandledFrame where
  conn := c.conn
  frame := c.req.frame
  senv := c.senv

def perform (buildKey : String → UInt64 → UInt64) (db : DB) (c : ClientCall)
    : Outcome DBError Reply × DB :=
  c.req.perform buildKey db c.senv.env

theorem exists_calls {order : List HandledFrame} {reqs : Nat → List Request}
    (h : ∀ i, ((order.filter fun e => e.conn == i).map (·.frame)) <+: (reqs i).map Request.frame)
    : ∃ calls : List ClientCall,
        calls.map handled = order
          ∧ ∀ i, ((calls.filter fun c => c.conn == i).map (·.req)) <+: reqs i := by
  rcases List.exists_of_parts h with ⟨items, horder, hframe, hfirst⟩
  refine ⟨items.map fun e => ⟨e.1.conn, e.2, e.1.senv⟩, ?_, ?_⟩
  . rw [← horder, List.map_map]
    apply List.map_congr_left
    rintro ⟨⟨conn, frame, senv⟩, req⟩ he
    show (⟨conn, req.frame, senv⟩ : HandledFrame) = _
    rw [← hframe _ he]
  . intro i
    rw [List.filter_map, List.map_map]
    exact hfirst i

theorem run_serve {calls : List ClientCall} (h : ∀ c ∈ calls, c.req.Fits) (db : DB)
    : Machine.run (Server.serve buildKey fromSlice) db (calls.map handled)
        =
      ((Machine.run (perform buildKey) db calls).1.map
          (fun e => (e.1.handled, Request.responseOf e.2)),
        (Machine.run (perform buildKey) db calls).2) := by
  apply Machine.run_map
  intro s c hc
  exact Request.handleFrame_frame (h c hc)

abbrev History :=
  List (ClientCall × Outcome DBError Reply)

def own (i : Nat) (history : History) : History :=
  history.filter fun e => e.1.conn == i

theorem ownOf_map (i : Nat) (history : History)
    : Listener.ownOf i (history.map fun e => (e.1.handled, Request.responseOf e.2))
        =
      (own i history).map fun e => (e.1.handled, Request.responseOf e.2) := by
  unfold Listener.ownOf own
  rw [List.filter_map]
  rfl

def bodyOf (e : ClientCall × Outcome DBError Reply) : Option (List UInt8) :=
  match Request.responseOf e.2 with
  | .ok bytes => some (bytes.drop 4)
  | _ => none

theorem bodyOf_eq_none {e : ClientCall × Outcome DBError Reply} (h : bodyOf e = none)
    : Request.responseOf e.2 = .panic := by
  unfold bodyOf at h
  split at h
  . simp at h
  . next hne =>
    cases hres : Request.responseOf e.2 with
    | ok bytes => exact absurd hres (hne bytes)
    | err e => cases e
    | panic => rfl

theorem bodyOf_eq_some {e : ClientCall × Outcome DBError Reply} {body : List UInt8}
    (hperform : ∃ db, e.2 = (e.1.perform buildKey db).1) (h : bodyOf e = some body)
    (hfits : Request.FitsFrame e.2)
    : body.length < 4294967296
        ∧ e.1.req.answer body = Request.received e.2
        ∧ (Request.responseOf e.2).bytes = Framing.frame body := by
  rcases hperform with ⟨db, hperform⟩
  unfold bodyOf at h
  split at h
  . next bytes hbytes =>
    have hresponse := hbytes
    rw [hperform] at hbytes hfits
    rcases Request.answered hbytes hfits with ⟨body', hframe, hlength, hanswer⟩
    rw [hframe, Framing.frame_drop, Option.some.injEq] at h
    rw [← h, hresponse, hperform]
    exact ⟨hlength, hanswer, hframe⟩
  . simp at h

theorem flatMap_bytes {history : History}
    (hperform : ∀ e ∈ history, ∃ db, e.2 = (e.1.perform buildKey db).1)
    (hfits : ∀ e ∈ history, Request.FitsFrame e.2)
    : history.flatMap (fun e => (Request.responseOf e.2).bytes)
        =
      (history.filterMap bodyOf).flatMap Framing.frame := by
  induction history with
  | nil => rfl
  | cons e history ih =>
    have hrest := ih (fun e' he => hperform e' (by simp [he])) (fun e' he => hfits e' (by simp [he]))
    rw [List.flatMap_cons, List.filterMap_cons, hrest]
    cases hbody : bodyOf e with
    | none =>
      rw [bodyOf_eq_none hbody]
      rfl
    | some body =>
      have hbytes := (bodyOf_eq_some (hperform e (by simp)) hbody (hfits e (by simp))).2.2
      rw [hbytes, List.flatMap_cons]

theorem getElem?_of_filterMap {α β : Type} {f : α → Option β} {as : List α}
    (h : ∀ a ∈ as.dropLast, f a ≠ none) {k : Nat} {b : β} (hk : (as.filterMap f)[k]? = some b)
    : ∃ a, as[k]? = some a ∧ f a = some b := by
  induction as generalizing k with
  | nil => simp at hk
  | cons a as ih =>
    cases hfa : f a with
    | some b' =>
      rw [List.filterMap_cons_some hfa] at hk
      cases k with
      | zero =>
        rw [List.getElem?_cons_zero] at hk
        exact ⟨a, rfl, hfa.trans hk⟩
      | succ k =>
        rw [List.getElem?_cons_succ] at hk ⊢
        apply ih _ hk
        intro a' ha'
        apply h
        cases as with
        | nil => cases ha'
        | cons a'' as =>
          rw [List.dropLast_cons_cons]
          exact List.mem_cons_of_mem _ ha'
    | none =>
      cases as with
      | nil => simp [hfa] at hk
      | cons a' as =>
        rw [List.dropLast_cons_cons] at h
        exact absurd hfa (h a (by simp))

abbrev served (e : ClientCall × Outcome DBError Reply) : HandledFrame × Server.Response :=
  (e.1.handled, Request.responseOf e.2)

theorem answers_of_follows {task : ConnectionTask} {history : History}
    (hfollows : task.Follows (history.map served))
    (hperform : ∀ e ∈ history, ∃ db, e.2 = (e.1.perform buildKey db).1)
    (hfits : ∀ e ∈ history, Request.FitsFrame e.2)
    : (Framing.Reader.new.read task.written).frames <+: history.filterMap bodyOf
        ∧ (task.pc = .reading →
            (Framing.Reader.new.read task.written).frames.length = history.length) := by
  have hbytes : (history.map served).flatMap (·.2.bytes)
      = (history.filterMap bodyOf).flatMap Framing.frame := by
    rw [List.flatMap_map]
    exact flatMap_bytes hperform hfits
  have hshort : ∀ body ∈ history.filterMap bodyOf, body.length < 4294967296 := by
    intro body hbody
    rcases List.mem_filterMap.mp hbody with ⟨e, he, hbody⟩
    exact (bodyOf_eq_some (hperform e he) hbody (hfits e he)).1
  constructor
  . rcases hfollows.written with ⟨rest, hrest, _⟩
    rw [hbytes] at hrest
    exact Framing.Reader.frames_read_of_prefix rfl hshort ⟨rest, hrest⟩
  . intro hpc
    have hwritten := hfollows.written_eq (by simp [hpc]) (by simp [hpc])
    rw [hbytes] at hwritten
    rw [hwritten, Framing.Reader.frames_read_flatMap rfl hshort]
    -- nothing has panicked, so that there is a response to each request
    have hall : ∀ e ∈ history, bodyOf e ≠ none := by
      intro e he hnone
      apply hfollows.alive (by simp [hpc]) (served e) (List.mem_map_of_mem he)
      exact bodyOf_eq_none hnone
    show (history.filterMap bodyOf).length = history.length
    rw [List.length_filterMap_eq_countP, List.countP_eq_length]
    intro e he
    exact Option.isSome_iff_ne_none.mpr (hall e he)

end ClientCall

namespace Listener

open ClientCall

variable {buildKey : String → UInt64 → UInt64} {fromSlice : List UInt8 → Except String AofEntry}
variable {l : Listener}

/--
The requests in an order in which calling the methods of the database leaves the database. Those of one client
are the first of its requests, and all of them when they have all arrived and its connection waits for more. Each
response that has come back completely is what the method has returned in this order.
-/
structure Linearized (buildKey : String → UInt64 → UInt64) (db : DB) (reqs : Nat → List Request) (l : Listener)
    (calls : List ClientCall) : Prop where
  db_eq : (Machine.run (perform buildKey) db calls).2 = l.db
  order : ∀ i, ((calls.filter fun c => c.conn == i).map (·.req)) <+: reqs i
  complete : ∀ i task, l.tasks[i]? = some task → task.pc = .reading →
    task.received = Request.stream (reqs i) → (calls.filter fun c => c.conn == i).map (·.req) = reqs i
  answered : ∀ i task, l.tasks[i]? = some task →
    let mine := own i (Machine.run (perform buildKey) db calls).1
    let answers := (Framing.Reader.new.read task.written).frames
    (∀ e ∈ mine, Request.FitsFrame e.2) →
      (task.pc = .reading → answers.length = mine.length)
        ∧ ∀ (k : Nat) (body : List UInt8), answers[k]? = some body →
            ∃ c res, mine[k]? = some (c, res) ∧ c.req.answer body = Request.received res

theorem own_reqs (buildKey : String → UInt64 → UInt64) (i : Nat) (db : DB) (calls : List ClientCall)
    : (own i (Machine.run (perform buildKey) db calls).1).map (·.1.req)
        =
      (calls.filter fun c => c.conn == i).map (·.req) := by
  conv => rhs; rw [← Machine.run_ops (perform buildKey) db calls, List.filter_map, List.map_map]
  rfl

theorem stream_eq_flatMap (reqs : List Request)
    : Request.stream reqs = (reqs.map Request.frame).flatMap Framing.frame := by
  rw [List.flatMap_map]
  rfl

theorem frames_handled_prefix {db : DB} {actions : List Action}
    (hrun : Trace.run (step buildKey fromSlice) (new db) actions = some l)
    {reqs : Nat → List Request}
    (hbodies : ∀ i, ∀ body ∈ (reqs i).map Request.frame, body.length ≤ LengthPrefixCodec.maxFrameSize)
    (hreceived : ∀ i task, l.tasks[i]? = some task → task.received <+: Request.stream (reqs i)) (i : Nat)
    : ((handled buildKey fromSlice (new db) actions).filter fun e => e.conn == i).map (·.frame)
        <+: (reqs i).map Request.frame := by
  have h := serial_run hrun
  cases hget : l.tasks[i]? with
  | some task =>
    have hframes : (Incoming.new.feed task.received).frames <+: (reqs i).map Request.frame := by
      apply Incoming.frames_feed_of_prefix (hbodies i)
      rw [← stream_eq_flatMap]
      exact hreceived i task hget
    have hown : (ownOf i (Machine.run (Server.serve buildKey fromSlice) db
          (handled buildKey fromSlice (new db) actions)).1).map (·.1.frame)
        <+: (reqs i).map Request.frame := by
      apply List.IsPrefix.trans _ hframes
      rw [(h.tasks i task hget).frames]
      apply List.IsPrefix.trans _ (Incoming.frames_prefix_of_drain _)
      exact List.prefix_append _ _
    unfold ownOf at hown
    conv => lhs; rw [← Machine.run_ops (Server.serve buildKey fromSlice) db
      (handled buildKey fromSlice (new db) actions), List.filter_map, List.map_map]
    exact hown
  | none =>
    -- there is no such connection, and nothing was handled for it
    have hnone : (handled buildKey fromSlice (new db) actions).filter (fun e => e.conn == i) = [] := by
      apply List.filter_eq_nil_iff.mpr
      intro e he hconn
      have hlt := h.known e he
      rw [beq_iff_eq.mp hconn] at hlt
      exact absurd (List.getElem?_eq_none_iff.mp hget) (by omega)
    rw [hnone]
    exact List.nil_prefix

theorem exists_linearized {db : DB} {actions : List Action}
    (hrun : Trace.run (step buildKey fromSlice) (new db) actions = some l)
    {reqs : Nat → List Request}
    (hreqs : ∀ i, ∀ req ∈ reqs i, req.Fits ∧ req.frame.length ≤ LengthPrefixCodec.maxFrameSize)
    (hreceived : ∀ i task, l.tasks[i]? = some task → task.received <+: Request.stream (reqs i))
    : ∃ calls : List ClientCall,
        calls.map ClientCall.handled = handled buildKey fromSlice (new db) actions
          ∧ Linearized buildKey db reqs l calls := by
  have h := serial_run hrun
  have hbodies : ∀ i, ∀ body ∈ (reqs i).map Request.frame, body.length ≤ LengthPrefixCodec.maxFrameSize := by
    intro i body hbody
    rcases List.mem_map.mp hbody with ⟨req, hreq, rfl⟩
    exact (hreqs i req hreq).2
  have horder := frames_handled_prefix hrun hbodies hreceived
  rcases exists_calls horder with ⟨calls, hcalls, hfirst⟩
  have hfits : ∀ c ∈ calls, c.req.Fits := by
    intro c hc
    apply fun hmem => (hreqs c.conn c.req hmem).1
    apply (hfirst c.conn).subset
    apply List.mem_map_of_mem
    exact List.mem_filter.mpr ⟨hc, by simp⟩
  have hserve : Machine.run (Server.serve buildKey fromSlice) db (calls.map ClientCall.handled) = _ :=
    run_serve hfits db
  rw [hcalls] at hserve
  refine ⟨calls, hcalls, ?_, hfirst, ?_, ?_⟩
  . rw [← h.db, hserve]
  . intro i task hget hpc hall
    have hfollows := h.tasks i task hget
    rw [hserve, ownOf_map] at hfollows
    have hframes := hfollows.frames_eq (by simp [hpc])
    rw [Incoming.drain_of_none (hfollows.reading hpc), hall, stream_eq_flatMap] at hframes
    have hall := Incoming.frames_feed_flatMap (hbodies i)
    rw [hframes] at hall
    apply (hfirst i).eq_of_length
    have hlength := congrArg List.length hall
    rw [← own_reqs buildKey i db calls]
    simpa using hlength
  . intro i task hget mine answers hsent
    have hfollows := h.tasks i task hget
    rw [hserve, ownOf_map] at hfollows
    have hperform : ∀ e ∈ mine, ∃ db, e.2 = (e.1.perform buildKey db).1 := by
      intro e he
      exact Machine.exists_of_mem_run (List.mem_filter.mp he).1
    have hanswers := answers_of_follows hfollows hperform hsent
    refine ⟨hanswers.2, ?_⟩
    intro k body hbody
    have hk : (mine.filterMap bodyOf)[k]? = some body := by
      rcases hanswers.1 with ⟨rest, hrest⟩
      have hlt := (List.getElem?_eq_some_iff.mp hbody).1
      rw [← hrest, List.getElem?_append_left hlt]
      exact hbody
    have hlast : ∀ e ∈ mine.dropLast, bodyOf e ≠ none := by
      intro e he hnone
      apply hfollows.answered (served e)
      . rw [← List.map_dropLast]
        exact List.mem_map_of_mem he
      . exact bodyOf_eq_none hnone
    rcases getElem?_of_filterMap hlast hk with ⟨⟨c, res⟩, hget, hsome⟩
    have hmem := List.mem_of_getElem? hget
    exact ⟨c, res, hget, (bodyOf_eq_some (hperform _ hmem) hsome (hsent _ hmem)).2.1⟩

/--
The clients see one database. There is an order of the requests that were handled, which goes on with the run,
such that the methods of the database, called in this order, leave the database. Those of one client are the
first of its requests in their order, and all of them when they have all arrived and its connection waits for
more. Each response that has come back completely is what the method has returned in this order.
-/
theorem requests_linearizable (buildKey : String → UInt64 → UInt64)
    (fromSlice : List UInt8 → Except String AofEntry) (db : DB) (actions : List Action)
    (hrun : Trace.run (step buildKey fromSlice) (new db) actions = some l)
    (reqs : Nat → List Request)
    (hreqs : ∀ i, ∀ req ∈ reqs i, req.Fits ∧ req.frame.length ≤ LengthPrefixCodec.maxFrameSize)
    (hreceived : ∀ i task, l.tasks[i]? = some task → task.received <+: Request.stream (reqs i))
    : ∃ calls : List ClientCall,
        calls.map ClientCall.handled = handled buildKey fromSlice (new db) actions
          ∧ (Machine.run (perform buildKey) db calls).2 = l.db
          ∧ ∀ i task, l.tasks[i]? = some task →
              let mine := own i (Machine.run (perform buildKey) db calls).1
              let answers := (Framing.Reader.new.read task.written).frames
              mine.map (·.1.req) <+: reqs i
                ∧ (task.pc = .reading → task.received = Request.stream (reqs i) →
                    mine.map (·.1.req) = reqs i)
                ∧ ((∀ e ∈ mine, Request.FitsFrame e.2) →
                    (task.pc = .reading → answers.length = mine.length)
                      ∧ ∀ (k : Nat) (body : List UInt8), answers[k]? = some body →
                          ∃ c res,
                            mine[k]? = some (c, res)
                              ∧ c.req.answer body = Request.received res) := by
  rcases exists_linearized hrun hreqs hreceived with ⟨calls, hcalls, h⟩
  refine ⟨calls, hcalls, h.db_eq, ?_⟩
  intro i task hget mine answers
  have hmine : mine.map (·.1.req) = (calls.filter fun c => c.conn == i).map (·.req) :=
    own_reqs buildKey i db calls
  refine ⟨?_, ?_, h.answered i task hget⟩
  . rw [hmine]
    exact h.order i
  . intro hpc hall
    rw [hmine]
    exact h.complete i task hget hpc hall

theorem eq_of_pair {α : Type} {l : Listener} {f : ConnectionTask → α} {g : Nat → α}
    (h : l.tasks.map f = [g 0, g 1])
    : ∀ i task, l.tasks[i]? = some task → f task = g i := by
  intro i task hget
  have hi := congrArg (fun list => list[i]?) h
  rw [List.getElem?_map, hget, Option.map_some] at hi
  rcases i with _ | _ | i
  . exact Option.some.inj hi
  . exact Option.some.inj hi
  . cases hi

theorem exists_of_pair {α : Type} {l : Listener} {f : ConnectionTask → α} {a b : α}
    (h : l.tasks.map f = [a, b]) {i : Nat} (hi : i < 2)
    : ∃ task, l.tasks[i]? = some task := by
  have hlength := congrArg List.length h
  rw [List.length_map] at hlength
  exact ⟨_, List.getElem?_eq_getElem (hlength ▸ hi)⟩

def crossingRequests : Nat → List Request
  | 0 => [.kvGet "d" "k"]
  | 1 => [.kvSet "d" "k" [7] 0]
  | _ => []

def crossingCalls : List ClientCall :=
  let senv : ServerEnv := ⟨fun _ => Env.steady, .ok ()⟩
  [⟨1, .kvSet "d" "k" [7] 0, senv⟩, ⟨0, .kvGet "d" "k", senv⟩]

theorem eq_crossingCalls {calls : List ClientCall}
    (hhandled : calls.map ClientCall.handled = crossingCalls.map ClientCall.handled)
    (hreqs : ∀ i < 2, (calls.filter fun c => c.conn == i).map (·.req) = crossingRequests i)
    : calls = crossingCalls := by
  rcases calls with _ | ⟨⟨conn, req, senv⟩, _ | ⟨⟨conn', req', senv'⟩, _ | ⟨c, calls⟩⟩⟩
  . cases hhandled
  . simp [crossingCalls] at hhandled
  . simp only [crossingCalls, List.map_cons, List.map_nil, ClientCall.handled, List.cons.injEq,
      HandledFrame.mk.injEq, and_true] at hhandled
    rcases hhandled with ⟨⟨rfl, _, rfl⟩, rfl, _, rfl⟩
    have hset := hreqs 1 (by decide)
    have hget := hreqs 0 (by decide)
    simp [crossingRequests] at hset hget
    rw [hset, hget]
    rfl
  . simp [crossingCalls] at hhandled

-- until both connections wait for more
def crossed : List Action :=
  crossing ++ [.decode 0, .decode 1]

theorem requests_linearizable_crossing
    : let fromSlice (_ : List UInt8) : Except String AofEntry := .error "expected value"
      ∃ l calls,
        Trace.run (step (fun _ id => id) fromSlice) (new DB.freshDb) crossed = some l
          ∧ calls.map ClientCall.handled = handled (fun _ id => id) fromSlice (new DB.freshDb) crossed
          ∧ (Machine.run (perform fun _ id => id) DB.freshDb calls).2 = l.db
          ∧ (∀ i task, l.tasks[i]? = some task →
              let mine := own i (Machine.run (perform fun _ id => id) DB.freshDb calls).1
              let answers := (Framing.Reader.new.read task.written).frames
              mine.map (·.1.req) = crossingRequests i
                ∧ answers.length = mine.length
                ∧ ∀ (k : Nat) (body : List UInt8), answers[k]? = some body →
                    ∃ c res, mine[k]? = some (c, res) ∧ c.req.answer body = Request.received res)
          ∧ l.tasks.map (fun task => (Framing.Reader.new.read task.written).frames)
              = [[[0, 1, 0, 0, 0, 7]], [[0]]]
          ∧ (own 0 (Machine.run (perform fun _ id => id) DB.freshDb calls).1).map (·.2)
              = [.ok (.value (some [7]))] := by
  intro fromSlice
  have hreqs : ∀ i, ∀ req ∈ crossingRequests i,
      req.Fits ∧ req.frame.length ≤ LengthPrefixCodec.maxFrameSize := by
    intro i req hreq
    have hname : Request.Name "d" ∧ Request.Name "k" := by
      unfold Request.Name
      decide
    rcases i with _ | _ | i
    . cases List.mem_singleton.mp hreq
      exact ⟨hname, by decide⟩
    . cases List.mem_singleton.mp hreq
      exact ⟨⟨hname.1, hname.2, by simp [Request.Sized]⟩, by decide⟩
    . cases hreq
  have hrun : ∃ l,
      Trace.run (step (fun _ id => id) fromSlice) (new DB.freshDb) crossed = some l
        ∧ l.tasks.map (·.received)
            = [Request.stream (crossingRequests 0), Request.stream (crossingRequests 1)]
        ∧ l.tasks.map (·.pc) = [.reading, .reading]
        ∧ l.tasks.map (fun task => (Framing.Reader.new.read task.written).frames)
            = [[[0, 1, 0, 0, 0, 7]], [[0]]] := by
    exact ⟨_, rfl, rfl, rfl, rfl⟩
  rcases hrun with ⟨l, hrun, hreceived, hpc, hframes⟩
  have hall : ∀ i task, l.tasks[i]? = some task →
      task.received = Request.stream (crossingRequests i) :=
    eq_of_pair hreceived
  have hreading : ∀ (i : Nat) (task : ConnectionTask), l.tasks[i]? = some task → task.pc = .reading :=
    eq_of_pair (f := ConnectionTask.pc) (g := fun _ => ConnectionPc.reading) hpc
  have hfirst : ∀ i task, l.tasks[i]? = some task →
      task.received <+: Request.stream (crossingRequests i) := by
    intro i task hget
    rw [hall i task hget]
  rcases requests_linearizable (fun _ id => id) fromSlice DB.freshDb crossed hrun crossingRequests
    hreqs hfirst with ⟨calls, hcalls, hdb, hconns⟩
  have hknown : calls = crossingCalls := by
    apply eq_crossingCalls
    . rw [hcalls]
      rfl
    . intro i hi
      rcases exists_of_pair hpc hi with ⟨task, hget⟩
      rw [← own_reqs (fun _ id => id) i DB.freshDb calls]
      exact (hconns i task hget).2.1 (hreading i task hget) (hall i task hget)
  refine ⟨l, calls, hrun, hcalls, hdb, ?_, hframes, ?_⟩
  . intro i task hget mine answers
    rcases hconns i task hget with ⟨_, hmine, hanswers⟩
    have hfits : ∀ e ∈ mine, Request.FitsFrame e.2 := by
      intro e he
      have hmem : e ∈ (Machine.run (perform fun _ id => id) DB.freshDb crossingCalls).1 := by
        rw [← hknown]
        exact (List.mem_filter.mp he).1
      rcases List.mem_cons.mp hmem with rfl | hmem
      . exact ⟨by decide, trivial⟩
      . cases List.mem_singleton.mp hmem
        exact ⟨by decide, trivial⟩
    rcases hanswers hfits with ⟨hlength, hbodies⟩
    have hpc := hreading i task hget
    exact ⟨hmine hpc (hall i task hget), hlength hpc, hbodies⟩
  . rw [hknown]
    rfl

end Listener
end MemStream
