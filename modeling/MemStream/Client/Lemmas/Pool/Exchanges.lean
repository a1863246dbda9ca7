import MemStream.Client.Lemmas.Pool.Steps

/-!
The answers that calls of `send_recv` return. A call reads the first answer that it finds on its connection.
This is the answer to its own request if everything that was asked before has been read, which holds unless
an earlier call was given up between the first byte of its request and the last one of its answer.
-/

namespace MemStream

open Framing (Reader)

/-- Every request is complete, and its answer was read to the end. -/
structure Connection.Clean (c : Connection) : Prop where
  complete : c.requests.rest = []
  answered : c.answers.length = c.requests.frames.length
  read : c.taken = c.replies.length

-- `base` is what was sent before the call, `old` the answers to it and `own` the answer to the call
structure Call.Exchanging (call : Call) (c : Connection) (base : List UInt8) (old : List (List UInt8))
    (own : Option (List UInt8)) : Prop where
  short : call.frame.length < 4294967296
  start : call.start = base.length
  written_le : call.written ≤ call.bytes.length
  sent : c.sent = base ++ call.bytes.take call.written
  complete : (Reader.new.read base).rest = []
  answered : old.length = (Reader.new.read base).frames.length
  answers : c.answers = old ++ own.toList
  asked : ∀ resp, own = some resp → call.written = call.bytes.length ∧ resp.length < 4294967296
  taken : c.taken = (old.flatMap Framing.frame).length + call.got.length
  got : call.got <+: own.toList.flatMap Framing.frame

structure Exchange.Own (x : Exchange) : Prop where
  complete : (Reader.new.read (x.client.sent.take x.call.start)).rest = []
  request :
    x.client.requests.frames[(Reader.new.read (x.client.sent.take x.call.start)).frames.length]?
      = some x.call.frame
  answer :
    x.client.answers[(Reader.new.read (x.client.sent.take x.call.start)).frames.length]?
      = some x.resp

namespace Call.Exchanging

variable {call : Call} {c : Connection} {base : List UInt8} {old : List (List UInt8)}
  {own : Option (List UInt8)}

theorem start_clean {c : Connection} (h : c.Clean) {body : List UInt8}
    (hbody : body.length < 4294967296)
    : Exchanging ⟨body, c.sent.length, 0, []⟩ c c.sent c.answers none where
  short := hbody
  start := rfl
  written_le := Nat.zero_le _
  sent := by simp
  complete := h.complete
  answered := h.answered
  answers := by simp
  asked := by simp
  taken := h.read
  got := List.nil_prefix

theorem frames_eq (h : call.Exchanging c base old own)
    : c.requests.frames
        =
      (Reader.new.read base).frames
        ++ if call.written = call.bytes.length then [call.frame] else [] := by
  unfold Connection.requests
  rw [h.sent, Reader.read_append]
  split
  . next hfull =>
    rw [hfull, List.take_length, bytes, Reader.read_frame h.complete h.short]
  . next hpart =>
    have hle := h.written_le
    rw [bytes, Reader.read_take_frame h.complete h.short (by unfold bytes at hpart hle; omega)]
    simp

theorem write (h : call.Exchanging c base old own) {n : Nat} (hn : call.written + n ≤ call.bytes.length)
    : Exchanging { call with written := call.written + n }
        (c.write ((call.bytes.drop call.written).take n)) base old own where
  short := h.short
  start := h.start
  written_le := hn
  sent := by
    show c.sent ++ (call.bytes.drop call.written).take n = base ++ call.bytes.take (call.written + n)
    rw [h.sent, List.append_assoc, List.take_add]
  complete := h.complete
  answered := h.answered
  answers := h.answers
  asked := by
    intro resp hown
    have ⟨hfull, hresp⟩ := h.asked resp hown
    refine ⟨?_, hresp⟩
    show call.written + n = call.bytes.length
    omega
  taken := h.taken
  got := h.got

theorem read (h : call.Exchanging c base old own) (n : Nat)
    : Exchanging { call with got := call.got ++ c.unread.take n }
        { c with taken := c.taken + (c.unread.take n).length } base old own where
  short := h.short
  start := h.start
  written_le := h.written_le
  sent := h.sent
  complete := h.complete
  answered := h.answered
  answers := h.answers
  asked := h.asked
  taken := by
    show c.taken + (c.unread.take n).length
      = (old.flatMap Framing.frame).length + (call.got ++ c.unread.take n).length
    rw [List.length_append, h.taken]
    omega
  got := by
    have hreplies : c.replies = old.flatMap Framing.frame ++ own.toList.flatMap Framing.frame := by
      unfold Connection.replies
      rw [h.answers, List.flatMap_append]
    have hunread : c.unread.take n <+: (own.toList.flatMap Framing.frame).drop call.got.length := by
      apply (List.take_prefix n _).trans
      unfold Connection.unread
      rw [hreplies, h.taken, List.drop_take, ← List.drop_drop, List.drop_left]
      apply List.take_prefix
    rcases h.got with ⟨rest, hrest⟩
    rw [← hrest, List.drop_left] at hunread
    rw [← hrest, List.prefix_append_right_inj]
    exact hunread

theorem serve (h : call.Exchanging c base old own) {a : Connection.ServerAction} {c' : Connection}
    (hserve : c.serve a = some c')
    : ∃ own', call.Exchanging c' base old own' := by
  cases a with
  | answer resp =>
    simp only [Connection.serve] at hserve
    split at hserve
    . next hcan =>
      rcases hcan with ⟨_, hlt, hresp⟩
      cases hserve
      rw [h.frames_eq, h.answers, List.length_append, List.length_append, h.answered] at hlt
      -- the only request that can be waiting for an answer is the one of the call
      split at hlt
      . next hfull =>
        cases own with
        | some resp' => simp at hlt
        | none =>
          refine ⟨some resp, ?_⟩
          exact
            { h with
              answers := by rw [h.answers]; simp
              asked := by
                intro resp' hresp'
                cases hresp'
                exact ⟨hfull, hresp⟩
              got := h.got.trans List.nil_prefix }
      . simp at hlt
    . simp at hserve
  | deliver n =>
    simp only [Connection.serve] at hserve
    split at hserve
    . cases hserve
      exact ⟨own, { h with }⟩
    . simp at hserve
  | close =>
    cases hserve
    exact ⟨own, { h with }⟩

theorem returns_own (h : call.Exchanging c base old own) (hwritten : call.written = call.bytes.length)
    (hcomplete : Framing.complete call.got = true)
    : Exchange.Own ⟨c, call, call.got.drop 4⟩ := by
  have hbase : c.sent.take call.start = base := by
    rw [h.sent, h.start, List.take_left]
  cases own with
  | none =>
    have hgot : call.got = [] := List.prefix_nil.mp h.got
    rw [hgot] at hcomplete
    contradiction
  | some resp =>
    have ⟨_, hresp⟩ := h.asked resp rfl
    have hprefix : call.got <+: Framing.frame resp := by
      have := h.got
      rw [Option.toList_some, List.flatMap_singleton] at this
      assumption
    rw [List.prefix_iff_eq_take.mp hprefix, Framing.complete_take hresp hprefix.length_le] at hcomplete
    have hgot := hprefix.eq_of_length hcomplete
    refine ⟨?_, ?_, ?_⟩
    . rw [hbase]
      exact h.complete
    . rw [hbase, h.frames_eq, if_pos hwritten]
      simp
    . rw [hbase, ← h.answered, h.answers, hgot, Framing.frame_drop]
      simp

end Call.Exchanging

def PooledClient.InStep (handle : PooledClient) : Prop :=
  ∀ call, handle.call = some call → ∃ base old own, call.Exchanging handle.client base old own

namespace ClientPool

variable {pool pool' : ClientPool}

/--
A call starts on a connection without an unfinished exchange, with a frame whose length fits into 32 bits.
-/
def StartsClean (pool : ClientPool) : Action → Prop
  | .call i (.start body) =>
    body.length < 4294967296 ∧ ∀ handle, pool.handles[i]? = some handle → handle.client.Clean
  | _ => True

structure Sound (pool : ClientPool) : Prop where
  inStep : ∀ handle ∈ pool.handles, handle.InStep
  own : ∀ x ∈ pool.returned, x.Own

theorem inStep_of_call_eq_none {handle : PooledClient} (h : handle.call = none) : handle.InStep := by
  intro call hcall
  rw [h] at hcall
  contradiction

theorem inStep_step {handle handle' : PooledClient} (h : handle.InStep) {a : PooledClient.Action}
    (hstep : handle.step a = some handle')
    (hclean : ∀ body, a = .start body → body.length < 4294967296 ∧ handle.client.Clean)
    : handle'.InStep := by
  cases a with
  | start body =>
    simp only [PooledClient.step] at hstep
    split at hstep
    . cases hstep
      rintro call ⟨⟩
      have ⟨hbody, hclient⟩ := hclean body rfl
      exact ⟨_, _, _, Call.Exchanging.start_clean hclient hbody⟩
    . simp at hstep
  | write n =>
    simp only [PooledClient.step] at hstep
    split at hstep
    . simp at hstep
    . next call hcall =>
      split at hstep
      . next hn =>
        cases hstep
        rintro call' ⟨⟩
        rcases h call hcall with ⟨base, old, own, hexchanging⟩
        exact ⟨base, old, own, hexchanging.write hn⟩
      . simp at hstep
  | read n =>
    simp only [PooledClient.step] at hstep
    split at hstep
    . simp at hstep
    . next call hcall =>
      split at hstep
      . cases hstep
        rintro call' ⟨⟩
        rcases h call hcall with ⟨base, old, own, hexchanging⟩
        exact ⟨base, old, own, hexchanging.read n⟩
      . simp at hstep
  | fail =>
    simp only [PooledClient.step] at hstep
    split at hstep
    . simp at hstep
    . cases hstep
      exact inStep_of_call_eq_none rfl
  | poison =>
    cases hstep
    exact h

theorem Sound.set (h : pool.Sound) {i : Nat} {handle : PooledClient} (hhandle : handle.InStep)
    : Sound { pool with handles := pool.handles.set i handle } := by
  refine ⟨?_, h.own⟩
  intro handle' hmem
  rcases List.mem_or_eq_of_mem_set hmem with hold | rfl
  . exact h.inStep handle' hold
  . exact hhandle

theorem Sound.handOut (h : pool.Sound) (client : Connection) : (pool.handOut client).Sound := by
  refine ⟨?_, h.own⟩
  intro handle hmem
  rcases List.mem_append.mp hmem with hold | hnew
  . exact h.inStep handle hold
  . rw [List.mem_singleton.mp hnew]
    exact inStep_of_call_eq_none rfl

theorem Sound.givesUp (h : pool.Sound) {i : Nat} (hup : pool.GivesUp i pool') : pool'.Sound := by
  have hinStep (handle : PooledClient) (hmem : handle ∈ pool.handles.eraseIdx i) : handle.InStep := by
    apply h.inStep
    exact List.mem_of_mem_eraseIdx hmem
  rcases hup with ⟨handle, _, rfl | rfl | ⟨_, rfl⟩⟩
  . exact ⟨hinStep, h.own⟩
  . exact ⟨hinStep, h.own⟩
  . exact ⟨hinStep, h.own⟩

theorem Sound.step (h : pool.Sound) {a : Action} (hclean : pool.StartsClean a)
    (hstep : pool.step a = some pool')
    : pool'.Sound := by
  cases a with
  | lock =>
    rcases lock_eq_some hstep with ⟨_, rfl⟩
    exact ⟨h.inStep, h.own⟩
  | recv =>
    rcases recv_eq_some hstep with ⟨attempts, client, slots, _, _, rfl⟩
    exact ⟨h.inStep, h.own⟩
  | examine =>
    rcases examine_eq_some hstep with ⟨attempts, client, _, ⟨_, rfl⟩ | ⟨pc, _, rfl⟩⟩
    . exact h.handOut client
    . exact ⟨h.inStep, h.own⟩
  | connect ok =>
    rcases connect_eq_some hstep with ⟨_, rfl | rfl⟩
    . exact h.handOut Connection.connect
    . exact ⟨h.inStep, h.own⟩
  | cancel =>
    rcases cancel_eq_some hstep with ⟨_, rfl⟩
    exact ⟨h.inStep, h.own⟩
  | call i a =>
    rcases call_eq_some hstep with ⟨handle, handle', hget, hhandle, rfl⟩
    apply h.set
    apply inStep_step (h.inStep handle (List.mem_of_getElem? hget)) hhandle
    rintro body rfl
    exact ⟨hclean.1, hclean.2 handle hget⟩
  | respond i =>
    rcases respond_eq_some hstep with ⟨handle, call, hget, hcall, hwritten, hcomplete, rfl⟩
    have hnone : PooledClient.InStep { handle with call := none } := inStep_of_call_eq_none rfl
    refine ⟨(h.set hnone).inStep, ?_⟩
    intro x hmem
    rcases List.mem_append.mp hmem with hold | hnew
    . exact h.own x hold
    . rw [List.mem_singleton.mp hnew]
      rcases h.inStep handle (List.mem_of_getElem? hget) call hcall with ⟨_, _, _, hexchanging⟩
      exact hexchanging.returns_own hwritten hcomplete
  | drop i full => exact h.givesUp (givesUp_of_drop hstep)
  | release i full => exact h.givesUp (givesUp_of_release hstep)
  | discard i => exact h.givesUp (givesUp_of_discard hstep)
  | reconnect i ok =>
    rcases reconnect_eq_some hstep with ⟨_, ⟨_, rfl⟩ | ⟨_, rfl⟩⟩
    . exact ⟨h.inStep, h.own⟩
    . exact ⟨h.inStep, h.own⟩
  | send i =>
    rcases send_eq_some hstep with ⟨client, _, rfl⟩
    exact ⟨h.inStep, h.own⟩
  | serve place a =>
    rcases serve_eq_some hstep with ⟨i, c, rfl⟩ | ⟨i, handle, c, hget, hserve, rfl⟩
      | ⟨attempts, c, c', _, rfl⟩ | ⟨i, c, rfl⟩
    . exact ⟨h.inStep, h.own⟩
    . apply h.set
      intro call hcall
      rcases h.inStep handle (List.mem_of_getElem? hget) call hcall with ⟨base, old, own, hexchanging⟩
      rcases hexchanging.serve hserve with ⟨own', hexchanging'⟩
      exact ⟨base, old, own', hexchanging'⟩
    . exact ⟨h.inStep, h.own⟩
    . exact ⟨h.inStep, h.own⟩

theorem sound_new (size : Nat) : (new size).Sound where
  inStep := by simp [new]
  own := by simp [new]

theorem returned_own_of_startsClean {size : Nat} {actions : List Action}
    (hrun : Trace.run step (new size) actions = some pool)
    (hclean : Trace.Along step StartsClean (new size) actions)
    : ∀ x ∈ pool.returned, x.Own := by
  have hsound : pool.Sound :=
    Trace.inv_of_along (fun _ _ _ hs hp hstep => hs.step hp hstep) (sound_new size) hclean hrun
  exact hsound.own

def acquired : List Action :=
  [.lock, .recv, .examine]

def exchanged (resp : UInt8) : List Action :=
  [.call 0 (.write 5), .serve (.handle 0) (.answer [resp]), .serve (.handle 0) (.deliver 5),
    .call 0 (.read 4), .call 0 (.read 1), .respond 0]

def twice : List Action :=
  acquired ++ .call 0 (.start [1])
    :: (exchanged 10 ++ .drop 0 false :: (acquired ++ .call 0 (.start [2]) :: exchanged 20))

theorem returned_own_twice
    : ∃ pool,
        Trace.run step (new 1) twice = some pool
          ∧ pool.returned.map (fun x => (x.call.frame, x.resp)) = [([1], [10]), ([2], [20])]
          ∧ ∀ x ∈ pool.returned, x.Own := by
  have hmap : (Trace.run step (new 1) twice).map
        (fun pool => pool.returned.map fun x => (x.call.frame, x.resp))
      = some [([1], [10]), ([2], [20])] := by
    rfl
  rcases Option.map_eq_some_iff.mp hmap with ⟨pool, hpool, hreturned⟩
  refine ⟨pool, hpool, hreturned, returned_own_of_startsClean hpool ?_⟩
  have hacquired (p : ClientPool) : Trace.Along step StartsClean p acquired := by
    apply Trace.along_of_mem
    simp [acquired, StartsClean]
  have hexchanged (p : ClientPool) (resp : UInt8) : Trace.Along step StartsClean p (exchanged resp) := by
    apply Trace.along_of_mem
    simp [exchanged, StartsClean]
  apply Trace.along_append (hacquired _) rfl
  apply Trace.along_cons rfl
  . refine ⟨by decide, ?_⟩
    rintro handle ⟨⟩
    exact ⟨rfl, rfl, rfl⟩
  . apply Trace.along_append (hexchanged _ _) rfl
    apply Trace.along_cons rfl trivial
    apply Trace.along_append (hacquired _) rfl
    apply Trace.along_cons rfl
    . refine ⟨by decide, ?_⟩
      rintro handle ⟨⟩
      exact ⟨rfl, rfl, rfl⟩
    . exact hexchanged _ _

-- The first call is dropped before its answer has arrived. The second one gets the same connection.
theorem returned_of_other
    : ∃ pool x,
        Trace.run step (new 1)
            (acquired ++ [.call 0 (.start [1]), .call 0 (.write 5), .drop 0 false] ++ acquired
              ++ [.call 0 (.start [2]), .call 0 (.write 5), .serve (.handle 0) (.answer [10]),
                .serve (.handle 0) (.answer [20]), .serve (.handle 0) (.deliver 5),
                .call 0 (.read 4), .call 0 (.read 1), .respond 0])
            = some pool
          ∧ pool.returned = [x]
          ∧ x.client.requests.frames = [[1], [2]]
          ∧ x.client.answers = [[10], [20]]
          ∧ x.call.frame = [2]
          ∧ x.resp = [10]
          ∧ ¬x.Own := by
  refine ⟨_, _, rfl, rfl, rfl, rfl, rfl, rfl, ?_⟩
  intro hown
  have hanswer := hown.answer
  contradiction

end ClientPool
end MemStream
