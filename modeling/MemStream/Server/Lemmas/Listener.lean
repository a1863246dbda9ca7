import MemStream.Lib.Machine
import MemStream.Lib.Pool
import MemStream.Server.Impl.Listener
import MemStream.Server.Lemmas.Codec
import MemStream.Server.Lemmas.Handler

namespace MemStream

structure HandledFrame where
  conn : Nat
  frame : List UInt8
  senv : ServerEnv

namespace Server

variable (buildKey : String → UInt64 → UInt64) (fromSlice : List UInt8 → Except String AofEntry)

def serve (db : DB) (handled : HandledFrame) : Response × DB :=
  handleFrame buildKey fromSlice db handled.senv handled.frame

def Response.bytes : Response → List UInt8
  | .ok resp => resp
  | .err e => nomatch e
  | .panic => []

end Server

namespace Incoming

open LengthPrefixCodec

theorem frames_prefix_of_drain (conn : Incoming) : conn.frames <+: (drain conn).frames := by
  rcases decode_cases conn.buffer with hstop | ⟨e, herr, _⟩ | ⟨frame, rest, hframe, _⟩
  . simp [drain_of_none hstop]
  . simp [drain_of_error herr]
  . have hshrinks := decode_shrinks hframe
    rw [drain_of_frame hframe]
    apply List.IsPrefix.trans _ (frames_prefix_of_drain _)
    exact List.prefix_append conn.frames [frame]
termination_by conn.buffer.length

theorem new_feed (bytes : List UInt8) : new.feed bytes = drain ⟨[], bytes, none⟩ := by
  rfl

end Incoming

namespace ConnectionTask

open LengthPrefixCodec Server

variable {task task' : ConnectionTask} {own : List (HandledFrame × Response)}

def inHand (task : ConnectionTask) : List (List UInt8) :=
  match task.pc with
  | .handling frame => [frame]
  | _ => []

def unwritten (task : ConnectionTask) : List UInt8 :=
  match task.pc with
  | .sending rest => rest
  | _ => []

/--
The task is where those of its frames that were handled, and the responses to them, have brought it. A
handler that has panicked was the last one.
-/
structure Follows (task : ConnectionTask) (own : List (HandledFrame × Response)) : Prop where
  frames : Incoming.new.feed task.received
    = Incoming.drain ⟨own.map (·.1.frame) ++ task.inHand, task.buffer, none⟩
  reading : task.pc = .reading → LengthPrefixCodec.decode task.buffer = (.ok none, task.buffer)
  written : ∃ rest,
    task.written ++ rest = own.flatMap (·.2.bytes) ∧ (task.pc ≠ .closed → rest = task.unwritten)
  answered : ∀ e ∈ own.dropLast, e.2 ≠ .panic
  alive : task.pc ≠ .closed → ∀ e ∈ own, e.2 ≠ .panic

theorem follows_new : new.Follows [] where
  frames := by
    rfl
  reading := by
    intro _
    rfl
  written := ⟨[], rfl, fun _ => rfl⟩
  answered := by simp
  alive := by simp

theorem inHand_eq_nil (h : ∀ frame, task.pc ≠ .handling frame) : task.inHand = [] := by
  unfold inHand
  split
  . next frame hpc => exact absurd hpc (h frame)
  . rfl

theorem unwritten_eq_nil (h : ∀ rest, task.pc ≠ .sending rest) : task.unwritten = [] := by
  unfold unwritten
  split
  . next rest hpc => exact absurd hpc (h rest)
  . rfl

theorem Follows.frames_eq (h : task.Follows own) (hpc : ∀ frame, task.pc ≠ .handling frame)
    : Incoming.new.feed task.received
        = Incoming.drain ⟨own.map (·.1.frame), task.buffer, none⟩ := by
  have hframes := h.frames
  rw [inHand_eq_nil hpc, List.append_nil] at hframes
  exact hframes

theorem Follows.written_eq (h : task.Follows own) (hclosed : task.pc ≠ .closed)
    (hpc : ∀ rest, task.pc ≠ .sending rest)
    : task.written = own.flatMap (·.2.bytes) := by
  rcases h.written with ⟨rest, hrest, hunwritten⟩
  rw [hunwritten hclosed, unwritten_eq_nil hpc, List.append_nil] at hrest
  exact hrest

theorem Follows.decode (h : task.Follows own) (hstep : task.decode = some task') : task'.Follows own := by
  unfold ConnectionTask.decode at hstep
  split at hstep
  . next hpc =>
    have hframes := h.frames_eq (by simp [hpc])
    have hwritten := h.written_eq (by simp [hpc]) (by simp [hpc])
    have hnone : task.written ++ [] = own.flatMap (·.2.bytes) := by
      rw [List.append_nil]
      exact hwritten
    have halive := h.alive (by simp [hpc])
    rcases decode_cases task.buffer with hstop | ⟨e, herr, _⟩ | ⟨frame, rest, hframe, _⟩
    . rw [hstop] at hstep
      cases hstep
      refine ⟨?_, fun _ => hstop, ⟨[], hnone, ?_⟩, h.answered, fun _ => halive⟩
      . rw [inHand_eq_nil, List.append_nil]
        . exact hframes
        . cases task.eof <;> simp
      . intro _
        rw [unwritten_eq_nil]
        cases task.eof <;> simp
    . rw [herr] at hstep
      cases hstep
      refine ⟨?_, by simp, ⟨[], hnone, by simp⟩, h.answered, fun _ => halive⟩
      rw [inHand_eq_nil (by simp), List.append_nil]
      exact hframes
    . rw [hframe] at hstep
      cases hstep
      refine ⟨?_, by simp, ⟨[], hnone, fun _ => rfl⟩, h.answered, fun _ => halive⟩
      rw [Incoming.drain_of_frame hframe] at hframes
      exact hframes
  . simp at hstep

theorem Follows.read (h : task.Follows own) {chunk : List UInt8} (hstep : task.read chunk = some task')
    : task'.Follows own := by
  unfold ConnectionTask.read at hstep
  split at hstep
  . next hpc =>
    have hframes := h.frames_eq (by simp [hpc])
    have hwritten := h.written_eq (by simp [hpc]) (by simp [hpc])
    rw [Incoming.drain_of_none (h.reading hpc), Incoming.new_feed] at hframes
    cases hstep
    refine ⟨?_, by simp, ⟨[], ?_, fun _ => rfl⟩, h.answered, fun _ => h.alive (by simp [hpc])⟩
    . -- the decoder has no frame yet, and goes on with what it has in its buffer
      rcases Incoming.drain_append ⟨[], task.received, none⟩ chunk rfl with
        ⟨e, herr, _⟩ | ⟨_, happend, _⟩
      . rw [hframes] at herr
        cases herr
      . rw [inHand_eq_nil (by simp), List.append_nil]
        dsimp only at happend
        rw [Incoming.new_feed, happend, hframes]
    . rw [List.append_nil]
      exact hwritten
  . simp at hstep

theorem Follows.answer (h : task.Follows own) {handled : HandledFrame}
    (hpc : task.pc = .handling handled.frame) (resp : Response)
    : (task.answer resp).Follows (own ++ [(handled, resp)]) := by
  have hwritten := h.written_eq (by simp [hpc]) (by simp [hpc])
  have hhand : task.inHand = [handled.frame] := by
    unfold inHand
    rw [hpc]
  have hframes := h.frames
  rw [hhand] at hframes
  have halive := h.alive (by simp [hpc])
  have hlast : ∀ e ∈ (own ++ [(handled, resp)]).dropLast, e.2 ≠ .panic := by
    rw [List.dropLast_concat]
    exact halive
  cases resp with
  | ok bytes =>
    refine ⟨?_, by simp [ConnectionTask.answer], ⟨bytes, ?_, fun _ => rfl⟩, hlast, fun _ => ?_⟩
    . simpa [ConnectionTask.answer, inHand] using hframes
    . simp [ConnectionTask.answer, hwritten, Response.bytes]
    . intro e he
      rcases List.mem_append.mp he with hold | hnew
      . exact halive e hold
      . rw [List.mem_singleton.mp hnew]
        simp
  | err e => cases e
  | panic =>
    have hclosed : (task.answer .panic).pc = .closed := by
      rfl
    refine ⟨?_, by simp [hclosed], ⟨[], ?_, by simp [hclosed]⟩, hlast, by simp [hclosed]⟩
    . simpa [ConnectionTask.answer, inHand] using hframes
    . simp [ConnectionTask.answer, hwritten, Response.bytes]

theorem Follows.write (h : task.Follows own) {n : Nat} (hstep : task.write n = some task')
    : task'.Follows own := by
  unfold ConnectionTask.write at hstep
  split at hstep
  . next rest hpc =>
    have hframes := h.frames_eq (by simp [hpc])
    rcases h.written with ⟨rest', hrest, hunwritten⟩
    have hrest' : rest' = rest := by
      rw [hunwritten (by simp [hpc])]
      unfold unwritten
      rw [hpc]
    cases hstep
    refine ⟨?_, ?_, ⟨rest.drop n, ?_, ?_⟩, h.answered, fun _ => h.alive (by simp [hpc])⟩
    . rw [inHand_eq_nil, List.append_nil]
      . exact hframes
      . cases (rest.drop n).isEmpty <;> simp
    . cases (rest.drop n).isEmpty <;> simp
    . rw [hrest'] at hrest
      dsimp only
      rw [List.append_assoc, List.take_append_drop]
      exact hrest
    . intro _
      unfold unwritten
      cases hempty : (rest.drop n).isEmpty with
      | true => exact List.isEmpty_iff.mp hempty
      | false => rfl
  . simp at hstep

theorem Follows.fail (h : task.Follows own) (hstep : task.fail = some task') : task'.Follows own := by
  have hclosed (hpc : ∀ frame, task.pc ≠ .handling frame) : Follows { task with pc := .closed } own := by
    rcases h.written with ⟨rest, hrest, _⟩
    refine ⟨?_, by simp, ⟨rest, hrest, by simp⟩, h.answered, by simp⟩
    rw [inHand_eq_nil (by simp), List.append_nil]
    exact h.frames_eq hpc
  unfold ConnectionTask.fail at hstep
  split at hstep
  . next hpc =>
    cases hstep
    exact hclosed (by simp [hpc])
  . next hpc =>
    cases hstep
    exact hclosed (by simp [hpc])
  . simp at hstep

end ConnectionTask

namespace Listener

open Server

variable (buildKey : String → UInt64 → UInt64) (fromSlice : List UInt8 → Except String AofEntry)

def handledBy (l : Listener) : Action → List HandledFrame
  | .handle i senv => ((l.handling i).map fun frame => ⟨i, frame, senv⟩).toList
  | _ => []

def handled (l : Listener) (actions : List Action) : List HandledFrame :=
  Trace.emitted (step buildKey fromSlice) handledBy l actions

theorem handle_mem_of_handled {l : Listener} {actions : List Action} {h : HandledFrame}
    (hmem : h ∈ handled buildKey fromSlice l actions)
    : .handle h.conn h.senv ∈ actions := by
  rcases Trace.mem_emitted hmem with ⟨a, ha, l', hby⟩
  cases a with
  | handle i senv =>
    simp only [handledBy, Option.mem_toList, Option.map_eq_some_iff] at hby
    rcases hby with ⟨frame, _, rfl⟩
    exact ha
  | _ => cases hby

def ownOf (i : Nat) (history : List (HandledFrame × Response)) : List (HandledFrame × Response) :=
  history.filter fun e => e.1.conn == i

structure Serial (start : DB) (done : List HandledFrame) (l : Listener) : Prop where
  db : (Machine.run (serve buildKey fromSlice) start done).2 = l.db
  known : ∀ handled ∈ done, handled.conn < l.tasks.length
  tasks : ∀ (i : Nat) (task : ConnectionTask), l.tasks[i]? = some task →
    task.Follows (ownOf i (Machine.run (serve buildKey fromSlice) start done).1)

variable {buildKey fromSlice} {l l' : Listener} {start : DB} {done : List HandledFrame}

theorem serial_new (db : DB) : Serial buildKey fromSlice db [] (new db) where
  db := by
    rfl
  known := by simp
  tasks := by simp [new]

theorem withTask_eq_some {i : Nat} {f : ConnectionTask → Option ConnectionTask}
    (h : l.withTask i f = some l')
    : ∃ task task',
        l.tasks[i]? = some task ∧ f task = some task' ∧ l' = { l with tasks := l.tasks.set i task' } := by
  unfold withTask at h
  split at h
  . next task hget =>
    rcases Option.map_eq_some_iff.mp h with ⟨task', htask', rfl⟩
    exact ⟨task, task', hget, htask', rfl⟩
  . simp at h

theorem handle_eq_some {i : Nat} {senv : ServerEnv} (h : l.handle buildKey fromSlice i senv = some l')
    : ∃ task frame,
        l.tasks[i]? = some task
          ∧ task.pc = .handling frame
          ∧ l.handling i = some frame
          ∧ l' =
              { l with
                db := (handleFrame buildKey fromSlice l.db senv frame).2
                tasks :=
                  l.tasks.set i (task.answer (handleFrame buildKey fromSlice l.db senv frame).1) } := by
  unfold handle at h
  split at h
  . next task frame hget hhandling =>
    refine ⟨task, frame, hget, ?_, hhandling, (Option.some.inj h).symm⟩
    unfold handling at hhandling
    split at hhandling
    . next heq =>
      rw [hget] at heq
      cases heq
      cases hhandling
      rfl
    . simp at hhandling
  . simp at h

theorem Serial.withTask (h : Serial buildKey fromSlice start done l) {i : Nat}
    {f : ConnectionTask → Option ConnectionTask}
    (hf : ∀ task task' own, task.Follows own → f task = some task' → task'.Follows own)
    (hstep : l.withTask i f = some l')
    : Serial buildKey fromSlice start done l' := by
  rcases withTask_eq_some hstep with ⟨task, task', hget, htask', rfl⟩
  refine ⟨h.db, ?_, ?_⟩
  . simpa using h.known
  . intro j other hother
    rcases Pool.getElem?_of_set hother with ⟨rfl, rfl⟩ | ⟨_, hother⟩
    . exact hf task other _ (h.tasks j task hget) htask'
    . exact h.tasks j other hother

theorem ownOf_concat_self {i : Nat} (history : List (HandledFrame × Response)) {e : HandledFrame × Response}
    (h : e.1.conn = i)
    : ownOf i (history ++ [e]) = ownOf i history ++ [e] := by
  simp [ownOf, h]

theorem ownOf_concat_of_ne {i : Nat} (history : List (HandledFrame × Response))
    {e : HandledFrame × Response} (h : e.1.conn ≠ i)
    : ownOf i (history ++ [e]) = ownOf i history := by
  simp [ownOf, h]

theorem Serial.accept (h : Serial buildKey fromSlice start done l)
    : Serial buildKey fromSlice start done l.accept where
  db := h.db
  known := by
    intro handled hmem
    have := h.known handled hmem
    simp only [Listener.accept, List.length_append, List.length_singleton]
    omega
  tasks := by
    intro i task hget
    simp only [Listener.accept] at hget
    by_cases hlt : i < l.tasks.length
    . rw [List.getElem?_append_left hlt] at hget
      exact h.tasks i task hget
    . -- nothing was handled for the new connection
      rw [List.getElem?_append_right (Nat.le_of_not_lt hlt), List.getElem?_singleton] at hget
      split at hget
      . cases hget
        have hnone : ownOf i (Machine.run (serve buildKey fromSlice) start done).1 = [] := by
          apply List.filter_eq_nil_iff.mpr
          intro e he hconn
          have hmem : e.1 ∈ done := by
            rw [← Machine.run_ops (serve buildKey fromSlice) start done]
            exact List.mem_map_of_mem he
          have := h.known e.1 hmem
          rw [beq_iff_eq.mp hconn] at this
          omega
        rw [hnone]
        exact ConnectionTask.follows_new
      . simp at hget

theorem Serial.handle (h : Serial buildKey fromSlice start done l) {i : Nat} {senv : ServerEnv}
    (hstep : l.handle buildKey fromSlice i senv = some l')
    : Serial buildKey fromSlice start (done ++ l.handledBy (.handle i senv)) l' := by
  rcases handle_eq_some hstep with ⟨task, frame, hget, hpc, hhandling, rfl⟩
  have hhandled : l.handledBy (.handle i senv) = [⟨i, frame, senv⟩] := by
    simp [handledBy, hhandling]
  have hlt : i < l.tasks.length := (List.getElem?_eq_some_iff.mp hget).1
  rw [hhandled]
  constructor
  . rw [Machine.run_concat, h.db]
    rfl
  . intro handled hmem
    rw [List.length_set]
    rcases List.mem_append.mp hmem with hold | hnew
    . exact h.known handled hold
    . rw [List.mem_singleton.mp hnew]
      exact hlt
  . intro j other hother
    rw [Machine.run_concat, h.db]
    dsimp only
    rcases Pool.getElem?_of_set hother with ⟨rfl, rfl⟩ | ⟨hne, hother⟩
    . rw [ownOf_concat_self]
      . exact (h.tasks j task hget).answer hpc _
      . rfl
    . rw [ownOf_concat_of_ne]
      . exact h.tasks j other hother
      . exact Ne.symm hne

theorem Serial.step (h : Serial buildKey fromSlice start done l) {action : Action}
    (hstep : l.step buildKey fromSlice action = some l')
    : Serial buildKey fromSlice start (done ++ l.handledBy action) l' := by
  have hnone (hhandled : l.handledBy action = []) (h : Serial buildKey fromSlice start done l')
      : Serial buildKey fromSlice start (done ++ l.handledBy action) l' := by
    rw [hhandled, List.append_nil]
    exact h
  cases action with
  | accept =>
    cases hstep
    exact hnone rfl h.accept
  | decode i => exact hnone rfl (h.withTask (fun _ _ _ hs hf => hs.decode hf) hstep)
  | read i chunk => exact hnone rfl (h.withTask (fun _ _ _ hs hf => hs.read hf) hstep)
  | handle i senv => exact h.handle hstep
  | write i n => exact hnone rfl (h.withTask (fun _ _ _ hs hf => hs.write hf) hstep)
  | fail i => exact hnone rfl (h.withTask (fun _ _ _ hs hf => hs.fail hf) hstep)

theorem serial_run {db : DB} {actions : List Action}
    (hrun : Trace.run (step buildKey fromSlice) (new db) actions = some l)
    : Serial buildKey fromSlice db (handled buildKey fromSlice (new db) actions) l := by
  have h : Serial buildKey fromSlice db ([] ++ handled buildKey fromSlice (new db) actions) l :=
    Trace.inv_emitted (fun _ _ _ _ hs hstep => hs.step hstep) (serial_new db) hrun
  rw [List.nil_append] at h
  exact h

/--
The frames that were handled, one after the other in the order in which they got the database, leave the
database and give the responses. A connection has handled the first of the frames in the bytes that it has
received, and has written the first bytes of the responses to them. While it waits for more bytes these are
all. Only the last handler of a connection can have panicked. The order goes on with every step.
-/
theorem handled_serially (buildKey : String → UInt64 → UInt64)
    (fromSlice : List UInt8 → Except String AofEntry) (db : DB) (actions : List Action)
    (hrun : Trace.run (step buildKey fromSlice) (new db) actions = some l)
    : let order := handled buildKey fromSlice (new db) actions
      let serial := Machine.run (serve buildKey fromSlice) db order
      serial.2 = l.db
        ∧ (∀ i task, l.tasks[i]? = some task →
            let frames := (ownOf i serial.1).map (·.1.frame)
            let responses := (ownOf i serial.1).flatMap (·.2.bytes)
            frames <+: (Incoming.new.feed task.received).frames
              ∧ task.written <+: responses
              ∧ (∀ e ∈ (ownOf i serial.1).dropLast, e.2 ≠ .panic)
              ∧ (task.pc = .reading →
                  (Incoming.new.feed task.received).frames = frames ∧ task.written = responses))
        ∧ ∀ before after mid,
            actions = before ++ after →
            Trace.run (step buildKey fromSlice) (new db) before = some mid →
            order = handled buildKey fromSlice (new db) before ++ handled buildKey fromSlice mid after := by
  have h := serial_run hrun
  refine ⟨h.db, ?_, ?_⟩
  . intro i task hget
    have hfollows := h.tasks i task hget
    refine ⟨?_, ?_, hfollows.answered, ?_⟩
    . rw [hfollows.frames]
      apply List.IsPrefix.trans _ (Incoming.frames_prefix_of_drain _)
      exact List.prefix_append _ _
    . rcases hfollows.written with ⟨rest, hrest, _⟩
      exact ⟨rest, hrest⟩
    . intro hpc
      refine ⟨?_, hfollows.written_eq (by simp [hpc]) (by simp [hpc])⟩
      rw [hfollows.frames_eq (by simp [hpc]), Incoming.drain_of_none (hfollows.reading hpc)]
  . rintro before after mid rfl hmid
    exact Trace.emitted_append handledBy hmid after

def setRequest : List UInt8 :=
  [0x10, 1, 0, 100, 1, 0, 107, 0, 0, 0, 0, 0, 0, 0, 0, 1, 0, 0, 0, 7]

def getRequest : List UInt8 :=
  [0x11, 1, 0, 100, 1, 0, 107]

-- the request that comes first is cut in two, and both connections have theirs in hand before one is handled
def crossing : List Action :=
  let senv : ServerEnv := ⟨fun _ => Env.steady, .ok ()⟩
  [.accept, .accept, .read 1 ((Framing.frame setRequest).take 9), .decode 1,
    .read 0 (Framing.frame getRequest), .read 1 ((Framing.frame setRequest).drop 9), .decode 0, .decode 1,
    .handle 1 senv, .handle 0 senv, .write 0 4, .write 1 5, .write 0 20]

theorem handled_serially_crossing
    : let fromSlice (_ : List UInt8) : Except String AofEntry := .error "expected value"
      ∃ l,
        Trace.run (step (fun _ id => id) fromSlice) (new DB.freshDb) crossing = some l
          ∧ l.tasks.map (·.written) = [[6, 0, 0, 0, 0, 1, 0, 0, 0, 7], [1, 0, 0, 0, 0]]
          ∧ (handled (fun _ id => id) fromSlice (new DB.freshDb) crossing).map (·.conn) = [1, 0]
          ∧ (Machine.run (serve (fun _ id => id) fromSlice) DB.freshDb
              (handled (fun _ id => id) fromSlice (new DB.freshDb) crossing)).2 = l.db := by
  intro fromSlice
  refine ⟨_, rfl, rfl, rfl, ?_⟩
  exact (handled_serially (fun _ id => id) fromSlice DB.freshDb crossing rfl).1

end Listener
end MemStream
