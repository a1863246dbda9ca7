import MemStream.Db.Lemmas.SegList.OneKey
import MemStream.Server.Lemmas.Handler
import MemStream.Server.Lemmas.Response

namespace MemStream

open Layout ResponseBuilder

variable {buildKey : String → UInt64 → UInt64} {fromSlice : List UInt8 → Except String AofEntry}

def Command.listCall (alloc : Nat → Bool) : Command → Option SegList.Call
  | .lPush key val => some (.push (alloc 0) key val)
  | .lPushRange key vals => some (.pushRange alloc key vals)
  | .lPop key => some (.pop key)
  | .lPopRange key start stop => some (.popRange key start.toNat stop.toNat)
  | .lPopCount key count => some (.popCount key count.toNat)
  | .lLen key => some (.len key)
  | .lFlush key => some (.flush key)
  | _ => none

namespace Pooled

open Server

def reply {α : Type} (ok : α → List UInt8) (wrap : ListError → DBError)
    (res : Outcome ListError α × Pooled)
    : Response × Pooled :=
  match res.1 with
  | .ok val => (.ok (ok val), res.2)
  | .err e => (.ok (err (wrap e).toText), res.2)
  | .panic => (.panic, res.2)

def answer (p : Pooled) : SegList.Call → Response × Pooled
  | .push alloc key payload => reply okDone .listPushError (p.push alloc key payload)
  | .pushRange alloc key items => reply okDone .listPushRangeError (p.pushRange alloc key items)
  | .pop key => reply okBytes .listPopError (p.pop key)
  | .popCount key count => reply okBytesList .listPopCountError (p.popCount key count)
  | .popRange key start stop => reply okBytesList .listPopRangeError (p.popRange key start stop)
  | .len key => reply (fun n => okU64 (UInt64.ofNat n)) .listLenError (p.len key)
  | .flush key => reply okDone .listFlushError (p.flush key)

theorem reply_only {α : Type} (ok : α → List UInt8) (wrap : ListError → DBError) {key : String}
    {res res' : Outcome ListError α × Pooled} (h : res' = (res.1, res.2.only key))
    : reply ok wrap res' = ((reply ok wrap res).1, (reply ok wrap res).2.only key) := by
  rw [h]
  unfold reply
  cases res.1 with
  | ok val => rfl
  | err e => rfl
  | panic => rfl

theorem reply_state {α : Type} (ok : α → List UInt8) (wrap : ListError → DBError)
    (res : Outcome ListError α × Pooled)
    : (reply ok wrap res).2 = res.2 := by
  unfold reply
  cases res.1 with
  | ok val => rfl
  | err e => rfl
  | panic => rfl

theorem answer_only (p : Pooled) (c : SegList.Call)
    : (p.only c.key).answer c = ((p.answer c).1, (p.answer c).2.only c.key) := by
  have hkeeps := Queues.keeps_only c.key
  have hqueue := p.queues.only_self c.key
  cases c with
  | push alloc key payload => exact reply_only _ _ (push_mapQueues p hkeeps alloc payload)
  | pushRange alloc key items => exact reply_only _ _ (pushRange_mapQueues p hkeeps alloc items)
  | pop key => exact reply_only _ _ (pop_mapQueues p hkeeps)
  | popCount key count => exact reply_only _ _ (popCount_mapQueues p hkeeps count)
  | popRange key start stop =>
    exact reply_only _ _ (popRange_mapQueues p hkeeps hqueue start stop)
  | len key =>
    exact reply_only (fun n => okU64 (UInt64.ofNat n)) .listLenError (len_mapQueues p hkeeps)
  | flush key => exact reply_only _ _ (flush_mapQueues p hkeeps hqueue)

/-- The call finds nothing to do to its queue, or is refused before it does anything. -/
def Idle (p : Pooled) : SegList.Call → Prop
  | .push alloc _ payload => if p.free = 0 then alloc = false else Queues.tooLarge payload
  | .pushRange alloc _ items =>
    if p.free < items.length then alloc 0 = false else ∀ item ∈ items.head?, Queues.tooLarge item
  | .pop key | .flush key => p.queues.get key = []
  | .popCount key count => 2 ^ 63 - 1 < count * 24 ∨ p.queues.get key = []
  | .popRange key start stop =>
    ∀ items, p.queues key = some items → items.length < stop ∨ stop ≤ start
  | .len key => p.queues key ≠ none

theorem only_reply_eq_iff {α : Type} {ok : α → List UInt8} {wrap : ListError → DBError} {p : Pooled}
    {key : String} {res : Outcome ListError α × Pooled} {idle : Prop}
    (h : res.2.only key = p.only key ↔ idle)
    : (reply ok wrap res).2.only key = p.only key ↔ idle := by
  rw [reply_state]
  exact h

theorem only_answer_eq_iff (p : Pooled) (c : SegList.Call)
    : (p.answer c).2.only c.key = p.only c.key ↔ p.Idle c := by
  cases c with
  | push alloc key payload =>
    apply only_reply_eq_iff
    apply push_only_eq_iff
  | pushRange alloc key items =>
    apply only_reply_eq_iff
    apply pushRange_only_eq_iff
  | pop key =>
    apply only_reply_eq_iff
    apply pop_only_eq_iff
  | popCount key count =>
    apply only_reply_eq_iff
    apply popCount_only_eq_iff
  | popRange key start stop =>
    apply only_reply_eq_iff
    apply popRange_only_eq_iff
  | len key =>
    apply only_reply_eq_iff
    apply len_only_eq_iff
  | flush key =>
    apply only_reply_eq_iff
    apply flush_only_eq_iff

end Pooled

/-
From the frame to the call.
-/

def listTags : List UInt8 :=
  [lpush, lpushRange, lpop, lpopRange, lpopCount, llen, lflush]

/-- A frame of a list command with this database and this key in front of the rest of its fields. -/
def NamesList (frame : List UInt8) (d key : String) : Prop :=
  StrFits d ∧ StrFits key
    ∧ ∃ tag ∈ listTags, ∃ rest, frame = tag :: (str d ++ (str key ++ rest))

theorem str_append_inj {s s' : String} {rest rest' : List UInt8} (hfits : StrFits s)
    (hfits' : StrFits s') (h : str s ++ rest = str s' ++ rest')
    : s = s' ∧ rest = rest' := by
  have hread := Cursor.reads_readStr hfits [] rest
  have hread' := Cursor.reads_readStr hfits' [] rest'
  rw [h, hread'] at hread
  simp only [Outcome.ok.injEq, Prod.mk.injEq] at hread
  cases hread.1
  exact ⟨rfl, List.append_cancel_left h⟩

theorem listCall_of_tag {cmd : Command} (h : cmd.tag ∈ listTags) (alloc : Nat → Bool)
    : ∃ c, cmd.listCall alloc = some c := by
  cases cmd with
  | lPush | lPushRange | lPop | lPopRange | lPopCount | lLen | lFlush => exact ⟨_, rfl⟩
  | _ =>
    unfold Command.tag at h
    contradiction

theorem fields_of_listCall {cmd : Command} {alloc : Nat → Bool} {c : SegList.Call} {listDb : String}
    (h : cmd.listCall alloc = some c) (hfits : cmd.Fits listDb)
    : StrFits listDb ∧ StrFits c.key
        ∧ cmd.tag ∈ listTags
        ∧ ∃ rest, cmd.fields listDb = str listDb ++ (str c.key ++ rest) := by
  cases cmd with
  | lPush | lPushRange =>
    cases h
    exact ⟨hfits.1, hfits.2.1, by simp [Command.tag, listTags], _, rfl⟩
  | lPopRange | lPopCount =>
    cases h
    exact ⟨hfits.1, hfits.2, by simp [Command.tag, listTags], _, rfl⟩
  | lPop | lLen | lFlush =>
    cases h
    exact ⟨hfits.1, hfits.2, by simp [Command.tag, listTags], [], by simp [Command.fields]; rfl⟩
  | _ => cases h

theorem listCall_of_namesList {frame : List UInt8} {d key : String} {cmd : Command}
    (hnames : NamesList frame d key) (hparse : parseCommand ample frame = .ok cmd) (alloc : Nat → Bool)
    : ∃ c, cmd.listCall alloc = some c ∧ c.key = key := by
  rcases hnames with ⟨hd, hkey, tag, htag, rest, rfl⟩
  rcases encodes_of_ok hparse with ⟨bytes, ⟨more, hbytes⟩, listDb, hfits, rfl⟩
  rw [List.cons_append, List.cons.injEq] at hbytes
  rcases hbytes with ⟨rfl, hfields⟩
  rcases listCall_of_tag htag alloc with ⟨c, hc⟩
  rcases fields_of_listCall hc hfits with ⟨hdb, hkey', _, rest', hrest'⟩
  refine ⟨c, hc, ?_⟩
  rw [hrest', List.append_assoc, List.append_assoc] at hfields
  have hrest := (str_append_inj hdb hd hfields).2
  exact (str_append_inj hkey' hkey hrest).1

namespace Server

variable {db : DB} {senv : ServerEnv}

theorem respond_log {α : Type} (ok : α → List UInt8) (wrap : ListError → DBError) (entry : AofEntry)
    {res : Outcome ListError α × SegList} {spec : Outcome ListError α × Pooled}
    (h : res.2.Inv ∧ spec = (res.1, res.2.abs))
    : ((respond (DB.log { db with list := res.2 } res.1 wrap entry) ok).1,
        (respond (DB.log { db with list := res.2 } res.1 wrap entry) ok).2.list.abs)
        =
      Pooled.reply ok wrap spec := by
  rcases res with ⟨res, list⟩
  rw [h.2]
  cases res with
  | ok val => rfl
  | err e => rfl
  | panic => rfl

theorem respond_lists {α : Type} (ok : α → List UInt8) (wrap : ListError → DBError)
    {res : Outcome ListError α × SegList} {spec : Outcome ListError α × Pooled}
    (h : res.2.Inv ∧ spec = (res.1, res.2.abs))
    : ((respond (res.1.mapErr wrap, { db with list := res.2 }) ok).1,
        (respond (res.1.mapErr wrap, { db with list := res.2 }) ok).2.list.abs)
        =
      Pooled.reply ok wrap spec := by
  rcases res with ⟨res, list⟩
  rw [h.2]
  cases res with
  | ok val => rfl
  | err e => rfl
  | panic => rfl

theorem handleCommand_list (hinv : db.list.Inv) {cmd : Command} {c : SegList.Call}
    (h : cmd.listCall senv.env.alloc = some c)
    : ((handleCommand buildKey fromSlice db senv cmd).1,
        (handleCommand buildKey fromSlice db senv cmd).2.list.abs)
        =
      db.list.abs.answer c := by
  cases cmd with
  | lPush key val =>
    cases h
    apply respond_log
    exact hinv.push_refines (senv.env.alloc 0) key val
  | lPushRange key vals =>
    cases h
    apply respond_log
    exact hinv.pushRange_refines senv.env.alloc key vals
  | lPop key =>
    cases h
    apply respond_log
    exact hinv.pop_refines key
  | lPopRange key start stop =>
    cases h
    apply respond_log
    exact hinv.popRange_refines key start.toNat stop.toNat
  | lPopCount key count =>
    cases h
    apply respond_log
    exact hinv.popCount_refines key count.toNat
  | lLen key =>
    cases h
    exact respond_lists (fun n => okU64 (UInt64.ofNat n)) .listLenError (hinv.len_refines key)
  | lFlush key =>
    cases h
    apply respond_log
    exact hinv.flush_refines key
  | _ => cases h

end Server
end MemStream
