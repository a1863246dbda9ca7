import MemStream.Lib.Machine
import MemStream.Server.Lemmas.Lists

/-!
Whether a frame of one database can be noticed in another one. The frames of another database cannot tell
two states with the same queue for their key and the same number of free segments from each other, and they
can tell any other two.
-/

namespace MemStream

open Layout ResponseBuilder

/-
Three calls are enough to find out about a queue and the free segments.
-/

namespace Pooled

-- a push without memory for more segments, a pop, and a range without items
def probes (key : String) : List SegList.Call :=
  [.push false key [], .pop key, .popRange key 0 0]

variable {key : String} {R : Pooled → Pooled → Prop} {p p' : Pooled}

def ProbedBy (key : String) (R : Pooled → Pooled → Prop) : Prop :=
  ∀ p p', R p p' → ∀ c ∈ probes key,
    (p.answer c).1 = (p'.answer c).1 ∧ R (p.answer c).2 (p'.answer c).2

theorem answer_pop (p : Pooled) (key : String)
    : p.answer (.pop key)
        =
      match p.queues.get key with
      | [] => (.ok (err (DBError.listPopError .keyNotFound).toText), p)
      | item :: items => (.ok (okBytes item), ⟨p.free + 1, p.queues.set key items⟩) := by
  show reply okBytes .listPopError (p.pop key) = _
  unfold pop
  cases p.queues.get key with
  | nil => rfl
  | cons item items => rfl

theorem answer_push_nil (p : Pooled) (key : String)
    : p.answer (.push false key [])
        =
      if p.free = 0 then (.panic, p)
      else (.ok okEmpty, ⟨p.free - 1, p.queues.set key (p.queues.get key ++ [[]])⟩) := by
  have hfits : ¬Queues.tooLarge [] := by decide
  show reply Server.okDone .listPushError (p.push false key []) = _
  unfold push
  by_cases hfree : p.free = 0
  . rw [if_pos hfree, if_pos hfree]
    rfl
  . rw [if_neg hfree, if_neg hfree, pushFree_of_fits key hfits hfree]
    rfl

theorem answer_popRange_zero (p : Pooled) (key : String)
    : (p.answer (.popRange key 0 0)).1
        =
      match p.queues key with
      | none => .ok (err (DBError.listPopRangeError .keyNotFound).toText)
      | some _ => .ok (okBytesList []) := by
  show (reply okBytesList .listPopRangeError (p.popRange key 0 0)).1 = _
  unfold popRange Queues.popRange
  cases p.queues key with
  | none => rfl
  | some items => simp [reply]

theorem get_eq_of_probedBy (hR : ProbedBy key R) (h : R p p')
    : p.queues.get key = p'.queues.get key := by
  generalize hitems : p.queues.get key = items
  induction items generalizing p p' with
  | nil =>
    have hpop := (hR p p' h (.pop key) (by simp [probes])).1
    rw [answer_pop, answer_pop, hitems] at hpop
    cases hitems' : p'.queues.get key with
    | nil => rfl
    | cons item' items' =>
      rw [hitems'] at hpop
      exact absurd (Outcome.ok.inj hpop) (err_ne_okBytes _ _)
  | cons item items ih =>
    rcases hR p p' h (.pop key) (by simp [probes]) with ⟨hpop, hnext⟩
    rw [answer_pop, answer_pop, hitems] at hpop hnext
    cases hitems' : p'.queues.get key with
    | nil =>
      rw [hitems'] at hpop
      exact absurd (Outcome.ok.inj hpop).symm (err_ne_okBytes _ _)
    | cons item' items' =>
      rw [hitems'] at hpop hnext
      have hrest := ih hnext (by rw [Queues.set_get])
      rw [Queues.set_get] at hrest
      rw [okBytes_inj (Outcome.ok.inj hpop), hrest]

theorem free_eq_of_probedBy (hR : ProbedBy key R) (h : R p p') : p.free = p'.free := by
  generalize hfree : p.free = free
  induction free generalizing p p' with
  | zero =>
    have hpush := (hR p p' h (.push false key []) (by simp [probes])).1
    rw [answer_push_nil, answer_push_nil, if_pos hfree] at hpush
    apply Classical.byContradiction
    intro hne
    rw [if_neg (Ne.symm hne)] at hpush
    cases hpush
  | succ free ih =>
    rcases hR p p' h (.push false key []) (by simp [probes]) with ⟨hpush, hnext⟩
    rw [answer_push_nil, answer_push_nil, if_neg (by omega)] at hpush hnext
    by_cases hfree' : p'.free = 0
    . rw [if_pos hfree'] at hpush
      cases hpush
    . rw [if_neg hfree'] at hnext
      have hrest := ih hnext (by simp [hfree])
      dsimp only at hrest
      omega

theorem only_eq_of_probedBy (hR : ProbedBy key R) (h : R p p') : p.only key = p'.only key := by
  have hget := get_eq_of_probedBy hR h
  have hrange := (hR p p' h (.popRange key 0 0) (by simp [probes])).1
  rw [answer_popRange_zero, answer_popRange_zero] at hrange
  rw [only_inj]
  refine ⟨free_eq_of_probedBy hR h, ?_⟩
  -- a key that is missing has the same items as one with an empty queue
  unfold Queues.get at hget
  cases hqueue : p.queues key with
  | none =>
    cases hqueue' : p'.queues key with
    | none => rfl
    | some items' =>
      rw [hqueue, hqueue'] at hrange
      exact absurd (Outcome.ok.inj hrange) (err_ne_okBytesList _ _)
  | some items =>
    cases hqueue' : p'.queues key with
    | none =>
      rw [hqueue, hqueue'] at hrange
      exact absurd (Outcome.ok.inj hrange).symm (err_ne_okBytesList _ _)
    | some items' =>
      rw [hqueue, hqueue', Option.getD_some, Option.getD_some] at hget
      rw [hget]

end Pooled

namespace Server

variable {buildKey : String → UInt64 → UInt64} {fromSlice : List UInt8 → Except String AofEntry}
  {db db' : DB} {senv : ServerEnv} {frame : List UInt8} {d key : String}

def responses (buildKey : String → UInt64 → UInt64) (fromSlice : List UInt8 → Except String AofEntry)
    (db : DB) (frames : List (ServerEnv × List UInt8))
    : List Response :=
  (Machine.run (fun db x => handleFrame buildKey fromSlice db x.1 x.2) db frames).1.map Prod.snd

def SameResponses (buildKey : String → UInt64 → UInt64)
    (fromSlice : List UInt8 → Except String AofEntry) (d key : String) (db db' : DB)
    : Prop :=
  ∀ frames : List (ServerEnv × List UInt8),
    (∀ x ∈ frames, NamesList x.2 d key)
      → responses buildKey fromSlice db frames = responses buildKey fromSlice db' frames

/-- The frame changes no response to frames with the same key of another database. -/
def Isolated (buildKey : String → UInt64 → UInt64) (fromSlice : List UInt8 → Except String AofEntry)
    (db : DB) (senv : ServerEnv) (frame : List UInt8) (d key : String)
    : Prop :=
  ∀ d', d' ≠ d
    → SameResponses buildKey fromSlice d' key db (handleFrame buildKey fromSlice db senv frame).2

theorem handleFrame_list (fromSlice : List UInt8 → Except String AofEntry) (senv : ServerEnv)
    (h : db.Reachable buildKey) {cmd : Command} {c : SegList.Call}
    (hparse : parseCommand ample frame = .ok cmd) (hcall : cmd.listCall senv.env.alloc = some c)
    : ((handleFrame buildKey fromSlice db senv frame).1,
        (handleFrame buildKey fromSlice db senv frame).2.list.abs)
        =
      db.list.abs.answer c := by
  unfold handleFrame
  rw [hparse]
  exact handleCommand_list h.inv.list hcall

theorem handleFrame_of_err {e : ParseError} (h : parseCommand ample frame = .err e)
    : handleFrame buildKey fromSlice db senv frame = (.ok (err ("parse error: " ++ e.msg)), db) := by
  unfold handleFrame
  rw [h]

structure Agree (buildKey : String → UInt64 → UInt64) (key : String) (db db' : DB) : Prop where
  left : db.Reachable buildKey
  right : db'.Reachable buildKey
  only : db.list.abs.only key = db'.list.abs.only key

theorem Agree.handleFrame (h : Agree buildKey key db db') (hnames : NamesList frame d key)
    : (Server.handleFrame buildKey fromSlice db senv frame).1
          = (Server.handleFrame buildKey fromSlice db' senv frame).1
        ∧ Agree buildKey key (Server.handleFrame buildKey fromSlice db senv frame).2
            (Server.handleFrame buildKey fromSlice db' senv frame).2 := by
  cases hparse : parseCommand ample frame with
  | ok cmd =>
    rcases listCall_of_namesList hnames hparse senv.env.alloc with ⟨c, hcall, rfl⟩
    have hleft := handleFrame_list fromSlice senv h.left hparse hcall
    have hright := handleFrame_list fromSlice senv h.right hparse hcall
    have honly := db.list.abs.answer_only c
    rw [h.only, Pooled.answer_only, ← hleft, ← hright, Prod.mk.injEq] at honly
    refine ⟨honly.1.symm, ?_, ?_, honly.2.symm⟩
    . exact reachable_handleFrame h.left senv frame
    . exact reachable_handleFrame h.right senv frame
  | err e =>
    rw [handleFrame_of_err hparse, handleFrame_of_err hparse]
    exact ⟨rfl, h⟩
  | panic => exact absurd hparse (parseCommand_ne_panic frame)

theorem Agree.sameResponses (h : Agree buildKey key db db') (d : String)
    : SameResponses buildKey fromSlice d key db db' := by
  intro frames hframes
  have hstep (db db' : DB) (x : ServerEnv × List UInt8) (hnames : NamesList x.2 d key)
      (hagree : Agree buildKey key db db')
      : (Server.handleFrame buildKey fromSlice db x.1 x.2).1
            = (Server.handleFrame buildKey fromSlice db' x.1 x.2).1
          ∧ Agree buildKey key (Server.handleFrame buildKey fromSlice db x.1 x.2).2
              (Server.handleFrame buildKey fromSlice db' x.1 x.2).2 :=
    hagree.handleFrame hnames
  exact congrArg (List.map Prod.snd) (Machine.run_sim_on hstep h hframes).1

def noMemory : ServerEnv where
  envs := fun _ => { Env.steady with alloc := fun _ => false }
  register := .ok ()

theorem namesList_fields (cmd : Command) (alloc : Nat → Bool) {c : SegList.Call}
    (hcall : cmd.listCall alloc = some c) (hfits : cmd.Fits d)
    : NamesList (cmd.tag :: cmd.fields d) d c.key
        ∧ parseCommand ample (cmd.tag :: cmd.fields d) = .ok cmd := by
  rcases fields_of_listCall hcall hfits with ⟨hd, hkey, htag, rest, hrest⟩
  refine ⟨⟨hd, hkey, cmd.tag, htag, rest, ?_⟩, ?_⟩
  . rw [hrest]
  . exact (parses_of_reads (reads_fields hfits)).1

theorem exists_probe (hd : StrFits d) (hkey : StrFits key) {c : SegList.Call}
    (hc : c ∈ Pooled.probes key)
    : ∃ frame cmd,
        NamesList frame d key
          ∧ parseCommand ample frame = .ok cmd
          ∧ cmd.listCall noMemory.env.alloc = some c := by
  simp only [Pooled.probes, List.mem_cons, List.not_mem_nil, or_false] at hc
  rcases hc with rfl | rfl | rfl
  . have hnil : Layout.Fits ([] : List UInt8) := by simp [Layout.Fits]
    have ⟨hnames, hparse⟩ := namesList_fields (.lPush key []) noMemory.env.alloc rfl
      ⟨hd, hkey, hnil⟩
    exact ⟨_, _, hnames, hparse, rfl⟩
  . have ⟨hnames, hparse⟩ := namesList_fields (.lPop key) noMemory.env.alloc rfl ⟨hd, hkey⟩
    exact ⟨_, _, hnames, hparse, rfl⟩
  . have ⟨hnames, hparse⟩ := namesList_fields (.lPopRange key 0 0) noMemory.env.alloc rfl
      ⟨hd, hkey⟩
    exact ⟨_, _, hnames, hparse, rfl⟩

theorem SameResponses.handleFrame (senv : ServerEnv)
    (h : SameResponses buildKey fromSlice d key db db')
    (hnames : NamesList frame d key)
    : (Server.handleFrame buildKey fromSlice db senv frame).1
          = (Server.handleFrame buildKey fromSlice db' senv frame).1
        ∧ SameResponses buildKey fromSlice d key
            (Server.handleFrame buildKey fromSlice db senv frame).2
            (Server.handleFrame buildKey fromSlice db' senv frame).2 := by
  -- one frame more in front of the others
  have hcons (frames : List (ServerEnv × List UInt8)) (hframes : ∀ x ∈ frames, NamesList x.2 d key) :=
    h ((senv, frame) :: frames) (by simpa [hnames] using hframes)
  unfold responses at hcons
  simp only [Machine.run_cons, List.map_cons, List.cons.injEq] at hcons
  constructor
  . exact (hcons [] (by simp)).1
  . intro frames hframes
    exact (hcons frames hframes).2

def Unseen (buildKey : String → UInt64 → UInt64) (fromSlice : List UInt8 → Except String AofEntry)
    (d key : String) (p p' : Pooled)
    : Prop :=
  ∃ db db' : DB,
    db.Reachable buildKey ∧ db'.Reachable buildKey
      ∧ SameResponses buildKey fromSlice d key db db'
      ∧ db.list.abs = p ∧ db'.list.abs = p'

theorem probedBy_unseen (hd : StrFits d) (hkey : StrFits key)
    : Pooled.ProbedBy key (Unseen buildKey fromSlice d key) := by
  rintro p p' ⟨db, db', hleft, hright, hsame, rfl, rfl⟩ c hc
  rcases exists_probe hd hkey hc with ⟨frame, cmd, hnames, hparse, hcall⟩
  have ⟨hres, hnext⟩ := hsame.handleFrame noMemory hnames
  rw [← handleFrame_list fromSlice noMemory hleft hparse hcall,
    ← handleFrame_list fromSlice noMemory hright hparse hcall]
  refine ⟨hres, _, _, ?_, ?_, hnext, rfl, rfl⟩
  . exact reachable_handleFrame hleft noMemory frame
  . exact reachable_handleFrame hright noMemory frame

theorem exists_other (d : String) : ∃ d', d' ≠ d ∧ StrFits d' := by
  by_cases hd : d = ""
  . refine ⟨"d", by simp [hd], ?_⟩
    unfold StrFits
    decide
  . exact ⟨"", Ne.symm hd, by simp [StrFits]⟩

theorem isolated_iff (h : db.Reachable buildKey) (hnames : NamesList frame d key)
    : Isolated buildKey fromSlice db senv frame d key
        ↔
      ∀ cmd c,
        parseCommand ample frame = .ok cmd → cmd.listCall senv.env.alloc = some c → db.list.abs.Idle c := by
  have hnext : (handleFrame buildKey fromSlice db senv frame).2.Reachable buildKey :=
    reachable_handleFrame h senv frame
  constructor
  . intro hisolated cmd c hparse hcall
    rcases exists_other d with ⟨d', hne, hd'⟩
    rcases listCall_of_namesList hnames hparse senv.env.alloc with ⟨c', hcall', hkey⟩
    cases Option.some.inj (hcall.symm.trans hcall')
    have honly := Pooled.only_eq_of_probedBy (probedBy_unseen hd' hnames.2.1)
      ⟨db, _, h, hnext, hisolated d' hne, rfl, rfl⟩
    have hframe := handleFrame_list fromSlice senv h hparse hcall
    rw [← Pooled.only_answer_eq_iff, ← hframe, hkey]
    exact honly.symm
  . intro hidle d' _
    apply Agree.sameResponses
    refine ⟨h, hnext, ?_⟩
    cases hparse : parseCommand ample frame with
    | ok cmd =>
      rcases listCall_of_namesList hnames hparse senv.env.alloc with ⟨c, hcall, rfl⟩
      have hframe := handleFrame_list fromSlice senv h hparse hcall
      have honly := (db.list.abs.only_answer_eq_iff c).mpr (hidle cmd c hparse hcall)
      rw [← hframe] at honly
      exact honly.symm
    | err e => rw [handleFrame_of_err hparse]
    | panic => exact absurd hparse (parseCommand_ne_panic frame)

/-
A push for the database "a" and a pop for the database "b".
-/

def steady : ServerEnv where
  envs := fun _ => Env.steady
  register := .ok ()

def pushFrame : List UInt8 :=
  [0x15, 1, 0, 97, 1, 0, 107, 1, 0, 0, 0, 7]

def popFrame : List UInt8 :=
  [0x17, 1, 0, 98, 1, 0, 107]

theorem parseCommand_pushFrame : parseCommand ample pushFrame = .ok (.lPush "k" [7]) := by
  decide

theorem parseCommand_popFrame : parseCommand ample popFrame = .ok (.lPop "k") := by
  decide

theorem namesList_pushFrame : NamesList pushFrame "a" "k" := by
  have hfits : (Command.lPush "k" [7]).Fits "a" := by
    refine ⟨?_, ?_, ?_⟩
    . unfold StrFits
      decide
    . unfold StrFits
      decide
    . unfold Layout.Fits
      decide
  exact (namesList_fields _ steady.env.alloc rfl hfits).1

theorem namesList_popFrame : NamesList popFrame "b" "k" := by
  have hfits : (Command.lPop "k").Fits "b" := by
    constructor
    . unfold StrFits
      decide
    . unfold StrFits
      decide
  exact (namesList_fields _ steady.env.alloc rfl hfits).1

theorem abs_freshDb : DB.freshDb.list.abs = ⟨16384, Queues.empty⟩ := by
  have habs : DB.freshDb.list.abs
      = { SegList.blank.abs with free := SegList.blank.abs.free + SegList.growth } :=
    SegList.inv_blank.abs_grown
  rw [habs, Pooled.growth_eq]
  rfl

theorem responses_popFrame (fromSlice : List UInt8 → Except String AofEntry)
    (h : db.Reachable buildKey)
    : responses buildKey fromSlice db [(steady, popFrame)] = [(db.list.abs.answer (.pop "k")).1] := by
  rw [← handleFrame_list fromSlice steady h parseCommand_popFrame rfl]
  rfl

def noEntry (_ : List UInt8) : Except String AofEntry :=
  .error "EOF while parsing a value at line 1 column 0"

theorem isolated_popFrame
    : Isolated (fun _ id => id) noEntry DB.freshDb steady popFrame "b" "k" := by
  rw [isolated_iff (DB.reachable_freshDb _) namesList_popFrame]
  intro cmd c hparse hcall
  cases parseCommand_popFrame.symm.trans hparse
  cases hcall
  rw [abs_freshDb]
  rfl

theorem not_isolated_pushFrame
    : NamesList pushFrame "a" "k"
        ∧ NamesList popFrame "b" "k"
        ∧ responses (fun _ id => id) noEntry DB.freshDb [(steady, popFrame)]
            = [.ok (err "failed to pop: key not found")]
        ∧ responses (fun _ id => id) noEntry
              (handleFrame (fun _ id => id) noEntry DB.freshDb steady pushFrame).2
              [(steady, popFrame)]
            = [.ok (okBytes [7])]
        ∧ ¬Isolated (fun _ id => id) noEntry DB.freshDb steady pushFrame "a" "k" := by
  have hfresh := DB.reachable_freshDb fun _ id => id
  have hbefore : responses (fun _ id => id) noEntry DB.freshDb [(steady, popFrame)]
      = [.ok (err "failed to pop: key not found")] := by
    rw [responses_popFrame noEntry hfresh, abs_freshDb]
    rfl
  have hafter : responses (fun _ id => id) noEntry
        (handleFrame (fun _ id => id) noEntry DB.freshDb steady pushFrame).2 [(steady, popFrame)]
      = [.ok (okBytes [7])] := by
    have hpush : (handleFrame (fun _ id => id) noEntry DB.freshDb steady pushFrame).2.list.abs
        = (DB.freshDb.list.abs.answer (.push true "k" [7])).2 :=
      congrArg Prod.snd (handleFrame_list noEntry steady hfresh parseCommand_pushFrame rfl)
    rw [responses_popFrame noEntry (reachable_handleFrame hfresh steady pushFrame), hpush, abs_freshDb]
    rfl
  refine ⟨namesList_pushFrame, namesList_popFrame, hbefore, hafter, ?_⟩
  intro h
  have hsame := h "b" (by decide) [(steady, popFrame)] (by simp [namesList_popFrame])
  rw [hbefore, hafter] at hsame
  cases hsame

end Server
end MemStream
