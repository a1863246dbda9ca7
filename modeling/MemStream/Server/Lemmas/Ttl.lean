import MemStream.Db.Lemmas.Db.Lifetime
import MemStream.Server.Lemmas.Handler
import MemStream.Server.Lemmas.Response

namespace MemStream

variable {buildKey : String → UInt64 → UInt64} {fromSlice : List UInt8 → Except String AofEntry}

def DB.Op.kvOps (env : Env) : DB.Op → List KvStore.Op
  | .kvSet d key val ttl => [.set env.clock env.order d key val ttl]
  | .kvGet d key => [.get env.clock d key]
  | .kvDel d key => [.del d key]
  | .kvKeys d => [.keys env.order d]
  | .kvFlush d => [.flush d]
  | _ => []

def AofEntry.kvOps (env : Env) : AofEntry → List KvStore.Op
  | .kvSet d key val ttl => [.set env.clock env.order d key val ttl]
  | .kvDel d key => [.del d key]
  | .kvFlush d => [.flush d]
  | _ => []

def Command.kvOps (fromSlice : List UInt8 → Except String AofEntry) (senv : ServerEnv)
    : Command → List KvStore.Op
  | .haSync items =>
    match decodeEntries fromSlice items with
    | .ok entries => entries.zipIdx.flatMap fun e => e.1.kvOps (senv.envs e.2)
    | _ => []
  | cmd =>
    match cmd.op with
    | some op => op.kvOps senv.env
    | none => []

namespace DB

theorem afterOp_eq_after (store : KvStore) (env : Env) (op : Op)
    : store.afterOp env op = store.after (op.kvOps env) := by
  cases op with
  | _ => rfl

theorem applyAof_kvStore_eq (db : DB) (entries : List (AofEntry × Env))
    : (db.applyAof buildKey entries).2.kvStore
        =
      db.kvStore.after (entries.flatMap fun e => e.1.kvOps e.2) := by
  unfold applyAof
  dsimp only
  induction entries generalizing db with
  | nil => rfl
  | cons e entries ih =>
    rw [List.foldl_cons, ih, List.flatMap_cons, KvStore.after_append]
    rcases e with ⟨entry, env⟩
    cases entry with
    | _ => rfl

end DB

namespace Server

open KvStore ResponseBuilder

variable {db : DB} {senv : ServerEnv}

theorem handleCommand_kvStore (db : DB) (senv : ServerEnv) (cmd : Command)
    : (handleCommand buildKey fromSlice db senv cmd).2.kvStore
        =
      db.kvStore.after (cmd.kvOps fromSlice senv) := by
  cases hop : cmd.op with
  | some op =>
    have hkv : cmd.kvOps fromSlice senv = op.kvOps senv.env := by
      cases cmd with
      | haRegisterFollower | haHeartBeat | haSync => cases hop
      | _ =>
        cases hop
        rfl
    rw [handleCommand_state hop, DB.call_kvStore, DB.afterOp_eq_after, hkv]
  | none =>
    cases cmd with
    | haRegisterFollower addr =>
      unfold handleCommand
      dsimp only
      split
      . rfl
      . rfl
    | haHeartBeat => rfl
    | haSync items =>
      unfold handleCommand Command.kvOps
      dsimp only
      cases decodeEntries fromSlice items with
      | ok entries =>
        dsimp only
        rw [respond_state, DB.applyAof_kvStore_eq, List.flatMap_map]
      | err e => rfl
      | panic => rfl
    | _ => cases hop

def after (buildKey : String → UInt64 → UInt64) (fromSlice : List UInt8 → Except String AofEntry)
    (db : DB) (cmds : List (ServerEnv × Command))
    : DB :=
  (Machine.run (fun db c => handleCommand buildKey fromSlice db c.1 c.2) db cmds).2

def kvOps (fromSlice : List UInt8 → Except String AofEntry) (cmds : List (ServerEnv × Command))
    : List KvStore.Op :=
  cmds.flatMap fun c => c.2.kvOps fromSlice c.1

theorem after_kvStore (db : DB) (cmds : List (ServerEnv × Command))
    : (after buildKey fromSlice db cmds).kvStore = db.kvStore.after (kvOps fromSlice cmds) := by
  unfold after
  induction cmds generalizing db with
  | nil => rfl
  | cons c cmds ih =>
    rw [Machine.run_cons, ih, handleCommand_kvStore, ← KvStore.after_append]
    rfl

theorem handleCommand_getKey (db : DB) (senv : ServerEnv) (d key : String)
    : (handleCommand buildKey fromSlice db senv (.getKey d key)).1
        =
      .ok (okEntryOption (db.kvStore.found senv.env.clock d key)) := by
  rfl

theorem okEntryOption_eq_okBytes (o : Option DBEntry) (val : List UInt8)
    : okEntryOption o = okBytes val ↔ o.map DBEntry.val = some val := by
  cases o with
  | none => simp [okEntryOption, okEmpty_ne_okBytes]
  | some e =>
    simp only [okEntryOption, Option.map_some, Option.some.injEq]
    constructor
    . exact okBytes_inj
    . intro h
      rw [h]

theorem toInt_ttlMillis (ttlSecs : UInt64)
    : (ttlMillis ttlSecs).toInt = Int.bmod (1000 * ttlSecs.toNat) 18446744073709551616 := by
  have hnat : (ttlSecs * 1000).toNat = ttlSecs.toNat * 1000 % 18446744073709551616 := by
    apply UInt64.toNat_mul
  unfold ttlMillis
  rw [← Int64.toInt_toBitVec, UInt64.toBitVec_toInt64, BitVec.toInt_eq_toNat_bmod,
    UInt64.toNat_toBitVec, hnat, Int.natCast_emod, Int.natCast_mul, Int.mul_comm]
  exact Int.emod_bmod _ _

theorem toInt_expiry (clock : KvClock) (ttlSecs : UInt64)
    : (KvStore.expiry clock (ttlMillis ttlSecs)).toInt
        =
      if (18446744073709551616 : Int) ∣ 1000 * ttlSecs.toNat then 0
      else Int.bmod (clock.expiryNow.toInt + 1000 * ttlSecs.toNat) 18446744073709551616 := by
  have hzero : ttlMillis ttlSecs = 0 ↔ (18446744073709551616 : Int) ∣ 1000 * ttlSecs.toNat := by
    rw [← Int64.toInt_inj, toInt_ttlMillis]
    exact (Int.dvd_iff_bmod_eq_zero (a := 18446744073709551616)).symm
  unfold KvStore.expiry
  by_cases h : ttlMillis ttlSecs = 0
  . rw [if_pos h, if_pos (hzero.mp h)]
    rfl
  . rw [if_neg h, if_neg (fun hdvd => h (hzero.mpr hdvd)), Int64.toInt_add, toInt_ttlMillis]
    exact Int.add_bmod_bmod

/-- The time of the expiry fits, or wraps around to one that no clock reaches. -/
def ExpiryFits (now : Int64) (ttlSecs : UInt64) : Prop :=
  now.toInt + 1000 * ttlSecs.toNat < 9223372036854775808
    ∨ (18446744073709551616 : Int) ∣ 1000 * ttlSecs.toNat
    ∨ (18446744073709551616 : Int) ∣ now.toInt + 1000 * ttlSecs.toNat
    ∨ (18446744073709551616 : Int) ∣ now.toInt + 1000 * ttlSecs.toNat - 9223372036854775807

/-- Whether the entry with this expiry is there at every later time until the time to live is over. -/
def ExpiresAt (expiry now : Int64) (ttlSecs : UInt64) : Prop :=
  ∀ t : Int64, now ≤ t →
    (¬(expiry ≠ 0 ∧ expiry < t) ↔ t.toInt ≤ now.toInt + 1000 * ttlSecs.toNat)

theorem toInt_expiry_of_lt (clock : KvClock) {ttlSecs : UInt64} (hsecs : 1 ≤ ttlSecs.toNat)
    (hnow : 0 ≤ clock.expiryNow.toInt)
    (hlt : clock.expiryNow.toInt + 1000 * ttlSecs.toNat < 9223372036854775808)
    : (KvStore.expiry clock (ttlMillis ttlSecs)).toInt
        =
      clock.expiryNow.toInt + 1000 * ttlSecs.toNat := by
  have hmillis : (0 : Int) < 1000 * ttlSecs.toNat := by
    omega
  have hsmall : (1000 * ttlSecs.toNat : Int) < 18446744073709551616 := by
    omega
  have hndvd : ¬(18446744073709551616 : Int) ∣ 1000 * ttlSecs.toNat := by
    intro hdvd
    exact absurd (Int.le_of_dvd hmillis hdvd) (Int.not_le_of_gt hsmall)
  rw [toInt_expiry, if_neg hndvd]
  apply Int.bmod_eq_of_le_mul_two
  . omega
  . omega

-- the expiries that never come: none, and the last instant that a clock can show
theorem expiryFits_iff (clock : KvClock) (ttlSecs : UInt64)
    : ExpiryFits clock.expiryNow ttlSecs
        ↔
      clock.expiryNow.toInt + 1000 * ttlSecs.toNat < 9223372036854775808
        ∨ (KvStore.expiry clock (ttlMillis ttlSecs)).toInt = 0
        ∨ (KvStore.expiry clock (ttlMillis ttlSecs)).toInt = 9223372036854775807 := by
  have hmax : Int.bmod 9223372036854775807 18446744073709551616 = 9223372036854775807 := by
    decide
  unfold ExpiryFits
  rw [toInt_expiry]
  split
  . next hdvd => simp [hdvd]
  . next hndvd =>
    rw [← hmax, Int.bmod_eq_bmod_iff_bmod_sub_eq_zero, ← Int.dvd_iff_bmod_eq_zero,
      ← Int.dvd_iff_bmod_eq_zero, hmax]
    simp only [hndvd, false_or]
    rfl

theorem expiresAt_iff (clock : KvClock) {ttlSecs : UInt64} (hsecs : 1 ≤ ttlSecs)
    (hnow : 0 ≤ clock.expiryNow)
    : ExpiresAt (KvStore.expiry clock (ttlMillis ttlSecs)) clock.expiryNow ttlSecs
        ↔
      ExpiryFits clock.expiryNow ttlSecs := by
  have hpos : 1 ≤ ttlSecs.toNat := by
    simpa using UInt64.le_iff_toNat_le.mp hsecs
  have hnonneg : 0 ≤ clock.expiryNow.toInt := by
    simpa using Int64.le_iff_toInt_le.mp hnow
  have hfits := toInt_expiry_of_lt clock hpos hnonneg
  have hgone (t : Int64) : KvStore.expiry clock (ttlMillis ttlSecs) ≠ 0
      ∧ KvStore.expiry clock (ttlMillis ttlSecs) < t
        ↔ (KvStore.expiry clock (ttlMillis ttlSecs)).toInt ≠ 0
      ∧ (KvStore.expiry clock (ttlMillis ttlSecs)).toInt < t.toInt := by
    rw [Int64.lt_iff_toInt_lt, ne_eq, ← Int64.toInt_inj]
    rfl
  rw [expiryFits_iff]
  unfold ExpiresAt
  simp only [hgone]
  constructor
  . intro h
    -- the last instant that a clock can show
    have hlast := h Int64.maxValue (Int64.le_maxValue _)
    have hle := (KvStore.expiry clock (ttlMillis ttlSecs)).toInt_le
    rw [Int64.toInt_maxValue] at hlast hle
    omega
  . intro h t _
    have hlt := t.toInt_lt
    omega

variable {frame : List UInt8} {d key : String} {val : List UInt8} {ttlSecs : UInt64}
  {rest : List (ServerEnv × Command)}

/-- A GET after the SET of the frame has the value exactly as long as the time to live lasts. -/
def TtlExact (buildKey : String → UInt64 → UInt64) (fromSlice : List UInt8 → Except String AofEntry)
    (db : DB) (senv : ServerEnv) (frame : List UInt8) (d key : String) (val : List UInt8)
    (ttlSecs : UInt64) (rest : List (ServerEnv × Command))
    : Prop :=
  ∀ getEnv : ServerEnv, senv.env.clock.expiryNow ≤ getEnv.env.clock.expiryNow →
    ((handleCommand buildKey fromSlice
        (after buildKey fromSlice (handleFrame buildKey fromSlice db senv frame).2 rest) getEnv
        (.getKey d key)).1 = .ok (okBytes val)
      ↔
    getEnv.env.clock.expiryNow.toInt ≤ senv.env.clock.expiryNow.toInt + 1000 * ttlSecs.toNat)

theorem entry_handleFrame_setKey (hparse : parseCommand ample frame = .ok (.setKey d key val ttlSecs))
    : (handleFrame buildKey fromSlice db senv frame).2.kvStore.entry d key
        =
      some ⟨val, expiry senv.env.clock (ttlMillis ttlSecs), 0, senv.env.clock.useNow⟩ := by
  unfold handleFrame
  rw [hparse]
  dsimp only
  rw [handleCommand_kvStore]
  apply entry_set_self

theorem okEntryOption_found_iff {store : KvStore} {clock : KvClock} {e : DBEntry}
    (hentry : store.entry d key = some e)
    : (.ok (okEntryOption (store.found clock d key)) : Response) = .ok (okBytes e.val)
        ↔
      ¬(e.ttl ≠ 0 ∧ e.ttl < clock.expiryNow) := by
  rw [Outcome.ok.injEq, okEntryOption_eq_okBytes, found_eq, hentry]
  dsimp only
  split
  . next hexpired => simp [hexpired]
  . next hlives => simp [hlives]

theorem ttlExact_iff (hparse : parseCommand ample frame = .ok (.setKey d key val ttlSecs))
    (hsecs : 1 ≤ ttlSecs) (hnow : 0 ≤ senv.env.clock.expiryNow)
    (hrest : ∀ op ∈ kvOps fromSlice rest, ¬op.Names d key)
    : TtlExact buildKey fromSlice db senv frame d key val ttlSecs rest
        ↔
      ExpiryFits senv.env.clock.expiryNow ttlSecs
        ∧ Spared d key (handleFrame buildKey fromSlice db senv frame).2.kvStore
            (kvOps fromSlice rest) := by
  have hset : (handleFrame buildKey fromSlice db senv frame).2.kvStore.entry d key
      = some ⟨val, expiry senv.env.clock (ttlMillis ttlSecs), 0, senv.env.clock.useNow⟩ :=
    entry_handleFrame_setKey hparse
  unfold TtlExact
  simp only [handleCommand_getKey, after_kvStore]
  by_cases hspared : Spared d key (handleFrame buildKey fromSlice db senv frame).2.kvStore
      (kvOps fromSlice rest)
  . have hentry := entry_after_of_spared hrest hspared
    rw [hset] at hentry
    simp only [okEntryOption_found_iff hentry, hspared, and_true]
    rw [← expiresAt_iff _ hsecs hnow]
    constructor
    . intro h t ht
      exact h ⟨fun _ => { senv.env with clock := ⟨t, t⟩ }, .ok ()⟩ ht
    . intro h getEnv hget
      exact h _ hget
  . -- the key is not there at the time of the SET itself
    have hentry := entry_after_of_not_spared hrest hspared
    simp only [hspared, and_false, iff_false]
    intro h
    have hget := (h senv (Int64.le_refl _)).mpr (by omega)
    rw [found_eq, hentry] at hget
    exact okEmpty_ne_okBytes _ (Outcome.ok.inj hget)

/-
Ten seconds, and the fewest seconds that are too many milliseconds for the cast.
-/

def setFrame (ttlSecs : List UInt8) : List UInt8 :=
  [0x10, 1, 0, 100, 1, 0, 107] ++ (ttlSecs ++ [1, 0, 0, 0, 7])

theorem ttlExact_ten
    : let fromSlice (_ : List UInt8) : Except String AofEntry := .error "EOF"
      TtlExact (fun _ id => id) fromSlice DB.freshDb ⟨fun _ => Env.steady, .ok ()⟩
        (setFrame [10, 0, 0, 0, 0, 0, 0, 0]) "d" "k" [7] 10
        [(⟨fun _ => Env.steady, .ok ()⟩, .getKey "d" "other")] := by
  intro fromSlice
  rw [ttlExact_iff (by decide) (by decide) (by decide) (by simp [kvOps, Command.kvOps,
    Command.op, DB.Op.kvOps, KvStore.Op.Names])]
  refine ⟨.inl (by decide), ?_⟩
  simp [kvOps, Command.kvOps, Command.op, DB.Op.kvOps, Spared, KvStore.Op.Evicts]

theorem getKey_expires_at_once
    : let frame := setFrame [248, 83, 227, 165, 155, 196, 32, 0]
      let senv : ServerEnv := ⟨fun _ => Env.steady, .ok ()⟩
      parseCommand ample frame = .ok (.setKey "d" "k" [7] 9223372036854776)
        ∧ ∀ fromSlice : List UInt8 → Except String AofEntry,
            (handleCommand (fun _ id => id) fromSlice
                (handleFrame (fun _ id => id) fromSlice DB.freshDb senv frame).2 senv
                (.getKey "d" "k")).1 = .ok okEmpty
              ∧ ¬TtlExact (fun _ id => id) fromSlice DB.freshDb senv frame "d" "k" [7]
                  9223372036854776 [] := by
  intro frame senv
  have hparse : parseCommand ample frame = .ok (.setKey "d" "k" [7] 9223372036854776) := by
    decide
  refine ⟨hparse, ?_⟩
  intro fromSlice
  have hgone : (handleCommand (fun _ id => id) fromSlice
      (handleFrame (fun _ id => id) fromSlice DB.freshDb senv frame).2 senv (.getKey "d" "k")).1
      = .ok okEmpty := by
    rw [handleCommand_getKey, found_eq, entry_handleFrame_setKey hparse]
    dsimp only
    rw [if_pos (by decide)]
    rfl
  refine ⟨hgone, ?_⟩
  intro h
  have hget := (h senv (Int64.le_refl _)).mpr (by decide)
  exact okEmpty_ne_okBytes _ (Outcome.ok.inj (hgone.symm.trans hget))

end Server
end MemStream
