import MemStream.Db.Lemmas.Db.Partial
import MemStream.Server.Impl.Handler
import MemStream.Server.Lemmas.Grammar

namespace MemStream

variable {buildKey : String → UInt64 → UInt64} {fromSlice : List UInt8 → Except String AofEntry}

def Command.op : Command → Option DB.Op
  | .createGroup name => some (.logCreateGroup name)
  | .dropGroup name => some (.logDropGroup name)
  | .add group timestamp payload => some (.logAdd group timestamp payload)
  | .addRange group entries => some (.logAddRange group entries)
  | .read group id => some (.logRead group id)
  | .readRange group start stop => some (.logReadRange group start stop)
  | .remove group upToId => some (.logRemove group upToId)
  | .listGroups => some .logListGroups
  | .groupStats group => some (.logGroupStats group)
  | .setKey d key val ttlSecs => some (.kvSet d key val (Server.ttlMillis ttlSecs))
  | .getKey d key => some (.kvGet d key)
  | .delKey d key => some (.kvDel d key)
  | .keys d => some (.kvKeys d)
  | .flush d => some (.kvFlush d)
  | .lPush key val => some (.listPush key val)
  | .lPushRange key vals => some (.listPushRange key vals)
  | .lPop key => some (.listPop key)
  | .lPopRange key start stop => some (.listPopRange key start.toNat stop.toNat)
  | .lPopCount key count => some (.listPopCount key count.toNat)
  | .lLen key => some (.listLen key)
  | .lFlush key => some (.listFlush key)
  | .haRegisterFollower _ | .haHeartBeat | .haSync _ => none

namespace Server

variable {db : DB} {senv : ServerEnv}

theorem respond_state {α : Type} (res : Outcome DBError α × DB) (ok : α → List UInt8)
    : (respond res ok).2 = res.2 := by
  unfold respond
  split
  . rfl
  . rfl
  . rfl

theorem handleCommand_state {cmd : Command} {op : DB.Op} (h : cmd.op = some op)
    : (handleCommand buildKey fromSlice db senv cmd).2 = (db.call buildKey senv.env op).2 := by
  cases cmd <;> cases h <;> apply respond_state

theorem reachable_handleCommand (h : db.Reachable buildKey) (senv : ServerEnv) (cmd : Command)
    : (handleCommand buildKey fromSlice db senv cmd).2.Reachable buildKey := by
  cases hop : cmd.op with
  | some op =>
    rw [handleCommand_state hop]
    exact h.call senv.env op
  | none =>
    cases cmd with
    | haRegisterFollower addr =>
      unfold handleCommand
      dsimp only
      split
      . exact h
      . exact h
    | haHeartBeat => exact h
    | haSync entries =>
      unfold handleCommand
      dsimp only
      split
      . rw [respond_state]
        exact h.follow _
      . exact h
    | _ => cases hop

theorem reachable_handleFrame (h : db.Reachable buildKey) (senv : ServerEnv) (frame : List UInt8)
    : (handleFrame buildKey fromSlice db senv frame).2.Reachable buildKey := by
  unfold handleFrame
  split
  . exact reachable_handleCommand h senv _
  . exact h
  . exact h

end Server

def Decodable (fromSlice : List UInt8 → Except String AofEntry) (raw : List UInt8) : Prop :=
  ∃ s entry, String.fromUTF8? ⟨raw.toArray⟩ = some s ∧ fromBase64 fromSlice s = .ok entry

theorem decodeEntries_cons_of_decodable {raw : List UInt8} (h : Decodable fromSlice raw)
    (items : List (List UInt8))
    : ∃ entry,
        decodeEntries fromSlice (raw :: items) = (decodeEntries fromSlice items).map (entry :: ·) := by
  rcases h with ⟨s, entry, hs, hentry⟩
  refine ⟨entry, ?_⟩
  simp only [decodeEntries, hs, hentry]

theorem decodeEntries_cons_of_not_decodable {raw : List UInt8} (h : ¬Decodable fromSlice raw)
    (items : List (List UInt8))
    : decodeEntries fromSlice (raw :: items) = .panic := by
  unfold decodeEntries
  split
  . rfl
  . next s hs =>
    split
    . rfl
    . next entry hentry => exact absurd ⟨s, entry, hs, hentry⟩ h

theorem decodeEntries_eq_ok {items : List (List UInt8)} (h : ∀ raw ∈ items, Decodable fromSlice raw)
    : ∃ entries, decodeEntries fromSlice items = .ok entries := by
  induction items with
  | nil => exact ⟨[], rfl⟩
  | cons raw items ih =>
    rcases ih (fun raw' hraw' => h raw' (by simp [hraw'])) with ⟨entries, hentries⟩
    rcases decodeEntries_cons_of_decodable (h raw (by simp)) items with ⟨entry, hentry⟩
    rw [hentry, hentries]
    exact ⟨entry :: entries, rfl⟩

theorem decodeEntries_eq_panic {items : List (List UInt8)} {raw : List UInt8} (hmem : raw ∈ items)
    (hraw : ¬Decodable fromSlice raw)
    : decodeEntries fromSlice items = .panic := by
  induction items with
  | nil => cases hmem
  | cons raw' items ih =>
    by_cases hfirst : Decodable fromSlice raw'
    . rcases decodeEntries_cons_of_decodable hfirst items with ⟨entry, hentry⟩
      have hrest : raw ∈ items := by
        cases List.mem_cons.mp hmem with
        | inl heq =>
          rw [heq] at hraw
          exact absurd hfirst hraw
        | inr hrest => exact hrest
      rw [hentry, ih hrest]
      rfl
    . exact decodeEntries_cons_of_not_decodable hfirst items

namespace Server

variable {db : DB} {senv : ServerEnv} {frame : List UInt8} {items : List (List UInt8)}

/-- There is a response, and if an item is malformed it is an error and nothing has changed. -/
def RefusesMalformed (buildKey : String → UInt64 → UInt64)
    (fromSlice : List UInt8 → Except String AofEntry) (db : DB) (senv : ServerEnv)
    (frame : List UInt8) (items : List (List UInt8))
    : Prop :=
  ∃ resp,
    (handleFrame buildKey fromSlice db senv frame).1 = .ok resp
      ∧ ((∃ raw ∈ items, ¬Decodable fromSlice raw) →
          resp[4]? = some statusErr ∧ (handleFrame buildKey fromSlice db senv frame).2 = db)

theorem handleFrame_haSync (h : parseCommand ample frame = .ok (.haSync items))
    : handleFrame buildKey fromSlice db senv frame
        = handleCommand buildKey fromSlice db senv (.haSync items) := by
  unfold handleFrame
  rw [h]

theorem handleFrame_malformed (h : parseCommand ample frame = .ok (.haSync items)) {raw : List UInt8}
    (hmem : raw ∈ items) (hraw : ¬Decodable fromSlice raw)
    : handleFrame buildKey fromSlice db senv frame = (.panic, db) := by
  rw [handleFrame_haSync h]
  unfold handleCommand
  dsimp only
  rw [decodeEntries_eq_panic hmem hraw]

theorem refusesMalformed_iff (h : parseCommand ample frame = .ok (.haSync items))
    : RefusesMalformed buildKey fromSlice db senv frame items
        ↔
      ∀ raw ∈ items, Decodable fromSlice raw := by
  constructor
  . rintro ⟨resp, hresp, _⟩ raw hmem
    apply Classical.byContradiction
    intro hraw
    rw [handleFrame_malformed h hmem hraw] at hresp
    cases hresp
  . intro hall
    rcases decodeEntries_eq_ok hall with ⟨entries, hentries⟩
    refine ⟨ResponseBuilder.okEmpty, ?_, ?_⟩
    . rw [handleFrame_haSync h]
      unfold handleCommand
      dsimp only
      rw [hentries]
      rfl
    . rintro ⟨raw, hmem, hraw⟩
      exact absurd (hall raw hmem) hraw

-- one item, the base64 of a text that is read as an entry
theorem refusesMalformed_entry
    : let fromSlice (bytes : List UInt8) : Except String AofEntry :=
        if bytes = [65] then .ok (.kvDel "d" "k") else .error "expected value at line 1 column 1"
      let frame : List UInt8 := [0x24, 1, 0, 0, 0, 4, 0, 0, 0, 81, 81, 61, 61]
      let items : List (List UInt8) := [[81, 81, 61, 61]]
      parseCommand ample frame = .ok (.haSync items)
        ∧ (∀ raw ∈ items, Decodable fromSlice raw)
        ∧ RefusesMalformed (fun _ id => id) fromSlice DB.freshDb ⟨fun _ => Env.steady, .ok ()⟩ frame items := by
  intro fromSlice frame items
  have hparse : parseCommand ample frame = .ok (.haSync items) := by
    decide
  have hall : ∀ raw ∈ items, Decodable fromSlice raw := by
    intro raw hraw
    rw [List.mem_singleton.mp hraw]
    exact ⟨"QQ==", .kvDel "d" "k", by decide +kernel, by decide +kernel⟩
  exact ⟨hparse, hall, (refusesMalformed_iff hparse).mpr hall⟩

theorem haSync_panics
    : parseCommand ample [0x24, 1, 0, 0, 0, 1, 0, 0, 0, 0xff] = .ok (.haSync [[0xff]])
        ∧ ∀ fromSlice : List UInt8 → Except String AofEntry,
            (handleFrame (fun _ id => id) fromSlice DB.freshDb ⟨fun _ => Env.steady, .ok ()⟩
              [0x24, 1, 0, 0, 0, 1, 0, 0, 0, 0xff]).1 = .panic := by
  have hparse : parseCommand ample [0x24, 1, 0, 0, 0, 1, 0, 0, 0, 0xff] = .ok (.haSync [[0xff]]) := by
    decide
  refine ⟨hparse, ?_⟩
  intro fromSlice
  rw [handleFrame_malformed hparse (List.mem_singleton_self _)]
  rintro ⟨s, _, hs, _⟩
  rw [show String.fromUTF8? ⟨[0xff].toArray⟩ = none by decide] at hs
  cases hs

end Server
end MemStream
