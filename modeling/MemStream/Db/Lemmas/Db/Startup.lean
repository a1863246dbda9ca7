import MemStream.Db.Impl.Startup
import MemStream.Db.Lemmas.Db.Admits

namespace MemStream

namespace AofFile

variable (fromStr : String → Option AofEntry) {γ : Type} (push : γ → AofEntry → γ)

theorem loadLines_eq_err (entries : γ) {lines : List (List UInt8)}
    (h : ∃ line ∈ lines, decodeLine line = none)
    : loadLines fromStr push entries lines = .err utf8Error := by
  induction lines generalizing entries with
  | nil => simp at h
  | cons line lines ih =>
    unfold loadLines
    cases hline : decodeLine line with
    | none => rfl
    | some text =>
      have hrest : ∃ line' ∈ lines, decodeLine line' = none := by
        rcases h with ⟨line', hmem, hnone⟩
        rcases List.mem_cons.mp hmem with rfl | hmem
        . rw [hline] at hnone
          cases hnone
        . exact ⟨line', hmem, hnone⟩
      dsimp only
      split
      . exact ih entries hrest
      . split
        . exact ih _ hrest
        . exact ih entries hrest

theorem load_eq_err (default : γ) {file : Option (List UInt8)} (h : ¬ValidUtf8 file)
    : load fromStr push default file = .err utf8Error := by
  cases file with
  | none =>
    exfalso
    apply h
    intro bytes hbytes
    cases hbytes
  | some bytes =>
    apply loadLines_eq_err
    by_contra hall
    apply h
    intro bytes' hbytes' line hline
    cases hbytes'
    rw [Option.isSome_iff_ne_none]
    intro hnone
    exact hall ⟨line, hline, hnone⟩

theorem loadAofSeparated_eq {file : Option (List UInt8)} (h : ValidUtf8 file)
    : loadAofSeparated fromStr file = .ok (MemStream.loadAofSeparated (entriesOf fromStr file)) := by
  unfold loadAofSeparated
  rw [load_eq_ok fromStr _ _ h]
  rfl

end AofFile

namespace DB

variable (buildKey : String → UInt64 → UInt64) (fromStr : String → Option AofEntry)

theorem new_true (events : Option (List AofEntry))
    : new true events
        =
      .ok ⟨⟨KvStore.new, SegList.blank.grown, GroupManager.new⟩, [], events⟩ := by
  unfold new
  rw [Stores.new_eq_ok]
  rfl

theorem startUp_eq {alloc : Bool} {events : Option (List AofEntry)} {db : DB}
    (hdb : new alloc events = .ok db) {file : Option (List UInt8)} (hfile : AofFile.ValidUtf8 file)
    (schedule : List (AofEntry × Env))
    : startUp buildKey fromStr alloc events file schedule
        =
      match applyAll buildKey db.toStores schedule with
      | (.ok (), s) => .ok { db with toStores := s }
      | _ => .panic := by
  unfold startUp loadAndApplyFile
  rw [hdb, AofFile.loadAofSeparated_eq fromStr hfile]
  dsimp only
  rcases applyAll buildKey db.toStores schedule with ⟨res, s⟩
  cases res with
  | ok val => rfl
  | err e => rfl
  | panic => rfl

theorem startUp_eq_panic {alloc : Bool} {events : Option (List AofEntry)} {db : DB}
    (hdb : new alloc events = .ok db) {file : Option (List UInt8)} (hfile : ¬AofFile.ValidUtf8 file)
    (schedule : List (AofEntry × Env))
    : startUp buildKey fromStr alloc events file schedule = .panic := by
  unfold startUp loadAndApplyFile AofFile.loadAofSeparated
  rw [hdb, AofFile.load_eq_err fromStr _ _ hfile]

theorem startUp_events {alloc : Bool} {events : Option (List AofEntry)} {file : Option (List UInt8)}
    {schedule : List (AofEntry × Env)} {db : DB}
    (h : startUp buildKey fromStr alloc events file schedule = .ok db)
    : db.events = events := by
  cases hstores : Stores.new alloc with
  | ok stores =>
    have hnew : new alloc events = .ok ⟨stores, [], events⟩ := by
      unfold new
      rw [hstores, Outcome.map_ok]
    by_cases hfile : AofFile.ValidUtf8 file
    . rw [startUp_eq buildKey fromStr hnew hfile] at h
      split at h
      . cases h
        rfl
      . cases h
    . rw [startUp_eq_panic buildKey fromStr hnew hfile] at h
      cases h
  | err e => simp [startUp, new, hstores] at h
  | panic => simp [startUp, new, hstores] at h

theorem startUp_eq_ok_iff {alloc : Bool} {events : Option (List AofEntry)} {db : DB}
    (hdb : new alloc events = .ok db) {file : Option (List UInt8)} (hfile : AofFile.ValidUtf8 file)
    (schedule : List (AofEntry × Env))
    : (∃ db', startUp buildKey fromStr alloc events file schedule = .ok db')
        ↔
      (applyAll buildKey db.toStores schedule).1 = .ok () := by
  rw [startUp_eq buildKey fromStr hdb hfile]
  rcases applyAll buildKey db.toStores schedule with ⟨res, s⟩
  cases res with
  | ok val => simp
  | err e => simp
  | panic => simp

/-- The lines that have an entry are all that is loaded of a file, and the start goes through with them. -/
theorem startUp_iff {alloc : Bool} {events : Option (List AofEntry)} {db : DB}
    (hdb : new alloc events = .ok db) (file : Option (List UInt8))
    (schedule : Schedule (AofFile.entriesOf fromStr file))
    : (AofFile.loadAofSeparated fromStr file = .ok (loadAofSeparated (AofFile.entriesOf fromStr file))
        ∧ ∃ db', startUp buildKey fromStr alloc events file schedule.entries = .ok db')
      ↔
      AofFile.ValidUtf8 file ∧ db.toStores.AdmitsAll buildKey schedule.entries := by
  have hinv : db.toStores.Inv buildKey := by
    cases alloc with
    | true =>
      rw [new_true, Outcome.ok.injEq] at hdb
      rw [← hdb]
      exact Stores.inv_new Stores.new_eq_ok
    | false => contradiction
  rw [← hinv.applyAll_eq_ok_iff]
  by_cases hfile : AofFile.ValidUtf8 file
  . rw [startUp_eq_ok_iff buildKey fromStr hdb hfile, AofFile.loadAofSeparated_eq fromStr hfile]
    simp [hfile]
  . rw [startUp_eq_panic buildKey fromStr hdb hfile]
    simp [hfile]

theorem startUp_not_json
    : let push := "\x7b\"op\":\"ListPush\",\"key\":\"k\",\"payload\":[7]\x7d"
      let pop := "\x7b\"op\":\"ListPopRange\",\"key\":\"k\",\"start\":0,\"end\":1\x7d"
      let fromStr (s : String) : Option AofEntry :=
        if s = push then some (.listPush "k" [7])
        else if s = pop then some (.listPopRange "k" 0 1)
        else none
      let file := (push ++ "\nNOT_JSON\n" ++ pop ++ "\n").toUTF8.data.toList
      ∃ db, new true none = .ok db
        ∧ AofFile.loadAofSeparated fromStr (some file)
            = .ok (loadAofSeparated [.listPush "k" [7], .listPopRange "k" 0 1])
        ∧ ∃ db', startUp (fun _ id => id) fromStr true none (some file)
              [(.listPush "k" [7], Env.steady), (.listPopRange "k" 0 1, Env.steady)]
            = .ok db' := by
  intro push pop fromStr file
  have hdb := new_true none
  have hentries : AofFile.entriesOf fromStr (some file)
      = [.listPush "k" [7], .listPopRange "k" 0 1] := by
    decide +kernel
  have hvalid : AofFile.ValidUtf8 (some file) := by
    intro bytes hbytes
    cases hbytes
    decide +kernel
  let schedule : Schedule (AofFile.entriesOf fromStr (some file)) :=
    { entries := [(.listPush "k" [7], Env.steady), (.listPopRange "k" 0 1, Env.steady)]
      interleaves := by
        rw [hentries]
        exact ⟨rfl, rfl, rfl⟩ }
  have hadmits : (⟨KvStore.new, SegList.blank.grown, GroupManager.new⟩ : Stores).AdmitsAll
      (fun _ id => id) schedule.entries := by
    intro front entry env hfront
    have hmem : (entry, env) ∈ schedule.entries := hfront.subset (by simp)
    simp only [schedule, List.mem_cons, List.not_mem_nil, or_false, Prod.mk.injEq] at hmem
    rcases hmem with ⟨rfl, rfl⟩ | ⟨rfl, rfl⟩
    . exact fun _ => rfl
    . exact .inl (Nat.zero_le 1)
  rcases (startUp_iff (fun _ id => id) fromStr hdb (some file) schedule).mpr ⟨hvalid, hadmits⟩ with
    ⟨hload, hstart⟩
  rw [hentries] at hload
  exact ⟨_, hdb, hload, hstart⟩

-- the write of a second line was cut off inside of the "é" in it
theorem startUp_cut_character
    : let flush := "\x7b\"op\":\"KvFlush\",\"db\":\"x\"\x7d"
      let fromStr (s : String) : Option AofEntry := if s = flush then some (.kvFlush "x") else none
      let file := (flush ++ "\n\x7b\"op\":\"KvFlush\",\"db\":\"").toUTF8.data.toList ++ [0xC3]
      AofFile.entriesOf fromStr (some file) = [.kvFlush "x"]
        ∧ AofFile.loadAofSeparated fromStr (some file) = .err "stream did not contain valid UTF-8"
        ∧ startUp (fun _ id => id) fromStr true none (some file) [(.kvFlush "x", Env.steady)]
            = .panic := by
  intro flush fromStr file
  have hinvalid : ¬AofFile.ValidUtf8 (some file) := by
    intro hvalid
    have := hvalid file rfl
    revert this
    decide +kernel
  refine ⟨by decide +kernel, ?_, ?_⟩
  . exact AofFile.load_eq_err fromStr _ _ hinvalid
  . exact startUp_eq_panic _ _ (new_true none) hinvalid _

end DB
end MemStream
