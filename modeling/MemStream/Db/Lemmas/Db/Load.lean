import MemStream.Db.Impl.AofFile
import MemStream.Db.Lemmas.Db.Replay

namespace MemStream

namespace AofFile

variable (fromStr : String → Option AofEntry) {γ : Type} (push : γ → AofEntry → γ)

def entryOf (line : List UInt8) : Option AofEntry :=
  match (decodeLine line).map trim with
  | none => none
  | some line => if line.isEmpty then none else fromStr line

def entriesOf : Option (List UInt8) → List AofEntry
  | none => []
  | some bytes => (lines bytes).filterMap (entryOf fromStr)

theorem loadLines_eq_ok (entries : γ) {lines : List (List UInt8)}
    (h : ∀ line ∈ lines, (decodeLine line).isSome)
    : loadLines fromStr push entries lines
        =
      .ok ((lines.filterMap (entryOf fromStr)).foldl push entries) := by
  induction lines generalizing entries with
  | nil => rfl
  | cons line lines ih =>
    have hrest (line' : List UInt8) (hmem : line' ∈ lines) : (decodeLine line').isSome := by
      apply h
      simp [hmem]
    rcases Option.isSome_iff_exists.mp (h line (by simp)) with ⟨text, htext⟩
    simp only [loadLines, htext, List.filterMap_cons, entryOf, Option.map_some]
    split
    . apply ih
      assumption
    . split
      . next entry hentry =>
        rw [ih _ hrest, hentry]
        rfl
      . next hentry =>
        rw [ih _ hrest, hentry]

theorem load_eq_ok (default : γ) {file : Option (List UInt8)} (h : ValidUtf8 file)
    : load fromStr push default file = .ok ((entriesOf fromStr file).foldl push default) := by
  cases file with
  | none => rfl
  | some bytes => exact loadLines_eq_ok fromStr push default (h bytes rfl)

theorem loadAof_eq_ok {file : Option (List UInt8)} (h : ValidUtf8 file)
    : loadAof fromStr file = .ok (entriesOf fromStr file) := by
  unfold loadAof
  rw [load_eq_ok fromStr _ _ h]
  have hfoldl (front entries : List AofEntry)
      : entries.foldl (fun entries entry => entries ++ [entry]) front = front ++ entries := by
    induction entries generalizing front with
    | nil => simp
    | cons entry entries ih => simp [ih]
  rw [hfoldl, List.nil_append]

theorem loadAofSeparated_eq_ok {file : Option (List UInt8)} (h : ValidUtf8 file)
    : loadAofSeparated fromStr file
        =
      .ok { kvEntries := (entriesOf fromStr file).filter (·.category = .kv)
            listEntries := (entriesOf fromStr file).filter (·.category = .list)
            logEntries := (entriesOf fromStr file).filter (·.category = .log) } := by
  unfold loadAofSeparated
  rw [load_eq_ok fromStr _ _ h, foldl_push]
  rfl

end AofFile

section Parallel

variable (buildKey : String → UInt64 → UInt64)

theorem applyAof_fst (s : Stores) (env : Env) (entry : AofEntry)
    : (applyAof buildKey s env entry).1 = .ok () ∨ (applyAof buildKey s env entry).1 = .panic := by
  rw [applyAof_eq]
  cases (s.perform buildKey env entry).1 with
  | ok val => exact .inl rfl
  | err e => exact .inl rfl
  | panic => exact .inr rfl

theorem applyAll_fst (s : Stores) (entries : List (AofEntry × Env))
    : (applyAll buildKey s entries).1 = .ok () ∨ (applyAll buildKey s entries).1 = .panic := by
  induction entries generalizing s with
  | nil => exact .inl rfl
  | cons e entries ih =>
    rcases e with ⟨entry, env⟩
    have hentry := applyAof_fst buildKey s env entry
    unfold applyAll
    rcases happly : applyAof buildKey s env entry with ⟨res, s'⟩
    rw [happly] at hentry
    cases res with
    | ok val => exact ih s'
    | err e => simp at hentry
    | panic => exact .inr rfl

theorem applyAll_congr {entries entries' : List (AofEntry × Env)}
    (h : ∀ category, View.ofCategory category entries = View.ofCategory category entries')
    {s t : Stores} (hok : applyAll buildKey s entries = (.ok (), t))
    : applyAll buildKey s entries' = (.ok (), t) := by
  rw [applyAll_eq_ok] at hok ⊢
  rcases (separated_applyStep buildKey).run_of_ofPart_eq h hok with ⟨t', ht', hagree⟩
  rw [Stores.eq_of_agree hagree]
  assumption

theorem applyAll_fst_congr {entries entries' : List (AofEntry × Env)}
    (h : ∀ category, View.ofCategory category entries = View.ofCategory category entries') (s : Stores)
    : (applyAll buildKey s entries).1 = (applyAll buildKey s entries').1 := by
  rcases applyAll_fst buildKey s entries with hok | hpanic
  . rw [applyAll_congr buildKey h (Prod.ext hok rfl), hok]
  . rcases applyAll_fst buildKey s entries' with hok' | hpanic'
    . rw [applyAll_congr buildKey (fun category => (h category).symm) (Prod.ext hok' rfl), hok']
    . rw [hpanic, hpanic']

/--
Every entry gets the same answers of its environment in both replays. A replay in which an entry
panics leaves no stores behind.
-/
theorem loadAndApply_eq_sequential (fromStr : String → Option AofEntry) {file : Option (List UInt8)}
    (hfile : AofFile.ValidUtf8 file)
    : ∃ entries,
        AofFile.loadAof fromStr file = .ok entries
          ∧ AofFile.loadAofSeparated fromStr file
              =
            .ok { kvEntries := entries.filter (·.category = .kv)
                  listEntries := entries.filter (·.category = .list)
                  logEntries := entries.filter (·.category = .log) }
          ∧ ∀ (db : DB) (schedule : Schedule entries) (inOrder : List (AofEntry × Env)),
              inOrder.map Prod.fst = entries →
              (∀ category,
                View.ofCategory category schedule.entries = View.ofCategory category inOrder) →
              (db.loadAndApply buildKey schedule).1 = (applyAll buildKey db.toStores inOrder).1
                ∧ ((applyAll buildKey db.toStores inOrder).1 = .ok () →
                    (db.loadAndApply buildKey schedule).2.toStores
                      = (applyAll buildKey db.toStores inOrder).2) := by
  refine ⟨AofFile.entriesOf fromStr file, AofFile.loadAof_eq_ok fromStr hfile,
    AofFile.loadAofSeparated_eq_ok fromStr hfile, ?_⟩
  intro db schedule inOrder _ hsame
  constructor
  . exact applyAll_fst_congr buildKey hsame db.toStores
  . intro hok
    have hschedule := applyAll_congr buildKey (fun category => (hsame category).symm)
      (Prod.ext hok rfl)
    unfold DB.loadAndApply
    rw [hschedule]

-- A blank line, a corrupt line and a line without a newline at its end; the list task comes first.
theorem loadAndApply_eq_sequential_corrupt
    : let del := "\x7b\"op\":\"KvDel\",\"db\":\"d\",\"key\":\"k\"\x7d"
      let flush := "\x7b\"op\":\"ListFlush\",\"key\":\"a\"\x7d"
      let fromStr (s : String) : Option AofEntry :=
        if s = del then some (.kvDel "d" "k") else if s = flush then some (.listFlush "a") else none
      let file := (del ++ "\r\n \n\x7b\n" ++ flush).toUTF8.data.toList
      AofFile.loadAof fromStr (some file) = .ok [.kvDel "d" "k", .listFlush "a"]
        ∧ ∃ (db : DB) (schedule : Schedule [.kvDel "d" "k", .listFlush "a"]),
            DB.new true none = .ok db
              ∧ schedule.entries = [(.listFlush "a", Env.steady), (.kvDel "d" "k", Env.steady)]
              ∧ (db.loadAndApply (fun _ id => id) schedule).1 = .ok ()
              ∧ (db.loadAndApply (fun _ id => id) schedule).2.toStores
                  =
                (applyAll (fun _ id => id) db.toStores
                  [(.kvDel "d" "k", Env.steady), (.listFlush "a", Env.steady)]).2 := by
  intro del flush fromStr file
  have hload : AofFile.loadAof fromStr (some file) = .ok [.kvDel "d" "k", .listFlush "a"] := by
    decide +kernel
  have hvalid : AofFile.ValidUtf8 (some file) := by
    intro bytes hbytes
    cases hbytes
    decide +kernel
  rcases loadAndApply_eq_sequential (fun _ id => id) fromStr hvalid with ⟨entries, hentries, _, h⟩
  cases Outcome.ok.inj (hentries.symm.trans hload)
  let schedule : Schedule [.kvDel "d" "k", .listFlush "a"] :=
    { entries := [(.listFlush "a", Env.steady), (.kvDel "d" "k", Env.steady)]
      interleaves := ⟨rfl, rfl, rfl⟩ }
  have hsame (category : EntryCategory)
      : View.ofCategory category schedule.entries
          = View.ofCategory category
            [(.kvDel "d" "k", Env.steady), (.listFlush "a", Env.steady)] := by
    cases category with
    | kv => rfl
    | list => rfl
    | log => rfl
  rcases h ⟨⟨KvStore.new, SegList.blank.grown, GroupManager.new⟩, [], none⟩ schedule _ rfl hsame
    with ⟨hres, hstores⟩
  refine ⟨hload, _, schedule, ?_, rfl, ?_, hstores ?_⟩
  . rw [DB.new, Stores.new_eq_ok]
    rfl
  . rw [hres]
    rfl
  . rfl

end Parallel
end MemStream
