import MemStream.Lib.Utf8
import MemStream.Db.Lemmas.Db.Startup

namespace MemStream
namespace AofFile

section Lines

theorem splitLines_append (line : List UInt8) {bytes : List UInt8} (h : 0x0A ∉ bytes) (rest : List UInt8)
    : splitLines line (bytes ++ 0x0A :: rest) = stripCr (line ++ bytes) :: splitLines [] rest := by
  induction bytes generalizing line with
  | nil =>
    rw [List.nil_append, List.append_nil, splitLines, if_pos rfl]
  | cons b bytes ih =>
    rw [List.mem_cons, not_or] at h
    rw [List.cons_append, splitLines, if_neg (Ne.symm h.1), ih _ h.2, List.append_assoc,
      List.singleton_append]

theorem splitLines_end (line : List UInt8) {bytes : List UInt8} (h : 0x0A ∉ bytes)
    : splitLines line bytes = if line ++ bytes = [] then [] else [line ++ bytes] := by
  induction bytes generalizing line with
  | nil =>
    rw [List.append_nil]
    rfl
  | cons b bytes ih =>
    rw [List.mem_cons, not_or] at h
    rw [splitLines, if_neg (Ne.symm h.1), ih _ h.2, List.append_assoc, List.singleton_append]

theorem lines_append {bytes : List UInt8} (h : 0x0A ∉ bytes) (rest : List UInt8)
    : lines (bytes ++ 0x0A :: rest) = stripCr bytes :: lines rest := by
  exact splitLines_append [] h rest

theorem lines_end {bytes : List UInt8} (h : 0x0A ∉ bytes) (hne : bytes ≠ []) : lines bytes = [bytes] := by
  unfold lines
  rw [splitLines_end [] h, List.nil_append, if_neg hne]

end Lines

section Trim

theorem dropWhile_of_head {c : Char} (h : isWhitespace c = false) (cs : List Char)
    : (c :: cs).dropWhile isWhitespace = c :: cs := by
  rw [List.dropWhile_cons, if_neg (by simp [h])]

theorem trim_eq_self {s : String} {c d : Char} {inner : List Char} (h : s.toList = c :: (inner ++ [d]))
    (hc : isWhitespace c = false) (hd : isWhitespace d = false)
    : trim s = s := by
  unfold trim
  rw [h, dropWhile_of_head hc]
  have hreverse : (c :: (inner ++ [d])).reverse = d :: (c :: inner).reverse := by simp
  rw [hreverse, dropWhile_of_head hd, ← hreverse, List.reverse_reverse, ← h, String.ofList_toList]

theorem trim_initial {s : String} {c : Char} {cs : List Char} (h : s.toList = c :: cs)
    (hc : isWhitespace c = false)
    : (trim s).toList <+: s.toList := by
  unfold trim
  rw [h, dropWhile_of_head hc, String.toList_ofList, ← List.reverse_suffix, List.reverse_reverse]
  apply List.dropWhile_suffix

end Trim

def text (toStr : AofEntry → String) (entry : AofEntry) : List UInt8 :=
  (toStr entry).toUTF8.data.toList

/-- What `serde_json` makes of the entries. The texts of different entries do not stand in for each other:
a part of one, alone or with another one behind it, is not read as an entry. -/
structure Json (toStr : AofEntry → String) (fromStr : String → Option AofEntry) (entries : List AofEntry)
    : Prop where
  roundTrip : ∀ e ∈ entries, fromStr (toStr e) = some e
  noNewline : ∀ e ∈ entries, 0x0A ∉ text toStr e
  object : ∀ e ∈ entries, ∃ inner, (toStr e).toList = '\x7b' :: (inner ++ ['\x7d'])
  incomplete : ∀ e ∈ entries, ∀ s : String, s.toList <+: (toStr e).toList → s ≠ toStr e → fromStr s = none
  joined : ∀ e ∈ entries, ∀ e' ∈ entries, ∀ s : String, s ≠ "" → s.toList <+: (toStr e).toList →
    fromStr (s ++ toStr e') = none

namespace Json

variable {toStr : AofEntry → String} {fromStr : String → Option AofEntry} {entries : List AofEntry}

theorem text_eq (h : Json toStr fromStr entries) {e : AofEntry} (he : e ∈ entries)
    : ∃ bytes, text toStr e = bytes ++ [0x7D] := by
  rcases h.object e he with ⟨inner, hinner⟩
  refine ⟨('\x7b' :: inner).flatMap String.utf8EncodeChar, ?_⟩
  unfold text
  rw [Utf8.toUTF8_eq_flatMap, hinner, ← List.cons_append, List.flatMap_append]
  rfl

theorem stripCr_append (h : Json toStr fromStr entries) {e : AofEntry} (he : e ∈ entries)
    (front : List UInt8)
    : stripCr (front ++ text toStr e) = front ++ text toStr e := by
  rcases h.text_eq he with ⟨bytes, hbytes⟩
  unfold stripCr
  rw [hbytes, ← List.append_assoc, List.getLast?_concat, if_neg (by decide)]

theorem stripCr_text (h : Json toStr fromStr entries) {e : AofEntry} (he : e ∈ entries)
    : stripCr (text toStr e) = text toStr e := by
  have := h.stripCr_append he []
  rw [List.nil_append] at this
  exact this

theorem decodeLine_text (toStr : AofEntry → String) (e : AofEntry)
    : decodeLine (text toStr e) = some (toStr e) := by
  unfold decodeLine text
  rw [Array.toArray_toList, Utf8.fromUTF8?_toUTF8]

theorem decodeLine_append {part : List UInt8} {s : String} (hs : decodeLine part = some s) (e : AofEntry)
    : decodeLine (part ++ text toStr e) = some (s ++ toStr e) := by
  have hpart := Utf8.toUTF8_of_fromUTF8? hs
  have hbytes : part ++ text toStr e = (s ++ toStr e).toUTF8.data.toList := by
    unfold text
    rw [← hpart, Utf8.toUTF8_eq_flatMap, Utf8.toUTF8_eq_flatMap, Utf8.toUTF8_eq_flatMap,
      String.toList_append, List.flatMap_append]
  unfold decodeLine
  rw [hbytes, Array.toArray_toList, Utf8.fromUTF8?_toUTF8]

theorem entryOf_eq {line : List UInt8} {s : String} (hs : decodeLine line = some s) (hne : s ≠ "")
    (htrim : trim s = s)
    : entryOf fromStr line = fromStr s := by
  unfold entryOf
  rw [hs, Option.map_some, htrim]
  dsimp only
  rw [if_neg]
  simpa using hne

theorem trim_text (h : Json toStr fromStr entries) {e : AofEntry} (he : e ∈ entries)
    : trim (toStr e) = toStr e := by
  rcases h.object e he with ⟨inner, hinner⟩
  exact trim_eq_self hinner (by decide) (by decide)

theorem text_ne_empty (h : Json toStr fromStr entries) {e : AofEntry} (he : e ∈ entries)
    : toStr e ≠ "" := by
  rcases h.object e he with ⟨inner, hinner⟩
  intro hempty
  rw [hempty] at hinner
  cases hinner

theorem entryOf_text (h : Json toStr fromStr entries) {e : AofEntry} (he : e ∈ entries)
    : entryOf fromStr (text toStr e) = some e := by
  rw [entryOf_eq (decodeLine_text toStr e) (h.text_ne_empty he) (h.trim_text he)]
  exact h.roundTrip e he

theorem prefix_of_part {e : AofEntry} {part : List UInt8} {s : String} (hpart : part <+: text toStr e)
    (hs : decodeLine part = some s)
    : s.toList <+: (toStr e).toList := by
  apply Utf8.prefix_of_flatMap
  rw [← Utf8.toUTF8_eq_flatMap, ← Utf8.toUTF8_eq_flatMap, Utf8.toUTF8_of_fromUTF8? hs]
  exact hpart

theorem head_of_part (h : Json toStr fromStr entries) {e : AofEntry} (he : e ∈ entries) {s : String}
    (hs : s.toList <+: (toStr e).toList) (hne : s ≠ "")
    : ∃ cs, s.toList = '\x7b' :: cs := by
  rcases h.object e he with ⟨inner, hinner⟩
  cases hlist : s.toList with
  | nil => exact absurd (String.toList_eq_nil_iff.mp hlist) hne
  | cons c cs =>
    rw [hlist, hinner, List.cons_prefix_cons] at hs
    rw [hs.1]
    exact ⟨cs, rfl⟩

theorem ne_empty_of_part {part : List UInt8} {s : String} (hs : decodeLine part = some s)
    (hne : part ≠ [])
    : s ≠ "" := by
  intro hempty
  have := Utf8.toUTF8_of_fromUTF8? hs
  rw [hempty] at this
  exact hne this.symm

theorem entryOf_joined (h : Json toStr fromStr entries) {e e' : AofEntry} (he : e ∈ entries)
    (he' : e' ∈ entries) {part : List UInt8} {s : String} (hpart : part <+: text toStr e)
    (hne : part ≠ []) (hs : decodeLine part = some s)
    : entryOf fromStr (part ++ text toStr e') = none := by
  have hpre := prefix_of_part hpart hs
  have hsne := ne_empty_of_part hs hne
  rcases h.head_of_part he hpre hsne with ⟨cs, hcs⟩
  rcases h.object e' he' with ⟨inner, hinner⟩
  have htrim : trim (s ++ toStr e') = s ++ toStr e' := by
    have hlist : (s ++ toStr e').toList = '\x7b' :: (cs ++ '\x7b' :: inner ++ ['\x7d']) := by
      rw [String.toList_append, hcs, hinner]
      simp
    exact trim_eq_self hlist (by decide) (by decide)
  have hempty : s ++ toStr e' ≠ "" := by
    intro hempty
    have := congrArg String.toList hempty
    rw [String.toList_append, hcs] at this
    cases this
  rw [entryOf_eq (decodeLine_append hs e') hempty htrim]
  exact h.joined e he e' he' s hsne hpre

theorem entryOf_part (h : Json toStr fromStr entries) {e : AofEntry} (he : e ∈ entries)
    {part : List UInt8} {s : String} (hpart : part <+: text toStr e) (hne : part ≠ [])
    (hs : decodeLine part = some s)
    : entryOf fromStr part = none ∨ entryOf fromStr part = some e := by
  have hpre := prefix_of_part hpart hs
  have hsne := ne_empty_of_part hs hne
  rcases h.head_of_part he hpre hsne with ⟨cs, hcs⟩
  unfold entryOf
  rw [hs, Option.map_some]
  dsimp only
  split
  . exact .inl rfl
  . by_cases hwhole : trim s = toStr e
    . right
      rw [hwhole]
      exact h.roundTrip e he
    . left
      apply h.incomplete e he _ _ hwhole
      exact (trim_initial hcs (by decide)).trans hpre

theorem lines_flatMap (h : Json toStr fromStr entries) {es : List AofEntry} (hes : es ⊆ entries)
    (rest : List UInt8)
    : lines (es.flatMap (line toStr) ++ rest) = es.map (text toStr) ++ lines rest := by
  induction es with
  | nil => rfl
  | cons e es ih =>
    have he : e ∈ entries := hes (by simp)
    have hes' : es ⊆ entries := fun e' he' => hes (by simp [he'])
    have hline : (e :: es).flatMap (line toStr) ++ rest
        = text toStr e ++ 0x0A :: (es.flatMap (line toStr) ++ rest) := by
      simp [line, text]
    rw [hline, lines_append (h.noNewline e he), h.stripCr_text he, ih hes']
    rfl

theorem filterMap_texts (h : Json toStr fromStr entries) {es : List AofEntry} (hes : es ⊆ entries)
    : (es.map (text toStr)).filterMap (entryOf fromStr) = es := by
  induction es with
  | nil => rfl
  | cons e es ih =>
    rw [List.map_cons, List.filterMap_cons, h.entryOf_text (hes (by simp)),
      ih (fun e' he' => hes (by simp [he']))]

end Json

section Cut

variable (toStr : AofEntry → String)

def complete : List AofEntry → Nat → List AofEntry
  | [], _ => []
  | e :: es, n =>
    if (line toStr e).length ≤ n then e :: complete es (n - (line toStr e).length) else []

def torn : List AofEntry → Nat → Option AofEntry
  | [], _ => none
  | e :: es, n =>
    if (line toStr e).length ≤ n then torn es (n - (line toStr e).length)
    else if n = 0 then none
    else some e

theorem take_flatMap_line (es : List AofEntry) (n : Nat)
    : ∃ part, (es.flatMap (line toStr)).take n = (complete toStr es n).flatMap (line toStr) ++ part
        ∧ complete toStr es n ⊆ es
        ∧ (torn toStr es n = none → part = [])
        ∧ ∀ e, torn toStr es n = some e → e ∈ es ∧ part ≠ [] ∧ part <+: text toStr e := by
  induction es generalizing n with
  | nil => exact ⟨[], by simp [complete, torn]⟩
  | cons e es ih =>
    unfold complete torn
    rw [List.flatMap_cons]
    by_cases hle : (line toStr e).length ≤ n
    . rcases ih (n - (line toStr e).length) with ⟨part, htake, hsub, hnone, hsome⟩
      simp only [if_pos hle]
      refine ⟨part, ?_, ?_, hnone, ?_⟩
      . rw [List.take_append, List.take_of_length_le hle, htake, List.flatMap_cons, List.append_assoc]
      . apply List.cons_subset_cons
        exact hsub
      . intro e' he'
        rcases hsome e' he' with ⟨hmem, hpart⟩
        exact ⟨by simp [hmem], hpart⟩
    . simp only [if_neg hle]
      have hlength : (line toStr e).length = (text toStr e).length + 1 := by
        simp [line, text]
      refine ⟨(text toStr e).take n, ?_, by simp, ?_, ?_⟩
      . rw [List.take_append_of_le_length (by omega)]
        show (text toStr e ++ [0x0A]).take n = _
        rw [List.take_append_of_le_length (by omega)]
        rfl
      . intro hnone
        split at hnone
        . next hzero =>
          rw [hzero]
          rfl
        . cases hnone
      . intro e' he'
        split at he'
        . cases he'
        . next hzero =>
          cases he'
          refine ⟨by simp, ?_, List.take_prefix n _⟩
          intro hnil
          have hzero' := congrArg List.length hnil
          rw [List.length_take, List.length_nil] at hzero'
          omega

def cutFile (written : List AofEntry) (n : Nat) : List UInt8 :=
  (aofWorker toStr none written).take n

def restartedFile (written : List AofEntry) (n : Nat) (appended : List AofEntry) : List UInt8 :=
  aofWorker toStr (some (cutFile toStr written n)) appended

def joinedLines (part : List UInt8) : List AofEntry → List (List UInt8)
  | [] => [part]
  | a :: appended => (part ++ text toStr a) :: appended.map (text toStr)

/-- All that is missing is, at most, the entry that the cut fell into. -/
def CostsOnlyItself (written : List AofEntry) (n : Nat) (appended res : List AofEntry) : Prop :=
  res = complete toStr written n ++ appended
    ∨ ∃ e, torn toStr written n = some e ∧ res = complete toStr written n ++ e :: appended

end Cut

section Restart

variable {toStr : AofEntry → String} {fromStr : String → Option AofEntry}
  {written appended : List AofEntry} {n : Nat}

theorem Json.lines_restarted (h : Json toStr fromStr (written ++ appended))
    (hcut : ValidUtf8 (some (cutFile toStr written n)))
    : (torn toStr written n = none
        ∧ lines (restartedFile toStr written n appended)
            = (complete toStr written n ++ appended).map (text toStr))
      ∨ ∃ e part s, torn toStr written n = some e ∧ e ∈ written ++ appended
        ∧ part <+: text toStr e ∧ part ≠ [] ∧ decodeLine part = some s
        ∧ lines (restartedFile toStr written n appended)
            = (complete toStr written n).map (text toStr) ++ joinedLines toStr part appended := by
  rcases take_flatMap_line toStr written n with ⟨part, htake, hsub, hnone, hsome⟩
  have hcomplete : complete toStr written n ⊆ written ++ appended :=
    fun e he => List.mem_append_left _ (hsub he)
  have happended : appended ⊆ written ++ appended := fun e he => List.mem_append_right _ he
  have hfile : cutFile toStr written n = (complete toStr written n).flatMap (line toStr) ++ part := htake
  have hlines : lines (restartedFile toStr written n appended)
      = (complete toStr written n).map (text toStr) ++ lines (part ++ appended.flatMap (line toStr)) := by
    unfold restartedFile aofWorker
    rw [Option.getD_some, hfile, List.append_assoc, h.lines_flatMap hcomplete]
  cases htorn : torn toStr written n with
  | none =>
    left
    refine ⟨rfl, ?_⟩
    have hend := h.lines_flatMap happended []
    rw [List.append_nil] at hend
    rw [hlines, hnone htorn, List.nil_append, hend, List.map_append]
    exact congrArg _ (List.append_nil _)
  | some e =>
    right
    rcases hsome e htorn with ⟨hmem, hne, hpart⟩
    have he : e ∈ written ++ appended := List.mem_append_left _ hmem
    have hnewline : 0x0A ∉ part := fun hin => h.noNewline e he (hpart.subset hin)
    have hdecodes : (decodeLine part).isSome := by
      apply hcut _ rfl
      rw [hfile, h.lines_flatMap hcomplete, lines_end hnewline hne]
      simp
    rcases Option.isSome_iff_exists.mp hdecodes with ⟨s, hs⟩
    refine ⟨e, part, s, rfl, he, hpart, hne, hs, ?_⟩
    rw [hlines]
    congr 1
    cases appended with
    | nil =>
      rw [List.flatMap_nil, List.append_nil, lines_end hnewline hne]
      rfl
    | cons a appended =>
      have ha : a ∈ written ++ a :: appended := by simp
      have hrest : appended ⊆ written ++ a :: appended := fun e' he' => by simp [he']
      have hend := h.lines_flatMap hrest []
      rw [List.append_nil] at hend
      have hjoin : part ++ (a :: appended).flatMap (line toStr)
          = (part ++ text toStr a) ++ 0x0A :: appended.flatMap (line toStr) := by
        simp [line, text]
      have hnewline' : 0x0A ∉ part ++ text toStr a := by
        rw [List.mem_append, not_or]
        exact ⟨hnewline, h.noNewline a ha⟩
      rw [hjoin, lines_append hnewline', h.stripCr_append ha, hend]
      exact congrArg _ (List.append_nil _)

theorem entriesOf_some (fromStr : String → Option AofEntry) (bytes : List UInt8)
    : entriesOf fromStr (some bytes) = (lines bytes).filterMap (entryOf fromStr) := by
  rfl

theorem isSome_decodeLine_text (e : AofEntry) : (decodeLine (text toStr e)).isSome := by
  rw [Json.decodeLine_text]
  rfl

theorem Json.validUtf8_restarted (h : Json toStr fromStr (written ++ appended))
    (hcut : ValidUtf8 (some (cutFile toStr written n)))
    : ValidUtf8 (some (restartedFile toStr written n appended)) := by
  intro bytes hbytes line hline
  cases hbytes
  rcases h.lines_restarted hcut with ⟨_, hlines⟩ | ⟨e, part, s, _, _, _, _, hs, hlines⟩
  . rw [hlines] at hline
    rcases List.mem_map.mp hline with ⟨e, _, rfl⟩
    apply isSome_decodeLine_text
  . rw [hlines] at hline
    rcases List.mem_append.mp hline with hmem | hmem
    . rcases List.mem_map.mp hmem with ⟨e, _, rfl⟩
      apply isSome_decodeLine_text
    . cases appended with
      | nil =>
        rw [List.mem_singleton.mp hmem, hs]
        rfl
      | cons a appended =>
        rcases List.mem_cons.mp hmem with rfl | hmem
        . rw [Json.decodeLine_append hs a]
          rfl
        . rcases List.mem_map.mp hmem with ⟨e, _, rfl⟩
          apply isSome_decodeLine_text

theorem Json.entriesOf_restarted (h : Json toStr fromStr (written ++ appended))
    (hcut : ValidUtf8 (some (cutFile toStr written n)))
    : (torn toStr written n = none
        ∧ entriesOf fromStr (some (restartedFile toStr written n appended))
            = complete toStr written n ++ appended)
      ∨ ∃ e, torn toStr written n = some e
        ∧ (entriesOf fromStr (some (restartedFile toStr written n appended))
              = complete toStr written n ++ appended.tail
            ∨ appended = []
              ∧ entriesOf fromStr (some (restartedFile toStr written n appended))
                = complete toStr written n ++ [e]) := by
  rcases take_flatMap_line toStr written n with ⟨_, _, hsub, _, _⟩
  have hcomplete : complete toStr written n ⊆ written ++ appended :=
    fun e he => List.mem_append_left _ (hsub he)
  have hall : complete toStr written n ++ appended ⊆ written ++ appended := by
    apply List.append_subset.mpr
    exact ⟨hcomplete, fun e he => List.mem_append_right _ he⟩
  rw [entriesOf_some]
  rcases h.lines_restarted hcut with ⟨htorn, hlines⟩ | ⟨e, part, s, htorn, he, hpart, hne, hs, hlines⟩
  . left
    rw [hlines, h.filterMap_texts hall]
    exact ⟨htorn, rfl⟩
  . right
    refine ⟨e, htorn, ?_⟩
    rw [hlines, List.filterMap_append, h.filterMap_texts hcomplete]
    cases appended with
    | nil =>
      have hsingle : (joinedLines toStr part []).filterMap (entryOf fromStr)
          = (entryOf fromStr part).toList := by
        unfold joinedLines
        cases hentry : entryOf fromStr part with
        | none => simp [hentry]
        | some e' => simp [hentry]
      rw [hsingle]
      cases h.entryOf_part he hpart hne hs with
      | inl hnone =>
        left
        rw [hnone]
        rfl
      | inr hsome =>
        right
        rw [hsome]
        exact ⟨rfl, rfl⟩
    | cons a appended =>
      left
      have hrest : appended ⊆ written ++ a :: appended := fun e' he' => by simp [he']
      unfold joinedLines
      rw [List.filterMap_cons, h.entryOf_joined he (by simp) hpart hne hs, h.filterMap_texts hrest]
      rfl

theorem load_restarted_iff (h : Json toStr fromStr (written ++ appended))
    (hcut : ValidUtf8 (some (cutFile toStr written n)))
    : (∃ res,
        loadAof fromStr (some (restartedFile toStr written n appended)) = .ok res
          ∧ loadAofSeparated fromStr (some (restartedFile toStr written n appended))
              = .ok (MemStream.loadAofSeparated res)
          ∧ CostsOnlyItself toStr written n appended res)
      ↔
      torn toStr written n = none ∨ appended = [] := by
  have hvalid := h.validUtf8_restarted hcut
  rw [loadAof_eq_ok fromStr hvalid, loadAofSeparated_eq fromStr hvalid]
  constructor
  . rintro ⟨res, hres, _, hcosts⟩
    cases Outcome.ok.inj hres
    rcases h.entriesOf_restarted hcut with ⟨htorn, _⟩ | ⟨e, htorn, hentries | ⟨hnil, _⟩⟩
    . exact .inl htorn
    . right
      unfold CostsOnlyItself at hcosts
      rw [hentries] at hcosts
      -- the entries that should be there are more than those that are
      apply List.eq_nil_of_length_eq_zero
      rcases hcosts with hsame | ⟨e', _, hsame⟩
      . have hlength := congrArg List.length hsame
        simp only [List.length_append, List.length_tail] at hlength
        omega
      . have hlength := congrArg List.length hsame
        simp only [List.length_append, List.length_tail, List.length_cons] at hlength
        omega
    . exact .inr hnil
  . intro hcondition
    refine ⟨_, rfl, rfl, ?_⟩
    rcases h.entriesOf_restarted hcut with ⟨_, hentries⟩ | ⟨e, htorn, hentries | ⟨hnil, hentries⟩⟩
    . exact .inl hentries
    . cases hcondition with
      | inl hnone =>
        rw [hnone] at htorn
        cases htorn
      | inr hnil =>
        left
        rw [hentries, hnil]
        rfl
    . right
      refine ⟨e, htorn, ?_⟩
      rw [hentries, hnil]

end Restart

theorem load_restarted_torn
    : let toStr (e : AofEntry) : String :=
        if e = .kvFlush "x" then "\x7b\"op\":\"KvFlush\",\"db\":\"x\"\x7d"
        else "\x7b\"op\":\"KvFlush\",\"db\":\"y\"\x7d"
      let entries : List AofEntry := [.kvFlush "x", .kvFlush "y"]
      let fromStr (s : String) : Option AofEntry := entries.find? fun e => toStr e = s
      Json toStr fromStr entries
        ∧ ValidUtf8 (some (cutFile toStr entries 40))
        ∧ torn toStr entries 40 = some (.kvFlush "y")
        ∧ ∃ res,
            loadAof fromStr (some (restartedFile toStr entries 40 [])) = .ok res
              ∧ loadAofSeparated fromStr (some (restartedFile toStr entries 40 []))
                  = .ok (MemStream.loadAofSeparated res)
              ∧ CostsOnlyItself toStr entries 40 [] res := by
  intro toStr entries fromStr
  have hlength : ∀ e ∈ entries, (toStr e).toList.length = 25 := by decide +kernel
  -- a text that is read as an entry has the length of one
  have hnone (s : String) (h : ∀ e ∈ entries, toStr e ≠ s) : fromStr s = none := by
    apply List.find?_eq_none.mpr
    intro e he
    simpa using h e he
  have hjson : Json toStr fromStr entries := by
    constructor
    . decide +kernel
    . decide +kernel
    . intro e he
      refine ⟨(toStr e).toList.tail.dropLast, ?_⟩
      revert e
      decide +kernel
    . intro e he s hpre hne
      apply hnone
      intro e' he' heq
      apply hne
      rw [← heq] at hpre
      have := hpre.eq_of_length (by rw [hlength e he, hlength e' he'])
      rw [← heq]
      exact String.toList_inj.mp this
    . intro e he e' he' s hne _
      apply hnone
      intro e'' he'' heq
      have hsum := congrArg (fun s => s.toList.length) heq
      rw [String.toList_append, List.length_append, hlength e' he', hlength e'' he''] at hsum
      apply hne
      apply String.toList_eq_nil_iff.mp
      apply List.eq_nil_of_length_eq_zero
      omega
  have hcut : ValidUtf8 (some (cutFile toStr entries 40)) := by
    intro bytes hbytes
    cases hbytes
    decide +kernel
  have hall : Json toStr fromStr (entries ++ []) := by
    rw [List.append_nil]
    exact hjson
  exact ⟨hjson, hcut, by decide +kernel, (load_restarted_iff hall hcut).mpr (.inr rfl)⟩

-- the same file, when a new writer has appended a line to it
theorem load_restarted_loses_appended
    : let toStr (e : AofEntry) : String :=
        if e = .kvFlush "x" then "\x7b\"op\":\"KvFlush\",\"db\":\"x\"\x7d"
        else if e = .kvFlush "y" then "\x7b\"op\":\"KvFlush\",\"db\":\"y\"\x7d"
        else "\x7b\"op\":\"KvFlush\",\"db\":\"z\"\x7d"
      let entries : List AofEntry := [.kvFlush "x", .kvFlush "y", .kvFlush "z"]
      let fromStr (s : String) : Option AofEntry := entries.find? fun e => toStr e = s
      let file := restartedFile toStr [.kvFlush "x", .kvFlush "y"] 40 [.kvFlush "z"]
      (∀ e ∈ entries, 0x0A ∉ text toStr e)
        ∧ ValidUtf8 (some (cutFile toStr [.kvFlush "x", .kvFlush "y"] 40))
        ∧ complete toStr [.kvFlush "x", .kvFlush "y"] 40 = [.kvFlush "x"]
        ∧ torn toStr [.kvFlush "x", .kvFlush "y"] 40 = some (.kvFlush "y")
        ∧ loadAof fromStr (some file) = .ok [.kvFlush "x"]
        ∧ loadAofSeparated fromStr (some file) = .ok (MemStream.loadAofSeparated [.kvFlush "x"])
        ∧ ¬CostsOnlyItself toStr [.kvFlush "x", .kvFlush "y"] 40 [.kvFlush "z"] [.kvFlush "x"] := by
  intro toStr entries fromStr file
  have hcomplete : complete toStr [.kvFlush "x", .kvFlush "y"] 40 = [.kvFlush "x"] := by decide +kernel
  have hvalid : ValidUtf8 (some file) := by
    intro bytes hbytes
    cases hbytes
    decide +kernel
  have hentries : entriesOf fromStr (some file) = [.kvFlush "x"] := by decide +kernel
  refine ⟨by decide +kernel, ?_, hcomplete, by decide +kernel, ?_, ?_, ?_⟩
  . intro bytes hbytes
    cases hbytes
    decide +kernel
  . rw [loadAof_eq_ok fromStr hvalid, hentries]
  . rw [loadAofSeparated_eq fromStr hvalid, hentries]
  . unfold CostsOnlyItself
    rw [hcomplete]
    simp

end AofFile
end MemStream
