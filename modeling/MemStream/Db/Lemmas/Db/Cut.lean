import MemStream.Db.Lemmas.Db.Torn

namespace MemStream
namespace AofFile

variable {toStr : AofEntry → String} {fromStr : String → Option AofEntry} {entries es : List AofEntry}

theorem Json.mono {entries' : List AofEntry} (h : Json toStr fromStr entries) (hsub : entries' ⊆ entries)
    : Json toStr fromStr entries' where
  roundTrip := fun e he => h.roundTrip e (hsub he)
  noNewline := fun e he => h.noNewline e (hsub he)
  object := fun e he => h.object e (hsub he)
  incomplete := fun e he => h.incomplete e (hsub he)
  joined := fun e he e' he' => h.joined e (hsub he) e' (hsub he')

theorem Json.entriesOf_flatMap_line (h : Json toStr fromStr entries) (hes : es ⊆ entries)
    : entriesOf fromStr (some (es.flatMap (line toStr))) = es := by
  have hlines := h.lines_flatMap hes []
  rw [List.append_nil] at hlines
  rw [entriesOf_some, hlines]
  show (es.map (text toStr) ++ []).filterMap (entryOf fromStr) = es
  rw [List.append_nil, h.filterMap_texts hes]

theorem Json.validUtf8_flatMap_line (h : Json toStr fromStr entries) (hes : es ⊆ entries)
    : ValidUtf8 (some (es.flatMap (line toStr))) := by
  intro bytes hbytes line hline
  cases hbytes
  have hlines := h.lines_flatMap hes []
  rw [List.append_nil] at hlines
  rw [hlines, List.mem_append] at hline
  rcases hline with hmem | hmem
  . rcases List.mem_map.mp hmem with ⟨e, _, rfl⟩
    apply isSome_decodeLine_text
  . cases hmem

theorem prefix_of_complete (toStr : AofEntry → String) (es : List AofEntry) (n : Nat)
    : complete toStr es n <+: es := by
  induction es generalizing n with
  | nil => exact List.prefix_refl _
  | cons e es ih =>
    unfold complete
    split
    . rw [List.cons_prefix_cons]
      exact ⟨rfl, ih _⟩
    . exact List.nil_prefix

theorem prefix_of_torn (toStr : AofEntry → String) {es : List AofEntry} {n : Nat} {e : AofEntry}
    (h : torn toStr es n = some e)
    : complete toStr es n ++ [e] <+: es := by
  induction es generalizing n with
  | nil => cases h
  | cons e' es ih =>
    unfold torn at h
    unfold complete
    split
    . next hle =>
      rw [if_pos hle] at h
      rw [List.cons_append, List.cons_prefix_cons]
      exact ⟨rfl, ih h⟩
    . next hle =>
      rw [if_neg hle] at h
      split at h
      . cases h
      . cases h
        rw [List.nil_append, List.cons_prefix_cons]
        exact ⟨rfl, List.nil_prefix⟩

theorem json_find {n : Nat} (hlength : ∀ e ∈ entries, (toStr e).toList.length = n)
    (hfind : ∀ e ∈ entries, (entries.find? fun e' => toStr e' = toStr e) = some e)
    (hnewline : ∀ e ∈ entries, 0x0A ∉ text toStr e)
    (hobject : ∀ e ∈ entries, ∃ inner, (toStr e).toList = '\x7b' :: (inner ++ ['\x7d']))
    : Json toStr (fun s => entries.find? fun e => toStr e = s) entries := by
  have hnone (s : String) (h : s.toList.length ≠ n) : (entries.find? fun e => toStr e = s) = none := by
    apply List.find?_eq_none.mpr
    intro e he heq
    apply h
    rw [← of_decide_eq_true heq, hlength e he]
  refine ⟨hfind, hnewline, hobject, ?_, ?_⟩
  . intro e he s hpre hne
    apply hnone
    intro hsame
    apply hne
    apply String.toList_inj.mp
    exact hpre.eq_of_length (by rw [hsame, hlength e he])
  . intro e he e' he' s hne _
    apply hnone
    rw [String.toList_append, List.length_append, hlength e' he']
    intro hsame
    apply hne
    apply String.toList_eq_nil_iff.mp
    apply List.eq_nil_of_length_eq_zero
    omega

theorem Json.entriesOf_cut (h : Json toStr fromStr entries) {n : Nat}
    (hvalid : ValidUtf8 (some ((entries.flatMap (line toStr)).take n)))
    : complete toStr entries n <+: entriesOf fromStr (some ((entries.flatMap (line toStr)).take n))
        ∧ entriesOf fromStr (some ((entries.flatMap (line toStr)).take n)) <+: entries := by
  have hjson : Json toStr fromStr (entries ++ []) := by
    rw [List.append_nil]
    exact h
  have hfile : restartedFile toStr entries n [] = (entries.flatMap (line toStr)).take n := by
    unfold restartedFile cutFile aofWorker
    simp
  rcases hjson.entriesOf_restarted hvalid with ⟨_, hentries⟩ | ⟨e, htorn, hentries | ⟨_, hentries⟩⟩
  . rw [hfile, List.append_nil] at hentries
    rw [hentries]
    exact ⟨List.prefix_refl _, prefix_of_complete toStr entries n⟩
  . rw [hfile, List.tail_nil, List.append_nil] at hentries
    rw [hentries]
    exact ⟨List.prefix_refl _, prefix_of_complete toStr entries n⟩
  . rw [hfile] at hentries
    rw [hentries]
    exact ⟨List.prefix_append _ _, prefix_of_torn toStr htorn⟩

end AofFile
end MemStream
