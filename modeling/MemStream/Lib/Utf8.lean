import Mathlib.Data.List.Basic

namespace Utf8

-- how many bytes follow the first one of a character, and what the first of these can be
def shape (b : UInt8) : Option (Nat × UInt8 × UInt8) :=
  if b < 0x80 then some (0, 0x80, 0xBF)
  else if b < 0xC2 then none
  else if b < 0xE0 then some (1, 0x80, 0xBF)
  else if b = 0xE0 then some (2, 0xA0, 0xBF)
  else if b = 0xED then some (2, 0x80, 0x9F)
  else if b < 0xF0 then some (2, 0x80, 0xBF)
  else if b = 0xF0 then some (3, 0x90, 0xBF)
  else if b < 0xF4 then some (3, 0x80, 0xBF)
  else if b = 0xF4 then some (3, 0x80, 0x8F)
  else none

def follow : Nat → UInt8 → UInt8 → List UInt8 → Nat
  | n + 1, low, high, b :: bs =>
    if low ≤ b ∧ b ≤ high then follow n 0x80 0xBF bs + 1 else 0
  | _, _, _, _ => 0

def codePoint (b : UInt8) : List UInt8 → Nat
  | [] => b.toNat
  | [c] => b.toNat % 32 * 64 + c.toNat % 64
  | [c, d] => b.toNat % 16 * 4096 + c.toNat % 64 * 64 + d.toNat % 64
  | c :: d :: e :: _ =>
    b.toNat % 8 * 262144 + c.toNat % 64 * 4096 + d.toNat % 64 * 64 + e.toNat % 64

def lossyChars : List UInt8 → List Char
  | [] => []
  | b :: bs =>
    match shape b with
    | none => Char.ofNat 0xFFFD :: lossyChars bs
    | some (n, low, high) =>
      let k := follow n low high bs
      let c := if k = n then codePoint b (bs.take k) else 0xFFFD
      Char.ofNat c :: lossyChars (bs.drop k)
termination_by bytes => bytes.length
decreasing_by
  . simp
  . simp only [List.length_drop, List.length_cons]
    omega

def fromUtf8Lossy (bytes : List UInt8) : String :=
  match String.fromUTF8? ⟨bytes.toArray⟩ with
  | some s => s
  | none => String.ofList (lossyChars bytes)

theorem fromUTF8?_toUTF8 (s : String) : String.fromUTF8? ⟨s.toUTF8.data⟩ = some s := by
  simp [String.fromUTF8?, s.isValidUTF8, String.fromUTF8]

theorem toUTF8_of_fromUTF8? {bytes : List UInt8} {s : String}
    (h : String.fromUTF8? ⟨bytes.toArray⟩ = some s)
    : s.toUTF8.data.toList = bytes := by
  unfold String.fromUTF8? at h
  split at h
  . rw [Option.some.injEq] at h
    rw [← h]
    rfl
  . cases h

theorem toUTF8_ofList (cs : List Char)
    : (String.ofList cs).toUTF8.data.toList = cs.flatMap String.utf8EncodeChar := by
  have hbytes : (String.ofList cs).toUTF8 = cs.utf8Encode := String.toByteArray_ofList
  rw [hbytes]
  exact List.toList_data_toByteArray

theorem toUTF8_eq_flatMap (s : String) : s.toUTF8.data.toList = s.toList.flatMap String.utf8EncodeChar := by
  rw [← toUTF8_ofList, String.ofList_toList]

theorem utf8EncodeChar_append_inj {c d : Char} {bytes bytes' : List UInt8}
    (h : String.utf8EncodeChar c ++ bytes = String.utf8EncodeChar d ++ bytes')
    : c = d ∧ bytes = bytes' := by
  have hdecode := congrArg (fun l => (l.toByteArray).utf8DecodeChar? 0) h
  simp only [List.toByteArray_append, ByteArray.utf8DecodeChar?_utf8EncodeChar_append] at hdecode
  have heq : c = d := Option.some.inj hdecode
  subst heq
  exact ⟨rfl, List.append_cancel_left h⟩

theorem prefix_of_flatMap {cs ds : List Char}
    (h : cs.flatMap String.utf8EncodeChar <+: ds.flatMap String.utf8EncodeChar)
    : cs <+: ds := by
  induction cs generalizing ds with
  | nil => exact List.nil_prefix
  | cons c cs ih =>
    rcases h with ⟨rest, hrest⟩
    cases ds with
    | nil =>
      have hlength := congrArg List.length hrest
      have hpos := Char.utf8Size_pos c
      simp only [List.flatMap_cons, List.flatMap_nil, List.length_append, List.length_nil,
        String.length_utf8EncodeChar] at hlength
      omega
    | cons d ds =>
      rw [List.flatMap_cons, List.flatMap_cons, List.append_assoc] at hrest
      rcases utf8EncodeChar_append_inj hrest with ⟨rfl, htail⟩
      rw [List.cons_prefix_cons]
      exact ⟨rfl, ih ⟨rest, htail⟩⟩

theorem fromUtf8Lossy_toUTF8 (s : String) : fromUtf8Lossy s.toUTF8.data.toList = s := by
  unfold fromUtf8Lossy
  rw [Array.toArray_toList, fromUTF8?_toUTF8]

end Utf8
