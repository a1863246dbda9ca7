import MemStream.Db.Impl.Base64
import MemStream.Lib.Utf8
import Mathlib.Algebra.Order.Floor.Div
import Mathlib.Tactic.Ring

namespace MemStream
namespace Base64

theorem or_shiftLeft {x y k : Nat} (m : Nat) (h : y < 2 ^ k)
    : x <<< (k + m) ||| y <<< m = (x * 2 ^ k + y) <<< m := by
  have hlt : y <<< m < 2 ^ (k + m) := by
    rw [Nat.shiftLeft_eq, Nat.pow_add]
    exact Nat.mul_lt_mul_of_pos_right h (Nat.two_pow_pos m)
  rw [← Nat.shiftLeft_add_eq_or_of_lt hlt]
  simp only [Nat.shiftLeft_eq, Nat.pow_add]
  ring

theorem or_bytes {b0 b1 b2 : Nat} (h1 : b1 < 256) (h2 : b2 < 256)
    : b0 <<< 16 ||| b1 <<< 8 ||| b2 = b0 * 65536 + b1 * 256 + b2 := by
  rw [or_shiftLeft 8 (show b1 < 2 ^ 8 from h1)]
  have := or_shiftLeft (x := b0 * 2 ^ 8 + b1) 0 (show b2 < 2 ^ 8 from h2)
  simp only [Nat.shiftLeft_zero, Nat.add_zero] at this
  rw [this]
  ring

theorem or_digits {d0 d1 d2 d3 : Nat} (h1 : d1 < 64) (h2 : d2 < 64) (h3 : d3 < 64)
    : d0 <<< 18 ||| d1 <<< 12 ||| d2 <<< 6 ||| d3 = d0 * 262144 + d1 * 4096 + d2 * 64 + d3 := by
  rw [or_shiftLeft 12 (show d1 < 2 ^ 6 from h1), or_shiftLeft 6 (show d2 < 2 ^ 6 from h2)]
  have := or_shiftLeft (x := (d0 * 2 ^ 6 + d1) * 2 ^ 6 + d2) 0 (show d3 < 2 ^ 6 from h3)
  simp only [Nat.shiftLeft_zero, Nat.add_zero] at this
  rw [this]
  ring

theorem or_regroup {b : Nat} (h : b < 16777216)
    : (b >>> 18 % 64) <<< 18 ||| (b >>> 12 % 64) <<< 12 ||| (b >>> 6 % 64) <<< 6 ||| b % 64 = b := by
  rw [or_digits (Nat.mod_lt _ (by omega)) (Nat.mod_lt _ (by omega)) (Nat.mod_lt _ (by omega))]
  simp only [Nat.shiftRight_eq_div_pow]
  omega

def code (c : Char) : UInt8 :=
  UInt8.ofNat c.toNat

theorem code_get
    : ∀ i : Fin chars.length,
        String.utf8EncodeChar (chars.get i) = [code (chars.get i)]
          ∧ (decodeChar (code (chars.get i))).toNat = i.val
          ∧ code (chars.get i) ≠ 61 := by
  decide

theorem utf8EncodeChar_charAt (n : Nat)
    : String.utf8EncodeChar (charAt n) = [code (charAt n)] :=
  (code_get ⟨n &&& 63, and_lt_length n⟩).1

theorem decodeChar_charAt (n : Nat) : (decodeChar (code (charAt n))).toNat = n % 64 := by
  have hmod : n &&& 63 = n % 64 := Nat.and_two_pow_sub_one_eq_mod n 6
  rw [← hmod]
  exact (code_get ⟨n &&& 63, and_lt_length n⟩).2.1

theorem code_charAt_ne (n : Nat) : code (charAt n) ≠ 61 :=
  (code_get ⟨n &&& 63, and_lt_length n⟩).2.2

theorem utf8EncodeChar_pad : String.utf8EncodeChar '=' = [61] := by
  decide

theorem decodeChar_pad : (decodeChar 61).toNat = 0 := by
  decide

theorem ofNat_eq {n : Nat} {b : UInt8} (h : n % 256 = b.toNat) : UInt8.ofNat n = b := by
  apply UInt8.toNat_inj.mp
  rw [UInt8.toNat_ofNat']
  exact h

theorem decode_cons {c0 c1 c2 c3 : UInt8} {rest : List UInt8} {b : Nat}
    (h : (decodeChar c0).toNat <<< 18 ||| (decodeChar c1).toNat <<< 12
      ||| (decodeChar c2).toNat <<< 6 ||| (decodeChar c3).toNat = b)
    : decode (c0 :: c1 :: c2 :: c3 :: rest)
        =
      [UInt8.ofNat (b >>> 16)] ++ (if c2 ≠ 61 then [UInt8.ofNat (b >>> 8)] else [])
        ++ (if c3 ≠ 61 then [UInt8.ofNat b] else []) ++ decode rest := by
  rw [decode, h]

theorem ofNat_shiftRight {n k : Nat} {b : UInt8} (h : n / 2 ^ k % 256 = b.toNat)
    : UInt8.ofNat (n >>> k) = b := by
  apply ofNat_eq
  rw [Nat.shiftRight_eq_div_pow]
  exact h

theorem decode_encode (json : List UInt8)
    : decode ((encode json).flatMap String.utf8EncodeChar) = json := by
  induction json using encode.induct with
  | case1 b0 b1 b2 rest ih =>
    have h0 := b0.toNat_lt
    have h1 := b1.toNat_lt
    have h2 := b2.toNat_lt
    simp only [encode, List.flatMap_cons, utf8EncodeChar_charAt, List.singleton_append]
    generalize hb : b0.toNat <<< 16 ||| b1.toNat <<< 8 ||| b2.toNat = b
    rw [or_bytes h1 h2] at hb
    have hdigits := or_regroup (b := b) (by omega)
    simp only [← decodeChar_charAt] at hdigits
    rw [decode_cons hdigits, if_pos (code_charAt_ne _), if_pos (code_charAt_ne _), ih,
      ofNat_shiftRight (b := b0) (by omega), ofNat_shiftRight (b := b1) (by omega),
      ofNat_eq (b := b2) (by omega)]
    simp
  | case2 b0 b1 =>
    have h0 := b0.toNat_lt
    have h1 := b1.toNat_lt
    simp only [encode, List.flatMap_cons, List.flatMap_nil, utf8EncodeChar_charAt, utf8EncodeChar_pad,
      List.singleton_append]
    generalize hb : b0.toNat <<< 16 ||| b1.toNat <<< 8 = b
    rw [← Nat.or_zero (_ ||| _), or_bytes h1 (by omega)] at hb
    have hdigits := or_regroup (b := b) (by omega)
    have hpad : b % 64 = (decodeChar 61).toNat := by
      rw [decodeChar_pad]
      omega
    rw [hpad] at hdigits
    simp only [← decodeChar_charAt] at hdigits
    rw [decode_cons hdigits, if_pos (code_charAt_ne _), if_neg (by simp),
      ofNat_shiftRight (b := b0) (by omega), ofNat_shiftRight (b := b1) (by omega)]
    simp [decode]
  | case3 b0 =>
    have h0 := b0.toNat_lt
    simp only [encode, List.flatMap_cons, List.flatMap_nil, utf8EncodeChar_charAt, utf8EncodeChar_pad,
      List.singleton_append]
    generalize hb : b0.toNat <<< 16 = b
    rw [Nat.shiftLeft_eq] at hb
    have hdigits := or_regroup (b := b) (by omega)
    have hpad : b % 64 = (decodeChar 61).toNat := by
      rw [decodeChar_pad]
      omega
    have hpad' : b >>> 6 % 64 = (decodeChar 61).toNat := by
      rw [decodeChar_pad, Nat.shiftRight_eq_div_pow]
      omega
    rw [hpad, hpad'] at hdigits
    simp only [← decodeChar_charAt] at hdigits
    rw [decode_cons hdigits, if_neg (by simp), if_neg (by simp), ofNat_shiftRight (b := b0) (by omega)]
    simp [decode]
  | case4 => rfl

theorem charAt_mem (n : Nat) : charAt n ∈ chars := by
  apply List.get_mem

theorem encode_eq_digits (json : List UInt8)
    : ∃ digits pads,
        encode json = digits ++ List.replicate pads '='
          ∧ (∀ c ∈ digits, c ∈ chars)
          ∧ pads ≤ 2 := by
  induction json using encode.induct with
  | case1 b0 b1 b2 rest ih =>
    rcases ih with ⟨digits, pads, hrest, hdigits, hpads⟩
    rw [encode, hrest]
    refine ⟨_ :: _ :: _ :: _ :: digits, pads, rfl, ?_, hpads⟩
    simpa only [List.forall_mem_cons, charAt_mem, true_and] using hdigits
  | case2 b0 b1 =>
    rw [encode]
    refine ⟨[_, _, _], 1, rfl, ?_, by decide⟩
    simp only [List.forall_mem_cons, charAt_mem, true_and]
    exact List.forall_mem_nil _
  | case3 b0 =>
    rw [encode]
    refine ⟨[_, _], 2, rfl, ?_, by decide⟩
    simp only [List.forall_mem_cons, charAt_mem, true_and]
    exact List.forall_mem_nil _
  | case4 => exact ⟨[], 0, rfl, List.forall_mem_nil _, by decide⟩

theorem utf8EncodeChar_of_mem {c : Char} (h : c ∈ chars) : String.utf8EncodeChar c = [code c] := by
  rcases List.mem_iff_get.mp h with ⟨i, rfl⟩
  exact (code_get i).1

theorem bytes_encode (json : List UInt8)
    : (encode json).flatMap String.utf8EncodeChar = (encode json).map code := by
  rcases encode_eq_digits json with ⟨digits, pads, hencode, hdigits, _⟩
  rw [List.map_eq_flatMap]
  apply List.flatMap_congr
  intro c hc
  rw [hencode, List.mem_append] at hc
  cases hc with
  | inl hmem => exact utf8EncodeChar_of_mem (hdigits c hmem)
  | inr hmem =>
    rw [List.eq_of_mem_replicate hmem]
    exact utf8EncodeChar_pad

theorem length_chars_encode (json : List UInt8)
    : (encode json).length = 4 * ((json.length + 2) / 3) := by
  induction json using encode.induct with
  | case1 b0 b1 b2 rest ih =>
    simp only [encode, List.length_cons, ih]
    omega
  | case2 b0 b1 => simp [encode]
  | case3 b0 => simp [encode]
  | case4 => rfl

theorem length_encode (json : List UInt8)
    : ((encode json).flatMap String.utf8EncodeChar).length = 4 * ((json.length + 2) / 3) := by
  rw [bytes_encode, List.length_map, length_chars_encode]

/-
The loops over the positions.
-/

theorem toNat_shiftLeft (b : UInt8) {k : UInt32} (hk : k.toNat ≤ 24)
    : (b.toUInt32 <<< k).toNat = b.toNat <<< k.toNat := by
  have hlt : b.toNat <<< k.toNat < 2 ^ 32 := by
    rw [Nat.shiftLeft_eq]
    calc
      b.toNat * 2 ^ k.toNat < 2 ^ 8 * 2 ^ k.toNat :=
        Nat.mul_lt_mul_of_pos_right b.toNat_lt (Nat.two_pow_pos _)
      _ ≤ 2 ^ 8 * 2 ^ 24 := Nat.mul_le_mul_left _ (Nat.pow_le_pow_right (by decide) hk)
  have hsmall : k.toNat % 32 = k.toNat := by
    omega
  rw [UInt32.toNat_shiftLeft, UInt8.toNat_toUInt32, hsmall, Nat.mod_eq_of_lt hlt]

theorem toNat_shiftRight (b : UInt32) {k : UInt32} (hk : k.toNat ≤ 24)
    : (b >>> k).toNat = b.toNat >>> k.toNat := by
  have hsmall : k.toNat % 32 = k.toNat := by
    omega
  rw [UInt32.toNat_shiftRight, hsmall]

theorem charAt_shiftRight (b : UInt32)
    : charAt (b >>> 18).toNat = charAt (b.toNat >>> 18)
        ∧ charAt (b >>> 12).toNat = charAt (b.toNat >>> 12)
        ∧ charAt (b >>> 6).toNat = charAt (b.toNat >>> 6) := by
  refine ⟨?_, ?_, ?_⟩
  . rw [toNat_shiftRight b (by decide)]
    rfl
  . rw [toNat_shiftRight b (by decide)]
    rfl
  . rw [toNat_shiftRight b (by decide)]
    rfl

theorem encodeLoop_eq (json : List UInt8) (i : Nat) (out : List Char)
    : encodeLoop json i out = out ++ encode (json.drop i) := by
  induction i, out using encodeLoop.induct json with
  | case1 i out h b ih =>
    have hdrop : json.drop i = json[i] :: json[i + 1] :: json[i + 2] :: json.drop (i + 3) := by
      rw [List.drop_eq_getElem_cons (show i < json.length by omega),
        List.drop_eq_getElem_cons (show i + 1 < json.length by omega),
        List.drop_eq_getElem_cons h]
    have hb : b.toNat = json[i].toNat <<< 16 ||| json[i + 1].toNat <<< 8 ||| json[i + 2].toNat := by
      unfold b
      rw [UInt32.toNat_or, UInt32.toNat_or, toNat_shiftLeft _ (by decide),
        toNat_shiftLeft _ (by decide)]
      rfl
    rcases charAt_shiftRight b with ⟨h18, h12, h6⟩
    unfold encodeLoop
    rw [dif_pos h, hdrop, encode]
    dsimp only
    rw [ih, h18, h12, h6, ← hb, List.append_assoc]
    rfl
  | case2 i out h hrest =>
    have hdrop : json.drop i = [json[i]] := by
      rw [List.drop_eq_getElem_cons (show i < json.length by omega), List.drop_eq_nil_of_le (by omega)]
    have hb : (json[i].toUInt32 <<< 16).toNat = json[i].toNat <<< 16 := by
      apply toNat_shiftLeft
      decide
    rcases charAt_shiftRight (json[i].toUInt32 <<< 16) with ⟨h18, h12, _⟩
    unfold encodeLoop
    rw [dif_neg h, hdrop, encode]
    split
    . dsimp only
      rw [h18, h12, hb, List.append_assoc]
      rfl
    . next htwo => exact absurd (hrest.symm.trans htwo) (by decide)
    . next hone _ => exact absurd hrest hone
  | case3 i out h hrest =>
    have hdrop : json.drop i = [json[i], json[i + 1]] := by
      rw [List.drop_eq_getElem_cons (show i < json.length by omega),
        List.drop_eq_getElem_cons (show i + 1 < json.length by omega),
        List.drop_eq_nil_of_le (by omega)]
    have hb : (json[i].toUInt32 <<< 16 ||| json[i + 1].toUInt32 <<< 8).toNat
        = json[i].toNat <<< 16 ||| json[i + 1].toNat <<< 8 := by
      rw [UInt32.toNat_or, toNat_shiftLeft _ (by decide), toNat_shiftLeft _ (by decide)]
      rfl
    rcases charAt_shiftRight (json[i].toUInt32 <<< 16 ||| json[i + 1].toUInt32 <<< 8) with ⟨h18, h12, h6⟩
    unfold encodeLoop
    rw [dif_neg h, hdrop, encode]
    split
    . next hone => exact absurd (hrest.symm.trans hone) (by decide)
    . dsimp only
      rw [h18, h12, h6, hb, List.append_assoc]
      rfl
    . next _ htwo => exact absurd hrest htwo
  | case4 i out h hone htwo =>
    have hdrop : json.drop i = [] := by
      have hne : json.length - i ≠ 1 ∧ json.length - i ≠ 2 := ⟨hone, htwo⟩
      apply List.drop_eq_nil_of_le
      omega
    unfold encodeLoop
    rw [dif_neg h, hdrop, encode]
    split
    . contradiction
    . contradiction
    . simp

theorem ofNat_toNat_toUInt8 (b : UInt32) : UInt8.ofNat b.toNat = b.toUInt8 := by
  rfl

theorem toUInt8_shiftRight (b : UInt32)
    : (b >>> 16).toUInt8 = UInt8.ofNat (b.toNat >>> 16)
        ∧ (b >>> 8).toUInt8 = UInt8.ofNat (b.toNat >>> 8) := by
  rw [← ofNat_toNat_toUInt8, ← ofNat_toNat_toUInt8, toNat_shiftRight b (by decide),
    toNat_shiftRight b (by decide)]
  exact ⟨rfl, rfl⟩

theorem decode_of_length_lt {s : List UInt8} (h : s.length < 4) : decode s = [] := by
  unfold decode
  split
  . simp only [List.length_cons] at h
    omega
  . rfl

theorem decodeLoop_eq (s : List UInt8) (i : Nat) (out : List UInt8)
    : decodeLoop s i out = out ++ decode (s.drop i) := by
  induction i, out using decodeLoop.induct s with
  | case1 i out h b ih =>
    have hdrop : s.drop i = s[i] :: s[i + 1] :: s[i + 2] :: s[i + 3] :: s.drop (i + 4) := by
      rw [List.drop_eq_getElem_cons (show i < s.length by omega),
        List.drop_eq_getElem_cons (show i + 1 < s.length by omega),
        List.drop_eq_getElem_cons (show i + 2 < s.length by omega), List.drop_eq_getElem_cons h]
    have hb : (decodeChar s[i]).toNat <<< 18 ||| (decodeChar s[i + 1]).toNat <<< 12
        ||| (decodeChar s[i + 2]).toNat <<< 6 ||| (decodeChar s[i + 3]).toNat = b.toNat := by
      unfold b
      rw [UInt32.toNat_or, UInt32.toNat_or, UInt32.toNat_or, toNat_shiftLeft _ (by decide),
        toNat_shiftLeft _ (by decide), toNat_shiftLeft _ (by decide)]
      rfl
    rcases toUInt8_shiftRight b with ⟨h16, h8⟩
    unfold decodeLoop
    rw [dif_pos h, hdrop, decode_cons hb, ← h16, ← h8, ofNat_toNat_toUInt8, ← List.append_assoc,
      ← List.append_assoc, ← List.append_assoc]
    exact ih
  | case2 i out h =>
    have hlength : (s.drop i).length < 4 := by
      rw [List.length_drop]
      omega
    unfold decodeLoop
    rw [dif_neg h, decode_of_length_lt hlength, List.append_nil]

/-- The loop of `from_base64` gives back the bytes that the one of `to_base64` has made a text of. -/
theorem decodeLoop_encodeLoop (json : List UInt8)
    : let text := String.ofList (encodeLoop json 0 [])
      decodeLoop text.toUTF8.data.toList 0 [] = json
        ∧ text.toUTF8.size = 4 * (json.length ⌈/⌉ 3)
        ∧ ∃ digits pads,
            text.toList = digits ++ List.replicate pads '='
              ∧ (∀ c ∈ digits, c ∈ chars)
              ∧ pads ≤ 2 := by
  intro text
  have htext : text = String.ofList (encode json) := by
    unfold text
    rw [encodeLoop_eq, List.nil_append, List.drop_zero]
  have hbytes : text.toUTF8.data.toList = (encode json).flatMap String.utf8EncodeChar := by
    rw [htext]
    apply Utf8.toUTF8_ofList
  refine ⟨?_, ?_, ?_⟩
  . rw [decodeLoop_eq, List.nil_append, List.drop_zero, hbytes, decode_encode]
  . have hsize : text.toUTF8.size = text.toUTF8.data.toList.length := by
      rfl
    rw [hsize, hbytes, length_encode, Nat.ceilDiv_eq_add_pred_div]
    rfl
  . rw [htext, String.toList_ofList]
    exact encode_eq_digits json

end Base64

theorem AofEntry.toBase64_eq_encodeLoop (toVec : AofEntry → List UInt8) (entry : AofEntry)
    : entry.toBase64 toVec = String.ofList (Base64.encodeLoop (toVec entry) 0 []) := by
  unfold AofEntry.toBase64
  rw [Base64.encodeLoop_eq, List.nil_append, List.drop_zero]

theorem fromBase64_eq_decodeLoop (fromSlice : List UInt8 → Except String AofEntry) (s : String)
    : fromBase64 fromSlice s = fromSlice (Base64.decodeLoop s.toUTF8.data.toList 0 []) := by
  unfold fromBase64
  rw [Base64.decodeLoop_eq, List.nil_append, List.drop_zero]

theorem AofEntry.length_toBase64 (toVec : AofEntry → List UInt8) (entry : AofEntry)
    : (entry.toBase64 toVec).toUTF8.data.toList.length = 4 * (((toVec entry).length + 2) / 3) := by
  unfold AofEntry.toBase64
  rw [Utf8.toUTF8_ofList]
  exact Base64.length_encode _

theorem fromBase64_toBase64 {toVec : AofEntry → List UInt8}
    {fromSlice : List UInt8 → Except String AofEntry} {entry : AofEntry}
    (h : fromSlice (toVec entry) = .ok entry)
    : fromBase64 fromSlice (entry.toBase64 toVec) = .ok entry := by
  unfold fromBase64 AofEntry.toBase64
  rw [Utf8.toUTF8_ofList, Base64.decode_encode]
  exact h

end MemStream
