import Mathlib.Data.List.Basic

structure Block (size : Nat) where
  byte : Nat → UInt8

namespace Block

variable {size : Nat}

def zeroed : Block size :=
  ⟨fun _ => 0⟩

def read (b : Block size) (off len : Nat) : List UInt8 :=
  (List.range' off len).map b.byte

def write (b : Block size) (off : Nat) (src : List UInt8) : Block size :=
  ⟨fun i => if i < off then b.byte i else (src[i - off]?).getD (b.byte i)⟩

def copyIn (b : Block size) (off : Nat) (src : List UInt8) : Option (Block size) :=
  if off + src.length ≤ size then some (b.write off src) else none

def copyOut (b : Block size) (off len : Nat) : Option (List UInt8) :=
  if off + len ≤ size then some (b.read off len) else none

@[simp]
theorem read_length (b : Block size) (off len : Nat) : (b.read off len).length = len := by
  simp [read]

theorem read_append (b : Block size) (off m n : Nat)
    : b.read off (m + n) = b.read off m ++ b.read (off + m) n := by
  rw [read, ← List.range'_append_1, List.map_append]
  rfl

theorem read_write_self (b : Block size) (off : Nat) (src : List UInt8)
    : (b.write off src).read off src.length = src := by
  apply List.ext_getElem
  . simp
  . intro i h1 h2
    have hlt : ¬ off + i < off := by omega
    simp [read, write, h2, hlt]

theorem read_write_of_disjoint (b : Block size) (off : Nat) (src : List UInt8) (start len : Nat)
    (h : start + len ≤ off ∨ off + src.length ≤ start)
    : (b.write off src).read start len = b.read start len := by
  apply List.ext_getElem
  . simp
  . intro i h1 h2
    simp only [read_length] at h1
    simp only [read, write, List.getElem_map, List.getElem_range', Nat.one_mul]
    split
    . rfl
    . next hle =>
      rw [List.getElem?_eq_none]
      . rfl
      . omega

def IsZero (b : Block size) : Prop :=
  ∀ i < size, b.byte i = 0

theorem isZero_zeroed : (zeroed : Block size).IsZero := by
  intro i _
  rfl

theorem IsZero.read {b : Block size} (h : b.IsZero) {off len : Nat} (hle : off + len ≤ size)
    : b.read off len = List.replicate len 0 := by
  apply List.ext_getElem
  . simp
  . intro i h1 h2
    simp only [read_length] at h1
    simp only [Block.read, List.getElem_map, List.getElem_range', Nat.one_mul, List.getElem_replicate]
    apply h
    omega

theorem write_write_adjacent (b : Block size) (off : Nat) (src dst : List UInt8)
    : (b.write off src).write (off + src.length) dst = b.write off (src ++ dst) := by
  simp only [write, mk.injEq]
  funext i
  by_cases h1 : i < off
  . have : i < off + src.length := by omega
    simp [h1, this]
  . by_cases h2 : i < off + src.length
    . have : i - off < src.length := by omega
      simp [h1, h2, List.getElem?_append_left this]
    . have hle : src.length ≤ i - off := by omega
      have hsub : i - (off + src.length) = i - off - src.length := by omega
      simp [h1, h2, List.getElem?_append_right hle, hsub, List.getElem?_eq_none hle]

theorem copyIn_eq_some {b : Block size} {off : Nat} {src : List UInt8}
    (h : off + src.length ≤ size)
    : b.copyIn off src = some (b.write off src) := by
  simp [copyIn, h]

theorem copyOut_eq_some {b : Block size} {off len : Nat} (h : off + len ≤ size)
    : b.copyOut off len = some (b.read off len) := by
  simp [copyOut, h]

end Block
