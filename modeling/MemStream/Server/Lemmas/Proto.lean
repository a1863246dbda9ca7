import MemStream.Server.Spec.Layout

namespace MemStream

open Cursor

theorem read_eq {buf : List UInt8} {pos : Nat} (h : pos ≤ buf.length) (n : Nat) (eof : String)
    : Cursor.read n eof ⟨buf, pos⟩
        =
      if buf.length - pos < n then
        .err ⟨eof⟩
      else
        .ok ((buf.drop pos).take n, ⟨buf, pos + n⟩) := by
  unfold Cursor.read Cursor.remaining
  rw [if_pos h]
  simp only [Outcome.ok_bind]
  split
  . rfl
  . unfold slice
    rw [if_pos (by show pos + n ≤ buf.length; omega)]
    rfl

theorem readU8_new (tag : UInt8) (rest : List UInt8)
    : readU8 (Cursor.new (tag :: rest)) = .ok (tag, ⟨tag :: rest, 1⟩) := by
  have hread : Cursor.read 1 "unexpected EOF reading u8" (Cursor.new (tag :: rest))
      = .ok ([tag], ⟨tag :: rest, 1⟩) := by
    unfold Cursor.new
    rw [read_eq (by simp)]
    simp
  simp only [readU8, bind, StateT.bind, Outcome.bind, hread]
  show Outcome.ok (UInt8.ofNat (LittleEndian.decode [tag]), _) = _
  simp [LittleEndian.decode]

theorem parseCommand_cons (alloc : Nat → Bool) (tag : UInt8) (rest : List UInt8)
    : parseCommand alloc (tag :: rest) = (parseFields alloc tag).run' ⟨tag :: rest, 1⟩ := by
  unfold parseCommand
  rw [List.isEmpty_cons, if_neg (by simp)]
  simp only [StateT.run', bind, StateT.bind, Outcome.bind, readU8_new]

theorem reserve_ample (size count : Nat) : reserve ample size count = pure () := by
  funext cur
  unfold reserve
  rw [if_pos (.inr rfl)]
  rfl

theorem run'_eq_ok {α : Type} {reader : Reader α} {cur : Cursor} {val : α}
    : reader.run' cur = .ok val ↔ ∃ cur', reader cur = .ok (val, cur') := by
  simp only [StateT.run', Functor.map]
  cases reader cur with
  | ok res =>
    rcases res with ⟨val', cur'⟩
    simp [Function.comp, Outcome.bind]
  | err e => simp [Outcome.bind]
  | panic => simp [Outcome.bind]

theorem run'_ne_panic {α : Type} {reader : Reader α} {cur : Cursor} (h : reader cur ≠ .panic)
    : reader.run' cur ≠ .panic := by
  simp only [StateT.run', Functor.map]
  cases hres : reader cur with
  | ok res => simp [Function.comp, Outcome.bind]
  | err e => simp [Outcome.bind]
  | panic => exact absurd hres h

theorem run'_eq_panic {α : Type} {reader : Reader α} {cur : Cursor} (h : reader cur = .panic)
    : reader.run' cur = .panic := by
  simp only [StateT.run', Functor.map, h]
  rfl

end MemStream
