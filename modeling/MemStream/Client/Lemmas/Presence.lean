import MemStream.Client.Lemmas.Answers

namespace MemStream

namespace StreamClient

open ResponseBuilder

variable {resp val : List UInt8}

theorem recv_append (bytes : List UInt8) (n : Nat)
    : recv (LittleEndian.encode 4 n ++ bytes) = bytes.take (n % 4294967296) := by
  unfold recv
  rw [List.drop_left' (LittleEndian.encode_length 4 n), List.take_left' (LittleEndian.encode_length 4 n),
    LittleEndian.decode_encode]
  rfl

theorem slice_eq_ok {start stop : Nat} {bytes : List UInt8} (h : slice resp start stop = .ok bytes)
    : stop ≤ resp.length ∧ bytes.length = stop - start := by
  unfold slice at h
  split at h
  . next hin =>
    cases h
    rw [List.length_take, List.length_drop]
    omega
  . cases h

theorem length_le_of_optionAnswer (h : optionAnswer resp = .ok (some val))
    : val.length + 5 ≤ resp.length := by
  unfold optionAnswer statusAnswer at h
  rcases Outcome.bind_eq_ok h with ⟨status, _, h⟩
  split at h
  . cases h
  . dsimp only at h
    split at h
    . cases h
    . rcases Outcome.bind_eq_ok h with ⟨len, _, h⟩
      split at h
      . cases h
      . rcases Outcome.bind_eq_ok h with ⟨bytes, hslice, h⟩
        cases h
        have := slice_eq_ok hslice
        omega

theorem optionAnswer_value (h : val.length < 4294967296)
    : optionAnswer (statusOk :: (LittleEndian.encode 4 val.length ++ val))
        =
      .ok (if val = [] then none else some val) := by
  have hlen : u32At (statusOk :: (LittleEndian.encode 4 val.length ++ val)) 1 = .ok val.length := by
    apply u32At_eq [statusOk] val h
    . rfl
    . rfl
  have hval : slice (statusOk :: (LittleEndian.encode 4 val.length ++ val)) 5 (5 + val.length)
      = .ok val := by
    apply slice_eq (statusOk :: LittleEndian.encode 4 val.length) val []
    . simp
    . simp
  unfold optionAnswer
  rw [statusAnswer_ok, if_neg (by simp), hlen, Outcome.ok_bind]
  by_cases hempty : val = []
  . simp [hempty]
  . rw [if_neg (by simpa using hempty), hval, if_neg hempty]
    rfl

def Distinguished (val : List UInt8) : Prop :=
  kvGetAnswer (recv (okBytes val)) = .ok (some val)
    ∧ lPopAnswer (recv (okBytes val)) = .ok (some val)
    ∧ kvGetAnswer (recv okEmpty) = .ok none
    ∧ lPopAnswer (recv okEmpty) = .ok none

theorem recv_okEmpty : optionAnswer (recv okEmpty) = .ok none := by
  decide

theorem recv_okBytes_iff (val : List UInt8)
    : optionAnswer (recv (okBytes val)) = .ok (some val)
        ↔
      val ≠ [] ∧ val.length + 5 < 4294967296 := by
  rw [okBytes_eq, recv_append]
  constructor
  . intro h
    have hle := length_le_of_optionAnswer h
    have hlt : (5 + val.length) % 4294967296 < 4294967296 := Nat.mod_lt _ (by decide)
    rw [List.length_take] at hle
    have hfits : val.length + 5 < 4294967296 := by omega
    refine ⟨?_, hfits⟩
    intro hempty
    rw [List.take_of_length_le (by simp; omega), optionAnswer_value (by omega), if_pos hempty] at h
    cases h
  . rintro ⟨hne, hfits⟩
    rw [List.take_of_length_le (by simp; omega), optionAnswer_value (by omega), if_neg hne]

theorem distinguished_iff (val : List UInt8)
    : Distinguished val ↔ val ≠ [] ∧ val.length + 5 < 4294967296 := by
  rw [← recv_okBytes_iff]
  constructor
  . intro h
    exact h.1
  . intro h
    exact ⟨h, h, recv_okEmpty, recv_okEmpty⟩

theorem recv_okBytes_nil
    : kvGetAnswer (recv (okBytes [])) = .ok none
        ∧ lPopAnswer (recv (okBytes [])) = .ok none
        ∧ ¬Distinguished [] := by
  have hnone : kvGetAnswer (recv (okBytes [])) = .ok none := by
    decide
  refine ⟨hnone, by decide, ?_⟩
  intro h
  have hsome := h.1
  rw [hnone] at hsome
  cases hsome

end StreamClient
end MemStream
