import MemStream.Db.Lemmas.SegLog.Basic

namespace MemStream
namespace SegLog

def entryOf (log : SegLog) (id : UInt64) : Option (UInt64 × UInt64 × List UInt8) :=
  (log.entryAt id).map fun (timestamp, payload) => (id, timestamp, payload)

theorem Inv.readAll_eq {log : SegLog} (hinv : log.Inv) (ids : List UInt64)
    : log.readAll ids = .ok (ids.filterMap log.entryOf) := by
  induction ids with
  | nil => rfl
  | cons id ids ih =>
    unfold readAll
    rw [hinv.read_eq id, ih]
    cases hentry : log.entryAt id with
    | none => simp [entryOf, hentry]
    | some entry => simp [entryOf, hentry]

theorem Inv.readRange_eq {log : SegLog} (hinv : log.Inv) {start stop : UInt64} (h : start ≤ stop)
    : log.readRange start stop
        =
      .ok ((log.idx.keys.filter fun id => start ≤ id ∧ id ≤ stop).filterMap log.entryOf) := by
  unfold readRange
  rw [if_neg]
  . apply hinv.readAll_eq
  . rw [UInt64.not_lt]
    exact h

theorem keys_pairwise_lt (log : SegLog) : log.idx.keys.Pairwise (· < ·) := by
  have hord := Std.TreeMap.ordered_keys (t := log.idx)
  apply hord.imp
  intro a b hab
  rwa [Std.compare_eq_lt] at hab

theorem Inv.readRange_spec {log : SegLog} (hinv : log.Inv) {start stop : UInt64} (h : start ≤ stop)
    : ∃ entries,
        log.readRange start stop = .ok entries
          ∧ entries.Pairwise (fun e e' => e.1 < e'.1)
          ∧ ∀ id timestamp payload,
              (id, timestamp, payload) ∈ entries
                ↔ log.entryAt id = some (timestamp, payload) ∧ start ≤ id ∧ id ≤ stop := by
  refine ⟨_, hinv.readRange_eq h, ?_, ?_⟩
  . rw [List.pairwise_filterMap]
    apply (log.keys_pairwise_lt.filter _).imp
    intro a b hab e he e' he'
    simp only [entryOf, Option.map_eq_some_iff] at he he'
    rcases he with ⟨_, _, rfl⟩
    rcases he' with ⟨_, _, rfl⟩
    exact hab
  . intro id timestamp payload
    simp only [List.mem_filterMap, List.mem_filter, Std.TreeMap.mem_keys, decide_eq_true_eq,
      hinv.mem_idx_iff]
    constructor
    . rintro ⟨id', ⟨_, hrange⟩, hentry⟩
      simp only [entryOf, Option.map_eq_some_iff, Prod.mk.injEq] at hentry
      rcases hentry with ⟨⟨timestamp', payload'⟩, hentry, rfl, rfl, rfl⟩
      exact ⟨hentry, hrange⟩
    . rintro ⟨hentry, hrange⟩
      refine ⟨id, ⟨?_, hrange⟩, ?_⟩
      . simp [hentry]
      . simp [entryOf, hentry]

end SegLog
end MemStream
