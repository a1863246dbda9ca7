import MemStream.Db.Lemmas.Lru.Slots

namespace MemStream
namespace Lru

variable {κ ν : Type} [DecidableEq κ]

structure Represents (lru : Lru κ ν) (cap ttl : Nat) (recency : Recency κ ν) : Prop where
  cap_eq : lru.cap = cap
  ttl_eq : lru.ttl = ttl
  rep : ∃ r, Rep lru r ∧ r.map Prod.snd = recency

theorem represents_new {cap : Nat} (hle : cap ≤ null) (hpos : 0 < cap) (ttl : Nat)
    : Represents (new cap ttl : Lru κ ν) cap ttl [] :=
  ⟨rfl, rfl, [], rep_new hle hpos ttl, rfl⟩

theorem Rep.cell_of_slot {lru : Lru κ ν} {r : List (Nat × Slot κ ν)} (h : Rep lru r)
    {p : Nat × Slot κ ν} (hp : p ∈ r)
    : ∃ e, lru.cell p.1 = some e ∧ e.value = p.2.value ∧ e.expiresAt = p.2.expiresAt :=
  exists_cell_of_data (h.held p hp)

theorem Rep.detach_eq {lru : Lru κ ν} {as bs : List (Nat × Slot κ ν)} {p : Nat × Slot κ ν}
    (h : Rep lru (as ++ p :: bs))
    : ∃ lru',
        lru.detach p.1 = some lru'
          ∧ Same lru lru'
          ∧ lru'.links.Spells null ((as ++ bs).map Prod.fst) := by
  have hspells := h.spells
  have hcell : ∀ i ∈ (as ++ p :: bs).map Prod.fst, ∃ e, lru.cell i = some e := by
    intro i hi
    exact h.cell_of_mem hi
  rw [List.map_append, List.map_cons] at hspells hcell
  rw [List.map_append]
  exact detach_spells hspells hcell

theorem Rep.emptied {lru lru' : Lru κ ν} {as bs : List (Nat × Slot κ ν)} {p : Nat × Slot κ ν}
    (h : Rep lru (as ++ p :: bs)) (hsame : Same { lru with map := lru.map.erase p.2.key } lru')
    (hspells : lru'.links.Spells null ((as ++ bs).map Prod.fst))
    : Rep { lru' with
        reverse := lru'.reverse.set p.1 none
        entries := lru'.entries.set p.1 none
        free := lru'.free ++ [p.1] } (as ++ bs) := by
  have hlt : p.1 < lru'.entries.length := by
    rw [hsame.length_eq]
    apply h.lt_length
    simp
  apply h.vacated
  . exact setCell_spells hspells h.fst_unique hlt none
  . exact hsame.map_eq
  . rw [hsame.reverse_eq]
  . rw [hsame.free_eq]
  . exact hsame.cap_eq
  . rw [List.length_set]
    exact hsame.length_eq
  . intro i
    have hdata := data_setCell_eq hlt none i
    rw [hsame.data_eq] at hdata
    exact hdata

/-
`remove`
-/

theorem Rep.remove_eq {lru : Lru κ ν} {as bs : List (Nat × Slot κ ν)} {p : Nat × Slot κ ν}
    (h : Rep lru (as ++ p :: bs))
    : ∃ lru',
        lru.remove p.2.key = some (some p.2.value, lru')
          ∧ Rep lru' (as ++ bs)
          ∧ lru'.cap = lru.cap
          ∧ lru'.ttl = lru.ttl := by
  have hkey : lru.map.lookup p.2.key = some p.1 := (h.mapped _ _).mpr ⟨p.2, by simp, rfl⟩
  have hmem : p.1 ∈ (as ++ p :: bs).map Prod.fst := by simp
  have hspells : Links.Spells null (links { lru with map := lru.map.erase p.2.key })
      (as.map Prod.fst ++ p.1 :: bs.map Prod.fst) := by
    have := h.spells
    rw [List.map_append, List.map_cons] at this
    exact this
  have hcell : ∀ i ∈ as.map Prod.fst ++ p.1 :: bs.map Prod.fst,
      ∃ e, cell { lru with map := lru.map.erase p.2.key } i = some e := by
    intro i hi
    apply h.cell_of_mem
    rw [List.map_append, List.map_cons]
    exact hi
  rcases detach_spells hspells hcell with ⟨lru1, hdetach, hsame, hspells1⟩
  rw [← List.map_append] at hspells1
  rcases h.cell_of_slot (show p ∈ as ++ p :: bs by simp) with ⟨e, he, hvalue, _⟩
  rcases hsame.cell_of_cell he with ⟨e1, he1, hvalue1, _⟩
  have hlt : p.1 < lru1.reverse.length := by
    rw [hsame.reverse_eq]
    exact Nat.lt_of_lt_of_eq (h.lt_length hmem) h.reverse_length.symm
  refine ⟨{ lru1 with
    reverse := lru1.reverse.set p.1 none
    entries := lru1.entries.set p.1 none
    free := lru1.free ++ [p.1] }, ?_, ?_, hsame.cap_eq, hsame.ttl_eq⟩
  . unfold remove
    rw [hkey]
    simp only [hdetach, put, if_pos hlt, Option.bind_eq_bind, Option.bind_some, getElem?_of_cell he1]
    rw [hvalue1, hvalue]
  . exact h.emptied hsame hspells1

theorem Represents.remove_refines {lru : Lru κ ν} {cap ttl : Nat} {recency : Recency κ ν}
    (h : Represents lru cap ttl recency) (key : κ)
    : ∃ lru',
        lru.remove key = some ((recency.remove key).1, lru')
          ∧ Represents lru' cap ttl (recency.remove key).2 := by
  rcases h with ⟨hcap, httl, r, hrep, rfl⟩
  unfold Recency.remove
  cases hkey : lru.map.lookup key with
  | none =>
    have hfresh : ∀ p ∈ r, p.2.key ≠ key := by
      intro p hp
      exact hrep.lookup_eq_none hkey hp
    refine ⟨lru, ?_, hcap, httl, r, hrep, ?_⟩
    . unfold remove
      rw [hkey, find_eq_none hfresh]
      rfl
    . rw [without_eq_self hfresh]
  | some idx =>
    rcases hrep.lookup_eq_some hkey with ⟨as, slot, bs, rfl, rfl⟩
    rcases hrep.remove_eq with ⟨lru', heq, hrep', hcap', httl'⟩
    refine ⟨lru', ?_, ?_, ?_, as ++ bs, hrep', ?_⟩
    . rw [heq, hrep.find_eq]
      rfl
    . rw [hcap', hcap]
    . rw [httl', httl]
    . rw [hrep.without_eq]

/-
`get`
-/

theorem Rep.touch {lru : Lru κ ν} {as bs : List (Nat × Slot κ ν)} {p : Nat × Slot κ ν}
    (h : Rep lru (as ++ p :: bs))
    : ∃ lru1 lru',
        lru.detach p.1 = some lru1
          ∧ lru1.attachFront p.1 = some lru'
          ∧ Rep lru' (p :: (as ++ bs))
          ∧ lru'.cap = lru.cap
          ∧ lru'.ttl = lru.ttl := by
  have hmem : p.1 ∈ (as ++ p :: bs).map Prod.fst := by simp
  rcases h.detach_eq with ⟨lru1, hdetach, hsame, hspells⟩
  have hcell : ∀ i ∈ p.1 :: (as ++ bs).map Prod.fst, ∃ e, lru1.cell i = some e := by
    intro i hi
    rw [List.mem_cons, ← mem_map_middle] at hi
    rcases h.cell_of_mem hi with ⟨e, he⟩
    rcases hsame.cell_of_cell he with ⟨e1, he1, _⟩
    exact ⟨e1, he1⟩
  rcases attachFront_spells hspells hcell h.fst_unique (h.spells.ne_null _ hmem)
    with ⟨lru', hattach, hsame', hspells'⟩
  have hboth := hsame.trans hsame'
  refine ⟨lru1, lru', hdetach, hattach, ?_, hboth.cap_eq, hboth.ttl_eq⟩
  apply h.moved rfl hspells' hboth.map_eq hboth.reverse_eq hboth.free_eq hboth.cap_eq hboth.length_eq
  intro i
  rw [hboth.data_eq]
  split
  . next heq =>
    rw [heq]
    exact h.held p (by simp)
  . rfl

theorem Represents.get_refines {lru : Lru κ ν} {cap ttl : Nat} {recency : Recency κ ν}
    (h : Represents lru cap ttl recency) (now : Nat) (key : κ)
    : ∃ lru',
        lru.get now key = some ((recency.get now key).1, lru')
          ∧ Represents lru' cap ttl (recency.get now key).2 := by
  rcases h with ⟨hcap, httl, r, hrep, rfl⟩
  unfold Recency.get
  cases hkey : lru.map.lookup key with
  | none =>
    refine ⟨lru, ?_, hcap, httl, r, hrep, ?_⟩
    . unfold get
      rw [hkey, find_eq_none fun p hp => hrep.lookup_eq_none hkey hp]
    . rw [find_eq_none fun p hp => hrep.lookup_eq_none hkey hp]
  | some idx =>
    rcases hrep.lookup_eq_some hkey with ⟨as, slot, bs, rfl, rfl⟩
    have hslot : (idx, slot) ∈ as ++ (idx, slot) :: bs := by simp
    rcases hrep.cell_of_slot hslot with ⟨e, he, _, hexpires⟩
    unfold get
    rw [hkey]
    simp only [getElem?_of_cell he, hexpires, hrep.find_eq]
    split
    . rcases hrep.remove_eq with ⟨lru', heq, hrep', hcap', httl'⟩
      refine ⟨lru', ?_, ?_, ?_, as ++ bs, hrep', ?_⟩
      . rw [heq]
        rfl
      . rw [hcap', hcap]
      . rw [httl', httl]
      . rw [hrep.without_eq]
    . rcases hrep.touch with ⟨lru1, lru', hdetach, hattach, hrep', hcap', httl'⟩
      rcases hrep'.cell_of_slot (show (idx, slot) ∈ (idx, slot) :: (as ++ bs) by simp)
        with ⟨e', he', hvalue', _⟩
      refine ⟨lru', ?_, ?_, ?_, (idx, slot) :: (as ++ bs), hrep', ?_⟩
      . simp only [hdetach, hattach, Option.bind_eq_bind, Option.bind_some, getElem?_of_cell he',
          Option.map_some, hvalue']
      . rw [hcap', hcap]
      . rw [httl', httl]
      . rw [hrep.without_eq]
        rfl

/-
`insert`
-/

theorem Rep.replace {lru : Lru κ ν} {as bs : List (Nat × Slot κ ν)} {p : Nat × Slot κ ν}
    (h : Rep lru (as ++ p :: bs)) (now : Nat) (value : ν)
    : ∃ lru',
        lru.insert now p.2.key value = some lru'
          ∧ Rep lru' ((p.1, ⟨p.2.key, value, now + lru.ttl⟩) :: (as ++ bs))
          ∧ lru'.cap = lru.cap
          ∧ lru'.ttl = lru.ttl := by
  have hkey : lru.map.lookup p.2.key = some p.1 := (h.mapped _ _).mpr ⟨p.2, by simp, rfl⟩
  have hmem : p.1 ∈ (as ++ p :: bs).map Prod.fst := by simp
  rcases h.detach_eq with ⟨lru1, hdetach, hsame, hspells⟩
  rcases h.cell_of_mem hmem with ⟨e, he⟩
  rcases hsame.cell_of_cell he with ⟨e1, he1, _⟩
  have hlt := lt_of_cell he1
  have hspells2 := setCell_spells hspells h.fst_unique hlt
    (some ⟨value, now + lru.ttl, null, null⟩)
  have hcell : ∀ i ∈ p.1 :: (as ++ bs).map Prod.fst,
      ∃ e, (lru1.setCell p.1 (some ⟨value, now + lru.ttl, null, null⟩)).cell i = some e := by
    intro i hi
    rw [cell_setCell hlt]
    split
    . exact ⟨_, rfl⟩
    . rw [List.mem_cons, ← mem_map_middle] at hi
      rcases h.cell_of_mem hi with ⟨e, he⟩
      rcases hsame.cell_of_cell he with ⟨e1, he1, _⟩
      exact ⟨e1, he1⟩
  rcases attachFront_spells hspells2 hcell h.fst_unique (h.spells.ne_null _ hmem)
    with ⟨lru', hattach, hsame', hspells'⟩
  refine ⟨lru', ?_, ?_, ?_, ?_⟩
  . unfold insert
    rw [hkey]
    simp only [hdetach, Option.bind_eq_bind, Option.bind_some, modify_eq he1]
    exact hattach
  . apply h.moved
    . rfl
    . exact hspells'
    . rw [hsame'.map_eq]
      exact hsame.map_eq
    . rw [hsame'.reverse_eq]
      exact hsame.reverse_eq
    . rw [hsame'.free_eq]
      exact hsame.free_eq
    . rw [hsame'.cap_eq]
      exact hsame.cap_eq
    . rw [hsame'.length_eq]
      simp only [setCell, List.length_set]
      exact hsame.length_eq
    . intro i
      rw [hsame'.data_eq, data_setCell_eq hlt, hsame.data_eq]
      rfl
  . rw [hsame'.cap_eq]
    exact hsame.cap_eq
  . rw [hsame'.ttl_eq]
    exact hsame.ttl_eq

theorem Rep.evict_eq {lru : Lru κ ν} {r : List (Nat × Slot κ ν)} {p : Nat × Slot κ ν}
    (h : Rep lru (r ++ [p]))
    : ∃ lru',
        lru.evict = some lru' ∧ Rep lru' r ∧ lru'.cap = lru.cap ∧ lru'.ttl = lru.ttl := by
  have hmem : p.1 ∈ (r ++ [p]).map Prod.fst := by simp
  have htail : lru.tail = p.1 := by
    have htail : lru.tail = ((r ++ [p]).map Prod.fst).getLastD null := h.spells.tail_eq
    rw [htail, List.map_append, List.map_singleton, List.getLastD_concat]
  rcases h.detach_eq with ⟨lru1, hdetach, hsame, hspells⟩
  have hlt : p.1 < lru1.entries.length := by
    rw [hsame.length_eq]
    exact h.lt_length hmem
  have hlt' : p.1 < lru1.reverse.length := by
    rw [hsame.reverse_eq]
    exact Nat.lt_of_lt_of_eq (h.lt_length hmem) h.reverse_length.symm
  have hreverse : lru1.reverse[p.1]? = some (some p.2.key) := by
    rw [hsame.reverse_eq, ← Option.join_eq_some_iff]
    exact h.named p (by simp)
  have herased : Same { lru with map := lru.map.erase p.2.key }
      { lru1 with map := lru1.map.erase p.2.key } :=
    { hsame with map_eq := by rw [hsame.map_eq] }
  have hrep := h.emptied herased hspells
  rw [List.append_nil] at hrep
  refine ⟨_, ?_, hrep, hsame.cap_eq, hsame.ttl_eq⟩
  unfold evict
  rw [htail, if_pos (h.spells.ne_null _ hmem)]
  simp only [hdetach, put, if_pos hlt, if_pos hlt', Option.bind_eq_bind, Option.bind_some, hreverse]
  rfl

-- `idx` is the slot that `alloc_slot` takes
structure Allocated (lru lru' : Lru κ ν) (idx : Nat) (key : κ) (e : Entry ν) : Prop where
  map_eq : lru'.map = lru.map
  ttl_eq : lru'.ttl = lru.ttl
  cap_eq : lru'.cap = lru.cap
  head_eq : lru'.head = lru.head
  tail_eq : lru'.tail = lru.tail
  cell_eq : ∀ i, lru'.cell i = if i = idx then some e else lru.cell i
  reverse_eq : ∀ i, lru'.reverse[i]?.join = if i = idx then some key else lru.reverse[i]?.join
  reverse_length : lru'.reverse.length = lru'.entries.length
  length_iff : ∀ i, i < lru'.entries.length ↔ i < lru.entries.length ∨ i = idx
  length_le : lru'.entries.length ≤ lru'.cap
  free_nodup : lru'.free.Nodup
  free_iff : ∀ i, i ∈ lru'.free ↔ i ∈ lru.free ∧ i ≠ idx

omit [DecidableEq κ] in
theorem Allocated.spells {lru lru' : Lru κ ν} {idx : Nat} {key : κ} {e : Entry ν}
    (h : Allocated lru lru' idx key e) {order : List Nat} (hspells : lru.links.Spells null order)
    (hfresh : idx ∉ order)
    : lru'.links.Spells null order := by
  have hold {i : Nat} (hi : i ∈ order) : lru'.cell i = lru.cell i := by
    rw [h.cell_eq, if_neg]
    intro heq
    rw [heq] at hi
    exact hfresh hi
  apply hspells.congr
  . intro i hi
    show ((lru'.cell i).map (·.prev)).getD null = ((lru.cell i).map (·.prev)).getD null
    rw [hold hi]
  . intro i hi
    show ((lru'.cell i).map (·.next)).getD null = ((lru.cell i).map (·.next)).getD null
    rw [hold hi]
  . exact h.head_eq
  . exact h.tail_eq

theorem join_getElem?_set {α : Type} {vec : List (Option α)} {idx : Nat} (h : idx < vec.length)
    (a : α) (i : Nat)
    : (vec.set idx (some a))[i]?.join = if i = idx then some a else vec[i]?.join := by
  rw [List.getElem?_set]
  split
  . next heq => rw [if_pos heq.symm, Option.join_some]
  . next hne => rw [if_neg fun heq => hne heq.symm]

theorem join_getElem?_concat {α : Type} (vec : List (Option α)) (a : α) (i : Nat)
    : (vec ++ [some a])[i]?.join = if i = vec.length then some a else vec[i]?.join := by
  rw [List.getElem?_append]
  split
  . next hlt => rw [if_neg (by omega)]
  . next hge =>
    by_cases heq : i = vec.length
    . simp [heq]
    . rw [if_neg heq, List.getElem?_eq_none (by simp; omega), List.getElem?_eq_none (by omega)]

theorem Rep.allocSlot_free {lru : Lru κ ν} {r : List (Nat × Slot κ ν)} (h : Rep lru r)
    {free : List Nat} {idx : Nat} (hfree : lru.free = free ++ [idx]) (key : κ) (e : Entry ν)
    : ∃ lru',
        lru.allocSlot key e = some (idx, lru')
          ∧ idx ∉ r.map Prod.fst
          ∧ Allocated lru lru' idx key e := by
  have hmem : idx ∈ lru.free := by simp [hfree]
  rw [h.free_iff] at hmem
  have hlt : idx < lru.reverse.length := by
    rw [h.reverse_length]
    exact hmem.1
  have hnodup := h.free_nodup
  rw [hfree, List.nodup_append'] at hnodup
  refine ⟨{ lru with
    free := free
    entries := lru.entries.set idx (some e)
    reverse := lru.reverse.set idx (some key) }, ?_, hmem.2, ?_⟩
  . unfold allocSlot
    rw [hfree, List.getLast?_concat, List.dropLast_concat]
    simp only [put, if_pos hmem.1, if_pos hlt, Option.bind_eq_bind, Option.bind_some]
    rfl
  . constructor
    case map_eq => rfl
    case ttl_eq => rfl
    case cap_eq => rfl
    case head_eq => rfl
    case tail_eq => rfl
    case cell_eq =>
      intro i
      exact cell_setCell hmem.1 (some e) i
    case reverse_eq =>
      intro i
      exact join_getElem?_set hlt key i
    case reverse_length =>
      simp only [List.length_set]
      exact h.reverse_length
    case length_iff =>
      intro i
      simp only [List.length_set]
      constructor
      . intro hi
        exact .inl hi
      . rintro (hi | rfl)
        . exact hi
        . exact hmem.1
    case length_le =>
      simp only [List.length_set]
      exact h.length_le
    case free_nodup => exact hnodup.1
    case free_iff =>
      intro i
      rw [hfree, List.mem_append, List.mem_singleton]
      constructor
      . intro hi
        refine ⟨.inl hi, fun heq => ?_⟩
        exact hnodup.2.2 hi (by simp [heq])
      . rintro ⟨hi | heq, hne⟩
        . exact hi
        . exact absurd heq hne

theorem Rep.length_le_of_no_free {lru : Lru κ ν} {r : List (Nat × Slot κ ν)} (h : Rep lru r)
    (hfree : lru.free = [])
    : lru.entries.length ≤ r.length := by
  have hsub : List.range lru.entries.length ⊆ r.map Prod.fst := by
    intro i hi
    rw [List.mem_range] at hi
    have hnot : i ∉ lru.free := by simp [hfree]
    rw [h.free_iff, not_and, not_not] at hnot
    exact hnot hi
  have hle := (List.subperm_of_subset List.nodup_range hsub).length_le
  rw [List.length_range, List.length_map] at hle
  exact hle

theorem Rep.allocSlot_push {lru : Lru κ ν} {r : List (Nat × Slot κ ν)} (h : Rep lru r)
    (hfree : lru.free = []) (hroom : r.length < lru.cap) (key : κ) (e : Entry ν)
    : ∃ lru',
        lru.allocSlot key e = some (lru.entries.length, lru')
          ∧ lru.entries.length ∉ r.map Prod.fst
          ∧ Allocated lru lru' lru.entries.length key e := by
  have hle := h.length_le_of_no_free hfree
  refine ⟨{ lru with
    entries := lru.entries ++ [some e], reverse := lru.reverse ++ [some key] }, ?_, ?_, ?_⟩
  . unfold allocSlot
    rw [hfree]
    rfl
  . intro hmem
    have := h.lt_length hmem
    omega
  . constructor
    case map_eq => rfl
    case ttl_eq => rfl
    case cap_eq => rfl
    case head_eq => rfl
    case tail_eq => rfl
    case cell_eq =>
      intro i
      exact join_getElem?_concat lru.entries e i
    case reverse_eq =>
      intro i
      rw [← h.reverse_length]
      exact join_getElem?_concat lru.reverse key i
    case reverse_length => simp [h.reverse_length]
    case length_iff =>
      intro i
      simp only [List.length_append, List.length_singleton]
      omega
    case length_le =>
      simp only [List.length_append, List.length_singleton]
      omega
    case free_nodup => simp [hfree]
    case free_iff => simp [hfree]

theorem Rep.allocSlot_eq {lru : Lru κ ν} {r : List (Nat × Slot κ ν)} (h : Rep lru r)
    (hroom : r.length < lru.cap) (key : κ) (e : Entry ν)
    : ∃ idx lru',
        lru.allocSlot key e = some (idx, lru')
          ∧ idx ∉ r.map Prod.fst
          ∧ Allocated lru lru' idx key e := by
  rcases List.eq_nil_or_concat lru.free with hfree | ⟨free, idx, hfree⟩
  . exact ⟨_, h.allocSlot_push hfree hroom key e⟩
  . rw [List.concat_eq_append] at hfree
    exact ⟨idx, h.allocSlot_free hfree key e⟩

theorem Rep.add_eq {lru : Lru κ ν} {r : List (Nat × Slot κ ν)} (h : Rep lru r)
    (hroom : r.length < lru.cap) {key : κ} (hkey : lru.map.lookup key = none) (value : ν)
    (expiresAt : Nat)
    : ∃ idx lru1 lru',
        lru.allocSlot key ⟨value, expiresAt, null, null⟩ = some (idx, lru1)
          ∧ attachFront { lru1 with map := lru1.map.insert key idx } idx = some lru'
          ∧ Rep lru' ((idx, ⟨key, value, expiresAt⟩) :: r)
          ∧ lru'.cap = lru.cap
          ∧ lru'.ttl = lru.ttl := by
  rcases h.allocSlot_eq hroom key ⟨value, expiresAt, null, null⟩ with ⟨idx, lru1, halloc, hfresh, h1⟩
  have hspells : Links.Spells null (links { lru1 with map := lru1.map.insert key idx })
      (r.map Prod.fst) := h1.spells h.spells hfresh
  have hcell : ∀ i ∈ idx :: r.map Prod.fst,
      ∃ e, cell { lru1 with map := lru1.map.insert key idx } i = some e := by
    intro i hi
    show ∃ e, lru1.cell i = some e
    rw [h1.cell_eq]
    split
    . exact ⟨_, rfl⟩
    . next hne =>
      rw [List.mem_cons, or_iff_right hne] at hi
      exact h.cell_of_mem hi
  have hnull : idx ≠ null := by
    have hlt := (h1.length_iff idx).mpr (.inr rfl)
    have hle := h1.length_le
    have hcap := h.cap_le
    rw [h1.cap_eq] at hle
    omega
  rcases attachFront_spells hspells hcell hfresh hnull with ⟨lru', hattach, hsame, hspells'⟩
  refine ⟨idx, lru1, lru', halloc, hattach, ?_, ?_, ?_⟩
  . apply h.added hkey hfresh hspells'
    . rw [hsame.map_eq, h1.map_eq]
    . intro i
      rw [hsame.reverse_eq]
      exact h1.reverse_eq i
    . intro i
      rw [hsame.data_eq]
      show (lru1.cell i).map _ = _
      rw [h1.cell_eq]
      split
      . rfl
      . rfl
    . rw [hsame.reverse_eq, hsame.length_eq]
      exact h1.reverse_length
    . intro i
      rw [hsame.length_eq]
      exact h1.length_iff i
    . rw [hsame.free_eq]
      exact h1.free_nodup
    . intro i
      rw [hsame.free_eq]
      exact h1.free_iff i
    . rw [hsame.length_eq, hsame.cap_eq]
      exact h1.length_le
    . rw [hsame.cap_eq]
      exact h1.cap_eq
  . rw [hsame.cap_eq]
    exact h1.cap_eq
  . rw [hsame.ttl_eq]
    exact h1.ttl_eq

theorem Rep.length_le_cap {lru : Lru κ ν} {r : List (Nat × Slot κ ν)} (h : Rep lru r)
    : r.length ≤ lru.cap := by
  have hsub : r.map Prod.fst ⊆ List.range lru.entries.length := by
    intro i hi
    rw [List.mem_range]
    exact h.lt_length hi
  have hle := (List.subperm_of_subset h.spells.nodup hsub).length_le
  rw [List.length_range, List.length_map] at hle
  exact Nat.le_trans hle h.length_le

theorem Represents.insert_refines {lru : Lru κ ν} {cap ttl : Nat} {recency : Recency κ ν}
    (h : Represents lru cap ttl recency) (now : Nat) (key : κ) (value : ν)
    : ∃ lru',
        lru.insert now key value = some lru'
          ∧ Represents lru' cap ttl (recency.insert cap ttl now key value) := by
  rcases h with ⟨rfl, rfl, r, hrep, rfl⟩
  unfold Recency.insert
  cases hkey : lru.map.lookup key with
  | some idx =>
    rcases hrep.lookup_eq_some hkey with ⟨as, slot, bs, rfl, rfl⟩
    rcases hrep.replace now value with ⟨lru', heq, hrep', hcap', httl'⟩
    refine ⟨lru', heq, hcap', httl', _, hrep', ?_⟩
    rw [hrep.find_eq, hrep.without_eq]
    rfl
  | none =>
    have hfind : Recency.find (r.map Prod.snd) key = none :=
      find_eq_none fun p hp => hrep.lookup_eq_none hkey hp
    unfold insert
    rw [hkey, hfind]
    simp only [hrep.map_length, List.length_map]
    by_cases hfull : r.length = lru.cap
    . rcases List.eq_nil_or_concat r with hnil | ⟨r', p, hr⟩
      . have hpos := hrep.cap_pos
        rw [← hfull, hnil] at hpos
        exact absurd hpos (by simp)
      . rw [List.concat_eq_append] at hr
        rw [hr] at hrep hfull
        rcases hrep.evict_eq with ⟨lru1, hevict, hrep1, hcap1, httl1⟩
        have hroom : r'.length < lru1.cap := by
          rw [hcap1, ← hfull]
          simp
        have hkey1 : lru1.map.lookup key = none := by
          cases hlookup : lru1.map.lookup key with
          | none => rfl
          | some idx =>
            rcases (hrep1.mapped key idx).mp hlookup with ⟨slot, hslot, hslotKey⟩
            exact absurd hslotKey
              (hrep.lookup_eq_none hkey (show (idx, slot) ∈ r' ++ [p] by simp [hslot]))
        rcases hrep1.add_eq hroom hkey1 value (now + lru.ttl)
          with ⟨idx, lru2, lru', halloc, hattach, hrep', hcap', httl'⟩
        refine ⟨lru', ?_, ?_, ?_, _, hrep', ?_⟩
        . rw [hr, if_pos hfull]
          simp only [hevict, Option.bind_eq_bind, Option.bind_some, halloc]
          exact hattach
        . rw [hcap', hcap1]
        . rw [httl', httl1]
        . rw [hr, if_pos hfull, List.map_append, List.map_singleton, List.dropLast_concat,
            List.map_cons]
    . have hroom : r.length < lru.cap := by
        have := hrep.length_le_cap
        omega
      rcases hrep.add_eq hroom hkey value (now + lru.ttl)
        with ⟨idx, lru2, lru', halloc, hattach, hrep', hcap', httl'⟩
      refine ⟨lru', ?_, hcap', httl', _, hrep', ?_⟩
      . rw [if_neg hfull]
        simp only [Option.bind_eq_bind, Option.bind_some, halloc]
        exact hattach
      . rw [if_neg hfull, List.map_cons]

end Lru
end MemStream
