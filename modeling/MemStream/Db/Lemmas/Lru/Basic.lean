import MemStream.Lib.Links
import MemStream.Db.Impl.Lru

namespace MemStream
namespace Lru

variable {κ ν : Type}

def cell (lru : Lru κ ν) (idx : Nat) : Option (Entry ν) :=
  lru.entries[idx]?.join

def data (lru : Lru κ ν) (idx : Nat) : Option (ν × Nat) :=
  (lru.cell idx).map fun e => (e.value, e.expiresAt)

def links (lru : Lru κ ν) : Links where
  prev := fun idx => ((lru.cell idx).map (·.prev)).getD null
  next := fun idx => ((lru.cell idx).map (·.next)).getD null
  head := lru.head
  tail := lru.tail

def setCell (lru : Lru κ ν) (idx : Nat) (e : Option (Entry ν)) : Lru κ ν :=
  { lru with entries := lru.entries.set idx e }

theorem lt_of_cell {lru : Lru κ ν} {idx : Nat} {e : Entry ν} (h : lru.cell idx = some e)
    : idx < lru.entries.length := by
  unfold cell at h
  rw [Option.join_eq_some_iff] at h
  exact (List.getElem?_eq_some_iff.mp h).1

theorem cell_setCell {lru : Lru κ ν} {idx : Nat} (h : idx < lru.entries.length)
    (e : Option (Entry ν)) (idx' : Nat)
    : (lru.setCell idx e).cell idx' = if idx' = idx then e else lru.cell idx' := by
  unfold cell setCell
  split
  . next heq =>
    rw [heq]
    simp [h]
  . next hne =>
    rw [List.getElem?_set_ne (fun heq => hne heq.symm)]

theorem data_setCell {lru : Lru κ ν} {idx : Nat} {e : Entry ν} (h : lru.cell idx = some e)
    {e' : Entry ν} (hvalue : e'.value = e.value) (hexpires : e'.expiresAt = e.expiresAt)
    : (lru.setCell idx (some e')).data = lru.data := by
  funext idx'
  unfold data
  rw [cell_setCell (lt_of_cell h)]
  split
  . next heq =>
    rw [heq, h]
    simp [hvalue, hexpires]
  . rfl

theorem links_setCell {lru : Lru κ ν} {idx : Nat} (h : idx < lru.entries.length) (e : Entry ν)
    : (lru.setCell idx (some e)).links
        =
      { lru.links with
        prev := Function.update lru.links.prev idx e.prev
        next := Function.update lru.links.next idx e.next } := by
  unfold links
  simp only [Links.mk.injEq]
  refine ⟨?_, ?_, rfl, rfl⟩
  . funext idx'
    rw [cell_setCell h, Function.update_apply]
    split
    . rfl
    . rfl
  . funext idx'
    rw [cell_setCell h, Function.update_apply]
    split
    . rfl
    . rfl

theorem links_prev_eq {lru : Lru κ ν} {idx : Nat} {e : Entry ν} (h : lru.cell idx = some e)
    : lru.links.prev idx = e.prev := by
  simp [links, h]

theorem links_next_eq {lru : Lru κ ν} {idx : Nat} {e : Entry ν} (h : lru.cell idx = some e)
    : lru.links.next idx = e.next := by
  simp [links, h]

theorem modify_eq {lru : Lru κ ν} {idx : Nat} {e : Entry ν} (h : lru.cell idx = some e)
    (f : Entry ν → Entry ν)
    : modify lru.entries idx f = some (lru.setCell idx (some (f e))).entries := by
  unfold cell at h
  rw [Option.join_eq_some_iff] at h
  unfold modify
  rw [h]
  rfl

structure Same (lru lru' : Lru κ ν) : Prop where
  map_eq : lru'.map = lru.map
  reverse_eq : lru'.reverse = lru.reverse
  free_eq : lru'.free = lru.free
  ttl_eq : lru'.ttl = lru.ttl
  cap_eq : lru'.cap = lru.cap
  length_eq : lru'.entries.length = lru.entries.length
  data_eq : lru'.data = lru.data

theorem Same.trans {lru lru' lru'' : Lru κ ν} (h : Same lru lru') (h' : Same lru' lru'')
    : Same lru lru'' where
  map_eq := by rw [h'.map_eq, h.map_eq]
  reverse_eq := by rw [h'.reverse_eq, h.reverse_eq]
  free_eq := by rw [h'.free_eq, h.free_eq]
  ttl_eq := by rw [h'.ttl_eq, h.ttl_eq]
  cap_eq := by rw [h'.cap_eq, h.cap_eq]
  length_eq := by rw [h'.length_eq, h.length_eq]
  data_eq := by rw [h'.data_eq, h.data_eq]

theorem Same.cell_of_cell {lru lru' : Lru κ ν} (h : Same lru lru') {idx : Nat} {e : Entry ν}
    (hcell : lru.cell idx = some e)
    : ∃ e', lru'.cell idx = some e' ∧ e'.value = e.value ∧ e'.expiresAt = e.expiresAt := by
  have hdata := congrFun h.data_eq idx
  unfold data at hdata
  rw [hcell] at hdata
  simp only [Option.map_some, Option.map_eq_some_iff, Prod.mk.injEq] at hdata
  exact hdata

theorem same_head (lru : Lru κ ν) (head : Nat) : Same lru { lru with head := head } :=
  ⟨rfl, rfl, rfl, rfl, rfl, rfl, rfl⟩

theorem same_tail (lru : Lru κ ν) (tail : Nat) : Same lru { lru with tail := tail } :=
  ⟨rfl, rfl, rfl, rfl, rfl, rfl, rfl⟩

theorem same_setCell {lru : Lru κ ν} {idx : Nat} {e : Entry ν} (h : lru.cell idx = some e)
    {e' : Entry ν} (hvalue : e'.value = e.value) (hexpires : e'.expiresAt = e.expiresAt)
    : Same lru (lru.setCell idx (some e')) where
  map_eq := rfl
  reverse_eq := rfl
  free_eq := rfl
  ttl_eq := rfl
  cap_eq := rfl
  length_eq := by simp [setCell]
  data_eq := data_setCell h hvalue hexpires

theorem modify_next {lru : Lru κ ν} {idx : Nat} {e : Entry ν} (h : lru.cell idx = some e)
    (next : Nat)
    : ∃ lru',
        (modify lru.entries idx ({ · with next := next })).map ({ lru with entries := · })
            = some lru'
          ∧ Same lru lru'
          ∧ lru'.links = { lru.links with next := Function.update lru.links.next idx next } := by
  refine ⟨lru.setCell idx (some { e with next := next }), ?_, same_setCell h rfl rfl, ?_⟩
  . rw [modify_eq h]
    rfl
  . rw [links_setCell (lt_of_cell h), ← links_prev_eq h, Function.update_eq_self]

theorem modify_prev {lru : Lru κ ν} {idx : Nat} {e : Entry ν} (h : lru.cell idx = some e)
    (prev : Nat)
    : ∃ lru',
        (modify lru.entries idx ({ · with prev := prev })).map ({ lru with entries := · })
            = some lru'
          ∧ Same lru lru'
          ∧ lru'.links = { lru.links with prev := Function.update lru.links.prev idx prev } := by
  refine ⟨lru.setCell idx (some { e with prev := prev }), ?_, same_setCell h rfl rfl, ?_⟩
  . rw [modify_eq h]
    rfl
  . rw [links_setCell (lt_of_cell h), ← links_next_eq h, Function.update_eq_self]

theorem detach_eq {lru : Lru κ ν} {idx : Nat} (hidx : ∃ e, lru.cell idx = some e)
    (hprev : lru.links.prev idx ≠ null → ∃ e, lru.cell (lru.links.prev idx) = some e)
    (hnext : lru.links.next idx ≠ null → ∃ e, lru.cell (lru.links.next idx) = some e)
    : ∃ lru',
        lru.detach idx = some lru' ∧ Same lru lru' ∧ lru'.links = lru.links.unlink null idx := by
  rcases hidx with ⟨e, he⟩
  rw [links_prev_eq he] at hprev
  rw [links_next_eq he] at hnext
  have hbefore : ∃ lru',
      lru.setNext e.prev e.next = some lru'
        ∧ Same lru lru'
        ∧ lru'.links = { lru.links with
            next := (lru.links.unlink null idx).next
            head := (lru.links.unlink null idx).head } := by
    unfold setNext
    simp only [Links.unlink, links_prev_eq he, links_next_eq he]
    by_cases hnull : e.prev ≠ null
    . rcases hprev hnull with ⟨e', he'⟩
      rcases modify_next he' e.next with ⟨lru', hmod, hsame, hlinks⟩
      simp only [if_pos hnull]
      exact ⟨lru', hmod, hsame, hlinks⟩
    . simp only [if_neg hnull]
      exact ⟨_, rfl, same_head lru e.next, rfl⟩
  rcases hbefore with ⟨lru', heq, hsame, hlinks⟩
  have hbehind : ∃ lru'',
      lru'.setPrev e.prev e.next = some lru''
        ∧ Same lru' lru''
        ∧ lru''.links = { lru'.links with
            prev := (lru.links.unlink null idx).prev
            tail := (lru.links.unlink null idx).tail } := by
    unfold setPrev
    simp only [Links.unlink, links_prev_eq he, links_next_eq he]
    by_cases hnull : e.next ≠ null
    . rcases hnext hnull with ⟨e', he'⟩
      rcases hsame.cell_of_cell he' with ⟨e'', he'', _⟩
      rcases modify_prev he'' e.prev with ⟨lru'', hmod, hsame', hlinks'⟩
      simp only [if_pos hnull]
      refine ⟨lru'', hmod, hsame', ?_⟩
      rw [hlinks', hlinks]
    . simp only [if_neg hnull]
      refine ⟨_, rfl, same_tail lru' e.prev, ?_⟩
      show { lru'.links with tail := e.prev } = _
      rw [hlinks]
  rcases hbehind with ⟨lru'', heq', hsame', hlinks'⟩
  refine ⟨lru'', ?_, hsame.trans hsame', ?_⟩
  . unfold cell at he
    unfold detach
    rw [he]
    simp only [Option.bind_eq_bind, Option.bind_some]
    rw [heq]
    exact heq'
  . rw [hlinks', hlinks]

theorem attachFront_eq {lru : Lru κ ν} {idx : Nat} (hidx : ∃ e, lru.cell idx = some e)
    (hhead : lru.head ≠ null → ∃ e, lru.cell lru.head = some e)
    : ∃ lru',
        lru.attachFront idx = some lru'
          ∧ Same lru lru'
          ∧ lru'.links = lru.links.linkFront null idx := by
  rcases hidx with ⟨e, he⟩
  have hsame : Same lru (lru.setCell idx (some { e with prev := null, next := lru.head })) :=
    same_setCell he rfl rfl
  have hlinks := links_setCell (lt_of_cell he) { e with prev := null, next := lru.head }
  unfold attachFront
  rw [modify_eq he]
  simp only [Option.bind_eq_bind, Option.bind_some]
  by_cases hnull : lru.head ≠ null
  . rcases hhead hnull with ⟨e', he'⟩
    rcases hsame.cell_of_cell he' with ⟨e'', he'', _⟩
    rcases modify_prev he'' idx with ⟨lru'', hmod, hsame', hlinks'⟩
    rw [Option.map_eq_some_iff] at hmod
    rcases hmod with ⟨entries, hentries, hlru''⟩
    rw [if_pos hnull, hentries]
    refine ⟨{ lru'' with head := idx }, ?_, hsame.trans (hsame'.trans (same_head lru'' idx)), ?_⟩
    . rw [← hlru'']
      rfl
    . show { lru''.links with head := idx } = _
      rw [hlinks', hlinks]
      have hnull' : lru.links.head ≠ null := hnull
      unfold Links.linkFront
      rw [if_pos hnull', if_pos hnull']
      rfl
  . rw [if_neg hnull]
    refine ⟨_, rfl, hsame.trans ((same_tail _ idx).trans (same_head _ idx)), ?_⟩
    show { (lru.setCell idx (some { e with prev := null, next := lru.head })).links with
      tail := idx, head := idx } = _
    have hnull' : ¬ lru.links.head ≠ null := hnull
    rw [hlinks]
    unfold Links.linkFront
    rw [if_neg hnull', if_neg hnull']
    rfl

theorem exists_cell_of_data {lru : Lru κ ν} {idx : Nat} {d : ν × Nat} (h : lru.data idx = some d)
    : ∃ e, lru.cell idx = some e ∧ e.value = d.1 ∧ e.expiresAt = d.2 := by
  unfold data at h
  rw [Option.map_eq_some_iff] at h
  rcases h with ⟨e, he, rfl⟩
  exact ⟨e, he, rfl, rfl⟩

theorem setCell_spells {lru : Lru κ ν} {order : List Nat} (h : lru.links.Spells null order)
    {idx : Nat} (hidx : idx ∉ order) (hlt : idx < lru.entries.length) (e : Option (Entry ν))
    : (lru.setCell idx e).links.Spells null order := by
  have hcell {i : Nat} (hi : i ∈ order) : (lru.setCell idx e).cell i = lru.cell i := by
    rw [cell_setCell hlt, if_neg]
    intro heq
    rw [heq] at hi
    exact hidx hi
  apply h.congr
  . intro i hi
    simp only [links]
    rw [hcell hi]
  . intro i hi
    simp only [links]
    rw [hcell hi]
  . rfl
  . rfl

theorem data_setCell_eq {lru : Lru κ ν} {idx : Nat} (hlt : idx < lru.entries.length)
    (e : Option (Entry ν)) (i : Nat)
    : (lru.setCell idx e).data i
        =
      if i = idx then e.map (fun e => (e.value, e.expiresAt)) else lru.data i := by
  unfold data
  rw [cell_setCell hlt]
  split
  . rfl
  . rfl

theorem getElem?_of_cell {lru : Lru κ ν} {idx : Nat} {e : Entry ν} (h : lru.cell idx = some e)
    : lru.entries[idx]? = some (some e) := by
  unfold cell at h
  exact Option.join_eq_some_iff.mp h

theorem detach_spells {lru : Lru κ ν} {as bs : List Nat} {idx : Nat}
    (hspells : lru.links.Spells null (as ++ idx :: bs))
    (hcell : ∀ i ∈ as ++ idx :: bs, ∃ e, lru.cell i = some e)
    : ∃ lru',
        lru.detach idx = some lru' ∧ Same lru lru' ∧ lru'.links.Spells null (as ++ bs) := by
  have hprev : lru.links.prev idx ≠ null → ∃ e, lru.cell (lru.links.prev idx) = some e := by
    intro hnull
    rw [ne_eq, hspells.prev_eq_null_iff] at hnull
    apply hcell
    rw [hspells.prev_eq, List.mem_append]
    left
    cases as using List.reverseRecOn with
    | nil => exact absurd rfl hnull
    | append_singleton as a => simp
  have hnext : lru.links.next idx ≠ null → ∃ e, lru.cell (lru.links.next idx) = some e := by
    intro hnull
    rw [ne_eq, hspells.next_eq_null_iff] at hnull
    apply hcell
    rw [hspells.next_eq]
    cases bs with
    | nil => exact absurd rfl hnull
    | cons b bs => simp
  rcases detach_eq (hcell idx (by simp)) hprev hnext with ⟨lru', hdetach, hsame, hlinks⟩
  refine ⟨lru', hdetach, hsame, ?_⟩
  rw [hlinks]
  exact hspells.unlink

theorem attachFront_spells {lru : Lru κ ν} {order : List Nat} {idx : Nat}
    (hspells : lru.links.Spells null order) (hcell : ∀ i ∈ idx :: order, ∃ e, lru.cell i = some e)
    (hfresh : idx ∉ order) (hnull : idx ≠ null)
    : ∃ lru',
        lru.attachFront idx = some lru'
          ∧ Same lru lru'
          ∧ lru'.links.Spells null (idx :: order) := by
  have hhead : lru.head ≠ null → ∃ e, lru.cell lru.head = some e := by
    intro hne
    have heq : lru.head = order.headD null := hspells.head_eq
    rw [heq] at hne ⊢
    cases order with
    | nil => exact absurd rfl hne
    | cons i order => exact hcell i (by simp)
  rcases attachFront_eq (hcell idx (by simp)) hhead with ⟨lru', hattach, hsame, hlinks⟩
  refine ⟨lru', hattach, hsame, ?_⟩
  rw [hlinks]
  exact hspells.linkFront hfresh hnull

end Lru
end MemStream
