import MemStream.Server.Impl.Ha
import Mathlib.Data.List.Induction
import Mathlib.Data.List.Perm.Subperm

namespace MemStream
namespace HaManager

variable {ε : Type} (ha : HaManager ε) (recv : Recv ε) (sync : Nat → Except String Unit)

def buffered : List ε :=
  match recv with
  | .entry e => ha.uncommittedEvents ++ [e]
  | _ => ha.uncommittedEvents

def Flushes : Prop :=
  match recv with
  | .entry _ => ha.eventBufferSize.getD 100 ≤ ha.uncommittedEvents.length + 1
  | _ => False

variable {ha recv sync}

theorem of_mem_syncAll {events : List ε} {i : Nat} {followers : List String}
    {x : Nat × String × List ε} (h : x ∈ (syncAll sync events i followers).2)
    : i ≤ x.1 ∧ sync x.1 = .ok () := by
  induction followers generalizing i with
  | nil => simp [syncAll] at h
  | cons follower followers ih =>
    unfold syncAll at h
    cases hsync : sync i with
    | error e => simp [hsync] at h
    | ok val =>
      simp only [hsync, List.mem_cons] at h
      rcases h with rfl | hmem
      . exact ⟨Nat.le_refl _, hsync⟩
      . have hrest := ih hmem
        exact ⟨by omega, hrest.2⟩

theorem syncAll_isOk (sync : Nat → Except String Unit) (events : List ε) (i : Nat) (followers : List String)
    : (syncAll sync events i followers).1.isOk = true
        ↔
      ∀ j < followers.length, sync (i + j) = .ok () := by
  induction followers generalizing i with
  | nil => simp [syncAll, Outcome.isOk]
  | cons follower followers ih =>
    unfold syncAll
    cases hsync : sync i with
    | error e =>
      simp only [Outcome.isOk, Bool.false_eq_true, false_iff]
      intro h
      have hfirst := h 0 (by simp)
      rw [Nat.add_zero, hsync] at hfirst
      contradiction
    | ok val =>
      dsimp only
      rw [ih]
      constructor
      . intro h j hj
        cases j with
        | zero => exact hsync
        | succ j =>
          rw [List.length_cons] at hj
          rw [Nat.add_succ, ← Nat.succ_add]
          apply h
          omega
      . intro h j hj
        rw [Nat.succ_add, ← Nat.add_succ]
        apply h
        rw [List.length_cons]
        omega

theorem mem_syncAll_of_isOk {events : List ε} {i : Nat} {followers : List String}
    (h : (syncAll sync events i followers).1.isOk = true) {j : Nat} {follower : String}
    (hj : followers[j]? = some follower)
    : (i + j, follower, events) ∈ (syncAll sync events i followers).2 := by
  induction followers generalizing i j with
  | nil => simp at hj
  | cons f followers ih =>
    unfold syncAll at h ⊢
    cases hsync : sync i with
    | error e => simp [hsync, Outcome.isOk] at h
    | ok val =>
      simp only [hsync] at h ⊢
      cases j with
      | zero =>
        rw [List.getElem?_cons_zero, Option.some.injEq] at hj
        simp [hj]
      | succ j =>
        have hrest := ih h hj
        rw [Nat.succ_add, ← Nat.add_succ] at hrest
        exact List.mem_cons_of_mem _ hrest

theorem start_of_flushes {e : ε} (h : ha.Flushes (.entry e)) (sync : Nat → Except String Unit)
    : ha.start (.entry e) sync
        =
      ((syncAll sync (ha.uncommittedEvents ++ [e]) 0 ha.followers).1,
        { ha with uncommittedEvents := [] },
        (syncAll sync (ha.uncommittedEvents ++ [e]) 0 ha.followers).2) := by
  have hfull : (ha.uncommittedEvents ++ [e]).length ≥ ha.eventBufferSize.getD 100 := by
    simpa [Flushes] using h
  simp only [start, push, if_pos hfull]

theorem start_of_not_flushes (h : ¬ha.Flushes recv) (sync : Nat → Except String Unit)
    : (ha.start recv sync).2 = ({ ha with uncommittedEvents := ha.buffered recv }, []) := by
  cases recv with
  | entry e =>
    have hroom : ¬(ha.uncommittedEvents ++ [e]).length ≥ ha.eventBufferSize.getD 100 := by
      simpa [Flushes] using h
    simp only [start, push, if_neg hroom, buffered]
  | disconnected => rfl
  | closed => rfl

theorem followers_start (ha : HaManager ε) (recv : Recv ε) (sync : Nat → Except String Unit)
    : (ha.start recv sync).2.1.followers = ha.followers := by
  by_cases hflushes : ha.Flushes recv
  . cases recv with
    | entry e => rw [start_of_flushes hflushes]
    | disconnected => rfl
    | closed => rfl
  . rw [start_of_not_flushes hflushes]

def sentTo (sent : List (Nat × String × List ε)) (i : Nat) : List ε :=
  (sent.filter fun x => x.1 = i).flatMap fun x => x.2.2

theorem sentTo_append (sent sent' : List (Nat × String × List ε)) (i : Nat)
    : sentTo (sent ++ sent') i = sentTo sent i ++ sentTo sent' i := by
  unfold sentTo
  rw [List.filter_append, List.flatMap_append]

theorem sentTo_cons (x : Nat × String × List ε) (sent : List (Nat × String × List ε)) (i : Nat)
    : sentTo (x :: sent) i = if x.1 = i then x.2.2 ++ sentTo sent i else sentTo sent i := by
  unfold sentTo
  rw [List.filter_cons]
  split
  . next h => rw [if_pos (by simpa using h), List.flatMap_cons]
  . next h => rw [if_neg (by simpa using h)]

theorem sentTo_eq_nil {sent : List (Nat × String × List ε)} {i : Nat} (h : ∀ x ∈ sent, x.1 ≠ i)
    : sentTo sent i = [] := by
  unfold sentTo
  rw [List.filter_eq_nil_iff.mpr (by simpa using h), List.flatMap_nil]

theorem sentTo_syncAll (sync : Nat → Except String Unit) (events : List ε) (i : Nat)
    (followers : List String) (j : Nat)
    : sentTo (syncAll sync events i followers).2 j = []
        ∨ sentTo (syncAll sync events i followers).2 j = events := by
  induction followers generalizing i with
  | nil => exact .inl rfl
  | cons follower followers ih =>
    unfold syncAll
    cases hsync : sync i with
    | error e => exact .inl rfl
    | ok val =>
      dsimp only
      rw [sentTo_cons]
      split
      . next heq =>
        have hrest : sentTo (syncAll sync events (i + 1) followers).2 j = [] := by
          apply sentTo_eq_nil
          intro x hmem
          have hle := (of_mem_syncAll hmem).1
          dsimp only at heq
          omega
        rw [hrest, List.append_nil]
        exact .inr rfl
      . apply ih

theorem sentTo_syncAll_of_isOk {events : List ε} {i : Nat} {followers : List String}
    (h : (syncAll sync events i followers).1.isOk = true) {j : Nat} (hj : j < followers.length)
    : sentTo (syncAll sync events i followers).2 (i + j) = events := by
  rcases sentTo_syncAll sync events i followers (i + j) with hnil | hevents
  . have hmem := mem_syncAll_of_isOk h (List.getElem?_eq_getElem hj)
    have hempty : events = [] := by
      have hflat := List.flatMap_eq_nil_iff.mp hnil (i + j, followers[j], events)
      apply hflat
      rw [List.mem_filter]
      exact ⟨hmem, by simp⟩
    rw [hnil, hempty]
  . exact hevents

end HaManager

structure StartCall (ε : Type) where
  recv : Recv ε
  sync : Nat → Except String Unit

structure HaHistory (ε : Type) where
  ha : HaManager ε
  events : List ε
  sent : List (Nat × String × List ε)

namespace HaHistory

open HaManager

variable {ε : Type}

def new (ha : HaManager ε) : HaHistory ε where
  ha := ha
  events := ha.uncommittedEvents
  sent := []

def call (h : HaHistory ε) (c : StartCall ε) : HaHistory ε where
  ha := (h.ha.start c.recv c.sync).2.1
  events :=
    match c.recv with
    | .entry e => h.events ++ [e]
    | _ => h.events
  sent := h.sent ++ (h.ha.start c.recv c.sync).2.2

def run (h : HaHistory ε) (calls : List (StartCall ε)) : HaHistory ε :=
  calls.foldl call h

/--
The followers that can be reached get the events of a flush. After an error each event has been sent to
a follower or is kept, as often as it has been taken.
-/
structure Served (h : HaHistory ε) (c : StartCall ε) : Prop where
  sent : h.ha.Flushes c.recv → ∀ i follower, h.ha.followers[i]? = some follower → c.sync i = .ok () →
    (i, follower, h.ha.buffered c.recv) ∈ (h.ha.start c.recv c.sync).2.2
  held : (h.ha.start c.recv c.sync).1.isOk = false → ∀ i < h.ha.followers.length,
    (h.call c).events.Subperm (sentTo (h.call c).sent i ++ (h.call c).ha.uncommittedEvents)

/-- The call does not flush, or no follower fails. -/
def Reaches (h : HaHistory ε) (c : StartCall ε) : Prop :=
  ¬h.ha.Flushes c.recv ∨ ∀ i < h.ha.followers.length, c.sync i = .ok ()

theorem run_concat (h : HaHistory ε) (calls : List (StartCall ε)) (c : StartCall ε)
    : h.run (calls ++ [c]) = (h.run calls).call c := by
  unfold run
  rw [List.foldl_append]
  rfl

variable {h : HaHistory ε} {c : StartCall ε}

theorem call_of_not_flushes (hflushes : ¬h.ha.Flushes c.recv) (i : Nat)
    : sentTo (h.call c).sent i = sentTo h.sent i
        ∧ ∃ received, (h.call c).events = h.events ++ received
            ∧ (h.call c).ha.uncommittedEvents = h.ha.uncommittedEvents ++ received := by
  unfold call
  rw [start_of_not_flushes hflushes]
  constructor
  . dsimp only
    rw [List.append_nil]
  . unfold buffered
    cases c.recv with
    | entry e => exact ⟨[e], rfl, rfl⟩
    | disconnected => exact ⟨[], by simp, by simp⟩
    | closed => exact ⟨[], by simp, by simp⟩

theorem call_of_flushes (hflushes : h.ha.Flushes c.recv)
    : ∃ e, c.recv = .entry e
        ∧ (h.call c).events = h.events ++ [e]
        ∧ (h.call c).ha.uncommittedEvents = []
        ∧ (h.call c).sent
            = h.sent ++ (syncAll c.sync (h.ha.uncommittedEvents ++ [e]) 0 h.ha.followers).2 := by
  rcases c with ⟨recv, sync⟩
  cases recv with
  | entry e =>
    refine ⟨e, rfl, rfl, ?_, ?_⟩
    . unfold call
      rw [start_of_flushes hflushes]
    . unfold call
      rw [start_of_flushes hflushes]
  | disconnected => exact absurd hflushes id
  | closed => exact absurd hflushes id

theorem followers_run (h : HaHistory ε) (calls : List (StartCall ε))
    : (h.run calls).ha.followers = h.ha.followers := by
  induction calls using List.reverseRecOn with
  | nil => rfl
  | append_singleton calls c ih =>
    rw [run_concat, ← ih]
    apply followers_start

theorem length_sentTo_le (ha : HaManager ε) (calls : List (StartCall ε)) (i : Nat)
    : (sentTo ((new ha).run calls).sent i).length + ((new ha).run calls).ha.uncommittedEvents.length
        ≤
      ((new ha).run calls).events.length := by
  induction calls using List.reverseRecOn with
  | nil => exact Nat.le_of_eq (Nat.zero_add _)
  | append_singleton calls c ih =>
    rw [run_concat]
    by_cases hflushes : ((new ha).run calls).ha.Flushes c.recv
    . rcases call_of_flushes hflushes with ⟨e, _, hevents, hbuffer, hsent⟩
      rw [hevents, hbuffer, hsent, sentTo_append]
      have hflush := sentTo_syncAll c.sync (((new ha).run calls).ha.uncommittedEvents ++ [e]) 0
        ((new ha).run calls).ha.followers i
      rcases hflush with hflush | hflush
      . rw [hflush]
        simp only [List.length_append, List.length_nil]
        omega
      . rw [hflush]
        simp only [List.length_append, List.length_nil]
        omega
    . rcases call_of_not_flushes hflushes i with ⟨hsent, received, hevents, hbuffer⟩
      rw [hevents, hbuffer, hsent]
      simp only [List.length_append]
      omega

theorem isOk_of_reaches (hreaches : h.Reaches c) (hflushes : h.ha.Flushes c.recv)
    : (h.ha.start c.recv c.sync).1.isOk = true := by
  rcases hreaches with hnot | hsync
  . contradiction
  . rcases call_of_flushes hflushes with ⟨e, he, _⟩
    rw [he] at hflushes ⊢
    rw [start_of_flushes hflushes, syncAll_isOk]
    simpa using hsync

theorem sentTo_run {ha : HaManager ε} {calls : List (StartCall ε)}
    (hreaches : ∀ front c, front ++ [c] <+: calls → ((new ha).run front).Reaches c) {i : Nat}
    (hi : i < ha.followers.length)
    : sentTo ((new ha).run calls).sent i ++ ((new ha).run calls).ha.uncommittedEvents
        =
      ((new ha).run calls).events := by
  induction calls using List.reverseRecOn with
  | nil => rfl
  | append_singleton calls c ih =>
    have hpre := List.prefix_append calls [c]
    have hbefore := ih (fun front c' hfront => hreaches front c' (hfront.trans hpre))
    rw [run_concat]
    by_cases hflushes : ((new ha).run calls).ha.Flushes c.recv
    . have hisOk := isOk_of_reaches (hreaches calls c (List.prefix_refl _)) hflushes
      rcases call_of_flushes hflushes with ⟨e, he, hevents, hbuffer, hsent⟩
      rw [he] at hflushes hisOk
      rw [start_of_flushes hflushes] at hisOk
      have hall := sentTo_syncAll_of_isOk hisOk (show i < _ by rw [followers_run]; exact hi)
      rw [Nat.zero_add] at hall
      rw [hevents, hbuffer, hsent, sentTo_append, hall, ← hbefore]
      simp
    . rcases call_of_not_flushes hflushes i with ⟨hsent, received, hevents, hbuffer⟩
      rw [hevents, hbuffer, hsent, ← hbefore, List.append_assoc]

-- The event that filled the buffer is gone and the follower that failed has not got it.
theorem not_served_of_flushes {ha : HaManager ε} {calls : List (StartCall ε)}
    (hflushes : ((new ha).run calls).ha.Flushes c.recv) {i : Nat} (hi : i < ha.followers.length)
    (hsync : c.sync i ≠ .ok ())
    : ¬((new ha).run calls).Served c := by
  intro hserved
  have hi : i < ((new ha).run calls).ha.followers.length := by
    rw [followers_run]
    exact hi
  rcases call_of_flushes hflushes with ⟨e, he, hevents, hbuffer, hsent⟩
  have hnotOk : (((new ha).run calls).ha.start c.recv c.sync).1.isOk = false := by
    rw [he] at hflushes ⊢
    rw [start_of_flushes hflushes, ← Bool.not_eq_true, syncAll_isOk]
    intro hall
    have hok := hall i hi
    rw [Nat.zero_add] at hok
    contradiction
  have hmissed : sentTo (syncAll c.sync (((new ha).run calls).ha.uncommittedEvents ++ [e]) 0
      ((new ha).run calls).ha.followers).2 i = [] := by
    apply sentTo_eq_nil
    rintro x hmem rfl
    exact hsync (of_mem_syncAll hmem).2
  have hlength := (hserved.held hnotOk i hi).length_le
  have hbefore := length_sentTo_le ha calls i
  rw [hevents, hbuffer, hsent, sentTo_append, hmissed] at hlength
  simp only [List.length_append, List.length_nil, List.length_singleton] at hlength
  omega

theorem served_iff_reaches (ha : HaManager ε) (calls : List (StartCall ε))
    : (∀ front c, front ++ [c] <+: calls → ((new ha).run front).Served c)
        ↔
      ∀ front c, front ++ [c] <+: calls → ((new ha).run front).Reaches c := by
  constructor
  . intro h front c hpre
    by_cases hflushes : ((new ha).run front).ha.Flushes c.recv
    . right
      intro i hi
      rw [followers_run] at hi
      by_cases hsync : c.sync i = .ok ()
      . exact hsync
      . exact absurd (h front c hpre) (not_served_of_flushes hflushes hi hsync)
    . exact .inl hflushes
  . intro h front c hpre
    have hreaches := h front c hpre
    refine ⟨?_, ?_⟩
    . intro hflushes i follower hget _
      have hisOk := isOk_of_reaches hreaches hflushes
      rcases call_of_flushes hflushes with ⟨e, he, _⟩
      rw [he] at hflushes hisOk ⊢
      rw [start_of_flushes hflushes] at hisOk ⊢
      have hmem := mem_syncAll_of_isOk hisOk hget
      rw [Nat.zero_add] at hmem
      exact hmem
    . intro hnotOk i hi
      rw [followers_run] at hi
      have hrun : ∀ front' c', front' ++ [c'] <+: front ++ [c] → ((new ha).run front').Reaches c' :=
        fun front' c' hpre' => h front' c' (hpre'.trans hpre)
      have hall := sentTo_run hrun hi
      rw [run_concat] at hall
      rw [hall]

-- The buffer is full with the first event, and the first of two followers does not answer.
theorem not_served_if_first_fails
    : let ha : HaManager AofEntry := ⟨some 1, ["a", "b"], []⟩
      let sync (i : Nat) : Except String Unit := if i = 0 then .error "connection refused" else .ok ()
      (ha.start (.entry (.listFlush "k")) sync).1 = .err "connection refused"
        ∧ (ha.start (.entry (.listFlush "k")) sync).2.1.uncommittedEvents = []
        ∧ (ha.start (.entry (.listFlush "k")) sync).2.2 = []
        ∧ ¬((new ha).run []).Served ⟨.entry (.listFlush "k"), sync⟩ := by
  intro ha sync
  refine ⟨rfl, rfl, rfl, ?_⟩
  intro h
  have hsent := h.sent (show 1 ≤ 1 by decide) 1 "b" rfl rfl
  contradiction

end HaHistory
end MemStream
