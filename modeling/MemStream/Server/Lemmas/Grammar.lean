import MemStream.Lib.Fallible
import MemStream.Server.Lemmas.Reads

namespace MemStream
namespace Cursor

open Fallible Layout

variable {α β : Type}

def Takes (reader : Reader α) (Q : α → List UInt8 → Prop) : Prop :=
  ∀ front bytes : List UInt8,
    reader ⟨front ++ bytes, front.length⟩ ≠ .panic
      ∧ ∀ val cur, reader ⟨front ++ bytes, front.length⟩ = .ok (val, cur) →
        ∃ taken rest, bytes = taken ++ rest
          ∧ cur = ⟨front ++ bytes, front.length + taken.length⟩
          ∧ Q val taken

theorem takes_pure {Q : α → List UInt8 → Prop} {val : α} (h : Q val []) : Takes (pure val) Q := by
  intro front bytes
  constructor
  . intro hpanic
    cases hpanic
  . intro val' cur hok
    cases hok
    exact ⟨[], bytes, rfl, rfl, h⟩

theorem takes_throw {Q : α → List UInt8 → Prop} (e : ParseError) : Takes (throw e) Q := by
  intro front bytes
  constructor
  . intro hpanic
    cases hpanic
  . intro val cur hok
    cases hok

theorem Takes.bind {f : Reader α} {g : α → Reader β} {P : α → List UInt8 → Prop}
    {Q : β → List UInt8 → Prop} (hf : Takes f P)
    (hg : ∀ val taken, P val taken → Takes (g val) fun res more => Q res (taken ++ more))
    : Takes (f >>= g) Q := by
  intro front bytes
  have hfirst := hf front bytes
  -- what the second reader finds, when the first has taken its part
  have hsecond : ∀ val cur, f ⟨front ++ bytes, front.length⟩ = .ok (val, cur) →
      ∃ taken rest, bytes = taken ++ rest
        ∧ cur = ⟨front ++ taken ++ rest, (front ++ taken).length⟩
        ∧ P val taken := by
    intro val cur hok
    rcases hfirst.2 val cur hok with ⟨taken, rest, hbytes, hcur, hp⟩
    refine ⟨taken, rest, hbytes, ?_, hp⟩
    rw [hcur, hbytes, List.append_assoc, List.length_append]
  constructor
  . apply bind_ne_panic hfirst.1
    intro val cur hok
    rcases hsecond val cur hok with ⟨taken, rest, _, hcur, hp⟩
    rw [hcur]
    exact (hg val taken hp (front ++ taken) rest).1
  . intro res cur hok
    rcases bind_eq_ok hok with ⟨val, mid, hmid, hres⟩
    rcases hsecond val mid hmid with ⟨taken, rest, hbytes, hcur, hp⟩
    rw [hcur] at hres
    rcases (hg val taken hp (front ++ taken) rest).2 res cur hres with ⟨more, rest', hrest, hcur', hq⟩
    refine ⟨taken ++ more, rest', ?_, ?_, hq⟩
    . rw [hbytes, hrest, List.append_assoc]
    . rw [hcur', hbytes]
      simp [Nat.add_assoc]

theorem Takes.map {f : Reader α} {g : α → β} {P : α → List UInt8 → Prop} {Q : β → List UInt8 → Prop}
    (hf : Takes f P) (hg : ∀ val taken, P val taken → Q (g val) taken)
    : Takes (f >>= fun val => pure (g val)) Q := by
  apply hf.bind
  intro val taken hp
  apply takes_pure
  rw [List.append_nil]
  exact hg val taken hp

theorem takes_read (n : Nat) (eof : String)
    : Takes (read n eof) fun val taken => val = taken ∧ taken.length = n := by
  intro front bytes
  rw [read_eq (by simp)]
  split
  . constructor
    . simp
    . intro val cur hok
      cases hok
  . next hleft =>
    simp only [List.length_append] at hleft
    constructor
    . simp
    . intro val cur hok
      cases hok
      have hlength : (bytes.take n).length = n := by
        rw [List.length_take]
        omega
      refine ⟨bytes.take n, bytes.drop n, (List.take_append_drop n bytes).symm, ?_, ?_, hlength⟩
      . rw [hlength]
      . rw [List.drop_left]

theorem takes_width {w : Nat} {eof : String} {ofNat : Nat → α} {toNat : α → Nat}
    (h : ∀ n, n < 256 ^ w → toNat (ofNat n) = n)
    : Takes (read w eof >>= fun bytes => pure (ofNat (LittleEndian.decode bytes)))
        fun x taken => taken = LittleEndian.encode w (toNat x) := by
  apply (takes_read w eof).map
  rintro val taken ⟨rfl, hlength⟩
  have hlt := LittleEndian.decode_lt val
  have hbytes := LittleEndian.encode_decode val
  rw [hlength] at hlt hbytes
  rw [h _ hlt, hbytes]

theorem takes_readU16Le : Takes readU16Le fun x taken => taken = LittleEndian.encode 2 x.toNat := by
  apply takes_width
  intro n hn
  apply UInt16.toNat_ofNat_of_lt' hn

theorem takes_readU32Le : Takes readU32Le fun x taken => taken = u32 x := by
  apply takes_width
  intro n hn
  apply UInt32.toNat_ofNat_of_lt' hn

theorem takes_readU64Le : Takes readU64Le fun x taken => taken = u64 x := by
  apply takes_width
  intro n hn
  apply UInt64.toNat_ofNat_of_lt' hn

theorem takes_readStr : Takes readStr fun s taken => StrFits s ∧ taken = str s := by
  apply takes_readU16Le.bind
  rintro len _ rfl
  apply (takes_read _ _).bind
  rintro bytes _ ⟨rfl, hlength⟩
  split
  . next s hs =>
    apply takes_pure
    have hutf8 := Utf8.toUTF8_of_fromUTF8? hs
    have hlt := len.toNat_lt
    unfold StrFits str
    rw [hutf8, hlength, List.append_nil]
    exact ⟨hlt, rfl⟩
  . apply takes_throw

theorem takes_readBytes : Takes readBytes fun val taken => Layout.Fits val ∧ taken = bytes val := by
  apply takes_readU32Le.bind
  rintro len _ rfl
  intro front rest
  refine ⟨(takes_read len.toNat _ front rest).1, ?_⟩
  intro val cur hok
  rcases (takes_read len.toNat _ front rest).2 val cur hok with ⟨taken, more, hrest, hcur, rfl, hlength⟩
  have hlt := len.toNat_lt
  refine ⟨val, more, hrest, hcur, ?_, ?_⟩
  . unfold Layout.Fits
    omega
  . rw [bytes, hlength, u32]

theorem takes_readMany {item : Reader α} {fits : α → Prop} {encode : α → List UInt8}
    (h : Takes item fun val taken => fits val ∧ taken = encode val) (count : Nat)
    : Takes (readMany item count) fun vals taken =>
        vals.length = count ∧ (∀ val ∈ vals, fits val) ∧ taken = vals.flatMap encode := by
  induction count with
  | zero =>
    apply takes_pure
    simp
  | succ count ih =>
    apply h.bind
    rintro val _ ⟨hval, rfl⟩
    apply ih.bind
    rintro vals _ ⟨hlength, hvals, rfl⟩
    apply takes_pure
    simp only [List.length_cons, hlength, List.forall_mem_cons, List.flatMap_cons, List.append_nil,
      true_and, and_true]
    exact ⟨hval, hvals⟩

theorem takes_counted {item : Reader α} {fits : α → Prop} {encode : α → List UInt8} {f : List α → β}
    {Q : β → List UInt8 → Prop} (h : Takes item fun val taken => fits val ∧ taken = encode val)
    (size : Nat)
    (hf : ∀ vals, Layout.Fits vals → (∀ val ∈ vals, fits val) → Q (f vals) (many encode vals))
    : Takes (do
        let count ← readU32Le
        reserve ample size count.toNat
        let vals ← readMany item count.toNat
        pure (f vals)) Q := by
  apply takes_readU32Le.bind
  rintro count _ rfl
  rw [reserve_ample, pure_bind]
  apply (takes_readMany h count.toNat).bind
  rintro vals _ ⟨hlength, hvals, rfl⟩
  apply takes_pure
  have hlt := count.toNat_lt
  have := hf vals (by unfold Layout.Fits; omega) hvals
  rw [many, hlength] at this
  rw [List.append_nil]
  exact this

end Cursor

open Cursor Layout

theorem takes_readEntry : Takes readEntry fun e taken => Layout.Fits e.2 ∧ taken = entry e := by
  apply takes_readU64Le.bind
  rintro ts _ rfl
  apply takes_readBytes.map
  rintro payload _ ⟨hpayload, rfl⟩
  exact ⟨hpayload, rfl⟩

theorem takes_str {β : Type} {g : String → Reader β} {Q : β → List UInt8 → Prop}
    (h : ∀ s, StrFits s → Takes (g s) fun res more => Q res (str s ++ more))
    : Takes (readStr >>= g) Q := by
  apply takes_readStr.bind
  rintro s _ ⟨hs, rfl⟩
  exact h s hs

theorem takes_fields (tag : UInt8)
    : Takes (parseFields ample tag) fun cmd taken =>
        cmd.tag = tag ∧ ∃ listDb, cmd.Fits listDb ∧ taken = cmd.fields listDb := by
  unfold parseFields
  split
  case h_1 | h_2 | h_9 | h_13 | h_14 | h_22 =>
    apply takes_readStr.map
    rintro name _ ⟨hname, rfl⟩
    exact ⟨rfl, "", hname, rfl⟩
  case h_3 =>
    apply takes_str
    intro group hgroup
    apply takes_readU64Le.bind
    rintro timestamp _ rfl
    apply takes_readBytes.map
    rintro payload _ ⟨hpayload, rfl⟩
    exact ⟨rfl, "", ⟨hgroup, hpayload⟩, rfl⟩
  case h_4 =>
    apply takes_str
    intro group hgroup
    apply takes_counted takes_readEntry
    intro entries hlength hentries
    exact ⟨rfl, "", ⟨hgroup, hlength, hentries⟩, rfl⟩
  case h_5 | h_7 =>
    apply takes_str
    intro group hgroup
    apply takes_readU64Le.map
    rintro id _ rfl
    exact ⟨rfl, "", hgroup, rfl⟩
  case h_6 =>
    apply takes_str
    intro group hgroup
    apply takes_readU64Le.bind
    rintro start _ rfl
    apply takes_readU64Le.map
    rintro stop _ rfl
    exact ⟨rfl, "", hgroup, rfl⟩
  case h_8 | h_23 =>
    apply takes_pure
    exact ⟨rfl, "", trivial, rfl⟩
  case h_10 =>
    apply takes_str
    intro db hdb
    apply takes_str
    intro key hkey
    apply takes_readU64Le.bind
    rintro ttlSecs _ rfl
    apply takes_readBytes.map
    rintro val _ ⟨hval, rfl⟩
    exact ⟨rfl, "", ⟨hdb, hkey, hval⟩, rfl⟩
  case h_11 | h_12 =>
    apply takes_str
    intro db hdb
    apply takes_readStr.map
    rintro key _ ⟨hkey, rfl⟩
    exact ⟨rfl, "", ⟨hdb, hkey⟩, rfl⟩
  case h_15 =>
    apply takes_str
    intro db hdb
    apply takes_str
    intro key hkey
    apply takes_readBytes.map
    rintro val _ ⟨hval, rfl⟩
    exact ⟨rfl, db, ⟨hdb, hkey, hval⟩, rfl⟩
  case h_16 =>
    apply takes_str
    intro db hdb
    apply takes_str
    intro key hkey
    apply takes_counted takes_readBytes
    intro vals hlength hvals
    exact ⟨rfl, db, ⟨hdb, hkey, hlength, hvals⟩, rfl⟩
  case h_17 | h_20 | h_21 =>
    apply takes_str
    intro db hdb
    apply takes_readStr.map
    rintro key _ ⟨hkey, rfl⟩
    exact ⟨rfl, db, ⟨hdb, hkey⟩, rfl⟩
  case h_18 =>
    apply takes_str
    intro db hdb
    apply takes_str
    intro key hkey
    apply takes_readU32Le.bind
    rintro start _ rfl
    apply takes_readU32Le.map
    rintro stop _ rfl
    exact ⟨rfl, db, ⟨hdb, hkey⟩, rfl⟩
  case h_19 =>
    apply takes_str
    intro db hdb
    apply takes_str
    intro key hkey
    apply takes_readU32Le.map
    rintro count _ rfl
    exact ⟨rfl, db, ⟨hdb, hkey⟩, rfl⟩
  case h_24 =>
    apply takes_counted takes_readBytes
    intro vals hlength hvals
    exact ⟨rfl, "", ⟨hlength, hvals⟩, rfl⟩
  case h_25 => apply takes_throw

theorem encodes_of_ok {frame : List UInt8} {cmd : Command} (h : parseCommand ample frame = .ok cmd)
    : ∃ bytes, bytes <+: frame ∧ Encodes cmd bytes := by
  cases frame with
  | nil => cases h
  | cons tag rest =>
    rw [parseCommand_cons, run'_eq_ok] at h
    rcases h with ⟨cur, hfields⟩
    rcases (takes_fields tag [tag] rest).2 cmd cur hfields with
      ⟨taken, more, rfl, _, htag, listDb, hfits, htaken⟩
    refine ⟨tag :: taken, ?_, listDb, hfits, ?_⟩
    . exact ⟨more, rfl⟩
    . rw [htag, htaken]

theorem parseCommand_tag {tag : UInt8} {rest : List UInt8} {cmd : Command}
    (h : parseCommand ample (tag :: rest) = .ok cmd)
    : cmd.tag = tag := by
  rcases encodes_of_ok h with ⟨bytes, hpre, listDb, _, rfl⟩
  exact (List.cons_prefix_cons.mp hpre).1

theorem parseCommand_ne_panic (frame : List UInt8) : parseCommand ample frame ≠ .panic := by
  cases frame with
  | nil =>
    intro h
    cases h
  | cons tag rest =>
    rw [parseCommand_cons]
    exact run'_ne_panic (takes_fields tag [tag] rest).1

theorem parse_of_encodes {bytes : List UInt8} {cmd : Command} (h : Encodes cmd bytes)
    (rest : List UInt8)
    : parseCommand ample (bytes ++ rest) = .ok cmd
        ∧ (readU8 >>= parseFields ample) (Cursor.new (bytes ++ rest))
            = .ok (cmd, ⟨bytes ++ rest, bytes.length⟩) := by
  rcases h with ⟨listDb, hfits, rfl⟩
  exact parse_of_reads (reads_fields hfits) rest

theorem encodes_unique {frame bytes bytes' : List UInt8} {cmd cmd' : Command}
    (hpre : bytes <+: frame) (hpre' : bytes' <+: frame)
    (h : Encodes cmd bytes) (h' : Encodes cmd' bytes')
    : bytes = bytes' ∧ cmd = cmd' := by
  rcases hpre with ⟨rest, hrest⟩
  rcases hpre' with ⟨rest', hrest'⟩
  have hparse := (parse_of_encodes h rest).2
  have hparse' := (parse_of_encodes h' rest').2
  rw [hrest] at hparse
  rw [hrest', hparse] at hparse'
  simp only [Outcome.ok.injEq, Prod.mk.injEq, Cursor.mk.injEq, true_and] at hparse'
  constructor
  . apply (List.append_inj (hrest.trans hrest'.symm) hparse'.2).1
  . exact hparse'.1

/-
Reservations.
-/

namespace Cursor

variable {α β : Type} {alloc : Nat → Bool}

def Stops (reader : Reader α) (bytes : List UInt8) : Prop :=
  ∀ front rest : List UInt8, reader ⟨front ++ (bytes ++ rest), front.length⟩ = .panic

theorem stops_reserve {size count : Nat} (hcount : count ≠ 0) (h : alloc (size * count) = false)
    : Stops (reserve alloc size count) [] := by
  intro front rest
  unfold reserve
  rw [if_neg]
  simp [hcount, h]

theorem Stops.bind {f : Reader α} {bytes : List UInt8} (h : Stops f bytes) (g : α → Reader β)
    : Stops (f >>= g) bytes := by
  intro front rest
  simp only [Bind.bind, StateT.bind, Outcome.bind, h front rest]

theorem Reads.stops {f : Reader α} {g : α → Reader β} {bytes bytes' : List UInt8} {a : α}
    (hf : Reads f bytes a) (hg : Stops (g a) bytes')
    : Stops (f >>= g) (bytes ++ bytes') := by
  intro front rest
  have hfirst := hf front (bytes' ++ rest)
  have hsecond := hg (front ++ bytes) rest
  rw [List.append_assoc, List.length_append] at hsecond
  simp only [Bind.bind, StateT.bind, Outcome.bind, List.append_assoc, hfirst, hsecond]

theorem stops_counted (item : Reader α) (f : List α → β) {size : Nat} {count : UInt32} (hcount : count ≠ 0)
    (h : alloc (size * count.toNat) = false)
    : Stops (do
        let count ← readU32Le
        reserve alloc size count.toNat
        let vals ← readMany item count.toNat
        pure (f vals)) (u32 count) := by
  rw [← List.append_nil (u32 count)]
  apply (reads_u32 count).stops
  apply (stops_reserve _ h).bind
  intro hzero
  exact hcount (UInt32.toNat_inj.mp hzero)

theorem Takes.bind_congr {f : Reader α} {P : α → List UInt8 → Prop} (hf : Takes f P) {g g' : α → Reader β}
    (front : List UInt8) {bytes : List UInt8}
    (h : ∀ val taken rest, bytes = taken ++ rest → P val taken →
      g val ⟨front ++ taken ++ rest, (front ++ taken).length⟩
        = g' val ⟨front ++ taken ++ rest, (front ++ taken).length⟩)
    : (f >>= g) ⟨front ++ bytes, front.length⟩ = (f >>= g') ⟨front ++ bytes, front.length⟩ := by
  have hok := (hf front bytes).2
  simp only [Bind.bind, StateT.bind]
  cases hres : f ⟨front ++ bytes, front.length⟩ with
  | ok res =>
    rcases res with ⟨val, cur⟩
    rcases hok val cur hres with ⟨taken, rest, rfl, rfl, hp⟩
    have hrest := h val taken rest rfl hp
    rw [List.append_assoc, List.length_append] at hrest
    exact hrest
  | err e => rfl
  | panic => rfl

theorem counted_congr (front : List UInt8) (item : Reader α) (f : List α → β) {size : Nat}
    {bytes : List UInt8}
    (h : ∀ count, u32 count <+: bytes → count ≠ 0 → alloc (size * count.toNat) = true)
    : (do
        let count ← readU32Le
        reserve alloc size count.toNat
        let vals ← readMany item count.toNat
        pure (f vals) : Reader β) ⟨front ++ bytes, front.length⟩
        =
      (do
        let count ← readU32Le
        reserve ample size count.toNat
        let vals ← readMany item count.toNat
        pure (f vals) : Reader β) ⟨front ++ bytes, front.length⟩ := by
  apply takes_readU32Le.bind_congr
  rintro count _ rest rfl rfl
  have hreserve : reserve alloc size count.toNat = reserve ample size count.toNat := by
    funext cur
    unfold reserve
    by_cases hcount : count = 0
    . rw [if_pos (.inl (by simp [hcount])), if_pos (.inl (by simp [hcount]))]
    . rw [if_pos (.inr (h count (List.prefix_append _ _) hcount)), if_pos (.inr rfl)]
  rw [hreserve]

end Cursor

theorem parseCommand_eq_panic {alloc : Nat → Bool} {frame : List UInt8} {bytes : Nat}
    (h : Reserves frame bytes) (hrefused : alloc bytes = false)
    : parseCommand alloc frame = .panic := by
  rcases h with ⟨head, size, count, hhead, ⟨rest, rfl⟩, hcount, rfl⟩
  cases hhead with
  | @addRange group hgroup =>
    have hstops : Stops (parseFields alloc cmdAddRange) (str group ++ u32 count) :=
      (reads_readStr hgroup).stops (stops_counted readEntry _ hcount hrefused)
    rw [List.cons_append, List.cons_append, parseCommand_cons]
    exact run'_eq_panic (hstops [cmdAddRange] rest)
  | @lPushRange db key hdb hkey =>
    have hstops : Stops (parseFields alloc lpushRange) (str db ++ (str key ++ u32 count)) :=
      (reads_readStr hdb).stops ((reads_readStr hkey).stops (stops_counted readBytes _ hcount hrefused))
    rw [← List.append_assoc] at hstops
    rw [List.cons_append, List.cons_append, parseCommand_cons]
    exact run'_eq_panic (hstops [lpushRange] rest)
  | haSync =>
    have hstops : Stops (parseFields alloc haSync) (u32 count) := stops_counted readBytes _ hcount hrefused
    rw [List.cons_append, List.cons_append, parseCommand_cons]
    exact run'_eq_panic (hstops [haSync] rest)

theorem parseFields_congr {alloc : Nat → Bool} {tag : UInt8} {rest : List UInt8}
    (h : ∀ bytes, Reserves (tag :: rest) bytes → alloc bytes = true)
    : parseFields alloc tag ⟨tag :: rest, 1⟩ = parseFields ample tag ⟨tag :: rest, 1⟩ := by
  have hlist (count : UInt32) {head more : List UInt8} {size : Nat} (hhead : Counted (tag :: head) size)
      (hrest : rest = head ++ more) (hpre : u32 count <+: more) (hcount : count ≠ 0)
      : alloc (size * count.toNat) = true := by
    apply h
    refine ⟨_, _, count, hhead, ?_, hcount, rfl⟩
    rw [hrest, List.cons_append, List.cons_prefix_cons]
    exact ⟨rfl, (List.prefix_append_right_inj head).mpr hpre⟩
  by_cases haddRange : tag = cmdAddRange
  . subst haddRange
    apply takes_readStr.bind_congr [cmdAddRange]
    rintro group _ more hrest ⟨hgroup, rfl⟩
    apply counted_congr
    intro count hpre hcount
    exact hlist count (.addRange hgroup) hrest hpre hcount
  by_cases hpushRange : tag = lpushRange
  . subst hpushRange
    apply takes_readStr.bind_congr [lpushRange]
    rintro db _ more hrest ⟨hdb, rfl⟩
    apply takes_readStr.bind_congr
    rintro key _ more' hmore ⟨hkey, rfl⟩
    apply counted_congr
    intro count hpre hcount
    apply hlist count (.lPushRange hdb hkey) _ hpre hcount
    rw [hrest, hmore, List.append_assoc]
  by_cases hsync : tag = haSync
  . subst hsync
    apply counted_congr [haSync]
    intro count hpre hcount
    exact hlist count .haSync rfl hpre hcount
  -- the other commands have no list of items
  unfold parseFields
  split
  all_goals first | rfl | contradiction

theorem parseCommand_congr {alloc : Nat → Bool} {frame : List UInt8}
    (h : ∀ bytes, Reserves frame bytes → alloc bytes = true)
    : parseCommand alloc frame = parseCommand ample frame := by
  cases frame with
  | nil => rfl
  | cons tag rest =>
    rw [parseCommand_cons, parseCommand_cons]
    simp only [StateT.run', parseFields_congr h]

/-- What the parser returns for the frame is what the grammar says, and it returns something. -/
structure AcceptsGrammar (parse : List UInt8 → Outcome ParseError Command) (frame : List UInt8) : Prop where
  ne_panic : parse frame ≠ .panic
  eq_ok_iff : ∀ cmd, parse frame = .ok cmd ↔ ∃ bytes, bytes <+: frame ∧ Encodes cmd bytes
  unique : ∀ bytes bytes' cmd cmd', bytes <+: frame → bytes' <+: frame →
    Encodes cmd bytes → Encodes cmd' bytes' → bytes = bytes' ∧ cmd = cmd'
  eq_err : (¬∃ cmd bytes, bytes <+: frame ∧ Encodes cmd bytes) → ∃ e, parse frame = .err e

theorem acceptsGrammar_ample (frame : List UInt8) : AcceptsGrammar (parseCommand ample) frame where
  ne_panic := parseCommand_ne_panic frame
  eq_ok_iff := by
    intro cmd
    constructor
    . apply encodes_of_ok
    . rintro ⟨bytes, ⟨rest, rfl⟩, hencodes⟩
      exact (parse_of_encodes hencodes rest).1
  unique := by
    intro bytes bytes' cmd cmd' hpre hpre' h h'
    exact encodes_unique hpre hpre' h h'
  eq_err := by
    intro hnone
    cases hres : parseCommand ample frame with
    | ok cmd => exact absurd ⟨cmd, encodes_of_ok hres⟩ hnone
    | err e => exact ⟨e, rfl⟩
    | panic => exact absurd hres (parseCommand_ne_panic frame)

/-- The parser accepts its grammar and nothing else, unless there is no memory for the items that are announced. -/
theorem parseCommand_grammar_iff (alloc : Nat → Bool) (frame : List UInt8)
    : AcceptsGrammar (parseCommand alloc) frame
        ↔
      ∀ bytes, Reserves frame bytes → alloc bytes = true := by
  constructor
  . intro h bytes hreserves
    by_contra hrefused
    exact h.ne_panic (parseCommand_eq_panic hreserves (by simpa using hrefused))
  . intro h
    have hsame := parseCommand_congr h
    have hample := acceptsGrammar_ample frame
    refine ⟨?_, ?_, hample.unique, ?_⟩
    . rw [hsame]
      exact hample.ne_panic
    . rw [hsame]
      exact hample.eq_ok_iff
    . rw [hsame]
      exact hample.eq_err

-- 4294967295 entries of 24 bytes are announced to a machine of 64 GiB, and none follows
theorem parseCommand_aborts
    : let alloc (bytes : Nat) := decide (bytes ≤ 2 ^ 36)
      let frame := [0x04, 1, 0, 103, 255, 255, 255, 255]
      parseCommand alloc frame = .panic
        ∧ parseCommand ample frame = .err ⟨"unexpected EOF reading u64"⟩
        ∧ ¬AcceptsGrammar (parseCommand alloc) frame := by
  intro alloc frame
  have hpanic : parseCommand alloc frame = .panic := by
    decide +kernel
  refine ⟨hpanic, by decide +kernel, ?_⟩
  intro h
  exact h.ne_panic hpanic

end MemStream
