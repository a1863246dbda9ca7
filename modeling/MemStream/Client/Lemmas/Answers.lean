import MemStream.Client.Impl.Answers
import MemStream.Server.Lemmas.Response
import Mathlib.Algebra.Order.BigOperators.Group.List

namespace MemStream

namespace StreamClient

variable {α : Type} {resp : List UInt8} {pos : Nat}

theorem slice_eq (front bytes rest : List UInt8) (hresp : resp = front ++ (bytes ++ rest))
    (hpos : pos = front.length)
    : slice resp pos (pos + bytes.length) = .ok bytes := by
  unfold slice
  rw [if_pos]
  . rw [hresp, hpos, List.drop_left, Nat.add_sub_cancel_left, List.take_left]
  . rw [hresp, hpos]
    simp only [List.length_append]
    omega

theorem slice_encode_eq (front rest : List UInt8) (w n : Nat)
    (hresp : resp = front ++ (LittleEndian.encode w n ++ rest)) (hpos : pos = front.length)
    : slice resp pos (pos + w) = .ok (LittleEndian.encode w n) := by
  have := slice_eq front (LittleEndian.encode w n) rest hresp hpos
  rw [LittleEndian.encode_length] at this
  exact this

theorem u16At_eq (front rest : List UInt8) {n : Nat} (h : n < 65536)
    (hresp : resp = front ++ (LittleEndian.encode 2 n ++ rest)) (hpos : pos = front.length)
    : u16At resp pos = .ok n := by
  unfold u16At
  rw [slice_encode_eq front rest 2 n hresp hpos, Outcome.ok_bind,
    LittleEndian.decode_encode_of_lt h, Outcome.pure_eq]

theorem u32At_eq (front rest : List UInt8) {n : Nat} (h : n < 4294967296)
    (hresp : resp = front ++ (LittleEndian.encode 4 n ++ rest)) (hpos : pos = front.length)
    : u32At resp pos = .ok n := by
  unfold u32At
  rw [slice_encode_eq front rest 4 n hresp hpos, Outcome.ok_bind,
    LittleEndian.decode_encode_of_lt h, Outcome.pure_eq]

theorem u64At_eq (front rest : List UInt8) (x : UInt64)
    (hresp : resp = front ++ (LittleEndian.encode 8 x.toNat ++ rest)) (hpos : pos = front.length)
    : u64At resp pos = .ok x := by
  unfold u64At
  rw [slice_encode_eq front rest 8 x.toNat hresp hpos, Outcome.ok_bind,
    LittleEndian.decode_encode_uint64, Outcome.pure_eq]

def ReadsItem (item : List UInt8 → Nat → Outcome String (α × Nat)) (bytes : List UInt8) (val : α)
    : Prop :=
  ∀ front rest : List UInt8,
    item (front ++ (bytes ++ rest)) front.length = .ok (val, front.length + bytes.length)

theorem itemsAt_eq {item : List UInt8 → Nat → Outcome String (α × Nat)} {encode : α → List UInt8}
    {vals : List α} (h : ∀ val ∈ vals, ReadsItem item (encode val) val) (front rest : List UInt8)
    : itemsAt item (front ++ (vals.flatMap encode ++ rest)) vals.length front.length = .ok vals := by
  induction vals generalizing front with
  | nil => rfl
  | cons val vals ih =>
    have hitem := h val (by simp) front (vals.flatMap encode ++ rest)
    have hrest := ih (fun v hv => h v (by simp [hv])) (front ++ encode val)
    rw [List.append_assoc, List.length_append] at hrest
    rw [List.flatMap_cons, List.append_assoc, List.length_cons, itemsAt, hitem, Outcome.ok_bind, hrest]
    rfl

theorem length_flatMap_le {α : Type} {vals : List α} {encode : α → List UInt8}
    (h : ∀ val ∈ vals, 0 < (encode val).length)
    : vals.length ≤ (vals.flatMap encode).length := by
  induction vals with
  | nil => simp
  | cons val vals ih =>
    have := h val (by simp)
    have := ih fun v hv => h v (by simp [hv])
    simp only [List.length_cons, List.flatMap_cons, List.length_append]
    omega

theorem length_le_length_flatMap {α : Type} {vals : List α} {val : α} (h : val ∈ vals)
    (encode : α → List UInt8)
    : (encode val).length ≤ (vals.flatMap encode).length := by
  rw [List.length_flatMap]
  apply List.single_le_sum
  . simp
  . exact List.mem_map_of_mem (f := fun val => (encode val).length) h

theorem countedItems_eq {item : List UInt8 → Nat → Outcome String (α × Nat)}
    {encode : α → List UInt8} {vals : List α}
    (hsize : (LittleEndian.encode 4 vals.length ++ vals.flatMap encode).length < 4294967296)
    (hpos : ∀ val ∈ vals, 0 < (encode val).length)
    (h : ∀ val ∈ vals, (encode val).length < 4294967296 → ReadsItem item (encode val) val)
    : countedItems item (statusOk :: (LittleEndian.encode 4 vals.length ++ vals.flatMap encode))
        =
      .ok vals := by
  rw [List.length_append] at hsize
  have hlen : vals.length < 4294967296 := by
    have := length_flatMap_le hpos
    omega
  have hreads : ∀ val ∈ vals, ReadsItem item (encode val) val := by
    intro val hval
    apply h val hval
    have := length_le_length_flatMap hval encode
    omega
  have hitems := itemsAt_eq hreads (statusOk :: LittleEndian.encode 4 vals.length) []
  rw [List.append_nil, List.length_cons, LittleEndian.encode_length, List.cons_append] at hitems
  have hcount : u32At (statusOk :: (LittleEndian.encode 4 vals.length ++ vals.flatMap encode)) 1
      = .ok vals.length := by
    apply u32At_eq [statusOk] (vals.flatMap encode) hlen
    . simp
    . rfl
  unfold countedItems
  rw [hcount, Outcome.ok_bind, hitems]

theorem readsItem_entryAt (id ts : UInt64) {payload : List UInt8} (h : payload.length < 4294967296)
    : ReadsItem entryAt
        (LittleEndian.encode 8 id.toNat ++ LittleEndian.encode 8 ts.toNat
          ++ LittleEndian.encode 4 payload.length ++ payload)
        (id, ts, payload) := by
  intro front rest
  generalize hresp : front ++ (LittleEndian.encode 8 id.toNat ++ LittleEndian.encode 8 ts.toNat
    ++ LittleEndian.encode 4 payload.length ++ payload ++ rest) = resp
  have hid : u64At resp front.length = .ok id := by
    apply u64At_eq front (LittleEndian.encode 8 ts.toNat ++ LittleEndian.encode 4 payload.length
      ++ payload ++ rest)
    . simp [← hresp]
    . simp
  have hts : u64At resp (front.length + 8) = .ok ts := by
    apply u64At_eq (front ++ LittleEndian.encode 8 id.toNat)
      (LittleEndian.encode 4 payload.length ++ payload ++ rest)
    . simp [← hresp]
    . simp
  have hlen : u32At resp (front.length + 16) = .ok payload.length := by
    apply u32At_eq (front ++ LittleEndian.encode 8 id.toNat ++ LittleEndian.encode 8 ts.toNat)
      (payload ++ rest) h
    . simp [← hresp]
    . simp
  have hpayload : slice resp (front.length + 20) (front.length + 20 + payload.length)
      = .ok payload := by
    apply slice_eq (front ++ LittleEndian.encode 8 id.toNat ++ LittleEndian.encode 8 ts.toNat
      ++ LittleEndian.encode 4 payload.length) payload rest
    . simp [← hresp]
    . simp
  unfold entryAt
  rw [hid, Outcome.ok_bind, hts, Outcome.ok_bind, hlen, Outcome.ok_bind, hpayload, Outcome.ok_bind]
  simp only [Outcome.pure_eq, List.length_append, LittleEndian.encode_length]
  congr 2
  omega

theorem readsItem_nameAt {name : String} (h : name.utf8ByteSize ≤ 65535)
    : ReadsItem nameAt (LittleEndian.encode 2 name.utf8ByteSize ++ name.toUTF8.data.toList) name := by
  intro front rest
  generalize hresp : front ++ (LittleEndian.encode 2 name.utf8ByteSize ++ name.toUTF8.data.toList
    ++ rest) = resp
  have hsize : name.toUTF8.data.toList.length = name.utf8ByteSize := by rfl
  have hlen : u16At resp front.length = .ok name.utf8ByteSize := by
    apply u16At_eq front (name.toUTF8.data.toList ++ rest)
    . omega
    . simp [← hresp]
    . rfl
  have hname : slice resp (front.length + 2) (front.length + 2 + name.utf8ByteSize)
      = .ok name.toUTF8.data.toList := by
    rw [← hsize]
    apply slice_eq (front ++ LittleEndian.encode 2 name.utf8ByteSize) name.toUTF8.data.toList rest
    . simp [← hresp]
    . simp
  unfold nameAt
  rw [hlen, Outcome.ok_bind, hname, Outcome.ok_bind, Utf8.fromUtf8Lossy_toUTF8]
  simp only [Outcome.pure_eq, List.length_append, LittleEndian.encode_length, hsize]
  congr 2
  omega

theorem readsItem_bytesAt {bytes : List UInt8} (h : bytes.length < 4294967296)
    : ReadsItem bytesAt (LittleEndian.encode 4 bytes.length ++ bytes) bytes := by
  intro front rest
  generalize hresp : front ++ (LittleEndian.encode 4 bytes.length ++ bytes ++ rest) = resp
  have hlen : u32At resp front.length = .ok bytes.length := by
    apply u32At_eq front (bytes ++ rest) h
    . simp [← hresp]
    . rfl
  have hbytes : slice resp (front.length + 4) (front.length + 4 + bytes.length) = .ok bytes := by
    apply slice_eq (front ++ LittleEndian.encode 4 bytes.length) bytes rest
    . simp [← hresp]
    . simp
  unfold bytesAt
  rw [hlen, Outcome.ok_bind, hbytes, Outcome.ok_bind]
  simp only [Outcome.pure_eq, List.length_append, LittleEndian.encode_length]
  congr 2
  omega

theorem fixedAnswer_ok {minLen : Nat} {fields : List UInt8} (h : minLen ≤ fields.length + 1)
    (read : List UInt8 → Outcome String α)
    : fixedAnswer minLen read (statusOk :: fields) = read (statusOk :: fields) := by
  unfold fixedAnswer byteAt
  rw [List.getElem?_cons_zero]
  dsimp only
  rw [Outcome.ok_bind, if_pos]
  exact ⟨rfl, h⟩

theorem statusAnswer_ok (fields : List UInt8) (read : List UInt8 → Outcome String α)
    : statusAnswer read (statusOk :: fields) = read (statusOk :: fields) := by
  unfold statusAnswer byteAt
  rw [List.getElem?_cons_zero]
  dsimp only
  rw [Outcome.ok_bind, if_neg]
  simp

end StreamClient

inductive Answer where
  | u64 (val : UInt64)
  | u64Pair (a b : UInt64)
  | entry (id ts : UInt64) (payload : List UInt8)
  | entryList (entries : List (UInt64 × UInt64 × List UInt8))
  | groupList (groups : List String)
  | stringList (keys : List String)
  | stats (entries : UInt64) (segments : Nat) (nextId : UInt64)
  | bytesList (items : List (List UInt8))

namespace Answer

open StreamClient

def response : Answer → List UInt8
  | .u64 val => ResponseBuilder.okU64 val
  | .u64Pair a b => ResponseBuilder.okU64Pair a b
  | .entry id ts payload => ResponseBuilder.okEntry id ts payload
  | .entryList entries => ResponseBuilder.okEntries entries
  | .groupList groups => ResponseBuilder.okGroupList groups
  | .stringList keys => ResponseBuilder.okStringList keys
  | .stats entries segments nextId => ResponseBuilder.okStats entries segments nextId
  | .bytesList items => ResponseBuilder.okBytesList items

def body (answer : Answer) : List UInt8 :=
  answer.response.drop 4

def Fits (answer : Answer) : Prop :=
  answer.body.length < 2 ^ 32
    ∧ match answer with
      | .groupList names | .stringList names => ∀ name ∈ names, name.utf8ByteSize ≤ 65535
      | .stats _ segments _ => segments < 2 ^ 32
      | _ => True

def Decoded (answer : Answer) (resp : List UInt8) : Prop :=
  match answer with
  | .u64 val => addAnswer resp = .ok val ∧ lLenAnswer resp = .ok val
  | .u64Pair a b => addRangeAnswer resp = .ok (a, b)
  | .entry id ts payload => readAnswer resp = .ok (id, ts, payload)
  | .entryList entries => readRangeAnswer resp = .ok entries
  | .groupList groups => listGroupsAnswer resp = .ok groups
  | .stringList keys => kvKeysAnswer resp = .ok keys
  | .stats entries segments nextId =>
    ∃ segments' : UInt32,
      segments'.toNat = segments ∧ groupStatsAnswer resp = .ok (entries, segments', nextId)
  | .bytesList items => lPopRangeAnswer resp = .ok items ∧ lPopCountAnswer resp = .ok items

def fields : Answer → List UInt8
  | .u64 val => LittleEndian.encode 8 val.toNat
  | .u64Pair a b => LittleEndian.encode 8 a.toNat ++ LittleEndian.encode 8 b.toNat
  | .entry id ts payload =>
    LittleEndian.encode 8 id.toNat ++ LittleEndian.encode 8 ts.toNat
      ++ LittleEndian.encode 4 payload.length ++ payload
  | .entryList entries =>
    LittleEndian.encode 4 entries.length
      ++ entries.flatMap fun entry =>
        LittleEndian.encode 8 entry.1.toNat ++ LittleEndian.encode 8 entry.2.1.toNat
          ++ LittleEndian.encode 4 entry.2.2.length ++ entry.2.2
  | .groupList names | .stringList names =>
    LittleEndian.encode 4 names.length
      ++ names.flatMap fun name =>
        LittleEndian.encode 2 name.utf8ByteSize ++ name.toUTF8.data.toList
  | .stats entries segments nextId =>
    LittleEndian.encode 8 entries.toNat ++ LittleEndian.encode 4 segments
      ++ LittleEndian.encode 8 nextId.toNat
  | .bytesList items =>
    LittleEndian.encode 4 items.length
      ++ items.flatMap fun item => LittleEndian.encode 4 item.length ++ item

theorem response_eq (answer : Answer)
    : answer.response
        =
      LittleEndian.encode 4 (answer.fields.length + 1) ++ statusOk :: answer.fields := by
  rw [← List.length_cons (a := statusOk), ← ResponseBuilder.finalize_eq]
  cases answer with
  | u64 val => rfl
  | u64Pair a b => simp [response, ResponseBuilder.okU64Pair, fields]
  | entry id ts payload => simp [response, ResponseBuilder.okEntry, fields]
  | entryList entries => simp [response, ResponseBuilder.okEntries, fields]
  | groupList groups =>
    simp [response, ResponseBuilder.okGroupList, ResponseBuilder.okNames, fields]
  | stringList keys =>
    simp [response, ResponseBuilder.okStringList, ResponseBuilder.okNames, fields]
  | stats entries segments nextId => simp [response, ResponseBuilder.okStats, fields]
  | bytesList items => simp [response, ResponseBuilder.okBytesList, fields]

theorem body_eq (answer : Answer) : answer.body = statusOk :: answer.fields := by
  unfold body
  rw [response_eq]
  apply List.drop_left'
  apply LittleEndian.encode_length

theorem decoded_u64 (val : UInt64)
    : u64At (statusOk :: LittleEndian.encode 8 val.toNat) 1 = .ok val := by
  apply u64At_eq [statusOk] []
  . simp
  . rfl

theorem decoded_u64Pair (a b : UInt64)
    : addRangeAnswer (statusOk :: fields (.u64Pair a b)) = .ok (a, b) := by
  unfold addRangeAnswer
  rw [fixedAnswer_ok (by simp [fields])]
  generalize hresp : statusOk :: fields (.u64Pair a b) = resp
  have hfirst : u64At resp 1 = .ok a := by
    apply u64At_eq [statusOk] (LittleEndian.encode 8 b.toNat)
    . simp [← hresp, fields]
    . rfl
  have hlast : u64At resp 9 = .ok b := by
    apply u64At_eq (statusOk :: LittleEndian.encode 8 a.toNat) []
    . simp [← hresp, fields]
    . simp
  rw [hfirst, Outcome.ok_bind, hlast, Outcome.ok_bind, Outcome.pure_eq]

theorem decoded_entry {id ts : UInt64} {payload : List UInt8} (h : payload.length < 4294967296)
    : readAnswer (statusOk :: fields (.entry id ts payload)) = .ok (id, ts, payload) := by
  have hitem : entryAt (statusOk :: fields (.entry id ts payload)) 1
      = .ok ((id, ts, payload), 1 + (fields (.entry id ts payload)).length) := by
    have := readsItem_entryAt id ts h [statusOk] []
    rw [List.append_nil] at this
    exact this
  have hmap := congrArg (Outcome.map Prod.fst) hitem
  unfold entryAt at hmap
  simp only [Outcome.map_bind, Outcome.pure_eq, Outcome.map_ok] at hmap
  unfold readAnswer
  rw [fixedAnswer_ok (by simp [fields]; omega)]
  exact hmap

theorem decoded_stats (entries nextId : UInt64) {segments : Nat} (h : segments < 4294967296)
    : groupStatsAnswer (statusOk :: fields (.stats entries segments nextId))
        =
      .ok (entries, UInt32.ofNat segments, nextId) := by
  unfold groupStatsAnswer
  rw [fixedAnswer_ok (by simp [fields])]
  generalize hresp : statusOk :: fields (.stats entries segments nextId) = resp
  have hentries : u64At resp 1 = .ok entries := by
    apply u64At_eq [statusOk] (LittleEndian.encode 4 segments ++ LittleEndian.encode 8 nextId.toNat)
    . simp [← hresp, fields]
    . rfl
  have hsegments : u32At resp 9 = .ok segments := by
    apply u32At_eq (statusOk :: LittleEndian.encode 8 entries.toNat)
      (LittleEndian.encode 8 nextId.toNat) h
    . simp [← hresp, fields]
    . simp
  have hnextId : u64At resp 13 = .ok nextId := by
    apply u64At_eq (statusOk :: (LittleEndian.encode 8 entries.toNat ++ LittleEndian.encode 4 segments))
      []
    . simp [← hresp, fields]
    . simp
  rw [hentries, Outcome.ok_bind, hsegments, Outcome.ok_bind, hnextId, Outcome.ok_bind, Outcome.pure_eq]

theorem decoded_entries {entries : List (UInt64 × UInt64 × List UInt8)}
    (h : (fields (.entryList entries)).length < 4294967296)
    : countedItems entryAt (statusOk :: fields (.entryList entries)) = .ok entries := by
  apply countedItems_eq h
  . simp
  . intro entry _ hentry
    apply readsItem_entryAt
    simp only [List.length_append] at hentry
    omega

theorem decoded_names {names : List String} (h : (fields (.groupList names)).length < 4294967296)
    (hnames : ∀ name ∈ names, name.utf8ByteSize ≤ 65535)
    : countedItems nameAt (statusOk :: fields (.groupList names)) = .ok names := by
  apply countedItems_eq h
  . simp
  . intro name hname _
    apply readsItem_nameAt
    exact hnames name hname

theorem decoded_bytesList {items : List (List UInt8)}
    (h : (fields (.bytesList items)).length < 4294967296)
    : countedItems bytesAt (statusOk :: fields (.bytesList items)) = .ok items := by
  apply countedItems_eq h
  . simp
  . intro item _ hitem
    apply readsItem_bytesAt
    simp only [List.length_append] at hitem
    omega

theorem decoded_body (answer : Answer) (h : answer.Fits)
    : LittleEndian.decode (answer.response.take 4) = answer.body.length
        ∧ answer.Decoded answer.body := by
  rcases h with ⟨hsize, hfields⟩
  rw [body_eq, List.length_cons] at hsize
  have hsize' : answer.fields.length < 4294967296 := by omega
  constructor
  . rw [body_eq, response_eq, List.take_left' (LittleEndian.encode_length _ _), List.length_cons]
    apply LittleEndian.decode_encode_of_lt
    exact hsize
  . rw [body_eq]
    cases answer with
    | u64 val =>
      have hread := decoded_u64 val
      constructor
      . unfold addAnswer
        rw [fixedAnswer_ok (by simp [fields])]
        exact hread
      . unfold lLenAnswer
        rw [fixedAnswer_ok (by simp [fields])]
        exact hread
    | u64Pair a b => apply decoded_u64Pair
    | entry id ts payload =>
      apply decoded_entry
      simp only [fields, List.length_append] at hsize'
      omega
    | entryList entries =>
      unfold Decoded readRangeAnswer
      dsimp only
      rw [fixedAnswer_ok (by simp [fields])]
      apply decoded_entries hsize'
    | groupList groups =>
      unfold Decoded listGroupsAnswer
      dsimp only
      rw [fixedAnswer_ok (by simp [fields])]
      apply decoded_names hsize' hfields
    | stringList keys =>
      unfold Decoded kvKeysAnswer
      dsimp only
      rw [statusAnswer_ok]
      apply decoded_names hsize' hfields
    | stats entries segments nextId =>
      refine ⟨UInt32.ofNat segments, ?_, ?_⟩
      . apply UInt32.toNat_ofNat_of_lt'
        exact hfields
      . apply decoded_stats
        exact hfields
    | bytesList items =>
      have hread := decoded_bytesList hsize'
      constructor
      . unfold lPopRangeAnswer
        rw [statusAnswer_ok]
        exact hread
      . unfold lPopCountAnswer
        rw [statusAnswer_ok]
        exact hread

theorem decoded_body_names
    : Fits (.groupList ["a", ""])
        ∧ LittleEndian.decode ((ResponseBuilder.okGroupList ["a", ""]).take 4) = 10
        ∧ listGroupsAnswer ((ResponseBuilder.okGroupList ["a", ""]).drop 4) = .ok ["a", ""] := by
  have h : Fits (.groupList ["a", ""]) := by
    constructor
    . decide
    . show ∀ name ∈ ["a", ""], name.utf8ByteSize ≤ 65535
      decide
  exact ⟨h, decoded_body _ h⟩

end Answer
end MemStream
