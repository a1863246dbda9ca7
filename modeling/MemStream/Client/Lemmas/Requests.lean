import MemStream.Client.Impl.StreamClient
import MemStream.Server.Lemmas.Reads

namespace MemStream

inductive Request where
  | createGroup (name : String)
  | dropGroup (name : String)
  | add (group : String) (timestamp : UInt64) (payload : List UInt8)
  | addRange (group : String) (entries : List (UInt64 × List UInt8))
  | read (group : String) (id : UInt64)
  | readRange (group : String) (start stop : UInt64)
  | remove (group : String) (upToId : UInt64)
  | listGroups
  | groupStats (group : String)
  | kvSet (db key : String) (val : List UInt8) (ttlSecs : UInt64)
  | kvGet (db key : String)
  | kvDel (db key : String)
  | kvKeys (db : String)
  | kvFlush (db : String)

namespace Request

open StreamClient Cursor

def frame : Request → List UInt8
  | .createGroup name => StreamClient.createGroup name
  | .dropGroup name => StreamClient.dropGroup name
  | .add group timestamp payload => StreamClient.add group timestamp payload
  | .addRange group entries => StreamClient.addRange group entries
  | .read group id => StreamClient.read group id
  | .readRange group start stop => StreamClient.readRange group start stop
  | .remove group upToId => StreamClient.remove group upToId
  | .listGroups => StreamClient.listGroups
  | .groupStats group => StreamClient.groupStats group
  | .kvSet db key val ttlSecs => StreamClient.kvSet db key val ttlSecs
  | .kvGet db key => StreamClient.kvGet db key
  | .kvDel db key => StreamClient.kvDel db key
  | .kvKeys db => StreamClient.kvKeys db
  | .kvFlush db => StreamClient.kvFlush db

def command : Request → Command
  | .createGroup name => .createGroup name
  | .dropGroup name => .dropGroup name
  | .add group timestamp payload => .add group timestamp payload
  | .addRange group entries => .addRange group entries
  | .read group id => .read group id
  | .readRange group start stop => .readRange group start stop
  | .remove group upToId => .remove group upToId
  | .listGroups => .listGroups
  | .groupStats group => .groupStats group
  | .kvSet db key val ttlSecs => .setKey db key val ttlSecs
  | .kvGet db key => .getKey db key
  | .kvDel db key => .delKey db key
  | .kvKeys db => .keys db
  | .kvFlush db => .flush db

def Name (s : String) : Prop :=
  (asBytes s).length ≤ 65535

def Sized {α : Type} (val : List α) : Prop :=
  val.length < 2 ^ 32

def Fits : Request → Prop
  | .createGroup name => Name name
  | .dropGroup name => Name name
  | .add group _ payload => Name group ∧ Sized payload
  | .addRange group entries => Name group ∧ Sized entries ∧ ∀ entry ∈ entries, Sized entry.2
  | .read group _ => Name group
  | .readRange group _ _ => Name group
  | .remove group _ => Name group
  | .listGroups => True
  | .groupStats group => Name group
  | .kvSet db key val _ => Name db ∧ Name key ∧ Sized val
  | .kvGet db key => Name db ∧ Name key
  | .kvDel db key => Name db ∧ Name key
  | .kvKeys db => Name db
  | .kvFlush db => Name db

theorem strFits_of_name {s : String} (h : Name s) : Layout.StrFits s :=
  Nat.lt_succ_of_le h

theorem fits_of_sized {α : Type} {val : List α} (h : Sized val) : Layout.Fits val :=
  h

theorem fits_command (req : Request) (h : req.Fits) : req.command.Fits "" := by
  cases req with
  | createGroup name => exact strFits_of_name h
  | dropGroup name => exact strFits_of_name h
  | add group timestamp payload => exact ⟨strFits_of_name h.1, fits_of_sized h.2⟩
  | addRange group entries => exact ⟨strFits_of_name h.1, fits_of_sized h.2.1, h.2.2⟩
  | read group id => exact strFits_of_name h
  | readRange group start stop => exact strFits_of_name h
  | remove group upToId => exact strFits_of_name h
  | listGroups => trivial
  | groupStats group => exact strFits_of_name h
  | kvSet db key val ttlSecs =>
    exact ⟨strFits_of_name h.1, strFits_of_name h.2.1, fits_of_sized h.2.2⟩
  | kvGet db key => exact ⟨strFits_of_name h.1, strFits_of_name h.2⟩
  | kvDel db key => exact ⟨strFits_of_name h.1, strFits_of_name h.2⟩
  | kvKeys db => exact strFits_of_name h
  | kvFlush db => exact strFits_of_name h

theorem frame_eq (req : Request) : req.frame = req.command.tag :: req.command.fields "" := by
  unfold frame
  cases req with
  | addRange group entries =>
    simp [StreamClient.addRange, command, Command.tag, Command.fields, Layout.str, Layout.many, lenU16,
      lenU32, asBytes]
    rfl
  | _ =>
    simp [StreamClient.createGroup, StreamClient.dropGroup, StreamClient.add, StreamClient.read,
      StreamClient.readRange, StreamClient.remove, StreamClient.listGroups, StreamClient.groupStats,
      StreamClient.kvSet, StreamClient.kvGet, StreamClient.kvDel, StreamClient.kvKeys,
      StreamClient.kvFlush, buildCmdWithGroup, buildCmdWithDbKey, command, Command.tag, Command.fields,
      Layout.str, Layout.u64, Layout.bytes, lenU16, lenU32, asBytes]

theorem parses_frame (req : Request) (h : req.Fits) : Parses req.frame req.command := by
  rw [frame_eq]
  apply parses_of_reads
  apply reads_fields
  apply fits_command req h

theorem parses_frame_addRange
    : Fits (.addRange "g" [(7, [1, 2]), (8, [])])
        ∧ Parses (StreamClient.addRange "g" [(7, [1, 2]), (8, [])])
            (.addRange "g" [(7, [1, 2]), (8, [])]) := by
  have h : Fits (.addRange "g" [(7, [1, 2]), (8, [])]) := by
    refine ⟨?_, ?_, ?_⟩
    . unfold Name
      decide
    . simp [Sized]
    . simp [Sized]
  exact ⟨h, parses_frame _ h⟩

end Request
end MemStream
