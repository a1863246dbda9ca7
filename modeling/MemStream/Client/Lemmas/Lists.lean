import MemStream.Client.Impl.StreamClient
import MemStream.Server.Lemmas.Grammar

namespace MemStream

inductive ListRequest where
  | push (key : String) (val : List UInt8)
  | pushRange (key : String) (vals : List (List UInt8))
  | pop (key : String)
  | popRange (key : String) (start stop : UInt32)
  | popCount (key : String) (count : UInt32)
  | len (key : String)
  | flush (key : String)

namespace ListRequest

def frame : ListRequest → List UInt8
  | .push key val => StreamClient.lPush key val
  | .pushRange key vals => StreamClient.lPushRange key vals
  | .pop key => StreamClient.lPop key
  | .popRange key start stop => StreamClient.lPopRange key start stop
  | .popCount key count => StreamClient.lPopCount key count
  | .len key => StreamClient.lLen key
  | .flush key => StreamClient.lFlush key

def command : ListRequest → Command
  | .push key val => .lPush key val
  | .pushRange key vals => .lPushRange key vals
  | .pop key => .lPop key
  | .popRange key start stop => .lPopRange key start stop
  | .popCount key count => .lPopCount key count
  | .len key => .lLen key
  | .flush key => .lFlush key

theorem frame_eq_cons (req : ListRequest)
    : ∃ tag rest, req.frame = tag :: rest ∧ tag ≠ req.command.tag := by
  cases req with
  | push key val => exact ⟨0x20, _, rfl, (by decide : 0x20 ≠ lpush)⟩
  | pushRange key vals => exact ⟨0x21, _, rfl, (by decide : 0x21 ≠ lpushRange)⟩
  | pop key => exact ⟨0x22, _, rfl, (by decide : 0x22 ≠ lpop)⟩
  | popRange key start stop => exact ⟨0x23, _, rfl, (by decide : 0x23 ≠ lpopRange)⟩
  | popCount key count => exact ⟨0x24, _, rfl, (by decide : 0x24 ≠ lpopCount)⟩
  | len key => exact ⟨0x25, _, rfl, (by decide : 0x25 ≠ llen)⟩
  | flush key => exact ⟨0x26, _, rfl, (by decide : 0x26 ≠ lflush)⟩

theorem parseCommand_ne (req : ListRequest) : parseCommand ample req.frame ≠ .ok req.command := by
  rcases req.frame_eq_cons with ⟨tag, rest, hframe, hne⟩
  intro h
  rw [hframe] at h
  exact hne (parseCommand_tag h).symm

-- a pop registers a follower under the name of the list
theorem parseCommand_pop {key : String} (h : (StreamClient.asBytes key).length < 65536)
    : parseCommand ample (frame (.pop key)) = .ok (.haRegisterFollower key) := by
  have hreads : Cursor.Reads (parseFields ample haRegister)
      (StreamClient.lenU16 (StreamClient.asBytes key) ++ StreamClient.asBytes key)
      (.haRegisterFollower key) := by
    apply Cursor.Reads.map
    apply Cursor.reads_readStr h
  exact (parses_of_reads hreads).1

theorem parseCommand_pop_k
    : parseCommand ample (frame (.pop "k")) = .ok (.haRegisterFollower "k")
        ∧ parseCommand ample (frame (.pop "k")) ≠ .ok (command (.pop "k")) := by
  have h : parseCommand ample (frame (.pop "k")) = .ok (.haRegisterFollower "k") :=
    parseCommand_pop (by decide)
  rw [h]
  exact ⟨rfl, by simp [command]⟩

end ListRequest
end MemStream
