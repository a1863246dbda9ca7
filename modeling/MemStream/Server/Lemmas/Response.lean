import MemStream.Server.Impl.Response

namespace MemStream
namespace ResponseBuilder

theorem finalize_eq (rest : List UInt8)
    : finalize ([0, 0, 0, 0] ++ rest) = LittleEndian.encode 4 rest.length ++ rest := by
  simp [finalize]

theorem finalize_status (status : UInt8) (fields : List UInt8)
    : (finalize ([0, 0, 0, 0] ++ status :: fields))[4]? = some status := by
  rw [finalize_eq, List.getElem?_append_right (by simp)]
  simp

theorem okBytes_eq (val : List UInt8)
    : okBytes val
        =
      LittleEndian.encode 4 (5 + val.length)
        ++ statusOk :: (LittleEndian.encode 4 val.length ++ val) := by
  have hlength : 5 + val.length
      = (statusOk :: (LittleEndian.encode 4 val.length ++ val)).length := by
    simp only [List.length_cons, List.length_append, LittleEndian.encode_length]
    omega
  unfold okBytes
  rw [hlength, ← finalize_eq]
  simp

theorem okBytes_inj {val val' : List UInt8} (h : okBytes val = okBytes val') : val = val' := by
  have hdrop (val : List UInt8) : (okBytes val).drop 9 = val := by
    rw [okBytes_eq, ← List.cons_append, ← List.append_assoc]
    apply List.drop_left'
    simp
  rw [← hdrop val, h, hdrop val']

theorem okEmpty_ne_okBytes (val : List UInt8) : okEmpty ≠ okBytes val := by
  intro h
  have hlength := congrArg List.length h
  rw [okBytes_eq, show okEmpty.length = 5 by rfl] at hlength
  simp only [List.length_append, List.length_cons, LittleEndian.encode_length] at hlength
  omega

theorem err_status (msg : String) : (err msg)[4]? = some statusErr := by
  exact finalize_status statusErr _

theorem okBytes_status (val : List UInt8) : (okBytes val)[4]? = some statusOk := by
  exact finalize_status statusOk _

theorem okBytesList_status (items : List (List UInt8)) : (okBytesList items)[4]? = some statusOk := by
  exact finalize_status statusOk _

theorem err_ne_okBytes (msg : String) (val : List UInt8) : err msg ≠ okBytes val := by
  intro h
  have hstatus := err_status msg
  rw [h, okBytes_status] at hstatus
  cases hstatus

theorem err_ne_okBytesList (msg : String) (items : List (List UInt8)) : err msg ≠ okBytesList items := by
  intro h
  have hstatus := err_status msg
  rw [h, okBytesList_status] at hstatus
  cases hstatus

end ResponseBuilder
end MemStream
