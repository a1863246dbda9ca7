import MemStream.Client.Impl.Pool
import MemStream.Lib.Machine

namespace MemStream
namespace ClientPool

variable {pool pool' : ClientPool}

theorem lock_eq_some (h : pool.lock = some pool')
    : pool.acquiring = none
        ∧ pool' = { pool with acquiring := some (.receiving (pool.maxSize + 1)) } := by
  unfold lock at h
  split at h
  . next hacquiring => exact ⟨hacquiring, (Option.some.inj h).symm⟩
  . simp at h

theorem recv_eq_some (h : pool.recv = some pool')
    : ∃ attempts client slots,
        pool.acquiring = some (.receiving (attempts + 1))
          ∧ pool.slots = client :: slots
          ∧ pool' = { pool with slots := slots, acquiring := some (.examining attempts client) } := by
  unfold recv at h
  split at h
  . next attempts client slots hacquiring hslots =>
    exact ⟨attempts, client, slots, hacquiring, hslots, (Option.some.inj h).symm⟩
  . simp at h

theorem examine_eq_some (h : pool.examine = some pool')
    : ∃ attempts client,
        pool.acquiring = some (.examining attempts client)
          ∧ ((client.isAlive = true ∧ pool' = pool.handOut client)
              ∨ ∃ pc,
                  (pc = .connecting ∨ pc = .receiving attempts)
                    ∧ pool' = { pool.spawnReplacement with acquiring := some pc }) := by
  unfold examine at h
  split at h
  . next attempts client hacquiring =>
    refine ⟨attempts, client, hacquiring, ?_⟩
    split at h
    . next halive => exact .inl ⟨halive, (Option.some.inj h).symm⟩
    . refine .inr ⟨_, ?_, (Option.some.inj h).symm⟩
      split
      . exact .inl rfl
      . exact .inr rfl
  . simp at h

theorem connect_eq_some {ok : Bool} (h : pool.connect ok = some pool')
    : pool.acquiring = some .connecting
        ∧ (pool' = pool.handOut Connection.connect ∨ pool' = { pool with acquiring := none }) := by
  unfold connect at h
  split at h
  . next hacquiring => exact ⟨hacquiring, .inl (Option.some.inj h).symm⟩
  . next hacquiring => exact ⟨hacquiring, .inr (Option.some.inj h).symm⟩
  . simp at h

theorem cancel_eq_some (h : pool.cancel = some pool')
    : ((∃ attempts, pool.acquiring = some (.receiving attempts)) ∨ pool.acquiring = some .connecting)
        ∧ pool' = { pool with acquiring := none } := by
  unfold cancel at h
  split at h
  . next attempts hacquiring => exact ⟨.inl ⟨attempts, hacquiring⟩, (Option.some.inj h).symm⟩
  . next hacquiring => exact ⟨.inr hacquiring, (Option.some.inj h).symm⟩
  . simp at h

theorem call_eq_some {i : Nat} {a : PooledClient.Action} (h : pool.call i a = some pool')
    : ∃ handle handle',
        pool.handles[i]? = some handle
          ∧ handle.step a = some handle'
          ∧ pool' = { pool with handles := pool.handles.set i handle' } := by
  unfold call at h
  split at h
  . simp at h
  . next handle hget =>
    rcases Option.map_eq_some_iff.mp h with ⟨handle', hstep, rfl⟩
    exact ⟨handle, handle', hget, hstep, rfl⟩

theorem respond_eq_some {i : Nat} (h : pool.respond i = some pool')
    : ∃ handle call,
        pool.handles[i]? = some handle
          ∧ handle.call = some call
          ∧ call.written = call.bytes.length
          ∧ Framing.complete call.got = true
          ∧ pool' =
              { pool with
                handles := pool.handles.set i { handle with call := none }
                returned := pool.returned ++ [⟨handle.client, call, call.got.drop 4⟩] } := by
  unfold respond at h
  split at h
  . simp at h
  . next handle hget =>
    split at h
    . simp at h
    . next call hcall =>
      split at h
      . next hdone => exact ⟨handle, call, hget, hcall, hdone.1, hdone.2, (Option.some.inj h).symm⟩
      . simp at h

def GivesUp (pool : ClientPool) (i : Nat) (pool' : ClientPool) : Prop :=
  ∃ handle,
    pool.handles[i]? = some handle
      ∧ (pool' =
            { pool with
              handles := pool.handles.eraseIdx i
              replacing := pool.replacing ++ [.connecting] }
          ∨ pool' =
            { pool with
              handles := pool.handles.eraseIdx i
              slots := pool.slots ++ [handle.client] }
          ∨ pool.maxSize ≤ pool.slots.length + pool.sending
              ∧ pool' = { pool with handles := pool.handles.eraseIdx i })

theorem trySend_eq_some {client : Connection} {full : Bool} (h : pool.trySend client full = some pool')
    : pool' = { pool with slots := pool.slots ++ [client] }
        ∨ pool.maxSize ≤ pool.slots.length + pool.sending ∧ pool' = pool := by
  unfold trySend at h
  split at h
  . split at h
    . next hfull => exact .inr ⟨hfull, (Option.some.inj h).symm⟩
    . simp at h
  . split at h
    . exact .inl (Option.some.inj h).symm
    . simp at h

theorem givesUp_of_trySend {i : Nat} {handle : PooledClient} (hget : pool.handles[i]? = some handle)
    {full : Bool}
    (h : { pool with handles := pool.handles.eraseIdx i }.trySend handle.client full = some pool')
    : pool.GivesUp i pool' := by
  refine ⟨handle, hget, ?_⟩
  rcases trySend_eq_some h with rfl | ⟨hfull, rfl⟩
  . exact .inr (.inl rfl)
  . exact .inr (.inr ⟨hfull, rfl⟩)

theorem givesUp_of_drop {i : Nat} {full : Bool} (h : pool.drop i full = some pool')
    : pool.GivesUp i pool' := by
  unfold drop at h
  split at h
  . simp at h
  . next handle hget =>
    dsimp only at h
    split at h
    . exact ⟨handle, hget, .inl (Option.some.inj h).symm⟩
    . exact givesUp_of_trySend hget h

theorem givesUp_of_release {i : Nat} {full : Bool} (h : pool.release i full = some pool')
    : pool.GivesUp i pool' := by
  unfold release at h
  split at h
  . simp at h
  . next handle hget =>
    dsimp only at h
    split at h
    . exact givesUp_of_trySend hget h
    . exact ⟨handle, hget, .inl (Option.some.inj h).symm⟩

theorem givesUp_of_discard {i : Nat} (h : pool.discard i = some pool')
    : pool.GivesUp i pool' := by
  unfold discard at h
  split at h
  . simp at h
  . next handle hget => exact ⟨handle, hget, .inl (Option.some.inj h).symm⟩

theorem reconnect_eq_some {i : Nat} {ok : Bool} (h : pool.reconnect i ok = some pool')
    : pool.replacing[i]? = some .connecting
        ∧ ((ok = true
              ∧ pool' =
                  { pool with replacing := pool.replacing.set i (.sending Connection.connect) })
            ∨ ok = false ∧ pool' = { pool with replacing := pool.replacing.eraseIdx i }) := by
  unfold reconnect at h
  split at h
  . next hget => exact ⟨hget, .inl ⟨rfl, (Option.some.inj h).symm⟩⟩
  . next hget => exact ⟨hget, .inr ⟨rfl, (Option.some.inj h).symm⟩⟩
  . simp at h

theorem send_eq_some {i : Nat} (h : pool.send i = some pool')
    : ∃ client,
        pool.replacing[i]? = some (.sending client)
          ∧ pool' =
              { pool with
                slots := pool.slots ++ [client]
                replacing := pool.replacing.eraseIdx i } := by
  unfold send at h
  split at h
  . next client hget =>
    split at h
    . exact ⟨client, hget, (Option.some.inj h).symm⟩
    . simp at h
  . simp at h

theorem serve_eq_some {place : Place} {a : Connection.ServerAction} (h : pool.serve place a = some pool')
    : (∃ i c, pool' = { pool with slots := pool.slots.set i c })
        ∨ (∃ i handle c,
            pool.handles[i]? = some handle
              ∧ handle.client.serve a = some c
              ∧ pool' = { pool with handles := pool.handles.set i { handle with client := c } })
        ∨ (∃ attempts c c',
            pool.acquiring = some (.examining attempts c)
              ∧ pool' = { pool with acquiring := some (.examining attempts c') })
        ∨ ∃ i c, pool' = { pool with replacing := pool.replacing.set i (.sending c) } := by
  unfold serve at h
  cases place with
  | slot i =>
    dsimp only at h
    split at h
    . simp at h
    . rcases Option.map_eq_some_iff.mp h with ⟨c, _, rfl⟩
      exact .inl ⟨i, c, rfl⟩
  | handle i =>
    dsimp only at h
    split at h
    . simp at h
    . next handle hget =>
      rcases Option.map_eq_some_iff.mp h with ⟨c, hc, rfl⟩
      exact .inr (.inl ⟨i, handle, c, hget, hc, rfl⟩)
  | examined =>
    dsimp only at h
    split at h
    . next attempts c hacquiring =>
      rcases Option.map_eq_some_iff.mp h with ⟨c', _, rfl⟩
      exact .inr (.inr (.inl ⟨attempts, c, c', hacquiring, rfl⟩))
    . simp at h
  | replacement i =>
    dsimp only at h
    split at h
    . rcases Option.map_eq_some_iff.mp h with ⟨c, _, rfl⟩
      exact .inr (.inr (.inr ⟨i, c, rfl⟩))
    . simp at h

end ClientPool
end MemStream
