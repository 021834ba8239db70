import Mathlib.Data.List.Nodup

/-!
# The connections of a websocket server

`WebsocketManagerServer` gives every connection that opens the next id, and keeps it in its map also when it is
closed or fails. `send_to_all` sends a message to every connection of the map, one after the other.  Sends to a
connection that is closed fail, which is noted and does not keep the others from being sent to
(`sendToAll_connections`, `sendToAll_failed`).

What the endpoint says to a send comes from outside.  The status and the messages that arrive from a connection are
not modelled, nor that a connection may open while `send_to_all` goes through the map.
-/

namespace Elsa

/-- A connection: `m_message_store` has the messages that were sent.  The number of sends that failed is not part of
the program. -/
structure Connection (μ : Type) where
  id : Nat
  messageStore : List μ
  failures : Nat

variable {μ : Type}

/-- A send, with what the endpoint says. -/
def Connection.sent (c : Connection μ) (ok : Bool) (message : μ) : Connection μ :=
  if ok then { c with messageStore := c.messageStore ++ [message] } else { c with failures := c.failures + 1 }

@[simp] theorem Connection.sent_id (c : Connection μ) (ok : Bool) (message : μ) : (c.sent ok message).id = c.id := by
  unfold sent
  split <;> rfl

/-- The map from ids to connections. -/
structure WebsocketServer (μ : Type) where
  connections : List (Connection μ)
  nextId : Nat
  id_lt : ∀ c ∈ connections, c.id < nextId
  id_key : (connections.map Connection.id).Nodup

namespace WebsocketServer

def start : WebsocketServer μ where
  connections := []
  nextId := 0
  id_lt _ hc := absurd hc List.not_mem_nil
  id_key := List.nodup_nil

/-- The open handler. -/
def opened (s : WebsocketServer μ) : WebsocketServer μ where
  connections := s.connections ++ [⟨s.nextId, [], 0⟩]
  nextId := s.nextId + 1
  id_lt c hc := by
    rcases List.mem_append.1 hc with hc | hc
    · exact Nat.lt_succ_of_lt (s.id_lt c hc)
    · rw [List.mem_singleton.1 hc]
      exact Nat.lt_succ_self _
  id_key := by
    rw [List.map_append, List.nodup_append]
    refine ⟨s.id_key, List.nodup_singleton _, ?_⟩
    rintro id hid id' hid' rfl
    obtain ⟨c, hc, rfl⟩ := List.mem_map.1 hid
    exact absurd (s.id_lt c hc) (by rw [List.mem_singleton.1 hid']; exact Nat.lt_irrefl _)

/-- Each connection as the function makes it, with its id. -/
def update (s : WebsocketServer μ) (f : Connection μ → Connection μ) (hf : ∀ c, (f c).id = c.id) :
    WebsocketServer μ where
  connections := s.connections.map f
  nextId := s.nextId
  id_lt c hc := by
    obtain ⟨c', hc', rfl⟩ := List.mem_map.1 hc
    exact hf c' ▸ s.id_lt c' hc'
  id_key := by
    have hids : s.connections.map (Connection.id ∘ f) = s.connections.map Connection.id :=
      List.map_congr_left fun c _ => hf c
    rw [List.map_map, hids]
    exact s.id_key

/-- `send`: whether the message was sent. -/
def send (s : WebsocketServer μ) (ok : Bool) (message : μ) (id : Nat) : Bool × WebsocketServer μ :=
  (ok && decide (id ∈ s.connections.map Connection.id),
    s.update (fun c => if c.id = id then c.sent ok message else c) fun c => by split <;> simp)

/-- The loop of `send_to_all`, with the ids to which the message was not sent so far. -/
def sendLoop (ok : Nat → Bool) (message : μ) : List Nat → List Nat → WebsocketServer μ → List Nat × WebsocketServer μ
  | [], failed, s => (failed, s)
  | id :: ids, failed, s =>
    let sent := s.send (ok id) message id
    sendLoop ok message ids (if sent.1 then failed else failed ++ [id]) sent.2

/-- `send_to_all`: the ids to which the message was not sent. -/
def sendToAll (s : WebsocketServer μ) (ok : Nat → Bool) (message : μ) : List Nat × WebsocketServer μ :=
  sendLoop ok message (s.connections.map Connection.id) [] s

/-- The loop over some of the ids. -/
private theorem sendLoop_spec (ok : Nat → Bool) (message : μ) {ids : List Nat} (hids : ids.Nodup) (failed : List Nat)
    (s : WebsocketServer μ) (hmem : ∀ id ∈ ids, id ∈ s.connections.map Connection.id) :
    (sendLoop ok message ids failed s).1 = failed ++ ids.filter (fun id => !ok id) ∧
      (sendLoop ok message ids failed s).2.connections =
        s.connections.map fun c => if c.id ∈ ids then c.sent (ok c.id) message else c := by
  induction ids generalizing failed s with
  | nil => simp [sendLoop]
  | cons id ids ih =>
    rw [List.nodup_cons] at hids
    obtain ⟨hid, hrest⟩ := List.forall_mem_cons.1 hmem
    have hsame : (s.send (ok id) message id).2.connections.map Connection.id = s.connections.map Connection.id := by
      rw [send, update, List.map_map]
      refine List.map_congr_left fun c _ => ?_
      simp only [Function.comp_apply]
      split <;> simp
    obtain ⟨hfailed, hconnections⟩ := ih hids.2 (if (s.send (ok id) message id).1 then failed else failed ++ [id])
      (s.send (ok id) message id).2 fun id' hid' => hsame ▸ hrest id' hid'
    refine ⟨hfailed.trans ?_, hconnections.trans ?_⟩
    · have hsent : (s.send (ok id) message id).1 = ok id := by simp [send, hid]
      rw [hsent]
      cases hok : ok id with
      | true => simp [hok]
      | false => simp [hok]
    · rw [send, update, List.map_map]
      refine List.map_congr_left fun c _ => ?_
      simp only [Function.comp_apply, List.mem_cons]
      by_cases hc : c.id = id
      · rw [if_pos hc, if_neg (by rw [Connection.sent_id, hc]; exact hids.1), if_pos (.inl hc), hc]
      · simp [hc]

variable (s : WebsocketServer μ) (ok : Nat → Bool) (message : μ)

/-- Each connection is sent to once, whatever happens to the others. -/
theorem sendToAll_connections :
    (s.sendToAll ok message).2.connections = s.connections.map fun c => c.sent (ok c.id) message := by
  rw [sendToAll, (sendLoop_spec ok message s.id_key [] s fun _ hid => hid).2]
  exact List.map_congr_left fun c hc => if_pos (List.mem_map_of_mem hc)

/-- The ids that are returned are those of the sends that failed. -/
theorem sendToAll_failed :
    (s.sendToAll ok message).1 = (s.connections.map Connection.id).filter fun id => !ok id := by
  rw [sendToAll, (sendLoop_spec ok message s.id_key [] s fun _ hid => hid).1, List.nil_append]

end WebsocketServer

end Elsa
