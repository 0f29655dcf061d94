import EstateServer.Chat.Gateway

/-!
# What a listening socket receives

`delivered`: while a socket that has joined a room stays connected, and its instance subscribed, no
message of the room passes it by.  Once its instance has caught up with the channel it has received
each of them once, in the order in which they were relayed, and so the message of every request that
has succeeded meanwhile.
-/

namespace EstateServer.Chat.Gateway

open Machine Auth PubSub

/-! ## The statement -/

/-- The socket stays connected, and the instance subscribed. -/
def Steady (i : Instance) (k : SocketId) (_ : State) (a : Label) : Prop :=
  a ≠ .lose i ∧ a ≠ .disconnect k

/-- The messages of a room. -/
abbrev inRoom (roomId : RoomId) (payloads : List ChatMessagePayload) : List ChatMessagePayload :=
  PubSub.ofRoom ChatMessagePayload.roomId roomId payloads

/-- The messages of a room that have been relayed from the position `n` on. -/
def State.relayedFrom (s : State) (roomId : RoomId) (n : ℕ) : List ChatMessagePayload :=
  inRoom roomId ((s.sending.relayed.map Prod.snd).drop n)

/-- Between `s`, where the socket was listening at the position `n`, and `s'` it has missed nothing. -/
structure Delivered (s s' : State) (k : SocketId) (roomId : RoomId) (link link' : Link) (n : ℕ) :
    Prop where
  here : s'.link k = some link'
  received : inRoom roomId link'.received =
    inRoom roomId link.received ++ s'.relayedFrom roomId n
  /-- What was sent in the meantime is there. -/
  sent : ∀ p payload, s.sending.phase p = .idle → s'.sending.phase p = .done (.sent payload) →
    payload.roomId = roomId → payload ∈ link'.received

/-! ## Runs of the hub -/

variable {jwt : JwtModule} {s s' s₀ : State} {k : SocketId} {roomId : RoomId} {link : Link} {n : ℕ}
  {i : Instance} {tr tr' : List (Step State Label)}

theorem hub_of_run (run : (gateway jwt).Run (Steady i k) s tr s') :
    ∃ steps, relay.Run (PubSub.Steady i k) s.hub steps s'.hub := by
  refine run.simulate State.hub fun s a t steady next => ?_
  rcases (Moves.of_next next).hub_step with same | ⟨b, mirrors, moved⟩
  · exact ⟨[], same ▸ .refl _⟩
  · exact ⟨_, .single ⟨fun lost => steady.1 (mirrors.lose i lost),
      fun gone => steady.2 (mirrors.disconnect k gone)⟩ moved⟩

/-- What an instance is handed, its handler emits. -/
theorem emits (i : Instance) (s : State) (hub : Hub) (next : relay.next s.hub (.deliver i) = some hub) :
    ∃ t, (gateway jwt).next s (.relay i) = some t ∧ t.hub = hub := by
  refine ⟨s.rewire hub, ?_, hub_rewire next (by simp)⟩
  show (relay.next s.hub (.deliver i)).map _ = _
  rw [next]
  rfl

theorem sending_of_relays (run : (gateway jwt).Run (fun _ a => a = .relay i) s tr s') :
    s'.sending = s.sending := by
  refine run.invariant (I := fun t => t.sending = s.sending) ?_ rfl
  rintro t a u same rfl next
  obtain ⟨hub, -, rfl⟩ := Option.map_eq_some_iff.1 next
  exact same

theorem relayed_prefix {C : State → Label → Prop} (run : (gateway jwt).Run C s tr s') :
    s.sending.relayed <+: s'.sending.relayed := by
  refine run.invariant (I := fun t => s.sending.relayed <+: t.sending.relayed) ?_ List.prefix_rfl
  intro t a u h _ next
  rcases (Moves.of_next next).sending_step with same | ⟨b, moved⟩
  · rwa [same]
  · rcases Delivery.relayed_of_moves (.of_next moved) with same | ⟨p, message, -, published⟩
    · rwa [same]
    · rw [published]
      exact h.trans (List.prefix_append ..)

/-! ## What the socket has received -/

/-- A request that has begun after `s` and has succeeded by `s'` has relayed its message in between. -/
theorem mem_relayedFrom {p : Delivery.Pid} {payload : ChatMessagePayload}
    (before : Delivery.Sound s.sending) (after : Delivery.Sound s'.sending)
    (grown : s.sending.relayed <+: s'.sending.relayed) (bounded : n ≤ s.sending.relayed.length)
    (idle : s.sending.phase p = .idle) (sent : s'.sending.phase p = .done (.sent payload))
    (same : payload.roomId = roomId) : payload ∈ s'.relayedFrom roomId n := by
  have unknown := before.known p
  have known := after.known p
  rw [idle] at unknown
  rw [sent] at known
  have mem := (known.1 payload).2 rfl
  obtain ⟨rest, grown⟩ := grown
  rw [← grown] at mem
  have new : (p, payload) ∈ rest := by
    refine (List.mem_append.1 mem).resolve_left fun old => ?_
    cases (unknown.1 payload).1 old
  refine List.mem_filter.2 ⟨?_, decide_eq_true same⟩
  rw [← grown, List.map_append, List.drop_append_of_le_length (by simpa using bounded)]
  exact List.mem_append_right _ (List.mem_map_of_mem (f := Prod.snd) new)

/-- A socket that listens to a room misses no message of it: its instance only has to catch up. -/
theorem delivered (init : (gateway jwt).start s₀) (run : (gateway jwt).Run Any s₀ tr s)
    (listening : Listening s.hub k roomId link n)
    (run' : (gateway jwt).Run (Steady link.home k) s tr' s') :
    ∃ steps s'' link', (gateway jwt).Run (fun _ a => a = .relay link.home) s' steps s'' ∧
      s''.sending = s'.sending ∧ Delivered s s'' k roomId link link' n := by
  have h := justified_of_run init run
  have h' := justified_of_run init (run.trans (run'.mono fun _ _ _ => trivial))
  obtain ⟨steps, moved⟩ := hub_of_run run'
  obtain ⟨tr'', s'', link', relays, here, received⟩ := exists_received emits h.hub listening moved
  have same : s''.sending = s'.sending := sending_of_relays relays
  have received : inRoom roomId link'.received =
      inRoom roomId link.received ++ s''.relayedFrom roomId n := by
    rw [State.relayedFrom, same]
    exact received
  refine ⟨tr'', s'', link', relays, same, here, received, ?_⟩
  intro p payload idle sent room
  have bounded : n ≤ s.sending.relayed.length := by
    simpa [State.hub] using h.hub.cursor _ _ listening.cursor
  have mem : payload ∈ s''.relayedFrom roomId n := mem_relayedFrom h.sending (same ▸ h'.sending)
    (same ▸ relayed_prefix run') bounded idle sent room
  have mem := List.mem_append_right (inRoom roomId link.received) mem
  rw [← received] at mem
  exact List.mem_of_mem_filter mem

/-! ## A message to a socket that listens -/

instance (i : Instance) (k : SocketId) (s : State) (a : Label) : Decidable (Steady i k s a) :=
  inferInstanceAs (Decidable (_ ∧ _))

theorem delivered_of_message : ∃ tr s tr' s' steps s'' link'',
    (gateway jwt0).Run Any quiet7 tr s ∧ (gateway jwt0).Run (Steady 0 10) s tr' s' ∧
      (gateway jwt0).Run (fun _ a => a = .relay 0) s' steps s'' ∧
      s''.link 10 = some link'' ∧ inRoom 7 link''.received = [⟨7, 5, 2, "안녕", 0⟩] := by
  have computed : ((gateway jwt0).exec (fun _ _ => true) quiet7 joining).bind (fun s =>
      ((gateway jwt0).exec (fun s a => decide (Steady 0 10 s a)) s writing.dropLast).map fun s' =>
        (s.link 10, s.cursor 0, s'.relayedFrom 7 0)) =
      some (some ⟨0, true, [7], []⟩, some 0, [⟨7, 5, 2, "안녕", 0⟩]) := by
    decide
  obtain ⟨s, reached, computed⟩ := Option.bind_eq_some_iff.1 computed
  obtain ⟨s', reached', seen⟩ := Option.map_eq_some_iff.1 computed
  obtain ⟨tr, run, -⟩ := exists_run_of_exec (C := Any) (fun _ _ _ => trivial) reached
  obtain ⟨tr', run', -⟩ := exists_run_of_exec (C := Steady 0 10) (by simp) reached'
  simp only [Prod.mk.injEq] at seen
  obtain ⟨here, cursor, relayed⟩ := seen
  obtain ⟨steps, s'', link'', relays, sending, delivered⟩ :=
    delivered quiet7_start run ⟨here, rfl, List.mem_singleton_self 7, cursor⟩ run'
  refine ⟨tr, s, tr', s', steps, s'', link'', run, run', relays, delivered.here, ?_⟩
  have same : s''.relayedFrom 7 0 = s'.relayedFrom 7 0 := by
    rw [State.relayedFrom, sending, State.relayedFrom]
  rw [delivered.received, same, relayed]
  rfl

end EstateServer.Chat.Gateway
