import EstateServer.Chat.Delivery

/-!
# What the relay publishes

The messages that `SendMessage` publishes: each was created by its request, whose sender was a
participant of its room then, and none is published twice (`Relayed`).
-/

namespace EstateServer.Chat.Delivery

open Machine

variable {s s' s₀ : State} {a : Label} {p : Pid} {phase after : Phase} {message : Message}
  {payload : ChatMessagePayload} {input : SendMessageInput} {tr : List (Step State Label)}

/-! ## What a request creates -/

/-- The message is what its sender has asked for, and the sender takes part in the room. -/
structure Prepared (rooms : ChatRoomTable) (input : SendMessageInput) (message : Message) : Prop where
  roomId : message.roomId = input.roomId
  senderId : message.senderId = input.userId
  content : message.content = input.content
  participant : ∃ room, rooms.findById input.roomId = some room ∧
    room.isParticipant (some input.userId) = true

theorem prepared_of_prepare {rooms : ChatRoomTable} {id : MessageId} {createdAt : Instant}
    (h : prepare rooms id createdAt input = .ok message) : Prepared rooms input message := by
  unfold prepare at h
  split at h
  · cases h
  · rename_i room found
    split_ifs at h with stranger
    unfold Message.create at h
    split_ifs at h with full
    · cases h
      exact ⟨rfl, rfl, rfl, room, found, by simpa using stranger⟩
    · cases h

theorem created_effect : (s.effect p phase).created = s.created := by cases phase <;> rfl

theorem rooms_effect : (s.effect p phase).rooms = s.rooms := by cases phase <;> rfl

/-- A step creates the messages that it has prepared. -/
theorem created_of_next (next : sending.next s a = some s') (mem : (p, message) ∈ s'.created) :
    (p, message) ∈ s.created ∨
      ∃ input, s.phase p = .findRoom input ∧ Prepared s.rooms input message := by
  cases a with
  | step q id =>
    simp only [sending, State.next] at next
    split at next
    · split at next
      · rw [← Option.some.inj next] at mem
        exact .inl mem
      · split_ifs at next with new
        rw [← Option.some.inj next] at mem
        rcases List.mem_append.1 mem with mem | mem
        · exact .inl mem
        · obtain ⟨rfl, rfl⟩ := Prod.mk.inj (List.mem_singleton.1 mem)
          exact .inr ⟨_, ‹_›, prepared_of_prepare ‹_›⟩
    · obtain ⟨after, -, rfl⟩ := Option.map_eq_some_iff.1 next
      exact .inl (created_effect ▸ mem)
  | arrive q input =>
    simp only [sending, State.next] at next
    split_ifs at next
    rw [← Option.some.inj next] at mem
    exact .inl mem
  | fail q applied =>
    by_cases may : (s.phase q).mayFail = true
    · rw [← Option.some.inj ((if_pos may).symm.trans next)] at mem
      cases applied with
      | false => exact .inl mem
      | true => exact .inl (created_effect ▸ mem)
    · cases (if_neg may).symm.trans next
  | consume event =>
    simp only [sending, State.next] at next
    split_ifs at next
    rw [← Option.some.inj next] at mem
    exact .inl mem
  | rooms rooms =>
    rw [← Option.some.inj next] at mem
    exact .inl mem
  | advance now =>
    simp only [sending, State.next] at next
    split_ifs at next
    rw [← Option.some.inj next] at mem
    exact .inl mem

theorem rooms_of_moves (moves : Moves s a s') (other : ∀ rooms, a ≠ .rooms rooms) :
    s'.rooms = s.rooms := by
  cases moves with
  | act => exact rooms_effect
  | @fail p applied =>
    cases applied with
    | false => rfl
    | true => exact rooms_effect
  | rooms => exact absurd rfl (other _)
  | _ => rfl

/-- Only an arrival starts a request. -/
theorem findRoom_of_moves (moves : Moves s a s') (here : s'.phase p = .findRoom input) :
    s.phase p = .findRoom input ∨ a = .arrive p input := by
  have kept : ∀ {q phase phases}, phases = s.phase → (∀ input, phase ≠ .findRoom input) →
      Function.update phases q phase p = .findRoom input → s.phase p = .findRoom input := by
    intro q phase phases same other here
    by_cases own : p = q
    · subst own
      exact absurd ((Function.update_self ..).symm.trans here) (other input)
    · rw [Function.update_of_ne own, same] at here
      exact here
  cases moves with
  | @arrive q arrived idle =>
    by_cases own : p = q
    · subst own
      exact .inr (by rw [Phase.findRoom.inj ((Function.update_self ..).symm.trans here)])
    · exact .inl ((Function.update_of_ne own ..).symm.trans here)
  | reject => exact .inl (kept rfl (fun _ => Phase.noConfusion) here)
  | create => exact .inl (kept rfl (fun _ => Phase.noConfusion) here)
  | @act q id phase after =>
    refine .inl (kept phase_effect ?_ here)
    rintro input rfl
    revert after
    cases s.phase q <;> simp [Phase.after]
  | @fail q applied =>
    refine .inl (kept ?_ (fun _ => Phase.noConfusion) here)
    cases applied with
    | false => rfl
    | true => exact phase_effect
  | consume => exact .inl here
  | rooms => exact .inl here
  | advance => exact .inl here

/-! ## What a request publishes -/

theorem relayed_effect : (s.effect p phase).relayed = s.relayed ∨
    ∃ message, phase = .publish message ∧
      (s.effect p phase).relayed = s.relayed ++ [(p, message.payload)] := by
  cases phase with
  | publish message => exact .inr ⟨message, rfl, rfl⟩
  | _ => exact .inl rfl

theorem relayed_of_moves (moves : Moves s a s') : s'.relayed = s.relayed ∨
    ∃ p message, s.phase p = .publish message ∧
      s'.relayed = s.relayed ++ [(p, message.payload)] := by
  cases moves with
  | @act p id phase after => exact relayed_effect.imp_right fun ⟨message, h⟩ => ⟨p, message, h⟩
  | @fail p applied may =>
    cases applied with
    | false => exact .inl rfl
    | true => exact relayed_effect.imp_right fun ⟨message, h⟩ => ⟨p, message, h⟩
  | _ => exact .inl rfl

theorem created_subset (moves : Moves s a s') : s.created ⊆ s'.created := by
  cases moves with
  | create => exact List.subset_append_left ..
  | act => exact created_effect ▸ List.Subset.refl _
  | @fail p applied =>
    cases applied with
    | false => exact List.Subset.refl _
    | true => exact created_effect ▸ List.Subset.refl _
  | _ => exact List.Subset.refl _

/-- What is published was created, and no message is published twice. -/
structure Relayed (s : State) : Prop where
  origin : ∀ p payload, (p, payload) ∈ s.relayed →
    ∃ message, (p, message) ∈ s.created ∧ payload = message.payload
  once : ((s.relayed.map Prod.snd).map ChatMessagePayload.messageId).Nodup

theorem Relayed.publish (h : Relayed s) (sound : Sound s) (here : s.phase p = .publish message) :
    (((s.relayed ++ [(p, message.payload)]).map Prod.snd).map
      ChatMessagePayload.messageId).Nodup := by
  have known := sound.known p
  rw [here] at known
  obtain ⟨created, unpublished, -⟩ := known
  simp only [List.map_append, List.map_cons, List.map_nil]
  refine List.nodup_append.2 ⟨h.once, List.nodup_singleton _, ?_⟩
  intro id mem id' mem' same
  rw [List.mem_singleton.1 mem'] at same
  subst same
  obtain ⟨payload, published, same⟩ := List.mem_map.1 mem
  obtain ⟨⟨q, payload⟩, entry, rfl⟩ := List.mem_map.1 published
  obtain ⟨other, created', rfl⟩ := h.origin q payload entry
  obtain ⟨rfl, -⟩ := sound.books.unique q p other message created' created same
  cases (unpublished _).1 entry

theorem Moves.relayed (moves : Moves s a s') (sound : Sound s) (h : Relayed s) : Relayed s' := by
  have grown := created_subset moves
  rcases relayed_of_moves moves with same | ⟨p, message, here, published⟩
  · constructor
    · rw [same]
      exact fun q payload mem => (h.origin q payload mem).imp fun _ => And.imp_left (@grown _)
    · rw [same]
      exact h.once
  · constructor
    · rw [published]
      intro q payload mem
      rcases List.mem_append.1 mem with mem | mem
      · exact (h.origin q payload mem).imp fun _ => And.imp_left (@grown _)
      · obtain ⟨rfl, rfl⟩ := Prod.mk.inj (List.mem_singleton.1 mem)
        have known := sound.known q
        rw [here] at known
        exact ⟨message, grown known.1, rfl⟩
    · rw [published]
      exact h.publish sound here

theorem relayed_of_start (init : sending.start s) : Relayed s := by
  obtain ⟨-, -, relayed, -⟩ := init
  exact ⟨by simp [relayed], by simp [relayed]⟩

end EstateServer.Chat.Delivery
