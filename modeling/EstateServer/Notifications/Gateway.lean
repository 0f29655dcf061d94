import EstateServer.Auth.TokenKinds
import EstateServer.Library.PubSub
import EstateServer.Notifications.Origins

/-!
# The gateway of the notifications

A socket of the namespace `notifications` joins one room, that of the `sub` of its token, while the
workers handle events and users read what they are told.  The channel is what the workers have
published, and the sockets are those of a hub (`State.hub`).

`notified`: a socket receives the notifications of its own user only, each a row of the table, in the
order in which they were published and each at most once.  `caught_up`: a socket that stays connected
misses none that was published.
-/

namespace EstateServer.Notifications.Gateway

open Machine Auth PubSub

abbrev Instance := ℕ

abbrev SocketId := ℕ

/-- The room `user:${sub}`; that of a token without a `sub` is `user:undefined`. -/
abbrev Room := Option UserId

/-- The room that a payload is emitted to. -/
def room (payload : NotificationPushPayload) : Room := some payload.recipientId

abbrev Link := PubSub.Link Instance Room NotificationPushPayload

abbrev Hub := PubSub.Hub Instance SocketId Room NotificationPushPayload

abbrev HubLabel := PubSub.Label Instance SocketId Room NotificationPushPayload

abbrev relay : Machine Hub HubLabel := pubSub room

structure State where
  requests : Notifications.State
  cursor : Instance → Option ℕ
  link : SocketId → Option Link

inductive Label
  /-- `onModuleInit` subscribes, and the subscription is renewed after it was lost. -/
  | subscribe (i : Instance)
  | lose (i : Instance)
  /-- The handler of the subscription emits the next notification. -/
  | relay (i : Instance)
  /-- `handleConnection`; a handshake without a token, or with another text, is `none`. -/
  | connect (k : SocketId) (i : Instance) (token : Option Jwt) (now : Instant)
  | disconnect (k : SocketId)
  | request (a : Notifications.Label)
  deriving DecidableEq, Repr

namespace State

variable (s : State)

/-- The channel `notifications`, and those who listen to it. -/
def hub : Hub where
  channel := s.requests.published
  cursor := s.cursor
  link := s.link

def rewire (hub : Hub) : State := { s with cursor := hub.cursor, link := hub.link }

/-- A step of the hub that publishes nothing. -/
def wire (a : HubLabel) : Option State := (relay.next s.hub a).map s.rewire

/-- The state after a step. -/
def next (jwt : JwtModule) : Label → Option State
  | .subscribe i => s.wire (.subscribe i)
  | .lose i => s.wire (.lose i)
  | .relay i => s.wire (.deliver i)
  | .connect k i token now =>
    match token.bind (·.verify jwt.secret now) with
    -- the client is disconnected at once
    | none => some s
    | some payload => (s.wire (.connect k i)).bind (·.wire (.join k payload.sub))
  | .disconnect k => s.wire (.disconnect k)
  | .request a => (notifications.next s.requests a).map fun requests => { s with requests }

end State

/-- The gateway beside the workers, with any rows and counters there. -/
def gateway (jwt : JwtModule) : Machine State Label where
  start s := notifications.start s.requests ∧ s.requests.published = [] ∧
    (s.cursor = fun _ => none) ∧ s.link = fun _ => none
  next s a := s.next jwt a

/-! ## The statement -/

/-- The database draws an id that no row has. -/
def Fresh (s : State) (a : Label) : Prop := ∀ b, a = .request b → Notifications.Fresh s.requests b

/-- What the workers and the readers have done. -/
def requests (tr : List (Step State Label)) : List (Step Notifications.State Notifications.Label) :=
  tr.filterMap fun st =>
    match st.label with
    | .request a => some ⟨st.pre.requests, a, st.post.requests⟩
    | _ => none

/-- The socket has connected with a token of the user. -/
def Authentic (jwt : JwtModule) (tr : List (Step State Label)) (k : SocketId) (userId : UserId) :
    Prop :=
  ∃ st ∈ tr, ∃ i token now claims, st.label = .connect k i (some token) now ∧
    token.verify jwt.secret now = some claims ∧ claims.sub = some userId

structure Notified (jwt : JwtModule) (tr : List (Step State Label)) (s : State) (k : SocketId)
    (link : Link) : Prop where
  own : ∀ payload ∈ link.received, Authentic jwt tr k payload.recipientId
  stored : ∀ payload ∈ link.received, ∃ row ∈ s.requests.table.rows,
    Told (requests tr) row ∧ row.push = payload
  order : link.received.Sublist s.requests.published
  once : (link.received.map (·.id)).Nodup

/-- The socket stays connected, and the instance subscribed. -/
def Steady (i : Instance) (k : SocketId) (_ : State) (a : Label) : Prop :=
  a ≠ .lose i ∧ a ≠ .disconnect k

/-- The notifications of a user. -/
abbrev ofUser (userId : UserId) (payloads : List NotificationPushPayload) :
    List NotificationPushPayload :=
  ofRoom room (some userId) payloads

/-! ## The hub -/

variable {jwt : JwtModule} {s s' s₀ : State} {a : Label} {b : HubLabel} {hub : Hub} {k : SocketId}
  {i : Instance} {userId : UserId} {link : Link} {n : ℕ} {tr tr' : List (Step State Label)}

theorem hub_rewire (next : relay.next s.hub b = some hub) (quiet : ∀ payload, b ≠ .publish payload) :
    (s.rewire hub).hub = hub := by
  have same := (PubSub.Moves.of_next next).channel_eq quiet
  obtain ⟨channel, cursor, link⟩ := hub
  subst same
  rfl

theorem wire_eq_some (wired : s.wire b = some s') (quiet : ∀ payload, b ≠ .publish payload) :
    relay.next s.hub b = some s'.hub ∧ s'.requests = s.requests := by
  obtain ⟨hub, next, rfl⟩ := Option.map_eq_some_iff.1 wired
  exact ⟨by rw [hub_rewire next quiet]; exact next, rfl⟩

/-- A request publishes at most one notification. -/
theorem hub_of_request {a : Notifications.Label} {t : Notifications.State}
    (next : notifications.next s.requests a = some t) : ∃ steps,
      relay.Run (fun _ b => ∃ payload, b = .publish payload) s.hub steps
        { s.hub with channel := t.published } := by
  rcases (does_of_next next).published with same | ⟨p, delivery, created, -, published, -⟩
  · exact ⟨[], by rw [same]; exact .refl s.hub⟩
  · refine ⟨_, .single (a := .publish (delivery.payload created)) ⟨_, rfl⟩ ?_⟩
    rw [published]
    rfl

/-- A step of the hub that may be behind the label. -/
structure Mirrors (a : Label) (b : HubLabel) : Prop where
  lose : ∀ i, b = .lose i → a = .lose i
  disconnect : ∀ k, b = .disconnect k → a = .disconnect k

theorem mirrors_of_quiet (lose : ∀ i, b ≠ .lose i) (disconnect : ∀ k, b ≠ .disconnect k) :
    Mirrors a b :=
  ⟨fun i same => absurd same (lose i), fun k same => absurd same (disconnect k)⟩

theorem hub_of_wire (wired : s.wire b = some s') (quiet : ∀ payload, b ≠ .publish payload)
    (mirrors : Mirrors a b) : ∃ steps, relay.Run (fun _ b => Mirrors a b) s.hub steps s'.hub :=
  ⟨_, .single mirrors (wire_eq_some wired quiet).1⟩

/-- What a step does to the hub. -/
theorem hub_of_next (next : (gateway jwt).next s a = some s') :
    ∃ steps, relay.Run (fun _ b => Mirrors a b) s.hub steps s'.hub := by
  cases a with
  | subscribe i =>
    exact hub_of_wire (b := .subscribe i) next (by simp) (mirrors_of_quiet (by simp) (by simp))
  | lose i => exact hub_of_wire (b := .lose i) next (by simp) ⟨by simp, by simp⟩
  | relay i =>
    exact hub_of_wire (b := .deliver i) next (by simp) (mirrors_of_quiet (by simp) (by simp))
  | disconnect k => exact hub_of_wire (b := .disconnect k) next (by simp) ⟨by simp, by simp⟩
  | connect k i token now =>
    simp only [gateway, State.next] at next
    split at next
    · rw [← Option.some.inj next]
      exact ⟨[], .refl _⟩
    · obtain ⟨t, connected, joined⟩ := Option.bind_eq_some_iff.1 next
      obtain ⟨steps, first⟩ := hub_of_wire (a := .connect k i token now) connected (by simp)
        (mirrors_of_quiet (by simp) (by simp))
      obtain ⟨steps', second⟩ := hub_of_wire (a := .connect k i token now) joined (by simp)
        (mirrors_of_quiet (by simp) (by simp))
      exact ⟨_, first.trans second⟩
  | request a =>
    obtain ⟨t, stepped, rfl⟩ := Option.map_eq_some_iff.1 next
    obtain ⟨steps, run⟩ := hub_of_request stepped
    exact ⟨steps, run.mono fun _ b ⟨payload, published⟩ =>
      mirrors_of_quiet (by simp [published]) (by simp [published])⟩

theorem hub_of_run (run : (gateway jwt).Run (Steady i k) s tr s') :
    ∃ steps, relay.Run (PubSub.Steady i k) s.hub steps s'.hub := by
  refine run.simulate State.hub fun s a t steady next => ?_
  obtain ⟨steps, moved⟩ := hub_of_next next
  exact ⟨steps, moved.mono fun _ b mirrors => ⟨fun lost => steady.1 (mirrors.lose i lost),
    fun gone => steady.2 (mirrors.disconnect k gone)⟩⟩

/-! ## The requests -/

theorem requests_of_wire (wired : s.wire b = some s') : s'.requests = s.requests := by
  obtain ⟨hub, -, rfl⟩ := Option.map_eq_some_iff.1 wired
  rfl

/-- The other steps leave the requests alone. -/
theorem requests_of_next (next : (gateway jwt).next s a = some s') :
    (∀ b, a ≠ .request b) ∧ s'.requests = s.requests ∨
      ∃ b, a = .request b ∧ notifications.next s.requests b = some s'.requests := by
  cases a with
  | subscribe i => exact .inl ⟨by simp, requests_of_wire (b := .subscribe i) next⟩
  | lose i => exact .inl ⟨by simp, requests_of_wire (b := .lose i) next⟩
  | relay i => exact .inl ⟨by simp, requests_of_wire (b := .deliver i) next⟩
  | disconnect k => exact .inl ⟨by simp, requests_of_wire (b := .disconnect k) next⟩
  | connect k i token now =>
    refine .inl ⟨by simp, ?_⟩
    simp only [gateway, State.next] at next
    split at next
    · rw [← Option.some.inj next]
    · obtain ⟨t, connected, joined⟩ := Option.bind_eq_some_iff.1 next
      exact (requests_of_wire joined).trans (requests_of_wire connected)
  | request b =>
    obtain ⟨t, stepped, rfl⟩ := Option.map_eq_some_iff.1 next
    exact .inr ⟨b, rfl, stepped⟩

theorem requests_concat {st : Step State Label} (other : ∀ b, st.label ≠ .request b) :
    requests (tr ++ [st]) = requests tr := by
  obtain ⟨pre, a, post⟩ := st
  have nothing : requests [⟨pre, a, post⟩] = [] := by
    cases a with
    | request b => exact absurd rfl (other b)
    | _ => rfl
  have split : requests (tr ++ [⟨pre, a, post⟩]) = requests tr ++ requests [⟨pre, a, post⟩] :=
    List.filterMap_append
  rw [split, nothing, List.append_nil]

theorem requests_of_run (run : (gateway jwt).Run Fresh s₀ tr s) :
    notifications.Run Notifications.Fresh s₀.requests (requests tr) s.requests := by
  induction run with
  | refl => exact .refl _
  | @snoc t u tr a run fresh next ih =>
    rcases requests_of_next next with ⟨other, same⟩ | ⟨b, rfl, stepped⟩
    · rw [requests_concat other, same]
      exact ih
    · have last : requests (tr ++ [⟨t, .request b, u⟩]) =
          requests tr ++ [⟨t.requests, b, u.requests⟩] := List.filterMap_append
      rw [last]
      exact ih.snoc (fresh b rfl) stepped

/-! ## The rooms -/

/-- Every room that a socket has joined is that of a token that it has connected with. -/
structure Justified (jwt : JwtModule) (tr : List (Step State Label)) (s : State) : Prop where
  hub : PubSub.Sound room s.hub
  joined : ∀ k link, s.link k = some link → ∀ userId, some userId ∈ link.joined →
    Authentic jwt tr k userId

theorem Authentic.concat {st : Step State Label} (h : Authentic jwt tr k userId) :
    Authentic jwt (tr ++ [st]) k userId := by
  obtain ⟨st', mem, h⟩ := h
  exact ⟨st', List.mem_append_left _ mem, h⟩

/-- A step of the hub that joins no room. -/
theorem joined_of_wire (wired : s.wire b = some s') (quiet : ∀ k r, b ≠ .join k r)
    (here : s'.link k = some link) {r : Room} (mem : r ∈ link.joined) :
    ∃ link, s.link k = some link ∧ r ∈ link.joined := by
  obtain ⟨hub, next, rfl⟩ := Option.map_eq_some_iff.1 wired
  exact ((PubSub.Moves.of_next next).joined here mem).resolve_right (quiet k r)

/-- A socket joins a room when it connects. -/
theorem joined_of_next (next : (gateway jwt).next s a = some s') (here : s'.link k = some link)
    (mem : some userId ∈ link.joined) : (∃ link, s.link k = some link ∧ some userId ∈ link.joined) ∨
      ∃ i token now claims, a = .connect k i (some token) now ∧
        token.verify jwt.secret now = some claims ∧ claims.sub = some userId := by
  cases a with
  | subscribe i => exact .inl (joined_of_wire (b := .subscribe i) next (by simp) here mem)
  | lose i => exact .inl (joined_of_wire (b := .lose i) next (by simp) here mem)
  | relay i => exact .inl (joined_of_wire (b := .deliver i) next (by simp) here mem)
  | disconnect k => exact .inl (joined_of_wire (b := .disconnect k) next (by simp) here mem)
  | connect l i token now =>
    simp only [gateway, State.next] at next
    split at next
    · rw [← Option.some.inj next] at here
      exact .inl ⟨link, here, mem⟩
    · rename_i payload verified
      obtain ⟨token, rfl, signed⟩ := Option.bind_eq_some_iff.1 verified
      obtain ⟨t, connected, joined⟩ := Option.bind_eq_some_iff.1 next
      obtain ⟨hub, stepped, rfl⟩ := Option.map_eq_some_iff.1 joined
      rcases (PubSub.Moves.of_next stepped).joined here mem with ⟨link, there, mem⟩ | own
      · exact .inl (joined_of_wire connected (by simp) there mem)
      · obtain ⟨rfl, sub⟩ := PubSub.Label.join.inj own
        exact .inr ⟨i, token, now, payload, rfl, signed, sub⟩
  | request b =>
    obtain ⟨t, stepped, rfl⟩ := Option.map_eq_some_iff.1 next
    exact .inl ⟨link, here, mem⟩

theorem justified_of_next (next : (gateway jwt).next s a = some s') (h : Justified jwt tr s) :
    Justified jwt (tr ++ [⟨s, a, s'⟩]) s' where
  hub := by
    obtain ⟨steps, moved⟩ := hub_of_next next
    exact PubSub.sound_of_run h.hub moved
  joined k link here userId mem := by
    rcases joined_of_next next here mem with ⟨link, there, mem⟩ | ⟨i, token, now, claims, rfl, signed⟩
    · exact (h.joined k link there userId mem).concat
    · exact ⟨_, List.mem_concat_self, i, token, now, claims, rfl, signed⟩

theorem justified_of_run {C : State → Label → Prop} (init : (gateway jwt).start s₀)
    (run : (gateway jwt).Run C s₀ tr s) : Justified jwt tr s := by
  obtain ⟨-, -, cursor, link⟩ := init
  refine run.trace_invariant (fun _ _ _ _ h _ next => justified_of_next next h) ⟨?_, ?_⟩
  · exact PubSub.sound_of_start ⟨cursor, link⟩
  · simp [link]

/-! ## What a socket receives -/

/-- A socket receives the stored notifications of its own user, in order and each at most once. -/
theorem notified (init : (gateway jwt).start s₀) (run : (gateway jwt).Run Fresh s₀ tr s)
    (here : s.link k = some link) : Notified jwt tr s k link := by
  have h := justified_of_run init run
  have told := Notifications.sound_of_run init.1 init.2.1 (requests_of_run run)
  have order : link.received.Sublist s.requests.published :=
    (h.hub.order k link here).trans (List.take_sublist ..)
  exact
    { own := fun payload mem => h.joined k link here _ (h.hub.rooms k link here payload mem)
      stored := fun payload mem => told.pushed payload (order.subset mem)
      order
      once := told.once.sublist (order.map _) }

/-- What an instance is handed, its handler emits. -/
theorem emits (i : Instance) (s : State) (hub : Hub) (next : relay.next s.hub (.deliver i) = some hub) :
    ∃ t, (gateway jwt).next s (.relay i) = some t ∧ t.hub = hub := by
  refine ⟨s.rewire hub, ?_, hub_rewire next (by simp)⟩
  show (relay.next s.hub (.deliver i)).map _ = _
  rw [next]
  rfl

/-- A socket that stays connected misses no notification of its user that is published: its instance
only has to catch up. -/
theorem caught_up (init : (gateway jwt).start s₀) (run : (gateway jwt).Run Any s₀ tr s)
    (listening : Listening s.hub k (some userId) link n)
    (run' : (gateway jwt).Run (Steady link.home k) s tr' s') :
    ∃ steps s'' link', (gateway jwt).Run (fun _ a => a = .relay link.home) s' steps s'' ∧
      s''.link k = some link' ∧ ofUser userId link'.received =
        ofUser userId link.received ++ ofUser userId (s'.requests.published.drop n) := by
  have h := justified_of_run init run
  obtain ⟨steps, moved⟩ := hub_of_run run'
  exact exists_received emits h.hub listening moved

/-! ## A post in building 1 -/

def jwt0 : JwtModule := ⟨"secret", 900000⟩

/-- An access token of the user. -/
def token (userId : UserId) : Jwt :=
  JwtTokenService.issue jwt0 0 { sub := userId, email := "", role := .tenant, fam := 0 }

/-- Nothing has happened. -/
def silent : State where
  requests := empty
  cursor _ := none
  link _ := none

theorem silent_start : (gateway jwt0).start silent := ⟨empty_start, rfl, rfl, rfl⟩

/-- Users 1 and 3 connect, and a worker begins to handle a post that users 1 and 2 are told of. -/
def listening : List Label :=
  [.subscribe 0, .connect 10 0 (some (token 1)) 0, .connect 30 0 (some (token 3)) 0,
    .connect 40 0 none 0, .request (.arrive 0 (.handleEvent (posted 7))), .request (take 0 [1, 2] 9)]

/-- The worker tells both. -/
def telling : List Label :=
  [.request (take 0 [] 0), .request (take 0 [] 9), .request (take 0 [] 9), .request (take 0 [] 1),
    .request (take 0 [] 9), .request (take 0 [] 9)]

/-- `Fresh`, computed. -/
def fresh (s : State) : Label → Bool
  | .request b => Notifications.fresh s.requests b
  | _ => true

theorem fresh_of_checked (s : State) (a : Label) (h : fresh s a = true) : Fresh s a := by
  rintro b rfl
  exact Notifications.fresh_of_checked s.requests b h

theorem notified_of_post : ∃ tr s link, (gateway jwt0).Run Fresh silent tr s ∧
    s.link 10 = some link ∧ link.received.map (·.recipientId) = [1] ∧
    s.link 30 = some ⟨0, true, [some 3], []⟩ ∧ Notified jwt0 tr s 10 link := by
  have computed : ((gateway jwt0).exec fresh silent (listening ++ telling ++ [.relay 0, .relay 0])).map
      (fun s => ((s.link 10).map fun link => link.received.map (·.recipientId), s.link 30)) =
      some (some [1], some ⟨0, true, [some 3], []⟩) := by
    decide
  obtain ⟨s, reached, seen⟩ := Option.map_eq_some_iff.1 computed
  obtain ⟨tr, run, -⟩ := exists_run_of_exec (C := Fresh) fresh_of_checked reached
  obtain ⟨received, other⟩ := Prod.mk.inj seen
  obtain ⟨link, here, received⟩ := Option.map_eq_some_iff.1 received
  exact ⟨tr, s, link, run, here, received, other, notified silent_start run here⟩

instance (i : Instance) (k : SocketId) (s : State) (a : Label) : Decidable (Steady i k s a) :=
  inferInstanceAs (Decidable (_ ∧ _))

theorem caught_up_with_post : ∃ tr s tr' s' steps s'' link',
    (gateway jwt0).Run Any silent tr s ∧ (gateway jwt0).Run (Steady 0 10) s tr' s' ∧
      (gateway jwt0).Run (fun _ a => a = .relay 0) s' steps s'' ∧
      s''.link 10 = some link' ∧ (ofUser 1 link'.received).map (·.id) = [0] := by
  have computed : ((gateway jwt0).exec (fun _ _ => true) silent listening).bind (fun s =>
      ((gateway jwt0).exec (fun s a => decide (Steady 0 10 s a)) s telling).map fun s' =>
        (s.link 10, s.cursor 0, (ofUser 1 (s'.requests.published.drop 0)).map (·.id))) =
      some (some ⟨0, true, [some 1], []⟩, some 0, [0]) := by
    decide
  obtain ⟨s, reached, computed⟩ := Option.bind_eq_some_iff.1 computed
  obtain ⟨s', reached', seen⟩ := Option.map_eq_some_iff.1 computed
  obtain ⟨tr, run, -⟩ := exists_run_of_exec (C := Any) (fun _ _ _ => trivial) reached
  obtain ⟨tr', run', -⟩ := exists_run_of_exec (C := Steady 0 10) (by simp) reached'
  simp only [Prod.mk.injEq] at seen
  obtain ⟨here, cursor, published⟩ := seen
  obtain ⟨steps, s'', link', relays, there, received⟩ :=
    caught_up silent_start run ⟨here, rfl, List.mem_singleton_self _, cursor⟩ run'
  refine ⟨tr, s, tr', s', steps, s'', link', run, run', relays, there, ?_⟩
  rw [received, List.map_append, published]
  rfl

end EstateServer.Notifications.Gateway
