import EstateServer.Library.Machine
import Mathlib.Data.List.Flatten
import Mathlib.Logic.Function.Basic

/-!
# Publish and subscribe

Messages are published to one channel.  A subscribed instance is handed what is published from then on,
in the order of the channel, and emits it to those of its sockets that have joined the room of the
message.  What is published while an instance is not subscribed is lost to it, and so is what it has
not been handed when it loses its subscription.

Whatever happens, a socket receives messages of rooms that it has joined, in the order of the channel
and each at most as often as it was published (`Sound`).  A socket that stays connected to an instance
that stays subscribed misses nothing of a room that it has joined (`complete`).
-/

namespace PubSub

open Machine

/-- A socket: the instance that holds it, whether it is still connected, the rooms that it has joined
and what has been emitted to it. -/
structure Link (ι ρ μ : Type*) where
  home : ι
  connected : Bool
  joined : List ρ
  received : List μ
  deriving DecidableEq, Repr

structure Hub (ι κ ρ μ : Type*) where
  channel : List μ
  /-- How far in the channel a subscribed instance is. -/
  cursor : ι → Option ℕ
  link : κ → Option (Link ι ρ μ)

inductive Label (ι κ ρ μ : Type*)
  | publish (message : μ)
  | subscribe (i : ι)
  | lose (i : ι)
  | deliver (i : ι)
  | connect (k : κ) (i : ι)
  | join (k : κ) (r : ρ)
  | disconnect (k : κ)
  deriving DecidableEq, Repr

section Definitions

variable {ι κ ρ μ : Type*} [DecidableEq ι] [DecidableEq κ] [DecidableEq ρ] (room : μ → ρ)

/-- The instance `i` emits a message. -/
def Link.emit (i : ι) (message : μ) (link : Link ι ρ μ) : Link ι ρ μ :=
  if link.connected = true ∧ link.home = i ∧ room message ∈ link.joined then
    { link with received := link.received ++ [message] }
  else link

/-- The state after a step. -/
def Hub.next (hub : Hub ι κ ρ μ) : Label ι κ ρ μ → Option (Hub ι κ ρ μ)
  | .publish message => some { hub with channel := hub.channel ++ [message] }
  | .subscribe i =>
    if hub.cursor i = none then
      some { hub with cursor := Function.update hub.cursor i (some hub.channel.length) }
    else none
  | .lose i => some { hub with cursor := Function.update hub.cursor i none }
  | .deliver i =>
    (hub.cursor i).bind fun n => hub.channel[n]?.map fun message =>
      { hub with
        cursor := Function.update hub.cursor i (some (n + 1))
        link := fun k => (hub.link k).map (.emit room i message) }
  | .connect k i =>
    if (hub.link k).isNone then
      some { hub with link := Function.update hub.link k (some ⟨i, true, [], []⟩) }
    else none
  | .join k r =>
    (hub.link k).bind fun link =>
      if link.connected then
        some { hub with
          link := Function.update hub.link k (some { link with joined := r :: link.joined }) }
      else none
  | .disconnect k =>
    (hub.link k).map fun link =>
      { hub with link := Function.update hub.link k (some { link with connected := false }) }

/-- No socket, and nobody is subscribed. -/
def pubSub : Machine (Hub ι κ ρ μ) (Label ι κ ρ μ) where
  start hub := (hub.cursor = fun _ => none) ∧ hub.link = fun _ => none
  next hub a := hub.next room a

/-- What an instance has been handed or has missed for good. -/
def Hub.past (hub : Hub ι κ ρ μ) (i : ι) : List μ :=
  hub.channel.take ((hub.cursor i).getD hub.channel.length)

/-- What holds of the hub in every state of every run. -/
structure Sound (hub : Hub ι κ ρ μ) : Prop where
  cursor : ∀ i n, hub.cursor i = some n → n ≤ hub.channel.length
  order : ∀ k link, hub.link k = some link → link.received.Sublist (hub.past link.home)
  rooms : ∀ k link, hub.link k = some link → ∀ message ∈ link.received, room message ∈ link.joined

/-- The connected socket has joined the room, and its instance is subscribed. -/
structure Listening (hub : Hub ι κ ρ μ) (k : κ) (r : ρ) (link : Link ι ρ μ) (n : ℕ) : Prop where
  here : hub.link k = some link
  connected : link.connected = true
  joined : r ∈ link.joined
  cursor : hub.cursor link.home = some n

/-- The instance keeps its subscription, and the socket its connection. -/
def Steady (i : ι) (k : κ) (_ : Hub ι κ ρ μ) (a : Label ι κ ρ μ) : Prop :=
  a ≠ .lose i ∧ a ≠ .disconnect k

end Definitions

variable {ι κ ρ μ : Type*} [DecidableEq ι] [DecidableEq κ] [DecidableEq ρ] {room : μ → ρ}
  {hub hub' : Hub ι κ ρ μ} {a : Label ι κ ρ μ} {i : ι} {k : κ} {r : ρ} {link link' : Link ι ρ μ}
  {message : μ} {n : ℕ} {tr : List (Step (Hub ι κ ρ μ) (Label ι κ ρ μ))}

/-! ## What a step does -/

inductive Moves (room : μ → ρ) (hub : Hub ι κ ρ μ) : Label ι κ ρ μ → Hub ι κ ρ μ → Prop
  | publish {message : μ} :
      Moves room hub (.publish message) { hub with channel := hub.channel ++ [message] }
  | subscribe {i : ι} (away : hub.cursor i = none) : Moves room hub (.subscribe i)
      { hub with cursor := Function.update hub.cursor i (some hub.channel.length) }
  | lose {i : ι} : Moves room hub (.lose i) { hub with cursor := Function.update hub.cursor i none }
  | deliver {i : ι} {n : ℕ} {message : μ} (cursor : hub.cursor i = some n)
      (next : hub.channel[n]? = some message) : Moves room hub (.deliver i)
      { hub with
        cursor := Function.update hub.cursor i (some (n + 1))
        link := fun k => (hub.link k).map (.emit room i message) }
  | connect {k : κ} {i : ι} (new : hub.link k = none) : Moves room hub (.connect k i)
      { hub with link := Function.update hub.link k (some ⟨i, true, [], []⟩) }
  | join {k : κ} {r : ρ} {link : Link ι ρ μ} (here : hub.link k = some link) :
      Moves room hub (.join k r)
      { hub with link := Function.update hub.link k (some { link with joined := r :: link.joined }) }
  | disconnect {k : κ} {link : Link ι ρ μ} (here : hub.link k = some link) :
      Moves room hub (.disconnect k)
      { hub with link := Function.update hub.link k (some { link with connected := false }) }

theorem Moves.of_next (next : (pubSub room).next hub a = some hub') : Moves room hub a hub' := by
  cases a with
  | publish message =>
    rw [← Option.some.inj next]
    exact .publish
  | subscribe i =>
    simp only [pubSub, Hub.next] at next
    split_ifs at next with away
    rw [← Option.some.inj next]
    exact .subscribe away
  | lose i =>
    rw [← Option.some.inj next]
    exact .lose
  | deliver i =>
    simp only [pubSub, Hub.next] at next
    obtain ⟨n, cursor, next⟩ := Option.bind_eq_some_iff.1 next
    obtain ⟨message, found, rfl⟩ := Option.map_eq_some_iff.1 next
    exact .deliver cursor found
  | connect k i =>
    simp only [pubSub, Hub.next] at next
    split_ifs at next with new
    rw [← Option.some.inj next]
    exact .connect (Option.isNone_iff_eq_none.1 new)
  | join k r =>
    simp only [pubSub, Hub.next] at next
    obtain ⟨link, here, next⟩ := Option.bind_eq_some_iff.1 next
    split_ifs at next
    rw [← Option.some.inj next]
    exact .join here
  | disconnect k =>
    simp only [pubSub, Hub.next] at next
    obtain ⟨link, here, rfl⟩ := Option.map_eq_some_iff.1 next
    exact .disconnect here

/-- Only `publish` writes to the channel. -/
theorem Moves.channel_eq (moves : Moves room hub a hub') (quiet : ∀ message, a ≠ .publish message) :
    hub'.channel = hub.channel := by
  cases moves with
  | publish => exact absurd rfl (quiet _)
  | _ => rfl

/-! ## Emitting a message -/

theorem emit_eq_self (other : ¬ (link.connected = true ∧ link.home = i ∧ room message ∈ link.joined)) :
    link.emit room i message = link := if_neg other

theorem emit_eq (hit : link.connected = true ∧ link.home = i ∧ room message ∈ link.joined) :
    link.emit room i message = { link with received := link.received ++ [message] } := if_pos hit

@[simp]
theorem home_emit : (link.emit room i message).home = link.home := by
  unfold Link.emit
  split_ifs <;> rfl

@[simp]
theorem connected_emit : (link.emit room i message).connected = link.connected := by
  unfold Link.emit
  split_ifs <;> rfl

@[simp]
theorem joined_emit : (link.emit room i message).joined = link.joined := by
  unfold Link.emit
  split_ifs <;> rfl

/-! ## The order of the messages -/

/-- What an instance has behind it only grows. -/
theorem Moves.past_prefix (moves : Moves room hub a hub') (sound : Sound room hub) (i : ι) :
    hub.past i <+: hub'.past i := by
  unfold Hub.past
  cases moves with
  | @publish message =>
    cases here : hub.cursor i with
    | none => simp [List.take_of_length_le]
    | some n =>
      simp only [Option.getD_some, List.take_append_of_le_length (sound.cursor i n here)]
      exact List.prefix_rfl
  | @subscribe j away =>
    by_cases same : i = j
    · subst same
      simp [away]
    · simp [Function.update_of_ne same]
  | @lose j =>
    by_cases same : i = j
    · subst same
      simp only [Function.update_self, Option.getD_none, List.take_length]
      exact List.take_prefix _ hub.channel
    · simp [Function.update_of_ne same]
  | @deliver j n message cursor next =>
    by_cases same : i = j
    · subst same
      simp only [cursor, Function.update_self, Option.getD_some]
      exact List.take_prefix_take_left n.le_succ
    · simp [Function.update_of_ne same]
  | connect => exact List.prefix_rfl
  | join => exact List.prefix_rfl
  | disconnect => exact List.prefix_rfl

omit [DecidableEq κ] [DecidableEq ρ] in
/-- What the next message adds to the past of its instance. -/
theorem past_deliver (cursor : hub.cursor i = some n) (next : hub.channel[n]? = some message)
    (link' : κ → Option (Link ι ρ μ)) :
    Hub.past { hub with cursor := Function.update hub.cursor i (some (n + 1)), link := link' } i =
      hub.past i ++ [message] := by
  simp only [Hub.past, Function.update_self, Option.getD_some, cursor, List.take_add_one, next,
    Option.toList_some]

theorem update_eq_some {α β : Type*} [DecidableEq α] {f : α → Option β} {x y : α} {b c : β}
    (h : Function.update f x (some b) y = some c) : y = x ∧ c = b ∨ f y = some c := by
  by_cases same : y = x
  · subst same
    rw [Function.update_self] at h
    exact .inl ⟨rfl, (Option.some.inj h).symm⟩
  · rw [Function.update_of_ne same] at h
    exact .inr h

theorem Moves.cursor_le (moves : Moves room hub a hub') (sound : Sound room hub) {n : ℕ}
    (here : hub'.cursor i = some n) : n ≤ hub'.channel.length := by
  cases moves with
  | publish =>
    rw [List.length_append]
    exact Nat.le_add_right_of_le (sound.cursor i n here)
  | subscribe =>
    obtain ⟨-, rfl⟩ | here := update_eq_some here
    · exact Nat.le_refl _
    · exact sound.cursor i n here
  | @lose j =>
    by_cases same : i = j
    · simp [same] at here
    · simp only [Function.update_of_ne same] at here
      exact sound.cursor i n here
  | deliver cursor next =>
    obtain ⟨-, rfl⟩ | here := update_eq_some here
    · exact (List.getElem?_eq_some_iff.1 next).1
    · exact sound.cursor i n here
  | connect => exact sound.cursor i n here
  | join => exact sound.cursor i n here
  | disconnect => exact sound.cursor i n here

/-- What a step does to a socket. -/
inductive Comes (room : μ → ρ) (hub hub' : Hub ι κ ρ μ) (k : κ) : Link ι ρ μ → Prop
  | connected {i : ι} : Comes room hub hub' k ⟨i, true, [], []⟩
  /-- Nothing is emitted to it. -/
  | kept {link link' : Link ι ρ μ} (old : hub.link k = some link) (home : link'.home = link.home)
      (joined : link.joined ⊆ link'.joined) (received : link'.received = link.received) :
      Comes room hub hub' k link'
  | emitted {link : Link ι ρ μ} {message : μ} (old : hub.link k = some link)
      (hit : room message ∈ link.joined)
      (past : hub'.past link.home = hub.past link.home ++ [message]) :
      Comes room hub hub' k { link with received := link.received ++ [message] }

theorem Moves.comes (moves : Moves room hub a hub') (here : hub'.link k = some link') :
    Comes room hub hub' k link' := by
  cases moves with
  | @deliver j n message cursor next =>
    obtain ⟨link, old, rfl⟩ := Option.map_eq_some_iff.1 here
    by_cases hit : link.connected = true ∧ link.home = j ∧ room message ∈ link.joined
    · rw [emit_eq hit]
      refine .emitted old hit.2.2 ?_
      rw [hit.2.1]
      exact past_deliver cursor next _
    · rw [emit_eq_self hit]
      exact .kept old rfl (List.Subset.refl _) rfl
  | connect =>
    obtain ⟨-, rfl⟩ | here := update_eq_some here
    · exact .connected
    · exact .kept here rfl (List.Subset.refl _) rfl
  | join old =>
    obtain ⟨rfl, rfl⟩ | here := update_eq_some here
    · exact .kept old rfl (List.subset_cons_self ..) rfl
    · exact .kept here rfl (List.Subset.refl _) rfl
  | disconnect old =>
    obtain ⟨rfl, rfl⟩ | here := update_eq_some here
    · exact .kept old rfl (List.Subset.refl _) rfl
    · exact .kept here rfl (List.Subset.refl _) rfl
  | publish => exact .kept here rfl (List.Subset.refl _) rfl
  | subscribe => exact .kept here rfl (List.Subset.refl _) rfl
  | lose => exact .kept here rfl (List.Subset.refl _) rfl

/-- A socket joins a room with a step of its own. -/
theorem Moves.joined (moves : Moves room hub a hub') (here : hub'.link k = some link')
    (mem : r ∈ link'.joined) :
    (∃ link, hub.link k = some link ∧ r ∈ link.joined) ∨ a = .join k r := by
  cases moves with
  | deliver cursor next =>
    obtain ⟨link, old, rfl⟩ := Option.map_eq_some_iff.1 here
    exact .inl ⟨link, old, by rwa [joined_emit] at mem⟩
  | connect =>
    obtain ⟨-, rfl⟩ | here := update_eq_some here
    · exact absurd mem List.not_mem_nil
    · exact .inl ⟨link', here, mem⟩
  | join old =>
    obtain ⟨rfl, rfl⟩ | here := update_eq_some here
    · rcases List.mem_cons.1 mem with rfl | mem
      · exact .inr rfl
      · exact .inl ⟨_, old, mem⟩
    · exact .inl ⟨link', here, mem⟩
  | disconnect old =>
    obtain ⟨rfl, rfl⟩ | here := update_eq_some here
    · exact .inl ⟨_, old, mem⟩
    · exact .inl ⟨link', here, mem⟩
  | publish => exact .inl ⟨link', here, mem⟩
  | subscribe => exact .inl ⟨link', here, mem⟩
  | lose => exact .inl ⟨link', here, mem⟩

theorem Moves.sound (moves : Moves room hub a hub') (sound : Sound room hub) : Sound room hub' where
  cursor i n here := moves.cursor_le sound here
  order k link' here := by
    cases moves.comes here with
    | connected => exact List.nil_sublist _
    | kept old home joined received =>
      rw [received, home]
      exact (sound.order k _ old).trans (moves.past_prefix sound _).sublist
    | emitted old hit past =>
      simp only [past]
      exact (sound.order k _ old).append (List.Sublist.refl _)
  rooms k link' here := by
    cases moves.comes here with
    | connected => exact fun _ mem => absurd mem List.not_mem_nil
    | kept old home joined received =>
      rw [received]
      exact fun message mem => joined (sound.rooms k _ old message mem)
    | emitted old hit past =>
      intro m mem
      rcases List.mem_append.1 mem with mem | mem
      · exact sound.rooms k _ old m mem
      · rw [List.mem_singleton.1 mem]
        exact hit

theorem sound_of_start (init : (pubSub room).start hub) : Sound room hub := by
  obtain ⟨cursor, link⟩ := init
  refine ⟨fun i n here => ?_, fun k l here => ?_, fun k l here => ?_⟩
  · cases (congrFun cursor i).symm.trans here
  · cases (congrFun link k).symm.trans here
  · cases (congrFun link k).symm.trans here

theorem sound_of_run {C : Hub ι κ ρ μ → Label ι κ ρ μ → Prop} (sound : Sound room hub)
    (run : (pubSub room).Run C hub tr hub') : Sound room hub' :=
  run.invariant (fun _ _ _ sound _ next => (Moves.of_next next).sound sound) sound

/-! ## No message is missed -/

/-- The messages of a room. -/
def ofRoom (room : μ → ρ) (r : ρ) (messages : List μ) : List μ :=
  messages.filter fun message => room message = r

theorem ofRoom_append {messages messages' : List μ} :
    ofRoom room r (messages ++ messages') = ofRoom room r messages ++ ofRoom room r messages' :=
  List.filter_append ..

theorem ofRoom_single : ofRoom room r [message] = if room message = r then [message] else [] := by
  simp [ofRoom, List.filter_singleton]

omit [DecidableEq ι] [DecidableEq κ] [DecidableEq ρ] in
theorem past_of_listening (listening : Listening hub k r link n) :
    hub.past link.home = hub.channel.take n := by
  rw [Hub.past, listening.cursor, Option.getD_some]

/-- The socket listens on, and what the instance is handed of the room reaches it. -/
structure Hears (room : μ → ρ) (hub hub' : Hub ι κ ρ μ) (k : κ) (r : ρ) (link link' : Link ι ρ μ)
    (n' : ℕ) (news : List μ) : Prop where
  listening : Listening hub' k r link' n'
  home : link'.home = link.home
  past : hub'.past link.home = hub.past link.home ++ news
  received : ofRoom room r link'.received = ofRoom room r link.received ++ ofRoom room r news

omit [DecidableEq ι] [DecidableEq κ] in
/-- The instance is handed nothing. -/
theorem hears_nothing (listening : Listening hub' k r link' n) (home : link'.home = link.home)
    (received : link'.received = link.received) (past : hub'.past link.home = hub.past link.home) :
    Hears room hub hub' k r link link' n [] where
  listening := listening
  home := home
  past := by rw [past, List.append_nil]
  received := by rw [received]; exact (List.append_nil _).symm

omit [DecidableEq ι] [DecidableEq κ] in
theorem Hears.trans {hub'' : Hub ι κ ρ μ} {link'' : Link ι ρ μ} {n' n'' : ℕ} {news news' : List μ}
    (h : Hears room hub hub' k r link link' n' news)
    (h' : Hears room hub' hub'' k r link' link'' n'' news') :
    Hears room hub hub'' k r link link'' n'' (news ++ news') where
  listening := h'.listening
  home := h'.home.trans h.home
  past := by
    have past := h'.past
    rw [h.home] at past
    rw [past, h.past, List.append_assoc]
  received := by rw [h'.received, h.received, ofRoom_append, List.append_assoc]

omit [DecidableEq κ] in
/-- A message of the room is emitted to the socket, and no other message of the room is. -/
theorem received_emit (listening : Listening hub k r link n) :
    ofRoom room r (link.emit room link.home message).received =
      ofRoom room r link.received ++ ofRoom room r [message] := by
  by_cases hit : room message ∈ link.joined
  · rw [emit_eq ⟨listening.connected, rfl, hit⟩, ofRoom_append]
  · have other : room message ≠ r := fun same => hit (same ▸ listening.joined)
    rw [emit_eq_self fun h => hit h.2.2, ofRoom_single, if_neg other, List.append_nil]

theorem Moves.hears (moves : Moves room hub a hub') (sound : Sound room hub)
    (listening : Listening hub k r link n) (steady : Steady link.home k hub a) :
    ∃ link' n' news, Hears room hub hub' k r link link' n' news := by
  obtain ⟨here, connected, joined, cursor⟩ := listening
  cases moves with
  | @publish message =>
    refine ⟨link, n, [], hears_nothing ⟨here, connected, joined, cursor⟩ rfl rfl ?_⟩
    simp only [Hub.past, cursor, Option.getD_some,
      List.take_append_of_le_length (sound.cursor _ n cursor)]
  | @subscribe j away =>
    have ne : link.home ≠ j := by
      rintro rfl
      cases away.symm.trans cursor
    refine ⟨link, n, [], hears_nothing ⟨here, connected, joined, ?_⟩ rfl rfl ?_⟩
    · simpa only [Function.update_of_ne ne] using cursor
    · simp only [Hub.past, Function.update_of_ne ne]
  | @lose j =>
    have ne : link.home ≠ j := fun same => steady.1 (same ▸ rfl)
    refine ⟨link, n, [], hears_nothing ⟨here, connected, joined, ?_⟩ rfl rfl ?_⟩
    · simpa only [Function.update_of_ne ne] using cursor
    · simp only [Hub.past, Function.update_of_ne ne]
  | @deliver j m message reached next =>
    by_cases same : link.home = j
    · subst same
      refine ⟨link.emit room link.home message, m + 1, [message], ⟨?_, ?_, ?_, ?_⟩, home_emit,
        past_deliver reached next _, received_emit ⟨here, connected, joined, cursor⟩⟩
      · simp only [here, Option.map_some]
      · rw [connected_emit, connected]
      · rwa [joined_emit]
      · simp only [home_emit, Function.update_self]
    · have kept : link.emit room j message = link := emit_eq_self fun h => same h.2.1
      refine ⟨link, n, [], hears_nothing ⟨?_, connected, joined, ?_⟩ rfl rfl ?_⟩
      · simp only [here, Option.map_some, kept]
      · simpa only [Function.update_of_ne same] using cursor
      · simp only [Hub.past, Function.update_of_ne same]
  | @connect l j new =>
    have ne : k ≠ l := by
      rintro rfl
      cases new.symm.trans here
    exact ⟨link, n, [], hears_nothing
      ⟨(Function.update_of_ne ne ..).trans here, connected, joined, cursor⟩ rfl rfl rfl⟩
  | @join l r' old there =>
    by_cases same : k = l
    · subst same
      obtain rfl := Option.some.inj (there.symm.trans here)
      exact ⟨{ old with joined := r' :: old.joined }, n, [], hears_nothing
        ⟨Function.update_self .., connected, List.mem_cons_of_mem _ joined, cursor⟩ rfl rfl rfl⟩
    · exact ⟨link, n, [], hears_nothing
        ⟨(Function.update_of_ne same ..).trans here, connected, joined, cursor⟩ rfl rfl rfl⟩
  | @disconnect l old there =>
    have ne : k ≠ l := fun same => steady.2 (same ▸ rfl)
    exact ⟨link, n, [], hears_nothing
      ⟨(Function.update_of_ne ne ..).trans here, connected, joined, cursor⟩ rfl rfl rfl⟩

/-- A socket that stays connected misses nothing of a room that it has joined, as long as its instance
stays subscribed. -/
theorem complete (sound : Sound room hub) (listening : Listening hub k r link n)
    (run : (pubSub room).Run (Steady link.home k) hub tr hub') :
    ∃ link' n' news, Hears room hub hub' k r link link' n' news := by
  induction run with
  | refl => exact ⟨link, n, [], hears_nothing listening rfl rfl rfl⟩
  | snoc run steady next ih =>
    obtain ⟨link', n', news, heard⟩ := ih
    obtain ⟨link'', n'', news', further⟩ := (Moves.of_next next).hears (sound_of_run sound run)
      heard.listening (heard.home ▸ steady)
    exact ⟨link'', n'', news ++ news', heard.trans further⟩

/-! ## The instances catch up -/

/-- The instance is handed what it has not been handed yet. -/
theorem exists_caught_up (sound : Sound room hub) (here : hub.cursor i = some n) :
    ∃ tr hub', (pubSub room).Run (fun _ a => a = .deliver i) hub tr hub' ∧
      hub'.channel = hub.channel ∧ hub'.cursor i = some hub.channel.length := by
  have le := sound.cursor i n here
  induction left : hub.channel.length - n generalizing hub n with
  | zero =>
    obtain rfl : n = hub.channel.length := by omega
    exact ⟨[], hub, .refl hub, rfl, here⟩
  | succ left ih =>
    have lt : n < hub.channel.length := by omega
    have next : (pubSub room).next hub (.deliver i) = some { hub with
        cursor := Function.update hub.cursor i (some (n + 1))
        link := fun k => (hub.link k).map (.emit room i (hub.channel[n])) } := by
      simp only [pubSub, Hub.next, here, Option.bind_some, List.getElem?_eq_getElem lt,
        Option.map_some]
    obtain ⟨tr, hub', run, channel, cursor⟩ := ih ((Moves.of_next next).sound sound)
      (Function.update_self ..) lt (by simp only; omega)
    have first := Run.single (C := fun _ a => a = .deliver i) rfl next
    exact ⟨_, hub', first.trans run, channel, cursor⟩

omit [DecidableEq ι] [DecidableEq κ] in
/-- What an instance has been handed between two positions is the channel between them. -/
theorem news_eq {n' : ℕ} {news : List μ} (bounded : n ≤ hub.channel.length)
    (listening : Listening hub k r link n) (heard : Hears room hub hub' k r link link' n' news)
    (caughtUp : hub'.cursor link.home = some hub'.channel.length) : news = hub'.channel.drop n := by
  have past := heard.past
  rw [past_of_listening listening, Hub.past, caughtUp, Option.getD_some, List.take_length] at past
  rw [past, List.drop_left' (List.length_take_of_le bounded)]

section View

/-! A machine whose states have a hub, and whose step `emit i` is that the instance `i` is handed the
next message. -/

variable {σ α : Type*} {M : Machine σ α} {view : σ → Hub ι κ ρ μ} {emit : ι → α} {s s' : σ}
  {steps : List (Step (Hub ι κ ρ μ) (Label ι κ ρ μ))}

theorem exists_emits (emits : ∀ s hub, (pubSub room).next (view s) (.deliver i) = some hub →
      ∃ t, M.next s (emit i) = some t ∧ view t = hub)
    (run : (pubSub room).Run (fun _ a => a = .deliver i) (view s) steps hub) :
    ∃ tr t, M.Run (fun _ a => a = emit i) s tr t ∧ view t = hub := by
  induction run with
  | refl => exact ⟨[], s, .refl s, rfl⟩
  | snoc run meets next ih =>
    obtain ⟨tr, t, run', rfl⟩ := ih
    subst meets
    obtain ⟨u, step, same⟩ := emits t _ next
    exact ⟨_, u, run'.snoc rfl step, same⟩

/-- A socket that has listened since it was at `n` has received the rest of the channel as soon as its
instance has caught up. -/
theorem exists_received (emits : ∀ i s hub, (pubSub room).next (view s) (.deliver i) = some hub →
      ∃ t, M.next s (emit i) = some t ∧ view t = hub)
    (sound : Sound room (view s)) (listening : Listening (view s) k r link n)
    (run : (pubSub room).Run (Steady link.home k) (view s) steps (view s')) :
    ∃ tr t link', M.Run (fun _ a => a = emit link.home) s' tr t ∧
      (view t).link k = some link' ∧ ofRoom room r link'.received =
        ofRoom room r link.received ++ ofRoom room r ((view s').channel.drop n) := by
  obtain ⟨link', n', news, heard⟩ := complete sound listening run
  have sound' : Sound room (view s') := sound_of_run sound run
  have cursor : (view s').cursor link.home = some n' := heard.home ▸ heard.listening.cursor
  obtain ⟨steps', hub, catchUp, channel, caughtUp⟩ := exists_caught_up sound' cursor
  obtain ⟨tr, t, emitted, rfl⟩ := exists_emits (emits link.home) catchUp
  have steady : (pubSub room).Run (Steady link'.home k) (view s') steps' (view t) :=
    catchUp.mono fun _ a (deliver : a = .deliver link.home) => ⟨by simp [deliver], by simp [deliver]⟩
  obtain ⟨link'', n'', news', further⟩ := complete sound' heard.listening steady
  have all := heard.trans further
  have rest := news_eq (sound.cursor _ _ listening.cursor) listening all (channel ▸ caughtUp)
  refine ⟨tr, t, link'', emitted, further.listening.here, ?_⟩
  rw [all.received, rest, channel]

end View

end PubSub
