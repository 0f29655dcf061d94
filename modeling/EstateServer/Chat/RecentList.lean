import EstateServer.Chat.Messages
import EstateServer.Library.Capped
import EstateServer.Library.Machine
import Mathlib.Data.List.DropRight

/-!
# The list of recent messages

Any number of processes push messages to the rooms.  A push is three commands, between which the
commands of other pushes run and keys expire: a cut may act on a list that others have extended, and
an `EXPIRE` may meet an absent key or one that was created anew.

`recent_list`: when no push to a room is in flight, its list holds the newest 50 messages pushed
since its key was last absent, and the key has a deadline.
-/

namespace EstateServer.Chat.RecentList

open Machine

abbrev Pid := ℕ

/-! ## `push`, command by command -/

/-- The list of a room, in its key. -/
abbrev RecentKey := Expiring.Key (List ChatMessagePayload)

/-- `LPUSH`. -/
def lpush (message : ChatMessagePayload) (now : Instant) (key : RecentKey) : RecentKey :=
  Expiring.update (fun list => message :: list.getD []) now key

/-- `LTRIM 0 49`. -/
def ltrim (now : Instant) (key : RecentKey) : RecentKey :=
  Expiring.modify (Redis.range 0 (recentLimit - 1)) now key

/-- `EXPIRE`. -/
def expire (now : Instant) (key : RecentKey) : RecentKey := Expiring.expire recentTtlMs now key

/-- The commands, one after the other. -/
theorem pushed_eq (times : PushTimes) (message : ChatMessagePayload) (key : RecentKey) :
    pushed times message key =
      expire times.expire (ltrim times.ltrim (lpush message times.lpush key)) :=
  rfl

/-- The next command of a process. -/
inductive Phase
  | idle
  | lpush (message : ChatMessagePayload)
  | ltrim (message : ChatMessagePayload)
  | expire (message : ChatMessagePayload)
  deriving DecidableEq, Repr

structure State where
  now : Instant
  cache : MessageCache
  phase : Pid → Phase

inductive Label
  /-- The process starts to push the message. -/
  | arrive (p : Pid) (message : ChatMessagePayload)
  | step (p : Pid)
  | advance (now : Instant)
  deriving DecidableEq, Repr

namespace State

/-- A command of the process on the key of the room. -/
def run (s : State) (p : Pid) (roomId : RoomId) (command : Instant → RecentKey → RecentKey)
    (phase : Phase) : State :=
  { s with
    cache := Function.update s.cache roomId (command s.now (s.cache roomId))
    phase := Function.update s.phase p phase }

/-- The state after a step. -/
def next (s : State) : Label → Option State
  | .arrive p message =>
    if s.phase p = .idle then some { s with phase := Function.update s.phase p (.lpush message) }
    else none
  | .step p =>
    match s.phase p with
    | .idle => none
    | .lpush message => some (s.run p message.roomId (lpush message) (.ltrim message))
    | .ltrim message => some (s.run p message.roomId ltrim (.expire message))
    | .expire message => some (s.run p message.roomId expire .idle)
  | .advance now => if s.now ≤ now then some { s with now } else none

/-- The key of the room, as a command sees it. -/
def key (s : State) (roomId : RoomId) : RecentKey := Expiring.live s.now (s.cache roomId)

end State

/-- The processes at work, from an empty cache. -/
def caching : Machine State Label where
  start s := (s.phase = fun _ => .idle) ∧ s.cache = fun _ => none
  next := State.next

/-! ## The statement -/

/-- The room that the process pushes to. -/
def Phase.room : Phase → Option RoomId
  | idle => none
  | lpush message | ltrim message | expire message => some message.roomId

/-- No push to the room is in flight. -/
def Quiet (s : State) (roomId : RoomId) : Prop := ∀ p, (s.phase p).room ≠ some roomId

/-- The steps since the key of the room was last absent. -/
def sinceAbsent (roomId : RoomId) (tr : List (Step State Label)) : List (Step State Label) :=
  tr.rtakeWhile fun st => (st.post.key roomId).isSome

/-- The message that the process puts next on the list of the room. -/
def Phase.pushes (roomId : RoomId) : Phase → Option ChatMessagePayload
  | lpush message => if message.roomId = roomId then some message else none
  | _ => none

/-- The message that a step puts on the list of the room with `LPUSH`. -/
def pushOf (roomId : RoomId) (st : Step State Label) : Option ChatMessagePayload :=
  match st.label with
  | .step p => (st.pre.phase p).pushes roomId
  | _ => none

/-- The messages pushed since the key was last absent, the newest first. -/
def pushedSince (roomId : RoomId) (tr : List (Step State Label)) : List ChatMessagePayload :=
  ((sinceAbsent roomId tr).filterMap (pushOf roomId)).reverse

/-! ## What a step does -/

variable {s s' s₀ : State} {a : Label} {roomId : RoomId} {pushed : List ChatMessagePayload}
  {cell : Expiring.Cell (List ChatMessagePayload)} {tr : List (Step State Label)}

inductive Moves (s : State) : Label → State → Prop
  | arrive {p : Pid} {message : ChatMessagePayload} (idle : s.phase p = .idle) :
      Moves s (.arrive p message) { s with phase := Function.update s.phase p (.lpush message) }
  | push {p : Pid} {message : ChatMessagePayload} (here : s.phase p = .lpush message) :
      Moves s (.step p) (s.run p message.roomId (lpush message) (.ltrim message))
  | cut {p : Pid} {message : ChatMessagePayload} (here : s.phase p = .ltrim message) :
      Moves s (.step p) (s.run p message.roomId ltrim (.expire message))
  | time {p : Pid} {message : ChatMessagePayload} (here : s.phase p = .expire message) :
      Moves s (.step p) (s.run p message.roomId expire .idle)
  | advance {now : Instant} (le : s.now ≤ now) : Moves s (.advance now) { s with now }

theorem Moves.of_next (next : caching.next s a = some s') : Moves s a s' := by
  cases a with
  | arrive p message =>
    simp only [caching, State.next] at next
    split_ifs at next with idle
    rw [← Option.some.inj next]
    exact .arrive idle
  | step p =>
    simp only [caching, State.next] at next
    split at next
    · cases next
    all_goals rw [← Option.some.inj next]
    · exact .push ‹_›
    · exact .cut ‹_›
    · exact .time ‹_›
  | advance now =>
    simp only [caching, State.next] at next
    split_ifs at next with le
    rw [← Option.some.inj next]
    exact .advance le

section Run

variable {p : Pid} {room : RoomId} {command : Instant → RecentKey → RecentKey} {phase : Phase}

theorem key_run :
    (s.run p roomId command phase).key roomId =
      Expiring.live s.now (command s.now (s.cache roomId)) := by
  simp [State.run, State.key]

/-- The keys of the other rooms stay. -/
theorem key_run_of_ne (ne : room ≠ roomId) :
    (s.run p room command phase).key roomId = s.key roomId := by
  simp [State.run, State.key, Function.update_of_ne (Ne.symm ne)]

end Run

/-! ## The list of a room -/

/-- The process has still to cut the list of the room. -/
def Phase.Cuts (roomId : RoomId) : Phase → Prop
  | ltrim message => message.roomId = roomId
  | _ => False

/-- The process has still to set the deadline of the key. -/
def Phase.Expires (roomId : RoomId) : Phase → Prop
  | ltrim message | expire message => message.roomId = roomId
  | _ => False

/-- What a list, which may be too long or without a deadline, waits for. -/
structure Fits (s : State) (roomId : RoomId) (pushed : List ChatMessagePayload)
    (cell : Expiring.Cell (List ChatMessagePayload)) : Prop where
  capped : Capped recentLimit pushed cell.value
  short : cell.value.length ≤ recentLimit ∨ ∃ p, (s.phase p).Cuts roomId
  timed : cell.deadline.isSome ∨ ∃ p, (s.phase p).Expires roomId

/-- The messages pushed since the key was last absent, and the key. -/
structure Held (s : State) (roomId : RoomId) (pushed : List ChatMessagePayload) : Prop where
  absent : s.key roomId = none → pushed = []
  present : ∀ cell ∈ s.key roomId, Fits s roomId pushed cell

/-- Another process, or a process that has not done its part yet. -/
theorem exists_update {P : Phase → Prop} {p : Pid} {phase : Phase} (h : ∃ q, P (s.phase q))
    (keep : P (s.phase p) → P phase) : ∃ q, P (Function.update s.phase p phase q) := by
  obtain ⟨q, hq⟩ := h
  by_cases same : q = p
  · subst same
    exact ⟨q, by rw [Function.update_self]; exact keep hq⟩
  · exact ⟨q, by rwa [Function.update_of_ne same]⟩

/-- A process goes on that owes the list of this room nothing. -/
theorem Fits.enter (h : Fits s roomId pushed cell) {p : Pid} {phase : Phase}
    (phases : s'.phase = Function.update s.phase p phase)
    (cuts : (s.phase p).Cuts roomId → phase.Cuts roomId)
    (expires : (s.phase p).Expires roomId → phase.Expires roomId) : Fits s' roomId pushed cell where
  capped := h.capped
  short := by
    rw [phases]
    exact h.short.imp_right fun pending => exists_update pending cuts
  timed := by
    rw [phases]
    exact h.timed.imp_right fun pending => exists_update pending expires

theorem pushOf_step {p : Pid} {phase : Phase} (here : s.phase p = phase) :
    pushOf roomId ⟨s, .step p, s'⟩ = phase.pushes roomId :=
  congrArg (Phase.pushes roomId) here

theorem Moves.fits (moves : Moves s a s') (h : Held s roomId pushed) (mem : cell ∈ s'.key roomId) :
    Fits s' roomId ((pushOf roomId ⟨s, a, s'⟩).toList ++ pushed) cell := by
  cases moves with
  | arrive idle =>
    refine (h.present cell mem).enter rfl ?_ ?_ <;> rw [idle] <;> exact False.elim
  | advance le =>
    have fits := h.present cell (Expiring.live_mono le mem)
    exact ⟨fits.capped, fits.short, fits.timed⟩
  | @push p message here =>
    rw [pushOf_step here, Phase.pushes]
    by_cases room : message.roomId = roomId
    · subst room
      rw [if_pos rfl]
      have pending : ((s.run p message.roomId (lpush message) (.ltrim message)).phase p) =
        .ltrim message := Function.update_self ..
      refine ⟨?_, .inr ⟨p, by rw [pending]; exact rfl⟩, .inr ⟨p, by rw [pending]; exact rfl⟩⟩
      rw [key_run, lpush, Expiring.live_update, Expiring.update] at mem
      split at mem <;> rename_i seen <;> rw [← Option.some.inj mem]
      · rw [h.absent seen]
        exact ⟨recentLimit, Nat.le_refl _, rfl⟩
      · exact (h.present _ seen).capped.push message
    · rw [key_run_of_ne room] at mem
      rw [if_neg room]
      refine (h.present cell mem).enter rfl ?_ ?_ <;> rw [here] <;> exact False.elim
  | @cut p message here =>
    rw [pushOf_step here]
    show Fits _ roomId pushed cell
    by_cases room : message.roomId = roomId
    · subst room
      have pending : ((s.run p message.roomId ltrim (.expire message)).phase p) =
        .expire message := Function.update_self ..
      rw [key_run, ltrim, Expiring.live_modify] at mem
      obtain ⟨old, seen, rfl⟩ := Option.mem_map.1 mem
      have cut : Redis.range 0 (recentLimit - 1) old.value = old.value.take recentLimit :=
        Redis.range_zero (by decide) old.value
      refine ⟨?_, .inl ?_, .inr ⟨p, by rw [pending]; exact rfl⟩⟩
      · exact cut ▸ (h.present old seen).capped.cut
      · rw [cut]
        exact List.length_take_le ..
    · rw [key_run_of_ne room] at mem
      refine (h.present cell mem).enter rfl ?_ ?_ <;> rw [here] <;> exact fun eq => absurd eq room
  | @time p message here =>
    rw [pushOf_step here]
    show Fits _ roomId pushed cell
    by_cases room : message.roomId = roomId
    · subst room
      rw [key_run, expire, Expiring.live_expire (by decide)] at mem
      obtain ⟨old, seen, rfl⟩ := Option.mem_map.1 mem
      have fits := h.present old seen
      refine ⟨fits.capped, fits.short.imp_right fun pending => exists_update pending ?_, .inl rfl⟩
      rw [here]
      exact False.elim
    · rw [key_run_of_ne room] at mem
      refine (h.present cell mem).enter rfl ?_ ?_ <;> rw [here]
      · exact False.elim
      · exact fun eq => absurd eq room

/-! ## Runs -/

theorem pushedSince_concat (st : Step State Label) :
    pushedSince roomId (tr ++ [st]) =
      if (st.post.key roomId).isSome then (pushOf roomId st).toList ++ pushedSince roomId tr
      else [] := by
  unfold pushedSince sinceAbsent
  rw [List.rtakeWhile_concat]
  split
  · cases h : pushOf roomId st <;> simp [h]
  · rfl

theorem Moves.held (moves : Moves s a s') (h : Held s roomId (pushedSince roomId tr)) :
    Held s' roomId (pushedSince roomId (tr ++ [⟨s, a, s'⟩])) := by
  rw [pushedSince_concat]
  constructor
  · intro absent
    rw [absent]
    rfl
  · intro cell mem
    rw [if_pos (Option.isSome_iff_exists.2 ⟨cell, mem⟩)]
    exact moves.fits h mem

theorem held_of_run (init : caching.start s₀) (run : caching.Run Any s₀ tr s) :
    Held s roomId (pushedSince roomId tr) := by
  refine run.trace_invariant (I := fun tr s => Held s roomId (pushedSince roomId tr))
    (fun _ _ _ _ h _ next => (Moves.of_next next).held h) ⟨fun _ => rfl, fun cell mem => ?_⟩
  rw [State.key, init.2] at mem
  cases mem

/-- A push in flight to another room owes nothing to this one. -/
theorem Quiet.settled (quiet : Quiet s roomId) (p : Pid) :
    ¬ (s.phase p).Cuts roomId ∧ ¬ (s.phase p).Expires roomId := by
  have elsewhere := quiet p
  cases h : s.phase p with
  | idle | lpush => exact ⟨id, id⟩
  | ltrim message =>
    rw [h] at elsewhere
    exact ⟨fun eq => elsewhere (congrArg some eq), fun eq => elsewhere (congrArg some eq)⟩
  | expire message =>
    rw [h] at elsewhere
    exact ⟨id, fun eq => elsewhere (congrArg some eq)⟩

theorem recent_eq_of_key_eq_none (h : s.key roomId = none) : recent s.cache s.now roomId = [] := by
  rw [recent, Expiring.read]
  exact congrArg (fun key : RecentKey => (key.map (·.value)).getD []) h

theorem recent_eq_of_mem_key (h : cell ∈ s.key roomId) :
    recent s.cache s.now roomId = cell.value := by
  rw [recent, Expiring.read]
  exact congrArg (fun key : RecentKey => (key.map (·.value)).getD []) h

/-- Between the pushes to a room, its list holds the newest 50 messages. -/
theorem recent_list (init : caching.start s₀) (run : caching.Run Any s₀ tr s)
    (quiet : Quiet s roomId) :
    recent s.cache s.now roomId = (pushedSince roomId tr).take recentLimit ∧
      (∀ cell ∈ s.key roomId, cell.deadline.isSome) ∧
      ∀ limit : ℕ, 1 ≤ limit → limit ≤ recentLimit →
        getRecent s.cache s.now roomId limit = (recent s.cache s.now roomId).take limit := by
  have held : Held s roomId (pushedSince roomId tr) := held_of_run init run
  refine ⟨?_, fun cell mem => ?_, fun limit pos _ => Redis.range_zero pos _⟩
  · cases h : s.key roomId with
    | none => rw [recent_eq_of_key_eq_none h, held.absent h, List.take_nil]
    | some cell =>
      have fits := held.present cell h
      have short := fits.short.resolve_right fun h => h.elim fun p => (quiet.settled p).1
      rw [recent_eq_of_mem_key h]
      exact fits.capped.eq_take short
  · have timed := (held.present cell mem).timed
    exact timed.resolve_right fun h => h.elim fun p => (quiet.settled p).2

/-! ## Two pushes at once -/

def silent : State := ⟨0, fun _ => none, fun _ => .idle⟩

/-- A message to room 7. -/
def note (id : MessageId) (content : Content) : ChatMessagePayload := ⟨7, id, 1, content, 0⟩

/-- The `LPUSH` of each comes before the `LTRIM` of the other. -/
def interleaved : List Label :=
  [.arrive 0 (note 1 "a"), .arrive 1 (note 2 "b"), .step 0, .step 1, .step 1, .advance 5, .step 0,
    .step 0, .step 1]

theorem recent_of_two : ∃ tr s, caching.Run Any silent tr s ∧ tr.map (·.label) = interleaved ∧
    recent s.cache s.now 7 = [note 2 "b", note 1 "a"] ∧
    recent s.cache s.now 7 = (pushedSince 7 tr).take recentLimit := by
  have computed : ∀ n, (caching.exec (fun _ _ => true) silent interleaved).map
      (fun s => (s.phase 0, s.phase 1, s.phase (n + 2), recent s.cache s.now 7)) =
      some (.idle, .idle, .idle, [note 2 "b", note 1 "a"]) :=
    fun _ => rfl
  obtain ⟨s, reached, -⟩ := Option.map_eq_some_iff.1 (computed 0)
  obtain ⟨tr, run, labels⟩ := exists_run_of_exec (C := Any) (fun _ _ _ => trivial) reached
  simp only [reached, Option.map_some, Option.some.injEq, Prod.mk.injEq] at computed
  have quiet : Quiet s 7 := by
    rintro (_ | _ | n)
    · simp [(computed 0).1, Phase.room]
    · simp [(computed 0).2.1, Phase.room]
    · simp [(computed n).2.2.1, Phase.room]
  exact ⟨tr, s, run, labels, (computed 0).2.2.2, (recent_list ⟨rfl, rfl⟩ run quiet).1⟩

end EstateServer.Chat.RecentList
