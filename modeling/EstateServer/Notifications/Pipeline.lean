import EstateServer.Audit.Image
import EstateServer.Notifications.Origins

/-!
# From the outbox to the notifications

Writers commit events with their transactions, relays emit them, chat messages are handed to Kafka
directly, and Kafka delivers any of them any number of times to the audit worker and to the
notification worker, while users read their notifications.

`announced`: every notification is of an event that was committed or handed to Kafka, with the content
that `buildContent` makes of it, and a delivery that completes leaves exactly one for each recipient that
the resolver named.  So once the outbox is published and a worker has caught up with Kafka, everybody is
told of every event, or the event of every notification is in the audit log.
-/

namespace EstateServer.Notifications.Pipeline

open Machine
open Outbox (RelayConfig OutboxEvent)

/-- The outbox with its relays and the audit worker, and the requests on notifications. -/
structure State where
  events : Audit.State Payload
  requests : Notifications.State

inductive Label
  | event (a : Audit.Label Payload)
  | request (a : Notifications.Label)
  deriving DecidableEq

/-- The worker only handles events that Kafka holds, of the topics that it subscribes to. -/
def admits (s : State) : Notifications.Label → Bool
  | .arrive _ (.handleEvent event) =>
    event ∈ s.events.messages ∧ topicForEvent event.eventType ≠ .membershipEvents
  | _ => true

/-- The state after a step. -/
def State.next (config : RelayConfig) (s : State) : Label → Option State
  | .event a => (Audit.next config s.events a).map fun events => { s with events }
  | .request a =>
    if admits s a then (notifications.next s.requests a).map fun requests => { s with requests }
    else none

/-- All of it, from nothing. -/
def pipeline (config : RelayConfig) : Machine State Label where
  start s := (Audit.audited config).start s.events ∧ notifications.start s.requests ∧
    s.requests.table.rows = [] ∧ s.requests.published = []
  next s a := s.next config a

/-! ## The statement -/

/-- The database draws an id that no row has. -/
def Fresh (s : State) (a : Label) : Prop := ∀ b, a = .request b → Notifications.Fresh s.requests b

def Label.asRequest : Label → Option Notifications.Label
  | request a => some a
  | event _ => none

/-- The steps of the requests. -/
def requests (tr : List (Step State Label)) : List (Step Notifications.State Notifications.Label) :=
  project State.requests (fun _ => Label.asRequest) tr

/-- The row tells its recipient of the event. -/
def Tells (event : DomainEvent Payload) (content : NotificationContent) (row : NotificationRow) :
    Prop :=
  { row with readAt := none } =
    (Notification.create event content row.recipientId).row row.id row.createdAt

/-- The event was committed with the transaction of its writer, or handed to Kafka directly. -/
def Happened (s : State) (event : DomainEvent Payload) : Prop :=
  event ∈ s.events.chat ∨ ∃ out ∈ s.events.outbox.table.rows, out.payload = event

/-- Kafka has accepted the event. -/
def Accepted (s : State) (event : DomainEvent Payload) : Prop :=
  event ∈ s.events.chat ∨ ∃ e ∈ s.events.outbox.emits, e.acked ∧ e.row.payload = event

def Published (s : State) : Prop := ∀ row ∈ s.events.outbox.table.rows, row.status = .published

/-- The process has handled the event. -/
def Handles (tr : List (Step State Label)) (s : State) (p : Pid) (event : DomainEvent Payload) : Prop :=
  Arrives (requests tr) p (.handleEvent event) ∧ s.requests.phase p = .done .handled

/-- The notification worker has handled every accepted event of the topics that it subscribes to. -/
def CaughtUp (tr : List (Step State Label)) (s : State) : Prop :=
  ∀ event, Accepted s event → topicForEvent event.eventType ≠ .membershipEvents →
    ∃ p, Handles tr s p event

/-- The audit worker has handled every accepted event. -/
def AuditCaughtUp (s : State) : Prop := ∀ event, Accepted s event → event ∈ s.events.handled

/-- The recipient is told of the event by one row. -/
def ToldOnce (s : State) (event : DomainEvent Payload) (content : NotificationContent)
    (recipientId : Auth.UserId) : Prop :=
  ∃ row ∈ s.requests.table.rows, Tells event content row ∧ ∀ row' ∈ s.requests.table.rows,
    row'.eventId = event.eventId ∧ row'.recipientId = recipientId ↔ row' = row

structure Announced (tr : List (Step State Label)) (s : State) : Prop where
  /-- Nobody is told of anything that has not happened. -/
  origin : ∀ row ∈ s.requests.table.rows, ∃ event content, buildContent event = some content ∧
    Tells event content row ∧
    (event ∈ s.events.chat ∨ ∃ out ∈ s.events.outbox.table.rows,
      out.payload = event ∧ out.eventId = row.eventId)
  /-- Whoever the resolver has named to a completed delivery is told once. -/
  handled : ∀ p event content, Handles tr s p event → buildContent event = some content →
    ∃ recipients, Resolves (requests tr) p recipients ∧
      ∀ recipientId ∈ recipients, ToldOnce s event content recipientId
  /-- Kafka has accepted whatever is published. -/
  accepted : Published s → ∀ event, Happened s event → Accepted s event
  /-- A worker that has caught up has told everybody of what has happened. -/
  told : Published s → CaughtUp tr s → ∀ event content, Happened s event →
    buildContent event = some content → ∃ p recipients, Handles tr s p event ∧
      Resolves (requests tr) p recipients ∧
      ∀ recipientId ∈ recipients, ToldOnce s event content recipientId
  /-- What somebody was told is in the log of an audit worker that has caught up. -/
  logged : Published s → AuditCaughtUp s → ∀ row ∈ s.requests.table.rows, ∃ event content,
    Tells event content row ∧ Audit.auditRow event ∈ s.events.log.rows

/-! ## Messages -/

variable {config : RelayConfig} {s s' s₀ : State} {a : Label} {tr : List (Step State Label)}
  {row : NotificationRow} {event : DomainEvent Payload} {content : NotificationContent}

/-- Kafka forgets no message. -/
theorem messages_of_next {t u : Audit.State Payload} {b : Audit.Label Payload}
    (next : Audit.next config t b = some u) (mem : event ∈ t.messages) : event ∈ u.messages := by
  cases b with
  | outbox label =>
    simp only [Audit.next] at next
    split_ifs at next
    obtain ⟨outbox, moved, rfl⟩ := Option.map_eq_some_iff.1 next
    rcases List.mem_append.1 mem with emitted | chat
    · refine List.mem_append_left _ ?_
      rcases Outbox.emits_of_moves (Outbox.moves_of_next moved) with quiet | ⟨e, grown, -⟩
      · rwa [quiet]
      · rw [grown, List.map_append]
        exact List.mem_append_left _ emitted
    · exact List.mem_append_right _ chat
  | chat message =>
    simp only [Audit.next] at next
    split_ifs at next
    rw [← Option.some.inj next]
    show event ∈ _ ++ (t.chat ++ [message])
    rw [← List.append_assoc]
    exact List.mem_append_left _ mem
  | deliver message outcome =>
    simp only [Audit.next] at next
    split_ifs at next
    cases outcome <;> rw [← Option.some.inj next] <;> exact mem

/-! ## The parts of a run -/

/-- A step of one part leaves the other as it is. -/
theorem parts_of_next (next : (pipeline config).next s a = some s') :
    (∃ b, a = .event b ∧ Audit.next config s.events b = some s'.events ∧
      s'.requests = s.requests) ∨
    ∃ b, a = .request b ∧ admits s b = true ∧
      notifications.next s.requests b = some s'.requests ∧ s'.events = s.events := by
  cases a with
  | event b =>
    obtain ⟨events, stepped, rfl⟩ := Option.map_eq_some_iff.1 next
    exact .inl ⟨b, rfl, stepped, rfl⟩
  | request b =>
    simp only [pipeline, State.next] at next
    split_ifs at next with admitted
    obtain ⟨requests, stepped, rfl⟩ := Option.map_eq_some_iff.1 next
    exact .inr ⟨b, rfl, admitted, stepped, rfl⟩

theorem requests_of_run (run : (pipeline config).Run Fresh s₀ tr s) :
    notifications.Run Notifications.Fresh s₀.requests (requests tr) s.requests := by
  refine run.project fun s a t fresh next => ?_
  rcases parts_of_next next with ⟨b, rfl, -, same⟩ | ⟨b, rfl, -, stepped, -⟩
  · exact .inl ⟨rfl, same⟩
  · exact .inr ⟨b, rfl, fresh b rfl, stepped⟩

theorem arrives_iff {p : Pid} {request : Request} :
    Arrives (requests tr) p request ↔ .request (.arrive p request) ∈ tr.map (·.label) := by
  constructor
  · rintro ⟨st, mem, label⟩
    obtain ⟨⟨t, a, u⟩, there, seen⟩ := of_mem_project mem
    cases a with
    | event b => cases seen
    | request b =>
      rw [label] at seen
      exact List.mem_map.2 ⟨_, there, congrArg Label.request (Option.some.inj seen)⟩
  · intro mem
    obtain ⟨⟨t, a, u⟩, there, rfl⟩ := List.mem_map.1 mem
    exact ⟨_, mem_project there rfl, rfl⟩

theorem events_of_run (run : (pipeline config).Run Fresh s₀ tr s) :
    ∃ steps, (Audit.audited config).Run Any s₀.events steps s.events := by
  refine run.simulate State.events fun s a t _ next => ?_
  rcases parts_of_next next with ⟨b, -, stepped, -⟩ | ⟨-, -, -, -, same⟩
  · exact ⟨_, .single trivial stepped⟩
  · exact ⟨[], same ▸ .refl _⟩

/-- The worker handles messages of Kafka only. -/
theorem message_of_arrives (run : (pipeline config).Run Fresh s₀ tr s) {p : Pid}
    (arrives : Arrives (requests tr) p (.handleEvent event)) : event ∈ s.events.messages := by
  have arrived := arrives_iff.1 arrives
  clear arrives
  induction run with
  | refl => cases arrived
  | @snoc t u tr a run fresh next ih =>
    rw [List.map_append] at arrived
    rcases List.mem_append.1 arrived with before | now
    · rcases parts_of_next next with ⟨b, -, stepped, -⟩ | ⟨b, -, -, -, same⟩
      · exact messages_of_next stepped (ih before)
      · rw [same]
        exact ih before
    · obtain rfl := List.mem_singleton.1 now
      rcases parts_of_next next with ⟨b, other, -⟩ | ⟨b, own, admitted, -, same⟩
      · cases other
      · cases own
        rw [same]
        exact (of_decide_eq_true admitted).1

/-! ## One request for each process -/

theorem start_ne_idle (request : Request) : request.start ≠ .idle := by
  cases request with
  | handleEvent event =>
    cases built : buildContent event <;> simp [Request.start, built]
  | _ => exact Phase.noConfusion

theorem arrive_of_next {t u : Notifications.State} {p : Pid} {request : Request}
    (next : notifications.next t (.arrive p request) = some u) :
    t.phase p = .idle ∧ u = t.enter p request.start := by
  simp only [notifications, Notifications.State.next] at next
  split_ifs at next with idle
  exact ⟨idle, (Option.some.inj next).symm⟩

/-- No process is done and idle again. -/
theorem busy_of_does {t u : Notifications.State} {b : Notifications.Label} {p : Pid}
    (does : Does t b u) (busy : t.phase p ≠ .idle) : u.phase p ≠ .idle := by
  have enter : ∀ {q : Pid} {phase : Phase}, phase ≠ .idle →
      u.phase = Function.update t.phase q phase → u.phase p ≠ .idle := by
    intro q phase other moved
    rw [moved]
    by_cases own : p = q
    · subst own
      rwa [Function.update_self]
    · rwa [Function.update_of_ne own]
  have counting : ∀ {phase : Phase}, phase.counts = true → phase ≠ .idle := by
    rintro phase counts rfl
    cases counts
  cases does with
  | arrive => exact enter (start_ne_idle _) rfl
  | markOne here counts => exact enter (counting counts) rfl
  | markAll here counts => exact enter (counting counts) rfl
  | count counts => exact enter (counting counts) rfl
  | expire => exact busy
  | _ => exact enter Phase.noConfusion rfl

/-- The requests that have arrived, one for each process. -/
structure Once (tr : List (Step Notifications.State Notifications.Label)) (t : Notifications.State) :
    Prop where
  busy : ∀ p request, Arrives tr p request → t.phase p ≠ .idle
  one : ∀ p request request', Arrives tr p request → Arrives tr p request' → request = request'

theorem arrives_concat {steps : List (Step Notifications.State Notifications.Label)} {p : Pid}
    {request : Request} {st : Step Notifications.State Notifications.Label}
    (h : Arrives (steps ++ [st]) p request) :
    Arrives steps p request ∨ st.label = .arrive p request := by
  obtain ⟨st', mem, label⟩ := h
  rcases List.mem_append.1 mem with mem | mem
  · exact .inl ⟨st', mem, label⟩
  · rw [List.mem_singleton.1 mem] at label
    exact .inr label

theorem once_of_run {t u : Notifications.State}
    {steps : List (Step Notifications.State Notifications.Label)}
    (run : notifications.Run Notifications.Fresh t steps u) : Once steps u := by
  refine run.trace_invariant (fun steps t b u h _ next => ?_) ⟨?_, ?_⟩
  · refine ⟨fun p request arrives => ?_, fun p request request' arrives arrives' => ?_⟩
    · rcases arrives_concat arrives with before | now
      · exact busy_of_does (does_of_next next) (h.busy p request before)
      · obtain rfl : b = .arrive p request := now
        rw [(arrive_of_next next).2]
        show Function.update t.phase p request.start p ≠ .idle
        rw [Function.update_self]
        exact start_ne_idle request
    · rcases arrives_concat arrives with before | now <;>
        rcases arrives_concat arrives' with before' | now'
      · exact h.one p request request' before before'
      · obtain rfl : b = .arrive p request' := now'
        exact absurd (arrive_of_next next).1 (h.busy p request before)
      · obtain rfl : b = .arrive p request := now
        exact absurd (arrive_of_next next).1 (h.busy p request' before')
      · exact (Notifications.Label.arrive.inj (now.symm.trans now')).2
  · rintro p request ⟨st, mem, -⟩
    cases mem
  · rintro p request request' ⟨st, mem, -⟩
    cases mem

/-! ## Notifications and events -/

theorem Tells.eventId (h : Tells event content row) : row.eventId = event.eventId :=
  congrArg NotificationRow.eventId h

/-- The event behind a notification. -/
theorem event_of_told (run : (pipeline config).Run Fresh s₀ tr s) (told : Told (requests tr) row) :
    ∃ event content, buildContent event = some content ∧ Tells event content row ∧
      event ∈ s.events.messages := by
  obtain ⟨p, event, content, recipients, arrives, built, -, -, same⟩ := told
  exact ⟨event, content, built, same, message_of_arrives run arrives⟩

/-- A row that is published has been acknowledged. -/
theorem accepted_of_published (image : Audit.Image s.events) (published : Published s)
    (happened : Happened s event) : Accepted s event := by
  refine happened.imp id ?_
  rintro ⟨out, there, rfl⟩
  obtain ⟨e, emitted, id, acked⟩ := image.accounted.acked_of_published there (published out there)
  obtain ⟨out', there', id', payload⟩ := image.row_of_emit emitted
  obtain rfl : out' = out := s.events.outbox.table.eq_of_id there' there (id'.trans id)
  exact ⟨e, emitted, acked, payload.symm⟩

/-- Nobody is told of who moves in or out. -/
theorem topic_of_built (built : buildContent event = some content) :
    topicForEvent event.eventType ≠ .membershipEvents := by
  unfold buildContent at built
  cases type : event.eventType <;> simp_all [topicForEvent]

/-- The notification of a recipient, for an event that has been handled. -/
theorem toldOnce_of_pair (run : (pipeline config).Run Fresh s₀ tr s) (image : Audit.Image s.events)
    (told : ∀ row ∈ s.requests.table.rows, Told (requests tr) row) (message : event ∈ s.events.messages)
    (built : buildContent event = some content) {recipientId : Auth.UserId}
    (pair : (event.eventId, recipientId) ∈ s.requests.table.rows.map (·.pair)) :
    ToldOnce s event content recipientId := by
  obtain ⟨row, there, same⟩ := List.mem_map.1 pair
  obtain ⟨eventId, recipient⟩ := Prod.mk.inj same
  refine ⟨row, there, ?_, fun row' there' => ⟨fun ⟨eventId', recipient'⟩ => ?_, ?_⟩⟩
  · obtain ⟨event', content', built', tells, message'⟩ := event_of_told run (told row there)
    obtain rfl : event' = event :=
      image.eq_of_eventId message' message (tells.eventId.symm.trans eventId)
    rwa [Option.some.inj (built.symm.trans built')]
  · refine s.requests.table.pair_unique.eq_of_mem there' there ?_
    exact Prod.ext (eventId'.trans eventId.symm) (recipient'.trans recipient.symm)
  · rintro rfl
    exact ⟨eventId, recipient⟩

/-- Everybody is told once of what has happened. -/
theorem announced (init : (pipeline config).start s₀) (run : (pipeline config).Run Fresh s₀ tr s) :
    Announced tr s := by
  obtain ⟨events, idle, empty, silent⟩ := init
  obtain ⟨steps, audited⟩ := events_of_run run
  have image : Audit.Image s.events := .of_reachable ⟨_, steps, events, audited⟩
  have h := sound_of_run idle silent (requests_of_run run)
  have told : ∀ row ∈ s.requests.table.rows, Told (requests tr) row := fun row mem =>
    (h.told row mem).resolve_left (by simp [empty])
  have origin : ∀ row ∈ s.requests.table.rows, ∃ event content, buildContent event = some content ∧
      Tells event content row ∧ (event ∈ s.events.chat ∨ ∃ out ∈ s.events.outbox.table.rows,
        out.payload = event ∧ out.eventId = row.eventId) := by
    intro row mem
    obtain ⟨event, content, built, tells, message⟩ := event_of_told run (told row mem)
    refine ⟨event, content, built, tells, (image.row_of_message message).imp id ?_⟩
    rintro ⟨out, there, payload, eventId⟩
    exact ⟨out, there, payload, eventId.trans tells.eventId.symm⟩
  have handled : ∀ p event content, Handles tr s p event → buildContent event = some content →
      ∃ recipients, Resolves (requests tr) p recipients ∧
        ∀ recipientId ∈ recipients, ToldOnce s event content recipientId := by
    rintro p event content ⟨arrives, done⟩ built
    obtain ⟨event', arrives', named⟩ := backed_of_phase h done
    obtain rfl : event = event' :=
      Request.handleEvent.inj ((once_of_run (requests_of_run run)).one p _ _ arrives arrives')
    obtain ⟨recipients, resolves, pairs⟩ := named content built
    exact ⟨recipients, resolves, fun recipientId mem =>
      toldOnce_of_pair run image told (message_of_arrives run arrives) built (pairs recipientId mem)⟩
  refine ⟨origin, handled, fun published event => accepted_of_published image published, ?_, ?_⟩
  · intro published caught event content happened built
    obtain ⟨p, handles⟩ :=
      caught event (accepted_of_published image published happened) (topic_of_built built)
    obtain ⟨recipients, rest⟩ := handled p event content handles built
    exact ⟨p, recipients, handles, rest⟩
  · intro published caught row mem
    obtain ⟨event, content, -, tells, source⟩ := origin row mem
    have happened : Happened s event :=
      source.imp id fun ⟨out, there, payload, _⟩ => ⟨out, there, payload⟩
    have accepted := accepted_of_published image published happened
    exact ⟨event, content, tells, image.handled event (caught event accepted)⟩

/-! ## A run -/

/-- Nothing has happened. -/
def empty : State := ⟨Audit.empty, Notifications.empty⟩

theorem empty_start : (pipeline config).start empty :=
  ⟨Audit.empty_start config, Notifications.empty_start, rfl, rfl⟩

/-- `Fresh`, computed. -/
def fresh (s : State) : Label → Bool
  | .request a => Notifications.fresh s.requests a
  | .event _ => true

theorem fresh_of_checked (s : State) (a : Label) (h : fresh s a = true) : Fresh s a := by
  rintro b rfl
  exact Notifications.fresh_of_checked s.requests b h

/-- A chat message. -/
def messageSent : DomainEvent Payload :=
  { posted 8 with eventType := .messageSent, entityType := .message }

/-- A post is relayed and delivered twice at once; one delivery crashes after its first row.  A chat
message is delivered to both workers too. -/
def crashed : List Label :=
  [.event (.outbox (.insert (posted 7) [] 0 10)),
    .event (.outbox (.fetch 0 20 [Outbox.newRow (posted 7) [] 0 10])),
    .event (.outbox (.emit 0 none)), .event (.outbox (.mark 0 31)), .event (.outbox (.commit 0)),
    .event (.chat messageSent), .event (.deliver (posted 7) .ok), .event (.deliver messageSent .ok),
    .request (.arrive 0 (.handleEvent (posted 7))), .request (.arrive 1 (.handleEvent (posted 7))),
    .request (take 0 [1, 2] 9), .request (take 1 [2, 1] 9), .request (take 1 [] 0),
    .request (.fail 1), .request (take 0 [] 1), .request (take 0 [] 9), .request (take 0 [] 9),
    .request (take 0 [] 9), .request (take 0 [] 9), .request (.arrive 2 (.handleEvent messageSent)),
    .request (take 2 [4] 9), .request (take 2 [] 3), .request (take 2 [] 9), .request (take 2 [] 9),
    .request (take 2 [] 9)]

/-- All recipients are told, and all that they are told is logged. -/
theorem announced_of_crash : ∃ tr s, (pipeline .default).Run Fresh empty tr s ∧ Published s ∧
    CaughtUp tr s ∧ AuditCaughtUp s ∧ s.requests.table.rows.map (·.recipientId) = [2, 1, 4] ∧
    Announced tr s := by
  have computed : ((pipeline .default).exec fresh empty crashed).map (fun s =>
      (s.requests.table.rows.map (·.recipientId),
        decide (∀ row ∈ s.events.outbox.table.rows, row.status = .published),
        decide (∀ e ∈ s.events.outbox.emits, e.row.payload = posted 7),
        decide (s.events.chat = [messageSent] ∧ s.events.handled = [posted 7, messageSent]),
        s.requests.phase 0, s.requests.phase 2)) =
      some ([2, 1, 4], true, true, true, .done .handled, .done .handled) := by
    decide
  obtain ⟨s, reached, seen⟩ := Option.map_eq_some_iff.1 computed
  obtain ⟨tr, run, labels⟩ := exists_run_of_exec (C := Fresh) fresh_of_checked reached
  simp only [Prod.mk.injEq, decide_eq_true_eq] at seen
  obtain ⟨rows, published, emitted, ⟨chat, handled⟩, done, done'⟩ := seen
  have accepted : ∀ event, Accepted s event → event = posted 7 ∨ event = messageSent := by
    rintro event (direct | ⟨e, mem, -, rfl⟩)
    · rw [chat] at direct
      exact .inr (List.mem_singleton.1 direct)
    · exact .inl (emitted e mem)
  refine ⟨tr, s, run, published, fun event mem _ => ?_, fun event mem => ?_, rows,
    announced empty_start run⟩
  · rcases accepted event mem with rfl | rfl
    · refine ⟨0, arrives_iff.2 ?_, done⟩
      rw [labels]
      decide
    · refine ⟨2, arrives_iff.2 ?_, done'⟩
      rw [labels]
      decide
  · rw [handled]
    rcases accepted event mem with rfl | rfl <;> decide

end EstateServer.Notifications.Pipeline
