import EstateServer.Audit.Worker
import EstateServer.Outbox.Accounting
import Mathlib.Data.Set.Basic

/-!
# The audit log is an image of the outbox

Whatever the relays emit and Kafka delivers, the audit log holds rows of committed events only, one
for each event id; and once the outbox is drained it holds one for each committed event
(`audit_exactly_once`).

`Image` is the invariant.  An event id tells the messages apart (`Image.eq_of_eventId`), so a
message whose row the unique constraint refuses has been recorded before
(`Image.recorded_of_handle`).
-/

namespace EstateServer.Audit

open Machine Outbox

variable {P : Type}

/-! ## Committed and recorded events -/

/-- The audit row of an outbox event, column by column. -/
def image (row : OutboxEvent P) : AuditRow P where
  eventId := row.eventId
  eventType := row.eventType
  actorId := row.payload.actorId
  entityType := row.payload.entityType
  entityId := row.partitionKey
  payload := row.payload.payload
  occurredAt := row.payload.occurredAt

/-- The committed outbox events, as audit rows. -/
def State.committed (s : State P) : Set (AuditRow P) :=
  {r | ∃ row ∈ s.outbox.table.rows, image row = r}

/-- The audit rows of board and membership events. -/
def State.recorded (s : State P) : Set (AuditRow P) :=
  {r | r ∈ s.log.rows ∧ topicForEvent r.eventType ≠ .chatEvents}

/-- Every outbox row is published, and every acknowledged message has been handled. -/
def State.Drained (s : State P) : Prop :=
  (∀ row ∈ s.outbox.table.rows, row.status = .published) ∧
    ∀ e ∈ s.outbox.emits, e.acked → e.row.payload ∈ s.handled

instance [DecidableEq P] (s : State P) : Decidable s.Drained := inferInstanceAs (Decidable (_ ∧ _))

/-- The row is as a writer has inserted it, for a board or membership event, apart from the columns
of the relay. -/
def Added (row : OutboxEvent P) : Prop :=
  ∃ event traceContext id createdAt, topicForEvent event.eventType ≠ .chatEvents ∧
    row.inserted = newRow event traceContext id createdAt

theorem Added.of_inserted {row row' : OutboxEvent P} (h : Added row)
    (same : row'.inserted = row.inserted) : Added row' := by
  obtain ⟨event, traceContext, id, createdAt, topic, inserted⟩ := h
  exact ⟨event, traceContext, id, createdAt, topic, same.trans inserted⟩

/-- The columns of the row repeat its payload. -/
theorem Added.image_eq {row : OutboxEvent P} (h : Added row) :
    image row = auditRow row.payload ∧ topicForEvent row.payload.eventType ≠ .chatEvents := by
  obtain ⟨event, traceContext, id, createdAt, topic, inserted⟩ := h
  have eventId : row.eventId = event.eventId := congrArg OutboxEvent.eventId inserted
  have eventType : row.eventType = event.eventType := congrArg OutboxEvent.eventType inserted
  have partitionKey : row.partitionKey = event.entityId :=
    congrArg OutboxEvent.partitionKey inserted
  have payload : row.payload = event := congrArg OutboxEvent.payload inserted
  refine ⟨?_, by rwa [payload]⟩
  unfold image auditRow
  rw [eventId, eventType, partitionKey, payload]

/-! ## The log -/

/-- All topics are handled alike. -/
theorem handle_eq (log : AuditTable P) (event : DomainEvent P) :
    handle log event = log.record event := by
  unfold handle
  split <;> rfl

theorem mem_handle {log : AuditTable P} {event : DomainEvent P} {r : AuditRow P} :
    r ∈ (handle log event).rows ↔
      r ∈ log.rows ∨ r = auditRow event ∧ event.eventId ∉ log.rows.map fun r => r.eventId := by
  rw [handle_eq]
  exact Table.Keyed.mem_getD_insert

/-! ## The invariant -/

/-- The invariant of the audit log beside the outbox. -/
structure Image (s : State P) : Prop where
  accounted : Accounted s.outbox
  added : ∀ row ∈ s.outbox.table.rows, Added row
  chat : ∀ event ∈ s.chat, topicForEvent event.eventType = .chatEvents
  chat_unique : Table.Unique (fun event => event.eventId) s.chat
  /-- A chat message has an event id of its own. -/
  apart : ∀ event ∈ s.chat, ∀ row ∈ s.outbox.table.rows, row.eventId ≠ event.eventId
  logged : ∀ r ∈ s.log.rows, ∃ event ∈ s.messages, auditRow event = r
  handled : ∀ event ∈ s.handled, auditRow event ∈ s.log.rows

namespace Image

variable {s s' : State P} {event event' : DomainEvent P}

/-- An emitted message is the payload of a committed row. -/
theorem row_of_emit (h : Image s) {e : Emit P} (he : e ∈ s.outbox.emits) :
    ∃ row ∈ s.outbox.table.rows, row.id = e.row.id ∧ row.payload = e.row.payload := by
  obtain ⟨row, hrow, same⟩ := h.accounted.known e.row (.inl ⟨e, he, rfl⟩)
  exact ⟨row, hrow, congrArg OutboxRecord.id same, congrArg OutboxRecord.payload same⟩

/-- A message is a chat message or the payload of a committed row. -/
theorem row_of_message (h : Image s) (message : event ∈ s.messages) :
    event ∈ s.chat ∨ ∃ row ∈ s.outbox.table.rows, row.payload = event ∧
      row.eventId = event.eventId := by
  rcases List.mem_append.1 message with emitted | chat
  · obtain ⟨e, he, rfl⟩ := List.mem_map.1 emitted
    obtain ⟨row, hrow, -, payload⟩ := h.row_of_emit he
    have eventId := congrArg AuditRow.eventId (h.added row hrow).image_eq.1
    rw [payload] at eventId
    exact .inr ⟨row, hrow, payload, eventId⟩
  · exact .inl chat

/-- An event id tells the messages apart. -/
theorem eq_of_eventId (h : Image s) (message : event ∈ s.messages) (message' : event' ∈ s.messages)
    (same : event.eventId = event'.eventId) : event = event' := by
  rcases h.row_of_message message with chat | ⟨row, hrow, payload, eventId⟩
  · rcases h.row_of_message message' with chat' | ⟨row', hrow', -, eventId'⟩
    · exact h.chat_unique.eq_of_mem chat chat' same
    · exact absurd (eventId'.trans same.symm) (h.apart event chat row' hrow')
  · rcases h.row_of_message message' with chat' | ⟨row', hrow', payload', eventId'⟩
    · exact absurd (eventId.trans same) (h.apart event' chat' row hrow)
    · have one : row = row' := by
        refine s.outbox.table.eventId_unique.eq_of_mem hrow hrow' ?_
        exact eventId.trans (same.trans eventId'.symm)
      rw [← payload, ← payload', one]

/-- After its handler has written, a message is recorded: by it, or before. -/
theorem recorded_of_handle (h : Image s) (message : event ∈ s.messages) :
    auditRow event ∈ (handle s.log event).rows := by
  by_cases fresh : event.eventId ∈ s.log.rows.map fun r => r.eventId
  · obtain ⟨r, hr, same⟩ := List.mem_map.1 fresh
    obtain ⟨event', message', rfl⟩ := h.logged r hr
    rw [h.eq_of_eventId message message' same.symm]
    exact mem_handle.2 (.inl hr)
  · exact mem_handle.2 (.inr ⟨rfl, fresh⟩)

/-- The log after a handler holds messages only. -/
theorem logged_of_handle (h : Image s) (message : event ∈ s.messages) {r : AuditRow P}
    (hr : r ∈ (handle s.log event).rows) : ∃ event ∈ s.messages, auditRow event = r := by
  rcases mem_handle.1 hr with old | ⟨new, -⟩
  · exact h.logged r old
  · exact ⟨event, message, new.symm⟩

/-! ## The steps keep the invariant -/

/-- More messages and the same log. -/
theorem logged_of_messages (h : Image s) (log : s'.log = s.log)
    (more : ∀ event ∈ s.messages, event ∈ s'.messages) :
    ∀ r ∈ s'.log.rows, ∃ event ∈ s'.messages, auditRow event = r := by
  intro r hr
  rw [log] at hr
  obtain ⟨event, message, same⟩ := h.logged r hr
  exact ⟨event, more event message, same⟩

theorem outbox (h : Image s) {config : RelayConfig} {label : Outbox.Label P}
    {outbox : Outbox.State P} (admitted : admits s label = true)
    (move : Moves config s.outbox label outbox) : Image { s with outbox } := by
  have rows : ∀ row ∈ outbox.table.rows,
      Added row ∧ ∀ event ∈ s.chat, row.eventId ≠ event.eventId := by
    intro row hrow
    rcases inserted_of_moves move hrow with ⟨row₀, hrow₀, same⟩ | ⟨event, _, _, _, rfl, rfl⟩
    · have eventId : row.inserted.eventId = row₀.inserted.eventId := by rw [same]
      refine ⟨(h.added row₀ hrow₀).of_inserted same, fun event chat clash => ?_⟩
      exact h.apart event chat row₀ hrow₀ (eventId.symm.trans clash)
    · have ⟨topic, fresh⟩ := of_decide_eq_true admitted
      refine ⟨⟨event, _, _, _, topic, rfl⟩, fun event' chat same => fresh ?_⟩
      exact List.mem_map.2 ⟨event', chat, same.symm⟩
  have more : ∀ event ∈ s.messages, event ∈ State.messages { s with outbox } := by
    intro event message
    rcases List.mem_append.1 message with emitted | chat
    · refine List.mem_append_left _ ?_
      rcases emits_of_moves move with quiet | ⟨e, grown, -⟩
      · rwa [quiet]
      · rw [grown, List.map_append]
        exact List.mem_append_left _ emitted
    · exact List.mem_append_right _ chat
  exact
    { accounted := h.accounted.of_moves move
      added := fun row hrow => (rows row hrow).1
      chat := h.chat
      chat_unique := h.chat_unique
      apart := fun event chat row hrow => (rows row hrow).2 event chat
      logged := h.logged_of_messages rfl more
      handled := h.handled }

theorem publishChat (h : Image s) (topic : topicForEvent event.eventType = .chatEvents)
    (fresh : event.eventId ∉ s.chat.map fun e => e.eventId)
    (apart : event.eventId ∉ s.outbox.table.rows.map fun row => row.eventId) :
    Image { s with chat := s.chat ++ [event] } := by
  have more : ∀ e ∈ s.messages, e ∈ State.messages { s with chat := s.chat ++ [event] } := by
    intro e message
    show e ∈ _ ++ (s.chat ++ [event])
    rw [← List.append_assoc]
    exact List.mem_append_left _ message
  refine
    { h with
      chat := fun e chat => ?_
      chat_unique := h.chat_unique.concat fresh
      apart := fun e chat row hrow same => ?_
      logged := h.logged_of_messages rfl more }
  · rcases List.mem_append.1 chat with old | new
    · exact h.chat e old
    · rw [List.mem_singleton.1 new]
      exact topic
  · rcases List.mem_append.1 chat with old | new
    · exact h.apart e old row hrow same
    · rw [List.mem_singleton.1 new] at same
      exact apart (List.mem_map.2 ⟨row, hrow, same⟩)

/-- A handler that ends without an error. -/
theorem deliver (h : Image s) (message : event ∈ s.messages) :
    Image { s with log := handle s.log event, handled := s.handled ++ [event] } := by
  refine
    { h with
      logged := fun _ hr => h.logged_of_handle message hr
      handled := fun e done => ?_ }
  rcases List.mem_append.1 done with old | new
  · exact mem_handle.2 (.inl (h.handled e old))
  · rw [List.mem_singleton.1 new]
    exact h.recorded_of_handle message

/-- A handler that throws after it has written. -/
theorem deliverFailed (h : Image s) (message : event ∈ s.messages) :
    Image { s with log := handle s.log event } :=
  { h with
    logged := fun _ hr => h.logged_of_handle message hr
    handled := fun e done => mem_handle.2 (.inl (h.handled e done)) }

variable [DecidableEq P] {config : RelayConfig} {a : Label P}

/-- Every step keeps the invariant. -/
theorem of_next (h : Image s) (step : next config s a = some s') : Image s' := by
  cases a with
  | outbox label =>
    simp only [next] at step
    split_ifs at step with admitted
    obtain ⟨outbox, moved, rfl⟩ := Option.map_eq_some_iff.1 step
    exact h.outbox admitted (moves_of_next moved)
  | chat event =>
    simp only [next] at step
    split_ifs at step with enabled
    rw [← Option.some.inj step]
    exact h.publishChat enabled.1 enabled.2.1 enabled.2.2
  | deliver event outcome =>
    simp only [next] at step
    split_ifs at step with message
    cases outcome with
    | ok =>
      rw [← Option.some.inj step]
      exact h.deliver message
    | failed written =>
      rw [← Option.some.inj step]
      cases written with
      | true => exact h.deliverFailed message
      | false => exact h

theorem of_start (h : (audited config).start s) : Image s := by
  obtain ⟨outbox, chat, log, handled⟩ := h
  have rows : s.outbox.table.rows = [] := outbox.1
  refine ⟨Accounted.of_start outbox, ?_, ?_, ?_, ?_, ?_, ?_⟩
  · simp only [rows, List.not_mem_nil, false_implies, implies_true]
  · simp only [chat, List.not_mem_nil, false_implies, implies_true]
  · rw [chat]
    exact List.nodup_nil
  · simp only [chat, List.not_mem_nil, false_implies, implies_true]
  · simp only [log, List.not_mem_nil, false_implies, implies_true]
  · simp only [handled, List.not_mem_nil, false_implies, implies_true]

theorem of_reachable {C : State P → Label P → Prop} (h : (audited config).Reachable C s) :
    Image s :=
  h.invariant (fun _ => of_start) fun _ _ _ image _ step => image.of_next step

end Image

/-! ## The log and the outbox -/

section

variable {s : State P}

/-- What is recorded has been committed. -/
theorem Image.recorded_subset (h : Image s) : s.recorded ⊆ s.committed := by
  rintro r ⟨hr, topic⟩
  obtain ⟨event, message, rfl⟩ := h.logged r hr
  rcases h.row_of_message message with chat | ⟨row, hrow, payload, -⟩
  · exact absurd (h.chat event chat) topic
  · refine ⟨row, hrow, ?_⟩
    rw [(h.added row hrow).image_eq.1, payload]

/-- Once the outbox is drained, what has been committed is recorded. -/
theorem Image.committed_subset (h : Image s) (drained : s.Drained) : s.committed ⊆ s.recorded := by
  rintro r ⟨row, hrow, rfl⟩
  obtain ⟨published, handled⟩ := drained
  obtain ⟨e, he, hid, acked⟩ := h.accounted.acked_of_published hrow (published row hrow)
  obtain ⟨row', hrow', hid', payload⟩ := h.row_of_emit he
  have one : row' = row := s.outbox.table.eq_of_id hrow' hrow (hid'.trans hid)
  obtain ⟨same, topic⟩ := (h.added row hrow).image_eq
  rw [same]
  refine ⟨?_, topic⟩
  rw [← one, payload]
  exact h.handled _ (handled e he acked)

variable [DecidableEq P] {config : RelayConfig}

/-- The audit log is an exactly-once image of the outbox. -/
theorem audit_exactly_once (h : (audited config).Reachable Any s) :
    s.recorded ⊆ s.committed ∧
      (s.log.rows.map fun r => r.eventId).Nodup ∧
      (s.Drained → s.recorded = s.committed) := by
  have image : Image s := Image.of_reachable h
  refine ⟨image.recorded_subset, s.log.unique, fun drained => ?_⟩
  exact Set.Subset.antisymm image.recorded_subset (image.committed_subset drained)

end

/-- A chat message and a post: the first relay of the post loses its transaction, the first handler
throws after it has written, and the message of the second relay is delivered twice. -/
def redelivered : List (Label Unit) :=
  let post := postCreated 7 1
  let message := { postCreated 8 2 with eventType := .messageSent, entityType := .message }
  let row := newRow post [] 0 10
  [.chat message, .outbox (.insert post [] 0 10), .outbox (.fetch 0 20 [row]), .outbox (.emit 0 none),
    .outbox (.abort 0), .deliver post (.failed true), .deliver message .ok,
    .outbox (.fetch 1 30 [row]), .outbox (.emit 1 none), .outbox (.mark 1 31), .outbox (.commit 1),
    .deliver post .ok, .deliver post .ok]

theorem audit_exactly_once_redelivered : ∃ s : State Unit,
    (s.Drained ∧ s.log.rows.length = 2) ∧ s.recorded = s.committed := by
  have computed : (((audited RelayConfig.default).exec (fun _ _ => true) empty redelivered).map
      fun s => decide (s.Drained ∧ s.log.rows.length = 2)) = some true := by
    decide
  obtain ⟨s, reached, facts⟩ := Option.map_eq_some_iff.1 computed
  have reach : (audited RelayConfig.default).Reachable Any s :=
    reachable_of_exec (empty_start _) (fun _ _ _ => trivial) reached
  have facts : s.Drained ∧ s.log.rows.length = 2 := of_decide_eq_true facts
  exact ⟨s, facts, (audit_exactly_once reach).2.2 facts.1⟩

end EstateServer.Audit
