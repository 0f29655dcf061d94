import EstateServer.Notifications.Requests

/-!
# Where notifications come from

However the requests interleave, fail and are redelivered, a notification tells its recipient of an
event that was handled, what `buildContent` makes of it, and it stays as it is until its recipient
reads it; what is pushed is a row of the table, and no row is pushed twice (`origins`).

The process that has inserted a row carries it until it is pushed, and no other process carries it
(`Sound.apart`).
-/

namespace EstateServer.Notifications

open Machine

/-! ## The statement -/

/-- The process serves the request. -/
def Arrives (tr : List (Step State Label)) (p : Pid) (request : Request) : Prop :=
  ∃ st ∈ tr, st.label = .arrive p request

/-- The resolver has named the recipients to the process. -/
def Resolves (tr : List (Step State Label)) (p : Pid) (recipients : List Auth.UserId) : Prop :=
  ∃ st ∈ tr, ∃ draw, st.label = .step p draw ∧ draw.recipients = recipients ∧
    ∃ event content, st.pre.phase p = .resolve event content

/-- The row tells its recipient of an event that was handled. -/
def Told (tr : List (Step State Label)) (row : NotificationRow) : Prop :=
  ∃ p event content recipients, Arrives tr p (.handleEvent event) ∧
    buildContent event = some content ∧ Resolves tr p recipients ∧ row.recipientId ∈ recipients ∧
    { row with readAt := none } =
      (Notification.create event content row.recipientId).row row.id row.createdAt

/-- A request of the user, or of a token without a user, has marked the row as read at the time `t`. -/
def ReadAt (tr : List (Step State Label)) (row : NotificationRow) (t : Instant) : Prop :=
  ∃ p userId, (userId = some row.recipientId ∨ userId = none) ∧
    (Arrives tr p (.markOneRead userId row.id) ∨ Arrives tr p (.markAllRead userId)) ∧
    ∃ st ∈ tr, ∃ draw, st.label = .step p draw ∧ draw.now = t

/-- What is pushed of a row. -/
def NotificationRow.push (row : NotificationRow) : NotificationPushPayload where
  recipientId := row.recipientId
  id := row.id
  type := row.type
  title := row.title
  body := row.body
  entityType := row.entityType
  entityId := row.entityId
  buildingId := row.buildingId
  createdAt := row.createdAt

/-- The row afterwards, which may have been read meanwhile. -/
def Later (row row' : NotificationRow) : Prop :=
  row' = row ∨ row.readAt = none ∧ ∃ t, row' = row.read t

structure Origins (tr : List (Step State Label)) (s s' : State) : Prop where
  kept : ∀ row ∈ s.table.rows, ∃ row' ∈ s'.table.rows, Later row row'
  told : ∀ row ∈ s'.table.rows, row.id ∈ s.table.rows.map (·.id) ∨ Told tr row
  read : ∀ row ∈ s'.table.rows, ∀ t, row.readAt = some t → row ∈ s.table.rows ∨ ReadAt tr row t
  pushed : ∀ payload ∈ s'.published, ∃ row ∈ s'.table.rows, Told tr row ∧ row.push = payload
  once : (s'.published.map (·.id)).Nodup
  /-- A delivery that completes has told everybody. -/
  handled : ∀ p, s'.phase p = .done .handled → ∃ event, Arrives tr p (.handleEvent event) ∧
    ∀ content, buildContent event = some content → ∃ recipients, Resolves tr p recipients ∧
      ∀ recipientId ∈ recipients, (event.eventId, recipientId) ∈ s'.table.rows.map (·.pair)

/-- The database draws an id that no row has. -/
def Fresh (s : State) (a : Label) : Prop :=
  ∀ p draw, a = .step p draw → draw.id ∉ s.table.rows.map (·.id)

/-! ## What a step does -/

variable {s s' s₀ : State} {a : Label} {p q : Pid} {draw : Draw} {row row' : NotificationRow}
  {delivery : Delivery} {phase : Phase} {tr : List (Step State Label)} {st : Step State Label}
  {event : DomainEvent Payload} {content : NotificationContent}

/-- The phase is part of no delivery, and marks no row. -/
def Phase.counts : Phase → Bool
  | decrement _ | reset _ | getUnreadCount _ | countUnread _ | backfill _ _ => true
  | done .handled => false
  | done _ => true
  | _ => false

inductive Does (s : State) : Label → State → Prop
  | arrive {p : Pid} {request : Request} (idle : s.phase p = .idle) :
      Does s (.arrive p request) (s.enter p request.start)
  | resolve {p : Pid} {draw : Draw} {event : DomainEvent Payload} {content : NotificationContent}
      (here : s.phase p = .resolve event content) :
      Does s (.step p draw) (s.enter p (.save ⟨event, content, draw.recipients⟩))
  | finish {p : Pid} {draw : Draw} {event : DomainEvent Payload} {content : NotificationContent}
      (here : s.phase p = .save ⟨event, content, []⟩) :
      Does s (.step p draw) (s.enter p (.done .handled))
  | skip {p : Pid} {draw : Draw} {event : DomainEvent Payload} {content : NotificationContent}
      {recipientId : Auth.UserId} {rest : List Auth.UserId}
      (here : s.phase p = .save ⟨event, content, recipientId :: rest⟩)
      (refused : s.table.saveIfNew
        ((Notification.create event content recipientId).row draw.id draw.now) = none) :
      Does s (.step p draw) (s.enter p (.save ⟨event, content, rest⟩))
  | insert {p : Pid} {draw : Draw} {event : DomainEvent Payload} {content : NotificationContent}
      {recipientId : Auth.UserId} {rest : List Auth.UserId} {table : NotificationTable}
      (here : s.phase p = .save ⟨event, content, recipientId :: rest⟩)
      (saved : s.table.saveIfNew
        ((Notification.create event content recipientId).row draw.id draw.now) = some table) :
      Does s (.step p draw) ({ s with table }.enter p (.increment ⟨event, content, rest⟩
        ((Notification.create event content recipientId).row draw.id draw.now)))
  | increment {p : Pid} {draw : Draw} {delivery : Delivery} {created : NotificationRow}
      {counter : NotificationCounter} (here : s.phase p = .increment delivery created) :
      Does s (.step p draw) ({ s with counter }.enter p (.push delivery created))
  | push {p : Pid} {draw : Draw} {delivery : Delivery} {created : NotificationRow}
      (here : s.phase p = .push delivery created) :
      Does s (.step p draw)
        ({ s with published := s.published ++ [delivery.payload created] }.enter p (.save delivery))
  | silent {p : Pid} {draw : Draw} {delivery : Delivery} {created : NotificationRow}
      (here : s.phase p = .push delivery created) :
      Does s (.step p draw) (s.enter p (.save delivery))
  | markOne {p : Pid} {draw : Draw} {userId : Option Auth.UserId} {id : NotificationId} {phase : Phase}
      (here : s.phase p = .markOneRead userId id) (counts : phase.counts = true) :
      Does s (.step p draw)
        ({ s with table := s.table.markRead (NotificationTable.isOne userId id) draw.now }.enter p phase)
  | markAll {p : Pid} {draw : Draw} {userId : Option Auth.UserId} {phase : Phase}
      (here : s.phase p = .markAllRead userId) (counts : phase.counts = true) :
      Does s (.step p draw)
        ({ s with table := s.table.markRead (·.unreadBy userId) draw.now }.enter p phase)
  | count {a : Label} {p : Pid} {counter : NotificationCounter} {phase : Phase}
      (counts : phase.counts = true) : Does s a ({ s with counter }.enter p phase)
  | expire {userId : Option Auth.UserId} {counter : NotificationCounter} :
      Does s (.expire userId) { s with counter }

theorem does_of_counts (counts : phase.counts = true) : Does s a (s.enter p phase) := by
  show Does s a ({ s with counter := s.counter }.enter p phase)
  exact .count counts

theorem does_of_step (h : (s.phase p).step s p draw = some s') : Does s (.step p draw) s' := by
  generalize here : s.phase p = phase at h
  cases phase <;> simp only [Phase.step] at h
  case idle => cases h
  case done => cases h
  case resolve =>
    rw [← Option.some.inj h]
    exact .resolve here
  case save delivery =>
    obtain ⟨event, content, recipients⟩ := delivery
    cases recipients with
    | nil =>
      rw [← Option.some.inj h]
      exact .finish here
    | cons recipientId rest =>
      simp only at h
      split at h
      · rw [← Option.some.inj h]
        exact .skip here ‹_›
      · rw [← Option.some.inj h]
        exact .insert here ‹_›
  case increment =>
    rw [← Option.some.inj h]
    exact .increment here
  case push =>
    rw [← Option.some.inj h]
    split_ifs
    · exact .push here
    · exact .silent here
  case markOneRead userId id =>
    rw [← Option.some.inj h]
    split_ifs
    · exact .markOne here rfl
    · exact .markOne here rfl
  case decrement =>
    rw [← Option.some.inj h]
    exact .count rfl
  case markAllRead =>
    rw [← Option.some.inj h]
    exact .markAll here rfl
  case reset =>
    rw [← Option.some.inj h]
    exact .count rfl
  case getUnreadCount userId =>
    split at h
    · rw [← Option.some.inj h]
      exact does_of_counts rfl
    · rw [← Option.some.inj h]
      exact does_of_counts rfl
  case countUnread =>
    rw [← Option.some.inj h]
    exact does_of_counts rfl
  case backfill =>
    rw [← Option.some.inj h]
    exact .count rfl

theorem does_of_next (next : notifications.next s a = some s') : Does s a s' := by
  cases a with
  | arrive p request =>
    simp only [notifications, State.next] at next
    split_ifs at next with idle
    rw [← Option.some.inj next]
    exact .arrive idle
  | step p draw => exact does_of_step next
  | fail p =>
    simp only [notifications, State.next] at next
    split at next
    · cases next
    · cases next
    · rw [← Option.some.inj next]
      exact does_of_counts rfl
  | expire userId =>
    rw [← Option.some.inj next]
    exact .expire

/-! ## Rows -/

theorem Later.refl (row : NotificationRow) : Later row row := .inl rfl

theorem Later.trans {row'' : NotificationRow} (h : Later row row') (h' : Later row' row'') :
    Later row row'' := by
  obtain rfl | ⟨unread, t, rfl⟩ := h
  · exact h'
  · obtain rfl | ⟨unread', -⟩ := h'
    · exact .inr ⟨unread, t, rfl⟩
    · cases unread'

theorem Later.push (h : Later row row') : row'.push = row.push := by
  obtain rfl | ⟨-, t, rfl⟩ := h <;> rfl

theorem Later.pair (h : Later row row') : row'.pair = row.pair := by
  obtain rfl | ⟨-, t, rfl⟩ := h <;> rfl

theorem Later.id (h : Later row row') : row'.id = row.id := by
  obtain rfl | ⟨-, t, rfl⟩ := h <;> rfl

theorem Later.told (h : Later row row') (told : Told tr row) : Told tr row' := by
  obtain rfl | ⟨unread, t, rfl⟩ := h
  · exact told
  · obtain ⟨p, event, content, recipients, arrives, built, resolves, mem, same⟩ := told
    exact ⟨p, event, content, recipients, arrives, built, resolves, mem, same⟩

theorem later_of_markRead {table : NotificationTable} {only : NotificationRow → Bool} {now : Instant}
    (unread : ∀ row, only row = true → row.readAt = none) (mem : row ∈ table.rows) :
    ∃ row' ∈ (table.markRead only now).rows, Later row row' := by
  refine ⟨_, Table.mem_updateMany.2 ⟨row, mem, rfl⟩, ?_⟩
  split_ifs with hit
  · exact .inr ⟨unread row hit, now, rfl⟩
  · exact .refl row

theorem readAt_of_isOne {userId : Option Auth.UserId} {id : NotificationId}
    (hit : NotificationTable.isOne userId id row = true) : row.readAt = none :=
  (of_decide_eq_true (of_decide_eq_true hit).2).2

/-- A row after a step. -/
inductive Comes (s : State) : Label → NotificationRow → Prop
  | old {a : Label} {row : NotificationRow} (mem : row ∈ s.table.rows) : Comes s a row
  | new {p : Pid} {draw : Draw} {event : DomainEvent Payload} {content : NotificationContent}
      {recipientId : Auth.UserId} {rest : List Auth.UserId}
      (here : s.phase p = .save ⟨event, content, recipientId :: rest⟩) : Comes s (.step p draw)
        ((Notification.create event content recipientId).row draw.id draw.now)
  | read {p : Pid} {draw : Draw} {row : NotificationRow} {userId : Option Auth.UserId}
      (mem : row ∈ s.table.rows) (unread : row.readAt = none)
      (own : userId = some row.recipientId ∨ userId = none)
      (here : s.phase p = .markOneRead userId row.id ∨ s.phase p = .markAllRead userId) :
      Comes s (.step p draw) (row.read draw.now)

theorem own_of_unreadBy {userId : Option Auth.UserId} (hit : row.unreadBy userId = true) :
    row.readAt = none ∧ (userId = some row.recipientId ∨ userId = none) := by
  obtain ⟨own, unread⟩ := of_decide_eq_true hit
  refine ⟨unread, ?_⟩
  cases userId with
  | none => exact .inr rfl
  | some userId => exact .inl (congrArg some (of_decide_eq_true own).symm)

theorem Does.comes (does : Does s a s') (mem : row' ∈ s'.table.rows) : Comes s a row' := by
  cases does with
  | @insert p draw event content recipientId rest table here saved =>
    have there : row' ∈ table.rows := mem
    rw [(NotificationTable.saveIfNew_eq_some saved).1] at there
    rcases List.mem_append.1 there with old | new
    · exact .old old
    · rw [List.mem_singleton.1 new]
      exact .new here
  | @markOne p draw userId id phase here =>
    obtain ⟨row, there, rfl⟩ := Table.mem_updateMany.1 mem
    split_ifs with hit
    · obtain ⟨rfl, unreadBy⟩ := of_decide_eq_true hit
      obtain ⟨unread, own⟩ := own_of_unreadBy unreadBy
      exact .read there unread own (.inl here)
    · exact .old there
  | @markAll p draw userId phase here =>
    obtain ⟨row, there, rfl⟩ := Table.mem_updateMany.1 mem
    split_ifs with hit
    · obtain ⟨unread, own⟩ := own_of_unreadBy hit
      exact .read there unread own (.inr here)
    · exact .old there
  | _ => exact .old mem

theorem Does.kept (does : Does s a s') (mem : row ∈ s.table.rows) :
    ∃ row' ∈ s'.table.rows, Later row row' := by
  cases does with
  | @insert p draw event content recipientId rest table here saved =>
    have there : row ∈ table.rows := by
      rw [(NotificationTable.saveIfNew_eq_some saved).1]
      exact List.mem_append_left _ mem
    exact ⟨row, there, .refl row⟩
  | markOne => exact later_of_markRead (fun _ => readAt_of_isOne) mem
  | markAll => exact later_of_markRead (fun _ hit => (of_decide_eq_true hit).2) mem
  | _ => exact ⟨row, mem, .refl row⟩

theorem Does.pairs (does : Does s a s') {pair : Pair} (mem : pair ∈ s.table.rows.map (·.pair)) :
    pair ∈ s'.table.rows.map (·.pair) := by
  obtain ⟨row, there, rfl⟩ := List.mem_map.1 mem
  obtain ⟨row', there', later⟩ := does.kept there
  exact List.mem_map.2 ⟨row', there', later.pair⟩

/-! ## The trace grows -/

theorem Arrives.concat {request : Request} (h : Arrives tr p request) :
    Arrives (tr ++ [st]) p request := by
  obtain ⟨st', mem, h⟩ := h
  exact ⟨st', List.mem_append_left _ mem, h⟩

theorem Resolves.concat {recipients : List Auth.UserId} (h : Resolves tr p recipients) :
    Resolves (tr ++ [st]) p recipients := by
  obtain ⟨st', mem, h⟩ := h
  exact ⟨st', List.mem_append_left _ mem, h⟩

theorem Told.concat (h : Told tr row) : Told (tr ++ [st]) row := by
  obtain ⟨p, event, content, recipients, arrives, built, resolves, h⟩ := h
  exact ⟨p, event, content, recipients, arrives.concat, built, resolves.concat, h⟩

theorem ReadAt.concat {t : Instant} (h : ReadAt tr row t) : ReadAt (tr ++ [st]) row t := by
  obtain ⟨p, userId, own, arrives, st', mem, h⟩ := h
  exact ⟨p, userId, own, arrives.imp Arrives.concat Arrives.concat, st',
    List.mem_append_left _ mem, h⟩

/-! ## What a phase knows -/

/-- The process has told the first recipients of its event, and the rest are still to come. -/
def Serves (tr : List (Step State Label)) (s : State) (p : Pid) (delivery : Delivery) : Prop :=
  Arrives tr p (.handleEvent delivery.event) ∧ buildContent delivery.event = some delivery.content ∧
    ∃ served, Resolves tr p (served ++ delivery.recipients) ∧
      ∀ recipientId ∈ served, (delivery.event.eventId, recipientId) ∈ s.table.rows.map (·.pair)

/-- The row is there, and it has not been pushed. -/
def Carries (tr : List (Step State Label)) (s : State) (delivery : Delivery)
    (created : NotificationRow) : Prop :=
  Told tr created ∧ delivery.payload created = created.push ∧
    (∃ row ∈ s.table.rows, Later created row) ∧ created.id ∉ s.published.map (·.id)

def Phase.Backed (tr : List (Step State Label)) (s : State) (p : Pid) : Phase → Prop
  | resolve event content => Arrives tr p (.handleEvent event) ∧ buildContent event = some content
  | save delivery => Serves tr s p delivery
  | increment delivery created | push delivery created =>
    Serves tr s p delivery ∧ Carries tr s delivery created
  | markOneRead userId id => Arrives tr p (.markOneRead userId id)
  | markAllRead userId => Arrives tr p (.markAllRead userId)
  | done .handled => ∃ event, Arrives tr p (.handleEvent event) ∧
    ∀ content, buildContent event = some content → ∃ recipients, Resolves tr p recipients ∧
      ∀ recipientId ∈ recipients, (event.eventId, recipientId) ∈ s.table.rows.map (·.pair)
  | _ => True

/-- The row that a process has inserted and not yet pushed. -/
def Phase.carries : Phase → Option NotificationRow
  | increment _ created | push _ created => some created
  | _ => none

theorem Serves.mono (h : Serves tr s p delivery) (does : Does s a s') :
    Serves (tr ++ [st]) s' p delivery := by
  obtain ⟨arrives, built, served, resolves, there⟩ := h
  exact ⟨arrives.concat, built, served, resolves.concat, fun r mem => does.pairs (there r mem)⟩

theorem Carries.mono {created : NotificationRow} (h : Carries tr s delivery created)
    (does : Does s a s') (unpushed : created.id ∉ s'.published.map (·.id)) :
    Carries (tr ++ [st]) s' delivery created := by
  obtain ⟨told, payload, ⟨row, mem, later⟩, -⟩ := h
  obtain ⟨row', mem', later'⟩ := does.kept mem
  exact ⟨told.concat, payload, ⟨row', mem', later.trans later'⟩, unpushed⟩

/-- What other processes do leaves what a phase knows as it is, as long as they do not push its row. -/
theorem Phase.Backed.mono (h : phase.Backed tr s p) (does : Does s a s')
    (unpushed : ∀ created, phase.carries = some created → created.id ∉ s'.published.map (·.id)) :
    phase.Backed (tr ++ [st]) s' p := by
  cases phase with
  | resolve event content => exact ⟨h.1.concat, h.2⟩
  | save delivery => exact Serves.mono h does
  | increment delivery created => exact ⟨h.1.mono does, h.2.mono does (unpushed created rfl)⟩
  | push delivery created => exact ⟨h.1.mono does, h.2.mono does (unpushed created rfl)⟩
  | markOneRead userId id => exact Arrives.concat h
  | markAllRead userId => exact Arrives.concat h
  | done result =>
    cases result with
    | handled =>
      obtain ⟨event, arrives, told⟩ := h
      refine ⟨event, arrives.concat, fun content built => ?_⟩
      obtain ⟨recipients, resolves, there⟩ := told content built
      exact ⟨recipients, resolves.concat, fun r mem => does.pairs (there r mem)⟩
    | _ => trivial
  | _ => trivial

/-! ## The invariant -/

/-- What holds in every state of a run from `s₀`. -/
structure Sound (s₀ : State) (tr : List (Step State Label)) (s : State) : Prop where
  phases : ∀ p, (s.phase p).Backed tr s p
  apart : ∀ p q created created', (s.phase p).carries = some created →
    (s.phase q).carries = some created' → created.id = created'.id → p = q
  kept : ∀ row ∈ s₀.table.rows, ∃ row' ∈ s.table.rows, Later row row'
  told : ∀ row ∈ s.table.rows, row.id ∈ s₀.table.rows.map (·.id) ∨ Told tr row
  read : ∀ row ∈ s.table.rows, ∀ t, row.readAt = some t → row ∈ s₀.table.rows ∨ ReadAt tr row t
  pushed : ∀ payload ∈ s.published, ∃ row ∈ s.table.rows, Told tr row ∧ row.push = payload
  once : (s.published.map (·.id)).Nodup

theorem Phase.Backed.carried {created : NotificationRow} (h : phase.Backed tr s p)
    (carries : phase.carries = some created) :
    (∃ row ∈ s.table.rows, Later created row) ∧ created.id ∉ s.published.map (·.id) := by
  cases phase <;> cases carries
  case increment => exact h.2.2.2
  case push => exact h.2.2.2

theorem Does.published (does : Does s a s') : s'.published = s.published ∨
    ∃ p delivery created, s.phase p = .push delivery created ∧
      s'.published = s.published ++ [delivery.payload created] ∧
      s'.phase = Function.update s.phase p (.save delivery) := by
  cases does with
  | push here => exact .inr ⟨_, _, _, here, rfl, rfl⟩
  | _ => exact .inl rfl

theorem Sound.unpushed (h : Sound s₀ tr s) (does : Does s a s') {created : NotificationRow}
    (before : (s.phase q).carries = some created) (after : (s'.phase q).carries = some created) :
    created.id ∉ s'.published.map (·.id) := by
  have unpushed := ((h.phases q).carried before).2
  rcases does.published with same | ⟨p, delivery, pushed, here, same, moved⟩
  · rwa [same]
  · have other : q ≠ p := by
      rintro rfl
      rw [moved, Function.update_self] at after
      cases after
    have carries : (s.phase p).carries = some pushed := by rw [here]; rfl
    rw [same, List.map_append, List.mem_append, not_or]
    refine ⟨unpushed, fun mem => other ?_⟩
    exact h.apart q p created pushed before carries (List.mem_singleton.1 mem)

/-- A process goes on to another phase. -/
theorem Sound.enter (h : Sound s₀ tr s) (does : Does s a s')
    (moved : s'.phase = Function.update s.phase p phase) (backed : phase.Backed (tr ++ [st]) s' p) :
    (s'.phase q).Backed (tr ++ [st]) s' q := by
  by_cases own : q = p
  · subst own
    rwa [moved, Function.update_self]
  · have same : s'.phase q = s.phase q := by rw [moved, Function.update_of_ne own]
    rw [same]
    exact (h.phases q).mono does fun created carries =>
      h.unpushed does carries (same.symm ▸ carries)

theorem backed_of_counts (counts : phase.counts = true) : phase.Backed tr s p := by
  cases phase with
  | done result => cases result <;> first | exact trivial | cases counts
  | decrement | reset | getUnreadCount | countUnread | backfill => trivial
  | _ => cases counts

theorem carries_of_counts (counts : phase.counts = true) : phase.carries = none := by
  cases phase with
  | increment => cases counts
  | push => cases counts
  | _ => rfl

theorem start_backed {request : Request} (arrives : Arrives tr p request) :
    request.start.Backed tr s p := by
  cases request with
  | handleEvent event =>
    cases built : buildContent event with
    | none =>
      simp only [Request.start, built]
      exact ⟨event, arrives, fun content some => by cases built.symm.trans some⟩
    | some content =>
      simp only [Request.start, built]
      exact ⟨arrives, built⟩
  | markOneRead userId id => exact arrives
  | markAllRead userId => exact arrives
  | getUnreadCount userId => trivial

theorem carries_start {request : Request} : request.start.carries = none := by
  cases request with
  | handleEvent event => cases built : buildContent event <;> simp [Request.start, built, Phase.carries]
  | _ => rfl

theorem backed_of_phase (h : Sound s₀ tr s) (here : s.phase p = phase) : phase.Backed tr s p :=
  here ▸ h.phases p

theorem id_of_saveIfNew {table table' : NotificationTable} (saved : table.saveIfNew row = some table') :
    row.id ∉ table.rows.map (·.id) := by
  unfold NotificationTable.saveIfNew at saved
  split_ifs at saved with new
  exact new.1

theorem Sound.id_unpushed (h : Sound s₀ tr s) {id : NotificationId}
    (new : id ∉ s.table.rows.map (·.id)) : id ∉ s.published.map (·.id) := by
  intro mem
  obtain ⟨payload, published, rfl⟩ := List.mem_map.1 mem
  obtain ⟨row, there, -, rfl⟩ := h.pushed payload published
  exact new (List.mem_map_of_mem (f := NotificationRow.id) there)

theorem served_concat {served : List Auth.UserId} {recipientId : Auth.UserId} {eventId : EventId}
    {pairs : List Pair} (there : ∀ r ∈ served, (eventId, r) ∈ pairs)
    (last : (eventId, recipientId) ∈ pairs) : ∀ r ∈ served ++ [recipientId], (eventId, r) ∈ pairs := by
  intro r mem
  rcases List.mem_append.1 mem with mem | mem
  · exact there r mem
  · rw [List.mem_singleton.1 mem]
    exact last

theorem Does.phases (does : Does s a s') (h : Sound s₀ tr s) (fresh : Fresh s a) (q : Pid) :
    (s'.phase q).Backed (tr ++ [⟨s, a, s'⟩]) s' q := by
  cases id does with
  | arrive idle =>
    exact h.enter does rfl (start_backed ⟨_, List.mem_concat_self, rfl⟩)
  | @resolve p draw event content here =>
    obtain ⟨arrives, built⟩ := backed_of_phase h here
    refine h.enter does rfl ⟨arrives.concat, built, [], ?_, fun r mem => absurd mem List.not_mem_nil⟩
    exact ⟨_, List.mem_concat_self, draw, rfl, rfl, event, content, here⟩
  | @finish p draw event content here =>
    obtain ⟨arrives, built, served, resolves, there⟩ := backed_of_phase h here
    refine h.enter does rfl ⟨event, arrives.concat, fun _ _ => ⟨served, ?_, ?_⟩⟩
    · exact List.append_nil served ▸ resolves.concat
    · exact fun r mem => does.pairs (there r mem)
  | @skip p draw event content recipientId rest here refused =>
    obtain ⟨arrives, built, served, resolves, there⟩ := backed_of_phase h here
    refine h.enter does rfl ⟨arrives.concat, built, served ++ [recipientId], ?_, ?_⟩
    · exact List.append_cons served recipientId rest ▸ resolves.concat
    · have pair := NotificationTable.pair_of_saveIfNew refused (fresh p draw rfl)
      exact served_concat (fun r mem => does.pairs (there r mem)) (does.pairs pair)
  | @insert p draw event content recipientId rest table here saved =>
    obtain ⟨arrives, built, served, resolves, there⟩ := backed_of_phase h here
    have new : (Notification.create event content recipientId).row draw.id draw.now ∈ table.rows := by
      rw [(NotificationTable.saveIfNew_eq_some saved).1]
      exact List.mem_concat_self
    have pair : (event.eventId, recipientId) ∈ table.rows.map (·.pair) :=
      List.mem_map_of_mem (f := NotificationRow.pair) new
    refine h.enter does rfl ⟨⟨arrives.concat, built, served ++ [recipientId], ?_, ?_⟩, ?_⟩
    · exact List.append_cons served recipientId rest ▸ resolves.concat
    · exact served_concat (fun r mem => does.pairs (there r mem)) pair
    · refine ⟨?_, rfl, ⟨_, new, .refl _⟩, h.id_unpushed (id_of_saveIfNew saved)⟩
      exact ⟨p, event, content, _, arrives.concat, built, resolves.concat,
        List.mem_append_right _ List.mem_cons_self, rfl⟩
  | @increment p draw delivery created counter here =>
    obtain ⟨serves, carries⟩ := backed_of_phase h here
    exact h.enter does rfl ⟨serves.mono does, carries.mono does carries.2.2.2⟩
  | @push p draw delivery created here =>
    exact h.enter does rfl (Serves.mono (backed_of_phase h here).1 does)
  | @silent p draw delivery created here =>
    exact h.enter does rfl (Serves.mono (backed_of_phase h here).1 does)
  | markOne here counts => exact h.enter does rfl (backed_of_counts counts)
  | markAll here counts => exact h.enter does rfl (backed_of_counts counts)
  | count counts => exact h.enter does rfl (backed_of_counts counts)
  | expire =>
    exact (h.phases q).mono does fun created carries => h.unpushed does carries carries

/-- A process goes on to a phase that carries no other row than before. -/
theorem Sound.apart_enter (h : Sound s₀ tr s) (moved : s'.phase = Function.update s.phase p phase)
    (same : phase.carries = none ∨ phase.carries = (s.phase p).carries)
    {q q' : Pid} {created created' : NotificationRow} (one : (s'.phase q).carries = some created)
    (two : (s'.phase q').carries = some created') (ids : created.id = created'.id) : q = q' := by
  have before : ∀ {r created}, (s'.phase r).carries = some created →
      (s.phase r).carries = some created := by
    intro r created carries
    by_cases own : r = p
    · subst own
      rw [moved, Function.update_self] at carries
      rcases same with nothing | same
      · cases nothing.symm.trans carries
      · exact same.symm.trans carries
    · rwa [moved, Function.update_of_ne own] at carries
  exact h.apart q q' created created' (before one) (before two) ids

/-- A process goes on with a row that is new. -/
theorem Sound.apart_insert (h : Sound s₀ tr s) (moved : s'.phase = Function.update s.phase p phase)
    (carries : phase.carries = some row) (new : row.id ∉ s.table.rows.map (·.id))
    {q q' : Pid} {created created' : NotificationRow} (one : (s'.phase q).carries = some created)
    (two : (s'.phase q').carries = some created') (ids : created.id = created'.id) : q = q' := by
  have own : ∀ {created}, (s'.phase p).carries = some created → created = row := by
    intro created mine
    rw [moved, Function.update_self] at mine
    exact Option.some.inj (mine.symm.trans carries)
  have other : ∀ {r created}, r ≠ p → (s'.phase r).carries = some created →
      (s.phase r).carries = some created ∧ created.id ≠ row.id := by
    intro r created ne theirs
    rw [moved, Function.update_of_ne ne] at theirs
    obtain ⟨there, mem, later⟩ := ((h.phases r).carried theirs).1
    exact ⟨theirs, fun same => new (List.mem_map.2 ⟨there, mem, later.id.trans same⟩)⟩
  by_cases first : q = p <;> by_cases second : q' = p
  · exact first.trans second.symm
  · subst first
    rw [own one] at ids
    exact absurd ids.symm (other second two).2
  · subst second
    rw [own two] at ids
    exact absurd ids (other first one).2
  · exact h.apart q q' created created' (other first one).1 (other second two).1 ids

theorem Does.apart (does : Does s a s') (h : Sound s₀ tr s) {q q' : Pid}
    {created created' : NotificationRow} (one : (s'.phase q).carries = some created)
    (two : (s'.phase q').carries = some created') (ids : created.id = created'.id) : q = q' := by
  cases does with
  | insert here saved => exact h.apart_insert rfl rfl (id_of_saveIfNew saved) one two ids
  | arrive => exact h.apart_enter rfl (.inl carries_start) one two ids
  | increment here => exact h.apart_enter rfl (.inr (by rw [here]; rfl)) one two ids
  | count counts => exact h.apart_enter rfl (.inl (carries_of_counts counts)) one two ids
  | markOne here counts => exact h.apart_enter rfl (.inl (carries_of_counts counts)) one two ids
  | markAll here counts => exact h.apart_enter rfl (.inl (carries_of_counts counts)) one two ids
  | expire => exact h.apart q q' created created' one two ids
  | _ => exact h.apart_enter rfl (.inl rfl) one two ids

/-! ## Runs -/

theorem Does.told (does : Does s a s') (h : Sound s₀ tr s) (mem : row ∈ s'.table.rows) :
    row.id ∈ s₀.table.rows.map (·.id) ∨ Told (tr ++ [st]) row := by
  cases does.comes mem with
  | old mem => exact (h.told row mem).imp id Told.concat
  | @new p draw event content recipientId rest here =>
    obtain ⟨arrives, built, served, resolves, -⟩ := backed_of_phase h here
    exact .inr ⟨p, event, content, _, arrives.concat, built, resolves.concat,
      List.mem_append_right _ List.mem_cons_self, rfl⟩
  | @read p draw row userId there unread own here =>
    have later : Later row (row.read draw.now) := .inr ⟨unread, draw.now, rfl⟩
    exact (h.told row there).imp id fun told => later.told told.concat

theorem Does.read (does : Does s a s') (h : Sound s₀ tr s) (mem : row ∈ s'.table.rows) {t : Instant}
    (read : row.readAt = some t) : row ∈ s₀.table.rows ∨ ReadAt (tr ++ [⟨s, a, s'⟩]) row t := by
  cases does.comes mem with
  | old mem => exact (h.read row mem t read).imp id ReadAt.concat
  | new here => cases read
  | @read p draw row userId there unread own here =>
    obtain rfl := Option.some.inj read
    refine .inr ⟨p, userId, own, ?_, _, List.mem_concat_self, draw, rfl, rfl⟩
    rcases here with one | all
    · exact .inl (Arrives.concat (backed_of_phase h one))
    · exact .inr (Arrives.concat (backed_of_phase h all))

theorem Does.pushed (does : Does s a s') (h : Sound s₀ tr s) {payload : NotificationPushPayload}
    (mem : payload ∈ s'.published) :
    ∃ row ∈ s'.table.rows, Told (tr ++ [st]) row ∧ row.push = payload := by
  have old : payload ∈ s.published →
      ∃ row ∈ s'.table.rows, Told (tr ++ [st]) row ∧ row.push = payload := by
    intro mem
    obtain ⟨row, there, told, rfl⟩ := h.pushed payload mem
    obtain ⟨row', there', later⟩ := does.kept there
    exact ⟨row', there', later.told told.concat, later.push⟩
  rcases does.published with same | ⟨p, delivery, created, here, same, -⟩
  · exact old (same ▸ mem)
  · rw [same] at mem
    rcases List.mem_append.1 mem with mem | mem
    · exact old mem
    · obtain ⟨-, told, payload, ⟨row, there, later⟩, -⟩ := backed_of_phase h here
      obtain ⟨row', there', later'⟩ := does.kept there
      have later := later.trans later'
      exact ⟨row', there', later.told told.concat,
        later.push.trans (payload.symm.trans (List.mem_singleton.1 mem).symm)⟩

theorem Does.once (does : Does s a s') (h : Sound s₀ tr s) : (s'.published.map (·.id)).Nodup := by
  rcases does.published with same | ⟨p, delivery, created, here, same, -⟩
  · rw [same]
    exact h.once
  · rw [same, List.map_append]
    refine List.nodup_append.2 ⟨h.once, List.nodup_singleton _, ?_⟩
    rintro id mem id' mem' rfl
    have unpushed := (backed_of_phase h here).2.2.2.2
    rw [List.mem_singleton.1 mem'] at mem
    exact unpushed mem

theorem Does.sound (does : Does s a s') (h : Sound s₀ tr s) (fresh : Fresh s a) :
    Sound s₀ (tr ++ [⟨s, a, s'⟩]) s' where
  phases q := does.phases h fresh q
  apart _ _ _ _ one two ids := does.apart h one two ids
  kept row mem := by
    obtain ⟨row', there, later⟩ := h.kept row mem
    obtain ⟨row'', there', later'⟩ := does.kept there
    exact ⟨row'', there', later.trans later'⟩
  told row mem := does.told h mem
  read row mem t read := does.read h mem read
  pushed payload mem := does.pushed h mem
  once := does.once h

theorem sound_of_start (init : notifications.start s) (silent : s.published = []) :
    Sound s [] s := by
  have idle : s.phase = fun _ => .idle := init
  refine ⟨?_, ?_, fun row mem => ⟨row, mem, .refl row⟩, fun row mem => .inl ?_,
    fun row mem t _ => .inl mem, ?_, ?_⟩
  · simp [idle, Phase.Backed]
  · simp [idle, Phase.carries]
  · exact List.mem_map_of_mem mem
  · simp [silent]
  · simp [silent]

theorem sound_of_run (init : notifications.start s₀) (silent : s₀.published = [])
    (run : notifications.Run Fresh s₀ tr s) : Sound s₀ tr s :=
  run.trace_invariant (fun _ _ _ _ h fresh next => (does_of_next next).sound h fresh)
    (sound_of_start init silent)

/-- Every notification tells its recipient of an event that was handled, stays until it is read, and is
pushed at most once. -/
theorem origins (init : notifications.start s₀) (silent : s₀.published = [])
    (run : notifications.Run Fresh s₀ tr s) : Origins tr s₀ s := by
  have h := sound_of_run init silent run
  exact ⟨h.kept, h.told, h.read, h.pushed, h.once, fun p done => backed_of_phase h done⟩

/-- `Fresh`, computed. -/
def fresh (s : State) : Label → Bool
  | .step _ draw => draw.id ∉ s.table.rows.map (·.id)
  | _ => true

theorem fresh_of_checked (s : State) (a : Label) (h : fresh s a = true) : Fresh s a := by
  rintro p draw rfl
  exact of_decide_eq_true h

/-- Two deliveries of one event overlap, and then user 1 reads all his notifications. -/
theorem origins_of_redelivery : ∃ tr s, notifications.Run Fresh empty tr s ∧
    s.table.rows.map (fun row => (row.recipientId, row.readAt)) = [(1, some 0), (2, none)] ∧
    s.published.map (·.recipientId) = [2, 1] ∧ Origins tr empty s := by
  have computed : (notifications.exec fresh empty
      [.arrive 0 (.handleEvent (posted 7)), .arrive 1 (.handleEvent (posted 7)), take 0 [1, 2] 9,
        take 1 [1, 2] 9, take 0 [] 0, take 1 [] 9, take 1 [] 1, take 1 [] 9, take 1 [] 9, take 0 [] 9,
        take 0 [] 9, take 0 [] 9, take 0 [] 9, take 1 [] 9, .arrive 2 (.markAllRead (some 1)),
        take 2 [] 9, take 2 [] 9]).map
      (fun s => (s.table.rows.map fun row => (row.recipientId, row.readAt),
        s.published.map (·.recipientId))) = some ([(1, some 0), (2, none)], [2, 1]) := by
    decide
  obtain ⟨s, reached, seen⟩ := Option.map_eq_some_iff.1 computed
  obtain ⟨tr, run, -⟩ := exists_run_of_exec (C := Fresh) fresh_of_checked reached
  obtain ⟨rows, published⟩ := Prod.mk.inj seen
  exact ⟨tr, s, run, rows, published, origins empty_start rfl run⟩

end EstateServer.Notifications
