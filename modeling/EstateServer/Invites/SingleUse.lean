import EstateServer.Invites.Requests

/-!
# An invite code yields at most one lease

The log of a run lists what happened to the codes.  `Stage` is what the log says about one code
together with where the code is now: in Redis, with the process whose `GETDEL` returned it, or
nowhere.  Every step moves each code by at most one stage (`Stage.of_effect`).

`single_use`: at most one lease per code, for the unit and by the authority of the request that
issued it.  Without the previews the run is the same (`without_previews`).
-/

namespace EstateServer.Invites

open Machine Property
open Leases (Premises)

/-! ## The statement -/

/-- What happens to a code. -/
inductive Event
  | issued (p : Pid) (input : IssueInviteCodeInput) (code : String) (payload : InviteCodePayload)
  | expired (code : String)
  /-- The `GETDEL` has returned the payload. -/
  | consumed (p : Pid) (input : RedeemInviteCodeInput) (payload : InviteCodePayload)
  /-- The transaction with the lease has committed. -/
  | leased (p : Pid) (input : RedeemInviteCodeInput) (row : LeaseRow)
  deriving DecidableEq, Repr

namespace Event

def code : Event → String
  | issued _ _ code _ => code
  | expired code => code
  | consumed _ input _ => input.code
  | leased _ input _ => input.code

/-- The code that was generated. -/
def fresh : Event → Option String
  | issued _ _ code _ => some code
  | _ => none

/-- The lease that was made. -/
def row : Event → Option LeaseRow
  | leased _ _ row => some row
  | _ => none

end Event

/-- What the next step of a process does to a code. -/
def Phase.event (codes : InviteCodes) (p : Pid) (draw : Draw) : Phase → Option Event
  | issue input payload => some (.issued p input draw.code payload)
  | redeem input => (codes input.code).map (.consumed p input)
  | queued input saved _ => some (.leased p input saved)
  | _ => none

/-- What a step does to a code. -/
def event (st : Step State Label) : Option Event :=
  match st.label with
  | .step p draw => (st.pre.phase p).event st.pre.store.codes p draw
  | .expire code => some (.expired code)
  | _ => none

def log (tr : List (Step State Label)) : List Event := tr.filterMap event

/-- What happened to the code. -/
def history (code : String) (tr : List (Step State Label)) : List Event :=
  (log tr).filter fun e => e.code = code

/-- The unit is there, and the user of the payload owns its building. -/
def Owns (premises : Premises) (payload : InviteCodePayload) : Prop :=
  ∃ unit building, premises.findUnit payload.unitId = some unit ∧
    premises.findBuilding unit.buildingId = some building ∧
    building.isOwnedBy (some payload.issuedBy) = true

/-- The step of a process that serves a preview. -/
def previews (st : Step State Label) : Bool :=
  match st.label with
  | .arrive p _ => (st.post.phase p).previews
  | .step p _ => (st.post.phase p).previews
  | .fail p => (st.post.phase p).previews
  | _ => false

/-- The processes that serve previews have never begun. -/
def State.withoutPreviews (s : State) : State :=
  { s with phase := fun p => if (s.phase p).previews then .idle else s.phase p }

/-- What single use of the codes comes to, in a run. -/
structure SingleUse (s₀ : State) (tr : List (Step State Label)) (s : State) : Prop where
  /-- Every new lease is one of the log. -/
  rows : s.store.leases.rows = s₀.store.leases.rows ++ (log tr).filterMap Event.row
  once : ∀ code, (history code tr).countP (fun e => e.row.isSome) ≤ 1
  /-- A lease is for the unit of a code that the owner of its building had issued, and its tenant is
  the caller whose `GETDEL` returned the payload. -/
  authorized : ∀ q input row, .leased q input row ∈ log tr → ∃ p issue payload,
    [.issued p issue input.code payload, .consumed q input payload, .leased q input row].Sublist
      (log tr) ∧
    row.unitId = payload.unitId ∧ input.tenantId = some row.tenantId
  issuer : ∀ st ∈ tr, ∀ p input code payload, event st = some (.issued p input code payload) →
    payload.unitId = input.unitId ∧ input.ownerId = some payload.issuedBy ∧
      Owns st.pre.store.premises payload
  expired : ∀ code, .expired code ∈ log tr → ∀ q input row, .leased q input row ∈ log tr →
    input.code ≠ code
  consumed : ∀ p input payload request result, .consumed p input payload ∈ log tr →
    s.phase p = .done request result → (∀ lease, result ≠ .lease lease) →
    ∀ q input' row, .leased q input' row ∈ log tr → input'.code ≠ input.code
  preview : ∃ tr', invites.Run Any s₀ tr' s.withoutPreviews ∧
    tr'.map (·.label) = (tr.filter fun st => !previews st).map (·.label)

/-! ## Where a code is -/

/-- The code whose lease a process is about to commit. -/
def Phase.holds : Phase → Option String
  | redeemed input _ => some input.code
  | inserted input _ => some input.code
  | queued input _ _ => some input.code
  | _ => none

/-- The process is about to commit a lease for the payload. -/
def Phase.Carries (input : RedeemInviteCodeInput) (payload : InviteCodePayload) : Phase → Prop
  | redeemed input' lease =>
    input' = input ∧ lease.unitId = payload.unitId ∧ input.tenantId = some lease.tenantId
  | inserted input' saved =>
    input' = input ∧ saved.unitId = payload.unitId ∧ input.tenantId = some saved.tenantId
  | queued input' saved _ =>
    input' = input ∧ saved.unitId = payload.unitId ∧ input.tenantId = some saved.tenantId
  | _ => False

variable {s s' s₀ : State} {a : Label} {code : String} {hist : List Event} {e : Option Event}
  {tr : List (Step State Label)}

/-- No process holds the code. -/
def Free (code : String) (s : State) : Prop := ∀ p, (s.phase p).holds ≠ some code

/-- The history of a code, and where it is now. -/
inductive Stage (code : String) (s : State) : List Event → Prop
  | unissued (gone : s.store.codes code = none) (free : Free code s) : Stage code s []
  | live {p : Pid} {input : IssueInviteCodeInput} {payload : InviteCodePayload}
      (held : s.store.codes code = some payload) (free : Free code s) :
      Stage code s [.issued p input code payload]
  | expired {p : Pid} {input : IssueInviteCodeInput} {payload : InviteCodePayload}
      (gone : s.store.codes code = none) (free : Free code s) :
      Stage code s [.issued p input code payload, .expired code]
  | consumed {p q : Pid} {input : IssueInviteCodeInput} {payload : InviteCodePayload}
      {redeem : RedeemInviteCodeInput} (gone : s.store.codes code = none) (same : redeem.code = code)
      (only : ∀ r, (s.phase r).holds = some code → r = q ∧ (s.phase r).Carries redeem payload) :
      Stage code s [.issued p input code payload, .consumed q redeem payload]
  | leased {p q : Pid} {input : IssueInviteCodeInput} {payload : InviteCodePayload}
      {redeem : RedeemInviteCodeInput} {row : LeaseRow} {lease : Lease}
      (gone : s.store.codes code = none) (free : Free code s) (same : redeem.code = code)
      (unit : row.unitId = payload.unitId) (tenant : redeem.tenantId = some row.tenantId)
      (answered : s.phase q = .done (.redeemInviteCode redeem) (.lease lease)) :
      Stage code s
        [.issued p input code payload, .consumed q redeem payload, .leased q redeem row]

/-- A process goes on with the code as it was, or without it. -/
structure Passes (code : String) (before after : Phase) : Prop where
  holds : after.holds = some code → before.holds = some code
  carries : ∀ input payload, after.holds = some code → before.Carries input payload →
    after.Carries input payload
  answered : ∀ request result, before = .done request result → after = before

/-- What a step does to the codes and the leases. -/
inductive Effect (s s' : State) : Option Event → Prop
  | quiet (codes : s'.store.codes = s.store.codes)
      (rows : s'.store.leases.rows = s.store.leases.rows)
      (passes : ∀ c q, Passes c (s.phase q) (s'.phase q)) : Effect s s' none
  | issued {p : Pid} {input : IssueInviteCodeInput} {code : String} {payload : InviteCodePayload}
      (codes : s'.store.codes = Function.update s.store.codes code (some payload))
      (rows : s'.store.leases.rows = s.store.leases.rows)
      (passes : ∀ c q, Passes c (s.phase q) (s'.phase q)) :
      Effect s s' (some (.issued p input code payload))
  | expired {code : String} (live : s.store.codes code ≠ none)
      (codes : s'.store.codes = Function.update s.store.codes code none)
      (rows : s'.store.leases.rows = s.store.leases.rows)
      (passes : ∀ c q, Passes c (s.phase q) (s'.phase q)) : Effect s s' (some (.expired code))
  | consumed {p : Pid} {input : RedeemInviteCodeInput} {payload : InviteCodePayload}
      (held : s.store.codes input.code = some payload)
      (codes : s'.store.codes = (s.store.codes.redeem input.code).2)
      (rows : s'.store.leases.rows = s.store.leases.rows)
      (passes : ∀ c q, (q = p → c ≠ input.code) → Passes c (s.phase q) (s'.phase q))
      (carries : (s'.phase p).holds = some input.code → (s'.phase p).Carries input payload) :
      Effect s s' (some (.consumed p input payload))
  | leased {p : Pid} {input : RedeemInviteCodeInput} {row : LeaseRow} {lease : Lease}
      (holds : (s.phase p).holds = some input.code)
      (carries : ∀ input' payload, (s.phase p).Carries input' payload →
        input = input' ∧ row.unitId = payload.unitId ∧ input'.tenantId = some row.tenantId)
      (codes : s'.store.codes = s.store.codes)
      (rows : s'.store.leases.rows = s.store.leases.rows ++ [row])
      (passes : ∀ c q, Passes c (s.phase q) (s'.phase q))
      (answered : s'.phase p = .done (.redeemInviteCode input) (.lease lease)) :
      Effect s s' (some (.leased p input row))

/-- A step that is about no code or about another one. -/
theorem Effect.apart (effect : Effect s s' e) (other : ∀ e', e = some e' → e'.code ≠ code) :
    s'.store.codes code = s.store.codes code ∧ ∀ q, Passes code (s.phase q) (s'.phase q) := by
  cases effect with
  | quiet codes _ passes => exact ⟨congrFun codes code, passes code⟩
  | issued codes _ passes =>
    refine ⟨?_, passes code⟩
    rw [codes]
    exact Function.update_of_ne (other _ rfl).symm _ _
  | expired _ codes _ passes =>
    refine ⟨?_, passes code⟩
    rw [codes]
    exact Function.update_of_ne (other _ rfl).symm _ _
  | consumed _ codes _ passes =>
    refine ⟨?_, fun q => passes code q fun _ => (other _ rfl).symm⟩
    rw [codes]
    exact if_neg (other _ rfl).symm
  | leased _ _ codes _ passes => exact ⟨congrFun codes code, passes code⟩

namespace Stage

theorem keep (h : Stage code s hist) (codes : s'.store.codes code = s.store.codes code)
    (passes : ∀ q, Passes code (s.phase q) (s'.phase q)) : Stage code s' hist := by
  have free : Free code s → Free code s' := fun free q held => free q ((passes q).holds held)
  cases h with
  | unissued gone unheld => exact .unissued (codes.trans gone) (free unheld)
  | live held unheld => exact .live (codes.trans held) (free unheld)
  | expired gone unheld => exact .expired (codes.trans gone) (free unheld)
  | consumed gone same only =>
    refine .consumed (codes.trans gone) same fun r held => ?_
    obtain ⟨rfl, carries⟩ := only r ((passes r).holds held)
    exact ⟨rfl, (passes r).carries _ _ held carries⟩
  | leased gone unheld same unit tenant answered =>
    exact .leased (codes.trans gone) (free unheld) same unit tenant
      (((passes _).answered _ _ answered).trans answered)

/-- A code that is in Redis has been issued, and nothing else. -/
theorem of_live {payload : InviteCodePayload} (h : Stage code s hist)
    (held : s.store.codes code = some payload) :
    Free code s ∧ ∃ p input, hist = [.issued p input code payload] := by
  cases h with
  | live held' free =>
    obtain rfl := Option.some.inj (held'.symm.trans held)
    exact ⟨free, _, _, rfl⟩
  | unissued gone | expired gone | consumed gone | leased gone =>
    rw [gone] at held
    cases held

/-- A code that a process holds has been consumed by it. -/
theorem of_held {p : Pid} (h : Stage code s hist) (held : (s.phase p).holds = some code) :
    s.store.codes code = none ∧ ∃ q input redeem payload, redeem.code = code ∧
      hist = [.issued q input code payload, .consumed p redeem payload] ∧
      (s.phase p).Carries redeem payload ∧ ∀ r, (s.phase r).holds = some code → r = p := by
  cases h with
  | consumed gone same only =>
    obtain ⟨rfl, carries⟩ := only p held
    exact ⟨gone, _, _, _, _, same, rfl, carries, fun r held => (only r held).1⟩
  | unissued _ free | live _ free | expired _ free | leased _ free => exact absurd held (free p)

/-- A step about the code takes it to its next stage. -/
theorem of_event {e : Event} (h : Stage e.code s hist) (effect : Effect s s' (some e))
    (fresh : e.fresh = some e.code → hist = []) : Stage e.code s' (hist ++ [e]) := by
  cases effect with
  | issued codes _ passes =>
    obtain rfl := fresh rfl
    cases h with
    | unissued _ free =>
      exact .live (by rw [codes]; exact Function.update_self ..) fun q held =>
        free q ((passes _ q).holds held)
  | expired live codes _ passes =>
    obtain ⟨payload, held⟩ := Option.ne_none_iff_exists'.1 live
    obtain ⟨free, p, input, rfl⟩ := h.of_live held
    exact .expired (by rw [codes]; exact Function.update_self ..) fun q held =>
      free q ((passes _ q).holds held)
  | @consumed p input payload held codes _ passes carries =>
    obtain ⟨free, q, issue, rfl⟩ := h.of_live held
    refine .consumed (by rw [codes]; exact if_pos rfl) rfl fun r held' => ?_
    rcases eq_or_ne r p with rfl | apart
    · exact ⟨rfl, carries held'⟩
    · exact absurd ((passes _ r fun same => absurd same apart).holds held') (free r)
  | leased holds carries codes _ passes answered =>
    obtain ⟨gone, q, issue, redeem, payload, same, rfl, carried, only⟩ := h.of_held holds
    obtain ⟨rfl, unit, tenant⟩ := carries redeem payload carried
    refine .leased ((congrFun codes _).trans gone) (fun r held => ?_) rfl unit tenant answered
    obtain rfl := only r ((passes _ r).holds held)
    rw [answered] at held
    cases held

theorem of_effect (h : Stage code s hist) (effect : Effect s s' e)
    (fresh : ∀ p input payload, e = some (.issued p input code payload) → hist = []) :
    Stage code s' (hist ++ e.toList.filter fun e => e.code = code) := by
  by_cases about : ∃ e', e = some e' ∧ e'.code = code
  · obtain ⟨e', rfl, rfl⟩ := about
    rw [Option.toList_some, List.filter_singleton, decide_eq_true rfl, cond_true]
    refine h.of_event effect fun issued => ?_
    cases e' with
    | issued p input code payload => exact fresh p input payload rfl
    | _ => cases issued
  · have other : ∀ e', e = some e' → e'.code ≠ code := fun e' some same => about ⟨e', some, same⟩
    obtain ⟨codes, passes⟩ := effect.apart other
    have nothing : (e.toList.filter fun e => e.code = code) = [] := by
      rw [List.filter_eq_nil_iff]
      intro e' mem
      simpa using other e' (Option.mem_toList.1 mem)
    rw [nothing, List.append_nil]
    exact h.keep codes passes

end Stage

/-! ## What a step does to the codes -/

theorem Passes.refl (code : String) (phase : Phase) : Passes code phase phase :=
  ⟨fun held => held, fun _ _ _ carries => carries, fun _ _ _ => rfl⟩

/-- A process goes on without a code. -/
theorem Passes.of_free {before after : Phase} (free : after.holds ≠ some code)
    (undone : ∀ request result, before ≠ .done request result) : Passes code before after :=
  ⟨fun held => absurd held free, fun _ _ held => absurd held free,
    fun request result answered => absurd answered (undone request result)⟩

/-- Only the process `p` goes to another phase. -/
theorem passes_of_moved {p q : Pid} {phase : Phase} (passes : q = p → Passes code (s.phase p) phase) :
    Passes code (s.phase q) (Function.update s.phase p phase q) := by
  rcases eq_or_ne q p with rfl | other
  · rw [Function.update_self]
    exact passes rfl
  · rw [Function.update_of_ne other]
    exact .refl code (s.phase q)

theorem Phase.holds_of_previews {phase : Phase} (previewing : phase.previews = true) :
    phase.holds = none := by
  cases phase <;> first | rfl | cases previewing

theorem Phase.event_of_previews {phase : Phase} {codes : InviteCodes} {p : Pid} {draw : Draw}
    (previewing : phase.previews = true) : phase.event codes p draw = none := by
  cases phase <;> first | rfl | cases previewing

theorem Effect.of_acts {p : Pid} {draw : Draw} {store : Store} {after : Phase}
    (acts : Acts s.store draw (s.phase p) store after) :
    Effect s ({ s with store }.enter p after) ((s.phase p).event s.store.codes p draw) := by
  have free : after.holds = none → (∀ request result, s.phase p ≠ .done request result) →
      ∀ c q, Passes c (s.phase q) (Function.update s.phase p after q) := by
    intro none undone c q
    exact passes_of_moved fun _ => .of_free (by simp [none]) undone
  generalize before : s.phase p = phase at acts free ⊢
  cases acts with
  | noUnit => exact .quiet rfl rfl (free rfl (by simp))
  | unit => exact .quiet rfl rfl (free rfl (by simp))
  | notOwner => exact .quiet rfl rfl (free rfl (by simp))
  | owner => exact .quiet rfl rfl (free rfl (by simp))
  | issue => exact .issued rfl rfl (free rfl (by simp))
  | preview previewing undone still =>
    rw [Phase.event_of_previews previewing]
    exact .quiet rfl rfl (free (Phase.holds_of_previews still) undone)
  | @unknown input gone =>
    simp only [Phase.event, gone, Option.map_none]
    exact .quiet rfl rfl (free rfl (by simp))
  | @refuse input payload _ held =>
    simp only [Phase.event, held, Option.map_some]
    refine .consumed held rfl rfl (fun c q _ => free rfl (by simp) c q) fun holds => ?_
    rw [enter_self] at holds
    cases holds
  | @redeem input payload tenantId held tenant =>
    simp only [Phase.event, held, Option.map_some]
    refine .consumed held rfl rfl (fun c q apart => passes_of_moved fun same => ?_) fun _ => ?_
    · rw [before]
      exact .of_free (by simpa [Phase.holds] using (apart same).symm) (by simp)
    · rw [enter_self]
      exact ⟨rfl, rfl, tenant⟩
  | insert =>
    refine .quiet rfl rfl fun c q => passes_of_moved fun _ => ?_
    rw [before]
    exact ⟨fun held => held, fun _ _ _ carries => carries, by simp⟩
  | queue =>
    refine .quiet rfl rfl fun c q => passes_of_moved fun _ => ?_
    rw [before]
    exact ⟨fun held => held, fun _ _ _ carries => carries, by simp⟩
  | @commit input saved draw' leases outbox inserted =>
    refine .leased (by rw [before]; rfl) ?_ rfl inserted (free rfl (by simp)) enter_self
    intro input' payload carries
    rwa [before] at carries

theorem Effect.of_next (next : invites.next s a = some s') : Effect s s' (event ⟨s, a, s'⟩) := by
  cases a with
  | arrive p request =>
    simp only [invites, State.next] at next
    split_ifs at next with idle
    rw [← Option.some.inj next]
    refine .quiet rfl rfl fun c q => passes_of_moved fun _ => .of_free ?_ (by simp [idle])
    cases request <;> simp [Request.start, Phase.holds]
  | step p draw =>
    obtain ⟨⟨store, after⟩, act, rfl⟩ := Option.map_eq_some_iff.1 next
    exact .of_acts (.of_act act)
  | fail p =>
    simp only [invites, State.next] at next
    split at next
    · cases next
    · rename_i undone
      obtain ⟨request, -, rfl⟩ := Option.map_eq_some_iff.1 next
      refine .quiet rfl rfl fun c q => passes_of_moved fun _ => .of_free (by simp [Phase.holds]) undone
  | expire code =>
    simp only [invites, State.next] at next
    split_ifs at next with live
    rw [← Option.some.inj next]
    exact .expired live rfl rfl fun c q => .refl c _
  | createBuilding | createUnit =>
    obtain rfl := Option.some.inj next
    exact .quiet rfl rfl fun c q => .refl c _

theorem Effect.rows (effect : Effect s s' e) :
    s'.store.leases.rows = s.store.leases.rows ++ e.toList.filterMap Event.row := by
  cases effect with
  | leased _ _ _ rows => exact rows
  | quiet _ rows | issued _ rows | expired _ _ rows | consumed _ _ rows => simp [rows, Event.row]

/-! ## The authority of the issuer -/

/-- What a phase of `IssueInviteCode` has found. -/
def Phase.Known (premises : Premises) : Phase → Prop
  | findBuilding input unit => premises.findUnit input.unitId = some unit
  | issue input payload =>
    payload.unitId = input.unitId ∧ input.ownerId = some payload.issuedBy ∧ Owns premises payload
  | _ => True

/-- Buildings and units that can be found can still be found. -/
structure Grows (premises premises' : Premises) : Prop where
  unit : ∀ id unit, premises.findUnit id = some unit → premises'.findUnit id = some unit
  building : ∀ id building, premises.findBuilding id = some building →
    premises'.findBuilding id = some building

theorem Phase.Known.mono {premises premises' : Premises} {phase : Phase} (h : phase.Known premises)
    (grows : Grows premises premises') : phase.Known premises' := by
  cases phase with
  | findBuilding => exact grows.unit _ _ h
  | issue =>
    obtain ⟨same, owner, unit, building, found, here, owned⟩ := h
    exact ⟨same, owner, unit, building, grows.unit _ _ found, grows.building _ _ here, owned⟩
  | _ => exact h

theorem Acts.known {store store' : Store} {draw : Draw} {before after : Phase}
    (acts : Acts store draw before store' after) (known : before.Known store.premises) :
    after.Known store.premises := by
  cases acts with
  | unit found => exact found
  | @owner input unit building ownerId found owner owned =>
    have same : unit.id = input.unitId := by
      have matched := List.find?_some known
      exact (of_decide_eq_true matched).1
    refine ⟨same, owner, unit, building, ?_, found, owned⟩
    rw [same]
    exact known
  | preview _ _ still => cases after <;> trivial
  | _ => trivial

theorem Acts.premises {store store' : Store} {draw : Draw} {before after : Phase}
    (acts : Acts store draw before store' after) : store'.premises = store.premises := by
  cases acts <;> rfl

theorem known_of_next (h : ∀ p, (s.phase p).Known s.store.premises)
    (next : invites.next s a = some s') : ∀ p, (s'.phase p).Known s'.store.premises := by
  have enters : ∀ q phase, phase.Known s.store.premises →
      ∀ p, (Function.update s.phase q phase p).Known s.store.premises :=
    fun _ _ known => (Function.forall_update_iff s.phase fun _ phase =>
      phase.Known s.store.premises).2 ⟨known, fun p _ => h p⟩
  cases a with
  | arrive q request =>
    simp only [invites, State.next] at next
    split_ifs at next
    rw [← Option.some.inj next]
    refine enters _ _ ?_
    cases request <;> trivial
  | step q draw =>
    obtain ⟨⟨store, after⟩, act, rfl⟩ := Option.map_eq_some_iff.1 next
    have acts := Acts.of_act act
    show ∀ p, (Function.update s.phase q after p).Known store.premises
    rw [acts.premises]
    exact enters _ _ (acts.known (h q))
  | fail q =>
    simp only [invites, State.next] at next
    split at next
    · cases next
    · obtain ⟨request, -, rfl⟩ := Option.map_eq_some_iff.1 next
      exact enters _ _ trivial
  | expire code =>
    simp only [invites, State.next] at next
    split_ifs at next
    rw [← Option.some.inj next]
    exact h
  | createBuilding row =>
    obtain rfl := Option.some.inj next
    refine fun p => (h p).mono ⟨fun _ _ found => found, fun id building found => ?_⟩
    exact List.find?_append.trans (by rw [Premises.findBuilding] at found; rw [found]; rfl)
  | createUnit row =>
    obtain rfl := Option.some.inj next
    refine fun p => (h p).mono ⟨fun id unit found => ?_, fun _ _ found => found⟩
    exact List.find?_append.trans (by rw [Premises.findUnit] at found; rw [found]; rfl)

/-! ## Runs without previews -/

/-- A step leaves a preview a preview, and it writes nothing for it. -/
theorem Acts.previews {store store' : Store} {draw : Draw} {before after : Phase}
    (acts : Acts store draw before store' after) :
    before.previews = after.previews ∧ (after.previews = true → store' = store) := by
  cases acts with
  | preview previewing _ still => exact ⟨previewing.trans still.symm, fun _ => rfl⟩
  | _ => exact ⟨rfl, fun previewing => nomatch previewing⟩

theorem withoutPreviews_enter {p : Pid} {phase : Phase} :
    (s.enter p phase).withoutPreviews =
      s.withoutPreviews.enter p (if phase.previews then .idle else phase) := by
  unfold State.withoutPreviews State.enter
  congr 1
  funext q
  rcases eq_or_ne q p with rfl | other
  · simp only [Function.update_self]
  · simp only [Function.update_of_ne other]

theorem enter_same {p : Pid} {phase : Phase} (same : s.phase p = phase) : s.enter p phase = s := by
  subst same
  exact congrArg (State.mk s.store) (Function.update_eq_self ..)

theorem withoutPreviews_phase {p : Pid} (visible : (s.phase p).previews = false) :
    s.withoutPreviews.phase p = s.phase p := by
  simp [State.withoutPreviews, visible]

theorem withoutPreviews_of_preview {p : Pid} (hidden : (s.phase p).previews = true) :
    s.withoutPreviews.phase p = .idle := by
  simp [State.withoutPreviews, hidden]

theorem Phase.previews_of_request {phase : Phase} {request : Request} {result : Result}
    (h : phase.request = some request) : (Phase.done request result).previews = phase.previews := by
  rw [previews, previews, h]
  rfl

theorem hidden_same (next : invites.next s a = some s') (hidden : previews ⟨s, a, s'⟩ = true) :
    s'.withoutPreviews = s.withoutPreviews := by
  have stays : ∀ {s : State} {p : Pid} {phase : Phase}, phase.previews = true →
      s.withoutPreviews.phase p = .idle → (s.enter p phase).withoutPreviews = s.withoutPreviews := by
    intro s p phase previewing idle
    rw [withoutPreviews_enter, if_pos previewing, enter_same idle]
  cases a with
  | arrive p request =>
    simp only [invites, State.next] at next
    split_ifs at next with idle
    obtain rfl := Option.some.inj next
    simp only [previews, enter_self] at hidden
    refine stays hidden ?_
    rw [withoutPreviews_phase (by rw [idle]; rfl), idle]
  | step p draw =>
    obtain ⟨⟨store, after⟩, act, rfl⟩ := Option.map_eq_some_iff.1 next
    simp only [previews, enter_self] at hidden
    obtain ⟨before, writes⟩ := (Acts.of_act act).previews
    obtain rfl := writes hidden
    exact stays hidden (withoutPreviews_of_preview (before.trans hidden))
  | fail p =>
    simp only [invites, State.next] at next
    split at next
    · cases next
    · obtain ⟨request, served, rfl⟩ := Option.map_eq_some_iff.1 next
      simp only [previews, enter_self] at hidden
      refine stays hidden (withoutPreviews_of_preview ?_)
      rwa [Phase.previews_of_request served] at hidden
  | _ => cases hidden

theorem visible_seen (next : invites.next s a = some s') (visible : previews ⟨s, a, s'⟩ = false) :
    invites.next s.withoutPreviews a = some s'.withoutPreviews := by
  have goes : ∀ {s : State} {p : Pid} {phase : Phase}, phase.previews = false →
      (s.enter p phase).withoutPreviews = s.withoutPreviews.enter p phase := by
    intro s p phase visible
    rw [withoutPreviews_enter, visible]
    rfl
  cases a with
  | arrive p request =>
    simp only [invites, State.next] at next ⊢
    split_ifs at next with idle
    obtain rfl := Option.some.inj next
    simp only [previews, enter_self] at visible
    rw [withoutPreviews_phase (by rw [idle]; rfl), if_pos idle, goes visible]
  | step p draw =>
    obtain ⟨⟨store, after⟩, act, rfl⟩ := Option.map_eq_some_iff.1 next
    simp only [previews, enter_self] at visible
    obtain ⟨before, -⟩ := (Acts.of_act act).previews
    rw [goes visible]
    simp only [invites, State.next]
    rw [withoutPreviews_phase (before.trans visible)]
    exact Option.map_eq_some_iff.2 ⟨_, act, rfl⟩
  | fail p =>
    simp only [invites, State.next] at next ⊢
    split at next
    · cases next
    · rename_i undone
      obtain ⟨request, served, rfl⟩ := Option.map_eq_some_iff.1 next
      simp only [previews, enter_self] at visible
      rw [goes visible]
      rw [Phase.previews_of_request served] at visible
      rw [withoutPreviews_phase visible]
      split
      · exact absurd ‹_› (undone _ _)
      · rw [served]
        rfl
  | expire code =>
    simp only [invites, State.next] at next ⊢
    split_ifs at next with live
    obtain rfl := Option.some.inj next
    exact if_neg live
  | createBuilding row | createUnit row =>
    obtain rfl := Option.some.inj next
    rfl

theorem without_previews {C : State → Label → Prop} (idle : s₀.phase = fun _ => .idle)
    (run : invites.Run C s₀ tr s) : ∃ tr', invites.Run Any s₀ tr' s.withoutPreviews ∧
      tr'.map (·.label) = (tr.filter fun st => !previews st).map (·.label) := by
  have start : s₀.withoutPreviews = s₀ := by
    obtain ⟨store, phase⟩ := s₀
    obtain rfl : phase = _ := idle
    rfl
  have seen := run.hide State.withoutPreviews previews
    (fun _ _ _ next hidden => hidden_same next hidden)
    fun _ _ _ next visible => visible_seen next visible
  rwa [start] at seen

/-! ## Runs -/

theorem log_concat {st : Step State Label} : log (tr ++ [st]) = log tr ++ (event st).toList := by
  rw [log, List.filterMap_append]
  cases h : event st <;> simp [log, h]

theorem history_concat {st : Step State Label} : history code (tr ++ [st]) =
    history code tr ++ (event st).toList.filter fun e => e.code = code := by
  rw [history, log_concat, List.filter_append, history]

theorem mem_history {e : Event} (h : e ∈ log tr) : e ∈ history e.code tr :=
  List.mem_filter.2 ⟨h, decide_eq_true rfl⟩

/-- A code that has not been generated has no history. -/
theorem Stage.eq_nil (h : Stage code s (history code tr))
    (fresh : code ∉ (log tr).filterMap Event.fresh) : history code tr = [] := by
  have unissued : ∀ p input payload, .issued p input code payload ∉ history code tr :=
    fun p input payload mem =>
      fresh (List.mem_filterMap.2 ⟨_, List.mem_of_mem_filter mem, rfl⟩)
  generalize history code tr = hist at h unissued
  cases h with
  | unissued => rfl
  | live | expired | consumed | leased => exact absurd List.mem_cons_self (unissued _ _ _)

theorem stage_of_run {C : State → Label → Prop} (init : invites.start s₀)
    (run : invites.Run C s₀ tr s) (distinct : ((log tr).filterMap Event.fresh).Nodup) (code : String) :
    Stage code s (history code tr) := by
  refine run.trace_invariant (I := fun tr s => ((log tr).filterMap Event.fresh).Nodup →
    ∀ code, Stage code s (history code tr)) ?_ ?_ distinct code
  · intro tr s a s' ih _ next distinct code
    rw [log_concat, List.filterMap_append] at distinct
    obtain ⟨before, -, apart⟩ := List.nodup_append.1 distinct
    rw [history_concat]
    refine (ih before code).of_effect (.of_next next) fun p input payload issued => ?_
    refine (ih before code).eq_nil fun old => apart _ old code ?_ rfl
    simp [issued, Event.fresh]
  · intro _ code
    exact .unissued (by rw [init.1]) fun p => by simp [init.2, Phase.holds]

theorem rows_of_run {C : State → Label → Prop} (run : invites.Run C s₀ tr s) :
    s.store.leases.rows = s₀.store.leases.rows ++ (log tr).filterMap Event.row := by
  refine run.trace_invariant (I := fun tr s => s.store.leases.rows =
    s₀.store.leases.rows ++ (log tr).filterMap Event.row) ?_ (by simp [log])
  intro tr s a s' ih _ next
  rw [(Effect.of_next next).rows, ih, log_concat, List.filterMap_append, List.append_assoc]

/-- The history of a code that has yielded a lease. -/
theorem Stage.of_leased {q : Pid} {input : RedeemInviteCodeInput} {row : LeaseRow}
    (h : Stage code s hist) (mem : .leased q input row ∈ hist) : ∃ p issue payload lease,
    hist = [.issued p issue code payload, .consumed q input payload, .leased q input row] ∧
      row.unitId = payload.unitId ∧ input.tenantId = some row.tenantId ∧
      s.phase q = .done (.redeemInviteCode input) (.lease lease) := by
  cases h with
  | leased _ _ _ unit tenant answered =>
    simp only [List.mem_cons, reduceCtorEq, false_or, Event.leased.injEq, List.not_mem_nil,
      or_false] at mem
    obtain ⟨rfl, rfl, rfl⟩ := mem
    exact ⟨_, _, _, _, rfl, unit, tenant, answered⟩
  | unissued | live | expired | consumed => simp at mem

theorem Stage.once (h : Stage code s hist) : hist.countP (fun e => e.row.isSome) ≤ 1 := by
  cases h <;> simp [Event.row]

theorem issuer_of_run {C : State → Label → Prop} {st : Step State Label} {p : Pid}
    {input : IssueInviteCodeInput} {payload : InviteCodePayload} (init : invites.start s₀)
    (run : invites.Run C s₀ tr s) (mem : st ∈ tr)
    (issued : event st = some (.issued p input code payload)) :
    payload.unitId = input.unitId ∧ input.ownerId = some payload.issuedBy ∧
      Owns st.pre.store.premises payload := by
  have known := run.invariant_of_mem (I := fun s => ∀ p, (s.phase p).Known s.store.premises)
    (fun _ _ _ h _ next => known_of_next h next) (fun p => by rw [init.2]; trivial) mem
  obtain ⟨pre, label, post⟩ := st
  cases label with
  | step q draw =>
    have now := known q
    simp only [event] at issued
    cases phase : pre.phase q <;> simp only [phase, Phase.event] at issued now
    case issue =>
      simp only [Option.some.injEq, Event.issued.injEq] at issued
      obtain ⟨-, rfl, -, rfl⟩ := issued
      exact now
    all_goals simp at issued
  | _ => simp [event] at issued

/-- A code yields at most one lease, for the unit that its issuer was in charge of, to the caller that
consumed it; and previews make no difference. -/
theorem single_use (init : invites.start s₀) (run : invites.Run Any s₀ tr s)
    (distinct : ((log tr).filterMap Event.fresh).Nodup) : SingleUse s₀ tr s := by
  have stage := stage_of_run init run distinct
  refine ⟨rows_of_run run, fun code => (stage code).once, ?_, ?_, ?_, ?_, without_previews init.2 run⟩
  · intro q input row mem
    obtain ⟨p, issue, payload, -, hist, unit, tenant, -⟩ := (stage _).of_leased (mem_history mem)
    refine ⟨p, issue, payload, ?_, unit, tenant⟩
    rw [show input.code = (Event.leased q input row).code from rfl, ← hist]
    exact List.filter_sublist
  · intro st mem p input code payload issued
    exact issuer_of_run init run mem issued
  · rintro code expired q input row mem rfl
    obtain ⟨p, issue, payload, -, hist, -⟩ := (stage _).of_leased (mem_history mem)
    have other := mem_history expired
    simp only [Event.code] at other hist
    rw [hist] at other
    simp at other
  · intro p input payload request result consumed answered failed q input' row mem same
    obtain ⟨p', issue, payload', lease, hist, -, -, leased⟩ := (stage _).of_leased (mem_history mem)
    have other := mem_history consumed
    simp only [Event.code] at other hist
    rw [← same, hist] at other
    simp only [List.mem_cons, reduceCtorEq, false_or, Event.consumed.injEq, List.not_mem_nil,
      or_false] at other
    obtain ⟨rfl, -, -⟩ := other
    rw [answered] at leased
    exact failed lease (Phase.done.inj leased).2

/-! ## A code and two tenants -/

/-- User 1 owns building 2 with unit 3. -/
def letting : State where
  store :=
    { premises := ⟨[⟨⟨2, 1⟩, "building", none⟩], [⟨⟨3, 2⟩, "unit", none⟩]⟩
      codes := fun _ => none
      leases := ⟨[], List.nodup_nil⟩
      outbox := ⟨[], List.nodup_nil, List.nodup_nil⟩ }
  phase _ := .idle

/-- A request and its first `n` steps. -/
def serve (p : Pid) (request : Request) (n : ℕ) : List Label :=
  .arrive p request :: List.replicate n (.step p ⟨"code", p, p, p, 0, []⟩)

/-- User 1 issues a code; it is looked at, user 5 redeems it, and user 6 comes too late. -/
def oneCode : List Label :=
  serve 0 (.issueInviteCode ⟨some 1, 3⟩) 3 ++ serve 1 (.previewInviteCode "code") 3 ++
    serve 2 (.redeemInviteCode ⟨some 5, "code"⟩) 4 ++ serve 3 (.redeemInviteCode ⟨some 6, "code"⟩) 1

theorem single_use_one_code : ∃ s, invites.Run Any letting (invites.steps letting oneCode) s ∧
    s.store.leases.rows = [⟨2, 3, 5, .active, none⟩] ∧
    s.phase 3 = .done (.redeemInviteCode ⟨some 6, "code"⟩) (.failed (.property .invalidInviteCode)) ∧
    SingleUse letting (invites.steps letting oneCode) s := by
  have computed : (invites.exec (fun _ _ => true) letting oneCode).map
      (fun s => (s.store.leases.rows, s.phase 3)) =
      some ([⟨2, 3, 5, .active, none⟩],
        .done (.redeemInviteCode ⟨some 6, "code"⟩) (.failed (.property .invalidInviteCode))) := by
    decide
  obtain ⟨s, reached, seen⟩ := Option.map_eq_some_iff.1 computed
  obtain ⟨run, -⟩ := run_of_exec (C := Any) (fun _ _ _ => trivial) reached
  obtain ⟨rows, late⟩ := Prod.mk.inj seen
  exact ⟨s, run, rows, late, single_use ⟨rfl, rfl⟩ run (by decide)⟩

end EstateServer.Invites
