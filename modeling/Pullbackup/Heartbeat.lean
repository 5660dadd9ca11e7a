import Pullbackup.Freshness
import Pullbackup.Library.History

/- services/kuma_sync.py: the calls of sync_task for one task, each of which projects the
   database at once and then delivers its push. A request that was sent can reach Kuma at
   any later time, also after the attempt that sent it has failed. -/
namespace Pullbackup
open KeyedTable History

def pushAttempts : Nat := 3

inductive PushAnswer where
  | accepted
  | httpStatus (code : Nat)
  | raised (kind : String)
  deriving DecidableEq, Repr

def safeError : PushAnswer → Option String
  | .accepted => none
  | .httpStatus code => some ("HTTP " ++ toString code)
  | .raised kind => some kind

def PushAnswer.retryable : PushAnswer → Bool
  | .accepted => false
  | .httpStatus code => 500 ≤ code
  | .raised _ => true

structure SyncOutcome where
  state : FreshState
  reason : FreshReason
  status : Option KumaStatus
  pushed : Bool
  ok : Bool
  attempts : Nat := 0
  error : Option String := none
  recordedAt : Int
  deriving DecidableEq, Repr

/-- A call that awaits its push; seq counts the projections before its own. -/
structure PushCall where
  seq : Nat
  freshness : Freshness
  status : KumaStatus
  projectedAt : Int
  attempts : Nat := 1
  deriving DecidableEq, Repr

instance : Keyed PushCall Nat := ⟨PushCall.seq⟩

@[simp] theorem key_pushCall (c : PushCall) : Keyed.key c = c.seq := rfl

structure Heartbeat where
  seq : Nat
  attempt : Nat
  status : KumaStatus
  deriving DecidableEq, Repr

structure PushEnv where
  trig : Trigger
  croniter : Croniter
  kuma : Bool

/-- The calls in flight, the requests that have not reached Kuma and those that have (newest
    first), and the entry of _outcomes with the call it is of. What each call projected (newest
    first) and whether a push was given up are kept to be spoken about. -/
structure Heartbeats where
  calls : Table PushCall := .empty
  sending : List Heartbeat := []
  delivered : List Heartbeat := []
  outcome : Option (Nat × SyncOutcome) := none
  projected : List (Option KumaStatus) := []
  gaveUp : Bool := false

namespace Heartbeats

def send (s : Heartbeats) (c : PushCall) : Heartbeats :=
  { s with calls := s.calls.put c, sending := ⟨c.seq, c.attempts, c.status⟩ :: s.sending }

def record (s : Heartbeats) (seq : Nat) (outcome : SyncOutcome) : Heartbeats :=
  { s with outcome := some (seq, outcome) }

def syncTask (env : PushEnv) (task : Nat) (s : Heartbeats) (db : Db) (now wall : Int) : Heartbeats :=
  match db.tasks.get task with
  | none => s
  | some row =>
    if row.kumaEnabled = false ∨ (row.kumaPushToken.all fun token => token = "") then s
    else
      let f := projectTask env.trig env.croniter db row now wall
      let seq := s.projected.length
      let s := { s with projected := f.kumaStatus :: s.projected }
      match f.kumaStatus with
      | none =>
        s.record seq
          { state := f.state, reason := f.reason, status := none, pushed := false, ok := true
            recordedAt := wall }
      | some status =>
        if env.kuma = false then
          { s with gaveUp := true }.record seq
            { state := f.state, reason := f.reason, status := some status, pushed := true, ok := false
              error := some "kuma_not_configured", recordedAt := wall }
        else s.send { seq := seq, freshness := f, status := status, projectedAt := wall }

def finish (s : Heartbeats) (c : PushCall) (answer : PushAnswer) : Heartbeats :=
  { s with
    calls := s.calls.erase c.seq
    gaveUp := s.gaveUp ∨ answer ≠ PushAnswer.accepted }.record c.seq
      { state := c.freshness.state, reason := c.freshness.reason, status := some c.status
        pushed := true, ok := answer = PushAnswer.accepted, attempts := c.attempts
        error := safeError answer, recordedAt := c.projectedAt }

def lastAttempt (c : PushCall) (answer : PushAnswer) : Bool :=
  answer.retryable = false ∨ pushAttempts ≤ c.attempts

def respond (s : Heartbeats) (c : PushCall) (answer : PushAnswer) : Heartbeats :=
  if lastAttempt c answer then s.finish c answer
  else s.send { c with attempts := c.attempts + 1 }

def land (s : Heartbeats) (r : Heartbeat) : Heartbeats :=
  { s with sending := s.sending.erase r, delivered := r :: s.delivered }

end Heartbeats

inductive PushEvent where
  | sync (db : Db) (now wall : Int)
  | land (r : Heartbeat)
  | answer (seq : Nat) (answer : PushAnswer)

/-- A push is accepted only when its request has reached Kuma. -/
def Heartbeats.next (env : PushEnv) (task : Nat) (s : Heartbeats) : PushEvent → Option Heartbeats
  | .sync db now wall => some (s.syncTask env task db now wall)
  | .land r => if r ∈ s.sending then some (s.land r) else none
  | .answer seq answer =>
    match s.calls.get seq with
    | none => none
    | some c =>
      if answer = .accepted ∧ ⟨seq, c.attempts, c.status⟩ ∉ s.delivered then none
      else some (s.respond c answer)

def newestPush : List (Option KumaStatus) → Option (Nat × KumaStatus)
  | [] => none
  | some status :: rest => some (rest.length, status)
  | none :: rest => newestPush rest

/-- What holds once every call is over and its push was accepted. -/
def TellsNewest (s : Heartbeats) : Prop :=
  s.calls.rows = [] → s.gaveUp = false →
    ∀ seq status, newestPush s.projected = some (seq, status) →
    s.delivered.head?.map Heartbeat.status = some status ∧
    ∃ instant outcome, s.outcome = some (instant, outcome) ∧
      (instant = seq ∧ outcome.status = some status ∨ seq < instant ∧ outcome.pushed = false)

/-- A request reaches Kuma after that of a call that projected later, and says otherwise than
    the last one did; or a call records its outcome over that of a later one. -/
def Overtaken (s : Heartbeats) : PushEvent → Prop
  | .sync _ _ _ => False
  | .land r => (∃ d ∈ s.delivered, r.seq < d.seq) ∧
      s.delivered.head?.map Heartbeat.status ≠ some r.status
  | .answer seq answer => (s.calls.get seq).any (fun c => Heartbeats.lastAttempt c answer) ∧
      s.outcome.any fun o => seq < o.1

instance (s : Heartbeats) (event : PushEvent) : Decidable (Overtaken s event) :=
  match event with
  | .sync _ _ _ => inferInstanceAs (Decidable False)
  | .land _ => inferInstanceAs (Decidable (_ ∧ _))
  | .answer _ _ => inferInstanceAs (Decidable (_ ∧ _))

def PushStep (env : PushEnv) (task : Nat) (s : Heartbeats) (event : PushEvent) (t : Heartbeats) :
    Prop := s.next env task event = some t

def PushStepInOrder (env : PushEnv) (task : Nat) (s : Heartbeats) (event : PushEvent)
    (t : Heartbeats) : Prop := PushStep env task s event t ∧ ¬ Overtaken s event

def statusOf (projected : List (Option KumaStatus)) (seq : Nat) : Option (Option KumaStatus) :=
  projected.reverse[seq]?

section Projections
variable {projected : List (Option KumaStatus)} {status : KumaStatus} {seq : Nat}

theorem statusOf_cons (x : Option KumaStatus) (projected : List (Option KumaStatus)) (seq : Nat) :
    statusOf (x :: projected) seq =
      if seq = projected.length then some x else statusOf projected seq := by
  rw [statusOf, statusOf, List.reverse_cons]
  rcases Nat.lt_trichotomy seq projected.length with before | same | after
  · rw [List.getElem?_append_left (by simpa using before), if_neg (by omega)]
  · rw [if_pos same, same, List.getElem?_append_right (by simp)]
    simp
  · rw [if_neg (by omega), List.getElem?_eq_none (by simp; omega),
      List.getElem?_eq_none (by simp; omega)]

theorem statusOf_lt {x : Option KumaStatus} (here : statusOf projected seq = some x) :
    seq < projected.length := by
  have inside := (List.getElem?_eq_some_iff.mp here).1
  simpa using inside

theorem statusOf_old {x y : Option KumaStatus} (here : statusOf projected seq = some x) :
    statusOf (y :: projected) seq = some x := by
  have before := statusOf_lt here
  rw [statusOf_cons, if_neg (by omega)]
  exact here

theorem newestPush_spec (newest : newestPush projected = some (seq, status)) :
    statusOf projected seq = some (some status) ∧
      ∀ later, seq < later → later < projected.length → statusOf projected later = some none := by
  induction projected with
  | nil => cases newest
  | cons x rest ih =>
    cases x with
    | some said =>
      cases newest
      rw [statusOf_cons, if_pos rfl]
      refine ⟨rfl, ?_⟩
      intro later after inside
      simp only [List.length_cons] at inside
      omega
    | none =>
      obtain ⟨here, silent⟩ := ih newest
      have before := statusOf_lt here
      rw [statusOf_cons, if_neg (by omega)]
      refine ⟨here, ?_⟩
      intro later after inside
      rw [statusOf_cons]
      split
      · rfl
      · simp only [List.length_cons] at inside
        exact silent later after (by omega)

end Projections

/-- Who pushes says what it projected; a call is over when it has recorded, and was delivered
    when its push was accepted; the last status delivered is that of the latest call delivered. -/
structure Heartbeats.Sound (s : Heartbeats) : Prop where
  calling : ∀ c ∈ s.calls.rows, statusOf s.projected c.seq = some (some c.status)
  sent : ∀ r ∈ s.sending, statusOf s.projected r.seq = some (some r.status)
  landed : ∀ r ∈ s.delivered, statusOf s.projected r.seq = some (some r.status)
  ended : ∀ seq status, statusOf s.projected seq = some status →
    (∃ c ∈ s.calls.rows, c.seq = seq) ∨ s.gaveUp = true ∨
      (∃ instant outcome, s.outcome = some (instant, outcome) ∧ seq ≤ instant) ∧
        (status.isSome → ∃ r ∈ s.delivered, r.seq = seq)
  recorded : ∀ instant outcome, s.outcome = some (instant, outcome) →
    statusOf s.projected instant = some outcome.status ∧ outcome.pushed = outcome.status.isSome
  top : ∀ r ∈ s.delivered, (∀ d ∈ s.delivered, d.seq ≤ r.seq) →
    s.delivered.head?.map Heartbeat.status = some r.status

section Heartbeats
variable {env : PushEnv} {task : Nat} {s t : Heartbeats} {event : PushEvent}

/-- The invariant gives what is said of a state with every call over. -/
theorem sound_tellsNewest (sound : s.Sound) : TellsNewest s := by
  intro idle accepted seq status newest
  obtain ⟨here, silent⟩ := newestPush_spec newest
  have done : ∀ n x, statusOf s.projected n = some x →
      (∃ instant outcome, s.outcome = some (instant, outcome) ∧ n ≤ instant) ∧
        (x.isSome → ∃ r ∈ s.delivered, r.seq = n) := by
    intro n x projected
    rcases sound.ended n x projected with ⟨c, mem, -⟩ | gaveUp | isOver
    · rw [idle] at mem
      cases mem
    · rw [accepted] at gaveUp
      cases gaveUp
    · exact isOver
  obtain ⟨⟨instant, outcome, stored, late⟩, reached⟩ := done seq (some status) here
  obtain ⟨r, mem, same⟩ := reached rfl
  have agrees : r.status = status := by
    have projected := sound.landed r mem
    rw [same, here] at projected
    simpa using projected.symm
  constructor
  · rw [sound.top r mem, agrees]
    intro d other
    by_contra later
    have projected := sound.landed d other
    rw [silent d.seq (by omega) (statusOf_lt projected)] at projected
    simp at projected
  · obtain ⟨tells, pushed⟩ := sound.recorded instant outcome stored
    refine ⟨instant, outcome, stored, ?_⟩
    rcases Nat.eq_or_lt_of_le late with equal | after
    · rw [← equal, here] at tells
      exact Or.inl ⟨equal.symm, (Option.some.inj tells).symm⟩
    · rw [silent instant after (statusOf_lt tells)] at tells
      rw [← Option.some.inj tells] at pushed
      exact Or.inr ⟨after, pushed⟩

theorem sound_projected (sound : s.Sound) (x : Option KumaStatus) :
    (∀ c ∈ s.calls.rows, statusOf (x :: s.projected) c.seq = some (some c.status)) ∧
    (∀ r ∈ s.sending, statusOf (x :: s.projected) r.seq = some (some r.status)) ∧
    (∀ r ∈ s.delivered, statusOf (x :: s.projected) r.seq = some (some r.status)) :=
  ⟨fun c mem => statusOf_old (sound.calling c mem), fun r mem => statusOf_old (sound.sent r mem),
    fun r mem => statusOf_old (sound.landed r mem)⟩

theorem record_sound (sound : s.Sound) {x : Option KumaStatus} {outcome : SyncOutcome} {gaveUp : Bool}
    (tells : outcome.status = x) (pushed : outcome.pushed = x.isSome)
    (given : x.isSome → gaveUp = true) (kept : s.gaveUp = true → gaveUp = true) :
    ({ s with projected := x :: s.projected, gaveUp := gaveUp }.record s.projected.length
      outcome).Sound := by
  obtain ⟨calling, sent, landed⟩ := sound_projected sound x
  refine ⟨calling, sent, landed, ?_, ?_, sound.top⟩
  · intro seq status projected
    simp only [Heartbeats.record] at projected ⊢
    rw [statusOf_cons] at projected
    split at projected
    · cases projected
      rename_i same
      by_cases pushes : x.isSome
      · exact Or.inr (Or.inl (given pushes))
      · exact Or.inr (Or.inr ⟨⟨_, _, rfl, Nat.le_of_eq same⟩, fun nonempty => absurd nonempty pushes⟩)
    · rcases sound.ended seq status projected with calls | gave | ⟨-, reached⟩
      · exact Or.inl calls
      · exact Or.inr (Or.inl (kept gave))
      · exact Or.inr (Or.inr ⟨⟨_, _, rfl, Nat.le_of_lt (statusOf_lt projected)⟩, reached⟩)
  · intro instant outcome' stored
    cases stored
    simp only [Heartbeats.record]
    rw [statusOf_cons, if_pos rfl, tells]
    exact ⟨rfl, pushed⟩

theorem send_sound (sound : s.Sound) (c : PushCall)
    (projects : statusOf s.projected c.seq = some (some c.status)) : (s.send c).Sound := by
  refine ⟨?_, ?_, sound.landed, ?_, sound.recorded, sound.top⟩
  · intro d mem
    rcases Table.mem_put_iff.mp mem with rfl | ⟨-, old⟩
    · exact projects
    · exact sound.calling d old
  · intro r mem
    rcases List.mem_cons.mp mem with rfl | old
    · exact projects
    · exact sound.sent r old
  · intro seq status projected
    rcases sound.ended seq status projected with ⟨d, mem, named⟩ | rest
    · left
      by_cases same : d.seq = c.seq
      · exact ⟨c, Table.mem_put_iff.mpr (Or.inl rfl), same.symm.trans named⟩
      · exact ⟨d, Table.mem_put_iff.mpr (Or.inr ⟨same, mem⟩), named⟩
    · exact Or.inr rest

theorem syncStart_sound (sound : s.Sound) (c : PushCall) (new : c.seq = s.projected.length) :
    ({ s with projected := some c.status :: s.projected }.send c).Sound := by
  obtain ⟨calling, sent, landed⟩ := sound_projected sound (some c.status)
  have own : statusOf (some c.status :: s.projected) c.seq = some (some c.status) := by
    rw [statusOf_cons, if_pos new]
  have fresh : ∀ d ∈ s.calls.rows, d.seq ≠ c.seq := by
    intro d mem
    have before := statusOf_lt (sound.calling d mem)
    omega
  refine ⟨?_, ?_, landed, ?_, ?_, sound.top⟩
  · intro d mem
    rcases Table.mem_put_iff.mp mem with rfl | ⟨-, old⟩
    · exact own
    · exact calling d old
  · intro r mem
    rcases List.mem_cons.mp mem with rfl | old
    · exact own
    · exact sent r old
  · intro seq status projected
    simp only [Heartbeats.send] at projected
    rw [statusOf_cons] at projected
    split at projected
    · rename_i same
      exact Or.inl ⟨c, Table.mem_put_iff.mpr (Or.inl rfl), new.trans same.symm⟩
    · rcases sound.ended seq status projected with ⟨d, mem, named⟩ | rest
      · exact Or.inl ⟨d, Table.mem_put_iff.mpr (Or.inr ⟨fresh d mem, mem⟩), named⟩
      · exact Or.inr rest
  · intro instant outcome stored
    obtain ⟨tells, pushed⟩ := sound.recorded instant outcome stored
    exact ⟨statusOf_old tells, pushed⟩

theorem land_sound (sound : s.Sound) {r : Heartbeat} (mem : r ∈ s.sending)
    (inOrder : ¬ Overtaken s (.land r)) : (s.land r).Sound := by
  have told := sound.sent r mem
  refine ⟨sound.calling, fun d other => sound.sent d (List.mem_of_mem_erase other), ?_, ?_,
    sound.recorded, ?_⟩
  · intro d other
    rcases List.mem_cons.mp other with rfl | old
    · exact told
    · exact sound.landed d old
  · intro seq status projected
    rcases sound.ended seq status projected with calls | gave | ⟨recorded, reached⟩
    · exact Or.inl calls
    · exact Or.inr (Or.inl gave)
    · refine Or.inr (Or.inr ⟨recorded, fun nonempty => ?_⟩)
      obtain ⟨d, old, same⟩ := reached nonempty
      exact ⟨d, List.mem_cons_of_mem r old, same⟩
  · intro d other latest
    change some r.status = some d.status
    rcases List.mem_cons.mp other with rfl | old
    · rfl
    · have before := latest r List.mem_cons_self
      have top := sound.top d old fun e older => latest e (List.mem_cons_of_mem r older)
      rcases Nat.eq_or_lt_of_le before with same | less
      · have both := sound.landed d old
        rw [← same, told] at both
        simpa using both
      · by_contra differ
        refine inOrder ⟨⟨d, old, less⟩, ?_⟩
        rw [top]
        exact fun same => differ same.symm

theorem finish_sound (sound : s.Sound) {c : PushCall} (calling : c ∈ s.calls.rows)
    {answer : PushAnswer} (reached : answer = .accepted → ⟨c.seq, c.attempts, c.status⟩ ∈ s.delivered)
    (inOrder : ∀ instant outcome, s.outcome = some (instant, outcome) → instant ≤ c.seq) :
    (s.finish c answer).Sound := by
  have told := sound.calling c calling
  refine ⟨fun d mem => sound.calling d (Table.mem_erase_iff.mp mem).1, sound.sent, sound.landed, ?_,
    ?_, sound.top⟩
  · intro seq status projected
    by_cases accepted : s.gaveUp = false ∧ answer = .accepted
    · by_cases own : seq = c.seq
      · refine Or.inr (Or.inr ⟨⟨_, _, rfl, Nat.le_of_eq own⟩, fun _ => ?_⟩)
        exact ⟨_, reached accepted.2, own.symm⟩
      · rcases sound.ended seq status projected with
          ⟨d, mem, named⟩ | gave | ⟨⟨instant, outcome, stored, le⟩, landed⟩
        · have differs : d.seq ≠ c.seq := fun same => own (named.symm.trans same)
          exact Or.inl ⟨d, Table.mem_erase_iff.mpr ⟨mem, differs⟩, named⟩
        · rw [accepted.1] at gave
          cases gave
        · exact Or.inr (Or.inr ⟨⟨_, _, rfl, Nat.le_trans le (inOrder instant outcome stored)⟩, landed⟩)
    · refine Or.inr (Or.inl ?_)
      simp only [Heartbeats.finish, Heartbeats.record, decide_eq_true_eq]
      by_cases gave : s.gaveUp = true
      · exact Or.inl gave
      · exact Or.inr fun same => accepted ⟨by simpa using gave, same⟩
  · intro instant outcome stored
    cases stored
    exact ⟨told, rfl⟩

theorem sync_sound (sound : s.Sound) (db : Db) (now wall : Int) :
    (s.syncTask env task db now wall).Sound := by
  unfold Heartbeats.syncTask
  split
  · exact sound
  · split
    · exact sound
    · rename_i row stored off
      dsimp only
      cases told : (projectTask env.trig env.croniter db row now wall).kumaStatus with
      | none =>
        exact record_sound sound rfl rfl (by simp) fun gave => gave
      | some status =>
        dsimp only
        split
        · exact record_sound sound rfl rfl (fun _ => rfl) fun _ => rfl
        · exact syncStart_sound sound
            { seq := s.projected.length, freshness := _, status := status, projectedAt := wall } rfl

theorem step_sound_push (sound : s.Sound) (step : PushStepInOrder env task s event t) : t.Sound := by
  obtain ⟨moved, inOrder⟩ := step
  cases event with
  | sync db now wall =>
    cases moved
    exact sync_sound sound db now wall
  | land r =>
    simp only [PushStep, Heartbeats.next] at moved
    split at moved
    · rename_i mem
      cases moved
      exact land_sound sound mem inOrder
    · cases moved
  | answer seq answer =>
    simp only [PushStep, Heartbeats.next] at moved
    split at moved
    · cases moved
    · rename_i c stored
      have mem := Table.mem_of_get stored
      have named : c.seq = seq := Table.key_of_get stored
      split at moved
      · cases moved
      · rename_i reached
        cases moved
        unfold Heartbeats.respond
        split
        · rename_i last
          refine finish_sound sound mem ?_ ?_
          · intro accepted
            by_contra unread
            exact reached ⟨accepted, by rw [← named]; exact unread⟩
          · intro instant outcome recorded
            by_contra later
            refine inOrder ⟨by rw [stored]; exact last, ?_⟩
            rw [recorded, ← named]
            simpa using later
        · exact send_sound sound { c with attempts := c.attempts + 1 } (sound.calling c mem)

theorem trace_sound_push {events : List PushEvent}
    (trace : Trace (PushStepInOrder env task) {} events s) : s.Sound := by
  refine trace_invariant Heartbeats.Sound (fun s event t => step_sound_push) trace ?_
  constructor <;> simp [statusOf, Table.empty]

end Heartbeats

/-- A call projects only when no earlier one is still pushing. -/
def Serialized (s : Heartbeats) : PushEvent → Prop
  | .sync _ _ _ => s.calls.rows = [] ∧ s.sending = []
  | .land _ | .answer _ _ => True

/-- Whatever is in flight is of the call that projected last. -/
def Heartbeats.Alone (s : Heartbeats) : Prop :=
  (∀ c ∈ s.calls.rows, c.seq + 1 = s.projected.length) ∧
    ∀ r ∈ s.sending, r.seq + 1 = s.projected.length

section Serial
variable {env : PushEnv} {task : Nat} {s t : Heartbeats} {event : PushEvent}

theorem alone_not_overtaken (sound : s.Sound) (alone : s.Alone) (step : PushStep env task s event t) :
    ¬ Overtaken s event := by
  cases event with
  | sync db now wall => exact fun overtaken => overtaken
  | land r =>
    rintro ⟨⟨d, old, less⟩, -⟩
    simp only [PushStep, Heartbeats.next] at step
    split at step
    · rename_i mem
      have latest := alone.2 r mem
      have before := statusOf_lt (sound.landed d old)
      omega
    · cases step
  | answer seq answer =>
    rintro ⟨calls, later⟩
    obtain ⟨c, stored, -⟩ := (Option.any_eq_true _ _).mp calls
    obtain ⟨⟨instant, outcome⟩, recorded, less⟩ := (Option.any_eq_true _ _).mp later
    have latest := alone.1 c (Table.mem_of_get stored)
    have named : c.seq = seq := Table.key_of_get stored
    have before := statusOf_lt (sound.recorded instant outcome recorded).1
    simp only [decide_eq_true_eq] at less
    omega

theorem step_alone (alone : s.Alone) (step : PushStep env task s event t)
    (serial : Serialized s event) : t.Alone := by
  obtain ⟨calling, sending⟩ := alone
  have sends : ∀ c : PushCall, c.seq + 1 = s.projected.length → (s.send c).Alone := by
    intro c latest
    refine ⟨?_, ?_⟩
    · intro d mem
      rcases Table.mem_put_iff.mp mem with rfl | ⟨-, old⟩
      · exact latest
      · exact calling d old
    · intro r mem
      rcases List.mem_cons.mp mem with rfl | old
      · exact latest
      · exact sending r old
  cases event with
  | sync db now wall =>
    obtain ⟨idle, quiet⟩ := serial
    cases step
    unfold Heartbeats.syncTask
    split
    · exact ⟨calling, sending⟩
    · split
      · exact ⟨calling, sending⟩
      · rename_i row stored off
        have nothing : ∀ n, (∀ c ∈ s.calls.rows, c.seq + 1 = n) ∧ ∀ r ∈ s.sending, r.seq + 1 = n := by
          simp [idle, quiet]
        dsimp only
        cases told : (projectTask env.trig env.croniter db row now wall).kumaStatus with
        | none => exact nothing _
        | some status =>
          dsimp only
          split
          · exact nothing _
          · refine ⟨?_, ?_⟩
            · intro d mem
              rcases Table.mem_put_iff.mp mem with rfl | ⟨-, old⟩
              · rfl
              · exact (nothing _).1 d old
            · intro r mem
              rcases List.mem_cons.mp mem with rfl | old
              · rfl
              · exact (nothing _).2 r old
  | land r =>
    simp only [PushStep, Heartbeats.next] at step
    split at step
    · cases step
      exact ⟨calling, fun d mem => sending d (List.mem_of_mem_erase mem)⟩
    · cases step
  | answer seq answer =>
    simp only [PushStep, Heartbeats.next] at step
    split at step
    · cases step
    · rename_i c stored
      have latest := calling c (Table.mem_of_get stored)
      split at step
      · cases step
      · cases step
        unfold Heartbeats.respond
        split
        · exact ⟨fun d mem => calling d (Table.mem_erase_iff.mp mem).1, sending⟩
        · exact sends { c with attempts := c.attempts + 1 } latest

/-- Calls that push one after the other never overtake. -/
theorem serialized_in_order {events : List PushEvent}
    (trace : Trace (fun s event t => PushStep env task s event t ∧ Serialized s event) {} events s) :
    Trace (PushStepInOrder env task) {} events s ∧ s.Alone := by
  induction trace with
  | nil => exact ⟨Trace.nil, by simp [Heartbeats.Alone, Table.empty]⟩
  | snoc before last ih =>
    obtain ⟨inOrder, alone⟩ := ih
    obtain ⟨step, serial⟩ := last
    have clean := alone_not_overtaken (trace_sound_push inOrder) alone step
    exact ⟨Trace.snoc inOrder ⟨step, clean⟩, step_alone alone step serial⟩

end Serial

/-- In every run in which no call overtakes a later one, whenever every call is over and its
    push was accepted, Kuma was last told what the call said that projected last among those
    that pushed, and the outcome is of that call or of a later one that pushed nothing. -/
theorem newest_projection_told {env : PushEnv} {task : Nat} {events : List PushEvent}
    {s : Heartbeats} (trace : Trace (PushStepInOrder env task) {} events s) : TellsNewest s :=
  sound_tellsNewest (trace_sound_push trace)

def Sample.pushEnv : PushEnv := ⟨Sample.trigger, Sample.croniter, true⟩

def Sample.watchedWeek (wednesday : List RunState) : Db :=
  { week wednesday with
    tasks := Table.empty.put { weekdays with kumaEnabled := true, kumaPushToken := some "token" } }

def Sample.twoCalls : List PushEvent :=
  [.sync (watchedWeek [.failed]) (midnight + seconds 129600) (midnight + seconds 129600),
    .sync (watchedWeek [.success]) (midnight + seconds 129601) (midnight + seconds 129601)]

def Sample.down : Heartbeat := ⟨0, 1, .down⟩
def Sample.up : Heartbeat := ⟨1, 1, .up⟩

def Sample.inOrder (s : Heartbeats) (event : PushEvent) : Option Heartbeats :=
  if Overtaken s event then none else s.next pushEnv 1 event

def Sample.slow (first second : Heartbeat) : List PushEvent :=
  twoCalls ++ [.land first, .answer first.seq .accepted, .land second, .answer second.seq .accepted]

theorem newest_told_in_order :
    ∃ s, Trace (PushStepInOrder Sample.pushEnv 1) {} (Sample.slow Sample.down Sample.up) s ∧
      newestPush s.projected = some (1, .up) ∧
      s.delivered.head?.map Heartbeat.status = some .up ∧
      ∃ instant outcome, s.outcome = some (instant, outcome) ∧
        (instant = 1 ∧ outcome.status = some .up ∨ 1 < instant ∧ outcome.pushed = false) := by
  have ran : ((Sample.slow Sample.down Sample.up).foldlM Sample.inOrder {}).any fun s =>
      s.calls.rows = [] ∧ s.gaveUp = false ∧ newestPush s.projected = some (1, .up) := by
    decide +kernel
  obtain ⟨s, done, shape⟩ := (Option.any_eq_true _ _).mp ran
  obtain ⟨idle, accepted, newest⟩ := of_decide_eq_true shape
  have trace : Trace (PushStepInOrder Sample.pushEnv 1) {} (Sample.slow Sample.down Sample.up) s := by
    refine trace_of_foldlM (fun s event t moved => ?_) done
    unfold Sample.inOrder at moved
    split at moved
    · cases moved
    · rename_i clean
      exact ⟨moved, clean⟩
  obtain ⟨last, recorded⟩ := newest_projection_told trace idle accepted 1 .up newest
  exact ⟨s, trace, newest, last, recorded⟩

/-- The push of the older projection lands last: Kuma is left with down, and so is the outcome. -/
theorem slow_push_overwrites :
    ∃ s, Trace (PushStep Sample.pushEnv 1) {} (Sample.slow Sample.up Sample.down) s ∧
      s.calls.rows = [] ∧ s.gaveUp = false ∧ newestPush s.projected = some (1, .up) ∧
      s.delivered.head?.map Heartbeat.status = some .down ∧ s.outcome.map Prod.fst = some 0 ∧
      ¬ TellsNewest s := by
  have ran : ((Sample.slow Sample.up Sample.down).foldlM (Heartbeats.next Sample.pushEnv 1) {}).any
      fun s => s.calls.rows = [] ∧ s.gaveUp = false ∧ newestPush s.projected = some (1, .up) ∧
        s.delivered.head?.map Heartbeat.status = some .down ∧ s.outcome.map Prod.fst = some 0 := by
    decide +kernel
  obtain ⟨s, done, shape⟩ := (Option.any_eq_true _ _).mp ran
  obtain ⟨idle, accepted, newest, last, recorded⟩ := of_decide_eq_true shape
  refine ⟨s, trace_of_foldlM (fun _ _ _ moved => moved) done, idle, accepted, newest, last, recorded,
    ?_⟩
  intro tells
  have told := (tells idle accepted 1 .up newest).1
  rw [last] at told
  cases told

end Pullbackup
