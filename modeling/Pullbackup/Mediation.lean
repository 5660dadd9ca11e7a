import Pullbackup.Credentials
import Pullbackup.Throttle

/- The requests that the middleware and api/auth.py answer, in any order. A login is two steps:
   what it does up to the throttle's answer, and the comparison with what follows it. -/
namespace Pullbackup
open KeyedTable History Text Numerals

structure Guard (δ : Type) where
  username : String
  password : String
  digest : String → δ
  signer : SessionSigner
  settings : SessionSettings

structure LoginPayload where
  username : String
  password : String
  deriving DecidableEq, Repr

structure PendingLogin where
  id : Nat
  payload : LoginPayload
  client : String

instance : Keyed PendingLogin Nat := ⟨PendingLogin.id⟩

@[simp] theorem key_pendingLogin (r : PendingLogin) : Keyed.key r = r.id := rfl

structure Issue where
  sid : String
  second : Int
  payload : LoginPayload
  deriving DecidableEq, Repr

structure Gate where
  sessions : Sessions
  throttle : Throttle
  pending : Table PendingLogin := .empty
  issued : List Issue := []

structure Scope where
  http : Bool
  path : String
  headers : List (String × String)

inductive Visit where
  | arrive (id : Nat) (payload : LoginPayload) (client : String) (now : ℚ)
  | settle (id : Nat) (sid : String) (now : ℚ)
  | logout (cookie : String) (now : ℚ)
  | page (scope : Scope) (now : ℚ)

def Visit.now : Visit → ℚ
  | .arrive _ _ _ now | .settle _ _ now | .logout _ now | .page _ now => now

inductive VisitAnswer where
  | pending
  | unconfigured
  | tooMany (retryAfter : Int)
  | invalid
  | authenticated (token : String)
  | loggedOut
  | page (answer : AuthAnswer)
  deriving DecidableEq, Repr

variable {δ : Type} [DecidableEq δ]

namespace Guard

def configured (g : Guard δ) : Bool := validConfiguration g.username g.password

def throttled (g : Guard δ) : StoreConfig (List ℚ) := loginAttempts g.settings.authStoreMaxEntries

def accepts (g : Guard δ) (payload : LoginPayload) : Bool :=
  constantTimeEqual g.digest payload.username g.username &&
    constantTimeEqual g.digest payload.password g.password

def request (scope : Scope) : HttpRequest where
  path := scope.path
  authorization := (header scope.headers "authorization").getD ""
  cookie := (header scope.headers "cookie").getD ""
  browserSubresource := isBrowserSubresource scope.headers

def call (g : Guard δ) (revoked : ExpiringStore Bool) (scope : Scope) (now : ℚ) :
    ExpiringStore Bool × AuthAnswer :=
  if scope.http = false then (revoked, .served)
  else httpBasicAuthMiddleware g.signer g.settings g.configured
    (authorized g.digest g.username g.password) revoked (request scope) now

end Guard

def Gate.at (s : Gate) (now : ℚ) : Gate := { s with sessions := { s.sessions with clock := now } }

def Gate.arrive (g : Guard δ) (s : Gate) (id : Nat) (payload : LoginPayload) (client : String)
    (now : ℚ) : Gate × VisitAnswer :=
  if g.configured = false then (s.at now, .unconfigured)
  else
    let wait := (loginThrottleRetryAfter s.throttle.store client now).2
    let checked := { s.at now with throttle := s.throttle.next g.throttled (.check client now) }
    if wait ≠ 0 then (checked, .tooMany wait)
    else ({ checked with pending := s.pending.put ⟨id, payload, client⟩ }, .pending)

/-- login, from the comparison on; sid is the token_urlsafe of issue_session. -/
def Gate.settle (g : Guard δ) (s : Gate) (id : Nat) (sid : String) (now : ℚ) :
    Gate × VisitAnswer :=
  match s.pending.get id with
  | none => (s.at now, .pending)
  | some r =>
    let s := { s.at now with pending := s.pending.erase id }
    if g.accepts r.payload then
      ({ s with
        throttle := s.throttle.next g.throttled (.clear r.client now)
        issued := ⟨sid, truncate now, r.payload⟩ :: s.issued },
        .authenticated (issueSession g.signer sid now))
    else
      ({ s with throttle := s.throttle.next g.throttled (.record r.client now) }, .invalid)

def Gate.next (g : Guard δ) (s : Gate) : Visit → Gate × VisitAnswer
  | .arrive id payload client now => s.arrive g id payload client now
  | .settle id sid now => s.settle g id sid now
  | .logout cookie now =>
    ({ s with sessions := s.sessions.logout g.signer g.settings cookie now }, .loggedOut)
  | .page scope now =>
    let (revoked, answer) := g.call s.sessions.revoked scope now
    ({ s with sessions := { s.sessions with revoked := revoked, clock := now } }, .page answer)

/-- The session tokens that a visit shows. -/
def Visit.tokens : Visit → List String
  | .logout cookie _ => [(cookieParser cookie sessionCookie).getD ""]
  | .page scope _ => [cookieValue (Guard.request scope).cookie sessionCookie]
  | .arrive _ _ _ _ | .settle _ _ _ => []

/-- A token that the signer verifies was issued. -/
def Gate.Unforged (g : Guard δ) (s : Gate) (v : Visit) : Prop :=
  ∀ token ∈ v.tokens, ∀ sid second, g.signer.loads token = some (some sid, second) →
    ∃ i ∈ s.issued, i.sid = sid ∧ i.second = second

/-- A visit no earlier than the last one; a new session has a new sid, and the store has room
    for the revocations that are live. -/
structure VisitStep (g : Guard δ) (s : Gate) (v : Visit) (t : Gate) : Prop where
  passed : s.sessions.clock ≤ v.now
  next : t = (s.next g v).1
  unforged : s.Unforged g v
  fresh : ∀ id sid now, v = .settle id sid now → ∀ i ∈ s.issued, i.sid ≠ sid
  room : ((t.sessions.liveRevocations g.settings).length : Int) ≤ g.settings.authStoreMaxEntries

def Gate.init (clock : ℚ) : Gate := { sessions := { clock := clock }, throttle := { clock := clock } }

/-- The cookie is the token of a session that was issued, has the age for it, and was not logged
    out. -/
def Gate.HasSession (g : Guard δ) (s : Gate) (cookie : String) (now : ℚ) : Prop :=
  ∃ i ∈ s.issued,
    verifiedSession g.signer (cookieValue cookie sessionCookie) = some (i.sid, i.second) ∧
    (-clockSkewToleranceSeconds : ℚ) ≤ now - i.second ∧
    now - i.second ≤ g.settings.sessionMaxAgeSeconds ∧
    ∀ r ∈ s.sessions.revocations, r.1 ≠ i.sid

/-- What holds of the gate in every run. -/
structure Gate.Sound (g : Guard δ) (s : Gate) : Prop where
  remembers : Remembers g.settings s.sessions
  waiting : ∀ r ∈ s.pending.rows, g.configured = true
  earned : ∀ i ∈ s.issued, g.configured = true ∧ g.accepts i.payload = true
  distinct : ∀ i ∈ s.issued, ∀ j ∈ s.issued, i.sid = j.sid → i = j
  logged : ∀ r ∈ s.sessions.revocations, ∃ i ∈ s.issued, i.sid = r.1 ∧
    (i.second : ℚ) ≤ r.2 + clockSkewToleranceSeconds

section Steps
variable {g : Guard δ} {s t : Gate} {v : Visit} {now : ℚ}

def Public (path : String) : Prop :=
  (unauthenticatedPaths.contains path || isPublicShell path) = true

instance (path : String) : Decidable (Public path) := inferInstanceAs (Decidable (_ = true))

theorem call_open {scope : Scope} (free : scope.http = false ∨ Public scope.path)
    (revoked : ExpiringStore Bool) : g.call revoked scope now = (revoked, .served) := by
  unfold Guard.call
  rcases free with other | opened
  · rw [if_pos other]
  · by_cases other : scope.http = false
    · rw [if_pos other]
    · rw [if_neg other]
      exact if_pos opened

theorem call_unconfigured {scope : Scope} (http : scope.http = true) (guarded : ¬ Public scope.path)
    (bare : g.configured = false) (revoked : ExpiringStore Bool) :
    g.call revoked scope now = (revoked, .unconfigured) := by
  have guarded : ¬ Public (Guard.request scope).path := guarded
  unfold Public at guarded
  rw [Guard.call, if_neg (by simp [http]), httpBasicAuthMiddleware, if_neg guarded, if_pos bare]

theorem call_guarded {scope : Scope} (http : scope.http = true) (guarded : ¬ Public scope.path)
    (configured : g.configured = true) (revoked : ExpiringStore Bool) :
    g.call revoked scope now =
      let cookie := cookieValue (Guard.request scope).cookie sessionCookie
      let checked := sessionIsValid g.signer g.settings revoked cookie now
      (checked.1, if checked.2 = true then .served
        else if authorized g.digest g.username g.password (Guard.request scope).authorization
          then .served
        else .refused !(Guard.request scope).browserSubresource) := by
  have guarded : ¬ Public (Guard.request scope).path := guarded
  unfold Public at guarded
  rw [Guard.call, if_neg (by simp [http]), httpBasicAuthMiddleware, if_neg guarded,
    if_neg (by simp [configured])]
  split
  · rename_i after checked
    simp [checked]
  · rename_i after checked
    simp [checked]

/-- To the sessions a visit is one call on the store. -/
theorem next_sessions (g : Guard δ) (s : Gate) (v : Visit) :
    ∃ op : SessionOp, op.now = v.now ∧
      (s.next g v).1.sessions = s.sessions.next g.signer g.settings op ∧
      ∀ token, op = .revoke token v.now → token ∈ v.tokens := by
  have idle : ∀ u : Gate, u.sessions = (s.at v.now).sessions → ∃ op : SessionOp, op.now = v.now ∧
      u.sessions = s.sessions.next g.signer g.settings op ∧
      ∀ token, op = .revoke token v.now → token ∈ v.tokens :=
    fun u same => ⟨.issue "" v.now, rfl, same, fun token other => by cases other⟩
  cases v with
  | arrive id payload client now =>
    apply idle
    simp only [Gate.next, Gate.arrive]
    split
    · rfl
    · split <;> rfl
  | settle id sid now =>
    apply idle
    simp only [Gate.next, Gate.settle]
    split
    · rfl
    · split <;> rfl
  | logout cookie now =>
    by_cases blank : (cookieParser cookie sessionCookie).getD "" = ""
    · apply idle
      simp only [Gate.next, Sessions.logout, blank, if_true]
      rfl
    · refine ⟨.revoke ((cookieParser cookie sessionCookie).getD "") now, rfl, ?_, ?_⟩
      · simp only [Gate.next, Sessions.logout, blank, if_false]
      · rintro token same
        cases same
        exact List.mem_singleton.mpr rfl
  | page scope now =>
    by_cases free : scope.http = false ∨ Public scope.path
    · apply idle
      simp only [Gate.next, call_open free]
      rfl
    · rw [not_or, Bool.not_eq_false] at free
      cases configured : g.configured with
      | false =>
        apply idle
        simp only [Gate.next, call_unconfigured free.1 free.2 configured]
        rfl
      | true =>
        refine ⟨.check (cookieValue (Guard.request scope).cookie sessionCookie) now, rfl, ?_, ?_⟩
        · simp only [Gate.next, call_guarded free.1 free.2 configured]
          rfl
        · intro token other
          cases other

theorem next_issued (g : Guard δ) (s : Gate) (v : Visit) :
    (s.next g v).1.issued = s.issued ∨ ∃ id sid now r, v = .settle id sid now ∧
      s.pending.get id = some r ∧ g.accepts r.payload = true ∧
      (s.next g v).1.issued = ⟨sid, truncate now, r.payload⟩ :: s.issued := by
  cases v with
  | arrive id payload client now =>
    left
    simp only [Gate.next, Gate.arrive]
    split
    · rfl
    · split <;> rfl
  | settle id sid now =>
    simp only [Gate.next, Gate.settle]
    split
    · exact Or.inl rfl
    · rename_i r waits
      split
      · rename_i accepts
        exact Or.inr ⟨id, sid, now, r, rfl, waits, accepts, rfl⟩
      · exact Or.inl rfl
  | logout cookie now => exact Or.inl rfl
  | page scope now => exact Or.inl rfl

theorem next_pending (g : Guard δ) (s : Gate) (v : Visit) {r : PendingLogin}
    (mem : r ∈ (s.next g v).1.pending.rows) : r ∈ s.pending.rows ∨ g.configured = true := by
  cases v with
  | arrive id payload client now =>
    simp only [Gate.next, Gate.arrive] at mem
    split at mem
    · exact Or.inl mem
    · rename_i configured
      exact Or.inr (Bool.not_eq_false _ ▸ configured)
  | settle id sid now =>
    simp only [Gate.next, Gate.settle] at mem
    split at mem
    · exact Or.inl mem
    · split at mem
      · exact Or.inl (Table.mem_erase_iff.mp mem).1
      · exact Or.inl (Table.mem_erase_iff.mp mem).1
  | logout cookie now => exact Or.inl mem
  | page scope now => exact Or.inl mem

theorem loads_of_verified {signer : SessionSigner} {token sid : String} {second : Int}
    (verified : verifiedSession signer token = some (sid, second)) :
    signer.loads token = some (some sid, second) := by
  unfold verifiedSession at verified
  split at verified
  · cases verified
  · split at verified
    · rename_i sid' second' loads
      cases verified
      exact loads
    · cases verified

theorem step_issued (step : VisitStep g s v t) : ∀ i ∈ s.issued, i ∈ t.issued := by
  intro i mem
  rw [step.next]
  rcases next_issued g s v with same | ⟨id, sid, now, r, -, -, -, more⟩
  · rwa [same]
  · rw [more]
    exact List.mem_cons_of_mem _ mem

theorem step_logged (sound : s.Sound g) (step : VisitStep g s v t) :
    ∀ r ∈ t.sessions.revocations, ∃ i ∈ t.issued, i.sid = r.1 ∧
      (i.second : ℚ) ≤ r.2 + clockSkewToleranceSeconds := by
  have kept : ∀ r ∈ s.sessions.revocations, ∃ i ∈ t.issued, i.sid = r.1 ∧
      (i.second : ℚ) ≤ r.2 + clockSkewToleranceSeconds := by
    intro r mem
    obtain ⟨i, mi, named, stamped⟩ := sound.logged r mem
    exact ⟨i, step_issued step i mi, named, stamped⟩
  obtain ⟨op, instant, sessions, shows⟩ := next_sessions g s v
  rw [← step.next] at sessions
  intro r mem
  rw [sessions] at mem
  rcases next_cases g.signer g.settings s.sessions op with next | next |
    ⟨token, sid, issuedAt, revokes, verified, valid, next⟩
  · rw [next] at mem
    exact kept r mem
  · rw [next] at mem
    exact kept r mem
  · rw [next] at mem
    rcases List.mem_cons.mp mem with rfl | old
    · rw [instant] at revokes
      obtain ⟨i, mi, named, second⟩ := step.unforged token (shows token revokes) sid issuedAt
        (loads_of_verified verified)
      obtain ⟨sid', second', verified', -, stamped, -⟩ := verified_of_valid valid
      rw [verified] at verified'
      cases verified'
      refine ⟨i, step_issued step i mi, named, ?_⟩
      rw [second]
      show (issuedAt : ℚ) ≤ op.now + clockSkewToleranceSeconds
      linarith
    · exact kept r old

theorem step_gate_sound (sound : s.Sound g) (step : VisitStep g s v t) : t.Sound g := by
  obtain ⟨op, instant, sessions, -⟩ := next_sessions g s v
  rw [← step.next] at sessions
  have moves : SessionMoves g.signer g.settings s.sessions op t.sessions :=
    ⟨instant ▸ step.passed, sessions, step.room⟩
  have waiting : ∀ r ∈ t.pending.rows, g.configured = true := by
    intro r mem
    rw [step.next] at mem
    rcases next_pending g s v mem with old | configured
    · exact sound.waiting r old
    · exact configured
  refine ⟨step_remembers sound.remembers moves, waiting, ?_, ?_, step_logged sound step⟩
  · rw [step.next]
    rcases next_issued g s v with same | ⟨id, sid, now, r, -, waits, accepts, more⟩
    · rw [same]
      exact sound.earned
    · rw [more]
      intro i mem
      rcases List.mem_cons.mp mem with rfl | old
      · exact ⟨sound.waiting r (Table.mem_of_get waits), accepts⟩
      · exact sound.earned i old
  · rw [step.next]
    rcases next_issued g s v with same | ⟨id, sid, now, r, settles, -, -, more⟩
    · rw [same]
      exact sound.distinct
    · rw [more]
      have fresh := step.fresh id sid now settles
      intro i mi j mj named
      rcases List.mem_cons.mp mi with rfl | oldi <;> rcases List.mem_cons.mp mj with rfl | oldj
      · rfl
      · exact absurd named.symm (fresh j oldj)
      · exact absurd named (fresh i oldi)
      · exact sound.distinct i oldi j oldj named

theorem init_gate_sound (clock : ℚ) : (Gate.init clock).Sound g := by
  have empty : Trace (SessionMoves g.signer g.settings) { clock := clock } [] { clock := clock } :=
    Trace.nil
  exact ⟨trace_remembers empty, by simp [Gate.init], by simp [Gate.init], by simp [Gate.init], by simp [Gate.init]⟩

/-- The check of a token that nobody forged. -/
theorem session_iff (sound : s.Sound g) {scope : Scope} (passed : s.sessions.clock ≤ now)
    (unforged : s.Unforged g (.page scope now)) :
    (sessionIsValid g.signer g.settings s.sessions.revoked
      (cookieValue (Guard.request scope).cookie sessionCookie) now).2 = true ↔
    s.HasSession g (Guard.request scope).cookie now := by
  obtain ⟨last, -, inOrder, -⟩ := sound.remembers.swept
  constructor
  · intro valid
    obtain ⟨sid, second, verified, -, young, old⟩ := verified_of_valid valid
    obtain ⟨i, mem, rfl, rfl⟩ := unforged _ (List.mem_singleton.mpr rfl) sid second
      (loads_of_verified verified)
    refine ⟨i, mem, verified, young, old, ?_⟩
    intro r recorded same
    obtain ⟨j, mj, logged, stamped⟩ := sound.logged r recorded
    have one : j = i := sound.distinct j mj i mem (logged.trans same)
    subst one
    have refused := recorded_refused sound.remembers (by rwa [← same]) verified stamped
      passed
    rw [refused] at valid
    cases valid
  · rintro ⟨i, -, verified, young, old, kept⟩
    rw [sessionIsValid_iff verified]
    refine ⟨?_, young, old⟩
    intro got
    obtain ⟨e, mem, key, -⟩ := (get_revoked_iff inOrder.toTiered).mp got
    obtain ⟨r, recorded, same, -⟩ := sound.remembers.recorded e mem
    exact kept r recorded (same.trans key)

omit [DecidableEq δ] in
theorem configured_colonless (configured : g.configured = true) : ':' ∉ g.username.toList := by
  simp only [Guard.configured, validConfiguration, Bool.and_eq_true] at configured
  simpa using configured.1.1.1.2

end Steps

/-- Complete mediation. In every run of logins, logouts and requests, whatever the order of
    their steps, a path behind the credential is served exactly to a request whose header shows
    the configured credential or whose cookie is the token of a session that has the age for it
    and was not logged out; and a session is issued only to a login with the configured
    credential. The steps are those of VisitStep: tokens are not forged, sids are fresh, and
    there is never more than the store holds of logouts that still matter, since one that is
    evicted is forgotten. -/
theorem access_mediated {g : Guard δ} {start now : ℚ} {visits : List Visit} {s : Gate}
    (named : Distinctive g.digest g.username) (secret : Distinctive g.digest g.password)
    (history : Trace (VisitStep g) (Gate.init start) visits s) (scope : Scope)
    (passed : s.sessions.clock ≤ now) (unforged : s.Unforged g (.page scope now)) :
    ((s.next g (.page scope now)).2 = .page .served ↔
      scope.http = false ∨ Public scope.path ∨ g.configured = true ∧
        (Shows (Guard.request scope).authorization g.username g.password ∨
          s.HasSession g (Guard.request scope).cookie now)) ∧
    (g.configured = true →
      header scope.headers "authorization" = some (basicHeader g.username g.password) →
      (s.next g (.page scope now)).2 = .page .served) ∧
    ∀ i ∈ s.issued, g.configured = true ∧ i.payload = ⟨g.username, g.password⟩ := by
  have sound : s.Sound g := trace_invariant (Gate.Sound g) (fun _ _ _ => step_gate_sound) history
    (init_gate_sound start)
  have served : (s.next g (.page scope now)).2 = .page .served ↔
      scope.http = false ∨ Public scope.path ∨ g.configured = true ∧
        (Shows (Guard.request scope).authorization g.username g.password ∨
          s.HasSession g (Guard.request scope).cookie now) := by
    simp only [Gate.next, VisitAnswer.page.injEq]
    by_cases free : scope.http = false ∨ Public scope.path
    · rw [call_open free]
      rcases free with other | opened
      · simp [other]
      · simp [opened]
    · rw [not_or, Bool.not_eq_false] at free
      cases configured : g.configured with
      | false =>
        rw [call_unconfigured free.1 free.2 configured]
        simp [free.1, free.2]
      | true =>
        rw [call_guarded free.1 free.2 configured,
          ← authorized_iff named secret (configured_colonless configured),
          ← session_iff sound passed unforged]
        simp only [free.1, free.2]
        split
        · rename_i valid
          simp [valid]
        · rename_i invalid
          split
          · rename_i basic
            simp [basic]
          · rename_i wrong
            simp [invalid, wrong]
  refine ⟨served, ?_, ?_⟩
  · intro configured shown
    apply served.mpr
    refine Or.inr (Or.inr ⟨configured, Or.inl ?_⟩)
    simp only [Guard.request, shown, Option.getD_some]
    exact basicHeader_shows g.username g.password
  · intro i mem
    obtain ⟨configured, accepts⟩ := sound.earned i mem
    rw [Guard.accepts, Bool.and_eq_true, constantTimeEqual_iff named,
      constantTimeEqual_iff secret] at accepts
    exact ⟨configured, by rw [← accepts.1, ← accepts.2]⟩

namespace Sample

def door : Guard String where
  username := "operator"
  password := "correct horse battery staple 0001"
  digest := id
  signer := signer
  settings := hour

def doorLogin : LoginPayload := ⟨"operator", "correct horse battery staple 0001"⟩

def tasksWith (cookie : String) : Scope := ⟨true, "/api/tasks", [("cookie", cookie)]⟩

def doorCookie : String := "pullbackup_session=" ++ dumps "a" 1

def visits : List Visit := [.arrive 1 doorLogin "10.0.0.1" 0, .settle 1 "a" 1]

def welcomed : Gate := visits.foldl (fun s v => (s.next door v).1) (.init 0)

def dismissed : Gate := (welcomed.next door (.logout doorCookie 5)).1

end Sample

theorem Sample.unforged {s : Gate} {v : Visit} (issued : ⟨"a", 1, Sample.doorLogin⟩ ∈ s.issued)
    (shown : v.tokens = [Sample.dumps "a" 1]) : s.Unforged Sample.door v := by
  intro token mem sid second found
  rw [shown, List.mem_singleton] at mem
  rw [mem, show Sample.door.signer.loads (Sample.dumps "a" 1) = some (some "a", 1) by
    decide +kernel] at found
  cases found
  exact ⟨_, issued, rfl, rfl⟩

theorem Sample.welcomed_run :
    Trace (VisitStep Sample.door) (Gate.init 0) Sample.visits Sample.welcomed := by
  apply trace_cons
  · exact ⟨by decide +kernel, rfl, by simp [Gate.Unforged, Visit.tokens], nofun,
      by decide +kernel⟩
  · apply trace_single
    refine ⟨by decide +kernel, rfl, by simp [Gate.Unforged, Visit.tokens], ?_, by decide +kernel⟩
    intro id sid now same i mem
    have nobody : ((Gate.init 0).next Sample.door
      (.arrive 1 Sample.doorLogin "10.0.0.1" 0)).1.issued = [] := by decide +kernel
    rw [nobody] at mem
    cases mem

theorem session_until_logout :
    (Sample.welcomed.next Sample.door (.page (Sample.tasksWith Sample.doorCookie) 3)).2 =
      .page .served ∧
    (Sample.dismissed.next Sample.door (.page (Sample.tasksWith Sample.doorCookie) 7)).2 ≠
      .page .served := by
  have distinctive : ∀ text : String, Distinctive id text := fun _ _ same => same
  have token : cookieValue (Guard.request (Sample.tasksWith Sample.doorCookie)).cookie
      sessionCookie = Sample.dumps "a" 1 := by decide +kernel
  have issued : ⟨"a", 1, Sample.doorLogin⟩ ∈ Sample.welcomed.issued := by decide +kernel
  have later : ⟨"a", 1, Sample.doorLogin⟩ ∈ Sample.dismissed.issued := issued
  have logout : VisitStep Sample.door Sample.welcomed (.logout Sample.doorCookie 5)
      Sample.dismissed := by
    refine ⟨by decide +kernel, rfl, Sample.unforged issued ?_, nofun, by decide +kernel⟩
    decide +kernel
  obtain ⟨before, -, -⟩ := access_mediated (distinctive _) (distinctive _) Sample.welcomed_run
    (Sample.tasksWith Sample.doorCookie)
    (show Sample.welcomed.sessions.clock ≤ (3 : ℚ) by decide +kernel)
    (Sample.unforged issued (congrArg (fun t => [t]) token))
  obtain ⟨after, -, -⟩ := access_mediated (distinctive _) (distinctive _)
    (trace_append Sample.welcomed_run (trace_single logout))
    (Sample.tasksWith Sample.doorCookie)
    (show Sample.dismissed.sessions.clock ≤ (7 : ℚ) by decide +kernel)
    (Sample.unforged later (congrArg (fun t => [t]) token))
  constructor
  · refine before.mpr (Or.inr (Or.inr ⟨by decide +kernel, Or.inr ⟨_, issued, ?_, ?_, ?_, ?_⟩⟩))
    · rw [token]
      decide +kernel
    · decide +kernel
    · decide +kernel
    · decide +kernel
  · intro served
    rcases after.mp served with other | free | ⟨-, ⟨scheme, encoded, whole, -⟩ |
      ⟨i, -, verified, -, -, kept⟩⟩
    · cases other
    · exact absurd free (by decide +kernel)
    · have blank : (Guard.request (Sample.tasksWith Sample.doorCookie)).authorization = "" := by
        decide +kernel
      rw [blank] at whole
      simp at whole
    · rw [token] at verified
      have named : i.sid = "a" := by
        have reads := loads_of_verified verified
        rw [show Sample.door.signer.loads (Sample.dumps "a" 1) = some (some "a", 1) by
          decide +kernel] at reads
        simp only [Option.some.injEq, Prod.mk.injEq] at reads
        exact reads.1.symm
      exact kept ("a", 5) (by decide +kernel) named.symm

end Pullbackup
