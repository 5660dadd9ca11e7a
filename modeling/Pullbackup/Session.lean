import Pullbackup.AuthStore
import Mathlib.Tactic.Linarith

/- http_auth.py: session tokens, and the store of those that were logged out. -/
namespace Pullbackup
open KeyedTable ExpiryQueue History Numerals

/-- The library that signs: what it verifies is what it signed. A payload without a string for
    its sid reads as none. -/
structure SessionSigner where
  dumps : String → Int → String
  loads : String → Option (Option String × Int)
  exact : ∀ sid stamp, loads (dumps sid stamp) = some (some sid, stamp)

structure SessionSettings where
  sessionMaxAgeSeconds : Int
  authStoreMaxEntries : Int

def revocationClockSlackSeconds : Int := 61

def clockSkewToleranceSeconds : Int := 60

/-- The configuration of _revoked. -/
def SessionSettings.revoked (st : SessionSettings) : StoreConfig Bool :=
  ⟨(st.sessionMaxAgeSeconds + revocationClockSlackSeconds : Int), st.authStoreMaxEntries, none⟩

def issueSession (signer : SessionSigner) (sid : String) (now : ℚ) : String :=
  signer.dumps sid (truncate now)

def verifiedSession (signer : SessionSigner) (token : String) : Option (String × Int) :=
  if token = "" then none
  else
    match signer.loads token with
    | some (some sid, issuedAt) => some (sid, issuedAt)
    | _ => none

def sessionIsValid (signer : SessionSigner) (st : SessionSettings) (revoked : ExpiringStore Bool)
    (token : String) (now : ℚ) : ExpiringStore Bool × Bool :=
  match verifiedSession signer token with
  | none => (revoked, false)
  | some (sid, issuedAt) =>
    match revoked.get sid now with
    | (revoked, some true) => (revoked, false)
    | (revoked, _) =>
      let age := now - issuedAt
      (revoked, decide (-clockSkewToleranceSeconds ≤ age ∧ age ≤ st.sessionMaxAgeSeconds))

def revokeSession (signer : SessionSigner) (st : SessionSettings) (revoked : ExpiringStore Bool)
    (token : String) (now : ℚ) : ExpiringStore Bool :=
  match sessionIsValid signer st revoked token now with
  | (revoked, false) => revoked
  | (revoked, true) =>
    match verifiedSession signer token with
    | none => revoked
    | some (sid, _) => revoked.set st.revoked sid true now

inductive SessionOp where
  | issue (sid : String) (now : ℚ)
  | revoke (token : String) (now : ℚ)
  | check (token : String) (now : ℚ)

def SessionOp.now : SessionOp → ℚ
  | .issue _ now | .revoke _ now | .check _ now => now

/-- The store, the latest instant it was used at, and what was ever revoked. -/
structure Sessions where
  revoked : ExpiringStore Bool := {}
  clock : ℚ
  revocations : List (String × ℚ) := []

/-- The sid that a revocation of the token puts on record. -/
def revokes (signer : SessionSigner) (st : SessionSettings) (revoked : ExpiringStore Bool)
    (token : String) (now : ℚ) : Option (String × ℚ) :=
  if (sessionIsValid signer st revoked token now).2 then
    (verifiedSession signer token).map fun found => (found.1, now)
  else none

def Sessions.next (signer : SessionSigner) (st : SessionSettings) (s : Sessions) :
    SessionOp → Sessions
  -- a new token is on nobody's record
  | .issue _ now => { s with clock := now }
  | .revoke token now =>
    { revoked := revokeSession signer st s.revoked token now, clock := now
      revocations := (revokes signer st s.revoked token now).toList ++ s.revocations }
  | .check token now =>
    { s with revoked := (sessionIsValid signer st s.revoked token now).1, clock := now }

/-- The revocations that the store has still to remember. -/
def Sessions.liveRevocations (st : SessionSettings) (s : Sessions) : List (String × ℚ) :=
  s.revocations.filter fun r => s.clock < r.2 + st.revoked.ttl

def SessionMoves (signer : SessionSigner) (st : SessionSettings) (s : Sessions) (op : SessionOp)
    (t : Sessions) : Prop :=
  s.clock ≤ op.now ∧ t = s.next signer st op ∧
    ((t.liveRevocations st).length : Int) ≤ st.authStoreMaxEntries

/-- The store remembers every live revocation, and nothing else. -/
structure Remembers (st : SessionSettings) (s : Sessions) : Prop where
  swept : ExpiringStore.Swept st.revoked s.clock s.revoked
  recorded : ∀ e ∈ s.revoked.rows, ∃ r ∈ s.revocations, r.1 = e.key ∧
    e.expiresAt = r.2 + st.revoked.ttl
  kept : ∀ r ∈ s.revocations, s.clock < r.2 + st.revoked.ttl → ∃ e, s.revoked.find r.1 = some e ∧
    r.2 + st.revoked.ttl ≤ e.expiresAt ∧ e.value = true

section Sessions
open ExpiringStore
variable {signer : SessionSigner} {st : SessionSettings} {s t : Sessions} {token : String} {now : ℚ}

theorem sessionIsValid_iff {revoked : ExpiringStore Bool} {sid : String} {issuedAt : Int}
    (verified : verifiedSession signer token = some (sid, issuedAt)) :
    (sessionIsValid signer st revoked token now).2 = true ↔
      (revoked.get sid now).2 ≠ some true ∧ (-clockSkewToleranceSeconds : ℚ) ≤ now - issuedAt ∧
        now - issuedAt ≤ st.sessionMaxAgeSeconds := by
  unfold sessionIsValid
  rw [verified]
  simp only
  split
  · rename_i after got
    simp [got]
  · rename_i after found fresh got
    have unrevoked : found ≠ some true := fun same => fresh (by simpa using same)
    simp [got, unrevoked]

theorem verified_of_valid {revoked : ExpiringStore Bool}
    (valid : (sessionIsValid signer st revoked token now).2 = true) :
    ∃ sid issuedAt, verifiedSession signer token = some (sid, issuedAt) ∧
      (revoked.get sid now).2 ≠ some true ∧
      (-clockSkewToleranceSeconds : ℚ) ≤ now - issuedAt ∧
      now - issuedAt ≤ st.sessionMaxAgeSeconds := by
  cases verified : verifiedSession signer token with
  | none => simp [sessionIsValid, verified] at valid
  | some found => exact ⟨found.1, found.2, rfl, (sessionIsValid_iff verified).mp valid⟩

theorem issued_verifies {sid : String} (signed : issueSession signer sid now ≠ "") :
    verifiedSession signer (issueSession signer sid now) = some (sid, truncate now) := by
  unfold verifiedSession
  rw [if_neg signed, issueSession, signer.exact]

/-- It is accepted for its maximal age, unless its sid was put on record. -/
theorem issued_valid_iff {revoked : ExpiringStore Bool} {sid : String} {later : ℚ}
    (signed : issueSession signer sid now ≠ "") (nonneg : 0 ≤ now) (passed : now ≤ later) :
    (sessionIsValid signer st revoked (issueSession signer sid now) later).2 = true ↔
      (revoked.get sid later).2 ≠ some true ∧ later - truncate now ≤ st.sessionMaxAgeSeconds := by
  rw [sessionIsValid_iff (issued_verifies signed), truncate_of_nonneg nonneg]
  have stamped : (⌊now⌋ : ℚ) ≤ now := Int.floor_le now
  have young : (-clockSkewToleranceSeconds : ℚ) ≤ later - ⌊now⌋ := by
    simp only [clockSkewToleranceSeconds, Int.cast_ofNat]
    linarith
  constructor
  · rintro ⟨fresh, -, old⟩
    exact ⟨fresh, old⟩
  · rintro ⟨fresh, old⟩
    exact ⟨fresh, young, old⟩

theorem sessionIsValid_swept {sid : String} {issuedAt : Int} (revoked : ExpiringStore Bool)
    (verified : verifiedSession signer token = some (sid, issuedAt)) :
    (sessionIsValid signer st revoked token now).1 = revoked.sweep now := by
  have swept := get_store revoked sid now
  unfold sessionIsValid
  rw [verified]
  simp only
  split
  · rename_i after got
    rw [got] at swept
    exact swept
  · rename_i after found fresh got
    rw [got] at swept
    exact swept

theorem remembers_later (remembers : Remembers st s) (passed : s.clock ≤ now) :
    Remembers st { s with clock := now } := by
  obtain ⟨last, before, sound, within⟩ := remembers.swept
  refine ⟨⟨last, le_trans before passed, sound, within⟩, remembers.recorded, ?_⟩
  exact fun r mem live => remembers.kept r mem (lt_of_le_of_lt passed live)

theorem remembers_sweep (remembers : Remembers st s) (passed : s.clock ≤ now) :
    Remembers st { s with revoked := s.revoked.sweep now, clock := now } := by
  obtain ⟨last, before, sound, within⟩ := remembers.swept
  refine ⟨⟨now, le_refl now, sweep_sound sound now,
    sweep_within sound within (le_trans before passed)⟩, ?_, ?_⟩
  · intro e mem
    exact remembers.recorded e ((mem_sweep_iff sound.toTiered).mp mem).1
  · intro r mem live
    obtain ⟨e, found, long, revoked⟩ := remembers.kept r mem (lt_of_le_of_lt passed live)
    refine ⟨e, ?_, long, revoked⟩
    simp only [find_sweep sound.toTiered, found]
    exact Option.filter_eq_some_iff.mpr ⟨rfl, by simpa using lt_of_lt_of_le live long⟩

theorem remembers_revoke (sid : String) (remembers : Remembers st s) (passed : s.clock ≤ now)
    (lives : 0 < st.revoked.ttl)
    (room : ((((sid, now) :: s.revocations).filter fun r => now < r.2 + st.revoked.ttl).length : Int) ≤
      st.authStoreMaxEntries) :
    Remembers st { revoked := s.revoked.set st.revoked sid true now, clock := now
                   revocations := (sid, now) :: s.revocations } := by
  have swept := remembers_sweep remembers passed
  obtain ⟨last, before, sound, within⟩ := remembers.swept
  have sweptSound := sweep_sound sound now
  have sweptWithin := sweep_within sound within (le_trans before passed)
  generalize records : (((sid, now) :: s.revocations).filter fun r => now < r.2 + st.revoked.ttl) =
    live at room
  have mem_live : ∀ r ∈ (sid, now) :: s.revocations, now < r.2 + st.revoked.ttl →
      r.1 ∈ live.map Prod.fst := by
    intro r mem alive
    rw [← records]
    exact List.mem_map.mpr ⟨r, List.mem_filter.mpr ⟨mem, by simpa using alive⟩, rfl⟩
  have here : sid ∈ live.map Prod.fst :=
    mem_live (sid, now) List.mem_cons_self (lt_add_of_pos_right now lives)
  have covered : ∀ e ∈ (s.revoked.sweep now).rows, e.key ∈ live.map Prod.fst := by
    intro e mem
    obtain ⟨r, recorded, named, expires⟩ := swept.recorded e mem
    rw [← named]
    exact mem_live r (List.mem_cons_of_mem _ recorded) (expires ▸ sweptSound.live e mem)
  have fits : (live.map Prod.fst).length ≤ st.revoked.cap := by
    rw [List.length_map]
    simp only [StoreConfig.cap, SessionSettings.revoked]
    omega
  obtain ⟨written, found⟩ := write_roomy true sweptSound.toTiered sweptWithin lives
    covered here fits (by intro wants; cases wants)
  have old : ∀ e ∈ (ExpiringStore.write st.revoked (s.revoked.sweep now) sid true now).rows,
      e = ⟨sid, now + st.revoked.ttl, true⟩ ∨ e ∈ (s.revoked.sweep now).rows := by
    intro e mem
    have here : (ExpiringStore.write st.revoked (s.revoked.sweep now) sid true now).find e.key =
        some e := (find_iff written.toTiered).mpr ⟨mem, rfl⟩
    rw [found] at here
    split at here
    · exact Or.inl (Option.some.inj here).symm
    · exact Or.inr ((find_iff sweptSound.toTiered).mp here).1
  refine ⟨⟨now, le_refl now, written, ?_⟩, ?_, ?_⟩
  · intro e mem
    rcases old e mem with rfl | mem
    · exact le_refl _
    · exact sweptWithin e mem
  · intro e mem
    rcases old e mem with rfl | mem
    · exact ⟨_, List.mem_cons_self, rfl, rfl⟩
    · obtain ⟨r, recorded, named, expires⟩ := swept.recorded e mem
      exact ⟨r, List.mem_cons_of_mem _ recorded, named, expires⟩
  · intro r mem alive
    simp only [ExpiringStore.set, found]
    by_cases same : r.1 = sid
    · rw [if_pos same]
      refine ⟨_, rfl, ?_, rfl⟩
      rcases List.mem_cons.mp mem with rfl | mem
      · exact le_refl _
      · obtain ⟨e, here, long, -⟩ := swept.kept r mem alive
        exact le_trans long (sweptWithin e ((find_iff sweptSound.toTiered).mp here).1)
    · rw [if_neg same]
      rcases List.mem_cons.mp mem with rfl | mem
      · exact absurd rfl same
      · exact swept.kept r mem alive

theorem revoke_cases (signer : SessionSigner) (st : SessionSettings) (revoked : ExpiringStore Bool)
    (token : String) (now : ℚ) :
    (revokes signer st revoked token now = none ∧
      revokeSession signer st revoked token now = (sessionIsValid signer st revoked token now).1) ∨
    ∃ sid issuedAt, verifiedSession signer token = some (sid, issuedAt) ∧
      (sessionIsValid signer st revoked token now).2 = true ∧
      revokes signer st revoked token now = some (sid, now) ∧
      revokeSession signer st revoked token now =
        (revoked.sweep now).set st.revoked sid true now := by
  unfold revokes revokeSession
  cases checked : sessionIsValid signer st revoked token now with
  | mk after valid =>
    cases valid with
    | false => exact Or.inl ⟨rfl, rfl⟩
    | true =>
      have accepted : (sessionIsValid signer st revoked token now).2 = true := by rw [checked]
      obtain ⟨sid, issuedAt, verified, -⟩ := verified_of_valid accepted
      have swept : (sessionIsValid signer st revoked token now).1 = revoked.sweep now :=
        sessionIsValid_swept revoked verified
      rw [checked] at swept
      refine Or.inr ⟨sid, issuedAt, verified, rfl, by simp [verified], ?_⟩
      rw [verified, ← swept]

theorem retention_positive {revoked : ExpiringStore Bool}
    (valid : (sessionIsValid signer st revoked token now).2 = true) : 0 < st.revoked.ttl := by
  obtain ⟨sid, issuedAt, -, -, young, old⟩ := verified_of_valid valid
  simp only [SessionSettings.revoked, revocationClockSlackSeconds, clockSkewToleranceSeconds,
    Int.cast_add, Int.cast_ofNat] at young ⊢
  linarith

theorem next_cases (signer : SessionSigner) (st : SessionSettings) (s : Sessions)
    (op : SessionOp) :
    s.next signer st op = { s with clock := op.now } ∨
    s.next signer st op = { s with revoked := s.revoked.sweep op.now, clock := op.now } ∨
    ∃ token sid issuedAt, op = .revoke token op.now ∧
      verifiedSession signer token = some (sid, issuedAt) ∧
      (sessionIsValid signer st s.revoked token op.now).2 = true ∧
      s.next signer st op =
        { revoked := (s.revoked.sweep op.now).set st.revoked sid true op.now, clock := op.now
          revocations := (sid, op.now) :: s.revocations } := by
  have checked : ∀ token now, (sessionIsValid signer st s.revoked token now).1 = s.revoked ∨
      (sessionIsValid signer st s.revoked token now).1 = s.revoked.sweep now := by
    intro token now
    cases verified : verifiedSession signer token with
    | none => exact Or.inl (by simp [sessionIsValid, verified])
    | some found => exact Or.inr (sessionIsValid_swept s.revoked verified)
  cases op with
  | issue sid now => exact Or.inl rfl
  | check token now =>
    rcases checked token now with same | same
    · exact Or.inl (by simp only [Sessions.next, same, SessionOp.now])
    · exact Or.inr (Or.inl (by simp only [Sessions.next, same, SessionOp.now]))
  | revoke token now =>
    rcases revoke_cases signer st s.revoked token now with ⟨silent, kept⟩ |
      ⟨sid, issuedAt, verified, valid, recorded, same⟩
    · rcases checked token now with same | same
      · left
        simp [Sessions.next, silent, kept, same, SessionOp.now]
      · right
        left
        simp [Sessions.next, silent, kept, same, SessionOp.now]
    · right
      right
      refine ⟨token, sid, issuedAt, rfl, verified, valid, ?_⟩
      simp [Sessions.next, recorded, same, SessionOp.now]

theorem step_remembers {op : SessionOp} (remembers : Remembers st s)
    (moved : SessionMoves signer st s op t) : Remembers st t := by
  obtain ⟨passed, rfl, room⟩ := moved
  rcases next_cases signer st s op with next | next | ⟨token, sid, issuedAt, -, -, valid, next⟩
  · rw [next]
    exact remembers_later remembers passed
  · rw [next]
    exact remembers_sweep remembers passed
  · rw [next] at room ⊢
    exact remembers_revoke (s := { s with revoked := s.revoked.sweep op.now, clock := op.now }) sid
      (remembers_sweep remembers passed) (le_refl op.now) (retention_positive valid) room

theorem trace_remembers {start : ℚ} {ops : List SessionOp}
    (history : Trace (SessionMoves signer st) { clock := start } ops s) : Remembers st s := by
  refine trace_invariant (Remembers st) (fun s op t => step_remembers) history ?_
  obtain ⟨sound, within⟩ := empty_sound st.revoked start 0
  refine ⟨⟨start, le_refl start, sound, within⟩, ?_, ?_⟩
  · intro e mem
    simp [rows] at mem
  · intro r mem
    cases mem

theorem trace_grows {ops : List SessionOp} (history : Trace (SessionMoves signer st) s ops t) :
    s.clock ≤ t.clock ∧ ∀ r ∈ s.revocations, r ∈ t.revocations := by
  refine trace_invariant (fun t => s.clock ≤ t.clock ∧ ∀ r ∈ s.revocations, r ∈ t.revocations) ?_
    history ⟨le_refl _, fun _ mem => mem⟩
  rintro u op v ⟨before, kept⟩ ⟨passed, rfl, -⟩
  have later := le_trans before passed
  rcases next_cases signer st u op with next | next | ⟨token, sid, issuedAt, -, -, -, next⟩
  · rw [next]
    exact ⟨later, kept⟩
  · rw [next]
    exact ⟨later, kept⟩
  · rw [next]
    exact ⟨later, fun r mem => List.mem_cons_of_mem _ (kept r mem)⟩

/-- A sid on record since at is refused until no token of that time could be valid. -/
theorem recorded_refused {sid : String} {issuedAt : Int} {revokedAt : ℚ} (remembers : Remembers st s)
    (recorded : (sid, revokedAt) ∈ s.revocations)
    (verified : verifiedSession signer token = some (sid, issuedAt))
    (stamped : (issuedAt : ℚ) ≤ revokedAt + clockSkewToleranceSeconds) (passed : s.clock ≤ now) :
    (sessionIsValid signer st s.revoked token now).2 = false := by
  by_contra accepted
  obtain ⟨sid', issuedAt', verified', fresh, -, young⟩ :=
    verified_of_valid (Bool.not_eq_false _ ▸ accepted)
  rw [verified] at verified'
  cases verified'
  by_cases alive : now < revokedAt + st.revoked.ttl
  · obtain ⟨last, -, sound, -⟩ := remembers.swept
    obtain ⟨e, found, long, revoked⟩ :=
      remembers.kept _ recorded (lt_of_le_of_lt passed alive)
    have live : now < e.expiresAt := lt_of_lt_of_le alive long
    apply fresh
    rw [get_value sound.toTiered, found]
    simp [live, revoked]
  · have old := not_lt.mp alive
    simp only [SessionSettings.revoked, revocationClockSlackSeconds, clockSkewToleranceSeconds,
      Int.cast_add, Int.cast_ofNat] at old stamped
    linarith

end Sessions

/-- Whatever happens after a valid token was revoked, it is never accepted again. -/
theorem logout_permanent {signer : SessionSigner} {st : SessionSettings} {start : ℚ}
    {before after : List SessionOp} {s t : Sessions} {token : String} {now : ℚ}
    (history : Trace (SessionMoves signer st) { clock := start } before s)
    (accepted : (sessionIsValid signer st s.revoked token now).2 = true)
    (rest : Trace (SessionMoves signer st) s (.revoke token now :: after) t) :
    ∀ later, t.clock ≤ later → (sessionIsValid signer st t.revoked token later).2 = false := by
  intro later passed
  have remembers := trace_remembers (trace_append history rest)
  obtain ⟨sid, issuedAt, verified, -, stamped, -⟩ := verified_of_valid accepted
  have recorded : (sid, now) ∈ t.revocations := by
    obtain ⟨m, first, tail⟩ := trace_uncons rest
    apply (trace_grows tail).2
    obtain ⟨-, rfl, -⟩ := first
    simp [Sessions.next, revokes, accepted, verified]
  exact recorded_refused remembers recorded verified (by linarith) passed

def Sample.dumps (sid : String) (stamp : Int) : String :=
  String.ofList (List.replicate stamp.natAbs '1' ++ (if 0 ≤ stamp then '+' else '-') :: sid.toList)

def Sample.loads (token : String) : Option (Option String × Int) :=
  let stamp : Int := (token.toList.takeWhile (· = '1')).length
  match token.toList.dropWhile (· = '1') with
  | '+' :: sid => some (some (String.ofList sid), stamp)
  | '-' :: sid => some (some (String.ofList sid), -stamp)
  | _ => none

theorem Sample.loads_units (sid : List Char) {sign : Char} (other : sign ≠ '1') (n : Nat) :
    (List.replicate n '1' ++ sign :: sid).takeWhile (· = '1') = List.replicate n '1' ∧
      (List.replicate n '1' ++ sign :: sid).dropWhile (· = '1') = sign :: sid := by
  induction n with
  | zero => simp [other]
  | succ n ih => simpa [List.replicate_succ] using ih

def Sample.signer : SessionSigner where
  dumps := Sample.dumps
  loads := Sample.loads
  exact sid stamp := by
    by_cases positive : 0 ≤ stamp
    · have size : ((List.replicate stamp.natAbs '1').length : Int) = stamp := by
        rw [List.length_replicate]
        omega
      obtain ⟨units, rest⟩ := Sample.loads_units sid.toList (by decide : '+' ≠ '1') stamp.natAbs
      simp only [Sample.dumps, Sample.loads, if_pos positive, String.toList_ofList, units, rest,
        size, String.ofList_toList]
    · have size : -((List.replicate stamp.natAbs '1').length : Int) = stamp := by
        rw [List.length_replicate]
        omega
      obtain ⟨units, rest⟩ := Sample.loads_units sid.toList (by decide : '-' ≠ '1') stamp.natAbs
      simp only [Sample.dumps, Sample.loads, if_neg positive, String.toList_ofList, units, rest,
        size, String.ofList_toList]

def Sample.hour : SessionSettings := ⟨3600, 2⟩

def Sample.ahead : String := Sample.dumps "a" 60

def Sample.loggedOut : Sessions :=
  ({ clock := 0 } : Sessions).next Sample.signer Sample.hour (.revoke Sample.ahead 0)

theorem token_ahead_stays_revoked :
    Trace (SessionMoves Sample.signer Sample.hour) { clock := 0 } [.revoke Sample.ahead 0]
        Sample.loggedOut ∧
      (sessionIsValid Sample.signer Sample.hour {} Sample.ahead 0).2 = true ∧
      (sessionIsValid Sample.signer Sample.hour Sample.loggedOut.revoked Sample.ahead 3660).2 =
        false := by
  have accepted : (sessionIsValid Sample.signer Sample.hour {} Sample.ahead 0).2 = true := by
    decide +kernel
  have history : Trace (SessionMoves Sample.signer Sample.hour) { clock := 0 }
      [.revoke Sample.ahead 0] Sample.loggedOut :=
    trace_single ⟨le_refl _, rfl, by decide +kernel⟩
  exact ⟨history, accepted, logout_permanent Trace.nil accepted history 3660 (by decide +kernel)⟩

end Pullbackup
