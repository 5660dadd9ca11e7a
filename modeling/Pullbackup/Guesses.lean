import Pullbackup.Throttle

/- api/auth.py: the logins of one client that run at once. Each is a check, the
   comparison of its password, and a record or a clear, and any number of others may
   come between. -/
namespace Pullbackup
open KeyedTable History

/-- A login past its check. -/
structure Pending where
  id : Nat
  correct : Bool
  comparedAt : Option ℚ := none
  deriving DecidableEq, Repr

instance : Keyed Pending Nat := ⟨Pending.id⟩

@[simp] theorem key_pending (r : Pending) : Keyed.key r = r.id := rfl

structure Guesses where
  throttle : Throttle
  pending : Table Pending := .empty
  compared : List ℚ := []
  cleared : List ℚ := []

inductive GuessAct where
  | check (id : Nat) (correct : Bool) (now : ℚ)
  | compare (id : Nat) (now : ℚ)
  | settle (id : Nat) (now : ℚ)

def GuessAct.now : GuessAct → ℚ
  | .check _ _ now | .compare _ now | .settle _ now => now

def Guesses.passes (s : Guesses) (client : String) (now : ℚ) : Bool :=
  (loginThrottleRetryAfter s.throttle.store client now).2 = 0

def Guesses.check (c : StoreConfig (List ℚ)) (client : String) (s : Guesses) (id : Nat)
    (correct : Bool) (now : ℚ) : Option Guesses :=
  match s.pending.get id with
  | some _ => none
  | none =>
    let throttle := s.throttle.next c (.check client now)
    if s.passes client now then
      some { s with throttle := throttle, pending := s.pending.put ⟨id, correct, none⟩ }
    else some { s with throttle := throttle }

def Guesses.compare (s : Guesses) (id : Nat) (now : ℚ) : Option Guesses :=
  match s.pending.get id with
  | some ⟨_, correct, none⟩ =>
    some { s with
      throttle := { s.throttle with clock := now }
      pending := s.pending.put ⟨id, correct, some now⟩
      compared := if correct then s.compared else now :: s.compared }
  | _ => none

def Guesses.settle (c : StoreConfig (List ℚ)) (client : String) (s : Guesses) (id : Nat) (now : ℚ) :
    Option Guesses :=
  match s.pending.get id with
  | some ⟨_, true, some _⟩ =>
    some { s with
      throttle := s.throttle.next c (.clear client now), pending := s.pending.erase id
      cleared := now :: s.cleared }
  | some ⟨_, false, some _⟩ =>
    some { s with
      throttle := s.throttle.next c (.record client now), pending := s.pending.erase id }
  | _ => none

def Guesses.step (c : StoreConfig (List ℚ)) (client : String) (s : Guesses) :
    GuessAct → Option Guesses
  | .check id correct now => s.check c client id correct now
  | .compare id now => s.compare id now
  | .settle id now => s.settle c client id now

def GuessMoves (maxEntries : Int) (client : String) (s : Guesses) (act : GuessAct) (t : Guesses) :
    Prop :=
  s.throttle.clock ≤ act.now ∧ s.step (loginAttempts maxEntries) client act = some t

/-- A check that lets a wrong password through finds fewer than five failures of the client,
    recorded in the window or still to be recorded. -/
def Guesses.Spaced (client : String) (s : Guesses) : GuessAct → Prop
  | .check _ correct now => correct = false → s.passes client now = true →
    s.pending.rows.countP (fun r => !r.correct) +
      (recent (s.throttle.plain.times client) now).length < loginMaxFailures
  | _ => True

/-- The wrong passwords compared in the window that starts at an instant. -/
def Guesses.comparedIn (s : Guesses) (start : ℚ) : List ℚ :=
  s.compared.filter fun t => InWindow start t

def Guesses.NoSuccessIn (s : Guesses) (start : ℚ) : Prop := ∀ t ∈ s.cleared, ¬ InWindow start t

def waiting (r : Pending) : Bool := !r.correct && r.comparedAt.isNone

def unrecorded (start : ℚ) (r : Pending) : Bool :=
  !r.correct && r.comparedAt.any fun t => decide (start ≤ t)

/-- The guesses of an open window wait, are unrecorded, or are on the plain list. -/
structure Bounded (c : StoreConfig (List ℚ)) (client : String) (start : ℚ) (s : Guesses) : Prop where
  agrees : Agrees c s.throttle
  alone : ∀ f ∈ s.throttle.plain.rows, f.client = client
  past : ∀ t ∈ s.compared, t ≤ s.throttle.clock
  pastToo : ∀ r ∈ s.pending.rows, ∀ t ∈ r.comparedAt, t ≤ s.throttle.clock
  bound : s.NoSuccessIn start → (s.comparedIn start).length ≤ loginMaxFailures ∧
    (s.throttle.clock < start + loginLockoutSeconds →
      (s.comparedIn start).length + s.pending.rows.countP waiting ≤ loginMaxFailures ∧
      (s.comparedIn start).length ≤ s.pending.rows.countP (unrecorded start) +
        (s.throttle.plain.times client).countP fun t => decide (start ≤ t))

section Guessing
variable {maxEntries : Int} {client : String} {s t : Guesses} {start now : ℚ} {id : Nat}
  {correct : Bool}

/-- One client fits in any store. -/
theorem alone_fits (c : StoreConfig (List ℚ)) {p : PlainThrottle} (alone : ∀ f ∈ p.rows, f.client = client)
    (now : ℚ) : (p.live now).length ≤ c.cap ∧ (p.live now).length ≤ c.protectedCap := by
  have few : (p.live now).length ≤ 1 := by
    have unique : (p.live now).Nodup := p.unique.sublist (List.filter_sublist.map _)
    have inside : p.live now ⊆ [client] := by
      intro k mem
      obtain ⟨f, here, rfl⟩ := List.mem_map.mp mem
      exact List.mem_singleton.mpr (alone f (List.mem_of_mem_filter here))
    exact unique.length_le_of_subset inside
  have cap := ExpiringStore.one_le_cap c
  have share : 1 ≤ c.protectedCap := Nat.le_max_left _ _
  exact ⟨by omega, by omega⟩

theorem inFlight_split (rows : List Pending) (start : ℚ) :
    rows.countP waiting + rows.countP (unrecorded start) ≤ rows.countP fun r => !r.correct := by
  induction rows with
  | nil => simp
  | cons r rows ih =>
    simp only [List.countP_cons]
    have apart : (if waiting r = true then 1 else 0) + (if unrecorded start r = true then 1 else 0) ≤
        if (!r.correct) = true then 1 else 0 := by
      cases correct : r.correct with
      | true => simp [waiting, unrecorded, correct]
      | false =>
        cases compared : r.comparedAt with
        | none => simp [waiting, unrecorded, correct, compared]
        | some t =>
          by_cases late : start ≤ t
          · simp [waiting, unrecorded, correct, compared, late]
          · simp [waiting, unrecorded, correct, compared, late]
    omega

theorem countP_new {rows : Table Pending} (p : Pending → Bool) (absent : rows.get id = none)
    (correct : Bool) : (rows.put ⟨id, correct, none⟩).rows.countP p =
      rows.rows.countP p + if p ⟨id, correct, none⟩ then 1 else 0 := by
  have rows : (rows.put ⟨id, correct, none⟩).rows = rows.rows ++ [⟨id, correct, none⟩] :=
    putRow_of_new (Table.get_eq_none_iff.mp absent)
  rw [rows, List.countP_append, List.countP_singleton]

theorem check_bounded (bounded : Bounded (loginAttempts maxEntries) client start s)
    (passed : s.throttle.clock ≤ now) (spaced : s.Spaced client (.check id correct now))
    (moved : s.check (loginAttempts maxEntries) client id correct now = some t) :
    Bounded (loginAttempts maxEntries) client start t := by
  have agrees := agrees_check bounded.agrees client passed
  unfold Guesses.check at moved
  split at moved
  · cases moved
  · rename_i absent
    simp only at moved
    split at moved
    · rename_i passes
      cases moved
      refine ⟨agrees, bounded.alone, fun t mem => le_trans (bounded.past t mem) passed, ?_, ?_⟩
      · intro r mem t here
        rcases Table.mem_put_iff.mp mem with rfl | ⟨-, old⟩
        · cases here
        · exact le_trans (bounded.pastToo r old t here) passed
      · intro nothing
        obtain ⟨bound, opened⟩ := bounded.bound nothing
        refine ⟨bound, fun still => ?_⟩
        replace still : now < start + loginLockoutSeconds := still
        obtain ⟨few, listed⟩ := opened (lt_of_le_of_lt passed still)
        have waits := countP_new waiting absent correct
        have lists := countP_new (unrecorded start) absent correct
        have unmarked : unrecorded start ⟨id, correct, none⟩ = false := by
          simp [unrecorded]
        rw [unmarked, if_neg Bool.false_ne_true] at lists
        simp only [Guesses.comparedIn, Throttle.next] at few listed ⊢
        refine ⟨?_, by omega⟩
        cases right : correct with
        | true =>
          subst right
          have idle : waiting ⟨id, true, none⟩ = false := rfl
          rw [idle, if_neg Bool.false_ne_true] at waits
          omega
        | false =>
          subst right
          have room := spaced rfl passes
          have split := inFlight_split s.pending.rows start
          have seen := countP_le_recent (s.throttle.plain.times client) still
          have waitsNow : waiting ⟨id, false, none⟩ = true := rfl
          rw [waitsNow, if_pos rfl] at waits
          omega
    · cases moved
      refine ⟨agrees, bounded.alone, fun t mem => le_trans (bounded.past t mem) passed,
        fun r mem t here => le_trans (bounded.pastToo r mem t here) passed, ?_⟩
      intro nothing
      obtain ⟨bound, opened⟩ := bounded.bound nothing
      exact ⟨bound, fun still => opened (lt_of_le_of_lt passed still)⟩

theorem countP_put {rows : Table Pending} {old : Pending} (p : Pending → Bool)
    (found : rows.get id = some old) (new : Pending) (named : new.id = id) :
    (rows.put new).rows.countP p + (if p old then 1 else 0) =
      rows.rows.countP p + if p new then 1 else 0 := by
  obtain ⟨mem, same⟩ := Table.get_eq_some_iff.mp found
  exact countP_putRow p rows.unique mem (same.trans named.symm)

theorem countP_erase {rows : Table Pending} {old : Pending} (p : Pending → Bool)
    (found : rows.get id = some old) :
    (rows.erase id).rows.countP p + (if p old then 1 else 0) = rows.rows.countP p := by
  obtain ⟨mem, same⟩ := Table.get_eq_some_iff.mp found
  exact countP_eraseRow p rows.unique mem same

theorem comparedIn_before (past : ∀ t ∈ s.compared, t ≤ s.throttle.clock)
    (before : s.throttle.clock < start) : s.comparedIn start = [] := by
  apply List.filter_eq_nil_iff.mpr
  intro t mem
  have le := past t mem
  rw [decide_eq_true_eq]
  rintro ⟨late, -⟩
  linarith

theorem agrees_later {c : StoreConfig (List ℚ)} {u : Throttle} (agrees : Agrees c u)
    (passed : u.clock ≤ now) : Agrees c { u with clock := now } := by
  obtain ⟨last, before, sound, within⟩ := agrees.swept
  refine ⟨⟨last, le_trans before passed, sound, within⟩, ?_, ?_, agrees.inOrder, ?_⟩
  · intro other e found
    exact shadows_later (agrees.entries other e found) passed
  · exact fun other t mem => le_trans (agrees.past other t mem) passed
  · exact fun other later after => agrees.same other later (le_trans passed after)

theorem compare_bounded (bounded : Bounded (loginAttempts maxEntries) client start s)
    (passed : s.throttle.clock ≤ now) (moved : s.compare id now = some t) :
    Bounded (loginAttempts maxEntries) client start t := by
  unfold Guesses.compare at moved
  split at moved
  · rename_i named correct found
    cases moved
    have waits := countP_put waiting found ⟨id, correct, some now⟩ rfl
    have lists := countP_put (unrecorded start) found ⟨id, correct, some now⟩ rfl
    have older := fun t mem => le_trans (bounded.past t mem) passed
    refine ⟨agrees_later bounded.agrees passed, bounded.alone, ?_, ?_, ?_⟩
    · intro t mem
      cases correct with
      | true => exact older t mem
      | false =>
        rcases List.mem_cons.mp mem with rfl | old
        · exact le_refl _
        · exact older t old
    · intro r mem t here
      rcases Table.mem_put_iff.mp mem with rfl | ⟨-, old⟩
      · cases here
        exact le_refl _
      · exact le_trans (bounded.pastToo r old t here) passed
    · intro nothing
      obtain ⟨bound, opened⟩ := bounded.bound nothing
      cases correct with
      | true =>
        refine ⟨bound, fun still => ?_⟩
        obtain ⟨few, listed⟩ := opened (lt_of_le_of_lt passed still)
        simp only [Guesses.comparedIn] at few listed ⊢
        simp only [waiting, unrecorded, Bool.not_true, Bool.false_and, Bool.false_eq_true, if_false,
          if_true, Nat.add_zero] at waits lists few listed ⊢
        exact ⟨by omega, by omega⟩
      | false =>
        have first : waiting ⟨named, false, none⟩ = true := rfl
        have thereafter : waiting ⟨id, false, some now⟩ = false := rfl
        have firstToo : unrecorded start ⟨named, false, none⟩ = false := rfl
        rw [first, thereafter, if_pos rfl, if_neg (by simp)] at waits
        rw [firstToo, if_neg (by simp)] at lists
        simp only [Guesses.comparedIn, Bool.false_eq_true, if_false, List.filter_cons] at bound opened ⊢
        by_cases inside : InWindow start now
        · obtain ⟨few, listed⟩ := opened (lt_of_le_of_lt passed inside.2)
          have marked : unrecorded start ⟨id, false, some now⟩ = true := by
            simp [unrecorded, inside.1]
          rw [marked, if_pos rfl] at lists
          rw [if_pos (by simpa using inside), List.length_cons]
          exact ⟨by omega, fun _ => ⟨by omega, by omega⟩⟩
        · rw [if_neg (by simpa using inside)]
          refine ⟨bound, fun still => ?_⟩
          obtain ⟨few, listed⟩ := opened (lt_of_le_of_lt passed still)
          exact ⟨by omega, by omega⟩
  · cases moved

theorem settle_bounded (bounded : Bounded (loginAttempts maxEntries) client start s)
    (passed : s.throttle.clock ≤ now)
    (moved : s.settle (loginAttempts maxEntries) client id now = some t) :
    Bounded (loginAttempts maxEntries) client start t := by
  have older := fun t mem => le_trans (bounded.past t mem) passed
  have remaining : ∀ r ∈ (s.pending.erase id).rows, ∀ t ∈ r.comparedAt, t ≤ now :=
    fun r mem t here => le_trans (bounded.pastToo r (Table.mem_erase_iff.mp mem).1 t here) passed
  unfold Guesses.settle at moved
  split at moved
  · rename_i named stamp found
    cases moved
    have waits := countP_erase waiting found
    have lists := countP_erase (unrecorded start) found
    have idle : waiting ⟨named, true, some stamp⟩ = false := rfl
    have idleToo : unrecorded start ⟨named, true, some stamp⟩ = false := rfl
    rw [idle, if_neg Bool.false_ne_true] at waits
    rw [idleToo, if_neg Bool.false_ne_true] at lists
    refine ⟨agrees_clear bounded.agrees client passed, ?_, older, remaining, ?_⟩
    · exact fun f mem => bounded.alone f (Table.mem_erase_iff.mp mem).1
    · intro nothing
      have outside := nothing now List.mem_cons_self
      obtain ⟨bound, opened⟩ := bounded.bound fun t mem => nothing t (List.mem_cons_of_mem _ mem)
      refine ⟨bound, fun still => ?_⟩
      replace still : now < start + loginLockoutSeconds := still
      obtain ⟨few, listed⟩ := opened (lt_of_le_of_lt passed still)
      have early : s.throttle.clock < start := by
        by_contra late
        exact outside ⟨le_trans (not_lt.mp late) passed, still⟩
      have empty := congrArg List.length (comparedIn_before bounded.past early)
      simp only [Guesses.comparedIn, List.length_nil] at few empty ⊢
      exact ⟨by omega, by omega⟩
  · rename_i named stamp found
    cases moved
    have waits := countP_erase waiting found
    have lists := countP_erase (unrecorded start) found
    have idle : waiting ⟨named, false, some stamp⟩ = false := rfl
    rw [idle, if_neg Bool.false_ne_true] at waits
    have alone : ∀ f ∈ (s.throttle.plain.record client now).rows, f.client = client := by
      intro f mem
      rcases Table.mem_put_iff.mp mem with rfl | ⟨-, old⟩
      · rfl
      · exact bounded.alone f old
    obtain ⟨fits, share⟩ := alone_fits (loginAttempts maxEntries) alone now
    refine ⟨agrees_record bounded.agrees client passed fits share, alone, older, remaining, ?_⟩
    intro nothing
    obtain ⟨bound, opened⟩ := bounded.bound nothing
    refine ⟨bound, fun still => ?_⟩
    obtain ⟨few, listed⟩ := opened (lt_of_le_of_lt passed still)
    have times : (s.throttle.plain.record client now).times client =
        s.throttle.plain.times client ++ [now] := by
      rw [times_record, if_pos rfl]
    have before : stamp ≤ now := by
      obtain ⟨mem, -⟩ := Table.get_eq_some_iff.mp found
      exact le_trans (bounded.pastToo _ mem stamp rfl) passed
    simp only [Guesses.comparedIn, Throttle.next, times, List.countP_append] at few listed ⊢
    refine ⟨by omega, ?_⟩
    -- the failure leaves the requests in flight for the list
    by_cases late : start ≤ stamp
    · have marked : unrecorded start ⟨named, false, some stamp⟩ = true := by
        simp [unrecorded, late]
      have new : [now].countP (fun t => decide (start ≤ t)) = 1 := by
        simp [le_trans late before]
      rw [marked, if_pos rfl] at lists
      omega
    · have unmarked : unrecorded start ⟨named, false, some stamp⟩ = false := by
        simp [unrecorded, late]
      rw [unmarked, if_neg Bool.false_ne_true] at lists
      omega
  · cases moved

theorem step_bounded {act : GuessAct} (bounded : Bounded (loginAttempts maxEntries) client start s)
    (moved : GuessMoves maxEntries client s act t) (spaced : s.Spaced client act) :
    Bounded (loginAttempts maxEntries) client start t := by
  obtain ⟨passed, step⟩ := moved
  cases act with
  | check id correct now => exact check_bounded bounded passed spaced step
  | compare id now => exact compare_bounded bounded passed step
  | settle id now => exact settle_bounded bounded passed step

end Guessing

/-- In a run whose checks count the guesses in flight, no window without a success has more
    wrong passwords compared than a lockout takes. -/
theorem spaced_guesses_bounded {maxEntries : Int} {client : String} {opened : ℚ}
    {acts : List GuessAct} {s : Guesses}
    (history : Trace
      (fun s act t => GuessMoves maxEntries client s act t ∧ s.Spaced client act)
      { throttle := { clock := opened } } acts s) :
    ∀ start, s.NoSuccessIn start → (s.comparedIn start).length ≤ loginMaxFailures := by
  intro start nothing
  refine ((trace_invariant (Bounded (loginAttempts maxEntries) client start) ?_ history ?_).bound
    nothing).1
  · exact fun s act t bounded moves => step_bounded bounded moves.1 moves.2
  · refine ⟨start_agrees _ opened, ?_, ?_, ?_, fun _ => ⟨Nat.zero_le _, fun _ => ⟨Nat.zero_le _,
      Nat.zero_le _⟩⟩⟩
    · intro f mem
      cases mem
    · intro t mem
      cases mem
    · intro r mem
      cases mem

instance (client : String) (s : Guesses) (act : GuessAct) : Decidable (s.Spaced client act) :=
  match act with
  | .check _ _ _ => inferInstanceAs (Decidable (_ → _ → _))
  | .compare _ _ => .isTrue trivial
  | .settle _ _ => .isTrue trivial

def Guesses.guarded (maxEntries : Int) (client : String) (keep : Guesses → GuessAct → Bool)
    (s : Guesses) (act : GuessAct) : Option Guesses :=
  if s.throttle.clock ≤ act.now ∧ keep s act = true then
    s.step (loginAttempts maxEntries) client act
  else none

theorem guarded_moves {maxEntries : Int} {client : String} {keep : Guesses → GuessAct → Bool}
    {s t : Guesses} {act : GuessAct} (moved : s.guarded maxEntries client keep act = some t) :
    GuessMoves maxEntries client s act t ∧ keep s act = true := by
  unfold Guesses.guarded at moved
  split at moved
  · rename_i allowed
    exact ⟨⟨allowed.1, moved⟩, allowed.2⟩
  · cases moved

def Sample.serial : List GuessAct :=
  (List.range 5).flatMap (fun id => [.check id false id, .compare id id, .settle id id]) ++
    [.check 5 false 5]

def Sample.atOnce : List GuessAct :=
  (List.range 6).map (fun id => .check id false 0) ++ (List.range 6).map (fun id => .compare id 1)

theorem sixth_guess_refused :
    ∃ s, Trace (fun s act t => GuessMoves 100 "eve" s act t ∧ s.Spaced "eve" act)
        { throttle := { clock := 0 } } Sample.serial s ∧
      (s.comparedIn 0).length = 5 ∧ (s.comparedIn 0).length ≤ loginMaxFailures := by
  obtain ⟨s, done, seen⟩ := Option.map_eq_some_iff.mp
    (by decide +kernel : (Sample.serial.foldlM
      (Guesses.guarded 100 "eve" fun s act => decide (s.Spaced "eve" act))
        { throttle := { clock := 0 } }).map (fun s => ((s.comparedIn 0).length, s.cleared)) =
          some (5, []))
  obtain ⟨count, nothing⟩ := Prod.mk.inj seen
  have history : Trace (fun s act t => GuessMoves 100 "eve" s act t ∧ s.Spaced "eve" act)
      { throttle := { clock := 0 } } Sample.serial s :=
    trace_of_foldlM (fun _ _ _ moved =>
      ⟨(guarded_moves moved).1, of_decide_eq_true (guarded_moves moved).2⟩) done
  refine ⟨s, history, count, spaced_guesses_bounded history 0 ?_⟩
  intro t mem
  rw [nothing] at mem
  cases mem

/-- Six wrong passwords are compared in one second. -/
theorem concurrent_guesses_pass :
    ∃ s, Trace (GuessMoves 100 "eve") { throttle := { clock := 0 } } Sample.atOnce s ∧
      s.NoSuccessIn 0 ∧ loginMaxFailures < (s.comparedIn 0).length := by
  obtain ⟨s, done, seen⟩ := Option.map_eq_some_iff.mp
    (by decide +kernel : (Sample.atOnce.foldlM (Guesses.guarded 100 "eve" fun _ _ => true)
        { throttle := { clock := 0 } }).map (fun s => ((s.comparedIn 0).length, s.cleared)) =
          some (6, []))
  obtain ⟨count, nothing⟩ := Prod.mk.inj seen
  refine ⟨s, trace_of_foldlM (fun _ _ _ moved => (guarded_moves moved).1) done, ?_, ?_⟩
  · intro t mem
    rw [nothing] at mem
    cases mem
  · rw [count]
    decide

end Pullbackup
