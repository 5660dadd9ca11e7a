import Pullbackup.Throttle
import Mathlib.Data.List.Dedup

/- http_auth.py: what a flood of failed logins does to a lockout, and to a newcomer. -/
namespace Pullbackup
open KeyedTable ExpiryQueue History ExpiringStore

/-- The throttle under traffic, and what each failure left of its client's list, newest first. -/
structure Traffic where
  store : ExpiringStore (List ℚ) := {}
  clock : ℚ
  written : List (String × List ℚ) := []

def Traffic.next (c : StoreConfig (List ℚ)) (s : Traffic) : ThrottleOp → Traffic
  | .record client now =>
    { store := recordFailedLogin c s.store client now, clock := now
      written := (client, (s.store.mutate c client (appendFailure now) now).2) :: s.written }
  | .check client now =>
    { s with store := (loginThrottleRetryAfter s.store client now).1, clock := now }
  | .clear client now => { s with store := clearFailedLogins s.store client now, clock := now }

def TrafficMoves (maxEntries : Int) (s : Traffic) (op : ThrottleOp) (t : Traffic) : Prop :=
  s.clock ≤ op.now ∧ t = s.next (loginAttempts maxEntries) op

def lockouts (written : List (String × List ℚ)) : List String :=
  (written.filter fun w => loginMaxFailures ≤ w.2.length).map Prod.fst

def Traffic.otherLockouts (s : Traffic) (client : String) : List String :=
  ((lockouts s.written).filter (· ≠ client)).dedup

def ThrottleOp.failure? : ThrottleOp → Option ℚ
  | .record _ now => some now
  | .check _ _ | .clear _ _ => none

/-- A store that traffic can reach: every list in order, and of the past. -/
structure Orderly (maxEntries : Int) (s : Traffic) : Prop where
  swept : Swept (loginAttempts maxEntries) s.clock s.store
  lists : ∀ e ∈ s.store.rows, e.value.Pairwise (· ≤ ·) ∧ ∀ t ∈ e.value, t ≤ s.clock

def LockedOut (client : String) (due : ℚ) (s : Traffic) : Prop :=
  ∃ e, e.key = client ∧ due ≤ e.expiresAt ∧
    Trails e (lockouts s.written) s.store.protectedEntries

/-- A check finds the failures of a burst, as many of them as make a lockout. -/
structure BurstSeen (client : String) (burst : List ℚ) (s : Traffic) : Prop where
  past : ∀ t ∈ burst, t ≤ s.clock
  found : ∀ later, s.clock ≤ later → min loginMaxFailures (recent burst later).length ≤
    (recent (stored s.store client later) later).length

section Steps
variable {maxEntries : Int} {s t : Traffic} {op : ThrottleOp} {client : String} {due now later : ℚ}

theorem ttl_pos (maxEntries : Int) : 0 < (loginAttempts maxEntries).ttl := by
  simp only [loginAttempts, loginLockoutSeconds]
  norm_num

theorem two_le_of_cap (room : 100 ≤ (loginAttempts maxEntries).cap) :
    2 ≤ (loginAttempts maxEntries).maxEntries := by
  simp only [StoreConfig.cap] at room
  omega

def failed (s : Traffic) (client : String) (now : ℚ) : List ℚ :=
  appendFailure now (((s.store.sweep now).find client).map StoreEntry.value)

theorem orderly_read (orderly : Orderly maxEntries s) (client : String) (passed : s.clock ≤ now) :
    (stored s.store client now).Pairwise (· ≤ ·) ∧ ∀ t ∈ stored s.store client now, t ≤ now := by
  obtain ⟨last, -, sound, -⟩ := orderly.swept
  cases found : s.store.find client with
  | none => simp [stored_none found]
  | some e =>
    obtain ⟨ordered, past⟩ := orderly.lists e ((find_iff sound.toTiered).mp found).1
    rw [stored_some found]
    split
    · exact ⟨ordered, fun t mem => le_trans (past t mem) passed⟩
    · simp

theorem failed_eq (orderly : Orderly maxEntries s) (client : String) (now : ℚ) :
    failed s client now = lastFailures (recent (stored s.store client now) now ++ [now]) := by
  obtain ⟨last, -, sound, -⟩ := orderly.swept
  rw [failed, appendFailure, stored_read sound.toTiered]

theorem step_store (room : 2 ≤ maxEntries) (orderly : Orderly maxEntries s)
    (moved : TrafficMoves maxEntries s op t) :
    t.clock = op.now ∧ Swept (loginAttempts maxEntries) op.now t.store ∧
      ∀ e ∈ t.store.rows, e ∈ s.store.rows ∨ ∃ client now, op = .record client now ∧
        e.value = failed s client now := by
  obtain ⟨passed, rfl⟩ := moved
  obtain ⟨last, before, sound, within⟩ := orderly.swept
  have old : ∀ {now : ℚ} {e}, e ∈ (s.store.sweep now).rows → e ∈ s.store.rows := fun mem =>
    ((mem_sweep_iff sound.toTiered).mp mem).1
  cases op with
  | check client now =>
    obtain ⟨swept, sweptWithin⟩ := swept_sweep orderly.swept passed
    simp only [Traffic.next, loginThrottleRetryAfter, get_store]
    exact ⟨rfl, ⟨now, le_refl now, swept, sweptWithin⟩, fun e mem => Or.inl (old mem)⟩
  | clear client now =>
    obtain ⟨popped, fewer⟩ := pop_sound sound client now
    obtain ⟨-, sweptWithin⟩ := swept_sweep orderly.swept passed
    exact ⟨rfl, ⟨now, le_refl now, popped, fun e mem => sweptWithin e (fewer e mem)⟩,
      fun e mem => Or.inl (old (fewer e mem))⟩
  | record client now =>
    obtain ⟨swept, sweptWithin⟩ := swept_sweep orderly.swept passed
    refine ⟨rfl, ⟨now, le_refl now, write_sound room (ttl_pos maxEntries) swept sweptWithin client _,
      write_within room swept sweptWithin⟩, ?_⟩
    intro e mem
    rcases mem_write room swept mem with rfl | ⟨here, -⟩
    · exact Or.inr ⟨client, now, rfl, rfl⟩
    · exact Or.inl (old here)

theorem step_orderly (room : 2 ≤ maxEntries) (orderly : Orderly maxEntries s)
    (moved : TrafficMoves maxEntries s op t) : Orderly maxEntries t := by
  obtain ⟨clock, swept, rows⟩ := step_store room orderly moved
  rw [← clock] at swept
  refine ⟨swept, ?_⟩
  intro e mem
  rw [clock]
  rcases rows e mem with old | ⟨client, now, rfl, same⟩
  · obtain ⟨ordered, past⟩ := orderly.lists e old
    exact ⟨ordered, fun t mem => le_trans (past t mem) moved.1⟩
  · obtain ⟨ordered, below⟩ := orderly_read orderly client moved.1
    obtain ⟨sorted, before⟩ := appended_ordered ordered below
    rw [same, failed_eq orderly]
    exact ⟨sorted.sublist (List.drop_sublist _ _), fun t mem => before t (List.mem_of_mem_drop mem)⟩

theorem trace_orderly (room : 2 ≤ maxEntries) {opened : ℚ} {ops : List ThrottleOp}
    (history : Trace (TrafficMoves maxEntries) { clock := opened } ops s) :
    Orderly maxEntries s := by
  refine trace_invariant (Orderly maxEntries) (fun s op t => step_orderly room) history ?_
  obtain ⟨sound, within⟩ := empty_sound (loginAttempts maxEntries) opened 0
  refine ⟨⟨opened, le_refl opened, sound, within⟩, ?_⟩
  simp [rows]

/-- A step moves a held lockout only to the back, or the lockouts of others since then fill the
    protected share. -/
theorem step_held (room : 100 ≤ (loginAttempts maxEntries).cap) (orderly : Orderly maxEntries s)
    (held : LockedOut client due s) (moved : TrafficMoves maxEntries s op t)
    (early : op.now < due) (restarts : due ≤ op.now + loginLockoutSeconds)
    (kept : op ≠ .clear client op.now)
    (own : ∀ now, op = .record client now → loginMaxFailures ≤ (failed s client now).length) :
    LockedOut client due t ∨
      (loginAttempts maxEntries).protectedCap ≤ (t.otherLockouts client).length := by
  obtain ⟨passed, rfl⟩ := moved
  obtain ⟨e, named, lasts, trails⟩ := held
  have two := two_le_of_cap room
  obtain ⟨swept, sweptWithin⟩ := swept_sweep orderly.swept passed
  have stays : Trails e (lockouts s.written) (s.store.sweep op.now).protectedEntries :=
    trails_dropExpired trails (lt_of_lt_of_le early lasts)
  cases op with
  | check other now =>
    left
    refine ⟨e, named, lasts, ?_⟩
    simp only [Traffic.next, loginThrottleRetryAfter, get_store]
    exact stays
  | clear other now =>
    have differ : e.key ≠ other := by
      rintro rfl
      exact kept (by rw [named]; rfl)
    left
    refine ⟨e, named, lasts, ?_⟩
    simp only [Traffic.next, clearFailedLogins, ExpiringStore.pop]
    split
    · exact stays
    · exact trails_erase stays differ
  | record other now =>
    by_cases same : other = client
    · subst same
      have wants : (loginAttempts maxEntries).wantsProtection (failed s other now) = true :=
        decide_eq_true (own now rfl)
      left
      exact ⟨_, rfl, restarts, trails_fresh two swept _ wants⟩
    · have differ : e.key ≠ other := fun equal => same (equal.symm.trans named)
      obtain ⟨plain, wanted⟩ := trails_write two swept stays differ (failed s other now)
      by_cases wants : loginMaxFailures ≤ (failed s other now).length
      · have log : lockouts ((other, failed s other now) :: s.written) =
            other :: lockouts s.written := by
          simp [lockouts, wants]
        rcases wanted (decide_eq_true wants) with there | ⟨crowd, distinct, origin, absent, full⟩
        · left
          refine ⟨e, named, lasts, ?_⟩
          change Trails e (lockouts ((other, failed s other now) :: s.written)) _
          rw [log]
          exact there
        · right
          refine Nat.le_trans full (distinct.length_le_of_subset ?_)
          intro key mem
          change key ∈ ((lockouts ((other, failed s other now) :: s.written)).filter _).dedup
          rw [log, List.mem_dedup, List.mem_filter]
          refine ⟨origin mem, ?_⟩
          rw [decide_eq_true_eq]
          rintro rfl
          exact absent (named ▸ mem)
      · have log : lockouts ((other, failed s other now) :: s.written) = lockouts s.written := by
          simp [lockouts, wants]
        left
        refine ⟨e, named, lasts, ?_⟩
        change Trails e (lockouts ((other, failed s other now) :: s.written)) _
        rw [log]
        exact plain (decide_eq_false wants)

theorem written_grows (moved : TrafficMoves maxEntries s op t) : s.written ⊆ t.written := by
  obtain ⟨-, rfl⟩ := moved
  cases op with
  | record client now => exact List.subset_cons_self _ _
  | check client now => exact List.Subset.refl _
  | clear client now => exact List.Subset.refl _

theorem otherLockouts_grows (moved : TrafficMoves maxEntries s op t) (client : String) :
    (s.otherLockouts client).length ≤ (t.otherLockouts client).length := by
  have grows := written_grows moved
  refine (List.nodup_dedup _).length_le_of_subset ?_
  intro key mem
  obtain ⟨first, other⟩ := List.mem_filter.mp (List.mem_dedup.mp mem)
  obtain ⟨w, here, rfl⟩ := List.mem_map.mp first
  obtain ⟨old, long⟩ := List.mem_filter.mp here
  exact List.mem_dedup.mpr (List.mem_filter.mpr
    ⟨List.mem_map.mpr ⟨w, List.mem_filter.mpr ⟨grows old, long⟩, rfl⟩, other⟩)

theorem trace_held (room : 100 ≤ (loginAttempts maxEntries).cap) (orderly : Orderly maxEntries s)
    (held : LockedOut client due s) (restarts : due ≤ s.clock + loginLockoutSeconds)
    {later : List ThrottleOp} (history : Trace (TrafficMoves maxEntries) s later t)
    (kept : ∀ now, .clear client now ∉ later)
    (own : ∀ attempts, (client, attempts) ∈ t.written → loginMaxFailures ≤ attempts.length)
    (few : (t.otherLockouts client).length < (loginAttempts maxEntries).protectedCap)
    (early : t.clock < due) :
    Orderly maxEntries t ∧ LockedOut client due t ∧ s.clock ≤ t.clock := by
  induction history with
  | nil => exact ⟨orderly, held, le_refl _⟩
  | snoc before last ih =>
    rename_i u v ops op
    have clock : v.clock = op.now := by
      obtain ⟨-, rfl⟩ := last
      cases op <;> rfl
    obtain ⟨sorted, holds, since⟩ := ih
      (fun now mem => kept now (List.mem_append_left _ mem))
      (fun attempts mem => own attempts (written_grows last mem))
      (lt_of_le_of_lt (otherLockouts_grows last client) few)
      (lt_of_le_of_lt (last.1.trans clock.ge) early)
    have passed := le_trans since last.1
    refine ⟨step_orderly (two_le_of_cap room) sorted last, ?_, passed.trans clock.ge⟩
    have unlocked : op ≠ .clear client op.now := fun same =>
      kept op.now (List.mem_append_right _ (List.mem_singleton.mpr same.symm))
    have refreshes : ∀ now, op = .record client now →
        loginMaxFailures ≤ (failed u client now).length := by
      rintro now rfl
      obtain ⟨-, rfl⟩ := last
      exact own _ List.mem_cons_self
    rcases step_held room sorted holds last (clock ▸ early) (by linarith) unlocked refreshes with
      there | full
    · exact there
    · exact absurd few (not_lt.mpr full)

theorem held_read (orderly : Orderly maxEntries s) (held : LockedOut client due s) (early : now < due) :
    ∃ attempts, (s.store.get client now).2 = some attempts ∧ loginMaxFailures ≤ attempts.length := by
  obtain ⟨e, named, lasts, trails⟩ := held
  obtain ⟨last, -, sound, -⟩ := orderly.swept
  have mem := mem_of_trails trails
  have found : s.store.find client = some e :=
    (find_iff sound.toTiered).mpr ⟨mem_rows.mpr (Or.inr mem), named⟩
  refine ⟨e.value, ?_, of_decide_eq_true (sound.guarded e mem)⟩
  rw [get_value sound.toTiered, found, Option.filter_some,
    if_pos (by simpa using lt_of_lt_of_le early lasts)]
  rfl

theorem counted_same {burst : List ℚ} (counted : BurstSeen client burst s) (passed : s.clock ≤ t.clock)
    (same : ∀ later, t.clock ≤ later →
      stored t.store client later = stored s.store client later) : BurstSeen client burst t := by
  refine ⟨fun u mem => le_trans (counted.past u mem) passed, ?_⟩
  intro later after
  rw [same later after]
  exact counted.found later (le_trans passed after)

theorem recent_stored_le (s : Traffic) (client : String) (passed : now ≤ later) :
    (recent (stored s.store client later) later).length ≤
      (recent (stored s.store client now) later).length := by
  cases found : s.store.find client with
  | none => simp [stored_none found]
  | some e =>
    rw [stored_some found, stored_some found]
    by_cases live : later < e.expiresAt
    · rw [if_pos live, if_pos (lt_of_le_of_lt passed live)]
    · rw [if_neg live]
      exact Nat.zero_le _

theorem counted_record {burst : List ℚ} (room : 2 ≤ maxEntries) (orderly : Orderly maxEntries s)
    (counted : BurstSeen client burst s) (passed : s.clock ≤ now) :
    BurstSeen client (burst ++ [now]) (s.next (loginAttempts maxEntries) (.record client now)) := by
  obtain ⟨swept, sweptWithin⟩ := swept_sweep orderly.swept passed
  obtain ⟨ordered, below⟩ := orderly_read orderly client passed
  have past : ∀ u ∈ burst ++ [now], u ≤ now := by
    intro u mem
    rcases List.mem_append.mp mem with old | new
    · exact le_trans (counted.past u old) passed
    · exact le_of_eq (List.mem_singleton.mp new)
  refine ⟨past, ?_⟩
  intro later after
  have fresh : (s.next (loginAttempts maxEntries) (.record client now)).store.find client =
      some ⟨client, now + loginLockoutSeconds, failed s client now⟩ :=
    (find_iff (write_sound room (ttl_pos maxEntries) swept sweptWithin client _).toTiered).mpr
      ⟨write_fresh room swept, rfl⟩
  rw [stored_some fresh]
  by_cases still : later < now + loginLockoutSeconds
  · have one : recent [now] later = [now] := by
      apply List.filter_eq_self.mpr
      intro u mem
      rw [List.mem_singleton.mp mem, decide_eq_true_eq]
      linarith
    have joined : ∀ xs : List ℚ, (recent (xs ++ [now]) later).length =
        (recent xs later).length + 1 := by
      intro xs
      rw [recent, List.filter_append, List.length_append]
      exact congrArg _ (congrArg List.length one)
    have sizes := congrArg List.length (same_record ordered below after rfl)
    rw [lastFailures_length, lastFailures_length, joined, ← failed_eq orderly] at sizes
    have more : (recent (stored s.store client later) later).length ≤
        (recent (stored s.store client now) later).length := recent_stored_le s client after
    have earlier := counted.found later (le_trans passed after)
    rw [if_pos still, joined]
    dsimp only
    omega
  · have gone : recent (burst ++ [now]) later = [] := by
      refine recent_gone fun u mem => ?_
      have le := past u mem
      linarith
    rw [gone]
    exact Nat.le_trans (Nat.min_le_right _ _) (Nat.zero_le _)

theorem step_counted_burst (room : 2 ≤ maxEntries) {burst : List ℚ} (orderly : Orderly maxEntries s)
    (counted : BurstSeen client burst s) (moved : TrafficMoves maxEntries s op t)
    (only : ∀ other now, op = .record other now → other = client)
    (kept : op ≠ .clear client op.now) :
    BurstSeen client (burst ++ op.failure?.toList) t := by
  obtain ⟨passed, rfl⟩ := moved
  obtain ⟨last, -, sound, -⟩ := orderly.swept
  cases op with
  | check other now =>
    rw [ThrottleOp.failure?, Option.toList_none, List.append_nil]
    refine counted_same counted passed fun later after => ?_
    simp only [Traffic.next, loginThrottleRetryAfter, get_store]
    exact stored_sweep sound.toTiered client after
  | clear other now =>
    have differ : client ≠ other := by
      rintro rfl
      exact kept rfl
    rw [ThrottleOp.failure?, Option.toList_none, List.append_nil]
    refine counted_same counted passed fun later after => ?_
    rw [← stored_sweep sound.toTiered client after]
    simp only [Traffic.next, clearFailedLogins, stored, pop_find sound.toTiered, if_neg differ]
  | record other now =>
    rw [only other now rfl]
    exact counted_record room orderly counted passed

theorem trace_counted_burst (room : 2 ≤ maxEntries) (orderly : Orderly maxEntries s)
    {ops : List ThrottleOp} (history : Trace (TrafficMoves maxEntries) s ops t)
    (only : ∀ other now, .record other now ∈ ops → other = client)
    (kept : ∀ now, .clear client now ∉ ops) :
    Orderly maxEntries t ∧ BurstSeen client (ops.filterMap ThrottleOp.failure?) t := by
  induction history with
  | nil =>
    refine ⟨orderly, ?_, ?_⟩
    · simp
    · intro later _
      exact Nat.le_trans (Nat.min_le_right _ _) (Nat.zero_le _)
  | snoc before last ih =>
    rename_i u v ops op
    obtain ⟨sorted, counted⟩ := ih (fun other now mem => only other now (List.mem_append_left _ mem))
      (fun now mem => kept now (List.mem_append_left _ mem))
    have final : op ∈ ops ++ [op] := List.mem_append_right _ (List.mem_singleton.mpr rfl)
    have counts := step_counted_burst room sorted counted last
      (fun other now same => only other now (same ▸ final)) (fun same => kept op.now (same ▸ final))
    refine ⟨step_orderly room sorted last, ?_⟩
    have joined : (ops ++ [op]).filterMap ThrottleOp.failure? =
        ops.filterMap ThrottleOp.failure? ++ op.failure?.toList := by
      rw [List.filterMap_append]
      cases op <;> rfl
    rw [joined]
    exact counts

end Steps

/-- With a cap of a hundred, whoever reached five failures is found with five until the sixty
    seconds are over, unless half the cap of other clients completed lockouts since, or the
    client itself failed again with fewer than four failures left in the window. And from any
    store five failures of one client in the window lock it out. -/
theorem lockout_survives_flood {maxEntries : Int} (room : 100 ≤ (loginAttempts maxEntries).cap)
    {opened : ℚ} {ops : List ThrottleOp} {s : Traffic}
    (history : Trace (TrafficMoves maxEntries) { clock := opened } ops s) :
    (∀ client t, s.clock ≤ t →
      loginMaxFailures ≤ (s.store.mutate (loginAttempts maxEntries) client (appendFailure t) t).2.length →
      ∀ later u, Trace (TrafficMoves maxEntries)
          { s.next (loginAttempts maxEntries) (.record client t) with written := [] } later u →
        (∀ now, .clear client now ∉ later) →
        (∀ attempts, (client, attempts) ∈ u.written → loginMaxFailures ≤ attempts.length) →
        (u.otherLockouts client).length < (loginAttempts maxEntries).cap / 2 →
        ∀ now, u.clock ≤ now → now < t + loginLockoutSeconds →
          ∃ attempts, (u.store.get client now).2 = some attempts ∧
            loginMaxFailures ≤ attempts.length) ∧
    (∀ client burst u, Trace (TrafficMoves maxEntries) s burst u →
      (∀ other now, .record other now ∈ burst → other = client) →
      (∀ now, .clear client now ∉ burst) →
      ∀ now, u.clock ≤ now →
        loginMaxFailures ≤ (recent (burst.filterMap ThrottleOp.failure?) now).length →
          0 < (loginThrottleRetryAfter u.store client now).2) := by
  have two : 2 ≤ maxEntries := two_le_of_cap room
  have orderly := trace_orderly two history
  constructor
  · intro client t passed reached later u after kept own few now current early
    have recorded : TrafficMoves maxEntries s (.record client t)
        (s.next (loginAttempts maxEntries) (.record client t)) := ⟨passed, rfl⟩
    obtain ⟨swept, lists⟩ := step_orderly two orderly recorded
    have watched : Orderly maxEntries
        { s.next (loginAttempts maxEntries) (.record client t) with written := [] } := ⟨swept, lists⟩
    obtain ⟨sound, -⟩ := swept_sweep orderly.swept passed
    have held : LockedOut client (t + loginLockoutSeconds)
        { s.next (loginAttempts maxEntries) (.record client t) with written := [] } :=
      ⟨_, rfl, le_refl _, trails_fresh two sound _ (decide_eq_true reached)⟩
    have share : (u.otherLockouts client).length < (loginAttempts maxEntries).protectedCap :=
      lt_of_lt_of_le few (Nat.le_max_right _ _)
    obtain ⟨still, holds, -⟩ := trace_held room watched held (le_refl _) after kept own share
      (lt_of_le_of_lt current early)
    exact held_read still holds early
  · intro client burst u after only kept now current many
    obtain ⟨still, counted⟩ := trace_counted_burst two orderly after only kept
    obtain ⟨last, -, sound, -⟩ := still.swept
    have found := counted.found now current
    rw [retryAfter_stored sound.toTiered]
    exact retryAfter_pos (by omega)

theorem trace_of_ordered {maxEntries : Int} {ops : List ThrottleOp} {s : Traffic}
    (ordered : (s.clock :: ops.map ThrottleOp.now).IsChain (· ≤ ·)) :
    Trace (TrafficMoves maxEntries) s ops (ops.foldl (Traffic.next (loginAttempts maxEntries)) s) := by
  induction ops generalizing s with
  | nil => exact Trace.nil
  | cons op ops ih =>
    obtain ⟨passed, rest⟩ := List.isChain_cons_cons.mp ordered
    refine trace_cons ⟨passed, rfl⟩ (ih ?_)
    have clock : (s.next (loginAttempts maxEntries) op).clock = op.now := by
      cases op <;> rfl
    rw [clock]
    exact rest

def Sample.fourTimes : Traffic :=
  [.record "eve" 0, .record "eve" 0, .record "eve" 0, .record "eve" 0].foldl
    (Traffic.next (loginAttempts 100)) { clock := 0 }

def Sample.fifth (instant : ℚ) : Traffic :=
  { Sample.fourTimes.next (loginAttempts 100) (.record "eve" instant) with written := [] }

theorem fourTimes_reached :
    Trace (TrafficMoves 100) { clock := 0 }
      [.record "eve" 0, .record "eve" 0, .record "eve" 0, .record "eve" 0] Sample.fourTimes :=
  trace_of_ordered (by decide +kernel)

def Sample.flood : List ThrottleOp :=
  .record "eve" 70 :: (List.range 100).map fun i => .record (toString i) 71

theorem own_failure_gives_the_entry_up :
    Trace (TrafficMoves 100) { clock := 0 }
      [.record "eve" 0, .record "eve" 0, .record "eve" 0, .record "eve" 0] Sample.fourTimes ∧
    (Sample.fourTimes.store.mutate (loginAttempts 100) "eve" (appendFailure 50) 50).2 =
      [0, 0, 0, 0, 50] ∧
    Trace (TrafficMoves 100) (Sample.fifth 50) Sample.flood
      (Sample.flood.foldl (Traffic.next (loginAttempts 100)) (Sample.fifth 50)) ∧
    (Sample.flood.foldl (Traffic.next (loginAttempts 100)) (Sample.fifth 50)).otherLockouts "eve" = [] ∧
    ((Sample.flood.foldl (Traffic.next (loginAttempts 100)) (Sample.fifth 50)).store.get "eve" 72).2 =
      none ∧
    (72 : ℚ) < 50 + loginLockoutSeconds :=
  ⟨fourTimes_reached, by decide +kernel, trace_of_ordered (by decide +kernel), by decide +kernel,
    by decide +kernel, by decide +kernel⟩

def Sample.burst : List ThrottleOp :=
  [.record "bob" 5, .record "bob" 6, .record "bob" 7, .record "bob" 8, .record "bob" 9]

theorem held_beside_a_newcomer :
    (∃ attempts, (((Sample.fifth 4).next (loginAttempts 100) (.record "bob" 5)).store.get "eve" 10).2 =
      some attempts ∧ loginMaxFailures ≤ attempts.length) ∧
    0 < (loginThrottleRetryAfter (Sample.burst.foldl (Traffic.next (loginAttempts 100))
      Sample.fourTimes).store "bob" 10).2 := by
  obtain ⟨held, newcomer⟩ := @lockout_survives_flood 100 (by decide) _ _ _ fourTimes_reached
  have after : Trace (TrafficMoves 100) (Sample.fifth 4) [.record "bob" 5]
      ((Sample.fifth 4).next (loginAttempts 100) (.record "bob" 5)) :=
    trace_of_ordered (by decide +kernel)
  constructor
  · refine held "eve" 4 (by decide +kernel) (by decide +kernel) _ _ after (by simp) ?_
      (by decide +kernel) 10 (by decide +kernel) (by decide +kernel)
    intro attempts mem
    have bobs : ((Sample.fifth 4).next (loginAttempts 100) (.record "bob" 5)).written =
        [("bob", [5])] := by decide +kernel
    rw [bobs] at mem
    simp at mem
  · refine newcomer "bob" Sample.burst _ (trace_of_ordered (by decide +kernel)) ?_ (by simp [Sample.burst])
      10 (by decide +kernel) (by decide +kernel)
    intro other now mem
    simp only [Sample.burst, List.mem_cons, List.not_mem_nil, or_false] at mem
    rcases mem with same | same | same | same | same <;> exact (ThrottleOp.record.inj same).1

end Pullbackup
