import Pullbackup.AuthStore
import Mathlib.Tactic.Linarith

/- http_auth.py: the throttle of failed logins, and the plain one that keeps every
   failure. -/
namespace Pullbackup
open KeyedTable ExpiryQueue History Numerals

def loginMaxFailures : Nat := 5

def loginLockoutSeconds : ℚ := 60

def loginAttempts (maxEntries : Int) : StoreConfig (List ℚ) :=
  ⟨loginLockoutSeconds, maxEntries, some fun attempts => decide (loginMaxFailures ≤ attempts.length)⟩

def recent (attempts : List ℚ) (now : ℚ) : List ℚ :=
  attempts.filter fun t => now - t < loginLockoutSeconds

def lastFailures (attempts : List ℚ) : List ℚ :=
  attempts.drop (attempts.length - loginMaxFailures)

def retryAfter (attempts : List ℚ) (now : ℚ) : Int :=
  let counted := recent attempts now
  if counted.length < loginMaxFailures then 0
  else
    match (lastFailures counted).head? with
    | none => 0
    | some oldest => max 1 (truncate (loginLockoutSeconds - (now - oldest) + 1))

def loginThrottleRetryAfter (store : ExpiringStore (List ℚ)) (client : String) (now : ℚ) :
    ExpiringStore (List ℚ) × Int :=
  let got := store.get client now
  (got.1, retryAfter (got.2.getD []) now)

def appendFailure (now : ℚ) (existing : Option (List ℚ)) : List ℚ :=
  lastFailures (recent (existing.getD []) now ++ [now])

def recordFailedLogin (c : StoreConfig (List ℚ)) (store : ExpiringStore (List ℚ)) (client : String)
    (now : ℚ) : ExpiringStore (List ℚ) :=
  (store.mutate c client (appendFailure now) now).1

def clearFailedLogins (store : ExpiringStore (List ℚ)) (client : String) (now : ℚ) :
    ExpiringStore (List ℚ) :=
  (store.pop client now).1

structure Failures where
  client : String
  times : List ℚ
  deriving DecidableEq, Repr

instance : Keyed Failures String := ⟨Failures.client⟩

@[simp] theorem key_failures (f : Failures) : Keyed.key f = f.client := rfl

abbrev PlainThrottle := Table Failures

namespace PlainThrottle

def times (p : PlainThrottle) (client : String) : List ℚ :=
  ((p.get client).map Failures.times).getD []

def record (p : PlainThrottle) (client : String) (now : ℚ) : PlainThrottle :=
  p.put ⟨client, times p client ++ [now]⟩

def live (p : PlainThrottle) (now : ℚ) : List String :=
  (p.rows.filter fun f => f.times.any fun t => now - t < loginLockoutSeconds).map Failures.client

end PlainThrottle

inductive ThrottleOp where
  | record (client : String) (now : ℚ)
  | check (client : String) (now : ℚ)
  | clear (client : String) (now : ℚ)

def ThrottleOp.now : ThrottleOp → ℚ
  | .record _ now | .check _ now | .clear _ now => now

/-- Both throttles, side by side. -/
structure Throttle where
  store : ExpiringStore (List ℚ) := {}
  plain : PlainThrottle := .empty
  clock : ℚ

def Throttle.next (c : StoreConfig (List ℚ)) (s : Throttle) : ThrottleOp → Throttle
  | .record client now =>
    { store := recordFailedLogin c s.store client now, plain := s.plain.record client now
      clock := now }
  | .check client now => { s with store := (loginThrottleRetryAfter s.store client now).1, clock := now }
  | .clear client now =>
    { store := clearFailedLogins s.store client now, plain := s.plain.erase client, clock := now }

section Lists
variable {xs ys : List ℚ} {now later : ℚ}

theorem lastFailures_length (xs : List ℚ) :
    (lastFailures xs).length = min xs.length loginMaxFailures := by
  rw [lastFailures, List.length_drop]
  omega

theorem lastFailures_short (short : xs.length ≤ loginMaxFailures) : lastFailures xs = xs := by
  rw [lastFailures, Nat.sub_eq_zero_of_le short, List.drop_zero]

theorem lastFailures_of_long (long : loginMaxFailures ≤ ys.length) :
    lastFailures (xs ++ ys) = lastFailures ys := by
  rw [lastFailures, lastFailures, List.length_append, List.drop_append,
    List.drop_eq_nil_of_le (by omega), List.nil_append]
  congr 1
  omega

theorem lastFailures_append (xs ys : List ℚ) :
    lastFailures (xs ++ ys) = lastFailures (lastFailures xs ++ ys) := by
  by_cases short : xs.length ≤ loginMaxFailures
  · rw [lastFailures_short short]
  · have whole : xs = xs.take (xs.length - loginMaxFailures) ++ lastFailures xs :=
      (List.take_append_drop _ xs).symm
    have size := lastFailures_length xs
    conv_lhs => rw [whole, List.append_assoc]
    exact lastFailures_of_long (by rw [List.length_append]; omega)

/-- In order, the failures that count are the last ones. -/
theorem lastFailures_recent (ordered : xs.Pairwise (· ≤ ·)) (now : ℚ) :
    lastFailures (recent (lastFailures xs) now) = lastFailures (recent xs now) := by
  have whole : xs = xs.take (xs.length - loginMaxFailures) ++ lastFailures xs :=
    (List.take_append_drop _ xs).symm
  have split : recent xs now =
      recent (xs.take (xs.length - loginMaxFailures)) now ++ recent (lastFailures xs) now := by
    conv_lhs => rw [whole]
    exact List.filter_append _ _
  by_cases older : recent (xs.take (xs.length - loginMaxFailures)) now = []
  · rw [split, older, List.nil_append]
  · obtain ⟨t, mem⟩ := List.exists_mem_of_ne_nil _ older
    obtain ⟨first, counts⟩ := List.mem_filter.mp mem
    have after : ∀ y ∈ lastFailures xs, t ≤ y := by
      rw [whole] at ordered
      exact fun y my => (List.pairwise_append.mp ordered).2.2 t first y my
    have all : recent (lastFailures xs) now = lastFailures xs := by
      apply List.filter_eq_self.mpr
      intro y my
      have late := after y my
      simp only [decide_eq_true_eq] at counts ⊢
      linarith
    have long : loginMaxFailures ≤ xs.length := by
      by_contra short
      rw [Nat.sub_eq_zero_of_le (by omega), List.take_zero] at first
      cases first
    have size := lastFailures_length xs
    rw [split, all, lastFailures_of_long (by omega)]

theorem recent_recent (passed : now ≤ later) (xs : List ℚ) :
    recent (recent xs now) later = recent xs later := by
  simp only [recent, List.filter_filter]
  apply List.filter_congr
  intro t _
  simp only [Bool.and_eq_decide, decide_eq_true_eq, decide_eq_decide]
  constructor
  · exact fun both => both.1
  · exact fun counts => ⟨counts, by linarith⟩

theorem countP_le_recent {start : ℚ} (times : List ℚ) (still : now < start + loginLockoutSeconds) :
    times.countP (fun t => decide (start ≤ t)) ≤ (recent times now).length := by
  rw [recent, ← List.countP_eq_length_filter]
  apply List.countP_mono_left
  intro t _ late
  simp only [decide_eq_true_eq] at late ⊢
  linarith

theorem recent_gone (gone : ∀ t ∈ xs, t + loginLockoutSeconds ≤ later) : recent xs later = [] := by
  apply List.filter_eq_nil_iff.mpr
  intro t mem
  have old := gone t mem
  simp only [decide_eq_true_eq]
  linarith

/-- The wait depends on the last failures that count. -/
theorem retryAfter_congr (same : lastFailures (recent xs now) = lastFailures (recent ys now)) :
    retryAfter xs now = retryAfter ys now := by
  have sizes := congrArg List.length same
  rw [lastFailures_length, lastFailures_length] at sizes
  simp only [retryAfter, same]
  by_cases few : (recent xs now).length < loginMaxFailures
  · rw [if_pos few, if_pos (by omega)]
  · rw [if_neg few, if_neg (by omega)]

end Lists

def stored (store : ExpiringStore (List ℚ)) (client : String) (now : ℚ) : List ℚ :=
  (((store.find client).filter fun e => now < e.expiresAt).map StoreEntry.value).getD []

/-- The entry of a client is as old as its last failure and holds none that is younger. -/
structure Shadows (e : StoreEntry (List ℚ)) (times : List ℚ) (clock : ℚ) : Prop where
  ordered : e.value.Pairwise (· ≤ ·)
  past : ∀ t ∈ e.value, t ≤ clock ∧ t + loginLockoutSeconds ≤ e.expiresAt
  last : ∀ t ∈ times, t + loginLockoutSeconds ≤ e.expiresAt
  touched : ∃ t ∈ times, e.expiresAt = t + loginLockoutSeconds

/-- The store and the full history agree on the failures that count. -/
structure Agrees (c : StoreConfig (List ℚ)) (s : Throttle) : Prop where
  swept : ExpiringStore.Swept c s.clock s.store
  entries : ∀ client e, s.store.find client = some e → Shadows e (s.plain.times client) s.clock
  past : ∀ client, ∀ t ∈ s.plain.times client, t ≤ s.clock
  inOrder : ∀ client, (s.plain.times client).Pairwise (· ≤ ·)
  same : ∀ client now, s.clock ≤ now →
    lastFailures (recent (stored s.store client now) now) =
      lastFailures (recent (s.plain.times client) now)

section Plain
variable {p : PlainThrottle} {client other : String} {now : ℚ}

theorem times_record : (p.record client now).times other =
    if other = client then p.times client ++ [now] else p.times other := by
  simp only [PlainThrottle.record, PlainThrottle.times, Table.get_put, key_failures]
  by_cases same : other = client
  · simp [same]
  · simp [same, Ne.symm same]

theorem times_erase : PlainThrottle.times (p.erase client) other =
    if other = client then [] else p.times other := by
  simp only [PlainThrottle.times, Table.get_erase]
  by_cases same : other = client
  · simp [same]
  · simp [same]

theorem mem_live_iff : client ∈ p.live now ↔ ∃ t ∈ p.times client, now - t < loginLockoutSeconds := by
  simp only [PlainThrottle.live, List.mem_map, List.mem_filter, List.any_eq_true, decide_eq_true_eq,
    PlainThrottle.times]
  constructor
  · rintro ⟨f, ⟨mem, t, here, counts⟩, rfl⟩
    have found : p.get f.client = some f := Table.get_of_mem mem
    exact ⟨t, by simpa [found] using here, counts⟩
  · rintro ⟨t, here, counts⟩
    cases found : p.get client with
    | none => simp [found] at here
    | some f =>
      obtain ⟨mem, named⟩ := Table.get_eq_some_iff.mp found
      exact ⟨f, ⟨mem, t, by simpa [found] using here, counts⟩, named⟩

end Plain

section Agreement
open ExpiringStore
variable {c : StoreConfig (List ℚ)} {s : Throttle} {client : String} {now later : ℚ}

section Reads
variable {store : ExpiringStore (List ℚ)} {last : ℚ}

theorem retryAfter_stored (tiered : Tiered c last store) (client : String) (now : ℚ) :
    (loginThrottleRetryAfter store client now).2 = retryAfter (stored store client now) now := by
  rw [loginThrottleRetryAfter, get_value tiered]
  rfl

theorem stored_read (tiered : Tiered c last store) (client : String) (now : ℚ) :
    (((store.sweep now).find client).map StoreEntry.value).getD [] = stored store client now := by
  rw [find_sweep tiered]
  rfl

theorem stored_sweep (tiered : Tiered c last store) (client : String) (passed : now ≤ later) :
    stored (store.sweep now) client later = stored store client later := by
  simp only [stored, find_sweep tiered, Option.filter_filter]
  congr 3
  funext e
  simp only [Bool.and_eq_decide, decide_eq_true_eq, decide_eq_decide]
  constructor
  · exact fun both => both.2
  · exact fun live => ⟨lt_of_le_of_lt passed live, live⟩

end Reads

theorem retryAfter_plain (agrees : Agrees c s) (client : String) (passed : s.clock ≤ now) :
    (loginThrottleRetryAfter s.store client now).2 = retryAfter (s.plain.times client) now := by
  obtain ⟨last, -, sound, -⟩ := agrees.swept
  rw [retryAfter_stored sound.toTiered]
  exact retryAfter_congr (agrees.same client now passed)

theorem stored_some {store : ExpiringStore (List ℚ)} {e : StoreEntry (List ℚ)}
    (found : store.find client = some e) (now : ℚ) :
    stored store client now = if now < e.expiresAt then e.value else [] := by
  simp only [stored, found, Option.filter]
  by_cases live : now < e.expiresAt
  · simp [live]
  · simp [live]

theorem stored_none {store : ExpiringStore (List ℚ)} (absent : store.find client = none) (now : ℚ) :
    stored store client now = [] := by
  simp [stored, absent]

theorem recent_stored (agrees : Agrees c s) (client : String) (passed : now ≤ later) :
    recent (stored s.store client now) later = recent (stored s.store client later) later := by
  cases found : s.store.find client with
  | none => rw [stored_none found, stored_none found]
  | some e =>
    have shadows := agrees.entries client e found
    rw [stored_some found, stored_some found]
    by_cases live : later < e.expiresAt
    · rw [if_pos live, if_pos (lt_of_le_of_lt passed live)]
    · have gone : recent e.value later = [] :=
        recent_gone fun t mem => le_trans (shadows.past t mem).2 (not_lt.mp live)
      rw [if_neg live]
      by_cases before : now < e.expiresAt
      · rw [if_pos before, gone]
        rfl
      · rw [if_neg before]

theorem stored_ordered (agrees : Agrees c s) (client : String) (passed : s.clock ≤ now) :
    (stored s.store client now).Pairwise (· ≤ ·) ∧ ∀ t ∈ stored s.store client now, t ≤ now := by
  cases found : s.store.find client with
  | none => simp [stored_none found]
  | some e =>
    have shadows := agrees.entries client e found
    rw [stored_some found]
    split
    · exact ⟨shadows.ordered, fun t mem => le_trans (shadows.past t mem).1 passed⟩
    · exact ⟨List.Pairwise.nil, fun t mem => by cases mem⟩

theorem shadows_later {e : StoreEntry (List ℚ)} {times : List ℚ} {clock : ℚ}
    (shadows : Shadows e times clock) (passed : clock ≤ now) : Shadows e times now := by
  refine ⟨shadows.ordered, ?_, shadows.last, shadows.touched⟩
  intro t mem
  exact ⟨le_trans (shadows.past t mem).1 passed, (shadows.past t mem).2⟩

theorem agrees_sweep (agrees : Agrees c s) (passed : s.clock ≤ now) :
    Agrees c { s with store := s.store.sweep now, clock := now } := by
  obtain ⟨last, before, sound, within⟩ := agrees.swept
  obtain ⟨swept, sweptWithin⟩ := swept_sweep agrees.swept passed
  refine ⟨⟨now, le_refl now, swept, sweptWithin⟩, ?_, ?_, ?_, ?_⟩
  · intro client e found
    rw [find_sweep sound.toTiered] at found
    exact shadows_later (agrees.entries client e (Option.filter_eq_some_iff.mp found).1) passed
  · exact fun client t mem => le_trans (agrees.past client t mem) passed
  · exact agrees.inOrder
  · intro client later after
    rw [stored_sweep sound.toTiered client after]
    exact agrees.same client later (le_trans passed after)

theorem agrees_check (agrees : Agrees c s) (client : String) (passed : s.clock ≤ now) :
    Agrees c (s.next c (.check client now)) := by
  have swept := agrees_sweep agrees passed
  simp only [Throttle.next, loginThrottleRetryAfter, get_store]
  exact swept

theorem agrees_clear (agrees : Agrees c s) (client : String) (passed : s.clock ≤ now) :
    Agrees c (s.next c (.clear client now)) := by
  have swept := agrees_sweep agrees passed
  obtain ⟨last, before, sound, within⟩ := agrees.swept
  obtain ⟨popped, fewer⟩ := pop_sound sound client now
  have find := fun other => pop_find sound.toTiered client now other
  refine ⟨⟨now, le_refl now, popped, ?_⟩, ?_, ?_, ?_, ?_⟩
  · exact fun e mem => sweep_within sound within (le_trans before passed) e (fewer e mem)
  · intro other e found
    simp only [Throttle.next, clearFailedLogins, find] at found
    split at found
    · cases found
    · rename_i differ
      have shadows := swept.entries other e found
      simpa only [Throttle.next, times_erase, if_neg differ] using shadows
  · intro other t mem
    simp only [Throttle.next, times_erase] at mem
    split at mem
    · cases mem
    · exact swept.past other t mem
  · intro other
    simp only [Throttle.next, times_erase]
    split
    · exact List.Pairwise.nil
    · exact agrees.inOrder other
  · intro other later after
    simp only [Throttle.next, times_erase, clearFailedLogins, stored, find]
    split
    · rfl
    · exact swept.same other later after

theorem appended_ordered {xs : List ℚ} (ordered : xs.Pairwise (· ≤ ·)) (below : ∀ t ∈ xs, t ≤ now) :
    (recent xs now ++ [now]).Pairwise (· ≤ ·) ∧ ∀ t ∈ recent xs now ++ [now], t ≤ now := by
  have before : ∀ t ∈ recent xs now, t ≤ now := fun t mem => below t (List.mem_of_mem_filter mem)
  constructor
  · apply List.pairwise_append.mpr
    refine ⟨ordered.sublist List.filter_sublist, List.pairwise_singleton _ _, ?_⟩
    intro t mem u single
    rw [List.mem_singleton.mp single]
    exact before t mem
  · intro t mem
    rcases List.mem_append.mp mem with old | new
    · exact before t old
    · exact le_of_eq (List.mem_singleton.mp new)

theorem same_record {xs ys : List ℚ} (ordered : xs.Pairwise (· ≤ ·)) (below : ∀ t ∈ xs, t ≤ now)
    (passed : now ≤ later)
    (same : lastFailures (recent xs later) = lastFailures (recent ys later)) :
    lastFailures (recent (lastFailures (recent xs now ++ [now])) later) =
      lastFailures (recent (ys ++ [now]) later) := by
  obtain ⟨sorted, -⟩ := appended_ordered ordered below
  have joined : ∀ zs : List ℚ, recent (zs ++ [now]) later = recent zs later ++ recent [now] later :=
    fun zs => List.filter_append zs [now]
  calc lastFailures (recent (lastFailures (recent xs now ++ [now])) later)
      = lastFailures (recent (recent xs now ++ [now]) later) := lastFailures_recent sorted later
    _ = lastFailures (recent xs later ++ recent [now] later) := by
        rw [joined, recent_recent passed]
    _ = lastFailures (lastFailures (recent xs later) ++ recent [now] later) :=
        lastFailures_append _ _
    _ = lastFailures (lastFailures (recent ys later) ++ recent [now] later) := by rw [same]
    _ = lastFailures (recent ys later ++ recent [now] later) := (lastFailures_append _ _).symm
    _ = lastFailures (recent (ys ++ [now]) later) := by rw [joined]

theorem past_record (agrees : Agrees c s) (passed : s.clock ≤ now) {other : String} {t : ℚ}
    (mem : t ∈ (s.plain.record client now).times other) : t ≤ now := by
  rw [times_record] at mem
  split at mem
  · rcases List.mem_append.mp mem with old | new
    · exact le_trans (agrees.past client t old) passed
    · exact le_of_eq (List.mem_singleton.mp new)
  · exact le_trans (agrees.past other t mem) passed

theorem inOrder_record (agrees : Agrees c s) (passed : s.clock ≤ now) (client other : String) :
    ((s.plain.record client now).times other).Pairwise (· ≤ ·) := by
  rw [times_record]
  split
  · apply List.pairwise_append.mpr
    refine ⟨agrees.inOrder client, List.pairwise_singleton _ _, ?_⟩
    intro t mem u single
    rw [List.mem_singleton.mp single]
    exact le_trans (agrees.past client t mem) passed
  · exact agrees.inOrder other

theorem shadows_record (agrees : Agrees c s) (client : String) (passed : s.clock ≤ now) :
    Shadows ⟨client, now + loginLockoutSeconds,
        lastFailures (recent (stored s.store client now) now ++ [now])⟩
      ((s.plain.record client now).times client) now := by
  obtain ⟨ordered, below⟩ := stored_ordered agrees client passed
  obtain ⟨sorted, before⟩ := appended_ordered ordered below
  have limit : ∀ t, t ≤ now → t + loginLockoutSeconds ≤ now + loginLockoutSeconds :=
    fun t le => add_le_add le (le_refl loginLockoutSeconds)
  constructor
  · exact sorted.sublist (List.drop_sublist _ _)
  · intro t mem
    have le := before t (List.mem_of_mem_drop mem)
    exact ⟨le, limit t le⟩
  · exact fun t mem => limit t (past_record agrees passed mem)
  · refine ⟨now, ?_, rfl⟩
    rw [times_record, if_pos rfl]
    exact List.mem_append_right _ (List.mem_singleton.mpr rfl)

theorem record_store {maxEntries : Int} (agrees : Agrees (loginAttempts maxEntries) s)
    (client : String) (passed : s.clock ≤ now)
    (fits : ((s.plain.record client now).live now).length ≤ (loginAttempts maxEntries).cap)
    (share : ((s.plain.record client now).live now).length ≤ (loginAttempts maxEntries).protectedCap) :
    Swept (loginAttempts maxEntries) now
        (recordFailedLogin (loginAttempts maxEntries) s.store client now) ∧
      ∀ other, (recordFailedLogin (loginAttempts maxEntries) s.store client now).find other =
        if other = client then
          some ⟨client, now + loginLockoutSeconds,
            lastFailures (recent (stored s.store client now) now ++ [now])⟩
        else (s.store.sweep now).find other := by
  obtain ⟨sound, within⟩ := swept_sweep agrees.swept passed
  have lives : (0 : ℚ) < (loginAttempts maxEntries).ttl := by
    simp only [loginAttempts, loginLockoutSeconds]
    norm_num
  have here : client ∈ (s.plain.record client now).live now := by
    refine mem_live_iff.mpr ⟨now, by simp [times_record], ?_⟩
    simp only [sub_self, loginLockoutSeconds]
    norm_num
  have covered : ∀ e ∈ (s.store.sweep now).rows, e.key ∈ (s.plain.record client now).live now := by
    intro e mem
    have shadows := (agrees_sweep agrees passed).entries e.key e
      ((find_iff sound.toTiered).mpr ⟨mem, rfl⟩)
    obtain ⟨t, old, touched⟩ := shadows.touched
    have live := sound.live e mem
    refine mem_live_iff.mpr ⟨t, ?_, by linarith⟩
    rw [times_record]
    split
    · rename_i same
      rw [← same]
      exact List.mem_append_left _ old
    · exact old
  obtain ⟨written, find⟩ := ExpiringStore.write_roomy
    (appendFailure now (((s.store.sweep now).find client).map StoreEntry.value))
    sound.toTiered within lives covered here fits fun _ => share
  have read : ((((s.store.sweep now).find client).map StoreEntry.value).getD []) =
      stored s.store client now := by
    obtain ⟨last, -, before, -⟩ := agrees.swept
    exact stored_read before.toTiered client now
  constructor
  · refine ⟨now, le_refl now, written, ?_⟩
    intro e mem
    have there : ExpiringStore.find _ e.key = some e := (find_iff written.toTiered).mpr ⟨mem, rfl⟩
    rw [find] at there
    split at there
    · rw [← Option.some.inj there]
    · exact within e ((find_iff sound.toTiered).mp there).1
  · intro other
    rw [← read]
    exact find other

theorem agrees_record {maxEntries : Int} (agrees : Agrees (loginAttempts maxEntries) s)
    (client : String) (passed : s.clock ≤ now)
    (fits : ((s.plain.record client now).live now).length ≤ (loginAttempts maxEntries).cap)
    (share : ((s.plain.record client now).live now).length ≤ (loginAttempts maxEntries).protectedCap) :
    Agrees (loginAttempts maxEntries) (s.next (loginAttempts maxEntries) (.record client now)) := by
  have swept := agrees_sweep agrees passed
  obtain ⟨written, find⟩ := record_store agrees client passed fits share
  refine ⟨written, ?_, fun other t mem => past_record agrees passed mem,
    inOrder_record agrees passed client, ?_⟩
  · intro other e there
    simp only [Throttle.next, find] at there
    split at there
    · rename_i same
      cases there
      rw [same]
      exact shadows_record agrees client passed
    · rename_i differ
      have shadows := swept.entries other e there
      simpa only [Throttle.next, times_record, if_neg differ] using shadows
  · intro other later after
    replace after : now ≤ later := after
    simp only [Throttle.next]
    by_cases same : other = client
    · subst same
      have there := find other
      rw [if_pos rfl] at there
      rw [stored_some there]
      split
      · obtain ⟨ordered, below⟩ := stored_ordered agrees other passed
        rw [times_record, if_pos rfl]
        apply same_record ordered below after
        rw [recent_stored agrees other after]
        exact agrees.same other later (le_trans passed after)
      · rename_i gone
        have expired : recent ((s.plain.record other now).times other) later = [] := by
          apply recent_gone
          intro t mem
          have old := past_record agrees passed mem
          linarith [not_lt.mp gone]
        rw [expired]
        rfl
    · rw [times_record, if_neg same, stored, find, if_neg same]
      exact swept.same other later after

theorem step_agrees {maxEntries : Int} {op : ThrottleOp} (agrees : Agrees (loginAttempts maxEntries) s)
    (passed : s.clock ≤ op.now)
    (fits : ((s.next (loginAttempts maxEntries) op).plain.live op.now).length ≤
      (loginAttempts maxEntries).cap)
    (share : ((s.next (loginAttempts maxEntries) op).plain.live op.now).length ≤
      (loginAttempts maxEntries).protectedCap) :
    Agrees (loginAttempts maxEntries) (s.next (loginAttempts maxEntries) op) := by
  cases op with
  | record client now => exact agrees_record agrees client passed fits share
  | clear client now => exact agrees_clear agrees client passed
  | check client now => exact agrees_check agrees client passed

theorem start_agrees (c : StoreConfig (List ℚ)) (start : ℚ) : Agrees c { clock := start } := by
  obtain ⟨sound, within⟩ := empty_sound c start 0
  have silent : ∀ client, PlainThrottle.times Table.empty client = [] := fun _ => rfl
  refine ⟨⟨start, le_refl start, sound, within⟩, ?_, ?_, ?_, ?_⟩
  · intro client e found
    cases found
  · intro client t mem
    rw [silent] at mem
    cases mem
  · intro client
    rw [silent]
    exact List.Pairwise.nil
  · intro client now passed
    rw [silent]
    rfl

/-- Fewer clients than half the cap fit in the store and in its protected share. -/
theorem fits_of_half {n : Nat} (half : 2 * n < c.cap) : n ≤ c.cap ∧ n ≤ c.protectedCap := by
  simp only [StoreConfig.protectedCap]
  omega

end Agreement

section Waits
variable {times : List ℚ} {now : ℚ}

theorem lastFailures_head (long : loginMaxFailures ≤ times.length) :
    ∃ before oldest rest, times = before ++ oldest :: rest ∧ (lastFailures times).head? = some oldest ∧
      rest.length + 1 = loginMaxFailures := by
  have size := lastFailures_length times
  cases last : lastFailures times with
  | nil =>
    rw [last, Nat.min_eq_right long] at size
    cases size
  | cons oldest rest =>
    refine ⟨times.take (times.length - loginMaxFailures), oldest, rest, ?_, rfl, ?_⟩
    · rw [← last]
      exact (List.take_append_drop _ _).symm
    · rw [last, Nat.min_eq_right long] at size
      exact size

theorem retryAfter_eq_zero_iff :
    retryAfter times now = 0 ↔ (recent times now).length < loginMaxFailures := by
  by_cases few : (recent times now).length < loginMaxFailures
  · simp [retryAfter, few]
  · obtain ⟨before, oldest, rest, -, head, -⟩ := lastFailures_head (not_lt.mp few)
    simp only [retryAfter, few, head, if_false, iff_false]
    omega

theorem retryAfter_pos (many : loginMaxFailures ≤ (recent times now).length) :
    0 < retryAfter times now := by
  obtain ⟨before, oldest, rest, -, head, -⟩ := lastFailures_head many
  simp only [retryAfter, not_lt.mpr many, head, if_false]
  omega

theorem retryAfter_elapsed (ordered : times.Pairwise (· ≤ ·)) (positive : 0 < retryAfter times now) :
    retryAfter times (now + retryAfter times now) = 0 := by
  have many : ¬ (recent times now).length < loginMaxFailures := fun few =>
    absurd (retryAfter_eq_zero_iff.mpr few) (by omega)
  obtain ⟨before, oldest, rest, whole, head, size⟩ := lastFailures_head (not_lt.mp many)
  have counts : now - oldest < loginLockoutSeconds := by
    have mem : oldest ∈ recent times now := by
      rw [whole]
      exact List.mem_append_right _ List.mem_cons_self
    simpa using (List.mem_filter.mp mem).2
  have wait : loginLockoutSeconds ≤ now + retryAfter times now - oldest := by
    have least : truncate (loginLockoutSeconds - (now - oldest) + 1) ≤ retryAfter times now := by
      simp only [retryAfter, many, head, if_false]
      exact le_max_right _ _
    have floor := Int.lt_floor_add_one (loginLockoutSeconds - (now - oldest) + 1)
    rw [truncate, if_pos (by linarith)] at least
    have cast : ((⌊loginLockoutSeconds - (now - oldest) + 1⌋ : Int) : ℚ) ≤ retryAfter times now :=
      Int.cast_le.mpr least
    linarith
  have passed : now ≤ now + retryAfter times now := by
    have cast : (0 : ℚ) < retryAfter times now := Int.cast_pos.mpr positive
    linarith
  apply retryAfter_eq_zero_iff.mpr
  have sorted : (before ++ oldest :: rest).Pairwise (· ≤ ·) :=
    whole ▸ ordered.sublist List.filter_sublist
  have gone : ∀ t, t ≤ oldest → ¬ now + retryAfter times now - t < loginLockoutSeconds := by
    intro t older
    linarith
  have nothing : recent (before ++ [oldest]) (now + retryAfter times now) = [] := by
    apply List.filter_eq_nil_iff.mpr
    intro t mem
    have older : t ≤ oldest := by
      rcases List.mem_append.mp mem with old | same
      · exact (List.pairwise_append.mp sorted).2.2 t old oldest List.mem_cons_self
      · exact le_of_eq (List.mem_singleton.mp same)
    simpa using not_lt.mp (gone t older)
  rw [← recent_recent passed, whole, List.append_cons, recent, List.filter_append]
  rw [recent] at nothing
  rw [nothing, List.nil_append]
  have small := List.length_filter_le
    (fun t => decide (now + retryAfter times now - t < loginLockoutSeconds)) rest
  omega

end Waits

/-- One operation on both, with fewer clients live than half the cap. -/
def ThrottleMoves (maxEntries : Int) (s : Throttle) (op : ThrottleOp) (t : Throttle) : Prop :=
  s.clock ≤ op.now ∧ t = s.next (loginAttempts maxEntries) op ∧
    2 * (t.plain.live t.clock).length < (loginAttempts maxEntries).cap

structure Attempt where
  client : String
  checkedAt : ℚ
  recordedAt : ℚ
  correct : Bool
  deriving DecidableEq, Repr

inductive LoginResponse where
  | tooMany (retryAfter : Int)
  | invalid
  | authenticated
  deriving DecidableEq, Repr

def login (c : StoreConfig (List ℚ)) (s : Throttle) (a : Attempt) : Throttle × LoginResponse :=
  let wait := (loginThrottleRetryAfter s.store a.client a.checkedAt).2
  let checked := s.next c (.check a.client a.checkedAt)
  if wait ≠ 0 then (checked, .tooMany wait)
  else if a.correct then (checked.next c (.clear a.client a.recordedAt), .authenticated)
  else (checked.next c (.record a.client a.recordedAt), .invalid)

structure Logins where
  throttle : Throttle
  passed : List Attempt := []

def Logins.next (c : StoreConfig (List ℚ)) (s : Logins) (a : Attempt) : Logins :=
  match login c s.throttle a with
  | (throttle, .tooMany _) => { s with throttle := throttle }
  | (throttle, _) => { throttle := throttle, passed := a :: s.passed }

def LoginMoves (maxEntries : Int) (s : Logins) (a : Attempt) (t : Logins) : Prop :=
  s.throttle.clock ≤ a.checkedAt ∧ a.checkedAt ≤ a.recordedAt ∧
    t = s.next (loginAttempts maxEntries) a ∧
    2 * (t.throttle.plain.live t.throttle.clock).length < (loginAttempts maxEntries).cap

def InWindow (start t : ℚ) : Prop := start ≤ t ∧ t < start + loginLockoutSeconds

instance (start t : ℚ) : Decidable (InWindow start t) := inferInstanceAs (Decidable (_ ∧ _))

/-- The wrong passwords of a client that got past a check in the window. -/
def Logins.failuresIn (s : Logins) (client : String) (start : ℚ) : List Attempt :=
  s.passed.filter fun a => a.client = client ∧ a.correct = false ∧ InWindow start a.checkedAt

def Logins.NoSuccessIn (s : Logins) (client : String) (start : ℚ) : Prop :=
  ∀ a ∈ s.passed, a.client = client → a.correct = true → ¬ InWindow start a.recordedAt

/-- While the window is open its failures are on the plain list. -/
structure Listed (client : String) (start : ℚ) (s : Logins) : Prop where
  past : ∀ a ∈ s.passed, a.checkedAt ≤ s.throttle.clock
  bound : s.NoSuccessIn client start → (s.failuresIn client start).length ≤ loginMaxFailures ∧
    (s.throttle.clock < start + loginLockoutSeconds → (s.failuresIn client start).length ≤
      (s.throttle.plain.times client).countP fun t => decide (start ≤ t))

section Windows
variable {maxEntries : Int} {s t : Logins} {a : Attempt} {client : String} {start : ℚ}

theorem login_cases (agrees : Agrees (loginAttempts maxEntries) s.throttle)
    (moved : LoginMoves maxEntries s a t) :
    Agrees (loginAttempts maxEntries) t.throttle ∧
    ((t.passed = s.passed ∧ t.throttle.clock = a.checkedAt ∧
        t.throttle.plain = s.throttle.plain) ∨
      (t.passed = a :: s.passed ∧ t.throttle.clock = a.recordedAt ∧
        (recent (s.throttle.plain.times a.client) a.checkedAt).length < loginMaxFailures ∧
        t.throttle.plain = if a.correct then s.throttle.plain.erase a.client
          else s.throttle.plain.record a.client a.recordedAt)) := by
  obtain ⟨before, recorded, rfl, half⟩ := moved
  have checked : Agrees (loginAttempts maxEntries)
      (s.throttle.next (loginAttempts maxEntries) (.check a.client a.checkedAt)) :=
    agrees_check agrees a.client before
  have reads := retryAfter_plain agrees a.client before
  simp only [Logins.next, login] at half ⊢
  by_cases waits : (loginThrottleRetryAfter s.throttle.store a.client a.checkedAt).2 = 0
  · rw [reads] at waits
    have few := retryAfter_eq_zero_iff.mp waits
    rw [reads, if_neg (not_not.mpr waits)] at half ⊢
    cases correct : a.correct with
    | true =>
      simp only [correct, if_true] at half ⊢
      exact ⟨agrees_clear checked a.client recorded, Or.inr ⟨trivial, rfl, few, rfl⟩⟩
    | false =>
      simp only [correct, Bool.false_eq_true, if_false] at half ⊢
      obtain ⟨fits, share⟩ := fits_of_half half
      exact ⟨agrees_record checked a.client recorded fits share, Or.inr ⟨trivial, rfl, few, rfl⟩⟩
  · rw [if_pos waits]
    exact ⟨checked, Or.inl ⟨rfl, rfl, rfl⟩⟩

theorem failuresIn_cons (client : String) (start : ℚ) (passed : t.passed = a :: s.passed) :
    (t.failuresIn client start).length = (s.failuresIn client start).length +
      if a.client = client ∧ a.correct = false ∧ InWindow start a.checkedAt then 1 else 0 := by
  simp only [Logins.failuresIn, passed, List.filter_cons]
  by_cases counts : a.client = client ∧ a.correct = false ∧ InWindow start a.checkedAt
  · simp [counts]
  · simp [counts]

theorem failuresIn_before (past : ∀ a ∈ s.passed, a.checkedAt ≤ s.throttle.clock)
    (before : s.throttle.clock < start) : s.failuresIn client start = [] := by
  apply List.filter_eq_nil_iff.mpr
  intro a mem
  have le := past a mem
  rw [decide_eq_true_eq]
  rintro ⟨-, -, late, -⟩
  linarith

theorem step_counted (agrees : Agrees (loginAttempts maxEntries) s.throttle)
    (counted : Listed client start s) (moved : LoginMoves maxEntries s a t) :
    Listed client start t := by
  have sequence := moved
  obtain ⟨before, recorded, -, -⟩ := sequence
  obtain ⟨-, ⟨passed, clock, plain⟩ | ⟨passed, clock, few, plain⟩⟩ := login_cases agrees moved
  · constructor
    · rw [passed, clock]
      exact fun b mem => le_trans (counted.past b mem) before
    · intro nothing
      rw [Logins.NoSuccessIn, passed] at nothing
      obtain ⟨bound, opened⟩ := counted.bound nothing
      have same : t.failuresIn client start = s.failuresIn client start := by
        simp only [Logins.failuresIn, passed]
      rw [same, clock, plain]
      exact ⟨bound, fun still => opened (lt_of_le_of_lt before still)⟩
  · have past : ∀ b ∈ t.passed, b.checkedAt ≤ t.throttle.clock := by
      rw [passed, clock]
      intro b mem
      rcases List.mem_cons.mp mem with rfl | old
      · exact recorded
      · exact le_trans (counted.past b old) (le_trans before recorded)
    refine ⟨past, ?_⟩
    intro nothing
    have earlier : s.NoSuccessIn client start := fun b mem =>
      nothing b (by rw [passed]; exact List.mem_cons_of_mem a mem)
    obtain ⟨bound, opened⟩ := counted.bound earlier
    have longer := failuresIn_cons client start passed
    rw [clock]
    by_cases own : a.client = client
    · subst own
      cases correct : a.correct with
      | true =>
        have outside := nothing a (by rw [passed]; exact List.mem_cons_self) rfl correct
        rw [if_neg (by simp [correct])] at longer
        refine ⟨by omega, ?_⟩
        intro still
        have early : a.recordedAt < start := by
          by_contra late
          exact outside ⟨not_lt.mp late, still⟩
        rw [failuresIn_before past (by rw [clock]; exact early)]
        exact Nat.zero_le _
      | false =>
        rw [correct, if_neg (by simp)] at plain
        have times : t.throttle.plain.times a.client =
            s.throttle.plain.times a.client ++ [a.recordedAt] := by
          rw [plain, times_record, if_pos rfl]
        rw [times, List.countP_append]
        by_cases inside : InWindow start a.checkedAt
        · have on := opened (lt_of_le_of_lt before inside.2)
          have seen := countP_le_recent (s.throttle.plain.times a.client) inside.2
          have new : [a.recordedAt].countP (fun t => decide (start ≤ t)) = 1 := by
            simp [le_trans inside.1 recorded]
          rw [if_pos ⟨rfl, correct, inside⟩] at longer
          exact ⟨by omega, fun _ => by omega⟩
        · rw [if_neg (fun counts => inside counts.2.2)] at longer
          refine ⟨by omega, fun still => ?_⟩
          have on := opened (lt_of_le_of_lt (le_trans before recorded) still)
          omega
    · have times : t.throttle.plain.times client = s.throttle.plain.times client := by
        rw [plain]
        split
        · rw [times_erase, if_neg (Ne.symm own)]
        · rw [times_record, if_neg (Ne.symm own)]
      rw [if_neg (fun counts => own counts.1)] at longer
      rw [times]
      exact ⟨by omega, fun still =>
        longer ▸ opened (lt_of_le_of_lt (le_trans before recorded) still)⟩

theorem trace_counted {opened : ℚ} {attempts : List Attempt}
    (history : Trace (LoginMoves maxEntries) { throttle := { clock := opened } } attempts s)
    (client : String) (start : ℚ) :
    Agrees (loginAttempts maxEntries) s.throttle ∧ Listed client start s := by
  refine trace_invariant
    (fun s => Agrees (loginAttempts maxEntries) s.throttle ∧ Listed client start s) ?_ history ?_
  · rintro s a t ⟨agrees, counted⟩ moved
    exact ⟨(login_cases agrees moved).1, step_counted agrees counted moved⟩
  · refine ⟨start_agrees _ opened, ?_, ?_⟩
    · intro a mem
      cases mem
    · exact fun _ => ⟨Nat.zero_le _, fun _ => Nat.zero_le _⟩

end Windows

theorem trace_agrees {maxEntries : Int} {start : ℚ} {ops : List ThrottleOp} {s : Throttle}
    (history : Trace (ThrottleMoves maxEntries) { clock := start } ops s) :
    Agrees (loginAttempts maxEntries) s := by
  refine trace_invariant (Agrees (loginAttempts maxEntries)) ?_ history (start_agrees _ start)
  rintro s op t agrees ⟨passed, rfl, half⟩
  have clock : (s.next (loginAttempts maxEntries) op).clock = op.now := by
    cases op <;> rfl
  rw [clock] at half
  obtain ⟨fits, share⟩ := fits_of_half half
  exact step_agrees agrees passed fits share

theorem times_without_record {maxEntries : Int} {ops : List ThrottleOp} {s t : Throttle}
    {client : String} (history : Trace (ThrottleMoves maxEntries) s ops t)
    (silent : ∀ now, .record client now ∉ ops) :
    t.plain.times client = s.plain.times client ∨ t.plain.times client = [] := by
  induction history with
  | nil => exact Or.inl rfl
  | snoc before last ih =>
    rename_i u v ops op
    have earlier := ih fun now mem => silent now (List.mem_append_left _ mem)
    have latest : ∀ now, op ≠ .record client now := fun now same =>
      silent now (List.mem_append_right _ (List.mem_singleton.mpr same.symm))
    obtain ⟨-, rfl, -⟩ := last
    cases op with
    | check other now => exact earlier
    | clear other now =>
      simp only [Throttle.next, times_erase]
      split
      · exact Or.inr rfl
      · exact earlier
    | record other now =>
      have differ : client ≠ other := fun same => latest now (same ▸ rfl)
      simp only [Throttle.next, times_record, if_neg differ]
      exact earlier

/-- While fewer clients are live than half the cap, the bounded throttle asks for the waits of
    the plain one. So at most five wrong passwords of a client get past the check in a window
    without a success, and a wait that is waited for is over. -/
theorem throttle_refines {maxEntries : Int} {start : ℚ} :
    (∀ ops s, Trace (ThrottleMoves maxEntries) { clock := start } ops s →
      ∀ client now, s.clock ≤ now → (loginThrottleRetryAfter s.store client now).2 =
        retryAfter (s.plain.times client) now) ∧
    (∀ attempts s, Trace (LoginMoves maxEntries) { throttle := { clock := start } } attempts s →
      ∀ client origin, s.NoSuccessIn client origin →
        (s.failuresIn client origin).length ≤ loginMaxFailures) ∧
    (∀ ops s, Trace (ThrottleMoves maxEntries) { clock := start } ops s →
      ∀ client now, s.clock ≤ now → 0 < (loginThrottleRetryAfter s.store client now).2 →
        ∀ later t, Trace (ThrottleMoves maxEntries) s (.check client now :: later) t →
          (∀ instant, .record client instant ∉ later) →
          t.clock ≤ now + (loginThrottleRetryAfter s.store client now).2 →
            (loginThrottleRetryAfter t.store client
              (now + (loginThrottleRetryAfter s.store client now).2)).2 = 0) := by
  refine ⟨?_, ?_, ?_⟩
  · intro ops s history client now passed
    exact retryAfter_plain (trace_agrees history) client passed
  · intro attempts s history client origin nothing
    exact ((trace_counted history client origin).2.bound nothing).1
  · intro ops s history client now passed waits later t rest silent due
    have agrees := trace_agrees history
    rw [retryAfter_plain agrees client passed] at waits due ⊢
    rw [retryAfter_plain (trace_agrees (trace_append history rest)) client due]
    rcases times_without_record rest (by
      intro instant mem
      rcases List.mem_cons.mp mem with same | mem
      · cases same
      · exact silent instant mem) with same | cleared
    · rw [same]
      exact retryAfter_elapsed (agrees.inOrder client) waits
    · rw [cleared]
      rfl

def Sample.strikes : List ThrottleOp :=
  [.record "eve" 0, .record "eve" 1, .record "eve" 2, .record "eve" 3, .record "eve" 4]

def Sample.struck : Throttle :=
  Sample.strikes.foldl (Throttle.next (loginAttempts 100)) { clock := 0 }

theorem locked_out_for_its_wait :
    ∃ t, Trace (ThrottleMoves 100) Sample.struck [.check "eve" 10] t ∧
      (loginThrottleRetryAfter Sample.struck.store "eve" 10).2 = 51 ∧
      retryAfter (Sample.struck.plain.times "eve") 10 = 51 ∧
      (loginThrottleRetryAfter t.store "eve" 61).2 = 0 := by
  have history : Trace (ThrottleMoves 100) { clock := 0 } Sample.strikes Sample.struck :=
    trace_cons ⟨by decide +kernel, rfl, by decide +kernel⟩ (trace_cons
      ⟨by decide +kernel, rfl, by decide +kernel⟩ (trace_cons
      ⟨by decide +kernel, rfl, by decide +kernel⟩ (trace_cons
      ⟨by decide +kernel, rfl, by decide +kernel⟩ (trace_single
      ⟨by decide +kernel, rfl, by decide +kernel⟩))))
  have wait : (loginThrottleRetryAfter Sample.struck.store "eve" 10).2 = 51 := by decide +kernel
  have check : Trace (ThrottleMoves 100) Sample.struck [.check "eve" 10]
      (Sample.struck.next (loginAttempts 100) (.check "eve" 10)) :=
    trace_single ⟨by decide +kernel, rfl, by decide +kernel⟩
  obtain ⟨same, -, isOver⟩ := @throttle_refines 100 0
  refine ⟨_, check, wait, ?_, ?_⟩
  · rw [← wait, same _ _ history "eve" 10 (by decide +kernel)]
  · have done := isOver _ _ history "eve" 10 (by decide +kernel) (by rw [wait]; decide) [] _ check
      (by simp) (by rw [wait]; decide +kernel)
    rw [wait] at done
    norm_num at done
    exact done

end Pullbackup
