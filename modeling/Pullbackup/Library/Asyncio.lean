import Mathlib.Logic.Function.Basic
import Pullbackup.Library.KeyedTable

/- The synchronization primitives of a single-threaded event loop: tasks
   suspend on futures kept in FIFO queues, and a cancellation marks the future
   now and reaches its task when the task is resumed. The primitives store no
   owners; the ones kept here are what their rules speak about. -/
namespace Asyncio
open KeyedTable

universe u
variable {τ : Type u} [DecidableEq τ]

inductive Future where
  | pending | done | cancelled
  deriving DecidableEq, Repr

structure Waiter (τ : Type u) where
  task : τ
  future : Future := .pending
  deriving DecidableEq, Repr

instance : Keyed (Waiter τ) τ := ⟨Waiter.task⟩

omit [DecidableEq τ] in
@[simp] theorem key_waiter (w : Waiter τ) : Keyed.key w = w.task := rfl

abbrev Waiters (τ : Type u) := Table (Waiter τ)

/-- Settle a future that is still pending. -/
def Waiter.complete (f : Future) (w : Waiter τ) : Waiter τ :=
  if w.future = .pending then { w with future := f } else w

omit [DecidableEq τ] in
@[simp] theorem complete_task (f : Future) (w : Waiter τ) : (w.complete f).task = w.task := by
  unfold Waiter.complete
  split <;> rfl

omit [DecidableEq τ] in
theorem complete_settles {f : Future} (settles : f ≠ .pending) (w : Waiter τ) :
    (w.complete f).future ≠ .pending := by
  unfold Waiter.complete
  split
  · exact settles
  · assumption

omit [DecidableEq τ] in
theorem complete_done_cancelled {w : Waiter τ} (cancelled : (w.complete .done).future = .cancelled) :
    w.future = .cancelled := by
  unfold Waiter.complete at cancelled
  split at cancelled
  · cases cancelled
  · exact cancelled

def enqueue (q : Waiters τ) (t : τ) : Waiters τ := q.put ⟨t, .pending⟩

def interrupt (q : Waiters τ) (t : τ) : Waiters τ :=
  q.mapRows (fun w => if w.task = t then w.complete .cancelled else w)
    (by intro w; split <;> simp)

def wakeNext (q : Waiters τ) : Option (Waiters τ) :=
  (q.rows.find? fun w => w.future = .pending).map fun w => q.put ⟨w.task, .done⟩

def wakeAll (q : Waiters τ) : Waiters τ := q.mapRows (Waiter.complete .done) (by simp)

def Ready (q : Waiters τ) (t : τ) : Prop := ∃ w, q.get t = some w ∧ w.future ≠ .pending

/-- What a queue holds of a task: nothing, or a future that fits whether the task has been
    cancelled since it suspended. -/
def Awaits (q : Waiters τ) (t : τ) : Option Bool → Prop
  | none => q.get t = none
  | some cancelled => ∃ w, q.get t = some w ∧
      (w.future = .cancelled → cancelled = true) ∧ (cancelled = true → w.future ≠ .pending)

theorem awaits_congr {q q' : Waiters τ} {t : τ} {a : Option Bool} (same : q'.get t = q.get t)
    (awaits : Awaits q t a) : Awaits q' t a := by
  cases a with
  | none => exact same.trans awaits
  | some c =>
    obtain ⟨w, found, fits⟩ := awaits
    exact ⟨w, same.trans found, fits⟩

theorem get_enqueue (q : Waiters τ) (t u : τ) :
    (enqueue q t).get u = if t = u then some ⟨t, .pending⟩ else q.get u :=
  Table.get_put q _ u

theorem enqueue_awaits {q : Waiters τ} {a : τ → Option Bool} (waits : ∀ u, Awaits q u (a u))
    (t : τ) : ∀ u, Awaits (enqueue q t) u (Function.update a t (some false) u) := by
  intro u
  by_cases same : u = t
  · subst same
    rw [Function.update_self]
    exact ⟨⟨u, .pending⟩, by simp [get_enqueue], by simp, by simp⟩
  · rw [Function.update_of_ne same]
    exact awaits_congr (by simp [get_enqueue, Ne.symm same]) (waits u)

theorem erase_awaits {q : Waiters τ} {a : τ → Option Bool} (waits : ∀ u, Awaits q u (a u))
    (t : τ) : ∀ u, Awaits (q.erase t) u (Function.update a t none u) := by
  intro u
  by_cases same : u = t
  · subst same
    rw [Function.update_self]
    exact (Table.get_erase q u u).trans (if_pos rfl)
  · rw [Function.update_of_ne same]
    exact awaits_congr (by simp [Table.get_erase, same]) (waits u)

theorem get_interrupt (q : Waiters τ) (t u : τ) :
    (interrupt q t).get u =
      (q.get u).map fun w => if w.task = t then w.complete .cancelled else w :=
  Table.get_mapRows q _ _ u

theorem interrupt_awaits {q : Waiters τ} {a : τ → Option Bool} (waits : ∀ u, Awaits q u (a u))
    {t : τ} {c : Bool} (here : a t = some c) :
    ∀ u, Awaits (interrupt q t) u (Function.update a t (some true) u) := by
  intro u
  by_cases same : u = t
  · subst same
    have before := waits u
    rw [here] at before
    obtain ⟨w, found, -⟩ := before
    have owner : w.task = u := Table.key_of_get found
    rw [Function.update_self]
    exact ⟨w.complete .cancelled, by simp [get_interrupt, found, owner], by simp,
      fun _ => complete_settles (by simp) w⟩
  · rw [Function.update_of_ne same]
    refine awaits_congr ?_ (waits u)
    rw [get_interrupt]
    cases found : q.get u with
    | none => rfl
    | some w =>
      have owner : w.task = u := Table.key_of_get found
      simp [owner, same]

theorem wake_awaits {q : Waiters τ} {a : τ → Option Bool} (waits : ∀ u, Awaits q u (a u))
    {w : Waiter τ} (mem : w ∈ q.rows) :
    ∀ u, Awaits (q.put ⟨w.task, .done⟩) u (a u) := by
  intro u
  by_cases same : w.task = u
  · subst same
    have found : q.get w.task = some w := Table.get_of_mem mem
    cases awaited : a w.task with
    | none =>
      have gone := waits w.task
      rw [awaited, Awaits, found] at gone
      cases gone
    | some c => exact ⟨⟨w.task, .done⟩, by simp [Table.get_put], by simp, by simp⟩
  · exact awaits_congr (by simp [Table.get_put, same]) (waits u)

theorem get_wakeAll (q : Waiters τ) (t : τ) :
    (wakeAll q).get t = (q.get t).map (Waiter.complete .done) :=
  Table.get_mapRows q _ _ t

theorem wakeAll_awaits {q : Waiters τ} {a : τ → Option Bool} (waits : ∀ u, Awaits q u (a u)) :
    ∀ u, Awaits (wakeAll q) u (a u) := by
  intro u
  have before := waits u
  cases awaited : a u with
  | none =>
    rw [awaited, Awaits] at before
    simp [Awaits, get_wakeAll, before]
  | some c =>
    rw [awaited] at before
    obtain ⟨w, found, cancelled, settled⟩ := before
    exact ⟨w.complete .done, by rw [get_wakeAll, found]; rfl,
      fun late => cancelled (complete_done_cancelled late),
      fun _ => complete_settles (by simp) w⟩

theorem wakeNext_some {q q' : Waiters τ} (woken : wakeNext q = some q') :
    ∃ w ∈ q.rows, w.future = .pending ∧ q' = q.put ⟨w.task, .done⟩ := by
  obtain ⟨w, first, rfl⟩ := Option.map_eq_some_iff.mp woken
  exact ⟨w, List.mem_of_find?_eq_some first, by simpa using List.find?_some first, rfl⟩

theorem wakeNext_none {q : Waiters τ} (idle : wakeNext q = none) :
    ∀ w ∈ q.rows, w.future ≠ .pending := by
  simpa [wakeNext] using idle

/-- asyncio.Lock; holder is the flag of the lock and the task that set it. -/
structure Lock (τ : Type u) [DecidableEq τ] where
  holder : Option τ := none
  waiters : Waiters τ := .empty

namespace Lock

def tryAcquire (l : Lock τ) (t : τ) : Option (Lock τ) :=
  if l.holder = none ∧ l.waiters.rows.all (fun w => w.future = .cancelled) then
    some { l with holder := some t }
  else none

def suspend (l : Lock τ) (t : τ) : Lock τ := { l with waiters := enqueue l.waiters t }

/-- Make sure that the first waiter wakes up. -/
def wakeFirst (l : Lock τ) : Lock τ :=
  match l.waiters.rows with
  | [] => l
  | w :: _ => if w.future = .pending then { l with waiters := l.waiters.put ⟨w.task, .done⟩ } else l

def resume (l : Lock τ) (t : τ) : Lock τ := ⟨some t, l.waiters.erase t⟩

def abort (l : Lock τ) (t : τ) : Lock τ :=
  let l := { l with waiters := l.waiters.erase t }
  if l.holder = none then l.wakeFirst else l

def release (l : Lock τ) : Lock τ := wakeFirst { l with holder := none }

/-- A completed future is the first of a free lock, and the first future of a free lock is not
    pending. -/
structure Sound (l : Lock τ) : Prop where
  woken : ∀ w ∈ l.waiters.rows, w.future = .done →
    l.holder = none ∧ l.waiters.rows.head? = some w
  live : l.holder = none → ∀ w, l.waiters.rows.head? = some w → w.future ≠ .pending

/-- The lock is sound, held by the task that holds, and awaited by those that await. -/
structure Tracks (l : Lock τ) (holds : τ → Bool) (awaits : τ → Option Bool) : Prop where
  sound : l.Sound
  holder : ∀ t, l.holder = some t ↔ holds t = true
  waits : ∀ t, Awaits l.waiters t (awaits t)

variable {l l' : Lock τ} {holds : τ → Bool} {awaits : τ → Option Bool} {t : τ}

theorem tracks_new : Tracks ({} : Lock τ) (fun _ => false) (fun _ => none) := by
  constructor
  · exact ⟨by simp, by simp⟩
  · simp
  · intro t
    exact Table.get_empty t

theorem wakeFirst_holder (l : Lock τ) : l.wakeFirst.holder = l.holder := by
  unfold wakeFirst
  split
  · rfl
  · split <;> rfl

theorem wakeFirst_awaits (waits : ∀ u, Awaits l.waiters u (awaits u)) :
    ∀ u, Awaits l.wakeFirst.waiters u (awaits u) := by
  unfold wakeFirst
  split
  · exact waits
  · rename_i w ws shape
    split
    · exact wake_awaits waits (by simp [shape])
    · exact waits

theorem wakeFirst_sound (free : l.holder = none)
    (woken : ∀ w ∈ l.waiters.rows, w.future = .done → l.waiters.rows.head? = some w) :
    l.wakeFirst.Sound := by
  cases shape : l.waiters.rows with
  | nil =>
    have same : l.wakeFirst = l := by simp [wakeFirst, shape]
    rw [same]
    exact ⟨by simp [shape], by simp [shape]⟩
  | cons w ws =>
    rw [shape] at woken
    by_cases pending : w.future = .pending
    · have rows : l.wakeFirst.waiters.rows = ⟨w.task, .done⟩ :: ws := by
        simp [wakeFirst, shape, pending, Table.put, putRow]
      constructor
      · intro v mem done
        rw [rows] at mem ⊢
        refine ⟨(wakeFirst_holder l).trans free, ?_⟩
        rcases List.mem_cons.mp mem with same | tail
        · simp [same]
        · have first : w = v := by simpa using woken v (List.mem_cons_of_mem w tail) done
          rw [first, done] at pending
          cases pending
      · intro _ v first
        rw [rows] at first
        obtain rfl : ⟨w.task, .done⟩ = v := by simpa using first
        simp
    · have same : l.wakeFirst = l := by simp [wakeFirst, shape, pending]
      rw [same]
      constructor
      · intro v mem done
        rw [shape] at mem ⊢
        exact ⟨free, woken v mem done⟩
      · intro _ v first
        rw [shape] at first
        obtain rfl : w = v := by simpa using first
        exact pending

theorem erase_woken {q : Waiters τ}
    (woken : ∀ w ∈ q.rows, w.future = .done → q.rows.head? = some w) (t : τ) :
    ∀ w ∈ (q.erase t).rows, w.future = .done → (q.erase t).rows.head? = some w := by
  intro w mem done
  simp only [Table.erase, List.mem_filter] at mem ⊢
  have first := woken w mem.1 done
  cases shape : q.rows with
  | nil => simp [shape] at first
  | cons v vs =>
    rw [shape] at first
    obtain rfl : v = w := by simpa using first
    rw [List.filter_cons, if_pos mem.2, List.head?_cons]

theorem tracks_acquire (tracks : l.Tracks holds awaits) (taken : l.tryAcquire t = some l') :
    l'.Tracks (Function.update holds t true) awaits := by
  simp only [tryAcquire, Option.ite_none_right_eq_some, Option.some.injEq] at taken
  obtain ⟨⟨free, idle⟩, rfl⟩ := taken
  have unheld : ∀ u, holds u = false := by
    intro u
    have holder := tracks.holder u
    rw [free] at holder
    simpa using holder
  constructor
  · constructor
    · intro w mem done
      have cancelled : w.future = .cancelled := by simpa using List.all_eq_true.mp idle w mem
      rw [done] at cancelled
      cases cancelled
    · simp
  · intro u
    by_cases same : u = t
    · simp [same]
    · simp [Function.update_of_ne same, unheld u, Ne.symm same]
  · exact tracks.waits

theorem tracks_suspend (tracks : l.Tracks holds awaits) (busy : l.tryAcquire t = none)
    (new : awaits t = none) :
    (l.suspend t).Tracks holds (Function.update awaits t (some false)) := by
  have absent : l.waiters.get t = none := by
    have waits := tracks.waits t
    rwa [new] at waits
  have rows : (l.suspend t).waiters.rows = l.waiters.rows ++ [⟨t, .pending⟩] :=
    putRow_of_new fun w mem same => Table.get_eq_none_iff.mp absent w mem same
  constructor
  · constructor
    · intro w mem done
      rw [rows] at mem ⊢
      rcases List.mem_append.mp mem with old | new
      · obtain ⟨free, first⟩ := tracks.sound.woken w old done
        exact ⟨free, by simp [List.head?_append, first]⟩
      · rw [List.mem_singleton.mp new] at done
        cases done
    · intro free w first
      rw [rows, List.head?_append] at first
      cases shape : l.waiters.rows with
      | nil => simp [tryAcquire, shape, show l.holder = none from free] at busy
      | cons v vs =>
        rw [shape] at first
        exact tracks.sound.live free w (by rw [shape]; simpa using first)
  · exact tracks.holder
  · exact enqueue_awaits tracks.waits t

theorem tracks_resume (tracks : l.Tracks holds awaits) {w : Waiter τ}
    (found : l.waiters.get t = some w) (done : w.future = .done) :
    (l.resume t).Tracks (Function.update holds t true) (Function.update awaits t none) := by
  obtain ⟨free, first⟩ := tracks.sound.woken w (Table.mem_of_get found) done
  constructor
  · constructor
    · intro v mem late
      simp only [resume, Table.erase, List.mem_filter, decide_eq_true_eq] at mem
      obtain ⟨-, also⟩ := tracks.sound.woken v mem.1 late
      have same : v = w := Option.some.inj (also.symm.trans first)
      exact absurd (same ▸ Table.key_of_get found) mem.2
    · simp [resume]
  · intro u
    by_cases same : u = t
    · simp [same, resume]
    · have unheld : holds u = false := by
        have holder := tracks.holder u
        rw [free] at holder
        simpa using holder
      simp [resume, Function.update_of_ne same, unheld, Ne.symm same]
  · exact erase_awaits tracks.waits t

theorem tracks_abort (tracks : l.Tracks holds awaits) :
    (l.abort t).Tracks holds (Function.update awaits t none) := by
  have woken : ∀ w ∈ (l.waiters.erase t).rows, w.future = .done →
      (l.waiters.erase t).rows.head? = some w :=
    erase_woken (fun w mem done => (tracks.sound.woken w mem done).2) t
  have waits := erase_awaits tracks.waits t
  by_cases free : l.holder = none
  · simp only [abort, free, if_true]
    constructor
    · exact wakeFirst_sound rfl woken
    · intro u
      rw [wakeFirst_holder]
      exact free ▸ tracks.holder u
    · exact wakeFirst_awaits waits
  · simp only [abort, free, if_false]
    constructor
    · constructor
      · intro w mem done
        simp only [Table.erase, List.mem_filter] at mem
        exact absurd (tracks.sound.woken w mem.1 done).1 free
      · intro unheld
        exact absurd unheld free
    · exact tracks.holder
    · exact waits

theorem tracks_release (tracks : l.Tracks holds awaits) (held : holds t = true) :
    l.release.Tracks (Function.update holds t false) awaits := by
  have owner : l.holder = some t := (tracks.holder t).mpr held
  constructor
  · apply wakeFirst_sound rfl
    intro w mem done
    have free := (tracks.sound.woken w mem done).1
    rw [owner] at free
    cases free
  · intro u
    simp only [release, wakeFirst_holder]
    by_cases same : u = t
    · simp [same]
    · have other : ¬ holds u = true := fun also => by
        have owns := (tracks.holder u).mpr also
        rw [owner] at owns
        exact same (Option.some.inj owns).symm
      simp [Function.update_of_ne same, other]
  · exact wakeFirst_awaits tracks.waits

theorem tracks_interrupt (tracks : l.Tracks holds awaits) {c : Bool} (here : awaits t = some c) :
    ({ l with waiters := interrupt l.waiters t } : Lock τ).Tracks holds
      (Function.update awaits t (some true)) := by
  have shape : (interrupt l.waiters t).rows = l.waiters.rows.map fun w =>
    if w.task = t then w.complete .cancelled else w := rfl
  constructor
  · constructor
    · intro w mem done
      rw [shape] at mem
      obtain ⟨v, old, rfl⟩ := List.mem_map.mp mem
      have before : v.future = .done ∧ (if v.task = t then v.complete .cancelled else v) = v := by
        unfold Waiter.complete at done ⊢
        split at done
        · split at done
          · cases done
          · simp_all
        · simp_all
      obtain ⟨free, first⟩ := tracks.sound.woken v old before.1
      exact ⟨free, by rw [shape, List.head?_map, first]; rfl⟩
    · intro free w first
      rw [shape, List.head?_map] at first
      obtain ⟨v, head, rfl⟩ := Option.map_eq_some_iff.mp first
      have settled := tracks.sound.live free v head
      split
      · exact complete_settles (by simp) v
      · exact settled
  · exact tracks.holder
  · exact interrupt_awaits tracks.waits here

/-- Whoever waits for a lock waits for a holder or for a scheduled waiter. -/
theorem tracks_live (tracks : l.Tracks holds awaits) {c : Bool} (here : awaits t = some c) :
    ∃ u, holds u = true ∨ ((awaits u).isSome ∧ Ready l.waiters u) := by
  have waits := tracks.waits t
  rw [here] at waits
  obtain ⟨w, found, -⟩ := waits
  cases shape : l.waiters.rows with
  | nil => simp [Table.get, shape] at found
  | cons v vs =>
    cases owner : l.holder with
    | some u => exact ⟨u, Or.inl ((tracks.holder u).mp owner)⟩
    | none =>
      have head : l.waiters.get v.task = some v := Table.get_of_mem (by simp [shape])
      have awaited := tracks.waits v.task
      cases waiting : awaits v.task with
      | none =>
        rw [waiting, Awaits, head] at awaited
        cases awaited
      | some c =>
        exact ⟨v.task, Or.inr ⟨by simp [waiting], v, head,
          tracks.sound.live owner v (by simp [shape])⟩⟩

end Lock

/-- asyncio.Semaphore; a completed future already has its permit, and holders are the tasks past
    acquire that have not released. -/
structure Semaphore (τ : Type u) [DecidableEq τ] where
  value : Nat
  waiters : Waiters τ := .empty
  holders : List τ := []

namespace Semaphore

def locked (s : Semaphore τ) : Bool :=
  s.value = 0 || s.waiters.rows.any fun w => w.future ≠ .cancelled

def tryAcquire (s : Semaphore τ) (t : τ) : Option (Semaphore τ) :=
  if s.locked then none else some { s with value := s.value - 1, holders := t :: s.holders }

def suspend (s : Semaphore τ) (t : τ) : Semaphore τ := { s with waiters := enqueue s.waiters t }

/-- Hand out at most n permits to the waiters that are still pending. -/
def grant : Nat → Semaphore τ → Semaphore τ
  | 0, s => s
  | n + 1, s =>
    match wakeNext s.waiters with
    | none => s
    | some q => grant n { s with value := s.value - 1, waiters := q }

def resume (s : Semaphore τ) (t : τ) : Semaphore τ :=
  grant s.value { s with waiters := s.waiters.erase t, holders := t :: s.holders }

def abort (s : Semaphore τ) (t : τ) : Semaphore τ :=
  let value := if (s.waiters.get t).any fun w => w.future = .done then s.value + 1 else s.value
  grant value { s with value := value, waiters := s.waiters.erase t }

def release (s : Semaphore τ) (t : τ) : Semaphore τ :=
  grant 1 { s with value := s.value + 1, holders := s.holders.erase t }

def granted (s : Semaphore τ) : Nat := s.waiters.rows.countP fun w => w.future = .done

/-- Every permit is free, handed out or held by one task. -/
structure Counted (max : Nat) (s : Semaphore τ) : Prop where
  permits : s.value + s.holders.length + s.granted = max
  unique : s.holders.Nodup

/-- While a permit is free a pending waiter has a completed one to wake it. -/
def Live (s : Semaphore τ) : Prop :=
  0 < s.value → (∃ w ∈ s.waiters.rows, w.future = .pending) →
    ∃ w ∈ s.waiters.rows, w.future = .done

structure Tracks (max : Nat) (s : Semaphore τ) (holds : τ → Bool) (awaits : τ → Option Bool) :
    Prop where
  counted : s.Counted max
  live : s.Live
  holders : ∀ t, t ∈ s.holders ↔ holds t = true
  waits : ∀ t, Awaits s.waiters t (awaits t)

variable {max : Nat} {s s' : Semaphore τ} {holds : τ → Bool} {awaits : τ → Option Bool} {t : τ}

theorem tracks_new (max : Nat) :
    Tracks max ({ value := max } : Semaphore τ) (fun _ => false) (fun _ => none) := by
  constructor
  · exact ⟨by simp [granted], by simp⟩
  · simp [Live]
  · simp
  · intro t
    exact Table.get_empty t

theorem granted_wake {q : Waiters τ} {w : Waiter τ} (mem : w ∈ q.rows)
    (pending : w.future = .pending) :
    (q.put ⟨w.task, .done⟩).rows.countP (fun w => w.future = .done) =
      q.rows.countP (fun w => w.future = .done) + 1 := by
  have count := countP_putRow (fun w : Waiter τ => decide (w.future = .done))
    (r := ⟨w.task, .done⟩) q.unique mem rfl
  simpa [pending, Table.put] using count

theorem granted_erase {q : Waiters τ} {w : Waiter τ} (found : q.get t = some w) :
    (q.erase t).rows.countP (fun w => w.future = .done) + (if w.future = .done then 1 else 0) =
      q.rows.countP (fun w => w.future = .done) := by
  have count := countP_eraseRow (fun w : Waiter τ => decide (w.future = .done)) q.unique
    (Table.mem_of_get found) (Table.key_of_get found)
  simpa [Table.erase] using count

theorem grant_spec (n : Nat) (enough : n ≤ s.value) (counted : s.Counted max)
    (waits : ∀ u, Awaits s.waiters u (awaits u)) :
    (grant n s).Counted max ∧ (grant n s).holders = s.holders ∧
      ∀ u, Awaits (grant n s).waiters u (awaits u) := by
  induction n generalizing s with
  | zero => exact ⟨counted, rfl, waits⟩
  | succ n ih =>
    unfold grant
    split
    · exact ⟨counted, rfl, waits⟩
    · rename_i q woken
      obtain ⟨w, mem, pending, rfl⟩ := wakeNext_some woken
      refine ih (s := ⟨s.value - 1, s.waiters.put ⟨w.task, .done⟩, s.holders⟩) (by simp; omega)
        ⟨?_, counted.unique⟩ (wake_awaits waits mem)
      have permits := counted.permits
      have one := granted_wake mem pending
      simp only [granted] at permits ⊢
      omega

theorem grant_done (n : Nat) (there : ∃ w ∈ s.waiters.rows, w.future = .done) :
    ∃ w ∈ (grant n s).waiters.rows, w.future = .done := by
  induction n generalizing s with
  | zero => exact there
  | succ n ih =>
    unfold grant
    split
    · exact there
    · rename_i q woken
      obtain ⟨w, mem, pending, rfl⟩ := wakeNext_some woken
      exact ih ⟨⟨w.task, .done⟩, mem_putRow_self _ _, rfl⟩

/-- One grant is enough for the first promise. -/
theorem grant_live (n : Nat) (nonempty : 0 < n ∨ s.Live) : (grant n s).Live := by
  intro free pending
  cases n with
  | zero =>
    rcases nonempty with more | live
    · cases more
    · exact live free pending
  | succ n =>
    unfold grant at pending ⊢
    split at pending
    · rename_i idle
      obtain ⟨w, mem, here⟩ := pending
      exact absurd here (wakeNext_none idle w mem)
    · rename_i q woken
      obtain ⟨w, mem, -, rfl⟩ := wakeNext_some woken
      exact grant_done n ⟨⟨w.task, .done⟩, mem_putRow_self _ _, rfl⟩

theorem tracks_acquire (tracks : s.Tracks max holds awaits) (new : holds t = false)
    (taken : s.tryAcquire t = some s') :
    s'.Tracks max (Function.update holds t true) awaits := by
  simp only [tryAcquire, Option.ite_none_left_eq_some, Option.some.injEq] at taken
  obtain ⟨unlocked, rfl⟩ := taken
  simp only [locked, Bool.or_eq_true, decide_eq_true_eq, List.any_eq_true, not_or] at unlocked
  obtain ⟨free, idle⟩ := unlocked
  have absent : t ∉ s.holders := by simp [tracks.holders t, new]
  constructor
  · constructor
    · have permits := tracks.counted.permits
      simp only [granted, List.length_cons] at permits ⊢
      omega
    · exact List.nodup_cons.mpr ⟨absent, tracks.counted.unique⟩
  · intro _ pending
    obtain ⟨w, mem, here⟩ := pending
    exact absurd ⟨w, mem, by simp [here]⟩ idle
  · intro u
    by_cases same : u = t
    · simp [same]
    · simp [same, tracks.holders u]
  · exact tracks.waits

theorem tracks_suspend (tracks : s.Tracks max holds awaits) (busy : s.tryAcquire t = none)
    (new : awaits t = none) :
    (s.suspend t).Tracks max holds (Function.update awaits t (some false)) := by
  have absent : s.waiters.get t = none := by
    have waits := tracks.waits t
    rwa [new] at waits
  have rows : (s.suspend t).waiters.rows = s.waiters.rows ++ [⟨t, .pending⟩] :=
    putRow_of_new fun w mem same => Table.get_eq_none_iff.mp absent w mem same
  constructor
  · constructor
    · have permits := tracks.counted.permits
      simp only [granted, rows, List.countP_append] at permits ⊢
      simpa [suspend] using permits
    · exact tracks.counted.unique
  · intro free _
    have waiting : ∃ w ∈ s.waiters.rows, w.future ≠ .cancelled := by
      simpa [tryAcquire, locked, Nat.ne_of_gt (show 0 < s.value from free)] using busy
    obtain ⟨w, mem, here⟩ := waiting
    have done : ∃ w ∈ s.waiters.rows, w.future = .done := by
      cases future : w.future with
      | pending => exact tracks.live free ⟨w, mem, future⟩
      | done => exact ⟨w, mem, future⟩
      | cancelled => exact absurd future here
    obtain ⟨v, old, first⟩ := done
    exact ⟨v, by rw [rows]; exact List.mem_append_left _ old, first⟩
  · exact tracks.holders
  · exact enqueue_awaits tracks.waits t

theorem tracks_resume (tracks : s.Tracks max holds awaits) (new : holds t = false)
    {w : Waiter τ} (found : s.waiters.get t = some w) (done : w.future = .done) :
    (s.resume t).Tracks max (Function.update holds t true) (Function.update awaits t none) := by
  have absent : t ∉ s.holders := by simp [tracks.holders t, new]
  have counted : Counted max
      { s with waiters := s.waiters.erase t, holders := t :: s.holders } := by
    constructor
    · have permits := tracks.counted.permits
      have erased := granted_erase found
      simp only [granted, done, if_true, List.length_cons] at permits erased ⊢
      omega
    · exact List.nodup_cons.mpr ⟨absent, tracks.counted.unique⟩
  obtain ⟨counted', holders, waits⟩ := grant_spec
    (s := { s with waiters := s.waiters.erase t, holders := t :: s.holders })
    s.value (le_refl _) counted (erase_awaits tracks.waits t)
  constructor
  · exact counted'
  · apply grant_live
    by_cases free : 0 < s.value
    · exact Or.inl free
    · exact Or.inr fun free' => absurd free' free
  · intro u
    rw [resume, holders]
    by_cases same : u = t
    · simp [same]
    · simp [same, tracks.holders u]
  · exact waits

theorem tracks_abort (tracks : s.Tracks max holds awaits) {w : Waiter τ}
    (found : s.waiters.get t = some w) :
    (s.abort t).Tracks max holds (Function.update awaits t none) := by
  have counted : Counted max { s with
      value := if (s.waiters.get t).any fun w => w.future = .done then s.value + 1 else s.value
      waiters := s.waiters.erase t } := by
    constructor
    · have permits := tracks.counted.permits
      have erased := granted_erase found
      simp only [granted, found, Option.any_some, decide_eq_true_eq] at permits erased ⊢
      by_cases done : w.future = .done
      · simp only [done, if_true] at erased ⊢
        omega
      · simp only [done, if_false] at erased ⊢
        omega
    · exact tracks.counted.unique
  obtain ⟨counted', holders, waits⟩ := grant_spec
    (s := { s with
      value := if (s.waiters.get t).any fun w => w.future = .done then s.value + 1 else s.value
      waiters := s.waiters.erase t })
    _ (le_refl _) counted (erase_awaits tracks.waits t)
  constructor
  · exact counted'
  · apply grant_live
    split
    · exact Or.inl (by omega)
    · by_cases free : 0 < s.value
      · exact Or.inl free
      · exact Or.inr fun free' => absurd free' free
  · intro u
    rw [abort, holders]
    exact tracks.holders u
  · exact waits

theorem tracks_release (tracks : s.Tracks max holds awaits) (held : holds t = true) :
    (s.release t).Tracks max (Function.update holds t false) awaits := by
  have mem : t ∈ s.holders := (tracks.holders t).mpr held
  have counted : Counted max
      { s with value := s.value + 1, holders := s.holders.erase t } := by
    constructor
    · have permits := tracks.counted.permits
      have shorter := List.length_erase_of_mem mem
      have nonempty := List.length_pos_of_mem mem
      simp only [granted] at permits ⊢
      omega
    · exact tracks.counted.unique.erase t
  obtain ⟨counted', holders, waits⟩ := grant_spec
    (s := { s with value := s.value + 1, holders := s.holders.erase t })
    1 (by simp) counted tracks.waits
  constructor
  · exact counted'
  · exact grant_live 1 (Or.inl (by omega))
  · intro u
    rw [release, holders]
    by_cases same : u = t
    · simp [same, tracks.counted.unique.mem_erase_iff]
    · simp [tracks.counted.unique.mem_erase_iff, same, tracks.holders u]
  · exact waits

theorem tracks_interrupt (tracks : s.Tracks max holds awaits) {c : Bool}
    (here : awaits t = some c) :
    Tracks max { s with waiters := interrupt s.waiters t } holds
      (Function.update awaits t (some true)) := by
  have done_iff : ∀ w : Waiter τ,
      (if w.task = t then w.complete .cancelled else w).future = .done ↔ w.future = .done := by
    intro w
    unfold Waiter.complete
    split
    · split <;> simp_all
    · exact Iff.rfl
  have pending_imp : ∀ w : Waiter τ,
      (if w.task = t then w.complete .cancelled else w).future = .pending →
        w.future = .pending := by
    intro w
    unfold Waiter.complete
    split
    · split <;> simp_all
    · exact id
  constructor
  · constructor
    · have permits := tracks.counted.permits
      simp only [granted, interrupt, Table.mapRows, List.countP_map] at permits ⊢
      rw [← permits]
      congr 1
      exact List.countP_congr fun w _ => by simp [done_iff w]
    · exact tracks.counted.unique
  · intro free pending
    obtain ⟨w', mem', here'⟩ := pending
    obtain ⟨w, mem, rfl⟩ := List.mem_map.mp mem'
    obtain ⟨v, old, done⟩ := tracks.live free ⟨w, mem, pending_imp w here'⟩
    exact ⟨_, List.mem_map_of_mem old, (done_iff v).mpr done⟩
  · exact tracks.holders
  · exact interrupt_awaits tracks.waits here

theorem tracks_live (tracks : s.Tracks max holds awaits) (positive : 0 < max) {c : Bool}
    (here : awaits t = some c) :
    ∃ u, holds u = true ∨ ((awaits u).isSome ∧ Ready s.waiters u) := by
  have scheduled : ∀ w ∈ s.waiters.rows, w.future ≠ .pending →
      ∃ u, holds u = true ∨ ((awaits u).isSome ∧ Ready s.waiters u) := by
    intro w mem settled
    have found : s.waiters.get w.task = some w := Table.get_of_mem mem
    have awaited := tracks.waits w.task
    cases waiting : awaits w.task with
    | none =>
      rw [waiting, Awaits, found] at awaited
      cases awaited
    | some c => exact ⟨w.task, Or.inr ⟨by simp [waiting], w, found, settled⟩⟩
  have waits := tracks.waits t
  rw [here] at waits
  obtain ⟨w, found, -⟩ := waits
  have mem := Table.mem_of_get found
  by_cases pending : w.future = .pending
  · by_cases free : 0 < s.value
    · obtain ⟨v, old, done⟩ := tracks.live free ⟨w, mem, pending⟩
      exact scheduled v old (by simp [done])
    · have permits := tracks.counted.permits
      cases holders : s.holders with
      | nil =>
        have nonempty : 0 < s.granted := by
          simp only [holders, List.length_nil] at permits
          omega
        obtain ⟨v, old, done⟩ := List.countP_pos_iff.mp nonempty
        exact scheduled v old (by simp_all)
      | cons u us => exact ⟨u, Or.inl ((tracks.holders u).mp (by simp [holders]))⟩
  · exact scheduled w mem pending

/-- The tasks that hold a permit are never more than the permits. -/
theorem tracks_bound (tracks : s.Tracks max holds awaits) {ts : List τ} (unique : ts.Nodup)
    (all : ∀ t ∈ ts, holds t = true) : ts.length ≤ max := by
  have fewer : ts.length ≤ s.holders.length :=
    (List.subperm_of_subset unique fun t mem => (tracks.holders t).mpr (all t mem)).length_le
  have permits := tracks.counted.permits
  omega

end Semaphore

/-- asyncio.Condition: its lock, and the tasks waiting for a notification. -/
structure Condition (τ : Type u) [DecidableEq τ] where
  lock : Lock τ := {}
  waiters : Waiters τ := .empty

namespace Condition

def notify (c : Condition τ) : Condition τ :=
  { c with waiters := (wakeNext c.waiters).getD c.waiters }

def notifyAll (c : Condition τ) : Condition τ := { c with waiters := wakeAll c.waiters }

end Condition

end Asyncio
