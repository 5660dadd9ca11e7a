import Pullbackup.Execution

/- The key, the permit and the source lock of every execution. A position says
   what an execution holds and what it awaits, in the one order in which the
   three are taken; the tables and queues of the process agree with it. -/
namespace Pullbackup
open KeyedTable Asyncio

theorem conflicts_iff (left right : DestKey) :
    conflicts left right = true ↔ left <+: right ∨ right <+: left := by
  simp only [conflicts, beq_iff_eq]
  rcases Nat.le_total left.length right.length with shorter | shorter
  · rw [Nat.min_eq_left shorter, List.take_length]
    constructor
    · intro same
      exact Or.inl (List.prefix_iff_eq_take.mpr same)
    · rintro (before | before)
      · exact List.prefix_iff_eq_take.mp before
      · have same := before.eq_of_length_le shorter
        rw [same, List.take_length]
  · rw [Nat.min_eq_right shorter, List.take_length]
    constructor
    · intro same
      exact Or.inr (List.prefix_iff_eq_take.mpr same.symm)
    · rintro (before | before)
      · have same := before.eq_of_length_le shorter
        rw [same, List.take_length]
      · exact (List.prefix_iff_eq_take.mp before).symm

inductive Position where
  | outside
  | awaitingKey (key : DestKey) (cancelled : Bool)
  | keyed (key : DestKey)
  | awaitingPermit (key : DestKey) (cancelled : Bool)
  | permitted (key : DestKey)
  | awaitingSource (key : DestKey) (source : Nat) (cancelled : Bool)
  | inside (key : DestKey) (source : Nat)

namespace Position

def key : Position → Option DestKey
  | .outside | .awaitingKey _ _ => none
  | .keyed key | .awaitingPermit key _ | .permitted key | .awaitingSource key _ _
  | .inside key _ => some key

def holdsPermit : Position → Bool
  | .permitted _ | .awaitingSource _ _ _ | .inside _ _ => true
  | _ => false

def holdsSource (source : Nat) : Position → Bool
  | .inside _ held => held = source
  | _ => false

def awaitsKey : Position → Option Bool
  | .awaitingKey _ cancelled => some cancelled
  | _ => none

def awaitsPermit : Position → Option Bool
  | .awaitingPermit _ cancelled => some cancelled
  | _ => none

def awaitsSource (source : Nat) : Position → Option Bool
  | .awaitingSource _ wanted cancelled => if wanted = source then some cancelled else none
  | _ => none

end Position

def Phase.position : Phase → Position
  | .suspended .notification locals cancelled => .awaitingKey locals.key cancelled
  | .suspended .permit locals cancelled => .awaitingPermit locals.key cancelled
  | .suspended .sourceLock locals cancelled =>
    .awaitingSource locals.key locals.task.sourceId cancelled
  | .suspended (.work _) locals _ => .inside locals.key locals.task.sourceId
  | _ => .outside

def Phase.uncontended : Phase → Prop
  | .suspended .conditionLock _ _ | .suspended (.conditionLockAgain _) _ _
  | .suspended (.conditionLockToFree _) _ _ => False
  | _ => True

/-- The tables and the queues agree with the positions, and whoever waits unnotified waits for a
    destination that is still claimed. -/
structure Resources (limits : Limits) (pos : Nat → Position) (active : Table Claim)
    (waiters : Waiters Nat) (sem : Semaphore Nat) (locks : Nat → Lock Nat) : Prop where
  claims : ∀ e, (active.get e).map Claim.key = (pos e).key
  apart : ∀ c ∈ active.rows, ∀ d ∈ active.rows, c.holder ≠ d.holder →
    conflicts c.key d.key = false
  notices : ∀ e, Awaits waiters e (pos e).awaitsKey
  blocked : ∀ e key cancelled w, pos e = .awaitingKey key cancelled → waiters.get e = some w →
    w.future = .pending → destinationBusy active e key = true
  permits : sem.Tracks limits.maxConcurrentRuns (fun e => (pos e).holdsPermit)
    fun e => (pos e).awaitsPermit
  sources : ∀ s, (locks s).Tracks (fun e => (pos e).holdsSource s) fun e => (pos e).awaitsSource s

section Moves
variable {limits : Limits} {pos : Nat → Position} {active : Table Claim} {waiters : Waiters Nat}
  {sem sem' : Semaphore Nat} {locks : Nat → Lock Nat} {lock : Lock Nat} {e : Nat}
  {key : DestKey} {source : Nat} {cancelled : Bool} {y : Position}

theorem project_update {β : Type} (f : Position → β) (pos : Nat → Position) (e : Nat)
    (y : Position) :
    (fun i => f (Function.update pos e y i)) = Function.update (fun i => f (pos i)) e (f y) := by
  funext i
  by_cases same : i = e
  · simp [same]
  · simp [same]

theorem project_same {β : Type} {f : Position → β} (same : f y = f (pos e)) :
    (fun i => f (Function.update pos e y i)) = fun i => f (pos i) := by
  rw [project_update, same, Function.update_eq_self]

theorem woken_iff {q : Waiters Nat} :
    woken q e = true ↔ ∃ w, q.get e = some w ∧ w.future = .done := by
  simp [woken, Option.any_eq_true_iff_get, Option.eq_some_iff_get_eq]

theorem busy_iff : destinationBusy active e key = true ↔
    ∃ c ∈ active.rows, c.holder ≠ e ∧ conflicts key c.key = true := by
  simp [destinationBusy]

theorem Resources.steady (res : Resources limits pos active waiters sem locks)
    (key : y.key = (pos e).key) (mine : (pos e).awaitsKey = none) (new : y.awaitsKey = none)
    (permits : sem'.Tracks limits.maxConcurrentRuns
      (Function.update (fun i => (pos i).holdsPermit) e y.holdsPermit)
      (Function.update (fun i => (pos i).awaitsPermit) e y.awaitsPermit))
    {locks' : Nat → Lock Nat}
    (sources : ∀ s, (locks' s).Tracks
      (Function.update (fun i => (pos i).holdsSource s) e (y.holdsSource s))
      (Function.update (fun i => (pos i).awaitsSource s) e (y.awaitsSource s))) :
    Resources limits (Function.update pos e y) active waiters sem' locks' := by
  constructor
  · intro i
    rw [congrFun (project_same (f := Position.key) key) i]
    exact res.claims i
  · exact res.apart
  · intro i
    rw [congrFun (project_same (f := Position.awaitsKey) (new.trans mine.symm)) i]
    exact res.notices i
  · intro i wanted cancelled w here found pending
    by_cases same : i = e
    · subst same
      rw [Function.update_self] at here
      rw [here] at new
      cases new
    · rw [Function.update_of_ne same] at here
      exact res.blocked i wanted cancelled w here found pending
  · rw [project_update Position.holdsPermit, project_update Position.awaitsPermit]
    exact permits
  · intro s
    rw [project_update (Position.holdsSource s), project_update (Position.awaitsSource s)]
    exact sources s

theorem Resources.sources_same (res : Resources limits pos active waiters sem locks)
    (holds : ∀ s, y.holdsSource s = (pos e).holdsSource s)
    (awaits : ∀ s, y.awaitsSource s = (pos e).awaitsSource s) (s : Nat) :
    (locks s).Tracks (Function.update (fun i => (pos i).holdsSource s) e (y.holdsSource s))
      (Function.update (fun i => (pos i).awaitsSource s) e (y.awaitsSource s)) := by
  rw [holds s, awaits s, Function.update_eq_self, Function.update_eq_self]
  exact res.sources s

theorem Resources.permits_same (res : Resources limits pos active waiters sem locks)
    (holds : y.holdsPermit = (pos e).holdsPermit) (awaits : y.awaitsPermit = (pos e).awaitsPermit) :
    sem.Tracks limits.maxConcurrentRuns
      (Function.update (fun i => (pos i).holdsPermit) e y.holdsPermit)
      (Function.update (fun i => (pos i).awaitsPermit) e y.awaitsPermit) := by
  rw [holds, awaits, Function.update_eq_self, Function.update_eq_self]
  exact res.permits

theorem update_same {β : Type} {f : Nat → β} {v : β} (same : v = f e) :
    Function.update f e v = f := by rw [same, Function.update_eq_self]

theorem Resources.acquire_permit (res : Resources limits pos active waiters sem locks)
    (here : pos e = .keyed key) (taken : sem.tryAcquire e = some sem') :
    Resources limits (Function.update pos e (.permitted key)) active waiters sem' locks := by
  have tracks := Semaphore.tracks_acquire res.permits (by simp [here, Position.holdsPermit]) taken
  apply res.steady (by simp [here, Position.key]) (by simp [here, Position.awaitsKey]) rfl
  · rw [update_same (v := Position.awaitsPermit (.permitted key))
      (by simp [here, Position.awaitsPermit])]
    exact tracks
  · exact res.sources_same (by simp [here, Position.holdsSource])
      (by simp [here, Position.awaitsSource])

theorem Resources.await_permit (res : Resources limits pos active waiters sem locks)
    (here : pos e = .keyed key) (busy : sem.tryAcquire e = none) :
    Resources limits (Function.update pos e (.awaitingPermit key false)) active waiters
      (sem.suspend e) locks := by
  have tracks := Semaphore.tracks_suspend res.permits busy (by simp [here, Position.awaitsPermit])
  apply res.steady (by simp [here, Position.key]) (by simp [here, Position.awaitsKey]) rfl
  · rw [update_same (v := Position.holdsPermit (.awaitingPermit key false))
      (by simp [here, Position.holdsPermit])]
    exact tracks
  · exact res.sources_same (by simp [here, Position.holdsSource])
      (by simp [here, Position.awaitsSource])

theorem Resources.granted_permit (res : Resources limits pos active waiters sem locks)
    (here : pos e = .awaitingPermit key cancelled) (done : woken sem.waiters e = true) :
    Resources limits (Function.update pos e (.permitted key)) active waiters (sem.resume e)
      locks := by
  obtain ⟨w, found, granted⟩ := woken_iff.mp done
  have tracks := Semaphore.tracks_resume res.permits (by simp [here, Position.holdsPermit]) found
    granted
  exact res.steady (by simp [here, Position.key]) (by simp [here, Position.awaitsKey]) rfl tracks
    (res.sources_same (by simp [here, Position.holdsSource])
      (by simp [here, Position.awaitsSource]))

theorem Resources.abort_permit (res : Resources limits pos active waiters sem locks)
    (here : pos e = .awaitingPermit key cancelled) :
    Resources limits (Function.update pos e (.keyed key)) active waiters (sem.abort e) locks := by
  have waits := res.permits.waits e
  simp only [here, Position.awaitsPermit] at waits
  obtain ⟨w, found, -⟩ := waits
  have tracks := Semaphore.tracks_abort res.permits found
  apply res.steady (by simp [here, Position.key]) (by simp [here, Position.awaitsKey]) rfl
  · rw [update_same (v := Position.holdsPermit (.keyed key)) (by simp [here, Position.holdsPermit])]
    exact tracks
  · exact res.sources_same (by simp [here, Position.holdsSource])
      (by simp [here, Position.awaitsSource])

theorem Resources.release_permit (res : Resources limits pos active waiters sem locks)
    (here : pos e = .permitted key) :
    Resources limits (Function.update pos e (.keyed key)) active waiters (sem.release e)
      locks := by
  have tracks := Semaphore.tracks_release (t := e) res.permits (by simp [here, Position.holdsPermit])
  apply res.steady (by simp [here, Position.key]) (by simp [here, Position.awaitsKey]) rfl
  · rw [update_same (v := Position.awaitsPermit (.keyed key))
      (by simp [here, Position.awaitsPermit])]
    exact tracks
  · exact res.sources_same (by simp [here, Position.holdsSource])
      (by simp [here, Position.awaitsSource])

theorem Resources.relock (res : Resources limits pos active waiters sem locks)
    (key : y.key = (pos e).key) (mine : (pos e).awaitsKey = none) (new : y.awaitsKey = none)
    (permit : y.holdsPermit = (pos e).holdsPermit)
    (queued : y.awaitsPermit = (pos e).awaitsPermit)
    (holds : ∀ s, s ≠ source → y.holdsSource s = (pos e).holdsSource s)
    (awaits : ∀ s, s ≠ source → y.awaitsSource s = (pos e).awaitsSource s)
    (tracks : lock.Tracks
      (Function.update (fun i => (pos i).holdsSource source) e (y.holdsSource source))
      (Function.update (fun i => (pos i).awaitsSource source) e (y.awaitsSource source))) :
    Resources limits (Function.update pos e y) active waiters sem
      (Function.update locks source lock) := by
  apply res.steady key mine new (res.permits_same permit queued)
  intro s
  by_cases same : s = source
  · subst same
    rw [Function.update_self]
    exact tracks
  · rw [Function.update_of_ne same, holds s same, awaits s same, Function.update_eq_self,
      Function.update_eq_self]
    exact res.sources s

theorem Resources.acquire_source (res : Resources limits pos active waiters sem locks)
    (here : pos e = .permitted key) (taken : (locks source).tryAcquire e = some lock) :
    Resources limits (Function.update pos e (.inside key source)) active waiters sem
      (Function.update locks source lock) := by
  have tracks := Lock.tracks_acquire (res.sources source) taken
  refine res.relock (by simp [here, Position.key]) (by simp [here, Position.awaitsKey]) rfl
    (by simp [here, Position.holdsPermit]) (by simp [here, Position.awaitsPermit])
    (fun s other => by simp [here, Position.holdsSource, Ne.symm other])
    (fun s _ => by simp [here, Position.awaitsSource]) ?_
  rw [update_same (v := Position.awaitsSource source (.inside key source))
    (by simp [here, Position.awaitsSource])]
  simpa [Position.holdsSource] using tracks

theorem Resources.await_source (res : Resources limits pos active waiters sem locks)
    (here : pos e = .permitted key) (busy : (locks source).tryAcquire e = none) :
    Resources limits (Function.update pos e (.awaitingSource key source false)) active waiters sem
      (Function.update locks source ((locks source).suspend e)) := by
  have tracks := Lock.tracks_suspend (res.sources source) busy
    (by simp [here, Position.awaitsSource])
  refine res.relock (by simp [here, Position.key]) (by simp [here, Position.awaitsKey]) rfl
    (by simp [here, Position.holdsPermit]) (by simp [here, Position.awaitsPermit])
    (fun s _ => by simp [here, Position.holdsSource])
    (fun s other => by simp [here, Position.awaitsSource, Ne.symm other]) ?_
  rw [update_same (v := Position.holdsSource source (.awaitingSource key source false))
    (by simp [here, Position.holdsSource])]
  simpa [Position.awaitsSource] using tracks

theorem Resources.granted_source (res : Resources limits pos active waiters sem locks)
    (here : pos e = .awaitingSource key source cancelled)
    (done : woken (locks source).waiters e = true) :
    Resources limits (Function.update pos e (.inside key source)) active waiters sem
      (Function.update locks source ((locks source).resume e)) := by
  obtain ⟨w, found, granted⟩ := woken_iff.mp done
  have tracks := Lock.tracks_resume (res.sources source) found granted
  refine res.relock (by simp [here, Position.key]) (by simp [here, Position.awaitsKey]) rfl
    (by simp [here, Position.holdsPermit]) (by simp [here, Position.awaitsPermit])
    (fun s other => by simp [here, Position.holdsSource, Ne.symm other])
    (fun s other => by simp [here, Position.awaitsSource, Ne.symm other]) ?_
  simpa [Position.holdsSource, Position.awaitsSource] using tracks

theorem Resources.abort_source (res : Resources limits pos active waiters sem locks)
    (here : pos e = .awaitingSource key source cancelled) :
    Resources limits (Function.update pos e (.permitted key)) active waiters sem
      (Function.update locks source ((locks source).abort e)) := by
  have tracks := Lock.tracks_abort (t := e) (res.sources source)
  refine res.relock (by simp [here, Position.key]) (by simp [here, Position.awaitsKey]) rfl
    (by simp [here, Position.holdsPermit]) (by simp [here, Position.awaitsPermit])
    (fun s _ => by simp [here, Position.holdsSource])
    (fun s other => by simp [here, Position.awaitsSource, Ne.symm other]) ?_
  rw [update_same (v := Position.holdsSource source (.permitted key))
    (by simp [here, Position.holdsSource])]
  simpa [Position.awaitsSource] using tracks

theorem Resources.release_source (res : Resources limits pos active waiters sem locks)
    (here : pos e = .inside key source) :
    Resources limits (Function.update pos e (.permitted key)) active waiters sem
      (Function.update locks source (locks source).release) := by
  have tracks := Lock.tracks_release (t := e) (res.sources source)
    (by simp [here, Position.holdsSource])
  refine res.relock (by simp [here, Position.key]) (by simp [here, Position.awaitsKey]) rfl
    (by simp [here, Position.holdsPermit]) (by simp [here, Position.awaitsPermit])
    (fun s other => by simp [here, Position.holdsSource, Ne.symm other])
    (fun s _ => by simp [here, Position.awaitsSource]) ?_
  rw [update_same (v := Position.awaitsSource source (.permitted key))
    (by simp [here, Position.awaitsSource])]
  simpa [Position.holdsSource] using tracks

/-- A place before the limiter, with no part in the semaphore or in a source lock. -/
def Position.Outer (p : Position) : Prop :=
  p.holdsPermit = false ∧ p.awaitsPermit = none ∧
    ∀ s, p.holdsSource s = false ∧ p.awaitsSource s = none

@[simp] theorem outer_outside : Position.Outer .outside := ⟨rfl, rfl, fun _ => ⟨rfl, rfl⟩⟩

@[simp] theorem outer_awaitingKey (key : DestKey) (cancelled : Bool) :
    Position.Outer (.awaitingKey key cancelled) :=
  ⟨rfl, rfl, fun _ => ⟨rfl, rfl⟩⟩

@[simp] theorem outer_keyed (key : DestKey) : Position.Outer (.keyed key) :=
  ⟨rfl, rfl, fun _ => ⟨rfl, rfl⟩⟩

theorem Resources.rekey (res : Resources limits pos active waiters sem locks)
    {active' : Table Claim} {waiters' : Waiters Nat}
    (outer : (pos e).Outer) (outer' : y.Outer)
    (claims : ∀ i, (active'.get i).map Claim.key = (Function.update pos e y i).key)
    (apart : ∀ c ∈ active'.rows, ∀ d ∈ active'.rows, c.holder ≠ d.holder →
      conflicts c.key d.key = false)
    (notices : ∀ i, Awaits waiters' i
      (Function.update (fun i => (pos i).awaitsKey) e y.awaitsKey i))
    (blocked : ∀ i wanted cancelled w, Function.update pos e y i = .awaitingKey wanted cancelled →
      waiters'.get i = some w → w.future = .pending → destinationBusy active' i wanted = true) :
    Resources limits (Function.update pos e y) active' waiters' sem locks := by
  constructor
  · exact claims
  · exact apart
  · intro i
    rw [congrFun (project_update Position.awaitsKey pos e y) i]
    exact notices i
  · exact blocked
  · rw [project_update Position.holdsPermit, project_update Position.awaitsPermit]
    exact res.permits_same (outer'.1.trans outer.1.symm) (outer'.2.1.trans outer.2.1.symm)
  · intro s
    rw [project_update (Position.holdsSource s), project_update (Position.awaitsSource s)]
    exact res.sources_same (fun s => (outer'.2.2 s).1.trans (outer.2.2 s).1.symm)
      (fun s => (outer'.2.2 s).2.trans (outer.2.2 s).2.symm) s

theorem Resources.await_key (res : Resources limits pos active waiters sem locks)
    (here : pos e = .outside) (busy : destinationBusy active e key = true) :
    Resources limits (Function.update pos e (.awaitingKey key false)) active (enqueue waiters e) sem
      locks := by
  apply res.rekey
  · simp [here]
  · simp
  · intro i
    rw [congrFun (project_same (f := Position.key) (by simp [here, Position.key])) i]
    exact res.claims i
  · exact res.apart
  · exact enqueue_awaits res.notices e
  · intro i wanted cancelled w awaits found pending
    by_cases same : i = e
    · subst same
      rw [Function.update_self] at awaits
      cases awaits
      exact busy
    · rw [Function.update_of_ne same] at awaits
      rw [get_enqueue, if_neg (Ne.symm same)] at found
      exact res.blocked i wanted cancelled w awaits found pending

theorem Resources.noticed (res : Resources limits pos active waiters sem locks)
    (here : pos e = .awaitingKey key cancelled) :
    Resources limits (Function.update pos e .outside) active (waiters.erase e) sem locks := by
  apply res.rekey
  · simp [here]
  · simp
  · intro i
    rw [congrFun (project_same (f := Position.key) (by simp [here, Position.key])) i]
    exact res.claims i
  · exact res.apart
  · exact erase_awaits res.notices e
  · intro i wanted cancelled w awaits found pending
    by_cases same : i = e
    · subst same
      rw [Function.update_self] at awaits
      cases awaits
    · rw [Function.update_of_ne same] at awaits
      rw [Table.get_erase, if_neg same] at found
      exact res.blocked i wanted cancelled w awaits found pending

theorem Resources.claim (res : Resources limits pos active waiters sem locks)
    (here : pos e = .outside) (free : destinationBusy active e key = false) :
    Resources limits (Function.update pos e (.keyed key)) (active.put ⟨e, key⟩) waiters sem
      locks := by
  have unclaimed : active.get e = none := by
    have claims := res.claims e
    simpa [here, Position.key] using claims
  have others : ∀ c ∈ active.rows, c.holder ≠ e :=
    fun c mem => Table.get_eq_none_iff.mp unclaimed c mem
  have clear : ∀ c ∈ active.rows, conflicts key c.key = false := by
    intro c mem
    apply Bool.eq_false_iff.mpr
    intro clash
    rw [busy_iff.mpr ⟨c, mem, others c mem, clash⟩] at free
    cases free
  apply res.rekey
  · simp [here]
  · simp
  · intro i
    by_cases same : i = e
    · simp [same, Table.get_put, Position.key]
    · simp [same, Table.get_put, Ne.symm same, res.claims i]
  · intro c mc d md other
    rcases Table.mem_put_iff.mp mc with rfl | ⟨-, oldc⟩
    · rcases Table.mem_put_iff.mp md with rfl | ⟨-, oldd⟩
      · exact absurd rfl other
      · exact clear d oldd
    · rcases Table.mem_put_iff.mp md with rfl | ⟨-, oldd⟩
      · rw [conflicts_comm]
        exact clear c oldc
      · exact res.apart c oldc d oldd other
  · rw [update_same (by simp [here, Position.awaitsKey])]
    exact res.notices
  · intro i wanted cancelled w awaits found pending
    by_cases same : i = e
    · subst same
      rw [Function.update_self] at awaits
      cases awaits
    · rw [Function.update_of_ne same] at awaits
      obtain ⟨c, mem, other, clash⟩ :=
        busy_iff.mp (res.blocked i wanted cancelled w awaits found pending)
      exact busy_iff.mpr ⟨c, Table.mem_put_iff.mpr (Or.inr ⟨others c mem, mem⟩), other, clash⟩

/-- Every waiter is notified when a destination is freed. -/
theorem Resources.free (res : Resources limits pos active waiters sem locks)
    (here : pos e = .keyed key) :
    Resources limits (Function.update pos e .outside) (active.erase e) (wakeAll waiters) sem
      locks := by
  apply res.rekey
  · simp [here]
  · simp
  · intro i
    by_cases same : i = e
    · simp [same, Table.get_erase, Position.key]
    · simp [same, Table.get_erase, res.claims i]
  · intro c mc d md other
    exact res.apart c (List.mem_filter.mp mc).1 d (List.mem_filter.mp md).1 other
  · rw [update_same (by simp [here, Position.awaitsKey])]
    exact wakeAll_awaits res.notices
  · intro i wanted cancelled w awaits found pending
    rw [get_wakeAll] at found
    obtain ⟨v, -, rfl⟩ := Option.map_eq_some_iff.mp found
    exact absurd pending (complete_settles (by simp) v)

theorem Resources.interrupt_key (res : Resources limits pos active waiters sem locks)
    (here : pos e = .awaitingKey key cancelled) :
    Resources limits (Function.update pos e (.awaitingKey key true)) active (interrupt waiters e)
      sem locks := by
  apply res.rekey
  · simp [here]
  · simp
  · intro i
    rw [congrFun (project_same (f := Position.key) (by simp [here, Position.key])) i]
    exact res.claims i
  · exact res.apart
  · exact interrupt_awaits res.notices (by rw [here]; rfl)
  · intro i wanted flag w awaits found pending
    rw [get_interrupt] at found
    obtain ⟨v, before, rfl⟩ := Option.map_eq_some_iff.mp found
    split at pending
    · exact absurd pending (complete_settles (by simp) v)
    · rename_i other
      have owner : v.task = i := Table.key_of_get before
      rw [owner] at other
      rw [Function.update_of_ne other] at awaits
      exact res.blocked i wanted flag v awaits before pending

theorem Resources.interrupt_permit (res : Resources limits pos active waiters sem locks)
    (here : pos e = .awaitingPermit key cancelled) :
    Resources limits (Function.update pos e (.awaitingPermit key true)) active waiters
      { sem with waiters := interrupt sem.waiters e } locks := by
  have tracks := Semaphore.tracks_interrupt (t := e) (c := cancelled) res.permits
    (by rw [here]; rfl)
  apply res.steady (by simp [here, Position.key]) (by simp [here, Position.awaitsKey]) rfl
  · rw [update_same (v := Position.holdsPermit (.awaitingPermit key true))
      (by simp [here, Position.holdsPermit])]
    exact tracks
  · exact res.sources_same (by simp [here, Position.holdsSource])
      (by simp [here, Position.awaitsSource])

theorem Resources.interrupt_source (res : Resources limits pos active waiters sem locks)
    (here : pos e = .awaitingSource key source cancelled) :
    Resources limits (Function.update pos e (.awaitingSource key source true)) active waiters sem
      (Function.update locks source
        { locks source with waiters := interrupt (locks source).waiters e }) := by
  have tracks := Lock.tracks_interrupt (t := e) (c := cancelled) (res.sources source)
    (by simp [here, Position.awaitsSource])
  refine res.relock (by simp [here, Position.key]) (by simp [here, Position.awaitsKey]) rfl
    (by simp [here, Position.holdsPermit]) (by simp [here, Position.awaitsPermit])
    (fun s _ => by simp [here, Position.holdsSource])
    (fun s other => by simp [here, Position.awaitsSource, Ne.symm other]) ?_
  rw [update_same (v := Position.holdsSource source (.awaitingSource key source true))
    (by simp [here, Position.holdsSource])]
  simpa [Position.awaitsSource] using tracks

end Moves

/-- An execution between two suspensions stands at y and the condition's lock is as given; every
    other execution stands where its phase says. -/
def Flux (limits : Limits) (p : Process) (e : Nat) (y : Position) (lock : Lock Nat) : Prop :=
  Resources limits (Function.update (fun i => (p.phase i).position) e y) p.activeDestinations
      p.destinationCv.waiters p.globalSem p.sourceLocks ∧
    p.destinationCv.lock = lock ∧ ∀ i, i ≠ e → (p.phase i).uncontended

/-- Between two steps of the loop the condition's lock is free. -/
def Standing (limits : Limits) (p : Process) : Prop :=
  Resources limits (fun i => (p.phase i).position) p.activeDestinations p.destinationCv.waiters
      p.globalSem p.sourceLocks ∧
    p.destinationCv.lock = {} ∧ ∀ i, (p.phase i).uncontended

section Executions
variable {limits : Limits} {p p' : Process} {e : Nat} {y y' : Position} {locals : Locals} {w : World}
  {exit : Exit} {now : Int} {k : DestKey}

theorem standing_flux (standing : Standing limits p) (e : Nat) :
    Flux limits p e (p.phase e).position {} := by
  obtain ⟨resources, lock, uncontended⟩ := standing
  refine ⟨?_, lock, fun i _ => uncontended i⟩
  rw [update_same rfl]
  exact resources

theorem flux_standing {f : Phase} (flux : Flux limits p e f.position {})
    (uncontended : f.uncontended) :
    Standing limits { p with phase := Function.update p.phase e f } := by
  obtain ⟨resources, lock, others⟩ := flux
  have positions : (fun i => (Function.update p.phase e f i).position) =
      Function.update (fun i => (p.phase i).position) e f.position := by
    funext i
    by_cases same : i = e
    · simp [same]
    · simp [same]
  refine ⟨?_, lock, fun i => ?_⟩
  · rw [positions]
    exact resources
  · by_cases same : i = e
    · subst same
      simpa using uncontended
    · simpa [same] using others i same

/-- The lock nobody holds and nobody awaits is taken and released at once. -/
theorem lock_taken (lock : p.destinationCv.lock = {}) :
    p.destinationCv.lock.tryAcquire e = some { holder := some e } := by
  rw [lock]
  rfl

theorem lock_released : ({ holder := some e } : Lock Nat).release = {} := rfl

theorem suspend_standing {await : Await} (flux : Flux limits p e y {})
    (position : (Phase.suspended await locals false).position = y)
    (uncontended : (Phase.suspended await locals false).uncontended) :
    Standing limits (suspend p e await locals) := by
  subst position
  exact flux_standing flux uncontended

theorem leaveExecuteRun_standing (flux : Flux limits p e .outside {}) :
    Standing limits (leaveExecuteRun p e exit now) :=
  flux_standing (p := { p with
    db := (leaveExecuteRun p e exit now).db, runOwners := p.runOwners.erase e })
    (f := .ended) flux trivial

theorem leaveExclusion_standing (flux : Flux limits p e (.keyed k) {}) :
    Standing limits (leaveExclusion p e locals exit now) := by
  obtain ⟨resources, lock, others⟩ := flux
  rw [leaveExclusion, lock_taken lock]
  apply leaveExecuteRun_standing
  refine ⟨?_, lock_released, others⟩
  have freed := resources.free (Function.update_self e _ _)
  rw [Function.update_idem] at freed
  exact freed

theorem leavePermit_standing (flux : Flux limits p e (.permitted k) {}) :
    Standing limits (leavePermit p e locals exit now) := by
  obtain ⟨resources, lock, others⟩ := flux
  apply leaveExclusion_standing (k := k)
  refine ⟨?_, lock, others⟩
  have released := resources.release_permit (Function.update_self e _ _)
  rw [Function.update_idem] at released
  exact released

theorem leaveSource_standing (flux : Flux limits p e (.inside k locals.task.sourceId) {}) :
    Standing limits (leaveSource p e locals exit now) := by
  obtain ⟨resources, lock, others⟩ := flux
  apply leavePermit_standing (k := k)
  refine ⟨?_, lock, others⟩
  have released := resources.release_source (Function.update_self e _ _)
  rw [Function.update_idem] at released
  exact released

theorem conclude_standing {ending : Ending}
    (flux : Flux limits p e (.inside k locals.task.sourceId) {}) :
    Standing limits (conclude p e locals ending w) :=
  leaveSource_standing (k := k) flux

theorem executeBody_standing
    (flux : Flux limits p e (.inside locals.key locals.task.sourceId) {}) :
    Standing limits (executeBody p e locals w) := by
  unfold executeBody
  split
  · exact leaveSource_standing flux
  · exact leaveSource_standing flux
  · split
    · exact conclude_standing (k := locals.key) flux
    · exact leaveSource_standing (k := locals.key) flux
    · exact suspend_standing (y := .inside locals.key locals.task.sourceId) flux rfl trivial

theorem takeSource_standing (flux : Flux limits p e (.permitted locals.key) {}) :
    Standing limits (takeSource p e locals w) := by
  obtain ⟨resources, lock, others⟩ := flux
  simp only [takeSource]
  split
  · rename_i busy
    refine suspend_standing (y := .awaitingSource locals.key locals.task.sourceId false) ?_ rfl trivial
    refine ⟨?_, lock, others⟩
    have queued := resources.await_source (Function.update_self e _ _) busy
    rw [Function.update_idem] at queued
    exact queued
  · rename_i taken
    apply executeBody_standing
    refine ⟨?_, lock, others⟩
    have acquired := resources.acquire_source (Function.update_self e _ _) taken
    rw [Function.update_idem] at acquired
    exact acquired

theorem takePermit_standing (flux : Flux limits p e (.keyed locals.key) {}) :
    Standing limits (takePermit p e locals w) := by
  obtain ⟨resources, lock, others⟩ := flux
  unfold takePermit
  split
  · rename_i busy
    refine suspend_standing (y := .awaitingPermit locals.key false) ?_ rfl trivial
    refine ⟨?_, lock, others⟩
    have queued := resources.await_permit (Function.update_self e _ _) busy
    rw [Function.update_idem] at queued
    exact queued
  · rename_i taken
    apply takeSource_standing
    refine ⟨?_, lock, others⟩
    have acquired := resources.acquire_permit (Function.update_self e _ _) taken
    rw [Function.update_idem] at acquired
    exact acquired

theorem claimDestination_standing (flux : Flux limits p e .outside { holder := some e }) :
    Standing limits (claimDestination p e locals w) := by
  obtain ⟨resources, lock, others⟩ := flux
  unfold claimDestination
  split
  · rename_i busy
    refine suspend_standing (y := .awaitingKey locals.key false) ?_ rfl trivial
    refine ⟨?_, by rw [lock]; rfl, others⟩
    have queued := resources.await_key (Function.update_self e _ _) busy
    rw [Function.update_idem] at queued
    exact queued
  · rename_i free
    apply takePermit_standing
    refine ⟨?_, by rw [lock]; rfl, others⟩
    have claimed := resources.claim (Function.update_self e _ _) (Bool.eq_false_iff.mpr free)
    rw [Function.update_idem] at claimed
    exact claimed

theorem notify_resources {pos : Nat → Position} {active : Table Claim} {sem : Semaphore Nat}
    {locks : Nat → Lock Nat} {cv : Condition Nat}
    (resources : Resources limits pos active cv.waiters sem locks) :
    Resources limits pos active cv.notify.waiters sem locks := by
  unfold Condition.notify
  cases next : wakeNext cv.waiters with
  | none => exact resources
  | some q =>
    obtain ⟨first, mem, -, rfl⟩ := wakeNext_some next
    refine ⟨resources.claims, resources.apart, wake_awaits resources.notices mem, ?_,
      resources.permits, resources.sources⟩
    intro i key cancelled v here found pending
    by_cases same : first.task = i
    · subst same
      simp only [Option.getD_some, Table.get_put, key_waiter, if_true, Option.some.injEq] at found
      rw [← found] at pending
      cases pending
    · simp only [Option.getD_some, Table.get_put, key_waiter, same, if_false] at found
      exact resources.blocked i key cancelled v here found pending

theorem leaveWait_standing {cancelled : Bool}
    (flux : Flux limits p e .outside { holder := some e }) :
    Standing limits (leaveWait p e locals cancelled w) := by
  unfold leaveWait
  split
  · obtain ⟨resources, lock, others⟩ := flux
    apply leaveExecuteRun_standing
    refine ⟨notify_resources resources, ?_, others⟩
    show p.destinationCv.lock.release = {}
    rw [lock]
    rfl
  · exact claimDestination_standing flux

theorem lockAgain_standing {cancelled : Bool} (flux : Flux limits p e .outside {}) :
    Standing limits (lockAgain p e locals cancelled w) := by
  obtain ⟨resources, lock, others⟩ := flux
  rw [lockAgain, lock_taken lock]
  exact leaveWait_standing ⟨resources, rfl, others⟩

theorem enterExclusion_standing (flux : Flux limits p e .outside {}) :
    Standing limits (enterExclusion p e locals w) := by
  obtain ⟨resources, lock, others⟩ := flux
  rw [enterExclusion, lock_taken lock]
  exact claimDestination_standing ⟨resources, rfl, others⟩

theorem executeRun_standing (flux : Flux limits p e .outside {}) :
    Standing limits (executeRun p e w) := by
  simp only [executeRun]
  split
  · exact leaveExecuteRun_standing flux
  · exact enterExclusion_standing flux

theorem bodyStep_standing (flux : Flux limits p e (.inside locals.key locals.task.sourceId) {})
    (step : BodyStep p e locals w p') : Standing limits p' := by
  cases step with
  | awaits next => exact suspend_standing (y := .inside locals.key locals.task.sourceId) flux rfl trivial
  | concludes ending => exact conclude_standing flux
  | leaves fails => exact leaveSource_standing flux

theorem resumeAwait_standing {await : Await} {cancelled : Bool} (standing : Standing limits p)
    (phase : p.phase e = .suspended await locals cancelled)
    (resumed : resumeAwait limits p e locals cancelled w await = some p') :
    Standing limits p' := by
  have flux := standing_flux standing e
  have uncontended := standing.2.2 e
  rw [phase] at flux uncontended
  cases await with
  | conditionLock => exact uncontended.elim
  | conditionLockAgain before => exact uncontended.elim
  | conditionLockToFree exit => exact uncontended.elim
  | notification =>
    simp only [resumeAwait, Option.ite_none_right_eq_some, Option.some.injEq] at resumed
    obtain ⟨-, rfl⟩ := resumed
    apply lockAgain_standing
    refine ⟨?_, flux.2.1, flux.2.2⟩
    have noticed := flux.1.noticed (Function.update_self e _ _)
    rw [Function.update_idem] at noticed
    exact noticed
  | permit =>
    simp only [resumeAwait] at resumed
    split at resumed
    · cases resumed
      apply leaveExclusion_standing (k := locals.key)
      refine ⟨?_, flux.2.1, flux.2.2⟩
      have aborted := flux.1.abort_permit (Function.update_self e _ _)
      rw [Function.update_idem] at aborted
      exact aborted
    · simp only [Option.ite_none_right_eq_some, Option.some.injEq] at resumed
      obtain ⟨granted, rfl⟩ := resumed
      apply takeSource_standing
      refine ⟨?_, flux.2.1, flux.2.2⟩
      have acquired := flux.1.granted_permit (Function.update_self e _ _) granted
      rw [Function.update_idem] at acquired
      exact acquired
  | sourceLock =>
    simp only [resumeAwait] at resumed
    split at resumed
    · cases resumed
      apply leavePermit_standing (k := locals.key)
      refine ⟨?_, flux.2.1, flux.2.2⟩
      have aborted := flux.1.abort_source (Function.update_self e _ _)
      rw [Function.update_idem] at aborted
      exact aborted
    · simp only [Option.ite_none_right_eq_some, Option.some.injEq] at resumed
      obtain ⟨granted, rfl⟩ := resumed
      apply executeBody_standing
      refine ⟨?_, flux.2.1, flux.2.2⟩
      have acquired := flux.1.granted_source (Function.update_self e _ _) granted
      rw [Function.update_idem] at acquired
      exact acquired
  | work work => exact bodyStep_standing flux (resumeWork_step resumed)

theorem resume_standing (standing : Standing limits p) (resumed : resume limits p e w = some p') :
    Standing limits p' := by
  unfold resume at resumed
  split at resumed
  · cases resumed
  · cases resumed
  · rename_i created
    cases resumed
    have flux := standing_flux standing e
    rw [created] at flux
    exact flux_standing (f := .ended) flux trivial
  · rename_i created
    cases resumed
    have flux := standing_flux standing e
    rw [created] at flux
    exact executeRun_standing flux
  · rename_i await locals cancelled phase
    exact resumeAwait_standing standing phase resumed

theorem cancel_standing (standing : Standing limits p) (e : Nat) :
    Standing limits (cancel p e) := by
  have flux := standing_flux standing e
  have uncontended := standing.2.2 e
  unfold cancel
  split
  · exact standing
  · exact standing
  · rename_i before created
    rw [created] at flux
    exact flux_standing (f := .created true) flux trivial
  · rename_i await locals before phase
    rw [phase] at flux uncontended
    cases await with
    | conditionLock => exact uncontended.elim
    | conditionLockAgain again => exact uncontended.elim
    | conditionLockToFree exit => exact uncontended.elim
    | notification =>
      refine flux_standing (p := interruptAwait p e locals .notification)
        (f := .suspended .notification locals true) ?_ trivial
      refine ⟨?_, flux.2.1, flux.2.2⟩
      have marked := flux.1.interrupt_key (Function.update_self e _ _)
      rw [Function.update_idem] at marked
      exact marked
    | permit =>
      refine flux_standing (p := interruptAwait p e locals .permit)
        (f := .suspended .permit locals true) ?_ trivial
      refine ⟨?_, flux.2.1, flux.2.2⟩
      have marked := flux.1.interrupt_permit (Function.update_self e _ _)
      rw [Function.update_idem] at marked
      exact marked
    | sourceLock =>
      refine flux_standing (p := interruptAwait p e locals .sourceLock)
        (f := .suspended .sourceLock locals true) ?_ trivial
      refine ⟨?_, flux.2.1, flux.2.2⟩
      have marked := flux.1.interrupt_source (Function.update_self e _ _)
      rw [Function.update_idem] at marked
      exact marked
    | work work => exact flux_standing (f := .suspended (.work work) locals true) flux trivial

theorem step_standing {act : Act} (standing : Standing limits p)
    (moved : p.step limits act = some p') : Standing limits p' := by
  cases act with
  | admission task stamp =>
    cases moved
    exact standing
  | start run =>
    simp only [Process.step, Option.ite_none_right_eq_some, Option.some.injEq, startable,
      Bool.and_eq_true, decide_eq_true_eq] at moved
    obtain ⟨⟨absent, -⟩, rfl⟩ := moved
    have flux := standing_flux standing run
    rw [absent] at flux
    exact flux_standing (f := .created false) flux trivial
  | startFailed run now =>
    simp only [Process.step, Option.ite_none_right_eq_some, Option.some.injEq, startable,
      Bool.and_eq_true, decide_eq_true_eq] at moved
    obtain ⟨⟨absent, -⟩, rfl⟩ := moved
    have flux := standing_flux standing run
    rw [absent] at flux
    exact flux_standing
      (p := { p with db := (terminalizeOwnedRun p.db run OwnerExit.failedToStart.message false now).1 })
      (f := .ended) flux trivial
  | resume run world => exact resume_standing standing moved
  | cancel run =>
    cases moved
    exact cancel_standing standing run
  | cancelRun run =>
    cases moved
    unfold cancelRun
    split
    · exact standing
    · split
      · split
        · exact standing
        · rename_i owner _
          exact cancel_standing (p := { p with
            runOwners := p.runOwners.put { owner with cancelRequested := true } }) standing run
      · exact standing
  | cancelSettled run =>
    simp only [Process.step, cancelSettled] at moved
    split at moved
    · split at moved
      · cases moved
        exact standing
      · split at moved <;> (cases moved; exact standing)
    · cases moved
  | sweep now =>
    cases moved
    exact standing

theorem init_standing (limits : Limits) (db : Db) (now : Int) :
    Standing limits (Process.init limits db now) := by
  refine ⟨?_, rfl, fun _ => trivial⟩
  constructor
  · intro e
    rfl
  · intro c mem
    cases mem
  · intro e
    exact Table.get_empty e
  · intro e key cancelled waiter here
    cases here
  · exact Semaphore.tracks_new _
  · exact fun _ => Lock.tracks_new

theorem reachable_standing (reachable : ReachableFrom limits p) : Standing limits p := by
  obtain ⟨db, now, acts, history⟩ := reachable
  exact History.trace_invariant (Standing limits) (fun _ _ _ => step_standing) history
    (init_standing limits db now)

end Executions

end Pullbackup
