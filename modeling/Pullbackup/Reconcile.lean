import Pullbackup.Registry

/- tools/kuma_reconcile.py over get_monitor and update_interval of services/kuma.py: every
   linked monitor is lined up with kuma_expiry_seconds, while nobody else edits one. -/
namespace Pullbackup.Reconcile
open KeyedTable

def retryAttempts : Nat := 3

inductive Action where
  | ok | update | updated | failed
  deriving DecidableEq, Repr

structure Item where
  taskId : Nat
  monitorId : Option Nat
  action : Action
  currentInterval : Option Int := none
  desiredInterval : Option Int := none
  monitorActive : Option Bool := none
  attempts : Nat := 0
  error : Option String := none
  deriving DecidableEq, Repr

structure Report where
  applied : Bool
  items : List Item := []
  deriving DecidableEq, Repr

def Report.ok (report : Report) : Bool := report.items.all fun item => item.action ≠ .failed

/-- A monitor as Kuma returns it; rest is everything the tool never names. -/
structure PushMonitor (ρ : Type) where
  id : Nat
  interval : Option Int
  active : Option Bool
  conditions : Option String
  acceptedStatuscodes : Option (List String)
  rest : ρ
  deriving DecidableEq, Repr

variable {ρ : Type}

instance : Keyed (PushMonitor ρ) Nat := ⟨PushMonitor.id⟩

@[simp] theorem key_pushMonitor (m : PushMonitor ρ) : Keyed.key m = m.id := rfl

/-- How one _call goes, with the class of what it raises: it may not arrive, be refused, be
    carried out without its answer coming back, or be answered. -/
inductive Delivery where
  | unreachable (error : String)
  | refused
  | lost (error : String)
  | answered
  deriving DecidableEq, Repr

/-- The monitors at Kuma and the number of calls made so far. -/
structure Link (ρ : Type) where
  monitors : Table (PushMonitor ρ)
  calls : Nat

def Link.called (k : Link ρ) : Link ρ := { k with calls := k.calls + 1 }

def callGet (wire : Nat → Delivery) (id : Nat) (k : Link ρ) :
    Except String (Option (PushMonitor ρ)) × Link ρ :=
  match wire k.calls with
  | .unreachable error | .lost error => (.error error, k.called)
  | .refused => (.ok none, k.called)
  | .answered => (.ok (k.monitors.get id), k.called)

/-- The monitors after an editMonitor that is carried out: one that Kuma has is replaced, one
    that it does not have is refused. -/
def edited (monitors : Table (PushMonitor ρ)) (m : PushMonitor ρ) : Option (Table (PushMonitor ρ)) :=
  if (monitors.get m.id).isSome then some (monitors.put m) else none

/-- _call("editMonitor", mon): whether edit.get("ok"). The empty dict names no monitor. -/
def callEdit (wire : Nat → Delivery) (mon : Option (PushMonitor ρ)) (k : Link ρ) :
    Except String Bool × Link ρ :=
  let stored := mon.bind (edited k.monitors)
  match wire k.calls with
  | .unreachable error => (.error error, k.called)
  | .refused => (.ok false, k.called)
  | .lost error => (.error error, { k.called with monitors := stored.getD k.monitors })
  | .answered => (.ok stored.isSome, { k.called with monitors := stored.getD k.monitors })

def getMonitor (wire : Nat → Delivery) (id : Nat) (k : Link ρ) :
    Except String (PushMonitor ρ) × Link ρ :=
  match callGet wire id k with
  | (.error error, k) => (.error error, k)
  | (.ok none, k) => (.error "RuntimeError", k)
  | (.ok (some m), k) => (.ok m, k)

/-- mon["interval"] = max(interval_s, 60), with the two checked fields re-asserted. -/
def PushMonitor.lined (interval : Int) (m : PushMonitor ρ) : PushMonitor ρ :=
  { m with
    interval := some (max interval 60)
    conditions := some (if m.conditions.getD "" = "" then "[]" else m.conditions.getD "")
    acceptedStatuscodes := some (if m.acceptedStatuscodes.getD [] = [] then ["200-299"]
      else m.acceptedStatuscodes.getD []) }

def acked : Except String Bool → Except String Unit
  | .error error => .error error
  | .ok false => .error "RuntimeError"
  | .ok true => .ok ()

def updateInterval (wire : Nat → Delivery) (id : Nat) (interval : Int) (k : Link ρ) :
    Except String Unit × Link ρ :=
  match callGet wire id k with
  | (.error error, k) => (.error error, k)
  | (.ok mon, k) =>
    let (edit, k) := callEdit wire (mon.map (PushMonitor.lined interval)) k
    (acked edit, k)

def targets (tasks : Table Task) : List Task :=
  tasks.rows.filter fun t => t.kumaEnabled ∧ t.monitored

/-- kuma_expiry_seconds as each task's turn comes. -/
def desired (croniter : Croniter) (wall : Nat → Int) (task : Task) : Int :=
  kumaExpirySeconds croniter task.cron (wall task.id)

def planItem (wire : Nat → Delivery) (desired : Task → Int) (task : Task) (k : Link ρ) :
    Item × Link ρ :=
  let item : Item :=
    { taskId := task.id, monitorId := task.kumaMonitorId, action := .ok
      desiredInterval := some (desired task) }
  match getMonitor wire (task.kumaMonitorId.getD 0) k with
  | (.error error, k) => ({ item with action := .failed, error := some error }, k)
  | (.ok m, k) =>
    let current := m.interval.getD 0
    ({ item with
      currentInterval := some current
      monitorActive := m.active
      action := if current ≠ max (desired task) 60 then .update else .ok }, k)

def planItems (wire : Nat → Delivery) (desired : Task → Int) :
    List Task → Link ρ → List Item × Link ρ
  | [], k => ([], k)
  | task :: tasks, k =>
    let (item, k) := planItem wire desired task k
    let (items, k) := planItems wire desired tasks k
    (item :: items, k)

def plan (wire : Nat → Delivery) (desired : Task → Int) (tasks : Table Task) (k : Link ρ) :
    Report × Link ρ :=
  let (items, k) := planItems wire desired (targets tasks) k
  ({ applied := false, items := items }, k)

def attempts (wire : Nat → Delivery) (item : Item) (attempt : Nat) :
    Nat → Link ρ → Item × List Nat × Link ρ
  | 0, k => (item, [], k)
  | left + 1, k =>
    match updateInterval wire (item.monitorId.getD 0) (item.desiredInterval.getD 0) k with
    | (.ok (), k) =>
      ({ item with attempts := attempt, action := .updated, error := none }, [], k)
    | (.error error, k) =>
      let item := { item with attempts := attempt, action := .failed, error := some error }
      let (final, slept, k) := attempts wire item (attempt + 1) left k
      (final, if attempt < retryAttempts then 2 * attempt :: slept else slept, k)

def applyItem (wire : Nat → Delivery) (item : Item) (k : Link ρ) : Item × List Nat × Link ρ :=
  if item.action ≠ .update then (item, [], k) else attempts wire item 1 retryAttempts k

def applyItems (wire : Nat → Delivery) : List Item → Link ρ → List Item × List Nat × Link ρ
  | [], k => ([], [], k)
  | item :: items, k =>
    let (item, slept, k) := applyItem wire item k
    let (items, more, k) := applyItems wire items k
    (item :: items, slept ++ more, k)

def apply (wire : Nat → Delivery) (desired : Task → Int) (tasks : Table Task) (k : Link ρ) :
    Report × List Nat × Link ρ :=
  let (report, k) := plan wire desired tasks k
  let (items, slept, k) := applyItems wire report.items k
  ({ applied := true, items := items }, slept, k)

def main (configured : Bool) (args : List String) (wire : Nat → Delivery) (desired : Task → Int)
    (tasks : Table Task) (k : Link ρ) : Nat × Option Report × Link ρ :=
  if configured = false then (2, none, k)
  else
    let (report, k) :=
      if args.contains "--apply" then
        let (report, _, k) := apply wire desired tasks k
        (report, k)
      else plan wire desired tasks k
    (if report.ok then 0 else 1, some report, k)

/-- Every monitor is as it was, or is lined up with an interval that is wanted for it. -/
def Kept (wanted : Nat → Int → Prop) (before after : Table (PushMonitor ρ)) : Prop :=
  ∀ id, after.get id = before.get id ∨
    ∃ interval, wanted id interval ∧ after.get id = (before.get id).map (PushMonitor.lined interval)

/-- The task's monitor is there and expires when it should. -/
def LinedUp (desired : Task → Int) (monitors : Table (PushMonitor ρ)) (task : Task) : Prop :=
  ∃ m, monitors.get (task.kumaMonitorId.getD 0) = some m ∧
    m.interval.getD 0 = max (desired task) 60

section Frame
variable {wanted wider : Nat → Int → Prop} {before between after : Table (PushMonitor ρ)}
  {desired : Task → Int} {task : Task}

@[simp] theorem lined_lined (i j : Int) (m : PushMonitor ρ) :
    (m.lined i).lined j = m.lined j := by
  have checked : ∀ {α : Type} [DecidableEq α] (a b e : α), b ≠ e →
      (if (if a = e then b else a) = e then b else if a = e then b else a) =
        if a = e then b else a := by
    intro α _ a b e apart
    by_cases none : a = e <;> simp [none, apart]
  simp only [PushMonitor.lined, Option.getD_some, PushMonitor.mk.injEq, true_and, and_true]
  exact ⟨congrArg some (checked _ _ _ (by decide)), congrArg some (checked _ _ _ (by decide))⟩

theorem kept_refl : Kept wanted before before := fun _ => Or.inl rfl

theorem Kept.trans (first : Kept wanted before between) (second : Kept wanted between after) :
    Kept wanted before after := by
  intro id
  rcases second id with same | ⟨j, wants, changed⟩
  · rw [same]
    exact first id
  · right
    refine ⟨j, wants, ?_⟩
    rcases first id with same | ⟨i, -, once⟩
    · rw [changed, same]
    · rw [changed, once, Option.map_map]
      congr 1
      funext m
      exact lined_lined i j m

theorem Kept.mono (kept : Kept wanted before after)
    (widen : ∀ id interval, wanted id interval → wider id interval) : Kept wider before after := by
  intro id
  rcases kept id with same | ⟨i, wants, changed⟩
  · exact Or.inl same
  · exact Or.inr ⟨i, widen id i wants, changed⟩

theorem Kept.isSome (kept : Kept wanted before after) (id : Nat) :
    (after.get id).isSome = (before.get id).isSome := by
  rcases kept id with same | ⟨i, -, changed⟩
  · rw [same]
  · rw [changed, Option.isSome_map]

theorem LinedUp.kept (lined : LinedUp desired before task) (kept : Kept wanted before after)
    (one : ∀ interval, wanted (task.kumaMonitorId.getD 0) interval → interval = desired task) :
    LinedUp desired after task := by
  obtain ⟨m, here, expires⟩ := lined
  rcases kept (task.kumaMonitorId.getD 0) with same | ⟨i, wants, changed⟩
  · exact ⟨m, same.trans here, expires⟩
  · cases one i wants
    refine ⟨m.lined (desired task), ?_, rfl⟩
    rw [changed, here]
    rfl

end Frame

section Calls
variable {wire : Nat → Delivery} {desired : Task → Int} {id : Nat} {interval : Int}
  {k k' : Link ρ} {m : PushMonitor ρ} {mon : Option (PushMonitor ρ)} {error : String}

theorem callGet_cases (wire : Nat → Delivery) (id : Nat) (k : Link ρ) :
    (∃ error, wire k.calls ≠ .answered ∧ callGet wire id k = (.error error, k.called)) ∨
    (wire k.calls ≠ .answered ∧ callGet wire id k = (.ok none, k.called)) ∨
    callGet wire id k = (.ok (k.monitors.get id), k.called) := by
  unfold callGet
  cases wire k.calls with
  | unreachable error => exact Or.inl ⟨error, nofun, rfl⟩
  | lost error => exact Or.inl ⟨error, nofun, rfl⟩
  | refused => exact Or.inr (Or.inl ⟨nofun, rfl⟩)
  | answered => exact Or.inr (Or.inr rfl)

theorem getMonitor_link (wire : Nat → Delivery) (id : Nat) (k : Link ρ) :
    (getMonitor wire id k).2 = k.called := by
  unfold getMonitor
  rcases callGet_cases wire id k with ⟨error, -, fails⟩ | ⟨-, refused⟩ | answers
  · rw [fails]
  · rw [refused]
  · rw [answers]
    cases k.monitors.get id <;> rfl

theorem getMonitor_stored (found : (getMonitor wire id k).1 = .ok m) :
    k.monitors.get id = some m := by
  unfold getMonitor at found
  rcases callGet_cases wire id k with ⟨error, -, fails⟩ | ⟨-, refused⟩ | answers
  · rw [fails] at found
    cases found
  · rw [refused] at found
    cases found
  · rw [answers] at found
    cases here : k.monitors.get id with
    | none => simp [here] at found
    | some m' => simpa [here] using found

theorem getMonitor_answered (answers : wire k.calls = .answered)
    (here : k.monitors.get id = some m) : (getMonitor wire id k).1 = .ok m := by
  simp [getMonitor, callGet, answers, here]

/-- An edit is carried out or not; one that is reported was. -/
theorem callEdit_cases (wire : Nat → Delivery) (mon : Option (PushMonitor ρ)) (k : Link ρ) :
    (wire k.calls ≠ .answered ∧ (callEdit wire mon k).1 ≠ .ok true ∧
      (callEdit wire mon k).2 = k.called) ∨
    ((wire k.calls ≠ .answered ∧ (callEdit wire mon k).1 ≠ .ok true ∨
      (callEdit wire mon k).1 = .ok (mon.bind (edited k.monitors)).isSome) ∧
      (callEdit wire mon k).2 =
        { k.called with monitors := (mon.bind (edited k.monitors)).getD k.monitors }) := by
  unfold callEdit
  cases wire k.calls with
  | unreachable error => exact Or.inl ⟨nofun, nofun, rfl⟩
  | refused => exact Or.inl ⟨nofun, nofun, rfl⟩
  | lost error => exact Or.inr ⟨Or.inl ⟨nofun, nofun⟩, rfl⟩
  | answered => exact Or.inr ⟨Or.inr rfl, rfl⟩

theorem edited_lined (here : k.monitors.get id = some m) :
    edited k.monitors (m.lined interval) = some (k.monitors.put (m.lined interval)) := by
  have named : (m.lined interval).id = id := Table.key_of_get here
  rw [edited, named, here]
  rfl

theorem get_put_lined (here : k.monitors.get id = some m) :
    (k.monitors.put (m.lined interval)).get id = some (m.lined interval) := by
  have named : (m.lined interval).id = id := Table.key_of_get here
  rw [Table.get_put, key_pushMonitor, if_pos named]

theorem kept_put (here : k.monitors.get id = some m) :
    Kept (fun j i => j = id ∧ i = interval) k.monitors (k.monitors.put (m.lined interval)) := by
  intro j
  by_cases same : id = j
  · subst same
    right
    exact ⟨interval, ⟨rfl, rfl⟩, by rw [get_put_lined here, here]; rfl⟩
  · left
    have named : (m.lined interval).id = id := Table.key_of_get here
    exact Table.get_put_ne (by simpa [named] using same)

/-- What one update_interval does, however its two calls go. -/
structure Updated (wire : Nat → Delivery) (id : Nat) (interval : Int) (k : Link ρ)
    (out : Except String Unit × Link ρ) : Prop where
  kept : Kept (fun j i => j = id ∧ i = interval) k.monitors out.2.monitors
  calls : out.2.calls ≤ k.calls + 2
  done : out.1 = .ok () → ∃ m, out.2.monitors.get id = some m ∧
    m.interval.getD 0 = max interval 60
  answered : (∀ n, wire n = .answered) → (k.monitors.get id).isSome → out.1 = .ok ()

theorem acked_ok {edit : Except String Bool} : acked edit = .ok () ↔ edit = .ok true := by
  rcases edit with error | (_ | _) <;> simp [acked]

theorem nameless_updated (absent : mon.bind (edited k.monitors) = none)
    (off : (∀ n, wire n = .answered) → k.monitors.get id = none) :
    Updated wire id interval k
      (acked (callEdit wire mon k.called).1, (callEdit wire mon k.called).2) := by
  have undone : (callEdit wire mon k.called).1 ≠ .ok true ∧
      (callEdit wire mon k.called).2 = k.called.called := by
    rcases callEdit_cases wire mon k.called with ⟨-, fails, same⟩ | ⟨answer, stored⟩
    · exact ⟨fails, same⟩
    · have none : mon.bind (edited k.called.monitors) = none := absent
      rw [none] at answer stored
      refine ⟨?_, stored⟩
      rcases answer with ⟨-, fails⟩ | refused
      · exact fails
      · rw [refused]
        nofun
  constructor
  · rw [undone.2]
    exact kept_refl
  · rw [undone.2]
    simp [Link.called]
  · intro done
    exact absurd (acked_ok.mp done) undone.1
  · intro on there
    simp [off on] at there

theorem stored_updated (here : k.monitors.get id = some m) :
    Updated wire id interval k (acked (callEdit wire (some (m.lined interval)) k.called).1,
      (callEdit wire (some (m.lined interval)) k.called).2) := by
  have stored : (some (m.lined interval)).bind (edited k.called.monitors) =
      some (k.monitors.put (m.lined interval)) := edited_lined here
  have edits := callEdit_cases wire (some (m.lined interval)) k.called
  rw [stored] at edits
  rcases edits with ⟨off, fails, same⟩ | ⟨answer, changed⟩
  · constructor
    · rw [same]
      exact kept_refl
    · rw [same]
      simp [Link.called]
    · intro done
      exact absurd (acked_ok.mp done) fails
    · intro on
      exact absurd (on _) off
  · constructor
    · rw [changed]
      exact kept_put here
    · rw [changed]
      simp [Link.called]
    · intro _
      rw [changed]
      exact ⟨m.lined interval, get_put_lined here, rfl⟩
    · intro on _
      rcases answer with ⟨off, -⟩ | done
      · exact absurd (on _) off
      · exact acked_ok.mpr done

theorem updateInterval_updated (wire : Nat → Delivery) (id : Nat) (interval : Int) (k : Link ρ) :
    Updated wire id interval k (updateInterval wire id interval k) := by
  unfold updateInterval
  rcases callGet_cases wire id k with ⟨error, off, fails⟩ | ⟨off, refused⟩ | answers
  · rw [fails]
    exact ⟨kept_refl, by simp [Link.called], nofun, fun on => absurd (on _) off⟩
  · rw [refused]
    exact nameless_updated rfl fun on => absurd (on _) off
  · rw [answers]
    cases here : k.monitors.get id with
    | none => exact nameless_updated rfl fun _ => here
    | some m => exact stored_updated here

end Calls

section Attempts
variable {wire : Nat → Delivery} {item : Item} {attempt left : Nat} {k : Link ρ}

/-- What the loop never writes in an item. -/
def Item.observed (item : Item) : Nat × Option Nat × Option Int × Option Int × Option Bool :=
  (item.taskId, item.monitorId, item.currentInterval, item.desiredInterval, item.monitorActive)

def Item.monitor (item : Item) : Nat := item.monitorId.getD 0
def Item.wants (item : Item) : Int := item.desiredInterval.getD 0

theorem observed_monitor {i j : Item} (same : i.observed = j.observed) : i.monitor = j.monitor := by
  simp only [Item.observed, Prod.mk.injEq] at same
  rw [Item.monitor, Item.monitor, same.2.1]

theorem observed_wants {i j : Item} (same : i.observed = j.observed) : i.wants = j.wants := by
  simp only [Item.observed, Prod.mk.injEq] at same
  rw [Item.wants, Item.wants, same.2.2.2.1]

/-- An edit that was reported to have gone through, or none in as many attempts as there are. -/
inductive Ended (final : Item) (attempt left : Nat) (monitors : Table (PushMonitor ρ)) : Prop where
  | updated (action : final.action = .updated) (error : final.error = none)
      (within : attempt ≤ final.attempts ∧ final.attempts < attempt + left)
      (lined : ∃ m, monitors.get final.monitor = some m ∧
        m.interval.getD 0 = max final.wants 60)
  | failed (action : final.action = .failed) (error : final.error ≠ none)
      (spent : final.attempts + 1 = attempt + left)

theorem Ended.earlier {final : Item} {monitors : Table (PushMonitor ρ)}
    (ended : Ended final (attempt + 1) left monitors) :
    Ended final attempt (left + 1) monitors := by
  rcases ended with ⟨action, error, within, lined⟩ | ⟨action, error, spent⟩
  · exact .updated action error ⟨by omega, by omega⟩ lined
  · exact .failed action error (by omega)

structure Tried (wire : Nat → Delivery) (item : Item) (attempt left : Nat) (k : Link ρ)
    (out : Item × List Nat × Link ρ) : Prop where
  observed : out.1.observed = item.observed
  kept : Kept (fun j i => j = item.monitor ∧ i = item.wants) k.monitors out.2.2.monitors
  calls : out.2.2.calls ≤ k.calls + 2 * left
  ended : Ended out.1 attempt left out.2.2.monitors
  slept : out.2.1 = (List.range' attempt (out.1.attempts - attempt)).map (2 * ·)
  answered : (∀ n, wire n = .answered) → (k.monitors.get item.monitor).isSome →
    out.1.action = .updated

theorem updated_tried {next : Link ρ}
    (goes : updateInterval wire item.monitor item.wants k = (.ok (), next)) :
    Tried wire item attempt (left + 1) k
      ({ item with attempts := attempt, action := .updated, error := none }, [], next) := by
  have once := updateInterval_updated wire item.monitor item.wants k
  rw [goes] at once
  constructor
  · rfl
  · exact once.kept
  · have calls : next.calls ≤ k.calls + 2 := once.calls
    show next.calls ≤ k.calls + 2 * (left + 1)
    omega
  · exact .updated rfl rfl ⟨Nat.le_refl attempt, Nat.lt_add_of_pos_right (by omega)⟩
      (once.done rfl)
  · simp
  · intro _ _
    rfl

theorem attempts_tried (item : Item) (k : Link ρ) (last : attempt + left = retryAttempts) :
    Tried wire item attempt (left + 1) k (attempts wire item attempt (left + 1) k) := by
  induction left generalizing attempt item k with
  | zero =>
    unfold attempts
    split
    · rename_i next goes
      exact updated_tried goes
    · rename_i error next fails
      have once := updateInterval_updated wire item.monitor item.wants k
      rw [Item.monitor, Item.wants, fails] at once
      refine ⟨rfl, once.kept, once.calls, .failed rfl nofun rfl, ?_, ?_⟩
      · simp [attempts, show ¬ attempt < retryAttempts by omega]
      · intro on there
        cases once.answered on there
  | succ left ih =>
    unfold attempts
    split
    · rename_i next goes
      exact updated_tried goes
    · rename_i error next fails
      have once := updateInterval_updated wire item.monitor item.wants k
      rw [Item.monitor, Item.wants, fails] at once
      have rest := @ih (attempt + 1)
        { item with attempts := attempt, action := .failed, error := some error } next (by omega)
      dsimp only
      generalize attempts wire _ (attempt + 1) (left + 1) next = out at rest ⊢
      obtain ⟨final, slept, after⟩ := out
      have later : attempt + 1 ≤ final.attempts := by
        rcases rest.ended with ⟨-, -, within, -⟩ | ⟨-, -, spent⟩
        · exact within.1
        · -- With an attempt left, the last one is a later one.
          have all : final.attempts + 1 = attempt + 1 + (left + 1) := spent
          omega
      refine ⟨rest.observed, once.kept.trans rest.kept, ?_, ?_, ?_, ?_⟩
      · have first : next.calls ≤ k.calls + 2 := once.calls
        have more : after.calls ≤ next.calls + 2 * (left + 1) := rest.calls
        show after.calls ≤ k.calls + 2 * (left + 1 + 1)
        omega
      · exact rest.ended.earlier
      · have waits : slept = _ := rest.slept
        obtain ⟨n, count⟩ := Nat.exists_eq_add_of_le later
        simp only [show attempt < retryAttempts by omega, if_true, waits, count,
          show attempt + 1 + n - attempt = n + 1 by omega, Nat.add_sub_cancel_left,
          List.range'_succ, List.map_cons]
      · intro on there
        cases once.answered on there

end Attempts

section Plan
variable {wire : Nat → Delivery} {desired : Task → Int} {task : Task} {tasks all : List Task}
  {item : Item} {items : List Item} {before after : Table (PushMonitor ρ)} {k : Link ρ}

def Off (desired : Task → Int) (monitors : Table (PushMonitor ρ)) (task : Task) : Prop :=
  ∃ m, monitors.get (task.kumaMonitorId.getD 0) = some m ∧
    m.interval.getD 0 ≠ max (desired task) 60

/-- What the plan says of a task. -/
structure Planned (wire : Nat → Delivery) (desired : Task → Int)
    (monitors : Table (PushMonitor ρ)) (task : Task) (item : Item) : Prop where
  named : item.taskId = task.id
  monitor : item.monitorId = task.kumaMonitorId
  wanted : item.desiredInterval = some (desired task)
  untried : item.attempts = 0
  error : item.error = none ↔ item.action ≠ .failed
  action : item.action = .ok ∧ LinedUp desired monitors task ∨
    item.action = .update ∧ Off desired monitors task ∨ item.action = .failed
  answered : (∀ n, wire n = .answered) → (monitors.get (task.kumaMonitorId.getD 0)).isSome →
    item.action ≠ .failed

theorem planItem_planned (wire : Nat → Delivery) (desired : Task → Int) (task : Task) (k : Link ρ) :
    Planned wire desired k.monitors task (planItem wire desired task k).1 := by
  unfold planItem
  dsimp only
  split
  · rename_i error next fails
    refine ⟨rfl, rfl, rfl, rfl, by simp, Or.inr (Or.inr rfl), ?_⟩
    intro on there
    obtain ⟨m, here⟩ := Option.isSome_iff_exists.mp there
    have found := getMonitor_answered (on _) here
    rw [fails] at found
    cases found
  · rename_i m next finds
    have found : (getMonitor wire (task.kumaMonitorId.getD 0) k).1 = .ok m := by rw [finds]
    have here := getMonitor_stored found
    by_cases off : m.interval.getD 0 ≠ max (desired task) 60
    · exact ⟨rfl, rfl, rfl, rfl, by simp [off], Or.inr (Or.inl ⟨by simp [off], m, here, off⟩),
        by simp [off]⟩
    · exact ⟨rfl, rfl, rfl, rfl, by simp [off], Or.inl ⟨by simp [off], m, here, not_not.mp off⟩,
        by simp [off]⟩

theorem planItem_link (wire : Nat → Delivery) (desired : Task → Int) (task : Task) (k : Link ρ) :
    (planItem wire desired task k).2 = k.called := by
  have link := getMonitor_link wire (task.kumaMonitorId.getD 0) k
  unfold planItem
  dsimp only
  split
  · rename_i fails
    rwa [fails] at link
  · rename_i finds
    rwa [finds] at link

theorem planItems_planned (wire : Nat → Delivery) (desired : Task → Int) (tasks : List Task)
    (k : Link ρ) :
    List.Forall₂ (Planned wire desired k.monitors) tasks (planItems wire desired tasks k).1 ∧
      (planItems wire desired tasks k).2 = { k with calls := k.calls + tasks.length } := by
  induction tasks generalizing k with
  | nil => exact ⟨.nil, rfl⟩
  | cons task tasks ih =>
    have rest := ih k.called
    simp only [planItems, planItem_link]
    refine ⟨.cons (planItem_planned wire desired task k) rest.1, ?_⟩
    rw [rest.2, List.length_cons]
    simp only [Link.called, Link.mk.injEq, true_and]
    omega

structure Honest (desired : Task → Int) (monitors : Table (PushMonitor ρ)) (task : Task)
    (item : Item) : Prop where
  named : item.taskId = task.id
  monitor : item.monitorId = task.kumaMonitorId
  wanted : item.desiredInterval = some (desired task)
  error : item.error = none ↔ item.action ≠ .failed
  tried : item.action = .ok ∧ item.attempts = 0 ∨
    item.action = .updated ∧ 1 ≤ item.attempts ∧ item.attempts ≤ retryAttempts ∨
    item.action = .failed ∧ (item.attempts = 0 ∨ item.attempts = retryAttempts)
  lined : item.action ≠ .failed → LinedUp desired monitors task

def Changes (desired : Task → Int) (monitors : Table (PushMonitor ρ)) (tasks : List Task)
    (id : Nat) (interval : Int) : Prop :=
  ∃ t ∈ tasks, Off desired monitors t ∧ t.kumaMonitorId.getD 0 = id ∧ desired t = interval

/-- Tasks that share a monitor want the same of it. -/
def Agree (desired : Task → Int) (tasks : List Task) : Prop :=
  ∀ t ∈ tasks, ∀ u ∈ tasks, t.kumaMonitorId.getD 0 = u.kumaMonitorId.getD 0 →
    desired t = desired u

def backoff (item : Item) : List Nat := (List.range' 1 (item.attempts - 1)).map (2 * ·)

structure Turn (wire : Nat → Delivery) (desired : Task → Int) (before : Table (PushMonitor ρ))
    (task : Task) (item : Item) (k : Link ρ) (out : Item × List Nat × Link ρ) : Prop where
  kept : Kept (Changes desired before [task]) k.monitors out.2.2.monitors
  calls : out.2.2.calls ≤ k.calls + 2 * retryAttempts
  slept : out.2.1 = backoff out.1
  honest : (item.action = .ok → LinedUp desired k.monitors task) →
    Honest desired out.2.2.monitors task out.1
  answered : (∀ n, wire n = .answered) →
    (k.monitors.get (task.kumaMonitorId.getD 0)).isSome → item.action ≠ .failed →
    out.1.action ≠ .failed

theorem applyItem_turn (planned : Planned wire desired before task item) (k : Link ρ) :
    Turn wire desired before task item k (applyItem wire item k) := by
  unfold applyItem
  split
  · rename_i idle
    refine ⟨kept_refl, Nat.le_add_right _ _, by simp [backoff, planned.untried], ?_,
      fun _ _ fine => fine⟩
    intro lined
    refine ⟨planned.named, planned.monitor, planned.wanted, planned.error, ?_, ?_⟩
    · rcases planned.action with ⟨ok, -⟩ | ⟨update, -⟩ | failed
      · exact Or.inl ⟨ok, planned.untried⟩
      · exact absurd update idle
      · exact Or.inr (Or.inr ⟨failed, Or.inl planned.untried⟩)
    · intro fine
      rcases planned.action with ⟨ok, -⟩ | ⟨update, -⟩ | failed
      · exact lined ok
      · exact absurd update idle
      · exact absurd failed fine
  · rename_i busy
    have update := not_not.mp busy
    have off : Off desired before task := by
      rcases planned.action with ⟨ok, -⟩ | ⟨-, off⟩ | failed
      · rw [update] at ok
        cases ok
      · exact off
      · rw [update] at failed
        cases failed
    have tried : Tried wire item 1 retryAttempts k (attempts wire item 1 retryAttempts k) :=
      attempts_tried item k rfl
    generalize attempts wire item 1 retryAttempts k = out at tried ⊢
    have monitor : item.monitor = task.kumaMonitorId.getD 0 := by
      rw [Item.monitor, planned.monitor]
    have wants : item.wants = desired task := by
      rw [Item.wants, planned.wanted]
      rfl
    refine ⟨tried.kept.mono ?_, tried.calls, tried.slept, ?_, ?_⟩
    · rintro id interval ⟨rfl, rfl⟩
      exact ⟨task, List.mem_singleton.mpr rfl, off, monitor.symm, wants.symm⟩
    · intro _
      have same := tried.observed
      simp only [Item.observed, Prod.mk.injEq] at same
      refine ⟨same.1.trans planned.named, same.2.1.trans planned.monitor,
        same.2.2.2.1.trans planned.wanted, ?_, ?_, ?_⟩
      · rcases tried.ended with ⟨action, error, -, -⟩ | ⟨action, error, -⟩
        · simp [action, error]
        · simp [action, error]
      · rcases tried.ended with ⟨action, -, within, -⟩ | ⟨action, -, spent⟩
        · exact Or.inr (Or.inl ⟨action, within.1, by omega⟩)
        · exact Or.inr (Or.inr ⟨action, Or.inr (by omega)⟩)
      · intro fine
        rcases tried.ended with ⟨-, -, -, lined⟩ | ⟨action, -, -⟩
        · rwa [observed_monitor tried.observed, observed_wants tried.observed, monitor, wants]
            at lined
        · exact absurd action fine
    · intro on there _
      have done := tried.answered on (by rwa [monitor])
      rw [done]
      nofun

theorem Changes.one {id : Nat} {interval : Int} (agree : Agree desired all) (mem : task ∈ all)
    (named : task.kumaMonitorId.getD 0 = id) (changes : Changes desired before all id interval) :
    interval = desired task := by
  obtain ⟨t, mt, -, monitor, rfl⟩ := changes
  exact agree t mt task mem (monitor.trans named.symm)

theorem lined_kept (agree : Agree desired all) (mem : task ∈ all) {now : Table (PushMonitor ρ)}
    (kept : Kept (Changes desired before all) now after) (lined : LinedUp desired now task) :
    LinedUp desired after task :=
  lined.kept kept fun _ changes => changes.one agree mem rfl

theorem Honest.kept (agree : Agree desired all) (mem : task ∈ all) {now : Table (PushMonitor ρ)}
    (kept : Kept (Changes desired before all) now after) (honest : Honest desired now task item) :
    Honest desired after task item :=
  { honest with lined := fun fine => lined_kept agree mem kept (honest.lined fine) }

theorem Changes.within {tasks : List Task} (within : ∀ t ∈ tasks, t ∈ all) (id : Nat)
    (interval : Int) (changes : Changes desired before tasks id interval) :
    Changes desired before all id interval := by
  obtain ⟨t, mt, rest⟩ := changes
  exact ⟨t, within t mt, rest⟩

structure Round (wire : Nat → Delivery) (desired : Task → Int) (before : Table (PushMonitor ρ))
    (all tasks : List Task) (items : List Item) (k : Link ρ)
    (out : List Item × List Nat × Link ρ) : Prop where
  kept : Kept (Changes desired before all) k.monitors out.2.2.monitors
  calls : out.2.2.calls ≤ k.calls + 2 * retryAttempts * tasks.length
  slept : out.2.1 = out.1.flatMap backoff
  honest : List.Forall₂ (Honest desired out.2.2.monitors) tasks out.1
  answered : (∀ n, wire n = .answered) →
    (∀ t ∈ tasks, (before.get (t.kumaMonitorId.getD 0)).isSome) →
    (∀ item ∈ items, item.action ≠ .failed) → ∀ item ∈ out.1, item.action ≠ .failed

theorem applyItems_round (agree : Agree desired all) (within : ∀ t ∈ tasks, t ∈ all)
    (planned : List.Forall₂ (Planned wire desired before) tasks items) (k : Link ρ)
    (sofar : Kept (Changes desired before all) before k.monitors) :
    Round wire desired before all tasks items k (applyItems wire items k) := by
  induction planned generalizing k with
  | nil => exact ⟨kept_refl, Nat.le_refl _, rfl, .nil, by simp [applyItems]⟩
  | @cons task item tasks items first rest ih =>
    have turn := applyItem_turn first k
    have mem := within task (by simp)
    unfold applyItems
    generalize applyItem wire item k = out at turn ⊢
    obtain ⟨final, slept, next⟩ := out
    have step : Kept (Changes desired before all) k.monitors next.monitors :=
      turn.kept.mono (Changes.within (by simpa using mem))
    have round := ih (fun t mt => within t (by simp [mt])) next (sofar.trans step)
    dsimp only
    generalize applyItems wire items next = out at round ⊢
    obtain ⟨finals, more, last⟩ := out
    constructor
    · exact step.trans round.kept
    · have once : next.calls ≤ k.calls + 2 * retryAttempts := turn.calls
      have others : last.calls ≤ next.calls + 2 * retryAttempts * tasks.length := round.calls
      show last.calls ≤ k.calls + 2 * retryAttempts * (tasks.length + 1)
      rw [Nat.mul_add]
      omega
    · have waits : slept = backoff final := turn.slept
      have others : more = finals.flatMap backoff := round.slept
      simp [waits, others]
    · refine .cons ?_ round.honest
      have honest := turn.honest fun ok => ?_
      · exact honest.kept agree mem round.kept
      · rcases first.action with ⟨-, lined⟩ | ⟨update, -⟩ | failed
        · exact lined_kept agree mem sofar lined
        · rw [ok] at update
          cases update
        · rw [ok] at failed
          cases failed
    · intro on there fine final' mem'
      rcases List.mem_cons.mp mem' with rfl | later
      · exact turn.answered on (by rw [sofar.isSome]; exact there task (by simp)) (fine item (by simp))
      · exact round.answered on (fun t mt => there t (by simp [mt]))
          (fun i mi => fine i (by simp [mi])) final' later

end Plan

section Runs
variable {wire : Nat → Delivery} {desired : Task → Int} {tasks : Table Task} {k : Link ρ}

theorem plan_monitors : (plan wire desired tasks k).2.monitors = k.monitors := by
  rw [plan, (planItems_planned wire desired (targets tasks) k).2]

theorem apply_round (wire : Nat → Delivery) (k : Link ρ) (agree : Agree desired (targets tasks)) :
    Round wire desired k.monitors (targets tasks) (targets tasks)
      (plan wire desired tasks k).1.items (plan wire desired tasks k).2
      ((apply wire desired tasks k).1.items, (apply wire desired tasks k).2) :=
  applyItems_round agree (fun _ mem => mem) (planItems_planned wire desired (targets tasks) k).1
    (plan wire desired tasks k).2 (by rw [plan_monitors]; exact kept_refl)

theorem apply_calls (wire : Nat → Delivery) (k : Link ρ) (agree : Agree desired (targets tasks)) :
    (apply wire desired tasks k).2.2.calls ≤ k.calls + 7 * (targets tasks).length := by
  have calls := (apply_round wire k agree).calls
  have planned := congrArg Link.calls (planItems_planned wire desired (targets tasks) k).2
  have same : (plan wire desired tasks k).2.calls = k.calls + (targets tasks).length := planned
  simp only [retryAttempts] at calls
  omega

/-- Where nothing is off, a run changes nothing. -/
theorem apply_idle (agree : Agree desired (targets tasks))
    (lined : ∀ t ∈ targets tasks, LinedUp desired k.monitors t) (id : Nat) :
    (apply wire desired tasks k).2.2.monitors.get id = k.monitors.get id := by
  have kept := (apply_round wire k agree).kept id
  rw [plan_monitors] at kept
  rcases kept with same | ⟨-, ⟨t, mt, ⟨m, here, off⟩, -⟩, -⟩
  · exact same
  · obtain ⟨m', here', expires⟩ := lined t mt
    rw [here] at here'
    cases here'
    exact absurd expires off

theorem ok_lined {monitors : Table (PushMonitor ρ)} {items : List Item} {ts : List Task}
    (honest : List.Forall₂ (Honest desired monitors) ts items)
    (ok : items.all (fun item => item.action ≠ .failed) = true) :
    ∀ t ∈ ts, LinedUp desired monitors t := by
  induction honest with
  | nil => simp
  | cons first rest ih =>
    simp only [List.all_cons, Bool.and_eq_true, decide_eq_true_eq] at ok
    intro t mem
    rcases List.mem_cons.mp mem with rfl | later
    · exact first.lined ok.1
    · exact ih ok.2 t later

theorem answered_ok (agree : Agree desired (targets tasks)) (on : ∀ n, wire n = .answered)
    (there : ∀ t ∈ targets tasks, (k.monitors.get (t.kumaMonitorId.getD 0)).isSome) :
    (apply wire desired tasks k).1.ok = true := by
  have fine : ∀ (ts : List Task) (items : List Item), (∀ t ∈ ts, t ∈ targets tasks) →
      List.Forall₂ (Planned wire desired k.monitors) ts items →
      ∀ item ∈ items, item.action ≠ .failed := by
    intro ts items within planned
    induction planned with
    | nil => simp
    | @cons t item ts items first rest ih =>
      intro i mem
      rcases List.mem_cons.mp mem with rfl | later
      · exact first.answered on (there t (within t (by simp)))
      · exact ih (fun t mt => within t (by simp [mt])) i later
  have round := (apply_round wire k agree).answered on there
    (fine _ _ (fun _ mem => mem) (planItems_planned wire desired (targets tasks) k).1)
  simpa [Report.ok] using round

theorem main_dry {args : List String} (dry : args.contains "--apply" = false) :
    (main true args wire desired tasks k).2.2.monitors = k.monitors := by
  rw [main, if_neg nofun, if_neg (by rw [dry]; nofun)]
  exact plan_monitors

theorem main_apply {args : List String} (applies : args.contains "--apply" = true) :
    main true args wire desired tasks k =
      (if (apply wire desired tasks k).1.ok then 0 else 1, some (apply wire desired tasks k).1,
        (apply wire desired tasks k).2.2) := by
  rw [main, if_neg nofun, if_pos applies]

end Runs

/-- However the calls to Kuma go, `kuma_reconcile --apply` edits only monitors that its plan
    found off, and of them only the interval (it re-asserts the two checked fields); it makes at
    most seven calls a task and sleeps what its attempts say. The report tells for each task
    what is at Kuma: exit code 0 leaves every linked monitor lined up, which no later run with
    the same readings of the clock changes, and a Kuma that answers gives it. Without `--apply`
    nothing changes. Tasks that share a monitor are taken to want the same interval for it. -/
theorem expiries_reconciled (croniter : Croniter) (wall : Nat → Int) (wire : Nat → Delivery)
    (tasks : Table Task) (k : Link ρ) (args : List String)
    (agree : Agree (desired croniter wall) (targets tasks)) :
    let desired := desired croniter wall
    let applied := apply wire desired tasks k
    let exit := main true args wire desired tasks k
    (args.contains "--apply" = false → exit.2.2.monitors = k.monitors) ∧
    Kept (Changes desired k.monitors (targets tasks)) k.monitors applied.2.2.monitors ∧
    applied.2.2.calls ≤ k.calls + 7 * (targets tasks).length ∧
    applied.2.1 = applied.1.items.flatMap backoff ∧
    List.Forall₂ (Honest desired applied.2.2.monitors) (targets tasks) applied.1.items ∧
    (args.contains "--apply" = true → exit.1 = 0 →
      (∀ t ∈ targets tasks, LinedUp desired exit.2.2.monitors t) ∧
      ∀ (wire' : Nat → Delivery) (id : Nat),
        (apply wire' desired tasks exit.2.2).2.2.monitors.get id = exit.2.2.monitors.get id) ∧
    (args.contains "--apply" = true → (∀ n, wire n = .answered) →
      (∀ t ∈ targets tasks, (k.monitors.get (t.kumaMonitorId.getD 0)).isSome) → exit.1 = 0) := by
  have round := apply_round wire k agree
  have calls := apply_calls wire k agree
  have kept := round.kept
  rw [plan_monitors] at kept
  refine ⟨main_dry, kept, calls, round.slept, round.honest, ?_, ?_⟩
  · intro applies
    rw [main_apply applies]
    intro done
    have ok : (apply wire (desired croniter wall) tasks k).1.ok = true := by
      by_contra fails
      simp [fails] at done
    have lined := ok_lined round.honest ok
    exact ⟨lined, fun wire' id => apply_idle agree lined id⟩
  · intro applies on there
    rw [main_apply applies]
    exact if_pos (answered_ok agree on there)

namespace Sample

def weekly (id monitor : Nat) : Task :=
  { id := id, name := "photos", sourceId := 1, remotePath := "/photos", localPath := "/data"
    cron := "0 0 * * mon-fri", kumaEnabled := true, kumaMonitorId := some monitor
    createdAt := 0, updatedAt := 0 }

def linked : Table Task := (Table.empty.put (weekly 1 7)).put (weekly 2 8)

def strayed : Link String :=
  { monitors :=
      (Table.empty.put ⟨7, some 86400, some false, none, some [], "token-a"⟩).put
        ⟨8, some 140400, some true, some "[]", some ["200-299"], "token-b"⟩
    calls := 0 }

def rough : Nat → Delivery
  | 3 => .lost "TimeoutError"
  | 5 => .refused
  | _ => .answered

def expiry : Task → Int :=
  desired Pullbackup.Sample.croniter fun _ => Pullbackup.Sample.midnight

end Sample

theorem third_attempt_reconciled :
    Agree Sample.expiry (targets Sample.linked) ∧
    (main true ["--apply"] Sample.rough Sample.expiry Sample.linked Sample.strayed).1 = 0 ∧
    ∀ t ∈ targets Sample.linked, LinedUp Sample.expiry
      (main true ["--apply"] Sample.rough Sample.expiry Sample.linked Sample.strayed).2.2.monitors
      t := by
  have agree : Agree Sample.expiry (targets Sample.linked) := by
    unfold Agree
    decide +kernel
  have zero : (main true ["--apply"] Sample.rough Sample.expiry Sample.linked
      Sample.strayed).1 = 0 := by decide +kernel
  obtain ⟨-, -, -, -, -, exits, -⟩ := expiries_reconciled Pullbackup.Sample.croniter
    (fun _ => Pullbackup.Sample.midnight) Sample.rough Sample.linked Sample.strayed ["--apply"] agree
  exact ⟨agree, zero, (exits (by decide) zero).1⟩

end Pullbackup.Reconcile
