import Mathlib.Data.List.Induction
import Mathlib.Data.List.Perm.Basic
import Mathlib.Order.Lattice

/- One greedy pass over requests in order of age. A request starts when it fits
   beside what is running, when no older request that waits holds a scope of it,
   and when a place is free; one that does not start waits and holds its scopes. -/
namespace Greedy

universe u
variable {J : Type u}

structure Rules (J : Type u) where
  limit : Nat
  busy : J → J → Bool
  held : J → J → Bool

structure State (J : Type u) where
  before : List J
  started : List J
  waiting : List J

def State.begin (before : List J) : State J := ⟨before, [], []⟩

def State.running (s : State J) : List J := s.before ++ s.started

namespace Rules
variable (r : Rules J)

def blocked (s : State J) (j : J) : Bool :=
  s.running.any (r.busy j) || s.waiting.any (r.held j) || decide (r.limit ≤ s.running.length)

def step (s : State J) (j : J) : State J :=
  if r.blocked s j then { s with waiting := s.waiting ++ [j] }
  else { s with started := s.started ++ [j] }

def pass (s : State J) (js : List J) : State J := js.foldl r.step s

variable {r} {s : State J} {js : List J}

theorem blocked_iff {j : J} : r.blocked s j = true ↔
    (∃ i ∈ s.running, r.busy j i = true) ∨ (∃ i ∈ s.waiting, r.held j i = true) ∨
      r.limit ≤ s.running.length := by
  simp [blocked, or_assoc]

theorem step_blocked {j : J} (blocked : r.blocked s j = true) :
    r.step s j = { s with waiting := s.waiting ++ [j] } := by
  simp [step, blocked]

theorem step_free {j : J} (free : r.blocked s j = false) :
    r.step s j = { s with started := s.started ++ [j] } := by
  simp [step, free]

theorem free_iff {j : J} : r.blocked s j = false ↔
    (∀ i ∈ s.running, r.busy j i = false) ∧ (∀ i ∈ s.waiting, r.held j i = false) ∧
      s.running.length < r.limit := by
  rw [← Bool.not_eq_true, blocked_iff]
  simp only [not_or, not_exists, not_and, Bool.not_eq_true, not_le]

theorem pass_append (front rest : List J) :
    r.pass s (front ++ rest) = r.pass (r.pass s front) rest :=
  List.foldl_append

theorem pass_snoc (js : List J) (j : J) : r.pass s (js ++ [j]) = r.step (r.pass s js) j :=
  List.foldl_append

theorem pass_invariant (inv : State J → Prop) (keeps : ∀ s j, inv s → inv (r.step s j))
    (start : inv s) (js : List J) : inv (r.pass s js) := by
  induction js generalizing s with
  | nil => exact start
  | cons j js ih => exact ih (keeps s j start)

theorem pass_before (s : State J) (js : List J) : (r.pass s js).before = s.before := by
  refine pass_invariant (fun t => t.before = s.before) (fun t j same => ?_) rfl js
  rw [← same]
  unfold step
  split <;> rfl

theorem pass_started (s : State J) (js : List J) : s.started <+: (r.pass s js).started := by
  refine pass_invariant (fun t => s.started <+: t.started) (fun t j kept => ?_)
    List.prefix_rfl js
  unfold step
  split
  · exact kept
  · exact kept.trans (List.prefix_append _ _)

theorem pass_waiting (s : State J) (js : List J) : s.waiting <+: (r.pass s js).waiting := by
  refine pass_invariant (fun t => s.waiting <+: t.waiting) (fun t j kept => ?_)
    List.prefix_rfl js
  unfold step
  split
  · exact kept.trans (List.prefix_append _ _)
  · exact kept

theorem pass_perm (s : State J) (js : List J) :
    ((r.pass s js).started ++ (r.pass s js).waiting).Perm (s.started ++ s.waiting ++ js) := by
  induction js generalizing s with
  | nil => simp [pass]
  | cons j js ih =>
    refine (ih (r.step s j)).trans ?_
    have once : ((r.step s j).started ++ (r.step s j).waiting).Perm
        (s.started ++ s.waiting ++ [j]) := by
      unfold step
      split
      · simp
      · dsimp only
        rw [List.append_assoc, List.append_assoc]
        exact List.perm_append_comm.append_left s.started
    simpa using once.append_right js

section Outcome
variable {before front rest : List J} {j : J}

theorem mem_request : j ∈ (r.pass (State.begin before) js).started ∨
    j ∈ (r.pass (State.begin before) js).waiting ↔ j ∈ js := by
  rw [← List.mem_append]
  exact (pass_perm (State.begin before) js).mem_iff

theorem waits_iff (distinct : js.Nodup) (mem : j ∈ js) :
    j ∈ (r.pass (State.begin before) js).waiting ↔
      j ∉ (r.pass (State.begin before) js).started := by
  have whole := (pass_perm (r := r) (State.begin before) js).nodup_iff.mpr distinct
  constructor
  · exact fun waits starts => (List.nodup_append.mp whole).2.2 j starts j waits rfl
  · exact fun rests => (mem_request.mpr mem).resolve_left rests

theorem starts_iff (distinct : (front ++ j :: rest).Nodup) :
    j ∈ (r.pass (State.begin before) (front ++ j :: rest)).started ↔
      r.blocked (r.pass (State.begin before) front) j = false := by
  have turn : r.pass (State.begin before) (front ++ j :: rest) =
      r.pass (r.step (r.pass (State.begin before) front) j) rest := pass_append front (j :: rest)
  constructor
  · intro starts
    by_contra blocked
    have waits : j ∈ (r.pass (State.begin before) (front ++ j :: rest)).waiting := by
      rw [turn]
      refine (pass_waiting _ rest).subset ?_
      rw [step_blocked (by simpa using blocked)]
      exact List.mem_append_right _ (List.mem_singleton_self j)
    exact (waits_iff distinct (by simp)).mp waits starts
  · intro free
    rw [turn]
    refine (pass_started _ rest).subset ?_
    rw [step_free free]
    exact List.mem_append_right _ (List.mem_singleton_self j)

theorem waits_early (distinct : (front ++ rest).Nodup) (mem : j ∈ front)
    (waits : j ∈ (r.pass (State.begin before) (front ++ rest)).waiting) :
    j ∈ (r.pass (State.begin before) front).waiting := by
  refine (waits_iff (List.nodup_append.mp distinct).1 mem).mpr fun starts => ?_
  refine (waits_iff distinct (List.mem_append_left _ mem)).mp waits ?_
  rw [pass_append]
  exact (pass_started _ rest).subset starts

theorem pass_none_started (none : (r.pass (State.begin before) js).started = []) :
    r.pass (State.begin before) js = ⟨before, [], js⟩ := by
  induction js using List.reverseRecOn with
  | nil => rfl
  | append_singleton js j ih =>
    rw [pass_snoc] at none ⊢
    cases blocked : r.blocked (r.pass (State.begin before) js) j with
    | true =>
      rw [step_blocked blocked] at none ⊢
      rw [ih none]
    | false =>
      rw [step_free blocked] at none
      simp at none

/-- Nothing starts when every request is blocked by what runs at the outset, by an older request
    or for want of a place. -/
theorem none_started_iff : (r.pass (State.begin before) js).started = [] ↔
    ∀ front j rest, js = front ++ j :: rest → r.blocked ⟨before, [], front⟩ j = true := by
  constructor
  · rintro none front j rest rfl
    have early : (r.pass (State.begin before) front).started = [] := by
      have kept := pass_started (r := r) (r.pass (State.begin before) front) (j :: rest)
      rw [← pass_append, none] at kept
      exact List.prefix_nil.mp kept
    by_contra free
    rw [pass_append, pass_none_started early] at none
    have kept := pass_started (r := r) (r.step ⟨before, [], front⟩ j) rest
    rw [show r.pass (r.step ⟨before, [], front⟩ j) rest = r.pass ⟨before, [], front⟩ (j :: rest)
      from rfl, none, step_free (by simpa using free)] at kept
    simp at kept
  · intro stuck
    induction js using List.reverseRecOn with
    | nil => rfl
    | append_singleton js j ih =>
      have early := ih fun front k rest split => stuck front k (rest ++ [j]) (by simp [split])
      rw [pass_snoc, pass_none_started early, step_blocked (stuck js j [] rfl)]

end Outcome

theorem blocked_running (s : State J) (j : J) :
    r.blocked ⟨s.running, [], s.waiting⟩ j = r.blocked s j := by
  simp [blocked, State.running]

theorem blocked_mono {xs ys front : List J} {j : J}
    (busy : ∀ i ∈ xs, r.busy j i = true → ∃ i' ∈ ys, r.busy j i' = true)
    (more : xs.length ≤ ys.length) (blocked : r.blocked ⟨xs, [], front⟩ j = true) :
    r.blocked ⟨ys, [], front⟩ j = true := by
  rw [blocked_iff] at blocked ⊢
  simp only [State.running, List.append_nil] at blocked ⊢
  rcases blocked with ⟨i, mem, same⟩ | held | full
  · exact .inl (busy i mem same)
  · exact .inr (.inl held)
  · exact .inr (.inr (full.trans more))

/-- What waits after a pass is blocked by what runs then and by the older that wait. -/
theorem pass_waiting_blocked (before js : List J) :
    ∀ front j rest, (r.pass (State.begin before) js).waiting = front ++ j :: rest →
      r.blocked ⟨(r.pass (State.begin before) js).running, [], front⟩ j = true := by
  induction js using List.reverseRecOn with
  | nil => simp [pass, State.begin]
  | append_singleton js k ih =>
    intro front j rest split
    rw [pass_snoc] at split ⊢
    cases blocked : r.blocked (r.pass (State.begin before) js) k with
    | true =>
      rw [step_blocked blocked] at split ⊢
      change r.blocked ⟨(r.pass (State.begin before) js).running, [], front⟩ j = true
      rcases List.eq_nil_or_concat rest with rfl | ⟨rest, last, rfl⟩
      · obtain ⟨rfl, same⟩ := List.append_inj' split rfl
        cases same
        rw [blocked_running]
        exact blocked
      · have split' : (r.pass (State.begin before) js).waiting ++ [k] =
            (front ++ j :: rest) ++ [last] := by simpa using split
        exact ih front j rest (List.append_inj' split' rfl).1
    | false =>
      rw [step_free blocked] at split ⊢
      refine blocked_mono ?_ ?_ (ih front j rest split)
      · intro i mem busy
        refine ⟨i, ?_, busy⟩
        rw [State.running] at mem ⊢
        exact List.mem_append.mpr ((List.mem_append.mp mem).imp_right (List.mem_append_left _))
      · simp [State.running]

/-- What was started fits beside everything that was running then. -/
structure Apart (r : Rules J) (s : State J) : Prop where
  old : ∀ j ∈ s.started, ∀ i ∈ s.before, r.busy j i = false
  new : s.started.Pairwise fun i j => r.busy j i = false

theorem apart_step (apart : Apart r s) (j : J) : Apart r (r.step s j) := by
  cases blocked : r.blocked s j with
  | true =>
    rw [step_blocked blocked]
    exact ⟨apart.old, apart.new⟩
  | false =>
    rw [step_free blocked]
    have fits := (free_iff.mp blocked).1
    constructor
    · intro k mem i old
      rcases List.mem_append.mp mem with earlier | last
      · exact apart.old k earlier i old
      · obtain rfl := List.mem_singleton.mp last
        exact fits i (List.mem_append_left _ old)
    · refine List.pairwise_append.mpr ⟨apart.new, List.pairwise_singleton _ _, ?_⟩
      intro i mem k last
      obtain rfl := List.mem_singleton.mp last
      exact fits i (List.mem_append_right _ mem)

theorem pass_apart (before js : List J) : Apart r (r.pass (State.begin before) js) :=
  pass_invariant (Apart r) (fun _ j apart => apart_step apart j)
    ⟨by simp [State.begin], by simp [State.begin]⟩ js

theorem bound_step {n : Nat} (bound : s.running.length ≤ max r.limit n) (j : J) :
    (r.step s j).running.length ≤ max r.limit n := by
  cases blocked : r.blocked s j with
  | true =>
    rw [step_blocked blocked]
    exact bound
  | false =>
    rw [step_free blocked]
    have room := (free_iff.mp blocked).2.2
    simp only [State.running, List.length_append, List.length_singleton] at room ⊢
    omega

theorem pass_length (before js : List J) :
    (r.pass (State.begin before) js).running.length ≤ max r.limit before.length := by
  refine pass_invariant (fun t => t.running.length ≤ max r.limit before.length)
    (fun t j bound => ?_) ?_ js
  · exact bound_step bound j
  · simp [State.begin, State.running]

end Rules

end Greedy
