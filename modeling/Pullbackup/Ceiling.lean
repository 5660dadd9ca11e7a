import Mathlib.Data.Prod.Lex
import Pullbackup.Supervision

/- How long a run takes: every suspension of its body has an instant by which it is over,
   and the deadline or a cancellation bounds them all. -/
namespace Pullbackup
open History

section Pacing
variable {plan : RunPlan} {prompt : Promptness} {s t : Supervision} {act : SuperviseAct}

/-- Time has not passed anything that was to happen, and exits are not in the future. -/
structure Supervision.Paced (prompt : Promptness) (s : Supervision) : Prop where
  horizon : ∀ h ∈ s.horizon prompt, s.now ≤ h
  exited : ∀ code instant, s.leader.exited = some (code, instant) → instant ≤ s.now

/-- What the horizon says in each of the suspensions. -/
theorem paced_launching {command : Command} (paced : s.Paced prompt)
    (launching : s.doing = .launching command) :
    s.now ≤ s.since + prompt.lag ∧ ∀ c, s.cancelledAt = some c → s.now ≤ c + prompt.lag := by
  have bound := paced.horizon
  simp only [Supervision.horizon, launching, List.map_cons, List.mem_cons, forall_eq_or_imp] at bound
  refine ⟨bound.1, fun c cancelled => bound.2 _ ?_⟩
  simp [cancelled]

theorem paced_waiting {command : Command} (paced : s.Paced prompt)
    (waiting : s.doing = .waiting command) :
    (∀ d, s.deadline = some d → s.now ≤ d + prompt.lag) ∧
      ∀ c, s.cancelledAt = some c → s.now ≤ c + prompt.lag := by
  have bound := paced.horizon
  simp only [Supervision.horizon, waiting, List.map_append, List.mem_append] at bound
  constructor
  · intro d bounded
    exact bound _ (.inl (by simp [bounded]))
  · intro c cancelled
    exact bound _ (.inr (by simp [cancelled]))

theorem paced_begun {command : Command} {timedOut : Bool} (paced : s.Paced prompt)
    (cleaning : s.doing = .cleaning command timedOut .begun) : s.now ≤ s.since + prompt.lag := by
  simpa [Supervision.horizon, cleaning] using paced.horizon

theorem paced_terminated {command : Command} {timedOut : Bool} {instant : Int} (paced : s.Paced prompt)
    (cleaning : s.doing = .cleaning command timedOut (.terminated instant)) :
    s.now ≤ instant + seconds terminateSeconds + prompt.lag := by
  simpa [Supervision.horizon, cleaning] using paced.horizon

theorem paced_killed {command : Command} {timedOut : Bool} {instant : Int} (paced : s.Paced prompt)
    (cleaning : s.doing = .cleaning command timedOut (.killed instant)) :
    s.now ≤ match s.leader.exited with
      | none => instant + prompt.reap
      | some (_, exitedAt) => max instant exitedAt + prompt.lag := by
  have bound := paced.horizon
  simp only [Supervision.horizon, cleaning] at bound
  cases exited : s.leader.exited <;> simpa [exited] using bound

theorem begin_paced (start : Int) : (Supervision.begin plan start).Paced prompt := by
  have lag := prompt.lagNonneg
  refine ⟨?_, ?_⟩
  · simp only [Supervision.begin, Supervision.horizon, Option.toList_none, List.map_cons,
      List.map_nil, List.mem_singleton, forall_eq]
    omega
  · intro code instant exited
    cases exited

theorem serve_paced {doing : Doing}
    (exits : ∀ code instant, s.leader.exited = some (code, instant) → instant ≤ s.now)
    (deadline : ∀ command, doing = .waiting command → ∀ d, s.deadline = some d → s.now ≤ d)
    (calm : s.cancelledAt = none)
    (fresh : ∀ command timedOut kill, doing = .cleaning command timedOut kill → kill = .begun) :
    (s.serve doing).Paced prompt := by
  have lag := prompt.lagNonneg
  refine ⟨?_, exits⟩
  intro h mem
  cases doing with
  | launching command =>
    simp only [Supervision.horizon, serve_doing, serve_since, serve_cancelledAt, calm,
      Option.toList_none, List.map_cons, List.map_nil, List.mem_singleton] at mem
    simp only [serve_now]
    omega
  | waiting command =>
    simp only [Supervision.horizon, serve_doing, serve_deadline, serve_cancelledAt, calm,
      Option.toList_none, List.append_nil, List.mem_map, Option.mem_toList] at mem
    obtain ⟨d, bounded, rfl⟩ := mem
    have ahead := deadline command rfl d bounded
    simp only [serve_now]
    omega
  | cleaning command timedOut kill =>
    obtain rfl := fresh command timedOut kill rfl
    simp only [Supervision.horizon, serve_doing, serve_since, List.map_cons, List.map_nil,
      List.mem_singleton] at mem
    simp only [serve_now]
    omega
  | finished body => simp [Supervision.horizon] at mem

theorem horizon_cleaning {command : Command} {timedOut : Bool} {kill : Kill}
    (cleaning : s.doing = .cleaning command timedOut kill) (instant : Option Int) :
    ({ s with cancelledAt := instant } : Supervision).horizon prompt = s.horizon prompt := by
  cases kill <;> simp only [Supervision.horizon, cleaning, Supervision.leader]

theorem finished_paced {body : BodyEnd} (finished : t.doing = .finished body)
    (leader : t.leader = s.leader)
    (now : t.now = s.now) (paced : s.Paced prompt) : t.Paced prompt := by
  refine ⟨by simp [Supervision.horizon, finished], ?_⟩
  rw [leader, now]
  exact paced.exited

theorem exit_paced {code : Int} (paced : s.Paced prompt) (started : s.leaders ≠ []) :
    (s.onLeader fun leader => { leader with exited := some (code, s.now) }).Paced prompt := by
  have lag := prompt.lagNonneg
  refine ⟨?_, ?_⟩
  · intro h mem
    have before := paced.horizon h
    rw [onLeader_now]
    cases doing : s.doing with
    | launching command => simpa [Supervision.horizon, doing] using before (by
        simpa [Supervision.horizon, doing] using mem)
    | waiting command => simpa [Supervision.horizon, doing] using before (by
        simpa [Supervision.horizon, doing] using mem)
    | cleaning command timedOut kill =>
      cases kill with
      | begun => exact before (by simpa [Supervision.horizon, doing] using mem)
      | terminated instant => exact before (by simpa [Supervision.horizon, doing] using mem)
      | killed instant =>
        simp only [Supervision.horizon, onLeader_doing, doing, onLeader_leader started,
          List.map_cons, List.map_nil, List.mem_singleton] at mem
        omega
    | finished body => simp [Supervision.horizon, doing] at mem
  · intro code instant exited
    rw [onLeader_leader started] at exited
    cases exited
    exact le_refl _

theorem getD_soon (known : ∀ c, s.cancelledAt = some c → s.now ≤ c + prompt.lag) :
    s.now ≤ s.cancelledAt.getD s.now + prompt.lag := by
  have lag := prompt.lagNonneg
  cases cancelled : s.cancelledAt with
  | none =>
    simp only [Option.getD_none]
    omega
  | some c => exact known c cancelled

theorem cancel_paced (paced : s.Paced prompt) (live : ∀ body, s.doing ≠ .finished body) :
    ({ s with cancelledAt := some (s.cancelledAt.getD s.now) } : Supervision).Paced prompt := by
  refine ⟨?_, paced.exited⟩
  intro h mem
  cases doing : s.doing with
  | launching command =>
    obtain ⟨served, known⟩ := paced_launching paced doing
    simp only [Supervision.horizon, doing, Option.toList_some, List.map_cons, List.map_nil,
      List.mem_cons, List.not_mem_nil, or_false] at mem
    rcases mem with rfl | rfl
    · exact served
    · exact getD_soon (s := s) known
  | waiting command =>
    obtain ⟨bounded, known⟩ := paced_waiting paced doing
    simp only [Supervision.horizon, doing, Option.toList_some, List.map_append, List.map_cons,
      List.map_nil, List.mem_append, List.mem_map, Option.mem_toList, List.mem_singleton] at mem
    rcases mem with ⟨d, deadline, rfl⟩ | rfl
    · exact bounded d deadline
    · exact getD_soon (s := s) known
  | cleaning command timedOut kill =>
    rw [horizon_cleaning doing] at mem
    exact paced.horizon h mem
  | finished body => exact absurd doing (live body)

theorem begun_paced {command : Command} {timedOut : Bool}
    (exits : ∀ code instant, s.leader.exited = some (code, instant) → instant ≤ s.now)
    (calm : s.cancelledAt = none) : (s.serve (.cleaning command timedOut .begun)).Paced prompt := by
  refine serve_paced exits nofun calm ?_
  intro command' timedOut' kill same
  cases same
  rfl

theorem spawned_paced {command : Command} (calm : s.cancelledAt = none) :
    (({ s with leaders := {} :: s.leaders } : Supervision).awaitBounded command).Paced prompt := by
  have unborn : ∀ code instant, (Supervision.leader { s with leaders := {} :: s.leaders }).exited =
      some (code, instant) → instant ≤ s.now := nofun
  rcases awaitBounded_cases { s with leaders := {} :: s.leaders } command with
    ⟨d, bounded, past, served⟩ | ⟨ahead, served⟩
  · rw [served]
    exact begun_paced unborn calm
  · rw [served]
    exact serve_paced unborn (fun _ _ d bounded => le_of_lt (ahead d bounded)) calm nofun

theorem returns_paced {command : Command} {code : Int} {output : String} (paced : s.Paced prompt)
    (calm : s.cancelledAt = none) : (s.serve (command.next plan code output)).Paced prompt := by
  rcases next_launches_or_ends plan code output command with ⟨after, next⟩ | ⟨body, next⟩
  · rw [next]
    exact serve_paced paced.exited nofun calm nofun
  · rw [next]
    exact finished_paced (s := s) rfl rfl rfl paced

theorem terminate_paced {command : Command} {timedOut : Bool} (paced : s.Paced prompt) :
    ({ s.onLeader (fun leader => { leader with termAt := some s.now }) with
      doing := .cleaning command timedOut (.terminated s.now) } : Supervision).Paced prompt := by
  have lag := prompt.lagNonneg
  refine ⟨?_, ?_⟩
  · intro h mem
    simp only [Supervision.horizon, List.map_cons, List.map_nil, List.mem_singleton] at mem
    simp only [seconds, terminateSeconds] at mem
    change s.now ≤ h
    omega
  · intro code instant exited
    have same : (s.onLeader fun leader => { leader with termAt := some s.now }).leader.exited =
        s.leader.exited := onLeader_exited fun _ => rfl
    exact paced.exited code instant (same.symm.trans exited)

theorem kill_paced {command : Command} {timedOut : Bool} (paced : s.Paced prompt) :
    ({ s.onLeader (fun leader => { leader with killAt := some s.now }) with
      doing := .cleaning command timedOut (.killed s.now) } : Supervision).Paced prompt := by
  have lag := prompt.lagNonneg
  have reap := prompt.reapNonneg
  have same : (s.onLeader fun leader => { leader with killAt := some s.now }).leader.exited =
      s.leader.exited := onLeader_exited fun _ => rfl
  refine ⟨?_, fun code instant exited => paced.exited code instant (same.symm.trans exited)⟩
  intro h mem
  change s.now ≤ h
  change h ∈ (match (s.onLeader fun leader => { leader with killAt := some s.now }).leader.exited with
    | none => [s.now + prompt.reap]
    | some (_, exitedAt) => [max s.now exitedAt].map (· + prompt.lag)) at mem
  rw [same] at mem
  cases exited : s.leader.exited with
  | none =>
    simp only [exited, List.mem_singleton] at mem
    omega
  | some e =>
    simp only [exited, List.map_cons, List.map_nil, List.mem_singleton] at mem
    omega

theorem step_paced (paced : s.Paced prompt) (step : SuperviseStep plan prompt s act t) :
    t.Paced prompt := by
  cases step with
  | tick later soon =>
    exact ⟨soon, fun code instant exited => (paced.exited code instant exited).trans later⟩
  | exit started runs => exact exit_paced paced started
  | ignored finished => exact paced
  | cancel live => exact cancel_paced paced live
  | spawned launching calm => exact spawned_paced calm
  | notSpawned launching calm => exact finished_paced (s := s) rfl rfl rfl paced
  | returns waiting calm exited => exact returns_paced paced calm
  | expires waiting calm bounded past => exact begun_paced paced.exited calm
  | abandoned launching cancelled => exact finished_paced (s := s) rfl rfl rfl paced
  | interrupted waiting cancelled =>
    exact begun_paced (s := { s with cancelledAt := none }) paced.exited rfl
  | swallowed cleaning cancelled =>
    refine ⟨?_, paced.exited⟩
    rw [horizon_cleaning cleaning]
    exact paced.horizon
  | terminate cleaning runs => exact terminate_paced paced
  | kill cleaning past => exact kill_paced paced
  | refused cleaning => exact finished_paced (s := s) rfl rfl rfl paced
  | reaped cleaning exited => exact finished_paced (s := s) rfl rfl rfl paced

/-- The longest that a cleanup takes from when it is asked for. -/
def cleanupTime (prompt : Promptness) : Int :=
  seconds terminateSeconds + 3 * prompt.lag + prompt.reap

/-- The body is over by b: its cleanup is under way, or is asked for in time. -/
def Supervision.EndsBy (prompt : Promptness) (b : Int) (s : Supervision) : Prop :=
  let asked := (∃ c, s.cancelledAt = some c ∧ c + prompt.lag + cleanupTime prompt ≤ b) ∨
    ∃ d, s.deadline = some d ∧ d + 2 * prompt.lag + cleanupTime prompt ≤ b ∧
      ∀ command, s.doing = .launching command → s.since ≤ d + prompt.lag
  match s.doing with
  | .launching _ | .waiting _ => asked
  | .cleaning _ _ .begun => s.since + cleanupTime prompt ≤ b
  | .cleaning _ _ (.terminated t) =>
    t + seconds terminateSeconds + 2 * prompt.lag + prompt.reap ≤ b
  | .cleaning _ _ (.killed t) =>
    match s.leader.exited with
    | none => t + prompt.reap + prompt.lag ≤ b
    | some (_, exitedAt) => max t exitedAt + prompt.lag ≤ b
  | .finished _ => True

theorem endsBy_now {b : Int} (paced : s.Paced prompt) (ends : s.EndsBy prompt b)
    (live : ∀ body, s.doing ≠ .finished body) : s.now ≤ b := by
  have lag := prompt.lagNonneg
  have reap := prompt.reapNonneg
  unfold Supervision.EndsBy at ends
  cases doing : s.doing with
  | launching command =>
    simp only [doing, cleanupTime, seconds, terminateSeconds] at ends
    obtain ⟨served, known⟩ := paced_launching paced doing
    rcases ends with ⟨c, cancelled, bound⟩ | ⟨d, bounded, bound, early⟩
    · have := known c cancelled
      omega
    · have := early command rfl
      omega
  | waiting command =>
    simp only [doing, cleanupTime, seconds, terminateSeconds] at ends
    obtain ⟨deadline, known⟩ := paced_waiting paced doing
    rcases ends with ⟨c, cancelled, bound⟩ | ⟨d, bounded, bound, -⟩
    · have := known c cancelled
      omega
    · have := deadline d bounded
      omega
  | cleaning command timedOut kill =>
    cases kill with
    | begun =>
      have := paced_begun paced doing
      simp only [doing, cleanupTime, seconds, terminateSeconds] at ends
      omega
    | terminated instant =>
      have := paced_terminated paced doing
      simp only [doing, seconds, terminateSeconds] at ends this
      omega
    | killed instant =>
      have := paced_killed paced doing
      simp only [doing] at ends
      cases exited : s.leader.exited <;> simp only [exited] at ends this <;> omega
  | finished body => exact absurd doing (live body)

theorem finished_endsBy {b : Int} {body : BodyEnd} (finished : s.doing = .finished body) :
    s.EndsBy prompt b := by
  unfold Supervision.EndsBy
  simp only [finished]

theorem exit_endsBy {b code : Int} (paced : s.Paced prompt) (ends : s.EndsBy prompt b)
    (started : s.leaders ≠ []) (runs : s.leader.exited = none) :
    (s.onLeader fun leader => { leader with exited := some (code, s.now) }).EndsBy prompt b := by
  have reap := prompt.reapNonneg
  cases doing : s.doing with
  | launching command => simpa [Supervision.EndsBy, doing] using ends
  | waiting command => simpa [Supervision.EndsBy, doing] using ends
  | cleaning command timedOut kill =>
    cases kill with
    | begun => simpa [Supervision.EndsBy, doing] using ends
    | terminated instant => simpa [Supervision.EndsBy, doing] using ends
    | killed instant =>
      have soon := paced_killed paced doing
      simp only [Supervision.EndsBy, doing, runs] at ends soon
      simp only [Supervision.EndsBy, onLeader_doing, doing, onLeader_leader started]
      omega
  | finished body => exact finished_endsBy (s := s.onLeader _) doing

theorem again_endsBy {b : Int} (ends : s.EndsBy prompt b) :
    ({ s with cancelledAt := some (s.cancelledAt.getD s.now) } : Supervision).EndsBy prompt b := by
  have asked : (∃ c, s.cancelledAt = some c ∧ c + prompt.lag + cleanupTime prompt ≤ b) →
      ∃ c, some (s.cancelledAt.getD s.now) = some c ∧ c + prompt.lag + cleanupTime prompt ≤ b := by
    rintro ⟨c, cancelled, bound⟩
    exact ⟨c, by rw [cancelled, Option.getD_some], bound⟩
  cases doing : s.doing with
  | launching command =>
    simp only [Supervision.EndsBy, doing] at ends ⊢
    exact ends.imp asked id
  | waiting command =>
    simp only [Supervision.EndsBy, doing] at ends ⊢
    exact ends.imp asked id
  | cleaning command timedOut kill =>
    cases kill <;> simpa only [Supervision.EndsBy, doing, Supervision.leader] using ends
  | finished body => exact finished_endsBy rfl

/-- Without a cancellation it is the deadline that ends the body. -/
theorem endsBy_deadline {b : Int} (ends : s.EndsBy prompt b) (calm : s.cancelledAt = none)
    (busy : (∃ command, s.doing = .launching command) ∨ ∃ command, s.doing = .waiting command) :
    ∃ d, s.deadline = some d ∧ d + 2 * prompt.lag + cleanupTime prompt ≤ b ∧
      ∀ command, s.doing = .launching command → s.since ≤ d + prompt.lag := by
  rcases busy with ⟨command, doing⟩ | ⟨command, doing⟩
  · simp only [Supervision.EndsBy, doing, calm, reduceCtorEq, false_and, exists_false,
      false_or] at ends
    rw [doing]
    exact ends
  · simp only [Supervision.EndsBy, doing, calm, reduceCtorEq, false_and, exists_false,
      false_or] at ends
    obtain ⟨d, bounded, bound, -⟩ := ends
    exact ⟨d, bounded, bound, by rw [doing]; exact nofun⟩

theorem spawned_endsBy {b : Int} {command : Command} (paced : s.Paced prompt)
    (ends : s.EndsBy prompt b) (launching : s.doing = .launching command)
    (calm : s.cancelledAt = none) :
    (({ s with leaders := {} :: s.leaders } : Supervision).awaitBounded command).EndsBy prompt
      b := by
  obtain ⟨served, -⟩ := paced_launching paced launching
  obtain ⟨d, bounded, bound, early⟩ := endsBy_deadline ends calm (.inl ⟨_, launching⟩)
  have started := early _ launching
  rcases awaitBounded_cases { s with leaders := {} :: s.leaders } command with
    ⟨-, -, -, await⟩ | ⟨-, await⟩
  · rw [await]
    simp only [Supervision.EndsBy, serve_doing, serve_since]
    omega
  · rw [await]
    simp only [Supervision.EndsBy, serve_doing, serve_deadline]
    exact .inr ⟨d, bounded, bound, nofun⟩

theorem returns_endsBy {b code : Int} {command : Command} {output : String}
    (paced : s.Paced prompt) (ends : s.EndsBy prompt b) (waiting : s.doing = .waiting command)
    (calm : s.cancelledAt = none) :
    (s.serve (command.next plan code output)).EndsBy prompt b := by
  obtain ⟨deadline, -⟩ := paced_waiting paced waiting
  obtain ⟨d, bounded, bound, -⟩ := endsBy_deadline ends calm (.inr ⟨_, waiting⟩)
  rcases next_launches_or_ends plan code output command with ⟨after, next⟩ | ⟨body, next⟩
  · rw [next]
    simp only [Supervision.EndsBy, serve_doing, serve_deadline, serve_since]
    exact .inr ⟨d, bounded, bound, fun _ _ => deadline d bounded⟩
  · rw [next]
    exact finished_endsBy rfl

theorem expires_endsBy {b : Int} {command : Command} (paced : s.Paced prompt)
    (ends : s.EndsBy prompt b) (waiting : s.doing = .waiting command)
    (calm : s.cancelledAt = none) :
    (s.serve (.cleaning command true .begun)).EndsBy prompt b := by
  obtain ⟨deadline, -⟩ := paced_waiting paced waiting
  obtain ⟨d, bounded, bound, -⟩ := endsBy_deadline ends calm (.inr ⟨_, waiting⟩)
  have soon := deadline d bounded
  have lag := prompt.lagNonneg
  simp only [Supervision.EndsBy, serve_doing, serve_since]
  omega

theorem interrupted_endsBy {b : Int} {command : Command} (paced : s.Paced prompt)
    (ends : s.EndsBy prompt b) (waiting : s.doing = .waiting command) :
    (s.serve (.cleaning command false .begun)).EndsBy prompt b := by
  obtain ⟨deadline, known⟩ := paced_waiting paced waiting
  have lag := prompt.lagNonneg
  simp only [Supervision.EndsBy, waiting] at ends
  simp only [Supervision.EndsBy, serve_doing, serve_since]
  rcases ends with ⟨c, asked, bound⟩ | ⟨d, bounded, bound, -⟩
  · have := known c asked
    omega
  · have := deadline d bounded
    omega

theorem kill_endsBy {b t : Int} {command : Command} {timedOut : Bool} (paced : s.Paced prompt)
    (ends : s.EndsBy prompt b) (cleaning : s.doing = .cleaning command timedOut (.terminated t)) :
    ({ s.onLeader (fun leader => { leader with killAt := some s.now }) with
      doing := .cleaning command timedOut (.killed s.now) } : Supervision).EndsBy prompt b := by
  have lag := prompt.lagNonneg
  have reap := prompt.reapNonneg
  have soon := paced_terminated paced cleaning
  have same : (s.onLeader fun leader => { leader with killAt := some s.now }).leader.exited =
      s.leader.exited := onLeader_exited fun _ => rfl
  simp only [Supervision.EndsBy, cleaning] at ends
  change match (s.onLeader fun leader => { leader with killAt := some s.now }).leader.exited with
    | none => s.now + prompt.reap + prompt.lag ≤ b
    | some (_, exitedAt) => max s.now exitedAt + prompt.lag ≤ b
  rw [same]
  cases exited : s.leader.exited with
  | none =>
    simp only
    omega
  | some e =>
    have := paced.exited e.1 e.2 exited
    simp only
    omega

theorem step_endsBy {b : Int} (paced : s.Paced prompt) (ends : s.EndsBy prompt b)
    (step : SuperviseStep plan prompt s act t) : t.EndsBy prompt b := by
  cases step with
  | tick later soon => exact ends
  | exit started runs => exact exit_endsBy paced ends started runs
  | ignored finished => exact ends
  | cancel live => exact again_endsBy ends
  | spawned launching calm => exact spawned_endsBy paced ends launching calm
  | notSpawned launching calm => exact finished_endsBy rfl
  | returns waiting calm exited => exact returns_endsBy paced ends waiting calm
  | expires waiting calm bounded past => exact expires_endsBy paced ends waiting calm
  | abandoned launching cancelled => exact finished_endsBy rfl
  | interrupted waiting cancelled => exact interrupted_endsBy paced ends waiting
  | swallowed cleaning cancelled =>
    rename_i kill _
    cases kill <;> simpa only [Supervision.EndsBy, cleaning, Supervision.leader] using ends
  | terminate cleaning runs =>
    have soon := paced_begun paced cleaning
    simp only [Supervision.EndsBy, cleaning, cleanupTime] at ends
    simp only [Supervision.EndsBy]
    omega
  | kill cleaning past => exact kill_endsBy paced ends cleaning
  | refused cleaning => exact finished_endsBy rfl
  | reaped cleaning exited => exact finished_endsBy rfl

/-- What the supervision has written down lies behind it. -/
structure Supervision.Recorded (s : Supervision) : Prop where
  since : s.since ≤ s.now
  asked : ∀ c, s.cancelledAt = some c → c ≤ s.now
  signalled : ∀ command timedOut instant, s.doing = .cleaning command timedOut (.terminated instant) ∨
    s.doing = .cleaning command timedOut (.killed instant) → instant ≤ s.now

theorem serve_recorded {doing : Doing} (recorded : s.Recorded)
    (unsignalled : ∀ command timedOut instant, doing ≠ .cleaning command timedOut (.terminated instant) ∧
      doing ≠ .cleaning command timedOut (.killed instant)) : (s.serve doing).Recorded := by
  refine ⟨le_refl _, recorded.asked, ?_⟩
  intro command timedOut instant cleaning
  have none_yet := unsignalled command timedOut instant
  exact absurd cleaning (not_or.mpr none_yet)

theorem uncancel_recorded (recorded : s.Recorded) :
    ({ s with cancelledAt := none } : Supervision).Recorded :=
  ⟨recorded.since, nofun, recorded.signalled⟩

theorem step_recorded (recorded : s.Recorded) (step : SuperviseStep plan prompt s act t) :
    t.Recorded := by
  cases step with
  | tick later soon =>
    exact ⟨recorded.since.trans later, fun c asked => (recorded.asked c asked).trans later,
      fun command timedOut instant cleaning =>
        (recorded.signalled command timedOut instant cleaning).trans later⟩
  | exit started runs => exact ⟨recorded.since, recorded.asked, recorded.signalled⟩
  | ignored finished => exact recorded
  | cancel live =>
    refine ⟨recorded.since, ?_, recorded.signalled⟩
    intro c asked
    cases pending : s.cancelledAt with
    | none =>
      simp only [pending, Option.getD_none, Option.some.injEq] at asked
      exact asked.ge
    | some c' =>
      simp only [pending, Option.getD_some, Option.some.injEq] at asked
      exact asked ▸ recorded.asked c' pending
  | spawned launching calm =>
    have started : ({ s with leaders := {} :: s.leaders } : Supervision).Recorded :=
      ⟨recorded.since, recorded.asked, recorded.signalled⟩
    rcases awaitBounded_cases { s with leaders := {} :: s.leaders } _ with
      ⟨-, -, -, await⟩ | ⟨-, await⟩
    · rw [await]
      exact serve_recorded started fun _ _ _ => ⟨nofun, nofun⟩
    · rw [await]
      exact serve_recorded started fun _ _ _ => ⟨nofun, nofun⟩
  | notSpawned launching calm => exact serve_recorded recorded fun _ _ _ => ⟨nofun, nofun⟩
  | returns waiting calm exited =>
    rcases next_launches_or_ends plan _ _ _ with ⟨after, next⟩ | ⟨body, next⟩
    · rw [next]
      exact serve_recorded recorded fun _ _ _ => ⟨nofun, nofun⟩
    · rw [next]
      exact serve_recorded recorded fun _ _ _ => ⟨nofun, nofun⟩
  | expires waiting calm bounded past => exact serve_recorded recorded fun _ _ _ => ⟨nofun, nofun⟩
  | abandoned launching cancelled =>
    exact uncancel_recorded (serve_recorded recorded fun _ _ _ => ⟨nofun, nofun⟩)
  | interrupted waiting cancelled =>
    exact uncancel_recorded (serve_recorded recorded fun _ _ _ => ⟨nofun, nofun⟩)
  | swallowed cleaning cancelled => exact uncancel_recorded recorded
  | terminate cleaning runs =>
    refine ⟨recorded.since, recorded.asked, ?_⟩
    intro command timedOut instant signalled
    rcases signalled with same | same <;> cases same
    exact le_refl _
  | kill cleaning past =>
    refine ⟨recorded.since, recorded.asked, ?_⟩
    intro command timedOut instant signalled
    rcases signalled with same | same <;> cases same
    exact le_refl _
  | refused cleaning =>
    refine ⟨le_refl _, nofun, fun command timedOut instant signalled => ?_⟩
    rcases signalled with same | same <;> cases same
  | reaped cleaning exited =>
    exact uncancel_recorded (serve_recorded recorded fun _ _ _ => ⟨nofun, nofun⟩)

theorem cancel_endsBy (paced : s.Paced prompt) (recorded : s.Recorded)
    (step : SuperviseStep plan prompt s .cancel t) :
    t.EndsBy prompt (s.now + prompt.lag + cleanupTime prompt) := by
  have lag := prompt.lagNonneg
  have reap := prompt.reapNonneg
  cases step with
  | ignored finished => exact finished_endsBy finished
  | cancel live =>
    have asked : ∃ c, some (s.cancelledAt.getD s.now) = some c ∧
        c + prompt.lag + cleanupTime prompt ≤ s.now + prompt.lag + cleanupTime prompt := by
      refine ⟨_, rfl, ?_⟩
      cases pending : s.cancelledAt with
      | none => simp
      | some c =>
        have := recorded.asked c pending
        simp only [Option.getD_some]
        omega
    have since := recorded.since
    cases doing : s.doing with
    | launching command =>
      simp only [Supervision.EndsBy]
      exact .inl asked
    | waiting command =>
      simp only [Supervision.EndsBy]
      exact .inl asked
    | cleaning command timedOut kill =>
      cases kill with
      | begun =>
        simp only [Supervision.EndsBy]
        omega
      | terminated instant =>
        have signalled := recorded.signalled command timedOut instant (.inl doing)
        simp only [Supervision.EndsBy, cleanupTime]
        omega
      | killed instant =>
        have signalled := recorded.signalled command timedOut instant (.inr doing)
        have past := paced.exited
        simp only [Supervision.leader] at past
        simp only [Supervision.EndsBy, Supervision.leader, cleanupTime, seconds,
          terminateSeconds]
        split
        · omega
        · rename_i e exited
          have := past _ _ exited
          omega
    | finished body => exact absurd doing (live body)

end Pacing

section Runs
variable {plan : RunPlan} {prompt : Promptness} {start : Int} {s t : Supervision}
  {acts : List SuperviseAct}

theorem trace_kept (trace : Trace (Supervises plan prompt) (.begin plan start) acts s) :
    s.Paced prompt ∧ s.Recorded ∧ s.Sound := by
  refine trace_invariant (fun s => s.Paced prompt ∧ s.Recorded ∧ s.Sound) ?_ trace ?_
  · rintro s act t ⟨paced, recorded, sound⟩ stepped
    have step := supervise_cases stepped
    exact ⟨step_paced paced step, step_recorded recorded step, step_sound sound step⟩
  · exact ⟨begin_paced start, ⟨le_refl _, nofun, nofun⟩, begin_sound start⟩

theorem trace_endsBy {b : Int} (paced : s.Paced prompt) (ends : s.EndsBy prompt b)
    (trace : Trace (Supervises plan prompt) s acts t) : t.Paced prompt ∧ t.EndsBy prompt b := by
  refine trace_invariant (fun s => s.Paced prompt ∧ s.EndsBy prompt b) ?_ trace ⟨paced, ends⟩
  rintro s act t ⟨paced, ends⟩ stepped
  have step := supervise_cases stepped
  exact ⟨step_paced paced step, step_endsBy paced ends step⟩

theorem begin_endsBy (ceiling : 0 < plan.runTimeoutSeconds) :
    (Supervision.begin plan start).EndsBy prompt
      (start + seconds plan.runTimeoutSeconds + 2 * prompt.lag + cleanupTime prompt) := by
  have lag := prompt.lagNonneg
  have bounded : runDeadline plan.runTimeoutSeconds start =
      some (start + seconds plan.runTimeoutSeconds) := if_neg (by omega)
  refine .inr ⟨_, bounded, le_refl _, fun command same => ?_⟩
  simp only [Supervision.begin, seconds]
  omega

end Runs

/-- The moves that the body makes by itself: not those of the clock, of a leader that exits or
    of the operator, nor the failures of a launch or of a signal. -/
def SuperviseAct.own : SuperviseAct → Bool
  | .tick _ | .exit _ | .cancel | .notSpawned | .refused _ => false
  | .spawned | .returns _ | .expires | .interrupted | .terminate | .kill | .reaped => true

/-- How far the body is from its end: the transfer, then the list, then the destroys. -/
def Doing.rank : Doing → ℕ ×ₗ ℕ
  | .launching .transfer => toLex (2, 1)
  | .waiting .transfer => toLex (2, 0)
  | .launching .list => toLex (1, 1)
  | .waiting .list => toLex (1, 0)
  | .launching (.destroy _ rest) => toLex (0, 2 * rest.length + 5)
  | .waiting (.destroy _ rest) => toLex (0, 2 * rest.length + 4)
  | .cleaning _ _ .begun => toLex (0, 3)
  | .cleaning _ _ (.terminated _) => toLex (0, 2)
  | .cleaning _ _ (.killed _) => toLex (0, 1)
  | .finished _ => toLex (0, 0)

/-- The body has a move of its own that brings it nearer to its end. -/
def Supervision.Advances (plan : RunPlan) (prompt : Promptness) (s : Supervision) : Prop :=
  ∃ act t, act.own = true ∧ Supervises plan prompt s act t ∧ t.doing.rank < s.doing.rank

/-- The body can only wait for its leader, and has the time for it: the deadline is ahead, or
    the five seconds after the SIGTERM have not passed, or the leader has been killed. -/
def Supervision.Awaits (s : Supervision) : Prop :=
  s.leader.exited = none ∧
    match s.doing with
    | .waiting _ => s.cancelledAt = none ∧ ∀ d, s.deadline = some d → s.now < d
    | .cleaning _ _ (.terminated t) => s.now < t + seconds terminateSeconds
    | .cleaning _ _ (.killed _) => True
    | _ => False

section Progress
variable {plan : RunPlan} {prompt : Promptness} {s t : Supervision} {act : SuperviseAct}

theorem waiting_rank (command : Command) :
    (Doing.waiting command).rank < (Doing.launching command).rank := by
  cases command <;> simp [Doing.rank, Prod.Lex.toLex_lt_toLex]

theorem cleaning_rank (command command' : Command) (timedOut : Bool) (kill : Kill) :
    (Doing.cleaning command timedOut kill).rank < (Doing.waiting command').rank := by
  cases kill <;> cases command' <;> simp [Doing.rank, Prod.Lex.toLex_lt_toLex]

theorem finished_rank (body : BodyEnd) (live : ∀ body, s.doing ≠ .finished body) :
    (Doing.finished body).rank < s.doing.rank := by
  cases doing : s.doing with
  | launching command => cases command <;> simp [Doing.rank, Prod.Lex.toLex_lt_toLex]
  | waiting command => cases command <;> simp [Doing.rank, Prod.Lex.toLex_lt_toLex]
  | cleaning command timedOut kill => cases kill <;> simp [Doing.rank, Prod.Lex.toLex_lt_toLex]
  | finished body => exact absurd doing (live body)

theorem destroyNext_rank (names : List String) :
    (destroyNext names).rank ≤ toLex (0, 2 * names.length + 3) := by
  cases names <;> simp [destroyNext, Doing.rank, Prod.Lex.toLex_le_toLex]
  omega

theorem next_rank (code : Int) (output : String) (command : Command) :
    (command.next plan code output).rank < (Doing.waiting command).rank := by
  cases command with
  | transfer =>
    simp only [Command.next, transferred]
    split
    · simp [Doing.rank, Prod.Lex.toLex_lt_toLex]
    · split <;> simp [Doing.rank, Prod.Lex.toLex_lt_toLex]
  | list => exact (destroyNext_rank _).trans_lt (by simp [Doing.rank, Prod.Lex.toLex_lt_toLex])
  | destroy name rest =>
    exact (destroyNext_rank rest).trans_lt (by simp [Doing.rank, Prod.Lex.toLex_lt_toLex])

theorem awaitBounded_rank (command : Command) :
    (s.awaitBounded command).doing.rank < (Doing.launching command).rank := by
  rcases awaitBounded_cases s command with ⟨-, -, -, await⟩ | ⟨-, await⟩
  · rw [await]
    exact (cleaning_rank _ _ _ _).trans (waiting_rank command)
  · rw [await]
    exact waiting_rank command

/-- Nothing takes the body back: a step leaves it where it is, or nearer to its end. -/
theorem step_rank (step : SuperviseStep plan prompt s act t) :
    t.doing = s.doing ∨ t.doing.rank < s.doing.rank := by
  cases step with
  | tick | exit | ignored | cancel | swallowed => exact .inl rfl
  | spawned launching calm => exact .inr (launching ▸ awaitBounded_rank _)
  | notSpawned launching calm => exact .inr (finished_rank _ (by simp [launching]))
  | returns waiting calm exited => exact .inr (waiting ▸ next_rank _ _ _)
  | expires waiting calm bounded past => exact .inr (waiting ▸ cleaning_rank _ _ _ _)
  | abandoned launching cancelled => exact .inr (finished_rank _ (by simp [launching]))
  | interrupted waiting cancelled => exact .inr (waiting ▸ cleaning_rank _ _ _ _)
  | terminate cleaning runs =>
    rw [cleaning]
    exact .inr (by simp [Doing.rank, Prod.Lex.toLex_lt_toLex])
  | kill cleaning past =>
    rw [cleaning]
    exact .inr (by simp [Doing.rank, Prod.Lex.toLex_lt_toLex])
  | refused cleaning => exact .inr (finished_rank _ (by simp [cleaning]))
  | reaped cleaning exited => exact .inr (finished_rank _ (by simp [cleaning]))

theorem advances_of (act : SuperviseAct) (own : act.own = true)
    (stepped : s.step plan prompt act = some t) (moved : t.doing ≠ s.doing) :
    s.Advances plan prompt :=
  ⟨act, t, own, stepped, (step_rank (supervise_cases stepped)).resolve_left moved⟩

theorem launching_advances {command : Command} (launching : s.doing = .launching command) :
    s.Advances plan prompt := by
  cases cancelled : s.cancelledAt with
  | none =>
    refine ⟨.spawned, ({ s with leaders := {} :: s.leaders } : Supervision).awaitBounded command, rfl,
      ?_, launching ▸ awaitBounded_rank command⟩
    simp only [Supervises, Supervision.step, launching, cancelled]
  | some c =>
    exact advances_of .interrupted rfl
      (by simp only [Supervision.step, launching, cancelled]; rfl) (by simp [launching])

theorem exited_advances {command : Command} {e : Int × Int}
    (busy : s.doing = .waiting command ∨ ∃ timedOut kill, s.doing = .cleaning command timedOut kill)
    (exited : s.leader.exited = some e) : s.Advances plan prompt := by
  rcases busy with waiting | ⟨timedOut, kill, cleaning⟩
  · cases cancelled : s.cancelledAt with
    | none =>
      refine ⟨.returns "", s.serve (command.next plan e.1 ""), rfl, ?_,
        waiting ▸ next_rank e.1 "" command⟩
      simp only [Supervises, Supervision.step, waiting, cancelled, exited]
    | some c =>
      exact advances_of .interrupted rfl
        (by simp only [Supervision.step, waiting, cancelled]; rfl) (by simp [waiting])
  · exact advances_of .reaped rfl (by simp only [Supervision.step, cleaning, exited]; rfl)
      (by simp [cleaning])

theorem waiting_progress {command : Command} (waiting : s.doing = .waiting command)
    (runs : s.leader.exited = none) : s.Advances plan prompt ∨ s.Awaits := by
  cases cancelled : s.cancelledAt with
  | some c =>
    exact .inl (advances_of .interrupted rfl
      (by simp only [Supervision.step, waiting, cancelled]; rfl) (by simp [waiting]))
  | none =>
    by_cases past : s.deadline.any (· ≤ s.now) = true
    · exact .inl (advances_of .expires rfl
        (by simp only [Supervision.step, waiting, cancelled]; exact if_pos past) (by simp [waiting]))
    · refine .inr ⟨runs, ?_⟩
      simp only [waiting]
      refine ⟨cancelled, fun d bounded => ?_⟩
      simpa [bounded] using past

theorem cleaning_progress {command : Command} {timedOut : Bool} {kill : Kill}
    (cleaning : s.doing = .cleaning command timedOut kill) (runs : s.leader.exited = none) :
    s.Advances plan prompt ∨ s.Awaits := by
  cases kill with
  | begun =>
    exact .inl (advances_of .terminate rfl
      (by simp only [Supervision.step, cleaning]; exact if_pos runs) (by simp [cleaning]))
  | terminated instant =>
    by_cases past : instant + seconds terminateSeconds ≤ s.now
    · exact .inl (advances_of .kill rfl
        (by simp only [Supervision.step, cleaning]; exact if_pos past) (by simp [cleaning]))
    · refine .inr ⟨runs, ?_⟩
      simp only [cleaning]
      omega
  | killed instant => exact .inr ⟨runs, by simp only [cleaning]⟩

theorem exit_advances {command : Command} (sound : s.Sound)
    (busy : s.doing = .waiting command ∨ ∃ timedOut kill, s.doing = .cleaning command timedOut kill)
    (runs : s.leader.exited = none) (code : Int) :
    ∃ t, Supervises plan prompt s (.exit code) t ∧ t.Advances plan prompt := by
  have started : s.leaders ≠ [] := by
    rcases busy with waiting | ⟨timedOut, kill, cleaning⟩
    · exact sound_started sound (.inl ⟨_, waiting⟩)
    · exact sound_started sound (.inr ⟨_, _, _, cleaning⟩)
  refine ⟨_, if_pos ⟨started, runs⟩, exited_advances (e := (code, s.now)) busy ?_⟩
  rw [onLeader_leader started]

theorem sound_progress (sound : s.Sound) (live : ∀ body, s.doing ≠ .finished body) :
    s.Advances plan prompt ∨ s.Awaits ∧
      ∀ code, ∃ t, Supervises plan prompt s (.exit code) t ∧ t.Advances plan prompt := by
  cases doing : s.doing with
  | launching command => exact .inl (launching_advances doing)
  | waiting command =>
    cases exited : s.leader.exited with
    | none =>
      exact (waiting_progress doing exited).imp_right
        fun awaits => ⟨awaits, exit_advances sound (.inl doing) exited⟩
    | some e => exact .inl (exited_advances (.inl doing) exited)
  | cleaning command timedOut kill =>
    cases exited : s.leader.exited with
    | none =>
      exact (cleaning_progress doing exited).imp_right
        fun awaits => ⟨awaits, exit_advances sound (.inr ⟨_, _, doing⟩) exited⟩
    | some e => exact .inl (exited_advances (.inr ⟨_, _, doing⟩) exited)
  | finished body => exact absurd doing (live body)

end Progress

def Sample.yielding : List SuperviseAct :=
  [.spawned, .tick (seconds 3600), .expires, .terminate, .tick (seconds 3604), .exit 20]

def Sample.yielded : Supervision :=
  { deadline := some (seconds 3600), now := seconds 3604, since := seconds 3600
    doing := .cleaning .transfer true (.terminated (seconds 3600))
    leaders := [⟨some (seconds 3600), none, some (20, seconds 3604)⟩] }

end Pullbackup
