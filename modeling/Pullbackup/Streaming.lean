import Pullbackup.Library.History
import Pullbackup.Library.Text
import Pullbackup.Models

/- stream_log: the log of a run is read while the run still writes it. -/
namespace Pullbackup
open Text

def RunState.value : RunState → String
  | .pending => "pending"
  | .running => "running"
  | .success => "success"
  | .failed => "failed"
  | .cancelled => "cancelled"

/-- Where the generator stands: before the open, in the loop, or at an end. -/
inductive StreamPhase where
  | waiting (looks : Nat)
  | tailing
  | ended (data : String)
  deriving DecidableEq, Repr

inductive StreamEvent where
  | log (data : List Char)
  | ended (data : String)
  deriving DecidableEq, Repr

/-- The run, its log beyond the position of the reader (none where there is no file yet), the
    generator, and the lines that readline has returned. -/
structure LogStream where
  state : RunState := .pending
  ahead : Option (List Char) := none
  phase : StreamPhase := .waiting 0
  taken : List (List Char) := []
  deriving DecidableEq, Repr

/-- An append of nothing is the open that makes the file. -/
inductive StreamAct where
  | append (text : List Char)
  | terminalize (state : RunState)
  | poll
  deriving DecidableEq, Repr

def LogStream.events (s : LogStream) : List StreamEvent :=
  s.taken.map (fun line => .log (chomp line)) ++
    match s.phase with
    | .ended data => [.ended data]
    | _ => []

def LogStream.tail (s : LogStream) (text : List Char) : LogStream :=
  if text = [] then
    if s.state.active then { s with phase := .tailing }
    else { s with phase := .ended s.state.value }
  else
    { s with
      ahead := some (text.drop (takeLine text).length)
      phase := .tailing
      taken := s.taken ++ [readLine text] }

/-- The generator between two awaits: twenty looks for the file and a last one. -/
def LogStream.poll (s : LogStream) : Option LogStream :=
  match s.phase, s.ahead with
  | .ended _, _ => none
  | .waiting looks, none =>
    some { s with phase := if looks < 20 then .waiting (looks + 1) else .ended "" }
  | .tailing, none => none
  | .waiting _, some text | .tailing, some text => some (s.tail text)

/-- The run appends while it is active and becomes terminal once. -/
def LogStream.step (s : LogStream) : StreamAct → Option LogStream
  | .append text =>
    if s.state.active then some { s with ahead := some (s.ahead.getD [] ++ text) } else none
  | .terminalize state =>
    if s.state.active && !state.active then some { s with state := state } else none
  | .poll => s.poll

def LogStream.run (s : LogStream) (acts : List StreamAct) : Option LogStream :=
  acts.foldlM LogStream.step s

def written : List StreamAct → List Char
  | [] => []
  | .append text :: rest => text ++ written rest
  | _ :: rest => written rest

/-- The events are the lines of the log, read as a text file, and one end with the state of the
    run. -/
def LogStream.Faithful (s : LogStream) (log : List Char) : Prop :=
  s.events = (fileLines (newlines log)).map .log ++ [.ended s.state.value]

/-- A poll that ends the stream before there is a file, or that takes the front of a line whose
    rest is appended later. -/
def LogStream.Slips (s : LogStream) (later : List StreamAct) : Prop :=
  ((∃ looks, s.phase = .waiting looks ∧ 20 ≤ looks) ∧ s.ahead = none) ∨
    Continued (s.ahead.getD []) (written later)

def LogStream.Slipping (s : LogStream) : List StreamAct → Prop
  | [] => False
  | act :: rest => (act = .poll ∧ s.Slips rest) ∨ ∃ t, s.step act = some t ∧ t.Slipping rest

section Run
variable {s t : LogStream} {act : StreamAct} {acts : List StreamAct}

theorem run_cons : s.run (act :: acts) = some t ↔ ∃ m, s.step act = some m ∧ m.run acts = some t := by
  simp [LogStream.run, Option.bind_eq_some_iff]

theorem slipping_cons {m : LogStream} (first : s.step act = some m) :
    s.Slipping (act :: acts) ↔ (act = .poll ∧ s.Slips acts) ∨ m.Slipping acts := by
  simp [LogStream.Slipping, first]

/-- What one step of the run or of the reader does. -/
inductive StreamStep (s : LogStream) : StreamAct → LogStream → Prop where
  | appended (text : List Char) (active : s.state.active = true) :
      StreamStep s (.append text) { s with ahead := some (s.ahead.getD [] ++ text) }
  | terminal (state : RunState) (active : s.state.active = true) (final : state.active = false) :
      StreamStep s (.terminalize state) { s with state := state }
  | looked (looks : Nat) (waits : s.phase = .waiting looks) (missing : s.ahead = none)
      (more : looks < 20) : StreamStep s .poll { s with phase := .waiting (looks + 1) }
  | gaveUp (looks : Nat) (waits : s.phase = .waiting looks) (missing : s.ahead = none)
      (past : 20 ≤ looks) : StreamStep s .poll { s with phase := .ended "" }
  | slept (live : ∀ data, s.phase ≠ .ended data) (read : s.ahead = some [])
      (active : s.state.active = true) : StreamStep s .poll { s with phase := .tailing }
  | ended (live : ∀ data, s.phase ≠ .ended data) (read : s.ahead = some [])
      (final : s.state.active = false) :
      StreamStep s .poll { s with phase := .ended s.state.value }
  | read (text : List Char) (live : ∀ data, s.phase ≠ .ended data) (ahead : s.ahead = some text)
      (nonempty : text ≠ []) : StreamStep s .poll
        { s with
          ahead := some (text.drop (takeLine text).length)
          phase := .tailing
          taken := s.taken ++ [readLine text] }

theorem tail_cases (live : ∀ data, s.phase ≠ .ended data) {text : List Char}
    (ahead : s.ahead = some text) : StreamStep s .poll (s.tail text) := by
  unfold LogStream.tail
  split
  · rename_i empty
    subst empty
    split
    · rename_i active
      exact .slept live ahead active
    · rename_i final
      exact .ended live ahead (by simpa using final)
  · rename_i nonempty
    exact .read text live ahead nonempty

theorem step_cases (stepped : s.step act = some t) : StreamStep s act t := by
  cases act with
  | append text =>
    simp only [LogStream.step] at stepped
    split at stepped
    · rename_i active
      cases stepped
      exact .appended text active
    · cases stepped
  | terminalize state =>
    simp only [LogStream.step] at stepped
    split at stepped
    · rename_i both
      cases stepped
      simp only [Bool.and_eq_true, Bool.not_eq_true'] at both
      exact .terminal state both.1 both.2
    · cases stepped
  | poll =>
    simp only [LogStream.step, LogStream.poll] at stepped
    split at stepped
    · cases stepped
    · rename_i looks waits missing
      cases stepped
      split
      · rename_i more
        exact .looked looks waits missing more
      · exact .gaveUp looks waits missing (by omega)
    · cases stepped
    · rename_i waits ahead
      cases stepped
      exact tail_cases (by simp [waits]) ahead
    · rename_i tails ahead
      cases stepped
      exact tail_cases (by simp [tails]) ahead

theorem run_ended {data : String} (ended : s.phase = .ended data) (done : s.run acts = some t) :
    t.phase = .ended data ∧ (s.state.active = false → acts = []) := by
  induction acts generalizing s with
  | nil =>
    cases done
    exact ⟨ended, fun _ => rfl⟩
  | cons act acts ih =>
    obtain ⟨m, stepped, rest⟩ := run_cons.mp done
    cases step_cases stepped with
    | appended text active =>
      exact ⟨(ih (by exact ended) rest).1, fun final => by simp [final] at active⟩
    | terminal state active final =>
      exact ⟨(ih (by exact ended) rest).1, fun still => by simp [still] at active⟩
    | looked looks waits missing more => simp [waits] at ended
    | gaveUp looks waits missing past => simp [waits] at ended
    | slept live read active => exact absurd ended (live data)
    | ended live read final => exact absurd ended (live data)
    | read text live ahead nonempty => exact absurd ended (live data)

theorem not_continued_nil (later : List Char) : ¬ Continued [] later := by
  rintro (⟨torn, -⟩ | ⟨body, -, same, -⟩)
  · exact torn.1 rfl
  · simp at same

/-- The end of a schedule: the stream gave up, or it took everything that was written, and it
    slipped exactly when one of the lines it took is continued by the next. -/
def LogStream.Outcome (s : LogStream) (acts : List StreamAct) (t : LogStream) (data : String) : Prop :=
  (data = "" ∧ s.Slipping acts) ∨
    (data = t.state.value ∧ ∃ lines : List (List Char), t.taken = s.taken ++ lines.map newlines ∧
      lines.flatten = s.ahead.getD [] ++ written acts ∧ (∀ line ∈ lines, LineRead line) ∧
      (s.Slipping acts ↔ ¬ Seamless lines))

theorem outcome_kept {m : LogStream} {data : String} (first : s.step act = some m)
    (taken : m.taken = s.taken)
    (text : m.ahead.getD [] ++ written acts = s.ahead.getD [] ++ written (act :: acts))
    (clean : act = .poll → ¬s.Slips acts) (outcome : m.Outcome acts t data) :
    s.Outcome (act :: acts) t data := by
  have slipping : s.Slipping (act :: acts) ↔ m.Slipping acts := by
    rw [slipping_cons first]
    exact or_iff_right fun slip => clean slip.1 slip.2
  unfold LogStream.Outcome
  rw [slipping, ← taken, ← text]
  exact outcome

/-- A step that reads a line slips when the line is continued. -/
theorem outcome_read {m : LogStream} {data : String} {text : List Char}
    (first : s.step .poll = some m) (ahead : s.ahead = some text) (nonempty : text ≠ [])
    (moved : m.ahead = some (text.drop (takeLine text).length))
    (tookLine : m.taken = s.taken ++ [readLine text]) (outcome : m.Outcome acts t data) :
    s.Outcome (.poll :: acts) t data := by
  obtain ⟨line, after, split, continued⟩ := takeLine_read nonempty
  have drop : text.drop (takeLine text).length = after := by
    have cut := congrArg (List.drop (takeLine text).length) split
    rwa [List.drop_left] at cut
  unfold LogStream.Outcome
  rw [slipping_cons first]
  obtain ⟨gave, slips⟩ | ⟨same, lines, taken, whole, reads, slips⟩ := outcome
  · exact Or.inl ⟨gave, Or.inr slips⟩
  · rw [moved, Option.getD_some, drop] at whole
    refine Or.inr ⟨same, takeLine text :: lines, ?_, ?_, ?_, ?_⟩
    · rw [taken, tookLine, List.map_cons, List.append_assoc]
      rfl
    · rw [List.flatten_cons, whole, ahead]
      simp only [Option.getD_some, written]
      conv_rhs => rw [split]
      rw [List.append_assoc]
    · exact List.forall_mem_cons.mpr ⟨line, reads⟩
    · have slip : s.Slips acts ↔ Continued (takeLine text) lines.flatten := by
        rw [whole, ← continued]
        simp [LogStream.Slips, ahead]
      rw [slips, slip, Seamless, not_and_or, not_not]
      exact or_congr_left (and_iff_right rfl)

theorem run_outcome {data : String} (done : s.run acts = some t)
    (live : ∀ data, s.phase ≠ .ended data) (ended : t.phase = .ended data) :
    s.Outcome acts t data := by
  induction acts generalizing s with
  | nil =>
    cases done
    exact absurd ended (live data)
  | cons act acts ih =>
    obtain ⟨m, stepped, rest⟩ := run_cons.mp done
    cases step_cases stepped with
    | appended text active =>
      exact outcome_kept stepped rfl (by simp [written]) (by simp) (ih rest live)
    | terminal state active final => exact outcome_kept stepped rfl rfl (by simp) (ih rest live)
    | looked looks waits missing more =>
      refine outcome_kept stepped rfl rfl (fun _ => ?_) (ih rest (by simp))
      rintro (⟨⟨count, same, past⟩, _⟩ | continued)
      · rw [waits] at same
        cases same
        omega
      · rw [missing] at continued
        exact not_continued_nil _ continued
    | gaveUp looks waits missing past =>
      have last := (run_ended rfl rest).1
      rw [ended] at last
      cases last
      exact Or.inl ⟨rfl, Or.inl ⟨rfl, Or.inl ⟨⟨looks, waits, past⟩, missing⟩⟩⟩
    | slept live' read active =>
      refine outcome_kept stepped rfl rfl (fun _ => ?_) (ih rest (by simp))
      rintro (⟨_, missing⟩ | continued)
      · simp [read] at missing
      · rw [read] at continued
        exact not_continued_nil _ continued
    | ended live' read final =>
      obtain ⟨last, nothing⟩ := run_ended rfl rest
      obtain rfl := nothing final
      cases rest
      cases ended
      refine Or.inr ⟨rfl, [], by simp, by simp [read, written], by simp, ?_⟩
      simp [LogStream.Slips, LogStream.Slipping, Seamless, read, not_continued_nil]
    | read text live' ahead nonempty =>
      exact outcome_read stepped ahead nonempty rfl rfl (ih rest (by simp))

theorem events_ended {data : String} (ended : s.phase = .ended data) :
    s.events = (s.taken.map chomp).map .log ++ [.ended data] := by
  simp [LogStream.events, ended]

theorem poll_file (live : ∀ data, s.phase ≠ .ended data) {text : List Char}
    (ahead : s.ahead = some text) : s.step .poll = some (s.tail text) := by
  simp only [LogStream.step, LogStream.poll, ahead]
  cases phase : s.phase with
  | ended data => exact absurd phase (live data)
  | waiting looks => rfl
  | tailing => rfl

/-- Once the run is terminal every poll takes a line or ends the stream. -/
theorem polls_file {text : List Char} (ahead : s.ahead = some text) (final : s.state.active = false) :
    ∃ n t data, s.run (List.replicate n .poll) = some t ∧ t.phase = .ended data := by
  induction bound : text.length using Nat.strongRecOn generalizing s text with
  | ind k ih =>
    by_cases finished : ∃ data, s.phase = .ended data
    · obtain ⟨data, phase⟩ := finished
      exact ⟨0, s, data, rfl, phase⟩
    · have polled := poll_file (fun data phase => finished ⟨data, phase⟩) ahead
      by_cases nonempty : text = []
      · have last : s.tail text = { s with phase := .ended s.state.value } := by
          simp [LogStream.tail, nonempty, final]
        refine ⟨1, s.tail text, s.state.value, ?_, by rw [last]⟩
        exact run_cons.mpr ⟨s.tail text, polled, rfl⟩
      · obtain ⟨line, after, split, -⟩ := takeLine_read nonempty
        have fewer : (text.drop (takeLine text).length).length < k := by
          have one := List.length_pos_iff.mpr line.ne_nil
          have all := List.length_pos_iff.mpr nonempty
          rw [List.length_drop]
          omega
        have next : (s.tail text).ahead = some (text.drop (takeLine text).length) := by
          simp [LogStream.tail, nonempty]
        have still : (s.tail text).state.active = false := by
          simpa [LogStream.tail, nonempty] using final
        obtain ⟨n, t, data, done, ends⟩ := ih _ fewer next still rfl
        exact ⟨n + 1, t, data, run_cons.mpr ⟨s.tail text, polled, done⟩, ends⟩

theorem polls_missing {looks : Nat} (waits : s.phase = .waiting looks) (missing : s.ahead = none) :
    ∃ n t data, s.run (List.replicate n .poll) = some t ∧ t.phase = .ended data := by
  induction left : 20 - looks generalizing s looks with
  | zero =>
    have polled : s.step .poll = some { s with phase := .ended "" } := by
      simp only [LogStream.step, LogStream.poll, waits, missing]
      rw [if_neg (by omega)]
    exact ⟨1, _, "", run_cons.mpr ⟨_, polled, rfl⟩, rfl⟩
  | succ k ih =>
    have polled : s.step .poll = some { s with phase := .waiting (looks + 1) } := by
      simp only [LogStream.step, LogStream.poll, waits, missing]
      rw [if_pos (by omega)]
    obtain ⟨n, t, data, done, ends⟩ :=
      ih (s := { s with phase := .waiting (looks + 1) }) rfl missing (by omega)
    exact ⟨n + 1, t, data, run_cons.mpr ⟨_, polled, done⟩, ends⟩

theorem run_open (start : s.phase = .tailing → s.ahead.isSome = true) (done : s.run acts = some t) :
    t.phase = .tailing → t.ahead.isSome = true := by
  induction acts generalizing s with
  | nil =>
    cases done
    exact start
  | cons act acts ih =>
    obtain ⟨m, stepped, rest⟩ := run_cons.mp done
    apply ih ?_ rest
    cases step_cases stepped with
    | appended text active => simp
    | terminal state active final => exact start
    | looked looks waits missing more => simp
    | gaveUp looks waits missing past => simp
    | slept live read active => simp [read]
    | ended live read final => simp
    | read text live ahead nonempty => simp

/-- A finished stream of a terminal run is faithful to the log exactly when no poll slipped, and
    polls alone finish the stream of a terminal run. -/
theorem stream_faithful_iff (acts : List StreamAct) (s : LogStream)
    (done : ({} : LogStream).run acts = some s) (final : s.state.active = false) :
    (∀ data, s.phase = .ended data →
      (s.Faithful (written acts) ↔ ¬ ({} : LogStream).Slipping acts)) ∧
    ∃ n t data, s.run (List.replicate n .poll) = some t ∧ t.phase = .ended data := by
  constructor
  · intro data ended
    unfold LogStream.Faithful
    rw [events_ended ended]
    obtain ⟨rfl, slips⟩ | ⟨rfl, lines, taken, whole, reads, slips⟩ :=
      run_outcome done (by simp) ended
    · constructor
      · intro same
        have last := congrArg List.getLast? same
        simp only [List.getLast?_append, List.getLast?_singleton, Option.some_or,
          Option.some.injEq, StreamEvent.ended.injEq] at last
        cases state : s.state <;> simp [state, RunState.value] at last
      · exact fun holds => absurd slips holds
    · have all : s.taken = lines.map newlines := by simpa using taken
      have text : lines.flatten = written acts := by simpa using whole
      have chomped : (lines.map newlines).map chomp = lines.map fun line => chomp (newlines line) := by
        rw [List.map_map]
        rfl
      rw [slips, all, List.append_left_inj, ← text, chomped]
      have injective : Function.Injective StreamEvent.log := fun _ _ same => by cases same; rfl
      rw [(List.map_injective_iff.mpr injective).eq_iff, eq_comm, not_not]
      exact (fileLines_reads reads).2
  · cases ahead : s.ahead with
    | some text => exact polls_file ahead final
    | none =>
      cases phase : s.phase with
      | waiting looks => exact polls_missing phase ahead
      | tailing =>
        have opened := run_open (by simp) done phase
        simp [ahead] at opened
      | ended data => exact ⟨0, s, data, rfl, phase⟩

end Run

namespace Sample

def tornSchedule : List StreamAct :=
  [.append "ab".toList, .poll, .append "c\n".toList, .terminalize .success, .poll, .poll]

def wholeSchedule : List StreamAct :=
  [.append [], .poll, .append "10%\x0d".toList, .poll, .append "20%\x0d\nd".toList,
    .terminalize .failed, .poll, .poll, .poll]

/-- A line whose end is cut between its two characters. -/
def cutEnd : List StreamAct :=
  [.append "a\x0d".toList, .poll, .append "\nb\n".toList, .terminalize .success, .poll, .poll,
    .poll]

end Sample

theorem stream_faithful_whole : ∃ s, ({} : LogStream).run Sample.wholeSchedule = some s ∧
    (s.Faithful (written Sample.wholeSchedule) ↔
      ¬ ({} : LogStream).Slipping Sample.wholeSchedule) := by
  refine ⟨_, rfl, ?_⟩
  exact (stream_faithful_iff Sample.wholeSchedule _ rfl (by decide)).1 "failed" (by decide)

/-- The halves of a line become two events. -/
theorem torn_line : ∃ s, ({} : LogStream).run Sample.tornSchedule = some s ∧
    s.state = .success ∧ written Sample.tornSchedule = "abc\n".toList ∧
    s.events = [.log "ab".toList, .log "c".toList, .ended "success"] ∧
    ¬ s.Faithful (written Sample.tornSchedule) := by
  refine ⟨_, rfl, by decide, by decide, by decide, ?_⟩
  unfold LogStream.Faithful
  decide

example : (({} : LogStream).run Sample.cutEnd).map LogStream.events =
    some [.log "a".toList, .log [], .log "b".toList, .ended "success"] := by decide

end Pullbackup
