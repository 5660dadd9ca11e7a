import Pullbackup.Library.Greedy

/- Greedy passes while what runs comes to an end. The oldest requests of a pass that starts
   none of them keep their scopes from the younger, so nothing but what ran at the outset can
   keep them waiting. -/
namespace Greedy

universe u
variable {J : Type u}

namespace Rules
variable {r : Rules J} {s : State J} {js : List J}

theorem pass_started_length (before js : List J) :
    (r.pass (State.begin before) js).started = [] ∨
      (r.pass (State.begin before) js).running.length ≤ r.limit := by
  refine pass_invariant (fun t => t.started = [] ∨ t.running.length ≤ r.limit)
    (fun t j fits => ?_) (.inl rfl) js
  cases blocked : r.blocked t j with
  | true =>
    rw [step_blocked blocked]
    exact fits
  | false =>
    rw [step_free blocked]
    have room := (free_iff.mp blocked).2.2
    refine .inr ?_
    simp only [State.running, List.length_append, List.length_singleton] at room ⊢
    omega

theorem pass_started_unheld (none : s.started = []) (js : List J) {e y : J} (waits : e ∈ s.waiting)
    (starts : y ∈ (r.pass s js).started) : r.held y e = false := by
  have kept : e ∈ (r.pass s js).waiting ∧ ∀ y ∈ (r.pass s js).started, r.held y e = false := by
    refine pass_invariant (fun t => e ∈ t.waiting ∧ ∀ y ∈ t.started, r.held y e = false)
      (fun t j inv => ?_) ⟨waits, by simp [none]⟩ js
    cases blocked : r.blocked t j with
    | true =>
      rw [step_blocked blocked]
      exact ⟨List.mem_append_left _ inv.1, inv.2⟩
    | false =>
      rw [step_free blocked]
      refine ⟨inv.1, fun y mem => ?_⟩
      rcases List.mem_append.mp mem with earlier | last
      · exact inv.2 y earlier
      · obtain rfl := List.mem_singleton.mp last
        exact (free_iff.mp blocked).2.1 e inv.1
  exact kept.2 y starts

/-- What runs while the oldest requests wait: old ran at the outset, new was started past them
    since. -/
structure Past (r : Rules J) (asks : J → Prop) (old new : List J) : Prop where
  apart : ∀ e, asks e → ∀ y ∈ new, r.busy e y = false
  room : new = [] ∨ old.length + new.length ≤ r.limit
  last : old = [] → new.length < r.limit

section Past
variable {asks : J → Prop} {old new old' new' es ys : List J}

theorem past_begin (positive : 0 < r.limit) (old : List J) : Past r asks old [] :=
  ⟨by simp, .inl rfl, fun _ => positive⟩

theorem past_ends (positive : 0 < r.limit) (past : Past r asks old new)
    (fewer : old'.Sublist old) (fewer' : new'.Sublist new) : Past r asks old' new' := by
  have bound := fewer.length_le
  have bound' := fewer'.length_le
  refine ⟨fun e waits y mem => past.apart e waits y (fewer'.subset mem), ?_, fun none => ?_⟩
  · rcases past.room with none | room
    · exact .inl (List.sublist_nil.mp (none ▸ fewer'))
    · exact .inr (by omega)
  · by_cases gone : old = []
    · have := past.last gone
      omega
    · have here := List.length_pos_iff.mpr gone
      rcases past.room with started | room
      · rw [started] at bound'
        simp only [List.length_nil] at bound'
        omega
      · omega

/-- A pass that starts none of the oldest requests finds some of the old still running, and
    starts only what stays out of their way. -/
theorem past_pass (past : Past r asks old new) (oldest : ∀ e, asks e ↔ e ∈ es) (some : es ≠ [])
    (apart : ∀ e ∈ es, ∀ y ∈ ys, r.held y e = false → r.busy e y = false)
    (rest : ∀ e ∈ es, e ∉ (r.pass (State.begin (old ++ new)) (es ++ ys)).started) :
    old ≠ [] ∧
      Past r asks old (new ++ (r.pass (State.begin (old ++ new)) (es ++ ys)).started) := by
  have early : (r.pass (State.begin (old ++ new)) es).started = [] := by
    refine List.eq_nil_iff_forall_not_mem.mpr fun e starts => ?_
    refine rest e (mem_request.mp (.inl starts)) ?_
    rw [pass_append]
    exact (pass_started _ ys).subset starts
  have waiting := pass_none_started early
  have stays : old ≠ [] := by
    obtain ⟨e, es, rfl⟩ := List.exists_cons_of_ne_nil some
    have blocked := none_started_iff.mp early [] e es rfl
    rw [blocked_iff] at blocked
    rintro rfl
    rcases blocked with ⟨i, mem, busy⟩ | ⟨i, mem, -⟩ | full
    · simp only [State.running, List.nil_append, List.append_nil] at mem
      rw [past.apart e ((oldest e).mpr List.mem_cons_self) i mem] at busy
      cases busy
    · cases mem
    · have := past.last rfl
      simp only [State.running, List.nil_append, List.append_nil] at full
      omega
  refine ⟨stays, ?_, ?_, fun none => absurd none stays⟩
  · intro e waits y mem
    rcases List.mem_append.mp mem with earlier | starts
    · exact past.apart e waits y earlier
    have asked := (oldest e).mp waits
    have requested := mem_request.mp (Or.inl starts)
    have younger : y ∈ ys :=
      (List.mem_append.mp requested).resolve_left fun oldest => rest y oldest starts
    refine apart e asked y younger ?_
    rw [pass_append, waiting] at starts
    exact pass_started_unheld rfl ys asked starts
  · rcases pass_started_length (r := r) (old ++ new) (es ++ ys) with none | fits
    · rw [none, List.append_nil]
      exact past.room
    · right
      simp only [State.running, List.length_append] at fits ⊢
      have before : (r.pass (State.begin (old ++ new)) (es ++ ys)).before = old ++ new :=
        pass_before _ _
      rw [before, List.length_append] at fits
      omega

end Past

end Rules

end Greedy
