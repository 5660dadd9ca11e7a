import Mathlib.Order.Basic
import Mathlib.Algebra.GroupWithZero.Nat

/- Finite histories of a labelled transition relation. A condition on the
   steps of a history is a smaller relation, so it needs no notion of its own. -/
namespace History

universe u v
variable {σ : Type u} {α : Type v}

inductive Trace (step : σ → α → σ → Prop) (s : σ) : List α → σ → Prop where
  | nil : Trace step s [] s
  | snoc {t u : σ} {as : List α} {a : α}
      (before : Trace step s as t) (last : step t a u) : Trace step s (as ++ [a]) u

variable {step step' : σ → α → σ → Prop}

theorem trace_single {s t : σ} {a : α} (h : step s a t) : Trace step s [a] t :=
  Trace.snoc Trace.nil h

theorem trace_append {s t u : σ} {as bs : List α} (first : Trace step s as t)
    (second : Trace step t bs u) : Trace step s (as ++ bs) u := by
  induction second with
  | nil => simpa using first
  | snoc before last ih =>
    rw [← List.append_assoc]
    exact Trace.snoc ih last

theorem trace_cons {s t u : σ} {a : α} {as : List α} (head : step s a t)
    (tail : Trace step t as u) : Trace step s (a :: as) u :=
  trace_append (trace_single head) tail

theorem trace_nil {s t : σ} (trace : Trace step s [] t) : t = s := by
  generalize whole : ([] : List α) = as at trace
  cases trace with
  | nil => rfl
  | snoc before last => simp at whole

theorem trace_uncons {s u : σ} {a : α} {as : List α} (trace : Trace step s (a :: as) u) :
    ∃ t, step s a t ∧ Trace step t as u := by
  generalize whole : a :: as = bs at trace
  induction trace generalizing as with
  | nil => cases whole
  | snoc before last ih =>
    rename_i t u bs b
    cases bs with
    | nil =>
      cases whole
      rw [trace_nil before] at last
      exact ⟨u, last, Trace.nil⟩
    | cons c cs =>
      cases whole
      obtain ⟨m, head, tail⟩ := ih rfl
      exact ⟨m, head, Trace.snoc tail last⟩

/-- A run of a partial function is a history of any relation it implements. -/
theorem trace_of_foldlM {f : σ → α → Option σ} (sound : ∀ s a t, f s a = some t → step s a t)
    {s t : σ} {as : List α} (done : as.foldlM f s = some t) : Trace step s as t := by
  induction as generalizing s with
  | nil =>
    cases done
    exact Trace.nil
  | cons a as ih =>
    simp only [List.foldlM_cons, Option.bind_eq_bind, Option.bind_eq_some_iff] at done
    obtain ⟨m, first, rest⟩ := done
    exact trace_cons (sound s a m first) (ih rest)

/-- What the start satisfies and every step keeps holds wherever the history ends. -/
theorem trace_invariant (inv : σ → Prop) (keeps : ∀ s a t, inv s → step s a t → inv t)
    {s t : σ} {as : List α} (trace : Trace step s as t) (start : inv s) : inv t := by
  induction trace with
  | nil => exact start
  | snoc before last ih => exact keeps _ _ _ ih last

theorem trace_mono (weaker : ∀ s a t, step s a t → step' s a t) {s t : σ} {as : List α}
    (trace : Trace step s as t) : Trace step' s as t := by
  induction trace with
  | nil => exact Trace.nil
  | snoc before last ih => exact Trace.snoc ih (weaker _ _ _ last)

/- A run of a function, and a condition on each of its steps. -/

def EveryStep (next : σ → α → σ) (P : σ → α → Prop) : σ → List α → Prop
  | _, [] => True
  | s, a :: as => P s a ∧ EveryStep next P (next s a) as

instance decidableEveryStep (next : σ → α → σ) (P : σ → α → Prop) [∀ s a, Decidable (P s a)] :
    ∀ s as, Decidable (EveryStep next P s as)
  | _, [] => inferInstanceAs (Decidable True)
  | s, a :: as =>
    have := decidableEveryStep next P (next s a) as
    inferInstanceAs (Decidable (P s a ∧ EveryStep next P (next s a) as))

theorem everyStep_iff {next : σ → α → σ} {P Q : σ → α → Prop} (inv : σ → Prop)
    (agree : ∀ s a, inv s → (P s a ↔ Q s a)) (keeps : ∀ s a, inv s → Q s a → inv (next s a))
    {s : σ} (start : inv s) (as : List α) : EveryStep next P s as ↔ EveryStep next Q s as := by
  induction as generalizing s with
  | nil => rfl
  | cons a as ih =>
    simp only [EveryStep, agree s a start]
    constructor
    · rintro ⟨head, rest⟩
      exact ⟨head, (ih (keeps s a start head)).mp rest⟩
    · rintro ⟨head, rest⟩
      exact ⟨head, (ih (keeps s a start head)).mpr rest⟩

theorem everyStep_and {next : σ → α → σ} {P Q : σ → α → Prop} {s : σ} (as : List α) :
    EveryStep next (fun s a => P s a ∧ Q s a) s as ↔ EveryStep next P s as ∧ EveryStep next Q s as := by
  induction as generalizing s with
  | nil => simp [EveryStep]
  | cons a as ih =>
    simp only [EveryStep, ih]
    exact and_and_and_comm

/-- Where every step pays for what it spends and for what it leaves to be spent, so does a run. -/
theorem run_spent_le {next : σ → α → σ} {spent potential : σ → Nat} {budget : α → Nat}
    (pays : ∀ s a, spent (next s a) + potential (next s a) ≤ spent s + potential s + budget a)
    (s : σ) (as : List α) :
    spent (as.foldl next s) + potential (as.foldl next s) ≤
      spent s + potential s + (as.map budget).sum := by
  induction as generalizing s with
  | nil => simp
  | cons a as ih =>
    have first := pays s a
    have rest := ih (next s a)
    simp only [List.foldl_cons, List.map_cons, List.sum_cons]
    omega

end History
