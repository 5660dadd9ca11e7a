import Pullbackup.Library.KeyedTable

/- A keyed table whose rows stand in the order of their expiry, so that the front
is what expires first. -/
namespace ExpiryQueue
open KeyedTable

universe u v w
variable {κ : Type u} {ρ : Type v} {T : Type w} [Keyed ρ κ] [LinearOrder T]
  {expiry : ρ → T} {now : T} {t : Table ρ} {r x : ρ}

def popFront (t : Table ρ) : Table ρ :=
  ⟨t.rows.tail, t.unique.sublist ((List.tail_sublist _).map _)⟩

def dropExpired (expiry : ρ → T) (now : T) (t : Table ρ) : Table ρ :=
  ⟨t.rows.dropWhile fun r => expiry r ≤ now, t.unique.sublist ((List.dropWhile_sublist _).map _)⟩

def looksAt (expiry : ρ → T) (now : T) (t : Table ρ) : Nat :=
  (t.rows.takeWhile fun r => expiry r ≤ now).length + min 1 (dropExpired expiry now t).rows.length

def Ordered (expiry : ρ → T) (t : Table ρ) : Prop :=
  t.rows.Pairwise fun a b => expiry a ≤ expiry b

theorem mem_of_dropExpired (mem : x ∈ (dropExpired expiry now t).rows) : x ∈ t.rows :=
  (List.dropWhile_sublist _).subset mem

/-- A sweep of the front drops exactly what has expired, wherever it stands. -/
theorem mem_dropExpired_iff (ordered : Ordered expiry t) :
    x ∈ (dropExpired expiry now t).rows ↔ x ∈ t.rows ∧ now < expiry x := by
  have sweep : ∀ xs : List ρ, xs.Pairwise (fun a b => expiry a ≤ expiry b) →
      (x ∈ xs.dropWhile (fun r => expiry r ≤ now) ↔ x ∈ xs ∧ now < expiry x) := by
    intro xs sorted
    induction xs with
    | nil => simp
    | cons y ys ih =>
      obtain ⟨first, rest⟩ := List.pairwise_cons.mp sorted
      by_cases expired : expiry y ≤ now
      · rw [List.dropWhile_cons_of_pos (by simpa using expired), ih rest]
        constructor
        · rintro ⟨mem, live⟩
          exact ⟨List.mem_cons_of_mem y mem, live⟩
        · rintro ⟨mem, live⟩
          rcases List.mem_cons.mp mem with rfl | tail
          · exact absurd live (not_lt.mpr expired)
          · exact ⟨tail, live⟩
      · rw [List.dropWhile_cons_of_neg (by simpa using expired)]
        constructor
        · intro mem
          refine ⟨mem, ?_⟩
          rcases List.mem_cons.mp mem with rfl | tail
          · exact not_le.mp expired
          · exact lt_of_lt_of_le (not_le.mp expired) (first x tail)
        · exact fun mem => mem.1
  exact sweep t.rows ordered

/-- A sweep looks at what it drops and at one row more at most. -/
theorem looksAt_le (expiry : ρ → T) (now : T) (t : Table ρ) :
    looksAt expiry now t + (dropExpired expiry now t).rows.length ≤ t.rows.length + 1 := by
  have whole : (t.rows.takeWhile fun r => expiry r ≤ now).length +
      (dropExpired expiry now t).rows.length = t.rows.length := by
    rw [← List.length_append]
    exact congrArg List.length List.takeWhile_append_dropWhile
  simp only [looksAt]
  omega

theorem front_least {rest : List ρ} (ordered : Ordered expiry t) (front : t.rows = x :: rest) :
    ∀ r ∈ t.rows, expiry x ≤ expiry r := by
  rw [Ordered, front] at ordered
  intro r mem
  rw [front] at mem
  rcases List.mem_cons.mp mem with rfl | tail
  · exact le_refl _
  · exact (List.pairwise_cons.mp ordered).1 r tail

theorem mem_popFront (mem : r ∈ (popFront t).rows) : r ∈ t.rows :=
  (List.tail_sublist _).subset mem

theorem popFront_length : (popFront t).rows.length = t.rows.length - 1 := List.length_tail

theorem gone_popFront (mem : r ∈ t.rows) (gone : r ∉ (popFront t).rows) :
    ∃ rest, t.rows = r :: rest := by
  cases rows : t.rows with
  | nil => simp [rows] at mem
  | cons y ys =>
    simp only [popFront, rows, List.tail_cons] at gone
    rw [rows] at mem
    rcases List.mem_cons.mp mem with rfl | tail
    · exact ⟨ys, rfl⟩
    · exact absurd tail gone

section Push
variable [DecidableEq κ]

theorem rows_put_new (new : ∀ x ∈ t.rows, Keyed.key x ≠ Keyed.key r) :
    (t.put r).rows = t.rows ++ [r] := putRow_of_new new

theorem ordered_put_new (ordered : Ordered expiry t) (new : ∀ x ∈ t.rows, Keyed.key x ≠ Keyed.key r)
    (last : ∀ x ∈ t.rows, expiry x ≤ expiry r) : Ordered expiry (t.put r) := by
  rw [Ordered, rows_put_new new]
  apply List.pairwise_append.mpr
  refine ⟨ordered, List.pairwise_singleton _ _, ?_⟩
  intro a mem b single
  rw [List.mem_singleton.mp single]
  exact last a mem

theorem erase_length_le {k : κ} : (t.erase k).rows.length ≤ t.rows.length :=
  List.length_filter_le _ _

theorem erase_length {k : κ} (mem : x ∈ t.rows) (named : Keyed.key x = k) :
    (t.erase k).rows.length + 1 ≤ t.rows.length := by
  have shorter : (t.erase k).rows.length < t.rows.length :=
    List.length_filter_lt_length_iff_exists.mpr ⟨x, mem, by simp [named]⟩
  omega

theorem erase_of_absent {k : κ} (absent : ∀ x ∈ t.rows, Keyed.key x ≠ k) : t.erase k = t := by
  obtain ⟨rows, unique⟩ := t
  simp only [Table.erase, Table.mk.injEq]
  exact List.filter_eq_self.mpr fun x mem => by simpa using absent x mem

end Push

/-- Behind a row there are only rows with some of the keys. -/
def Trails (r : ρ) (keys : List κ) (t : Table ρ) : Prop :=
  ∃ front behind, t.rows = front ++ r :: behind ∧ ∀ x ∈ behind, Keyed.key x ∈ keys

section Trailing
variable {keys : List κ}

theorem mem_of_trails (trails : Trails r keys t) : r ∈ t.rows := by
  obtain ⟨front, behind, rows, -⟩ := trails
  rw [rows]
  exact List.mem_append_right front List.mem_cons_self

theorem trails_dropExpired (trails : Trails r keys t) (live : now < expiry r) :
    Trails r keys (dropExpired expiry now t) := by
  obtain ⟨front, behind, rows, origin⟩ := trails
  have stops : ∀ xs : List ρ, ∃ ys, (xs ++ r :: behind).dropWhile (fun x => expiry x ≤ now) =
      ys ++ r :: behind := by
    intro xs
    induction xs with
    | nil => exact ⟨[], List.dropWhile_cons_of_neg (by simpa using live)⟩
    | cons x xs ih =>
      by_cases expired : expiry x ≤ now
      · obtain ⟨ys, same⟩ := ih
        refine ⟨ys, ?_⟩
        rw [List.cons_append, List.dropWhile_cons_of_pos (by simpa using expired), same]
      · exact ⟨x :: xs, List.dropWhile_cons_of_neg (by simpa using expired)⟩
  obtain ⟨ys, same⟩ := stops front
  refine ⟨ys, behind, ?_, origin⟩
  simp only [dropExpired, rows]
  exact same

variable [DecidableEq κ] {k : κ} {new : ρ} {share : Nat}

theorem trails_erase (trails : Trails r keys t) (other : Keyed.key r ≠ k) :
    Trails r keys (t.erase k) := by
  obtain ⟨front, behind, rows, origin⟩ := trails
  refine ⟨front.filter fun x => Keyed.key x ≠ k, behind.filter fun x => Keyed.key x ≠ k, ?_, ?_⟩
  · simp only [Table.erase, rows, List.filter_append]
    rw [List.filter_cons_of_pos (by simpa using other)]
  · exact fun x mem => origin x (List.mem_of_mem_filter mem)

theorem trails_put_new (absent : ∀ x ∈ t.rows, Keyed.key x ≠ Keyed.key new) :
    Trails new keys (t.put new) := by
  refine ⟨t.rows, [], rows_put_new absent, ?_⟩
  simp

/-- A push onto a queue with a share of its own loses a row only when the rows that trail it,
    with the new one, fill the share. -/
theorem trails_push (trails : Trails r keys t)
    (absent : ∀ x ∈ t.rows, Keyed.key x ≠ Keyed.key new) :
    Trails r (Keyed.key new :: keys) ((if share ≤ t.rows.length then popFront t else t).put new) ∨
    ∃ crowd : List κ, crowd.Nodup ∧ crowd ⊆ Keyed.key new :: keys ∧ Keyed.key r ∉ crowd ∧
      share ≤ crowd.length := by
  obtain ⟨front, behind, rows, origin⟩ := trails
  have pushed : ∀ u : Table ρ, (∀ x ∈ u.rows, x ∈ t.rows) →
      (∃ front, u.rows = front ++ r :: behind) →
        Trails r (Keyed.key new :: keys) (u.put new) := by
    rintro u inside ⟨front, same⟩
    refine ⟨front, behind ++ [new], ?_, ?_⟩
    · rw [rows_put_new fun x mem => absent x (inside x mem), same, List.append_assoc,
        List.cons_append]
    · intro x mem
      rcases List.mem_append.mp mem with old | last
      · exact List.mem_cons_of_mem _ (origin x old)
      · rw [List.mem_singleton.mp last]
        exact List.mem_cons_self
  split
  · rename_i full
    cases front with
    | cons x front =>
      refine Or.inl (pushed (popFront t) (fun _ mem => mem_popFront mem) ⟨front, ?_⟩)
      simp [popFront, rows]
    | nil =>
      -- the row itself is popped, so what is behind it fills the share
      have unique := t.unique
      rw [rows, List.nil_append, List.map_cons, List.nodup_cons] at unique
      have here : ∀ x ∈ behind, x ∈ t.rows := by
        intro x mem
        rw [rows]
        exact List.mem_cons_of_mem r mem
      refine Or.inr ⟨Keyed.key new :: behind.map Keyed.key, ?_, ?_, ?_, ?_⟩
      · refine List.nodup_cons.mpr ⟨?_, unique.2⟩
        intro mem
        obtain ⟨x, old, same⟩ := List.mem_map.mp mem
        exact absent x (here x old) same
      · refine List.cons_subset_cons _ ?_
        intro key mem
        obtain ⟨x, old, rfl⟩ := List.mem_map.mp mem
        exact origin x old
      · intro mem
        rcases List.mem_cons.mp mem with same | mem
        · exact absent r (by rw [rows]; exact List.mem_cons_self) same
        · exact unique.1 mem
      · rw [rows] at full
        simpa using full
  · exact Or.inl (pushed t (fun _ mem => mem) ⟨front, rows⟩)

end Trailing

end ExpiryQueue
