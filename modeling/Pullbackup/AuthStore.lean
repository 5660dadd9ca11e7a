import Pullbackup.Library.ExpiryQueue
import Pullbackup.Library.History
import Pullbackup.Library.Numerals

/- http_auth.py: the bounded, expiring store of revoked sessions and failed logins.
   Times are seconds of the clock, taken as exact. -/
namespace Pullbackup
open KeyedTable ExpiryQueue History

structure StoreEntry (V : Type) where
  key : String
  expiresAt : ℚ
  value : V
  deriving DecidableEq, Repr

instance {V : Type} : Keyed (StoreEntry V) String := ⟨StoreEntry.key⟩

@[simp] theorem key_storeEntry {V : Type} (e : StoreEntry V) : Keyed.key e = e.key := rfl

structure StoreConfig (V : Type) where
  ttl : ℚ
  maxEntries : Int
  protect : Option (V → Bool) := none

/-- The two tiers; examined counts what the sweeps have looked at. -/
structure ExpiringStore (V : Type) where
  entries : Table (StoreEntry V) := .empty
  protectedEntries : Table (StoreEntry V) := .empty
  examined : Nat := 0

variable {V : Type}

def StoreConfig.cap (c : StoreConfig V) : Nat := (max 1 c.maxEntries).toNat

def StoreConfig.protectedCap (c : StoreConfig V) : Nat := max 1 (c.cap / 2)

def StoreConfig.wantsProtection (c : StoreConfig V) (value : V) : Bool :=
  match c.protect with
  | none => false
  | some protect => protect value

namespace ExpiringStore

def length (s : ExpiringStore V) : Nat := s.entries.rows.length + s.protectedEntries.rows.length

def rows (s : ExpiringStore V) : List (StoreEntry V) := s.entries.rows ++ s.protectedEntries.rows

def sweep (s : ExpiringStore V) (now : ℚ) : ExpiringStore V :=
  { entries := dropExpired StoreEntry.expiresAt now s.entries
    protectedEntries := dropExpired StoreEntry.expiresAt now s.protectedEntries
    examined := s.examined + looksAt StoreEntry.expiresAt now s.entries +
      looksAt StoreEntry.expiresAt now s.protectedEntries }

/-- One turn of _enforce_cap: ordinary entries go first, in expiry order. -/
def evict (s : ExpiringStore V) : ExpiringStore V :=
  match s.entries.rows with
  | [] => { s with protectedEntries := popFront s.protectedEntries }
  | _ :: _ => { s with entries := popFront s.entries }

/-- The loop of _enforce_cap; each turn removes one entry. -/
def enforceCap (c : StoreConfig V) : Nat → ExpiringStore V → ExpiringStore V
  | 0, s => s
  | turns + 1, s => if c.cap < s.length then enforceCap c turns s.evict else s

def place (c : StoreConfig V) (s : ExpiringStore V) (key : String) (value : V) (now : ℚ) :
    ExpiringStore V :=
  let entries := s.entries.erase key
  let protectedEntries := s.protectedEntries.erase key
  let entry : StoreEntry V := ⟨key, now + c.ttl, value⟩
  if c.wantsProtection value then
    let kept :=
      if c.protectedCap ≤ protectedEntries.rows.length then popFront protectedEntries
      else protectedEntries
    { s with entries := entries, protectedEntries := kept.put entry }
  else { s with entries := entries.put entry, protectedEntries := protectedEntries }

def find (s : ExpiringStore V) (key : String) : Option (StoreEntry V) :=
  match s.entries.get key with
  | none => s.protectedEntries.get key
  | some found => some found

def write (c : StoreConfig V) (s : ExpiringStore V) (key : String) (value : V) (now : ℚ) :
    ExpiringStore V :=
  let placed := place c s key value now
  enforceCap c placed.length placed

def set (c : StoreConfig V) (s : ExpiringStore V) (key : String) (value : V) (now : ℚ) :
    ExpiringStore V :=
  write c (s.sweep now) key value now

def get (s : ExpiringStore V) (key : String) (now : ℚ) : ExpiringStore V × Option V :=
  let s := s.sweep now
  match s.find key with
  | none => (s, none)
  | some found => (s, if found.expiresAt ≤ now then none else some found.value)

def pop (s : ExpiringStore V) (key : String) (now : ℚ) : ExpiringStore V × Option V :=
  let s := s.sweep now
  match s.entries.get key with
  | some found => ({ s with entries := s.entries.erase key }, some found.value)
  | none =>
    ({ s with protectedEntries := s.protectedEntries.erase key },
      (s.protectedEntries.get key).map StoreEntry.value)

def mutate (c : StoreConfig V) (s : ExpiringStore V) (key : String) (change : Option V → V) (now : ℚ) :
    ExpiringStore V × V :=
  let s := s.sweep now
  let updated := change ((s.find key).map StoreEntry.value)
  (write c s key updated now, updated)

def keys (s : ExpiringStore V) (now : ℚ) : ExpiringStore V × List String :=
  let s := s.sweep now
  (s, s.rows.map StoreEntry.key)

def size (s : ExpiringStore V) (now : ℚ) : ExpiringStore V × Nat :=
  let s := s.sweep now
  (s, s.length)

def clear (s : ExpiringStore V) : ExpiringStore V :=
  { s with entries := .empty, protectedEntries := .empty }

structure Tiered (c : StoreConfig V) (now : ℚ) (s : ExpiringStore V) : Prop where
  apart : ∀ e ∈ s.entries.rows, ∀ f ∈ s.protectedEntries.rows, e.key ≠ f.key
  ordinary : ∀ e ∈ s.entries.rows, c.wantsProtection e.value = false
  guarded : ∀ e ∈ s.protectedEntries.rows, c.wantsProtection e.value = true
  ordered : Ordered StoreEntry.expiresAt s.entries
  orderedToo : Ordered StoreEntry.expiresAt s.protectedEntries
  live : ∀ e ∈ s.rows, now < e.expiresAt
  share : s.protectedEntries.rows.length ≤ c.protectedCap

/-- The representation invariant. -/
structure Sound (c : StoreConfig V) (now : ℚ) (s : ExpiringStore V) : Prop extends
    Tiered c now s where
  capped : s.length ≤ c.cap

def Within (c : StoreConfig V) (now : ℚ) (s : ExpiringStore V) : Prop :=
  ∀ e ∈ s.rows, e.expiresAt ≤ now + c.ttl

def Swept (c : StoreConfig V) (clock : ℚ) (store : ExpiringStore V) : Prop :=
  ∃ last ≤ clock, store.Sound c last ∧ store.Within c last

section Lemmas
variable {c : StoreConfig V} {s s' : ExpiringStore V} {now later : ℚ} {key : String} {value : V}
  {e : StoreEntry V}

theorem mem_rows : e ∈ s.rows ↔ e ∈ s.entries.rows ∨ e ∈ s.protectedEntries.rows := List.mem_append

theorem one_le_cap (c : StoreConfig V) : 1 ≤ c.cap := by
  simp only [StoreConfig.cap]
  omega

theorem protectedCap_lt_cap (room : 2 ≤ c.maxEntries) : c.protectedCap < c.cap := by
  have two : 2 ≤ c.cap := by
    simp only [StoreConfig.cap]
    omega
  simp only [StoreConfig.protectedCap]
  omega

theorem tiered_sublist (tiered : Tiered c now s) (fewer : s'.entries.rows.Sublist s.entries.rows)
    (fewerToo : s'.protectedEntries.rows.Sublist s.protectedEntries.rows) : Tiered c now s' := by
  constructor
  · exact fun e me f mf => tiered.apart e (fewer.subset me) f (fewerToo.subset mf)
  · exact fun e me => tiered.ordinary e (fewer.subset me)
  · exact fun e me => tiered.guarded e (fewerToo.subset me)
  · exact tiered.ordered.sublist fewer
  · exact tiered.orderedToo.sublist fewerToo
  · exact fun e me => tiered.live e ((fewer.append fewerToo).subset me)
  · exact Nat.le_trans fewerToo.length_le tiered.share

theorem sound_sublist (sound : Sound c now s) (fewer : s'.entries.rows.Sublist s.entries.rows)
    (fewerToo : s'.protectedEntries.rows.Sublist s.protectedEntries.rows) : Sound c now s' :=
  ⟨tiered_sublist sound.toTiered fewer fewerToo,
    Nat.le_trans (Nat.add_le_add fewer.length_le fewerToo.length_le) sound.capped⟩

theorem mem_sweep_iff (tiered : Tiered c now s) :
    e ∈ (s.sweep later).rows ↔ e ∈ s.rows ∧ later < e.expiresAt := by
  rw [mem_rows, mem_rows, sweep, mem_dropExpired_iff tiered.ordered,
    mem_dropExpired_iff tiered.orderedToo]
  exact or_and_right.symm

theorem sweep_sound (sound : Sound c now s) (later : ℚ) : Sound c later (s.sweep later) := by
  have fewer : Sound c now (s.sweep later) :=
    sound_sublist sound (List.dropWhile_sublist _) (List.dropWhile_sublist _)
  refine ⟨⟨fewer.apart, fewer.ordinary, fewer.guarded, fewer.ordered, fewer.orderedToo, ?_,
    fewer.share⟩, fewer.capped⟩
  exact fun e me => ((mem_sweep_iff sound.toTiered).mp me).2

theorem sweep_within (sound : Sound c now s) (within : Within c now s) (passed : now ≤ later) :
    Within c later (s.sweep later) := by
  intro e mem
  have old := within e ((mem_sweep_iff sound.toTiered).mp mem).1
  linarith

theorem swept_sweep {clock : ℚ} (swept : Swept c clock s) (passed : clock ≤ now) :
    Sound c now (s.sweep now) ∧ Within c now (s.sweep now) := by
  obtain ⟨last, before, sound, within⟩ := swept
  exact ⟨sweep_sound sound now, sweep_within sound within (le_trans before passed)⟩

theorem find_iff (tiered : Tiered c now s) : s.find key = some e ↔ e ∈ s.rows ∧ e.key = key := by
  unfold find
  rw [mem_rows]
  split
  · rename_i absent
    rw [Table.get_eq_some_iff, key_storeEntry]
    constructor
    · rintro ⟨mem, named⟩
      exact ⟨Or.inr mem, named⟩
    · rintro ⟨mem | mem, named⟩
      · exact absurd named (Table.get_eq_none_iff.mp absent e mem)
      · exact ⟨mem, named⟩
  · rename_i found here
    obtain ⟨mem, named⟩ := Table.get_eq_some_iff.mp here
    constructor
    · intro same
      cases same
      exact ⟨Or.inl mem, named⟩
    · rintro ⟨me | me, same⟩
      · exact congrArg some (Table.key_injective mem me (named.trans same.symm))
      · exact absurd (named.trans same.symm) (tiered.apart found mem e me)

theorem erased {t : Table (StoreEntry V)} : ∀ e ∈ (t.erase key).rows, e.key ≠ key :=
  fun _ mem => (Table.mem_erase_iff.mp mem).2

theorem put_tier {t : Table (StoreEntry V)} (new : StoreEntry V)
    (ordered : Ordered StoreEntry.expiresAt t) (absent : ∀ e ∈ t.rows, e.key ≠ new.key)
    (last : ∀ e ∈ t.rows, e.expiresAt ≤ new.expiresAt) :
    Ordered StoreEntry.expiresAt (t.put new) ∧ (t.put new).rows = t.rows ++ [new] :=
  ⟨ordered_put_new ordered absent last, rows_put_new absent⟩

theorem place_tiered (tiered : Tiered c now s) (within : Within c now s) (lives : 0 < c.ttl)
    (key : String) (value : V) : Tiered c now (place c s key value now) := by
  have fresh : now < now + c.ttl := lt_add_of_pos_right now lives
  have fewer : Tiered c now
      { s with entries := s.entries.erase key, protectedEntries := s.protectedEntries.erase key } :=
    tiered_sublist tiered List.filter_sublist List.filter_sublist
  simp only [place]
  split
  · rename_i wants
    generalize room : (if c.protectedCap ≤ (s.protectedEntries.erase key).rows.length then
      popFront (s.protectedEntries.erase key) else s.protectedEntries.erase key) = kept
    have sub : kept.rows.Sublist (s.protectedEntries.erase key).rows := by
      rw [← room]
      split
      · exact List.tail_sublist _
      · exact List.Sublist.refl _
    have small : kept.rows.length + 1 ≤ c.protectedCap := by
      have share : (s.protectedEntries.erase key).rows.length ≤ c.protectedCap := fewer.share
      have one : 1 ≤ c.protectedCap := Nat.le_max_left _ _
      rw [← room]
      split
      · rw [popFront_length]
        omega
      · omega
    obtain ⟨sorted, rows⟩ := put_tier (t := kept) ⟨key, now + c.ttl, value⟩
      (fewer.orderedToo.sublist sub) (fun e me => erased e (sub.subset me))
      (fun e me => within e (mem_rows.mpr (Or.inr (Table.mem_erase_iff.mp (sub.subset me)).1)))
    constructor
    · intro e me f mf
      simp only [rows, List.mem_append, List.mem_singleton] at mf
      rcases mf with mf | rfl
      · exact fewer.apart e me f (sub.subset mf)
      · exact erased e me
    · exact fewer.ordinary
    · intro e me
      simp only [rows, List.mem_append, List.mem_singleton] at me
      rcases me with me | rfl
      · exact fewer.guarded e (sub.subset me)
      · exact wants
    · exact fewer.ordered
    · exact sorted
    · intro e me
      rw [mem_rows] at me
      simp only [rows, List.mem_append, List.mem_singleton] at me
      rcases me with me | me | rfl
      · exact fewer.live e (mem_rows.mpr (Or.inl me))
      · exact fewer.live e (mem_rows.mpr (Or.inr (sub.subset me)))
      · exact fresh
    · simpa [rows] using small
  · rename_i wants
    obtain ⟨sorted, rows⟩ := put_tier (t := s.entries.erase key) ⟨key, now + c.ttl, value⟩
      fewer.ordered erased
      (fun e me => within e (mem_rows.mpr (Or.inl (Table.mem_erase_iff.mp me).1)))
    constructor
    · intro e me f mf
      simp only [rows, List.mem_append, List.mem_singleton] at me
      rcases me with me | rfl
      · exact fewer.apart e me f mf
      · exact (erased f mf).symm
    · intro e me
      simp only [rows, List.mem_append, List.mem_singleton] at me
      rcases me with me | rfl
      · exact fewer.ordinary e me
      · simpa using wants
    · exact fewer.guarded
    · exact sorted
    · exact fewer.orderedToo
    · intro e me
      rw [mem_rows] at me
      simp only [rows, List.mem_append, List.mem_singleton] at me
      rcases me with (me | rfl) | me
      · exact fewer.live e (mem_rows.mpr (Or.inl me))
      · exact fresh
      · exact fewer.live e (mem_rows.mpr (Or.inr me))
    · exact fewer.share

theorem mem_place (mem : e ∈ (place c s key value now).rows) :
    e = ⟨key, now + c.ttl, value⟩ ∨ e ∈ s.rows ∧ e.key ≠ key := by
  have old : ∀ t : Table (StoreEntry V), (∀ f ∈ t.rows, f ∈ s.rows) → e ∈ (t.erase key).rows →
      e ∈ s.rows ∧ e.key ≠ key := by
    intro t inside me
    exact ⟨inside e (Table.mem_erase_iff.mp me).1, (Table.mem_erase_iff.mp me).2⟩
  have first := old s.entries fun f mf => mem_rows.mpr (Or.inl mf)
  have second := old s.protectedEntries fun f mf => mem_rows.mpr (Or.inr mf)
  rw [mem_rows] at mem
  simp only [place] at mem
  split at mem
  · rcases mem with me | me
    · exact Or.inr (first me)
    · rcases Table.mem_put_iff.mp me with rfl | ⟨-, kept⟩
      · exact Or.inl rfl
      · refine Or.inr (second ?_)
        split at kept
        · exact mem_popFront kept
        · exact kept
  · rcases mem with me | me
    · rcases Table.mem_put_iff.mp me with rfl | ⟨-, kept⟩
      · exact Or.inl rfl
      · exact Or.inr (first kept)
    · exact Or.inr (second me)

theorem place_fresh : (⟨key, now + c.ttl, value⟩ : StoreEntry V) ∈ (place c s key value now).rows := by
  rw [mem_rows]
  simp only [place]
  split
  · exact Or.inr (Table.mem_put_iff.mpr (Or.inl rfl))
  · exact Or.inl (Table.mem_put_iff.mpr (Or.inl rfl))

/-- Only a full protected share loses an entry to an insertion: its oldest. -/
theorem place_lost (tiered : Tiered c now s) (mem : e ∈ s.rows) (other : e.key ≠ key)
    (lost : e ∉ (place c s key value now).rows) :
    c.wantsProtection value = true ∧ s.protectedEntries.rows.length = c.protectedCap ∧
      e ∈ s.protectedEntries.rows ∧ ∀ f ∈ s.protectedEntries.rows, e.expiresAt ≤ f.expiresAt := by
  have kept : ∀ t : Table (StoreEntry V), e ∈ t.rows → e ∈ (t.erase key).rows :=
    fun t me => Table.mem_erase_iff.mpr ⟨me, other⟩
  rw [mem_rows] at lost mem
  simp only [place] at lost
  split at lost
  · rename_i wants
    have guarded : e ∈ s.protectedEntries.rows := by
      rcases mem with me | me
      · exact absurd (Or.inl (kept _ me)) lost
      · exact me
    split at lost
    · rename_i full
      have small : (s.protectedEntries.erase key).rows.length ≤ s.protectedEntries.rows.length :=
        erase_length_le
      have same : s.protectedEntries.erase key = s.protectedEntries := by
        apply erase_of_absent
        intro f mf named
        have fewer := erase_length mf named
        have share := tiered.share
        omega
      rw [same] at lost full
      have popped : e ∉ (popFront s.protectedEntries).rows := fun me =>
        lost (Or.inr (Table.mem_put_iff.mpr (Or.inr ⟨other, me⟩)))
      obtain ⟨rest, front⟩ := gone_popFront guarded popped
      exact ⟨wants, Nat.le_antisymm tiered.share full, guarded, front_least tiered.orderedToo front⟩
    · exact absurd (Or.inr (Table.mem_put_iff.mpr (Or.inr ⟨other, kept _ guarded⟩))) lost
  · rcases mem with me | me
    · exact absurd (Or.inl (Table.mem_put_iff.mpr (Or.inr ⟨other, kept _ me⟩))) lost
    · exact absurd (Or.inr (kept _ me)) lost

theorem put_erased (value : V) (t u : Table (StoreEntry V)) (sub : u.rows.Sublist (t.erase key).rows)
    (expiresAt : ℚ) : (u.put ⟨key, expiresAt, value⟩).rows = u.rows ++ [⟨key, expiresAt, value⟩] :=
  rows_put_new fun e me => erased e (sub.subset me)

theorem place_longer (longer : s.length < (place c s key value now).length) :
    (∀ e ∈ s.rows, e.key ≠ key) ∧ (place c s key value now).length = s.length + 1 ∧
      ∃ more, (place c s key value now).entries.rows = s.entries.rows ++ more := by
  have le : (s.entries.erase key).rows.length ≤ s.entries.rows.length := erase_length_le
  have leToo : (s.protectedEntries.erase key).rows.length ≤ s.protectedEntries.rows.length :=
    erase_length_le
  have absent_of : s.length ≤
      (s.entries.erase key).rows.length + (s.protectedEntries.erase key).rows.length →
        (∀ e ∈ s.rows, e.key ≠ key) ∧ s.entries.erase key = s.entries ∧
          s.protectedEntries.erase key = s.protectedEntries := by
    intro nothing
    have absent : ∀ e ∈ s.rows, e.key ≠ key := by
      intro e me named
      simp only [length] at nothing
      rcases mem_rows.mp me with me | me
      · have fewer := erase_length me named
        omega
      · have fewer := erase_length me named
        omega
    exact ⟨absent, erase_of_absent fun e me => absent e (mem_rows.mpr (Or.inl me)),
      erase_of_absent fun e me => absent e (mem_rows.mpr (Or.inr me))⟩
  have shape : place c s key value now = place c s key value now := rfl
  conv at shape => rhs; unfold place
  rw [shape] at longer ⊢
  simp only at longer ⊢
  split at longer
  · rename_i wants
    rw [if_pos wants]
    split at longer
    · have one : 1 ≤ c.protectedCap := Nat.le_max_left _ _
      have rows := put_erased value s.protectedEntries
        (popFront (s.protectedEntries.erase key)) (List.tail_sublist _) (now + c.ttl)
      simp only [length, rows, List.length_append, List.length_singleton, popFront_length] at longer
      omega
    · rename_i roomy
      have rows := put_erased value s.protectedEntries (s.protectedEntries.erase key)
        (List.Sublist.refl _) (now + c.ttl)
      simp only [if_neg roomy, length, rows, List.length_append, List.length_singleton] at longer ⊢
      obtain ⟨absent, same, -⟩ := absent_of (by simp only [length]; omega)
      exact ⟨absent, by omega, [], by rw [same, List.append_nil]⟩
  · rename_i plain
    rw [if_neg plain]
    have rows := put_erased value s.entries (s.entries.erase key)
      (List.Sublist.refl _) (now + c.ttl)
    simp only [length, rows, List.length_append, List.length_singleton] at longer ⊢
    obtain ⟨absent, same, -⟩ := absent_of (by simp only [length]; omega)
    exact ⟨absent, by omega, _, by rw [same]⟩

theorem place_length_le : (place c s key value now).length ≤ s.length + 1 := by
  by_cases longer : s.length < (place c s key value now).length
  · exact Nat.le_of_eq (place_longer longer).2.1
  · omega

theorem enforceCap_of_le (turns : Nat) (fits : s.length ≤ c.cap) : enforceCap c turns s = s := by
  cases turns with
  | zero => rfl
  | succ turns => exact if_neg (by omega)

/-- An insertion has room, or it drops the oldest ordinary entry of a full store. -/
theorem write_cases (room : 2 ≤ c.maxEntries) (sound : Sound c now s) (key : String) (value : V) :
    write c s key value now = place c s key value now ∧ (place c s key value now).length ≤ c.cap ∨
    (∃ oldest rest more, s.entries.rows = oldest :: rest ∧ s.length = c.cap ∧
      (place c s key value now).entries.rows = oldest :: rest ++ more ∧
      (∀ e ∈ s.rows, e.key ≠ key) ∧
      write c s key value now =
        { place c s key value now with entries := popFront (place c s key value now).entries }) := by
  by_cases fits : (place c s key value now).length ≤ c.cap
  · exact Or.inl ⟨enforceCap_of_le _ fits, fits⟩
  · have capped := sound.capped
    have longer : s.length < (place c s key value now).length := by omega
    obtain ⟨absent, long, more, rows⟩ := place_longer longer
    have full : s.length = c.cap := by omega
    right
    cases ordinary : s.entries.rows with
    | nil =>
      have small := protectedCap_lt_cap room
      have share := sound.share
      simp only [length, ordinary, List.length_nil] at full
      omega
    | cons oldest rest =>
      rw [ordinary] at rows
      refine ⟨oldest, rest, more, rfl, full, rows, absent, ?_⟩
      have evicted : (place c s key value now).evict =
          { place c s key value now with entries := popFront (place c s key value now).entries } := by
        unfold evict
        rw [rows]
        rfl
      have length_evicted : (place c s key value now).evict.length ≤ c.cap := by
        rw [evicted]
        simp only [length] at long ⊢
        rw [popFront_length]
        rw [rows] at long ⊢
        simp only [List.length_append, List.length_cons] at long ⊢
        simp only [length] at full
        omega
      rw [write, long]
      simp only [enforceCap]
      rw [if_pos (by omega), enforceCap_of_le s.length length_evicted, evicted]

theorem write_sound (room : 2 ≤ c.maxEntries) (lives : 0 < c.ttl) (sound : Sound c now s)
    (within : Within c now s) (key : String) (value : V) :
    Sound c now (write c s key value now) := by
  have tiered := place_tiered sound.toTiered within lives key value
  rcases write_cases room sound key value with ⟨same, fits⟩ |
    ⟨oldest, rest, more, -, full, rows, -, evicted⟩
  · rw [same]
    exact ⟨tiered, fits⟩
  · rw [evicted]
    refine ⟨tiered_sublist tiered (List.tail_sublist _) (List.Sublist.refl _), ?_⟩
    have long : (place c s key value now).length ≤ s.length + 1 := place_length_le
    simp only [length] at long ⊢
    rw [popFront_length]
    rw [rows] at long ⊢
    simp only [List.length_append, List.length_cons, length] at long full ⊢
    omega

theorem mem_write (room : 2 ≤ c.maxEntries) (sound : Sound c now s)
    (mem : e ∈ (write c s key value now).rows) :
    e = ⟨key, now + c.ttl, value⟩ ∨ e ∈ s.rows ∧ e.key ≠ key := by
  rcases write_cases room sound key value with ⟨same, -⟩ | ⟨_, _, _, -, -, -, -, evicted⟩
  · rw [same] at mem
    exact mem_place mem
  · rw [evicted] at mem
    apply mem_place
    rcases mem_rows.mp mem with me | me
    · exact mem_rows.mpr (Or.inl (mem_popFront me))
    · exact mem_rows.mpr (Or.inr me)

theorem write_within (room : 2 ≤ c.maxEntries) (sound : Sound c now s) (within : Within c now s) :
    Within c now (write c s key value now) := by
  intro e mem
  rcases mem_write room sound mem with rfl | ⟨old, -⟩
  · exact le_refl _
  · exact within e old

theorem write_fresh (room : 2 ≤ c.maxEntries) (sound : Sound c now s) :
    (⟨key, now + c.ttl, value⟩ : StoreEntry V) ∈ (write c s key value now).rows := by
  have fresh : (⟨key, now + c.ttl, value⟩ : StoreEntry V) ∈ (place c s key value now).rows :=
    place_fresh
  rcases write_cases room sound key value with ⟨same, -⟩ |
    ⟨oldest, rest, more, ordinary, -, rows, absent, evicted⟩
  · rwa [same]
  · rw [evicted, mem_rows]
    rcases mem_rows.mp fresh with me | me
    · by_contra gone
      obtain ⟨others, front⟩ := gone_popFront me fun kept => gone (Or.inl kept)
      rw [rows] at front
      have old : oldest ∈ s.rows := mem_rows.mpr (Or.inl (by rw [ordinary]; exact List.mem_cons_self))
      apply absent oldest old
      rw [(List.cons.inj front).1]
    · exact Or.inr me

theorem write_lost (room : 2 ≤ c.maxEntries) (sound : Sound c now s) (mem : e ∈ s.rows)
    (other : e.key ≠ key) (lost : e ∉ (write c s key value now).rows) :
    (s.length = c.cap ∧ e ∈ s.entries.rows ∧ ∀ f ∈ s.entries.rows, e.expiresAt ≤ f.expiresAt) ∨
    (c.wantsProtection value = true ∧ s.protectedEntries.rows.length = c.protectedCap ∧
      e ∈ s.protectedEntries.rows ∧ ∀ f ∈ s.protectedEntries.rows, e.expiresAt ≤ f.expiresAt) := by
  by_cases placed : e ∈ (place c s key value now).rows
  · rcases write_cases room sound key value with ⟨same, -⟩ |
      ⟨oldest, rest, more, ordinary, full, rows, -, evicted⟩
    · rw [same] at lost
      exact absurd placed lost
    · rw [evicted, mem_rows] at lost
      rcases mem_rows.mp placed with me | me
      · obtain ⟨others, front⟩ := gone_popFront me fun kept => lost (Or.inl kept)
        rw [rows] at front
        have same : oldest = e := (List.cons.inj front).1
        subst same
        exact Or.inl ⟨full, by rw [ordinary]; exact List.mem_cons_self,
          front_least sound.ordered ordinary⟩
      · exact absurd (Or.inr me) lost
  · exact Or.inr (place_lost sound.toTiered mem other placed)

theorem write_protected (room : 2 ≤ c.maxEntries) (sound : Sound c now s) (key : String) (value : V) :
    (write c s key value now).protectedEntries = (place c s key value now).protectedEntries := by
  rcases write_cases room sound key value with ⟨same, -⟩ | ⟨_, _, _, -, -, -, -, evicted⟩
  · rw [same]
  · rw [evicted]

theorem trails_fresh (room : 2 ≤ c.maxEntries) (sound : Sound c now s) (keys : List String)
    (wants : c.wantsProtection value = true) :
    Trails ⟨key, now + c.ttl, value⟩ keys (write c s key value now).protectedEntries := by
  rw [write_protected room sound, place, if_pos wants]
  apply trails_put_new
  intro f mem
  split at mem
  · exact erased f (mem_popFront mem)
  · exact erased f mem

/-- An insertion displaces a protected entry only when those that trail it, with the written
    one, fill the share. -/
theorem trails_write {keys : List String} (room : 2 ≤ c.maxEntries) (sound : Sound c now s)
    (trails : Trails e keys s.protectedEntries) (other : e.key ≠ key) (value : V) :
    (c.wantsProtection value = false → Trails e keys (write c s key value now).protectedEntries) ∧
    (c.wantsProtection value = true →
      Trails e (key :: keys) (write c s key value now).protectedEntries ∨
      ∃ crowd : List String, crowd.Nodup ∧ crowd ⊆ key :: keys ∧ e.key ∉ crowd ∧
        c.protectedCap ≤ crowd.length) := by
  have left := trails_erase trails other
  rw [write_protected room sound, place]
  constructor
  · intro plain
    rw [if_neg (by simp [plain])]
    exact left
  · intro wants
    rw [if_pos wants]
    exact trails_push left erased

theorem write_ordinary (room : 2 ≤ c.maxEntries) (sound : Sound c now s) (key : String)
    (plain : c.wantsProtection value = false) (alone : s.protectedEntries.rows = []) :
    (write c s key value now).entries.rows =
      ((if c.cap ≤ (s.entries.erase key).rows.length then popFront (s.entries.erase key)
        else s.entries.erase key).put ⟨key, now + c.ttl, value⟩).rows := by
  have spared : s.protectedEntries.erase key = s.protectedEntries :=
    erase_of_absent (by simp [alone])
  have placed : place c s key value now =
      { s with entries := (s.entries.erase key).put ⟨key, now + c.ttl, value⟩ } := by
    simp only [place, plain, Bool.false_eq_true, if_false, spared]
  have long := put_erased value s.entries (s.entries.erase key) (List.Sublist.refl _) (now + c.ttl)
  rcases write_cases room sound key value with ⟨same, fits⟩ |
    ⟨oldest, rest, more, ordinary, full, -, absent, evicted⟩
  · rw [same, placed]
    rw [placed, length, alone, long] at fits
    simp only [List.length_append, List.length_singleton, List.length_nil] at fits
    rw [if_neg (by omega)]
  · have kept : s.entries.erase key = s.entries :=
      erase_of_absent fun e mem => absent e (mem_rows.mpr (Or.inl mem))
    rw [length, alone, List.length_nil, Nat.add_zero] at full
    rw [kept] at long
    rw [evicted, placed, kept, if_pos (Nat.le_of_eq full.symm),
      rows_put_new fun e mem => absent e (mem_rows.mpr (Or.inl (mem_popFront mem)))]
    simp only [popFront, long, ordinary, List.cons_append, List.tail_cons]

theorem trails_fresh_ordinary (room : 2 ≤ c.maxEntries) (sound : Sound c now s)
    (keys : List String) (plain : c.wantsProtection value = false)
    (alone : s.protectedEntries.rows = []) :
    Trails ⟨key, now + c.ttl, value⟩ keys (write c s key value now).entries := by
  rw [Trails, write_ordinary room sound key plain alone]
  apply trails_put_new
  intro f mem
  split at mem
  · exact erased f (mem_popFront mem)
  · exact erased f mem

theorem trails_write_ordinary {keys : List String} (room : 2 ≤ c.maxEntries)
    (sound : Sound c now s) (trails : Trails e keys s.entries) (other : e.key ≠ key)
    (plain : c.wantsProtection value = false) (alone : s.protectedEntries.rows = []) :
    Trails e (key :: keys) (write c s key value now).entries ∨
    ∃ crowd : List String, crowd.Nodup ∧ crowd ⊆ key :: keys ∧ e.key ∉ crowd ∧
      c.cap ≤ crowd.length := by
  have left := trails_erase trails other
  rw [Trails, write_ordinary room sound key plain alone]
  exact trails_push left erased

theorem crowd_le {keys : List String} (tiered : Tiered c now s)
    (covered : ∀ e ∈ s.rows, e.key ∈ keys) (here : key ∈ keys) :
    (s.entries.erase key).rows.length + (s.protectedEntries.erase key).rows.length + 1 ≤
      keys.length := by
  have unique : ((s.entries.erase key).rows.map StoreEntry.key ++
      (s.protectedEntries.erase key).rows.map StoreEntry.key).Nodup := by
    apply List.nodup_append.mpr
    refine ⟨(s.entries.erase key).unique, (s.protectedEntries.erase key).unique, ?_⟩
    intro k first l second same
    obtain ⟨e, me, rfl⟩ := List.mem_map.mp first
    obtain ⟨f, mf, rfl⟩ := List.mem_map.mp second
    exact tiered.apart e (Table.mem_erase_iff.mp me).1 f (Table.mem_erase_iff.mp mf).1 same
  have new : key ∉ (s.entries.erase key).rows.map StoreEntry.key ++
      (s.protectedEntries.erase key).rows.map StoreEntry.key := by
    intro mem
    rcases List.mem_append.mp mem with mem | mem
    · obtain ⟨e, me, named⟩ := List.mem_map.mp mem
      exact erased e me named
    · obtain ⟨e, me, named⟩ := List.mem_map.mp mem
      exact erased e me named
  have inside : key :: ((s.entries.erase key).rows.map StoreEntry.key ++
      (s.protectedEntries.erase key).rows.map StoreEntry.key) ⊆ keys := by
    intro k mem
    rcases List.mem_cons.mp mem with rfl | mem
    · exact here
    · rcases List.mem_append.mp mem with mem | mem
      · obtain ⟨e, me, rfl⟩ := List.mem_map.mp mem
        exact covered e (mem_rows.mpr (Or.inl (Table.mem_erase_iff.mp me).1))
      · obtain ⟨e, me, rfl⟩ := List.mem_map.mp mem
        exact covered e (mem_rows.mpr (Or.inr (Table.mem_erase_iff.mp me).1))
  have bound := (List.nodup_cons.mpr ⟨new, unique⟩).length_le_of_subset inside
  simpa [Nat.add_assoc] using bound

theorem write_roomy {keys : List String} (value : V) (tiered : Tiered c now s) (within : Within c now s)
    (lives : 0 < c.ttl) (covered : ∀ e ∈ s.rows, e.key ∈ keys) (here : key ∈ keys)
    (fits : keys.length ≤ c.cap)
    (share : c.wantsProtection value = true → keys.length ≤ c.protectedCap) :
    Sound c now (write c s key value now) ∧
      ∀ k, (write c s key value now).find k =
        if k = key then some ⟨key, now + c.ttl, value⟩ else s.find k := by
  have crowd := crowd_le tiered covered here
  have sound := place_tiered tiered within lives key value
  have placed : (place c s key value now).length ≤ c.cap ∧
      ∀ k, (place c s key value now).find k =
        if k = key then some ⟨key, now + c.ttl, value⟩ else s.find k := by
    simp only [place]
    split
    · rename_i wants
      have full := share wants
      have roomy : ¬ c.protectedCap ≤ (s.protectedEntries.erase key).rows.length := by omega
      have rows := put_erased value s.protectedEntries (s.protectedEntries.erase key)
        (List.Sublist.refl _) (now + c.ttl)
      rw [if_neg roomy]
      constructor
      · simp only [length, rows, List.length_append, List.length_singleton]
        omega
      · intro k
        simp only [find, Table.get_erase, Table.get_put, key_storeEntry]
        by_cases same : k = key
        · simp [same]
        · simp [same, Ne.symm same]
    · have rows := put_erased value s.entries (s.entries.erase key)
        (List.Sublist.refl _) (now + c.ttl)
      constructor
      · simp only [length, rows, List.length_append, List.length_singleton]
        omega
      · intro k
        simp only [find, Table.get_erase, Table.get_put, key_storeEntry]
        by_cases same : k = key
        · simp [same]
        · simp [same, Ne.symm same]
  rw [write, enforceCap_of_le _ placed.1]
  exact ⟨⟨sound, placed.1⟩, placed.2⟩

theorem find_sweep (tiered : Tiered c now s) (later : ℚ) :
    (s.sweep later).find key = (s.find key).filter fun e => later < e.expiresAt := by
  have swept : Tiered c now (s.sweep later) :=
    tiered_sublist tiered (List.dropWhile_sublist _) (List.dropWhile_sublist _)
  ext e
  rw [find_iff swept, mem_sweep_iff tiered, Option.filter_eq_some_iff, find_iff tiered,
    decide_eq_true_eq]
  tauto

theorem get_value (tiered : Tiered c now s) (key : String) (later : ℚ) :
    (s.get key later).2 =
      ((s.find key).filter fun e => later < e.expiresAt).map StoreEntry.value := by
  have swept : (s.sweep later).find key = _ := find_sweep tiered later
  simp only [ExpiringStore.get]
  split
  · rename_i absent
    rw [← swept, absent]
    rfl
  · rename_i found here
    rw [swept] at here
    obtain ⟨-, live⟩ := Option.filter_eq_some_iff.mp here
    rw [here, if_neg (by simpa using live)]
    rfl

theorem pop_find (tiered : Tiered c now s) (key : String) (later : ℚ) (k : String) :
    (s.pop key later).1.find k = if k = key then none else (s.sweep later).find k := by
  have swept : Tiered c now (s.sweep later) :=
    tiered_sublist tiered (List.dropWhile_sublist _) (List.dropWhile_sublist _)
  simp only [ExpiringStore.pop]
  split
  · rename_i found here
    obtain ⟨mem, named⟩ := Table.get_eq_some_iff.mp here
    have other : (s.sweep later).protectedEntries.get key = none := by
      apply Table.get_eq_none_iff.mpr
      intro f mf same
      exact swept.apart found mem f mf (named.trans same.symm)
    simp only [find, Table.get_erase]
    by_cases same : k = key
    · simp [same, other]
    · simp [same]
  · rename_i absent
    simp only [find, Table.get_erase]
    by_cases same : k = key
    · simp [same, absent]
    · simp [same]

end Lemmas

end ExpiringStore

/-- The operations of the mapping surface, each at its instant. -/
inductive StoreOp (V : Type) where
  | set (key : String) (value : V) (now : ℚ)
  | get (key : String) (now : ℚ)
  | pop (key : String) (now : ℚ)
  | mutate (key : String) (change : Option V → V) (now : ℚ)
  | keys (now : ℚ)
  | size (now : ℚ)
  | clear

def StoreOp.now : StoreOp V → Option ℚ
  | .set _ _ now | .get _ now | .pop _ now | .mutate _ _ now | .keys now | .size now => some now
  | .clear => none

def StoreOp.apply (c : StoreConfig V) (s : ExpiringStore V) : StoreOp V → ExpiringStore V
  | .set key value now => s.set c key value now
  | .get key now => (s.get key now).1
  | .pop key now => (s.pop key now).1
  | .mutate key change now => (s.mutate c key change now).1
  | .keys now => (s.keys now).1
  | .size now => (s.size now).1
  | .clear => s.clear

structure StoreState (V : Type) where
  store : ExpiringStore V
  clock : ℚ

def StoreMoves (c : StoreConfig V) (s : StoreState V) (op : StoreOp V) (t : StoreState V) : Prop :=
  s.clock ≤ op.now.getD s.clock ∧ t = ⟨op.apply c s.store, op.now.getD s.clock⟩

/-- What an insertion may do to the entries of a store: the written key is there, nothing else
    is new, and what is gone had expired, or was the oldest ordinary entry at the cap, or the
    oldest protected one of a full share. -/
structure Inserted (c : StoreConfig V) (s : ExpiringStore V) (key : String) (value : V) (now : ℚ)
    (t : ExpiringStore V) : Prop where
  fresh : t.find key = some ⟨key, now + c.ttl, value⟩
  old : ∀ e ∈ t.rows, e.key ≠ key → e ∈ s.rows
  discards : ∀ e ∈ s.rows, e.key ≠ key → e ∉ t.rows →
    e.expiresAt ≤ now ∨
    ((s.sweep now).length = c.cap ∧ e ∈ s.entries.rows ∧
      ∀ f ∈ s.entries.rows, now < f.expiresAt → e.expiresAt ≤ f.expiresAt) ∨
    (c.wantsProtection value = true ∧
      (s.sweep now).protectedEntries.rows.length = c.protectedCap ∧ e ∈ s.protectedEntries.rows ∧
      ∀ f ∈ s.protectedEntries.rows, now < f.expiresAt → e.expiresAt ≤ f.expiresAt)

section Store
open ExpiringStore
variable {c : StoreConfig V} {s : ExpiringStore V} {clock now : ℚ}

theorem empty_sound (c : StoreConfig V) (now : ℚ) (examined : Nat) :
    Sound c now { examined := examined } ∧ Within c now { examined := examined } := by
  refine ⟨⟨⟨?_, ?_, ?_, List.Pairwise.nil, List.Pairwise.nil, ?_, Nat.zero_le _⟩, Nat.zero_le _⟩, ?_⟩
  all_goals
    intro e mem
    simp [rows] at mem

theorem inserted (room : 2 ≤ c.maxEntries) (lives : 0 < c.ttl) (sound : Sound c clock s)
    (within : Within c clock s) (passed : clock ≤ now) (key : String) (value : V) :
    Inserted c s key value now (write c (s.sweep now) key value now) := by
  have swept := sweep_sound sound now
  have sweptWithin := sweep_within sound within passed
  have live : ∀ e ∈ (s.sweep now).rows, e ∈ s.rows := fun e mem =>
    ((mem_sweep_iff sound.toTiered).mp mem).1
  constructor
  · exact (find_iff (write_sound room lives swept sweptWithin key value).toTiered).mpr
      ⟨write_fresh room swept, rfl⟩
  · intro e mem other
    rcases mem_write room swept mem with rfl | ⟨old, -⟩
    · exact absurd rfl other
    · exact live e old
  · intro e mem other lost
    by_cases expired : e.expiresAt ≤ now
    · exact Or.inl expired
    · have kept : e ∈ (s.sweep now).rows :=
        (mem_sweep_iff sound.toTiered).mpr ⟨mem, not_le.mp expired⟩
      rcases write_lost room swept kept other lost with ⟨full, here, least⟩ |
        ⟨wants, full, here, least⟩
      · refine Or.inr (Or.inl ⟨full, mem_of_dropExpired here, ?_⟩)
        exact fun f mf alive => least f ((mem_dropExpired_iff sound.ordered).mpr ⟨mf, alive⟩)
      · refine Or.inr (Or.inr ⟨wants, full, mem_of_dropExpired here, ?_⟩)
        exact fun f mf alive => least f ((mem_dropExpired_iff sound.orderedToo).mpr ⟨mf, alive⟩)

theorem pop_sound (sound : Sound c now s) (key : String) (later : ℚ) :
    Sound c later (s.pop key later).1 ∧
      ∀ e ∈ (s.pop key later).1.rows, e ∈ (s.sweep later).rows := by
  have swept := sweep_sound sound later
  simp only [ExpiringStore.pop]
  split
  · refine ⟨sound_sublist swept List.filter_sublist (List.Sublist.refl _), ?_⟩
    exact fun e mem => (List.filter_sublist.append (List.Sublist.refl _)).subset mem
  · refine ⟨sound_sublist swept (List.Sublist.refl _) List.filter_sublist, ?_⟩
    exact fun e mem => ((List.Sublist.refl _).append List.filter_sublist).subset mem

theorem get_store (s : ExpiringStore V) (key : String) (now : ℚ) :
    (s.get key now).1 = s.sweep now := by
  simp only [ExpiringStore.get]
  split <;> rfl

theorem op_sound (room : 2 ≤ c.maxEntries) (lives : 0 < c.ttl) (sound : Sound c clock s)
    (within : Within c clock s) (op : StoreOp V) (passed : clock ≤ op.now.getD clock) :
    Sound c (op.now.getD clock) (op.apply c s) ∧ Within c (op.now.getD clock) (op.apply c s) := by
  have swept := fun now => sweep_sound sound now
  have sweptWithin := fun {now} (passed : clock ≤ now) => sweep_within sound within passed
  cases op with
  | set key value now =>
    exact ⟨write_sound room lives (swept now) (sweptWithin passed) key value,
      write_within room (swept now) (sweptWithin passed)⟩
  | get key now =>
    rw [StoreOp.apply, get_store]
    exact ⟨swept now, sweptWithin passed⟩
  | pop key now =>
    obtain ⟨kept, fewer⟩ := pop_sound sound key now
    exact ⟨kept, fun e mem => sweptWithin passed e (fewer e mem)⟩
  | mutate key change now =>
    exact ⟨write_sound room lives (swept now) (sweptWithin passed) key _,
      write_within room (swept now) (sweptWithin passed)⟩
  | keys now => exact ⟨swept now, sweptWithin passed⟩
  | size now => exact ⟨swept now, sweptWithin passed⟩
  | clear => exact empty_sound c clock s.examined

theorem trace_sound {c : StoreConfig V} (room : 2 ≤ c.maxEntries) (lives : 0 < c.ttl)
    {start : ℚ} {ops : List (StoreOp V)} {s : StoreState V}
    (history : Trace (StoreMoves c) ⟨{}, start⟩ ops s) :
    Sound c s.clock s.store ∧ Within c s.clock s.store := by
  refine trace_invariant (fun s => Sound c s.clock s.store ∧ Within c s.clock s.store) ?_ history
    (empty_sound c start 0)
  rintro s op t ⟨sound, within⟩ ⟨passed, rfl⟩
  exact op_sound room lives sound within op passed

end Store

/-- After any operations the store is sound, and the next insertion, whatever it writes,
    discards only what it may. -/
theorem store_represents {c : StoreConfig V} (room : 2 ≤ c.maxEntries) (lives : 0 < c.ttl)
    {start : ℚ} {ops : List (StoreOp V)} {s : StoreState V}
    (history : Trace (StoreMoves c) ⟨{}, start⟩ ops s) :
    s.store.Sound c s.clock ∧
    (∀ key value now, s.clock ≤ now →
      Inserted c s.store key value now (s.store.set c key value now)) ∧
    (∀ key change now, s.clock ≤ now → ∃ updated, (s.store.mutate c key change now).2 = updated ∧
      Inserted c s.store key updated now (s.store.mutate c key change now).1) ∧
    s.store.clear.rows = [] := by
  obtain ⟨sound, within⟩ := trace_sound room lives history
  refine ⟨sound, ?_, ?_, rfl⟩
  · exact fun key value now passed => inserted room lives sound within passed key value
  · exact fun key change now passed =>
      ⟨_, rfl, inserted room lives sound within passed key _⟩

def Sample.store : StoreConfig Nat := ⟨60, 2, some fun failures => 5 ≤ failures⟩

def Sample.pressed : StoreState Nat :=
  ⟨((({} : ExpiringStore Nat).set Sample.store "a" 5 0).set Sample.store "b" 1 1).set
    Sample.store "c" 1 2, 2⟩

theorem protected_outlives_ordinary :
    ∃ ops, Trace (StoreMoves Sample.store) ⟨{}, 0⟩ ops Sample.pressed ∧
      Sample.pressed.store.Sound Sample.store 2 ∧
      Sample.pressed.store.rows.map StoreEntry.key = ["c", "a"] ∧
      Inserted Sample.store Sample.pressed.store "d" 5 61
        (Sample.pressed.store.set Sample.store "d" 5 61) := by
  have history : Trace (StoreMoves Sample.store) ⟨{}, 0⟩
      [.set "a" 5 0, .set "b" 1 1, .set "c" 1 2] Sample.pressed :=
    trace_cons ⟨by decide +kernel, rfl⟩ (trace_cons ⟨by decide +kernel, rfl⟩
      (trace_single ⟨by decide +kernel, rfl⟩))
  obtain ⟨sound, inserts, -⟩ := store_represents (by decide) (by decide +kernel) history
  exact ⟨_, history, sound, by decide +kernel, inserts "d" 5 61 (by decide +kernel)⟩

end Pullbackup
