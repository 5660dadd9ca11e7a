import Pullbackup.AuthStore

/- What the expiry sweeps of a store look at over any run: an entry is paid for when it is
inserted, whatever the clock, the ttl, the cap and the tiers do. -/
namespace Pullbackup
open KeyedTable ExpiryQueue History

variable {V : Type}

def StoreOp.insertions : StoreOp V → Nat
  | .set _ _ _ | .mutate _ _ _ => 1
  | .get _ _ | .pop _ _ | .keys _ | .size _ | .clear => 0

structure StoreCall (V : Type) where
  config : StoreConfig V
  op : StoreOp V

def StoreCall.next (s : ExpiringStore V) (call : StoreCall V) : ExpiringStore V :=
  call.op.apply call.config s

namespace ExpiringStore
variable {c : StoreConfig V} {s : ExpiringStore V} {key : String} {value : V} {now : ℚ}

theorem sweep_spent (s : ExpiringStore V) (now : ℚ) :
    (s.sweep now).examined + (s.sweep now).length ≤ s.examined + s.length + 2 := by
  have ordinary := looksAt_le StoreEntry.expiresAt now s.entries
  have guarded := looksAt_le StoreEntry.expiresAt now s.protectedEntries
  simp only [sweep, length]
  omega

theorem evict_length (s : ExpiringStore V) :
    s.evict.examined = s.examined ∧ s.evict.length ≤ s.length := by
  unfold evict
  split
  · refine ⟨rfl, ?_⟩
    simp only [length, popFront_length]
    omega
  · refine ⟨rfl, ?_⟩
    simp only [length, popFront_length]
    omega

theorem enforceCap_length (c : StoreConfig V) (turns : Nat) (s : ExpiringStore V) :
    (enforceCap c turns s).examined = s.examined ∧ (enforceCap c turns s).length ≤ s.length := by
  induction turns generalizing s with
  | zero => exact ⟨rfl, le_refl _⟩
  | succ turns ih =>
    simp only [enforceCap]
    split
    · obtain ⟨same, fewer⟩ := evict_length s
      obtain ⟨looked, kept⟩ := ih s.evict
      exact ⟨looked.trans same, le_trans kept fewer⟩
    · exact ⟨rfl, le_refl _⟩

theorem place_examined : (place c s key value now).examined = s.examined := by
  unfold place
  split <;> rfl

theorem write_spent (c : StoreConfig V) (s : ExpiringStore V) (key : String) (value : V) (now : ℚ) :
    (write c s key value now).examined + (write c s key value now).length ≤
      s.examined + s.length + 1 := by
  obtain ⟨looked, kept⟩ :=
    enforceCap_length c (place c s key value now).length (place c s key value now)
  have placed : (place c s key value now).length ≤ s.length + 1 := place_length_le
  have same : (place c s key value now).examined = s.examined := place_examined
  simp only [write]
  omega

theorem pop_spent (s : ExpiringStore V) (key : String) (now : ℚ) :
    (s.pop key now).1.examined = (s.sweep now).examined ∧
      (s.pop key now).1.length ≤ (s.sweep now).length := by
  simp only [pop]
  split
  · refine ⟨rfl, ?_⟩
    have fewer := @erase_length_le _ _ _ (s.sweep now).entries _ key
    simp only [length]
    omega
  · refine ⟨rfl, ?_⟩
    have fewer := @erase_length_le _ _ _ (s.sweep now).protectedEntries _ key
    simp only [length]
    omega

end ExpiringStore

/-- One call pays for its own looks out of two and its insertion. -/
theorem call_spent (s : ExpiringStore V) (call : StoreCall V) :
    (StoreCall.next s call).examined + (StoreCall.next s call).length ≤
      s.examined + s.length + (call.op.insertions + 2) := by
  have swept := fun now => ExpiringStore.sweep_spent s now
  obtain ⟨c, op⟩ := call
  cases op with
  | set key value now =>
    have looked := swept now
    have written := ExpiringStore.write_spent c (s.sweep now) key value now
    simp only [StoreCall.next, StoreOp.apply, ExpiringStore.set, StoreOp.insertions]
    omega
  | get key now =>
    have looked := swept now
    simp only [StoreCall.next, StoreOp.apply, get_store, StoreOp.insertions]
    omega
  | pop key now =>
    have looked := swept now
    obtain ⟨same, fewer⟩ := ExpiringStore.pop_spent s key now
    simp only [StoreCall.next, StoreOp.apply, StoreOp.insertions]
    omega
  | mutate key change now =>
    have looked := swept now
    have written := ExpiringStore.write_spent c (s.sweep now) key
      (change (((s.sweep now).find key).map StoreEntry.value)) now
    simp only [StoreCall.next, StoreOp.apply, ExpiringStore.mutate, StoreOp.insertions]
    omega
  | keys now => exact swept now
  | size now => exact swept now
  | clear =>
    simp only [StoreCall.next, StoreOp.apply, ExpiringStore.clear, StoreOp.insertions,
      ExpiringStore.length, Table.rows_empty, List.length_nil]
    omega

theorem run_examined_le (s : ExpiringStore V) (calls : List (StoreCall V)) :
    (calls.foldl StoreCall.next s).examined + (calls.foldl StoreCall.next s).length ≤
      s.examined + s.length +
        ((calls.map fun call => call.op.insertions).sum + 2 * calls.length) := by
  have total := @run_spent_le _ _ StoreCall.next ExpiringStore.examined ExpiringStore.length
    (fun call : StoreCall V => call.op.insertions + 2) call_spent s calls
  have split : (calls.map fun call => call.op.insertions + 2).sum =
      (calls.map fun call => call.op.insertions).sum + 2 * calls.length := by
    rw [List.sum_map_add]
    simp [Nat.mul_comm]
  rw [split] at total
  exact total

/-- The expiry sweep is amortised constant. -/
theorem sweep_amortised (calls : List (StoreCall V)) :
    (calls.foldl StoreCall.next ({} : ExpiringStore V)).examined ≤
      (calls.map fun call => call.op.insertions).sum + 2 * calls.length := by
  have total := run_examined_le ({} : ExpiringStore V) calls
  have fresh : ({} : ExpiringStore V).examined = 0 ∧ ({} : ExpiringStore V).length = 0 := ⟨rfl, rfl⟩
  omega

end Pullbackup
