import OpenrestyGateway.LruRefinement

/-!
What resty/lrucache.lua keeps: the key that was used last is the last to go.
-/
namespace OpenrestyGateway
namespace LruCache
open Recency
variable {κ α : Type}

/-- The key that an operation uses. -/
def Op.uses : Op κ α → Option κ
  | .get key _ | .set key _ _ _ _ => some key
  | .delete _ | .getKeys _ | .flushAll | .count | .capacity => none

/-- The operation neither stores the key anew nor deletes it. -/
def Op.Spares (key : κ) : Op κ α → Prop
  | .set k _ _ _ _ | .delete k => k ≠ key
  | .flushAll => False
  | .get _ _ | .getKeys _ | .count | .capacity => True

theorem nodup_of_refines {self : Cache κ α} {t : Table κ α} (h : Refines self t) :
    (keys t.entries).Nodup := by
  obtain ⟨items, frees, hgood, rfl⟩ := h
  exact hgood.nodup

variable [DecidableEq κ]

def othersUsed (key : κ) (ops : List (Op κ α)) : Finset κ :=
  (ops.filterMap Op.uses).toFinset.erase key

section Kept
variable {used : Finset κ} {key : κ} {cell : Cell α} {t : Table κ α}

theorem size_step (t : Table κ α) (op : Op κ α) : (t.step op).2.size = t.size := by
  cases op with
  | get k now =>
      simp only [Table.step, Table.get]
      split
      · rfl
      · split <;> rfl
  | set _ _ _ _ _ | delete _ | getKeys _ | flushAll | count | capacity => rfl

theorem within_step (h : Within used key cell t.entries) (hcard : used.card < t.size)
    (op : Op κ α) (hspares : op.Spares key) (hused : ∀ k, op.uses = some k → k ≠ key → k ∈ used) :
    Within used key cell (t.step op).2.entries := by
  cases op with
  | get k now =>
      have htouch : Within used key cell (touch k t.entries) := by
        by_cases hk : k = key
        · rw [hk]
          exact h.touch_self
        · exact h.touch hk (hused k rfl hk)
      simp only [Table.step, Table.get]
      split
      · exact h
      · split
        · exact h
        · exact htouch
  | set k value ttl flags now => exact h.put hspares (hused k rfl hspares) hcard _
  | delete k => exact h.erase hspares
  | flushAll => exact hspares.elim
  | getKeys _ | count | capacity => exact h

theorem within_run (ops : List (Op κ α)) (h : Within used key cell t.entries)
    (hcard : used.card < t.size) (hspares : ∀ op ∈ ops, op.Spares key)
    (hused : ∀ op ∈ ops, ∀ k, op.uses = some k → k ≠ key → k ∈ used) :
    Within used key cell (t.run ops).2.entries := by
  induction ops generalizing t with
  | nil => exact h
  | cons op ops ih =>
      refine ih (within_step h hcard op (hspares op (.head _)) (hused op (.head _))) ?_ ?_ ?_
      · rw [size_step]
        exact hcard
      · exact fun op' h' => hspares op' (.tail op h')
      · exact fun op' h' => hused op' (.tail op h')

theorem mem_othersUsed {ops : List (Op κ α)} : ∀ op ∈ ops, ∀ k, op.uses = some k → k ≠ key →
    k ∈ othersUsed key ops := by
  intro op hop k hk hne
  rw [othersUsed, Finset.mem_erase, List.mem_toFinset, List.mem_filterMap]
  exact ⟨hne, op, hop, hk⟩

end Kept

section Runs

theorem Table.run_append (ops ops' : List (Op κ α)) (t : Table κ α) :
    t.run (ops ++ ops') =
      ((t.run ops).1 ++ ((t.run ops).2.run ops').1, ((t.run ops).2.run ops').2) := by
  induction ops generalizing t with
  | nil => rfl
  | cons op ops ih =>
      simp only [List.cons_append, Table.run, ih]

theorem size_run (ops : List (Op κ α)) (t : Table κ α) : (t.run ops).2.size = t.size := by
  induction ops generalizing t with
  | nil => rfl
  | cons op ops ih => exact (ih _).trans (size_step t op)

/-- A value is found again as long as fewer other keys have been used since than the cache
has room for, whatever was done with them. -/
theorem get_recently_used (size : Nat) (before after : List (Op κ α)) (key : κ) (v : α)
    (ttl flags : Option ℚ) (stored now : ℚ) (hspares : ∀ op ∈ after, op.Spares key)
    (hfew : (othersUsed key after).card < size + 1) :
    ∃ self answers self', new (size + 1) = some self ∧
      run self (before ++ .set key (some v) ttl flags stored :: (after ++ [.get key now])) =
        some (answers ++
          [.got (Table.hit ⟨some v, expiry ttl stored, storedFlags flags⟩ now v)], self') := by
  obtain ⟨self, hnew, hstart⟩ := new_refines (κ := κ) (α := α) size
  obtain ⟨_, -, hrefines⟩ := run_refines before hstart
  obtain ⟨self', hrun, -⟩ := run_refines
    (before ++ .set key (some v) ttl flags stored :: (after ++ [.get key now])) hstart
  have hset : Within (othersUsed key after) key ⟨some v, expiry ttl stored, storedFlags flags⟩
      (((Table.run ⟨size + 1, []⟩ before).2.step (.set key (some v) ttl flags stored)).2).entries :=
    Within.put_self (nodup_of_refines hrefines)
  have hwithin := within_run after hset (by rw [size_step, size_run]; exact hfew) hspares
    mem_othersUsed
  refine ⟨self, (Table.run ⟨size + 1, []⟩ before).1 ++ .done ::
    (((Table.run ⟨size + 1, []⟩ before).2.step (.set key (some v) ttl flags stored)).2.run
      after).1, self', hnew, hrun.trans (congrArg (fun a => some (a, self')) ?_)⟩
  rw [Table.run_append]
  simp only [Table.run, Table.run_append, Table.step, Table.get] at hwithin ⊢
  rw [hwithin.lookup]
  simp

theorem get_recently_used_two :
    ∃ self answers self', new 2 = some self ∧
      run self [.set 7 (some 1) (some 60) none 100, .set 8 (some 2) none none 101, .get 7 102] =
        some (answers ++ [.got ⟨some 1, none, some 0⟩], self') := by
  have h := get_recently_used (κ := Nat) (α := Nat) 1 [] [.set 8 (some 2) none none 101] 7 1
    (some 60) none 100 102 (by
      intro op hop
      rw [List.mem_singleton.mp hop]
      exact (by decide : (8 : Nat) ≠ 7)) (by decide)
  have hhit : Table.hit ⟨some 1, expiry (some 60) 100, storedFlags none⟩ 102 1 =
      (⟨some 1, none, some 0⟩ : Got Nat) := by decide +kernel
  rw [hhit] at h
  exact h

end Runs
end LruCache
end OpenrestyGateway
