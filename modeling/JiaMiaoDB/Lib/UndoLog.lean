import Mathlib.Logic.Function.Basic

/-!
# Undo logs

A store of optional values and a log of what each change has put away. Undoing a log in reverse order
gives the store before the changes back, whatever has been undone of it before.
-/

set_option autoImplicit false

namespace UndoLog
variable {κ α : Type}

/-- The value that a key had before a change. -/
structure Entry (κ α : Type) where
  key : κ
  old : Option α

/-- The log has an entry for the key. -/
def Covers (log : List (Entry κ α)) (k : κ) : Prop := ∃ entry ∈ log, entry.key = k

theorem covers_append_right {log log' : List (Entry κ α)} {k : κ} (h : Covers log' k) :
    Covers (log ++ log') k := by
  obtain ⟨entry, hmem, hkey⟩ := h
  exact ⟨entry, List.mem_append_right log hmem, hkey⟩

theorem covers_singleton (k : κ) (old : Option α) : Covers [⟨k, old⟩] k :=
  ⟨_, List.mem_singleton_self _, rfl⟩

variable [DecidableEq κ]

/-- Puts the old values back, the newest first. -/
def undo (log : List (Entry κ α)) (s : κ → Option α) : κ → Option α :=
  log.foldr (fun entry s => Function.update s entry.key entry.old) s

@[simp] theorem undo_nil (s : κ → Option α) : undo [] s = s := rfl

theorem undo_cons (entry : Entry κ α) (log : List (Entry κ α)) (s : κ → Option α) :
    undo (entry :: log) s = Function.update (undo log s) entry.key entry.old := rfl

theorem undo_append (log log' : List (Entry κ α)) (s : κ → Option α) :
    undo (log ++ log') s = undo log (undo log' s) := List.foldr_append

theorem undo_of_not_covers {log : List (Entry κ α)} {k : κ} (h : ¬ Covers log k)
    (s : κ → Option α) : undo log s k = s k := by
  induction log with
  | nil => rfl
  | cons entry log ih =>
    have hne : k ≠ entry.key := fun he => h ⟨entry, List.mem_cons_self, he.symm⟩
    rw [undo_cons, Function.update_of_ne hne]
    apply ih
    rintro ⟨entry', hmem, hkey⟩
    exact h ⟨entry', List.mem_cons_of_mem _ hmem, hkey⟩

/-- The value of a key with an entry does not matter. -/
theorem undo_congr_of_covers {log : List (Entry κ α)} {k : κ} (h : Covers log k)
    (s s' : κ → Option α) : undo log s k = undo log s' k := by
  induction log with
  | nil =>
    obtain ⟨entry, hmem, -⟩ := h
    cases hmem
  | cons entry log ih =>
    rw [undo_cons, undo_cons]
    by_cases hk : k = entry.key
    · rw [hk, Function.update_self, Function.update_self]
    · rw [Function.update_of_ne hk, Function.update_of_ne hk]
      apply ih
      obtain ⟨entry', hmem, hkey⟩ := h
      rcases List.mem_cons.mp hmem with rfl | hmem
      · exact absurd hkey.symm hk
      · exact ⟨entry', hmem, hkey⟩

theorem undo_update {log : List (Entry κ α)} {k : κ} (h : Covers log k) (s : κ → Option α)
    (v : Option α) : undo log (Function.update s k v) = undo log s := by
  funext k'
  by_cases hk : Covers log k'
  · exact undo_congr_of_covers hk _ _
  · have hne : k' ≠ k := by
      rintro rfl
      exact hk h
    rw [undo_of_not_covers hk, undo_of_not_covers hk, Function.update_of_ne hne]

/-- Undoing a log twice is undoing it once. -/
theorem undo_undo (log : List (Entry κ α)) (s : κ → Option α) :
    undo log (undo log s) = undo log s := by
  funext k
  by_cases hk : Covers log k
  · exact undo_congr_of_covers hk _ _
  · exact undo_of_not_covers hk _

/-- Undoing the end of a log first makes no difference. -/
theorem undo_drop_undo_drop (log : List (Entry κ α)) {i j : Nat} (h : i ≤ j) (s : κ → Option α) :
    undo (log.drop i) (undo (log.drop j) s) = undo (log.drop i) s := by
  have hsplit : log.drop i = (log.drop i).take (j - i) ++ log.drop j := by
    have hrest := List.take_append_drop (j - i) (log.drop i)
    rw [List.drop_drop, Nat.add_sub_cancel' h] at hrest
    exact hrest.symm
  rw [hsplit, undo_append, undo_append, undo_undo]

/-- A new entry with the value that the key has. -/
theorem undo_concat (log : List (Entry κ α)) {s : κ → Option α} {k : κ} {old : Option α}
    (h : s k = old) : undo (log ++ [⟨k, old⟩]) s = undo log s := by
  subst h
  rw [undo_append, undo_cons, undo_nil, Function.update_eq_self]

end UndoLog
