import Mathlib.Data.List.Perm.Basic
import Mathlib.Data.List.Count

/-! Entries of several parties in one list, each tagged with its party: what the parts of
the parties say about the whole, whatever the order they come in. -/

namespace Foundation

variable {κ α : Type} [DecidableEq κ]

def ofParty (w : κ) (entries : List (κ × α)) : List α :=
  (entries.filter fun entry => entry.1 = w).map Prod.snd

@[simp] theorem ofParty_nil (w : κ) : ofParty w ([] : List (κ × α)) = [] := rfl

@[simp] theorem ofParty_append (w : κ) (before after : List (κ × α)) :
    ofParty w (before ++ after) = ofParty w before ++ ofParty w after := by
  simp [ofParty]

@[simp] theorem ofParty_singleton (w v : κ) (a : α) :
    ofParty w [(v, a)] = if v = w then [a] else [] := by
  by_cases same : v = w <;> simp [ofParty, same]

theorem count_ofParty [DecidableEq α] (w : κ) (a : α) (entries : List (κ × α)) :
    (ofParty w entries).count a = entries.count (w, a) := by
  induction entries with
  | nil => rfl
  | cons entry entries ih =>
    obtain ⟨v, b⟩ := entry
    rw [← List.singleton_append, ofParty_append, List.count_append, List.count_append, ih,
      ofParty_singleton]
    by_cases same : v = w
    · rw [if_pos same, same, List.count_singleton, List.count_singleton]
      simp
    · rw [if_neg same, List.count_nil, List.count_singleton]
      simp [same]

/-- Lists in which each party has the same entries differ in their order only. -/
theorem perm_of_ofParty {entries entries' : List (κ × α)}
    (same : ∀ w, ofParty w entries = ofParty w entries') : entries.Perm entries' := by
  classical
  rw [List.perm_iff_count]
  rintro ⟨w, a⟩
  rw [← count_ofParty, ← count_ofParty, same]

end Foundation
