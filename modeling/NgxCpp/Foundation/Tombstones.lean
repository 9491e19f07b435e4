import Mathlib.Data.List.Basic

/-! Deletion by burying: an entry stays in its list but is no longer live. The
live entries are what the list stands for. `buryFirst` with a predicate that asks
for a live entry removes from what the list stands for; one that does not ask may
stop at an entry that was buried before. -/

namespace Foundation

variable {α : Type} (live : α → Bool) (bury : α → α) (p : α → Bool)

def buryFirst (bury : α → α) (p : α → Bool) : List α → List α
  | [] => []
  | a :: as => if p a then bury a :: as else a :: buryFirst bury p as

def LiveFirst (live p : α → Bool) (as : List α) : Prop := ∀ a, as.find? p = some a → live a = true

variable {live bury p}

theorem buryFirst_of_none {as : List α} (none : ∀ a ∈ as, p a = false) :
    buryFirst bury p as = as := by
  induction as with
  | nil => rfl
  | cons a as ih =>
    rw [buryFirst, none a (by simp), if_neg (by simp), ih fun b member => none b (by simp [member])]

theorem buryFirst_eq_set {as : List α} (inside : as.findIdx p < as.length) :
    buryFirst bury p as = as.set (as.findIdx p) (bury as[as.findIdx p]) := by
  induction as with
  | nil => simp at inside
  | cons a as ih =>
    by_cases here : p a = true
    · simp [buryFirst, List.findIdx_cons, here]
    · have later : as.findIdx p < as.length := by
        simpa [List.findIdx_cons, here] using inside
      simp [buryFirst, List.findIdx_cons, here, ih later]

theorem buryFirst_of_past {as : List α} (past : ¬ as.findIdx p < as.length) :
    buryFirst bury p as = as := by
  apply buryFirst_of_none
  intro a member
  by_contra found
  exact past (List.findIdx_lt_length_of_exists ⟨a, member, by simpa using found⟩)

/-- Burying the first live entry removes it from what the list stands for. -/
theorem filter_buryFirst (buried : ∀ a, live (bury a) = false) (as : List α) :
    (buryFirst bury (fun a => live a && p a) as).filter live = (as.filter live).eraseP p := by
  induction as with
  | nil => rfl
  | cons a as ih =>
    by_cases alive : live a = true
    · by_cases here : p a = true
      · simp [buryFirst, alive, here, buried]
      · simp [buryFirst, alive, here, ih]
    · simp [buryFirst, alive, ih]

/-- Not asking for a live entry buries the same one exactly when the first match
is live, or when there is no live match and the burial changes nothing. -/
theorem buryFirst_eq_iff (buried : ∀ a, live (bury a) = false)
    (settled : ∀ a, live a = false → bury a = a) (as : List α) :
    buryFirst bury p as = buryFirst bury (fun a => live a && p a) as ↔
      LiveFirst live p as ∨ ∀ a ∈ as, p a = true → live a = false := by
  induction as with
  | nil => simp [buryFirst]
  | cons a as ih =>
    by_cases here : p a = true
    · by_cases alive : live a = true
      · simp [buryFirst, LiveFirst, here, alive]
      · have dead : live a = false := by simpa using alive
        simp only [buryFirst, LiveFirst, here, dead, settled a dead, List.find?_cons, if_true,
          Bool.false_and, Bool.false_eq_true, if_false, List.cons.injEq, true_and,
          Option.some.injEq, forall_eq', false_or, List.forall_mem_cons, forall_const]
        constructor
        · intro same b member found
          by_contra alive'
          have kept := congrArg (List.filter live) same
          rw [filter_buryFirst buried] at kept
          have shorter := congrArg List.length kept
          have inside : b ∈ as.filter live := by simpa [member] using alive'
          rw [List.length_eraseP_of_mem inside found] at shorter
          have some := List.length_pos_of_mem inside
          omega
        · intro none
          symm
          apply buryFirst_of_none
          intro b member
          by_cases found : p b = true
          · simp [none b member found]
          · simp [found]
    · simp [buryFirst, LiveFirst, here, ih]

theorem find?_eq_of_liveFirst {as : List α} (first : LiveFirst live p as) :
    as.find? p = as.find? fun a => live a && p a := by
  induction as with
  | nil => rfl
  | cons a as ih =>
    by_cases here : p a = true
    · have alive : live a = true := first a (by simp [here])
      simp [here, alive]
    · have later : LiveFirst live p as := by
        intro b found
        exact first b (by simpa [here] using found)
      simp [here, ih later]

end Foundation
