import NgxCpp.NgxValue
import NgxCpp.NgxString
import NgxCpp.Foundation.Levels

/-! `NgxValue::merge` over nested levels of configuration. -/

namespace NgxCpp
open Foundation

namespace NgxValue

variable {V : Type} {isUnset : V → Bool} {d p v unset : V} {levels : List (Option V)}

/-- The levels inside one that has `p`, each merged with the one around it. -/
def inherit (isUnset : V → Bool) (d : V) : V → List V → List V
  | _, [] => []
  | p, c :: cs =>
    let v := mergeBy isUnset c p d
    v :: inherit isUnset d v cs

/-- What `create` and a directive store: the setting or the unset value. -/
def stored (unset : V) (setting : Option V) : V := setting.getD unset

/-- The settings that `merge` can tell from the unset value. -/
def seen (isUnset : V → Bool) (setting : Option V) : Option V :=
  setting.filter fun v => !isUnset v

/-- `p` stands for these levels: it is their setting, or unset where they have none. -/
def Carries (isUnset : V → Bool) (d p : V) (levels : List (Option V)) : Prop :=
  if isUnset p then nearest d levels = d else nearest d levels = p

theorem carries_stored (unset_unset : isUnset unset = true) (setting : Option V) :
    Carries isUnset d (stored unset setting) [seen isUnset setting] := by
  unfold Carries stored seen nearest
  cases setting with
  | none => simp [unset_unset]
  | some v => cases given : isUnset v <;> simp [given, Option.filter_some]

theorem mergeBy_nearest (carries : Carries isUnset d p levels) (unset_unset : isUnset unset = true)
    (setting : Option V) : mergeBy isUnset (stored unset setting) p d =
      nearest d (levels ++ [seen isUnset setting]) := by
  have inherited : (if isUnset p then d else p) = nearest d levels := by
    unfold Carries at carries
    split at carries <;> simp [*]
  unfold mergeBy stored seen
  cases setting with
  | none =>
    simp only [Option.getD_none, unset_unset, if_true, Option.filter_none]
    rw [nearest_append_none, inherited]
  | some v =>
    cases given : isUnset v with
    | true =>
      simp only [Option.getD_some, given, if_true, Option.filter_some, Bool.not_true,
        Bool.false_eq_true, if_false]
      rw [nearest_append_none, inherited]
    | false =>
      simp only [Option.getD_some, given, Option.filter_some, Bool.not_false, if_true,
        Bool.false_eq_true, if_false]
      rw [nearest_append_some]

theorem carries_merged (levels : List (Option V))
    (valid : ∀ v, some v ∈ levels → isUnset v = false) :
    Carries isUnset d (nearest d levels) levels := by
  unfold Carries
  split
  · rename_i none
    obtain same | found := nearest_cases d levels
    · exact same
    · rw [valid _ found] at none
      simp at none
  · rfl

theorem inherit_nearest {outer : List (Option V)} (unset_unset : isUnset unset = true)
    (valid : ∀ v, some v ∈ outer → isUnset v = false) (carries : Carries isUnset d p outer)
    {i : Nat} (inside : i < levels.length) :
    (inherit isUnset d p (levels.map (stored unset)))[i]? =
      some (nearest d (outer ++ (levels.take (i + 1)).map (seen isUnset))) := by
  induction levels generalizing p outer i with
  | nil => simp at inside
  | cons setting levels ih =>
    have merged := mergeBy_nearest carries unset_unset setting
    have valid' : ∀ v, some v ∈ outer ++ [seen isUnset setting] → isUnset v = false := by
      intro v member
      rcases List.mem_append.mp member with old | new
      · exact valid v old
      · have kept := (List.mem_singleton.mp new).symm
        simpa using (Option.filter_eq_some_iff.mp kept).2
    cases i with
    | zero => simp [inherit, merged]
    | succ i =>
      have rest := ih valid' (carries_merged _ valid') (Nat.lt_of_succ_lt_succ inside)
      rw [List.map_cons, inherit, List.getElem?_cons_succ, merged, rest, List.take_succ_cons,
        List.map_cons, List.append_assoc]
      rfl

theorem inherit_stored (unset_unset : isUnset unset = true) (top : Option V) {i : Nat}
    (inside : i < levels.length) :
    (inherit isUnset d (stored unset top) (levels.map (stored unset)))[i]? =
      some (nearest d (((top :: levels).take (i + 2)).map (seen isUnset))) := by
  refine inherit_nearest unset_unset (fun v member => ?_) (carries_stored unset_unset top) inside
  simpa using (Option.filter_eq_some_iff.mp (List.mem_singleton.mp member).symm).2

theorem mergeBy_again (c : V) :
    mergeBy isUnset (mergeBy isUnset c p d) p d = mergeBy isUnset c p d := by
  unfold mergeBy
  cases child : isUnset c with
  | false => simp [child]
  | true => cases parent : isUnset p <;> simp [parent]

theorem seen_int {T : Type} [DecidableEq T] [Neg T] [OfNat T 1] {settings : List (Option T)}
    (explicit : ∀ v, some v ∈ settings → v ≠ ngxNil) : settings.map (seen invalid) = settings := by
  have kept : ∀ setting ∈ settings, seen invalid setting = id setting := by
    intro setting member
    cases setting with
    | none => rfl
    | some v =>
      have valid : invalid v = false := by
        simpa [← invalid_iff] using explicit v member
      simp [seen, Option.filter_some, valid]
  rw [List.map_congr_left kept, List.map_id]

theorem seen_str {settings : List (Option NgxStr)}
    (given : ∀ s, some s ∈ settings → s.data ≠ 0) :
    settings.map (seen NgxString.empty) = settings.map (Option.filter fun s => s.len != 0) := by
  refine List.map_congr_left fun setting member => ?_
  cases setting with
  | none => rfl
  | some s => simp [seen, Option.filter_some, NgxString.empty, given s member]

section Inheritance

variable {T : Type} [DecidableEq T] [Neg T] [OfNat T 1]

/-- Every level has the nearest setting at or around it, or the default. An empty string
is no setting, and a second merge changes nothing. -/
theorem merge_inherits {d : T} {top : Option T} {levels : List (Option T)}
    (explicit : ∀ v, some v ∈ top :: levels → v ≠ ngxNil) {text : NgxStr}
    {topStr : Option NgxStr} {strs : List (Option NgxStr)}
    (given : ∀ s, some s ∈ topStr :: strs → s.data ≠ 0) :
    (∀ i < levels.length,
      (inherit invalid d (stored ngxNil top) (levels.map (stored ngxNil)))[i]? =
        some (nearest d ((top :: levels).take (i + 2)))) ∧
    (∀ i < strs.length, (inherit NgxString.empty text (stored ngxNullString topStr)
        (strs.map (stored ngxNullString)))[i]? =
      some (nearest text (((topStr :: strs).take (i + 2)).map
        (Option.filter fun s => s.len != 0)))) ∧
    (∀ c p : T, merge (merge c p d) p d = merge c p d) ∧
    ∀ c p : NgxStr, mergeBy NgxString.empty (mergeBy NgxString.empty c p text) p text =
      mergeBy NgxString.empty c p text := by
  refine ⟨fun i inside => ?_, fun i inside => ?_, fun c p => mergeBy_again c,
    fun c p => mergeBy_again c⟩
  · have unset : invalid (ngxNil : T) = true := invalid_iff.mpr rfl
    rw [inherit_stored unset top inside, List.map_take, seen_int explicit]
  · rw [inherit_stored rfl topStr inside, List.map_take, seen_str given, List.map_take]

/-- Timeouts of 300 outside and 0 two levels further in, texts of three and two bytes
around an empty one. -/
theorem merge_inherits_nested :
    (inherit invalid 5000 (300 : UInt64) [ngxNil, 0, ngxNil])[2]? = some 0 ∧
      (inherit NgxString.empty ngxNullString ⟨3, 16⟩ [⟨2, 48⟩, ⟨0, 32⟩])[1]? =
        some ⟨2, 48⟩ := by
  have explicit : ∀ v, some v ∈ some 300 :: [none, some (0 : UInt64), none] → v ≠ ngxNil := by
    simp [ngxNil]
    decide
  have given : ∀ s, some s ∈ some ⟨3, 16⟩ :: [some ⟨2, 48⟩, some (⟨0, 32⟩ : NgxStr)] →
      s.data ≠ 0 := by simp
  have inherits := @merge_inherits _ _ _ _ 5000 _ _ explicit ngxNullString _ _ given
  exact ⟨inherits.1 2 (by decide), inherits.2.1 1 (by decide)⟩

/-- The empty text of an inner level loses to the text around it. -/
theorem merge_empty_text : inherit NgxString.empty ngxNullString ⟨3, 16⟩ [⟨0, 32⟩] ≠
    [nearest ngxNullString [some ⟨3, 16⟩, some ⟨0, 32⟩]] := by
  decide

end Inheritance

end NgxValue

end NgxCpp
