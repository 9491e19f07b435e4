import Mathlib.Data.Rat.Cast.Defs
import Mathlib.Tactic.Ring
import Mathlib.Tactic.NormNum

/-! `NgxClock`. The fields of a time are subtracted one by one: seconds are signed,
milliseconds are an unsigned word, and nothing is borrowed between them. -/

namespace NgxCpp

structure NgxTimeT where
  sec : Int64
  msec : UInt64
  gmtoff : Int64 := 0
deriving DecidableEq

namespace NgxTimeT

def total (t : NgxTimeT) : Int := t.sec.toInt * 1000 + t.msec.toNat

def Normal (t : NgxTimeT) : Prop := t.msec.toNat < 1000

instance (t : NgxTimeT) : Decidable t.Normal :=
  inferInstanceAs (Decidable (t.msec.toNat < 1000))

end NgxTimeT

/-- The clock, with its `m_time`. -/
structure NgxClock where
  time : NgxTimeT
deriving DecidableEq

namespace NgxClock

/-- `reset`, where `now` returns this time. -/
def reset (now : NgxTimeT) : NgxClock := ⟨now⟩

def delta (c : NgxClock) (now : NgxTimeT) : NgxTimeT :=
  { now with sec := now.sec - c.time.sec, msec := now.msec - c.time.msec }

/-- `elapsed`, without the rounding of `double`. -/
def elapsed (c : NgxClock) (now : NgxTimeT) : ℚ :=
  (c.delta now).sec.toInt + (c.delta now).msec.toNat * 1 / 1000

/-- The clock measures the time from `s` to `t`. -/
structure Measures (s t : NgxTimeT) : Prop where
  normal : ((reset s).delta t).Normal
  total : ((reset s).delta t).total = t.total - s.total
  elapsed : (reset s).elapsed t = (t.total - s.total : ℤ) / 1000

variable {s t : NgxTimeT}

theorem elapsed_eq (c : NgxClock) (now : NgxTimeT) :
    c.elapsed now = ((c.delta now).total : ℤ) / 1000 := by
  unfold elapsed NgxTimeT.total
  push_cast
  ring

theorem delta_sec (small : t.sec.toInt - s.sec.toInt < 2 ^ 63)
    (later : s.sec.toInt ≤ t.sec.toInt) :
    ((reset s).delta t).sec.toInt = t.sec.toInt - s.sec.toInt := by
  have wrapped : ((reset s).delta t).sec.toInt = (t.sec.toInt - s.sec.toInt).bmod (2 ^ 64) :=
    Int64.toInt_sub ..
  rw [wrapped]
  exact Int.bmod_eq_of_le (by omega) (by omega)

theorem delta_msec (above : s.msec.toNat ≤ t.msec.toNat) :
    ((reset s).delta t).msec.toNat = t.msec.toNat - s.msec.toNat :=
  UInt64.toNat_sub_of_le _ _ (UInt64.le_iff_toNat_le.mpr above)

theorem delta_msec_borrow (below : t.msec.toNat < s.msec.toNat) :
    ((reset s).delta t).msec.toNat = 2 ^ 64 - s.msec.toNat + t.msec.toNat := by
  have wrapped : ((reset s).delta t).msec.toNat =
      (2 ^ 64 - s.msec.toNat + t.msec.toNat) % 2 ^ 64 := UInt64.toNat_sub ..
  have bound := s.msec.toNat_lt
  rw [wrapped]
  exact Nat.mod_eq_of_lt (by omega)

theorem sec_le (normal : s.Normal) (later : s.total ≤ t.total) (above : t.Normal) :
    s.sec.toInt ≤ t.sec.toInt := by
  unfold NgxTimeT.total NgxTimeT.Normal at *
  omega

/-- Where seconds fit `time_t`, the clock is right exactly when no second has to be
borrowed. -/
theorem measures_iff (normal : s.Normal) (normal' : t.Normal) (later : s.total ≤ t.total) :
    Measures s t ↔ s.msec.toNat ≤ t.msec.toNat ∧ t.sec.toInt - s.sec.toInt < 2 ^ 63 := by
  have order := sec_le normal later normal'
  constructor
  · intro right
    have above : s.msec.toNat ≤ t.msec.toNat := by
      by_contra below
      have kept := right.normal
      unfold NgxTimeT.Normal at kept normal
      rw [delta_msec_borrow (Nat.lt_of_not_le below)] at kept
      omega
    refine ⟨above, ?_⟩
    have total := right.total
    unfold NgxTimeT.total at total
    rw [delta_msec above] at total
    have bound := ((reset s).delta t).sec.toInt_lt
    omega
  · rintro ⟨above, small⟩
    have total : ((reset s).delta t).total = t.total - s.total := by
      unfold NgxTimeT.total
      rw [delta_sec small order, delta_msec above]
      omega
    refine ⟨?_, total, ?_⟩
    · unfold NgxTimeT.Normal at normal' ⊢
      rw [delta_msec above]
      omega
    · rw [elapsed_eq, total]

/-- From 3.250 to 5.700. -/
theorem measures_two_seconds : Measures ⟨3, 250, 0⟩ ⟨5, 700, 0⟩ :=
  (measures_iff (by decide) (by decide) (by decide)).mpr (by decide)

/-- From 3.900 to 4.100: a fifth of a second. -/
theorem measures_across_second : ¬ Measures ⟨3, 900, 0⟩ ⟨4, 100, 0⟩ :=
  fun right => absurd right.normal (by decide)

end NgxClock

end NgxCpp
