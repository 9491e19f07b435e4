import NgxCpp.NgxDirective
import Mathlib.Data.Nat.Bitwise

/-! `NgxTake`: how many arguments a directive takes, as bits in the type of its command, and
how nginx counts the arguments of a line by them. -/

namespace NgxCpp
open Foundation

/-- `NGX_CONF_NOARGS` and `NGX_CONF_TAKE1` to `NGX_CONF_TAKE7`, as in nginx's
`argument_number`. -/
def argumentNumber : List Nat := [0x1, 0x2, 0x4, 0x8, 0x10, 0x20, 0x40, 0x80]

def ngxConfMaxArgs : Nat := 8
def ngxConfFlag : Nat := 0x200
def ngxConfAny : Nat := 0x400
def ngxConf1More : Nat := 0x800
def ngxConf2More : Nat := 0x1000

namespace NgxTake

/-- An element of the static `takes`, if there is one. -/
def takes (i : Int) : Option Nat := if i < 0 then none else argumentNumber[i.toNat]?

/-- The loop of `take`. -/
def collect : Nat → Int → Nat → Option Nat
  | 0, _, tmp => some tmp
  | k + 1, i, tmp => do
    let bit ← takes i
    collect k (i + 1) (tmp ||| bit)

/-- `take`; outside of `takes` its value is undefined. -/
def take (m n : Int) : Option Nat :=
  if n < 0 ∨ n < m then takes m
  else if ngxConfMaxArgs ≤ n then some (if m = 1 then ngxConf1More else ngxConf2More)
  else collect (n + 1 - m).toNat m 0

def type (conf : Nat) (m : Int := 0) (n : Int := -1) : Option Nat :=
  (take m n).map fun bits => conf ||| bits

end NgxTake

/-- How `ngx_conf_handler` counts the words of a line, the directive's name among them. -/
def ngxConfCounts (type nelts : Nat) : Bool :=
  if type &&& ngxConfAny ≠ 0 then true
  else if type &&& ngxConfFlag ≠ 0 then nelts == 2
  else if type &&& ngxConf1More ≠ 0 then decide (2 ≤ nelts)
  else if type &&& ngxConf2More ≠ 0 then decide (3 ≤ nelts)
  else if ngxConfMaxArgs < nelts then false
  else argumentNumber[nelts - 1]?.any fun bit => type &&& bit ≠ 0

namespace NgxTake

variable {conf k : Nat} {m n : Int}

def Plain (conf : Nat) : Prop := ∀ k < 13, k ≠ 8 → conf.testBit k = false

instance (conf : Nat) : Decidable (Plain conf) :=
  inferInstanceAs (Decidable (∀ k < 13, k ≠ 8 → conf.testBit k = false))

def Counts (m n : Int) (c : Nat) : Prop :=
  if n < 0 ∨ n < m then c = m
  else if ngxConfMaxArgs ≤ n then (if m = 1 then 1 else 2) ≤ c
  else m ≤ c ∧ c ≤ n

/-- From `m` arguments to `n`, just `m` when `n` is less, and without an end when `n` is
past what a line can have. -/
def Meant (m n : Int) (c : Nat) : Prop :=
  m ≤ c ∧ (n < ngxConfMaxArgs → c ≤ max m n)

theorem argumentNumber_eq (inside : k < 8) : argumentNumber[k]? = some (2 ^ k) := by
  have each : ∀ k < 8, argumentNumber[k]? = some (2 ^ k) := by decide
  exact each k inside

theorem takes_eq (inside : k < 8) : takes k = some (2 ^ k) := by
  rw [takes, if_neg (by omega), Int.toNat_natCast, argumentNumber_eq inside]

theorem land_two_pow_ne_zero (type k : Nat) : type &&& 2 ^ k ≠ 0 ↔ type.testBit k = true := by
  rw [Nat.and_two_pow]
  cases type.testBit k <;> simp

theorem collect_testBit {i : Nat} (tmp : Nat) (inside : i + k ≤ 8) :
    ∃ t, collect k i tmp = some t ∧
      ∀ j, t.testBit j = (tmp.testBit j || decide (i ≤ j ∧ j < i + k)) := by
  induction k generalizing i tmp with
  | zero => exact ⟨tmp, rfl, fun j => by simp⟩
  | succ k ih =>
    obtain ⟨t, done, bits⟩ := ih (tmp ||| 2 ^ i) (i := i + 1) (by omega)
    refine ⟨t, ?_, fun j => ?_⟩
    · rw [collect, takes_eq (by omega)]
      exact done
    · rw [bits, Nat.testBit_or, Nat.testBit_two_pow, Bool.or_assoc]
      congr 1
      rw [Bool.eq_iff_iff]
      simp only [Bool.or_eq_true, decide_eq_true_iff]
      omega

theorem counts_bits (type nelts : Nat) : ngxConfCounts type nelts =
    if type.testBit 10 = true then true
    else if type.testBit 9 = true then nelts == 2
    else if type.testBit 11 = true then decide (2 ≤ nelts)
    else if type.testBit 12 = true then decide (3 ≤ nelts)
    else if ngxConfMaxArgs < nelts then false
    else argumentNumber[nelts - 1]?.any fun bit => type &&& bit ≠ 0 := by
  have any : type &&& ngxConfAny ≠ 0 ↔ type.testBit 10 = true := land_two_pow_ne_zero type 10
  have flag : type &&& ngxConfFlag ≠ 0 ↔ type.testBit 9 = true := land_two_pow_ne_zero type 9
  have one : type &&& ngxConf1More ≠ 0 ↔ type.testBit 11 = true := land_two_pow_ne_zero type 11
  have two : type &&& ngxConf2More ≠ 0 ↔ type.testBit 12 = true := land_two_pow_ne_zero type 12
  simp only [ngxConfCounts, any, flag, one, two]

theorem counts_small {type : Nat} (closed : ∀ k, 9 ≤ k → k < 13 → type.testBit k = false)
    (c : Nat) : ngxConfCounts type (c + 1) = true ↔ c < 8 ∧ type.testBit c = true := by
  rw [counts_bits, closed 10 (by decide) (by decide), closed 9 (by decide) (by decide),
    closed 11 (by decide) (by decide), closed 12 (by decide) (by decide), Nat.add_sub_cancel]
  simp only [Bool.false_eq_true, if_false]
  by_cases inside : c < 8
  · rw [if_neg (by simp only [ngxConfMaxArgs]; omega), argumentNumber_eq inside, Option.any_some,
      decide_eq_true_iff, land_two_pow_ne_zero]
    exact (and_iff_right inside).symm
  · rw [if_pos (by simp only [ngxConfMaxArgs]; omega)]
    simp [inside]

theorem testBit_or_plain (plain : Plain conf) (bits : Nat) (low : k < 13) (other : k ≠ 8) :
    (conf ||| bits).testBit k = bits.testBit k := by
  rw [Nat.testBit_or, plain k low other, Bool.false_or]

theorem counts_open (plain : Plain conf) (c : Nat) :
    ngxConfCounts (conf ||| ngxConf1More) (c + 1) = decide (1 ≤ c) ∧
      ngxConfCounts (conf ||| ngxConf2More) (c + 1) = decide (2 ≤ c) := by
  have bit := fun k low other bits => testBit_or_plain (k := k) plain bits low other
  refine ⟨?_, ?_⟩
  · rw [counts_bits, bit 10 (by decide) (by decide), bit 9 (by decide) (by decide),
      bit 11 (by decide) (by decide)]
    exact decide_eq_decide.mpr (by omega)
  · rw [counts_bits, bit 10 (by decide) (by decide), bit 9 (by decide) (by decide),
      bit 11 (by decide) (by decide), bit 12 (by decide) (by decide)]
    exact decide_eq_decide.mpr (by omega)

theorem counts_bits_plain {bits : Nat} (plain : Plain conf)
    (low : ∀ k, bits.testBit k = true → k < 8) (c : Nat) :
    ngxConfCounts (conf ||| bits) (c + 1) = true ↔ bits.testBit c = true := by
  rw [counts_small fun k above below => ?_]
  · constructor
    · rintro ⟨inside, set⟩
      rwa [testBit_or_plain plain bits (by omega) (by omega)] at set
    · intro set
      have inside := low c set
      refine ⟨inside, ?_⟩
      rwa [testBit_or_plain plain bits (by omega) (by omega)]
  · rw [testBit_or_plain plain bits below (by omega), ← Bool.not_eq_true]
    intro set
    have inside := low k set
    omega

/-- What a command made with `NgxTake` has nginx accept. -/
theorem counts_iff (plain : Plain conf) (inside : 0 ≤ m ∧ m < 8) :
    ∃ t, type conf m n = some t ∧ ∀ c, ngxConfCounts t (c + 1) = true ↔ Counts m n c := by
  obtain ⟨m, rfl⟩ := Int.eq_ofNat_of_zero_le inside.1
  have small : m < 8 := by omega
  rw [type, take]
  unfold Counts
  split
  case isTrue =>
    refine ⟨conf ||| 2 ^ m, by rw [takes_eq small]; rfl, fun c => ?_⟩
    rw [counts_bits_plain plain fun k set => ?_]
    · rw [Nat.testBit_two_pow, decide_eq_true_iff]
      omega
    · rw [Nat.testBit_two_pow, decide_eq_true_iff] at set
      omega
  case isFalse ordered =>
    split
    case isTrue =>
      refine ⟨_, rfl, fun c => ?_⟩
      obtain ⟨one, two⟩ := counts_open plain c
      split
      · rw [one, decide_eq_true_iff]
      · rw [two, decide_eq_true_iff]
    case isFalse closed =>
      simp only [ngxConfMaxArgs] at closed
      obtain ⟨t, done, bits⟩ := collect_testBit (i := m) (k := (n + 1 - m).toNat) 0 (by omega)
      refine ⟨conf ||| t, by rw [done]; rfl, fun c => ?_⟩
      have set : ∀ j, t.testBit j = true ↔ (m : Int) ≤ j ∧ j ≤ n := fun j => by
        rw [bits, Nat.zero_testBit, Bool.false_or, decide_eq_true_iff]
        omega
      rw [counts_bits_plain plain fun k here => ?_, set]
      have upper := ((set k).mp here).2
      omega

/-- `NgxTake` means what it reads as, from `m` arguments to `n`, except that an open end
starts at one argument or at two. -/
theorem take_as_meant_iff (plain : Plain conf) (inside : 0 ≤ m ∧ m < 8) :
    ∃ t, type conf m n = some t ∧
      ((∀ c, ngxConfCounts t (c + 1) = true ↔ Meant m n c) ↔ n < 8 ∨ m = 1 ∨ m = 2) := by
  obtain ⟨t, made, counts⟩ := counts_iff (n := n) plain inside
  refine ⟨t, made, ?_⟩
  have eight : (ngxConfMaxArgs : Int) = 8 := rfl
  simp only [counts, Counts, Meant, eight]
  constructor
  · intro same
    by_contra! unbounded
    -- no argument where `m` is 0, two where `m` is more
    have none := same 0
    have two := same 2
    simp only [show ¬ (n < 0 ∨ n < m) by omega, show 8 ≤ n by omega, unbounded.2.1, if_true,
      if_false] at none two
    omega
  · intro bounded c
    split
    · omega
    · split <;> [skip; omega]
      split <;> omega

/-- Any number of arguments, but the least that nginx accepts is two. -/
theorem take_as_meant_any : ¬ ∀ c, ngxConfCounts (0x08000000 ||| ngxConf2More) (c + 1) = true ↔
    Meant 0 8 c := by
  obtain ⟨t, made, same⟩ := @take_as_meant_iff 0x08000000 0 8 (by decide) (by decide)
  cases made
  exact fun meant => absurd (same.mp meant) (by decide)

end NgxTake

end NgxCpp
