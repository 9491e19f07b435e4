import NgxCpp.Foundation.Exec

/-! The unset value of `NgxValue`, which is -1 cast to the type at hand. -/

namespace NgxCpp

variable {T : Type} [Neg T] [OfNat T 1]

def ngxNil : T := -1

namespace NgxValue

def invalid [BEq T] (v : T) : Bool := v == ngxNil

def init [BEq T] (x v : T) : T := if invalid x then v else x

/-- `merge`, by the overload of `invalid` for the type. -/
def mergeBy {T : Type} (invalid : T → Bool) (c p d : T) : T :=
  if invalid c then (if invalid p then d else p) else c

def merge [BEq T] (c p d : T) : T := mergeBy invalid c p d

theorem invalid_iff [BEq T] [LawfulBEq T] {v : T} : invalid v = true ↔ v = ngxNil :=
  beq_iff_eq

end NgxValue

end NgxCpp
