import NgxCpp.NgxBuf
import NgxCpp.Foundation.Runs

/-! `NgxBuf` against a bounded window: bytes are read at its front and written at its
back, within fixed bounds. -/

namespace NgxCpp
open Foundation

/-- A bounded window: the bytes from `pos` to `last` are there to read, those up to
`past` are free. -/
structure Window where
  start : Nat
  pos : Nat
  last : Nat
  past : Nat
  start_le : start ≤ pos
  readable : pos ≤ last
  bounded : last ≤ past
deriving DecidableEq

structure PlacedStr where
  str : NgxStr
  addressed : str.data + str.len < 2 ^ 64

/-- `ngx_slprintf` with its arguments: it stops between the place and its end. -/
structure Slprintf where
  ret : Nat → Nat → Nat
  inside : ∀ buf last, buf ≤ last → buf ≤ ret buf last ∧ ret buf last ≤ last

def Slprintf.text (n : Nat) : Slprintf where
  ret buf last := min (buf + n) last
  inside _ _ le := ⟨Nat.le_min.mpr ⟨Nat.le_add_right .., le⟩, Nat.min_le_right ..⟩

namespace Window

def size (w : Window) : Nat := w.last - w.pos

def room (w : Window) : Nat := w.past - w.last

def ofStr (s : PlacedStr) : Window where
  start := s.str.data
  pos := s.str.data
  last := s.str.data + s.str.len
  past := s.str.data + s.str.len
  start_le := Nat.le_refl _
  readable := Nat.le_add_right ..
  bounded := Nat.le_refl _

def consume (w : Window) (n : Nat) : Window where
  start := w.start
  pos := w.pos + min n w.size
  last := w.last
  past := w.past
  start_le := Nat.le_trans w.start_le (Nat.le_add_right ..)
  readable := by
    have bound := Nat.min_le_right n w.size
    have readable := w.readable
    unfold size at bound ⊢
    omega
  bounded := w.bounded

def produce (w : Window) (n : Nat) : Window where
  start := w.start
  pos := w.pos
  last := w.last + min n w.room
  past := w.past
  start_le := w.start_le
  readable := Nat.le_trans w.readable (Nat.le_add_right ..)
  bounded := by
    have bound := Nat.min_le_right n w.room
    have bounded := w.bounded
    unfold room at bound ⊢
    omega

def printf (w : Window) (out : Slprintf) : Window where
  start := w.start
  pos := w.pos
  last := out.ret w.pos w.past
  past := w.past
  start_le := w.start_le
  readable := (out.inside _ _ (Nat.le_trans w.readable w.bounded)).1
  bounded := (out.inside _ _ (Nat.le_trans w.readable w.bounded)).2

def clear (w : Window) : Window where
  start := w.start
  pos := w.last
  last := w.last
  past := w.past
  start_le := Nat.le_trans w.start_le w.readable
  readable := Nat.le_refl _
  bounded := w.bounded

def reset (w : Window) : Window where
  start := w.start
  pos := w.start
  last := w.start
  past := w.past
  start_le := Nat.le_refl _
  readable := Nat.le_refl _
  bounded := Nat.le_trans (Nat.le_trans w.start_le w.readable) w.bounded

end Window

structure Frames (w : Window) (b : NgxBufT) : Prop where
  memory : b.inMemory = true
  start : b.start = w.start
  pos : b.pos = w.pos
  last : b.last = w.last
  past : b.past = w.past
  addressed : w.past < 2 ^ 64

inductive BufCall where
  | range (s : PlacedStr)
  | consume (n : UInt64)
  | produce (n : UInt64)
  | printf (out : Slprintf)
  | clear
  | reset
  | empty
  | full

namespace BufCall

def step (b : NgxBufT) : BufCall → NgxBufT
  | range s => NgxBuf.rangeStr s.str b
  | consume n => NgxBuf.consume n.toNat b
  | produce n => NgxBuf.produce n.toNat b
  | printf out => NgxBuf.printf out.ret b
  | clear => NgxBuf.clear b
  | reset => NgxBuf.reset b
  | empty => b
  | full => b

def apply (w : Window) : BufCall → Window
  | range s => .ofStr s
  | consume n => w.consume n.toNat
  | produce n => w.produce n.toNat
  | printf out => w.printf out
  | clear => w.clear
  | reset => w.reset
  | empty => w
  | full => w

def Answers (w : Window) (b : NgxBufT) : BufCall → Prop
  | consume n => ∀ c, (NgxBuf.consume n.toNat b).bytes c =
      (b.bytes c).drop (min n.toNat w.size)
  | produce n => ∀ c, (NgxBuf.produce n.toNat b).bytes c =
      b.bytes c ++ c.ram.span w.last (w.last + min n.toNat w.room)
  | empty => NgxBuf.empty b = true ↔ ∀ c, b.bytes c = []
  | full => NgxBuf.full b = true ↔ w.room = 0
  | _ => True

def Refines (b : NgxBufT) (call : BufCall) : Prop :=
  ∃ w, Frames w b ∧ Frames (call.apply w) (call.step b) ∧ call.Answers w b

/-- `produce` stays in the address space, and `full` is not asked of a buffer that is
filled up and still has bytes to read. -/
def InReach (b : NgxBufT) : BufCall → Prop
  | produce n => b.last + n.toNat < 2 ^ 64
  | full => b.last = b.past → b.pos = b.last
  | _ => True

instance (b : NgxBufT) : (call : BufCall) → Decidable (call.InReach b)
  | produce n => inferInstanceAs (Decidable (b.last + n.toNat < 2 ^ 64))
  | full => inferInstanceAs (Decidable (b.last = b.past → b.pos = b.last))
  | range _ | consume _ | printf _ | clear | reset | empty => inferInstanceAs (Decidable True)

end BufCall

namespace Frames

variable {w w' : Window} {b : NgxBufT}

theorem unique (frames : Frames w b) (other : Frames w' b) : w = w' := by
  obtain ⟨start, pos, last, past, _, _, _⟩ := w
  obtain ⟨start', pos', last', past', _, _, _⟩ := w'
  obtain rfl : start = start' := frames.start.symm.trans other.start
  obtain rfl : pos = pos' := frames.pos.symm.trans other.pos
  obtain rfl : last = last' := frames.last.symm.trans other.last
  obtain rfl : past = past' := frames.past.symm.trans other.past
  rfl

theorem sizeT (frames : Frames w b) : NgxBuf.sizeT b = w.size := by
  have readable := w.readable
  have bounded := w.bounded
  have addressed := frames.addressed
  unfold NgxBuf.sizeT NgxBufT.size Window.size
  rw [if_pos frames.memory, frames.pos, frames.last]
  omega

theorem bytes (frames : Frames w b) (c : Contents) : b.bytes c = c.ram.span w.pos w.last := by
  rw [NgxBufT.bytes, if_pos frames.memory, frames.pos, frames.last]

theorem range (s : PlacedStr) (b : NgxBufT) :
    Frames (.ofStr s) (NgxBuf.rangeStr s.str b) where
  memory := by simp [NgxBuf.rangeStr, NgxBuf.range, NgxBuf.boundary, NgxBufT.inMemory]
  start := rfl
  pos := rfl
  last := rfl
  past := rfl
  addressed := s.addressed

theorem consume (frames : Frames w b) (n : Nat) :
    Frames (w.consume n) (NgxBuf.consume n b) where
  memory := frames.memory
  start := frames.start
  pos := by
    have taken : (if w.size < n then w.size else n) = min n w.size := by
      split <;> omega
    rw [NgxBuf.consume, frames.sizeT, taken]
    exact congrArg (· + min n w.size) frames.pos
  last := frames.last
  past := frames.past
  addressed := frames.addressed

theorem produce_last (frames : Frames w b) (n : Nat) : (NgxBuf.produce n b).last =
    if w.past < (w.last + n) % 2 ^ 64 then w.past else (w.last + n) % 2 ^ 64 := by
  rw [NgxBuf.produce, frames.last, frames.past]

theorem produce (frames : Frames w b) {n : Nat} (inside : b.last + n < 2 ^ 64) :
    Frames (w.produce n) (NgxBuf.produce n b) where
  memory := frames.memory
  start := frames.start
  pos := frames.pos
  last := by
    have bounded := w.bounded
    rw [frames.last] at inside
    rw [frames.produce_last, Nat.mod_eq_of_lt inside]
    simp only [Window.produce, Window.room]
    split <;> omega
  past := frames.past
  addressed := frames.addressed

theorem produce_wraps (frames : Frames w b) {n : Nat} (small : n < 2 ^ 64)
    (outside : ¬ b.last + n < 2 ^ 64) : (NgxBuf.produce n b).last < w.last := by
  have bounded := w.bounded
  have addressed := frames.addressed
  rw [frames.last] at outside
  have wrapped : (w.last + n) % 2 ^ 64 = w.last + n - 2 ^ 64 := by omega
  rw [frames.produce_last, wrapped, if_neg (by omega)]
  omega

theorem printf (frames : Frames w b) (out : Slprintf) :
    Frames (w.printf out) (NgxBuf.printf out.ret b) where
  memory := frames.memory
  start := frames.start
  pos := frames.pos
  last := by
    rw [NgxBuf.printf, frames.pos, frames.past]
    rfl
  past := frames.past
  addressed := frames.addressed

theorem clear (frames : Frames w b) : Frames w.clear (NgxBuf.clear b) where
  memory := frames.memory
  start := frames.start
  pos := frames.last
  last := frames.last
  past := frames.past
  addressed := frames.addressed

theorem reset (frames : Frames w b) : Frames w.reset (NgxBuf.reset b) where
  memory := frames.memory
  start := frames.start
  pos := frames.start
  last := frames.start
  past := frames.past
  addressed := frames.addressed

theorem bytes_consume (frames : Frames w b) (n : Nat) (c : Contents) :
    (NgxBuf.consume n b).bytes c = (b.bytes c).drop (min n w.size) := by
  rw [(frames.consume n).bytes, frames.bytes, Ram.drop_span]
  rfl

theorem bytes_produce (frames : Frames w b) {n : Nat} (inside : b.last + n < 2 ^ 64)
    (c : Contents) : (NgxBuf.produce n b).bytes c =
      b.bytes c ++ c.ram.span w.last (w.last + min n w.room) := by
  rw [(frames.produce inside).bytes, frames.bytes,
    Ram.span_append w.readable (Nat.le_add_right ..)]
  rfl

theorem empty_iff (frames : Frames w b) : NgxBuf.empty b = true ↔ ∀ c, b.bytes c = [] := by
  have readable := w.readable
  rw [NgxBuf.empty, frames.pos, frames.last, beq_iff_eq]
  constructor
  · intro same c
    rw [frames.bytes, ← List.length_eq_zero_iff, Ram.length_span]
    omega
  · intro none
    have length := congrArg List.length (none ⟨fun _ => 0, fun _ _ => 0⟩)
    rw [frames.bytes, Ram.length_span, List.length_nil] at length
    omega

theorem full_iff (frames : Frames w b) :
    (NgxBuf.full b = true ↔ w.room = 0) ↔ (b.last = b.past → b.pos = b.last) := by
  have readable := w.readable
  have bounded := w.bounded
  rw [NgxBuf.full, frames.pos, frames.last, frames.past, Window.room, beq_iff_eq]
  omega

end Frames

namespace BufCall

variable {w : Window} {b : NgxBufT}

theorem refines_iff (frames : Frames w b) (call : BufCall) :
    call.Refines b ↔ call.InReach b := by
  have only : call.Refines b ↔ Frames (call.apply w) (call.step b) ∧ call.Answers w b := by
    constructor
    · rintro ⟨w', frames', rest⟩
      obtain rfl := frames.unique frames'
      exact rest
    · exact fun rest => ⟨w, frames, rest⟩
  rw [only]
  cases call with
  | range s => exact iff_of_true ⟨.range s b, trivial⟩ trivial
  | consume n => exact iff_of_true ⟨frames.consume _, frames.bytes_consume _⟩ trivial
  | produce n =>
    constructor
    · rintro ⟨produced, -⟩
      by_contra outside
      have back := frames.produce_wraps n.toNat_lt outside
      have forth : (NgxBuf.produce n.toNat b).last = w.last + min n.toNat w.room := produced.last
      omega
    · exact fun inside => ⟨frames.produce inside, frames.bytes_produce inside⟩
  | printf out => exact iff_of_true ⟨frames.printf out, trivial⟩ trivial
  | clear => exact iff_of_true ⟨frames.clear, trivial⟩ trivial
  | reset => exact iff_of_true ⟨frames.reset, trivial⟩ trivial
  | empty => exact iff_of_true ⟨frames, frames.empty_iff⟩ trivial
  | full => exact (and_iff_right frames).trans frames.full_iff

end BufCall

/-- In a run of calls on a buffer in memory each call does what it does to a window
exactly when each `produce` stays in the address space and no `full` is asked of a
buffer that is filled up with bytes to read. -/
theorem window_refined_iff {w : Window} {b : NgxBufT} (frames : Frames w b)
    (calls : List BufCall) :
    Along BufCall.step (fun b call => call.Refines b) b calls ↔
      Along BufCall.step (fun b call => call.InReach b) b calls := by
  refine along_congr_kept (G := fun _ _ => True) (fun b => ∃ w, Frames w b) ?_ ?_ ⟨w, frames⟩
    ((along_forall BufCall.step b).mpr fun _ _ => trivial)
  · rintro b call ⟨w, frames⟩ - inReach
    obtain ⟨w', -, framed, -⟩ := (BufCall.refines_iff frames call).mpr inReach
    exact ⟨_, framed⟩
  · rintro b call ⟨w, frames⟩ -
    exact BufCall.refines_iff frames call

private def threeBytes : PlacedStr := ⟨⟨3, 16⟩, by decide⟩

theorem window_refined_emptied :
    Along BufCall.step (fun b call => call.Refines b) (NgxBuf.ofStr threeBytes.str)
      [.consume 2, .produce 7, .consume 1, .empty, .full, .reset, .produce 1, .printf (.text 5),
        .consume 9, .full, .range ⟨⟨8, 32⟩, by decide⟩, .printf (.text 5), .full, .clear,
        .produce 3, .empty] := by
  refine (window_refined_iff (.range threeBytes {}) _).mpr ?_
  decide

/-- No byte can be produced and `full` denies it; a length of -1 takes a byte back. -/
theorem window_left :
    ¬ Along BufCall.step (fun b call => call.Refines b) (NgxBuf.ofStr threeBytes.str) [.full] ∧
      ¬ Along BufCall.step (fun b call => call.Refines b) (NgxBuf.ofStr threeBytes.str)
        [.produce (-1)] := by
  have frames : Frames (.ofStr threeBytes) (NgxBuf.ofStr threeBytes.str) := .range threeBytes {}
  constructor
  · rintro ⟨refines, -⟩
    exact absurd ((BufCall.refines_iff frames .full).mp refines) (by decide)
  · rintro ⟨refines, -⟩
    exact absurd ((BufCall.refines_iff frames (.produce (-1))).mp refines) (by decide)

end NgxCpp
