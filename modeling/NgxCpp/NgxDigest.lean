import NgxCpp.Foundation.Hex
import NgxCpp.Exception
import NgxCpp.NgxRam
import NgxCpp.Foundation.Runs
import Mathlib.Logic.Function.Basic

/-! `NgxDigest`: a context of nginx's, and behind it in the object the bytes of the digest and
their text. The strings that it returns point into the object. -/

namespace NgxCpp
open Foundation

/-- `NgxMd5Meta` and its like: the functions of one digest over its contexts. -/
structure DigestMeta (C : Type) where
  len : Nat
  init : C
  update : C → List UInt8 → C
  final : C → List UInt8 × C

/-- What a digest of nginx does: a context takes its data in pieces, and ends with as many
bytes as the digest has. -/
structure DigestMeta.Streams {C : Type} (d : DigestMeta C) : Prop where
  update_nil : ∀ c, d.update c [] = c
  update_append : ∀ c data more, d.update (d.update c data) more = d.update c (data ++ more)
  length_final : ∀ c, (d.final c).1.length = d.len

def DigestMeta.digest {C : Type} (d : DigestMeta C) (data : List UInt8) : List UInt8 :=
  (d.final (d.update d.init data)).1

/-- The bytes of a process, and the contexts of its digest objects, each of the type of its
digest. An object is known by the address of its `m_buf`; `m_hex` comes behind it. -/
structure DigestWorld (C : Nat → Type) where
  ram : Ram
  ctx : (o : Nat) → C o

namespace DigestWorld

variable {C : Nat → Type} (w : DigestWorld C) (o : Nat) (c : C o)

def setCtx : DigestWorld C := { w with ctx := Function.update w.ctx o c }

@[simp] theorem setCtx_self : (w.setCtx o c).ctx o = c := Function.update_self ..

end DigestWorld

def ngxHexDump {C : Nat → Type} (dst src len : Nat) : Ngx (DigestWorld C) Unit :=
  Exec.modify fun w => { w with ram := w.ram.write dst (Hex.dump (w.ram.span src (src + len))) }

namespace NgxDigest

variable {C : Nat → Type} (o : Nat) (d : DigestMeta (C o))

def setCtx (c : C o) : Ngx (DigestWorld C) Unit :=
  Exec.modify fun w => w.setCtx o c

def init : Ngx (DigestWorld C) Unit := setCtx o d.init

def update (data : NgxStr) : Ngx (DigestWorld C) Unit := do
  let bytes ← Exec.gets fun w => NgxString.bytes w.ram data
  let c ← Exec.gets fun w => w.ctx o
  setCtx o (d.update c bytes)

def final : Ngx (DigestWorld C) Nat := do
  let c ← Exec.gets fun w => w.ctx o
  Exec.modify fun w => { w with ram := w.ram.write o (d.final c).1 }
  setCtx o (d.final c).2
  pure o

/-- The string that `str` returns, for a digest of `len` bytes. -/
def hex (len : Nat) : NgxStr := ⟨len * 2, o + len⟩

def str : Ngx (DigestWorld C) NgxStr := do
  ngxHexDump (o + d.len) o d.len
  pure (hex o d.len)

/-- `operator()`. -/
def call (data : NgxStr) : Ngx (DigestWorld C) NgxStr := do
  init o d
  update o d data
  let _ ← final o d
  str o d

end NgxDigest

/-- A call on an object; `data` is what the string that is passed holds then. -/
inductive DigestAct where
  | init (o : Nat)
  | update (o : Nat) (s : NgxStr) (data : List UInt8)
  | final (o : Nat)
  | str (o : Nat)
  | call (o : Nat) (s : NgxStr) (data : List UInt8)
deriving Repr, DecidableEq

namespace DigestAct

variable {C : Nat → Type} (d : (o : Nat) → DigestMeta (C o))

def object : DigestAct → Nat
  | init o | update o _ _ | final o | str o | call o _ _ => o

def run : DigestAct → Ngx (DigestWorld C) Unit
  | init o => NgxDigest.init o (d o)
  | update o s _ => NgxDigest.update o (d o) s
  | final o => do let _ ← NgxDigest.final o (d o)
  | str o => do let _ ← NgxDigest.str o (d o)
  | call o s _ => do let _ ← NgxDigest.call o (d o) s

def Passes (w : DigestWorld C) : DigestAct → Prop
  | update _ s data | call _ s data => NgxString.bytes w.ram s = data
  | _ => True

def Step (w : DigestWorld C) (act : DigestAct) (w' : DigestWorld C) : Prop :=
  act.Passes w ∧ act.run d w = .ok () w'

end DigestAct

/-- What an object stands for: the data its context has taken, the data its bytes are the
digest of and the data its text is. A context that has ended stands for none. -/
structure DigestState where
  fed : Option (List UInt8) := none
  done : Option (List UInt8) := none
  shown : Option (List UInt8) := none
deriving Repr, DecidableEq

def DigestAct.next (s : DigestState) : DigestAct → DigestState
  | .init _ => { s with fed := some [] }
  | .update _ _ data => { s with fed := s.fed.map (· ++ data) }
  | .final _ => { s with fed := none, done := s.fed }
  | .str _ => { s with shown := s.done }
  | .call _ _ data => { fed := none, done := some data, shown := some data }

def DigestAct.spec (states : Nat → DigestState) (act : DigestAct) : Nat → DigestState :=
  Function.update states act.object (act.next (states act.object))

namespace NgxDigest

variable {C : Nat → Type} {w w' w'' : DigestWorld C} {o o' len : Nat} {d : DigestMeta (C o)}
  {d' : DigestMeta (C o')} {st : DigestState} {data : List UInt8} {s : NgxStr}

structure Stands (o : Nat) (d : DigestMeta (C o)) (w : DigestWorld C) (st : DigestState) :
    Prop where
  fed : ∀ data ∈ st.fed, w.ctx o = d.update d.init data
  done : ∀ data ∈ st.done, w.ram.span o (o + d.len) = d.digest data
  shown : ∀ data ∈ st.shown, NgxString.bytes w.ram (hex o d.len) = Hex.dump (d.digest data)

structure Within (o len : Nat) (w w' : DigestWorld C) : Prop where
  ram : ∀ first past, past ≤ o ∨ o + 3 * len ≤ first → w'.ram.span first past =
    w.ram.span first past
  ctx : ∀ o', o' ≠ o → w'.ctx o' = w.ctx o'

theorem Within.trans (first : Within o len w w') (second : Within o len w' w'') :
    Within o len w w'' where
  ram a b outside := (second.ram a b outside).trans (first.ram a b outside)
  ctx o' other := (second.ctx o' other).trans (first.ctx o' other)

theorem Within.setCtx (o : Nat) (c : C o) (w : DigestWorld C) :
    Within o len w (w.setCtx o c) :=
  ⟨fun _ _ _ => rfl, fun _ other => Function.update_of_ne other ..⟩

theorem Within.write {place : Nat} {bytes : List UInt8} (after : o ≤ place)
    (before : place + bytes.length ≤ o + 3 * len) :
    Within o len w { w with ram := w.ram.write place bytes } where
  ram first past outside := Ram.span_write (by omega)
  ctx _ _ := rfl

theorem Stands.frame (stands : Stands o' d' w st) (within : Within o len w w')
    (apart : o' + 3 * d'.len ≤ o ∨ o + 3 * len ≤ o') (other : o' ≠ o) : Stands o' d' w' st where
  fed data fed := (within.ctx o' other).trans (stands.fed data fed)
  done data done := by
    rw [within.ram _ _ (by omega)]
    exact stands.done data done
  shown data shown := by
    rw [NgxString.bytes, within.ram _ _ (by simp only [hex]; omega)]
    exact stands.shown data shown

theorem init_stands (stands : Stands o d w st) : ∃ w', init o d w = .ok () w' ∧
    Within o d.len w w' ∧ w'.ram = w.ram ∧
      (d.Streams → Stands o d w' { st with fed := some [] }) := by
  refine ⟨w.setCtx o d.init, rfl, .setCtx o _ w, rfl, fun streams => ⟨?_, stands.done,
    stands.shown⟩⟩
  rintro data ⟨⟩
  rw [DigestWorld.setCtx_self, streams.update_nil]

theorem update_stands (streams : d.Streams) (stands : Stands o d w st)
    (passes : NgxString.bytes w.ram s = data) : ∃ w', update o d s w = .ok () w' ∧
      Within o d.len w w' ∧ Stands o d w' { st with fed := st.fed.map (· ++ data) } := by
  refine ⟨w.setCtx o (d.update (w.ctx o) data), ?_, .setCtx o _ w, ?_, stands.done, stands.shown⟩
  · rw [← passes]
    rfl
  · intro all fed
    obtain ⟨before, held, rfl⟩ := Option.map_eq_some_iff.mp fed
    rw [DigestWorld.setCtx_self, stands.fed before held, streams.update_append]

theorem final_stands (streams : d.Streams) (stands : Stands o d w st) :
    ∃ w', final o d w = .ok o w' ∧ Within o d.len w w' ∧
      Stands o d w' { st with fed := none, done := st.fed } := by
  have length := streams.length_final (w.ctx o)
  have within : Within o d.len w { w with ram := w.ram.write o (d.final (w.ctx o)).1 } :=
    .write (Nat.le_refl o) (by omega)
  refine ⟨_, rfl, within.trans (.setCtx o _ _), by rintro data ⟨⟩, fun data fed => ?_,
    fun data shown => ?_⟩
  · rw [DigestMeta.digest, ← stands.fed data fed, ← length]
    exact Ram.span_write_self ..
  · rw [← stands.shown data shown]
    exact Ram.span_write (.inr (by simp only [hex, length]; omega))

theorem str_stands (stands : Stands o d w st) : ∃ w', str o d w = .ok (hex o d.len) w' ∧
    Within o d.len w w' ∧ Stands o d w' { st with shown := st.done } := by
  have length : (Hex.dump (w.ram.span o (o + d.len))).length = d.len * 2 := by
    rw [Hex.length_dump, Ram.length_span, Nat.add_sub_cancel_left, Nat.mul_comm]
  refine ⟨_, rfl, .write (Nat.le_add_right ..) (by omega), stands.fed, fun data done => ?_,
    fun data done => ?_⟩
  · rw [← stands.done data done]
    exact Ram.span_write (.inl (Nat.le_refl _))
  · rw [← stands.done data done, NgxString.bytes, hex, ← length]
    exact Ram.span_write_self ..

theorem call_stands (streams : d.Streams) (stands : Stands o d w st)
    (passes : NgxString.bytes w.ram s = data) : ∃ w', call o d s w = .ok (hex o d.len) w' ∧
      Within o d.len w w' ∧ Stands o d w' ⟨none, some data, some data⟩ := by
  obtain ⟨w1, begun, within1, ram, stands1⟩ := init_stands stands
  obtain ⟨w2, fed, within2, stands2⟩ := update_stands streams (stands1 streams) (ram ▸ passes)
  obtain ⟨w3, ended, within3, stands3⟩ := final_stands streams stands2
  obtain ⟨w4, shown, within4, stands4⟩ := str_stands stands3
  refine ⟨w4, ?_, ((within1.trans within2).trans within3).trans within4, stands4⟩
  rw [call, Exec.bind_ok _ begun, Exec.bind_ok _ fed, Exec.bind_ok _ ended, shown]

end NgxDigest

namespace DigestAct

variable {C : Nat → Type} {d : (o : Nat) → DigestMeta (C o)} {w w' : DigestWorld C}
  {states : Nat → DigestState} {act : DigestAct}

def Apart (d : (o : Nat) → DigestMeta (C o)) (objects : List Nat) : Prop :=
  ∀ o ∈ objects, ∀ o' ∈ objects, o' ≠ o → o' + 3 * (d o').len ≤ o ∨ o + 3 * (d o).len ≤ o'

instance (objects : List Nat) : Decidable (Apart d objects) :=
  inferInstanceAs (Decidable (∀ o ∈ objects, ∀ o' ∈ objects, _))

theorem step_stands (streams : ∀ o, (d o).Streams) {st : DigestState}
    (stands : NgxDigest.Stands act.object (d act.object) w st) (step : act.Step d w w') :
    NgxDigest.Within act.object (d act.object).len w w' ∧
      NgxDigest.Stands act.object (d act.object) w' (act.next st) := by
  obtain ⟨passes, ran⟩ := step
  cases act with
  | init o =>
    obtain ⟨w1, done, within, -, next⟩ := NgxDigest.init_stands (o := o) stands
    obtain ⟨-, rfl⟩ := Outcome.ok.inj (done.symm.trans ran)
    exact ⟨within, next (streams o)⟩
  | update o s data =>
    obtain ⟨w1, done, within, next⟩ := NgxDigest.update_stands (o := o) (streams o) stands passes
    obtain ⟨-, rfl⟩ := Outcome.ok.inj (done.symm.trans ran)
    exact ⟨within, next⟩
  | final o =>
    obtain ⟨w1, done, within, next⟩ := NgxDigest.final_stands (o := o) (streams o) stands
    rw [run, Exec.bind_ok _ done] at ran
    obtain ⟨-, rfl⟩ := Outcome.ok.inj ran
    exact ⟨within, next⟩
  | str o =>
    obtain ⟨w1, done, within, next⟩ := NgxDigest.str_stands (d := d o) stands
    rw [run, Exec.bind_ok _ done] at ran
    obtain ⟨-, rfl⟩ := Outcome.ok.inj ran
    exact ⟨within, next⟩
  | call o s data =>
    obtain ⟨w1, done, within, next⟩ := NgxDigest.call_stands (o := o) (streams o) stands passes
    rw [run, Exec.bind_ok _ done] at ran
    obtain ⟨-, rfl⟩ := Outcome.ok.inj ran
    exact ⟨within, next⟩

end DigestAct

/-- Whatever is called on any number of digest objects in any order, with data in any pieces
and in any place, a string of an object before: the strings that an object has returned read
as the digest of the data of its last text, in lower case hexadecimal. -/
theorem digest_strings_read {C : Nat → Type} {d : (o : Nat) → DigestMeta (C o)}
    (streams : ∀ o, (d o).Streams) {objects : List Nat} (apart : DigestAct.Apart d objects)
    {w w' : DigestWorld C} {acts : List DigestAct} (run : Run (DigestAct.Step d) w acts w')
    (known : ∀ act ∈ acts, act.object ∈ objects) {o : Nat} (member : o ∈ objects)
    {data : List UInt8} (shown : ((acts.foldl DigestAct.spec fun _ => {}) o).shown = some data) :
    NgxString.bytes w'.ram (NgxDigest.hex o (d o).len) = Hex.dump ((d o).digest data) ∧
      Hex.read (NgxString.bytes w'.ram (NgxDigest.hex o (d o).len)) = some ((d o).digest data) := by
  let start : Nat → DigestState := fun _ => {}
  have all : ∀ o ∈ objects,
      NgxDigest.Stands o (d o) w' ((acts.foldl DigestAct.spec start) o) := by
    refine run.simulates (R := fun w (states : Nat → DigestState) => ∀ o ∈ objects,
      NgxDigest.Stands o (d o) w (states o)) ?_ known ?_
    · intro w act w' states stands member step o inside
      obtain ⟨within, next⟩ := DigestAct.step_stands streams (stands act.object member) step
      rw [DigestAct.spec]
      by_cases same : o = act.object
      · subst same
        rw [Function.update_self]
        exact next
      · rw [Function.update_of_ne same]
        exact (stands o inside).frame within (apart _ member o inside same) same
    · intro o inside
      exact ⟨by rintro data ⟨⟩, by rintro data ⟨⟩, by rintro data ⟨⟩⟩
  have text := (all o member).shown data shown
  exact ⟨text, by rw [text, Hex.read_dump]⟩

/-- A digest of `len` bytes as far as the bytes of "abc" and their pieces go. -/
def digestOfAbc (bytes : List UInt8) : DigestMeta (List UInt8) where
  len := bytes.length
  init := []
  update c data := c ++ data
  final c := (if c = [97, 98, 99] then bytes else List.replicate bytes.length 0, c)

theorem digestOfAbc_streams (bytes : List UInt8) : (digestOfAbc bytes).Streams where
  update_nil := List.append_nil
  update_append := List.append_assoc
  length_final c := by
    simp only [digestOfAbc]
    split <;> simp

def md5AndSha1 (o : Nat) : DigestMeta (List UInt8) :=
  digestOfAbc (if o = 100
    then [144, 1, 80, 152, 60, 210, 79, 176, 214, 150, 63, 125, 40, 225, 127, 114]
    else [169, 153, 62, 54, 71, 6, 129, 106, 186, 62, 37, 113, 120, 80, 194, 108, 156, 208,
      216, 157])

/-- The bytes "abc", for the one in two pieces and for the other at once in between. -/
theorem digest_strings_read_abc : ∃ w : DigestWorld fun _ => List UInt8,
    NgxString.bytes w.ram ⟨32, 116⟩ = Hex.dump ((md5AndSha1 100).digest [97, 98, 99]) ∧
      Hex.read (NgxString.bytes w.ram ⟨40, 220⟩) = some ((md5AndSha1 200).digest [97, 98, 99]) := by
  have run : Run (DigestAct.Step md5AndSha1) ⟨fun a => UInt8.ofNat (97 + a), fun _ => []⟩
      [.init 100, .update 100 ⟨2, 0⟩ [97, 98], .call 200 ⟨3, 0⟩ [97, 98, 99],
        .update 100 ⟨1, 2⟩ [99], .final 100, .str 100] _ :=
    .cons ⟨trivial, rfl⟩ <| .cons ⟨rfl, rfl⟩ <| .cons ⟨rfl, rfl⟩ <| .cons ⟨rfl, rfl⟩ <|
      .cons ⟨trivial, rfl⟩ <| .cons ⟨trivial, rfl⟩ <| .nil _
  have apart : DigestAct.Apart md5AndSha1 [100, 200] := by decide
  have first := digest_strings_read (fun _ => digestOfAbc_streams _) apart run (by decide)
    (o := 100) (by decide) rfl
  have second := digest_strings_read (fun _ => digestOfAbc_streams _) apart run (by decide)
    (o := 200) (by decide) rfl
  exact ⟨_, first.1, second.2⟩

end NgxCpp
