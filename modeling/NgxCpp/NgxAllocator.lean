import NgxCpp.NgxPalloc

/-! The allocator of `NgxStdVector` over a pool of nginx. -/

namespace NgxCpp
open Foundation

def ngxPnalloc (size : Nat) : Ngx PoolWorld (Option Nat) := fun w =>
  let (p, w') := w.request 1 size
  .ok p w'

def ngxPfree (p : Nat) : Ngx PoolWorld Int := fun w =>
  match w.pfree p with
  | some w' => .ok ngxOk w'
  | none => .ok ngxDeclined w

structure ElementType where
  size : Nat
  align : Nat
deriving Repr, DecidableEq

inductive PoolCall where
  | palloc (size : Nat)
  | pnalloc (size : Nat)
  | pfree (p : Nat)
deriving Repr, DecidableEq

def PoolCall.bytes? : PoolCall → Option Nat
  | palloc size => some size
  | pnalloc size => some size
  | pfree _ => none

structure PoolRequest where
  call : PoolCall
  offer : PoolOffer := {}
deriving Repr, DecidableEq

namespace PoolWorld

def serve (w : PoolWorld) (q : PoolRequest) : PoolWorld :=
  let asked := { w with offer := q.offer }
  match q.call with
  | .palloc size => (asked.request ngxAlignment size).2
  | .pnalloc size => (asked.request 1 size).2
  | .pfree p => (asked.pfree p).getD asked

def Allowed (w : PoolWorld) (q : PoolRequest) : Prop :=
  ∀ size ∈ q.call.bytes?, Backed { w with offer := q.offer } size

instance (w : PoolWorld) (q : PoolRequest) : Decidable (w.Allowed q) :=
  inferInstanceAs (Decidable (∀ size ∈ q.call.bytes?, _))

/-- The block tried first that has `size` bytes left. -/
def roomy (w : PoolWorld) (size : Nat) : Option PoolBlock :=
  w.blocks.find? fun b => size ≤ b.free.size

/-- There is a node for large memory: a spare one among the first five, or room for one. -/
def Notes (w : PoolWorld) : Prop :=
  (∃ l ∈ w.large.take 5, l.alloc = none) ∨
  (∃ b ∈ w.blocks, alignPtr b.free.first ngxAlignment + sizeofPoolLarge ≤ b.free.past) ∨
  w.offer.block.isSome

instance (w : PoolWorld) : Decidable w.Notes :=
  inferInstanceAs (Decidable (_ ∨ _))

end PoolWorld

namespace NgxAlloctor

/-- `allocate`: a `size_type` has 64 bits, and the pool's answer is returned as it is. -/
def allocate (t : ElementType) (n : Nat) : Ngx PoolWorld (Option Nat) :=
  ngxPnalloc (n * t.size % 2 ^ 64)

def deallocate (p : Nat) : Ngx PoolWorld Unit := do
  let _ ← ngxPfree p

def Contract (t : ElementType) (n : Nat) (w : PoolWorld) : Prop :=
  match allocate t n w with
  | .ok (some p) w' => t.align ∣ p ∧ ∃ given, w'.live = given :: w.live ∧
      given.region.first = p ∧ n * t.size ≤ given.region.size ∧
      ∀ h ∈ w.live, Region.Apart given.region h.region
  | .ok none _ => n = 0
  | .raised _ _ => True
  | _ => False

/-- The product fits in 64 bits, and the memory there is for it is at an aligned address. -/
def Suits (t : ElementType) (n : Nat) (w : PoolWorld) : Prop :=
  n * t.size < 2 ^ 64 ∧
    if n * t.size ≤ w.max then
      match w.roomy (n * t.size) with
      | some b => t.align ∣ b.free.first
      | none => ∃ base, w.offer.block = some base ∧ t.align ∣ base + sizeofPoolData
    else w.Notes ∧ ∃ p, w.offer.large = some p ∧ t.align ∣ p

end NgxAlloctor

section Pool

variable {w : PoolWorld} {size n : Nat} {t : ElementType}

namespace PoolWorld

theorem Sound.serve (sound : w.Sound) (q : PoolRequest) (allowed : w.Allowed q) :
    (w.serve q).Sound := by
  have asked := sound.offered q.offer
  obtain ⟨call, offer⟩ := q
  cases call with
  | palloc size => exact (asked.request (Nat.dvd_refl _) (allowed size rfl)).sound
  | pnalloc size => exact (asked.request (Nat.one_dvd _) (allowed size rfl)).sound
  | pfree p =>
    rw [PoolWorld.serve]
    cases freed : PoolWorld.pfree { w with offer } p with
    | none => simpa [freed] using asked
    | some w' => simpa [freed] using asked.pfree freed

/-- However a pool is used, its memory does not overlap. -/
theorem Sound.run (sound : w.Sound) {requests : List PoolRequest}
    (allowed : Along PoolWorld.serve Allowed w requests) :
    (requests.foldl PoolWorld.serve w).Sound := by
  induction requests generalizing w with
  | nil => exact sound
  | cons q qs ih => exact ih (sound.serve q allowed.1) allowed.2

def next (w : PoolWorld) (size : Nat) : Option Nat :=
  if size ≤ w.max then
    match w.roomy size with
    | some b => some b.free.first
    | none => w.offer.block.map (· + sizeofPoolData)
  else if w.Notes then w.offer.large else none

theorem pallocBlock_fst (backed : w.Backed size) (asked : Nat) :
    (w.pallocBlock asked).1 = w.offer.block.map (· + sizeofPoolData) := by
  rw [pallocBlock]
  cases offered : w.offer.block with
  | none => rfl
  | some base =>
    have aligned : ngxAlignment ∣ base := Nat.dvd_trans ⟨2, rfl⟩ (backed.1 base offered).1
    exact congrArg some (alignPtr_of_dvd (by decide) (Nat.dvd_add aligned ⟨4, rfl⟩))

theorem Sound.pallocSmall_one (sound : w.Sound) (backed : w.Backed size) :
    (w.pallocSmall 1 size).1 = match w.roomy size with
      | some b => some b.free.first
      | none => w.offer.block.map (· + sizeofPoolData) := by
  have first := takeFirst_fst sound.blocks_end (Nat.one_dvd _) size
  have bytes : ∀ b : PoolBlock, b.free.first + size ≤ b.free.past ↔ size ≤ b.free.size :=
    fun b => by rw [Region.past]; omega
  simp only [alignPtr_one, bytes] at first
  rw [pallocSmall, roomy]
  cases taken : takeFirst 1 size w.blocks with
  | some found =>
    rw [taken] at first
    obtain ⟨b, roomy, same⟩ := Option.map_eq_some_iff.mp first.symm
    rw [roomy]
    exact congrArg some same.symm
  | none =>
    rw [taken] at first
    rw [Option.map_eq_none_iff.mp first.symm]
    exact pallocBlock_fst backed size

theorem Sound.notes_iff (sound : w.Sound) (backed : w.Backed size) (p : Nat) :
    w.noteLarge p ≠ none ↔ w.Notes := by
  rw [PoolWorld.noteLarge, Notes]
  cases reused : setAlloc PoolLarge.spare (some p) (w.large.take 5) with
  | some tried =>
    obtain ⟨before, l, after, split, spare, -⟩ := setAlloc_eq_some reused
    exact iff_of_true (Option.some_ne_none _)
      (.inl ⟨l, by simp [split], Option.isNone_iff_eq_none.mp spare⟩)
  | none =>
    have none_spare : ¬ ∃ l ∈ w.large.take 5, l.alloc = none := by
      rintro ⟨l, member, spare⟩
      have looked := setAlloc_eq_none.mp reused l member
      simp [PoolLarge.spare, spare] at looked
    rw [or_iff_right none_spare]
    have first := takeFirst_fst sound.blocks_end (Nat.dvd_refl ngxAlignment) sizeofPoolLarge
    have block := pallocBlock_fst backed sizeofPoolLarge
    rw [pallocSmall]
    cases taken : takeFirst ngxAlignment sizeofPoolLarge w.blocks with
    | some found =>
      rw [taken] at first
      obtain ⟨b, roomy, -⟩ := Option.map_eq_some_iff.mp first.symm
      have room := List.find?_some roomy
      exact iff_of_true (Option.some_ne_none _)
        (.inl ⟨b, List.mem_of_find?_eq_some roomy, by simpa using room⟩)
    | none =>
      rw [taken] at first
      have full := List.find?_eq_none.mp (Option.map_eq_none_iff.mp first.symm)
      have none_roomy : ¬ ∃ b ∈ w.blocks,
          alignPtr b.free.first ngxAlignment + sizeofPoolLarge ≤ b.free.past := by
        rintro ⟨b, member, room⟩
        exact full b member (decide_eq_true room)
      rw [or_iff_right none_roomy]
      cases answer : w.pallocBlock sizeofPoolLarge with
      | mk node w' =>
        rw [answer] at block
        dsimp only at block
        subst block
        cases w.offer.block <;> simp

theorem Sound.request_one (sound : w.Sound) (backed : w.Backed size) :
    (w.request 1 size).1 = w.next size := by
  rw [PoolWorld.request, next]
  split
  case isTrue =>
    rw [← sound.pallocSmall_one backed]
    cases w.pallocSmall 1 size with
    | mk p w' => cases p <;> rfl
  case isFalse =>
    rw [pallocLarge]
    cases offered : w.offer.large with
    | none => simp [handOut]
    | some p =>
      let asked : PoolWorld := { w with offer := { w.offer with large := none } }
      have backed' : asked.Backed size := ⟨backed.1, fun _ none => absurd none (by simp [asked])⟩
      have noted : asked.noteLarge p ≠ none ↔ w.Notes :=
        (sound.offered { w.offer with large := none }).notes_iff backed' p
      dsimp only
      cases done : asked.noteLarge p with
      | none =>
        rw [if_neg fun notes => noted.mpr notes done]
        rfl
      | some w' =>
        rw [if_pos (noted.mp (by simp [done]))]
        rfl

theorem Sound.next_zero (sound : w.Sound) : w.next 0 ≠ none := by
  obtain ⟨b, bs, whole⟩ := List.exists_cons_of_ne_nil sound.current
  simp [next, roomy, whole]

end PoolWorld

namespace NgxAlloctor

theorem allocate_serve (t : ElementType) (n : Nat) (w : PoolWorld) (offer : PoolOffer) :
    (allocate t n { w with offer }).state? =
      some (w.serve ⟨.pnalloc (n * t.size % 2 ^ 64), offer⟩) :=
  rfl

theorem deallocate_serve (p : Nat) (w : PoolWorld) (offer : PoolOffer) :
    deallocate p { w with offer } = .ok () (w.serve ⟨.pfree p, offer⟩) := by
  have run : deallocate p { w with offer } =
      .ok () ((PoolWorld.pfree { w with offer } p).getD { w with offer }) := by
    rw [deallocate, Exec.bind_apply, ngxPfree]
    cases PoolWorld.pfree { w with offer } p <;> rfl
  exact run

theorem suits_iff : Suits t n w ↔
    n * t.size < 2 ^ 64 ∧ ∃ p, w.next (n * t.size) = some p ∧ t.align ∣ p := by
  rw [Suits, PoolWorld.next]
  split
  case isTrue => cases w.roomy (n * t.size) <;> simp
  case isFalse => split <;> simp [*]

theorem contract_iff_suits (sound : w.Sound) (backed : w.Backed (n * t.size % 2 ^ 64)) :
    Contract t n w ↔ Suits t n w := by
  have run : allocate t n w = .ok (w.request 1 (n * t.size % 2 ^ 64)).1
      (w.request 1 (n * t.size % 2 ^ 64)).2 := rfl
  have grown := sound.request (Nat.one_dvd _) backed
  rw [Contract, run, suits_iff]
  cases answered : (w.request 1 (n * t.size % 2 ^ 64)).1 with
  | none =>
    rw [sound.request_one backed] at answered
    refine iff_of_false ?_ ?_
    · rintro rfl
      rw [Nat.zero_mul] at answered
      exact sound.next_zero answered
    · rintro ⟨fits, p, found, -⟩
      rw [Nat.mod_eq_of_lt fits, found] at answered
      cases answered
  | some p =>
    have live := grown.live
    rw [answered] at live
    rw [sound.request_one backed] at answered
    constructor
    · rintro ⟨aligned, given, same, -, enough, -⟩
      obtain rfl := (List.cons.inj (live.symm.trans same)).1
      have fits : n * t.size < 2 ^ 64 :=
        Nat.lt_of_le_of_lt enough (Nat.mod_lt _ (by decide))
      rw [Nat.mod_eq_of_lt fits] at answered
      exact ⟨fits, p, answered, aligned⟩
    · rintro ⟨fits, q, found, aligned⟩
      rw [Nat.mod_eq_of_lt fits] at answered
      obtain rfl := Option.some.inj (found.symm.trans answered)
      have enough := Nat.le_of_eq (Nat.mod_eq_of_lt fits).symm
      exact ⟨aligned, _, live, rfl, enough, grown.sound.live_apart live⟩

/-- After any use of a pool, the allocator keeps the contract when the product does not
wrap and the memory that is next happens to be aligned. -/
theorem allocate_contract_iff (sound : w.Sound) {requests : List PoolRequest}
    (allowed : Along PoolWorld.serve PoolWorld.Allowed w requests) (offer : PoolOffer)
    (backed : PoolWorld.Backed { requests.foldl PoolWorld.serve w with offer }
      (n * t.size % 2 ^ 64)) :
    Contract t n { requests.foldl PoolWorld.serve w with offer } ↔
      Suits t n { requests.foldl PoolWorld.serve w with offer } :=
  contract_iff_suits ((sound.run allowed).offered offer) backed

private def newPool : PoolWorld where
  headers := [⟨4016, 80⟩]
  blocks := [{ free := ⟨4096, 1024⟩ }]
  max := 1024
  psize := 1104

private theorem newPool_sound : newPool.Sound where
  current := by decide
  least := by decide
  room := by decide
  whole := by decide
  ends := by decide
  packed := ⟨by decide, by decide⟩
  noted := .nil

/-- Two large elements, after other large memory was given back and a byte was taken. -/
theorem allocate_two_pages : Contract ⟨1000, 8⟩ 2
    { [⟨.palloc 2000, { large := some 16384 }⟩, ⟨.pfree 16384, {}⟩, ⟨.pnalloc 1, {}⟩].foldl
      PoolWorld.serve newPool with offer := { large := some 16384 } } := by
  have allowed : Along PoolWorld.serve PoolWorld.Allowed newPool
      [⟨.palloc 2000, { large := some 16384 }⟩, ⟨.pfree 16384, {}⟩, ⟨.pnalloc 1, {}⟩] := by decide
  have suits := (allocate_contract_iff (t := ⟨1000, 8⟩) (n := 2) newPool_sound allowed
    { large := some 16384 } (by decide)).mpr
  exact suits ⟨by decide, .inl (by decide), 16384, rfl, ⟨2048, rfl⟩⟩

/-- After a byte of text the next element starts at an odd address. -/
theorem allocated_unaligned : ¬ Contract ⟨8, 8⟩ 1
    { [⟨.pnalloc 1, {}⟩].foldl PoolWorld.serve newPool with offer := {} } := by
  rintro ⟨aligned, -⟩
  exact absurd aligned (by decide)

end NgxAlloctor

end Pool

end NgxCpp
