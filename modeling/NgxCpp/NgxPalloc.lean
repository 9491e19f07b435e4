import NgxCpp.Exception
import NgxCpp.Foundation.Regions
import NgxCpp.Foundation.Runs
import Mathlib.Algebra.GroupWithZero.Nat

/-! nginx's memory pool. A small request takes the first bytes of the first block with room
for them, and a further block comes from the system when there is none. A large request comes
straight from the system; the node that notes it takes bytes of a block as small requests do. -/

namespace NgxCpp
open Foundation

/-- A block of a pool: the bytes not taken yet, and how often a request found too few. -/
structure PoolBlock where
  free : Region
  failed : Nat := 0
deriving Repr, DecidableEq

/-- `ngx_pool_large_t`, at `node`. -/
structure PoolLarge where
  node : Nat
  alloc : Option Nat
deriving Repr, DecidableEq

/-- Memory handed out; `large` when it came straight from the system. -/
structure PoolMemory where
  region : Region
  large : Bool
deriving Repr, DecidableEq

/-- Where the system has memory for a further block (`ngx_memalign`) and for a large request
(`ngx_alloc`). -/
structure PoolOffer where
  block : Option Nat := none
  large : Option Nat := none
deriving Repr, DecidableEq

/-- A pool, from its current block on and before it, with what it handed out; `psize` is the
size of a further block. -/
structure PoolWorld where
  headers : List Region := []
  spent : List PoolBlock := []
  blocks : List PoolBlock
  max : Nat
  psize : Nat
  large : List PoolLarge := []
  offer : PoolOffer := {}
  live : List PoolMemory := []
deriving Repr, DecidableEq

def ngxAlignment : Nat := 8

def ngxPoolAlignment : Nat := 16

/-- `sizeof(ngx_pool_data_t)`. -/
def sizeofPoolData : Nat := 32

/-- `sizeof(ngx_pool_large_t)`. -/
def sizeofPoolLarge : Nat := 16

def addresses : Region := ⟨1, 2 ^ 64 - 1⟩

def alignPtr (p align : Nat) : Nat := (p + (align - 1)) / align * align

/-- The first block with room gives up its first bytes. What is left of a block is a `size_t`. -/
def takeFirst (align size : Nat) : List PoolBlock → Option (Nat × List PoolBlock)
  | [] => none
  | b :: bs =>
    let m := alignPtr b.free.first align
    if size ≤ (b.free.past + 2 ^ 64 - m) % 2 ^ 64 then
      some (m, { b with free := ⟨m + size, b.free.past - (m + size)⟩ } :: bs)
    else (takeFirst align size bs).map fun (p, rest) => (p, b :: rest)

/-- Every block but the last has failed once more. One that fails too often is not tried
again, nor are those before it. -/
def countFailures : List PoolBlock → List PoolBlock × List PoolBlock
  | [] => ([], [])
  | [b] => ([], [b])
  | b :: c :: bs =>
    let (spent, tried) := countFailures (c :: bs)
    let failing := { b with failed := b.failed + 1 }
    if 4 < b.failed || !spent.isEmpty then (failing :: spent, tried) else ([], failing :: tried)

/-- The first node that is looked for notes another memory, or none. -/
def setAlloc (found : PoolLarge → Bool) (alloc : Option Nat) :
    List PoolLarge → Option (List PoolLarge)
  | [] => none
  | l :: ls =>
    if found l then some ({ l with alloc } :: ls) else (setAlloc found alloc ls).map (l :: ·)

namespace PoolLarge

def region (l : PoolLarge) : Region := ⟨l.node, sizeofPoolLarge⟩

def spare (l : PoolLarge) : Bool := l.alloc.isNone

end PoolLarge

namespace PoolWorld

def pallocBlock (w : PoolWorld) (size : Nat) : Option Nat × PoolWorld :=
  match w.offer.block with
  | none => (none, w)
  | some base =>
    let m := alignPtr (base + sizeofPoolData) ngxAlignment
    let (spent, tried) := countFailures w.blocks
    let made := { free := ⟨m + size, base + w.psize - (m + size)⟩ : PoolBlock }
    (some m, { w with
      headers := ⟨base, sizeofPoolData⟩ :: w.headers
      spent := w.spent ++ spent
      blocks := tried ++ [made]
      offer := { w.offer with block := none } })

def pallocSmall (w : PoolWorld) (align size : Nat) : Option Nat × PoolWorld :=
  match takeFirst align size w.blocks with
  | some (p, blocks) => (some p, { w with blocks })
  | none => w.pallocBlock size

/-- The node that notes large memory: a spare one of the first five, or a new one. -/
def noteLarge (w : PoolWorld) (p : Nat) : Option PoolWorld :=
  match setAlloc PoolLarge.spare (some p) (w.large.take 5) with
  | some tried => some { w with large := tried ++ w.large.drop 5 }
  | none =>
    match w.pallocSmall ngxAlignment sizeofPoolLarge with
    | (none, _) => none
    | (some node, w) => some { w with large := ⟨node, some p⟩ :: w.large }

/-- `ngx_palloc_large`. The memory goes back to the system when no node notes it. -/
def pallocLarge (w : PoolWorld) : Option Nat × PoolWorld :=
  match w.offer.large with
  | none => (none, w)
  | some p =>
    let w := { w with offer := { w.offer with large := none } }
    match w.noteLarge p with
    | some w => (some p, w)
    | none => (none, w)

def handOut (size : Nat) (large : Bool) : Option Nat × PoolWorld → Option Nat × PoolWorld
  | (some p, w) => (some p, { w with live := ⟨⟨p, size⟩, large⟩ :: w.live })
  | (none, w) => (none, w)

/-- `ngx_palloc`, and `ngx_pnalloc` with an alignment of 1. -/
def request (w : PoolWorld) (align size : Nat) : Option Nat × PoolWorld :=
  if size ≤ w.max then handOut size false (w.pallocSmall align size)
  else handOut size true w.pallocLarge

def pfree (w : PoolWorld) (p : Nat) : Option PoolWorld :=
  (setAlloc (fun l => l.alloc.getD 0 == p) none w.large).map fun large =>
    { w with large, live := w.live.eraseP fun h => h.region.first == p && h.large }

def regions (w : PoolWorld) : List Region :=
  w.live.map PoolMemory.region ++ w.large.map PoolLarge.region ++ w.headers ++
    (w.spent ++ w.blocks).map PoolBlock.free

/-- The pool's memory does not overlap. A further block has room for a small request, and
two nodes are small (`NGX_MIN_POOL_SIZE`). -/
structure Laid (w : PoolWorld) : Prop where
  current : w.blocks ≠ []
  least : 2 * sizeofPoolLarge ≤ w.max
  room : sizeofPoolData + w.max ≤ w.psize
  whole : ngxAlignment ∣ w.psize
  ends : ∀ b ∈ w.blocks, ngxAlignment ∣ b.free.past
  packed : Region.Packed addresses w.regions

structure Sound (w : PoolWorld) : Prop extends Laid w where
  noted : (w.large.filterMap PoolLarge.alloc).Perm
    ((w.live.filter PoolMemory.large).map fun h => h.region.first)

/-- The memory that the system has is nobody's, and that for a block is aligned. -/
def Backed (w : PoolWorld) (size : Nat) : Prop :=
  (∀ base ∈ w.offer.block, ngxPoolAlignment ∣ base ∧
    Region.Free addresses ⟨base, w.psize⟩ w.regions) ∧
  ∀ p ∈ w.offer.large, w.max < size → Region.Free addresses ⟨p, size⟩
    (w.offer.block.toList.map (fun base => ⟨base, w.psize⟩) ++ w.regions)

instance (w : PoolWorld) (size : Nat) : Decidable (w.Backed size) :=
  inferInstanceAs (Decidable (_ ∧ ∀ p ∈ w.offer.large, _))

end PoolWorld

section Pool

variable {w w' : PoolWorld} {align size p : Nat} {bs blocks : List PoolBlock}

theorem le_alignPtr (p : Nat) (positive : 0 < align) : p ≤ alignPtr p align := by
  have split := Nat.div_add_mod (p + (align - 1)) align
  have rest := Nat.mod_lt (p + (align - 1)) positive
  rw [alignPtr, Nat.mul_comm]
  omega

theorem alignPtr_le {past : Nat} (positive : 0 < align) (aligned : align ∣ past)
    (below : p ≤ past) : alignPtr p align ≤ past := by
  obtain ⟨k, rfl⟩ := aligned
  have steps : (p + (align - 1)) / align < k + 1 := by
    rw [Nat.div_lt_iff_lt_mul positive, Nat.add_mul, Nat.mul_comm k]
    omega
  rw [alignPtr, Nat.mul_comm align]
  exact Nat.mul_le_mul_right align (Nat.lt_succ_iff.mp steps)

@[simp] theorem alignPtr_one (p : Nat) : alignPtr p 1 = p := by
  simp [alignPtr]

theorem alignPtr_of_dvd (positive : 0 < align) (aligned : align ∣ p) : alignPtr p align = p :=
  Nat.le_antisymm (alignPtr_le positive aligned (Nat.le_refl p)) (le_alignPtr p positive)

/-- A block of a pool: what is left of it ends at an aligned address. -/
def PoolBlock.Ends (b : PoolBlock) : Prop :=
  ngxAlignment ∣ b.free.past ∧ Region.Within b.free addresses

/-- The comparison of `takeFirst` is that of the bytes left. -/
theorem PoolBlock.Ends.left_iff {b : PoolBlock} (ends : b.Ends) (divides : align ∣ ngxAlignment) :
    size ≤ (b.free.past + 2 ^ 64 - alignPtr b.free.first align) % 2 ^ 64 ↔
      alignPtr b.free.first align + size ≤ b.free.past := by
  have positive : 0 < align := Nat.pos_of_dvd_of_pos divides (by decide)
  have above := le_alignPtr b.free.first positive
  have below : alignPtr b.free.first align ≤ b.free.past :=
    alignPtr_le positive (Nat.dvd_trans divides ends.1) (Nat.le_add_right ..)
  obtain ⟨first, past⟩ := ends.2
  have space : addresses.first = 1 ∧ addresses.past = 2 ^ 64 := ⟨rfl, rfl⟩
  have left : (b.free.past + 2 ^ 64 - alignPtr b.free.first align) % 2 ^ 64 =
      b.free.past - alignPtr b.free.first align := by omega
  omega

theorem takeFirst_eq_some (ends : ∀ b ∈ bs, b.Ends) (divides : align ∣ ngxAlignment)
    (taken : takeFirst align size bs = some (p, blocks)) :
    ∃ before b after left, bs = before ++ b :: after ∧ blocks = before ++ left :: after ∧
      b.free.first ≤ p ∧ p + size ≤ b.free.past ∧
      left.free = ⟨p + size, b.free.past - (p + size)⟩ := by
  induction bs generalizing blocks with
  | nil => simp [takeFirst] at taken
  | cons b bs ih =>
    obtain ⟨first, later⟩ := List.forall_mem_cons.mp ends
    rw [takeFirst] at taken
    split at taken
    case isTrue fits =>
      cases taken
      have positive : 0 < align := Nat.pos_of_dvd_of_pos divides (by decide)
      exact ⟨[], b, bs, _, rfl, rfl, le_alignPtr _ positive, (first.left_iff divides).mp fits, rfl⟩
    case isFalse =>
      obtain ⟨⟨q, rest⟩, found, same⟩ := Option.map_eq_some_iff.mp taken
      cases same
      obtain ⟨before, c, after, left, rfl, rfl, facts⟩ := ih later found
      exact ⟨b :: before, c, after, left, rfl, rfl, facts⟩

theorem takeFirst_fst (ends : ∀ b ∈ bs, b.Ends) (divides : align ∣ ngxAlignment) (size : Nat) :
    (takeFirst align size bs).map Prod.fst =
      (bs.find? fun b => alignPtr b.free.first align + size ≤ b.free.past).map
        fun b => alignPtr b.free.first align := by
  induction bs with
  | nil => rfl
  | cons b bs ih =>
    obtain ⟨first, later⟩ := List.forall_mem_cons.mp ends
    have enough : size ≤ (b.free.past + 2 ^ 64 - alignPtr b.free.first align) % 2 ^ 64 ↔
        alignPtr b.free.first align + size ≤ b.free.past := first.left_iff divides
    rw [takeFirst, List.find?_cons]
    by_cases fits : alignPtr b.free.first align + size ≤ b.free.past
    · rw [if_pos (enough.mpr fits), decide_eq_true fits]
      rfl
    · rw [if_neg (mt enough.mp fits), decide_eq_false fits, ← ih later, Option.map_map]
      rfl

theorem countFailures_free (bs : List PoolBlock) :
    ((countFailures bs).1 ++ (countFailures bs).2).map PoolBlock.free = bs.map PoolBlock.free := by
  fun_induction countFailures bs with
  | case1 => rfl
  | case2 b => rfl
  | case3 b c bs spent tried counted failing failed ih =>
    rw [counted] at ih
    simpa [failing] using ih
  | case4 b c bs spent tried counted failing kept ih =>
    rw [counted] at ih
    obtain ⟨-, nothing⟩ : ¬ 4 < b.failed ∧ spent = [] := by simpa using kept
    subst nothing
    simpa [failing] using ih

theorem setAlloc_eq_some {found : PoolLarge → Bool} {alloc : Option Nat} {ls ls' : List PoolLarge}
    (set : setAlloc found alloc ls = some ls') : ∃ before l after, ls = before ++ l :: after ∧
      found l = true ∧ ls' = before ++ { l with alloc } :: after := by
  induction ls generalizing ls' with
  | nil => cases set
  | cons l ls ih =>
    rw [setAlloc] at set
    split at set
    case isTrue here =>
      cases set
      exact ⟨[], l, ls, rfl, here, rfl⟩
    case isFalse =>
      obtain ⟨rest, later, rfl⟩ := Option.map_eq_some_iff.mp set
      obtain ⟨before, m, after, rfl, here, rfl⟩ := ih later
      exact ⟨l :: before, m, after, rfl, here, rfl⟩

theorem setAlloc_eq_none {found : PoolLarge → Bool} {alloc : Option Nat} {ls : List PoolLarge} :
    setAlloc found alloc ls = none ↔ ∀ l ∈ ls, found l = false := by
  induction ls with
  | nil => simp [setAlloc]
  | cons l ls ih =>
    rw [setAlloc, List.forall_mem_cons]
    cases found l <;> simp [ih]

namespace PoolWorld

theorem Laid.blocks_end (laid : w.Laid) : ∀ b ∈ w.blocks, b.Ends := fun b member =>
  ⟨laid.ends b member, laid.packed.within _ (List.mem_append_right _
    (List.mem_map_of_mem (List.mem_append_right _ member)))⟩

/-- What a small request or a node takes from the pool: memory that was nobody's. -/
structure Carved (w : PoolWorld) (r : Region) (w' : PoolWorld) : Prop where
  current : w'.blocks ≠ []
  ends : ∀ b ∈ w'.blocks, ngxAlignment ∣ b.free.past
  packed : Region.Packed addresses (r :: w'.regions)
  same : w'.max = w.max ∧ w'.psize = w.psize ∧ w'.live = w.live ∧ w'.large = w.large

theorem regions_perm_of {before after : List PoolBlock} {b : PoolBlock}
    (split : w.blocks = before ++ b :: after) :
    w.regions.Perm (b.free :: (w.live.map PoolMemory.region ++ w.large.map PoolLarge.region ++
      w.headers ++ (w.spent ++ (before ++ after)).map PoolBlock.free)) := by
  rw [regions, split, ← List.append_assoc w.spent, List.map_append, List.map_cons,
    ← List.append_assoc]
  refine List.perm_middle.trans (.of_eq ?_)
  simp only [List.append_assoc, List.map_append]

theorem Laid.take (laid : w.Laid) (divides : align ∣ ngxAlignment)
    (taken : takeFirst align size w.blocks = some (p, blocks)) :
    w.Carved ⟨p, size⟩ { w with blocks } := by
  obtain ⟨before, b, after, left, whole, parts, above, fits, rest⟩ :=
    takeFirst_eq_some laid.blocks_end divides taken
  have cells := regions_perm_of whole
  have cells' := regions_perm_of (w := { w with blocks }) parts
  have past : left.free.past = b.free.past := by
    rw [rest]
    exact Nat.add_sub_of_le fits
  refine ⟨by simp [parts], ?_, .perm ?_ (cells'.symm.cons _), rfl, rfl, rfl, rfl⟩
  · have before_ends := laid.ends
    rw [whole] at before_ends
    rw [parts]
    simp only [List.forall_mem_append, List.forall_mem_cons] at before_ends ⊢
    exact ⟨before_ends.1, past ▸ before_ends.2.1, before_ends.2.2⟩
  · have within : Region.Within left.free b.free := by
      refine ⟨?_, Nat.le_of_eq past⟩
      rw [rest]
      dsimp only
      omega
    have behind : Region.Apart ⟨p, size⟩ left.free := .inl (by rw [rest]; exact Nat.le_refl _)
    exact (laid.packed.perm cells).divide ⟨above, fits⟩ within behind

theorem Laid.pallocBlock (laid : w.Laid) (backed : w.Backed size) (small : size ≤ w.max)
    {base : Nat} (offered : w.offer.block = some base) :
    (w.pallocBlock size).1 = some (base + sizeofPoolData) ∧
      w.Carved ⟨base + sizeofPoolData, size⟩ (w.pallocBlock size).2 := by
  obtain ⟨aligned, fresh⟩ := backed.1 base offered
  have header : alignPtr (base + sizeofPoolData) ngxAlignment = base + sizeofPoolData :=
    alignPtr_of_dvd (by decide) (Nat.dvd_add (Nat.dvd_trans ⟨2, rfl⟩ aligned) ⟨4, rfl⟩)
  have room := laid.room
  let rest : Region :=
    ⟨base + sizeofPoolData + size, base + w.psize - (base + sizeofPoolData + size)⟩
  have past : rest.past = base + w.psize := by
    simp only [Region.past, rest]
    omega
  have made : w.pallocBlock size = (some (base + sizeofPoolData), { w with
      headers := ⟨base, sizeofPoolData⟩ :: w.headers
      spent := w.spent ++ (countFailures w.blocks).1
      blocks := (countFailures w.blocks).2 ++ [PoolBlock.mk rest 0]
      offer := { w.offer with block := none } }) := by
    rw [PoolWorld.pallocBlock, offered]
    simp only [header, rest]
  have listed : ((w.spent ++ (countFailures w.blocks).1) ++ ((countFailures w.blocks).2 ++
      [PoolBlock.mk rest 0])).map PoolBlock.free =
      (w.spent ++ w.blocks).map PoolBlock.free ++ [rest] := by
    simp [← countFailures_free w.blocks]
  rw [made]
  refine ⟨rfl, by simp, ?_, ?_, rfl, rfl, rfl, rfl⟩
  · simp only [List.forall_mem_append, List.forall_mem_singleton]
    constructor
    · intro b member
      have kept : b.free ∈ w.blocks.map PoolBlock.free := by
        rw [← countFailures_free]
        exact List.mem_map_of_mem (List.mem_append_right _ member)
      obtain ⟨c, before, same⟩ := List.mem_map.mp kept
      rw [← same]
      exact laid.ends c before
    · rw [past]
      exact Nat.dvd_add (Nat.dvd_trans ⟨2, rfl⟩ aligned) laid.whole
  · have whole : Region.Packed addresses (⟨base, w.psize⟩ :: w.regions) :=
      Region.Packed.cons_iff.mpr ⟨fresh, laid.packed⟩
    have split : Region.Packed addresses (⟨base, sizeofPoolData⟩ ::
        ⟨base + sizeofPoolData, w.psize - sizeofPoolData⟩ :: w.regions) := by
      refine whole.divide ⟨Nat.le_refl _, ?_⟩ ⟨Nat.le_add_right .., ?_⟩ (.inl (Nat.le_refl _)) <;>
        simp only [Region.past] <;> omega
    have pieces := (split.perm (.swap ..)).divide (r := ⟨base + sizeofPoolData, size⟩)
      (s := rest) ⟨Nat.le_refl _, by simp only [Region.past]; omega⟩
      ⟨Nat.le_add_right .., by rw [past]; simp only [Region.past]; omega⟩ (.inl (Nat.le_refl _))
    refine pieces.perm (.cons _ ?_)
    have inserted : (⟨base, sizeofPoolData⟩ :: (w.live.map PoolMemory.region ++
        w.large.map PoolLarge.region ++
          (w.headers ++ (w.spent ++ w.blocks).map PoolBlock.free))).Perm
        (w.live.map PoolMemory.region ++ w.large.map PoolLarge.region ++
          (⟨base, sizeofPoolData⟩ :: (w.headers ++ (w.spent ++ w.blocks).map PoolBlock.free))) :=
      List.perm_middle.symm
    rw [regions, regions, listed, ← List.append_assoc]
    refine .trans (.cons _ ?_) (List.perm_append_singleton ..).symm
    simpa only [List.append_assoc, List.cons_append] using inserted

theorem Laid.pallocSmall (laid : w.Laid) (divides : align ∣ ngxAlignment)
    (backed : w.Backed size) (small : size ≤ w.max) :
    match w.pallocSmall align size with
    | (some p, w') => w.Carved ⟨p, size⟩ w'
    | (none, w') => w' = w := by
  rw [PoolWorld.pallocSmall]
  cases taken : takeFirst align size w.blocks with
  | some found => exact laid.take divides taken
  | none =>
    cases offered : w.offer.block with
    | none => simp only [PoolWorld.pallocBlock, offered]
    | some base =>
      obtain ⟨given, carved⟩ := laid.pallocBlock backed small offered
      cases answer : w.pallocBlock size with
      | mk p w' =>
        rw [answer] at given carved
        subst given
        exact carved

theorem pallocSmall_live (w : PoolWorld) (live : List PoolMemory) (align size : Nat) :
    pallocSmall { w with live } align size =
      ((w.pallocSmall align size).1, { (w.pallocSmall align size).2 with live }) := by
  rw [pallocSmall, pallocSmall]
  dsimp only
  cases takeFirst align size w.blocks with
  | some found => rfl
  | none =>
    simp only [pallocBlock]
    cases w.offer.block <;> rfl

theorem noteLarge_live (done : w.noteLarge p = some w') : w'.live = w.live := by
  have kept := pallocSmall_live w w.live ngxAlignment sizeofPoolLarge
  rw [noteLarge] at done
  split at done
  case h_1 =>
    cases done
    rfl
  case h_2 =>
    split at done
    case h_1 => cases done
    case h_2 node w₁ answer =>
      cases done
      rw [answer] at kept
      exact congrArg (fun made => made.2.live) kept

theorem Carved.laid {r : Region} (laid : w.Laid) (carved : w.Carved r w') : w'.Laid := by
  obtain ⟨max, psize, -, -⟩ := carved.same
  exact ⟨carved.current, max ▸ laid.least, max ▸ psize ▸ laid.room, psize ▸ laid.whole,
    carved.ends, (Region.Packed.cons_iff.mp carved.packed).2⟩

theorem regions_large (w : PoolWorld) (l : PoolLarge) :
    (regions { w with large := l :: w.large }).Perm (l.region :: w.regions) := by
  simp only [regions, List.map_cons, List.append_assoc, List.cons_append]
  exact List.perm_middle

theorem Laid.live (laid : w.Laid) {h : PoolMemory}
    (fresh : Region.Free addresses h.region w.regions) : Laid { w with live := h :: w.live } :=
  ⟨laid.current, laid.least, laid.room, laid.whole, laid.ends,
    Region.Packed.cons_iff.mpr ⟨fresh, laid.packed⟩⟩

theorem Laid.reuse {large : List PoolLarge} (laid : w.Laid)
    (same : large.map PoolLarge.region = w.large.map PoolLarge.region) : Laid { w with large } :=
  ⟨laid.current, laid.least, laid.room, laid.whole, laid.ends, by
    simpa only [regions, same] using laid.packed⟩

/-- What a request makes of a pool: it hands out what it returns, and that is all. -/
structure Grown (w : PoolWorld) (answer : Option Nat) (size : Nat) (w' : PoolWorld) : Prop where
  sound : w'.Sound
  max : w'.max = w.max
  live : w'.live = answer.toList.map (fun p => ⟨⟨p, size⟩, w.max < size⟩) ++ w.live

theorem Sound.request_small (sound : w.Sound) (divides : align ∣ ngxAlignment)
    (backed : w.Backed size) (small : size ≤ w.max) :
    w.Grown (w.request align size).1 size (w.request align size).2 := by
  have carved := sound.toLaid.pallocSmall divides backed small
  rw [request, if_pos small]
  cases answer : w.pallocSmall align size with
  | mk p w' =>
    rw [answer] at carved
    cases p with
    | none =>
      obtain rfl : w' = w := carved
      exact ⟨sound, rfl, rfl⟩
    | some p =>
      dsimp only at carved
      obtain ⟨max, psize, live, large⟩ := carved.same
      have laid := carved.laid sound.toLaid
      have fresh := (Region.Packed.cons_iff.mp carved.packed).1
      have unlarge : decide (w.max < size) = false := decide_eq_false (Nat.not_lt.mpr small)
      refine ⟨⟨laid.live (h := ⟨⟨p, size⟩, false⟩) fresh, ?_⟩, max, ?_⟩
      · simpa [live, large, handOut] using sound.noted
      · simp [handOut, live, unlarge]

theorem reuse_noted {ls tried : List PoolLarge} {p : Nat}
    (reused : setAlloc PoolLarge.spare (some p) ls = some tried) :
    tried.map PoolLarge.region = ls.map PoolLarge.region ∧
      (tried.filterMap PoolLarge.alloc).Perm (p :: ls.filterMap PoolLarge.alloc) := by
  obtain ⟨before, l, after, rfl, spare, rfl⟩ := setAlloc_eq_some reused
  have nothing : l.alloc = none := Option.isNone_iff_eq_none.mp spare
  refine ⟨by simp [PoolLarge.region], ?_⟩
  simp only [List.filterMap_append, List.filterMap_cons, nothing]
  exact List.perm_middle

theorem Sound.noteLarge (sound : w.Sound) (backed : w.Backed sizeofPoolLarge)
    (fresh : Region.Free addresses ⟨p, size⟩
      (w.offer.block.toList.map (fun base => ⟨base, w.psize⟩) ++ w.regions))
    (done : w.noteLarge p = some w') :
    Sound { w' with live := ⟨⟨p, size⟩, true⟩ :: w.live } ∧ w'.max = w.max := by
  have apart : ∀ s ∈ w.regions, Region.Apart ⟨p, size⟩ s := fun s member =>
    fresh.2 s (List.mem_append_right _ member)
  rw [PoolWorld.noteLarge] at done
  cases reused : setAlloc PoolLarge.spare (some p) (w.large.take 5) with
  | some tried =>
    rw [reused] at done
    cases done
    obtain ⟨places, noted⟩ := reuse_noted reused
    have same : (tried ++ w.large.drop 5).map PoolLarge.region = w.large.map PoolLarge.region := by
      rw [List.map_append, places, ← List.map_append, List.take_append_drop]
    refine ⟨⟨(sound.toLaid.reuse same).live ⟨fresh.1, ?_⟩, ?_⟩, rfl⟩
    · simpa only [regions, same] using apart
    · refine .trans ?_ (sound.noted.cons p)
      rw [List.filterMap_append]
      refine (noted.append_right _).trans (.of_eq ?_)
      rw [List.cons_append, ← List.filterMap_append, List.take_append_drop]
  | none =>
    rw [reused] at done
    -- the node is carved with the large memory already handed out
    let held : PoolWorld := { w with live := ⟨⟨p, size⟩, true⟩ :: w.live }
    have laid : held.Laid := sound.toLaid.live ⟨fresh.1, apart⟩
    have small : sizeofPoolLarge ≤ w.max :=
      Nat.le_trans (Nat.le_mul_of_pos_left _ (by decide)) sound.least
    have backed' : held.Backed sizeofPoolLarge := by
      refine ⟨fun base block => ⟨(backed.1 base block).1, (backed.1 base block).2.1, ?_⟩,
        fun p _ large => absurd large (Nat.not_lt.mpr small)⟩
      refine List.forall_mem_cons.mpr ⟨(fresh.2 _ ?_).symm, (backed.1 base block).2.2⟩
      exact List.mem_append_left _ (List.mem_map_of_mem (Option.mem_toList.mpr block))
    have carved := laid.pallocSmall (Nat.dvd_refl ngxAlignment) backed' small
    rw [pallocSmall_live w] at carved
    cases answer : w.pallocSmall ngxAlignment sizeofPoolLarge with
    | mk node w₁ =>
      rw [answer] at done carved
      cases node with
      | none => cases done
      | some node =>
        cases done
        dsimp only at carved
        obtain ⟨max, psize, -, large⟩ := carved.same
        dsimp only at max large
        have after := carved.laid laid
        refine ⟨⟨⟨after.current, after.least, after.room, after.whole, after.ends, ?_⟩, ?_⟩, max⟩
        · exact carved.packed.perm (regions_large _ ⟨node, some p⟩).symm
        · simpa [large, held] using sound.noted.cons p

theorem Sound.request_large (sound : w.Sound) (backed : w.Backed size) (large : w.max < size) :
    w.Grown (w.request align size).1 size (w.request align size).2 := by
  rw [request, if_neg (Nat.not_le.mpr large), pallocLarge]
  cases offered : w.offer.large with
  | none => exact ⟨sound, rfl, rfl⟩
  | some p =>
    let asked : PoolWorld := { w with offer := { w.offer with large := none } }
    have sound' : asked.Sound := ⟨⟨sound.current, sound.least, sound.room, sound.whole, sound.ends,
      sound.packed⟩, sound.noted⟩
    dsimp only
    cases done : asked.noteLarge p with
    | none => exact ⟨sound', rfl, rfl⟩
    | some w' =>
      obtain ⟨after, max⟩ := sound'.noteLarge ⟨backed.1, nofun⟩ (backed.2 p offered large) done
      have same : w'.live = asked.live := noteLarge_live done
      rw [← same] at after
      refine ⟨after, max, ?_⟩
      simp [handOut, same, large, asked]

theorem Sound.request (sound : w.Sound) (divides : align ∣ ngxAlignment)
    (backed : w.Backed size) : w.Grown (w.request align size).1 size (w.request align size).2 := by
  by_cases small : size ≤ w.max
  · exact sound.request_small divides backed small
  · exact sound.request_large backed (Nat.not_le.mp small)

theorem Sound.address_pos (sound : w.Sound) (alloc : Nat)
    (member : alloc ∈ w.large.filterMap PoolLarge.alloc) : 0 < alloc := by
  obtain ⟨h, kept, rfl⟩ := List.mem_map.mp (sound.noted.mem_iff.mp member)
  have handed : h.region ∈ w.regions := by
    simp only [regions, List.append_assoc]
    exact List.mem_append_left _ (List.mem_map_of_mem (List.mem_of_mem_filter kept))
  exact (sound.packed.within _ handed).1

theorem Sound.pfree (sound : w.Sound) (freed : w.pfree p = some w') : w'.Sound := by
  obtain ⟨large, set, rfl⟩ := Option.map_eq_some_iff.mp freed
  obtain ⟨before, l, after, split, found, rfl⟩ := setAlloc_eq_some set
  have fewer := (w.live.eraseP_sublist (p := fun h => h.region.first == p && h.large)).map
    PoolMemory.region
  refine ⟨⟨sound.current, sound.least, sound.room, sound.whole, sound.ends, ?_⟩, ?_⟩
  · refine sound.packed.sublist ?_
    have places : (before ++ { l with alloc := none } :: after).map PoolLarge.region =
        w.large.map PoolLarge.region := by simp [split, PoolLarge.region]
    simp only [regions, places, List.append_assoc]
    exact fewer.append_right _
  · have lives : ((w.live.eraseP fun h => h.region.first == p && h.large).filter
        PoolMemory.large).map (fun h => h.region.first) =
        ((w.live.filter PoolMemory.large).map fun h => h.region.first).erase p := by
      rw [List.erase_eq_eraseP', List.eraseP_map, List.eraseP_filter]
      rfl
    rw [lives]
    refine .trans ?_ (sound.noted.erase p)
    have positive := sound.address_pos
    simp only [split, List.filterMap_append, List.filterMap_cons] at positive ⊢
    cases noting : l.alloc with
    | none =>
      -- a null pointer: the first spare node stays as it is
      obtain rfl : 0 = p := by simpa [noting] using found
      simp only [noting] at positive ⊢
      exact .of_eq (List.erase_of_not_mem fun member => Nat.lt_irrefl 0 (positive 0 member)).symm
    | some q =>
      obtain rfl : q = p := by simpa [noting] using found
      have front : (before.filterMap PoolLarge.alloc ++ q :: after.filterMap PoolLarge.alloc).Perm
          (q :: (before.filterMap PoolLarge.alloc ++ after.filterMap PoolLarge.alloc)) :=
        List.perm_middle
      have erased := front.erase q
      rw [List.erase_cons_head] at erased
      exact erased.symm

theorem Sound.live_pfree (sound : w.Sound) (p : Nat) : ((w.pfree p).getD w).live =
    w.live.eraseP fun h => h.region.first == p && h.large := by
  rw [PoolWorld.pfree]
  cases set : setAlloc (fun l => l.alloc.getD 0 == p) none w.large with
  | some large => rfl
  | none =>
    refine (List.eraseP_of_forall_not fun h member found => ?_).symm
    obtain ⟨first, large⟩ := Bool.and_eq_true_iff.mp found
    have noted : h.region.first ∈ w.large.filterMap PoolLarge.alloc :=
      sound.noted.mem_iff.mpr (List.mem_map_of_mem (List.mem_filter.mpr ⟨member, large⟩))
    obtain ⟨l, present, alloc⟩ := List.mem_filterMap.mp noted
    have looked := setAlloc_eq_none.mp set l present
    simp [alloc, eq_of_beq first] at looked

theorem max_pfree (w : PoolWorld) (p : Nat) : ((w.pfree p).getD w).max = w.max := by
  rw [pfree]
  cases setAlloc _ _ w.large <;> rfl

theorem Sound.offered (sound : w.Sound) (offer : PoolOffer) : Sound { w with offer } :=
  ⟨⟨sound.current, sound.least, sound.room, sound.whole, sound.ends, sound.packed⟩, sound.noted⟩

theorem Sound.live_apart (sound : w.Sound) {given : PoolMemory} {rest : List PoolMemory}
    (live : w.live = given :: rest) : ∀ h ∈ rest, Region.Apart given.region h.region := by
  have handed := sound.packed.apart
  simp only [regions, live, List.map_cons, List.cons_append, List.append_assoc] at handed
  intro h member
  exact (Region.allApart_cons.mp handed).1 _ (List.mem_append_left _ (List.mem_map_of_mem member))

end PoolWorld

end Pool

end NgxCpp
