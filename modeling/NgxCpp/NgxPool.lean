import NgxCpp.Foundation.Ensures
import NgxCpp.NgxPalloc
import NgxCpp.NgxRam

/-! `NgxPool` over the memory of its pool: the strings that `dup` copies there, the objects
that `construct` makes there and the cleanups for when the pool is destroyed. What a pool
hands out behaves as objects that know nothing of each other. -/

namespace NgxCpp
open Foundation

/-- A pool with the bytes of the process. `cleanup` is the pool's pointer to the first of its
cleanup nodes, `nodes` are the nodes that lie in its memory so far, and `offers` says where the
system has memory for the next requests. -/
structure PoolHeap where
  pool : PoolWorld
  ram : Ram
  cleanup : UInt64 := 0
  nodes : List Nat := []
  offers : List PoolOffer := []

/-- `sizeof(ngx_pool_cleanup_t)`: `handler`, `data` and `next`. -/
def sizeofPoolCleanup : Nat := 24

namespace PoolHeap

/-- The pool, asked for memory when the system has what it offers next. -/
def asked (w : PoolHeap) : PoolWorld := { w.pool with offer := w.offers.head?.getD {} }

/-- `ngx_palloc` and `ngx_pnalloc`. The system never has memory that is somebody's. -/
def palloc (align size : Nat) : Ngx PoolHeap (Option Nat) := fun w =>
  if w.asked.Backed size then
    .ok (w.asked.request align size).1
      { w with pool := (w.asked.request align size).2, offers := w.offers.tail }
  else .undefined

/-- `ngx_memcpy` and whatever else writes bytes. -/
def store (p : Nat) (bytes : List UInt8) : Ngx PoolHeap Unit :=
  Exec.modify fun w => { w with ram := w.ram.write p bytes }

def storeWord (p : Nat) (x : UInt64) : Ngx PoolHeap Unit :=
  Exec.modify fun w => { w with ram := w.ram.writeWord p x }

def pcalloc (size : Nat) : Ngx PoolHeap (Option Nat) := do
  match ← palloc ngxAlignment size with
  | some p =>
    store p (List.replicate size 0)
    pure (some p)
  | none => pure none

def pstrdup (src : NgxStr) : Ngx PoolHeap (Option Nat) := do
  match ← palloc 1 src.len with
  | some dst =>
    let bytes ← Exec.gets fun w => NgxString.bytes w.ram src
    store dst bytes
    pure (some dst)
  | none => pure none

/-- `ngx_pool_cleanup_add` after `c->data` is set: the new node is the first of the pool's. -/
def cleanupLink (c : Nat) : Ngx PoolHeap Unit := do
  storeWord c 0
  let next ← Exec.gets PoolHeap.cleanup
  storeWord (c + 16) next
  Exec.modify fun w => { w with cleanup := .ofNat c, nodes := c :: w.nodes }

def cleanupAdd (size : Nat) : Ngx PoolHeap (Option Nat) := do
  match ← palloc ngxAlignment sizeofPoolCleanup with
  | none => pure none
  | some c =>
    if size = 0 then
      storeWord (c + 8) 0
      cleanupLink c
      pure (some c)
    else
      match ← palloc ngxAlignment size with
      | none =>
        storeWord (c + 8) 0
        pure none
      | some data =>
        storeWord (c + 8) (.ofNat data)
        cleanupLink c
        pure (some c)

def nalloc (n : Nat) : Ngx PoolHeap Nat := do
  let p ← palloc 1 n
  NgxException.requirePtr p

/-- `construct`, of an object that its constructor makes these bytes. -/
def construct (image : List UInt8) : Ngx PoolHeap Nat := do
  let p ← pcalloc image.length
  let p ← NgxException.requirePtr p
  store p image
  pure p

def dup (str : NgxStr) : Ngx PoolHeap NgxStr := do
  let data ← pstrdup str
  let data ← NgxException.requirePtr data
  pure ⟨str.len, data⟩

/-- `cleanup`, of a function by its address. -/
def cleanupFunc (func data : UInt64) (size : Nat) : Ngx PoolHeap Nat := do
  let p ← cleanupAdd size
  let p ← NgxException.requirePtr p
  storeWord p func
  if data ≠ 0 then storeWord (p + 8) data
  pure p

def pfree (p : Nat) : Ngx PoolHeap Unit :=
  Exec.modify fun w => { w with pool := (w.pool.pfree p).getD w.pool }

end PoolHeap

/-- The calls with which `ngx_destroy_pool` begins, from the node at `c` on; `act` is what a
handler makes of the memory. -/
def destroyCalls (act : UInt64 → UInt64 → Ram → Ram) :
    Nat → UInt64 → Ram → Option (List (UInt64 × UInt64))
  | 0, _, _ => none
  | fuel + 1, c, ram =>
    if c = 0 then some []
    else
      let func := ram.word c.toNat
      if func = 0 then destroyCalls act fuel (ram.word (c.toNat + 16)) ram
      else
        let data := ram.word (c.toNat + 8)
        let ram := act func data ram
        (destroyCalls act fuel (ram.word (c.toNat + 16)) ram).map ((func, data) :: ·)

/-- A use of a pool with what comes of it: an address, or nothing where it throws. A string
that is copied comes with what it holds then, a cleanup with what its node's `data` is, and
bytes may be written anywhere. -/
inductive PoolUse where
  | nalloc (n : Nat) (answer : Option Nat)
  | construct (image : List UInt8) (answer : Option Nat)
  | dup (str : NgxStr) (bytes : List UInt8) (answer : Option Nat)
  | cleanup (func data : UInt64) (size : Nat) (held : Option UInt64)
  | store (p : Nat) (bytes : List UInt8)
  | pfree (p : Nat)
deriving Repr, DecidableEq

def Answers {σ α : Type} (x : Ngx σ α) (w : σ) (answer : Option α) (w' : σ) : Prop :=
  match answer with
  | some a => x w = .ok a w'
  | none => ∃ e, x w = .raised e w'

def cleanupNode (c : Nat) : PoolMemory := ⟨⟨c, sizeofPoolCleanup⟩, false⟩

/-- Bytes that the program may write: in one piece of memory that was handed out to it, or
where the pool has nothing. -/
def PoolHeap.Owned (w : PoolHeap) (r : Region) : Prop :=
  (∃ h ∈ w.pool.live, h ∉ w.nodes.map cleanupNode ∧ Region.Within r h.region) ∨
    ∀ s ∈ w.pool.regions, Region.Apart r s

instance (w : PoolHeap) (r : Region) : Decidable (w.Owned r) :=
  inferInstanceAs (Decidable (_ ∨ _))

def PoolUse.Step (w : PoolHeap) (use : PoolUse) (w' : PoolHeap) : Prop :=
  match use with
  | nalloc n answer => Answers (PoolHeap.nalloc n) w answer w'
  | construct image answer => Answers (PoolHeap.construct image) w answer w'
  | dup str bytes answer => NgxString.bytes w.ram str = bytes ∧
      Answers (PoolHeap.dup str) w (answer.map (NgxStr.mk str.len)) w'
  | cleanup func data size (some held) => ∃ p,
      PoolHeap.cleanupFunc func data size w = .ok p w' ∧ w'.ram.word (p + 8) = held
  | cleanup func data size none => ∃ e, PoolHeap.cleanupFunc func data size w = .raised e w'
  | store p bytes => w.Owned ⟨p, bytes.length⟩ ∧ PoolHeap.store p bytes w = .ok () w'
  | pfree p => PoolHeap.pfree p w = .ok () w'

structure PoolObject where
  region : Region
  content : Option (List UInt8)
deriving Repr, DecidableEq

def overwrite (content : List UInt8) (i : Nat) (bytes : List UInt8) : List UInt8 :=
  content.take i ++ bytes ++ content.drop (i + bytes.length)

def PoolObject.store (o : PoolObject) (p : Nat) (bytes : List UInt8) : PoolObject :=
  if Region.Within ⟨p, bytes.length⟩ o.region then
    { o with content :=
        if bytes.length = o.region.size then some bytes
        else o.content.map fun content => overwrite content (p - o.region.first) bytes }
  else o

/-- What a pool stands for: objects that know nothing of each other, and the cleanups. -/
structure PoolState where
  objects : List PoolObject := []
  cleanups : List (UInt64 × UInt64) := []
deriving Repr, DecidableEq

namespace PoolState

def add (st : PoolState) (answer : Option Nat) (size : Nat) (content : Option (List UInt8)) :
    PoolState :=
  match answer with
  | some p => { st with objects := ⟨⟨p, size⟩, content⟩ :: st.objects }
  | none => st

/-- What a use makes of it, where requests of up to `max` bytes are small. -/
def next (max : Nat) (st : PoolState) : PoolUse → PoolState
  | .nalloc n answer => st.add answer n none
  | .construct image answer => st.add answer image.length (some image)
  | .dup _ bytes answer => st.add answer bytes.length (some bytes)
  | .cleanup func data size (some held) =>
      let made := if data = 0 ∧ size ≠ 0 then st.add (some held.toNat) size none else st
      let data := if data = 0 ∧ size ≠ 0 then held else data
      { made with cleanups := (func, data) :: st.cleanups }
  | .cleanup _ _ _ none => st
  | .store p bytes => { st with objects := st.objects.map fun o => o.store p bytes }
  | .pfree p => { st with
      objects := st.objects.eraseP fun o => o.region.first == p && max < o.region.size }

def calls (st : PoolState) : List (UInt64 × UInt64) := st.cleanups.filter fun c => c.1 ≠ 0

end PoolState

def PoolObject.memory (max : Nat) (o : PoolObject) : PoolMemory :=
  ⟨o.region, max < o.region.size⟩

def PoolObject.Holds (ram : Ram) (o : PoolObject) : Prop :=
  ∀ bytes ∈ o.content, ram.span o.region.first o.region.past = bytes

namespace Ram

variable {ram : Ram} {first past place : Nat} {bytes : List UInt8}

theorem span_write_within (above : first ≤ place) (below : place + bytes.length ≤ past) :
    (ram.write place bytes).span first past =
      overwrite (ram.span first past) (place - first) bytes := by
  have front : (ram.span first past).take (place - first) = ram.span first place := by
    rw [← span_append above (Nat.le_of_add_right_le below), List.take_left' length_span]
  have back : (ram.span first past).drop (place - first + bytes.length) =
      ram.span (place + bytes.length) past := by
    rw [drop_span]
    congr 1
    omega
  rw [overwrite, front, back, ← span_append above (Nat.le_of_add_right_le below),
    ← span_append (Nat.le_add_right place bytes.length) below, span_write_self,
    span_write (.inl (Nat.le_refl _)), span_write (.inr (Nat.le_refl _)), List.append_assoc]

end Ram

inductive Listed (ram : Ram) : UInt64 → List Nat → List (UInt64 × UInt64) → Prop where
  | nil : Listed ram 0 [] []
  | cons {c : Nat} {nodes : List Nat} {calls : List (UInt64 × UInt64)} (placed : 0 < c)
      (fits : c < 2 ^ 64) (rest : Listed ram (ram.word (c + 16)) nodes calls) :
      Listed ram (.ofNat c) (c :: nodes) ((ram.word c, ram.word (c + 8)) :: calls)

namespace Listed

variable {ram ram' : Ram} {first : UInt64} {nodes : List Nat} {calls : List (UInt64 × UInt64)}

theorem frame (listed : Listed ram first nodes calls)
    (same : ∀ c ∈ nodes, ∀ i ∈ [0, 8, 16], ram'.word (c + i) = ram.word (c + i)) :
    Listed ram' first nodes calls := by
  induction listed with
  | nil => exact .nil
  | @cons c nodes calls placed fits rest ih =>
    obtain ⟨here, later⟩ := List.forall_mem_cons.mp same
    have next : Listed ram' (ram'.word (c + 16)) nodes calls := here 16 (by simp) ▸ ih later
    have func : ram'.word c = ram.word c := here 0 (by simp)
    rw [← func, ← here 8 (by simp)]
    exact .cons placed fits next

theorem length_eq (listed : Listed ram first nodes calls) : calls.length = nodes.length := by
  induction listed with
  | nil => rfl
  | cons _ _ _ ih => rw [List.length_cons, List.length_cons, ih]

theorem toNat_address {p : Nat} (fits : p < 2 ^ 64) : (UInt64.ofNat p).toNat = p :=
  UInt64.toNat_ofNat_of_lt' fits

theorem destroyCalls {act : UInt64 → UInt64 → Ram → Ram} (listed : Listed ram first nodes calls)
    (tidy : ∀ func data ram, ∀ c ∈ nodes, ∀ i ∈ [0, 8, 16],
      (act func data ram).word (c + i) = ram.word (c + i)) {fuel : Nat}
    (enough : nodes.length < fuel) :
    NgxCpp.destroyCalls act fuel first ram = some (calls.filter fun c => c.1 ≠ 0) := by
  induction nodes generalizing ram first calls fuel with
  | nil =>
    obtain ⟨fuel, rfl⟩ := Nat.exists_eq_succ_of_ne_zero (Nat.ne_of_gt enough)
    cases listed
    rfl
  | cons c nodes ih =>
    obtain ⟨fuel, rfl⟩ := Nat.exists_eq_succ_of_ne_zero (Nat.ne_zero_of_lt enough)
    cases listed with
    | @cons _ _ calls placed fits rest =>
      have address := toNat_address fits
      have present : UInt64.ofNat c ≠ 0 := by
        intro null
        rw [null] at address
        exact Nat.ne_of_gt placed address.symm
      have tidy' : ∀ func data ram, ∀ c ∈ nodes, ∀ i ∈ [0, 8, 16],
          (act func data ram).word (c + i) = ram.word (c + i) := fun func data ram c member =>
        tidy func data ram c (List.mem_cons_of_mem _ member)
      have enough' := Nat.lt_of_succ_lt_succ enough
      rw [NgxCpp.destroyCalls, if_neg present, address]
      by_cases null : ram.word c = 0
      · rw [if_pos null, ih rest tidy' enough', List.filter_cons_of_neg (by simp [null])]
      · rw [if_neg null, List.filter_cons_of_pos (by simp [null])]
        dsimp only
        have next := tidy (ram.word c) (ram.word (c + 8)) ram c (by simp) 16 (by simp)
        rw [next, ih (rest.frame (tidy' _ _ _)) tidy' enough']
        rfl

end Listed

namespace PoolHeap

open Exec (Ensures)

/-- The heap is as the state says: what the objects hold, and the cleanups. -/
structure Stands (max : Nat) (w : PoolHeap) (st : PoolState) : Prop where
  sound : w.pool.Sound
  limit : w.pool.max = max
  live : (st.objects.map (PoolObject.memory max)).Sublist w.pool.live
  content : ∀ o ∈ st.objects, o.Holds w.ram
  nodes : (w.nodes.map cleanupNode).Sublist w.pool.live
  apart : ∀ o ∈ st.objects, ∀ c ∈ w.nodes, Region.Apart o.region (cleanupNode c).region
  listed : Listed w.ram w.cleanup w.nodes st.cleanups

section Stands

variable {max align size p : Nat} {w : PoolHeap} {st : PoolState}
  {content : Option (List UInt8)} {bytes : List UInt8} {answer : Option Nat}
  {thrown : NgxException → PoolHeap → Prop}

theorem Stands.live_apart (stands : Stands max w st) :
    Region.AllApart (w.pool.live.map PoolMemory.region) := by
  have fewer : (w.pool.live.map PoolMemory.region).Sublist w.pool.regions := by
    simp only [PoolWorld.regions, List.append_assoc]
    exact List.sublist_append_left ..
  exact List.Pairwise.sublist fewer stands.sound.packed.apart

theorem Stands.objects_apart (stands : Stands max w st) :
    Region.AllApart (st.objects.map PoolObject.region) := by
  have handed := stands.live.map PoolMemory.region
  rw [List.map_map] at handed
  exact List.Pairwise.sublist handed stands.live_apart

theorem Stands.apart_of_ne (stands : Stands max w st) {g h : PoolMemory} (given : g ∈ w.pool.live)
    (handed : h ∈ w.pool.live) (different : g ≠ h) : Region.Apart g.region h.region :=
  stands.live_apart.forall given handed different

theorem word_write {ram : Ram} {c i : Nat}
    (apart : Region.Apart ⟨p, bytes.length⟩ (cleanupNode c).region) (inside : i ∈ [0, 8, 16]) :
    (ram.write p bytes).word (c + i) = ram.word (c + i) := by
  have below : i + 8 ≤ 24 := by
    simp only [List.mem_cons, List.not_mem_nil, or_false] at inside
    omega
  rw [Ram.word, Ram.word, Ram.span_write]
  simp only [Region.Apart, Region.past, cleanupNode, sizeofPoolCleanup] at apart
  omega

theorem Stands.write_listed (stands : Stands max w st)
    (apart : ∀ c ∈ w.nodes, Region.Apart ⟨p, bytes.length⟩ (cleanupNode c).region) :
    Listed (w.ram.write p bytes) w.cleanup w.nodes st.cleanups :=
  stands.listed.frame fun c member _ inside => word_write (apart c member) inside

theorem Stands.fill (bytes : List UInt8)
    (stands : Stands max w (st.add (some p) bytes.length content)) :
    Stands max { w with ram := w.ram.write p bytes }
      (st.add (some p) bytes.length (some bytes)) where
  sound := stands.sound
  limit := stands.limit
  live := stands.live
  content o member := by
    obtain rfl | member := List.mem_cons.mp member
    · rintro known ⟨⟩
      exact Ram.span_write_self ..
    · intro known same
      have apart := (Region.allApart_cons.mp stands.objects_apart).1 _ (List.mem_map_of_mem member)
      rw [Ram.span_write (Or.symm apart)]
      exact stands.content o (List.mem_cons_of_mem _ member) known same
  nodes := stands.nodes
  apart := by
    intro o member
    obtain rfl | member := List.mem_cons.mp member
    · exact stands.apart ⟨_, content⟩ List.mem_cons_self
    · exact stands.apart o (List.mem_cons_of_mem _ member)
  listed := stands.write_listed (stands.apart ⟨_, content⟩ List.mem_cons_self)

theorem Stands.owned (stands : Stands max w st) {r : Region} (owned : w.Owned r) :
    (∀ o ∈ st.objects, Region.Within r o.region ∨ Region.Apart r o.region) ∧
      ∀ c ∈ w.nodes, Region.Apart r (cleanupNode c).region := by
  obtain ⟨h, handed, other, within⟩ | outside := owned
  · refine ⟨fun o member => ?_, fun c member => ?_⟩
    · have given := stands.live.subset (List.mem_map_of_mem member)
      by_cases same : h = o.memory max
      · subst same
        exact .inl within
      · exact .inr ((stands.apart_of_ne handed given same).within within)
    · have node : cleanupNode c ∈ w.nodes.map cleanupNode := List.mem_map_of_mem member
      have different : h ≠ cleanupNode c := by
        rintro rfl
        exact other node
      exact (stands.apart_of_ne handed (stands.nodes.subset node) different).within within
  · have handed : ∀ h ∈ w.pool.live, Region.Apart r h.region := by
      intro h member
      refine outside _ ?_
      simp only [PoolWorld.regions, List.append_assoc]
      exact List.mem_append_left _ (List.mem_map_of_mem member)
    refine ⟨fun o member => .inr ?_, fun c member => ?_⟩
    · exact handed _ (stands.live.subset (List.mem_map_of_mem member))
    · exact handed _ (stands.nodes.subset (List.mem_map_of_mem member))

theorem Stands.store (stands : Stands max w st) (owned : w.Owned ⟨p, bytes.length⟩) :
    Stands max { w with ram := w.ram.write p bytes }
      { st with objects := st.objects.map fun o => o.store p bytes } where
  sound := stands.sound
  limit := stands.limit
  live := by
    have same : (PoolObject.memory max ∘ fun o => o.store p bytes) = PoolObject.memory max := by
      funext o
      rw [Function.comp_apply, PoolObject.store]
      split <;> rfl
    rw [List.map_map, same]
    exact stands.live
  content := by
    intro stored present
    obtain ⟨o, member, rfl⟩ := List.mem_map.mp present
    have before := stands.content o member
    rw [PoolObject.store]
    split
    case isTrue within =>
      intro known same
      dsimp only at same ⊢
      rw [Ram.span_write_within within.1 within.2]
      split at same
      case isTrue whole =>
        obtain rfl := Option.some.inj same
        have start : p = o.region.first := by
          have past := within.2
          have first := within.1
          simp only [Region.past] at past first
          omega
        have length : (w.ram.span o.region.first o.region.past).length ≤ bytes.length := by
          simp [Region.past, whole]
        simp [overwrite, start, List.drop_eq_nil_of_le length]
      case isFalse =>
        obtain ⟨old, held, rfl⟩ := Option.map_eq_some_iff.mp same
        rw [before old held]
    case isFalse outside =>
      intro known same
      have apart := ((stands.owned owned).1 o member).resolve_left outside
      exact (Ram.span_write apart.symm).trans (before known same)
  nodes := stands.nodes
  apart := by
    intro stored present
    obtain ⟨o, member, rfl⟩ := List.mem_map.mp present
    have kept := stands.apart o member
    rw [PoolObject.store]
    split <;> exact kept
  listed := stands.write_listed (stands.owned owned).2

theorem Stands.pfree (stands : Stands max w st) (p : Nat) :
    Stands max { w with pool := (w.pool.pfree p).getD w.pool }
      { st with objects := st.objects.eraseP fun o => o.region.first == p && max < o.region.size }
    where
  sound := by
    cases freed : w.pool.pfree p with
    | none => exact stands.sound
    | some pool => exact stands.sound.pfree freed
  limit := (w.pool.max_pfree p).trans stands.limit
  live := by
    have fewer := stands.live.eraseP (p := fun h => h.region.first == p && h.large)
    rw [List.eraseP_map, ← stands.sound.live_pfree p] at fewer
    exact fewer
  content o member := stands.content o (List.mem_of_mem_eraseP member)
  nodes := by
    have fewer := stands.nodes.eraseP (p := fun h => h.region.first == p && h.large)
    have small : ∀ h ∈ w.nodes.map cleanupNode, ¬ (h.region.first == p && h.large) = true := by
      intro h member
      obtain ⟨c, -, rfl⟩ := List.mem_map.mp member
      simp [cleanupNode]
    rw [List.eraseP_of_forall_not small, ← stands.sound.live_pfree p] at fewer
    exact fewer
  apart o member := stands.apart o (List.mem_of_mem_eraseP member)
  listed := stands.listed

structure Given (max : Nat) (w : PoolHeap) (st : PoolState) (answer : Option Nat) (size : Nat)
    (w' : PoolHeap) : Prop where
  same : w'.ram = w.ram ∧ w'.cleanup = w.cleanup ∧ w'.nodes = w.nodes
  live : w'.pool.live =
    answer.toList.map (fun p => ⟨⟨p, size⟩, max < size⟩) ++ w.pool.live
  stands : Stands max w' (st.add answer size none)

theorem palloc_ensures (stands : Stands max w st) (divides : align ∣ ngxAlignment) (size : Nat) :
    Ensures (palloc align size) w (fun answer w' => Given max w st answer size w') thrown := by
  have asked : w.asked.Sound := stands.sound.offered _
  by_cases backed : w.asked.Backed size
  · refine .of_ok (if_pos backed) ?_
    obtain ⟨sound, same, live⟩ := asked.request divides backed
    have limit : w.asked.max = max := stands.limit
    rw [limit] at live same
    refine ⟨⟨rfl, rfl, rfl⟩, live, ?_⟩
    cases answered : (w.asked.request align size).1 with
    | none =>
      have kept : (w.asked.request align size).2.live = w.pool.live := by
        rw [live, answered]
        rfl
      exact ⟨sound, same, kept ▸ stands.live, stands.content, kept ▸ stands.nodes, stands.apart,
        stands.listed⟩
    | some p =>
      rw [answered] at live
      have fresh := sound.live_apart live
      refine ⟨sound, same, ?_, ?_, ?_, ?_, stands.listed⟩
      · exact live ▸ stands.live.cons_cons _
      · refine List.forall_mem_cons.mpr ⟨?_, stands.content⟩
        rintro known ⟨⟩
      · exact live ▸ stands.nodes.cons _
      · refine List.forall_mem_cons.mpr ⟨fun c member => ?_, stands.apart⟩
        exact fresh _ (stands.nodes.subset (List.mem_map_of_mem member))
  · exact .of_undefined (if_neg backed) trivial

theorem Stands.forget (stands : Stands max w (st.add answer size content)) :
    Stands max w st := by
  cases answer with
  | none => exact stands
  | some p =>
    exact ⟨stands.sound, stands.limit, (List.sublist_cons_self _ _).trans stands.live,
      fun o member => stands.content o (List.mem_cons_of_mem _ member), stands.nodes,
      fun o member => stands.apart o (List.mem_cons_of_mem _ member), stands.listed⟩

theorem pcalloc_ensures (stands : Stands max w st) (size : Nat) :
    Ensures (pcalloc size) w (fun answer w' =>
      Stands max w' (st.add answer size (some (List.replicate size 0)))) thrown := by
  refine (palloc_ensures stands (Nat.dvd_refl _) size).bind fun answer w1 given => ?_
  cases answer with
  | none => exact .pure given.stands
  | some p =>
    refine .bind_ok (Exec.modify_apply _ _) (.pure ?_)
    have length : (List.replicate size (0 : UInt8)).length = size := List.length_replicate
    have filled := Stands.fill (List.replicate size 0) (length.symm ▸ given.stands)
    rwa [length] at filled

theorem pstrdup_ensures (stands : Stands max w st) (src : NgxStr) :
    Ensures (pstrdup src) w (fun answer w' =>
      Stands max w' (st.add answer src.len (some (NgxString.bytes w.ram src))))
      thrown := by
  refine (palloc_ensures stands (Nat.one_dvd _) src.len).bind fun answer w1 given => ?_
  cases answer with
  | none => exact .pure given.stands
  | some p =>
    refine .bind_ok (Exec.gets_apply _ _) (.bind_ok (Exec.modify_apply _ _) (.pure ?_))
    have length := NgxString.length_bytes w1.ram src
    have filled := Stands.fill (NgxString.bytes w1.ram src) (length.symm ▸ given.stands)
    rw [← given.same.1]
    rwa [length] at filled

theorem requirePtr_ensures {σ α : Type} {s : σ} {thrown : NgxException → σ → Prop}
    (found : Option α) (absent : thrown ⟨ngxError⟩ s) :
    Ensures (NgxException.requirePtr found) s (fun a t => t = s ∧ found = some a) thrown := by
  cases found with
  | none => exact .raise absent
  | some a => exact .pure ⟨rfl, rfl⟩

theorem nalloc_ensures (stands : Stands max w st) (n : Nat) :
    Ensures (nalloc n) w (fun p w' => Stands max w' (st.add (some p) n none))
      fun _ w' => Stands max w' st := by
  refine (palloc_ensures stands (Nat.one_dvd _) n).bind fun answer w1 given => ?_
  refine (requirePtr_ensures answer given.stands.forget).imp ?_
  rintro p _ ⟨rfl, rfl⟩
  exact given.stands

theorem construct_ensures (stands : Stands max w st) (image : List UInt8) :
    Ensures (construct image) w
      (fun p w' => Stands max w' (st.add (some p) image.length (some image)))
      fun _ w' => Stands max w' st := by
  refine (pcalloc_ensures stands image.length).bind fun answer w1 given => ?_
  refine (requirePtr_ensures answer given.forget).bind ?_
  rintro p _ ⟨rfl, rfl⟩
  exact .bind_ok (Exec.modify_apply _ _) (.pure (given.fill image))

theorem dup_ensures (stands : Stands max w st) (str : NgxStr) :
    Ensures (dup str) w
      (fun s w' => s.len = str.len ∧
        Stands max w' (st.add (some s.data) str.len (some (NgxString.bytes w.ram str))))
      fun _ w' => Stands max w' st := by
  refine (pstrdup_ensures stands str).bind fun answer w1 given => ?_
  refine (requirePtr_ensures answer given.forget).bind ?_
  rintro p _ ⟨rfl, rfl⟩
  exact .pure ⟨rfl, given⟩

structure Blank (w : PoolHeap) (st : PoolState) (c : Nat) : Prop where
  live : ((c :: w.nodes).map cleanupNode).Sublist w.pool.live
  apart : ∀ o ∈ st.objects, Region.Apart o.region (cleanupNode c).region

theorem Blank.node_apart {c : Nat} (stands : Stands max w st) (blank : Blank w st c) :
    ∀ d ∈ w.nodes, Region.Apart (cleanupNode c).region (cleanupNode d).region := by
  have handed := blank.live.map PoolMemory.region
  have all : Region.AllApart (((c :: w.nodes).map cleanupNode).map PoolMemory.region) :=
    List.Pairwise.sublist handed stands.live_apart
  intro d member
  rw [List.map_cons, List.map_cons] at all
  exact (Region.allApart_cons.mp all).1 _ (List.mem_map_of_mem (List.mem_map_of_mem member))

theorem Stands.writeWord {c i : Nat} (stands : Stands max w st) (blank : Blank w st c)
    (inside : i ∈ [0, 8, 16]) (x : UInt64) :
    Stands max { w with ram := w.ram.writeWord (c + i) x } st ∧
      Blank { w with ram := w.ram.writeWord (c + i) x } st c := by
  have within : Region.Within ⟨c + i, (wordBytes 8 x.toNat).length⟩ (cleanupNode c).region := by
    simp only [List.mem_cons, List.not_mem_nil, or_false] at inside
    simp only [Region.Within, Region.past, cleanupNode, sizeofPoolCleanup, length_wordBytes]
    omega
  refine ⟨⟨stands.sound, stands.limit, stands.live, ?_, stands.nodes, stands.apart, ?_⟩,
    blank.live, blank.apart⟩
  · intro o member known same
    have apart := (blank.apart o member).symm.within within
    exact (Ram.span_write apart.symm).trans (stands.content o member known same)
  · exact stands.write_listed fun d member => (blank.node_apart stands d member).within within

def link (w : PoolHeap) (c : Nat) : PoolHeap :=
  { w with cleanup := .ofNat c, nodes := c :: w.nodes }

/-- The node at `c` is filled in and ready to be the first. -/
structure Ready (max : Nat) (w : PoolHeap) (st : PoolState) (c : Nat) (func data : UInt64) :
    Prop where
  stands : Stands max w st
  blank : Blank w st c
  func : w.ram.word c = func
  data : w.ram.word (c + 8) = data
  next : w.ram.word (c + 16) = w.cleanup

section Ready

variable {c : Nat} {func data x : UInt64}

theorem Ready.setFunc (ready : Ready max w st c func data) (x : UInt64) :
    Ready max { w with ram := w.ram.writeWord c x } st c x data := by
  obtain ⟨stands, blank⟩ := ready.stands.writeWord (i := 0) ready.blank (by simp) x
  refine ⟨stands, blank, Ram.word_writeWord_self .., ?_, ?_⟩
  · exact (Ram.word_writeWord (.inr (by omega)) x).trans ready.data
  · exact (Ram.word_writeWord (.inr (by omega)) x).trans ready.next

theorem Ready.setData (ready : Ready max w st c func data) (x : UInt64) :
    Ready max { w with ram := w.ram.writeWord (c + 8) x } st c func x := by
  obtain ⟨stands, blank⟩ := ready.stands.writeWord (i := 8) ready.blank (by simp) x
  refine ⟨stands, blank, ?_, Ram.word_writeWord_self .., ?_⟩
  · exact (Ram.word_writeWord (.inl (Nat.le_refl _)) x).trans ready.func
  · exact (Ram.word_writeWord (.inr (by omega)) x).trans ready.next

theorem Ready.link (ready : Ready max w st c func data) :
    Stands max (w.link c) { st with cleanups := (func, data) :: st.cleanups } := by
  obtain ⟨stands, blank, rfl, rfl, next⟩ := ready
  have handed : cleanupNode c ∈ w.pool.live := blank.live.subset (by simp)
  have given : (cleanupNode c).region ∈ w.pool.regions := by
    simp only [PoolWorld.regions, List.append_assoc]
    exact List.mem_append_left _ (List.mem_map_of_mem handed)
  obtain ⟨placed, fits⟩ := stands.sound.packed.within _ given
  have below : c + 24 ≤ 2 ^ 64 := fits
  refine ⟨stands.sound, stands.limit, stands.live, stands.content, blank.live, ?_, ?_⟩
  · intro o member d inside
    obtain rfl | older := List.mem_cons.mp inside
    · exact blank.apart o member
    · exact stands.apart o member d older
  · exact .cons placed (by omega) (next ▸ stands.listed)

theorem cleanupLink_eq (stands : Stands max w st) (blank : Blank w st c) (x : UInt64) :
    ∃ b, (do storeWord (c + 8) x; cleanupLink c; pure (some c)) w = .ok (some c) (b.link c) ∧
      Ready max b st c 0 x := by
  obtain ⟨stands, blank⟩ := stands.writeWord (i := 8) blank (by simp) x
  obtain ⟨stands, blank⟩ := stands.writeWord (i := 0) blank (by simp) 0
  obtain ⟨stands, blank⟩ := stands.writeWord (i := 16) blank (by simp) w.cleanup
  refine ⟨_, rfl, stands, blank, ?_, ?_, Ram.word_writeWord_self ..⟩
  · exact (Ram.word_writeWord (.inl (by omega)) _).trans (Ram.word_writeWord_self ..)
  · refine (Ram.word_writeWord (.inl (Nat.le_refl _)) _).trans ?_
    exact (Ram.word_writeWord (.inr (by omega)) _).trans (Ram.word_writeWord_self ..)

theorem cleanupAdd_ensures (stands : Stands max w st) (size : Nat) :
    Ensures (cleanupAdd size) w (fun node w' => match node with
      | none => Stands max w' st
      | some c => ∃ b d, w' = b.link c ∧ (d = none ↔ size = 0) ∧
          Ready max b (st.add d size none) c 0 (.ofNat (d.getD 0))) thrown := by
  refine (palloc_ensures stands (Nat.dvd_refl _) sizeofPoolCleanup).bind fun node w₁ given => ?_
  have before := given.stands.forget
  cases node with
  | none => exact .pure before
  | some c =>
    have small : decide (max < sizeofPoolCleanup) = false := by
      have least := stands.sound.least
      rw [stands.limit] at least
      exact decide_eq_false (Nat.not_lt.mpr (Nat.le_trans (by decide) least))
    have live : w₁.pool.live = cleanupNode c :: w.pool.live := by
      have same := given.live
      rwa [small] at same
    have blank : Blank w₁ st c := by
      refine ⟨?_, fun o member => ?_⟩
      · rw [live, given.same.2.2]
        exact stands.nodes.cons_cons _
      · have apart := given.stands.objects_apart
        exact ((Region.allApart_cons.mp apart).1 _ (List.mem_map_of_mem member)).symm
    dsimp only
    split
    case isTrue empty =>
      obtain ⟨b, linked, ready⟩ := cleanupLink_eq before blank 0
      exact .of_ok linked ⟨b, none, rfl, iff_of_true rfl empty, ready⟩
    case isFalse asked =>
      refine (palloc_ensures before (Nat.dvd_refl _) size).bind fun data w₂ given₂ => ?_
      have memory : Blank w₂ (st.add data size none) c := by
        refine ⟨?_, ?_⟩
        · rw [given₂.live, given₂.same.2.2]
          exact blank.live.trans (List.sublist_append_right ..)
        · cases data with
          | none => exact blank.apart
          | some d =>
            have fresh := given₂.stands.sound.live_apart given₂.live
            exact List.forall_mem_cons.mpr ⟨fresh _ (blank.live.subset (by simp)), blank.apart⟩
      cases data with
      | none =>
        refine .bind_ok (Exec.modify_apply _ _) (.pure ?_)
        exact (given₂.stands.writeWord (i := 8) memory (by simp) 0).1
      | some d =>
        obtain ⟨b, linked, ready⟩ := cleanupLink_eq given₂.stands memory (.ofNat d)
        exact .of_ok linked ⟨b, some d, rfl, iff_of_false nofun asked, ready⟩

theorem add_cleanups (st : PoolState) (answer : Option Nat) (size : Nat)
    (content : Option (List UInt8)) (cleanups : List (UInt64 × UInt64)) :
    ({ st.add answer size content with cleanups } : PoolState) =
      ({ st with cleanups } : PoolState).add answer size content := by
  cases answer <;> rfl

theorem Stands.below (stands : Stands max w (st.add (some p) size content)) (some : size ≠ 0) :
    p < 2 ^ 64 := by
  have handed := stands.live.subset List.mem_cons_self
  have given : (⟨p, size⟩ : Region) ∈ w.pool.regions := by
    simp only [PoolWorld.regions, List.append_assoc]
    exact List.mem_append_left _ (List.mem_map_of_mem handed)
  have within : p + size ≤ 2 ^ 64 := (stands.sound.packed.within _ given).2
  omega

theorem cleanupFunc_ensures (stands : Stands max w st) (func data : UInt64) (size : Nat) :
    Ensures (cleanupFunc func data size) w
      (fun c w' => Stands max w' (st.next max (.cleanup func data size
        (some (w'.ram.word (c + 8)))))) fun _ w' => Stands max w' st := by
  refine (cleanupAdd_ensures stands size).bind fun node w₁ given => ?_
  cases node with
  | none => exact .raise given
  | some c =>
    obtain ⟨b, d, rfl, empty, ready⟩ := given
    refine .bind_ok rfl (.bind_ok (Exec.modify_apply _ _) ?_)
    have ready := ready.setFunc func
    by_cases null : data = 0
    · refine .of_ok (by simp only [null]; rfl) ?_
      have linked := ready.link
      have held : (b.ram.writeWord c func).word (c + 8) = .ofNat (d.getD 0) := ready.data
      rw [PoolState.next]
      change Stands max (PoolHeap.link { b with ram := b.ram.writeWord c func } c) _
      simp only [null, true_and]
      cases d with
      | none =>
        rw [if_neg (not_not.mpr (empty.mp rfl)), if_neg (not_not.mpr (empty.mp rfl))]
        exact linked
      | some m =>
        have asked : size ≠ 0 := fun none => nomatch empty.mpr none
        have address : (UInt64.ofNat m).toNat = m := Listed.toNat_address (ready.stands.below asked)
        rw [if_pos asked, if_pos asked]
        simp only [link, held, Option.getD_some, address]
        exact linked
    · have given := ready.setData data
      refine .of_ok (by simp only [ne_eq, null, not_false_eq_true, if_true]; rfl) ?_
      have linked := given.link
      have skipped : ¬ (data = 0 ∧ size ≠ 0) := fun both => null both.1
      rw [PoolState.next, if_neg skipped, if_neg skipped]
      rw [add_cleanups] at linked
      have cleanups : (st.add d size none).cleanups = st.cleanups := by cases d <;> rfl
      rw [cleanups] at linked
      exact linked.forget

end Ready

end Stands

end PoolHeap

theorem Answers.of_ensures {σ α : Type} {x : Ngx σ α} {w w' : σ} {answer : Option α}
    {post : α → σ → Prop} {thrown : σ → Prop}
    (ensures : Exec.Ensures x w post fun _ => thrown) (answers : Answers x w answer w') :
    match answer with
    | some a => post a w'
    | none => thrown w' := by
  cases answer with
  | some a => exact ensures.ok answers
  | none =>
    obtain ⟨e, threw⟩ := answers
    exact ensures.raised threw

namespace PoolUse

variable {max : Nat} {w w' : PoolHeap} {st : PoolState} {use : PoolUse}

theorem step_stands (stands : PoolHeap.Stands max w st) (step : use.Step w w') :
    PoolHeap.Stands max w' (st.next max use) := by
  cases use with
  | nalloc n answer =>
    have after := Answers.of_ensures (PoolHeap.nalloc_ensures stands n) step
    cases answer <;> exact after
  | construct image answer =>
    have after := Answers.of_ensures (PoolHeap.construct_ensures stands image) step
    cases answer <;> exact after
  | dup str bytes answer =>
    obtain ⟨rfl, answers⟩ := step
    have after := Answers.of_ensures (PoolHeap.dup_ensures stands str) answers
    cases answer with
    | none => exact after
    | some p =>
      rw [PoolState.next, NgxString.length_bytes]
      exact after.2
  | cleanup func data size held =>
    have ensures := PoolHeap.cleanupFunc_ensures stands func data size
    cases held with
    | none =>
      obtain ⟨e, threw⟩ := step
      exact ensures.raised threw
    | some held =>
      obtain ⟨p, returned, rfl⟩ := step
      exact ensures.ok returned
  | store p bytes =>
    obtain ⟨owned, done⟩ := step
    obtain ⟨-, rfl⟩ := Outcome.ok.inj done
    exact stands.store owned
  | pfree p =>
    obtain ⟨-, rfl⟩ := Outcome.ok.inj step
    exact stands.pfree p

end PoolUse

/-- However a pool is used, what it hands out are objects that lie apart and hold what was
put there last, a copied string what it was copied from; and its destruction calls each
cleanup that was registered without an exception once, the newest first, whatever the handlers
do to memory that is not a node's. -/
theorem pool_objects_stand {w w' : PoolHeap} (sound : w.pool.Sound) (first : w.cleanup = 0)
    (new : w.nodes = []) {uses : List PoolUse} (run : Run PoolUse.Step w uses w')
    {act : UInt64 → UInt64 → Ram → Ram} (tidy : ∀ func data ram, ∀ c ∈ w'.nodes,
      ∀ i ∈ [0, 8, 16], (act func data ram).word (c + i) = ram.word (c + i)) :
    let st := uses.foldl (PoolState.next w.pool.max) {}
    Region.AllApart (st.objects.map PoolObject.region) ∧ (∀ o ∈ st.objects, o.Holds w'.ram) ∧
      ∀ fuel > st.cleanups.length, destroyCalls act fuel w'.cleanup w'.ram = some st.calls := by
  have start : PoolHeap.Stands w.pool.max w {} := by
    refine ⟨sound, rfl, List.nil_sublist _, nofun, ?_, nofun, ?_⟩
    · rw [new]
      exact List.nil_sublist _
    · rw [first, new]
      exact .nil
  have kept : ∀ (s : PoolHeap) (use : PoolUse) (t : PoolHeap) (st : PoolState),
      PoolHeap.Stands w.pool.max s st → True → use.Step s t →
        PoolHeap.Stands w.pool.max t (st.next w.pool.max use) :=
    fun _ _ _ _ stands _ step => PoolUse.step_stands stands step
  have stands := run.simulates kept (fun _ _ => trivial) start
  refine ⟨stands.objects_apart, stands.content, fun fuel enough => ?_⟩
  exact stands.listed.destroyCalls tidy (stands.listed.length_eq ▸ enough)

private def freshHeap : PoolHeap where
  pool := {
    headers := [⟨4016, 80⟩]
    blocks := [{ free := ⟨4096, 1024⟩ }]
    max := 1024
    psize := 1104 }
  ram := UInt8.ofNat

/-- A string is copied, an object is made and overwritten, and two cleanups are registered;
a third one finds no memory. The handlers write over the string. -/
theorem pool_objects_stand_three : ∃ w' : PoolHeap,
    w'.ram.span 4096 4098 = [7, 8] ∧ w'.ram.span 4104 4107 = [1, 9, 3] ∧
      destroyCalls (fun _ _ ram => ram.write 4096 [0]) 3 w'.cleanup w'.ram =
        some [(5, 4160), (6, 4104)] := by
  have sound : freshHeap.pool.Sound :=
    ⟨⟨by decide, by decide, by decide, by decide, by decide, by decide, by decide⟩, .nil⟩
  have run : Run PoolUse.Step freshHeap [
      .dup ⟨2, 7⟩ [7, 8] (some 4096),
      .construct [1, 2, 3] (some 4104),
      .cleanup 6 4104 0 (some 4104),
      .store 4105 [9],
      .cleanup 5 0 16 (some 4160),
      .cleanup 6 0 2000 none] _ :=
    .cons ⟨rfl, rfl⟩ <| .cons rfl <| .cons ⟨_, rfl, rfl⟩ <|
      .cons ⟨by decide, rfl⟩ <| .cons ⟨_, rfl, rfl⟩ <| .cons ⟨_, rfl⟩ <| .nil _
  have clear : ∀ c ∈ [4136, 4112],
      Region.Apart ⟨4096, [(0 : UInt8)].length⟩ (cleanupNode c).region := by decide
  obtain ⟨-, holds, calls⟩ := pool_objects_stand sound rfl rfl run fun _ _ _ c member _ inside =>
    PoolHeap.word_write (clear c member) inside
  exact ⟨_, holds ⟨⟨4096, 2⟩, some [7, 8]⟩ (by decide) _ rfl,
    holds ⟨⟨4104, 3⟩, some [1, 9, 3]⟩ (by decide) _ rfl, calls 3 (by decide)⟩

end NgxCpp
