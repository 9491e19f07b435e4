import NgxCpp.Exception
import Mathlib.Data.List.Basic
import Mathlib.Logic.Function.Basic

/-! `NgxFilter`: tags put their filters in front of nginx's. For each type of
function pointers there is nginx's top pointer and, for each tag, a static
`next_filter`; nothing is shared between the types. The statics outlive a
reload, at which nginx resets the top pointers to its own filters. -/

namespace NgxCpp
open Foundation

inductive FilterPtr (Tag : Type) where
  | base
  | of (tag : Tag)
deriving Repr, DecidableEq

/-- The globals for one type of function pointers; a static is null at first. -/
structure FilterChain (Tag : Type) where
  top : FilterPtr Tag
  next : Tag → Option (FilterPtr Tag)

structure FilterGlobals (Tag : Type) where
  header : FilterChain Tag
  body : FilterChain Tag

structure Registration (Tag : Type) where
  tag : Tag
  header : Bool
  body : Bool
deriving Repr, DecidableEq

variable {Tag : Type}

namespace FilterChain

def reset (chain : FilterChain Tag) : FilterChain Tag := { chain with top := .base }

section Call

variable {σ A : Type} (code : Tag → (A → Ngx σ Int) → A → Ngx σ Int) (base : A → Ngx σ Int)

/-- Call a filter: the code of a tag is given `NgxFilter<Tag>::next`. -/
def call (chain : FilterChain Tag) : Nat → FilterPtr Tag → A → Ngx σ Int
  | _, .base => base
  | 0, .of _ => fun _ => Exec.exhausted
  | fuel + 1, .of tag => code tag fun a => do
      let p ← Exec.deref fun _ => chain.next tag
      call chain fuel p a

end Call

end FilterChain

namespace NgxFilter

variable [DecidableEq Tag]

/-- `set`: `next<T>() = top; top = p`. -/
def set (tag : Tag) (p : FilterPtr Tag) (chain : FilterChain Tag) : FilterChain Tag where
  top := p
  next := Function.update chain.next tag (some chain.top)

def init (tag : Tag) (headerFilter bodyFilter : Option (FilterPtr Tag)) (g : FilterGlobals Tag) :
    FilterGlobals Tag where
  header :=
    match headerFilter with
    | some p => set tag p g.header
    | none => g.header
  body :=
    match bodyFilter with
    | some p => set tag p g.body
    | none => g.body

end NgxFilter

section Registrations

variable [DecidableEq Tag]

/-- The call of `init` by a registered tag. -/
def Registration.init (g : FilterGlobals Tag) (reg : Registration Tag) : FilterGlobals Tag :=
  NgxFilter.init reg.tag (if reg.header then some (.of reg.tag) else none)
    (if reg.body then some (.of reg.tag) else none) g

def FilterGlobals.configure (g : FilterGlobals Tag) (regs : List (Registration Tag)) :
    FilterGlobals Tag :=
  regs.foldl Registration.init ⟨g.header.reset, g.body.reset⟩

end Registrations

/-- From `p` on the filters of these tags are linked, and then nginx's own. -/
inductive Threaded (next : Tag → Option (FilterPtr Tag)) : FilterPtr Tag → List Tag → Prop where
  | base : Threaded next .base []
  | of {tag : Tag} {p : FilterPtr Tag} {tags : List Tag} :
      next tag = some p → Threaded next p tags → Threaded next (.of tag) (tag :: tags)

namespace Threaded

variable {next : Tag → Option (FilterPtr Tag)} {chain : FilterChain Tag} {p : FilterPtr Tag}
  {tag : Tag} {tags : List Tag}

theorem frame [DecidableEq Tag] (threaded : Threaded next p tags) (off : tag ∉ tags)
    (q : Option (FilterPtr Tag)) :
    Threaded (Function.update next tag q) p tags := by
  induction threaded with
  | base => exact .base
  | @of t p tags found _ ih =>
    simp only [List.mem_cons, not_or] at off
    refine .of ?_ (ih off.2)
    rw [Function.update_of_ne (Ne.symm off.1), found]

theorem set [DecidableEq Tag] (threaded : Threaded chain.next chain.top tags) (off : tag ∉ tags) :
    Threaded (NgxFilter.set tag (.of tag) chain).next (.of tag) (tag :: tags) :=
  .of (Function.update_self ..) (threaded.frame off _)

variable {σ A : Type} {code : Tag → (A → Ngx σ Int) → A → Ngx σ Int} {base : A → Ngx σ Int}

theorem call_eq (threaded : Threaded chain.next p tags) {fuel : Nat}
    (enough : tags.length ≤ fuel) : chain.call code base fuel p = tags.foldr code base := by
  induction threaded generalizing fuel with
  | base => cases fuel <;> rfl
  | @of t p tags found _ ih =>
    cases fuel with
    | zero => simp at enough
    | succ fuel =>
      rw [FilterChain.call, List.foldr_cons]
      congr 1
      funext a s
      have read : (Exec.deref fun _ => chain.next t : Ngx σ (FilterPtr Tag)) s = .ok p s :=
        Exec.deref_some (f := fun _ : σ => chain.next t) found
      rw [Exec.bind_ok _ read, ih (Nat.le_of_succ_le_succ enough)]

end Threaded

/-- The tags whose function of a kind is not null, the last registered first. -/
def installed (kind : Registration Tag → Bool) (regs : List (Registration Tag)) : List Tag :=
  ((regs.filter kind).map Registration.tag).reverse

theorem installed_cons (kind : Registration Tag → Bool) (reg : Registration Tag)
    (regs : List (Registration Tag)) (tags : List Tag) :
    installed kind (reg :: regs) ++ tags =
      installed kind regs ++ if kind reg then reg.tag :: tags else tags := by
  unfold installed
  by_cases set : kind reg = true
  · simp [set]
  · simp [set]

theorem installed_length_le (kind : Registration Tag → Bool) (regs : List (Registration Tag)) :
    (installed kind regs).length ≤ regs.length := by
  simpa [installed] using List.length_filter_le kind regs

def FilterGlobals.Serves (g : FilterGlobals Tag) (headers bodies : List Tag) : Prop :=
  Threaded g.header.next g.header.top headers ∧ Threaded g.body.next g.body.top bodies

section Configure

variable [DecidableEq Tag] {g : FilterGlobals Tag} {headers bodies : List Tag}

theorem init_serves (serves : g.Serves headers bodies) (reg : Registration Tag)
    (offHeader : reg.tag ∉ headers) (offBody : reg.tag ∉ bodies) :
    (reg.init g).Serves (if reg.header then reg.tag :: headers else headers)
      (if reg.body then reg.tag :: bodies else bodies) := by
  constructor
  · unfold Registration.init NgxFilter.init
    cases reg.header with
    | true => exact serves.1.set offHeader
    | false => exact serves.1
  · unfold Registration.init NgxFilter.init
    cases reg.body with
    | true => exact serves.2.set offBody
    | false => exact serves.2

theorem registrations_serve (regs : List (Registration Tag)) (serves : g.Serves headers bodies)
    (distinct : (regs.map Registration.tag).Nodup)
    (offHeader : ∀ reg ∈ regs, reg.tag ∉ headers) (offBody : ∀ reg ∈ regs, reg.tag ∉ bodies) :
    (regs.foldl Registration.init g).Serves (installed Registration.header regs ++ headers)
      (installed Registration.body regs ++ bodies) := by
  induction regs generalizing g headers bodies with
  | nil => exact serves
  | cons reg regs ih =>
    rw [List.map_cons, List.nodup_cons] at distinct
    have first := init_serves serves reg (offHeader reg (by simp)) (offBody reg (by simp))
    -- no later registration is of the tag that this one put on the chains
    have later : ∀ (set : Bool) (tags : List Tag), (∀ reg' ∈ reg :: regs, reg'.tag ∉ tags) →
        ∀ reg' ∈ regs, reg'.tag ∉ if set then reg.tag :: tags else tags := by
      intro set tags off reg' member
      have other : reg'.tag ≠ reg.tag := fun same =>
        distinct.1 (same ▸ List.mem_map_of_mem member)
      have kept : reg'.tag ∉ tags := off reg' (by simp [member])
      cases set <;> simp [other, kept]
    rw [List.foldl_cons, installed_cons, installed_cons]
    exact ih first distinct.2 (later _ _ offHeader) (later _ _ offBody)

/-- After a configuration cycle the chains are those of its registrations,
whatever the statics of earlier cycles hold. -/
theorem configure_serves (g : FilterGlobals Tag) {regs : List (Registration Tag)}
    (distinct : (regs.map Registration.tag).Nodup) :
    (g.configure regs).Serves (installed Registration.header regs)
      (installed Registration.body regs) := by
  have serves := registrations_serve regs (g := ⟨g.header.reset, g.body.reset⟩)
    ⟨.base, .base⟩ distinct (by simp) (by simp)
  rwa [List.append_nil, List.append_nil] at serves

end Configure

section Visits

variable {A : Type}

def visit (p : FilterPtr Tag) : Ngx (List (FilterPtr Tag)) Unit :=
  Exec.modify fun visited => visited ++ [p]

/-- A filter that forwards with `NgxFilter<Tag>::next`. -/
def forwarding (tag : Tag) (next : A → Ngx (List (FilterPtr Tag)) Int) (a : A) :
    Ngx (List (FilterPtr Tag)) Int := do
  visit (.of tag)
  next a

def answering (rc : Int) (_ : A) : Ngx (List (FilterPtr Tag)) Int := do
  visit .base
  pure rc

theorem forwarding_visits (tags : List Tag) (rc : Int) (a : A) (visited : List (FilterPtr Tag)) :
    tags.foldr forwarding (answering rc) a visited =
      .ok rc (visited ++ (tags.map FilterPtr.of ++ [.base])) := by
  induction tags generalizing visited with
  | nil => rfl
  | cons tag tags ih =>
    have seen : visit (.of tag) visited = .ok () (visited ++ [FilterPtr.of tag]) := rfl
    rw [List.foldr_cons, forwarding, Exec.bind_ok _ seen, ih]
    simp

/-- After any number of configuration cycles, calling the top filters visits the
tags with a filter, each once, the last registered first, and then nginx's. -/
theorem filter_chains_complete [DecidableEq Tag] {H B : Type} (g : FilterGlobals Tag)
    (cycles : List (List (Registration Tag))) {regs : List (Registration Tag)}
    (distinct : (regs.map Registration.tag).Nodup) (rc rc' : Int) (r : H) (input : B)
    {fuel : Nat} (enough : regs.length ≤ fuel) :
    let g' := (cycles.foldl FilterGlobals.configure g).configure regs
    g'.header.call forwarding (answering rc) fuel g'.header.top r [] =
        .ok rc ((installed Registration.header regs).map FilterPtr.of ++ [.base]) ∧
      g'.body.call forwarding (answering rc') fuel g'.body.top input [] =
        .ok rc' ((installed Registration.body regs).map FilterPtr.of ++ [.base]) := by
  obtain ⟨header, body⟩ := configure_serves (cycles.foldl FilterGlobals.configure g) distinct
  constructor
  · rw [header.call_eq (Nat.le_trans (installed_length_le _ regs) enough), forwarding_visits]
    rfl
  · rw [body.call_eq (Nat.le_trans (installed_length_le _ regs) enough), forwarding_visits]
    rfl

/-- A reload that registers in another order and leaves one tag out. -/
theorem filter_chains_complete_reloaded :
    let g : FilterGlobals (Fin 3) := ⟨⟨.base, fun _ => none⟩, ⟨.base, fun _ => none⟩⟩
    let g' := (List.foldl FilterGlobals.configure g
      [[⟨0, true, true⟩, ⟨1, true, false⟩, ⟨2, true, true⟩]]).configure
        [⟨2, true, true⟩, ⟨0, false, true⟩]
    g'.header.call forwarding (answering 0) 2 g'.header.top 7 [] =
        .ok 0 ((installed Registration.header [⟨2, true, true⟩, ⟨(0 : Fin 3), false, true⟩]).map
          FilterPtr.of ++ [.base]) ∧
      g'.body.call forwarding (answering 0) 2 g'.body.top (7, 8) [] =
        .ok 0 ((installed Registration.body [⟨2, true, true⟩, ⟨(0 : Fin 3), false, true⟩]).map
          FilterPtr.of ++ [.base]) :=
  filter_chains_complete _ _ (by decide) 0 0 7 (7, 8) (by decide)

end Visits

end NgxCpp
