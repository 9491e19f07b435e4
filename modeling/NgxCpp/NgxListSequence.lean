import NgxCpp.NgxListRefinement
import NgxCpp.Foundation.Ensures

/-! Runs of list operations against runs on sequences, and what the observers of
a list show of its sequence. -/

namespace NgxCpp
open Foundation
open Exec (Ends Leads)

variable {T S : Type}

namespace Represents

variable {m : ListMem T} {l : Nat} {sh : ListShape T}

theorem slots_load (rep : Represents m l sh) :
    List.Forall₂ (fun slot x => m.load slot = some x) (slotsOf sh.views) sh.elems := by
  rw [List.forall₂_iff_get]
  refine ⟨length_slotsOf sh.views, fun i inSlots inElems => ?_⟩
  obtain ⟨slot, place, -, loaded⟩ := rep.dereference_position inElems
  obtain ⟨bound, value⟩ := List.getElem?_eq_some_iff.mp place
  obtain ⟨shown, -⟩ := Exec.deref_eq_ok.mp loaded
  simpa [value] using shown

end Represents

namespace NgxList

def visitor (f : T → Ngx S Unit) (slot : Slot) : Ngx (ListMem T × S) Unit := do
  let x ← Exec.view Prod.fst (loadSlot slot)
  Exec.zoom Prod.snd (fun s w => (w.1, s)) (f x)

/-- `begin` after `k` increments. -/
def nth (l : Nat) : Nat → Ngx (ListMem T) NgxListIterator
  | 0 => beginIter l
  | k + 1 => do
    let it ← nth l k
    it.increment

theorem visitor_memory {f : T → Ngx S Unit} {slot : Slot} {w w' : ListMem T × S}
    (h : visitor f slot w = .ok () w') : w'.1 = w.1 := by
  obtain ⟨x, w1, loaded, visited⟩ := Exec.bind_eq_ok.mp h
  obtain ⟨s, read, rfl⟩ := Exec.zoom_eq_ok.mp loaded
  obtain ⟨s', done, rfl⟩ := Exec.zoom_eq_ok.mp visited
  rfl

theorem each_visitor {m : ListMem T} (f : T → Ngx S Unit) {slots : List Slot} {xs : List T}
    (shown : List.Forall₂ (fun slot x => m.load slot = some x) slots xs) (s : S) :
    Exec.each (visitor f) slots (m, s) =
      Exec.zoom Prod.snd (fun s w => (w.1, s)) (Exec.each f xs) (m, s) := by
  induction shown generalizing s with
  | nil => rfl
  | @cons slot x slots xs loaded _ ih =>
    have read : Exec.view Prod.fst (loadSlot slot) (m, s) = .ok x (m, s) :=
      Exec.view_ok (Exec.deref_some loaded)
    rw [Exec.each, Exec.bind_apply, visitor, Exec.bind_ok _ read]
    simp only [Exec.zoom, Exec.each, Exec.bind_apply]
    cases f x s with
    | ok u s' =>
      simp only
      rw [ih s', Exec.zoom]
    | raised e s' => rfl
    | undefined => rfl
    | exhausted => rfl

end NgxList

/-- The observers of list `l` show the sequence `xs`. -/
structure Observes (m : ListMem T) (l : Nat) (xs : List T) : Prop where
  visit : ∀ {S : Type} (f : T → Ngx S Unit) (s : S),
    NgxList.visit Prod.fst l (NgxList.visitor f) (m, s) =
      Exec.zoom Prod.snd (fun s w => (w.1, s)) (Exec.each f xs) (m, s)
  find : ∀ p : T → Bool, ∃ it, NgxList.find l p m = .ok it m ∧
    (it = NgxList.endIter ↔ ∀ x ∈ xs, p x = false) ∧
    ∀ inside : xs.findIdx p < xs.length, NgxList.nth l (xs.findIdx p) m = .ok it m ∧
      (it.dereference >>= loadSlot) m = .ok xs[xs.findIdx p] m
  empty : NgxList.empty l m = .ok xs.isEmpty m

namespace Represents

variable {m : ListMem T} {l n : Nat} {sh : ListShape T}

theorem nth_eq (rep : Represents m l sh) (inside : n < sh.elems.length) :
    NgxList.nth l n m = .ok (position sh.views n) m := by
  have some : sh.elems ≠ [] := List.ne_nil_of_length_pos (Nat.zero_lt_of_lt inside)
  induction n with
  | zero => exact rep.beginIter_of_ne_nil some
  | succ n ih =>
    have before : n < sh.elems.length := by omega
    rw [NgxList.nth, Exec.bind_ok _ (ih before)]
    exact rep.increment_position (rep.views_filled some) before

theorem position_ne_end (inside : n < sh.elems.length) :
    position sh.views n ≠ NgxList.endIter := by
  obtain ⟨_, _, _, _, _, _, at_n, -⟩ := position_split inside
  rw [at_n]
  intro same
  exact absurd (congrArg NgxListIterator.part same) (by simp [NgxList.endIter])

theorem empty_eq (rep : Represents m l sh) :
    NgxList.empty l m = .ok sh.elems.isEmpty m := by
  obtain ⟨v, after, shape, start, part⟩ := rep.first_part
  rw [NgxList.empty_apply rep.header part]
  by_cases none : sh.elems = []
  · obtain ⟨single, tailEmpty⟩ := rep.elems_eq_nil none
    have only : v = sh.tail := by
      have views := shape
      simp only [ListShape.views, single, List.nil_append] at views
      exact (List.cons.inj views).1.symm
    simp [none, only, tailEmpty]
  · have counted := rep.views_filled none v (by simp [shape])
    have some : sh.elems.isEmpty = false := by simpa using none
    rw [some]
    simp [counted]

theorem observes (rep : Represents m l sh) : Observes m l sh.elems where
  visit f s := by
    rw [visit_eq (fun w : ListMem T × _ => w.1 = m) (fun w same => same ▸ rep)
      (fun _ _ _ _ same h => (NgxList.visitor_memory h).trans same) rfl]
    exact NgxList.each_visitor f rep.slots_load s
  find p := by
    refine ⟨_, rep.find_eq p, ?_, fun inside => ?_⟩
    · constructor
      · intro atEnd x member
        by_contra holds
        have inside := List.findIdx_lt_length_of_exists ⟨x, member, by simpa using holds⟩
        exact position_ne_end inside atEnd
      · intro none
        refine position_end (Nat.le_of_eq (Eq.symm ?_))
        exact List.findIdx_eq_length.mpr none
    · refine ⟨rep.nth_eq inside, ?_⟩
      obtain ⟨slot, -, at_n, loaded⟩ := rep.dereference_position inside
      rw [Exec.bind_ok _ at_n, loaded]
  empty := rep.empty_eq

end Represents

def NgxList.record : Slot → Ngx (ListMem T × List T) Unit :=
  visitor fun x => Exec.modify (· ++ [x])

/-- The elements that `visit` shows of list `l`, in its order. -/
def ListMem.shown (m : ListMem T) (l : Nat) : Option (List T) :=
  match NgxList.visit Prod.fst l NgxList.record (m, []) with
  | .ok _ w => some w.2
  | _ => none

theorem each_append (xs ys : List T) :
    Exec.each (fun x => Exec.modify (· ++ [x])) xs ys =
      (.ok () (ys ++ xs) : Outcome NgxException (List T) Unit) := by
  induction xs generalizing ys with
  | nil => simp
  | cons x xs ih =>
    have first : (Exec.modify (· ++ [x]) : Ngx (List T) Unit) ys = .ok () (ys ++ [x]) := rfl
    rw [Exec.each, Exec.bind_ok _ first, ih, List.append_assoc]
    rfl

theorem Represents.shown {m : ListMem T} {l : Nat} {sh : ListShape T} (rep : Represents m l sh) :
    m.shown l = some sh.elems := by
  have seen := rep.observes.visit (fun x => Exec.modify (· ++ [x])) []
  rw [Exec.zoom_ok (each_append sh.elems [])] at seen
  simp only [ListMem.shown, NgxList.record, seen, List.nil_append]

namespace Shaped

variable {m m' : ListMem T} {shapes : List (ListShape T)} {l source : Nat} {sh sh' : ListShape T}

theorem source_kept (distinct : l ≠ source) (at_s : shapes[source]? = some sh') :
    (shapes.set l sh)[source]? = some sh' := by
  rw [List.getElem?_set_ne distinct, at_s]

theorem at_set (at_l : shapes[l]? = some sh) : (shapes.set l sh')[l]? = some sh' := by
  obtain ⟨inside, -⟩ := List.getElem?_eq_some_iff.mp at_l
  simp [inside]

theorem merge_step {s s' : ListMem T} {slot : Slot} {x : T} (shaped : Shaped s (shapes.set l sh))
    (at_l : (shapes.set l sh)[l]? = some sh) (shown : s.load slot = some x)
    (h : (NgxList.prepare l >>= fun place => loadSlot slot >>= fun y => storeSlot place y) s =
      .ok () s') :
    ∃ next, Shaped s' (shapes.set l next) ∧ next.elems = sh.elems ++ [x] := by
  rw [merge_visitor shown] at h
  obtain ⟨next, shaped', elems⟩ := shaped.push at_l h
  rw [List.set_set] at shaped'
  exact ⟨next, shaped', elems⟩

theorem merge_each (distinct : l ≠ source) (at_s : shapes[source]? = some sh')
    {slots : List Slot} {xs : List T}
    (loads : ∀ s : ListMem T, Represents s source sh' →
      List.Forall₂ (fun slot x => s.load slot = some x) slots xs)
    {s : ListMem T} (shaped : Shaped s (shapes.set l sh))
    (at_l : (shapes.set l sh)[l]? = some sh)
    (h : Exec.each (fun slot => NgxList.prepare l >>= fun place =>
      loadSlot slot >>= fun y => storeSlot place y) slots s = .ok () m') :
    ∃ next, Shaped m' (shapes.set l next) ∧ next.elems = sh.elems ++ xs := by
  have here := loads s (shaped.rep source sh' (source_kept distinct at_s))
  induction slots generalizing s xs sh with
  | nil =>
    cases here
    obtain ⟨-, rfl⟩ := Outcome.ok.inj h
    exact ⟨sh, shaped, by simp⟩
  | cons slot slots ih =>
    cases here with
    | @cons _ x _ xs shown rest =>
      rw [Exec.each, Exec.bind_eq_ok] at h
      obtain ⟨_, s', first, later⟩ := h
      obtain ⟨mid, shaped', elems⟩ := shaped.merge_step at_l shown first
      have at_mid : (shapes.set l mid)[l]? = some mid := by
        rw [← List.set_set (a := sh)]
        exact at_set at_l
      have rep' := shaped'.rep source sh' (source_kept distinct at_s)
      obtain ⟨next, done, total⟩ := ih (fun s rep => (List.forall₂_cons.mp (loads s rep)).2)
        shaped' at_mid later (List.forall₂_cons.mp (loads s' rep')).2
      exact ⟨next, done, by rw [total, elems, List.append_assoc]; rfl⟩

theorem merge (shaped : Shaped m shapes) (distinct : l ≠ source) (at_l : shapes[l]? = some sh)
    (at_s : shapes[source]? = some sh') (h : NgxList.merge l source m = .ok () m') :
    ∃ next, Shaped m' (shapes.set l next) ∧ next.elems = sh.elems ++ sh'.elems := by
  have same : shapes.set l sh = shapes := by
    obtain ⟨inside, value⟩ := List.getElem?_eq_some_iff.mp at_l
    rw [← value, List.set_getElem_self]
  let Inv : ListMem T → Prop := fun s => ∃ mid, Shaped s (shapes.set l mid)
  have start : Inv m := ⟨sh, same.symm ▸ shaped⟩
  have rep : ∀ s, Inv s → Represents (id s) source sh' := fun s ⟨mid, shaped'⟩ =>
    shaped'.rep source sh' (source_kept distinct at_s)
  have kept : ∀ slot ∈ slotsOf sh'.views, ∀ s s', Inv s →
      (NgxList.prepare l >>= fun place => loadSlot slot >>= fun y => storeSlot place y) s =
        .ok () s' → Inv s' := by
    intro slot member s s' inv step
    obtain ⟨mid, shaped'⟩ := inv
    obtain ⟨i, inSlots, rfl⟩ := List.getElem_of_mem member
    have shown := (List.forall₂_iff_get.mp (rep s ⟨mid, shaped'⟩).slots_load).2 i inSlots
      (length_slotsOf sh'.views ▸ inSlots)
    obtain ⟨next, done, -⟩ := shaped'.merge_step (at_set at_l) shown step
    exact ⟨next, done⟩
  rw [NgxList.merge, visit_eq Inv rep kept start] at h
  exact merge_each distinct at_s (fun s rep => rep.slots_load) (same.symm ▸ shaped)
    (same.symm ▸ at_l) h

end Shaped

inductive ListOp (T : Type) where
  | create (n : Nat)
  | push (l : Nat) (x : T)
  | clear (l : Nat)
  | reinit (l n : Nat)
  | merge (l source : Nat)

namespace ListOp

def run : ListOp T → Ngx (ListMem T) Unit
  | create n => do
    let _ ← NgxList.create n
    pure ()
  | push l x => NgxList.push l x
  | clear l => NgxList.clear l
  | reinit l n => NgxList.reinit l n
  | merge l source => NgxList.merge l source

/-- A list is created with room in its parts and merged with another list. -/
def Allowed : ListOp T → Prop
  | create n => 0 < n
  | merge l source => l ≠ source
  | _ => True

def apply (xss : List (List T)) : ListOp T → List (List T)
  | create _ => xss ++ [[]]
  | push l x => xss.modify l (· ++ [x])
  | clear l => xss.set l []
  | reinit l _ => xss.set l []
  | merge l source => xss.modify l (· ++ xss[source]?.getD [])

end ListOp

def Shows (m : ListMem T) (xss : List (List T)) : Prop :=
  ∃ shapes, Shaped m shapes ∧ shapes.map ListShape.elems = xss

namespace Shows

variable {m m' : ListMem T} {shapes : List (ListShape T)} {l source : Nat}
  {sh next : ListShape T}

theorem modify (shaped : Shaped m' (shapes.set l next)) (at_l : shapes[l]? = some sh)
    (f : List T → List T) (elems : next.elems = f sh.elems) :
    Shows m' ((shapes.map ListShape.elems).modify l f) := by
  refine ⟨_, shaped, ?_⟩
  apply List.ext_getElem?
  intro k
  by_cases same : l = k
  · subst same
    obtain ⟨inside, value⟩ := List.getElem?_eq_some_iff.mp at_l
    simp [inside, value, elems]
  · simp [same]

theorem reset (shaped : Shaped m' (shapes.set l next)) (elems : next.elems = []) :
    Shows m' ((shapes.map ListShape.elems).set l []) :=
  ⟨_, shaped, by rw [List.map_set, elems]⟩

theorem merge_missing (shaped : Shaped m shapes) (missing : shapes[l]? = none)
    (at_s : shapes[source]? = some sh) (h : NgxList.merge l source m = .ok () m') : m' = m := by
  have stuck : ∀ {slot : Slot} {s' : ListMem T}, (NgxList.prepare l >>= fun place =>
      loadSlot slot >>= fun y => storeSlot place y) m ≠ .ok () s' := by
    intro slot s' step
    obtain ⟨place, mid, prepared, -⟩ := Exec.bind_eq_ok.mp step
    obtain ⟨hdr, last, header, -⟩ := NgxList.prepare_header prepared
    obtain ⟨found, at_l, -⟩ := shaped.shape_of_header header
    simp [missing] at at_l
  rw [NgxList.merge, visit_eq (fun s => s = m)
    (fun s same => same ▸ shaped.rep source sh at_s)
    (fun slot _ s s' same step => absurd (same ▸ step) stuck) rfl] at h
  cases slots : slotsOf sh.views with
  | nil =>
    rw [slots] at h
    exact (Outcome.ok.inj h).2.symm
  | cons slot rest =>
    rw [slots, Exec.each, Exec.bind_eq_ok] at h
    obtain ⟨_, s', first, -⟩ := h
    exact absurd first stuck

theorem step {xss : List (List T)} {op : ListOp T} (shows : Shows m xss) (allowed : op.Allowed)
    (h : op.run m = .ok () m') : Shows m' (op.apply xss) := by
  obtain ⟨shapes, shaped, rfl⟩ := shows
  cases op with
  | create n =>
    obtain ⟨l, mid, created, done⟩ := Exec.bind_eq_ok.mp h
    obtain ⟨-, rfl⟩ := Outcome.ok.inj done
    obtain ⟨sh, shaped', elems⟩ := shaped.create allowed created
    exact ⟨_, shaped', by simp [ListOp.apply, elems]⟩
  | push l x =>
    obtain ⟨slot, mid, prepared, -⟩ := Exec.bind_eq_ok.mp h
    obtain ⟨hdr, last, header, -⟩ := NgxList.prepare_header prepared
    obtain ⟨sh, at_l, -⟩ := shaped.shape_of_header header
    obtain ⟨next, shaped', elems⟩ := shaped.push at_l h
    exact modify shaped' at_l (· ++ [x]) elems
  | clear l =>
    obtain ⟨hdr, mid, read, -⟩ := Exec.bind_eq_ok.mp h
    obtain ⟨header, -⟩ := Exec.deref_eq_ok.mp read
    obtain ⟨sh, at_l, -⟩ := shaped.shape_of_header header
    obtain ⟨next, shaped', elems⟩ := shaped.clear at_l h
    exact reset shaped' elems
  | reinit l n =>
    obtain ⟨hdr, mid, read, -⟩ := Exec.bind_eq_ok.mp h
    obtain ⟨header, -⟩ := Exec.deref_eq_ok.mp read
    obtain ⟨sh, at_l, -⟩ := shaped.shape_of_header header
    obtain ⟨next, shaped', elems⟩ := shaped.reinit at_l h
    exact reset shaped' elems
  | merge l source =>
    have begun : ∃ hdr, m.lists.read source = some hdr := by
      obtain ⟨fuel, mid, counted, visited⟩ := Exec.bind_eq_ok.mp h
      obtain ⟨-, rfl⟩ := Outcome.ok.inj counted
      obtain ⟨it, mid, started, -⟩ := Exec.bind_eq_ok.mp visited
      obtain ⟨s, started, -⟩ := Exec.zoom_eq_ok.mp started
      obtain ⟨hdr, mid, read, -⟩ := Exec.bind_eq_ok.mp started
      exact ⟨hdr, (Exec.deref_eq_ok.mp read).1⟩
    obtain ⟨hdr, header⟩ := begun
    obtain ⟨from_, at_s, -⟩ := shaped.shape_of_header header
    have source_elems : (shapes.map ListShape.elems)[source]?.getD [] = from_.elems := by
      simp [at_s]
    rw [ListOp.apply, source_elems]
    cases at_l : shapes[l]? with
    | none =>
      obtain rfl := merge_missing shaped at_l at_s h
      have outside : (shapes.map ListShape.elems).length ≤ l := by simpa using at_l
      exact ⟨shapes, shaped, (List.modify_eq_self outside).symm⟩
    | some sh =>
      obtain ⟨next, shaped', elems⟩ := shaped.merge allowed at_l at_s h
      exact modify shaped' at_l (· ++ from_.elems) elems

theorem start (grants : List Bool) : Shows { grants } ([] : List (List T)) := by
  refine ⟨[], ⟨rfl, ?_, ?_⟩, rfl⟩ <;> simp

theorem run {ops : List (ListOp T)} {grants : List Bool}
    (done : Exec.each ListOp.run ops { grants } = .ok () m) (allowed : ∀ op ∈ ops, op.Allowed) :
    Shows m (ops.foldl ListOp.apply []) :=
  (Exec.each_eq_ok.mp done).simulates (fun _ _ _ _ shows allowed h => step shows allowed h)
    allowed (start grants)

theorem observes {xss : List (List T)} {xs : List T} (shows : Shows m xss)
    (at_l : xss[l]? = some xs) : Observes m l xs := by
  obtain ⟨shapes, shaped, rfl⟩ := shows
  rw [List.getElem?_map, Option.map_eq_some_iff] at at_l
  obtain ⟨sh, found, rfl⟩ := at_l
  exact (shaped.rep l sh found).observes

end Shows

/-- After any run of list operations the observers of every list show the
sequence that the same operations on sequences give. -/
theorem listOps_refine_sequences {ops : List (ListOp T)} {grants : List Bool} {m : ListMem T}
    (done : Exec.each ListOp.run ops { grants } = .ok () m) (allowed : ∀ op ∈ ops, op.Allowed) :
    ∀ l xs, (ops.foldl ListOp.apply [])[l]? = some xs → Observes m l xs :=
  fun _ _ at_l => (Shows.run done allowed).observes at_l

theorem listOps_refine_sequences_merged :
    ∃ m : ListMem Nat, Observes m 0 [7, 8, 9] ∧ Observes m 1 [8, 9] := by
  let m : ListMem Nat :=
    { lists := ⟨[⟨0, 3, 1⟩, ⟨1, 1, 2⟩]⟩
      parts := ⟨[⟨some 0, 1, some 2⟩, ⟨some 1, 2, none⟩, ⟨some 2, 1, some 3⟩, ⟨some 3, 1, none⟩]⟩
      arrays := ⟨[[some 7], [some 8, some 9], [some 8], [some 9]]⟩ }
  let ops : List (ListOp Nat) :=
    [.create 1, .create 2, .push 0 7, .push 1 8, .push 1 9, .merge 0 1]
  have done : Exec.each ListOp.run ops { grants := [true] } = .ok () m := by decide +kernel
  have shown := listOps_refine_sequences done (by simp [ops, ListOp.Allowed])
  exact ⟨m, shown 0 _ rfl, shown 1 _ rfl⟩

def ListOp.Present (xss : List (List T)) : ListOp T → Prop
  | create _ => True
  | push l _ | clear l | reinit l _ => l < xss.length
  | merge l source => l < xss.length ∧ source < xss.length

section Granted

variable {m : ListMem T} {shapes : List (ListShape T)} {xss : List (List T)} {l source n : Nat}
  {sh sh' : ListShape T}

theorem ngxListInit_granted {hdr : NgxListT} {part : NgxListPart} (n : Nat)
    (header : m.lists.read l = some hdr) (found : m.parts.read hdr.part = some part)
    (generous : m.Generous) :
    ngxListInit l n m = .ok ngxOk (m.withArray l hdr n m.grants.tail) := by
  rw [ngxListInit_eq n header found, if_pos generous.granted]

theorem NgxList.create_succeeds (generous : m.Generous) (n : Nat) :
    Ends (NgxList.create n) m (fun _ m' => m'.Generous) fun _ _ => False := by
  have asked := palloc_eq m
  rw [generous.granted] at asked
  let unfilled : ListMem T := { m with
    lists := m.lists.alloc ⟨m.parts.size, m.parts.size, 0⟩
    parts := m.parts.alloc ⟨none, 0, none⟩
    grants := m.grants.tail }
  have header : unfilled.lists.read m.lists.size = some ⟨m.parts.size, m.parts.size, 0⟩ :=
    Heap.read_alloc_self
  have filled := ngxListInit_granted n header Heap.read_alloc_self generous.tail
  have made : ngxListCreate n m = .ok (some m.lists.size) (m.withList n m.grants.tail.tail) := by
    rw [ngxListCreate, Exec.bind_ok _ asked, if_pos rfl]
    exact Exec.bind_ok _ filled
  exact .bind_ok made (.pure generous.tail.tail)

theorem Represents.clear_succeeds (rep : Represents m l sh) (generous : m.Generous) :
    Ends (NgxList.clear l) m (fun _ m' => m'.Generous) fun _ _ => False := by
  obtain ⟨v, after, -, -, part⟩ := rep.first_part
  exact .bind_ok (readList_ok rep.header) (.bind_ok (readPart_ok part)
    (.bind_ok (Exec.modify_apply _ _) (.modify generous)))

theorem Represents.reinit_succeeds (rep : Represents m l sh) (generous : m.Generous) (n : Nat) :
    Ends (NgxList.reinit l n) m (fun _ m' => m'.Generous) fun _ _ => False := by
  obtain ⟨v, after, -, -, part⟩ := rep.first_part
  have done := ngxListInit_granted (if n = 0 then sh.hdr.nalloc else n) rep.header part generous
  exact .bind_ok (readList_ok rep.header) (.bind_ok done (.pure generous.tail))

theorem Shaped.merge_succeeds (shaped : Shaped m shapes) (distinct : l ≠ source)
    (at_l : shapes[l]? = some sh) (at_s : shapes[source]? = some sh') (generous : m.Generous) :
    Ends (NgxList.merge l source) m (fun _ m' => m'.Generous) fun _ _ => False := by
  let Inv : ListMem T → Prop := fun s => ∃ mid, Shaped s (shapes.set l mid) ∧ s.Generous
  have same : shapes.set l sh = shapes := by
    obtain ⟨inside, value⟩ := List.getElem?_eq_some_iff.mp at_l
    rw [← value, List.set_getElem_self]
  have start : Inv m := ⟨sh, same.symm ▸ shaped, generous⟩
  have rep : ∀ s, Inv s → Represents s source sh' := by
    rintro s ⟨mid, shaped', -⟩
    exact shaped'.rep source sh' (Shaped.source_kept distinct at_s)
  have body : ∀ slot ∈ slotsOf sh'.views, ∀ s, Inv s →
      Ends (NgxList.prepare l >>= fun place => loadSlot slot >>= fun y => storeSlot place y) s
        (fun _ => Inv) fun _ _ => False := by
    intro slot member s inv
    obtain ⟨i, inSlots, rfl⟩ := List.getElem_of_mem member
    have shown := (List.forall₂_iff_get.mp (rep s inv).slots_load).2 i inSlots
      (length_slotsOf sh'.views ▸ inSlots)
    obtain ⟨mid, shaped', calm⟩ := inv
    have at_mid : (shapes.set l mid)[l]? = some mid := Shaped.at_set at_l
    obtain ⟨s', pushed, calm'⟩ := (shaped'.rep l mid at_mid).push_generous calm _
    obtain ⟨next, shaped'', -⟩ := shaped'.push at_mid pushed
    rw [List.set_set] at shaped''
    exact .of_ok ((merge_visitor shown).trans pushed) ⟨next, shaped'', calm'⟩
  have run : NgxList.merge l source m = Exec.each (fun slot =>
      NgxList.prepare l >>= fun place => loadSlot slot >>= fun y => storeSlot place y)
      (slotsOf sh'.views) m :=
    visit_eq Inv rep (fun slot member s s' inv step => (body slot member s inv).ok step) start
  have each := Leads.each (slotsOf sh'.views) body start
  rw [Ends, Leads, run]
  refine each.imp ?_
  rintro - s ⟨mid, -, calm⟩
  exact calm

/-- An operation on lists that are there returns when the pool grants what it asks for. -/
theorem Shows.succeeds {op : ListOp T} (shows : Shows m xss) (generous : m.Generous)
    (allowed : op.Allowed) (present : op.Present xss) :
    ∃ m', op.run m = .ok () m' ∧ m'.Generous := by
  obtain ⟨shapes, shaped, rfl⟩ := shows
  have at_list : ∀ {l}, l < (shapes.map ListShape.elems).length → ∃ sh, shapes[l]? = some sh :=
    fun inside => ⟨_, List.getElem?_eq_getElem (by simpa using inside)⟩
  suffices ends : Ends op.run m (fun _ m' => m'.Generous) fun _ _ => False by
    obtain ⟨⟨⟩, m', done, calm⟩ := ends.returns
    exact ⟨m', done, calm⟩
  cases op with
  | create n => exact (NgxList.create_succeeds generous n).bind fun _ _ calm => .pure calm
  | push l x =>
    obtain ⟨sh, at_l⟩ := at_list present
    obtain ⟨m', pushed, calm⟩ := (shaped.rep l sh at_l).push_generous generous x
    exact .of_ok pushed calm
  | clear l =>
    obtain ⟨sh, at_l⟩ := at_list present
    exact (shaped.rep l sh at_l).clear_succeeds generous
  | reinit l n =>
    obtain ⟨sh, at_l⟩ := at_list present
    exact (shaped.rep l sh at_l).reinit_succeeds generous n
  | merge l source =>
    obtain ⟨sh, at_l⟩ := at_list present.1
    obtain ⟨sh', at_s⟩ := at_list present.2
    exact shaped.merge_succeeds allowed at_l at_s generous

theorem Shows.succeed {ops : List (ListOp T)} (shows : Shows m xss) (generous : m.Generous)
    (fits : Along ListOp.apply (fun xss op => op.Allowed ∧ op.Present xss) xss ops) :
    ∃ m', Exec.each ListOp.run ops m = .ok () m' := by
  induction ops generalizing m xss with
  | nil => exact ⟨m, rfl⟩
  | cons op ops ih =>
    obtain ⟨⟨allowed, present⟩, later⟩ := fits
    obtain ⟨m', done, calm⟩ := shows.succeeds generous allowed present
    obtain ⟨m'', rest⟩ := ih (shows.step allowed done) calm later
    exact ⟨m'', (Exec.each_cons_ok done).trans rest⟩

end Granted

/-- With a pool that grants what it is asked for, a run on lists that are there returns. -/
theorem listOps_succeed {ops : List (ListOp T)} {grants : List Bool}
    (generous : ∀ granted ∈ grants, granted = true)
    (fits : Along ListOp.apply (fun xss op => op.Allowed ∧ op.Present xss) [] ops) :
    ∃ m, Exec.each ListOp.run ops { grants } = .ok () m :=
  (Shows.start grants).succeed generous fits

end NgxCpp
