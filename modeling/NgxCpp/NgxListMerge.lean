import NgxCpp.NgxListRange
import NgxCpp.NgxListShared

/-! `NgxList::merge` of any list into any list, itself among them. The loop reads
the source while it pushes to the destination: the elements of another list stay
where they are, and of a list that is its own source there is always one more. -/

namespace NgxCpp
open Foundation

variable {T : Type}

namespace NgxList

/-- What a merge of a list that shows `ys` into a list that shows `xs` ends with:
all of `ys` appended, or a throw after a prefix, and that for want of memory. -/
def Merged (m : ListMem T) (d s : Nat) (xs ys : List T) :
    Outcome NgxException (ListMem T) Unit → Prop
  | .ok _ m' => m'.shown d = some (xs ++ ys) ∧ (d ≠ s → m'.shown s = some ys)
  | .raised _ m' => (∃ zs, zs <+: ys ∧ m'.shown d = some (xs ++ zs)) ∧
      (d ≠ s → m'.shown s = some ys) ∧ ¬ m.Generous
  | .undefined => False
  | .exhausted => False

/-- However the pool answers, the merge of `s` into `d` comes to such an end. -/
def MergeAppends (m : ListMem T) (d s : Nat) : Prop :=
  ∀ xs ys grants, m.shown d = some xs → m.shown s = some ys →
    ∃ fuel, Merged { m with grants } d s xs ys (mergeWithin fuel d s { m with grants })

def Usable (m : ListMem T) (hdr : NgxListT) : Prop :=
  hdr.nalloc ≠ 0 ∧ ∃ first a, m.parts.read hdr.part = some first ∧ first.elts = some a

end NgxList

section Position

variable {x : T}

theorem position_append {views : List (PartView T)} {n : Nat} (rest : List (PartView T))
    (inside : n < (elemsOf views).length) : position (views ++ rest) n = position views n := by
  induction views generalizing n with
  | nil => simp [elemsOf] at inside
  | cons v vs ih =>
    rw [List.cons_append, position, position]
    by_cases here : n < v.elems.length
    · rw [if_pos here, if_pos here]
    · rw [if_neg here, if_neg here]
      refine ih ?_
      simp only [elemsOf, List.flatMap_cons, List.length_append] at inside ⊢
      omega

theorem position_last {front : List (PartView T)} {v : PartView T} {n : Nat}
    (inside : n < (elemsOf (front ++ [v])).length) :
    position (front ++ [{ v with elems := v.elems ++ [x] }]) n = position (front ++ [v]) n := by
  induction front generalizing n with
  | nil =>
    have here : n < v.elems.length := by simpa [elemsOf] using inside
    have later : n < (v.elems ++ [x]).length := by
      rw [List.length_append]
      omega
    simp only [List.nil_append, position, if_pos here, if_pos later]
  | cons w front ih =>
    rw [List.cons_append, List.cons_append, position, position]
    by_cases here : n < w.elems.length
    · rw [if_pos here, if_pos here]
    · rw [if_neg here, if_neg here]
      refine ih ?_
      simp only [List.cons_append, elemsOf, List.flatMap_cons, List.length_append] at inside ⊢
      omega

end Position

namespace NgxList

variable {m m' : ListMem T} {d s : Nat} {sh shd shs : ListShape T}

theorem mergeWithin_eq (rep : Represents m s shs) (some : shs.elems ≠ []) (d fuel : Nat) :
    mergeWithin fuel d s m = visitFrom id (assign d) fuel (position shs.views 0) m := by
  have begun : Exec.view id (beginIter s) m = .ok (position shs.views 0) m :=
    Exec.view_ok (rep.beginIter_of_ne_nil some)
  rw [mergeWithin, visitWithin, Exec.bind_ok _ begun]

/-- A list merged into itself is never done: each step adds the element it needs
for the next one. -/
theorem visitFrom_self (rep : Represents m d sh) (generous : m.Generous) (fuel : Nat) {n : Nat}
    (inside : n < sh.elems.length) :
    visitFrom id (assign d) fuel (position sh.views n) m = .exhausted := by
  induction fuel generalizing m sh n with
  | zero => rfl
  | succ fuel ih =>
    obtain ⟨slot, -, at_n, loaded⟩ := rep.dereference_position inside
    obtain ⟨shown, -⟩ := Exec.deref_eq_ok.mp loaded
    obtain ⟨m', pushed, generous'⟩ := rep.push_generous generous sh.elems[n]
    have assigned : assign d slot m = .ok () m' := (merge_visitor shown).trans pushed
    have grown : ∃ sh', Represents m' d sh' ∧ sh'.elems = sh.elems ++ [sh.elems[n]] ∧
        position sh'.views n = position sh.views n := by
      obtain ⟨-, rep'⟩ | rep' := rep.push_cases pushed
      · exact ⟨_, rep', sh.elems_grow _, position_last inside⟩
      · exact ⟨_, rep', sh.elems_extend _ _ _, position_append _ inside⟩
    obtain ⟨sh', rep', elems, same⟩ := grown
    have longer : sh'.elems.length = sh.elems.length + 1 := by simp [elems]
    have some : sh'.elems ≠ [] := List.ne_nil_of_length_pos (by omega)
    have moved := rep'.increment_position (rep'.views_filled some) (n := n) (by omega)
    rw [same] at moved
    rw [visitFrom, Exec.bind_ok _ (Exec.view_ok (rep.valid_position inside)), if_pos rfl,
      Exec.bind_ok _ (Exec.view_ok at_n), Exec.bind_ok _ assigned,
      Exec.bind_ok _ (Exec.view_ok moved)]
    exact ih rep' generous' (by omega)

theorem mergeWithin_self (rep : Represents m d sh) (generous : m.Generous) (some : sh.elems ≠ [])
    (fuel : Nat) : mergeWithin fuel d d m = .exhausted := by
  rw [mergeWithin_eq rep some]
  exact visitFrom_self rep generous fuel (List.length_pos_iff.mpr some)

/-- The two lists of a merge, neither of which writes what the other shows. -/
structure Pair (m : ListMem T) (d s : Nat) (shd shs : ListShape T) : Prop where
  left : Represents m d shd
  right : Represents m s shs
  behind : ListShape.Behind shd shs

namespace Pair

theorem push (pair : Pair m d s shd shs) (different : d ≠ s) {x : T}
    (pushed : NgxList.push d x m = .ok () m') :
    ∃ sh', Pair m' d s sh' shs ∧ sh'.elems = shd.elems ++ [x] := by
  have kept := pair.left.keep_push pair.right different.symm pair.behind pushed
  obtain ⟨-, grown⟩ | extended := pair.left.push_cases pushed
  · exact ⟨_, ⟨grown, kept, pair.behind.grow⟩, shd.elems_grow x⟩
  · exact ⟨_, ⟨extended, kept, .extend pair.right.fresh⟩, shd.elems_extend _ _ x⟩

theorem assign {slot : Slot} {x : T} (pair : Pair m d s shd shs) (different : d ≠ s)
    (shown : m.load slot = some x) :
    (∃ m' sh', NgxList.assign d slot m = .ok () m' ∧ Pair m' d s sh' shs ∧
        sh'.elems = shd.elems ++ [x] ∧ (m.Generous → m'.Generous)) ∨
      (¬ m.Generous ∧
        ∃ e grants, NgxList.assign d slot m = .raised e { m with grants }) := by
  have same : NgxList.assign d slot m = NgxList.push d x m := merge_visitor shown
  obtain ⟨m', pushed⟩ | ⟨grants, thrown⟩ := pair.left.push_total x
  · have calm : m.Generous → m'.Generous := fun generous => by
      obtain ⟨m2, pushed2, generous2⟩ := pair.left.push_generous generous x
      rw [pushed] at pushed2
      obtain ⟨-, rfl⟩ := Outcome.ok.inj pushed2
      exact generous2
    obtain ⟨sh', pair', elems⟩ := pair.push different pushed
    exact .inl ⟨m', sh', same.trans pushed, pair', elems, calm⟩
  · refine .inr ⟨fun generous => ?_, _, grants, same.trans thrown⟩
    obtain ⟨m', pushed, -⟩ := pair.left.push_generous generous x
    rw [thrown] at pushed
    simp at pushed

theorem grants (pair : Pair m d s shd shs) (grants : List Bool) :
    Pair { m with grants } d s shd shs :=
  ⟨pair.left.grants grants, pair.right.grants grants, pair.behind⟩

theorem each {slots : List Slot} {ys : List T} (pair : Pair m d s shd shs) (different : d ≠ s)
    (loads : ∀ m : ListMem T, Represents m s shs →
      List.Forall₂ (fun slot y => m.load slot = some y) slots ys) :
    (∃ m' sh', Exec.each (NgxList.assign d) slots m = .ok () m' ∧ Pair m' d s sh' shs ∧
        sh'.elems = shd.elems ++ ys) ∨
      (¬ m.Generous ∧ ∃ e m' sh' zs, Exec.each (NgxList.assign d) slots m = .raised e m' ∧
        Pair m' d s sh' shs ∧ zs <+: ys ∧ sh'.elems = shd.elems ++ zs) := by
  have here := loads m pair.right
  induction slots generalizing m ys shd with
  | nil =>
    cases here
    exact .inl ⟨m, shd, rfl, pair, by simp⟩
  | cons slot slots ih =>
    cases here with
    | @cons _ y _ ys shown rest =>
      obtain ⟨m', sh', done, pair', elems, calm⟩ | ⟨poor, e, grants, thrown⟩ :=
        pair.assign different shown
      · rw [Exec.each_cons_ok done]
        have later : ∀ m : ListMem T, Represents m s shs →
            List.Forall₂ (fun slot y => m.load slot = some y) slots ys :=
          fun m rep => (List.forall₂_cons.mp (loads m rep)).2
        obtain ⟨m2, sh2, run, pair2, elems2⟩ | ⟨poor, e, m2, sh2, zs, run, pair2, pre, elems2⟩ :=
          ih pair' later (later m' pair'.right)
        · exact .inl ⟨m2, sh2, run, pair2, by simp [elems2, elems]⟩
        · refine .inr
            ⟨fun generous => poor (calm generous), e, m2, sh2, y :: zs, run, pair2, ?_, ?_⟩
          · exact List.prefix_cons_inj y |>.mpr pre
          · simp [elems2, elems]
      · exact .inr ⟨poor, e, _, shd, [], Exec.bind_raised _ thrown, pair.grants grants,
          List.nil_prefix, by simp⟩

theorem merged (pair : Pair m d s shd shs) (different : d ≠ s) (some : shs.elems ≠ []) :
    Merged m d s shd.elems shs.elems (mergeWithin (shs.elems.length + 1) d s m) := by
  have kept : ∀ slot ∈ slotsOf shs.views, ∀ m m' : ListMem T, (∃ sh, Pair m d s sh shs) →
      NgxList.assign d slot m = .ok () m' → ∃ sh, Pair m' d s sh shs := by
    rintro slot member m m' ⟨sh, pair⟩ done
    obtain ⟨i, inSlots, rfl⟩ := List.getElem_of_mem member
    have shown := (List.forall₂_iff_get.mp pair.right.slots_load).2 i inSlots
      (length_slotsOf shs.views ▸ inSlots)
    obtain ⟨m2, sh2, done2, pair2, -⟩ | ⟨-, e, grants, thrown⟩ := pair.assign different shown
    · have both := done.symm.trans done2
      obtain ⟨-, rfl⟩ := Outcome.ok.inj both
      exact ⟨sh2, pair2⟩
    · have both := done.symm.trans thrown
      simp at both
  have rep : ∀ m : ListMem T, (∃ sh, Pair m d s sh shs) → Represents (id m) s shs :=
    fun _ ⟨_, pair⟩ => pair.right
  have run : mergeWithin (shs.elems.length + 1) d s m =
      Exec.each (NgxList.assign d) (slotsOf shs.views) m := by
    rw [mergeWithin_eq pair.right some]
    have loop := visitFrom_eq rep kept (pair.right.views_filled some) (shs.elems.length + 1)
      (Nat.zero_le _) (by omega) ⟨shd, pair⟩
    rwa [List.drop_zero] at loop
  rw [run]
  obtain ⟨m', sh', done, pair', elems⟩ | ⟨poor, e, m', sh', zs, thrown, pair', pre, elems⟩ :=
    pair.each different fun m rep => rep.slots_load
  · rw [done]
    exact ⟨elems ▸ pair'.left.shown, fun _ => pair'.right.shown⟩
  · rw [thrown]
    exact ⟨⟨zs, pre, elems ▸ pair'.left.shown⟩, fun _ => pair'.right.shown, poor⟩

end Pair

variable {own : Owners} {hdr : NgxListT} {first last : NgxListPart}

theorem visitFrom_none {σ : Type} (mem : σ → ListMem T) {v : Slot → Ngx σ Unit} {w : σ}
    (found : (mem w).parts.read hdr.part = some first)
    (none : first.elts = none ∨ first.nelts = 0) (fuel : Nat) :
    visitFrom mem v (fuel + 1) ⟨some hdr.part, first.elts, 0⟩ w = .ok () w := by
  have invalid : NgxListIterator.valid ⟨some hdr.part, first.elts, 0⟩ (mem w) =
      .ok false (mem w) := by
    cases elts : first.elts with
    | none => rfl
    | some a =>
      have zero : first.nelts = 0 := none.resolve_left (by simp [elts])
      refine (Exec.bind_ok _ (readPart_ok found)).trans ?_
      simp [zero]
  rw [visitFrom, Exec.bind_ok _ (Exec.view_ok invalid)]
  rfl

theorem shown_none (header : m.lists.read d = some hdr) (found : m.parts.read hdr.part = some first)
    (none : first.elts = none ∨ first.nelts = 0) : m.shown d = some [] := by
  obtain ⟨k, enough⟩ : ∃ k, m.fuel = k + 1 := ⟨_, rfl⟩
  rw [shown_eq_visitFrom header found, enough,
    visitFrom_none Prod.fst (w := (m, ([] : List T))) found none k]

theorem merged_none (header : m.lists.read s = some hdr)
    (found : m.parts.read hdr.part = some first) (none : first.elts = none ∨ first.nelts = 0) :
    mergeWithin 1 d s m = .ok () m := by
  have begun : Exec.view id (beginIter s) m = .ok ⟨some hdr.part, first.elts, 0⟩ m :=
    Exec.view_ok (beginIter_eq header found)
  rw [mergeWithin, visitWithin, Exec.bind_ok _ begun]
  exact visitFrom_none id found none 0

theorem shown_missing (missing : Missing m own d) : m.shown d = some [] := by
  obtain ⟨hdr, first, last, owned, broken⟩ := missing
  exact shown_none owned.header owned.at_first (.inl broken)

theorem not_merged_missing {ys : List T} (missing : Missing m own d) (generous : m.Generous)
    (some : ys ≠ []) (fuel : Nat) : ¬ Merged m d s [] ys (mergeWithin fuel d s m) := by
  have kept : Exec.Keeps (fun m => ∃ own, Missing m own d) (mergeWithin (T := T) fuel d s) := by
    refine keeps_mergeWithin fuel d s (fun m m' x => ?_) fun m m' e => ?_
    · rintro ⟨own, hdr, first, last, owned, broken⟩ pushed
      exact ⟨_, owned.push_missing broken pushed⟩
    · rintro ⟨own, hdr, first, last, owned, broken⟩ thrown
      obtain ⟨grants, rfl⟩ | ⟨room, elts, rfl⟩ :=
        prepare_raised_cases owned.header owned.at_last thrown
      · exact ⟨_, hdr, first, last, owned.frame (undisturbed_grants m grants own d) d, broken⟩
      · exact ⟨_, owned.counted_missing room elts⟩
  cases run : mergeWithin fuel d s m with
  | ok u m' =>
    rintro ⟨shown, -⟩
    obtain ⟨own', missing'⟩ := kept m ⟨own, missing⟩ m' (by rw [run]; rfl)
    rw [shown_missing missing', List.nil_append] at shown
    exact some (Option.some.inj shown).symm
  | raised e m' => exact fun merged => merged.2.2 generous
  | undefined => exact id
  | exhausted => exact id

theorem push_void {x : T} (header : m.lists.read d = some hdr)
    (part : m.parts.read hdr.last = some last) (full : last.nelts = hdr.nalloc)
    (void : hdr.nalloc = 0) (generous : m.Generous) : push d x m = .undefined := by
  have prepared := prepare_full_eq header part full
  rw [if_pos generous.granted, if_pos generous.tail.granted] at prepared
  have fresh : (m.linkPart d hdr last m.grants.tail.tail).arrays.read m.arrays.size = some [] := by
    simp [ListMem.linkPart, void]
  rw [push, Exec.bind_ok _ prepared]
  simp [storeSlot, ListMem.store, fresh]

theorem not_merged_void {xs ys : List T} (rep : Represents m s shs) (some : shs.elems ≠ [])
    (stuck : ∀ x, push d x m = .undefined) (fuel : Nat) :
    ¬ Merged m d s xs ys (mergeWithin fuel d s m) := by
  have inside := List.length_pos_iff.mpr some
  obtain ⟨slot, -, at_n, loaded⟩ := rep.dereference_position inside
  obtain ⟨shown, -⟩ := Exec.deref_eq_ok.mp loaded
  have assigned : assign d slot m = .undefined := (merge_visitor shown).trans (stuck _)
  rw [mergeWithin_eq rep some]
  cases fuel with
  | zero => exact id
  | succ fuel =>
    rw [visitFrom, Exec.bind_ok _ (Exec.view_ok (rep.valid_position inside)), if_pos rfl,
      Exec.bind_ok _ (Exec.view_ok at_n), Exec.bind_apply, assigned]
    exact id

theorem shown_grants (owned : Owned m own d hdr first last) (grants : List Bool) :
    ({ m with grants } : ListMem T).shown d = m.shown d := by
  obtain ⟨-, sh, rep, -⟩ | ⟨-, none⟩ := elements_cases owned
  · exact (rep.grants grants).shown.trans rep.shown.symm
  · have header : ({ m with grants } : ListMem T).lists.read d = some hdr := owned.header
    rw [shown_none header owned.at_first none, shown_none owned.header owned.at_first none]

theorem Pair.of_owners (repd : Represents m d shd) (reps : Represents m s shs)
    (mined : ∀ v ∈ shd.views, own.part v.addr = d ∧ own.array v.array = d)
    (mines : ∀ v ∈ shs.views, own.part v.addr = s ∧ own.array v.array = s) (different : d ≠ s) :
    Pair m d s shd shs where
  left := repd
  right := reps
  behind w member := by
    obtain ⟨partd, arrayd⟩ := mined _ (Represents.tail_mem shd)
    obtain ⟨parts, arrays⟩ := mines w member
    refine ⟨fun same => different ?_, fun same => absurd ?_ different⟩
    · rw [← partd, same, parts]
    · rw [← arrayd, same, arrays]

/-- A merge appends exactly when the source is another list, and the destination has
room for elements, or there is nothing to append. -/
theorem merge_appends_iff {hd hs : NgxListT} (reach : Reachable m)
    (header : m.lists.read d = some hd) (header' : m.lists.read s = some hs) :
    MergeAppends m d s ↔ ¬ HasElements m s hs ∨ (d ≠ s ∧ Usable m hd) := by
  obtain ⟨own, lists⟩ := reach.settled
  obtain ⟨first, last, owned⟩ := lists d hd header
  obtain ⟨first', last', owned'⟩ := lists s hs header'
  obtain ⟨has, shs, reps, mines, some⟩ | ⟨hasNot, none⟩ := elements_cases owned'
  · have poor : ({ m with grants := [] } : ListMem T).Generous := by simp [ListMem.Generous]
    by_cases same : d = s
    · subst same
      refine iff_of_false (fun appends => ?_) (by simp [has])
      obtain ⟨fuel, merged⟩ := appends _ _ [] reps.shown reps.shown
      rwa [mergeWithin_self (reps.grants []) poor some fuel] at merged
    · rcases owned.state with broken | ⟨void, single, zero⟩ | ⟨shd, repd, mined⟩
      · refine iff_of_false (fun appends => ?_) ?_
        · have missing : Missing { m with grants := [] } (own.claim m 0) d :=
            ⟨hd, first, last, owned.frame (undisturbed_grants m [] own d) 0, broken⟩
          have shown := shown_none header owned.at_first (.inl broken)
          obtain ⟨fuel, merged⟩ := appends [] shs.elems [] shown reps.shown
          exact not_merged_missing missing poor some fuel merged
        · rintro (hasNot | ⟨-, -, first2, a, found, elts⟩)
          · exact hasNot has
          · obtain rfl := Option.some.inj (owned.at_first.symm.trans found)
            simp [broken] at elts
      · refine iff_of_false (fun appends => ?_) ?_
        · have shown := shown_none header owned.at_first (.inr zero)
          obtain rfl := owned.last_eq_first single
          obtain ⟨fuel, merged⟩ := appends [] shs.elems [] shown reps.shown
          refine not_merged_void (reps.grants []) some (fun x => ?_) fuel merged
          exact push_void header owned.at_last (zero.trans void.symm) void poor
        · rintro (hasNot | ⟨-, room, -⟩)
          · exact hasNot has
          · exact room void
      · refine iff_of_true (fun xs ys grants shown shown' => ?_) (.inr ⟨same, ?_⟩)
        · obtain rfl := Option.some.inj (repd.shown.symm.trans shown)
          obtain rfl := Option.some.inj (reps.shown.symm.trans shown')
          have pair := (Pair.of_owners repd reps mined mines same).grants grants
          exact ⟨_, pair.merged same some⟩
        · obtain rfl := Option.some.inj (repd.header.symm.trans header)
          obtain ⟨v, after, -, -, found⟩ := repd.first_part
          exact ⟨Nat.ne_of_gt repd.nalloc_pos, _, v.array, found, rfl⟩
  · refine iff_of_true (fun xs ys grants shown shown' => ⟨1, ?_⟩) (.inl hasNot)
    have empty : ys = [] := by
      rw [shown_none header' owned'.at_first none] at shown'
      exact (Option.some.inj shown').symm
    subst empty
    have header2 : ({ m with grants } : ListMem T).lists.read s = some hs := header'
    rw [merged_none header2 owned'.at_first none]
    refine ⟨?_, fun _ => ?_⟩
    · rw [shown_grants owned, shown, List.append_nil]
    · rw [shown_grants owned', shown']

end NgxList

end NgxCpp
