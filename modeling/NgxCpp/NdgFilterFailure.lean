import NgxCpp.NdgFilterRun

/-! What `NdgFilterHandler` leaves behind when it throws. Both filters set the flag
before they allocate, so a refusal that comes after it leaves the flag ahead of the
work. -/

namespace NgxCpp
open Foundation

section Afford

variable {T : Type}

/-- The pool's answers reach for `n` pushes into a list with `free` slots left in
its last part: each further part takes two. -/
def affords (nalloc : Nat) : Nat → Nat → List Bool → Bool
  | 0, _, _ => true
  | n + 1, free + 1, grants => affords nalloc n free grants
  | n + 1, 0, grants => granted grants && granted grants.tail &&
      affords nalloc n (nalloc - 1) grants.tail.tail

namespace ListShape

def free (sh : ListShape T) : Nat := sh.hdr.nalloc - sh.tail.elems.length

def affords (sh : ListShape T) (n : Nat) (grants : List Bool) : Bool :=
  NgxCpp.affords sh.hdr.nalloc n sh.free grants

end ListShape

theorem Represents.push_affords {m : ListMem T} {l : Nat} {sh : ListShape T}
    (rep : Represents m l sh) (x : T) (n : Nat) :
    (∃ m' sh', NgxList.push l x m = .ok () m' ∧ Represents m' l sh' ∧
        sh.affords (n + 1) m.grants = sh'.affords n m'.grants) ∨
      (∃ grants, NgxList.push l x m = .raised ⟨ngxError⟩ { m with grants }) ∧
        sh.affords (n + 1) m.grants = false := by
  obtain ⟨last, slots, part, elts, nelts, stored, starts, length⟩ := rep.last_part
  have fits := rep.tail_fits
  by_cases full : last.nelts = sh.hdr.nalloc
  · have none : sh.free = 0 := by rw [ListShape.free, ← nelts, full, Nat.sub_self]
    have outcome := NgxList.push_full_eq (x := x) rep.header part full rep.nalloc_pos
    rw [ListShape.affords, none, NgxCpp.affords]
    cases first : granted m.grants with
    | false =>
      rw [first] at outcome
      exact .inr ⟨⟨_, outcome⟩, rfl⟩
    | true =>
      cases second : granted m.grants.tail with
      | false =>
        rw [first, second] at outcome
        exact .inr ⟨⟨_, outcome⟩, rfl⟩
      | true =>
        rw [first, second] at outcome
        exact .inl ⟨_, _, outcome, rep.extend m.grants.tail.tail part elts nelts full, rfl⟩
  · have inside : last.nelts < slots.length := by omega
    have some : sh.free = (sh.grow x).free + 1 := by
      simp only [ListShape.free, ListShape.grow, List.length_append, List.length_singleton]
      omega
    refine .inl ⟨_, sh.grow x, NgxList.push_room rep.header part full elts stored inside,
      rep.grow part elts nelts stored starts inside length, ?_⟩
    rw [ListShape.affords, some]
    rfl

end Afford

def FilterWorld.answering (w : FilterWorld) (headers chains : List Bool) : FilterWorld :=
  { w with
    headers := { w.headers with grants := headers }
    chains := { w.chains with grants := chains } }

namespace NdgFilterHandler

/-- Nothing that a call was given has changed, and later calls do what they would
have done without it. -/
structure NoTrace (conf : NdgFilterConf) (input : Option Nat) (w w' : FilterWorld) : Prop where
  flag : w'.ctx = w.ctx
  headers : w'.headers.shown w'.headersOut = w.headers.shown w.headersOut
  length : w'.contentLength = w.contentLength
  chain : w'.chains.shown input = w.chains.shown input
  later : ∀ rcs bodies answers answers', filterRun conf rcs bodies (w'.answering answers answers') =
    filterRun conf rcs bodies (w.answering answers answers')

/-- A header filter that throws answers with the error and leaves no trace. -/
def HeaderTraceless (conf : NdgFilterConf) (input : Option Nat) (w : FilterWorld) : Prop :=
  ∀ e w', doHeaderFilter conf w = .raised e w' →
    (∀ next, headerFilter conf next w = .ok e.code w') ∧ NoTrace conf input w w'

def BodyTraceless (conf : NdgFilterConf) (input : Option Nat) (w : FilterWorld) : Prop :=
  ∀ e w', doBodyFilter conf input w = .raised e w' →
    (∀ next, bodyFilter conf next input w = .ok e.code w') ∧ NoTrace conf input w w'

/-- The context itself is refused, or the headers are no longer due, or the pool
has memory for all of them. -/
def HeaderSafe (conf : NdgFilterConf) (w : FilterWorld) (sh : ListShape NgxTableElt) : Prop :=
  (w.ctx = none ∧ granted w.chains.grants = false) ∨ (∃ i, w.ctx = some i ∧ i ≠ 0) ∨
    sh.affords (NgxKvArray.size conf.headers) w.headers.grants = true

/-- The footer is not due, or no buffer is the last one, or the pool has memory for
the footer's buffer and, unless that replaces an empty one, for its link. -/
def BodySafe (conf : NdgFilterConf) (w : FilterWorld) (bs : List NgxBufT) : Prop :=
  NgxString.empty conf.footer = true ∨ w.ctx ≠ some 1 ∨
    ∀ b, bs.find? NgxBufT.lastBuf = some b → granted w.chains.grants = true ∧
      (b.size = 0 ∨ granted w.chains.grants.tail = true)

variable {conf : NdgFilterConf} {w w' : FilterWorld} {sh : ListShape NgxTableElt}
  {input : Option Nat} {bs : List NgxBufT} {e : NgxException}

theorem headerFilter_raised (failed : doHeaderFilter conf w = .raised e w')
    (next : Ngx FilterWorld Int) : headerFilter conf next w = .ok e.code w' :=
  Exec.catching_raised _ (Exec.bind_raised _ failed)

theorem bodyFilter_raised (failed : doBodyFilter conf input w = .raised e w')
    (next : Option Nat → Ngx FilterWorld Int) : bodyFilter conf next input w = .ok e.code w' :=
  Exec.catching_raised _ (Exec.bind_raised _ failed)

def refused (w : FilterWorld) : FilterWorld :=
  { w with chains := { w.chains with grants := w.chains.grants.tail } }

theorem refused_noTrace (conf : NdgFilterConf) (input : Option Nat) (w : FilterWorld) :
    NoTrace conf input w (refused w) where
  flag := rfl
  headers := rfl
  length := rfl
  chain := w.chains.shown_grants _ input
  later _ _ _ _ := rfl

theorem flag_none (fresh : w.ctx = none) : flag w =
    if granted w.chains.grants then .ok 0 { refused w with ctx := some 0 }
    else .raised ⟨ngxError⟩ (refused w) := by
  have asked : onChains chainPalloc w = .ok (granted w.chains.grants) (refused w) :=
    Exec.zoom_ok (chainPalloc_eq w.chains)
  rw [flag, fresh]
  dsimp only
  rw [Exec.bind_ok _ asked]
  cases granted w.chains.grants <;> rfl

section Header

theorem headerTraceless_of_ok (done : doHeaderFilter conf w = .ok () w') :
    HeaderTraceless conf input w := by
  intro e w'' raised
  rw [done] at raised
  cases raised

theorem addHeaders_affords (kvs before : List NgxKeyVal)
    (headers : conf.headers = some (before ++ kvs)) (rep : Represents w.headers w.headersOut sh) :
    (∃ m, Exec.each (addHeader conf) (indicesFrom before kvs) w = .ok () { w with headers := m }) ∧
        sh.affords kvs.length w.headers.grants = true ∨
      (∃ m, Exec.each (addHeader conf) (indicesFrom before kvs) w =
        .raised ⟨ngxError⟩ { w with headers := m }) ∧
        sh.affords kvs.length w.headers.grants = false := by
  induction kvs generalizing before w sh with
  | nil => exact .inl ⟨⟨w.headers, rfl⟩, rfl⟩
  | cons kv kvs ih =>
    have adding := addHeader_eq (w := w) headers
    rw [List.length_cons, indicesFrom_cons]
    obtain ⟨m1, sh1, pushed, rep1, same⟩ | ⟨⟨grants, failed⟩, short⟩ :=
      rep.push_affords ⟨1, kv.key, kv.value⟩ kvs.length
    · rw [Exec.each_cons_ok (adding.trans (Exec.zoom_ok pushed)), same]
      exact ih (w := { w with headers := m1 }) (before ++ [kv]) (by simpa using headers) rep1
    · rw [onHeaders, Exec.zoom, failed] at adding
      exact .inr ⟨⟨_, Exec.bind_raised _ adding⟩, short⟩

theorem doHeaderFilter_due (due : flag w = .ok 0 w') : doHeaderFilter conf w = (do
    Exec.each (addHeader conf) (List.range (NgxKvArray.size conf.headers))
    if NgxString.empty conf.footer then pure ()
    else
      let len ← Exec.gets FilterWorld.contentLength
      if 0 < len then setLength (len + conf.footer.len) else pure ()) { w' with ctx := some 1 } := by
  rw [doHeaderFilter, Exec.bind_ok _ due, if_neg (by decide), Exec.bind_ok _ (setFlag_ok 1 w')]

theorem doHeaderFilter_due_cases (due : flag w = .ok 0 w')
    (rep : Represents w'.headers w'.headersOut sh) :
    (∃ w'', doHeaderFilter conf w = .ok () w'') ∧
        sh.affords (NgxKvArray.size conf.headers) w'.headers.grants = true ∨
      (∃ m, doHeaderFilter conf w = .raised ⟨ngxError⟩ { w' with ctx := some 1, headers := m }) ∧
        sh.affords (NgxKvArray.size conf.headers) w'.headers.grants = false := by
  have added : (∃ m, Exec.each (addHeader conf) (List.range (NgxKvArray.size conf.headers))
        { w' with ctx := some 1 } = .ok () { w' with ctx := some 1, headers := m }) ∧
          sh.affords (NgxKvArray.size conf.headers) w'.headers.grants = true ∨
      (∃ m, Exec.each (addHeader conf) (List.range (NgxKvArray.size conf.headers))
        { w' with ctx := some 1 } = .raised ⟨ngxError⟩ { w' with ctx := some 1, headers := m }) ∧
          sh.affords (NgxKvArray.size conf.headers) w'.headers.grants = false := by
    cases headers : conf.headers with
    | none => exact .inl ⟨⟨w'.headers, rfl⟩, rfl⟩
    | some kvs =>
      have run := addHeaders_affords (w := { w' with ctx := some 1 }) kvs [] headers rep
      rwa [indicesFrom_nil] at run
  rw [doHeaderFilter_due due]
  obtain ⟨⟨m, run⟩, enough⟩ | ⟨⟨m, failed⟩, short⟩ := added
  · rw [Exec.bind_ok _ run]
    refine .inl ⟨?_, enough⟩
    split
    · exact ⟨_, rfl⟩
    · rw [Exec.bind_ok _ (Exec.gets_apply _ _)]
      split <;> exact ⟨_, rfl⟩
  · exact .inr ⟨⟨m, Exec.bind_raised _ failed⟩, short⟩

/-- Once the flag is 0, the pool's answers decide. -/
theorem headerTraceless_due (due : flag w = .ok 0 w') (rep : Represents w'.headers w'.headersOut sh)
    (unset : w.ctx ≠ some 1) : HeaderTraceless conf input w ↔
      sh.affords (NgxKvArray.size conf.headers) w'.headers.grants = true := by
  obtain ⟨⟨w'', run⟩, enough⟩ | ⟨⟨m, failed⟩, short⟩ := doHeaderFilter_due_cases due rep
  · exact iff_of_true (headerTraceless_of_ok run) enough
  · refine iff_of_false (fun traceless => ?_) (by simp [short])
    exact unset (traceless _ _ failed).2.flag.symm

theorem headerTraceless_iff (conf : NdgFilterConf) (input : Option Nat)
    (rep : Represents w.headers w.headersOut sh) :
    HeaderTraceless conf input w ↔ HeaderSafe conf w sh := by
  cases ctx : w.ctx with
  | none =>
    have found := flag_none ctx
    cases answer : granted w.chains.grants with
    | false =>
      rw [answer] at found
      have failed : doHeaderFilter conf w = .raised ⟨ngxError⟩ (refused w) :=
        Exec.bind_raised _ found
      refine iff_of_true (fun e w' raised => ?_) (.inl ⟨ctx, answer⟩)
      have same := failed.symm.trans raised
      cases same
      exact ⟨headerFilter_raised failed, refused_noTrace conf input w⟩
    | true =>
      rw [answer, if_pos rfl] at found
      rw [headerTraceless_due found rep (by simp [ctx])]
      simp [HeaderSafe, ctx, answer, refused]
  | some i =>
    have found := flag_set ctx
    by_cases due : i = 0
    · subst due
      rw [headerTraceless_due found rep (by simp [ctx])]
      simp [HeaderSafe, ctx]
    · have done : doHeaderFilter conf w = .ok () w := by
        rw [doHeaderFilter, Exec.bind_ok _ found, if_pos due]
        rfl
      exact iff_of_true (headerTraceless_of_ok done) (.inr (.inl ⟨i, ctx, due⟩))

end Header

section Body

theorem bodyTraceless_of_ok (done : doBodyFilter conf input w = .ok () w') :
    BodyTraceless conf input w := by
  intro e w'' raised
  rw [done] at raised
  cases raised

/-- Once the footer is due, the pool's answers decide. -/
theorem bodyTraceless_due (footer : NgxString.empty conf.footer = false) (due : w.ctx = some 1)
    (shown : w.chains.shown input = some bs) : BodyTraceless conf input w ↔
      ∀ b, bs.find? NgxBufT.lastBuf = some b → granted w.chains.grants = true ∧
        (b.size = 0 ∨ granted w.chains.grants.tail = true) := by
  obtain ⟨views, chained, rfl⟩ := Chained.of_shown shown
  have outcome := doBodyFilter_due footer due chained
  have found : (views.map LinkView.value).find? NgxBufT.lastBuf =
      (views.find? fun v => v.value.lastBuf).map LinkView.value := by
    rw [List.find?_map]
    rfl
  rw [found]
  cases last : views.find? fun v => v.value.lastBuf with
  | none =>
    rw [last] at outcome
    exact iff_of_true (bodyTraceless_of_ok outcome) (by simp)
  | some v =>
    obtain ⟨next, link, stored⟩ := chained.held v (List.mem_of_find?_eq_some last)
    rw [last] at outcome
    have attach := attachFooter_outcome conf link stored
    have failing : ∀ e m, attachFooter conf v.addr w.chains = .raised e m →
        ¬ BodyTraceless conf input w := by
      intro e m raised traceless
      have thrown : doBodyFilter conf input w =
          .raised e { w with ctx := some 2, chains := m } := by
        rw [outcome]
        simp only [onChains, Exec.zoom, raised]
      have flag := (traceless _ _ thrown).2.flag
      rw [due] at flag
      simp at flag
    have returning : ∀ m, attachFooter conf v.addr w.chains = .ok () m →
        BodyTraceless conf input w := fun m done =>
      bodyTraceless_of_ok (outcome.trans (Exec.zoom_ok done))
    simp only [Option.map_some, Option.some.injEq, forall_eq']
    cases first : granted w.chains.grants with
    | false =>
      rw [first] at attach
      exact iff_of_false (failing _ _ attach) (by simp)
    | true =>
      rw [first, if_pos rfl] at attach
      by_cases empty : v.value.size = 0
      · rw [if_pos empty] at attach
        exact iff_of_true (returning _ attach) ⟨rfl, .inl empty⟩
      · rw [if_neg empty] at attach
        cases second : granted w.chains.grants.tail with
        | false =>
          rw [second] at attach
          exact iff_of_false (failing _ _ attach) (by simp [empty])
        | true =>
          rw [second, if_pos rfl] at attach
          exact iff_of_true (returning _ attach) ⟨rfl, .inr rfl⟩

theorem bodyTraceless_iff (conf : NdgFilterConf) (shown : w.chains.shown input = some bs) :
    BodyTraceless conf input w ↔ BodySafe conf w bs := by
  cases footer : NgxString.empty conf.footer with
  | true => exact iff_of_true (bodyTraceless_of_ok (doBodyFilter_empty footer input)) (.inl footer)
  | false =>
    cases ctx : w.ctx with
    | none =>
      refine iff_of_true ?_ (.inr (.inl (by simp [ctx])))
      have found := flag_none ctx
      cases answer : granted w.chains.grants with
      | false =>
        rw [answer] at found
        have failed : doBodyFilter conf input w = .raised ⟨ngxError⟩ (refused w) := by
          rw [doBodyFilter, if_neg (by simp [footer]), Exec.bind_raised _ found]
        intro e w' raised
        have same := failed.symm.trans raised
        cases same
        exact ⟨bodyFilter_raised failed, refused_noTrace conf input w⟩
      | true =>
        rw [answer, if_pos rfl] at found
        have done : doBodyFilter conf input w = .ok () { refused w with ctx := some 0 } := by
          rw [doBodyFilter, if_neg (by simp [footer]), Exec.bind_ok _ found]
          rfl
        exact bodyTraceless_of_ok done
    | some i =>
      by_cases due : i = 1
      · subst due
        rw [bodyTraceless_due footer ctx shown]
        simp [BodySafe, footer, ctx]
      · have done : doBodyFilter conf input w = .ok () w := by
          rw [doBodyFilter, if_neg (by simp [footer]), Exec.bind_ok _ (flag_set ctx), if_pos due]
          rfl
        exact iff_of_true (bodyTraceless_of_ok done) (.inr (.inl (by simp [ctx, due])))

end Body

/-- Neither filter leaves a trace of a failed call exactly when no allocation is
refused once its flag is set. -/
theorem failed_calls_traceless_iff (conf : NdgFilterConf)
    (rep : Represents w.headers w.headersOut sh) (shown : w.chains.shown input = some bs) :
    (HeaderTraceless conf input w ↔ HeaderSafe conf w sh) ∧
      (BodyTraceless conf input w ↔ BodySafe conf w bs) :=
  ⟨headerTraceless_iff conf input rep, bodyTraceless_iff conf shown⟩

private def oneHeader : NdgFilterConf := ⟨some [⟨⟨1, 8⟩, ⟨1, 9⟩⟩], ⟨1, 10⟩⟩

/-- Two bytes are declared, and the one part of the headers is full. -/
private def fullHeaders (headers chains : List Bool) : FilterWorld where
  contentLength := 2
  headersOut := 0
  headers :=
    { lists := ⟨[⟨0, 0, 1⟩]⟩
      parts := ⟨[⟨some 0, 1, none⟩]⟩
      arrays := ⟨[[some ⟨1, ⟨1, 6⟩, ⟨1, 7⟩⟩]]⟩
      grants := headers }
  chains := { links := ⟨[⟨0, none⟩]⟩, bufs := ⟨[{ last := 2, memory := true, lastBuf := true }]⟩,
              grants := chains }

private theorem fullHeaders_represents (headers chains : List Bool) :
    Represents (fullHeaders headers chains).headers 0
      ⟨⟨0, 0, 1⟩, [], ⟨0, 0, [⟨1, ⟨1, 6⟩, ⟨1, 7⟩⟩]⟩⟩ := by
  let before : ListMem NgxTableElt :=
    ⟨⟨[⟨0, 0, 1⟩]⟩, ⟨[⟨some 0, 0, none⟩]⟩, ⟨[[none]]⟩, headers⟩
  have part : before.parts.read 0 = some ⟨some 0, 0, none⟩ := rfl
  have stored : before.arrays.read 0 = some [none] := rfl
  have empty : Represents before 0 ⟨⟨0, 0, 1⟩, [], ⟨0, 0, []⟩⟩ :=
    Represents.of_empty rfl part stored rfl (by decide)
  exact empty.grow part rfl rfl stored rfl (by decide) rfl

theorem failed_calls_traceless_context_refused :
    (HeaderTraceless oneHeader (some 0) (fullHeaders [false] [false]) ↔
        HeaderSafe oneHeader (fullHeaders [false] [false])
          ⟨⟨0, 0, 1⟩, [], ⟨0, 0, [⟨1, ⟨1, 6⟩, ⟨1, 7⟩⟩]⟩⟩) ∧
      (BodyTraceless oneHeader (some 0) (fullHeaders [false] [false]) ↔
        BodySafe oneHeader (fullHeaders [false] [false])
          [{ last := 2, memory := true, lastBuf := true }]) :=
  failed_calls_traceless_iff oneHeader (fullHeaders_represents _ _) rfl

/-- The pool refuses the part for the first configured header. -/
theorem header_failure_leaves_flag :
    ¬ (HeaderTraceless oneHeader (some 0) (fullHeaders [false] []) ∧
      BodyTraceless oneHeader (some 0) (fullHeaders [false] [])) := by
  rintro ⟨traceless, -⟩
  have failed : doHeaderFilter oneHeader (fullHeaders [false] []) =
      .raised ⟨ngxError⟩ { fullHeaders [] [] with ctx := some 1 } := rfl
  have flag := (traceless _ _ failed).2.flag
  simp [fullHeaders] at flag

end NdgFilterHandler

end NgxCpp
