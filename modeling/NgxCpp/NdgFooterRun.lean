import NgxCpp.Foundation.Runs
import NgxCpp.NdgFooterHandler

/-! Runs of the two footer filters: calls of either filter in any order, each body with
chains of its own. What is counted are buffers that end a response. -/

namespace NgxCpp
open Foundation

structure FooterFilter where
  headerFilter : Ngx FilterWorld Int → Ngx FilterWorld Int
  bodyFilter : (Option Nat → Ngx FilterWorld Int) → Option Nat → Ngx FilterWorld Int

def NdgFilterHandler.filters (conf : NdgFilterConf) : FooterFilter :=
  ⟨headerFilter conf, bodyFilter conf⟩

def NdgFooterHandler.filters (conf : NdgFooterConf) : FooterFilter :=
  ⟨headerFilter conf, bodyFilter conf⟩

inductive FilterCall where
  | header (rc : Int)
  | body (call : BodyCall)
deriving Repr, DecidableEq

namespace FilterCall

def run (filters : FooterFilter) : FilterCall → Ngx FilterWorld Unit
  | header rc => do
    let _ ← filters.headerFilter (NdgFilterHandler.nextHeader rc)
  | body call => do
    Exec.modify fun w => { w with chains := call.chains }
    let _ ← filters.bodyFilter (NdgFilterHandler.nextBody call.rc) call.input

def step (filters : FooterFilter) (w : FilterWorld) (c : FilterCall) : FilterWorld :=
  (c.run filters w).state?.getD w

/-- The buffers that a body filter is called with, if it is called with a chain. -/
def Shows (c : FilterCall) (bs : List NgxBufT) : Prop :=
  match c with
  | header _ => bs = []
  | body call => call.chains.shown call.input = some bs

def endings (c : FilterCall) : Nat :=
  match c with
  | header _ => 0
  | body call => ((call.chains.shown call.input).getD []).countP NgxBufT.lastBuf

end FilterCall

/-- How many buffers that end the response the next body filter was handed. -/
def NextCall.endings : NextCall → Nat
  | .header _ _ => 0
  | .body _ bufs => (bufs.getD []).countP NgxBufT.lastBuf

def FilterWorld.endings (w : FilterWorld) : Nat := (w.log.map NextCall.endings).sum

namespace FooterKind

def filters (kind : FooterKind) (conf : NdgFilterConf) : FooterFilter where
  headerFilter := NdgFilterHandler.headerFilter conf
  bodyFilter next input :=
    Exec.catching (do
      kind.doBodyFilter conf input
      next input) fun e => pure e.code

theorem filter_filters (conf : NdgFilterConf) :
    NdgFilterHandler.filters conf = filter.filters conf := by
  unfold NdgFilterHandler.filters filters
  rw [← filter_body]
  rfl

theorem footer_filters (conf : NdgFilterConf) :
    NdgFooterHandler.filters conf = footer.filters conf := by
  unfold NdgFooterHandler.filters filters
  rw [← footer_body]
  rfl

section Keeps

open NdgFilterHandler (flag setFlag setLength onChains onHeaders addHeader doHeaderFilter
  headerFilter nextHeader nextBody)

variable {n : Nat} {conf : NdgFilterConf}

/-- The next body filter was handed so many buffers that end the response. -/
def Handed (n : Nat) (w : FilterWorld) : Prop := w.endings = n

theorem keeps_onChains {α : Type} (x : Ngx ChainMem α) : Exec.Keeps (Handed n) (onChains x) :=
  .zoom x fun _ _ handed => handed

theorem keeps_flag : Exec.Keeps (Handed n) flag := by
  intro w handed
  unfold flag
  cases w.ctx with
  | some i => exact Exec.Keeps.pure i w handed
  | none =>
    refine Exec.Keeps.bind (keeps_onChains chainPalloc) (fun granted => .ite ?_ (.raise _)) w handed
    exact .bind (.modify fun _ handed => handed) fun _ => .pure _

theorem keeps_addHeader (i : Nat) : Exec.Keeps (Handed n) (addHeader conf i) := by
  refine .bind ?_ fun header => .bind (.gets _) fun headersOut => .zoom _ fun _ _ handed => handed
  unfold NgxKvArray.get
  split
  · exact .pure _
  · exact .raise _

theorem keeps_doHeaderFilter : Exec.Keeps (Handed n) (doHeaderFilter conf) := by
  refine .bind keeps_flag fun i => .ite (.pure _) ?_
  refine .bind (.modify fun _ handed => handed) fun _ => .bind (.each keeps_addHeader _) fun _ => ?_
  refine .ite (.pure _) (.bind (.gets _) fun len => .ite ?_ (.pure _))
  exact .modify fun _ handed => handed

theorem keeps_headerFilter (rc : Int) :
    Exec.Keeps (Handed n) (headerFilter conf (nextHeader rc)) := by
  refine .catching (.bind keeps_doHeaderFilter fun _ => .bind (.modify ?_) fun _ => .pure _)
    fun e => .pure _
  intro w handed
  simpa [Handed, FilterWorld.endings, NextCall.endings] using handed

theorem keeps_doBodyFilter (kind : FooterKind) (input : Option Nat) :
    Exec.Keeps (Handed n) (kind.doBodyFilter conf input) := by
  refine .ite (.pure _) (.bind keeps_flag fun i => .ite (.pure _) ?_)
  refine .bind (.gets _) fun fuel => .bind (keeps_onChains _) fun p => ?_
  cases p with
  | none => exact .pure _
  | some p => exact .bind (.modify fun _ handed => handed) fun _ => keeps_onChains _

end Keeps

section Endings

variable {kind : FooterKind} {conf : NdgFilterConf} {w : FilterWorld} {bs : List NgxBufT}

theorem header_endings (rc : Int) :
    (FilterCall.step (kind.filters conf) w (.header rc)).endings = w.endings := by
  have kept : Exec.Keeps (Handed w.endings) ((FilterCall.header rc).run (kind.filters conf)) :=
    .bind (keeps_headerFilter rc) fun _ => .pure _
  exact kept.getD rfl

theorem step_body (kind : FooterKind) (conf : NdgFilterConf) (w : FilterWorld) (call : BodyCall) :
    FilterCall.step (kind.filters conf) w (.body call) =
      match kind.doBodyFilter conf call.input { w with chains := call.chains } with
      | .ok _ w' => { w' with log := w'.log ++ [.body call.input (w'.chains.shown call.input)] }
      | .raised _ w' => w'
      | .undefined => w
      | .exhausted => w := by
  have run : (FilterCall.body call).run (kind.filters conf) w =
      ((kind.filters conf).bodyFilter (NdgFilterHandler.nextBody call.rc) call.input >>=
        fun _ => pure ()) { w with chains := call.chains } := rfl
  have body : (kind.filters conf).bodyFilter (NdgFilterHandler.nextBody call.rc) call.input =
      Exec.catching (kind.doBodyFilter conf call.input >>= fun _ =>
        NdgFilterHandler.nextBody call.rc call.input) fun e => pure e.code := rfl
  rw [FilterCall.step, run, Exec.bind_apply, body]
  unfold Exec.catching
  rw [Exec.bind_apply]
  cases kind.doBodyFilter conf call.input { w with chains := call.chains } <;> rfl

/-- A body filter call hands on no more ends than it gets, if that holds of a chain
that gets the footer. -/
theorem body_endings {call : BodyCall} (shows : call.chains.shown call.input = some bs)
    (fair : NgxString.empty conf.footer = false → w.ctx = some 1 →
      (handedOn kind.mark (kind.made conf) bs).countP NgxBufT.lastBuf ≤
        bs.countP NgxBufT.lastBuf) :
    (FilterCall.step (kind.filters conf) w (.body call)).endings ≤
      w.endings + (FilterCall.body call).endings := by
  let w1 : FilterWorld := { w with chains := call.chains }
  have incoming : (FilterCall.body call).endings = bs.countP NgxBufT.lastBuf := by
    simp [FilterCall.endings, shows]
  have keeps : Exec.Keeps (Handed w.endings) (kind.doBodyFilter conf call.input) :=
    keeps_doBodyFilter kind call.input
  have kept := keeps w1 rfl
  rw [step_body]
  cases done : kind.doBodyFilter conf call.input w1 with
  | ok u w' =>
    have same : w'.endings = w.endings := kept w' (by rw [done]; rfl)
    have handed : FilterWorld.endings
        { w' with log := w'.log ++ [.body call.input (w'.chains.shown call.input)] } =
        w.endings + ((w'.chains.shown call.input).getD []).countP NgxBufT.lastBuf := by
      rw [← same]
      simp [FilterWorld.endings, NextCall.endings]
    rw [incoming]
    refine Nat.le_trans (Nat.le_of_eq handed) (Nat.add_le_add_left ?_ _)
    obtain shown | ⟨footer, due, shown⟩ := doBodyFilter_cases (w := w1) shows done
    · rw [shown]
      exact Nat.le_refl _
    · rw [shown]
      exact fair footer due
  | raised e w' =>
    have same : w'.endings = w.endings := kept w' (by rw [done]; rfl)
    exact Nat.le_trans (Nat.le_of_eq same) (Nat.le_add_right _ _)
  | undefined => exact Nat.le_add_right _ _
  | exhausted => exact Nat.le_add_right _ _

end Endings

/-- The first buffer with an end marker ends the response, or it is cut short of another
one that does. -/
def EndsResponse (bs : List NgxBufT) : Prop :=
  match bs.dropWhile fun b => !NgxBuf.last b with
  | [] => True
  | b :: rest => b.lastBuf = true ∨ b.size ≠ 0 ∧ ∃ x ∈ rest, x.lastBuf = true

theorem handedOn_filter (f : NgxBufT) (ends : f.lastBuf = true) (bs : List NgxBufT) :
    (handedOn NgxBufT.lastBuf f bs).countP NgxBufT.lastBuf ≤ bs.countP NgxBufT.lastBuf := by
  induction bs with
  | nil => exact Nat.le_refl _
  | cons b bs ih =>
    rw [handedOn]
    by_cases last : b.lastBuf = true
    · rw [if_pos last, attachedTail]
      split <;> simp [ends, last]
    · rw [if_neg last]
      simpa [last] using ih

theorem handedOn_footer_iff (f : NgxBufT) (ends : f.lastBuf = true) (bs : List NgxBufT) :
    (handedOn NgxBuf.last f bs).countP NgxBufT.lastBuf ≤ bs.countP NgxBufT.lastBuf ↔
      EndsResponse bs := by
  induction bs with
  | nil => simp [handedOn, EndsResponse]
  | cons b bs ih =>
    rw [handedOn]
    by_cases marked : NgxBuf.last b = true
    · have first : EndsResponse (b :: bs) ↔
          b.lastBuf = true ∨ b.size ≠ 0 ∧ ∃ x ∈ bs, x.lastBuf = true := by
        simp [EndsResponse, marked]
      rw [if_pos marked, first, attachedTail]
      cases last : b.lastBuf with
      | true =>
        split <;> simp [ends, last]
      | false =>
        by_cases empty : b.size = 0
        · simp [empty, ends, last]
        · simp [empty, ends, last]
    · have later : EndsResponse (b :: bs) ↔ EndsResponse bs := by
        simp [EndsResponse, marked]
      have unset : b.lastBuf = false := by
        simp [NgxBuf.last] at marked
        exact marked.1
      rw [if_neg marked, later, ← ih]
      simp [unset]

/-- The condition on a call of the legacy filter: a chain that gets the footer ends the
response. -/
def Ends (conf : NdgFooterConf) (w : FilterWorld) (c : FilterCall) : Prop :=
  match c with
  | .header _ => True
  | .body call => NgxString.empty conf.footer = false → w.ctx = some 1 →
      EndsResponse ((call.chains.shown call.input).getD [])

def Fair (kind : FooterKind) (conf : NdgFilterConf) (w : FilterWorld) (c : FilterCall) : Prop :=
  match c with
  | .header _ => True
  | .body call => NgxString.empty conf.footer = false → w.ctx = some 1 →
      (handedOn kind.mark (kind.made conf)
          ((call.chains.shown call.input).getD [])).countP NgxBufT.lastBuf ≤
        ((call.chains.shown call.input).getD []).countP NgxBufT.lastBuf

theorem run_endings {kind : FooterKind} {conf : NdgFilterConf} {w : FilterWorld}
    {calls : List FilterCall} (shows : ∀ c ∈ calls, ∃ bs, c.Shows bs)
    (fair : Along (FilterCall.step (kind.filters conf)) (Fair kind conf) w calls) :
    (calls.foldl (FilterCall.step (kind.filters conf)) w).endings ≤
      w.endings + (calls.map FilterCall.endings).sum := by
  induction calls generalizing w with
  | nil => exact Nat.le_refl _
  | cons c calls ih =>
    have first : (FilterCall.step (kind.filters conf) w c).endings ≤ w.endings + c.endings := by
      cases c with
      | header rc => exact Nat.le_of_eq (header_endings rc)
      | body call =>
        obtain ⟨bs, shown⟩ := shows _ (List.mem_cons_self ..)
        have safe := fair.1
        simp only [Fair, show call.chains.shown call.input = some bs from shown,
          Option.getD_some] at safe
        exact body_endings shown safe
    have rest := ih (fun c' member => shows c' (List.mem_cons_of_mem _ member)) fair.2
    rw [List.foldl_cons, List.map_cons, List.sum_cons]
    omega

/-- Over a run the next body filter is handed at most as many ends of the response as
come in: from `NdgFilterHandler` always, from the legacy filter when each chain that gets
the footer ends the response. -/
theorem footer_never_ends_response (conf : NdgFilterConf) (w : FilterWorld)
    {calls : List FilterCall} (shows : ∀ c ∈ calls, ∃ bs, c.Shows bs) :
    (calls.foldl (FilterCall.step (NdgFilterHandler.filters conf)) w).endings ≤
        w.endings + (calls.map FilterCall.endings).sum ∧
      (Along (FilterCall.step (NdgFooterHandler.filters conf)) (Ends conf) w calls →
        (calls.foldl (FilterCall.step (NdgFooterHandler.filters conf)) w).endings ≤
          w.endings + (calls.map FilterCall.endings).sum) := by
  rw [filter_filters, footer_filters]
  constructor
  · refine run_endings shows (Along.imp (P := fun _ _ => True) (fun w' c _ => ?_)
      ((along_forall _ w).mpr fun _ _ => trivial))
    cases c with
    | header rc => trivial
    | body call => exact fun _ _ => handedOn_filter _ rfl _
  · refine fun along => run_endings shows (along.imp fun w' c ends => ?_)
    cases c with
    | header rc => trivial
    | body call => exact fun footer due => (handedOn_footer_iff _ rfl _).mpr (ends footer due)

private def oneByte : NdgFilterConf := ⟨none, ⟨1, 10⟩⟩

private def plainRequest : FilterWorld where
  contentLength := 2
  headersOut := 0
  headers := { lists := ⟨[⟨0, 0, 2⟩]⟩, parts := ⟨[⟨some 0, 0, none⟩]⟩, arrays := ⟨[[none, none]]⟩ }

private def oneBufCall (b : NgxBufT) : FilterCall :=
  .body ⟨{ links := ⟨[⟨0, none⟩]⟩, bufs := ⟨[b]⟩ }, some 0, 0⟩

theorem footer_never_ends_response_main :
    ([.header 0, oneBufCall { last := 2, memory := true, lastBuf := true }].foldl
        (FilterCall.step (NdgFooterHandler.filters oneByte)) plainRequest).endings ≤ 1 := by
  have shows : ∀ c ∈ [.header 0, oneBufCall { last := 2, memory := true, lastBuf := true }],
      ∃ bs, c.Shows bs := by
    simp only [List.forall_mem_cons]
    exact ⟨⟨[], rfl⟩, ⟨[{ last := 2, memory := true, lastBuf := true }], rfl⟩, by simp⟩
  exact (footer_never_ends_response oneByte plainRequest shows).2
    ⟨trivial, fun _ _ => .inl rfl, trivial⟩

/-- The response of a subrequest, whose last buffer is only the last in its chain, gets an
end of the response from the legacy filter. -/
theorem footer_ends_subrequest :
    ¬ ([.header 0, oneBufCall { last := 2, memory := true, lastInChain := true }].foldl
        (FilterCall.step (NdgFooterHandler.filters oneByte)) plainRequest).endings ≤
      plainRequest.endings +
        ([.header 0, oneBufCall { last := 2, memory := true, lastInChain := true }].map
          FilterCall.endings).sum := by
  decide

end FooterKind

end NgxCpp
