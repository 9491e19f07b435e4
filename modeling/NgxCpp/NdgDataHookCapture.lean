import NgxCpp.NdgDataHook
import NgxCpp.NgxChainCopy

/-! The bodies that `NdgDataHookHandler` captures, over whole runs of a worker. Of a
request the handler's decisions read its parent, two flags and the head of a chain. -/

namespace NgxCpp
open Foundation

structure HookView where
  parent : Option Nat
  hook : Bool
  doHook : Bool
  body : Option Nat
deriving Repr, DecidableEq

def HookRequest.view (request : HookRequest) : HookView where
  parent := request.parent
  hook := request.ctx.any NdgDataHookCtx.hook
  doHook := request.ctx.any NdgDataHookCtx.doHook
  body := request.ctx.bind NdgDataHookCtx.body

theorem HookRequest.view_headers (request : HookRequest) (r : Nat) :
    HookRequest.view { request with
      ctx := request.ctx.map fun ctx => { ctx with headers := some r } } = request.view := by
  obtain ⟨parent, ctx, memory, sent⟩ := request
  cases ctx <;> rfl

variable {M : Type}

namespace HookWorld

def view (w : HookWorld M) (r : Nat) : HookView := (w.requests r).view

variable {w : HookWorld M} {q : Nat}

theorem view_modifyRequest (f : HookRequest → HookRequest) :
    (w.modifyRequest q f).view = Function.update w.view q (f (w.requests q)).view := by
  funext r
  by_cases same : r = q
  · subst same
    simp [view, modifyRequest]
  · simp [view, modifyRequest, Function.update_of_ne same]

theorem view_made : (w.made q).view = w.view := by
  cases found : (w.requests q).ctx with
  | some ctx => simp [made, found]
  | none =>
    have created : (w.made q).view =
        (w.modifyRequest q fun request => { request with ctx := some {} }).view := by
      rw [made, found, if_pos (by simp)]
      rfl
    rw [created, view_modifyRequest]
    funext r
    by_cases same : r = q
    · subst same
      simp [view, HookRequest.view, found]
    · rw [Function.update_of_ne same]

theorem view_getD : w.view q = ⟨(w.requests q).parent, ((w.requests q).ctx.getD {}).hook,
    ((w.requests q).ctx.getD {}).doHook, ((w.requests q).ctx.getD {}).body⟩ := by
  unfold view HookRequest.view
  cases (w.requests q).ctx <;> rfl

theorem view_update {f : NdgDataHookCtx → NdgDataHookCtx} {ctx : NdgDataHookCtx}
    (found : (w.requests q).ctx = some ctx) :
    (w.modifyRequest q fun request => { request with ctx := request.ctx.map f }).view =
      Function.update w.view q
        ⟨(w.view q).parent, (f ctx).hook, (f ctx).doHook, (f ctx).body⟩ := by
  rw [view_modifyRequest]
  simp [HookRequest.view, view, found]

theorem view_modifyRequest_of {f : HookRequest → HookRequest}
    (same : (f (w.requests q)).view = (w.requests q).view) :
    (w.modifyRequest q f).view = w.view := by
  rw [view_modifyRequest, same]
  exact Function.update_eq_self q w.view

theorem Generous.made (generous : w.Generous) : (w.made q).Generous := by
  unfold HookWorld.made
  split
  · exact fun granted member => generous granted (List.mem_of_mem_tail member)
  · exact generous

end HookWorld

namespace NdgDataHookHandler

open HookWorld

variable {w : HookWorld M}

structure Effect (w w' : HookWorld M) (view : Nat → HookView) (chains : M)
    (log : List HookNext) : Prop where
  view : w'.view = view
  chains : w'.chains = chains
  log : w'.log = w.log ++ log
  generous : w'.Generous

variable (addCopy : Option Nat → Nat → M → Int × Option Nat × M)

theorem made_chains (q : Nat) : (w.made q).chains = w.chains ∧ (w.made q).log = w.log := by
  unfold made
  split <;> exact ⟨rfl, rfl⟩

theorem step_hooking (generous : w.Generous) (q : Nat) :
    Effect w (Event.step addCopy w (.hooking q))
      (Function.update w.view q { w.view q with hook := true, body := none }) w.chains [] := by
  have run : (Event.hooking q).run addCopy w = .ok ngxOk ((w.made q).modifyRequest q
      fun request => { request with ctx := request.ctx.map NdgDataHookCtx.hooking }) := by
    change (data q >>= _) w = _
    rw [Exec.bind_ok _ (data_made generous q)]
    rfl
  obtain ⟨chains, log⟩ := made_chains (w := w) q
  rw [Event.step, run]
  refine ⟨(view_update made_ctx).trans ?_, chains, log.trans (List.append_nil _).symm,
    generous.made⟩
  rw [view_made, view_getD]
  rfl

theorem step_header_captured (generous : w.Generous) {r pr : Nat}
    (parent : (w.view r).parent = some pr) (hooks : (w.view pr).hook = true) (rc : Int) :
    Effect w (Event.step addCopy w (.header r rc))
      (Function.update w.view r { w.view r with doHook := true }) w.chains [] := by
  obtain ⟨prCtx, found, hook⟩ := (Option.any_eq_true _ _).mp hooks
  obtain ⟨chains, log⟩ := made_chains (w := w) r
  rw [Event.step, header_run addCopy generous parent found hook rc]
  refine ⟨?_, chains, log.trans (List.append_nil _).symm, generous.made⟩
  change ((w.made r).captured pr r).view = _
  unfold captured
  rw [view_modifyRequest_of rfl, view_modifyRequest_of, view_update made_ctx, view_made, view_getD]
  · exact HookRequest.view_headers _ _

theorem step_header_free (generous : w.Generous) {r : Nat} (free : w.parentHooks r = false)
    (rc : Int) :
    Effect w (Event.step addCopy w (.header r rc)) w.view w.chains [.header r] := by
  rw [Event.step, header_transparent addCopy free rc]
  exact ⟨rfl, rfl, rfl, generous⟩

theorem step_body_null (generous : w.Generous) (r : Nat) (rc : Int) :
    Effect w (Event.step addCopy w (.body r none rc)) w.view w.chains [] :=
  ⟨rfl, rfl, (List.append_nil _).symm, generous⟩

theorem step_body_free (generous : w.Generous) {r : Nat} (unhooked : (w.view r).doHook = false)
    (input : Nat) (rc : Int) :
    Effect w (Event.step addCopy w (.body r (some input) rc)) w.view w.chains
      [.body r (some input)] := by
  rw [Event.step, body_transparent addCopy unhooked input rc]
  exact ⟨rfl, rfl, rfl, generous⟩

theorem step_body_captured (generous : w.Generous) {r pr : Nat}
    (hooked : (w.view r).doHook = true) (parent : (w.view r).parent = some pr) (input : Nat)
    (rc : Int) :
    Effect w (Event.step addCopy w (.body r (some input) rc))
      (Function.update w.view pr
        { w.view pr with body := (addCopy (w.view pr).body input w.chains).2.1 })
      (addCopy (w.view pr).body input w.chains).2.2 [] := by
  obtain ⟨chains, log⟩ := made_chains (w := w) pr
  let copied := addCopy (w.view pr).body input w.chains
  let w1 : HookWorld M := { w.made pr with chains := copied.2.2 }
  let w2 := w1.modifyRequest pr fun request =>
    { request with ctx := request.ctx.map fun ctx => { ctx with body := copied.2.1 } }
  have body : (w.view pr).body = ((w.requests pr).ctx.getD {}).body := by rw [view_getD]
  have copy : chainAddCopy addCopy pr input w = .ok copied.1 w2 := by
    rw [chainAddCopy, Exec.bind_ok _ (data_made generous pr), Exec.bind_ok _ (Exec.gets_apply _ _),
      ← body, chains]
    rfl
  have run : ∃ code, (Event.body r (some input) rc).run addCopy w = .ok code w2 := by
    obtain ⟨ctx, found, doHook⟩ := (Option.any_eq_true _ _).mp hooked
    have above : (w.requests r).parent = some pr := parent
    change ∃ code, Exec.catching _ _ w = .ok code w2
    unfold Exec.catching
    dsimp only
    rw [Exec.bind_ok _ (ctxEmpty_apply r), found, if_neg (by simp),
      Exec.bind_ok _ (data_found found), doHook, if_neg (by simp),
      Exec.bind_ok _ (Exec.deref_some (f := fun w : HookWorld M => (w.requests r).parent) above),
      Exec.bind_ok _ copy]
    by_cases fine : copied.1 = ngxOk
    · rw [Exec.bind_ok _ (NgxException.requireCode_eq_ok.mpr ⟨fine, rfl⟩)]
      exact ⟨ngxOk, rfl⟩
    · have raised : (NgxException.requireCode copied.1 : Ngx (HookWorld M) Unit) w2 =
          .raised ⟨copied.1⟩ w2 := by
        simp [NgxException.requireCode, NgxException.requireCond, NgxException.raise, fine]
      rw [Exec.bind_raised _ raised]
      exact ⟨copied.1, rfl⟩
  obtain ⟨code, run⟩ := run
  rw [Event.step, run]
  refine ⟨?_, rfl, log.trans (List.append_nil _).symm, generous.made⟩
  refine (view_update (w := w1) made_ctx).trans ?_
  have kept : w1.view = w.view := view_made
  have only : ∀ head : Option Nat, Function.update w.view pr { w.view pr with body := head } =
      Function.update w.view pr ⟨(w.view pr).parent, ((w.requests pr).ctx.getD {}).hook,
        ((w.requests pr).ctx.getD {}).doHook, head⟩ := by
    intro head
    rw [view_getD]
  rw [kept]
  exact (only _).symm

theorem step_body_orphan (generous : w.Generous) {r : Nat} (hooked : (w.view r).doHook = true)
    (parent : (w.view r).parent = none) (input : Nat) (rc : Int) :
    Effect w (Event.step addCopy w (.body r (some input) rc)) w.view w.chains [] := by
  obtain ⟨ctx, found, doHook⟩ := (Option.any_eq_true _ _).mp hooked
  have above : (w.requests r).parent = none := parent
  have run : (Event.body r (some input) rc).run addCopy w = .undefined := by
    change Exec.catching _ _ w = .undefined
    unfold Exec.catching
    dsimp only
    rw [Exec.bind_ok _ (ctxEmpty_apply r), found, if_neg (by simp),
      Exec.bind_ok _ (data_found found), doHook, if_neg (by simp), Exec.bind_apply]
    simp [Exec.deref, above]
  rw [Event.step, run]
  exact ⟨rfl, rfl, (List.append_nil _).symm, generous⟩

/-- A filter is called, or the handler of a request calls `hooking`, in a memory that
others have changed since. -/
structure HookCall where
  chains : ChainMem
  event : Event
deriving Repr, DecidableEq

namespace HookCall

variable (addCopy : Option Nat → Nat → ChainMem → Int × Option Nat × ChainMem)

def step (w : HookWorld ChainMem) (c : HookCall) : HookWorld ChainMem :=
  c.event.step addCopy { w with chains := c.chains }

def bufs (c : HookCall) : List Nat :=
  match c.event with
  | .body _ (some input) _ =>
    ((c.chains.collect c.chains.links.size (some input)).getD []).map LinkView.buf
  | _ => []

def request (c : HookCall) : Option Nat :=
  match c.event with
  | .hooking _ => none
  | .header r _ => some r
  | .body r _ _ => some r

end HookCall

/-- Which children of a request are captured, and the buffers passed for them. -/
structure Capture where
  children : List Nat := []
  bufs : List Nat := []
deriving Repr, DecidableEq

/-- What a call after `hooking` on `p` adds: a header filter call captures a child, a body
filter call passes buffers for one. -/
def Capture.next (parent : Nat → Option Nat) (p : Nat) (s : Capture) (c : HookCall) : Capture :=
  match c.event with
  | .hooking _ => s
  | .header r _ => if parent r = some p then { s with children := r :: s.children } else s
  | .body r _ _ => if r ∈ s.children then { s with bufs := s.bufs ++ c.bufs } else s

section Run

variable {addCopy : Option Nat → Nat → ChainMem → Int × Option Nat × ChainMem}

/-- What others promise a call: they leave the captured chains as they are, and what is
passed for a captured request is another chain than its parent's. -/
structure HookCall.Fair (w : HookWorld ChainMem) (c : HookCall) : Prop where
  generous : c.chains.Generous
  keeps : ∀ q views, Chained w.chains (w.view q).body views →
    ∃ views', Chained c.chains (w.view q).body views' ∧
      views'.map LinkView.link = views.map LinkView.link
  passed : ∀ r pr input rc, c.event = .body r (some input) rc → (w.view r).doHook = true →
    (w.view r).parent = some pr → ∃ ins, Chained c.chains (some input) ins ∧
      ∀ views, Chained c.chains (w.view pr).body views → LinkView.Apart views ins

/-- The children of `p` that are captured, and the buffers in its body. -/
structure Capturing (parent : Nat → Option Nat) (p : Nat) (hooked : Bool)
    (w : HookWorld ChainMem) (s : Capture) : Prop where
  generous : w.Generous
  parents : ∀ r, (w.view r).parent = parent r
  hook : (w.view p).hook = hooked
  flags : ∀ r, parent r = some p → ((w.view r).doHook = true ↔ r ∈ s.children)
  children : ∀ r ∈ s.children, parent r = some p
  bodies : ∃ bodies, Bodies w.chains (fun q => (w.view q).body) bodies ∧
    (bodies p).map LinkView.buf = s.bufs

namespace Capturing

variable {parent : Nat → Option Nat} {p : Nat} {hooked : Bool} {w w' : HookWorld ChainMem}
  {s : Capture} {c : HookCall}

theorem brought (capturing : Capturing parent p hooked w s) (fair : c.Fair w) :
    Capturing parent p hooked { w with chains := c.chains } s := by
  obtain ⟨bodies, held, shown⟩ := capturing.bodies
  obtain ⟨bodies', held', same⟩ := held.keep fair.keeps
  refine ⟨capturing.generous, capturing.parents, capturing.hook, capturing.flags,
    capturing.children, bodies', held', ?_⟩
  have second := congrArg (List.map Prod.snd) (same p)
  rw [List.map_map, List.map_map] at second
  exact second.trans shown

theorem quiet {log : List HookNext} (capturing : Capturing parent p hooked w s)
    (effect : Effect w w' w.view w.chains log) : Capturing parent p hooked w' s := by
  obtain ⟨view, chains, -, generous⟩ := effect
  obtain ⟨-, parents, hook, flags, children, bodies⟩ := capturing
  rw [← view] at parents hook flags bodies
  rw [← chains] at bodies
  exact ⟨generous, parents, hook, flags, children, bodies⟩

theorem update_proj {β : Type} (f : HookView → β) {views : Nat → HookView} {q : Nat}
    {v : HookView} (same : f v = f (views q)) (r : Nat) :
    f (Function.update views q v r) = f (views r) := by
  by_cases here : r = q
  · subst here
    simpa using same
  · rw [Function.update_of_ne here]

theorem update_body (views : Nat → HookView) (q : Nat) (v : HookView) :
    (fun r => (Function.update views q v r).body) =
      Function.update (fun r => (views r).body) q v.body := by
  funext r
  by_cases here : r = q
  · subst here
    simp
  · rw [Function.update_of_ne here, Function.update_of_ne here]

theorem hooking {q : Nat} (capturing : Capturing parent p hooked w s)
    (effect : Effect w w' (Function.update w.view q
      { w.view q with hook := true, body := none }) w.chains []) (other : p ≠ q) :
    Capturing parent p hooked w' s := by
  obtain ⟨view, chains, -, generous⟩ := effect
  obtain ⟨bodies, held, shown⟩ := capturing.bodies
  refine ⟨generous, ?_, ?_, ?_, capturing.children, Function.update bodies q [], ?_, ?_⟩
  · intro r
    rw [view]
    exact (update_proj HookView.parent (by rfl) r).trans (capturing.parents r)
  · rw [view, Function.update_of_ne other]
    exact capturing.hook
  · intro r child
    rw [view, update_proj HookView.doHook (by rfl) r]
    exact capturing.flags r child
  · rw [view, chains, update_body]
    exact held.drop q
  · rw [Function.update_of_ne other]
    exact shown

theorem start (capturing : Capturing parent p false w s) (idle : s.children = [])
    (effect : Effect w w' (Function.update w.view p
      { w.view p with hook := true, body := none }) w.chains []) :
    Capturing parent p true w' {} := by
  obtain ⟨view, chains, -, generous⟩ := effect
  obtain ⟨bodies, held, shown⟩ := capturing.bodies
  have flags := capturing.flags
  rw [idle] at flags
  refine ⟨generous, ?_, ?_, ?_, by simp, Function.update bodies p [], ?_, ?_⟩
  · intro r
    rw [view]
    exact (update_proj HookView.parent (by rfl) r).trans (capturing.parents r)
  · rw [view, Function.update_self]
  · intro r child
    rw [view, update_proj HookView.doHook (by rfl) r]
    exact flags r child
  · rw [view, chains, update_body]
    exact held.drop p
  · rw [Function.update_self]
    rfl

theorem header {r : Nat} (capturing : Capturing parent p hooked w s)
    (effect : Effect w w' (Function.update w.view r { w.view r with doHook := true })
      w.chains []) :
    Capturing parent p hooked w'
      (if parent r = some p then { s with children := r :: s.children } else s) := by
  obtain ⟨view, chains, -, generous⟩ := effect
  obtain ⟨bodies, held, shown⟩ := capturing.bodies
  refine ⟨generous, ?_, ?_, ?_, ?_, bodies, ?_, ?_⟩
  · intro q
    rw [view]
    exact (update_proj HookView.parent (by rfl) q).trans (capturing.parents q)
  · rw [view]
    exact (update_proj HookView.hook (by rfl) p).trans capturing.hook
  · intro q child
    rw [view]
    by_cases here : q = r
    · subst here
      simp [child]
    · rw [Function.update_of_ne here]
      split
      · simpa [here] using capturing.flags q child
      · exact capturing.flags q child
  · intro q member
    split at member
    · rename_i child
      rcases List.mem_cons.mp member with rfl | inherited
      · exact child
      · exact capturing.children q inherited
    · exact capturing.children q member
  · rw [view, chains]
    have same : (fun q => (Function.update w.view r { w.view r with doHook := true } q).body) =
        fun q => (w.view q).body := funext (update_proj HookView.body rfl)
    rw [same]
    exact held
  · split <;> exact shown

theorem body (copies : AddsCopies addCopy) {pr input : Nat} {ins : List LinkView}
    (capturing : Capturing parent p hooked w s) (generous : w.chains.Generous)
    (passed : Chained w.chains (some input) ins)
    (apart : ∀ views, Chained w.chains (w.view pr).body views → LinkView.Apart views ins)
    (effect : Effect w w' (Function.update w.view pr
        { w.view pr with body := (addCopy (w.view pr).body input w.chains).2.1 })
      (addCopy (w.view pr).body input w.chains).2.2 []) :
    Capturing parent p hooked w' { s with
      bufs := if pr = p then s.bufs ++ ins.map LinkView.buf else s.bufs } := by
  obtain ⟨view, chains, -, generous'⟩ := effect
  obtain ⟨bodies, held, shown⟩ := capturing.bodies
  obtain ⟨bodies', held', here, others⟩ :=
    held.copy copies generous pr passed (apart _ (held.chained pr))
  refine ⟨generous', ?_, ?_, ?_, capturing.children, bodies', ?_, ?_⟩
  · intro q
    rw [view]
    exact (update_proj HookView.parent (by rfl) q).trans (capturing.parents q)
  · rw [view]
    exact (update_proj HookView.hook (by rfl) p).trans capturing.hook
  · intro q below
    rw [view, update_proj HookView.doHook (by rfl) q]
    exact capturing.flags q below
  · rw [view, chains, update_body]
    exact held'
  · by_cases mine : pr = p
    · subst mine
      rw [here, shown, if_pos rfl]
    · rw [others p (Ne.symm mine), shown, if_neg mine]

variable (addCopy) in
theorem step_header (m : ChainMem) (capturing : Capturing parent p hooked w s) (r : Nat)
    (rc : Int) :
    Capturing parent p hooked (Event.step addCopy w (.header r rc))
        (if hooked then s.next parent p ⟨m, .header r rc⟩ else s) ∧
      (hooked = true → r ∈ s.children → (Event.step addCopy w (.header r rc)).log = w.log) := by
  have parents := capturing.parents r
  have hook := capturing.hook
  cases hooks : w.parentHooks r with
  | true =>
    obtain ⟨pr, above, hook'⟩ := (Option.any_eq_true _ _).mp hooks
    have effect := step_header_captured addCopy capturing.generous above hook' rc
    refine ⟨?_, fun _ _ => effect.log.trans (List.append_nil _)⟩
    have next : (if hooked then s.next parent p ⟨m, .header r rc⟩ else s) =
        if parent r = some p then { s with children := r :: s.children } else s := by
      cases hooked with
      | true => rfl
      | false =>
        have other : parent r ≠ some p := by
          rw [← parents]
          intro mine
          obtain rfl : pr = p := Option.some.inj (above.symm.trans mine)
          exact absurd (hook'.symm.trans hook) (by simp)
        simp [other]
    rw [next]
    exact capturing.header effect
  | false =>
    have effect := step_header_free addCopy capturing.generous hooks rc
    have outside : hooked = true → parent r ≠ some p := by
      intro after mine
      have hooked' : w.parentHooks r = true :=
        (Option.any_eq_true _ _).mpr ⟨p, parents.trans mine, hook.trans after⟩
      exact absurd (hooked'.symm.trans hooks) (by simp)
    refine ⟨?_, fun after member => absurd (capturing.children r member) (outside after)⟩
    have still : (if hooked then s.next parent p ⟨m, .header r rc⟩ else s) = s := by
      cases hooked with
      | true => simp [Capture.next, outside rfl]
      | false => rfl
    rw [still]
    exact capturing.quiet effect

theorem step_body (copies : AddsCopies addCopy) (capturing : Capturing parent p hooked w s)
    (r input : Nat) (rc : Int) (generous : w.chains.Generous)
    (none : hooked = false → s.children = [])
    (passed : ∀ pr, (w.view r).doHook = true → (w.view r).parent = some pr →
      ∃ ins, Chained w.chains (some input) ins ∧
        ∀ views, Chained w.chains (w.view pr).body views → LinkView.Apart views ins) :
    Capturing parent p hooked (Event.step addCopy w (.body r (some input) rc))
        (if hooked then s.next parent p ⟨w.chains, .body r (some input) rc⟩ else s) ∧
      (hooked = true → r ∈ s.children →
        (Event.step addCopy w (.body r (some input) rc)).log = w.log) := by
  have parents := capturing.parents r
  -- without a capture for `p` nothing is added
  have still : r ∉ s.children →
      (if hooked then s.next parent p ⟨w.chains, .body r (some input) rc⟩ else s) = s := by
    intro outside
    cases hooked with
    | true => simp [Capture.next, outside]
    | false => rfl
  cases hooked' : (w.view r).doHook with
  | false =>
    have effect := step_body_free addCopy capturing.generous hooked' input rc
    have outside : r ∉ s.children := by
      intro member
      have flag := (capturing.flags r (capturing.children r member)).mpr member
      exact absurd (flag.symm.trans hooked') (by simp)
    rw [still outside]
    exact ⟨capturing.quiet effect, fun _ member => absurd member outside⟩
  | true =>
    cases above : (w.view r).parent with
    | none =>
      have effect := step_body_orphan addCopy capturing.generous hooked' above input rc
      have outside : r ∉ s.children := by
        intro member
        have child := parents.trans (capturing.children r member)
        exact absurd (above.symm.trans child) (by simp)
      rw [still outside]
      exact ⟨capturing.quiet effect, fun _ member => absurd member outside⟩
    | some pr =>
      obtain ⟨ins, chain, apart⟩ := passed pr hooked' above
      have effect := step_body_captured addCopy capturing.generous hooked' above input rc
      refine ⟨?_, fun _ _ => effect.log.trans (List.append_nil _)⟩
      have copied := capturing.body copies generous chain apart effect
      have bufs : (⟨w.chains, .body r (some input) rc⟩ : HookCall).bufs = ins.map LinkView.buf := by
        simp [HookCall.bufs, chain.collect chain.length_le]
      by_cases mine : pr = p
      · subst mine
        have member := (capturing.flags r (parents.symm.trans above)).mp hooked'
        rw [if_pos rfl] at copied
        cases hooked with
        | true =>
          simp only [Capture.next, if_pos member, bufs]
          exact copied
        | false => simp [none rfl] at member
      · have outside : r ∉ s.children := by
          intro member
          have child := parents.trans (capturing.children r member)
          exact mine (Option.some.inj (above.symm.trans child))
        rw [still outside]
        rw [if_neg mine] at copied
        exact copied

/-- What a call other than `hooking` on `p` does: before that nothing is captured for `p`,
after it a captured request is kept from the next filters. -/
theorem step (copies : AddsCopies addCopy) (capturing : Capturing parent p hooked w s)
    (none : hooked = false → s.children = []) (fair : c.Fair w) (other : c.event ≠ .hooking p) :
    Capturing parent p hooked (c.step addCopy w) (if hooked then s.next parent p c else s) ∧
      (hooked = true → ∀ r ∈ s.children, c.request = some r → (c.step addCopy w).log = w.log) := by
  have here := capturing.brought fair
  let w1 : HookWorld ChainMem := { w with chains := c.chains }
  obtain ⟨m, event⟩ := c
  cases event with
  | hooking q =>
    have effect := step_hooking addCopy (w := w1) capturing.generous q
    refine ⟨?_, fun _ r _ request => absurd request (by simp [HookCall.request])⟩
    have still : (if hooked then s.next parent p ⟨m, .hooking q⟩ else s) = s := ite_self s
    rw [still]
    exact here.hooking effect fun same => other (same ▸ rfl)
  | header r rc =>
    obtain ⟨kept, quiet⟩ := here.step_header addCopy m r rc
    refine ⟨kept, fun after q member request => ?_⟩
    obtain rfl : r = q := Option.some.inj request
    exact quiet after member
  | body r input rc =>
    cases input with
    | none =>
      have effect := step_body_null addCopy (w := w1) capturing.generous r rc
      refine ⟨?_, fun _ _ _ _ => effect.log.trans (List.append_nil _)⟩
      have still : (if hooked then s.next parent p ⟨m, .body r Option.none rc⟩ else s) = s := by
        cases hooked <;> simp [Capture.next, HookCall.bufs]
      rw [still]
      exact here.quiet effect
    | some input =>
      obtain ⟨kept, quiet⟩ := here.step_body copies r input rc
        fair.generous none fun pr hooked above => fair.passed r pr input rc rfl hooked above
      refine ⟨kept, fun after q member request => ?_⟩
      obtain rfl : r = q := Option.some.inj request
      exact quiet after member

theorem fresh (generous : w.Generous) (none : ∀ r, (w.requests r).ctx = none) (p : Nat) :
    Capturing (fun r => (w.requests r).parent) p false w {} := by
  have view : ∀ r, w.view r = ⟨(w.requests r).parent, false, false, Option.none⟩ := by
    intro r
    rw [HookWorld.view_getD, none r]
    rfl
  refine ⟨generous, fun _ => rfl, by rw [view], fun r _ => by simp [view], by simp,
    fun _ => [], ⟨fun q => ?_, fun _ _ _ v member => absurd member (by simp)⟩, rfl⟩
  rw [view]
  exact ⟨.nil, by simp⟩

theorem before (copies : AddsCopies addCopy) {calls : List HookCall}
    (capturing : Capturing parent p false w s) (none : s.children = [])
    (fair : Along (HookCall.step addCopy) HookCall.Fair w calls)
    (other : ∀ c ∈ calls, c.event ≠ .hooking p) :
    Capturing parent p false (calls.foldl (HookCall.step addCopy) w) s := by
  induction calls generalizing w with
  | nil => exact capturing
  | cons c calls ih =>
    have first := (capturing.step copies (fun _ => none) fair.1 (other c (by simp))).1
    exact ih first fair.2 fun c' member => other c' (List.mem_cons_of_mem _ member)

theorem after (copies : AddsCopies addCopy) {calls : List HookCall}
    (capturing : Capturing parent p true w s)
    (fair : Along (HookCall.step addCopy) HookCall.Fair w calls)
    (other : ∀ c ∈ calls, c.event ≠ .hooking p) :
    Capturing parent p true (calls.foldl (HookCall.step addCopy) w)
      (calls.foldl (Capture.next parent p) s) := by
  induction calls generalizing w s with
  | nil => exact capturing
  | cons c calls ih =>
    have first := (capturing.step copies (by simp) fair.1 (other c (by simp))).1
    exact ih first fair.2 fun c' member => other c' (List.mem_cons_of_mem _ member)

end Capturing

/-- After its only `hooking` a parent's body shows the buffers of the chains that are
passed for the captured subrequests, and no call on one of these reaches a next filter. -/
theorem captured_complete (copies : AddsCopies addCopy) {w : HookWorld ChainMem}
    (generous : w.Generous) (none : ∀ r, (w.requests r).ctx = none) {p : Nat} {m : ChainMem}
    {before after : List HookCall} (once : ∀ c ∈ before ++ after, c.event ≠ .hooking p)
    (fair : Along (HookCall.step addCopy) HookCall.Fair w (before ++ ⟨m, .hooking p⟩ :: after)) :
    ∃ hooked, (before ++ [HookCall.mk m (.hooking p)]).foldl (HookCall.step addCopy) w = hooked ∧
      (∃ views, Chained (after.foldl (HookCall.step addCopy) hooked).chains
          ((after.foldl (HookCall.step addCopy) hooked).view p).body views ∧
        views.map LinkView.buf =
          (after.foldl (Capture.next (fun r => (w.requests r).parent) p) {}).bufs) ∧
      ∀ prior c rest, after = prior ++ c :: rest →
        ∀ r ∈ (prior.foldl (Capture.next (fun r => (w.requests r).parent) p) {}).children,
          c.request = some r →
            (c.step addCopy (prior.foldl (HookCall.step addCopy) hooked)).log =
              (prior.foldl (HookCall.step addCopy) hooked).log := by
  obtain ⟨early, late⟩ := along_append.mp fair
  have unhooked := (Capturing.fresh generous none p).before copies rfl early
    fun c member => once c (List.mem_append_left _ member)
  have brought := unhooked.brought late.1
  have started := brought.start rfl (step_hooking addCopy brought.generous p)
  have others : ∀ c ∈ after, c.event ≠ .hooking p :=
    fun c member => once c (List.mem_append_right _ member)
  refine ⟨_, rfl, ?_, ?_⟩
  · rw [List.foldl_append]
    have final := started.after copies late.2 others
    obtain ⟨bodies, held, shown⟩ := final.bodies
    exact ⟨bodies p, held.chained p, shown⟩
  · rintro prior c rest rfl r member request
    rw [List.foldl_append]
    obtain ⟨first, second⟩ := along_append.mp late.2
    have reached := started.after copies first
      fun c' inside => others c' (List.mem_append_left _ inside)
    exact (reached.step copies (by simp) second.1 (others c (by simp))).2 rfl r member request

theorem HookCall.Fair.of_collect {w : HookWorld ChainMem} {c : HookCall}
    (generous : c.chains.Generous)
    (keeps : ∀ q, ((w.chains.collect w.chains.links.size (w.view q).body).getD []).map
        LinkView.link = ((c.chains.collect c.chains.links.size (w.view q).body).getD []).map
          LinkView.link ∧ (c.chains.collect c.chains.links.size (w.view q).body).isSome)
    (passed : ∀ r pr input rc, c.event = .body r (some input) rc → (w.view r).doHook = true →
      (w.view r).parent = some pr → ∃ ins ts,
        c.chains.collect c.chains.links.size (some input) = some ins ∧
        c.chains.collect c.chains.links.size (w.view pr).body = some ts ∧
        LinkView.Apart ts ins) : c.Fair w where
  generous := generous
  keeps q views held := by
    obtain ⟨same, shown⟩ := keeps q
    obtain ⟨views', found⟩ := Option.isSome_iff_exists.mp shown
    refine ⟨views', .of_collect found, ?_⟩
    rw [held.collect held.length_le, found] at same
    exact same.symm
  passed r pr input rc event hooked above := by
    obtain ⟨ins, ts, found, target, apart⟩ := passed r pr input rc event hooked above
    refine ⟨ins, .of_collect found, fun views held => ?_⟩
    rw [held.collect held.length_le] at target
    exact Option.some.inj target ▸ apart

private def twoChains : ChainMem where
  links := ⟨[⟨0, none⟩, ⟨1, some 2⟩, ⟨2, none⟩]⟩
  bufs := ⟨[{}, {}, {}, {}]⟩

private def firstCopied : ChainMem where
  links := ⟨[⟨0, none⟩, ⟨1, some 2⟩, ⟨2, none⟩, ⟨0, none⟩]⟩
  bufs := ⟨[{}, {}, {}, {}]⟩

/-- Both were copied, and the first link was used again for another buffer. -/
private def bothCopied : ChainMem where
  links := ⟨[⟨3, none⟩, ⟨1, some 2⟩, ⟨2, none⟩, ⟨0, some 4⟩, ⟨1, some 5⟩, ⟨2, none⟩]⟩
  bufs := ⟨[{}, {}, {}, {}]⟩

private def family : HookWorld ChainMem where
  requests r := { parent := if r = 1 ∨ r = 2 then some 0 else none }
  chains := twoChains

private def interleaved : List HookCall :=
  [⟨twoChains, .header 1 0⟩, ⟨twoChains, .body 1 (some 0) 0⟩, ⟨firstCopied, .header 2 0⟩,
    ⟨firstCopied, .body 2 (some 1) 0⟩, ⟨bothCopied, .body 3 (some 1) 0⟩,
    ⟨bothCopied, .body 1 (some 0) 0⟩]

theorem captured_complete_interleaved :
    ∃ w views, (HookCall.mk twoChains (.hooking 0) :: interleaved).foldl
        (HookCall.step ngxChainAddCopy) family = w ∧
      Chained w.chains (w.view 0).body views ∧ views.map LinkView.buf = [0, 1, 2, 3] ∧
      w.log = [.body 3 (some 1)] := by
  have calm : ∀ links bufs, ChainMem.Generous { links, bufs } := fun _ _ g member => by cases member
  have fair : Along (HookCall.step ngxChainAddCopy) HookCall.Fair family
      ([] ++ ⟨twoChains, .hooking 0⟩ :: interleaved) := by
    refine ⟨.of_collect (calm _ _) (fun _ => ⟨rfl, rfl⟩) (by simp),
      .of_collect (calm _ _) ?_ (by simp), .of_collect (calm _ _) ?_ ?_,
      .of_collect (calm _ _) ?_ (by simp), .of_collect (calm _ _) ?_ ?_,
      .of_collect (calm _ _) ?_ ?_, .of_collect (calm _ _) ?_ ?_, trivial⟩
    · rintro (_ | _ | _ | q) <;> exact ⟨rfl, rfl⟩
    · rintro (_ | _ | _ | q) <;> exact ⟨rfl, rfl⟩
    · rintro r pr input rc event - above
      cases event
      cases above
      exact ⟨[⟨0, 0, {}⟩], [], rfl, rfl, by simp [LinkView.Apart]⟩
    · rintro (_ | _ | _ | q) <;> exact ⟨rfl, rfl⟩
    · rintro (_ | _ | _ | q) <;> exact ⟨rfl, rfl⟩
    · rintro r pr input rc event - above
      cases event
      cases above
      exact ⟨[⟨1, 1, {}⟩, ⟨2, 2, {}⟩], [⟨3, 0, {}⟩], rfl, rfl, by simp [LinkView.Apart]⟩
    · rintro (_ | _ | _ | q) <;> exact ⟨rfl, rfl⟩
    · rintro r pr input rc event - above
      cases event
      cases above
    · rintro (_ | _ | _ | q) <;> exact ⟨rfl, rfl⟩
    · rintro r pr input rc event - above
      cases event
      cases above
      exact ⟨[⟨0, 3, {}⟩], [⟨3, 0, {}⟩, ⟨4, 1, {}⟩, ⟨5, 2, {}⟩], rfl, rfl, by simp [LinkView.Apart]⟩
  obtain ⟨w, reached, ⟨views, held, shown⟩, -⟩ := captured_complete (p := 0) (w := family)
    ngxChainAddCopy_adds (fun g member => by simp [family] at member) (fun _ => rfl)
    (by simp [interleaved]) fair
  subst reached
  exact ⟨_, views, rfl, held, shown, rfl⟩

end Run

end NdgDataHookHandler

end NgxCpp
