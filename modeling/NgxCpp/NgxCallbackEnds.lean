import NgxCpp.Foundation.Ensures
import NgxCpp.NgxDirective
import NgxCpp.NgxSubRequestHandler
import NgxCpp.NdgDataHook
import NgxCpp.NdgVariablesHandler
import NgxCpp.NdgUpstreamAttempts
import NgxCpp.NdgStreamDiscardRun
import NgxCpp.NdgHandlers
import NgxCpp.NgxChainTraversal
import NgxCpp.NdgFilterFailure

/-! How the functions that the modules hand to nginx end: a handler that returns the codes of
what is thrown in it returns a result code, where it is called as nginx calls it. -/

namespace NgxCpp
open Foundation
open Exec (Ends Leads)

/-- The codes from `NGX_OK` down to `NGX_ABORT`, and the statuses of responses. -/
def ResultCode (rc : Int) : Prop := -6 ≤ rc ∧ rc ≤ 0 ∨ 100 ≤ rc ∧ rc ≤ 599

instance (rc : Int) : Decidable (ResultCode rc) := inferInstanceAs (Decidable (_ ∨ _))

section Codes

variable {ε σ α : Type} {s : σ}

def Coded (e : NgxException) (_ : σ) : Prop := ResultCode e.code

theorem coded_ends {x : Ngx σ Int} {thrown : NgxException → σ → Prop}
    (body : Ends x s (fun rc _ => ResultCode rc) Coded) :
    Ends (Exec.catching x fun e => pure e.code) s (fun rc _ => ResultCode rc) thrown :=
  body.catching fun _ _ code => .pure code

variable {thrown : NgxException → σ → Prop}

theorem requireCond_ends {cond : Bool} {e : Int} (threw : thrown ⟨e⟩ s) :
    Ends (NgxException.requireCond cond e) s (fun _ t => t = s) thrown := by
  cases cond with
  | true => exact .pure rfl
  | false => exact .raise threw

theorem requireCode_ends {rc x : Int} (threw : thrown ⟨rc⟩ s) :
    Ends (NgxException.requireCode rc x) s (fun _ t => t = s) thrown :=
  requireCond_ends threw

theorem fail_ends {cond : Bool} {e : Int} (threw : thrown ⟨e⟩ s) :
    Ends (NgxException.fail cond e) s (fun _ t => t = s) thrown := by
  cases cond with
  | true => exact .raise threw
  | false => exact .pure rfl

theorem error_code : ResultCode ngxError := by decide

end Codes

section Configurations

variable {C T : Type}

theorem alloc_ends (made : T) (grants : PoolAnswers) :
    Ends (NgxPool.alloc made) grants (fun _ _ => True) Coded := by
  have asked : NgxPool.answer grants = .ok (granted grants) grants.tail := rfl
  exact .bind_ok asked ((requireCond_ends error_code).bind fun _ _ _ => .pure trivial)

theorem upstreamCreate_ends (pagesize : Nat) (grants : PoolAnswers) :
    Ends (NdgUpstreamConf.create pagesize) grants (fun _ _ => True) Coded :=
  (alloc_ends _ grants).bind fun _ _ _ => .pure trivial

theorem legacy_setEcho_ends (line : Line 1) (compiled : Int)
    (w : ConfWorld Legacy.NdgEchoConf) :
    Ends (Legacy.NdgEchoInit.setEcho line compiled) w (fun _ _ => True) fun _ _ => True := by
  obtain ⟨source, read⟩ := line.get_ok (Nat.le_refl 1) w
  refine .bind_ok read (.bind (P := fun _ _ => True) ?_ fun _ _ _ =>
    .bind_ok (Exec.modify_apply _ _) (.pure trivial))
  exact .bind_ok (Exec.modify_apply _ _) ((requireCode_ends trivial).imp fun _ _ _ => trivial)

theorem setUpstreamPass_ends (line : Line 1) (add : NgxStr → Option Nat)
    (w : ConfWorld NdgUpstreamConf) :
    Ends (NdgUpstreamInit.setUpstreamPass line add) w (fun _ _ => True) fun _ _ => True := by
  obtain ⟨url, read⟩ := line.get_ok (Nat.le_refl 1) w
  refine .bind_ok read (.bind_ok (Exec.modify_apply _ _) ?_)
  split
  · exact .pure trivial
  · exact .bind_ok (Exec.modify_apply _ _) (.pure trivial)

theorem setEcho_ends (slot : ConfRc) (w : ConfWorld NdgEchoConf) :
    Ends (NdgEchoInit.setEcho slot) w (fun _ _ => True) fun _ _ => True := by
  unfold NdgEchoInit.setEcho
  split
  · exact .pure trivial
  · exact .bind_ok (Exec.modify_apply _ _) (.pure trivial)

theorem variablesInit_ends (t : VariableTable VariableGetter) :
    Ends (NgxVariables.init (some NdgVariablesHandler.getVars)) t (fun rc _ => ResultCode rc)
      fun _ _ => True := by
  have ended : ∃ v ∈ NdgVariablesHandler.getVars, v.name = [] := ⟨{ name := [] }, by decide, rfl⟩
  obtain ⟨answers, done⟩ := NgxVariables.initFrom_eq ended t
  by_cases refused : NgxVariables.Refused (some NdgVariablesHandler.getVars) t.answers
  · rw [if_pos refused] at done
    exact .of_raised done trivial
  · rw [if_neg refused] at done
    exact .of_ok done (by decide)

theorem phaseInit_ends (f : PhaseHandler) (p : HttpPhase) (pushed : Bool) (w : ConfWorld Unit) :
    Ends (do
      NgxHttpCoreModule.phaseHandler f p pushed
      pure ngxOk) w (fun rc _ => ResultCode rc) Coded := by
  have added : Ends (NgxHttpCoreModule.phaseHandler f p pushed) w (fun _ _ => True) Coded :=
    (requireCond_ends error_code).bind fun _ _ _ => .modify trivial
  exact added.bind fun _ _ _ => .pure (by decide)

theorem setLoadBalance_ends (w : ConfWorld Unit) :
    Ends NdgLoadBalanceInit.setLoadBalance w (fun _ _ => True) Coded := by
  have set : Ends (NgxHttpUpstreamModule.init .loadBalance) w (fun _ _ => True) Coded :=
    .bind_ok (Exec.gets_apply _ _) ((fail_ends error_code).bind fun _ _ _ => .modify trivial)
  exact set.bind fun _ _ _ => .pure trivial

end Configurations

section Samples

open NdgTestHandler in
theorem ask_ends (w : TestWorld) : Ends ask w (fun _ _ => True) Coded :=
  .zoom (alloc_ends () w.grants)

theorem asks_ends (n : Nat) (w : TestWorld) :
    Ends (Exec.each (fun _ => NdgTestHandler.ask) (List.range n)) w (fun _ _ => True) Coded :=
  .each _ (fun _ _ w _ => ask_ends w) trivial

theorem testHandler_ends (conf : NdgTestConf) (w : TestWorld) :
    Ends (NdgTestHandler.handler conf) w (fun rc _ => ResultCode rc) Coded := by
  refine coded_ends ?_
  split
  · exact .pure (by decide)
  · refine (asks_ends 3 w).bind fun _ w1 _ => (asks_ends 4 w1).bind fun _ w2 _ => ?_
    refine (asks_ends 3 w2).bind fun _ w3 _ => (ask_ends w3).bind fun _ w4 _ => ?_
    refine (asks_ends 2 w4).bind fun _ w5 _ => ?_
    exact .bind_ok (Exec.modify_apply _ _) (.pure (by decide))

theorem shmemHandler_ends (conf : NdgShmemConf) (opens : UInt64 → Bool) (constructs : Bool)
    (sent : Int) (w : ShmemWorld) :
    Ends (NdgShmemHandler.handler conf opens constructs sent) w (fun rc _ => ResultCode rc)
      fun _ _ => True := by
  refine Leads.catching (F := fun e _ => e = .interprocess) ?_ fun e t same => ?_
  case refine_2 =>
    subst same
    exact .raise trivial
  have opened : Ends (NdgShmemHandler.openSegment conf opens) w (fun _ _ => True)
      fun e _ => e = .interprocess := by
    have outcome := NdgShmemHandler.openSegment_eq conf opens w
    split at outcome
    · exact .of_ok outcome trivial
    · exact .of_raised outcome rfl
  refine opened.bind fun _ w1 _ => ?_
  have found : Ends (NdgShmemHandler.findCounter constructs) w1 (fun _ _ => True)
      fun e _ => e = .interprocess := by
    have outcome := NdgShmemHandler.findCounter_eq constructs w1
    split at outcome
    · exact .of_ok outcome trivial
    · exact .of_raised outcome rfl
  exact found.bind fun _ w2 _ => .bind_ok (Exec.modify_apply _ _) (.pure (by decide))

theorem onEvent_ends {ev o : Nat} {s : NgxTimer TimerFunc}
    (data : (s.evs.timers.events ev).data = some o) (func : (s.evs.func o).isSome = true) :
    Ends (NgxTimer.onEvent ev) s (fun _ _ => True) fun _ _ => True := by
  obtain ⟨f, given⟩ := Option.isSome_iff_exists.mp func
  refine .bind_ok (Exec.deref_some data) (.bind (P := fun _ _ => True) ?_ fun _ _ _ =>
    .modify trivial)
  refine .bind_ok (Exec.gets_apply _ _) ?_
  split
  · exact .bind_ok (Exec.deref_some given) (.modify trivial)
  · exact .pure trivial

theorem loadBalanceInit_ends {rc : Int} (code : ResultCode rc) (present : Option PeerInit) :
    Ends (NdgLoadBalanceHandler.init rc) present (fun rc _ => ResultCode rc) Coded := by
  refine coded_ends ?_
  have blocked : Ends (NgxLoadBalance.initBlock rc) present (fun _ _ => True) Coded :=
    .bind_ok (Exec.modify_apply _ _) ((requireCode_ends code).bind fun _ _ _ => .modify trivial)
  exact blocked.bind fun _ _ _ => .pure (by decide)

theorem initPeer_ends (granted : Bool) (rc : Int) (u : Upstream) :
    Ends (NdgLoadBalanceHandler.initPeer granted rc) u (fun rc _ => ResultCode rc)
      fun _ _ => True := by
  have asked : Ends (initRoundRobinPeer rc) { u with data := some {} } (fun _ _ => True)
      fun _ _ => True := by
    unfold initRoundRobinPeer
    split
    · exact .bind_ok rfl (.bind_ok (Exec.modify_apply _ _) (.pure trivial))
    · exact .pure trivial
  have made : Ends (NgxLoadBalance.init .callback none granted rc) u (fun _ _ => True)
      fun _ _ => True := by
    refine (requireCond_ends trivial).bind fun _ t same => ?_
    subst same
    refine .bind_ok (Exec.modify_apply _ _) (asked.bind fun _ _ _ => ?_)
    exact (requireCode_ends trivial).bind fun _ _ _ => .modify trivial
  exact made.bind fun _ _ _ => .pure (by decide)

theorem peer_get_ends {u : Upstream} (data : u.data.isSome = true) (peers : u.peers.peer ≠ [])
    (rand : Nat) {chosen : Option Nat} (inside : ∀ i ∈ chosen, i < u.peers.peer.length) :
    Ends (NdgLoadBalanceCallback.get rand chosen) u (fun rc _ => ResultCode rc)
      fun _ _ => True := by
  obtain ⟨d, data⟩ := Option.isSome_iff_exists.mp data
  refine .bind_ok (Exec.deref_some data) (.bind_ok (Exec.gets_apply _ _)
    (.bind_ok (Exec.modify_apply _ _) ?_))
  have inhabited : 0 < u.peers.peer.length := List.length_pos_iff.mpr peers
  split
  · cases chosen with
    | none => exact .pure (by decide)
    | some i =>
      have picked := List.getElem?_eq_getElem (inside i rfl)
      exact .bind_ok rfl (.bind_ok (Exec.deref_some picked) (.bind_ok (Exec.modify_apply _ _)
        (.pure (by decide))))
  · rw [if_neg (Nat.ne_of_gt inhabited)]
    have picked := List.getElem?_eq_getElem (Nat.mod_lt rand inhabited)
    exact .bind_ok (Exec.deref_some picked) (.bind_ok (Exec.modify_apply _ _)
      (.pure (by decide)))

end Samples

section Sessions

theorem discardRead_ends {i : ReadInput} {s : DiscardSession}
    (results : (s.timers.events s.rev).ready = true → ∃ n ∈ i.received, n ≤ 0) :
    Ends (NdgStreamDiscardHandler.discardReadHandler i) s (fun _ _ => True) fun _ _ => True := by
  refine Leads.catching (F := fun _ _ => True) ?_ fun _ _ _ => .modify trivial
  refine .bind_ok (Exec.gets_apply _ _) ((fail_ends trivial).bind fun _ t same => ?_)
  subst same
  refine .bind_ok (Exec.gets_apply _ _) ((fail_ends trivial).bind fun _ t same => ?_)
  subst same
  have drained : Ends (NdgStreamDiscardHandler.drain i (t.timers.events t.rev).ready) t
      (fun _ _ => True) fun _ _ => True := by
    obtain ⟨reusable, ⟨e, threw⟩ | ⟨returned, -⟩⟩ :=
      NdgStreamDiscardHandler.drain_cases results t
    · exact .of_raised threw trivial
    · exact .of_ok returned trivial
  refine drained.bind fun _ t _ => .bind_ok (Exec.gets_apply _ _)
    (.bind_ok (Exec.modify_apply _ _) ?_)
  refine Leads.bind (P := fun _ _ => True) ?_ fun _ _ _ =>
    (requireCode_ends trivial).imp fun _ _ _ => trivial
  unfold NgxReadEvent.ngxHandleReadEvent
  split
  · exact .bind_ok (Exec.modify_apply _ _) (.pure trivial)
  · exact .pure trivial

theorem discardHandler_ends {i : ReadInput} {s : DiscardSession}
    (results : (s.timers.events s.rev).ready = true → ∃ n ∈ i.received, n ≤ 0) :
    Ends (NdgStreamDiscardHandler.handler i) s (fun _ _ => True) fun _ _ => True := by
  refine Leads.catching (F := fun _ _ => True) ?_ fun _ _ _ => .modify trivial
  have called : Ends (NdgStreamDiscardHandler.discardReadHandler i) { s with handlersSet := true }
      (fun _ _ => True) fun _ _ => True := discardRead_ends results
  exact .bind_ok (Exec.modify_apply _ _) called

theorem waitFor_ends (i : WriteInput) (timer : UInt64) (reset : Bool) (s : TimeSession) :
    Ends (NgxWriteEvent.waitFor i timer reset) s (fun _ _ => True) fun _ _ => True :=
  .bind_ok (Exec.modify_apply _ _) ((requireCode_ends trivial).imp fun _ _ _ => trivial)

theorem sendTime_ends (i : WriteInput) (s : TimeSession) :
    Ends (NdgStreamTimeHandler.sendTime i) s (fun _ _ => True) fun _ _ => True := by
  have buffer : Ends (NdgStreamTimeHandler.tempBuffer i 20) s (fun _ _ => True) fun _ _ => True :=
    (requireCond_ends trivial).bind fun _ _ _ => .pure trivial
  refine buffer.bind fun buf s1 _ => .bind_ok (Exec.gets_apply _ _) ?_
  have link : Ends (NdgStreamTimeHandler.chainOf i (buf.printf (ngxFormatTime s1.now)).finish) s1
      (fun _ _ => True) fun _ _ => True :=
    (requireCond_ends trivial).bind fun _ _ _ => .pure trivial
  refine link.bind fun chain s2 _ => ?_
  have sent : Ends (NgxStreamSession.send i chain) s2 (fun _ _ => True) fun _ _ => True :=
    .bind_ok (Exec.modify_apply _ _) ((fail_ends trivial).imp fun _ _ _ => trivial)
  refine sent.bind fun _ s3 _ => .bind_ok (Exec.gets_apply _ _) ?_
  split
  · exact waitFor_ends i 100 false s3
  · exact .modify trivial

theorem timeWrite_ends (i : WriteInput) (s : TimeSession) :
    Ends (NdgStreamTimeHandler.timeWriteHandler i) s (fun _ _ => True) fun _ _ => True := by
  refine Leads.catching (F := fun _ _ => True) ?_ fun _ _ _ => .modify trivial
  refine .bind_ok (Exec.gets_apply _ _) ((fail_ends trivial).bind fun _ t same => ?_)
  refine .bind_ok (Exec.gets_apply _ _) ((fail_ends trivial).bind fun _ t same => ?_)
  split
  · exact waitFor_ends i 100 false t
  · exact sendTime_ends i t

theorem timeHandler_ends (i : WriteInput) (s : TimeSession) :
    Ends (NdgStreamTimeHandler.handler i) s (fun _ _ => True) fun _ _ => True :=
  (timeWrite_ends i s).catching fun _ _ _ => .pure trivial

end Sessions

section Upstream

/-- An upstream is there, with a chain for the request that ends, if there is any. -/
def UpstreamRequest.Created (r : UpstreamRequest) : Prop :=
  ∃ u ps, r.upstream = some u ∧ Linked r.chains.nextLink u.requestBufs ps

theorem upstreamHandler_ends (conf : NdgUpstreamConf) (created : Int) {discarded : Int}
    (code : ResultCode discarded) (r : UpstreamRequest) :
    Ends (NdgUpstreamHandler.handler conf created discarded) r (fun rc _ => ResultCode rc)
      Coded := by
  refine coded_ends (.bind_ok (Exec.gets_apply _ _) ?_)
  split
  · exact .pure (by decide)
  have made : Ends (NgxUpstreamHelper.create created) r (fun _ t => t.upstream.isSome = true)
      Coded := by
    refine .bind_ok (Exec.gets_apply _ _) ?_
    split
    case isTrue there => exact .pure there
    case isFalse =>
      refine .bind_ok (Exec.modify_apply _ _) ?_
      by_cases well : created = ngxOk
      · rw [if_pos well, well]
        exact .pure rfl
      · have refused : (created == ngxOk) = false := by simpa using well
        rw [refused]
        exact .raise (show ResultCode ngxHttpInternalServerError by decide)
  refine made.bind fun _ r1 there => ?_
  obtain ⟨u, present⟩ := Option.isSome_iff_exists.mp there
  refine .bind_ok (.trans (Exec.bind_ok _ (Exec.deref_some present)) (Exec.modify_apply _ _)) ?_
  refine .bind_ok (.trans (Exec.bind_ok _ (Exec.deref_some rfl)) (Exec.modify_apply _ _)) ?_
  exact (requireCode_ends code).bind fun _ _ _ =>
    .bind_ok (Exec.modify_apply _ _) (.pure (by decide))

theorem processHeader_ends {r : UpstreamRequest} (there : r.upstream.isSome = true) (ram : Ram) :
    Ends (NdgUpstreamCallback.processHeader ram) r (fun rc _ => ResultCode rc) Coded := by
  obtain ⟨u, present⟩ := Option.isSome_iff_exists.mp there
  refine .bind_ok (Exec.deref_some present) ?_
  split
  · exact .pure (by decide)
  · exact .bind_ok (.trans (Exec.bind_ok _ (Exec.deref_some present)) (Exec.modify_apply _ _))
      (.pure (by decide))

theorem chain_append_ends {m : ChainMem} {p : Nat} {ps : List Nat}
    (linked : Linked m.nextLink (some p) ps) (ch : Nat) :
    Ends (NgxChain.append p ch) m (fun _ _ => True) Coded := by
  obtain ⟨q, ps, rfl⟩ := List.exists_cons_of_ne_nil fun none : ps = [] => by
    simpa [none] using linked.head_eq
  obtain rfl : q = p := by simpa using linked.head_eq
  obtain ⟨front, last, split⟩ := (List.eq_nil_or_concat' (q :: ps)).resolve_left (by simp)
  obtain ⟨b, at_last⟩ := ChainMem.link_at _ (split ▸ linked)
  have found := NgxChain.tail_eq linked m.links.size (ChainMem.length_le linked)
  simp only [split, List.getLast_concat] at found
  exact .bind_ok (Exec.gets_apply _ _) (.bind_ok found (.bind_ok (readLink_ok at_last)
    (.modify trivial)))

theorem request_ends {r : UpstreamRequest} (created : r.Created) (bufs : Nat) :
    Ends (NgxUpstream.request bufs) r (fun _ _ => True) Coded := by
  obtain ⟨u, ps, upstream, linked⟩ := created
  refine .bind_ok (Exec.deref_some upstream) ?_
  cases head : u.requestBufs with
  | none => exact .bind_ok (Exec.deref_some upstream) (.modify trivial)
  | some p => exact .zoom (chain_append_ends (head ▸ linked) bufs)

theorem UpstreamRequest.Created.requesting {r : UpstreamRequest} (created : r.Created)
    (text : NgxStr) : (NdgUpstreamCallback.requesting r text).Created := by
  obtain ⟨u, ps, upstream, linked⟩ := created
  refine ⟨u, ps, upstream, linked.frame fun p member => ?_⟩
  obtain ⟨front, back, rfl⟩ := List.append_of_mem member
  obtain ⟨b, at_p⟩ := ChainMem.link_at front linked
  have kept : (NdgUpstreamCallback.requesting r text).chains.links.read p = some ⟨b, back.head?⟩ :=
    Heap.read_alloc at_p
  rw [ChainMem.nextLink, ChainMem.nextLink, kept, at_p]

theorem createRequest_ends {r : UpstreamRequest} (created : r.Created)
    (quiet : r.logLevel < ngxLogDebug) (xxxx : NgxStr) :
    Ends (NdgUpstreamCallback.createRequest xxxx) r (fun rc _ => ResultCode rc) Coded := by
  have outcome := createRequest_eq xxxx r
  dsimp only at outcome
  split at outcome
  case isFalse => exact .of_raised outcome error_code
  split at outcome
  case isFalse => exact .of_raised outcome error_code
  let text := NdgUpstreamCallback.proxyText xxxx r.args
  let asking := NdgUpstreamCallback.requesting r text
  have printed : NgxLogDebug.printStr text asking = .ok () asking :=
    printStr_quiet (r := asking) quiet text
  have rest : Ends (do
      NgxLogDebug.printStr text
      NgxUpstream.request r.chains.links.size
      pure ngxOk : Ngx UpstreamRequest Int) asking (fun rc _ => ResultCode rc) Coded :=
    .bind_ok printed ((request_ends (created.requesting text) _).bind fun _ _ _ =>
      .pure (by decide))
  rwa [Ends, Leads, outcome]

theorem createRequest_ne_ok {r t : UpstreamRequest} {rc : Int} {xxxx : NgxStr}
    (debug : ngxLogDebug ≤ r.logLevel) :
    NdgUpstreamCallback.createRequest xxxx r ≠ .ok rc t := by
  rw [createRequest_eq]
  split
  · split
    · let text := NdgUpstreamCallback.proxyText xxxx r.args
      have printed := printStr_debug (r := NdgUpstreamCallback.requesting r text) debug text
      rw [Exec.bind_apply, printed]
      simp
    · simp
  · simp

end Upstream

section Posts

variable {σ : Type} {w : PostWorld σ}

/-- A callback of the user that returns a result code, or throws one. -/
def CodedCall (result : Except NgxException Int) : Prop :=
  match result with
  | .ok rc => ResultCode rc
  | .error e => ResultCode e.code

theorem callUser_ends {f : σ → Except NgxException Int × σ} (coded : CodedCall (f w.user).1) :
    Ends (callUser f) w (fun rc _ => ResultCode rc) Coded := by
  have called := NgxSubRequestHandler.callUser_eq f w
  cases ended : (f w.user).1 with
  | ok rc =>
    rw [ended] at coded called
    exact .of_ok called coded
  | error e =>
    rw [ended] at coded called
    exact .of_raised called coded

theorem subPost_ends {T : PostCallback σ} {r pr data : Nat} {rc : Int} (ph : Phase)
    (child : (w.requests.read r).bind PostRequest.parent = some pr)
    (parent : (w.requests.read pr).isSome = true)
    (coded : CodedCall (T.subPost r data rc w.user).1) :
    Ends (NgxSubRequestHandler.subPost T ph r data rc) w (fun rc _ => ResultCode rc) Coded := by
  obtain ⟨request, parent⟩ := Option.isSome_iff_exists.mp parent
  refine coded_ends (.bind_ok (Exec.deref_some child) (.bind_ok (Exec.deref_some parent) ?_))
  exact .bind_ok (Exec.modify_apply _ _) (callUser_ends coded)

theorem parentPost_ends (T : PostCallback σ) (r : Nat) (w : PostWorld σ) :
    Ends (NgxSubRequestHandler.parentPost T r) w (fun _ _ => True) Coded :=
  .of_ok (NgxSubRequestHandler.parentPost_eq T w r) trivial

end Posts

section Subrequest

variable {V : Type} {w : RequestMem V} {r n : Nat}

def RequestMem.Holds (w : RequestMem V) (r : Nat) : Prop :=
  ∃ rq sh, w.requests.read r = some rq ∧ Represents w.headers rq.headersIn sh

theorem ngxHttpSubrequest_ends {rq : NgxHttpRequest} {hdr : NgxListT} {part : NgxListPart}
    (request : w.requests.read r = some rq) (header : w.headers.lists.read rq.headersIn = some hdr)
    (found : w.headers.parts.read hdr.part = some part) :
    Ends (ngxHttpSubrequest r) w (fun made w' => match made with
      | .ok sr => sr = w.requests.size ∧ ∃ grants, w' = w.subrequest r rq hdr part grants
      | .error rc => ResultCode rc) Coded := by
  refine .bind_ok (readRequest_ok request) (.bind_ok (onHeaders_ok (palloc_eq _)) ?_)
  split
  · exact .bind_ok (onHeaders_ok (readList_ok header)) (.bind_ok (onHeaders_ok (readPart_ok found))
      (.of_ok rfl ⟨rfl, w.headers.grants.tail, rfl⟩))
  · exact .pure error_code

theorem create_ends (held : w.Holds r) :
    Ends (NgxSubRequest.create false n r) w (fun _ _ => True) Coded := by
  obtain ⟨rq, sh, request, rep⟩ := held
  obtain ⟨v, after, -, -, found⟩ := rep.first_part
  let w1 : RequestMem V :=
    { w with headers := { w.headers with grants := w.headers.grants.tail } }
  refine .bind_ok (onHeaders_ok (palloc_eq _)) ?_
  refine (requireCond_ends error_code).bind fun _ t same => ?_
  subst same
  refine (ngxHttpSubrequest_ends (w := w1) request rep.header found).bind fun made w2 answer => ?_
  cases made with
  | error rc => exact .raise answer
  | ok sr =>
    obtain ⟨rfl, grants, rfl⟩ := answer
    exact .bind_ok (fixLast_subrequest (w := w1) grants request rep.header)
      (.bind_ok rfl (.pure trivial))

theorem subrequestHandler_ends (held : w.Holds r) (method n : Nat) :
    Ends (NdgSubrequestHandler.handler method n r) w (fun rc _ => ResultCode rc) Coded := by
  refine coded_ends ?_
  split
  · exact .pure (by decide)
  · exact (create_ends held).bind fun _ _ _ => .pure (by decide)

end Subrequest

section Hook

open NdgDataHookHandler

variable {M : Type} {w : HookWorld M} {r : Nat}

theorem data_ends (q : Nat) (w : HookWorld M) : Ends (data q) w (fun _ _ => True) Coded := by
  cases found : (w.requests q).ctx with
  | some ctx => exact .of_ok (data_found found) trivial
  | none =>
    have empty : ctxEmpty q w = .ok true w := by rw [ctxEmpty_apply, found]; rfl
    have asked : ∃ granted w', hookAlloc w = .ok granted w' := by
      unfold hookAlloc
      cases w.grants with
      | nil => exact ⟨_, _, rfl⟩
      | cons granted rest => exact ⟨_, _, rfl⟩
    obtain ⟨granted, w', asked⟩ := asked
    refine .bind_ok empty (.bind_ok asked ?_)
    split
    · exact .bind_ok (Exec.modify_apply _ _) (.pure trivial)
    · exact .raise error_code

theorem hookHeader_ends {next : Nat → Ngx (HookWorld M) Int}
    (answers : Ends (next r) w (fun rc _ => ResultCode rc) Coded) :
    Ends (headerFilter next r) w (fun rc _ => ResultCode rc) Coded := by
  refine coded_ends (.bind_ok (Exec.gets_apply _ _) ?_)
  cases (w.requests r).parent with
  | none => exact answers
  | some pr =>
    refine .bind_ok (Exec.gets_apply _ _) ?_
    cases found : (w.requests pr).ctx with
    | none => exact answers
    | some ctx =>
      refine .bind_ok (data_found found) ?_
      split
      · exact answers
      · exact (data_ends r w).bind fun _ _ _ => .bind_ok (Exec.modify_apply _ _)
          (.bind_ok (Exec.modify_apply _ _) (.bind_ok (Exec.modify_apply _ _)
            (.pure (by decide))))

theorem hookBody_ends {addCopy : Option Nat → Nat → M → Int × Option Nat × M}
    {next : Nat → Option Nat → Ngx (HookWorld M) Int} {input : Option Nat}
    (answers : Ends (next r input) w (fun rc _ => ResultCode rc) Coded)
    (copies : ∀ body chain m, ResultCode (addCopy body chain m).1)
    (parent : w.doHook r = true → (w.requests r).parent.isSome = true) :
    Ends (bodyFilter addCopy next r input) w (fun rc _ => ResultCode rc) Coded := by
  refine coded_ends ?_
  cases input with
  | none => exact .pure (by decide)
  | some chain =>
    refine .bind_ok (Exec.gets_apply _ _) ?_
    cases found : (w.requests r).ctx with
    | none => exact answers
    | some ctx =>
      refine .bind_ok (data_found found) ?_
      split
      · exact answers
      case isFalse hooks =>
        have marked : w.doHook r = true := by simpa [HookWorld.doHook, found] using hooks
        obtain ⟨pr, child⟩ := Option.isSome_iff_exists.mp (parent marked)
        have copied : Ends (chainAddCopy addCopy pr chain) w (fun rc _ => ResultCode rc) Coded :=
          (data_ends pr w).bind fun ctx w1 _ => .bind_ok (Exec.gets_apply _ _)
            (.bind_ok (Exec.modify_apply _ _) (.bind_ok (Exec.modify_apply _ _)
              (.pure (copies _ _ _))))
        refine .bind_ok (Exec.deref_some child) (copied.bind fun rc w1 code => ?_)
        exact (requireCode_ends code).bind fun _ _ _ => .pure (by decide)

end Hook

section Pool

variable {m : ChainMem}

theorem buffer_ends (m : ChainMem) : Ends NgxPool.buffer m (fun b t => b = m.bufs.size ∧
    t = { m with bufs := m.bufs.alloc {}, grants := m.grants.tail }) Coded := by
  have outcome := buffer_eq m
  split at outcome
  · exact .of_ok outcome ⟨rfl, rfl⟩
  · exact .of_raised outcome error_code

theorem chain_ends (b : Nat) (m : ChainMem) : Ends (NgxPool.chain b) m (fun p t =>
    p = m.links.size ∧
      t = { m with links := m.links.alloc ⟨b, none⟩, grants := m.grants.tail }) Coded := by
  have outcome := chain_eq b m
  split at outcome
  · exact .of_ok outcome ⟨rfl, rfl⟩
  · exact .of_raised outcome error_code

theorem attach_ends {head : Option Nat} {views : List LinkView} {v : LinkView} (f : NgxBufT)
    (chained : Chained m head views) (member : v ∈ views) :
    Ends (FooterKind.attach f v.addr) m (fun _ _ => True) Coded := by
  obtain ⟨next, link, at_buf⟩ := chained.held v member
  refine (buffer_ends m).bind fun b t made => ?_
  obtain ⟨rfl, rfl⟩ := made
  let m1 : ChainMem := { m with bufs := m.bufs.alloc f, grants := m.grants.tail }
  have set : setBuf m.bufs.size f { m with bufs := m.bufs.alloc {}, grants := m.grants.tail } =
      .ok () m1 := by
    simp [setBuf, m1, Heap.write_alloc]
  have at_p : readLink v.addr m1 = .ok ⟨v.buf, next⟩ m1 := readLink_ok link
  have at_b : readBuf v.buf m1 = .ok v.value m1 := readBuf_ok (Heap.read_alloc at_buf)
  refine .bind_ok set (.bind_ok at_p (.bind_ok at_b ?_))
  split
  · exact .modify trivial
  · exact (chain_ends _ m1).bind fun _ _ _ => .bind_ok (Exec.modify_apply _ _) (.modify trivial)

end Pool

section Filters

open NdgFilterHandler (flag addHeader doHeaderFilter)

def FilterWorld.Listed (w : FilterWorld) : Prop := ∃ sh, Represents w.headers w.headersOut sh

def FilterWorld.Shows (w w' : FilterWorld) : Prop :=
  ∀ head, (w.chains.shown head).isSome = true → (w'.chains.shown head).isSome = true

/-- A header filter behind this one: it answers or throws a result code. -/
def HeaderAnswers (next : Ngx FilterWorld Int) : Prop :=
  ∀ w : FilterWorld, w.Listed → Ends next w
    (fun rc w' => ResultCode rc ∧ w'.Listed ∧ w.Shows w')
    fun e w' => ResultCode e.code ∧ w'.Listed ∧ w.Shows w'

def BodyAnswers (next : Option Nat → Ngx FilterWorld Int) : Prop :=
  ∀ (input : Option Nat) (w : FilterWorld), w.Listed → (w.chains.shown input).isSome = true →
    Ends (next input) w (fun rc w' => ResultCode rc ∧ w'.Listed)
      fun e w' => ResultCode e.code ∧ w'.Listed

variable {conf : NdgFilterConf} {w : FilterWorld}

theorem flag_ends (w : FilterWorld) : Ends flag w
    (fun _ w' => w'.headers = w.headers ∧ w'.headersOut = w.headersOut ∧
      w'.chains.shown = w.chains.shown)
    fun e w' => ResultCode e.code ∧ w'.headers = w.headers ∧ w'.headersOut = w.headersOut ∧
      w'.chains.shown = w.chains.shown := by
  have shown : (NdgFilterHandler.refused w).chains.shown = w.chains.shown :=
    funext (w.chains.shown_grants _)
  cases ctx : w.ctx with
  | some i => exact .of_ok (NdgFilterHandler.flag_set ctx) ⟨rfl, rfl, rfl⟩
  | none =>
    have outcome := NdgFilterHandler.flag_none ctx
    split at outcome
    · exact .of_ok outcome ⟨rfl, rfl, shown⟩
    · exact .of_raised outcome ⟨error_code, rfl, rfl, shown⟩

theorem addHeader_ends (conf : NdgFilterConf) (i : Nat) (listed : w.Listed) :
    Ends (addHeader conf i) w (fun _ w' => w'.Listed ∧ w'.chains = w.chains)
      fun e w' => ResultCode e.code ∧ w'.Listed ∧ w'.chains = w.chains := by
  obtain ⟨sh, rep⟩ := listed
  refine Leads.bind (P := fun _ w' => w' = w) ?_ fun kv w' same => ?_
  · unfold NgxKvArray.get
    split
    · exact .pure rfl
    · exact .raise ⟨error_code, ⟨sh, rep⟩, rfl⟩
  · subst same
    refine .bind_ok (Exec.gets_apply _ _) (.zoom ?_)
    obtain ⟨m, sh', added, rep', -⟩ | ⟨m, failed, rep'⟩ := rep.add_eq ⟨1, kv.key, kv.value⟩
    · exact .of_ok added ⟨⟨sh', rep'⟩, rfl⟩
    · exact .of_raised failed ⟨error_code, ⟨sh, rep'⟩, rfl⟩

theorem doHeaderFilter_ends (conf : NdgFilterConf) (listed : w.Listed) :
    Ends (doHeaderFilter conf) w (fun _ w' => w'.Listed ∧ w.Shows w')
      fun e w' => ResultCode e.code ∧ w'.Listed ∧ w.Shows w' := by
  obtain ⟨sh, rep⟩ := listed
  have flagged := (flag_ends w).mono
    (Q := fun _ w' => w'.Listed ∧ w'.chains.shown = w.chains.shown)
    (F := fun e w' => ResultCode e.code ∧ w'.Listed ∧ w.Shows w') (by
      rintro i w' ⟨headers, out, shown⟩
      exact ⟨⟨sh, headers ▸ out ▸ rep⟩, shown⟩) (by
      rintro e w' ⟨code, headers, out, shown⟩
      exact ⟨code, ⟨sh, headers ▸ out ▸ rep⟩, fun head held => shown ▸ held⟩)
  refine flagged.bind fun i w1 kept => ?_
  obtain ⟨listed, shown⟩ := kept
  have shows : w.Shows w1 := fun head held => shown ▸ held
  split
  · exact .pure ⟨listed, shows⟩
  refine .bind_ok (NdgFilterHandler.setFlag_ok 1 w1) ?_
  have added : Ends (Exec.each (addHeader conf) (List.range (NgxKvArray.size conf.headers)))
      { w1 with ctx := some 1 } (fun _ w' => w'.Listed ∧ w'.chains = w1.chains)
      fun e w' => ResultCode e.code ∧ w'.Listed ∧ w.Shows w' := by
    refine .each _ (fun j _ w2 kept => ?_) ⟨listed, rfl⟩
    refine (addHeader_ends conf j kept.1).mono ?_ ?_
    · rintro _ w3 ⟨listed, chains⟩
      exact ⟨listed, chains.trans kept.2⟩
    · rintro e w3 ⟨code, listed, chains⟩
      exact ⟨code, listed, fun head held => by rw [chains, kept.2]; exact shows head held⟩
  refine added.bind fun _ w2 kept => ?_
  obtain ⟨listed, chains⟩ := kept
  have shows : w.Shows w2 := fun head held => by rw [chains]; exact shows head held
  split
  · exact .pure ⟨listed, shows⟩
  · refine .bind_ok (Exec.gets_apply _ _) ?_
    split
    · exact .modify ⟨listed, shows⟩
    · exact .pure ⟨listed, shows⟩

theorem headerFilter_answers (conf : NdgFilterConf) {next : Ngx FilterWorld Int}
    (answers : HeaderAnswers next) : HeaderAnswers (NdgFilterHandler.headerFilter conf next) := by
  intro w listed
  refine Leads.catching (F := fun e w' => ResultCode e.code ∧ w'.Listed ∧ w.Shows w') ?_
    fun e w' kept => .pure kept
  refine (doHeaderFilter_ends conf listed).bind fun _ w1 kept => ?_
  refine (answers w1 kept.1).mono ?_ ?_
  · rintro rc w2 ⟨code, listed, shows⟩
    exact ⟨code, listed, fun head held => shows head (kept.2 head held)⟩
  · rintro e w2 ⟨code, listed, shows⟩
    exact ⟨code, listed, fun head held => shows head (kept.2 head held)⟩

theorem doBodyFilter_ends (kind : FooterKind) (conf : NdgFilterConf) {input : Option Nat}
    (listed : w.Listed) (held : (w.chains.shown input).isSome = true) :
    Ends (kind.doBodyFilter conf input) w
      (fun _ w' => w'.Listed ∧ (w'.chains.shown input).isSome = true)
      fun e w' => ResultCode e.code ∧ w'.Listed := by
  unfold FooterKind.doBodyFilter
  split
  · exact .pure ⟨listed, held⟩
  obtain ⟨sh, rep⟩ := listed
  have flagged := (flag_ends w).mono
    (Q := fun _ w' => w'.Listed ∧ w'.chains.shown = w.chains.shown)
    (F := fun e w' => ResultCode e.code ∧ w'.Listed) (by
      rintro i w' ⟨headers, out, shown⟩
      exact ⟨⟨sh, headers ▸ out ▸ rep⟩, shown⟩) (by
      rintro e w' ⟨code, headers, out, -⟩
      exact ⟨code, sh, headers ▸ out ▸ rep⟩)
  refine flagged.bind fun i w1 kept => ?_
  obtain ⟨listed, shown⟩ := kept
  rw [← shown] at held
  split
  · exact .pure ⟨listed, held⟩
  obtain ⟨bufs, whole⟩ := Option.isSome_iff_exists.mp held
  obtain ⟨views, chained, -⟩ := Chained.of_shown whole
  have found : NdgFilterHandler.onChains (findMark kind.mark w1.chains.links.size input) w1 =
      .ok ((views.find? fun v => kind.mark v.value).map LinkView.addr) w1 :=
    Exec.zoom_ok (findMark_eq chained chained.length_le)
  refine .bind_ok (Exec.gets_apply _ _) (.bind_ok found ?_)
  cases first : views.find? fun v => kind.mark v.value with
  | none => exact .pure ⟨listed, held⟩
  | some v =>
    refine .bind_ok (NdgFilterHandler.setFlag_ok 2 w1) (.zoom ?_)
    have ends := attach_ends (kind.made conf) chained (List.mem_of_find?_eq_some first)
    refine (ends.with_ok fun _ m attached => ?_).mono (fun _ _ kept => kept) fun e m code =>
      ⟨code, listed⟩
    exact ⟨listed, by rw [FooterKind.attach_handedOn chained first attached]; rfl⟩

theorem bodyFilter_answers (kind : FooterKind) (conf : NdgFilterConf)
    {next : Option Nat → Ngx FilterWorld Int} (answers : BodyAnswers next) :
    BodyAnswers fun input => Exec.catching (do
      kind.doBodyFilter conf input
      next input) fun e => pure e.code := by
  intro input w listed held
  refine Leads.catching (F := fun e w' => ResultCode e.code ∧ w'.Listed) ?_
    fun e w' kept => .pure kept
  exact (doBodyFilter_ends kind conf listed held).bind fun _ w1 kept =>
    answers input w1 kept.1 kept.2

theorem filterBody_answers (conf : NdgFilterConf) {next : Option Nat → Ngx FilterWorld Int}
    (answers : BodyAnswers next) : BodyAnswers (NdgFilterHandler.bodyFilter conf next) := by
  have same := bodyFilter_answers .filter conf answers
  rwa [← FooterKind.filter_body] at same

theorem footerBody_answers (conf : NdgFooterConf) {next : Option Nat → Ngx FilterWorld Int}
    (answers : BodyAnswers next) : BodyAnswers (NdgFooterHandler.bodyFilter conf next) := by
  have same := bodyFilter_answers .footer conf answers
  rwa [← FooterKind.footer_body] at same

theorem nextHeader_answers {rc : Int} (code : ResultCode rc) :
    HeaderAnswers (NdgFilterHandler.nextHeader rc) :=
  fun _ listed => .of_ok (NdgEchoHandler.nextHeader_apply rc _) ⟨code, listed, fun _ held => held⟩

theorem nextBody_answers {rc : Int} (code : ResultCode rc) :
    BodyAnswers (NdgFilterHandler.nextBody rc) :=
  fun input w listed _ => .of_ok (NdgEchoHandler.nextBody_apply rc input w) ⟨code, listed⟩

end Filters

section Echo

structure TopFilters.Answers (tops : TopFilters) : Prop where
  header : HeaderAnswers tops.header
  body : BodyAnswers tops.body

def Sends (x : Ngx ResponseWorld Int) : Prop :=
  ∀ w : ResponseWorld, w.filter.Listed → Ends x w
    (fun rc w' => ResultCode rc ∧ w'.filter.Listed) Coded

variable {tops : TopFilters} {w : ResponseWorld}

theorem onPool_ends {α : Type} {x : Ngx ChainMem α} {post : α → ResponseWorld → Prop}
    {thrown : NgxException → ResponseWorld → Prop}
    (inner : Ends x w.filter.chains (fun a m => post a (w.setChains m))
      fun e m => thrown e (w.setChains m)) : Ends (onPool x) w post thrown :=
  .zoom (.zoom inner)

variable (answers : tops.Answers)
include answers

theorem outputFilter_ends {p : Nat} (listed : w.filter.Listed)
    (held : (w.filter.chains.shown (some p)).isSome = true) :
    Ends (ngxHttpOutputFilter tops p) w (fun rc w' => ResultCode rc ∧ w'.filter.Listed) Coded :=
  .zoom ((answers.body (some p) w.filter listed held).mono (fun _ _ kept => kept)
    fun _ _ kept => kept.1)

theorem sendHeader_ends (listed : w.filter.Listed) :
    Ends (NgxResponse.sendHeader tops) w (fun rc w' => ResultCode rc ∧ w'.filter.Listed ∧
      w.filter.Shows w'.filter) Coded := by
  have shows : w.filter.Shows w.filter := fun _ held => held
  refine .bind_ok (Exec.gets_apply _ _) ?_
  split
  · exact .pure ⟨by decide, listed, shows⟩
  have status : ∃ st, NgxResponse.defaultStatus w = .ok () { w with status := st } := by
    by_cases none : w.status = 0
    · exact ⟨ngxHttpOk, by simp [NgxResponse.defaultStatus, Exec.bind_apply, none,
        NgxResponse.status]⟩
    · exact ⟨w.status, by simp [NgxResponse.defaultStatus, Exec.bind_apply, none]⟩
  obtain ⟨st, status⟩ := status
  refine .bind_ok status ?_
  have filtered : Ends (onFilter tops.header) { w with status := st }
      (fun rc w' => ResultCode rc ∧ w'.filter.Listed ∧ w.filter.Shows w'.filter) Coded :=
    .zoom ((answers.header w.filter listed).mono (fun _ _ kept => kept) fun _ _ kept => kept.1)
  have sent : Ends (ngxHttpSendHeader tops) { w with status := st }
      (fun rc w' => ResultCode rc ∧ w'.filter.Listed ∧ w.filter.Shows w'.filter) Coded := by
    refine .bind_ok (Exec.gets_apply _ _) ?_
    split
    · exact .pure ⟨error_code, listed, shows⟩
    refine filtered.bind fun rc w1 kept => ?_
    split
    · exact .bind_ok (Exec.modify_apply _ _) (.pure kept)
    · exact .pure kept
  exact sent.bind fun rc w1 kept => (fail_ends kept.1).bind fun _ w2 same => .pure (same ▸ kept)

theorem sendChain_ends {p : Nat} (listed : w.filter.Listed)
    (held : (w.filter.chains.shown (some p)).isSome = true) :
    Ends (NgxResponse.sendChain tops (some p)) w (fun rc w' => ResultCode rc ∧ w'.filter.Listed)
      Coded := by
  refine (sendHeader_ends answers listed).bind fun _ w1 kept => .bind_ok (Exec.gets_apply _ _) ?_
  split
  · exact .pure ⟨by decide, kept.2.1⟩
  · exact outputFilter_ends answers kept.2.1 (kept.2.2 _ held)

theorem sendStr_ends (str : NgxStr) : Sends (NgxResponse.sendStr tops str) := by
  intro w listed
  let m := w.filter.chains
  let m1 : ChainMem := { m with bufs := m.bufs.alloc {}, grants := m.grants.tail }
  let m2 : ChainMem := { m1 with bufs := m.bufs.alloc (NgxBuf.ofStr str) }
  have made : Ends (onPool NgxPool.buffer) w (fun b w' => b = m.bufs.size ∧ w' = w.setChains m1)
      Coded := onPool_ends ((buffer_ends m).mono (by rintro b t ⟨rfl, rfl⟩; exact ⟨rfl, rfl⟩)
        fun _ _ code => code)
  have ranged : NgxBuf.update m.bufs.size (NgxBuf.rangeStr str) m1 = .ok () m2 := by
    rw [NgxBuf.update_ok Heap.read_alloc_self, Heap.write_alloc]
    rfl
  have linked : Ends (onPool (NgxPool.chain m.bufs.size)) (w.setChains m2) (fun p w' =>
      p = m.links.size ∧
        w' = w.setChains (m.single (NgxBuf.ofStr str) m.grants.tail.tail)) Coded :=
    onPool_ends ((chain_ends m.bufs.size m2).mono (by rintro b t ⟨rfl, rfl⟩; exact ⟨rfl, rfl⟩)
      fun _ _ code => code)
  refine made.bind fun b w1 same => ?_
  obtain ⟨rfl, rfl⟩ := same
  refine .bind_ok (NgxResponse.onPool_ok (w := w.setChains m1) ranged) ?_
  refine linked.bind fun p w2 same => ?_
  obtain ⟨rfl, rfl⟩ := same
  refine sendChain_ends answers listed ?_
  have shown := m.shown_single (NgxBuf.ofStr str) m.grants.tail.tail
  exact Option.isSome_iff_exists.mpr ⟨_, shown⟩

theorem sendRef_ends (str : List UInt8) : Sends (NgxResponse.sendRef tops str) := by
  intro w listed
  have copied : Ends (NgxPool.dup str) w (fun _ w' => w'.filter.Listed) Coded := by
    refine .bind_ok (NgxResponse.onPool_ok (chainPalloc_eq _)) ?_
    cases granted w.filter.chains.grants with
    | true => exact .of_ok rfl listed
    | false => exact .raise error_code
  exact copied.bind fun s w1 listed => sendStr_ends answers s w1 listed

theorem sendSpecial_ends (flags : Special) : Sends (ngxHttpSendSpecial tops flags) := by
  intro w listed
  refine .bind_ok (NgxResponse.onPool_ok (chainPalloc_eq _)) ?_
  split
  · refine .bind_ok (NgxResponse.onPool_ok rfl) (outputFilter_ends answers listed ?_)
    have shown := w.filter.chains.shown_single flags.buf w.filter.chains.grants.tail
    exact Option.isSome_iff_exists.mpr ⟨_, shown⟩
  · exact .pure ⟨error_code, listed⟩

theorem reply_ends (msg : NgxStr) {beforeEof : Ngx ResponseWorld Unit}
    (before : ∀ w : ResponseWorld, w.filter.Listed →
      Ends beforeEof w (fun _ w' => w'.filter.Listed) Coded) :
    Sends (NdgEchoHandler.reply tops msg beforeEof) := by
  intro w listed
  let total := NdgEchoHandler.replyLen msg w.args
  obtain ⟨n, announced⟩ : ∃ n : Int, NgxResponse.length total w =
      .ok () { w with filter := { w.filter with contentLength := n } } :=
    ⟨_, NgxResponse.onFilter_ok (Exec.modify_apply _ _)⟩
  let w0 : ResponseWorld := { w with filter := { w.filter with contentLength := n } }
  let w1 : ResponseWorld := { w0 with status := ngxHttpOk }
  have status : NgxResponse.status ngxHttpOk w0 = .ok () w1 := Exec.modify_apply _ _
  have listed1 : w1.filter.Listed := by
    obtain ⟨sh, rep⟩ := listed
    exact ⟨sh, rep⟩
  have arguments : Ends (NdgEchoHandler.sendArgs tops w.args) w1 (fun _ w' => w'.filter.Listed)
      Coded := by
    unfold NdgEchoHandler.sendArgs
    split
    · exact .pure listed1
    · exact (sendStr_ends answers w.args w1 listed1).bind fun _ w2 kept =>
        (sendRef_ends answers _ w2 kept.2).bind fun _ _ kept => .pure kept.2
  refine .bind_ok (Exec.gets_apply _ _) (.bind_ok announced (.bind_ok status ?_))
  refine arguments.bind fun _ w2 listed => ?_
  refine (sendStr_ends answers msg w2 listed).bind fun _ w3 kept => ?_
  exact (before w3 kept.2).bind fun _ w4 listed => sendSpecial_ends answers .last w4 listed

theorem echoHandler_ends (conf : NdgEchoConf) {discarded : Int} (code : ResultCode discarded)
    (listed : w.filter.Listed) :
    Ends (NdgEchoHandler.handler tops conf discarded) w (fun rc _ => ResultCode rc) Coded := by
  refine coded_ends (.bind_ok (Exec.gets_apply _ _) ?_)
  split
  · refine (requireCode_ends code).bind fun _ w1 same => ?_
    subst same
    exact (reply_ends answers conf.msg (fun _ listed => .pure listed) w1 listed).imp
      fun _ _ kept => kept.1
  · exact .pure (by decide)

theorem legacyEchoHandler_ends {discarded : Int} (code : ResultCode discarded)
    {value : Int × NgxStr} (valued : ResultCode value.1) (listed : w.filter.Listed) :
    Ends (Legacy.NdgEchoHandler.process tops discarded value) w (fun rc _ => ResultCode rc)
      Coded := by
  refine coded_ends (.bind_ok (Exec.gets_apply _ _) ?_)
  split
  · refine (requireCode_ends code).bind fun _ w1 same => ?_
    subst same
    have evaluated : Ends (NgxComplexValue.str value) w1 (fun _ w' => w' = w1) Coded :=
      (requireCode_ends valued).bind fun _ _ same => .pure same
    refine evaluated.bind fun msg w2 same => ?_
    subst same
    refine (reply_ends answers msg (fun w listed => ?_) w2 listed).imp fun _ _ kept => kept.1
    exact (sendSpecial_ends answers .flush w listed).bind fun _ _ kept => .pure kept.2
  · exact .pure (by decide)

end Echo

section Getters

theorem getRtt_ends (rtt : UInt32) (w : GetterWorld) :
    Ends (NdgVariablesHandler.getRtt rtt) w (fun rc _ => ResultCode rc) Coded := by
  have asked : Ends (Exec.zoom GetterWorld.grants (fun grants w => { w with grants })
      NgxPool.nalloc) w (fun _ _ => True) Coded := .zoom (alloc_ends () w.grants)
  exact asked.bind fun _ w1 _ => .bind_ok (Exec.gets_apply _ _)
    (.bind_ok (Exec.modify_apply _ _) (.bind_ok (Exec.modify_apply _ _) (.pure (by decide))))

end Getters

end NgxCpp
