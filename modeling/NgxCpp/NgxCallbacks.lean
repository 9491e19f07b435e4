import NgxCpp.NgxCallbackEnds

/-! The functions that the modules hand to nginx, which is C code: an exception that leaves
one of them ends the process. Where a function has no handler of its own, what throws in
it is spelled out. -/

namespace NgxCpp
open Foundation
open Exec (Throws NoThrow Ends)

/-- `block_read_handler`, an empty function. -/
def NdgStreamTimeHandler.blockReadHandler : Ngx TimeSession Unit := pure ()

/-- A function that a module registers, with those of its inputs that are not part of the
state it runs on: arguments, the next filters, answers of nginx. -/
inductive Callback : Type → Type → Type → Type 1 where
  -- `create_main_conf`, `create_srv_conf` and `create_loc_conf`
  | echoCreate : Callback NgxException PoolAnswers NdgEchoConf
  | legacyEchoCreate : Callback NgxException PoolAnswers Legacy.NdgEchoConf
  | filterCreate : Callback NgxException PoolAnswers NdgFilterConf
  | footerCreate : Callback NgxException PoolAnswers NdgFooterConf
  | testCreate : Callback NgxException PoolAnswers NdgTestConf
  | shmemCreate : Callback NgxException PoolAnswers NdgShmemConf
  | subrequestCreate : Callback NgxException PoolAnswers NdgSubrequestConf
  | upstreamCreate (pagesize : Nat) : Callback NgxException PoolAnswers NdgUpstreamConf
  | discardCreate : Callback NgxException PoolAnswers NdgStreamDiscardConf
  -- `init_main_conf` and the merges
  | shmemConf : Callback NgxException NdgShmemConf ConfRc
  | testMerge (prev : NdgTestConf) : Callback NgxException NdgTestConf ConfRc
  | subrequestMerge (echo : NgxStr) (prev : NdgSubrequestConf) :
    Callback NgxException NdgSubrequestConf ConfRc
  | discardMerge (prev : NdgStreamDiscardConf) : Callback NgxException NdgStreamDiscardConf ConfRc
  -- directives
  | setEcho (slot : ConfRc) : Callback NgxException (ConfWorld NdgEchoConf) ConfRc
  | legacySetEcho (line : Line 1) (compiled : Int) :
    Callback NgxException (ConfWorld Legacy.NdgEchoConf) ConfRc
  | setLoadBalance : Callback NgxException (ConfWorld Unit) ConfRc
  | setSubrequestLoc (slot : ConfRc) : Callback NgxException (ConfWorld NdgSubrequestConf) ConfRc
  | setUpstreamPass (line : Line 1) (add : NgxStr → Option Nat) :
    Callback NgxException (ConfWorld NdgUpstreamConf) ConfRc
  | setDiscard : Callback NgxException (ConfWorld NdgStreamDiscardConf) ConfRc
  | setTime : Callback NgxException (ConfWorld Unit) ConfRc
  -- `preconfiguration` and `postconfiguration`
  | variablesInit : Callback NgxException (VariableTable VariableGetter) Int
  | filterInit : Callback NgxException (FilterGlobals FilterTag) Int
  | footerInit : Callback NgxException (FilterGlobals FilterTag) Int
  | dataHookInit : Callback NgxException (FilterGlobals FilterTag) Int
  | testInit (pushed : Bool) : Callback NgxException (ConfWorld Unit) Int
  | shmemInit (pushed : Bool) : Callback NgxException (ConfWorld Unit) Int
  -- content, phase and session handlers
  | echoHandler (tops : TopFilters) (conf : NdgEchoConf) (discarded : Int) :
    Callback NgxException ResponseWorld Int
  | legacyEchoHandler (tops : TopFilters) (discarded : Int) (value : Int × NgxStr) :
    Callback NgxException ResponseWorld Int
  | testHandler (conf : NdgTestConf) : Callback NgxException TestWorld Int
  | shmemHandler (conf : NdgShmemConf) (opens : UInt64 → Bool) (constructs : Bool) (sent : Int) :
    Callback Thrown ShmemWorld Int
  | subrequestHandler {V : Type} (method n r : Nat) : Callback NgxException (RequestMem V) Int
  | upstreamHandler (conf : NdgUpstreamConf) (created discarded : Int) :
    Callback NgxException UpstreamRequest Int
  | discardHandler (i : ReadInput) : Callback NgxException DiscardSession Unit
  | timeHandler (i : WriteInput) : Callback NgxException TimeSession Unit
  -- filters
  | filterHeader (conf : NdgFilterConf) (next : Ngx FilterWorld Int) :
    Callback NgxException FilterWorld Int
  | filterBody (conf : NdgFilterConf) (next : Option Nat → Ngx FilterWorld Int)
    (input : Option Nat) : Callback NgxException FilterWorld Int
  | footerHeader (conf : NdgFooterConf) (next : Ngx FilterWorld Int) :
    Callback NgxException FilterWorld Int
  | footerBody (conf : NdgFooterConf) (next : Option Nat → Ngx FilterWorld Int)
    (input : Option Nat) : Callback NgxException FilterWorld Int
  | hookHeader {M : Type} (next : Nat → Ngx (HookWorld M) Int) (r : Nat) :
    Callback NgxException (HookWorld M) Int
  | hookBody {M : Type} (addCopy : Option Nat → Nat → M → Int × Option Nat × M)
    (next : Nat → Option Nat → Ngx (HookWorld M) Int) (r : Nat) (input : Option Nat) :
    Callback NgxException (HookWorld M) Int
  -- callbacks of the upstream module and of its load balancing
  | createRequest (xxxx : NgxStr) : Callback NgxException UpstreamRequest Int
  | reinitRequest : Callback NgxException UpstreamRequest Int
  | processHeader (ram : Ram) : Callback NgxException UpstreamRequest Int
  | finalizeRequest (rc : Int) : Callback NgxException UpstreamRequest Unit
  | loadBalanceInit (rc : Int) : Callback NgxException (Option PeerInit) Int
  | initPeer (granted : Bool) (rc : Int) : Callback NgxException Upstream Int
  | peerGet (rand : Nat) (chosen : Option Nat) : Callback NgxException Upstream Int
  -- variables
  | getToday (today : NgxStr) : Callback NgxException GetterWorld Int
  | getRtt (rtt : UInt32) : Callback NgxException GetterWorld Int
  | getCurrentMethod : Callback NgxException GetterWorld Int
  | getParsedUri : Callback NgxException GetterWorld Int
  -- subrequests, events and the end of the master
  | subPost {σ : Type} (T : PostCallback σ) (ph : Phase) (r data : Nat) (rc : Int) :
    Callback NgxException (PostWorld σ) Int
  | parentPost {σ : Type} (T : PostCallback σ) (r : Nat) : Callback NgxException (PostWorld σ) Unit
  | discardRead (i : ReadInput) : Callback NgxException DiscardSession Unit
  | discardWrite : Callback NgxException DiscardSession Unit
  | timeRead : Callback NgxException TimeSession Unit
  | timeWrite (i : WriteInput) : Callback NgxException TimeSession Unit
  | timerEvent (ev : Nat) : Callback NgxException (NgxTimer TimerFunc) Unit
  | exitMaster : Callback Thrown ShmemWorld Unit

namespace Callback

variable {ε σ α : Type}

def run : {ε σ α : Type} → Callback ε σ α → Exec ε σ α
  | _, _, _, echoCreate => NdgEchoConf.create
  | _, _, _, legacyEchoCreate => Legacy.NdgEchoConf.create
  | _, _, _, filterCreate => NdgFilterConf.create
  | _, _, _, footerCreate => NdgFooterConf.create
  | _, _, _, testCreate => NdgTestConf.create
  | _, _, _, shmemCreate => NdgShmemConf.create
  | _, _, _, subrequestCreate => NdgSubrequestConf.create
  | _, _, _, upstreamCreate pagesize => NdgUpstreamConf.create pagesize
  | _, _, _, discardCreate => NdgStreamDiscardConf.create
  | _, _, _, shmemConf => NdgShmemConf.init
  | _, _, _, testMerge prev => NdgTestConf.merge prev
  | _, _, _, subrequestMerge echo prev => NdgSubrequestConf.merge echo prev
  | _, _, _, discardMerge prev => NdgStreamDiscardConf.merge prev
  | _, _, _, setEcho slot => NdgEchoInit.setEcho slot
  | _, _, _, legacySetEcho line compiled => Legacy.NdgEchoInit.setEcho line compiled
  | _, _, _, setLoadBalance => NdgLoadBalanceInit.setLoadBalance
  | _, _, _, setSubrequestLoc slot => NdgSubrequestInit.setSubrequestLoc slot
  | _, _, _, setUpstreamPass line add => NdgUpstreamInit.setUpstreamPass line add
  | _, _, _, setDiscard => NdgStreamDiscardInit.setDiscard
  | _, _, _, setTime => NdgStreamTimeInit.setTime
  | _, _, _, variablesInit => NgxVariables.init (some NdgVariablesHandler.getVars)
  | _, _, _, filterInit => NdgFilterHandler.init
  | _, _, _, footerInit => NdgFooterHandler.init
  | _, _, _, dataHookInit => NdgDataHookHandler.init
  | _, _, _, testInit pushed => NdgTestHandler.init pushed
  | _, _, _, shmemInit pushed => NdgShmemHandler.init pushed
  | _, _, _, echoHandler tops conf discarded => NdgEchoHandler.handler tops conf discarded
  | _, _, _, legacyEchoHandler tops discarded value =>
    Legacy.NdgEchoHandler.process tops discarded value
  | _, _, _, testHandler conf => NdgTestHandler.handler conf
  | _, _, _, shmemHandler conf opens constructs sent =>
    NdgShmemHandler.handler conf opens constructs sent
  | _, _, _, subrequestHandler method n r => NdgSubrequestHandler.handler method n r
  | _, _, _, upstreamHandler conf created discarded =>
    NdgUpstreamHandler.handler conf created discarded
  | _, _, _, discardHandler i => NdgStreamDiscardHandler.handler i
  | _, _, _, timeHandler i => NdgStreamTimeHandler.handler i
  | _, _, _, filterHeader conf next => NdgFilterHandler.headerFilter conf next
  | _, _, _, filterBody conf next input => NdgFilterHandler.bodyFilter conf next input
  | _, _, _, footerHeader conf next => NdgFooterHandler.headerFilter conf next
  | _, _, _, footerBody conf next input => NdgFooterHandler.bodyFilter conf next input
  | _, _, _, hookHeader next r => NdgDataHookHandler.headerFilter next r
  | _, _, _, hookBody addCopy next r input => NdgDataHookHandler.bodyFilter addCopy next r input
  | _, _, _, createRequest xxxx => NdgUpstreamCallback.createRequest xxxx
  | _, _, _, reinitRequest => NdgUpstreamCallback.reinitRequest
  | _, _, _, processHeader ram => NdgUpstreamCallback.processHeader ram
  | _, _, _, finalizeRequest rc => NgxUpstreamHelper.defaultFinalizeRequest rc
  | _, _, _, loadBalanceInit rc => NdgLoadBalanceHandler.init rc
  | _, _, _, initPeer granted rc => NdgLoadBalanceHandler.initPeer granted rc
  | _, _, _, peerGet rand chosen => NdgLoadBalanceCallback.get rand chosen
  | _, _, _, getToday today => NdgVariablesHandler.getToday today
  | _, _, _, getRtt rtt => NdgVariablesHandler.getRtt rtt
  | _, _, _, getCurrentMethod => NdgVariablesHandler.getCurrentMethod
  | _, _, _, getParsedUri => NdgVariablesHandler.getParsedUri
  | _, _, _, subPost T ph r data rc => NgxSubRequestHandler.subPost T ph r data rc
  | _, _, _, parentPost T r => NgxSubRequestHandler.parentPost T r
  | _, _, _, discardRead i => NdgStreamDiscardHandler.discardReadHandler i
  | _, _, _, discardWrite => NdgStreamDiscardHandler.writeHandler
  | _, _, _, timeRead => NdgStreamTimeHandler.blockReadHandler
  | _, _, _, timeWrite i => NdgStreamTimeHandler.timeWriteHandler i
  | _, _, _, timerEvent ev => NgxTimer.onEvent ev
  | _, _, _, exitMaster => NdgShmemHandler.exitMaster

/-- What a callback answers: where nginx expects a result code, one of those there are. -/
def Result : {ε σ α : Type} → Callback ε σ α → α → Prop
  | _, _, _, variablesInit, rc | _, _, _, filterInit, rc | _, _, _, footerInit, rc
  | _, _, _, dataHookInit, rc | _, _, _, testInit _, rc | _, _, _, shmemInit _, rc
  | _, _, _, echoHandler _ _ _, rc | _, _, _, legacyEchoHandler _ _ _, rc
  | _, _, _, testHandler _, rc | _, _, _, shmemHandler _ _ _ _, rc
  | _, _, _, subrequestHandler _ _ _, rc | _, _, _, upstreamHandler _ _ _, rc
  | _, _, _, filterHeader _ _, rc | _, _, _, filterBody _ _ _, rc
  | _, _, _, footerHeader _ _, rc | _, _, _, footerBody _ _ _, rc
  | _, _, _, hookHeader _ _, rc | _, _, _, hookBody _ _ _ _, rc
  | _, _, _, createRequest _, rc | _, _, _, reinitRequest, rc | _, _, _, processHeader _, rc
  | _, _, _, loadBalanceInit _, rc | _, _, _, initPeer _ _, rc | _, _, _, peerGet _ _, rc
  | _, _, _, getToday _, rc | _, _, _, getRtt _, rc | _, _, _, getCurrentMethod, rc
  | _, _, _, getParsedUri, rc | _, _, _, subPost _ _ _ _ _, rc => ResultCode rc
  | _, _, _, _, _ => True

/-- What nginx sees to before it calls a callback: the objects that it works on are there, and
what nginx and the filters behind answer is a result code. -/
def Ready : {ε σ α : Type} → Callback ε σ α → σ → Prop
  | _, _, _, echoHandler tops _ discarded, w =>
    tops.Answers ∧ ResultCode discarded ∧ w.filter.Listed
  | _, _, _, legacyEchoHandler tops discarded value, w =>
    tops.Answers ∧ ResultCode discarded ∧ ResultCode value.1 ∧ w.filter.Listed
  | _, _, _, subrequestHandler _ _ r, w => w.Holds r
  | _, _, _, upstreamHandler _ _ discarded, _ => ResultCode discarded
  | _, _, _, discardHandler i, s | _, _, _, discardRead i, s =>
    (s.timers.events s.rev).ready = true → ∃ n ∈ i.received, n ≤ 0
  | _, _, _, filterHeader _ next, w | _, _, _, footerHeader _ next, w =>
    HeaderAnswers next ∧ w.Listed
  | _, _, _, filterBody _ next input, w | _, _, _, footerBody _ next input, w =>
    BodyAnswers next ∧ w.Listed ∧ (w.chains.shown input).isSome = true
  | _, _, _, hookHeader next r, w => Ends (next r) w (fun rc _ => ResultCode rc) Coded
  | _, _, _, hookBody addCopy next r input, w =>
    Ends (next r input) w (fun rc _ => ResultCode rc) Coded ∧
      (∀ body chain m, ResultCode (addCopy body chain m).1) ∧
      (w.doHook r = true → (w.requests r).parent.isSome = true)
  | _, _, _, createRequest _, r => r.Created
  | _, _, _, processHeader _, r => r.upstream.isSome = true
  | _, _, _, loadBalanceInit rc, _ => ResultCode rc
  | _, _, _, peerGet _ chosen, u => u.data.isSome = true ∧ u.peers.peer ≠ [] ∧
    ∀ i ∈ chosen, i < u.peers.peer.length
  | _, _, _, subPost T _ r data rc, w => (∃ pr,
      (w.requests.read r).bind PostRequest.parent = some pr ∧
      (w.requests.read pr).isSome = true) ∧ CodedCall (T.subPost r data rc w.user).1
  | _, _, _, timerEvent ev, s => ∃ o, (s.evs.timers.events ev).data = some o ∧
    (s.evs.func o).isSome = true
  | _, _, _, _, _ => True

def Returns (c : Callback ε σ α) (s : σ) : Prop := ∃ a t, c.run s = .ok a t ∧ c.Result a

/-- When a callback has nothing to throw about. All the others are safe as they stand. -/
def Safe : {ε σ α : Type} → Callback ε σ α → σ → Prop
  | _, _, _, echoCreate, grants | _, _, _, legacyEchoCreate, grants
  | _, _, _, filterCreate, grants | _, _, _, footerCreate, grants | _, _, _, testCreate, grants
  | _, _, _, shmemCreate, grants | _, _, _, subrequestCreate, grants
  | _, _, _, upstreamCreate _, grants | _, _, _, discardCreate, grants => granted grants = true
  | _, _, _, legacySetEcho _ compiled, _ => compiled = ngxOk
  | _, _, _, setLoadBalance, w => w.initUpstream = none
  | _, _, _, variablesInit, t =>
    ¬ NgxVariables.Refused (some NdgVariablesHandler.getVars) t.answers
  | _, _, _, testInit pushed, _ | _, _, _, shmemInit pushed, _ => pushed = true
  | _, _, _, shmemHandler conf opens constructs _, w =>
    NdgShmemHandler.Mapped conf opens constructs w
  | _, _, _, createRequest _, w =>
    granted w.chains.grants = true ∧ granted w.chains.grants.tail = true
  | _, _, _, initPeer granted rc, _ => granted = true ∧ rc = ngxOk
  | _, _, _, getRtt _, w => granted w.grants = true
  | _, _, _, _, _ => True

def Printable : {ε σ α : Type} → Callback ε σ α → σ → Prop
  | _, _, _, createRequest _, r => r.logLevel < ngxLogDebug
  | _, _, _, _, _ => True

theorem safe_of_noThrow {x : Exec ε σ α} (quiet : NoThrow x) (s : σ) : ¬ Throws x s ↔ True :=
  iff_of_true (quiet s) trivial

theorem create_safe_iff {T : Type} (made : T) (grants : PoolAnswers) :
    ¬ Throws (NgxPool.alloc made) grants ↔ granted grants = true := by
  rw [NgxPool.throws_alloc]
  simp

theorem upstreamCreate_safe_iff (pagesize : Nat) (grants : PoolAnswers) :
    ¬ Throws (NdgUpstreamConf.create pagesize) grants ↔ granted grants = true := by
  rw [NdgUpstreamConf.create, Exec.throws_bind_noThrow fun _ => .pure _]
  exact create_safe_iff _ grants

theorem phaseInit_safe_iff (f : PhaseHandler) (p : HttpPhase) (pushed : Bool)
    (w : ConfWorld Unit) : ¬ Throws (do
      NgxHttpCoreModule.phaseHandler f p pushed
      pure ngxOk) w ↔ pushed = true := by
  rw [Exec.throws_bind_noThrow fun _ => .pure _, phaseHandler_throws_iff]
  simp

theorem merge_noThrow {C : Type} (f : C → C) : NoThrow (do
    Exec.modify f
    pure .ok : Ngx C ConfRc) :=
  .bind (.modify _) fun _ => .pure _

theorem not_throws_iff (c : Callback ε σ α) (s : σ) : ¬ Throws c.run s ↔ c.Safe s := by
  cases c with
  | echoCreate => exact create_safe_iff _ s
  | legacyEchoCreate => exact create_safe_iff _ s
  | filterCreate => exact create_safe_iff _ s
  | footerCreate => exact create_safe_iff _ s
  | testCreate => exact create_safe_iff _ s
  | shmemCreate => exact create_safe_iff _ s
  | subrequestCreate => exact create_safe_iff _ s
  | upstreamCreate pagesize => exact upstreamCreate_safe_iff pagesize s
  | discardCreate => exact create_safe_iff _ s
  | shmemConf => exact safe_of_noThrow (merge_noThrow _) s
  | testMerge prev => exact safe_of_noThrow (merge_noThrow _) s
  | subrequestMerge echo prev =>
    exact safe_of_noThrow (.bind (.modify _) fun _ => merge_noThrow _) s
  | discardMerge prev => exact safe_of_noThrow (merge_noThrow _) s
  | setEcho slot => exact safe_of_noThrow (setEcho_noThrow slot) s
  | legacySetEcho line compiled =>
    exact (not_congr (legacy_setEcho_throws_iff line compiled s)).trans Decidable.not_not
  | setLoadBalance =>
    have unset : ¬ s.initUpstream.isSome = true ↔ s.initUpstream = none := by simp
    exact (not_congr (setLoadBalance_throws_iff s)).trans unset
  | setSubrequestLoc slot => exact safe_of_noThrow (setSubrequestLoc_noThrow slot) s
  | setUpstreamPass line add => exact safe_of_noThrow (setUpstreamPass_noThrow line add) s
  | setDiscard => exact safe_of_noThrow setDiscard_noThrow s
  | setTime => exact safe_of_noThrow setTime_noThrow s
  | variablesInit =>
    exact not_congr (NgxVariables.init_throws_iff (some NdgVariablesHandler.getVars) s)
  | filterInit => exact safe_of_noThrow (initFilter_noThrow _) s
  | footerInit => exact safe_of_noThrow (initFilter_noThrow _) s
  | dataHookInit => exact safe_of_noThrow (initFilter_noThrow _) s
  | testInit pushed => exact phaseInit_safe_iff _ _ pushed s
  | shmemInit pushed => exact phaseInit_safe_iff _ _ pushed s
  | echoHandler tops conf discarded => exact safe_of_noThrow NgxException.coded_noThrow s
  | legacyEchoHandler tops discarded value => exact safe_of_noThrow NgxException.coded_noThrow s
  | testHandler conf => exact safe_of_noThrow NgxException.coded_noThrow s
  | shmemHandler conf opens constructs sent =>
    exact (not_congr (NdgShmemHandler.handler_throws_iff conf opens constructs sent s)).trans
      Classical.not_not
  | subrequestHandler method n r => exact safe_of_noThrow NgxException.coded_noThrow s
  | upstreamHandler conf created discarded => exact safe_of_noThrow NgxException.coded_noThrow s
  | discardHandler i => exact safe_of_noThrow (NdgStreamDiscardHandler.handler_noThrow i) s
  | timeHandler i => exact safe_of_noThrow (.catching fun _ => .pure _) s
  | filterHeader conf next => exact safe_of_noThrow NgxException.coded_noThrow s
  | filterBody conf next input => exact safe_of_noThrow NgxException.coded_noThrow s
  | footerHeader conf next => exact safe_of_noThrow NgxException.coded_noThrow s
  | footerBody conf next input => exact safe_of_noThrow NgxException.coded_noThrow s
  | hookHeader next r => exact safe_of_noThrow NgxException.coded_noThrow s
  | hookBody addCopy next r input => exact safe_of_noThrow NgxException.coded_noThrow s
  | createRequest xxxx =>
    have both : ¬ (granted s.chains.grants = false ∨ granted s.chains.grants.tail = false) ↔
        granted s.chains.grants = true ∧ granted s.chains.grants.tail = true := by simp
    exact (not_congr (createRequest_throws_iff xxxx s)).trans both
  | reinitRequest => exact safe_of_noThrow (.pure _) s
  | processHeader ram => exact safe_of_noThrow (processHeader_noThrow ram) s
  | finalizeRequest rc => exact safe_of_noThrow (.pure _) s
  | loadBalanceInit rc => exact safe_of_noThrow NgxException.coded_noThrow s
  | initPeer granted rc =>
    have both : ¬ (granted = false ∨ rc ≠ ngxOk) ↔ granted = true ∧ rc = ngxOk := by simp
    exact (not_congr (initPeer_throws_iff granted rc s)).trans both
  | peerGet rand chosen => exact safe_of_noThrow (peer_get_noThrow rand chosen) s
  | getToday today => exact safe_of_noThrow (NdgVariablesHandler.getToday_noThrow today) s
  | getRtt rtt =>
    have given : ¬ granted s.grants = false ↔ granted s.grants = true := by simp
    exact (not_congr (NdgVariablesHandler.getRtt_throws_iff rtt s)).trans given
  | getCurrentMethod => exact safe_of_noThrow NdgVariablesHandler.getCurrentMethod_noThrow s
  | getParsedUri => exact safe_of_noThrow NdgVariablesHandler.getParsedUri_noThrow s
  | subPost T ph r data rc => exact safe_of_noThrow NgxException.coded_noThrow s
  | parentPost T r => exact safe_of_noThrow (.catching fun _ => .pure _) s
  | discardRead i => exact safe_of_noThrow (NdgStreamDiscardHandler.discardReadHandler_noThrow i) s
  | discardWrite => exact safe_of_noThrow (.pure _) s
  | timeRead => exact safe_of_noThrow (.pure _) s
  | timeWrite i => exact safe_of_noThrow (.catching fun _ => .modify _) s
  | timerEvent ev => exact safe_of_noThrow (timer_onEvent_noThrow ev) s
  | exitMaster => exact safe_of_noThrow (.pure _) s

theorem ends (c : Callback ε σ α) (s : σ) (ready : c.Ready s) (printable : c.Printable s) :
    Ends c.run s (fun a _ => c.Result a) fun _ _ => True := by
  cases c with
  | echoCreate => exact (alloc_ends _ s).forget
  | legacyEchoCreate => exact (alloc_ends _ s).forget
  | filterCreate => exact (alloc_ends _ s).forget
  | footerCreate => exact (alloc_ends _ s).forget
  | testCreate => exact (alloc_ends _ s).forget
  | shmemCreate => exact (alloc_ends _ s).forget
  | subrequestCreate => exact (alloc_ends _ s).forget
  | upstreamCreate pagesize => exact (upstreamCreate_ends pagesize s).forget
  | discardCreate => exact (alloc_ends _ s).forget
  | shmemConf => exact .of_ok rfl trivial
  | testMerge prev => exact .of_ok rfl trivial
  | subrequestMerge echo prev => exact .of_ok rfl trivial
  | discardMerge prev => exact .of_ok rfl trivial
  | setEcho slot => exact setEcho_ends slot s
  | legacySetEcho line compiled => exact legacy_setEcho_ends line compiled s
  | setLoadBalance => exact (setLoadBalance_ends s).forget
  | setSubrequestLoc slot => exact .of_ok rfl trivial
  | setUpstreamPass line add => exact setUpstreamPass_ends line add s
  | setDiscard => exact .of_ok rfl trivial
  | setTime => exact .of_ok rfl trivial
  | variablesInit => exact variablesInit_ends s
  | filterInit => exact .of_ok rfl (by decide : ResultCode ngxOk)
  | footerInit => exact .of_ok rfl (by decide : ResultCode ngxOk)
  | dataHookInit => exact .of_ok rfl (by decide : ResultCode ngxOk)
  | testInit pushed => exact (phaseInit_ends _ _ pushed s).forget
  | shmemInit pushed => exact (phaseInit_ends _ _ pushed s).forget
  | echoHandler tops conf discarded =>
    obtain ⟨answers, code, listed⟩ := ready
    exact (echoHandler_ends answers conf code listed).forget
  | legacyEchoHandler tops discarded value =>
    obtain ⟨answers, code, valued, listed⟩ := ready
    exact (legacyEchoHandler_ends answers code valued listed).forget
  | testHandler conf => exact (testHandler_ends conf s).forget
  | shmemHandler conf opens constructs sent => exact shmemHandler_ends conf opens constructs sent s
  | subrequestHandler method n r =>
    exact (subrequestHandler_ends ready method n).forget
  | upstreamHandler conf created discarded =>
    exact (upstreamHandler_ends conf created ready s).forget
  | discardHandler i => exact discardHandler_ends ready
  | timeHandler i => exact timeHandler_ends i s
  | filterHeader conf next =>
    exact (headerFilter_answers conf ready.1 s ready.2).forget.imp
      fun _ _ kept => kept.1
  | filterBody conf next input =>
    exact (filterBody_answers conf ready.1 input s ready.2.1 ready.2.2).forget.imp
      fun _ _ kept => kept.1
  | footerHeader conf next =>
    exact (headerFilter_answers conf ready.1 s ready.2).forget.imp
      fun _ _ kept => kept.1
  | footerBody conf next input =>
    exact (footerBody_answers conf ready.1 input s ready.2.1 ready.2.2).forget.imp
      fun _ _ kept => kept.1
  | hookHeader next r => exact (hookHeader_ends ready).forget
  | hookBody addCopy next r input =>
    obtain ⟨answers, copies, parent⟩ := ready
    exact (hookBody_ends answers copies parent).forget
  | createRequest xxxx =>
    exact (createRequest_ends ready printable xxxx).forget
  | reinitRequest => exact .pure (by decide : ResultCode ngxOk)
  | processHeader ram => exact (processHeader_ends ready ram).forget
  | finalizeRequest rc => exact .pure trivial
  | loadBalanceInit rc => exact (loadBalanceInit_ends ready s).forget
  | initPeer granted rc => exact initPeer_ends granted rc s
  | peerGet rand chosen => exact peer_get_ends ready.1 ready.2.1 rand ready.2.2
  | getToday today => exact .of_ok rfl (by decide : ResultCode ngxOk)
  | getRtt rtt => exact (getRtt_ends rtt s).forget
  | getCurrentMethod => exact .of_ok rfl (by decide : ResultCode ngxOk)
  | getParsedUri => exact .of_ok rfl (by decide : ResultCode ngxOk)
  | subPost T ph r data rc =>
    obtain ⟨⟨pr, child, parent⟩, coded⟩ := ready
    exact (subPost_ends ph child parent coded).forget
  | parentPost T r => exact (parentPost_ends T r s).forget
  | discardRead i => exact discardRead_ends ready
  | discardWrite => exact .pure trivial
  | timeRead => exact .pure trivial
  | timeWrite i => exact timeWrite_ends i s
  | timerEvent ev =>
    obtain ⟨o, data, func⟩ := ready
    exact onEvent_ends data func
  | exitMaster => exact .pure trivial

private def emptyResponse : ResponseWorld where
  method := ngxHttpGet
  args := ⟨3, 16⟩
  bytes := ⟨fun _ => 97, 64⟩
  filter :=
    { contentLength := -1, headersOut := 0
      headers :=
        { lists := ⟨[⟨0, 0, 2⟩]⟩, parts := ⟨[⟨some 0, 0, none⟩]⟩, arrays := ⟨[[none, none]]⟩ } }

private def filteredTops : TopFilters where
  header := NdgFilterHandler.headerFilter ⟨some [⟨⟨1, 32⟩, ⟨1, 33⟩⟩], ⟨2, 34⟩⟩
    (NdgFilterHandler.nextHeader ngxOk)
  body := NdgFilterHandler.bodyFilter ⟨some [⟨⟨1, 32⟩, ⟨1, 33⟩⟩], ⟨2, 34⟩⟩
    (NdgFilterHandler.nextBody ngxAgain)

private def newUpstream : UpstreamRequest where
  method := ngxHttpGet
  args := ⟨6, 8⟩
  upstream := some {}

end Callback

end NgxCpp
