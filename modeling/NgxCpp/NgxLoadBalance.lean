import NgxCpp.Exception
import NgxCpp.NgxString
import NgxCpp.Foundation.Runs

/-! `NgxLoadBalance` and `NdgLoadBalanceCallback`: peers are picked at random, then
by nginx's round robin; peers are freed by the handler that nginx installs.
Which number is drawn and which peer the round robin chooses are inputs. -/

namespace NgxCpp
open Foundation

/-- `ngx_http_upstream_rr_peer_t`, as far as it is read here. -/
structure RrPeer where
  sockaddr : Nat
  socklen : Nat
  name : NgxStr
  conns : Int
deriving Repr, DecidableEq

structure RrPeers where
  peer : List RrPeer
  single : Bool
deriving Repr, DecidableEq

/-- The connection that a peer is picked for; `name` says which peer's name it
points at. -/
structure PeerConnection where
  sockaddr : Nat := 0
  socklen : Nat := 0
  name : Option Nat := none
  cached : Bool := false
  connection : Option Nat := none
deriving Repr, DecidableEq

inductive GetPeer where
  | roundRobin
  | callback
deriving Repr, DecidableEq

inductive FreePeer where
  | roundRobin
  | callback
deriving Repr, DecidableEq

/-- `NdgLoadBalanceCallback`; `current` is the one of its `rrp`. -/
structure PeerData where
  current : Option Nat := none
  tries : UInt8 := 0
deriving Repr, DecidableEq

/-- The peers of an upstream block, and a request's `upstream->peer`. -/
structure Upstream where
  peers : RrPeers
  data : Option PeerData := none
  get : Option GetPeer := none
  free : Option FreePeer := none
  pc : PeerConnection := {}
deriving Repr, DecidableEq

def Upstream.point (u : Upstream) (i : Nat) (peer : RrPeer) : Upstream :=
  { u with pc := ⟨peer.sockaddr, peer.socklen, some i, false, none⟩ }

def Upstream.setConns (u : Upstream) (i : Nat) (f : Int → Int) : Upstream :=
  let bump (peer : RrPeer) : RrPeer := { peer with conns := f peer.conns }
  { u with peers := { u.peers with peer := u.peers.peer.modify i bump } }

/-- `ngx_http_upstream_init_round_robin_peer`, which ends with `rc`. -/
def initRoundRobinPeer (rc : Int) : Ngx Upstream Int := do
  if rc = ngxOk then
    let data ← Exec.deref Upstream.data
    Exec.modify fun u => { u with
      data := some { data with current := none }
      get := some .roundRobin
      free := some .roundRobin }
    pure rc
  else pure rc

/-- `ngx_http_upstream_get_round_robin_peer`, which finds `chosen`. -/
def getRoundRobinPeer (chosen : Option Nat) : Ngx Upstream Int :=
  match chosen with
  | none => pure ngxBusy
  | some i => do
    let data ← Exec.deref Upstream.data
    let peer ← Exec.deref fun u => u.peers.peer[i]?
    Exec.modify fun u => { (u.point i peer).setConns i (· + 1) with
      data := some { data with current := some i } }
    pure ngxOk

def freeRoundRobinPeer : Ngx Upstream Unit := do
  let data ← Exec.deref Upstream.data
  let i ← Exec.deref fun _ => data.current
  Exec.modify fun u => u.setConns i (· - 1)

namespace NgxLoadBalance

/-- `init` for a request, with the pool's and nginx's answers. -/
def init (getPeer : GetPeer) (freePeer : Option FreePeer) (granted : Bool) (rc : Int) :
    Ngx Upstream Unit := do
  NgxException.requireCond granted
  Exec.modify fun u => { u with data := some {} }
  let rc ← initRoundRobinPeer rc
  NgxException.requireCode rc
  Exec.modify fun u => { u with get := some getPeer, free := freePeer <|> u.free }

end NgxLoadBalance

namespace NdgLoadBalanceCallback

/-- `get`, when the generator draws `rand`. -/
def get (rand : Nat) (chosen : Option Nat) : Ngx Upstream Int := do
  let data ← Exec.deref Upstream.data
  let peers ← Exec.gets Upstream.peers
  Exec.modify fun u => { u with data := some { data with tries := data.tries + 1 } }
  if 5 < data.tries || peers.single then getRoundRobinPeer chosen
  else if peers.peer.length = 0 then Exec.undefined
  else
    let i := rand % peers.peer.length
    let peer ← Exec.deref fun _ => peers.peer[i]?
    Exec.modify fun u => u.point i peer
    pure ngxOk

def free : Ngx Upstream Unit := pure ()

end NdgLoadBalanceCallback

namespace NdgLoadBalanceHandler

def initPeer (granted : Bool) (rc : Int) : Ngx Upstream Int := do
  NgxLoadBalance.init .callback none granted rc
  pure ngxOk

end NdgLoadBalanceHandler

/-- A call of `upstream->peer.get` or `upstream->peer.free`. -/
inductive PeerCall where
  | get (rand : Nat) (chosen : Option Nat)
  | free
deriving Repr, DecidableEq

structure PeerSession where
  upstream : Upstream
  held : Option Nat := none
  gets : List Nat := []
  frees : List Nat := []
deriving Repr, DecidableEq

namespace PeerCall

def run : PeerCall → Ngx Upstream Int
  | get rand chosen => do
    match ← Exec.deref Upstream.get with
    | .roundRobin => getRoundRobinPeer chosen
    | .callback => NdgLoadBalanceCallback.get rand chosen
  | free => do
    match ← Exec.deref Upstream.free with
    | .roundRobin => freeRoundRobinPeer
    | .callback => NdgLoadBalanceCallback.free
    pure ngxOk

def step (s : PeerSession) (call : PeerCall) : PeerSession :=
  match call, call.run s.upstream with
  | get _ _, .ok rc u =>
    if rc = ngxOk then
      { s with upstream := u, held := u.pc.name, gets := s.gets ++ u.pc.name.toList }
    else { s with upstream := u }
  | free, .ok _ u =>
    { s with upstream := u, held := none, frees := s.frees ++ s.held.toList }
  | _, _ => s

/-- nginx gets a peer when it holds none and frees the one it holds; the round
robin chooses among the peers. -/
def Allowed (s : PeerSession) : PeerCall → Prop
  | get _ chosen => s.held = none ∧ ∀ i ∈ chosen, i < s.upstream.peers.peer.length
  | free => s.held.isSome

instance (s : PeerSession) : (call : PeerCall) → Decidable (call.Allowed s)
  | get _ chosen => inferInstanceAs
    (Decidable (s.held = none ∧ ∀ i ∈ chosen, i < s.upstream.peers.peer.length))
  | free => inferInstanceAs (Decidable (s.held.isSome = true))

def current (u : Upstream) : Option Nat := u.data.bind PeerData.current

/-- The counters are those of the start, plus the gets, minus the frees. -/
def Balanced (start : Upstream) (s : PeerSession) : Prop :=
  ∀ i, (s.upstream.peers.peer[i]?).map RrPeer.conns =
    (start.peers.peer[i]?).map fun peer =>
      peer.conns + (s.gets.count i : Int) - (s.frees.count i : Int)

/-- A free finds the peer of its get in `rrp.current`, and every call leaves the
counters balanced. -/
def Accounts (start : Upstream) (s : PeerSession) (call : PeerCall) : Prop :=
  (call = free → ∃ i, current s.upstream = some i ∧ s.held = some i) ∧
    Balanced start (step s call)

section Single

variable {start u : Upstream} {s : PeerSession} {data : PeerData} {i : Nat} {peer : RrPeer}

theorem setConns_conns (u : Upstream) (i j : Nat) (f : Int → Int) :
    ((u.setConns i f).peers.peer[j]?).map RrPeer.conns =
      (u.peers.peer[j]?).map fun peer => if i = j then f peer.conns else peer.conns := by
  rw [Upstream.setConns, List.getElem?_modify]
  cases u.peers.peer[j]? with
  | none => rfl
  | some peer => by_cases same : i = j <;> simp [same]

theorem get_single (set : u.get = some .callback) (has : u.data = some data)
    (single : u.peers.single = true) (rand : Nat) (chosen : Option Nat) :
    (get rand chosen).run u = getRoundRobinPeer chosen
      { u with data := some { data with tries := data.tries + 1 } } := by
  rw [run, Exec.bind_ok _ (Exec.deref_some set)]
  dsimp only
  rw [NdgLoadBalanceCallback.get, Exec.bind_ok _ (Exec.deref_some has),
    Exec.bind_ok _ (Exec.gets_apply _ _), Exec.bind_ok _ (Exec.modify_apply _ _),
    if_pos (by simp [single])]

theorem get_busy (set : u.get = some .callback) (has : u.data = some data)
    (single : u.peers.single = true) (rand : Nat) : (get rand none).run u =
      .ok ngxBusy { u with data := some { data with tries := data.tries + 1 } } := by
  rw [get_single set has single rand none]
  rfl

theorem getRoundRobinPeer_chosen (has : u.data = some data)
    (found : u.peers.peer[i]? = some peer) : getRoundRobinPeer (some i) u =
      .ok ngxOk { (u.point i peer).setConns i (· + 1) with
        data := some { data with current := some i } } := by
  rw [getRoundRobinPeer]
  dsimp only
  rw [Exec.bind_ok _ (Exec.deref_some has),
    Exec.bind_ok _ (Exec.deref_some (f := fun u : Upstream => u.peers.peer[i]?) found)]
  rfl

theorem get_chosen (set : u.get = some .callback) (has : u.data = some data)
    (single : u.peers.single = true) (found : u.peers.peer[i]? = some peer) (rand : Nat) :
    (get rand (some i)).run u = .ok ngxOk { (u.point i peer).setConns i (· + 1) with
      data := some { current := some i, tries := data.tries + 1 } } := by
  rw [get_single set has single rand (some i)]
  exact getRoundRobinPeer_chosen (u := { u with
    data := some { data with tries := data.tries + 1 } }) rfl found

theorem free_current (set : u.free = some .roundRobin) (at_i : current u = some i) :
    free.run u = .ok ngxOk (u.setConns i (· - 1)) := by
  obtain ⟨data, has, cur⟩ := Option.bind_eq_some_iff.mp at_i
  have freed : freeRoundRobinPeer u = .ok () (u.setConns i (· - 1)) := by
    rw [freeRoundRobinPeer, Exec.bind_ok _ (Exec.deref_some has),
      Exec.bind_ok _ (Exec.deref_some (f := fun _ => data.current) cur)]
    rfl
  rw [run, Exec.bind_ok _ (Exec.deref_some set)]
  dsimp only
  rw [Exec.bind_ok _ freed]
  rfl

theorem get_random (set : u.get = some .callback) (has : u.data = some data)
    (several : u.peers.single = false) (few : ¬ 5 < data.tries) {rand : Nat}
    (found : u.peers.peer[rand % u.peers.peer.length]? = some peer) (chosen : Option Nat) :
    (get rand chosen).run u = .ok ngxOk { u.point (rand % u.peers.peer.length) peer with
      data := some { data with tries := data.tries + 1 } } := by
  have some_peer : u.peers.peer.length ≠ 0 := by
    intro empty
    simp [List.eq_nil_of_length_eq_zero empty] at found
  rw [run, Exec.bind_ok _ (Exec.deref_some set)]
  dsimp only
  rw [NdgLoadBalanceCallback.get, Exec.bind_ok _ (Exec.deref_some has),
    Exec.bind_ok _ (Exec.gets_apply _ _), Exec.bind_ok _ (Exec.modify_apply _ _),
    if_neg (by simp [few, several]), if_neg some_peer,
    Exec.bind_ok _ (Exec.deref_some
      (f := fun _ : Upstream => u.peers.peer[rand % u.peers.peer.length]?) found)]
  rfl

theorem Balanced.setConns {s' : PeerSession} {f : Int → Int} {d : Int}
    (balanced : Balanced start s) (peers : s'.upstream.peers = (s.upstream.setConns i f).peers)
    (moved : ∀ c, f c = c + d) (counts : ∀ j, (s'.gets.count j : Int) - s'.frees.count j =
      s.gets.count j - s.frees.count j + if i = j then d else 0) : Balanced start s' := by
  intro j
  rw [peers, setConns_conns]
  have before := balanced j
  have count := counts j
  cases now : s.upstream.peers.peer[j]? <;> cases first : start.peers.peer[j]? <;>
    simp [now, first] at before ⊢
  by_cases same : i = j
  · rw [if_pos same] at count ⊢
    rw [moved]
    omega
  · rw [if_neg same] at count ⊢
    omega

structure Steady (start : Upstream) (s : PeerSession) : Prop where
  single : s.upstream.peers.single = true
  get : s.upstream.get = some .callback
  free : s.upstream.free = some .roundRobin
  data : s.upstream.data.isSome
  held : ∀ i, s.held = some i → current s.upstream = some i
  balanced : Balanced start s

theorem Steady.step (steady : Steady start s) {call : PeerCall} (allowed : call.Allowed s) :
    Steady start (call.step s) := by
  obtain ⟨data, has⟩ := Option.isSome_iff_exists.mp steady.data
  cases call with
  | free =>
    obtain ⟨i, holds⟩ := Option.isSome_iff_exists.mp allowed
    have freed := free_current steady.free (steady.held i holds)
    simp only [PeerCall.step, freed]
    refine ⟨steady.single, steady.get, steady.free, steady.data, by simp, ?_⟩
    refine steady.balanced.setConns (d := -1) rfl (fun c => rfl) fun j => ?_
    by_cases same : i = j
    · simp [holds, List.count_append, same]
      omega
    · simp [holds, List.count_append, same]
  | get rand chosen =>
    cases chosen with
    | none =>
      have busy := get_busy steady.get has steady.single rand
      have failed : ngxBusy ≠ ngxOk := by decide
      simp only [PeerCall.step, busy, if_neg failed]
      exact ⟨steady.single, steady.get, steady.free, rfl, by simp [allowed.1], steady.balanced⟩
    | some i =>
      have found := List.getElem?_eq_getElem (allowed.2 i rfl)
      have got := get_chosen steady.get has steady.single found rand
      simp only [PeerCall.step, got, if_true]
      refine ⟨steady.single, steady.get, steady.free, rfl, fun j held => held, ?_⟩
      refine steady.balanced.setConns (d := 1) rfl (fun c => rfl) fun j => ?_
      by_cases same : i = j
      · simp [Upstream.point, Upstream.setConns, List.count_append, same]
        omega
      · simp [Upstream.point, Upstream.setConns, List.count_append, same]

theorem Steady.accounts (steady : Steady start s) {call : PeerCall} (allowed : call.Allowed s) :
    call.Accounts start s := by
  refine ⟨?_, (steady.step allowed).balanced⟩
  rintro rfl
  obtain ⟨i, holds⟩ := Option.isSome_iff_exists.mp allowed
  exact ⟨i, steady.held i holds, holds⟩

end Single

section Runs

variable {w start : Upstream} {granted : Bool} {rc c : Int}

theorem initPeer_eq (ready : NdgLoadBalanceHandler.initPeer granted rc w = .ok c start) :
    start = { w with data := some {}, get := some .callback, free := some .roundRobin } := by
  cases granted with
  | false => simp [NdgLoadBalanceHandler.initPeer, NgxLoadBalance.init, NgxException.requireCond,
      NgxException.raise, Exec.bind_apply] at ready
  | true =>
    by_cases ok : rc = ngxOk
    · subst ok
      exact (Outcome.ok.inj ready).2.symm
    · simp [NdgLoadBalanceHandler.initPeer, NgxLoadBalance.init, NgxException.requireCond,
        NgxException.requireCode, initRoundRobinPeer, NgxException.raise, Exec.bind_apply, ok]
        at ready

theorem steady_init (ready : NdgLoadBalanceHandler.initPeer granted rc w = .ok c start)
    (single : start.peers.single = true) : Steady start { upstream := start } := by
  have made := initPeer_eq ready
  refine ⟨single, ?_, ?_, ?_, by simp, fun i => by simp⟩ <;> rw [made]
  rfl

theorem random_uncounted (ready : NdgLoadBalanceHandler.initPeer granted rc w = .ok c start)
    (several : start.peers.single = false) (peers : start.peers.peer ≠ []) (rand : Nat)
    (chosen : Option Nat) : ¬ Balanced start ((get rand chosen).step { upstream := start }) := by
  have made := initPeer_eq ready
  have inside : rand % start.peers.peer.length < start.peers.peer.length :=
    Nat.mod_lt _ (List.length_pos_iff.mpr peers)
  have found := List.getElem?_eq_getElem inside
  have has : start.data = some {} := by rw [made]
  have picked := get_random (by rw [made]) has several (by decide) found chosen
  intro balanced
  have counted := balanced (rand % start.peers.peer.length)
  simp only [step, picked, if_true, Upstream.point, found, Option.map_some, Option.some.injEq,
    Option.toList_some, List.nil_append, List.count_cons_self, List.count_nil] at counted
  omega

end Runs

end PeerCall

/-- The peers of a request stay accounted for exactly when the block has a single
peer, or none is ever got. -/
theorem peer_accounting_iff {w start : Upstream} {granted : Bool} {rc c : Int}
    (ready : NdgLoadBalanceHandler.initPeer granted rc w = .ok c start)
    (peers : w.peers.peer ≠ []) {calls : List PeerCall}
    (allowed : Along PeerCall.step PeerCall.Allowed { upstream := start } calls) :
    Along PeerCall.step (PeerCall.Accounts start) { upstream := start } calls ↔
      start.peers.single = true ∨ calls = [] := by
  constructor
  · intro accounts
    cases single : start.peers.single with
    | true => exact .inl rfl
    | false =>
      cases calls with
      | nil => exact .inr rfl
      | cons call calls =>
        have some_peer : start.peers.peer ≠ [] := by rwa [PeerCall.initPeer_eq ready]
        cases call with
        | get rand chosen =>
          exact absurd accounts.1.2 (PeerCall.random_uncounted ready single some_peer rand chosen)
        | free => simpa [PeerCall.Allowed] using allowed.1
  · rintro (single | rfl)
    · exact Along.of_invariant (fun s call steady allowed => steady.step allowed)
        (fun s call steady allowed => steady.accounts allowed)
        (PeerCall.steady_init ready single) allowed
    · trivial

private def blockOf (peer : List RrPeer) : Upstream where
  peers := ⟨peer, peer.length == 1⟩

private def readyOf (peer : List RrPeer) : Upstream :=
  { blockOf peer with data := some {}, get := some .callback, free := some .roundRobin }

theorem peer_accounting_single :
    Along PeerCall.step (PeerCall.Accounts (readyOf [⟨10, 16, ⟨9, 1⟩, 3⟩]))
        { upstream := readyOf [⟨10, 16, ⟨9, 1⟩, 3⟩] }
        [.get 5 (some 0), .free, .get 6 none, .get 7 (some 0)] ↔
      (readyOf [⟨10, 16, ⟨9, 1⟩, 3⟩]).peers.single = true ∨
        [.get 5 (some 0), .free, .get 6 none, .get 7 (some 0)] = ([] : List PeerCall) :=
  have ready : NdgLoadBalanceHandler.initPeer true ngxOk (blockOf [⟨10, 16, ⟨9, 1⟩, 3⟩]) =
      .ok ngxOk (readyOf [⟨10, 16, ⟨9, 1⟩, 3⟩]) := by decide
  peer_accounting_iff ready (by decide) (by decide)

/-- With two peers the first free finds no current peer. -/
theorem peer_freed_without_current :
    ¬ Along PeerCall.step (PeerCall.Accounts (readyOf [⟨10, 16, ⟨9, 1⟩, 0⟩, ⟨20, 16, ⟨9, 2⟩, 0⟩]))
      { upstream := readyOf [⟨10, 16, ⟨9, 1⟩, 0⟩, ⟨20, 16, ⟨9, 2⟩, 0⟩] } [.get 0 none, .free] := by
  rintro ⟨-, ⟨found, -⟩, -⟩
  obtain ⟨i, current, -⟩ := found rfl
  have null : PeerCall.current (PeerCall.step
      { upstream := readyOf [⟨10, 16, ⟨9, 1⟩, 0⟩, ⟨20, 16, ⟨9, 2⟩, 0⟩] } (.get 0 none)).upstream =
      none := by decide
  simp [null] at current

end NgxCpp
