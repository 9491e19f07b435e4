import NgxCpp.NgxLoadBalance

/-! The tries of `NdgLoadBalanceCallback`: a `u_char` that every get counts up, which
says when peers are left to nginx's round robin. -/

namespace NgxCpp
open Foundation

section Counter

variable {ι : Type} {limit t : UInt8}

theorem toNat_succ (more : t ≠ 255) : (t + 1).toNat = t.toNat + 1 := by
  have bound := t.toNat_lt
  have other : t.toNat ≠ 255 := fun same => more (UInt8.toNat_inj.mp same)
  rw [UInt8.toNat_add, UInt8.toNat_one]
  omega

/-- Above the limit a counter stays there until it wraps. -/
theorem along_counter (above : limit < t) {is : List ι} (fits : t.toNat + is.length ≤ 256) :
    Along (fun t _ => t + 1) (fun t _ => limit < t) t is := by
  induction is generalizing t with
  | nil => trivial
  | cons i is ih =>
    rw [List.length_cons] at fits
    refine ⟨above, ?_⟩
    by_cases last : t = 255
    · subst last
      have done : is = [] := List.eq_nil_of_length_eq_zero (by
        have top : (255 : UInt8).toNat = 255 := rfl
        omega)
      rw [done]
      trivial
    · have next := toNat_succ last
      have later : limit < t + 1 := by
        rw [UInt8.lt_iff_toNat_lt] at above ⊢
        omega
      have room : (t + 1).toNat + is.length ≤ 256 := by omega
      exact ih later room

theorem lasting_counter (below : limit < 255) (t : UInt8) (is : List ι) :
    Lasting (fun t _ => t + 1) (fun t _ => limit < t) t is ↔ t.toNat + is.length ≤ 256 := by
  induction is generalizing t with
  | nil =>
    have bound := t.toNat_lt
    refine iff_of_true trivial ?_
    rw [List.length_nil]
    omega
  | cons i is ih =>
    rw [Lasting, ih, List.length_cons]
    by_cases last : t = 255
    · subst last
      have top : (255 : UInt8).toNat = 255 := rfl
      have zero : (255 + 1 : UInt8) = 0 := rfl
      rw [zero, UInt8.toNat_zero, top]
      constructor
      · rintro ⟨lasts, -⟩
        cases is with
        | nil => exact Nat.le_refl _
        | cons j js => exact absurd (lasts below).1 UInt8.not_lt_zero
      · intro fits
        have done : is = [] := List.eq_nil_of_length_eq_zero (by omega)
        subst done
        exact ⟨fun _ => trivial, Nat.zero_le _⟩
    · have next := toNat_succ last
      rw [next]
      constructor
      · rintro ⟨-, fits⟩
        omega
      · intro fits
        refine ⟨fun above => along_counter ?_ (by omega), by omega⟩
        rw [UInt8.lt_iff_toNat_lt] at above ⊢
        omega

end Counter

namespace NdgLoadBalanceCallback

/-- A get counts the try and leaves the choice to `get_rr_peer`, whatever that chooses. -/
def Delegated (u : Upstream) (rand : Nat) : Prop :=
  ∃ data, u.data = some data ∧ ∀ chosen, get rand chosen u =
    getRoundRobinPeer chosen { u with data := some { data with tries := data.tries + 1 } }

/-- The request's `peer.get` is called: `call` has the number that is drawn and the choice of
the round robin. -/
def callGet (u : Upstream) (call : Nat × Option Nat) : Upstream :=
  ((PeerCall.get call.1 call.2).run u).state?.getD u

/-- A request that has called `peer.get` so often, in a block of `n` peers. -/
structure Counting (n : Nat) (u : Upstream) (tries : UInt8) : Prop where
  get : u.get = some .callback
  several : u.peers.single = false
  peers : u.peers.peer.length = n
  data : ∃ current, u.data = some ⟨current, tries⟩

section Gets

variable {n rand : Nat} {u : Upstream} {t : UInt8} {call : Nat × Option Nat}

theorem get_delegated (counting : Counting n u t) (above : 5 < t) : Delegated u rand := by
  obtain ⟨current, has⟩ := counting.data
  refine ⟨_, has, fun chosen => ?_⟩
  rw [NdgLoadBalanceCallback.get, Exec.bind_ok _ (Exec.deref_some has),
    Exec.bind_ok _ (Exec.gets_apply _ _), Exec.bind_ok _ (Exec.modify_apply _ _),
    if_pos (by simp [above])]

theorem get_drawn (counting : Counting n u t) (some_peer : n ≠ 0) (within : ¬ 5 < t)
    (rand : Nat) (chosen : Option Nat) : ∃ current peer, (PeerCall.get rand chosen).run u =
      .ok ngxOk { u.point (rand % n) peer with data := some ⟨current, t + 1⟩ } := by
  obtain ⟨current, has⟩ := counting.data
  have inside : rand % n < u.peers.peer.length := by
    rw [counting.peers]
    exact Nat.mod_lt _ (Nat.pos_of_ne_zero some_peer)
  obtain ⟨peer, found⟩ : ∃ peer, u.peers.peer[rand % n]? = some peer :=
    ⟨_, List.getElem?_eq_getElem inside⟩
  rw [← counting.peers] at found ⊢
  exact ⟨current, peer,
    PeerCall.get_random counting.get has counting.several within found chosen⟩

theorem run_get (counting : Counting n u t) (rand : Nat) (chosen : Option Nat) :
    (PeerCall.get rand chosen).run u = get rand chosen u := by
  rw [PeerCall.run, Exec.bind_ok _ (Exec.deref_some counting.get)]

/-- With several peers only the tries leave the choice to `get_rr_peer`. -/
theorem delegated_iff (counting : Counting n u t) (some_peer : n ≠ 0) :
    Delegated u rand ↔ 5 < t := by
  refine ⟨?_, get_delegated counting⟩
  rintro ⟨data, has, delegates⟩
  by_contra within
  obtain ⟨current, peer, drawn⟩ := get_drawn counting some_peer within rand none
  rw [run_get counting, delegates none] at drawn
  have codes := (Outcome.ok.inj drawn).1
  exact absurd codes (by decide)

theorem Counting.callGet (counting : Counting n u t) (some_peer : n ≠ 0)
    (inside : ∀ i ∈ call.2, i < n) : Counting n (callGet u call) (t + 1) := by
  obtain ⟨rand, chosen⟩ := call
  obtain ⟨current, has⟩ := counting.data
  by_cases above : 5 < t
  · have left_over : Delegated u rand := get_delegated counting above
    obtain ⟨data, has', delegates⟩ := left_over
    obtain rfl := Option.some.inj (has.symm.trans has')
    have left := (run_get counting rand chosen).trans (delegates chosen)
    cases chosen with
    | none =>
      rw [NdgLoadBalanceCallback.callGet, left]
      exact ⟨counting.get, counting.several, counting.peers, current, rfl⟩
    | some i =>
      have below : i < u.peers.peer.length := counting.peers ▸ inside i rfl
      have got := PeerCall.getRoundRobinPeer_chosen
        (u := { u with data := some ⟨current, t + 1⟩ }) rfl (List.getElem?_eq_getElem below)
      rw [NdgLoadBalanceCallback.callGet, left, got]
      exact ⟨counting.get, counting.several, (List.length_modify ..).trans counting.peers,
        some i, rfl⟩
  · obtain ⟨current, peer, drawn⟩ := get_drawn counting some_peer above rand chosen
    rw [NdgLoadBalanceCallback.callGet, drawn]
    exact ⟨counting.get, counting.several, counting.peers, current, rfl⟩

theorem lasting_delegated (counting : Counting n u t) (some_peer : n ≠ 0)
    {calls : List (Nat × Option Nat)} (inside : ∀ call ∈ calls, ∀ i ∈ call.2, i < n) :
    Lasting NdgLoadBalanceCallback.callGet (fun u call => Delegated u call.1) u calls ↔
      t.toNat + calls.length ≤ 256 := by
  have kept : ∀ u t (call : Nat × Option Nat), Counting n u t → (∀ i ∈ call.2, i < n) →
      Counting n (NdgLoadBalanceCallback.callGet u call) (t + 1) :=
    fun u t call counting inside => counting.callGet some_peer inside
  have same : ∀ u t (call : Nat × Option Nat), Counting n u t → (∀ i ∈ call.2, i < n) →
      (Delegated u call.1 ↔ 5 < t) :=
    fun u t call counting _ => delegated_iff counting some_peer
  have counted := lasting_sim (Counting n) kept same counting inside
  exact counted.trans (lasting_counter (by decide) t calls)

end Gets

end NdgLoadBalanceCallback

section Fallback

open NdgLoadBalanceCallback

/-- Peers that were left to `get_rr_peer` for too many tries stay so exactly as long as the
tries of the request do not wrap. -/
theorem fallback_permanent_iff {w start : Upstream} {granted : Bool} {rc c : Int}
    (ready : NdgLoadBalanceHandler.initPeer granted rc w = .ok c start)
    (several : w.peers.single = false) (peers : w.peers.peer ≠ [])
    {calls : List (Nat × Option Nat)}
    (inside : ∀ call ∈ calls, ∀ i ∈ call.2, i < w.peers.peer.length) :
    Lasting callGet (fun u call => Delegated u call.1) start calls ↔ calls.length ≤ 256 := by
  have made := PeerCall.initPeer_eq ready
  have counting : Counting w.peers.peer.length start 0 := by
    subst made
    exact ⟨rfl, several, rfl, none, rfl⟩
  have some_peer := Nat.ne_of_gt (List.length_pos_iff.mpr peers)
  have counted := lasting_delegated counting some_peer inside
  rwa [UInt8.toNat_zero, Nat.zero_add] at counted

private def twoPeers : Upstream where
  peers := ⟨[⟨10, 16, ⟨9, 1⟩, 0⟩, ⟨20, 16, ⟨9, 2⟩, 0⟩], false⟩

private def calling : Upstream :=
  { twoPeers with data := some {}, get := some .callback, free := some .roundRobin }

private theorem chosen_inside (k : Nat) :
    ∀ call ∈ List.replicate k (7, some 1), ∀ i ∈ call.2, i < twoPeers.peers.peer.length := by
  intro call member i chosen
  obtain ⟨-, rfl⟩ := List.mem_replicate.mp member
  obtain rfl := Option.some.inj chosen
  decide

theorem fallback_permanent_unwrapped :
    Lasting callGet (fun u call => Delegated u call.1) calling (List.replicate 256 (7, some 1)) :=
  have ready : NdgLoadBalanceHandler.initPeer true ngxOk twoPeers = .ok ngxOk calling := by decide
  (fallback_permanent_iff ready rfl (by decide) (chosen_inside 256)).mpr
    (Nat.le_of_eq List.length_replicate)

/-- With two peers the call after 256 others draws a peer again. -/
theorem fallback_wraps :
    ¬ Lasting callGet (fun u call => Delegated u call.1) calling
      (List.replicate 257 (7, some 1)) := by
  have counting : Counting 2 calling 0 := ⟨rfl, rfl, rfl, none, rfl⟩
  rw [lasting_delegated counting (by decide) (chosen_inside 257), List.length_replicate]
  decide

end Fallback

end NgxCpp
