import NgxCpp.NdgFilterHandler

/-! Runs of `NdgFilterHandler` over a request: calls of its header filter, then of
its body filter, each with chains of its own and with next filters that record
their call and answer with any code. -/

namespace NgxCpp
open Foundation

/-- A call of the body filter: the chains as they are by then, the argument and
the answer of the next filter. -/
structure BodyCall where
  chains : ChainMem
  input : Option Nat
  rc : Int
deriving Repr, DecidableEq

/-- The footer comes exactly once, right after the last buffer, and the other
chains are handed on as they came; without a last buffer there is no footer. -/
structure FooterOnce (conf : NdgFilterConf) (ins outs : List (List NgxBufT)) : Prop where
  calls : outs.length = ins.length
  withoutLast : (∀ b ∈ ins.flatten, b.lastBuf = false) → outs = ins
  withLast : ∀ before front b after, ins = before ++ (front ++ [b]) :: after → b.lastBuf = true →
    ∃ out, outs = before ++ out :: after ∧
      (∀ c, out.flatMap (NgxBufT.bytes c) =
        (front ++ [b]).flatMap (NgxBufT.bytes c) ++ NgxString.bytes c.ram conf.footer) ∧
      outs.flatten.filter NgxBufT.lastBuf = [NdgFilterHandler.footerBuf conf]

/-- A request that the handler has not seen, with well-formed headers and pools
that do not run dry. -/
structure FilterWorld.Fresh (w : FilterWorld) (sh : ListShape NgxTableElt) : Prop where
  ctx : w.ctx = none
  log : w.log = []
  rep : Represents w.headers w.headersOut sh
  generous : w.headers.Generous
  pool : w.chains.Generous

namespace NdgFilterHandler

def nextHeader (rc : Int) : Ngx FilterWorld Int := do
  Exec.modify fun w =>
    { w with log := w.log ++ [.header w.contentLength (w.headers.shown w.headersOut)] }
  pure rc

def nextBody (rc : Int) (input : Option Nat) : Ngx FilterWorld Int := do
  Exec.modify fun w => { w with log := w.log ++ [.body input (w.chains.shown input)] }
  pure rc

variable (conf : NdgFilterConf)

def headerCall (rc : Int) : Ngx FilterWorld Unit := do
  let _ ← headerFilter conf (nextHeader rc)

def bodyCall (call : BodyCall) : Ngx FilterWorld Unit := do
  Exec.modify fun w => { w with chains := call.chains }
  let _ ← bodyFilter conf (nextBody call.rc) call.input

def filterRun (rcs : List Int) (bodies : List BodyCall) : Ngx FilterWorld Unit := do
  Exec.each (headerCall conf) rcs
  Exec.each (bodyCall conf) bodies

def configured : List NgxTableElt :=
  (conf.headers.getD []).map fun kv => ⟨1, kv.key, kv.value⟩

/-- `content_length_n` with the footer counted in. -/
def counted (len : Int) : Int :=
  if !NgxString.empty conf.footer && 0 < len then (len + conf.footer.len).bmod (2 ^ 64) else len

/-- The memory of a call shows these buffers, and its pool does not run dry. -/
def Brings (call : BodyCall) (bs : List NgxBufT) : Prop :=
  call.chains.Generous ∧ call.chains.shown call.input = some bs

def passOn (call : BodyCall) (bs : List NgxBufT) : NextCall := .body call.input (some bs)

def OnlyLast (bs : List NgxBufT) : Prop := ∀ b ∈ bs.dropLast, b.lastBuf = false

def footered : List (List NgxBufT) → List (List NgxBufT)
  | [] => []
  | bs :: rest =>
    match bs.find? NgxBufT.lastBuf with
    | some b => (bs.dropLast ++ attached conf b) :: rest
    | none => bs :: footered rest

variable {conf}

section Chains

variable {bs : List NgxBufT} {b : NgxBufT} {rest : List (List NgxBufT)}

theorem OnlyLast.cases (only : OnlyLast bs) : (∀ b ∈ bs, b.lastBuf = false) ∨
    ∃ front b, bs = front ++ [b] ∧ (∀ x ∈ front, x.lastBuf = false) ∧ b.lastBuf = true := by
  obtain rfl | ⟨front, b, rfl⟩ := List.eq_nil_or_concat' bs
  · exact .inl (by simp)
  · have unset : ∀ x ∈ front, x.lastBuf = false := by simpa [OnlyLast] using only
    cases last : b.lastBuf with
    | false => exact .inl (by simpa [or_imp, forall_and, last] using unset)
    | true => exact .inr ⟨front, b, rfl, unset, last⟩

theorem footered_unset (unset : ∀ b ∈ bs, b.lastBuf = false) :
    footered conf (bs :: rest) = bs :: footered conf rest := by
  rw [footered, List.find?_eq_none.mpr (by simpa using unset)]

theorem footered_last (unset : ∀ x ∈ bs, x.lastBuf = false) (last : b.lastBuf = true) :
    footered conf ((bs ++ [b]) :: rest) = (bs ++ attached conf b) :: rest := by
  have found : (bs ++ [b]).find? NgxBufT.lastBuf = some b := by
    rw [List.find?_append, List.find?_eq_none.mpr (by simpa using unset)]
    simp [last]
  rw [footered, found]
  simp

theorem footered_length (ins : List (List NgxBufT)) : (footered conf ins).length = ins.length := by
  induction ins with
  | nil => rfl
  | cons bs rest ih =>
    unfold footered
    split <;> simp [ih]

theorem footered_eq_self {ins : List (List NgxBufT)}
    (unset : ∀ b ∈ ins.flatten, b.lastBuf = false) : footered conf ins = ins := by
  induction ins with
  | nil => rfl
  | cons bs rest ih =>
    rw [footered_unset fun b inside => unset b (by simp [inside]),
      ih fun b inside => unset b (List.mem_flatten.mpr (by
        obtain ⟨l, member, found⟩ := List.mem_flatten.mp inside
        exact ⟨l, by simp [member], found⟩))]

theorem footered_split {before after : List (List NgxBufT)}
    (early : ∀ b ∈ before.flatten, b.lastBuf = false) (unset : ∀ x ∈ bs, x.lastBuf = false)
    (last : b.lastBuf = true) : footered conf (before ++ (bs ++ [b]) :: after) =
      before ++ (bs ++ attached conf b) :: after := by
  induction before with
  | nil => exact footered_last unset last
  | cons first before ih =>
    simp only [List.flatten_cons, List.mem_append, or_imp, forall_and] at early
    rw [List.cons_append, footered_unset early.1, ih early.2, List.cons_append]

theorem attached_bytes (c : Contents) (b : NgxBufT) : (attached conf b).flatMap (NgxBufT.bytes c) =
    b.bytes c ++ NgxString.bytes c.ram conf.footer := by
  have footer : (footerBuf conf).bytes c = NgxString.bytes c.ram conf.footer := rfl
  unfold attached
  split
  · rename_i empty
    simp [footer, NgxBufT.bytes_eq_nil empty]
  · rw [List.flatMap_cons, List.flatMap_singleton, footer]
    rfl

theorem attached_last (b : NgxBufT) :
    (attached conf b).filter NgxBufT.lastBuf = [footerBuf conf] := by
  unfold attached
  split <;> simp [footerBuf]

theorem unset_of_filter (unset : bs.filter NgxBufT.lastBuf = []) : ∀ x ∈ bs, x.lastBuf = false := by
  intro x inside
  simpa using List.filter_eq_nil_iff.mp unset x inside

theorem last_alone {before after : List (List NgxBufT)} (last : b.lastBuf = true)
    (once : ((before ++ (bs ++ [b]) :: after).flatten.filter NgxBufT.lastBuf).length ≤ 1) :
    before.flatten.filter NgxBufT.lastBuf = [] ∧ bs.filter NgxBufT.lastBuf = [] ∧
      after.flatten.filter NgxBufT.lastBuf = [] := by
  simp only [List.flatten_append, List.flatten_cons, List.filter_append, List.length_append,
    List.filter_cons_of_pos last, List.filter_nil, List.length_singleton] at once
  refine ⟨?_, ?_, ?_⟩ <;> apply List.eq_nil_of_length_eq_zero <;> omega

end Chains

section HeaderCalls

variable {w : FilterWorld} {sh : ListShape NgxTableElt}

theorem addHeader_eq {before kvs : List NgxKeyVal} {kv : NgxKeyVal}
    (headers : conf.headers = some (before ++ kv :: kvs)) : addHeader conf before.length w =
      onHeaders (NgxList.push w.headersOut ⟨1, kv.key, kv.value⟩) w := by
  have found : NgxKvArray.get conf.headers before.length w = .ok kv w := by
    simp [NgxKvArray.get, headers]
  rw [addHeader, Exec.bind_ok _ found, Exec.bind_ok _ (Exec.gets_apply _ _), onHeaders, onHeaders,
    Exec.zoom, Exec.zoom, add_eq_push]
  rfl

/-- The indices that the loop has left after `before`. -/
def indicesFrom (before kvs : List NgxKeyVal) : List Nat :=
  (List.range kvs.length).map (before.length + ·)

theorem indicesFrom_cons (before kvs : List NgxKeyVal) (kv : NgxKeyVal) :
    indicesFrom before (kv :: kvs) = before.length :: indicesFrom (before ++ [kv]) kvs := by
  rw [indicesFrom, List.length_cons, List.range_succ_eq_map, List.map_cons, List.map_map]
  simp [indicesFrom, Function.comp_def, Nat.add_assoc, Nat.add_comm 1]

theorem indicesFrom_nil (kvs : List NgxKeyVal) :
    indicesFrom [] kvs = List.range (NgxKvArray.size (some kvs)) := by
  simp [indicesFrom, NgxKvArray.size]

theorem addHeaders (kvs before : List NgxKeyVal) (headers : conf.headers = some (before ++ kvs))
    (rep : Represents w.headers w.headersOut sh) (generous : w.headers.Generous) :
    ∃ m sh', Exec.each (addHeader conf) (indicesFrom before kvs) w =
        .ok () { w with headers := m } ∧ Represents m w.headersOut sh' ∧
      sh'.elems = sh.elems ++ kvs.map fun kv => ⟨1, kv.key, kv.value⟩ := by
  induction kvs generalizing before w sh with
  | nil => exact ⟨w.headers, sh, rfl, rep, by simp⟩
  | cons kv kvs ih =>
    obtain ⟨m1, pushed, generous1⟩ := rep.push_generous generous ⟨1, kv.key, kv.value⟩
    have added : addHeader conf before.length w = .ok () { w with headers := m1 } :=
      (addHeader_eq headers).trans (Exec.zoom_ok pushed)
    obtain ⟨sh1, rep1, elems1⟩ := rep.push pushed
    obtain ⟨m2, sh2, rest, rep2, elems2⟩ := ih (w := { w with headers := m1 }) (before ++ [kv])
      (by simpa using headers) rep1 generous1
    refine ⟨m2, sh2, ?_, rep2, by simp [elems2, elems1]⟩
    rw [indicesFrom_cons, Exec.each_cons_ok added]
    exact rest

theorem flag_fresh (fresh : w.ctx = none) (pool : w.chains.Generous) : flag w =
    .ok 0 { w with ctx := some 0, chains := { w.chains with grants := w.chains.grants.tail } } := by
  have granted : onChains chainPalloc w =
      .ok true { w with chains := { w.chains with grants := w.chains.grants.tail } } :=
    Exec.zoom_ok (chainPalloc_generous pool)
  rw [flag, fresh]
  dsimp only
  rw [Exec.bind_ok _ granted]
  rfl

theorem flag_set {i : Int} (set : w.ctx = some i) : flag w = .ok i w := by
  rw [flag, set]

theorem setFlag_ok (i : Int) (w : FilterWorld) :
    setFlag i w = .ok () { w with ctx := some i } := rfl

variable (conf) in
theorem doHeaderFilter_first (fresh : w.ctx = none) (pool : w.chains.Generous)
    (rep : Represents w.headers w.headersOut sh) (generous : w.headers.Generous) :
    ∃ m sh', doHeaderFilter conf w = .ok () { w with
        ctx := some 1, chains := { w.chains with grants := w.chains.grants.tail }
        headers := m, contentLength := counted conf w.contentLength } ∧
      Represents m w.headersOut sh' ∧ sh'.elems = sh.elems ++ configured conf := by
  let chains : ChainMem := { w.chains with grants := w.chains.grants.tail }
  have added : ∃ m sh', Exec.each (addHeader conf) (List.range (NgxKvArray.size conf.headers))
        { w with ctx := some 1, chains } = .ok () { w with ctx := some 1, chains, headers := m } ∧
      Represents m w.headersOut sh' ∧ sh'.elems = sh.elems ++ configured conf := by
    cases headers : conf.headers with
    | none => exact ⟨w.headers, sh, rfl, rep, by simp [configured, headers]⟩
    | some kvs =>
      obtain ⟨m, sh', run, rep', elems⟩ := addHeaders (w := { w with ctx := some 1, chains }) kvs []
        headers rep generous
      refine ⟨m, sh', ?_, rep', by simpa [configured, headers] using elems⟩
      rwa [indicesFrom_nil] at run
  obtain ⟨m, sh', run, rep', elems⟩ := added
  refine ⟨m, sh', ?_, rep', elems⟩
  rw [doHeaderFilter, Exec.bind_ok _ (flag_fresh fresh pool), if_neg (by decide),
    Exec.bind_ok _ (setFlag_ok 1 _), Exec.bind_ok _ run]
  unfold counted
  by_cases empty : NgxString.empty conf.footer = true
  · simp [empty, chains]
  · rw [if_neg empty, Exec.bind_ok _ (Exec.gets_apply _ _)]
    by_cases long : 0 < w.contentLength
    · simp [empty, long, setLength, chains]
    · simp [empty, long, chains]

theorem doHeaderFilter_again (set : w.ctx = some 1) : doHeaderFilter conf w = .ok () w := by
  rw [doHeaderFilter, Exec.bind_ok _ (flag_set set), if_pos (by decide)]
  rfl

def headerSeen (w : FilterWorld) : NextCall :=
  .header w.contentLength (w.headers.shown w.headersOut)

theorem headerFilter_ok {w' : FilterWorld} (filtered : doHeaderFilter conf w = .ok () w')
    (rc : Int) : headerFilter conf (nextHeader rc) w =
      .ok rc { w' with log := w'.log ++ [headerSeen w'] } :=
  Exec.catching_ok _ (by rw [Exec.bind_ok _ filtered]; rfl)

theorem headerCall_ok {w' : FilterWorld} (filtered : doHeaderFilter conf w = .ok () w') (rc : Int) :
    headerCall conf rc w = .ok () { w' with log := w'.log ++ [headerSeen w'] } := by
  rw [headerCall, Exec.bind_ok _ (headerFilter_ok filtered rc)]
  rfl

theorem headerCalls_again (set : w.ctx = some 1) (rcs : List Int) :
    Exec.each (headerCall conf) rcs w =
      .ok () { w with log := w.log ++ rcs.map fun _ => headerSeen w } := by
  induction rcs generalizing w with
  | nil => simp
  | cons rc rcs ih =>
    rw [Exec.each_cons_ok (headerCall_ok (doHeaderFilter_again set) rc),
      ih (w := { w with log := w.log ++ [headerSeen w] }) set]
    simp [headerSeen]

variable (conf) in
theorem headerCalls (fresh : w.Fresh sh) (rc : Int) (rcs : List Int) :
    ∃ chains m, Exec.each (headerCall conf) (rc :: rcs) w = .ok () { w with
        ctx := some 1, chains, headers := m, contentLength := counted conf w.contentLength
        log := (rc :: rcs).map fun _ =>
          .header (counted conf w.contentLength) (some (sh.elems ++ configured conf)) } ∧
      m.shown w.headersOut = some (sh.elems ++ configured conf) := by
  obtain ⟨m, sh', first, rep', elems⟩ :=
    doHeaderFilter_first conf fresh.ctx fresh.pool fresh.rep fresh.generous
  refine ⟨{ w.chains with grants := w.chains.grants.tail }, m, ?_, elems ▸ rep'.shown⟩
  rw [Exec.each_cons_ok (headerCall_ok first rc), headerCalls_again rfl]
  simp [headerSeen, rep'.shown, elems, fresh.log]

end HeaderCalls

section BodyCalls

variable {w : FilterWorld} {bs : List NgxBufT} {call : BodyCall}

theorem bodyFilter_ok {w' : FilterWorld} {input : Option Nat}
    (filtered : doBodyFilter conf input w = .ok () w') (rc : Int) :
    bodyFilter conf (nextBody rc) input w =
      .ok rc { w' with log := w'.log ++ [.body input (w'.chains.shown input)] } :=
  Exec.catching_ok _ (by rw [Exec.bind_ok _ filtered]; rfl)

theorem bodyCall_ok {w' : FilterWorld} (filtered : doBodyFilter conf call.input
    { w with chains := call.chains } = .ok () w') : bodyCall conf call w = .ok ()
      { w' with log := w'.log ++ [.body call.input (w'.chains.shown call.input)] } := by
  rw [bodyCall, Exec.bind_ok _ (Exec.modify_apply _ _), Exec.bind_ok _ (bodyFilter_ok filtered _)]
  rfl

theorem doBodyFilter_empty (empty : NgxString.empty conf.footer = true) (input : Option Nat) :
    doBodyFilter conf input w = .ok () w := by
  rw [doBodyFilter, if_pos empty]
  rfl

theorem doBodyFilter_idle (idle : w.ctx = some 2) (input : Option Nat) :
    doBodyFilter conf input w = .ok () w := by
  unfold doBodyFilter
  split
  · rfl
  · rw [Exec.bind_ok _ (flag_set idle), if_pos (by decide)]
    rfl

variable (footer : NgxString.empty conf.footer = false)

section
include footer

theorem doBodyFilter_due {input : Option Nat} {views : List LinkView} (due : w.ctx = some 1)
    (chained : Chained w.chains input views) : doBodyFilter conf input w =
      match views.find? fun v => v.value.lastBuf with
      | none => .ok () w
      | some v => onChains (attachFooter conf v.addr) { w with ctx := some 2 } := by
  have found : onChains (findLastBuf w.chains.links.size input) w =
      .ok ((views.find? fun v => v.value.lastBuf).map LinkView.addr) w :=
    Exec.zoom_ok (findLastBuf_eq chained chained.length_le)
  rw [doBodyFilter, if_neg (by simp [footer]), Exec.bind_ok _ (flag_set due), if_neg (by decide),
    Exec.bind_ok _ (Exec.gets_apply _ _), Exec.bind_ok _ found]
  cases views.find? fun v => v.value.lastBuf with
  | none => rfl
  | some v =>
    dsimp only [Option.map_some]
    rw [Exec.bind_ok _ (setFlag_ok 2 w)]

theorem bodyCall_waits (due : w.ctx = some 1) (brings : Brings call bs)
    (unset : ∀ b ∈ bs, b.lastBuf = false) : bodyCall conf call w =
      .ok () { w with chains := call.chains, log := w.log ++ [passOn call bs] } := by
  obtain ⟨views, chained, rfl⟩ := Chained.of_shown brings.2
  have absent : (views.find? fun v => v.value.lastBuf) = none := by
    simpa using unset
  have idle := doBodyFilter_due (w := { w with chains := call.chains }) footer due chained
  rw [absent] at idle
  rw [bodyCall_ok idle]
  simp only [passOn, brings.2]

theorem bodyCall_attaches {b : NgxBufT} (due : w.ctx = some 1) (brings : Brings call (bs ++ [b]))
    (unset : ∀ x ∈ bs, x.lastBuf = false) (last : b.lastBuf = true) :
    ∃ chains, bodyCall conf call w = .ok () { w with
      ctx := some 2, chains, log := w.log ++ [passOn call (bs ++ attached conf b)] } := by
  obtain ⟨views, chained, values⟩ := Chained.of_shown brings.2
  obtain ⟨front, ends, rfl, rfl, single⟩ := List.map_eq_append_iff.mp values
  obtain ⟨v, rfl, rfl⟩ := List.map_eq_singleton_iff.mp single
  have others : ∀ w ∈ front, w.value.lastBuf = false := by
    simpa using unset
  have found : ((front ++ [v]).find? fun v => v.value.lastBuf) = some v := by
    rw [List.find?_append, List.find?_eq_none.mpr (by simpa using others)]
    simp [last]
  obtain ⟨m, attach, shown⟩ := attachFooter_eq conf chained brings.1 last others
  have filtered := doBodyFilter_due (w := { w with chains := call.chains }) footer due chained
  rw [found] at filtered
  have done : doBodyFilter conf call.input { w with chains := call.chains } =
      .ok () { w with ctx := some 2, chains := m } := filtered.trans (Exec.zoom_ok attach)
  refine ⟨m, ?_⟩
  rw [bodyCall_ok done]
  simp only [passOn, shown]

end

theorem bodyCall_idle (idle : w.ctx = some 2) (brings : Brings call bs) : bodyCall conf call w =
    .ok () { w with chains := call.chains, log := w.log ++ [passOn call bs] } := by
  rw [bodyCall_ok (doBodyFilter_idle (w := { w with chains := call.chains }) idle _)]
  simp only [passOn, brings.2]

variable (conf) in
theorem bodyCalls_idle {bodies : List BodyCall} {ins : List (List NgxBufT)} (idle : w.ctx = some 2)
    (brings : List.Forall₂ Brings bodies ins) :
    ∃ ctx chains, Exec.each (bodyCall conf) bodies w =
      .ok () { w with ctx, chains, log := w.log ++ List.zipWith passOn bodies ins } := by
  induction brings generalizing w with
  | nil => exact ⟨w.ctx, w.chains, by simp⟩
  | @cons call bs bodies ins first rest ih =>
    rw [Exec.each_cons_ok (bodyCall_idle idle first)]
    obtain ⟨ctx, chains, run⟩ :=
      ih (w := { w with chains := call.chains, log := w.log ++ [passOn call bs] }) idle
    exact ⟨ctx, chains, by simpa using run⟩

variable (conf) in
theorem bodyCalls_due {bodies : List BodyCall} {ins : List (List NgxBufT)}
    (footer : NgxString.empty conf.footer = false) (due : w.ctx = some 1)
    (brings : List.Forall₂ Brings bodies ins) (only : ∀ bs ∈ ins, OnlyLast bs) :
    ∃ ctx chains, Exec.each (bodyCall conf) bodies w = .ok () { w with
      ctx, chains, log := w.log ++ List.zipWith passOn bodies (footered conf ins) } := by
  induction brings generalizing w with
  | nil => exact ⟨w.ctx, w.chains, by simp⟩
  | @cons call bs bodies ins first rest ih =>
    obtain unset | ⟨front, b, rfl, unset, last⟩ := (only bs (by simp)).cases
    · rw [Exec.each_cons_ok (bodyCall_waits footer due first unset), footered_unset unset]
      obtain ⟨ctx, chains, run⟩ :=
        ih (w := { w with chains := call.chains, log := w.log ++ [passOn call bs] }) due
          fun bs inside => only bs (by simp [inside])
      exact ⟨ctx, chains, by simpa using run⟩
    · obtain ⟨chains, attach⟩ := bodyCall_attaches footer due first unset last
      rw [Exec.each_cons_ok attach, footered_last unset last]
      obtain ⟨ctx, chains', run⟩ := bodyCalls_idle conf (w := { w with
        ctx := some 2, chains, log := w.log ++ [passOn call (front ++ attached conf b)] }) rfl rest
      exact ⟨ctx, chains', by simpa using run⟩

end BodyCalls

section Requests

variable {w : FilterWorld} {sh : ListShape NgxTableElt} {bodies : List BodyCall}
  {ins : List (List NgxBufT)}

theorem filterRun_eq (fresh : w.Fresh sh) (footer : NgxString.empty conf.footer = false) (rc : Int)
    (rcs : List Int) (brings : List.Forall₂ Brings bodies ins) (only : ∀ bs ∈ ins, OnlyLast bs) :
    ∃ w', filterRun conf (rc :: rcs) bodies w = .ok () w' ∧
      w'.contentLength = counted conf w.contentLength ∧
      w'.headers.shown w'.headersOut = some (sh.elems ++ configured conf) ∧
      w'.log = ((rc :: rcs).map fun _ =>
          .header (counted conf w.contentLength) (some (sh.elems ++ configured conf))) ++
        List.zipWith passOn bodies (footered conf ins) := by
  obtain ⟨chains, m, headers, shown⟩ := headerCalls conf fresh rc rcs
  rw [filterRun, Exec.bind_ok _ headers]
  obtain ⟨ctx, chains', body⟩ := bodyCalls_due conf footer (w := { w with
    ctx := some 1, chains, headers := m, contentLength := counted conf w.contentLength
    log := (rc :: rcs).map fun _ =>
      .header (counted conf w.contentLength) (some (sh.elems ++ configured conf)) }) rfl brings only
  exact ⟨_, body, rfl, shown, rfl⟩

theorem footered_once (once : (ins.flatten.filter NgxBufT.lastBuf).length ≤ 1) :
    FooterOnce conf ins (footered conf ins) where
  calls := footered_length ins
  withoutLast := footered_eq_self
  withLast := by
    rintro before front b after rfl last
    obtain ⟨early, inFront, late⟩ := last_alone last once
    rw [footered_split (unset_of_filter early) (unset_of_filter inFront) last]
    refine ⟨_, rfl, fun c => by simp [attached_bytes], ?_⟩
    simp [early, inFront, late, attached_last]

/-- However often the header filter is called and however the body is cut, the
headers are added once and the footer comes once, at the end. -/
theorem footer_once_at_end (fresh : w.Fresh sh) (footer : NgxString.empty conf.footer = false)
    (rc : Int) (rcs : List Int) (brings : List.Forall₂ Brings bodies ins)
    (only : ∀ bs ∈ ins, OnlyLast bs) (once : (ins.flatten.filter NgxBufT.lastBuf).length ≤ 1) :
    ∃ w' outs, filterRun conf (rc :: rcs) bodies w = .ok () w' ∧
      w'.headers.shown w'.headersOut = some (sh.elems ++ configured conf) ∧
      w'.log = ((rc :: rcs).map fun _ =>
          .header (counted conf w.contentLength) (some (sh.elems ++ configured conf))) ++
        List.zipWith passOn bodies outs ∧ FooterOnce conf ins outs := by
  obtain ⟨w', run, -, headers, log⟩ := filterRun_eq fresh footer rc rcs brings only
  exact ⟨w', footered conf ins, run, headers, log, footered_once once⟩

private def xFooter : NdgFilterConf := ⟨some [⟨⟨1, 8⟩, ⟨1, 9⟩⟩], ⟨1, 10⟩⟩

private def freshRequest (len : Int) : FilterWorld where
  contentLength := len
  headersOut := 0
  headers := { lists := ⟨[⟨0, 0, 2⟩]⟩, parts := ⟨[⟨some 0, 0, none⟩]⟩, arrays := ⟨[[none, none]]⟩ }

private theorem freshRequest_fresh (len : Int) :
    (freshRequest len).Fresh ⟨⟨0, 0, 2⟩, [], ⟨0, 0, []⟩⟩ where
  ctx := rfl
  log := rfl
  rep := Represents.of_empty rfl rfl rfl rfl (by decide)
  generous := by simp [freshRequest, ListMem.Generous]
  pool := by simp [freshRequest, ChainMem.Generous]

private def oneBuf (b : NgxBufT) : BodyCall :=
  ⟨{ links := ⟨[⟨0, none⟩]⟩, bufs := ⟨[b]⟩ }, some 0, 0⟩

private theorem oneBuf_brings (b : NgxBufT) : Brings (oneBuf b) [b] :=
  ⟨by simp [oneBuf, ChainMem.Generous], rfl⟩

/-- Two bytes, a flush, and the end of the body. -/
theorem footer_once_at_end_flushed :
    ∃ w' outs, filterRun xFooter [0, 0]
        [oneBuf { last := 2, memory := true }, ⟨{}, none, 0⟩, oneBuf { lastBuf := true }]
        (freshRequest 2) = .ok () w' ∧
      w'.headers.shown w'.headersOut = some [⟨1, ⟨1, 8⟩, ⟨1, 9⟩⟩] ∧
      w'.log = ([0, 0].map fun _ => .header 3 (some [⟨1, ⟨1, 8⟩, ⟨1, 9⟩⟩])) ++
        List.zipWith passOn
          [oneBuf { last := 2, memory := true }, ⟨{}, none, 0⟩, oneBuf { lastBuf := true }] outs ∧
      FooterOnce xFooter [[{ last := 2, memory := true }], [], [{ lastBuf := true }]] outs :=
  footer_once_at_end (freshRequest_fresh 2) rfl 0 [0]
    (.cons (oneBuf_brings _) (.cons ⟨by simp [ChainMem.Generous], rfl⟩
      (.cons (oneBuf_brings _) .nil))) (by simp [OnlyLast]) (by decide)

def handed (c : Contents) (log : List NextCall) : List UInt8 :=
  log.flatMap fun call =>
    match call with
    | .body _ (some bufs) => bufs.flatMap (NgxBufT.bytes c)
    | _ => []

theorem handed_headers (c : Contents) (rcs : List Int) (len : Int)
    (headers : Option (List NgxTableElt)) (log : List NextCall) :
    handed c (rcs.map (fun _ => .header len headers) ++ log) = handed c log := by
  simp [handed]

theorem handed_passOn (c : Contents) {outs : List (List NgxBufT)}
    (each : bodies.length = outs.length) :
    handed c (List.zipWith passOn bodies outs) = outs.flatten.flatMap (NgxBufT.bytes c) := by
  induction bodies generalizing outs with
  | nil =>
    obtain rfl := List.eq_nil_of_length_eq_zero each.symm
    rfl
  | cons call bodies ih =>
    cases outs with
    | nil => simp at each
    | cons out outs =>
      have tail : handed c (List.zipWith passOn bodies outs) =
          outs.flatten.flatMap (NgxBufT.bytes c) := ih (by simpa using each)
      simp only [handed] at tail
      simp [handed, passOn, tail]

theorem counted_eq_iff {n : Nat} (footer : NgxString.empty conf.footer = false)
    (fits : n + conf.footer.len < 2 ^ 63) :
    counted conf n = ((n + conf.footer.len : Nat) : Int) ↔ 0 < n := by
  have some : conf.footer.len ≠ 0 := by
    simp [NgxString.empty] at footer
    exact footer.2
  unfold counted
  rw [footer]
  by_cases long : 0 < n
  · have whole : ((n : Int) + conf.footer.len).bmod (2 ^ 64) = n + conf.footer.len :=
      Int.bmod_eq_of_le (by omega) (by omega)
    simp only [if_pos, long, whole, Int.natCast_add, Bool.not_false, Bool.true_and, decide_true,
      Int.natCast_pos]
  · obtain rfl : n = 0 := by omega
    simp [some, eq_comm]

/-- `content_length_n` agrees with the body bytes handed on exactly when the
original body is not empty. -/
theorem content_length_agrees_iff {front : List NgxBufT} {b : NgxBufT}
    {before : List (List NgxBufT)} (c : Contents) (fresh : w.Fresh sh)
    (footer : NgxString.empty conf.footer = false) (rc : Int)
    (brings : List.Forall₂ Brings bodies (before ++ [front ++ [b]]))
    (unset : ∀ x ∈ before.flatten ++ front, x.lastBuf = false) (last : b.lastBuf = true) {n : Nat}
    (body : ((before ++ [front ++ [b]]).flatten.flatMap (NgxBufT.bytes c)).length = n)
    (length : w.contentLength = n) (fits : n + conf.footer.len < 2 ^ 63) :
    ∃ w', filterRun conf [rc] bodies w = .ok () w' ∧
      (w'.contentLength = (handed c w'.log).length ↔ 0 < n) := by
  simp only [List.mem_append, or_imp, forall_and] at unset
  have only : ∀ bs ∈ before ++ [front ++ [b]], OnlyLast bs := by
    intro bs member x inside
    obtain early | isLast := List.mem_append.mp member
    · exact unset.1 x (List.mem_flatten.mpr ⟨bs, early, List.dropLast_subset _ inside⟩)
    · obtain rfl := List.mem_singleton.mp isLast
      exact unset.2 x (by simpa using inside)
  obtain ⟨w', run, len, -, log⟩ := filterRun_eq fresh footer rc [] brings only
  refine ⟨w', run, ?_⟩
  have total : (handed c w'.log).length = n + conf.footer.len := by
    rw [log, handed_headers, handed_passOn c (by rw [footered_length, brings.length_eq]),
      footered_split unset.1 unset.2 last, ← body]
    simp [attached_bytes, NgxString.bytes, Ram.span]
    omega
  rw [len, length, total]
  exact counted_eq_iff footer fits

theorem content_length_agrees_two_bytes :
    ∃ w', filterRun xFooter [0] [oneBuf { last := 2, memory := true }, oneBuf { lastBuf := true }]
        (freshRequest 2) = .ok () w' ∧
      (w'.contentLength = (handed ⟨fun _ => 97, fun _ _ => 97⟩ w'.log).length ↔ 0 < 2) :=
  have brings : List.Forall₂ Brings
      [oneBuf { last := 2, memory := true }, oneBuf { lastBuf := true }]
      ([[{ last := 2, memory := true }]] ++ [[] ++ [{ lastBuf := true }]]) :=
    .cons (oneBuf_brings _) (.cons (oneBuf_brings _) .nil)
  content_length_agrees_iff _ (freshRequest_fresh 2) rfl 0 brings (by simp) rfl rfl rfl (by decide)

/-- An empty body gets a footer of one byte, and its length stays 0. -/
theorem content_length_empty_body :
    ¬ ∃ w', filterRun xFooter [0] [oneBuf { lastBuf := true }] (freshRequest 0) = .ok () w' ∧
      w'.contentLength = (handed ⟨fun _ => 97, fun _ _ => 97⟩ w'.log).length := by
  rintro ⟨w', run, same⟩
  obtain ⟨-, rfl⟩ := Outcome.ok.inj run
  revert same
  decide

end Requests

end NdgFilterHandler

end NgxCpp
