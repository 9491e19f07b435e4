import NgxCpp.NgxConfig

/-! A location block of the configuration, with the directives of the modules: nginx looks
each line's command up, counts its arguments and calls the command's setter, and an error
ends the block. The configuration's pool has memory. -/

namespace NgxCpp
open Foundation

inductive LocationDirective where
  | test
  | echo
  | header
  | footer
  | subrequestLoc
  | subrequestArgs
  | upstreamPass
deriving Repr, DecidableEq

/-- What they write to: the modules' configurations of the location, and its content
handler. -/
structure LocationConf where
  test : NdgTestConf := {}
  echo : NdgEchoConf := ⟨ngxNullString⟩
  filter : NdgFilterConf := ⟨none, ngxNullString⟩
  subrequest : NdgSubrequestConf := {}
  upstream : NdgUpstreamConf
  handler : Option ContentHandler := none
deriving Repr, DecidableEq

structure ConfWords where
  flag : NgxStr → Option Bool
  add : NgxStr → Option Nat

def ngxHttpSrvConf : Nat := 0x04000000
def ngxHttpLocConf : Nat := 0x08000000

/-- `ngx_command_t`, without the offsets, which its setter has. -/
structure NgxCommandT where
  name : String
  type : Option Nat
  set : List NgxStr → Ngx LocationConf ConfRc

section Slots

variable {C : Type}

def ngxConfSetStrSlot (field : C → NgxStr) (set : NgxStr → C → C) (args : List NgxStr) :
    Ngx C ConfRc := do
  if (← Exec.gets field).data ≠ 0 then pure .error
  else
    let value ← Exec.deref fun _ => args[1]?
    Exec.modify (set value)
    pure .ok

def ngxConfSetFlagSlot (flag : NgxStr → Option Bool) (field : C → Int) (set : Int → C → C)
    (args : List NgxStr) : Ngx C ConfRc := do
  if (← Exec.gets field) ≠ ngxNil then pure .error
  else
    let value ← Exec.deref fun _ => args[1]?
    match flag value with
    | some on =>
      Exec.modify (set (if on then 1 else 0))
      pure .ok
    | none => pure .error

def ngxConfSetKeyvalSlot (field : C → Option (List NgxKeyVal))
    (set : Option (List NgxKeyVal) → C → C) (args : List NgxStr) : Ngx C ConfRc := do
  let key ← Exec.deref fun _ => args[1]?
  let value ← Exec.deref fun _ => args[2]?
  Exec.modify fun c => set (some ((field c).getD [] ++ [⟨key, value⟩])) c
  pure .ok

end Slots

namespace LocationConf

/-- `create` of the modules. -/
def create (pagesize : Nat) : LocationConf where
  upstream := {
    connectTimeout := 1000 * 30
    sendTimeout := 1000 * 30
    readTimeout := 1000 * 30
    bufferSize := pagesize }

theorem create_made (pagesize : Nat) : ∃ test echo filter subrequest upstream,
    NdgTestConf.create [] = .ok test [] ∧ NdgEchoConf.create [] = .ok echo [] ∧
      NdgFilterConf.create [] = .ok filter [] ∧ NdgSubrequestConf.create [] = .ok subrequest [] ∧
      NdgUpstreamConf.create pagesize [] = .ok upstream [] ∧
      create pagesize = { test, echo, filter, subrequest, upstream } :=
  ⟨_, _, _, _, _, rfl, rfl, rfl, rfl, rfl, rfl⟩

/-- A setter of a module: it writes its own configuration and the location's handler. -/
def onModule {C : Type} (get : LocationConf → C) (put : C → LocationConf → LocationConf)
    (x : Ngx (ConfWorld C) ConfRc) : Ngx LocationConf ConfRc :=
  Exec.zoom (fun c => { conf := get c, handler := c.handler })
    (fun w c => { put w.conf c with handler := w.handler }) x

end LocationConf

namespace LocationDirective

variable (words : ConfWords)

/-- The slot of `ndg_echo` writes before the setter looks at its answer. -/
def setEcho (args : List NgxStr) : Ngx LocationConf ConfRc := do
  let slot ← ngxConfSetStrSlot (fun c => c.echo.msg) (fun msg c => { c with echo := ⟨msg⟩ }) args
  LocationConf.onModule LocationConf.echo (fun echo c => { c with echo }) (NdgEchoInit.setEcho slot)

def setSubrequestLoc (args : List NgxStr) : Ngx LocationConf ConfRc := do
  let slot ← ngxConfSetStrSlot (fun c => c.subrequest.loc)
    (fun loc c => { c with subrequest := { c.subrequest with loc } }) args
  LocationConf.onModule LocationConf.subrequest (fun subrequest c => { c with subrequest })
    (NdgSubrequestInit.setSubrequestLoc slot)

def setUpstreamPass (args : List NgxStr) : Ngx LocationConf ConfRc :=
  if taken : args.length = 2 then
    LocationConf.onModule LocationConf.upstream (fun upstream c => { c with upstream })
      (NdgUpstreamInit.setUpstreamPass ⟨args, taken⟩ words.add)
  else Exec.undefined

/-- The entries of the modules' `cmds`. -/
def command : LocationDirective → NgxCommandT
  | test => {
      name := "ndg_test"
      type := NgxTake.type (ngxHttpSrvConf ||| ngxHttpLocConf ||| ngxConfFlag) 1
      set := ngxConfSetFlagSlot words.flag (fun c => c.test.enabled)
        fun enabled c => { c with test := ⟨enabled⟩ } }
  | echo => {
      name := "ndg_echo"
      type := some (ngxHttpLocConf ||| 0x2)
      set := setEcho }
  | header => {
      name := "ndg_header"
      type := some (ngxHttpLocConf ||| 0x4)
      set := ngxConfSetKeyvalSlot (fun c => c.filter.headers)
        fun headers c => { c with filter := { c.filter with headers } } }
  | footer => {
      name := "ndg_footer"
      type := some (ngxHttpLocConf ||| 0x2)
      set := ngxConfSetStrSlot (fun c => c.filter.footer)
        fun footer c => { c with filter := { c.filter with footer } } }
  | subrequestLoc => {
      name := "ndg_subrequest_loc"
      type := NgxTake.type ngxHttpLocConf 1
      set := setSubrequestLoc }
  | subrequestArgs => {
      name := "ndg_subrequest_args"
      type := NgxTake.type (ngxHttpSrvConf ||| ngxHttpLocConf) 1
      set := ngxConfSetStrSlot (fun c => c.subrequest.args)
        fun args c => { c with subrequest := { c.subrequest with args } } }
  | upstreamPass => {
      name := "ndg_upstream_pass"
      type := NgxTake.type ngxHttpLocConf 1
      set := setUpstreamPass words }

def all : List LocationDirective :=
  [test, echo, header, footer, subrequestLoc, subrequestArgs, upstreamPass]

end LocationDirective

/-- A line as nginx has read it: the name as text and as a word, and the words after it. -/
structure ConfLine where
  name : String
  word : NgxStr
  args : List NgxStr
  /-- nginx copies the words of a line to memory of its own. -/
  placed : ∀ arg ∈ args, arg.data ≠ 0

namespace ConfLine

variable (words : ConfWords)

def directive? (line : ConfLine) : Option LocationDirective :=
  LocationDirective.all.find? fun d => (d.command words).name == line.name

/-- `ngx_conf_handler` in a block of some kind. -/
def handle (block : Nat) (line : ConfLine) : Ngx LocationConf ConfRc :=
  match line.directive? words with
  | none => pure .error
  | some d => do
    let type ← Exec.deref fun _ => (d.command words).type
    if type &&& block = 0 then pure .error
    else if ngxConfCounts type (line.args.length + 1) then
      (d.command words).set (line.word :: line.args)
    else pure .error

end ConfLine

namespace LocationDirective

variable (words : ConfWords)

def arity : LocationDirective → Nat
  | header => 2
  | _ => 1

def single : LocationDirective → Bool
  | test | echo | footer | subrequestArgs => true
  | _ => false

def Reads (d : LocationDirective) (args : List NgxStr) : Prop :=
  match d with
  | test => ∀ arg ∈ args, (words.flag arg).isSome
  | upstreamPass => ∀ arg ∈ args, (words.add arg).isSome
  | _ => True

def content : LocationDirective → Option ContentHandler
  | echo => some .echo
  | subrequestLoc => some .subrequest
  | upstreamPass => some .upstream
  | _ => none

/-- What a line with it makes of the configurations, if it is no error. -/
def write (d : LocationDirective) (args : List NgxStr) (c : LocationConf) : Option LocationConf :=
  match d, args with
  | test, [flag] =>
    if c.test.enabled = ngxNil then
      (words.flag flag).map fun on => { c with test := ⟨if on then 1 else 0⟩ }
    else none
  | echo, [msg] =>
    if c.echo.msg.data = 0 then some { c with echo := ⟨msg⟩, handler := some .echo } else none
  | header, [key, value] =>
    some { c with filter :=
      { c.filter with headers := some (c.filter.headers.getD [] ++ [⟨key, value⟩]) } }
  | footer, [text] =>
    if c.filter.footer.data = 0 then
      some { c with filter := { c.filter with footer := text } }
    else none
  | subrequestLoc, [loc] =>
    some { c with
      subrequest := { c.subrequest with
        loc := if c.subrequest.loc.data = 0 then loc else c.subrequest.loc }
      handler := some .subrequest }
  | subrequestArgs, [args] =>
    if c.subrequest.args.data = 0 then
      some { c with subrequest := { c.subrequest with args } }
    else none
  | upstreamPass, [url] =>
    (words.add url).map fun upstream => { c with
      upstream := { c.upstream with upstream := some upstream }
      handler := some .upstream }
  | _, _ => none

theorem counts (d : LocationDirective) : ∃ type, (d.command words).type = some type ∧
    type &&& ngxHttpLocConf ≠ 0 ∧
      ∀ c, ngxConfCounts type (c + 1) = true ↔ c = d.arity := by
  have plain : ∀ {conf : Nat} {m : Int}, NgxTake.Plain conf → 0 ≤ m ∧ m < 8 →
      ∃ t, NgxTake.type conf m = some t ∧ ∀ c : Nat, ngxConfCounts t (c + 1) = true ↔ c = m := by
    intro conf m plain inside
    obtain ⟨t, made, counts⟩ := NgxTake.counts_iff plain inside
    exact ⟨t, made, fun c => (counts c).trans (by simp [NgxTake.Counts])⟩
  obtain ⟨one, made1, counts1⟩ := @plain ngxHttpLocConf 1 (by decide) (by decide)
  obtain ⟨two, made2, counts2⟩ := @plain ngxHttpLocConf 2 (by decide) (by decide)
  obtain ⟨both, made3, counts3⟩ :=
    @plain (ngxHttpSrvConf ||| ngxHttpLocConf) 1 (by decide) (by decide)
  cases made1
  cases made2
  cases made3
  have one : ∀ c, ngxConfCounts (ngxHttpLocConf ||| 0x2) (c + 1) = true ↔ c = 1 := fun c =>
    (counts1 c).trans Int.ofNat_inj
  cases d with
  | test =>
    refine ⟨_, rfl, by decide, fun c => ?_⟩
    have bits : ngxConfCounts (ngxHttpSrvConf ||| ngxHttpLocConf ||| ngxConfFlag ||| 0x2) (c + 1) =
        (c + 1 == 2) := by
      rw [NgxTake.counts_bits]
      rfl
    exact (Bool.eq_iff_iff.mp bits).trans (by simp [arity])
  | echo => exact ⟨_, rfl, by decide, one⟩
  | header => exact ⟨_, rfl, by decide, fun c => (counts2 c).trans Int.ofNat_inj⟩
  | footer => exact ⟨_, rfl, by decide, one⟩
  | subrequestLoc => exact ⟨_, rfl, by decide, one⟩
  | subrequestArgs => exact ⟨_, rfl, by decide, fun c => (counts3 c).trans Int.ofNat_inj⟩
  | upstreamPass => exact ⟨_, rfl, by decide, one⟩

theorem strSlot_eq {C : Type} {field : C → NgxStr} {set : NgxStr → C → C} {c : C}
    (name value : NgxStr) : ngxConfSetStrSlot field set [name, value] c =
      if (field c).data = 0 then .ok .ok (set value c) else .ok .error c := by
  by_cases unset : (field c).data = 0 <;> simp [ngxConfSetStrSlot, Exec.bind_apply, unset,
    Exec.deref]

theorem set_eq_ok (d : LocationDirective) {args : List NgxStr} (taken : args.length = d.arity)
    (name : NgxStr) {c c' : LocationConf} :
    (d.command words).set (name :: args) c = .ok .ok c' ↔ d.write words args c = some c' := by
  cases d with
  | test =>
    obtain ⟨flag, rfl⟩ := List.length_eq_one_iff.mp taken
    by_cases unset : c.test.enabled = ngxNil
    · cases read : words.flag flag <;>
        simp [command, ngxConfSetFlagSlot, write, Exec.bind_apply, Exec.deref, unset, read]
    · simp [command, ngxConfSetFlagSlot, write, Exec.bind_apply, unset]
  | echo =>
    obtain ⟨msg, rfl⟩ := List.length_eq_one_iff.mp taken
    change setEcho [name, msg] c = _ ↔ _
    rw [setEcho, Exec.bind_apply, strSlot_eq]
    by_cases unset : c.echo.msg.data = 0
    · rw [if_pos unset, write, if_pos unset]
      simp [LocationConf.onModule, NdgEchoInit.setEcho, NgxHttpCoreModule.handler, Exec.zoom,
        Exec.bind_apply]
    · rw [if_neg unset, write, if_neg unset]
      simp [LocationConf.onModule, NdgEchoInit.setEcho, Exec.zoom]
  | header =>
    obtain ⟨key, value, rfl⟩ := List.length_eq_two.mp taken
    simp [command, ngxConfSetKeyvalSlot, write, Exec.bind_apply, Exec.deref]
  | footer =>
    obtain ⟨text, rfl⟩ := List.length_eq_one_iff.mp taken
    change ngxConfSetStrSlot _ _ [name, text] c = _ ↔ _
    rw [strSlot_eq, write]
    split <;> simp
  | subrequestLoc =>
    obtain ⟨loc, rfl⟩ := List.length_eq_one_iff.mp taken
    change setSubrequestLoc [name, loc] c = _ ↔ _
    rw [setSubrequestLoc, Exec.bind_apply, strSlot_eq, write]
    by_cases unset : c.subrequest.loc.data = 0 <;>
      simp [LocationConf.onModule, NdgSubrequestInit.setSubrequestLoc, NgxHttpCoreModule.handler,
        Exec.zoom, Exec.bind_apply, unset]
  | subrequestArgs =>
    obtain ⟨args, rfl⟩ := List.length_eq_one_iff.mp taken
    change ngxConfSetStrSlot _ _ [name, args] c = _ ↔ _
    rw [strSlot_eq, write]
    split <;> simp
  | upstreamPass =>
    obtain ⟨url, rfl⟩ := List.length_eq_one_iff.mp taken
    cases added : words.add url <;>
      simp [command, setUpstreamPass, LocationConf.onModule, NdgUpstreamInit.setUpstreamPass,
        NgxStrArray.get, NgxHttpCoreModule.handler, Exec.zoom, Exec.bind_apply, write, added]

end LocationDirective

section Location

variable (words : ConfWords)

def told (d : LocationDirective) (lines : List ConfLine) : List (List NgxStr) :=
  (lines.filter fun line => line.directive? words = some d).map ConfLine.args

def firstArg (told : List (List NgxStr)) : NgxStr := (told.head?.bind List.head?).getD ngxNullString

/-- The block has no error: each line is complete and readable, and directives that may
stand once do. -/
structure LocationAccepted (lines : List ConfLine) : Prop where
  complete : ∀ line ∈ lines, ∃ d, line.directive? words = some d ∧
    line.args.length = d.arity ∧ d.Reads words line.args
  single : ∀ d : LocationDirective, d.single = true → (told words d lines).length ≤ 1

/-- What the lines say: the only or the first text that they give, all the headers in order,
and the last upstream block and content handler. -/
def LocationConf.said (pagesize : Nat) (lines : List ConfLine) : LocationConf where
  test := ⟨((told words .test lines).head?.bind fun args => args.head?.bind words.flag).elim
    ngxNil fun on => if on then 1 else 0⟩
  echo := ⟨firstArg (told words .echo lines)⟩
  filter := {
    headers :=
      if (told words .header lines).isEmpty then none
      else some ((told words .header lines).map fun args =>
        ⟨args[0]?.getD ngxNullString, args[1]?.getD ngxNullString⟩)
    footer := firstArg (told words .footer lines) }
  subrequest := {
    loc := firstArg (told words .subrequestLoc lines)
    args := firstArg (told words .subrequestArgs lines) }
  upstream := { (LocationConf.create pagesize).upstream with
    upstream := (told words .upstreamPass lines).getLast?.bind fun args =>
      args.head?.bind words.add }
  handler := (lines.filterMap fun line =>
    (line.directive? words).bind LocationDirective.content).getLast?

variable {words} {lines : List ConfLine} {line : ConfLine} {d : LocationDirective}
  {c c' : LocationConf} {pagesize : Nat}

theorem ConfLine.handle_eq_ok : line.handle words ngxHttpLocConf c = .ok .ok c' ↔
    ∃ d, line.directive? words = some d ∧ line.args.length = d.arity ∧
      d.write words line.args c = some c' := by
  rw [ConfLine.handle]
  cases found : line.directive? words with
  | none => simp
  | some d =>
    obtain ⟨type, typed, here, counts⟩ := d.counts words
    dsimp only
    rw [typed, Exec.bind_ok _ (Exec.deref_given type c), if_neg here]
    by_cases taken : line.args.length = d.arity
    · rw [if_pos ((counts _).mpr taken), d.set_eq_ok words taken]
      simp [taken]
    · rw [if_neg (mt (counts _).mp taken)]
      simp [taken]

theorem told_concat (found : line.directive? words = some d) (d' : LocationDirective)
    (lines : List ConfLine) : told words d' (lines ++ [line]) =
      told words d' lines ++ if d = d' then [line.args] else [] := by
  by_cases same : d = d' <;> simp [told, found, same]

theorem accepted_concat (found : line.directive? words = some d) :
    LocationAccepted words (lines ++ [line]) ↔ LocationAccepted words lines ∧
      (line.args.length = d.arity ∧ d.Reads words line.args) ∧
      (d.single = true → told words d lines = []) := by
  constructor
  · intro accepted
    obtain ⟨d', found', complete⟩ := accepted.complete line (by simp)
    obtain rfl := Option.some.inj (found.symm.trans found')
    refine ⟨⟨fun line member => accepted.complete line (by simp [member]), fun d' once => ?_⟩,
      complete, fun once => ?_⟩
    · have bound := accepted.single d' once
      rw [told_concat found, List.length_append] at bound
      omega
    · have bound := accepted.single d once
      rw [told_concat found, if_pos rfl, List.length_append, List.length_singleton] at bound
      exact List.eq_nil_of_length_eq_zero (by omega)
  · rintro ⟨accepted, complete, once⟩
    refine ⟨fun line' member => ?_, fun d' single => ?_⟩
    · obtain member | member := List.mem_append.mp member
      · exact accepted.complete line' member
      · obtain rfl := List.mem_singleton.mp member
        exact ⟨d, found, complete⟩
    · rw [told_concat found]
      split
      case isTrue same =>
        subst same
        simp [once single]
      case isFalse => simpa using accepted.single d' single

theorem told_one (accepted : LocationAccepted words lines) (one : d.arity = 1)
    {args : List NgxStr} (member : args ∈ told words d lines) :
    ∃ arg, args = [arg] ∧ arg.data ≠ 0 ∧ d.Reads words [arg] := by
  obtain ⟨line, inside, rfl⟩ := List.mem_map.mp member
  obtain ⟨inside, found⟩ := List.mem_filter.mp inside
  obtain ⟨d', found', taken, reads⟩ := accepted.complete line inside
  obtain rfl := Option.some.inj ((of_decide_eq_true found).symm.trans found')
  rw [one] at taken
  obtain ⟨arg, whole⟩ := List.length_eq_one_iff.mp taken
  exact ⟨arg, whole, line.placed arg (by simp [whole]), by rwa [← whole]⟩

theorem firstArg_data (accepted : LocationAccepted words lines) (one : d.arity = 1) :
    (firstArg (told words d lines)).data = 0 ↔ told words d lines = [] := by
  cases first : told words d lines with
  | nil => simp [firstArg, ngxNullString]
  | cons args rest =>
    have member : args ∈ told words d lines := by simp [first]
    obtain ⟨arg, rfl, placed, -⟩ := told_one accepted one member
    simp [firstArg, placed]

theorem said_enabled (accepted : LocationAccepted words lines) :
    (LocationConf.said words pagesize lines).test.enabled = ngxNil ↔
      told words .test lines = [] := by
  rw [LocationConf.said]
  cases first : told words .test lines with
  | nil => simp
  | cons args rest =>
    have member : args ∈ told words .test lines := by simp [first]
    obtain ⟨arg, rfl, -, reads⟩ := told_one accepted rfl member
    obtain ⟨on, read⟩ := Option.isSome_iff_exists.mp (reads arg (by simp))
    cases on <;> simp [read, ngxNil]

theorem firstArg_append {rest : List (List NgxStr)} {before : List (List NgxStr)}
    (some : before ≠ []) : firstArg (before ++ rest) = firstArg before := by
  cases before with
  | nil => exact absurd rfl some
  | cons args before => rfl

theorem write_said (pagesize : Nat) (found : line.directive? words = some d)
    (taken : line.args.length = d.arity) (reads : d.Reads words line.args)
    (single : d.single = true → told words d lines = [])
    (accepted : LocationAccepted words lines) :
    d.write words line.args (LocationConf.said words pagesize lines) =
      some (LocationConf.said words pagesize (lines ++ [line])) := by
  have more := told_concat found
  obtain ⟨name, word, args, placed⟩ := line
  dsimp only at taken found more reads ⊢
  cases d with
  | test =>
    obtain ⟨flag, rfl⟩ := List.length_eq_one_iff.mp taken
    obtain ⟨on, read⟩ := Option.isSome_iff_exists.mp (reads flag (by simp))
    simp [LocationDirective.write, LocationConf.said, more, single rfl, read,
      List.filterMap_append, found, LocationDirective.content]
  | echo =>
    obtain ⟨msg, rfl⟩ := List.length_eq_one_iff.mp taken
    simp [LocationDirective.write, LocationConf.said, more, single rfl, firstArg, ngxNullString,
      List.filterMap_append, found, LocationDirective.content]
  | header =>
    obtain ⟨key, value, rfl⟩ := List.length_eq_two.mp taken
    cases none : told words .header lines <;>
      simp [LocationDirective.write, LocationConf.said, more, none, List.filterMap_append, found,
        LocationDirective.content]
  | footer =>
    obtain ⟨text, rfl⟩ := List.length_eq_one_iff.mp taken
    simp [LocationDirective.write, LocationConf.said, more, single rfl, firstArg, ngxNullString,
      List.filterMap_append, found, LocationDirective.content]
  | subrequestLoc =>
    obtain ⟨loc, rfl⟩ := List.length_eq_one_iff.mp taken
    have unset := firstArg_data (d := .subrequestLoc) accepted rfl
    by_cases none : told words .subrequestLoc lines = []
    · simp [LocationDirective.write, LocationConf.said, more, none, firstArg, ngxNullString,
        List.filterMap_append, found, LocationDirective.content]
    · simp [LocationDirective.write, LocationConf.said, more, firstArg_append none, unset, none,
        List.filterMap_append, found, LocationDirective.content]
  | subrequestArgs =>
    obtain ⟨args, rfl⟩ := List.length_eq_one_iff.mp taken
    simp [LocationDirective.write, LocationConf.said, more, single rfl, firstArg, ngxNullString,
      List.filterMap_append, found, LocationDirective.content]
  | upstreamPass =>
    obtain ⟨url, rfl⟩ := List.length_eq_one_iff.mp taken
    obtain ⟨upstream, added⟩ := Option.isSome_iff_exists.mp (reads url (by simp))
    simp [LocationDirective.write, LocationConf.said, more, added, List.filterMap_append, found,
      LocationDirective.content]

theorem write_none (taken : line.args.length = d.arity)
    (bad : ¬ (d.Reads words line.args ∧ (d.single = true → told words d lines = [])))
    (accepted : LocationAccepted words lines) :
    d.write words line.args (LocationConf.said words pagesize lines) = none := by
  obtain ⟨name, word, args, placed⟩ := line
  dsimp only at taken bad ⊢
  have set : d.arity = 1 → (told words d lines = [] → False) →
      (firstArg (told words d lines)).data ≠ 0 := fun one some unset =>
    some ((firstArg_data accepted one).mp unset)
  cases d with
  | test =>
    obtain ⟨flag, rfl⟩ := List.length_eq_one_iff.mp taken
    by_cases none : told words .test lines = []
    · have unread : words.flag flag = Option.none := by
        simpa [LocationDirective.Reads, none] using bad
      rw [LocationDirective.write, if_pos ((said_enabled accepted).mpr none), unread]
      rfl
    · exact if_neg (mt (said_enabled accepted).mp none)
  | header => exact absurd ⟨trivial, nofun⟩ bad
  | subrequestLoc => exact absurd ⟨trivial, nofun⟩ bad
  | upstreamPass =>
    obtain ⟨url, rfl⟩ := List.length_eq_one_iff.mp taken
    have unread : words.add url = none := by
      simpa [LocationDirective.Reads, LocationDirective.single] using bad
    rw [LocationDirective.write, unread]
    rfl
  | echo =>
    obtain ⟨msg, rfl⟩ := List.length_eq_one_iff.mp taken
    exact if_neg (set rfl (by simpa [LocationDirective.Reads, LocationDirective.single] using bad))
  | footer =>
    obtain ⟨text, rfl⟩ := List.length_eq_one_iff.mp taken
    exact if_neg (set rfl (by simpa [LocationDirective.Reads, LocationDirective.single] using bad))
  | subrequestArgs =>
    obtain ⟨args, rfl⟩ := List.length_eq_one_iff.mp taken
    exact if_neg (set rfl (by simpa [LocationDirective.Reads, LocationDirective.single] using bad))

/-- The lines of a location block are read without an error exactly when each is complete and
directives that may stand once do, and then the modules' configurations are what the lines
say, however the directives are mixed. A second `ndg_subrequest_loc` is no error and says
nothing; of several content handlers the last is the location's. -/
theorem location_read_iff (pagesize : Nat) (lines : List ConfLine) (c : LocationConf) :
    Run (fun c line c' => line.handle words ngxHttpLocConf c = .ok .ok c')
        (LocationConf.create pagesize) lines c ↔
      LocationAccepted words lines ∧ c = LocationConf.said words pagesize lines := by
  induction lines using List.reverseRecOn generalizing c with
  | nil =>
    have none : LocationAccepted words [] := ⟨by simp, by simp [told]⟩
    constructor
    · intro run
      cases run
      exact ⟨none, rfl⟩
    · rintro ⟨-, rfl⟩
      exact .nil _
  | append_singleton lines line ih =>
    simp only [Run.append_iff, Run.singleton_iff]
    constructor
    · rintro ⟨mid, before, handled⟩
      obtain ⟨accepted, rfl⟩ := (ih mid).mp before
      obtain ⟨d, found, taken, written⟩ := ConfLine.handle_eq_ok.mp handled
      by_cases good : d.Reads words line.args ∧ (d.single = true → told words d lines = [])
      · have after := write_said pagesize found taken good.1 good.2 accepted
        exact ⟨(accepted_concat found).mpr ⟨accepted, ⟨taken, good.1⟩, good.2⟩,
          Option.some.inj (written.symm.trans after)⟩
      · rw [write_none taken good accepted] at written
        cases written
    · rintro ⟨accepted, rfl⟩
      obtain ⟨d, found, -⟩ := accepted.complete line (by simp)
      obtain ⟨accepted, ⟨taken, reads⟩, single⟩ := (accepted_concat found).mp accepted
      have after := write_said pagesize found taken reads single accepted
      exact ⟨_, (ih _).mpr ⟨accepted, rfl⟩,
        ConfLine.handle_eq_ok.mpr ⟨d, found, taken, after⟩⟩

end Location

end NgxCpp
