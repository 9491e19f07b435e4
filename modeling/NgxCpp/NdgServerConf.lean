import NgxCpp.NdgLocationConf
import NgxCpp.NgxValueMerge
import NgxCpp.Foundation.Rose

/-! A server block with its location blocks, one inside another: nginx makes the modules'
configurations of each block, reads its lines and the blocks in it, and at the end has each
module merge those of each block with those of the block around it. -/

namespace NgxCpp
open Foundation

inductive ConfItem where
  | line (line : ConfLine)
  | location (items : List ConfItem)

theorem ConfItem.block_induct {P : List ConfItem → Prop} (nil : P [])
    (line : ∀ line items, P items → P (.line line :: items))
    (location : ∀ inner items, P inner → P items → P (.location inner :: items)) :
    ∀ items, P items
  | [] => nil
  | .line l :: items => line l items (block_induct nil line location items)
  | .location inner :: items =>
    location inner items (block_induct nil line location inner)
      (block_induct nil line location items)

mutual

/-- `ngx_conf_handler` for a line, `ngx_http_core_location` for a location block, which has
configurations of its own. -/
def ConfItem.handle (words : ConfWords) (pagesize : Nat) (block : Nat) :
    ConfItem → Ngx (Rose LocationConf) ConfRc
  | .line line => Exec.zoom Rose.label Rose.setLabel (line.handle words block)
  | .location items =>
    Exec.zoom (fun _ => .node (LocationConf.create pagesize) []) Rose.add
      (readItems words pagesize ngxHttpLocConf items)

/-- `ngx_conf_parse` of a block. -/
def readItems (words : ConfWords) (pagesize : Nat) (block : Nat) :
    List ConfItem → Ngx (Rose LocationConf) ConfRc
  | [] => pure .ok
  | item :: items => do
    if (← item.handle words pagesize block) = .ok then readItems words pagesize block items
    else pure .error

end

inductive LocationModule where
  | test
  | echo
  | filter
  | subrequest
  | upstream
deriving Repr, DecidableEq

structure BuildOrder where
  modules : List LocationModule
  nodup : modules.Nodup
  complete : ∀ m, m ∈ modules

namespace LocationModule

/-- `merge_loc_conf` of its context; `echo` is the text of the default location. -/
def merge (echo : NgxStr) : LocationModule → Option (LocationConf → Ngx LocationConf ConfRc)
  | test => some fun prev =>
    Exec.zoom LocationConf.test (fun test c => { c with test }) (NdgTestConf.merge prev.test)
  | subrequest => some fun prev =>
    Exec.zoom LocationConf.subrequest (fun subrequest c => { c with subrequest })
      (NdgSubrequestConf.merge echo prev.subrequest)
  | _ => none

/-- `ngx_http_merge_servers` and `ngx_http_merge_locations` for the module; nothing is left
to look at when a merge fails. -/
def mergeServer (echo : NgxStr) (main : LocationConf) (server : Rose LocationConf)
    (m : LocationModule) : Option (Rose LocationConf) :=
  match m.merge echo with
  | none => some server
  | some merge =>
    server.descendM (fun prev conf =>
      match merge prev conf with
      | .ok .ok merged => some merged
      | _ => none) main

end LocationModule

/-- The configurations of a server block and its locations, if nginx starts with it. No
directive of the modules may stand around the server block. -/
def readServer (words : ConfWords) (pagesize : Nat) (echo : NgxStr) (order : BuildOrder)
    (items : List ConfItem) : Option (Rose LocationConf) :=
  match readItems words pagesize ngxHttpSrvConf items (.node (LocationConf.create pagesize) []) with
  | .ok .ok server =>
    order.modules.foldlM (LocationModule.mergeServer echo (LocationConf.create pagesize)) server
  | _ => none

section Blocks

def ownLines : List ConfItem → List ConfLine
  | [] => []
  | .line line :: items => line :: ownLines items
  | .location _ :: items => ownLines items

mutual

def ConfItem.blocks : ConfItem → List (Rose (List ConfLine))
  | .line _ => []
  | .location items => [.node (ownLines items) (innerBlocks items)]

def innerBlocks : List ConfItem → List (Rose (List ConfLine))
  | [] => []
  | item :: items => item.blocks ++ innerBlocks items

end

def blockTree (items : List ConfItem) : Rose (List ConfLine) :=
  .node (ownLines items) (innerBlocks items)

end Blocks

def LocationDirective.onServer : LocationDirective → Bool
  | test | subrequestArgs => true
  | _ => false

/-- Each block has no error by itself, and the server's own lines are meant for it. -/
structure ServerAccepted (words : ConfWords) (items : List ConfItem) : Prop where
  blocks : ∀ lines ∈ (blockTree items).labels, LocationAccepted words lines
  server : ∀ line ∈ ownLines items, ∀ d, line.directive? words = some d → d.onServer = true

namespace LocationConf

variable (words : ConfWords)

def flagIn (lines : List ConfLine) : Option Int :=
  ((told words .test lines).head?.bind fun args => args.head?.bind words.flag).map
    fun on => if on then 1 else 0

/-- The text that a block gives to a directive; no text is given by an empty one. -/
def textIn (d : LocationDirective) (lines : List ConfLine) : Option NgxStr :=
  ((told words d lines).head?.bind List.head?).filter fun text => !NgxString.empty text

/-- The configurations of a block by the lines of the blocks from the server's to its own:
the flag and the texts of the subrequest come from the nearest block that gives them, and
everything else is what its own lines say. -/
def inForce (pagesize : Nat) (echo : NgxStr) (blocks : List (List ConfLine)) : LocationConf :=
  { said words pagesize (blocks.getLast?.getD []) with
    test := ⟨nearest 0 (blocks.map (flagIn words))⟩
    subrequest := {
      loc := nearest echo (blocks.map (textIn words .subrequestLoc))
      args := nearest ngxNullString (blocks.map (textIn words .subrequestArgs)) } }

end LocationConf

section Reading

variable {words : ConfWords} {pagesize : Nat} {items : List ConfItem} {c c' : LocationConf}
  {kids : List (Rose LocationConf)} {t : Rose LocationConf} {line : ConfLine}
  {lines : List ConfLine}

theorem ConfLine.handle_server : line.handle words ngxHttpSrvConf c = .ok .ok c' ↔
    (∀ d, line.directive? words = some d → d.onServer = true) ∧
      line.handle words ngxHttpLocConf c = .ok .ok c' := by
  rw [ConfLine.handle, ConfLine.handle]
  cases found : line.directive? words with
  | none => simp
  | some d =>
    obtain ⟨type, typed, here, -⟩ := d.counts words
    have meant : type &&& ngxHttpSrvConf = 0 ↔ d.onServer = false := by
      cases d <;> cases typed <;> decide
    dsimp only
    rw [typed, Exec.bind_ok _ (Exec.deref_given type c), Exec.bind_ok _ (Exec.deref_given type c),
      if_neg here]
    by_cases allowed : d.onServer = true
    · rw [if_neg (by simp [meant, allowed])]
      simp [allowed]
    · rw [if_pos (by simpa [meant] using allowed)]
      simp [allowed]

theorem handle_line {block : Nat} {t' : Rose LocationConf} :
    (ConfItem.line line).handle words pagesize block (.node c kids) = .ok .ok t' ↔
      ∃ c', line.handle words block c = .ok .ok c' ∧ t' = .node c' kids := by
  rw [ConfItem.handle]
  exact Exec.zoom_eq_ok

theorem handle_location {block : Nat} {t' : Rose LocationConf} :
    (ConfItem.location items).handle words pagesize block (.node c kids) = .ok .ok t' ↔
      ∃ inner, readItems words pagesize ngxHttpLocConf items
        (.node (LocationConf.create pagesize) []) = .ok .ok inner ∧
          t' = .node c (kids ++ [inner]) := by
  rw [ConfItem.handle]
  exact Exec.zoom_eq_ok

theorem readItems_cons {item : ConfItem} {block : Nat} {t' : Rose LocationConf} :
    readItems words pagesize block (item :: items) t = .ok .ok t' ↔
      ∃ mid, item.handle words pagesize block t = .ok .ok mid ∧
        readItems words pagesize block items mid = .ok .ok t' := by
  rw [readItems, Exec.bind_eq_ok]
  constructor
  · rintro ⟨rc, mid, handled, rest⟩
    split at rest
    case isTrue good => exact ⟨mid, good ▸ handled, rest⟩
    case isFalse => cases rest
  · rintro ⟨mid, handled, rest⟩
    exact ⟨.ok, mid, handled, by rwa [if_pos rfl]⟩

theorem run_server : Run (fun c line c' => line.handle words ngxHttpSrvConf c = .ok .ok c')
      (LocationConf.create pagesize) lines c ↔
    (∀ line ∈ lines, ∀ d, line.directive? words = some d → d.onServer = true) ∧
      LocationAccepted words lines ∧ c = LocationConf.said words pagesize lines := by
  simp only [ConfLine.handle_server]
  exact Run.guarded_iff.trans (and_congr_right' (location_read_iff pagesize lines c))

/-- A block that is read without an error is a run of its own lines, and each location in it
is read by itself. -/
theorem readItems_eq_ok {block : Nat} :
    readItems words pagesize block items (.node c kids) = .ok .ok t ↔
      (∀ inner ∈ innerBlocks items, ∀ lines ∈ inner.labels, LocationAccepted words lines) ∧
      ∃ c', Run (fun c line c' => line.handle words block c = .ok .ok c') c (ownLines items) c' ∧
        t = .node c' (kids ++ (innerBlocks items).map
          (Rose.map (LocationConf.said words pagesize))) := by
  induction items using ConfItem.block_induct generalizing block c kids t with
  | nil =>
    constructor
    · intro read
      obtain ⟨-, rfl⟩ := Outcome.ok.inj read
      exact ⟨nofun, c, .nil c, by simp [innerBlocks]⟩
    · rintro ⟨-, c', run, rfl⟩
      cases run
      simp [readItems, innerBlocks]
  | line line items ih =>
    rw [readItems_cons]
    constructor
    · rintro ⟨mid, handled, rest⟩
      obtain ⟨c₁, taken, rfl⟩ := handle_line.mp handled
      obtain ⟨accepted, c', run, rfl⟩ := ih.mp rest
      exact ⟨accepted, c', .cons taken run, rfl⟩
    · rintro ⟨accepted, c', run, rfl⟩
      cases run with
      | cons handled run =>
        exact ⟨_, handle_line.mpr ⟨_, handled, rfl⟩, ih.mpr ⟨accepted, c', run, rfl⟩⟩
  | location inner items ihInner ih =>
    have first : ∀ t, readItems words pagesize ngxHttpLocConf inner
        (.node (LocationConf.create pagesize) []) = .ok .ok t ↔
          (∀ lines ∈ (blockTree inner).labels, LocationAccepted words lines) ∧
            t = (blockTree inner).map (LocationConf.said words pagesize) := by
      intro t
      rw [ihInner, blockTree, Rose.labels_node, List.forall_mem_cons, Rose.map_node]
      simp only [location_read_iff, List.mem_flatMap, List.nil_append]
      constructor
      · rintro ⟨accepted, c', ⟨own, rfl⟩, rfl⟩
        exact ⟨⟨own, fun lines ⟨inner, member, inside⟩ => accepted inner member lines inside⟩, rfl⟩
      · rintro ⟨⟨own, accepted⟩, rfl⟩
        exact ⟨fun inner member lines inside => accepted lines ⟨inner, member, inside⟩, _,
          ⟨own, rfl⟩, rfl⟩
    have blocks : innerBlocks (.location inner :: items) = blockTree inner :: innerBlocks items :=
      rfl
    rw [readItems_cons, blocks, List.forall_mem_cons, List.map_cons]
    constructor
    · rintro ⟨mid, handled, rest⟩
      obtain ⟨t₁, read, rfl⟩ := handle_location.mp handled
      obtain ⟨accepted₁, rfl⟩ := (first _).mp read
      obtain ⟨accepted, c', run, rfl⟩ := ih.mp rest
      exact ⟨⟨accepted₁, accepted⟩, c', run, by rw [List.append_assoc]; rfl⟩
    · rintro ⟨⟨accepted₁, accepted⟩, c', run, rfl⟩
      refine ⟨_, handle_location.mpr ⟨_, (first _).mpr ⟨accepted₁, rfl⟩, rfl⟩,
        ih.mpr ⟨accepted, c', run, ?_⟩⟩
      rw [List.append_assoc]
      rfl

theorem readServer_ok : readItems words pagesize ngxHttpSrvConf items
      (.node (LocationConf.create pagesize) []) = .ok .ok t ↔
    ServerAccepted words items ∧ t = (blockTree items).map (LocationConf.said words pagesize) := by
  rw [readItems_eq_ok, blockTree, Rose.map_node]
  simp only [run_server, List.nil_append]
  constructor
  · rintro ⟨accepted, c', ⟨meant, own, rfl⟩, rfl⟩
    refine ⟨⟨fun lines member => ?_, meant⟩, rfl⟩
    rw [blockTree, Rose.labels_node] at member
    obtain rfl | member := List.mem_cons.mp member
    · exact own
    · obtain ⟨inner, block, inside⟩ := List.mem_flatMap.mp member
      exact accepted inner block lines inside
  · rintro ⟨⟨blocks, meant⟩, rfl⟩
    rw [blockTree, Rose.labels_node] at blocks
    obtain ⟨own, inside⟩ := List.forall_mem_cons.mp blocks
    refine ⟨fun inner block lines member => inside lines ?_, _, ⟨meant, own, rfl⟩, rfl⟩
    exact List.mem_flatMap.mpr ⟨inner, block, member⟩

end Reading

namespace LocationModule

def mergedBy (echo : NgxStr) (modules : List LocationModule) (prev conf : LocationConf) :
    LocationConf :=
  { conf with
    test := if test ∈ modules then ⟨NgxValue.merge conf.test.enabled prev.test.enabled 0⟩
      else conf.test
    subrequest := if subrequest ∈ modules then {
        loc := NgxValue.mergeBy NgxString.empty conf.subrequest.loc prev.subrequest.loc echo
        args := NgxValue.mergeBy NgxString.empty conf.subrequest.args prev.subrequest.args
          ngxNullString }
      else conf.subrequest }

variable {echo : NgxStr} {main : LocationConf} {m : LocationModule} {order : List LocationModule}

theorem mergeServer_eq (server : Rose LocationConf) : mergeServer echo main server m =
    some (server.descend (mergedBy echo [m]) main) := by
  cases m with
  | test => exact Rose.descendM_some (mergedBy echo [test]) main server
  | subrequest => exact Rose.descendM_some (mergedBy echo [subrequest]) main server
  | echo => exact congrArg some (Rose.descend_self (fun _ _ => rfl) main server).symm
  | filter => exact congrArg some (Rose.descend_self (fun _ _ => rfl) main server).symm
  | upstream => exact congrArg some (Rose.descend_self (fun _ _ => rfl) main server).symm

theorem merge_order (nodup : order.Nodup) (server : Rose LocationConf) :
    order.foldlM (mergeServer echo main) server =
      some (server.descend (mergedBy echo order) main) := by
  induction order using List.reverseRecOn with
  | nil => exact congrArg some (Rose.descend_self (fun _ _ => rfl) main server).symm
  | append_singleton order m ih =>
    obtain ⟨before, -, apart⟩ := List.nodup_append.mp nodup
    have last : m ∉ order := fun member => apart m member m (by simp) rfl
    rw [List.foldlM_append, ih before, Option.bind_eq_bind, Option.bind_some, List.foldlM_cons,
      mergeServer_eq]
    refine congrArg some (Rose.descend_descend (fun b c d => c = d ∧
      (test ∈ order → b.test = d.test) ∧ (subrequest ∈ order → b.subrequest = d.subrequest))
      ?_ ⟨rfl, fun _ => rfl, fun _ => rfl⟩ server)
    rintro b c d a ⟨rfl, flag, texts⟩
    have same : mergedBy echo [m] c (mergedBy echo order b a) =
        mergedBy echo (order ++ [m]) c a := by
      cases m <;> simp_all [mergedBy]
    refine ⟨same, same, fun member => ?_, fun member => ?_⟩
    · simp [mergedBy, member, flag member]
    · simp [mergedBy, member, texts member]

end LocationModule

namespace LocationConf

variable {words : ConfWords} {pagesize : Nat} {echo : NgxStr} {above : List (List ConfLine)}
  {prev : LocationConf}

theorem seen_flagIn (lines : List ConfLine) :
    NgxValue.seen NgxValue.invalid (flagIn words lines) = flagIn words lines := by
  rw [flagIn]
  cases (told words .test lines).head?.bind fun args => args.head?.bind words.flag with
  | none => rfl
  | some on => cases on <;> rfl

theorem said_flag (pagesize : Nat) (lines : List ConfLine) :
    (said words pagesize lines).test.enabled =
      NgxValue.stored ngxNil (flagIn words lines) := by
  rw [said, flagIn, NgxValue.stored]
  cases (told words .test lines).head?.bind fun args => args.head?.bind words.flag <;> rfl

/-- The configurations of a block stand for the blocks from the server's to it. -/
structure Stands (words : ConfWords) (echo : NgxStr) (blocks : List (List ConfLine))
    (c : LocationConf) : Prop where
  flag : NgxValue.Carries NgxValue.invalid 0 c.test.enabled (blocks.map (flagIn words))
  loc : NgxValue.Carries NgxString.empty echo c.subrequest.loc
    (blocks.map (textIn words .subrequestLoc))
  args : NgxValue.Carries NgxString.empty ngxNullString c.subrequest.args
    (blocks.map (textIn words .subrequestArgs))

theorem stands_create : Stands words echo [] (create pagesize) := ⟨rfl, rfl, rfl⟩

theorem stands_inForce (blocks : List (List ConfLine)) :
    Stands words echo blocks (inForce words pagesize echo blocks) where
  flag := by
    refine NgxValue.carries_merged _ fun v member => ?_
    obtain ⟨lines, -, given⟩ := List.mem_map.mp member
    rw [← seen_flagIn] at given
    simpa using (Option.filter_eq_some_iff.mp given).2
  loc := by
    refine NgxValue.carries_merged _ fun v member => ?_
    obtain ⟨lines, -, given⟩ := List.mem_map.mp member
    simpa using (Option.filter_eq_some_iff.mp given).2
  args := by
    refine NgxValue.carries_merged _ fun v member => ?_
    obtain ⟨lines, -, given⟩ := List.mem_map.mp member
    simpa using (Option.filter_eq_some_iff.mp given).2

theorem Stands.merged (stands : Stands words echo above prev) (order : BuildOrder)
    (pagesize : Nat) (lines : List ConfLine) :
    LocationModule.mergedBy echo order.modules prev (said words pagesize lines) =
      inForce words pagesize echo (above ++ [lines]) := by
  have unset : NgxValue.invalid (ngxNil : Int) = true := rfl
  have empty : NgxString.empty ngxNullString = true := rfl
  have flag := NgxValue.mergeBy_nearest stands.flag unset (flagIn words lines)
  rw [← said_flag pagesize, seen_flagIn] at flag
  have loc : NgxValue.mergeBy NgxString.empty (said words pagesize lines).subrequest.loc
      prev.subrequest.loc echo = nearest echo (above.map (textIn words .subrequestLoc) ++
        [textIn words .subrequestLoc lines]) :=
    NgxValue.mergeBy_nearest stands.loc empty
      ((told words .subrequestLoc lines).head?.bind List.head?)
  have args : NgxValue.mergeBy NgxString.empty (said words pagesize lines).subrequest.args
      prev.subrequest.args ngxNullString = nearest ngxNullString
        (above.map (textIn words .subrequestArgs) ++ [textIn words .subrequestArgs lines]) :=
    NgxValue.mergeBy_nearest stands.args empty
      ((told words .subrequestArgs lines).head?.bind List.head?)
  rw [LocationModule.mergedBy, if_pos (order.complete _), if_pos (order.complete _), NgxValue.merge,
    flag, loc, args, inForce, List.getLast?_concat, List.map_append, List.map_append,
    List.map_append]
  rfl

end LocationConf

/-- nginx starts with a server block exactly when each of its blocks has no error by itself
and no line of the server's own is meant for locations only. Then every location, however
deep, has the flag and the texts of the nearest block that gives them, and everything else,
its content handler included, from its own lines alone. -/
theorem server_read_iff (words : ConfWords) (pagesize : Nat) (echo : NgxStr) (order : BuildOrder)
    (items : List ConfItem) (server : Rose LocationConf) :
    readServer words pagesize echo order items = some server ↔
      ServerAccepted words items ∧
        server = ((blockTree items).trail []).map (LocationConf.inForce words pagesize echo) := by
  have merged : ((blockTree items).map (LocationConf.said words pagesize)).descend
      (LocationModule.mergedBy echo order.modules) (LocationConf.create pagesize) =
        ((blockTree items).trail []).map (LocationConf.inForce words pagesize echo) := by
    rw [Rose.descend_map]
    refine Rose.descend_eq_trail (LocationConf.Stands words echo)
      (fun above prev lines stands => ?_) LocationConf.stands_create _
    have here := stands.merged order pagesize lines
    exact ⟨here, here ▸ LocationConf.stands_inForce _⟩
  rw [readServer]
  constructor
  · intro started
    split at started
    case h_1 read =>
      obtain ⟨accepted, rfl⟩ := readServer_ok.mp read
      rw [LocationModule.merge_order order.nodup, merged] at started
      exact ⟨accepted, (Option.some.inj started).symm⟩
    case h_2 => cases started
  · rintro ⟨accepted, rfl⟩
    rw [readServer_ok.mpr ⟨accepted, rfl⟩]
    exact (LocationModule.merge_order order.nodup _).trans (congrArg some merged)

def ConfLine.of (words : ConfWords) (d : LocationDirective) (args : List NgxStr)
    (placed : ∀ arg ∈ args, arg.data ≠ 0) : ConfLine where
  name := (d.command words).name
  word := ⟨(d.command words).name.length, 16⟩
  args := args
  placed := placed

@[simp] theorem ConfLine.args_of {words : ConfWords} (d : LocationDirective)
    (args : List NgxStr) (placed : ∀ arg ∈ args, arg.data ≠ 0) :
    (ConfLine.of words d args placed).args = args := rfl

@[simp] theorem ConfLine.directive?_of {words : ConfWords} (d : LocationDirective)
    (args : List NgxStr) (placed : ∀ arg ∈ args, arg.data ≠ 0) :
    (ConfLine.of words d args placed).directive? words = some d := by
  cases d <;> simp [directive?, LocationDirective.all, ConfLine.of, LocationDirective.command]

/-- The words "on" and "off" by their lengths, and any name of an upstream block. -/
private def someWords : ConfWords where
  flag s := some (s.len == 2)
  add s := some s.len

private def someOrder : BuildOrder where
  modules := [.echo, .filter, .subrequest, .test, .upstream]
  nodup := by decide
  complete m := by cases m <;> decide

private def onServerLines : List ConfLine := [.of someWords .test [⟨2, 32⟩] (by decide)]

private def outerLines : List ConfLine :=
  [.of someWords .echo [⟨5, 40⟩] (by decide), .of someWords .subrequestArgs [⟨3, 48⟩] (by decide)]

private def innerLines : List ConfLine :=
  [.of someWords .test [⟨3, 56⟩] (by decide), .of someWords .subrequestLoc [⟨4, 64⟩] (by decide)]

/-- The tests are on, but not in the inner location, whose arguments are the outer one's. -/
private def nestedItems : List ConfItem :=
  onServerLines.map .line ++
    [.location (.location (innerLines.map .line) :: outerLines.map .line)]

private theorem nestedItems_tree : blockTree nestedItems =
    .node onServerLines [.node outerLines [.node innerLines []]] := rfl

private theorem nestedItems_accepted : ServerAccepted someWords nestedItems where
  blocks lines member := by
    rw [nestedItems_tree] at member
    simp only [Rose.labels_node, List.flatMap_cons, List.flatMap_nil, List.append_nil,
      List.mem_cons, List.not_mem_nil, or_false] at member
    obtain rfl | rfl | rfl := member
    all_goals
      refine ⟨by simp [onServerLines, outerLines, innerLines, LocationDirective.arity,
        LocationDirective.Reads, someWords], fun d once => ?_⟩
      cases d <;> simp [told, onServerLines, outerLines, innerLines]
  server line member d found := by
    obtain rfl := List.mem_singleton.mp member
    rw [ConfLine.directive?_of] at found
    obtain rfl := Option.some.inj found
    rfl

theorem server_read_nested : ∃ server,
    readServer someWords 4096 ⟨9, 128⟩ someOrder nestedItems = some server ∧
      (server.labels.map fun c => c.test.enabled) = [1, 1, 0] ∧
      (server.labels.map fun c => c.subrequest) =
        [⟨⟨9, 128⟩, ⟨0, 0⟩⟩, ⟨⟨9, 128⟩, ⟨3, 48⟩⟩, ⟨⟨4, 64⟩, ⟨3, 48⟩⟩] ∧
      (server.labels.map fun c => c.handler) = [none, some .echo, some .subrequest] := by
  have read := (server_read_iff someWords 4096 ⟨9, 128⟩ someOrder nestedItems _).mpr
    ⟨nestedItems_accepted, rfl⟩
  have labels : (((blockTree nestedItems).trail []).map
      (LocationConf.inForce someWords 4096 ⟨9, 128⟩)).labels =
        [[onServerLines], [onServerLines, outerLines], [onServerLines, outerLines, innerLines]].map
          (LocationConf.inForce someWords 4096 ⟨9, 128⟩) := by
    simp [nestedItems_tree, Rose.trail, Rose.descend_node, Rose.map_node, Rose.labels_node]
  refine ⟨_, read, ?_, ?_, ?_⟩
  · rw [labels]
    simp [LocationConf.inForce, LocationConf.flagIn, told, onServerLines, outerLines, innerLines,
      nearest, someWords]
  · rw [labels]
    simp [LocationConf.inForce, LocationConf.textIn, told, onServerLines, outerLines, innerLines,
      nearest, NgxString.empty, ngxNullString, Option.filter]
  · rw [labels]
    simp [LocationConf.inForce, LocationConf.said, onServerLines, outerLines, innerLines,
      LocationDirective.content]

end NgxCpp
