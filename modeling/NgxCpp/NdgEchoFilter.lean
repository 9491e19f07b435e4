import NgxCpp.NdgEchoHandler
import NgxCpp.NgxFilter

/-! `NdgEchoHandler` served through `NdgFilterHandler`: the footer is attached to the
end of the reply and counted into the length that the reply announces. -/

namespace NgxCpp
open Foundation

namespace NdgFilterHandler

variable (conf : NdgFilterConf)

/-- The top filters of a process with these globals, where the one tag's filters are
those of `NdgFilterHandler` and nginx's own record what they are handed. -/
def topFilters (g : FilterGlobals Unit) (rc : Int) : TopFilters where
  header := g.header.call (fun _ next _ => headerFilter conf (next ()))
    (fun _ => nextHeader ngxOk) 1 g.header.top ()
  body := g.body.call (fun _ next => bodyFilter conf next) (nextBody rc) 1 g.body.top

/-- The registration that `NdgFilterHandler::init` makes. -/
def registered : Registration Unit := ⟨(), true, true⟩

theorem topFilters_registered (g : FilterGlobals Unit) (rc : Int) :
    topFilters conf (g.configure [registered]) rc =
      ⟨headerFilter conf (nextHeader ngxOk), bodyFilter conf (nextBody rc)⟩ := by
  have distinct : ([registered].map Registration.tag).Nodup := by simp
  obtain ⟨header, body⟩ := configure_serves g distinct
  rw [topFilters, header.call_eq (by simp [installed, registered]),
    body.call_eq (by simp [installed, registered])]
  rfl

def ended (b : NgxBufT) : List NgxBufT :=
  if NgxString.empty conf.footer then [b] else attached conf b

theorem filters_take (sh : ListShape NgxTableElt) (rc : Int) :
    TopFilters.Takes ⟨headerFilter conf (nextHeader ngxOk), bodyFilter conf (nextBody rc)⟩ sh rc
      (counted conf) (sh.elems ++ configured conf) (fun ctx => ctx = some 1) (ended conf) where
  header f fresh := by
    obtain ⟨m, sh', filtered, rep', elems⟩ :=
      doHeaderFilter_first conf fresh.ctx fresh.pool fresh.rep fresh.generous
    have answered := headerFilter_ok filtered ngxOk
    simp only [headerSeen, rep'.shown, elems, fresh.log, List.nil_append] at answered
    exact ⟨some 1, m, f.chains.grants.tail, rfl, fresh.pool.tail, answered⟩
  pass f p b due shown unset := by
    have filtered : doBodyFilter conf (some p) f = .ok () f := by
      by_cases empty : NgxString.empty conf.footer = true
      · exact doBodyFilter_empty empty _
      · obtain ⟨views, chained, values⟩ := Chained.of_shown shown
        obtain ⟨v, rfl, rfl⟩ := List.map_eq_singleton_iff.mp values
        rw [doBodyFilter_due (by simpa using empty) due chained,
          List.find?_eq_none.mpr (by simpa using unset)]
    have answered := bodyFilter_ok filtered rc
    rwa [shown] at answered
  last f p b due pool shown last := by
    unfold ended
    by_cases empty : NgxString.empty conf.footer = true
    · have answered := bodyFilter_ok (doBodyFilter_empty empty (some p) (w := f)) rc
      rw [shown] at answered
      rw [if_pos empty]
      exact ⟨f.ctx, f.chains, answered⟩
    · obtain ⟨views, chained, values⟩ := Chained.of_shown shown
      obtain ⟨v, rfl, rfl⟩ := List.map_eq_singleton_iff.mp values
      have alone : ∀ u ∈ ([] : List LinkView), u.value.lastBuf = false := by simp
      obtain ⟨m, attach, shown'⟩ := attachFooter_eq conf chained pool last alone
      have filtered : doBodyFilter conf (some p) f =
          .ok () { f with ctx := some 2, chains := m } := by
        rw [doBodyFilter_due (by simpa using empty) due chained,
          List.find?_cons_of_pos (p := fun v : LinkView => v.value.lastBuf) last]
        exact Exec.zoom_ok attach
      have answered := bodyFilter_ok filtered rc
      rw [shown'] at answered
      rw [if_neg empty]
      exact ⟨some 2, m, answered⟩

def footerBytes (ram : Ram) (footer : NgxStr) : List UInt8 :=
  if NgxString.empty footer then [] else NgxString.bytes ram footer

def endBuf : NgxBufT :=
  if NgxString.empty conf.footer then Special.last.buf else footerBuf conf

theorem ended_last : ended conf Special.last.buf = [endBuf conf] := by
  unfold ended endBuf
  split
  · rfl
  · exact if_pos rfl

theorem endBuf_last : (endBuf conf).lastBuf = true := by
  unfold endBuf
  split <;> rfl

theorem endBuf_bytes (c : Contents) : (endBuf conf).bytes c = footerBytes c.ram conf.footer := by
  unfold endBuf footerBytes
  split
  · exact NgxBufT.bytes_eq_nil rfl
  · rfl

theorem counted_footer {n : Nat} (ram : Ram) (long : 0 < n)
    (fits : n + conf.footer.len < 2 ^ 63) :
    counted conf n = ((n + (footerBytes ram conf.footer).length : Nat) : Int) := by
  unfold footerBytes
  by_cases empty : NgxString.empty conf.footer = true
  · simp [counted, empty]
  · rw [if_neg empty, (counted_eq_iff (by simpa using empty) fits).mpr long]
    simp

end NdgFilterHandler

namespace NdgEchoHandler
open NdgFilterHandler

theorem replyLen_pos {msg : NgxStr} (long : msg.len ≠ 0) (args : NgxStr) :
    0 < replyLen msg args := by
  unfold replyLen
  split <;> omega

theorem replied_footer {m : ByteMem} {footer : NgxStr} (placed : footer.Placed m) (args : NgxStr) :
    footerBytes (replied m args).ram footer = footerBytes m.ram footer := by
  unfold footerBytes replied
  split
  · rfl
  · split
    · rfl
    · exact ByteMem.bytes_store placed _

/-- A non-empty message echoed through `NdgFilterHandler`: one header with the length
of the whole body and the configured headers at its end, then arguments, message and
footer, of which the last buffer alone ends the body. -/
theorem echo_filtered {w : ResponseWorld} {sh : ListShape NgxTableElt} {msg : NgxStr}
    (request : w.EchoRequest sh msg) (long : msg.len ≠ 0) (conf : NdgFilterConf)
    (placed : conf.footer.Placed w.bytes) (g : FilterGlobals Unit) (disk : Nat → Ram) (rc : Int) :
    ∃ w', handler (topFilters conf (g.configure [registered]) rc) ⟨msg⟩ ngxOk w = .ok rc w' ∧
      Answered ⟨w'.bytes.ram, disk⟩ w'.filter (sh.elems ++ configured conf)
        (replyBytes w.bytes.ram msg w.args ++ footerBytes w.bytes.ram conf.footer) := by
  rw [topFilters_registered]
  obtain ⟨w', calls, run, length, log, taken, bytes⟩ :=
    reply_ok (filters_take conf sh rc) request (pure_passes _)
  refine ⟨w', by rw [handler_eq request, Exec.catching_ok _ run], ?_⟩
  let c : Contents := ⟨w'.bytes.ram, disk⟩
  rw [List.append_nil, ended_last] at taken
  have front : (replyChains w.bytes msg w.args).flatten.flatMap (NgxBufT.bytes c) =
      replyBytes w.bytes.ram msg w.args := by
    have carried := replyChains_bytes disk request.msg request.args
    rwa [← bytes] at carried
  have footer : (endBuf conf).bytes c = footerBytes w.bytes.ram conf.footer := by
    rw [endBuf_bytes, ← replied_footer placed w.args, ← bytes]
  have fits : replyLen msg w.args + conf.footer.len < 2 ^ 63 := by
    have ⟨_, _, _, _, args, message, room⟩ := request
    unfold NgxStr.Placed at args message placed
    unfold replyLen
    split <;> omega
  have total : counted conf (replyLen msg w.args) =
      ((replyBytes w.bytes.ram msg w.args ++ footerBytes w.bytes.ram conf.footer).length : Nat) := by
    rw [counted_footer conf w.bytes.ram (replyLen_pos long _) fits, List.length_append,
      length_replyBytes]
  have answered := (answered_of_log c log length taken (endBuf_last conf)
    (replyChains_unset _ _ _) (by rw [front, footer, total])).2
  rwa [front, footer] at answered

/-- Arguments, a message, one header and a footer, after a reload. -/
theorem echo_filtered_args :
    ∃ w', handler (topFilters ⟨some [⟨⟨1, 8⟩, ⟨1, 9⟩⟩], ⟨2, 10⟩⟩
        (FilterGlobals.configure ⟨⟨.of (), fun _ => some .base⟩, ⟨.base, fun _ => none⟩⟩
          [registered]) 0) ⟨⟨2, 12⟩⟩ ngxOk (getRequest ⟨3, 14⟩) = .ok 0 w' ∧
      Answered ⟨w'.bytes.ram, fun _ _ => 0⟩ w'.filter [⟨1, ⟨1, 8⟩, ⟨1, 9⟩⟩]
        ([97, 97, 97, 44, 97, 97] ++ [97, 97]) :=
  echo_filtered (getRequest_reaches (by decide) (by decide)) (by decide)
    ⟨some [⟨⟨1, 8⟩, ⟨1, 9⟩⟩], ⟨2, 10⟩⟩ (by simp [NgxStr.Placed, getRequest]) _ (fun _ _ => 0) 0

end NdgEchoHandler

end NgxCpp
