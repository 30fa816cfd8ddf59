import Matchbox.Stream.Splitter
import Matchbox.System.Calls
import Matchbox.System.Dialog
import Matchbox.System.Reports

/-!
# Watching the market

`mdstream.py` connected to the whole system: the engine's Top and Trade events go through the outbox, the gateway, the replay ring, a subscriber's buffer and a TCP connection that may end anywhere, and the script prints them. It may be slow, be lapped, lose the connection and come back.

`Watch.run_shows` says what is on the screen at every moment of every such run. Each line about the top of a book shows the book as some command left it. And the last one of a symbol is what the engine had reported when the script's sequence number was current, so that a script that has caught up shows the books as they are, unless it was told that the last report is lost.
-/

namespace Matchbox

open Wire Struct

/-! ### The script's output -/

/-- A line that `handle` prints. -/
inductive Line where
  | trade (seq : Nat) (sym : Int) (sell : Bool) (qty px : Int)
  | top (seq : Nat) (sym bidQty bid askQty ask : Int)
  /-- GAP, with the first and the last frame lost. -/
  | gap (first last : Int)
  /-- SEQ JUMP. -/
  | jump (expected got : Nat)
deriving DecidableEq

/-- What `handle` prints about a data frame. -/
def Script.dataLines (mtype seq : Nat) (frame : List UInt8) : List Line :=
  if mtype = typeCode .trade then
    match unpack (format .trade) frame with
    | some [_, _, _, _, sym, aggr, px, qty, _] => [.trade seq sym (aggr ≠ 0) qty px]
    | _ => []
  else if mtype = typeCode .top then
    match unpack (format .top) frame with
    | some [_, _, _, _, sym, bid, ask, bq, aq] => [.top seq sym bq bid aq ask]
    | _ => []
  else []

/-- What `handle` prints. -/
def MdStream.prints (c : MdStream) (mtype seq : Nat) (frame : List UInt8) : List Line :=
  if c.quiet then []
  else if mtype = Script.typeCode .heartbeat then []
  else if mtype = Script.typeCode .gap then
    match unpack (Script.format .gap) frame with
    | some [_, _, _, _, frm, resumed] => [.gap frm (resumed - 1)]
    | _ => []
  else (if c.nextSeq ≠ 0 ∧ seq ≠ c.nextSeq then [.jump c.nextSeq seq] else []) ++ Script.dataLines mtype seq frame

/-- `Stream` of `mdstream.py` with its output. -/
structure Viewer extends MdStream where
  lines : List Line := []

namespace Viewer

/-- `handle`; `none` is an exception. The SEQ JUMP that it may print before one is not kept. -/
def handle (v : Viewer) (mtype seq : Nat) (frame : List UInt8) : Option Viewer :=
  (v.toMdStream.handle mtype seq frame).map fun c =>
    { toMdStream := c, lines := v.lines ++ v.toMdStream.prints mtype seq frame }

/-- What `run` does with a chunk. -/
def receive (v : Viewer) (chunk : List UInt8) : Option Viewer :=
  let buf := v.buf ++ chunk
  match Script.frameLoop handle (buf.length + 1) buf v with
  | .returned v' _ rest => some { v' with buf := rest }
  | .failed => none
  | .running => none

/-- `connect`, once it has a connection. -/
def connect (v : Viewer) : Viewer := { v with toMdStream := v.toMdStream.connect }

end Viewer

/-! ### The system and the script -/

/-- What some calls into the publisher do to the script's connection; nothing if they read what it has not sent. -/
def Link.calls (l : Link) (p : Publisher) : List Publisher.Action → Option Link
  | [] => some l
  | a :: acts =>
      let q := (Publisher.step (p, Poller.init) a).1
      if l.permits a then (l.call p q a).calls q acts else none

structure Watch where
  system : System
  /-- Gone after an exception. -/
  client : Option Viewer
  link : Link

namespace Watch

inductive Action where
  /-- A step of the system, in which `accept` returns someone else's connection. -/
  | system (a : System.Action)
  /-- The gateway accepts the script's connection. -/
  | accept (env : Env)
  /-- The script receives at most `n` bytes. -/
  | deliver (n : Nat)
  /-- The script closes the connection and makes a new one. -/
  | reconnect

/-- The descriptor that the gateway gets for a connection to the market-data port. -/
def accepted? (s : System) (env : Env) : Option Nat :=
  match s.gateway, env.accepted with
  | .accepting kind _, .connected fd => if kind = .session then none else some fd
  | _, _ => none

/-- One step. What cannot happen changes nothing. -/
def step (t : Watch) : Action → Watch
  | .system a =>
      match t.link.calls t.system.server.publisher (t.system.calls a) with
      | some link => { t with system := t.system.step a, link := link }
      | none => t
  | .accept env =>
      match accepted? t.system env with
      | some fd =>
          if t.link.phase = .queued ∧ t.system.server.publisher.isSubscriber fd = false then
            { t with system := t.system.step (.gateway env), link := { t.link with phase := .accepted fd } }
          else t
      | none => t
  | .deliver k =>
      let chunk := (t.link.wire.drop t.link.delivered).take (min k 65536)
      if chunk = [] then t
      else
        { t with
          client := t.client.bind fun v => v.receive chunk
          link := { t.link with delivered := t.link.delivered + chunk.length } }
  | .reconnect =>
      match t.client with
      | some v => { t with client := some v.connect, link := { unread := v.connect.subscribeFrame } }
      | none => t

def run (t : Watch) (actions : List Action) : Watch := actions.foldl step t

@[simp] theorem run_concat (t : Watch) (actions : List Action) (a : Action) :
    t.run (actions ++ [a]) = (t.run actions).step a := by
  simp [run]

/-- A script that starts at `first`, connected and not yet accepted. -/
def start (s : System) (first : Nat) : Watch where
  system := s
  client := some { nextSeq := first, quiet := false }
  link := { unread := MdStream.subscribeFrame { nextSeq := first, quiet := false } }

end Watch

/-! ### One frame on the screen -/

/-- The top of a symbol's book, if a line shows it. -/
def Line.topOf (k : Nat) : Line → Option TopOfBook
  | .top _ sym bidQty bid askQty ask => if sym = k then some ⟨bid, ask, bidQty.toNat, askQty.toNat⟩ else none
  | _ => none

/-- Lines about data, in contrast to those about what is missing. -/
def Line.isData : Line → Bool
  | .trade .. | .top .. => true
  | .gap .. | .jump .. => false

/-- The frame of a stream at the expected number, which for data is a position in what was published. -/
theorem Streams.single_cases {capacity e b : Nat} {published : List Message} {x : Nat × List UInt8}
    (h : Streams capacity published e [x] b) :
    (∃ i m, published[i]? = some m ∧ e = i + 1 ∧ b = i + 2 ∧ x.2 = m.make (i + 1)) ∨
      x.2 = (Message.gap e b).make 0 ∨ ∃ ts i, x.2 = (Message.heartbeat ts i).make 0 := by
  generalize hone : [x] = l at h
  rw [← List.nil_append [x]] at hone
  cases h with
  | nil => cases hone
  | @data items i head m h hm _ =>
      obtain ⟨rfl, hx⟩ := List.append_inj' hone rfl
      rw [List.cons.injEq] at hx
      exact .inl ⟨i, m, hm, h.eq_of_nil.symm, rfl, by rw [hx.1]⟩
  | @gap items e' head h hlt =>
      obtain ⟨rfl, hx⟩ := List.append_inj' hone rfl
      have he := h.eq_of_nil
      rw [List.cons.injEq] at hx
      exact .inr (.inl (by rw [hx.1, ← he]))
  | @heartbeat items i head ts h =>
      obtain ⟨rfl, hx⟩ := List.append_inj' hone rfl
      rw [List.cons.injEq] at hx
      exact .inr (.inr ⟨ts, i, by rw [hx.1]⟩)

namespace Script

theorem dataLines_topOf {m : Message} {seq : Nat} (hseq : seq < word32) (hrange : ∀ k, m.topOf k ≠ none → m.InRange) (k : Nat) :
    (dataLines m.type.code seq (m.make seq)).filterMap (Line.topOf k) = (m.topOf k).toList := by
  cases m with
  | top symbol bid ask bidQty askQty =>
      have hm : (Message.top symbol bid ask bidQty askQty).InRange := hrange symbol (by simp [Message.topOf])
      have hunpack : unpack (format .top) ((Message.top symbol bid ask bidQty askQty).make seq) = _ :=
        unpack_message hm hseq
      have htrade : (Message.top symbol bid ask bidQty askQty).type.code ≠ typeCode .trade := by
        change MsgType.top.code ≠ _
        decide
      have htop : (Message.top symbol bid ask bidQty askQty).type.code = typeCode .top := rfl
      rw [dataLines, if_neg htrade, if_pos htop, hunpack]
      by_cases hk : symbol = k <;> simp [headerValues, Message.fields, Line.topOf, Message.topOf, hk]
  | trade symbol aggressor price qty tsNs =>
      have htrade : (Message.trade symbol aggressor price qty tsNs).type.code = typeCode .trade := rfl
      rw [dataLines, if_pos htrade]
      split <;> rfl
  | _ => rfl

theorem isData_of_mem_dataLines {mtype seq : Nat} {frame : List UInt8} {line : Line} (h : line ∈ dataLines mtype seq frame) :
    line.isData = true := by
  rw [dataLines] at h
  split at h
  · split at h
    · rw [List.mem_singleton.1 h]
      rfl
    · cases h
  · split at h
    · split at h
      · rw [List.mem_singleton.1 h]
        rfl
      · cases h
    · cases h

end Script

namespace MdStream

variable {c : MdStream}

theorem prints_data (hloud : c.quiet = false) {m : Message} (hm : m.isData = true) {seq : Nat} (hseq : seq = c.nextSeq)
    (frame : List UInt8) : c.prints m.type.code seq frame = Script.dataLines m.type.code seq frame := by
  have hcontrol : m.type.code ≠ Script.typeCode .heartbeat ∧ m.type.code ≠ Script.typeCode .gap := by
    cases m <;> simp [Message.isData, Message.type, MsgType.code, Script.typeCode] at hm ⊢
  rw [prints, if_neg (by rw [hloud]; decide), if_neg hcontrol.1, if_neg hcontrol.2, if_neg fun hjump => hjump.2 hseq,
    List.nil_append]

theorem prints_heartbeat (c : MdStream) (seq : Nat) (frame : List UInt8) :
    c.prints MsgType.heartbeat.code seq frame = [] := by
  rw [prints]
  split
  · rfl
  · exact if_pos (by decide)

theorem prints_gap (hloud : c.quiet = false) {a b : Nat} (ha : a < 2 ^ 64) (hb : b < 2 ^ 64) (seq : Nat) :
    c.prints MsgType.gap.code seq ((Message.gap a b).make 0) = [.gap a (b - 1)] := by
  have hunpack : unpack (Script.format .gap) ((Message.gap a b).make 0) = _ :=
    Script.unpack_message (m := .gap a b) ⟨ha, hb⟩ (by decide)
  rw [prints, if_neg (by rw [hloud]; decide), if_neg (by decide), if_pos (by decide), hunpack]
  rfl

theorem onData_handled (c : MdStream) (seq : Nat) : (c.onData seq).handled = c.handled ++ [seq] := by
  rw [onData]
  dsimp only
  split <;> rfl

theorem onData_holes (c : MdStream) (seq : Nat) : (c.onData seq).holes = c.holes := by
  rw [onData]
  dsimp only
  split <;> rfl

end MdStream

theorem MdStream.Follows.start_le {start : Nat} {c : MdStream} (h : c.Follows start) {q : Nat} (hq : q ∈ c.handled) :
    start ≤ q := by
  have htimes := h.times q
  have hcount := List.count_pos_iff.2 hq
  rw [MdStream.times] at htimes
  by_contra hlt
  rw [if_neg fun hboth => hlt hboth.1] at htimes
  omega

/-- Every message about a top has fields that the wire can hold. -/
def TopsFit (published : List Message) : Prop := ∀ m ∈ published, ∀ k, m.topOf k ≠ none → m.InRange

/-- What is on the screen: the tops of the frames that were handled, in order, and for each hole a line that tells its first and last number. -/
structure Viewer.Shows (published : List Message) (v : Viewer) : Prop where
  tops : ∀ k, v.lines.filterMap (Line.topOf k) = v.handled.filterMap fun q => published[q - 1]?.bind (Message.topOf k)
  gaps : v.lines.filter (fun line => !line.isData) = v.holes.map fun g => .gap g.1 (g.2 - 1)

namespace Viewer

variable {start capacity e : Nat} {published : List Message} {v : Viewer} {x : Nat × List UInt8}

/-- The account of a viewer that started at `start`: what it has handled, what it shows, and that it prints at all. -/
structure Follows (start : Nat) (published : List Message) (v : Viewer) : Prop where
  toFollows : v.toMdStream.Follows start
  loud : v.quiet = false
  shows : v.Shows published

theorem handle_quiet {c c' : MdStream} {mtype seq : Nat} {frame : List UInt8} (h : c.handle mtype seq frame = some c') :
    c'.quiet = c.quiet := by
  rw [MdStream.handle] at h
  split at h
  · split at h
    · cases h
      rfl
    · cases h
  · split at h
    · split at h
      · cases h
        rfl
      · cases h
    · split at h
      · cases h
      · split at h
        · cases h
        · cases h
          rw [MdStream.onData]
          dsimp only
          split <;> rfl

theorem Shows.data (h : v.Shows published) (hloud : v.quiet = false) {i : Nat} {m : Message} (hm : published[i]? = some m)
    (hdata : m.isData = true) (hfit : TopsFit published) (hseq : v.nextSeq = i + 1) (hlt : i + 1 < word32) :
    Shows published
      { toMdStream := v.toMdStream.onData (i + 1)
        lines := v.lines ++ v.toMdStream.prints m.type.code (i + 1) (m.make (i + 1)) } := by
  rw [MdStream.prints_data hloud hdata hseq.symm]
  constructor
  · intro k
    have hone : published[i + 1 - 1]?.bind (Message.topOf k) = m.topOf k := by
      rw [Nat.add_sub_cancel, hm, Option.bind_some]
    dsimp only
    rw [List.filterMap_append, h.tops, MdStream.onData_handled, List.filterMap_append,
      Script.dataLines_topOf hlt (hfit m (List.mem_of_getElem? hm))]
    cases htop : m.topOf k <;> simp only [List.filterMap_cons, List.filterMap_nil, hone, htop] <;> rfl
  · dsimp only
    rw [List.filter_append, h.gaps, MdStream.onData_holes, List.filter_eq_nil_iff.2, List.append_nil]
    intro line hline
    rw [Script.isData_of_mem_dataLines hline]
    decide

theorem Follows.frame (h : v.Follows start published) (hx : Streams capacity published v.nextSeq [x] e) (he : e < word32)
    (hdata : ∀ m ∈ published, m.isData = true) (hfit : TopsFit published) :
    ∃ v', v.handle (Header.ofBytes x.2).type (Header.ofBytes x.2).seq x.2 = some v' ∧ v'.Follows start published ∧
      v'.nextSeq = e := by
  obtain ⟨c, hc, hfollows, hnext⟩ := h.toFollows.frame hx he hdata
  refine ⟨{ toMdStream := c, lines := v.lines ++ v.toMdStream.prints (Header.ofBytes x.2).type (Header.ofBytes x.2).seq x.2 },
    by rw [handle, hc]; rfl, ⟨hfollows, (handle_quiet hc).trans h.loud, ?_⟩, hnext⟩
  rcases hx.single_cases with ⟨i, m, hm, hseq, rfl, hbytes⟩ | hbytes | ⟨ts, i, hbytes⟩
  · have hlt : i + 1 < word32 := by omega
    have hm' := hdata m (List.mem_of_getElem? hm)
    rw [hbytes, m.ofBytes_make_self, Nat.mod_eq_of_lt hlt] at hc ⊢
    dsimp only at hc ⊢
    rw [v.toMdStream.handle_data hm', Option.some.injEq] at hc
    rw [← hc]
    exact h.shows.data h.loud hm hm' hfit hseq hlt
  · have hstart : v.nextSeq ≤ e := hx.le
    have hword : word32 < 2 ^ 64 := by decide
    rw [hbytes, Message.ofBytes_make_self] at hc ⊢
    have hgap := (v.toMdStream.handle_gap v.nextSeq e).symm.trans hc
    rw [Option.some.injEq, Nat.mod_eq_of_lt (by omega), Nat.mod_eq_of_lt (by omega)] at hgap
    have hprints : v.toMdStream.prints (Message.gap v.nextSeq e).type.code (0 % word32) ((Message.gap v.nextSeq e).make 0) =
        [.gap v.nextSeq (e - 1)] := MdStream.prints_gap h.loud (by omega) (by omega) _
    dsimp only
    rw [hprints, ← hgap]
    constructor
    · intro k
      dsimp only
      rw [List.filterMap_append, h.shows.tops]
      exact List.append_nil _
    · dsimp only
      rw [List.filter_append, h.shows.gaps, List.map_append]
      rfl
  · rw [hbytes, Message.ofBytes_make_self] at hc ⊢
    have hheartbeat := (v.toMdStream.handle_heartbeat ts i).symm.trans hc
    rw [Option.some.injEq] at hheartbeat
    have hprints : v.toMdStream.prints (Message.heartbeat ts i).type.code (0 % word32) ((Message.heartbeat ts i).make 0) = [] :=
      v.toMdStream.prints_heartbeat _ _
    dsimp only
    rw [hprints, ← hheartbeat, List.append_nil]
    exact ⟨h.shows.tops, h.shows.gaps⟩

theorem Follows.receive (h : v.Follows start published) (he : e < word32) (hdata : ∀ m ∈ published, m.isData = true)
    (hfit : TopsFit published) {items : List (Nat × List UInt8)} (hitems : Streams capacity published v.nextSeq items e)
    {chunk back : List UInt8} (hbytes : v.buf ++ chunk ++ back = (items.map Prod.snd).flatten) :
    ∃ v' rest, v.receive chunk = some v' ∧ v'.Follows start published ∧ Streams capacity published v'.nextSeq rest e ∧
      v'.buf ++ back = (rest.map Prod.snd).flatten := by
  obtain ⟨v', calls, rest, next', left, hwalk, ⟨hfollows, rfl⟩, hleft, hrest⟩ := Streams.walk
    (Script.onFront handle) (A := fun v next => v.Follows start published ∧ v.nextSeq = next)
    (fun {v next b x} h hx hb hf back => by
      obtain ⟨hfollows, rfl⟩ := h
      obtain ⟨v', hhandle, hfollows', hnext⟩ := hfollows.frame hx (hb.trans_lt he) hdata hfit
      exact ⟨v', (Script.onFront_append handle hf v back).trans hhandle, hfollows', hnext⟩)
    ⟨h, rfl⟩ hitems hbytes
  refine ⟨{ v' with buf := rest }, left, ?_, ⟨hfollows.toFollows.setBuf rest, hfollows.loud,
    ⟨hfollows.shows.tops, hfollows.shows.gaps⟩⟩, hleft, hrest⟩
  rw [Viewer.receive, Script.frameLoop_eq, hwalk]

theorem Follows.mono (h : v.Follows start published) (hstart : 1 ≤ start) (hle : v.nextSeq ≤ published.length + 1)
    (more : List Message) : v.Follows start (published ++ more) := by
  refine ⟨h.toFollows, h.loud, fun k => ?_, h.shows.gaps⟩
  rw [h.shows.tops k]
  apply List.filterMap_congr
  intro q hq
  have hlt := h.toFollows.lt_nextSeq hq
  have hge := h.toFollows.start_le hq
  rw [List.getElem?_append_left (by omega)]

end Viewer

/-! ### The connection -/

section Calls

variable {p : Publisher} {next : Nat} {buf : List UInt8} {l l' : Link}

theorem Publisher.calls_published (p : Publisher) (acts : List Publisher.Action) :
    (p.calls acts).published = p.published ++ acts.flatMap Publisher.Action.published := by
  induction acts generalizing p with
  | nil => exact (List.append_nil _).symm
  | cons a acts ih =>
      change ((Publisher.step (p, Poller.init) a).1.calls acts).published = _
      rw [ih, Publisher.step_published, List.flatMap_cons, List.append_assoc]

theorem Feed.calls (h : Feed (p, Poller.init) next buf l) (hpos : 1 ≤ next) {acts : List Publisher.Action}
    (hcalls : l.calls p acts = some l') (hfew : (p.calls acts).published.length + 1 < word32) :
    Feed (p.calls acts, Poller.init) next buf l' := by
  induction acts generalizing p l with
  | nil =>
      cases hcalls
      exact h
  | cons a acts ih =>
      rw [Link.calls] at hcalls
      split at hcalls
      · rename_i hpermits
        change ((Publisher.step (p, Poller.init) a).1.calls acts).published.length + 1 < word32 at hfew
        have hless : (Publisher.step (p, Poller.init) a).1.published.length + 1 < word32 := by
          rw [Publisher.calls_published, List.length_append] at hfew
          omega
        obtain ⟨hserver, hdistinct, hbacklog, hdata, hhead, hlink⟩ := h.call hpos hpermits hless
        exact ih ⟨hserver, hdistinct, hbacklog, hdata, hhead, hlink⟩ hcalls hfew
      · cases hcalls

end Calls

/-! ### Every run -/

namespace Watch

variable {ecfg : Engine.Config} {first : Nat} {t : Watch} {v : Viewer}

theorem isData_of_marketData? {e : Event} {m : Message} (h : e.marketData? = some m) : m.isData = true := by
  rw [Event.marketData?] at h
  split at h
  · cases h
    rfl
  · cases h
    rfl
  · cases h

/-- What holds between the system, the connection and the script after every step. -/
structure Inv (ecfg : Engine.Config) (first : Nat) (t : Watch) (v : Viewer) : Prop where
  client : t.client = some v
  system : t.system.Inv ecfg
  feed : Feed (t.system.server.publisher, Poller.init) v.nextSeq v.buf t.link
  follows : v.Follows first t.system.server.publisher.published

theorem Inv.topsFit (h : t.Inv ecfg first v) (hsymbols : ecfg.symbols ≤ 2 ^ 16) (hprice : ecfg.maxPrice < 2 ^ 63) :
    TopsFit t.system.server.publisher.published := by
  intro m hm k htop
  obtain ⟨top, htop⟩ := Option.ne_none_iff_exists'.1 htop
  obtain ⟨hk, before, -, hbook⟩ := Engine.topOf_log (h.system.published_prefix.subset hm) htop
  have hfits := Engine.run_top_fits hprice before k
  rw [← hbook] at hfits
  cases m with
  | top symbol bid ask bidQty askQty =>
      rw [Message.topOf] at htop
      split at htop
      · rename_i hsymbol
        cases htop
        exact ⟨by omega, hfits.bid, hfits.ask, hfits.bidQty, hfits.askQty⟩
      · cases htop
  | _ => cases htop

theorem Inv.pos (h : t.Inv ecfg first v) (hfirst : 1 ≤ first) : 1 ≤ v.nextSeq := hfirst.trans h.follows.toFollows.le

theorem Inv.nextSeq_le (h : t.Inv ecfg first v) : v.nextSeq ≤ t.system.server.publisher.published.length + 1 := by
  have hhead := h.feed.head
  rw [h.feed.server.ring.head] at hhead
  exact hhead

theorem Inv.moved (h : t.Inv ecfg first v) (hfirst : 1 ≤ first) {a : System.Action} {link : Link}
    (hfew : (t.system.step a).server.opened < word32)
    (hfeed : Feed (t.system.server.publisher.calls (t.system.calls a), Poller.init) v.nextSeq v.buf link) :
    Inv ecfg first { t with system := t.system.step a, link := link } v := by
  refine ⟨h.client, (t.system.step_stepped a).inv h.system hfew, ?_, ?_⟩
  · change Feed ((t.system.step a).server.publisher, _) _ _ _
    rw [t.system.step_publisher]
    exact hfeed
  · change v.Follows first (t.system.step a).server.publisher.published
    rw [t.system.step_publisher, Publisher.calls_published]
    exact h.follows.mono hfirst h.nextSeq_le _

theorem Inv.accept (h : t.Inv ecfg first v) (hfirst : 1 ≤ first) {env : Env} {fd : Nat}
    (hfd : accepted? t.system env = some fd) (hphase : t.link.phase = .queued)
    (hnew : t.system.server.publisher.isSubscriber fd = false)
    (hfew : (t.system.step (.gateway env)).server.opened < word32)
    (hless : t.system.server.publisher.published.length + 1 < word32) :
    Inv ecfg first { t with system := t.system.step (.gateway env), link := { t.link with phase := .accepted fd } } v := by
  have hcalls : t.system.calls (.gateway env) = [.subscribe fd] := by
    rw [accepted?] at hfd
    split at hfd
    · rename_i kind evs fd' hat haccepted
      split at hfd
      · cases hfd
      · rename_i hkind
        cases hfd
        rw [System.calls, hat]
        dsimp only
        rw [haccepted]
        exact if_neg hkind
    · cases hfd
  refine h.moved hfirst hfew ?_
  rw [hcalls]
  have hsame : (Publisher.step (t.system.server.publisher, Poller.init) (.subscribe fd)).1.published.length =
      t.system.server.publisher.published.length := by
    rw [Publisher.step_published]
    simp [Publisher.Action.published]
  obtain ⟨hserver, hdistinct, hbacklog, hdata, hhead, hlink⟩ := h.feed.accept hphase hnew (by rw [hsame]; exact hless)
  exact ⟨hserver, hdistinct, hbacklog, hdata, hhead, hlink⟩

theorem Inv.deliver (h : t.Inv ecfg first v) (hfit : TopsFit t.system.server.publisher.published)
    (hless : t.system.server.publisher.published.length + 1 < word32) {chunk : List UInt8} (hne : chunk ≠ [])
    (hchunk : chunk <+: t.link.wire.drop t.link.delivered) :
    ∃ v', Inv ecfg first
      { t with
        client := t.client.bind fun v => v.receive chunk
        link := { t.link with delivered := t.link.delivered + chunk.length } } v' := by
  obtain ⟨items, e, back, hitems, he, hbytes, hfeeds⟩ := h.feed.arrives hless hne hchunk
  obtain ⟨v', rest, hreceive, hfollows, hrest, hbytes'⟩ := h.follows.receive he h.feed.data hfit hitems hbytes
  refine ⟨v', ?_, h.system, hfeeds _ _ rest hrest hbytes', hfollows⟩
  change t.client.bind _ = _
  rw [h.client]
  exact hreceive

theorem Inv.reconnect (h : t.Inv ecfg first v) :
    Inv ecfg first { t with client := some v.connect, link := { unread := v.connect.subscribeFrame } } v.connect := by
  refine ⟨rfl, h.system, h.feed.reconnect le_rfl, ?_⟩
  exact ⟨h.follows.toFollows.setBuf [], h.follows.loud, ⟨h.follows.shows.tops, h.follows.shows.gaps⟩⟩

theorem Inv.step (h : t.Inv ecfg first v) (hsymbols : ecfg.symbols ≤ 2 ^ 16) (hprice : ecfg.maxPrice < 2 ^ 63)
    (hfirst : 1 ≤ first) (a : Action) (hfew : (t.step a).system.server.opened < word32)
    (hless : (t.step a).system.server.publisher.published.length + 1 < word32) : ∃ v', (t.step a).Inv ecfg first v' := by
  cases a with
  | system a =>
      rw [Watch.step] at hfew hless ⊢
      cases hcalls : t.link.calls t.system.server.publisher (t.system.calls a) with
      | none =>
          rw [hcalls] at hfew hless
          exact ⟨v, h⟩
      | some link =>
          rw [hcalls] at hfew hless
          dsimp only at hfew hless ⊢
          rw [t.system.step_publisher] at hless
          exact ⟨v, h.moved hfirst hfew (h.feed.calls (h.pos hfirst) hcalls hless)⟩
  | accept env =>
      rw [Watch.step] at hfew hless ⊢
      cases hfd : accepted? t.system env with
      | none => exact ⟨v, h⟩
      | some fd =>
          rw [hfd] at hfew hless
          dsimp only at hfew hless ⊢
          split
          · rename_i hboth
            rw [if_pos hboth] at hfew hless
            refine ⟨v, h.accept hfirst hfd hboth.1 hboth.2 hfew ?_⟩
            rw [t.system.step_publisher, Publisher.calls_published, List.length_append] at hless
            omega
          · exact ⟨v, h⟩
  | deliver k =>
      rw [Watch.step] at hless ⊢
      dsimp only at hless ⊢
      split
      · exact ⟨v, h⟩
      · rename_i hne
        rw [if_neg hne] at hless
        exact h.deliver (h.topsFit hsymbols hprice) hless hne (List.take_prefix _ _)
  | reconnect =>
      rw [Watch.step, h.client]
      exact ⟨v.connect, h.reconnect⟩

theorem step_system (t : Watch) (a : Action) :
    (t.step a).system = t.system ∨ ∃ b, (t.step a).system = t.system.step b := by
  cases a with
  | system a =>
      rw [Watch.step]
      split
      · exact .inr ⟨a, rfl⟩
      · exact .inl rfl
  | accept env =>
      rw [Watch.step]
      split
      · split
        · exact .inr ⟨.gateway env, rfl⟩
        · exact .inl rfl
      · exact .inl rfl
  | deliver k =>
      rw [Watch.step]
      dsimp only
      split <;> exact .inl rfl
  | reconnect =>
      rw [Watch.step]
      split <;> exact .inl rfl

theorem step_grows (t : Watch) (a : Action) :
    t.system.server.opened ≤ (t.step a).system.server.opened ∧
      t.system.server.publisher.published.length ≤ (t.step a).system.server.publisher.published.length := by
  rcases t.step_system a with hsame | ⟨b, hstep⟩
  · rw [hsame]
    exact ⟨le_rfl, le_rfl⟩
  · rw [hstep]
    refine ⟨(t.system.step_stepped b).opened_le, ?_⟩
    rw [t.system.step_publisher, Publisher.calls_published, List.length_append]
    exact Nat.le_add_right _ _

theorem run_grows (t : Watch) (actions : List Action) :
    t.system.server.opened ≤ (t.run actions).system.server.opened ∧
      t.system.server.publisher.published.length ≤ (t.run actions).system.server.publisher.published.length := by
  induction actions using List.reverseRecOn with
  | nil => exact ⟨le_rfl, le_rfl⟩
  | append_singleton actions a ih =>
      rw [run_concat]
      have hstep := (t.run actions).step_grows a
      exact ⟨ih.1.trans hstep.1, ih.2.trans hstep.2⟩

theorem Inv.run (h : t.Inv ecfg first v) (hsymbols : ecfg.symbols ≤ 2 ^ 16) (hprice : ecfg.maxPrice < 2 ^ 63)
    (hfirst : 1 ≤ first) (actions : List Action) (hfew : (t.run actions).system.server.opened < word32)
    (hless : (t.run actions).system.server.publisher.published.length + 1 < word32) :
    ∃ v', (t.run actions).Inv ecfg first v' := by
  induction actions using List.reverseRecOn with
  | nil => exact ⟨v, h⟩
  | append_singleton actions a ih =>
      rw [run_concat] at hfew hless ⊢
      have hgrows := (t.run actions).step_grows a
      obtain ⟨v', h'⟩ := ih (by omega) (by omega)
      exact h'.step hsymbols hprice hfirst a hfew hless

theorem start_inv {scfg : Server.Config} {ringLog2 listenFd mdListenFd : Nat} {before : List System.Action} {s : System}
    (hs : s = (System.init scfg ecfg ringLog2 listenFd mdListenFd).run before) (hbacklog : 1 ≤ scfg.md.maxBacklog)
    (hfew : s.server.opened < word32) (hless : s.server.publisher.published.length + 1 < word32)
    (hhead : first ≤ s.server.publisher.ring.head + 1) :
    (start s first).Inv ecfg first { nextSeq := first, quiet := false } := by
  have hsystem : s.Inv ecfg := by
    rw [hs] at hfew ⊢
    exact System.run_inv scfg ecfg ringLog2 listenFd mdListenFd before hfew
  obtain ⟨acts, hacts⟩ := (System.init scfg ecfg ringLog2 listenFd mdListenFd).run_publisher before
  have hpublisher : s.server.publisher = (Publisher.run scfg.md acts).1 := by
    have hinit : (Server.init scfg listenFd mdListenFd).publisher = Publisher.init scfg.md := by rw [Server.init_eq]
    rw [hs, hacts, Publisher.run_fst, ← hinit]
    rfl
  refine ⟨rfl, hsystem, ⟨?_, ?_, ?_, ?_, hhead, .queued rfl rfl rfl rfl rfl⟩, ⟨MdStream.follows_start first false, rfl, ?_⟩⟩
  · change s.server.publisher.Inv
    rw [hpublisher] at hless ⊢
    exact Publisher.run_inv scfg.md hbacklog acts hless
  · change s.server.publisher.Distinct
    rw [hpublisher]
    exact Publisher.run_distinct scfg.md acts
  · change 1 ≤ s.server.publisher.cfg.maxBacklog
    rw [hpublisher, Publisher.run_cfg]
    exact hbacklog
  · intro m hm
    obtain ⟨e, -, he⟩ := List.mem_filterMap.1 (hsystem.published_prefix.subset hm)
    exact isData_of_marketData? he
  · exact ⟨fun k => rfl, rfl⟩

end Watch

/-! ### The last report -/

theorem getLast?_filterMap_of_increasing {α : Type} {f : Nat → Option α} {xs : List Nat} (h : xs.Pairwise (· < ·)) {q : Nat}
    {y : α} (hq : q ∈ xs) (hf : f q = some y) (hlater : ∀ r ∈ xs, q < r → f r = none) :
    (xs.filterMap f).getLast? = some y := by
  obtain ⟨before, after, rfl⟩ := List.append_of_mem hq
  have hafter : after.filterMap f = [] := by
    rw [List.filterMap_eq_nil_iff]
    intro r hr
    have hlt := List.rel_of_pairwise_cons (List.pairwise_append.1 h).2.1 hr
    exact hlater r (List.mem_append_right _ (List.mem_cons_of_mem _ hr)) hlt
  rw [List.filterMap_append, List.filterMap_cons, hf, hafter, List.getLast?_concat]

/-- The report with the number `q` is the last one of a symbol among the messages with numbers below `n`. -/
structure LastReport (k : Nat) (ms : List Message) (n q : Nat) : Prop where
  pos : 1 ≤ q
  lt : q < n
  reports : ∃ m, ms[q - 1]? = some m ∧ m.topOf k ≠ none
  last : ∀ r, q < r → r < n → ∀ m, ms[r - 1]? = some m → m.topOf k = none

theorem lastTop_take {k : Nat} {ms : List Message} {n : Nat} (hn : n ≤ ms.length) :
    (lastTop k (ms.take n) = {} ∧ ∀ m ∈ ms.take n, m.topOf k = none) ∨
      ∃ q, LastReport k ms (n + 1) q ∧ ms[q - 1]?.bind (Message.topOf k) = some (lastTop k (ms.take n)) := by
  rw [lastTop]
  cases hlast : ((ms.take n).filterMap (Message.topOf k)).getLast? with
  | none =>
      rw [List.getLast?_eq_none_iff] at hlast
      exact .inl ⟨rfl, List.filterMap_eq_nil_iff.1 hlast⟩
  | some top =>
      right
      obtain ⟨tops, htops⟩ := List.getLast?_eq_some_iff.1 hlast
      obtain ⟨early, late, hsplit, -, hlate⟩ := List.filterMap_eq_append_iff.1 htops
      obtain ⟨silent, m, after, rfl, -, hm, hafter⟩ := List.filterMap_eq_cons_iff.1 hlate
      have hlength := congrArg List.length hsplit
      rw [List.length_take_of_le hn, List.length_append, List.length_append, List.length_cons] at hlength
      have hat : ∀ i, i < n → ms[i]? = (early ++ (silent ++ m :: after))[i]? := by
        intro i hi
        rw [← hsplit, List.getElem?_take_of_lt hi]
      have hq : ms[early.length + silent.length]? = some m := by
        rw [hat _ (by omega), ← List.append_assoc, ← List.length_append, List.getElem?_append_right le_rfl]
        simp
      refine ⟨early.length + silent.length + 1, ⟨by omega, by omega, ⟨m, hq, by rw [hm]; exact Option.some_ne_none _⟩, ?_⟩, ?_⟩
      · intro r hlt hr m' hm'
        rw [hat _ (by omega), ← List.append_assoc, List.getElem?_append_right (by rw [List.length_append]; omega),
          List.length_append, List.getElem?_cons] at hm'
        rw [if_neg (by omega)] at hm'
        exact List.filterMap_eq_nil_iff.1 hafter m' (List.mem_of_getElem? hm')
      · rw [Nat.add_sub_cancel, hq, Option.bind_some, hm]
        rfl

namespace Viewer

variable {first : Nat} {ms : List Message} {v : Viewer}

/-- The top of a symbol's book on the screen, the empty one before there is any. -/
def shownTop (v : Viewer) (k : Nat) : TopOfBook := ((v.lines.filterMap (Line.topOf k)).getLast?).getD {}

/-- A number from before the script's start, or one that a GAP line tells as lost. -/
def Missed (first : Nat) (v : Viewer) (q : Nat) : Prop :=
  q < first ∨ ∃ a b : Int, Line.gap a b ∈ v.lines ∧ a ≤ q ∧ q ≤ b

theorem Shows.gap_mem (h : v.Shows ms) {g : Nat × Nat} (hg : g ∈ v.holes) : Line.gap g.1 (g.2 - 1) ∈ v.lines := by
  have hmem : Line.gap g.1 (g.2 - 1) ∈ v.lines.filter fun line => !line.isData := by
    rw [h.gaps]
    exact List.mem_map_of_mem hg
  exact List.mem_of_mem_filter hmem

/-- The screen shows the last report, unless that is missed. -/
theorem Follows.shownTop_eq (h : v.Follows first ms) (hfirst : 1 ≤ first) (hle : v.nextSeq ≤ ms.length + 1) (k : Nat) :
    v.shownTop k = lastTop k (ms.take (v.nextSeq - 1)) ∨ ∃ q, v.Missed first q ∧ LastReport k ms v.nextSeq q := by
  have hstart := h.toFollows.le
  have hnext : v.nextSeq - 1 + 1 = v.nextSeq := by omega
  have hlast := lastTop_take (k := k) (show v.nextSeq - 1 ≤ ms.length by omega)
  rw [hnext] at hlast
  rw [shownTop, h.shows.tops]
  rcases hlast with ⟨hempty, hnone⟩ | ⟨q, hq, htop⟩
  · left
    rw [hempty, List.filterMap_eq_nil_iff.2]
    · rfl
    · intro q hq
      have hlt := h.toFollows.lt_nextSeq hq
      have hge := h.toFollows.start_le hq
      cases hm : ms[q - 1]? with
      | none => rfl
      | some m =>
          rw [← List.getElem?_take_of_lt (show q - 1 < v.nextSeq - 1 by omega)] at hm
          exact hnone m (List.mem_of_getElem? hm)
  · by_cases hbefore : q < first
    · exact .inr ⟨q, .inl hbefore, hq⟩
    rcases h.toFollows.once (Nat.not_lt.1 hbefore) hq.lt with ⟨hcount, -⟩ | ⟨-, hcount⟩
    · left
      rw [getLast?_filterMap_of_increasing h.toFollows.increasing (List.count_pos_iff.1 (by omega)) htop]
      · rfl
      · intro r hr hlt
        cases hm : ms[r - 1]? with
        | none => rfl
        | some m => exact hq.last r hlt (h.toFollows.lt_nextSeq hr) m hm
    · obtain ⟨g, hg, hin⟩ := List.countP_pos_iff.1 (show 0 < v.holes.countP _ by rw [hcount]; exact Nat.one_pos)
      rw [decide_eq_true_eq] at hin
      exact .inr ⟨q, .inr ⟨g.1, g.2 - 1, h.shows.gap_mem hg, by omega, by omega⟩, hq⟩

theorem Shows.exists_message (h : v.Shows ms) {line : Line} (hline : line ∈ v.lines) {k : Nat} {top : TopOfBook}
    (htop : line.topOf k = some top) : ∃ m ∈ ms, m.topOf k = some top := by
  have hmem : top ∈ v.lines.filterMap (Line.topOf k) := List.mem_filterMap.2 ⟨line, hline, htop⟩
  rw [h.tops] at hmem
  obtain ⟨q, -, hq⟩ := List.mem_filterMap.1 hmem
  obtain ⟨m, hm, htop⟩ := Option.bind_eq_some_iff.1 hq
  exact ⟨m, List.mem_of_getElem? hm, htop⟩

end Viewer

namespace Watch

/-- What the screen tells about the books. -/
structure Truthful (ecfg : Engine.Config) (first : Nat) (t : Watch) (v : Viewer) : Prop where
  /-- A line about the top of a book shows it as it was after some of the commands. -/
  history : ∀ line ∈ v.lines, ∀ k top, line.topOf k = some top →
    ∃ past, past <+: t.system.processed ∧ top = (((Engine.init ecfg).run past).books k).top
  /-- The last such line of a symbol shows what the engine had reported last when the script's number was its next one. -/
  last : ∀ k, v.shownTop k = lastTop k ((t.system.emitted.filterMap Event.marketData?).take (v.nextSeq - 1)) ∨
    ∃ q, v.Missed first q ∧ LastReport k (t.system.emitted.filterMap Event.marketData?) v.nextSeq q
  /-- A script that has caught up shows the books as they are. -/
  current : v.nextSeq = (t.system.emitted.filterMap Event.marketData?).length + 1 →
    ∀ k, v.shownTop k = (t.system.engine.books k).top ∨
      ∃ q, v.Missed first q ∧ LastReport k (t.system.emitted.filterMap Event.marketData?) v.nextSeq q
  /-- All other lines are about gaps, one for each. -/
  others : v.lines.filter (fun line => !line.isData) = v.holes.map fun g => .gap g.1 (g.2 - 1)

theorem Inv.truthful {ecfg : Engine.Config} {first : Nat} {t : Watch} {v : Viewer} (h : t.Inv ecfg first v)
    (hfirst : 1 ≤ first) : t.Truthful ecfg first v := by
  have hbegin : t.system.server.publisher.published <+: t.system.emitted.filterMap Event.marketData? := by
    rw [h.system.log]
    exact h.system.published_prefix
  have hle := h.nextSeq_le
  have hfollows : v.Follows first (t.system.emitted.filterMap Event.marketData?) := by
    obtain ⟨more, hmore⟩ := hbegin
    rw [← hmore]
    exact h.follows.mono hfirst hle more
  have hlast := hfollows.shownTop_eq hfirst (hle.trans (Nat.succ_le_succ hbegin.length_le))
  refine ⟨?_, hlast, ?_, hfollows.shows.gaps⟩
  · intro line hline k top htop
    obtain ⟨m, hm, htop⟩ := hfollows.shows.exists_message hline htop
    rw [h.system.log] at hm
    exact (Engine.topOf_log hm htop).2
  · intro hcurrent k
    have hbook : lastTop k (t.system.emitted.filterMap Event.marketData?) = (t.system.engine.books k).top := by
      rw [h.system.log, h.system.engine]
      exact Engine.lastTop_log t.system.processed k
    rw [← hbook]
    have hk := hlast k
    rw [hcurrent, Nat.add_sub_cancel, List.take_length, ← hcurrent] at hk
    exact hk

/-- The script never fails, and what it prints is true: whatever the sessions send and however the rings, the replay ring and the connections delay, cut or lose the stream. -/
theorem run_shows (scfg : Server.Config) (ecfg : Engine.Config) (ringLog2 listenFd mdListenFd first : Nat)
    (before : List System.Action) (actions : List Action) (hbacklog : 1 ≤ scfg.md.maxBacklog)
    (hsymbols : ecfg.symbols ≤ 2 ^ 16) (hprice : ecfg.maxPrice < 2 ^ 63) (hfirst : 1 ≤ first) :
    let s := (System.init scfg ecfg ringLog2 listenFd mdListenFd).run before
    let t := (start s first).run actions
    first ≤ s.server.publisher.ring.head + 1 → t.system.server.opened < 2 ^ 32 →
      t.system.server.publisher.published.length < 2 ^ 32 - 1 → ∃ v, t.client = some v ∧ t.Truthful ecfg first v := by
  intro s t hhead hfew hless
  have hword : word32 = 2 ^ 32 := rfl
  have hgrows : s.server.opened ≤ t.system.server.opened ∧
      s.server.publisher.published.length ≤ t.system.server.publisher.published.length := (start s first).run_grows actions
  have hstart := start_inv (s := s) rfl hbacklog (by omega) (by omega) hhead
  have hroom : t.system.server.publisher.published.length + 1 < word32 := by omega
  obtain ⟨v, h⟩ := hstart.run hsymbols hprice hfirst actions hfew hroom
  exact ⟨v, h.client, h.truthful hfirst⟩

/-- A session places two orders. -/
def twoOrders : List System.Action :=
  let order (frame : List UInt8) : List System.Action :=
    [.gateway { polled := some [{ fd := 5, readable := true }] }, .gateway { reads := [.bytes frame] }, .gateway {},
      .gateway {}, .engine 7, .engine 7, .engine 7, .engine 7, .gateway {}, .gateway {}, .gateway {}, .gateway {},
      .gateway { writes := fun _ => [.wrote 100] }]
  [.gateway { polled := some [{ fd := 3, readable := true }] }, .gateway {}, .gateway { accepted := .connected 5 },
    .gateway {}, .gateway {}, .gateway {}, .gateway {}] ++
    order ((Request.newOrder ⟨1, 0, 0, 0, 0, 5, 1⟩).make 1) ++ order ((Request.newOrder ⟨2, 0, 0, 0, 0, 6, 2⟩).make 2)

/-- The script is accepted, subscribes from the first frame and gets what is left. -/
def subscribeFromOne : List Action :=
  [.system (.gateway { polled := some [{ fd := 4, readable := true }] }), .system (.gateway {}),
    .accept { accepted := .connected 6 }, .system (.gateway {}), .system (.gateway {}), .system (.gateway {}),
    .system (.gateway {}), .system (.gateway { polled := some [{ fd := 6, readable := true }] }),
    .system (.gateway { reads := [.bytes (MdStream.subscribeFrame { nextSeq := 1 })] }), .system (.gateway {}),
    .system (.gateway {}), .system (.gateway { writes := fun _ => [.wrote 100] }), .deliver 30, .deliver 100]

/-- The replay ring holds one frame: the script is told that the first is lost and shows the second, which is the book. -/
theorem run_shows_lapped :
    let s := (System.init { md := { ringLog2 := 0 } } { maxPrice := 10, maxOrders := 4 } 2 3 4).run twoOrders
    let t := (start s 1).run subscribeFromOne
    1 ≤ s.server.publisher.ring.head + 1 ∧ t.system.server.opened < 2 ^ 32 ∧
      t.system.server.publisher.published.length < 2 ^ 32 - 1 ∧
      (∃ v, t.client = some v ∧ t.Truthful { maxPrice := 10, maxOrders := 4 } 1 v) ∧
      t.client.map (fun v => v.lines) = some [.gap 1 1, .top 2 0 2 6 0 (-1)] ∧
      (t.system.engine.books 0).top = ⟨6, -1, 2, 0⟩ := by
  intro s t
  have hhead : 1 ≤ s.server.publisher.ring.head + 1 := Nat.le_add_left 1 _
  have hfew : t.system.server.opened < 2 ^ 32 := by decide +kernel
  have hless : t.system.server.publisher.published.length < 2 ^ 32 - 1 := by decide +kernel
  exact ⟨hhead, hfew, hless,
    run_shows { md := { ringLog2 := 0 } } { maxPrice := 10, maxOrders := 4 } 2 3 4 1 twoOrders subscribeFromOne (by decide)
      (by decide) (by decide) le_rfl hhead hfew hless, by decide +kernel, by decide +kernel⟩

end Watch

end Matchbox
