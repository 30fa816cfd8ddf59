import Matchbox.Stream.Follow

/-!
# Resumable delivery

A publisher, one client and the connection between them. The client is a parameter, a program that subscribes and reads; `mdstream.py` is one, and `run_md` another. It may give the connection up after any byte and make a new one, which asks for the client's next sequence number; the publisher may drop it at any time, and is called in any order and with any answers of the kernel. All other subscribers do what they like. TCP is the assumption that a connection delivers a beginning of the bytes written to it, in both directions.

A client whose account of the stream every piece of it keeps has a right account in every run (`Net.run_account`). `Net.run_resumes` says what that means for `mdstream.py`: what it has handled and what it was told is lost make up all sequence numbers from its first on, once each, and it never notices a jump.
-/

namespace Matchbox

open Wire LittleEndian

/-! ### The system -/

inductive Phase where
  /-- Connected, and waiting to be accepted. -/
  | queued
  /-- A subscriber of the publisher. -/
  | accepted (fd : Nat)
  /-- Dropped by the publisher. -/
  | closed
deriving DecidableEq

/-- The client's connection. -/
structure Link where
  phase : Phase := .queued
  /-- What the client has sent and the publisher has not read. -/
  unread : List UInt8
  /-- What the publisher has written. -/
  wire : List UInt8 := []
  /-- How many of these bytes have reached the client. -/
  delivered : Nat := 0

/-- The bytes that a call reads from a descriptor. -/
def Publisher.Action.reads (fd : Nat) : Publisher.Action → List UInt8
  | .onReadable fd' results => if fd' = fd then received results else []
  | _ => []

/-- What a call that turns `p` into `q` does to the connection. -/
def Link.call (l : Link) (p q : Publisher) (a : Publisher.Action) : Link :=
  match l.phase with
  | .accepted fd =>
      -- the subscriber is among those that the call dropped, or still there
      let conn := (q.gone.drop p.gone.length ++ q.subs).find? fun s => s.fd == fd
      { phase := if q.isSubscriber fd then .accepted fd else .closed
        unread := l.unread.drop (a.reads fd).length
        wire := conn.elim l.wire fun s => s.sent
        delivered := l.delivered }
  | _ => l

/-- The calls that can happen: data is published, and the client's descriptor reads what the client has sent. -/
def Link.permits (l : Link) (a : Publisher.Action) : Bool :=
  a.published.all Message.isData &&
    match l.phase with
    | .accepted fd => (a.reads fd).isPrefixOf l.unread
    | _ => true

/-- A program that follows the stream over one connection after the other. -/
structure Subscribing (γ : Type) where
  /-- What it does with the bytes that it receives. -/
  receive : γ → List UInt8 → Option γ
  /-- It gives its connection up and makes a new one. -/
  reconnect : γ → γ
  /-- The Subscribe that it sends. -/
  request : γ → List UInt8

/-- A publisher, a client and the connection between them. -/
structure Net {γ : Type} (k : Subscribing γ) where
  server : Publisher × Poller
  /-- Gone after an exception. -/
  client : Option γ
  link : Link

namespace Net

inductive Action where
  /-- A call into the publisher. -/
  | call (a : Publisher.Action)
  /-- The publisher accepts the client's connection. -/
  | accept (fd : Nat)
  /-- The client receives at most `n` bytes. -/
  | deliver (n : Nat)
  /-- The client closes the connection and makes a new one. -/
  | reconnect

variable {γ : Type} {k : Subscribing γ}

/-- One step, if it can happen. -/
def step (n : Net k) : Action → Option (Net k)
  | .call a =>
      let server := Publisher.step n.server a
      if n.link.permits a then some { n with server := server, link := n.link.call n.server.1 server.1 a } else none
  | .accept fd =>
      if n.link.phase = .queued ∧ n.server.1.isSubscriber fd = false then
        some { n with server := n.server.1.subscribe n.server.2 fd, link := { n.link with phase := .accepted fd } }
      else none
  | .deliver size =>
      let chunk := (n.link.wire.drop n.link.delivered).take (min size 65536)
      if chunk = [] then none
      else
        n.client.map fun c =>
          { n with client := k.receive c chunk, link := { n.link with delivered := n.link.delivered + chunk.length } }
  | .reconnect =>
      n.client.map fun c =>
        { n with client := some (k.reconnect c), link := { unread := k.request (k.reconnect c) } }

def run (n : Net k) : List Action → Option (Net k)
  | [] => some n
  | a :: actions => (n.step a).bind fun n => n.run actions

/-- A client that has connected and was not yet accepted. -/
def start (k : Subscribing γ) (server : Publisher × Poller) (c : γ) : Net k where
  server := server
  client := some c
  link := { unread := k.request c }

end Net

/-- `connect`, once it has a connection. -/
def MdStream.connect (c : MdStream) : MdStream := { c with buf := [] }

/-- `mdstream.py`. -/
def MdStream.program : Subscribing MdStream where
  receive := receive
  reconnect := connect
  request := subscribeFrame

/-! ### What a call writes -/

namespace Subscriber

variable {ring : ReplayRing} {published : List Message} {s s' s'' : Subscriber}

/-- Nothing is read, and what is appended continues the stream at the cursor. -/
structure Carries (ring : ReplayRing) (published : List Message) (s s' : Subscriber) : Prop where
  rx : s'.rx = s.rx
  subscribed : s'.subscribed = s.subscribed
  sent : s.sent <+: s'.sent
  stream : ∃ more, s'.appended = s.appended ++ more.map Prod.snd ∧
    Streams ring.capacity published s.nextSeq more s'.nextSeq

theorem Carries.refl (s : Subscriber) : s.Carries ring published s :=
  ⟨rfl, rfl, List.prefix_rfl, [], (List.append_nil _).symm, .nil⟩

theorem Carries.trans (h : s.Carries ring published s') (h' : s'.Carries ring published s'') :
    s.Carries ring published s'' := by
  obtain ⟨more, happended, hstream⟩ := h.stream
  obtain ⟨more', happended', hstream'⟩ := h'.stream
  refine ⟨h'.rx.trans h.rx, h'.subscribed.trans h.subscribed, h.sent.trans h'.sent, more ++ more', ?_,
    hstream.append hstream'⟩
  rw [happended', happended, List.map_append, List.append_assoc]

theorem Extended.carries (h : s.Extended ring published s') : s.Carries ring published s' := by
  cases h with
  | clock now => exact ⟨rfl, rfl, List.prefix_rfl, [], (List.append_nil _).symm, .nil⟩
  | frame hsub hstream hcursor hasked now => exact ⟨rfl, rfl, List.prefix_rfl, _, rfl, hstream⟩

theorem carries_flushAndArm (s : Subscriber) (poller : Poller) (writes : List WriteResult) (stalled : Nat) :
    s.Carries ring published
      { s with toConn := (s.toConn.flushAndArm poller writes).1, stalledSinceNs := stalled } := by
  refine ⟨s.toConn.flushAndArm_rx poller writes, rfl, s.toConn.flushAndArm_sent poller writes, [], ?_, .nil⟩
  rw [List.map_nil, List.append_nil]
  exact s.toConn.flushAndArm_appended poller writes

theorem Tracks.pumpTx_carries {cfg : Publisher.Config} (h : s.Tracks ring published) (hring : ring.Holds published)
    (hfew : published.length + 1 < word32) (hbacklog : 1 ≤ cfg.maxBacklog) (now : Nat) :
    s.Carries ring published (s.pumpTx cfg ring now) := by
  have hhead : ring.head + 1 < word32 := by
    rw [hring.head]
    exact hfew
  have happends := s.pumpTx_appends cfg now hhead
  generalize s.pumpTx cfg ring now = s' at happends
  have hboth : s'.Tracks ring published ∧ s.Carries ring published s' := by
    induction happends with
    | refl => exact ⟨h, .refl s⟩
    | tail _ happended ih =>
        have hextended := ih.1.extended hring hfew hbacklog happended
        exact ⟨ih.1.extend hextended, ih.2.trans hextended.carries⟩
  exact hboth.2

theorem Tracks.carries {p : Publisher} (h : s.Tracks p.ring p.published) (hring : p.ring.Holds p.published)
    (hfew : p.published.length + 1 < word32) (hbacklog : 1 ≤ p.cfg.maxBacklog) {a : Publisher.Action}
    (ha : ∀ reads, a ≠ .onReadable s.fd reads) : s.Carries p.ring p.published (s.after p a).1 := by
  cases a with
  | publish m => exact .refl s
  | subscribe fd => exact .refl s
  | onReadable fd reads =>
      rw [Subscriber.after, Subscriber.only, if_neg fun heq => ha reads (by rw [heq])]
      exact .refl s
  | onWritable fd writes =>
      rw [Subscriber.after, Subscriber.only]
      split
      · exact s.carries_flushAndArm Poller.init writes s.stalledSinceNs
      · exact .refl s
  | flushAll now writes =>
      rw [Subscriber.after]
      split
      · exact .refl s
      · obtain ⟨stalled, hpump⟩ := s.pump_eq p.cfg p.ring now Poller.init (writes s.fd)
        rw [afterPump, hpump]
        exact (h.pumpTx_carries hring hfew hbacklog now).trans (carries_flushAndArm _ _ _ stalled)

/-- A request for a frame of the stream so far, or the next one, sets the cursor to it. -/
theorem start_eq (hpos : 1 ≤ subscribeFrom s.rx) (hle : subscribeFrom s.rx ≤ ring.head + 1) (hhead : ring.head + 1 < word32) :
    s.start ring =
      { s with rx := [], subscribed := true, nextSeq := subscribeFrom s.rx, startSeq := subscribeFrom s.rx } := by
  have hnext : (ring.head + 1) % word32 = ring.head + 1 := Nat.mod_eq_of_lt hhead
  have hfirst : subscribeFrom s.rx % word32 = subscribeFrom s.rx := Nat.mod_eq_of_lt (hle.trans_lt hhead)
  rw [start]
  dsimp only
  rw [hnext, if_neg (by omega), hfirst]

theorem Tracks.silent_appended (h : s.Tracks ring published) (hsub : s.subscribed = false) : s.appended = [] := by
  rw [h.appended, h.silent hsub, List.map_nil]

end Subscriber

namespace Publisher

theorem step_capacity (r : Publisher × Poller) (a : Action) : (step r a).1.ring.capacity = r.1.ring.capacity := by
  by_cases ha : ∃ m, a = .publish m
  · obtain ⟨m, rfl⟩ := ha
    rfl
  · rw [(step_same r a fun m hm => ha ⟨m, hm⟩).ring]

end Publisher

/-! ### The client's connection -/

/-- The client's connection as a subscriber: it waits for the rest of the request, or streams from the client's number on. -/
structure Reads (p : Publisher) (next : Nat) (buf : List UInt8) (l : Link) (s : Subscriber) : Prop where
  wire : l.wire = s.sent
  delivered : l.delivered ≤ s.sent.length
  asks : s.subscribed = false → s.rx ++ l.unread = makeSubscribe next ∧ buf = []
  /-- What the client has not handled, whether it is in its buffer, on the wire or in `tx`. -/
  streams : s.subscribed = true → l.unread = [] ∧ ∃ items,
    Streams p.ring.capacity p.published next items s.nextSeq ∧
      buf ++ s.appended.flatten.drop l.delivered = (items.map Prod.snd).flatten

/-- The client's connection in each of its phases. -/
inductive Linked (p : Publisher) (next : Nat) (buf : List UInt8) (l : Link) : Prop
  | queued (hphase : l.phase = .queued) (hbuf : buf = []) (hwire : l.wire = []) (hdelivered : l.delivered = 0)
      (hunread : l.unread = makeSubscribe next)
  | accepted {s : Subscriber} (hphase : l.phase = .accepted s.fd) (hs : s ∈ p.subs) (hreads : Reads p next buf l s)
  | closed {items : List (Nat × List UInt8)} {e : Nat} {back : List UInt8} (hphase : l.phase = .closed)
      (hstream : Streams p.ring.capacity p.published next items e) (he : e ≤ p.ring.head + 1)
      (hbytes : buf ++ l.wire.drop l.delivered ++ back = (items.map Prod.snd).flatten)

section Link

variable {p q : Publisher} {r : Publisher × Poller} {next : Nat} {buf : List UInt8} {l : Link} {s s' : Subscriber}

theorem Reads.mono (h : Reads p next buf l s) (hcapacity : q.ring.capacity = p.ring.capacity) {more : List Message}
    (hpublished : q.published = p.published ++ more) : Reads q next buf l s := by
  refine ⟨h.wire, h.delivered, h.asks, fun hsub => ?_⟩
  obtain ⟨hunread, items, hitems, hbytes⟩ := h.streams hsub
  rw [hcapacity, hpublished]
  exact ⟨hunread, items, hitems.mono more, hbytes⟩

theorem Reads.closed (h : Reads p next buf l s) (htracks : s.Tracks p.ring p.published) (hc : next ≤ p.ring.head + 1)
    (hphase : l.phase = .closed) : Linked p next buf l := by
  have hconserved := htracks.conserved.bytes
  cases hsub : s.subscribed with
  | false =>
      rw [htracks.silent_appended hsub] at hconserved
      have hsent : s.sent = [] := (List.append_eq_nil_iff.1 hconserved).1
      refine @Linked.closed p next buf l [] _ [] hphase .nil hc ?_
      rw [h.wire, hsent, (h.asks hsub).2]
      simp
  | true =>
      obtain ⟨-, items, hitems, hbytes⟩ := h.streams hsub
      refine @Linked.closed p next buf l _ _ (s.tx.drop s.txOff) hphase hitems (htracks.cursor hsub) ?_
      rw [← hbytes, ← hconserved, List.drop_append_of_le_length h.delivered, h.wire, List.append_assoc]

theorem Reads.carry (h : Reads p next buf l s) (htracks : s.Tracks p.ring p.published)
    (hcarries : s.Carries p.ring p.published s') {phase : Phase} :
    Reads p next buf { l with phase := phase, wire := s'.sent } s' := by
  have hlength := hcarries.sent.length_le
  refine ⟨rfl, h.delivered.trans hlength, fun hsub => ?_, fun hsub => ?_⟩
  · rw [hcarries.subscribed] at hsub
    rw [hcarries.rx]
    exact h.asks hsub
  · rw [hcarries.subscribed] at hsub
    obtain ⟨hunread, items, hitems, hbytes⟩ := h.streams hsub
    obtain ⟨more, happended, hmore⟩ := hcarries.stream
    refine ⟨hunread, items ++ more, hitems.append hmore, ?_⟩
    have hle : l.delivered ≤ s.appended.flatten.length := by
      rw [← htracks.conserved.bytes, List.length_append]
      exact h.delivered.trans (Nat.le_add_right _ _)
    rw [happended, List.flatten_append, List.drop_append_of_le_length hle, ← List.append_assoc, hbytes, List.map_append,
      List.flatten_append]

/-- The publisher reads from the connection: more of the request, all of it, or nothing. -/
theorem Reads.read (h : Reads p next buf l s) (htracks : s.Tracks p.ring p.published) (hring : p.ring.Holds p.published)
    (hfew : p.published.length + 1 < word32) (hpos : 1 ≤ next) (hc : next ≤ p.ring.head + 1)
    {reads : List ReadResult} (hpermits : received reads <+: l.unread) {phase : Phase} :
    Reads p next buf
      { l with
        phase := phase
        unread := l.unread.drop (received reads).length
        wire := (s.afterReadable p.ring reads).1.sent }
      (s.afterReadable p.ring reads).1 := by
  obtain ⟨later, hlater⟩ := hpermits
  have hdrop : l.unread.drop (received reads).length = later := by rw [← hlater, List.drop_left]
  rw [hdrop]
  have hread := s.readLoop_received reads
  rcases s.afterReadable_cases p.ring reads with ⟨-, hnone⟩ | ⟨hasked, hsub, haccepted⟩
  · rw [hnone, hread]
    refine ⟨rfl, h.delivered, fun hsub => ?_, fun hsub => ?_⟩
    · obtain ⟨hrequest, hbuf⟩ := h.asks hsub
      refine ⟨?_, hbuf⟩
      rw [List.append_assoc, hlater]
      exact hrequest
    · obtain ⟨hunread, hstreams⟩ := h.streams hsub
      rw [hunread] at hlater
      exact ⟨(List.append_eq_nil_iff.1 hlater).2, hstreams⟩
  · rw [haccepted, hread]
    rw [hread] at hsub
    obtain ⟨hrequest, hbuf⟩ := h.asks hsub
    rw [← hlater, ← List.append_assoc] at hrequest
    -- a Subscribe is accepted once it is complete, and then nothing is left to read
    have hcomplete : MsgType.subscribe.size ≤ (s.rx ++ received reads).length := by
      rw [Subscriber.request?] at hasked
      split at hasked
      · rename_i hall
        rw [hread] at hall
        exact hall.2.1
      · cases hasked
    have hnothing : later = [] := by
      have hlength := congrArg List.length hrequest
      rw [List.length_append, length_makeSubscribe] at hlength
      exact List.eq_nil_of_length_eq_zero (by omega)
    rw [hnothing, List.append_nil] at hrequest
    have hhead := hring.head
    have hfirst : subscribeFrom (s.rx ++ received reads) = next := by
      rw [hrequest, subscribeFrom_makeSubscribe]
      apply Nat.mod_eq_of_lt
      simp only [word32] at hfew
      omega
    have hstart := @Subscriber.start_eq p.ring { s with rx := s.rx ++ received reads }
      (by rw [hfirst]; exact hpos) (by rw [hfirst]; exact hc) (by omega)
    rw [hstart, hfirst, hnothing]
    refine ⟨rfl, h.delivered, fun hfalse => (by cases hfalse), fun _ => ⟨rfl, [], .nil, ?_⟩⟩
    change buf ++ s.appended.flatten.drop l.delivered = []
    rw [hbuf, htracks.silent_appended hsub]
    simp

theorem Reads.after (h : Reads p next buf l s) (hinv : p.Inv) (hs : s ∈ p.subs) (hbacklog : 1 ≤ p.cfg.maxBacklog)
    (hfew : p.published.length + 1 < word32) (hpos : 1 ≤ next) (hc : next ≤ p.ring.head + 1)
    {a : Publisher.Action} (hpermits : a.reads s.fd <+: l.unread) {phase : Phase} :
    Reads p next buf
      { l with
        phase := phase
        unread := l.unread.drop (a.reads s.fd).length
        wire := (s.after p a).1.sent }
      (s.after p a).1 := by
  have htracks := hinv.subs s (List.mem_append_left _ hs)
  by_cases hown : ∃ results, a = .onReadable s.fd results
  · obtain ⟨results, rfl⟩ := hown
    have hreads : Publisher.Action.reads s.fd (.onReadable s.fd results) = received results := if_pos rfl
    have hafter : s.after p (.onReadable s.fd results) = s.afterReadable p.ring results := if_pos rfl
    rw [hreads] at hpermits ⊢
    rw [hafter]
    exact h.read htracks hinv.ring hfew hpos hc hpermits
  · have hother : ∀ results, a ≠ .onReadable s.fd results := fun results heq => hown ⟨results, heq⟩
    have hreads : a.reads s.fd = [] := by
      cases a with
      | onReadable fd results => exact if_neg fun heq => hother results (by rw [heq])
      | publish m => rfl
      | subscribe fd => rfl
      | onWritable fd writes => rfl
      | flushAll now writes => rfl
    rw [hreads]
    exact h.carry htracks (htracks.carries hinv.ring hfew hbacklog hother)

/-- A call keeps the connection's account, whichever subscribers it is about. -/
theorem Linked.call (h : Linked r.1 next buf l) (hinv : r.1.Inv) (hdistinct : r.1.Distinct) (hbacklog : 1 ≤ r.1.cfg.maxBacklog)
    (hpos : 1 ≤ next) (hc : next ≤ r.1.ring.head + 1) {a : Publisher.Action} (hpermits : l.permits a = true)
    (hfew : (Publisher.step r a).1.published.length + 1 < word32) :
    Linked (Publisher.step r a).1 next buf (l.call r.1 (Publisher.step r a).1 a) := by
  have hnext := hinv.step hdistinct hbacklog a hfew
  have hcapacity := Publisher.step_capacity r a
  have hpublished := Publisher.step_published r a
  have hlength : (Publisher.step r a).1.published.length = r.1.published.length + a.published.length := by
    rw [hpublished, List.length_append]
  have hhead : r.1.ring.head ≤ (Publisher.step r a).1.ring.head := by
    rw [hinv.ring.head, hnext.ring.head]
    omega
  cases h with
  | queued hphase hbuf hwire hdelivered hunread =>
      have hsame : l.call r.1 (Publisher.step r a).1 a = l := by rw [Link.call, hphase]
      rw [hsame]
      exact .queued hphase hbuf hwire hdelivered hunread
  | closed hphase hstream he hbytes =>
      have hsame : l.call r.1 (Publisher.step r a).1 a = l := by rw [Link.call, hphase]
      rw [hsame]
      refine .closed hphase ?_ (he.trans (Nat.succ_le_succ hhead)) hbytes
      rw [hcapacity, hpublished]
      exact hstream.mono _
  | @accepted s hphase hs hreads =>
      obtain ⟨hfind, hkept⟩ := Publisher.step_conn hdistinct a hs
      have hlast : a.reads s.fd <+: l.unread := by
        rw [Link.permits, hphase, Bool.and_eq_true] at hpermits
        exact List.isPrefixOf_iff_prefix.1 hpermits.2
      have hafter : Reads (Publisher.step r a).1 next buf (l.call r.1 (Publisher.step r a).1 a) (s.after r.1 a).1 := by
        rw [Link.call, hphase]
        dsimp only
        rw [hfind, Option.elim_some]
        exact (hreads.after hinv hs hbacklog (by omega) hpos hc hlast).mono hcapacity hpublished
      have hphase' : (l.call r.1 (Publisher.step r a).1 a).phase =
          if (s.after r.1 a).2 then .accepted s.fd else .closed := by
        rw [Link.call, hphase]
        dsimp only
        rw [hkept]
      cases hstays : (s.after r.1 a).2 with
      | true =>
          rw [hstays, if_pos rfl, ← s.after_fd r.1 a] at hphase'
          exact .accepted hphase' (Publisher.mem_subs_of_kept hdistinct a hs hstays) hafter
      | false =>
          rw [hstays, if_neg Bool.false_ne_true] at hphase'
          exact hafter.closed (hnext.subs _ (Publisher.mem_after hdistinct a hs)) (hc.trans (Nat.succ_le_succ hhead)) hphase'

theorem append_drop_of_prefix {xs chunk : List UInt8} {d : Nat} (h : chunk <+: xs.drop d) :
    chunk ++ xs.drop (d + chunk.length) = xs.drop d := by
  obtain ⟨later, hlater⟩ := h
  rw [← List.drop_drop, ← hlater, List.drop_left]

/-- Bytes that arrive continue the stream at the client's number, and whatever client has taken them is linked again. -/
theorem Linked.arrives (h : Linked p next buf l) (hinv : p.Inv) {chunk : List UInt8} (hne : chunk ≠ [])
    (hchunk : chunk <+: l.wire.drop l.delivered) :
    ∃ items e back, Streams p.ring.capacity p.published next items e ∧ e ≤ p.ring.head + 1 ∧
      buf ++ chunk ++ back = (items.map Prod.snd).flatten ∧
      ∀ next' buf' rest, Streams p.ring.capacity p.published next' rest e →
        buf' ++ back = (rest.map Prod.snd).flatten → Linked p next' buf' { l with delivered := l.delivered + chunk.length } := by
  -- nothing can arrive on a connection that nothing was written to
  have hsilent : l.wire ≠ [] := by
    intro hwire
    rw [hwire, List.drop_nil] at hchunk
    exact hne (List.prefix_nil.1 hchunk)
  cases h with
  | queued hphase hbuf hwire hdelivered hunread => exact absurd hwire hsilent
  | @closed items e back hphase hstream he hbytes =>
      rw [← append_drop_of_prefix hchunk, ← List.append_assoc, List.append_assoc] at hbytes
      refine ⟨items, e, _, hstream, he, hbytes, fun next' buf' rest hrest hbytes' => ?_⟩
      rw [← List.append_assoc] at hbytes'
      exact .closed hphase hrest he hbytes'
  | @accepted s hphase hs hreads =>
      have htracks := hinv.subs s (List.mem_append_left _ hs)
      have hconserved := htracks.conserved.bytes
      cases hsub : s.subscribed with
      | false =>
          rw [htracks.silent_appended hsub] at hconserved
          rw [hreads.wire] at hsilent
          exact absurd (List.append_eq_nil_iff.1 hconserved).1 hsilent
      | true =>
          obtain ⟨hunread, items, hitems, hbytes⟩ := hreads.streams hsub
          rw [hreads.wire] at hchunk
          have hlength := hchunk.length_le
          rw [List.length_drop] at hlength
          have hall : chunk <+: s.appended.flatten.drop l.delivered := by
            rw [← hconserved, List.drop_append_of_le_length hreads.delivered]
            exact hchunk.trans (List.prefix_append _ _)
          rw [← append_drop_of_prefix hall, ← List.append_assoc] at hbytes
          have hdelivered := hreads.delivered
          refine ⟨items, s.nextSeq, _, hitems, htracks.cursor hsub, hbytes, fun next' buf' rest hrest hbytes' => ?_⟩
          refine .accepted hphase hs ⟨hreads.wire, ?_, ?_, ?_⟩
          · dsimp only
            omega
          · intro hfalse
            rw [hsub] at hfalse
            cases hfalse
          · exact fun _ => ⟨hunread, rest, hrest, hbytes'⟩

end Link

/-- A publisher that has kept its promises so far, and a connection to it on which a client reads. -/
structure Feed (r : Publisher × Poller) (next : Nat) (buf : List UInt8) (l : Link) : Prop where
  server : r.1.Inv
  distinct : r.1.Distinct
  backlog : 1 ≤ r.1.cfg.maxBacklog
  data : ∀ m ∈ r.1.published, m.isData = true
  head : next ≤ r.1.ring.head + 1
  link : Linked r.1 next buf l

namespace Feed

variable {r : Publisher × Poller} {next : Nat} {buf : List UInt8} {l : Link}

theorem step (h : Feed r next buf l) {a : Publisher.Action} (ha : ∀ m ∈ a.published, m.isData = true)
    (hfew : (Publisher.step r a).1.published.length + 1 < word32) {l' : Link}
    (hlink : Linked (Publisher.step r a).1 next buf l') : Feed (Publisher.step r a) next buf l' := by
  have hserver := h.server.step h.distinct h.backlog a hfew
  refine ⟨hserver, h.distinct.step a, ?_, ?_, ?_, hlink⟩
  · rw [Publisher.step_cfg]
    exact h.backlog
  · intro m hm
    rw [Publisher.step_published] at hm
    rcases List.mem_append.1 hm with hold | hnew
    · exact h.data m hold
    · exact ha m hnew
  · have hlength := congrArg List.length (Publisher.step_published r a)
    rw [List.length_append] at hlength
    have hhead := h.head
    rw [h.server.ring.head] at hhead
    rw [hserver.ring.head, hlength]
    omega

theorem call (h : Feed r next buf l) (hpos : 1 ≤ next) {a : Publisher.Action} (hpermits : l.permits a = true)
    (hfew : (Publisher.step r a).1.published.length + 1 < word32) :
    Feed (Publisher.step r a) next buf (l.call r.1 (Publisher.step r a).1 a) := by
  apply h.step
  · rw [Link.permits, Bool.and_eq_true] at hpermits
    exact List.all_eq_true.1 hpermits.1
  · exact hfew
  · exact h.link.call h.server h.distinct h.backlog hpos h.head hpermits hfew

theorem accept (h : Feed r next buf l) {fd : Nat} (hphase : l.phase = .queued) (hnew : r.1.isSubscriber fd = false)
    (hfew : (Publisher.step r (.subscribe fd)).1.published.length + 1 < word32) :
    Feed (Publisher.step r (.subscribe fd)) next buf { l with phase := .accepted fd } := by
  refine h.step (fun m hm => by cases hm) hfew ?_
  have hmem : { fd := fd } ∈ (Publisher.step r (.subscribe fd)).1.subs := by
    rw [Publisher.step, Publisher.subscribe, hnew]
    exact List.mem_append_right _ (List.mem_singleton.2 rfl)
  cases h.link with
  | accepted hother => rw [hphase] at hother; cases hother
  | closed hother => rw [hphase] at hother; cases hother
  | queued _ hbuf hwire hdelivered hunread =>
      refine @Linked.accepted _ _ _ _ { fd := fd } rfl hmem ⟨hwire, hdelivered.le, ?_, ?_⟩
      · exact fun _ => ⟨hunread, hbuf⟩
      · intro hfalse
        cases hfalse

theorem reconnect (h : Feed r next buf l) {next' : Nat} (hle : next' ≤ next) :
    Feed r next' [] { unread := makeSubscribe next' } :=
  ⟨h.server, h.distinct, h.backlog, h.data, hle.trans h.head, .queued rfl rfl rfl rfl rfl⟩

theorem next_lt (h : Feed r next buf l) (hfew : r.1.published.length + 1 < word32) : next < word32 := by
  have hhead := h.head
  rw [h.server.ring.head] at hhead
  omega

theorem arrives (h : Feed r next buf l) (hfew : r.1.published.length + 1 < word32) {chunk : List UInt8} (hne : chunk ≠ [])
    (hchunk : chunk <+: l.wire.drop l.delivered) :
    ∃ items e back, Streams r.1.ring.capacity r.1.published next items e ∧ e < word32 ∧
      buf ++ chunk ++ back = (items.map Prod.snd).flatten ∧
      ∀ next' buf' rest, Streams r.1.ring.capacity r.1.published next' rest e →
        buf' ++ back = (rest.map Prod.snd).flatten →
          Feed r next' buf' { l with delivered := l.delivered + chunk.length } := by
  have hhead := h.server.ring.head
  obtain ⟨items, e, back, hitems, he, hbytes, hlink⟩ := h.link.arrives h.server hne hchunk
  refine ⟨items, e, back, hitems, by omega, hbytes, fun next' buf' rest hrest hbytes' => ?_⟩
  exact ⟨h.server, h.distinct, h.backlog, h.data, hrest.le.trans he, hlink next' buf' rest hrest hbytes'⟩

end Feed

/-! ### Runs -/

/-- An account of the program, by the number at which the stream goes on for it and the bytes in its buffer. Frames that continue the stream there keep it, and a new connection asks for no later number. -/
structure Subscribing.Keeps {γ : Type} (k : Subscribing γ) (A : γ → Nat → List UInt8 → Prop) : Prop where
  pos : ∀ {c next buf}, A c next buf → 1 ≤ next
  receive : ∀ {c next buf}, A c next buf → ∀ {capacity published items e}, Streams capacity published next items e →
    e < word32 → (∀ m ∈ published, m.isData = true) →
      ∀ {chunk back : List UInt8}, buf ++ chunk ++ back = (items.map Prod.snd).flatten →
        ∃ c' next' buf' rest, k.receive c chunk = some c' ∧ A c' next' buf' ∧
          Streams capacity published next' rest e ∧ buf' ++ back = (rest.map Prod.snd).flatten
  reconnect : ∀ {c next buf}, A c next buf → next < word32 →
    ∃ next' ≤ next, A (k.reconnect c) next' [] ∧ k.request (k.reconnect c) = makeSubscribe next'

namespace Net

variable {γ : Type} {k : Subscribing γ} {A : γ → Nat → List UInt8 → Prop} {n n' : Net k}

/-- The client's account, and the connection that it rests on. -/
def Inv (A : γ → Nat → List UInt8 → Prop) (n : Net k) : Prop :=
  ∃ c next buf, n.client = some c ∧ A c next buf ∧ Feed n.server next buf n.link

theorem Inv.step (h : n.Inv A) (hk : k.Keeps A) {a : Action} (hstep : n.step a = some n')
    (hfew : n'.server.1.published.length + 1 < word32) : n'.Inv A := by
  obtain ⟨c, next, buf, hclient, hA, hfeed⟩ := h
  cases a with
  | call a =>
      rw [Net.step] at hstep
      split at hstep
      · rename_i hpermits
        cases hstep
        exact ⟨c, next, buf, hclient, hA, hfeed.call (hk.pos hA) hpermits hfew⟩
      · cases hstep
  | accept fd =>
      rw [Net.step] at hstep
      split at hstep
      · rename_i hfree
        cases hstep
        exact ⟨c, next, buf, hclient, hA, hfeed.accept hfree.1 hfree.2 hfew⟩
      · cases hstep
  | deliver size =>
      rw [Net.step, hclient] at hstep
      dsimp only at hstep
      split at hstep
      · cases hstep
      · rename_i hne
        cases hstep
        obtain ⟨items, e, back, hitems, he, hbytes, hfeeds⟩ := hfeed.arrives hfew hne (List.take_prefix _ _)
        obtain ⟨c', next', buf', rest, hreceive, hA', hrest, hbytes'⟩ := hk.receive hA hitems he hfeed.data hbytes
        exact ⟨c', next', buf', hreceive, hA', hfeeds next' buf' rest hrest hbytes'⟩
  | reconnect =>
      rw [Net.step, hclient] at hstep
      cases hstep
      obtain ⟨next', hle, hA', hrequest⟩ := hk.reconnect hA (hfeed.next_lt hfew)
      refine ⟨_, next', [], rfl, hA', ?_⟩
      dsimp only
      rw [hrequest]
      exact hfeed.reconnect hle

theorem step_published_le {a : Action} (hstep : n.step a = some n') :
    n.server.1.published.length ≤ n'.server.1.published.length := by
  cases a with
  | call a =>
      rw [Net.step] at hstep
      split at hstep
      · cases hstep
        rw [Publisher.step_published, List.length_append]
        exact Nat.le_add_right _ _
      · cases hstep
  | accept fd =>
      rw [Net.step] at hstep
      split at hstep
      · cases hstep
        rw [(n.server.1.subscribe_same n.server.2 fd).published]
      · cases hstep
  | deliver size =>
      rw [Net.step] at hstep
      dsimp only at hstep
      split at hstep
      · cases hstep
      · obtain ⟨c, -, rfl⟩ := Option.map_eq_some_iff.1 hstep
        exact le_rfl
  | reconnect =>
      rw [Net.step] at hstep
      obtain ⟨c, -, rfl⟩ := Option.map_eq_some_iff.1 hstep
      exact le_rfl

theorem run_published_le {actions : List Action} (hrun : n.run actions = some n') :
    n.server.1.published.length ≤ n'.server.1.published.length := by
  induction actions generalizing n with
  | nil =>
      cases hrun
      exact le_rfl
  | cons a actions ih =>
      obtain ⟨n₁, hstep, hrest⟩ := Option.bind_eq_some_iff.1 hrun
      exact (step_published_le hstep).trans (ih hrest)

theorem Inv.run (h : n.Inv A) (hk : k.Keeps A) {actions : List Action} (hrun : n.run actions = some n')
    (hfew : n'.server.1.published.length + 1 < word32) : n'.Inv A := by
  induction actions generalizing n with
  | nil =>
      cases hrun
      exact h
  | cons a actions ih =>
      obtain ⟨n₁, hstep, hrest⟩ := Option.bind_eq_some_iff.1 hrun
      have hless := run_published_le hrest
      exact ih (h.step hk hstep (by omega)) hrest

/-- A client that connects to a publisher which has run for a while keeps its account from there on. -/
theorem run_account (hk : k.Keeps A) {cfg : Publisher.Config} (hbacklog : 1 ≤ cfg.maxBacklog)
    {before : List Publisher.Action} (hbefore : ∀ m ∈ before.flatMap Publisher.Action.published, m.isData = true) {c : γ}
    {first : Nat} (hA : A c first []) (hrequest : k.request c = makeSubscribe first)
    (hhead : first ≤ (Publisher.run cfg before).1.ring.head + 1) {actions : List Action}
    (hrun : (start k (Publisher.run cfg before) c).run actions = some n) (hfew : n.server.1.published.length < 2 ^ 32 - 1) :
    ∃ c next buf, n.client = some c ∧ A c next buf := by
  have hless : n.server.1.published.length + 1 < word32 := by
    simp only [word32]
    omega
  have hstarted : (Publisher.run cfg before).1.published.length + 1 < word32 := by
    have hle : (Publisher.run cfg before).1.published.length ≤ n.server.1.published.length := run_published_le hrun
    omega
  have hfeed : Feed (Publisher.run cfg before) first [] { unread := k.request c } := by
    refine ⟨Publisher.run_inv cfg hbacklog before hstarted, Publisher.run_distinct cfg before, ?_, ?_, hhead,
      .queued rfl rfl rfl rfl hrequest⟩
    · rw [Publisher.run_cfg]
      exact hbacklog
    · rw [Publisher.run_published]
      exact hbefore
  have hinit : (start k (Publisher.run cfg before) c).Inv A := ⟨c, first, [], rfl, hA, hfeed⟩
  obtain ⟨c', next, buf, hclient, hA', -⟩ := hinit.run hk hrun hless
  exact ⟨c', next, buf, hclient, hA'⟩

end Net

/-! ### mdstream.py -/

namespace MdStream

theorem follows_start (first : Nat) (quiet : Bool) : Follows first { nextSeq := first, quiet := quiet } := by
  refine ⟨le_rfl, fun q => ?_, List.Pairwise.nil, ?_, rfl⟩
  · rw [if_neg fun hin => absurd hin.1 (Nat.not_le.2 hin.2)]
    rfl
  · dsimp only
    omega

theorem program_keeps {start : Nat} (hstart : 1 ≤ start) :
    program.Keeps fun c next buf => c.Follows start ∧ c.nextSeq = next ∧ c.buf = buf where
  pos := by
    rintro c _ _ ⟨h, rfl, rfl⟩
    exact hstart.trans h.le
  receive := by
    rintro c _ _ ⟨h, rfl, rfl⟩ capacity published items e hitems he hdata chunk back hbytes
    obtain ⟨c', rest, hreceive, hfollows, hrest, hbytes'⟩ := h.receive he hdata hitems hbytes
    exact ⟨c', _, _, rest, hreceive, ⟨hfollows, rfl, rfl⟩, hrest, hbytes'⟩
  reconnect := by
    rintro c _ _ ⟨h, rfl, rfl⟩ -
    exact ⟨c.nextSeq, le_rfl, ⟨h.setBuf [], rfl, rfl⟩, rfl⟩

end MdStream

namespace Net

/-- Resumable delivery, end to end: whatever the publisher publishes and whenever it flushes, and wherever in a frame connections end, every sequence number below the client's next one was handled once or announced as lost once, and in order. -/
theorem run_resumes (cfg : Publisher.Config) (hbacklog : 1 ≤ cfg.maxBacklog) (before : List Publisher.Action)
    (hbefore : ∀ m ∈ before.flatMap Publisher.Action.published, m.isData = true) (first : Nat) (quiet : Bool)
    (hfirst : 1 ≤ first) (hhead : first ≤ (Publisher.run cfg before).1.ring.head + 1) (actions : List Action)
    (n : Net MdStream.program)
    (hrun : (start MdStream.program (Publisher.run cfg before) { nextSeq := first, quiet := quiet }).run actions = some n)
    (hfew : n.server.1.published.length < 2 ^ 32 - 1) :
    ∃ c, n.client = some c ∧
      c.handled.Pairwise (· < ·) ∧
      (∀ q, first ≤ q → q < c.nextSeq →
        (c.handled.count q = 1 ∧ ∀ g ∈ c.holes, ¬ (g.1 ≤ q ∧ q < g.2)) ∨
          (q ∉ c.handled ∧ c.holes.countP (fun g => g.1 ≤ q ∧ q < g.2) = 1)) ∧
      (c.frames : Int) + c.lost = c.nextSeq - first ∧
      c.jumps = 0 := by
  obtain ⟨c, next, buf, hclient, hfollows, -, -⟩ := run_account (MdStream.program_keeps hfirst) hbacklog hbefore
    ⟨MdStream.follows_start first quiet, rfl, rfl⟩ rfl hhead hrun hfew
  exact ⟨c, hclient, hfollows.increasing, fun q hle hlt => hfollows.once hle hlt, hfollows.total, hfollows.jumps⟩

/-- A ring of two frames. The first connection ends within the first frame, then the ring laps the client: on the second connection it gets a Gap and the two frames that are left. -/
theorem run_resumes_lapped :
    let cfg : Publisher.Config := { ringLog2 := 1 }
    let top := fun bid => Message.top 0 bid (-1) 5 0
    let request : List UInt8 := [16, 0, 4, 1, 0, 0, 0, 0, 1, 0, 0, 0, 0, 0, 0, 0]
    let actions : List Action := [.accept 7, .call (.onReadable 7 [.bytes (request.take 10), .again]),
      .call (.onReadable 7 [.bytes (request.drop 10)]), .call (.flushAll 1 fun _ => [.wrote 30]), .deliver 5, .deliver 20,
      .call (.publish (top 11)), .call (.publish (top 12)), .call (.publish (top 13)), .reconnect, .accept 8,
      .call (.onReadable 8 [.bytes request]), .call (.flushAll 2 fun _ => [.wrote 200]), .deliver 30, .deliver 200]
    let net := start MdStream.program (Publisher.run cfg [.publish (top 10)]) { nextSeq := 1, quiet := false }
    ∃ n c, net.run actions = some n ∧ n.client = some c ∧
      (c.nextSeq, c.handled, c.holes) = (5, [3, 4], [(1, 3)]) ∧ (c.frames : Int) + c.lost = c.nextSeq - 1 ∧ c.jumps = 0 := by
  intro cfg top request actions net
  have hlength : (net.run actions).map (fun n => n.server.1.published.length) = some 4 := by decide +kernel
  have hclient : (net.run actions).bind (fun n => n.client.map fun c => (c.nextSeq, c.handled, c.holes)) =
      some (5, [3, 4], [(1, 3)]) := by decide +kernel
  obtain ⟨n, hrun, hseen⟩ := Option.bind_eq_some_iff.1 hclient
  have hfew : n.server.1.published.length < 2 ^ 32 - 1 := by
    rw [hrun, Option.map_some] at hlength
    rw [Option.some.inj hlength]
    decide
  obtain ⟨c, hc, -, -, htotal, hjumps⟩ := run_resumes cfg (by decide) [.publish (top 10)] (by decide) 1 false (by decide)
    (by decide) actions n hrun hfew
  rw [hc] at hseen
  exact ⟨n, c, hrun, hc, Option.some.inj hseen, htotal, hjumps⟩

end Net

end Matchbox
