import Matchbox.Safety.Verdict
import Matchbox.System.Dialog

/-!
# The load generator

`run_load` of `main_client.cpp`, connected to the system as one of its sessions, while all other sessions and subscribers do what they like. The client keeps up to `inflight` orders on their way and counts an order as done when its Ack or its Reject comes in. It looks up when the order was sent by the tag of the Ack, without checking it, and waits in `::read` for as long as it takes.

`LoadRun.run_sound` says that this is fine: the verdicts come in for the tags 0, 1, 2, ... in this order, so the counts are right at every moment, every lookup is inside the vector, and the client only waits while an answer is on its way.
-/

namespace Matchbox

open Wire LittleEndian

/-- The tag that a message gives a verdict on. -/
def Wire.Message.verdict? : Message → Option Nat
  | .ack tag _ => some tag
  | .reject tag _ => some tag
  | _ => none

/-- The arguments of `run_load`, for which its arithmetic on prices does not overflow. -/
structure Load.Config where
  orders : Nat := 100000
  inflight : Nat := 1
  symbol : Nat := 0
  mid : Int := 10000
  spread : Int := 5
  orders_lt : orders < 2 ^ 64 := by decide
  symbol_lt : symbol < 2 ^ 16 := by decide
  spread_nonneg : 0 ≤ spread := by decide
  span_lt : 2 * spread + 1 < 2 ^ 63 := by decide
  lowest : -2 ^ 63 ≤ mid - spread := by decide
  highest : mid + spread < 2 ^ 63 := by decide

/-- The local variables of `run_load`. -/
structure Load where
  seq : Nat := 1
  nextTag : Nat := 0
  done : Nat := 0
  inFlight : Nat := 0
  fills : Nat := 0
  rejects : Nat := 0
  sentAt : List Nat
  rtt : List Nat := []
  rx : List UInt8 := []
  /-- How many numbers were drawn from the generator. -/
  drawn : Nat := 0

/-- Where the client is. -/
inductive Load.At where
  /-- At the top of the loop. -/
  | sending
  /-- In `::read`. -/
  | reading
  /-- `run_load` has returned this. -/
  | returned (code : Nat)
  /-- It has read outside a vector, or the frame loop never ends. -/
  | crashed
deriving DecidableEq

namespace Load

variable (cfg : Config) (rng : Nat → Nat)

def start : Load := { sentAt := List.replicate cfg.orders 0 }

/-- The next order, with the next three numbers of the generator. -/
def order (c : Load) : NewOrder where
  tag := c.nextTag
  symbol := cfg.symbol
  side := rng c.drawn % 2
  type := 0
  tif := 0
  price := cfg.mid - cfg.spread + (rng (c.drawn + 1) % (2 * cfg.spread + 1).toNat : Nat)
  qty := 1 + rng (c.drawn + 2) % 100

/-- The body of the inner loop: the client after it, and the frame it appends to `out`. -/
def sendOne (now : Nat) (c : Load) : Load × List UInt8 :=
  ({ c with
      seq := (c.seq + 1) % word32
      drawn := c.drawn + 3
      sentAt := c.sentAt.set c.nextTag now
      nextTag := c.nextTag + 1
      inFlight := (c.inFlight + 1) % 2 ^ 64 },
    (Request.newOrder (c.order cfg rng)).make c.seq)

/-- The inner loop, with the time read for each order. It runs at most once for each tag that is left. -/
def fillOut (times : Nat → Nat) : Nat → Load → Load × List UInt8
  | 0, c => (c, [])
  | fuel + 1, c =>
      if c.inFlight < cfg.inflight ∧ c.nextTag < cfg.orders then
        let r := c.sendOne cfg rng (times c.nextTag)
        let rest := fillOut times fuel r.1
        (rest.1, r.2 ++ rest.2)
      else (c, [])

/-- One order less is on its way. -/
def settle (c : Load) : Load :=
  { c with done := (c.done + 1) % 2 ^ 64, inFlight := (c.inFlight + (2 ^ 64 - 1)) % 2 ^ 64 }

/-- The callback of `for_each_frame`; nothing when it reads outside `sent_at`. -/
def onFrame (now : Nat) (c : Load) (type : Nat) (p : List UInt8) : Option Load :=
  if type = MsgType.ack.code then
    c.sentAt[field p 8 8]?.map fun sent => { c with rtt := c.rtt ++ [(now + (2 ^ 64 - sent)) % 2 ^ 64] }.settle
  else if type = MsgType.reject.code then some { c with rejects := (c.rejects + 1) % 2 ^ 64 }.settle
  else if type = MsgType.fill.code then some { c with fills := (c.fills + 1) % 2 ^ 64 }
  else some c

/-- Only of an Ack the callback reads the struct. -/
def callback (now : Nat) : Callback (Option Load) where
  reads := fun type => if type = MsgType.ack.code then MsgType.ack.size else 0
  act := fun c type p => c.bind fun c => c.onFrame now type p

/-- What happens to the bytes that `::read` returned. -/
def receive (now : Nat) (chunk : List UInt8) (c : Load) : Option Load :=
  let rx := c.rx ++ chunk
  match forEachFrame (callback now) (rx.length + 1) rx 0 (some c) with
  | .returned c' _ rest => c'.map fun c' => { c' with rx := rest }
  | .failed => none
  | .running => none

end Load

/-- The client and the system. -/
structure LoadRun where
  dialog : Dialog
  client : Load
  place : Load.At := .sending

namespace LoadRun

inductive Action where
  | system (a : System.Action)
  /-- The client goes through the inner loop and `write_full`, which may fail after some bytes. -/
  | send (times : Nat → Nat) (failsAfter : Option Nat)
  /-- `::read` returns at most `n` bytes. -/
  | read (n now : Nat)
  /-- `::read` returns zero or an error. -/
  | closed

variable (cfg : Load.Config) (rng : Nat → Nat)

def send (r : LoadRun) (times : Nat → Nat) (failsAfter : Option Nat) : LoadRun :=
  if r.client.done < cfg.orders then
    let s := r.client.fillOut cfg rng times (cfg.orders - r.client.nextTag)
    match failsAfter with
    | some k =>
        if s.2 = [] then { r with client := s.1, place := .reading }
        else { dialog := r.dialog.step (.write (s.2.take k)), client := s.1, place := .returned 1 }
    | none => { dialog := r.dialog.step (.write s.2), client := s.1, place := .reading }
  else { r with place := .returned 0 }

/-- A read without anything to read blocks. -/
def read (r : LoadRun) (n now : Nat) : LoadRun :=
  let n := min n (2 ^ 16)
  let chunk := r.dialog.incoming n
  if chunk = [] then r
  else
    match r.client.receive now chunk with
    | some c => { dialog := r.dialog.step (.hear n), client := c, place := .sending }
    | none => { r with dialog := r.dialog.step (.hear n), place := .crashed }

def step (r : LoadRun) : Action → LoadRun
  | .system a => { r with dialog := r.dialog.step (.system a) }
  | .send times failsAfter => if r.place = .sending then r.send cfg rng times failsAfter else r
  | .read n now => if r.place = .reading then r.read n now else r
  | .closed => if r.place = .reading then { r with place := .returned 1 } else r

/-- Any interleaving of the client and the system. -/
def run (r : LoadRun) (actions : List Action) : LoadRun := actions.foldl (step cfg rng) r

@[simp] theorem run_concat (r : LoadRun) (actions : List Action) (a : Action) :
    r.run cfg rng (actions ++ [a]) = (r.run cfg rng actions).step cfg rng a := by
  simp [run]

/-- The system just started, and the client about to be its session `sid`. -/
def start (sid : Nat) (scfg : Server.Config) (ecfg : Engine.Config) (ringLog2 listenFd mdListenFd : Nat) : LoadRun where
  dialog := { sid := sid, system := System.init scfg ecfg ringLog2 listenFd mdListenFd }
  client := Load.start cfg

end LoadRun

/-! ### The client's own counts -/

namespace Load

variable {cfg : Config} {rng : Nat → Nat} {c c' : Load}

structure Counted (cfg : Config) (c : Load) : Prop where
  seq : c.seq = (1 + c.nextTag) % word32
  total : c.done + c.inFlight = c.nextTag
  window : c.inFlight ≤ cfg.inflight
  nextTag_le : c.nextTag ≤ cfg.orders
  split : c.rtt.length + c.rejects = c.done
  sentAt : c.sentAt.length = cfg.orders

theorem counted_start (cfg : Config) : (start cfg).Counted cfg :=
  ⟨rfl, rfl, Nat.zero_le _, Nat.zero_le _, rfl, List.length_replicate⟩

theorem Counted.sendOne (h : c.Counted cfg) (rng : Nat → Nat) (hwindow : c.inFlight < cfg.inflight)
    (hleft : c.nextTag < cfg.orders) (now : Nat) : (c.sendOne cfg rng now).1.Counted cfg := by
  have horders := cfg.orders_lt
  have htotal := h.total
  have hin : (c.inFlight + 1) % 2 ^ 64 = c.inFlight + 1 := Nat.mod_eq_of_lt (by omega)
  refine ⟨?_, ?_, ?_, hleft, h.split, ?_⟩
  · change (c.seq + 1) % word32 = (1 + (c.nextTag + 1)) % word32
    rw [h.seq, Nat.mod_add_mod, Nat.add_assoc]
  · change c.done + (c.inFlight + 1) % 2 ^ 64 = c.nextTag + 1
    rw [hin]
    omega
  · change (c.inFlight + 1) % 2 ^ 64 ≤ cfg.inflight
    rw [hin]
    exact hwindow
  · exact (List.length_set ..).trans h.sentAt

/-- An order that the gateway does not refuse for its form. -/
structure Plain (m : NewOrder) : Prop where
  inRange : (Request.newOrder m).InRange
  side : m.side ≤ 1
  type : m.type ≤ 1
  tif : m.tif ≤ 1

theorem plain_order (hleft : c.nextTag < cfg.orders) : Plain (c.order cfg rng) := by
  have horders := cfg.orders_lt
  have hsymbol := cfg.symbol_lt
  have hspread := cfg.spread_nonneg
  have hspan := cfg.span_lt
  have hlow := cfg.lowest
  have hhigh := cfg.highest
  have hside : rng c.drawn % 2 < 2 := Nat.mod_lt _ (by decide)
  have hqty : rng (c.drawn + 2) % 100 < 100 := Nat.mod_lt _ (by decide)
  have hdraw : rng (c.drawn + 1) % (2 * cfg.spread + 1).toNat < (2 * cfg.spread + 1).toNat := Nat.mod_lt _ (by omega)
  refine ⟨⟨?_, hsymbol, ?_, ?_, ?_, ⟨?_, ?_⟩, ?_⟩, ?_, Nat.zero_le _, Nat.zero_le _⟩ <;> dsimp only [order]
  all_goals omega

/-- What the inner loop has done: the orders it has sent. -/
structure Sent (cfg : Config) (c c' : Load) (out : List UInt8) (more : List NewOrder) : Prop where
  counted : c'.Counted cfg
  out : out = (numberedRequests (1 + c.nextTag) (more.map Request.newOrder)).flatten
  plain : ∀ m ∈ more, Plain m
  tags : more.map (fun m => m.tag) = List.range' c.nextTag more.length
  nextTag : c'.nextTag = c.nextTag + more.length
  done : c'.done = c.done
  rx : c'.rx = c.rx
  fills : c'.fills = c.fills

theorem Counted.fillOut (h : c.Counted cfg) (rng times : Nat → Nat) (fuel : Nat) :
    ∃ more, Sent cfg c (c.fillOut cfg rng times fuel).1 (c.fillOut cfg rng times fuel).2 more := by
  induction fuel generalizing c with
  | zero => exact ⟨[], h, rfl, fun m hm => absurd hm List.not_mem_nil, rfl, rfl, rfl, rfl, rfl⟩
  | succ fuel ih =>
      rw [Load.fillOut]
      split
      · rename_i hmore
        obtain ⟨more, hsent⟩ := ih (h.sendOne rng hmore.1 hmore.2 (times c.nextTag))
        refine ⟨c.order cfg rng :: more, hsent.counted, ?_, ?_, ?_, ?_, hsent.done, hsent.rx, hsent.fills⟩
        · have hcons := numberedRequests_append (1 + c.nextTag) [.newOrder (c.order cfg rng)] (more.map Request.newOrder)
          rw [List.map_cons, ← List.singleton_append, hcons, List.flatten_append]
          dsimp only
          rw [hsent.out]
          congr 1
          rw [Load.sendOne, h.seq]
          exact (List.append_nil _).symm
        · exact List.forall_mem_cons.2 ⟨plain_order hmore.2, hsent.plain⟩
        · rw [List.map_cons, List.length_cons, List.range'_succ, hsent.tags]
          rfl
        · rw [hsent.nextTag, List.length_cons]
          change c.nextTag + 1 + more.length = _
          omega
      · exact ⟨[], h, rfl, fun m hm => absurd hm List.not_mem_nil, rfl, rfl, rfl, rfl, rfl⟩

theorem fillOut_full (cfg : Config) (rng times : Nat → Nat) {fuel : Nat} (c : Load)
    (hfuel : cfg.orders - c.nextTag ≤ fuel) :
    ¬ ((c.fillOut cfg rng times fuel).1.inFlight < cfg.inflight ∧
      (c.fillOut cfg rng times fuel).1.nextTag < cfg.orders) := by
  induction fuel generalizing c with
  | zero =>
      change ¬ (c.inFlight < cfg.inflight ∧ c.nextTag < cfg.orders)
      omega
  | succ fuel ih =>
      rw [fillOut]
      split
      · apply ih
        change cfg.orders - (c.nextTag + 1) ≤ fuel
        omega
      · assumption

/-! ### Messages -/

/-- The callback, given the message of the frame. -/
def onMessage (now : Nat) (c : Load) : Message → Option Load
  | .ack tag _ => c.sentAt[tag]?.map fun sent => { c with rtt := c.rtt ++ [(now + (2 ^ 64 - sent)) % 2 ^ 64] }.settle
  | .reject _ _ => some { c with rejects := (c.rejects + 1) % 2 ^ 64 }.settle
  | .fill .. => some { c with fills := (c.fills + 1) % 2 ^ 64 }
  | _ => some c

theorem handle_make {m : Message} (htag : ∀ tag ∈ m.verdict?, tag < 2 ^ 64) (now : Nat) (c : Option Load) (seq : Nat)
    (back : List UInt8) :
    (callback now).handle c (m.make (seq % word32) ++ back) = some (c.bind fun c => c.onMessage now m) := by
  have hheader : (Header.ofBytes (m.make (seq % word32) ++ back)).type = m.type.code := by
    rw [Message.ofBytes_make]
  rw [Callback.handle, hheader]
  cases m with
  | ack tag orderId =>
      have hread : bytesAt ((Message.ack tag orderId).make (seq % word32) ++ back) 0 MsgType.ack.size =
          some ((Message.ack tag orderId).make (seq % word32)) := by
        rw [bytesAt_eq (Nat.zero_le _) (by simp [Message.type])]
        simp [Message.type]
      have hfield : field ((Message.ack tag orderId).make (seq % word32)) 8 8 = tag := by
        have hlt := htag tag rfl
        simp (disch := omega) only [Message.make, Message.body, Message.header, Header.bytes, List.append_assoc, field_skip,
          Nat.reduceSub, field_encode, Nat.mod_eq_of_lt]
      change (bytesAt _ 0 MsgType.ack.size).map _ = _
      rw [hread, Option.map_some]
      cases c with
      | none => rfl
      | some c =>
          change some (c.onFrame now MsgType.ack.code _) = _
          rw [onFrame, if_pos rfl, hfield]
          rfl
  | _ => cases c <;> rfl

theorem Counted.settle (h : c.Counted cfg) (hout : 0 < c.inFlight) (rtt : List Nat) (rejects : Nat)
    (hsplit : rtt.length + rejects = c.done + 1) : ({ c with rtt := rtt, rejects := rejects }.settle).Counted cfg ∧
      ({ c with rtt := rtt, rejects := rejects }.settle).inFlight + 1 = c.inFlight := by
  have horders := cfg.orders_lt
  have htotal := h.total
  have hle := h.nextTag_le
  have hdone : (c.done + 1) % 2 ^ 64 = c.done + 1 := Nat.mod_eq_of_lt (by omega)
  have hin : (c.inFlight + (2 ^ 64 - 1)) % 2 ^ 64 = c.inFlight - 1 := by omega
  have hwindow := h.window
  refine ⟨⟨h.seq, ?_, ?_, hle, ?_, h.sentAt⟩, ?_⟩ <;> dsimp only [Load.settle]
  · omega
  · omega
  · omega
  · omega

/-- What a message does to the counts. -/
structure Took (cfg : Config) (ms : List Message) (c c' : Load) : Prop where
  counted : c'.Counted cfg
  inFlight : c'.inFlight + (ms.filterMap Message.verdict?).length = c.inFlight
  fills : ∀ k, c.fills = k % 2 ^ 64 → c'.fills = (k + ms.countP fun m => m.type = .fill) % 2 ^ 64
  nextTag : c'.nextTag = c.nextTag
  rx : c'.rx = c.rx

theorem Took.trans {ms more : List Message} {c'' : Load} (h : Took cfg ms c c') (h' : Took cfg more c' c'') :
    Took cfg (ms ++ more) c c'' where
  counted := h'.counted
  inFlight := by
    rw [List.filterMap_append, List.length_append, ← h.inFlight, ← h'.inFlight]
    omega
  fills := fun k hk => by rw [h'.fills _ (h.fills k hk), List.countP_append, Nat.add_assoc]
  nextTag := h'.nextTag.trans h.nextTag
  rx := h'.rx.trans h.rx

theorem Counted.onMessage (h : c.Counted cfg) (now : Nat) {m : Message} (htag : ∀ tag ∈ m.verdict?, tag < cfg.orders)
    (hout : (m.verdict?.toList).length ≤ c.inFlight) : ∃ c', c.onMessage now m = some c' ∧ Took cfg [m] c c' := by
  have horders := cfg.orders_lt
  have htotal := h.total
  have hsplit := h.split
  have hle := h.nextTag_le
  have hother : m.verdict? = none → m.type ≠ .fill → Took cfg [m] c c := by
    intro hnone htype
    refine ⟨h, ?_, fun k hk => ?_, rfl, rfl⟩
    · simp [hnone]
    · simp [hk, htype]
  cases m with
  | ack tag orderId =>
      have hlt : tag < c.sentAt.length := by
        rw [h.sentAt]
        exact htag tag rfl
      obtain ⟨hcounted, hin⟩ := h.settle hout (c.rtt ++ [(now + (2 ^ 64 - c.sentAt[tag])) % 2 ^ 64]) c.rejects
        (by rw [List.length_append, List.length_singleton]; omega)
      refine ⟨_, ?_, hcounted, hin, fun k hk => hk, rfl, rfl⟩
      rw [Load.onMessage, List.getElem?_eq_getElem hlt]
      rfl
  | reject tag reason =>
      have hpos : 0 < c.inFlight := hout
      obtain ⟨hcounted, hin⟩ := h.settle hpos c.rtt ((c.rejects + 1) % 2 ^ 64) (by omega)
      exact ⟨_, rfl, hcounted, hin, fun k hk => hk, rfl, rfl⟩
  | fill orderId price qty remaining maker =>
      refine ⟨_, rfl, ⟨h.seq, h.total, h.window, h.nextTag_le, h.split, h.sentAt⟩, rfl, fun k hk => ?_, rfl, rfl⟩
      change (c.fills + 1) % 2 ^ 64 = (k + 1) % 2 ^ 64
      rw [hk, Nat.mod_add_mod]
  | _ => exact ⟨c, rfl, hother rfl fun htype => by cases htype⟩

/-- What the loop over some messages does to the counts, when there are no more verdicts among them than orders on their way. -/
theorem Counted.foldl (h : c.Counted cfg) (now : Nat) {ms : List Message}
    (htags : ∀ tag ∈ ms.filterMap Message.verdict?, tag < cfg.orders)
    (hfew : (ms.filterMap Message.verdict?).length ≤ c.inFlight) :
    ∃ c', ms.foldl (fun c m => c.bind fun c => c.onMessage now m) (some c) = some c' ∧ Took cfg ms c c' := by
  induction ms generalizing c with
  | nil => exact ⟨c, rfl, h, rfl, fun k hk => hk, rfl, rfl⟩
  | cons m ms ih =>
      rw [← List.singleton_append, List.filterMap_append] at htags hfew
      rw [List.length_append] at hfew
      have hfirst : [m].filterMap Message.verdict? = m.verdict?.toList := by cases m <;> rfl
      rw [hfirst] at htags hfew
      obtain ⟨c₁, hc₁, htook⟩ := h.onMessage now
        (fun tag htag => htags tag (List.mem_append_left _ (Option.mem_toList.2 htag))) (by omega)
      have hin := htook.inFlight
      rw [hfirst] at hin
      obtain ⟨c', hc', htook'⟩ := ih htook.counted (fun tag htag => htags tag (List.mem_append_right _ htag)) (by omega)
      refine ⟨c', ?_, htook.trans htook'⟩
      rw [List.foldl_cons, Option.bind_some, hc₁]
      exact hc'

end Load

/-! ### The verdicts -/

theorem verdict_private (events : List Event) :
    (events.filterMap Event.private?).filterMap Message.verdict? = (events.filter Event.isVerdict).map fun e => e.tag := by
  rw [List.filterMap_filterMap, ← List.filterMap_eq_map, List.filterMap_filter]
  apply List.filterMap_congr
  intro e _
  rw [Event.private?, Event.isVerdict]
  cases e.kind <;> rfl

theorem verdicts_eq (sid : Nat) (events : List Event) :
    ((events.filter fun e => e.session = sid).filterMap Event.private?).filterMap Message.verdict? = verdicts sid events := by
  rw [verdict_private, List.filter_filter, verdicts]
  simp only [Bool.decide_and, Bool.decide_eq_true]

theorem fills_private (events : List Event) :
    ((events.filterMap Event.private?).countP fun m => m.type = .fill) = events.countP fun e => e.kind = .fill := by
  rw [List.countP_filterMap]
  apply List.countP_congr
  intro e _
  rw [Event.private?]
  cases e.kind <;> simp [Message.type]

namespace Dialog

variable {ecfg : Engine.Config} {d : Dialog} {rs : List NewOrder}

/-- A client that sends orders with the tags 0, 1, 2, ... is told the verdicts on them in this order, and on all of them in the end. -/
structure Answered (d : Dialog) (rs : List NewOrder) : Prop where
  heard : d.heard <+: (numbered 1 d.told).flatten
  verdicts : d.told.filterMap Message.verdict? <+: List.range rs.length
  quiet : d.Quiet → d.written = (numberedRequests 1 (rs.map Request.newOrder)).flatten →
    d.heard = (numbered 1 d.told).flatten ∧ d.told.filterMap Message.verdict? = List.range rs.length

/-- The command that the gateway makes of an order. -/
def orderCommand (sid : Nat) (m : NewOrder) : Command where
  kind := .new
  session := sid
  tag := m.tag
  symbol := m.symbol
  side := if m.side = 0 then .buy else .sell
  type := if m.type = 0 then .limit else .market
  tif := if m.tif = 0 then .gtc else .ioc
  price := m.price
  qty := m.qty

theorem reply_plain {m : NewOrder} (h : Load.Plain m) (sid : Nat) :
    (Request.newOrder m).reply sid = .submit (orderCommand sid m) :=
  if_pos ⟨h.side, h.type, h.tif⟩

theorem Inv.answered (h : d.Inv ecfg) (hplain : ∀ m ∈ rs, Load.Plain m)
    (htags : rs.map (fun m => m.tag) = List.range rs.length)
    (hwritten : d.written <+: (numberedRequests 1 (rs.map Request.newOrder)).flatten) : d.Answered rs := by
  have hrange : ∀ r ∈ rs.map Request.newOrder, r.InRange :=
    List.forall_mem_map.2 fun m hm => (hplain m hm).inRange
  have hform : ∀ r ∈ rs.map Request.newOrder, (r.reply d.sid).message? = none :=
    List.forall_mem_map.2 fun m hm => by
      rw [reply_plain (hplain m hm)]
      rfl
  obtain ⟨done, ms, hview⟩ := h.view hrange hform hwritten
  obtain ⟨todo, htodo⟩ := hview.isPrefix
  obtain ⟨first, last, rfl, rfl, -⟩ := List.map_eq_append_iff.1 htodo.symm
  -- what was submitted are the commands of the first orders
  have hsubmitted : d.system.submitted d.sid = first.map (orderCommand d.sid) := by
    rw [hview.submitted, List.filterMap_map, ← List.filterMap_eq_map]
    apply List.filterMap_congr
    intro m hm
    rw [Function.comp_apply, reply_plain (hplain m (List.mem_append_left _ hm))]
    rfl
  have hnew : ∀ x ∈ d.system.processed, x.2.session = d.sid → x.2.kind = .new := by
    intro x hx hsid
    have hpushed := h.mem_submitted hx hsid
    rw [hsubmitted] at hpushed
    obtain ⟨m, -, hm⟩ := List.mem_map.1 hpushed
    rw [← hm]
    rfl
  have hverdicts : d.told.filterMap Message.verdict? = tagsOf d.sid (d.system.processed.map Prod.snd) := by
    rw [told, verdicts_eq, h.system.log]
    exact (Ledger.init ecfg).verdicts_log d.system.processed rfl hnew
  have hfirst : (d.system.submitted d.sid).map (fun c => c.tag) = first.map fun m => m.tag := by
    rw [hsubmitted, List.map_map]
    rfl
  refine ⟨?_, ?_, fun hquiet hall => ?_⟩
  · exact hview.heard_told
  · have hprocessed : tagsOf d.sid (d.system.processed.map Prod.snd) <+: first.map fun m => m.tag := by
      rw [← hfirst, ← h.system.taken]
      exact ((h.system.inbox.isPrefix_pops.trans (List.prefix_append _ _)).filter _).map _
    rw [hverdicts, ← htags, List.map_append]
    exact hprocessed.trans (List.prefix_append _ _)
  · obtain ⟨hdone, rfl, hheard⟩ := hview.quiet hquiet hall
    refine ⟨hheard, ?_⟩
    rw [hverdicts, tagsOf, h.processed_eq hquiet, hfirst, ← htags]
    have hlength := congrArg List.length hdone
    rw [List.length_map, List.length_map, List.length_append] at hlength
    rw [List.length_eq_zero_iff.1 (by omega : last.length = 0), List.append_nil]

end Dialog

/-! ### Every run -/

namespace LoadRun

variable {cfg : Load.Config} {rng : Nat → Nat} {ecfg : Engine.Config} {r : LoadRun}

/-- What holds between the client and the system after every step. -/
structure Inv (cfg : Load.Config) (ecfg : Engine.Config) (r : LoadRun) : Prop where
  dialog : r.dialog.Inv ecfg
  counted : r.client.Counted cfg
  /-- The orders written so far; a failed `write_full` has left some out. -/
  sent : ∃ rs : List NewOrder, rs.length = r.client.nextTag ∧ (∀ m ∈ rs, Load.Plain m) ∧
    rs.map (fun m => m.tag) = List.range rs.length ∧
    r.dialog.written <+: (numberedRequests 1 (rs.map Request.newOrder)).flatten ∧
    (r.place = .sending ∨ r.place = .reading →
      r.dialog.written = (numberedRequests 1 (rs.map Request.newOrder)).flatten)
  /-- The messages handled so far. -/
  took : ∃ ms, r.dialog.Hears ms r.client.rx ∧ (ms.filterMap Message.verdict?).length = r.client.done ∧
    r.client.fills = (ms.countP fun m => m.type = .fill) % 2 ^ 64
  safe : r.place ≠ .crashed
  reading : r.place = .reading → r.client.done < cfg.orders ∧
    ¬ (r.client.inFlight < cfg.inflight ∧ r.client.nextTag < cfg.orders)
  finished : r.place = .returned 0 → r.client.done = cfg.orders

theorem start_inv (cfg : Load.Config) (sid : Nat) (scfg : Server.Config) (ecfg : Engine.Config)
    (ringLog2 listenFd mdListenFd : Nat) : (start cfg sid scfg ecfg ringLog2 listenFd mdListenFd).Inv cfg ecfg where
  dialog := Dialog.init_inv sid scfg ecfg ringLog2 listenFd mdListenFd
  counted := Load.counted_start cfg
  sent := ⟨[], rfl, fun _ hm => absurd hm List.not_mem_nil, rfl, List.prefix_rfl, fun _ => rfl⟩
  took := ⟨[], ⟨rfl, List.nil_prefix, rfl⟩, rfl, rfl⟩
  safe := Load.At.noConfusion
  reading := Load.At.noConfusion
  finished := Load.At.noConfusion

theorem Inv.system (h : r.Inv cfg ecfg) (a : System.Action)
    (hfew : (r.dialog.step (.system a)).system.server.opened < word32) :
    Inv cfg ecfg { r with dialog := r.dialog.step (.system a) } := by
  have hsame : (r.dialog.step (.system a)).written = r.dialog.written ∧
      (r.dialog.step (.system a)).heard = r.dialog.heard := by
    rw [Dialog.step]
    split <;> exact ⟨rfl, rfl⟩
  obtain ⟨rs, hlength, hplain, htags, hprefix, hall⟩ := h.sent
  obtain ⟨ms, hhears, hdone, hfills⟩ := h.took
  refine ⟨h.dialog.step _ hfew, h.counted, ⟨rs, hlength, hplain, htags, ?_, ?_⟩, ⟨ms, hhears.step hsame.2, hdone, hfills⟩,
    h.safe, h.reading, h.finished⟩
  · rw [hsame.1]
    exact hprefix
  · rw [hsame.1]
    exact hall

theorem Inv.wrote (h : r.Inv cfg ecfg) (hat : r.place = .sending) (hdone : r.client.done < cfg.orders) {c : Load}
    {out bytes : List UInt8} {more : List NewOrder} (hsent : Load.Sent cfg r.client c out more)
    (hfull : ¬ (c.inFlight < cfg.inflight ∧ c.nextTag < cfg.orders)) {place : Load.At}
    (hbytes : place = .reading ∧ bytes = out ∨ place = .returned 1 ∧ bytes <+: out) :
    Inv cfg ecfg { dialog := r.dialog.step (.write bytes), client := c, place := place } := by
  obtain ⟨rs, hlength, hplain, htags, hprefix, hall⟩ := h.sent
  obtain ⟨ms, hhears, hverdicts, hfills⟩ := h.took
  have hout : r.dialog.written ++ out = (numberedRequests 1 ((rs ++ more).map Request.newOrder)).flatten := by
    rw [hall (.inl hat), hsent.out, List.map_append, numberedRequests_append, List.flatten_append, List.length_map, hlength]
  refine ⟨h.dialog.step (.write bytes) h.dialog.system.routes.few, hsent.counted, ⟨rs ++ more, ?_, ?_, ?_, ?_, ?_⟩,
    ⟨ms, ?_, ?_, ?_⟩, ?_, fun _ => ⟨by rw [hsent.done]; exact hdone, hfull⟩, ?_⟩
  · rw [List.length_append, hlength, hsent.nextTag]
  · intro m hm
    rcases List.mem_append.1 hm with hm | hm
    · exact hplain m hm
    · exact hsent.plain m hm
  · have hrange : List.range' 0 r.client.nextTag ++ List.range' (0 + r.client.nextTag) more.length =
        List.range' 0 (r.client.nextTag + more.length) := List.range'_append_1
    rw [Nat.zero_add] at hrange
    rw [List.map_append, htags, hsent.tags, List.length_append, hlength, List.range_eq_range', List.range_eq_range', hrange]
  · rw [← hout]
    change r.dialog.written ++ bytes <+: _
    rw [List.prefix_append_right_inj]
    rcases hbytes with ⟨-, rfl⟩ | ⟨-, hpart⟩
    · exact List.prefix_rfl
    · exact hpart
  · intro hopen
    rcases hbytes with ⟨-, rfl⟩ | ⟨rfl, -⟩
    · exact hout
    · rcases hopen with hopen | hopen <;> cases hopen
  · rw [hsent.rx]
    exact hhears.step (a := .write bytes) rfl
  · rw [hsent.done]
    exact hverdicts
  · rw [hsent.fills]
    exact hfills
  · rcases hbytes with ⟨rfl, -⟩ | ⟨rfl, -⟩ <;> exact Load.At.noConfusion
  · rcases hbytes with ⟨rfl, -⟩ | ⟨rfl, -⟩ <;> intro hcode <;> cases hcode

theorem Inv.send (h : r.Inv cfg ecfg) (hat : r.place = .sending) (times : Nat → Nat) (failsAfter : Option Nat) :
    (r.send cfg rng times failsAfter).Inv cfg ecfg := by
  rw [LoadRun.send]
  split
  · rename_i hdone
    obtain ⟨more, hsent⟩ := h.counted.fillOut rng times (cfg.orders - r.client.nextTag)
    have hfull := Load.fillOut_full cfg rng times r.client le_rfl
    generalize r.client.fillOut cfg rng times (cfg.orders - r.client.nextTag) = s at hsent hfull
    cases failsAfter with
    | none => exact h.wrote hat hdone hsent hfull (.inl ⟨rfl, rfl⟩)
    | some k =>
        dsimp only
        split
        · rename_i hempty
          have hwrote := h.wrote hat hdone hsent hfull (.inl ⟨rfl, rfl⟩)
          rw [hempty] at hwrote
          have hnothing : r.dialog.step (.write []) = r.dialog := by
            rw [Dialog.step, List.append_nil]
          rwa [hnothing] at hwrote
        · exact h.wrote hat hdone hsent hfull (.inr ⟨rfl, List.take_prefix k s.2⟩)
  · rename_i hdone
    have htotal := h.counted.total
    have hle := h.counted.nextTag_le
    obtain ⟨rs, hlength, hplain, htags, hprefix, -⟩ := h.sent
    refine ⟨h.dialog, h.counted, ⟨rs, hlength, hplain, htags, hprefix, ?_⟩, h.took, Load.At.noConfusion, ?_, fun _ => ?_⟩
    · rintro (hcode | hcode) <;> cases hcode
    · intro hcode
      cases hcode
    · dsimp only
      omega

/-- The orders that the system knows of have been answered as far as the client has heard. -/
theorem Inv.read (h : r.Inv cfg ecfg) (hat : r.place = .reading) (n now : Nat) : (r.read n now).Inv cfg ecfg := by
  rw [LoadRun.read]
  split
  · exact h
  · have horders := cfg.orders_lt
    have hnextTag := h.counted.nextTag_le
    have htotal := h.counted.total
    have hinv := h.dialog.step (.hear (min n (2 ^ 16))) h.dialog.system.routes.few
    obtain ⟨rs, hlength, hplain, htags, hprefix, hall⟩ := h.sent
    obtain ⟨ms, hhears, hdone, hfills⟩ := h.took
    have hanswered := hinv.answered hplain htags hprefix
    have htold : ∀ tag ∈ r.dialog.told.filterMap Message.verdict?, tag < r.client.nextTag := by
      intro tag htag
      have hmem := hanswered.verdicts.subset htag
      rw [List.mem_range, hlength] at hmem
      exact hmem
    have hhandle : ∀ m ∈ r.dialog.told, ∀ (c : Option Load) seq back,
        (Load.callback now).handle c (m.make (seq % word32) ++ back) = some (c.bind fun c => c.onMessage now m) := by
      intro m hm
      refine Load.handle_make (fun tag htag => ?_) now
      have hlt := htold tag (List.mem_filterMap.2 ⟨m, hm, htag⟩)
      omega
    obtain ⟨got, calls, rest, hwalk, hhears'⟩ :=
      hhears.hear (min n (2 ^ 16)) hanswered.heard hhandle (some r.client)
    -- there are no more verdicts in what was read than orders on their way
    have hcounts := (hhears'.told.filterMap Message.verdict?).trans hanswered.verdicts
    rw [List.filterMap_append] at hcounts
    have hmany := hcounts.length_le
    rw [List.length_append, List.length_range] at hmany
    have hgot : ∀ tag ∈ got.filterMap Message.verdict?, tag < cfg.orders := by
      intro tag htag
      have hlt := List.mem_range.1 (hcounts.subset (List.mem_append_right _ htag))
      omega
    obtain ⟨c, hfold, htook⟩ := h.counted.foldl now hgot (by omega)
    have hreceive : r.client.receive now (r.dialog.incoming (min n (2 ^ 16))) = some { c with rx := rest } := by
      rw [Load.receive, Callback.forEachFrame_eq _ _ (Nat.zero_le _), List.drop_zero, hwalk, hfold]
      rfl
    rw [hreceive]
    have hin := htook.inFlight
    have hcounted := htook.counted
    have htotal' := hcounted.total
    have hsame := htook.nextTag
    refine ⟨hinv, ⟨hcounted.seq, hcounted.total, hcounted.window, hcounted.nextTag_le, hcounted.split, hcounted.sentAt⟩,
      ⟨rs, hlength.trans hsame.symm, hplain, htags, hprefix, fun _ => hall (.inr ?_)⟩, ⟨ms ++ got, hhears', ?_, ?_⟩,
      Load.At.noConfusion, Load.At.noConfusion, Load.At.noConfusion⟩
    · exact hat
    · rw [List.filterMap_append, List.length_append]
      change _ = c.done
      omega
    · rw [List.countP_append]
      exact htook.fills _ hfills

theorem opened_le (cfg : Load.Config) (rng : Nat → Nat) (r : LoadRun) (a : Action) :
    r.dialog.system.server.opened ≤ (r.step cfg rng a).dialog.system.server.opened := by
  cases a with
  | system a => exact r.dialog.opened_le (.system a)
  | send times failsAfter =>
      rw [step]
      split
      · rw [send]
        split
        · cases failsAfter with
          | none => exact le_rfl
          | some k =>
              dsimp only
              split <;> exact le_rfl
        · exact le_rfl
      · exact le_rfl
  | read n now =>
      rw [step]
      split
      · rw [read]
        split
        · exact le_rfl
        · split <;> exact le_rfl
      · exact le_rfl
  | closed =>
      rw [step]
      split <;> exact le_rfl

theorem Inv.step (h : r.Inv cfg ecfg) (a : Action) (hfew : (r.step cfg rng a).dialog.system.server.opened < word32) :
    (r.step cfg rng a).Inv cfg ecfg := by
  cases a with
  | system a => exact h.system a hfew
  | send times failsAfter =>
      rw [LoadRun.step]
      split
      · exact h.send ‹_› times failsAfter
      · exact h
  | read n now =>
      rw [LoadRun.step]
      split
      · exact h.read ‹_› n now
      · exact h
  | closed =>
      rw [LoadRun.step]
      split
      · obtain ⟨rs, hlength, hplain, htags, hprefix, -⟩ := h.sent
        refine ⟨h.dialog, h.counted, ⟨rs, hlength, hplain, htags, hprefix, ?_⟩, h.took, Load.At.noConfusion, ?_, ?_⟩
        · rintro (hcode | hcode) <;> cases hcode
        · exact Load.At.noConfusion
        · intro hcode
          cases hcode
      · exact h

theorem run_inv (cfg : Load.Config) (rng : Nat → Nat) (sid : Nat) (scfg : Server.Config) (ecfg : Engine.Config)
    (ringLog2 listenFd mdListenFd : Nat) (actions : List Action)
    (hfew : ((start cfg sid scfg ecfg ringLog2 listenFd mdListenFd).run cfg rng actions).dialog.system.server.opened <
      word32) :
    ((start cfg sid scfg ecfg ringLog2 listenFd mdListenFd).run cfg rng actions).Inv cfg ecfg := by
  induction actions using List.reverseRecOn with
  | nil => exact start_inv cfg sid scfg ecfg ringLog2 listenFd mdListenFd
  | append_singleton actions a ih =>
      rw [run_concat] at hfew ⊢
      exact (ih ((opened_le cfg rng _ a).trans_lt hfew)).step a hfew

/-- What `run_load` relies on. -/
structure Sound (cfg : Load.Config) (r : LoadRun) : Prop where
  /-- It never reads outside a vector, and its frame loop always ends. -/
  safe : r.place ≠ .crashed
  /-- An order that was sent is on its way or done. -/
  total : r.client.done + r.client.inFlight = r.client.nextTag
  window : r.client.inFlight ≤ cfg.inflight
  nextTag_le : r.client.nextTag ≤ cfg.orders
  split : r.client.rtt.length + r.client.rejects = r.client.done
  /-- The verdicts came in for the first orders, in the order of their tags and once each. -/
  took : ∃ events, r.dialog.Reads events r.client.rx ∧
    (events.filter Event.isVerdict).map (fun e => e.tag) = List.range r.client.done ∧
    r.client.fills = (events.countP fun e => e.kind = .fill) % 2 ^ 64
  /-- It waits only for an answer that is still on its way. -/
  waits : 1 ≤ cfg.inflight → r.place = .reading → 0 < r.client.inFlight ∧ ¬ r.dialog.Quiet
  finished : r.place = .returned 0 → r.client.done = cfg.orders

theorem Inv.sound (h : r.Inv cfg ecfg) : r.Sound cfg := by
  have htotal := h.counted.total
  obtain ⟨rs, hlength, hplain, htags, hprefix, hall⟩ := h.sent
  have hanswered := h.dialog.answered hplain htags hprefix
  obtain ⟨ms, hhears, hdone, hfills⟩ := h.took
  have hverdicts := (hhears.told.filterMap Message.verdict?).trans hanswered.verdicts
  have htook : ms.filterMap Message.verdict? = List.range r.client.done := by
    have htake := List.prefix_iff_eq_take.1 hverdicts
    rw [hdone, List.take_range, Nat.min_eq_left (by omega)] at htake
    exact htake
  refine ⟨h.safe, htotal, h.counted.window, h.counted.nextTag_le, h.counted.split, ?_, fun hinflight hat => ?_, h.finished⟩
  · obtain ⟨events, hreads, rfl⟩ := hhears.reads
    rw [verdict_private] at htook
    rw [fills_private] at hfills
    exact ⟨events, hreads, htook, hfills⟩
  · obtain ⟨hleft, hfull⟩ := h.reading hat
    have hout : 0 < r.client.inFlight := by omega
    refine ⟨hout, fun hquiet => ?_⟩
    obtain ⟨hheard, hlast⟩ := hanswered.quiet hquiet (hall (.inr hat))
    rw [hhears.eq_told hheard, hlast, List.length_range] at hdone
    omega

/-- After every interleaving of the client with the system and everyone else in which fewer than `2 ^ 32` sessions were accepted. -/
theorem run_sound (cfg : Load.Config) (rng : Nat → Nat) (sid : Nat) (scfg : Server.Config) (ecfg : Engine.Config)
    (ringLog2 listenFd mdListenFd : Nat) (actions : List Action)
    (hfew : ((start cfg sid scfg ecfg ringLog2 listenFd mdListenFd).run cfg rng actions).dialog.system.server.opened <
      2 ^ 32) :
    ((start cfg sid scfg ecfg ringLog2 listenFd mdListenFd).run cfg rng actions).Sound cfg :=
  (run_inv cfg rng sid scfg ecfg ringLog2 listenFd mdListenFd actions hfew).sound

/-- A buy and a sell that meet, both sent before either is answered. The first read ends inside the second Ack. -/
def twoInFlight (cfg : Load.Config) (rng : Nat → Nat) : List Action :=
  let accept : List System.Action :=
    [.gateway { polled := some [{ fd := 3, readable := true }] }, .gateway {}, .gateway { accepted := .connected 5 },
      .gateway {}]
  let around : List System.Action := [.gateway {}, .gateway {}, .gateway { writes := fun _ => [.wrote 200] }]
  let sent := ((Load.start cfg).fillOut cfg rng (fun _ => 100) 2).2
  let orders : List System.Action :=
    [.gateway { polled := some [{ fd := 5, readable := true }] }, .gateway { reads := [.bytes sent] }] ++
      List.replicate 4 (.gateway {}) ++ List.replicate 11 (.engine 7) ++ List.replicate 6 (.gateway {})
  [.send (fun _ => 100) none] ++ (accept ++ around ++ orders ++ around).map Action.system ++
    [.read 30 107, .send (fun _ => 0) none, .read 200 109, .send (fun _ => 0) none]

theorem run_sound_twoInFlight :
    let cfg : Load.Config := { orders := 2, inflight := 2, mid := 5, spread := 0 }
    let rng := fun n => if n = 3 then 1 else 0
    let ecfg : Engine.Config := { maxPrice := 10, maxOrders := 4 }
    let r := (start cfg 1 {} ecfg 2 3 4).run cfg rng (twoInFlight cfg rng)
    r.dialog.system.server.opened < 2 ^ 32 ∧ r.Sound cfg ∧ r.place = .returned 0 ∧
      (r.client.rtt, r.client.rejects, r.client.fills) = ([7, 9], 0, 2) :=
  ⟨by decide +kernel, run_sound _ _ _ _ _ _ _ _ _ (by decide +kernel), by decide +kernel, by decide +kernel⟩

end LoadRun

end Matchbox
