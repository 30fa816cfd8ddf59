import Matchbox.Safety.Isolation
import Matchbox.Safety.Top

/-!
# The shape of an answer

What `process` reports follows one grammar on every path: the direct response; after an acceptance or a replacement, three events for each fill; a cancellation of what an order that may not rest has left; and the top of the book. The quantities add up along the way, and since each fill reports one amount to a buyer, to a seller and to the tape, so do those of every run.
-/

namespace Matchbox

/-! ### Fills -/

/-- The three events of one fill. -/
structure Triple where
  maker : Event
  taker : Event
  trade : Event
  maker_kind : maker.kind = .fill ∧ maker.maker = true
  taker_kind : taker.kind = .fill ∧ taker.maker = false
  trade_kind : trade.kind = .trade
  price : taker.price = maker.price ∧ trade.price = maker.price
  qty : taker.qty = maker.qty ∧ trade.qty = maker.qty
  qty_pos : 1 ≤ maker.qty
  side : maker.side = opposite taker.side
  /-- The side of a Trade is that of the aggressor. -/
  aggressor : trade.side = taker.side
  symbol : taker.symbol = maker.symbol ∧ trade.symbol = maker.symbol

namespace Triple

def events (t : Triple) : List Event := [t.maker, t.taker, t.trade]

/-- What the fills amount to. -/
def total (triples : List Triple) : Nat := (triples.map fun t => t.trade.qty).sum

end Triple

/-- Which order it is, and whose. -/
def Order.who (o : Order) : Nat × Nat × Side × Nat := (o.id, o.session, o.side, o.symbol)

/-- Which order an event is about, and whose. -/
def Event.who (ev : Event) : Nat × Nat × Side × Nat := (ev.orderId, ev.session, ev.side, ev.symbol)

section Matching

variable {now i : Nat} {w w' : Ledger} {log : List Emission}

theorem Fill.triple {m : Nat} {rest : List Nat} {px : Int} {x : Nat} {pool : OrderPool}
    (h : Fill now i w w' m rest px x pool) :
    ∃ t : Triple, (fillEmissions now m i px x pool).map Emission.event = t.events ∧ t.trade.qty = x ∧
      t.taker = { Engine.base now .fill (pool.slots i) with price := px, qty := x } := by
  have hmaker := h.queued
  have hsymbol : (pool.slots m).symbol = (pool.slots i).symbol := by
    rw [h.seen_read Order.symbol (fun _ _ _ => rfl) (fun _ _ => rfl) m,
      h.seen_read Order.symbol (fun _ _ _ => rfl) (fun _ _ => rfl) i, hmaker.symbol]
  have hside : (pool.slots m).side = opposite (pool.slots i).side := by
    rw [h.seen_read Order.side (fun _ _ _ => rfl) (fun _ _ => rfl) m,
      h.seen_read Order.side (fun _ _ _ => rfl) (fun _ _ => rfl) i, hmaker.side]
  exact ⟨{
    maker := { Engine.base now .fill (pool.slots m) with maker := true, price := px, qty := x }
    taker := { Engine.base now .fill (pool.slots i) with price := px, qty := x }
    trade := { kind := .trade, side := (pool.slots i).side, symbol := (pool.slots i).symbol, price := px, qty := x, tsNs := now }
    maker_kind := ⟨rfl, rfl⟩
    taker_kind := ⟨rfl, rfl⟩
    trade_kind := rfl
    price := ⟨rfl, rfl⟩
    qty := ⟨rfl, rfl⟩
    qty_pos := h.amount_pos
    side := hside
    aggressor := rfl
    symbol := ⟨hsymbol.symm, hsymbol.symm⟩ }, rfl, rfl, rfl⟩

theorem Fills.triples (h : Fills now i w w' log) :
    ∃ triples : List Triple, log.map Emission.event = triples.flatMap Triple.events ∧
      (∀ t ∈ triples, t.taker.who = (w.e.pool.slots i).who) ∧
      Triple.total triples + (w'.e.pool.slots i).qty = (w.e.pool.slots i).qty := by
  induction h with
  | refl w => exact ⟨[], rfl, fun _ ht => absurd ht List.not_mem_nil, Nat.zero_add _⟩
  | @head w w₁ w₂ m rest px x pool log hfill hfills ih =>
      obtain ⟨triples, hlog, htakers, htotal⟩ := ih
      rw [hfill.taker_read Order.who (fun _ _ _ => rfl) fun _ _ => rfl] at htakers
      obtain ⟨t, ht, hx, htaker⟩ := hfill.triple
      refine ⟨t :: triples, ?_, List.forall_mem_cons.2 ⟨?_, htakers⟩, ?_⟩
      · rw [List.map_append, ht, hlog, List.flatMap_cons]
      · rw [htaker]
        exact hfill.seen_read Order.who (fun _ _ _ => rfl) (fun _ _ => rfl) i
      · have hqty := hfill.qty
        have hle : x ≤ (w.e.pool.slots i).qty := by
          rw [hfill.amount]
          exact Nat.min_le_left _ _
        rw [Triple.total, List.map_cons, List.sum_cons, hx, ← Triple.total]
        omega

end Matching

/-! ### The grammar -/

/-- The response that says that a command was done. -/
def Command.Kind.done : Command.Kind → Event.Kind
  | .new => .accepted
  | .cancel => .cancelled
  | .replace => .replaced

/-- What the pool has left of the order with this identifier. -/
def OrderPool.left (pool : OrderPool) (id : Nat) : Nat :=
  match pool.find id with
  | none => 0
  | some i => (pool.slots i).qty

/-- The order that a New or a Replace matches may not rest: it is Market or IOC. -/
def Engine.kills (e : Engine) (c : Command) : Bool :=
  match c.kind with
  | .new => c.type = .market ∨ c.tif = .ioc
  | .cancel | .replace =>
      match e.pool.find c.orderId with
      | none => false
      | some i => (e.pool.slots i).type = .market ∨ (e.pool.slots i).tif = .ioc

/-- The answer to a command that leads from `e` to `e'`: the direct response, the fills, the cancellation of a rest and the report of the top. -/
structure Answer (e e' : Engine) (c : Command) (direct : Event) (triples : List Triple) (killed tops : List Event) :
    Prop where
  session : direct.session = c.session
  kind : direct.kind = c.kind.done ∨ direct.kind = .rejected
  /-- Only an order that was accepted or replaced is matched. -/
  quiet : direct.kind ≠ .accepted → direct.kind ≠ .replaced → triples = [] ∧ killed = []
  takers : ∀ t ∈ triples, t.taker.who = direct.who
  killed_le : killed.length ≤ 1
  killed_taker : ∀ ev ∈ killed, ev.kind = .cancelled ∧ ev.who = direct.who
  killed_iff : direct.kind = .accepted ∨ direct.kind = .replaced →
    (killed ≠ [] ↔ e.kills c = true ∧ Triple.total triples < direct.qty)
  /-- What was filled, cancelled and left to rest is what the direct response says. -/
  total : direct.kind = .accepted ∨ direct.kind = .replaced →
    Triple.total triples + (killed.map fun ev => ev.remaining).sum + e'.pool.left direct.orderId = direct.qty
  tops_le : tops.length ≤ 1
  tops_kind : ∀ ev ∈ tops, ev.kind = .top

section Commands

variable {now i : Nat} {c : Command} {w w' : Ledger} {log : List Emission}

theorem Ledger.loose_live (w : Ledger) (hloose : w.loose = [i]) :
    i < w.e.pool.capacity ∧ (w.e.pool.slots i).live = true := by
  have hi : i ∈ w.loose := by rw [hloose]; exact List.mem_singleton_self i
  exact ⟨(w.rep.loose_mem i hi).1, (w.rep.loose_mem i hi).2.1⟩

theorem Ledger.left_live (w : Ledger) (hlt : i < w.e.pool.capacity) (hlive : (w.e.pool.slots i).live = true) :
    w.e.pool.left (w.e.pool.slots i).id = (w.e.pool.slots i).qty := by
  have hfind : w.e.pool.find (w.e.pool.slots i).id = some i := (w.rep.find_eq_some_iff _).2 ⟨hlt, hlive, rfl⟩
  rw [OrderPool.left, hfind]

theorem Freed.left (h : Freed i w w') : w'.e.pool.left (w.e.pool.slots i).id = 0 := by
  obtain ⟨hlt, hlive⟩ := w.loose_live h.loose
  have hdead : (w'.e.pool.slots i).live = false := by rw [h.pool', OrderPool.free_slots_self]
  have hcapacity : w'.e.pool.capacity = w.e.pool.capacity := by rw [h.pool']; rfl
  rw [OrderPool.left, w.rep.id i hlt hlive, w'.find_dead (hcapacity ▸ hlt) hdead]

theorem Rested.left (h : Rested i w w') : w'.e.pool.left (w.e.pool.slots i).id = (w.e.pool.slots i).qty := by
  obtain ⟨hlt, hlive⟩ := w.loose_live h.loose
  have hlive' := (h.slots i).read Order.live fun _ _ => rfl
  have hid := (h.slots i).read Order.id fun _ _ => rfl
  rw [← hid, w'.left_live (h.capacity ▸ hlt) (hlive'.trans hlive), (h.slots i).qty]

/-- `match_and_rest`: the fills, and what becomes of the rest. -/
theorem Matched.answer (h : Matched now i w w' log) :
    ∃ (triples : List Triple) (killed : List Event), log.map Emission.event = triples.flatMap Triple.events ++ killed ∧
      (∀ t ∈ triples, t.taker.who = (w.e.pool.slots i).who) ∧ killed.length ≤ 1 ∧
      (∀ ev ∈ killed, ev.kind = .cancelled ∧ ev.who = (w.e.pool.slots i).who) ∧
      (killed ≠ [] ↔ ((w.e.pool.slots i).type = .market ∨ (w.e.pool.slots i).tif = .ioc) ∧
        Triple.total triples < (w.e.pool.slots i).qty) ∧
      Triple.total triples + (killed.map fun ev => ev.remaining).sum + w'.e.pool.left (w.e.pool.slots i).id =
        (w.e.pool.slots i).qty := by
  obtain @⟨w₁, fills, ending, hfills, -, hended⟩ := h
  obtain ⟨triples, hlog, htakers, htotal⟩ := hfills.triples
  have hid : (w₁.e.pool.slots i).id = (w.e.pool.slots i).id := hfills.taker_read Order.id (fun _ _ _ => rfl) fun _ _ => rfl
  have htype := hfills.type
  have htif : (w₁.e.pool.slots i).tif = (w.e.pool.slots i).tif := hfills.taker_read Order.tif (fun _ _ _ => rfl) fun _ _ => rfl
  have hwho : (w₁.e.pool.slots i).who = (w.e.pool.slots i).who :=
    hfills.taker_read Order.who (fun _ _ _ => rfl) fun _ _ => rfl
  cases hended with
  | done hqty hfreed =>
      have hleft := hfreed.left
      rw [hid] at hleft
      refine ⟨triples, [], by rw [List.map_append, hlog]; rfl, htakers, Nat.zero_le 1, fun _ hev => absurd hev List.not_mem_nil,
        ⟨fun hne => absurd rfl hne, fun hkill => ?_⟩, ?_⟩
      · omega
      · rw [hleft, List.map_nil, List.sum_nil]
        omega
  | killed hqty hkill hfreed =>
      have hleft := hfreed.left
      rw [hid] at hleft
      refine ⟨triples, [Engine.base now .cancelled (w₁.e.pool.slots i)], by rw [List.map_append, hlog]; rfl, htakers,
        le_rfl, ?_, ⟨fun _ => ?_, fun _ => List.cons_ne_nil _ _⟩, ?_⟩
      · intro ev hev
        rw [List.mem_singleton.1 hev]
        exact ⟨rfl, hwho⟩
      · rw [htype, htif] at hkill
        exact ⟨hkill, by omega⟩
      · rw [hleft, List.map_singleton, List.sum_singleton]
        exact htotal
  | rested hqty hlimit hgtc hrested =>
      have hleft := hrested.left
      rw [hid] at hleft
      refine ⟨triples, [], by rw [List.map_append, hlog]; rfl, htakers, Nat.zero_le 1, fun _ hev => absurd hev List.not_mem_nil,
        ⟨fun hne => absurd rfl hne, fun hkill => ?_⟩, ?_⟩
      · rw [← htype, ← htif, hlimit, hgtc] at hkill
        rcases hkill.1 with hcon | hcon <;> cases hcon
      · rw [hleft, List.map_nil, List.sum_nil]
        exact htotal

theorem Answer.of_quiet {e e' : Engine} {direct : Event} {tops : List Event} (hsession : direct.session = c.session)
    (hkind : direct.kind = c.kind.done ∨ direct.kind = .rejected)
    (hdone : direct.kind = .accepted ∨ direct.kind = .replaced → e.kills c = false ∧ e'.pool.left direct.orderId = direct.qty)
    (hle : tops.length ≤ 1) (htops : ∀ ev ∈ tops, ev.kind = .top) : Answer e e' c direct [] [] tops where
  session := hsession
  kind := hkind
  quiet := fun _ _ => ⟨rfl, rfl⟩
  takers := fun _ ht => absurd ht List.not_mem_nil
  killed_le := Nat.zero_le 1
  killed_taker := fun _ hev => absurd hev List.not_mem_nil
  killed_iff := by
    intro hdirect
    rw [(hdone hdirect).1]
    exact ⟨fun hne => absurd rfl hne, fun hkill => by cases hkill.1⟩
  total := by
    intro hdirect
    rw [(hdone hdirect).2]
    exact Nat.zero_add _
  tops_le := hle
  tops_kind := htops

theorem Matched.answers {e : Engine} (h : Matched now i w w' log) (direct : Event) {tops : List Event}
    (hsession : direct.session = c.session) (hkind : direct.kind = c.kind.done) (hnew : direct.kind ≠ .cancelled)
    (hwho : direct.who = (w.e.pool.slots i).who) (hqty : direct.qty = (w.e.pool.slots i).qty)
    (hkills : e.kills c = true ↔ (w.e.pool.slots i).type = .market ∨ (w.e.pool.slots i).tif = .ioc)
    (hle : tops.length ≤ 1) (htops : ∀ ev ∈ tops, ev.kind = .top) :
    ∃ triples killed, log.map Emission.event = triples.flatMap Triple.events ++ killed ∧
      Answer e w'.e c direct triples killed tops := by
  obtain ⟨triples, killed, hlog, htakers, hkilled, htaker, hiff, htotal⟩ := h.answer
  have hid : direct.orderId = (w.e.pool.slots i).id := congrArg Prod.fst hwho
  refine ⟨triples, killed, hlog, hsession, .inl hkind, fun haccepted hreplaced => ?_, ?_, hkilled, ?_, fun _ => ?_, fun _ => ?_,
    hle, htops⟩
  · rw [hkind] at haccepted hreplaced hnew
    cases hc : c.kind with
    | new => exact absurd (congrArg Command.Kind.done hc) haccepted
    | cancel => exact absurd (congrArg Command.Kind.done hc) hnew
    | replace => exact absurd (congrArg Command.Kind.done hc) hreplaced
  · rw [hwho]
    exact htakers
  · rw [hwho]
    exact htaker
  · rw [hkills, hqty]
    exact hiff
  · rw [hid, hqty]
    exact htotal

/-- A live order between commands may rest, so a Replace of it kills nothing. -/
theorem Replaces.kills (h : Replaces w c i) (hloose : w.loose = []) : w.e.kills c = false := by
  have hfind : w.e.pool.find c.orderId = some i := (w.rep.find_eq_some_iff _).2 ⟨h.owned.lt, h.owned.live, h.owned.id⟩
  have hqueued := w.rep.queued _ _ _ i (h.owned.mem hloose)
  simp [Engine.kills, h.kind, hfind, hqueued.type, hqueued.tif]

theorem Processed.answer (h : Processed now c w w' log) (hloose : w.loose = []) (tops : List Event)
    (hle : tops.length ≤ 1) (htops : ∀ ev ∈ tops, ev.kind = .top) :
    ∃ direct triples killed, log.map Emission.event = direct :: (triples.flatMap Triple.events ++ killed) ∧
      Answer w.e w'.e c direct triples killed tops := by
  cases h with
  | refused hrefused hidle =>
      refine ⟨_, [], [], rfl, .of_quiet rfl (.inr rfl) (fun hkind => ?_) hle htops⟩
      rcases hkind with hkind | hkind <;> cases hkind
  | @accepted i w₁ log hnew hadmitted hmatched =>
      have hslot : w₁.e.pool.slots i = c.order (w.e.pool.slots i).gen i := by rw [hadmitted.slots', Function.update_self]
      have hkills : w.e.kills c = true ↔ (w₁.e.pool.slots i).type = .market ∨ (w₁.e.pool.slots i).tif = .ioc := by
        rw [hslot, Engine.kills, hnew.kind]
        exact decide_eq_true_iff
      have hsession : (w₁.e.pool.slots i).session = c.session := by rw [hslot]; rfl
      obtain ⟨triples, killed, hlog, hanswer⟩ := hmatched.answers (Engine.base now .accepted (w₁.e.pool.slots i)) hsession
        (by rw [hnew.kind]; rfl) (fun hcon => by cases hcon) rfl rfl hkills hle htops
      exact ⟨_, triples, killed, by rw [List.map_cons, hlog], hanswer⟩
  | @cancelled i w₁ hkind howned htaken hfreed =>
      refine ⟨_, [], [], rfl, .of_quiet ?_ (.inl (by rw [hkind]; rfl)) (fun hcon => ?_) hle htops⟩
      · exact ((htaken.slots i).read Order.session fun _ _ => rfl).trans howned.session
      · rcases hcon with hcon | hcon <;> cases hcon
  | @reduced i hreplaces hprice hqty hreduced =>
      have hslot := hreduced.slot
      have hcapacity : w'.e.pool.capacity = w.e.pool.capacity := by rw [hreduced.pool']; rfl
      refine ⟨_, [], [], rfl, .of_quiet ?_ (.inl (by rw [hreplaces.kind]; rfl)) (fun _ => ⟨hreplaces.kills hloose, ?_⟩) hle htops⟩
      · exact (by rw [hslot] : (w'.e.pool.slots i).session = (w.e.pool.slots i).session).trans hreplaces.owned.session
      · exact w'.left_live (hcapacity ▸ hreplaces.owned.lt) (by rw [hslot]; exact hreplaces.owned.live)
  | @replaced i w₁ w₂ log hreplaces hmoves htaken hrepriced hmatched =>
      have hsession : (w₂.e.pool.slots i).session = c.session := by
        rw [hrepriced.slot]
        exact ((htaken.slots i).read Order.session fun _ _ => rfl).trans hreplaces.owned.session
      obtain ⟨htype, htif⟩ := hrepriced.limit htaken
      have hkills : w.e.kills c = true ↔ (w₂.e.pool.slots i).type = .market ∨ (w₂.e.pool.slots i).tif = .ioc := by
        rw [hreplaces.kills hloose, htype, htif]
        decide
      obtain ⟨triples, killed, hlog, hanswer⟩ := hmatched.answers (Engine.base now .replaced (w₂.e.pool.slots i)) hsession
        (by rw [hreplaces.kind]; rfl) (fun hcon => by cases hcon) rfl rfl hkills hle htops
      exact ⟨_, triples, killed, by rw [List.map_cons, hlog], hanswer⟩

end Commands

/-! ### Whole runs -/

/-- What the fills of one side of a symbol amount to. -/
def fillQty (k : Nat) (s : Side) (events : List Event) : Nat :=
  ((events.filter fun ev => ev.kind = .fill ∧ ev.side = s ∧ ev.symbol = k).map fun ev => ev.qty).sum

/-- What the trades of a symbol amount to. -/
def tradeQty (k : Nat) (events : List Event) : Nat :=
  ((events.filter fun ev => ev.kind = .trade ∧ ev.symbol = k).map fun ev => ev.qty).sum

/-- As much is bought as is sold, and all of it is on the tape. -/
def Balanced (k : Nat) (events : List Event) : Prop := ∀ s, fillQty k s events = tradeQty k events

section Balance

variable {k : Nat} {events more : List Event}

theorem Balanced.append (h : Balanced k events) (h' : Balanced k more) : Balanced k (events ++ more) := by
  intro s
  have hs := h s
  have hs' := h' s
  simp only [fillQty, tradeQty, List.filter_append, List.map_append, List.sum_append] at hs hs' ⊢
  omega

theorem Balanced.of_kind (h : ∀ ev ∈ events, ev.kind ≠ .fill ∧ ev.kind ≠ .trade) : Balanced k events := by
  intro s
  have hfill : events.filter (fun ev => ev.kind = .fill ∧ ev.side = s ∧ ev.symbol = k) = [] := by
    apply List.filter_eq_nil_iff.2
    intro ev hev
    simp [(h ev hev).1]
  have htrade : events.filter (fun ev => ev.kind = .trade ∧ ev.symbol = k) = [] := by
    apply List.filter_eq_nil_iff.2
    intro ev hev
    simp [(h ev hev).2]
  rw [fillQty, tradeQty, hfill, htrade]

theorem Triple.balanced (t : Triple) (k : Nat) : Balanced k t.events := by
  intro s
  have hmaker := t.maker_kind.1
  have htaker := t.taker_kind.1
  have htrade := t.trade_kind
  have hside := t.side
  obtain ⟨hqty, hqty'⟩ := t.qty
  obtain ⟨hsymbol, hsymbol'⟩ := t.symbol
  simp only [fillQty, tradeQty, events, List.filter_cons, List.filter_nil, hmaker, htaker, htrade, hside, hsymbol, hsymbol']
  by_cases hk : t.maker.symbol = k
  · cases s <;> cases htside : t.taker.side <;> simp [hk, opposite, hqty, hqty']
  · simp [hk]

theorem Triple.balanced_flatMap (triples : List Triple) (k : Nat) : Balanced k (triples.flatMap Triple.events) := by
  induction triples with
  | nil => exact fun _ => rfl
  | cons t triples ih =>
      rw [List.flatMap_cons]
      exact (t.balanced k).append ih

theorem Answer.balanced {e e' : Engine} {c : Command} {direct : Event} {triples : List Triple} {killed tops : List Event}
    (h : Answer e e' c direct triples killed tops) (k : Nat) :
    Balanced k (direct :: (triples.flatMap Triple.events ++ killed) ++ tops) := by
  have hdirect : Balanced k [direct] := by
    apply Balanced.of_kind
    intro ev hev
    rw [List.mem_singleton.1 hev]
    rcases h.kind with hkind | hkind
    · rw [hkind]
      cases c.kind <;> decide
    · rw [hkind]
      decide
  have hkilled : Balanced k killed := by
    apply Balanced.of_kind
    intro ev hev
    rw [(h.killed_taker ev hev).1]
    decide
  have htops : Balanced k tops := by
    apply Balanced.of_kind
    intro ev hev
    rw [h.tops_kind ev hev]
    decide
  exact (hdirect.append ((Triple.balanced_flatMap triples k).append hkilled)).append htops

end Balance

theorem Ledger.answers (w : Ledger) (hloose : w.loose = []) (now : Nat) (c : Command) :
    ∃ direct triples killed tops,
      (w.e.process now c).2.map Emission.event = direct :: (triples.flatMap Triple.events ++ killed) ++ tops ∧
      Answer w.e (w.e.process now c).1 c direct triples killed tops := by
  obtain ⟨w', log, tops, hprocessed, hw', hlog, hreported⟩ := w.process_reported hloose now c
  obtain ⟨direct, triples, killed, hanswer, hshape⟩ := hprocessed.answer hloose (tops.map Emission.event)
    (by rw [List.length_map]; exact hreported.length_le) fun ev hev => by
      obtain ⟨t, ht, rfl⟩ := List.mem_map.1 hev
      exact (hreported.isTop t ht).1
  refine ⟨direct, triples, killed, tops.map Emission.event, ?_, ?_⟩
  · rw [hlog, List.map_append, hanswer]
  · rw [← hw']
    exact hshape

theorem Ledger.log_balanced (cmds : List (Nat × Command)) (w : Ledger) (hloose : w.loose = []) (k : Nat) :
    Balanced k ((w.e.log cmds).map Emission.event) := by
  induction cmds generalizing w with
  | nil => exact fun _ => rfl
  | cons cmd cmds ih =>
      obtain ⟨now, c⟩ := cmd
      obtain ⟨w', log, tops, hprocessed, hw', -, -⟩ := w.process hloose now c
      obtain ⟨direct, triples, killed, tops, hevents, hanswer⟩ := w.answers hloose now c
      rw [Engine.log, List.map_append, hevents, ← hw']
      exact (hanswer.balanced k).append (ih w' (hprocessed.loose hloose))

/-- In every state that a run of a fresh engine reaches, every command is answered in this shape; and over the whole run as much of every symbol is bought as is sold and reported as traded. -/
theorem Engine.run_answers (cfg : Engine.Config) (cmds : List (Nat × Command)) :
    (∀ now c, ∃ direct triples killed tops,
      (((Engine.init cfg).run cmds).process now c).2.map Emission.event =
        direct :: (triples.flatMap Triple.events ++ killed) ++ tops ∧
      Answer ((Engine.init cfg).run cmds) (((Engine.init cfg).run cmds).process now c).1 c direct triples killed tops) ∧
    ∀ k s, fillQty k s (((Engine.init cfg).log cmds).map Emission.event) =
      tradeQty k (((Engine.init cfg).log cmds).map Emission.event) := by
  obtain ⟨w, hw, hloose⟩ := Engine.run_ledger cfg cmds
  refine ⟨fun now c => ?_, fun k s => ?_⟩
  · have hanswers := w.answers hloose now c
    rw [hw] at hanswers
    exact hanswers
  · exact (Ledger.init cfg).log_balanced cmds rfl k s

end Matchbox
