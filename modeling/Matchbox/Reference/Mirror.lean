import Matchbox.Reference.Execute

/-!
# One symbol of the reference, under other identifiers

`Mirror k ren r r'` says that `r'` holds what `r` holds on symbol `k` and nothing else, each order under the identifier that `ren` gives it. Books meet in one place only, the directory of tickets, and it is read by identifier. So a command on symbol `k` does the same to both references, and a command on another symbol does nothing that `r'` has to follow.

The one thing the symbols share is the number of resting orders. It is left out of the relation, and a New finds room in `r'` by assumption.
-/

namespace Matchbox

open Sweep

/-! ### Events under other identifiers -/

/-- The events about an accepted order. -/
def Event.Kind.ofOrder : Event.Kind → Bool
  | .accepted | .fill | .cancelled | .replaced => true
  | .rejected | .trade | .top => false

/-- The same event, about the same order under another identifier. A rejection repeats the identifier of its command. -/
structure Event.Matches (ren : Nat → Option Nat) (ev ev' : Event) : Prop where
  same : { ev' with orderId := ev.orderId } = ev
  renamed : ev.kind.ofOrder = true → ren ev.orderId = some ev'.orderId
  repeated : ev.kind.ofOrder = false → ev'.orderId = ev.orderId ∨ ren ev.orderId = some ev'.orderId

namespace Reference

/-- The books and tickets of symbol `k`, renamed. -/
structure Mirror (k : Nat) (ren : Nat → Option Nat) (r r' : Reference) : Prop where
  cfg : r'.cfg = r.cfg
  inj : ∀ {a b x}, ren a = some x → ren b = some x → a = b
  books : ∀ s p, List.Forall₂ (Entry.Rel fun id id' => ren id = some id') (r.books k s p) (r'.books k s p)
  alone : ∀ j, j ≠ k → ∀ s p, r'.books j s p = []
  ticket : ∀ {id id'}, ren id = some id' → r'.tickets id' = r.tickets id
  symbol : ∀ {id id' t}, ren id = some id' → r.tickets id = some t → t.symbol = k
  known : ∀ {id t}, r.tickets id = some t → t.symbol = k → ∃ id', ren id = some id'

theorem setSide_books (r : Reference) (k : Nat) (s : Side) (f : Int → List (Entry Nat)) (k' : Nat) (s' : Side) :
    (r.setSide k s f).books k' s' = if k' = k ∧ s' = s then f else r.books k' s' := by
  rw [setSide]
  by_cases hk : k' = k
  · subst hk
    by_cases hs : s' = s
    · subst hs
      simp
    · simp [hs]
  · simp [hk]

theorem process_found (r : Reference) {c : Command} (hkind : c.kind ≠ .new) (id : Nat) :
    r.process c id =
      match r.tickets c.orderId with
      | none => (r, [reject c .unknownOrder])
      | some t =>
          if t.session ≠ c.session then (r, [reject c .notOwner])
          else if c.kind = .cancel then r.onCancel c t else r.onReplace c t := by
  rw [process]
  cases hcase : c.kind with
  | new => exact absurd hcase hkind
  | cancel => rfl
  | replace => rfl

namespace Mirror

variable {k : Nat} {ren : Nat → Option Nat} {r r' : Reference}

theorem id_eq_iff (h : Mirror k ren r r') {a a' b b' : Nat} (ha : ren a = some a') (hb : ren b = some b') :
    a' = b' ↔ a = b := by
  constructor
  · intro heq
    exact h.inj (heq ▸ ha) hb
  · intro heq
    rw [heq, hb] at ha
    exact (Option.some.inj ha).symm

theorem extend (h : Mirror k ren r r') {id id' : Nat} (hid : ren id = none) (hid' : ∀ x, ren x ≠ some id')
    (hticket : r.tickets id = none) (hticket' : r'.tickets id' = none) :
    Mirror k (Function.update ren id (some id')) r r' := by
  have hold : ∀ {a a'}, ren a = some a' → Function.update ren id (some id') a = some a' := by
    intro a a' ha
    have hne : a ≠ id := by
      rintro rfl
      rw [hid] at ha
      cases ha
    rw [Function.update_of_ne hne]
    exact ha
  have hsplit : ∀ {a a'}, Function.update ren id (some id') a = some a' → a = id ∧ a' = id' ∨ ren a = some a' := by
    intro a a' ha
    by_cases heq : a = id
    · subst heq
      rw [Function.update_self] at ha
      exact .inl ⟨rfl, (Option.some.inj ha).symm⟩
    · rw [Function.update_of_ne heq] at ha
      exact .inr ha
  constructor
  case cfg => exact h.cfg
  case inj =>
    intro a b x ha hb
    rcases hsplit ha with ⟨rfl, rfl⟩ | ha'
    · rcases hsplit hb with ⟨rfl, -⟩ | hb'
      · rfl
      · exact absurd hb' (hid' b)
    · rcases hsplit hb with ⟨rfl, rfl⟩ | hb'
      · exact absurd ha' (hid' a)
      · exact h.inj ha' hb'
  case books => exact fun s p => (h.books s p).imp fun x y hxy => ⟨hold hxy.id, hxy.qty⟩
  case alone => exact h.alone
  case ticket =>
    intro a a' ha
    rcases hsplit ha with ⟨rfl, rfl⟩ | ha'
    · rw [hticket, hticket']
    · exact h.ticket ha'
  case symbol =>
    intro a a' t ha ht
    rcases hsplit ha with ⟨rfl, rfl⟩ | ha'
    · rw [hticket] at ht
      cases ht
    · exact h.symbol ha' ht
  case known =>
    intro a t ht hsymbol
    obtain ⟨a', ha'⟩ := h.known ht hsymbol
    exact ⟨a', hold ha'⟩

/-! ### Steps of both -/

theorem update (h : Mirror k ren r r') {m m' : Nat} (hm : ren m = some m') {o : Option Ticket}
    (ho : ∀ t, o = some t → t.symbol = k) (n n' : Nat) :
    Mirror k ren { r with tickets := Function.update r.tickets m o, live := n }
      { r' with tickets := Function.update r'.tickets m' o, live := n' } := by
  refine ⟨h.cfg, h.inj, h.books, h.alone, ?_, ?_, ?_⟩
  · intro id id' hid
    change Function.update r'.tickets m' o id' = Function.update r.tickets m o id
    by_cases heq : id = m
    · rw [(h.id_eq_iff hid hm).mpr heq, heq, Function.update_self, Function.update_self]
    · rw [Function.update_of_ne heq, Function.update_of_ne (mt (h.id_eq_iff hid hm).mp heq)]
      exact h.ticket hid
  · intro id id' t hid ht
    change Function.update r.tickets m o id = some t at ht
    by_cases heq : id = m
    · rw [heq, Function.update_self] at ht
      exact ho t ht
    · rw [Function.update_of_ne heq] at ht
      exact h.symbol hid ht
  · intro id t ht hsymbol
    change Function.update r.tickets m o id = some t at ht
    by_cases heq : id = m
    · exact ⟨m', heq ▸ hm⟩
    · rw [Function.update_of_ne heq] at ht
      exact h.known ht hsymbol

theorem close (h : Mirror k ren r r') {m m' : Nat} (hm : ren m = some m') : Mirror k ren (r.close m) (r'.close m') :=
  h.update hm (fun _ ht => by cases ht) _ _

theorem setSide (h : Mirror k ren r r') (s : Side) {f f' : Int → List (Entry Nat)}
    (hf : ∀ p, List.Forall₂ (Entry.Rel fun id id' => ren id = some id') (f p) (f' p)) :
    Mirror k ren (r.setSide k s f) (r'.setSide k s f') := by
  refine ⟨h.cfg, h.inj, fun s' p => ?_, fun j hj s' p => ?_, h.ticket, h.symbol, h.known⟩
  · rw [setSide_books, setSide_books]
    split
    · exact hf p
    · exact h.books s' p
  · rw [setSide_books, if_neg fun heq => hj heq.1]
    exact h.alone j hj s' p

theorem setQueue (h : Mirror k ren r r') (s : Side) (p : Int) {xs xs' : List (Entry Nat)}
    (hxs : List.Forall₂ (Entry.Rel fun id id' => ren id = some id') xs xs') :
    Mirror k ren (r.setQueue k s p xs) (r'.setQueue k s p xs') := by
  apply h.setSide
  intro p'
  by_cases heq : p' = p
  · rw [heq, Function.update_self, Function.update_self]
    exact hxs
  · rw [Function.update_of_ne heq, Function.update_of_ne heq]
    exact h.books s p'

variable {id id' : Nat} {t : Ticket}

theorem rest (h : Mirror k ren r r') (hid : ren id = some id') (ht : t.symbol = k) (qty : Nat) :
    Mirror k ren (r.rest id t qty) (r'.rest id' t qty) := by
  subst ht
  have hback : List.Forall₂ (Entry.Rel fun id id' => ren id = some id') [⟨id, qty⟩] [⟨id', qty⟩] :=
    .cons ⟨hid, rfl⟩ .nil
  have hqueue := h.setQueue t.side t.price (List.rel_append (h.books t.side t.price) hback)
  exact hqueue.update hid (fun t' ht' => by rw [Option.some.inj ht']) _ _

theorem event_matches (k : Event.Kind) (hid : ren id = some id') (t : Ticket) (qty : Nat) :
    (event k id t qty).Matches ren (event k id' t qty) :=
  ⟨rfl, fun _ => hid, fun _ => .inr hid⟩

theorem tradeEvents_matches (hid : ren id = some id') (t m : Ticket) {trade trade' : Trade Int Nat}
    (h : trade.Rel (fun id id' => ren id = some id') trade') :
    List.Forall₂ (Event.Matches ren) (tradeEvents id t m trade) (tradeEvents id' t m trade') := by
  obtain ⟨hprice, hmaker, hqty, hmakerLeft, htakerLeft⟩ := h
  rw [tradeEvents, tradeEvents, hprice, hqty, hmakerLeft, htakerLeft]
  exact .cons ⟨rfl, fun _ => hmaker, fun _ => .inr hmaker⟩
    (.cons ⟨rfl, fun _ => hid, fun _ => .inr hid⟩ (.cons ⟨rfl, fun hkind => (by cases hkind), fun _ => .inl rfl⟩ .nil))

theorem settle (h : Mirror k ren r r') (hid : ren id = some id') (t : Ticket) {trades trades' : List (Trade Int Nat)}
    (htrades : List.Forall₂ (Trade.Rel fun id id' => ren id = some id') trades trades') :
    Mirror k ren (settle id t trades r).1 (Reference.settle id' t trades' r').1 ∧
      List.Forall₂ (Event.Matches ren) (Reference.settle id t trades r).2 (Reference.settle id' t trades' r').2 := by
  induction htrades generalizing r r' with
  | nil => exact ⟨h, .nil⟩
  | @cons trade trade' trades trades' htrade _ ih =>
    have hclosed : Mirror k ren (if trade.makerLeft = 0 then r.close trade.maker else r)
        (if trade'.makerLeft = 0 then r'.close trade'.maker else r') := by
      rw [htrade.makerLeft]
      split
      · exact h.close htrade.maker
      · exact h
    obtain ⟨hrest, hevents⟩ := ih hclosed
    refine ⟨hrest, List.rel_append ?_ hevents⟩
    rw [h.ticket htrade.maker]
    cases r.tickets trade.maker with
    | none => exact .nil
    | some m => exact tradeEvents_matches hid t m htrade

theorem execute (h : Mirror k ren r r') (hid : ren id = some id') (ht : t.symbol = k) (type : OrderType) (tif : Tif)
    (qty : Nat) :
    Mirror k ren (r.execute id t type tif qty).1 (r'.execute id' t type tif qty).1 ∧
      List.Forall₂ (Event.Matches ren) (r.execute id t type tif qty).2 (r'.execute id' t type tif qty).2 := by
  subst ht
  have hswept := sweep_rel (reaches type t) (prices r.cfg (opposite t.side)) (h.books (opposite t.side)) qty
  obtain ⟨hsettled, hevents⟩ := h.settle hid t hswept.trades
  have hside := hsettled.setSide (opposite t.side) hswept.queues
  simp only [Reference.execute, h.cfg, hswept.left]
  split
  · exact ⟨hside, hevents⟩
  · split
    · exact ⟨hside.rest hid rfl _, hevents⟩
    · exact ⟨hside, List.rel_append hevents (.cons (event_matches _ hid t _) .nil)⟩

theorem remaining (h : Mirror k ren r r') (hid : ren id = some id') (ht : t.symbol = k) :
    r'.remaining id' t = r.remaining id t := by
  subst ht
  rw [Reference.remaining, Reference.remaining]
  have hbooks := h.books t.side t.price
  generalize r.books t.symbol t.side t.price = xs at hbooks
  generalize r'.books t.symbol t.side t.price = ys at hbooks
  induction hbooks with
  | nil => rfl
  | @cons x y xs ys hxy _ ih =>
    have hsame := h.id_eq_iff hxy.id hid
    rw [List.find?_cons, List.find?_cons]
    by_cases hx : x.id = id
    · simp only [hx, hsame.mpr hx, decide_true, Option.elim_some]
      exact hxy.qty
    · simp only [hx, mt hsame.mp hx, decide_false]
      exact ih

theorem delete (h : Mirror k ren r r') (hid : ren id = some id') (ht : t.symbol = k) :
    Mirror k ren (r.delete id t) (r'.delete id' t) := by
  subst ht
  apply close _ hid
  apply h.setQueue
  apply List.rel_filter _ (h.books t.side t.price)
  intro x y hxy
  simp only [ne_eq, decide_eq_true_eq]
  exact not_congr (h.id_eq_iff hxy.id hid).symm

/-! ### Commands on the symbol -/

variable {c : Command}

theorem reject_matches (hid : ren c.orderId = some id') (reason : RejectReason) :
    (reject c reason).Matches ren (reject { c with orderId := id' } reason) :=
  ⟨rfl, fun hkind => (by cases hkind), fun _ => .inr hid⟩

theorem onCancel (h : Mirror k ren r r') (hid : ren c.orderId = some id') (ht : t.symbol = k) :
    Mirror k ren (r.onCancel c t).1 (r'.onCancel { c with orderId := id' } t).1 ∧
      List.Forall₂ (Event.Matches ren) (r.onCancel c t).2 (r'.onCancel { c with orderId := id' } t).2 := by
  refine ⟨h.delete hid ht, ?_⟩
  rw [Reference.onCancel, Reference.onCancel, h.remaining hid ht]
  exact .cons (event_matches _ hid t _) .nil

theorem onReplace (h : Mirror k ren r r') (hid : ren c.orderId = some id') (ht : t.symbol = k) :
    Mirror k ren (r.onReplace c t).1 (r'.onReplace { c with orderId := id' } t).1 ∧
      List.Forall₂ (Event.Matches ren) (r.onReplace c t).2 (r'.onReplace { c with orderId := id' } t).2 := by
  have hsame := h.remaining hid ht
  simp only [Reference.onReplace, h.cfg, hsame]
  split
  · exact ⟨h, .cons (reject_matches hid _) .nil⟩
  · split
    · exact ⟨h, .cons (reject_matches hid _) .nil⟩
    · split
      · subst ht
        refine ⟨h.setQueue _ _ ?_, .cons (event_matches _ hid t _) .nil⟩
        apply List.rel_map _ (h.books t.side t.price)
        intro x y hxy
        dsimp only
        by_cases hx : x.id = c.orderId
        · rw [if_pos hx, if_pos ((h.id_eq_iff hxy.id hid).mpr hx)]
          exact ⟨hid, rfl⟩
        · rw [if_neg hx, if_neg (mt (h.id_eq_iff hxy.id hid).mp hx)]
          exact hxy
      · obtain ⟨hdone, hevents⟩ := (h.delete hid ht).execute (t := { t with price := c.price }) hid ht .limit .gtc c.qty
        exact ⟨hdone, .cons (event_matches _ hid _ _) hevents⟩

/-- A Cancel or Replace of an order of symbol `k`, resting or not. -/
theorem process (h : Mirror k ren r r') (hkind : c.kind ≠ .new) (hid : ren c.orderId = some id') (n n' : Nat) :
    Mirror k ren (r.process c n).1 (r'.process { c with orderId := id' } n').1 ∧
      List.Forall₂ (Event.Matches ren) (r.process c n).2 (r'.process { c with orderId := id' } n').2 := by
  rw [process_found r hkind, process_found r' (c := { c with orderId := id' }) hkind]
  dsimp only
  rw [h.ticket hid]
  cases hticket : r.tickets c.orderId with
  | none => exact ⟨h, .cons (reject_matches hid _) .nil⟩
  | some t =>
    have ht := h.symbol hid hticket
    dsimp only
    split
    · exact ⟨h, .cons (reject_matches hid _) .nil⟩
    · split
      · exact h.onCancel hid ht
      · exact h.onReplace hid ht

/-- A New on symbol `k` is rejected by both, or accepted by both under the two fresh identifiers. -/
theorem onNew (h : Mirror k ren r r') (hsymbol : c.symbol = k) (hid : ren id = none) (hid' : ∀ x, ren x ≠ some id')
    (hticket : r.tickets id = none) (hticket' : r'.tickets id' = none)
    (hroom : c.symbol < r.cfg.symbols → r.live ≠ r.cfg.maxOrders → r'.live ≠ r.cfg.maxOrders)
    (hnotFull : ∀ ev ∈ (r.onNew c id).2, ev.reason ≠ .bookFull) :
    (∃ reason, r.onNew c id = (r, [reject c reason]) ∧ r'.onNew c id' = (r', [reject c reason])) ∨
      Mirror k (Function.update ren id (some id')) (r.onNew c id).1 (r'.onNew c id').1 ∧
        ∃ t events events', (r.onNew c id).2 = event .accepted id t c.qty :: events ∧
          (r'.onNew c id').2 = event .accepted id' t c.qty :: events' ∧
          List.Forall₂ (Event.Matches (Function.update ren id (some id'))) events events' := by
  simp only [Reference.onNew, h.cfg] at hnotFull ⊢
  split at hnotFull
  · rename_i hbad
    rw [if_pos hbad, if_pos hbad]
    exact .inl ⟨_, rfl, rfl⟩
  · rename_i hvalid
    rw [if_neg hvalid, if_neg hvalid]
    split at hnotFull
    · rename_i hbad
      rw [if_pos hbad, if_pos hbad]
      exact .inl ⟨_, rfl, rfl⟩
    · rename_i hqty
      rw [if_neg hqty, if_neg hqty]
      split at hnotFull
      · rename_i hbad
        rw [if_pos hbad, if_pos hbad]
        exact .inl ⟨_, rfl, rfl⟩
      · rename_i hprice
        rw [if_neg hprice, if_neg hprice]
        split at hnotFull
        · exact absurd rfl (hnotFull _ (List.mem_singleton_self _))
        · rename_i hlive
          rw [if_neg hlive, if_neg (hroom (not_le.mp hvalid) hlive)]
          have hextended := h.extend hid hid' hticket hticket'
          have hname : Function.update ren id (some id') id = some id' := Function.update_self _ _ _
          obtain ⟨hdone, hevents⟩ := hextended.execute
            (t := ⟨c.tag, c.session, c.symbol, c.side, if c.type = .limit then c.price else 0⟩) hname hsymbol c.type c.tif
            c.qty
          exact .inr ⟨hdone, _, _, _, rfl, rfl, hevents⟩

/-! ### Commands on other symbols -/

theorem update_other (h : Mirror k ren r r') {m : Nat} (hm : ren m = none) {o : Option Ticket}
    (ho : ∀ t, o = some t → t.symbol ≠ k) (n : Nat) :
    Mirror k ren { r with tickets := Function.update r.tickets m o, live := n } r' := by
  have hne : ∀ {a a'}, ren a = some a' → a ≠ m := by
    rintro a a' ha rfl
    rw [hm] at ha
    cases ha
  refine ⟨h.cfg, h.inj, h.books, h.alone, ?_, ?_, ?_⟩
  · intro a a' ha
    change _ = Function.update r.tickets m o a
    rw [Function.update_of_ne (hne ha)]
    exact h.ticket ha
  · intro a a' t ha ht
    change Function.update r.tickets m o a = some t at ht
    rw [Function.update_of_ne (hne ha)] at ht
    exact h.symbol ha ht
  · intro a t ht hsymbol
    change Function.update r.tickets m o a = some t at ht
    by_cases heq : a = m
    · rw [heq, Function.update_self] at ht
      exact absurd hsymbol (ho t ht)
    · rw [Function.update_of_ne heq] at ht
      exact h.known ht hsymbol

theorem close_other (h : Mirror k ren r r') {m : Nat} (hm : ren m = none) : Mirror k ren (r.close m) r' :=
  h.update_other hm (fun _ ht => by cases ht) _

theorem setSide_other (h : Mirror k ren r r') {j : Nat} (hj : j ≠ k) (s : Side) (f : Int → List (Entry Nat)) :
    Mirror k ren (r.setSide j s f) r' := by
  refine ⟨h.cfg, h.inj, fun s' p => ?_, h.alone, h.ticket, h.symbol, h.known⟩
  rw [setSide_books, if_neg fun heq => hj heq.1.symm]
  exact h.books s' p

theorem rest_other (h : Mirror k ren r r') (hid : ren id = none) (ht : t.symbol ≠ k) (qty : Nat) :
    Mirror k ren (r.rest id t qty) r' :=
  (h.setSide_other ht t.side _).update_other hid (fun t' ht' => by rw [← Option.some.inj ht']; exact ht) _

theorem settle_other (h : Mirror k ren r r') (id : Nat) (t : Ticket) {trades : List (Trade Int Nat)}
    (htrades : ∀ trade ∈ trades, ren trade.maker = none) : Mirror k ren (Reference.settle id t trades r).1 r' := by
  induction trades generalizing r with
  | nil => exact h
  | cons trade trades ih =>
    have hrest : ∀ trade ∈ trades, ren trade.maker = none := fun x hx => htrades x (List.mem_cons_of_mem _ hx)
    rw [Reference.settle]
    split
    · exact ih (h.close_other (htrades trade List.mem_cons_self)) hrest
    · exact ih h hrest

theorem execute_other (h : Mirror k ren r r') (hid : ren id = none) (ht : t.symbol ≠ k)
    (hmakers : ∀ s p, ∀ x ∈ r.books t.symbol s p, ren x.id = none) (type : OrderType) (tif : Tif) (qty : Nat) :
    Mirror k ren (r.execute id t type tif qty).1 r' := by
  have htrades := sweep_makers (P := fun m => ren m = none) (reaches type t)
    (prices r.cfg (opposite t.side)) (hmakers (opposite t.side)) qty
  have hside := (h.settle_other id t htrades).setSide_other ht (opposite t.side)
    (sweep (reaches type t) (prices r.cfg (opposite t.side)) (r.books t.symbol (opposite t.side)) qty).queues
  rw [Reference.execute]
  split
  · exact hside
  · split
    · exact hside.rest_other hid ht _
    · exact hside

theorem delete_other (h : Mirror k ren r r') (hid : ren id = none) (ht : t.symbol ≠ k) : Mirror k ren (r.delete id t) r' :=
  (h.setSide_other ht t.side _).close_other hid

theorem mem_delete_books {j : Nat} {s : Side} {p : Int} {x : Entry Nat} (hx : x ∈ (r.delete id t).books j s p) :
    x ∈ r.books j s p := by
  change x ∈ (r.setQueue t.symbol t.side t.price _).books j s p at hx
  rw [setQueue_books] at hx
  split at hx
  · rename_i heq
    obtain ⟨rfl, rfl, rfl⟩ := heq
    exact List.mem_of_mem_filter hx
  · exact hx

theorem onNew_other (h : Mirror k ren r r') (hsymbol : c.symbol ≠ k) (hid : ren id = none)
    (hmakers : ∀ s p, ∀ x ∈ r.books c.symbol s p, ren x.id = none) : Mirror k ren (r.onNew c id).1 r' := by
  rw [Reference.onNew]
  split
  · exact h
  · split
    · exact h
    · split
      · exact h
      · split
        · exact h
        · exact h.execute_other hid hsymbol hmakers c.type c.tif c.qty

theorem onReplace_other (h : Mirror k ren r r') (hid : ren c.orderId = none) (ht : t.symbol ≠ k)
    (hmakers : ∀ s p, ∀ x ∈ r.books t.symbol s p, ren x.id = none) : Mirror k ren (r.onReplace c t).1 r' := by
  rw [Reference.onReplace]
  split
  · exact h
  · split
    · exact h
    · split
      · exact h.setSide_other ht t.side _
      · exact (h.delete_other hid ht).execute_other (t := { t with price := c.price }) hid ht
          (fun s p x hx => hmakers s p x (mem_delete_books hx)) .limit .gtc c.qty

/-- A command that is not about symbol `k`. -/
theorem process_other (h : Mirror k ren r r') (hnew : c.kind = .new → c.symbol ≠ k)
    (hother : c.kind ≠ .new → ren c.orderId = none) (hid : ren id = none)
    (hmakers : ∀ j, j ≠ k → ∀ s p, ∀ x ∈ r.books j s p, ren x.id = none) : Mirror k ren (r.process c id).1 r' := by
  by_cases hkind : c.kind = .new
  · have hprocess : r.process c id = r.onNew c id := by
      rw [Reference.process, hkind]
    rw [hprocess]
    exact h.onNew_other (hnew hkind) hid (hmakers _ (hnew hkind))
  · rw [process_found r hkind]
    cases hticket : r.tickets c.orderId with
    | none => exact h
    | some t =>
      -- an order of symbol `k` would have a name
      have ht : t.symbol ≠ k := by
        intro hsymbol
        obtain ⟨id', hid'⟩ := h.known hticket hsymbol
        rw [hother hkind] at hid'
        cases hid'
      dsimp only
      split
      · exact h
      · split
        · exact h.delete_other (hother hkind) ht
        · exact h.onReplace_other (hother hkind) ht (hmakers _ ht)

end Mirror

end Reference

end Matchbox
