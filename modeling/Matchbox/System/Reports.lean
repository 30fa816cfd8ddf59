import Matchbox.Safety.Identity
import Matchbox.Safety.Replace
import Matchbox.Safety.Top
import Matchbox.System.Routing

/-!
# What a Top event says

A Top event names a symbol of the engine and carries the top of its book as some command left it, and the values are such that the fields of the wire can hold them. The last one of a symbol is the top of its book now.
-/

namespace Matchbox

open Wire

variable {cfg : Engine.Config} {cmds : List (Nat × Command)}

theorem Ledger.subject_lt (w : Ledger) (hloose : w.loose = []) {c : Command} {k : Nat} (h : w.e.subject c = some k) :
    k < w.e.cfg.symbols := by
  by_cases hkind : c.kind = .new
  · rw [Engine.subject, hkind] at h
    dsimp only at h
    split at h
    · cases h
    · cases h
      omega
  · rw [w.e.subject_of_ne_new hkind, Option.map_eq_some_iff] at h
    obtain ⟨i, hfind, rfl⟩ := h
    obtain ⟨hlt, hlive, -⟩ := (w.rep.find_eq_some_iff c.orderId).1 hfind
    exact (w.rep.queued _ _ _ i ((w.mem_iff hloose i _ _ _).2 ⟨hlt, hlive, rfl, rfl, rfl⟩)).symbol_lt

/-- Every report is the top of the book after a beginning of the run. -/
theorem Engine.top_of_mem_log {t : Emission} (ht : t ∈ (Engine.init cfg).log cmds) (hkind : t.event.kind = .top) :
    t.event.symbol < cfg.symbols ∧ ∃ before, before <+: cmds ∧
      t.event.top = (((Engine.init cfg).run before).books t.event.symbol).top := by
  obtain ⟨before, now, c, after, rfl, hprocess⟩ := mem_log ht
  obtain ⟨w, he, hloose⟩ := Engine.run_ledger cfg before
  obtain ⟨w', log, tops, hprocessed, hw', hlog, hreported⟩ := w.process_reported hloose now c
  rw [← he, hlog] at hprocess
  rcases List.mem_append.1 hprocess with hmem | hmem
  · exact absurd hkind (hprocessed.not_top t hmem)
  · obtain ⟨k, hsubject, rfl⟩ := hreported.eq_of_mem hmem
    have hlt := w.subject_lt hloose hsubject
    rw [he, run_cfg] at hlt
    refine ⟨hlt, before ++ [(now, c)], ⟨after, by rw [List.append_assoc]; rfl⟩, ?_⟩
    rw [he] at hw'
    rw [run_concat, ← hw']

/-- A top of the book that fits into a frame. -/
structure TopOfBook.Fits (t : TopOfBook) : Prop where
  bid : -2 ^ 63 ≤ t.bid ∧ t.bid < 2 ^ 63
  ask : -2 ^ 63 ≤ t.ask ∧ t.ask < 2 ^ 63
  bidQty : t.bidQty < 2 ^ 32
  askQty : t.askQty < 2 ^ 32

theorem Engine.run_top_fits (hprice : cfg.maxPrice < 2 ^ 63) (cmds : List (Nat × Command)) (k : Nat) :
    (((Engine.init cfg).run cmds).books k).top.Fits := by
  obtain ⟨w, he, hloose⟩ := Engine.run_ledger cfg cmds
  rw [← he]
  have hbest : ∀ s, -2 ^ 63 ≤ (w.e.books k).best s ∧ (w.e.books k).best s < 2 ^ 63 := by
    intro s
    rcases (w.rep.book k).best s with ⟨hnone, -⟩ | ⟨hsome, -⟩
    · rw [hnone]
      decide
    · obtain ⟨hlow, hhigh⟩ := (w.rep.book k).price s _ hsome
      have hcfg : w.e.cfg.maxPrice = cfg.maxPrice := by
        rw [he, run_cfg]
        rfl
      rw [w.rep.maxPrice, hcfg] at hhigh
      constructor <;> omega
  have hqty : ∀ s, (w.e.books k).top.qty s < 2 ^ 32 := by
    intro s
    rw [w.top_qty hloose]
    exact Nat.mod_lt _ (by decide)
  exact ⟨hbest .buy, hbest .sell, hqty .buy, hqty .sell⟩

/-! ### In the stream of market data -/

/-- The top of a symbol's book, if this is what a message reports. -/
def Wire.Message.topOf (k : Nat) : Message → Option TopOfBook
  | .top symbol bid ask bidQty askQty => if symbol = k then some ⟨bid, ask, bidQty, askQty⟩ else none
  | _ => none

/-- The last top reported for a symbol, the empty one if none was. -/
def lastTop (k : Nat) (ms : List Message) : TopOfBook := ((ms.filterMap (Message.topOf k)).getLast?).getD {}

theorem foldl_follow (k : Nat) (log : List Emission) (top : TopOfBook) :
    log.foldl (follow k) top =
      ((((log.map Emission.event).filterMap Event.marketData?).filterMap (Message.topOf k)).getLast?).getD top := by
  induction log using List.reverseRecOn with
  | nil => rfl
  | append_singleton log t ih =>
      have hlast : (t.event.marketData?.toList.filterMap (Message.topOf k)) =
          if t.event.kind = .top ∧ t.event.symbol = k then [t.event.top] else [] := by
        rw [Event.marketData?]
        cases hkind : t.event.kind with
        | top =>
            by_cases hsymbol : t.event.symbol = k <;> simp [Message.topOf, hsymbol]
        | _ => simp [Message.topOf]
      rw [List.foldl_append, ih, List.map_append, List.filterMap_append, List.filterMap_append]
      have hone : ([t].map Emission.event).filterMap Event.marketData? = t.event.marketData?.toList := by
        cases hm : t.event.marketData? <;> simp [hm]
      rw [hone, hlast]
      change follow k _ t = _
      rw [follow]
      split
      · rw [List.getLast?_concat]
        rfl
      · rw [List.append_nil]

/-- The last report of a symbol is the top of its book. -/
theorem Engine.lastTop_log (cmds : List (Nat × Command)) (k : Nat) :
    lastTop k ((((Engine.init cfg).log cmds).map Emission.event).filterMap Event.marketData?) =
      (((Engine.init cfg).run cmds).books k).top := by
  rw [lastTop, ← foldl_follow]
  exact Ledger.log_follow k cmds (Ledger.init cfg) rfl

theorem Engine.topOf_log {m : Message} {k : Nat} {top : TopOfBook}
    (hm : m ∈ (((Engine.init cfg).log cmds).map Emission.event).filterMap Event.marketData?) (htop : m.topOf k = some top) :
    k < cfg.symbols ∧ ∃ before, before <+: cmds ∧ top = (((Engine.init cfg).run before).books k).top := by
  obtain ⟨e, he, hmarket⟩ := List.mem_filterMap.1 hm
  obtain ⟨t, ht, rfl⟩ := List.mem_map.1 he
  rw [Event.marketData?] at hmarket
  split at hmarket
  · cases hmarket
    cases htop
  · rename_i hkind
    cases hmarket
    rw [Message.topOf] at htop
    split at htop
    · rename_i hsymbol
      cases htop
      subst hsymbol
      exact top_of_mem_log ht hkind
    · cases htop
  · cases hmarket

/-- What the gateway has published are the first of the engine's Trade and Top events. -/
theorem System.Inv.published_prefix {ecfg : Engine.Config} {s : System} (h : s.Inv ecfg) :
    s.server.publisher.published <+:
      (((Engine.init ecfg).log s.processed).map Emission.event).filterMap Event.marketData? := by
  rw [h.routes.published, ← h.log]
  exact h.isPrefix_drained.filterMap _

end Matchbox
