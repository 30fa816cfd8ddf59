import Mathlib.Algebra.Order.BigOperators.Group.List
import Mathlib.Algebra.Order.Group.Nat
import Matchbox.Safety.Consistent

/-!
# The top of the book

Two questions about what market data shows. Is the size true? `run_shows_iff` says that it is as long as what rests at the best price fits into the 32 bits of a level's counter, and never otherwise. Is it current? `run_latestTop` says that whoever keeps the last Top event of a symbol has the top of its book between any two commands.
-/

namespace Matchbox

/-! ### What rests at the best price -/

namespace OrderPool

/-- The live orders on one side of a book. -/
def onSide (pool : OrderPool) (k : Nat) (s : Side) : List Nat :=
  (List.range pool.capacity).filter fun i =>
    (pool.slots i).live = true ∧ (pool.slots i).symbol = k ∧ (pool.slots i).side = s

/-- Those of them that no other has a better price than. -/
def inFront (pool : OrderPool) (k : Nat) (s : Side) : List Nat :=
  (pool.onSide k s).filter fun i =>
    ∀ j ∈ pool.onSide k s, Book.better s (pool.slots j).price (pool.slots i).price = false

/-- What they have left, all together. -/
def frontQty (pool : OrderPool) (k : Nat) (s : Side) : Nat := ((pool.inFront k s).map fun i => (pool.slots i).qty).sum

theorem mem_onSide {pool : OrderPool} {k : Nat} {s : Side} {i : Nat} : i ∈ pool.onSide k s ↔
    i < pool.capacity ∧ (pool.slots i).live = true ∧ (pool.slots i).symbol = k ∧ (pool.slots i).side = s := by
  simp [onSide]

theorem mem_inFront {pool : OrderPool} {k : Nat} {s : Side} {i : Nat} : i ∈ pool.inFront k s ↔
    i ∈ pool.onSide k s ∧ ∀ j ∈ pool.onSide k s, Book.better s (pool.slots j).price (pool.slots i).price = false := by
  simp [inFront]

theorem nodup_inFront (pool : OrderPool) (k : Nat) (s : Side) : (pool.inFront k s).Nodup :=
  (List.nodup_range.filter _).filter _

end OrderPool

/-- The size that a top of the book shows. -/
def TopOfBook.qty (t : TopOfBook) : Side → Nat
  | .buy => t.bidQty
  | .sell => t.askQty

/-- A top of the book that tells the truth about the size of a side: all that rests at its best price, and nothing only if nothing rests. -/
structure ShowsSize (t : TopOfBook) (pool : OrderPool) (k : Nat) (s : Side) : Prop where
  qty : t.qty s = pool.frontQty k s
  empty : t.qty s = 0 ↔ pool.onSide k s = []

theorem Book.top_qty (b : Book) (s : Side) :
    b.top.qty s = if b.best s ≠ kNoPrice then (b.levels s (b.best s)).qty else 0 := by
  cases s <;> rfl

namespace Ledger

variable {w : Ledger}

theorem mem_onSide (w : Ledger) (hloose : w.loose = []) {k : Nat} {s : Side} {i : Nat} :
    i ∈ w.e.pool.onSide k s ↔ i ∈ w.q k s (w.e.pool.slots i).price := by
  rw [OrderPool.mem_onSide, w.mem_iff hloose]
  constructor
  · intro h
    exact ⟨h.1, h.2.1, h.2.2.1, h.2.2.2, rfl⟩
  · intro h
    exact ⟨h.1, h.2.1, h.2.2.1, h.2.2.2.1⟩

theorem onSide_of_mem (w : Ledger) (hloose : w.loose = []) {k : Nat} {s : Side} {p : Int} {i : Nat} (hi : i ∈ w.q k s p) :
    i ∈ w.e.pool.onSide k s ∧ (w.e.pool.slots i).price = p := by
  have hprice := (w.rep.queued k s p i hi).price
  refine ⟨(w.mem_onSide hloose).mpr ?_, hprice⟩
  rw [hprice]
  exact hi

theorem mem_inFront (w : Ledger) (hloose : w.loose = []) {k : Nat} {s : Side}
    (hbest : (w.e.books k).best s ≠ kNoPrice) {i : Nat} :
    i ∈ w.e.pool.inFront k s ↔ i ∈ w.q k s ((w.e.books k).best s) := by
  have hcached := (w.rep.book k).best s
  rw [OrderPool.mem_inFront]
  constructor
  · intro h
    obtain ⟨hside, hfront⟩ := h
    obtain ⟨j, hj⟩ := List.exists_mem_of_ne_nil _ (hcached.mem hbest)
    obtain ⟨hjside, hjprice⟩ := w.onSide_of_mem hloose hj
    have hi := (w.mem_onSide hloose).mp hside
    have hle := hfront j hjside
    rw [hjprice] at hle
    have hprice := Book.better_antisymm hle (hcached.not_better (List.ne_nil_of_mem hi))
    rw [hprice]
    exact hi
  · intro hi
    obtain ⟨hside, hprice⟩ := w.onSide_of_mem hloose hi
    refine ⟨hside, fun j hj => ?_⟩
    rw [hprice]
    exact hcached.not_better (List.ne_nil_of_mem ((w.mem_onSide hloose).mp hj))

/-- A side without a best price has no orders. -/
theorem onSide_eq_nil_iff (w : Ledger) (hloose : w.loose = []) {k : Nat} {s : Side} :
    w.e.pool.onSide k s = [] ↔ (w.e.books k).best s = kNoPrice := by
  rw [(w.rep.book k).best_eq_kNoPrice_iff]
  constructor
  · intro h p
    by_contra hne
    obtain ⟨i, hi⟩ := List.exists_mem_of_ne_nil _ hne
    have hside := (w.onSide_of_mem hloose hi).1
    rw [h] at hside
    cases hside
  · intro h
    apply List.eq_nil_iff_forall_not_mem.mpr
    intro i hi
    have hmem := (w.mem_onSide hloose).mp hi
    rw [h] at hmem
    cases hmem

/-- The size shown is the true one modulo `2 ^ 32`. -/
theorem top_qty (w : Ledger) (hloose : w.loose = []) (k : Nat) (s : Side) :
    (w.e.books k).top.qty s = w.e.pool.frontQty k s % word32 := by
  rw [Book.top_qty, OrderPool.frontQty]
  by_cases hbest : (w.e.books k).best s = kNoPrice
  · have hnone := (w.onSide_eq_nil_iff hloose).mpr hbest
    rw [if_neg (not_not.mpr hbest), OrderPool.inFront, hnone]
    rfl
  · have hperm : (w.e.pool.inFront k s).Perm (w.q k s ((w.e.books k).best s)) := by
      rw [List.perm_ext_iff_of_nodup (w.e.pool.nodup_inFront k s) ((w.rep.book k).nodup _ _)]
      intro i
      exact w.mem_inFront hloose hbest
    rw [if_pos hbest, (w.rep.book k).qty, (hperm.map _).sum_eq]

theorem frontQty_eq_zero_iff (w : Ledger) (hloose : w.loose = []) (k : Nat) (s : Side) :
    w.e.pool.frontQty k s = 0 ↔ w.e.pool.onSide k s = [] := by
  constructor
  · intro hzero
    rw [w.onSide_eq_nil_iff hloose]
    by_contra hbest
    obtain ⟨i, hi⟩ := List.exists_mem_of_ne_nil _ (((w.rep.book k).best s).mem hbest)
    have hle : (w.e.pool.slots i).qty ≤ w.e.pool.frontQty k s := by
      apply List.single_le_sum fun _ _ => Nat.zero_le _
      exact List.mem_map.mpr ⟨i, (w.mem_inFront hloose hbest).mpr hi, rfl⟩
    have hpos := w.pos _ _ _ i hi
    omega
  · intro hnone
    rw [OrderPool.frontQty, OrderPool.inFront, hnone]
    rfl

/-- Between commands a book tells the truth about the size of a side exactly when it fits into 32 bits. -/
theorem shows_iff (w : Ledger) (hloose : w.loose = []) (k : Nat) (s : Side) :
    ShowsSize (w.e.books k).top w.e.pool k s ↔ w.e.pool.frontQty k s < 2 ^ 32 := by
  have hqty := w.top_qty hloose k s
  constructor
  · intro h
    have htrue := h.qty
    rw [hqty] at htrue
    rw [← htrue]
    exact Nat.mod_lt _ (by decide)
  · intro hlt
    rw [Nat.mod_eq_of_lt hlt] at hqty
    refine ⟨hqty, ?_⟩
    rw [hqty]
    exact w.frontQty_eq_zero_iff hloose k s

end Ledger

/-! ### Every report of a run -/

theorem Matched.not_top {now i : Nat} {w w' : Ledger} {log : List Emission} (h : Matched now i w w' log) :
    ∀ t ∈ log, t.event.kind ≠ .top := by
  intro t ht
  rcases h.kind t ht with hkind | hkind | hkind <;> simp [hkind]

theorem Processed.not_top {now : Nat} {c : Command} {w w' : Ledger} {log : List Emission} (h : Processed now c w w' log) :
    ∀ t ∈ log, t.event.kind ≠ .top := by
  cases h with
  | refused _ _ => simp [Engine.reject]
  | accepted _ _ hmatched =>
    exact List.forall_mem_cons.mpr ⟨by simp [Engine.base], hmatched.not_top⟩
  | cancelled _ _ _ _ => simp [Engine.base]
  | reduced _ _ _ _ => simp [Engine.base]
  | replaced _ _ _ _ hmatched =>
    exact List.forall_mem_cons.mpr ⟨by simp [Engine.base], hmatched.not_top⟩

theorem Ledger.log_shows_iff (cmds : List (Nat × Command)) (w : Ledger) (hloose : w.loose = []) :
    ∀ t ∈ w.e.log cmds, t.event.kind = .top →
      ∀ s, ShowsSize t.event.top t.pool t.event.symbol s ↔ t.pool.frontQty t.event.symbol s < 2 ^ 32 := by
  induction cmds generalizing w with
  | nil =>
    intro t ht
    cases ht
  | cons cmd cmds ih =>
    obtain ⟨now, c⟩ := cmd
    obtain ⟨w₁, log, tops, hprocessed, hw₁, hlog, hreported⟩ := w.process_reported hloose now c
    have hloose₁ := hprocessed.loose hloose
    have hrest := ih w₁ hloose₁
    intro t ht htop
    rw [Engine.log, hlog, ← hw₁] at ht
    rcases List.mem_append.mp ht with ht | ht
    · rcases List.mem_append.mp ht with ht | ht
      · exact absurd htop (hprocessed.not_top t ht)
      · obtain ⟨k, -, rfl⟩ := hreported.eq_of_mem ht
        exact w₁.shows_iff hloose₁ k
    · exact hrest t ht htop

/-- After every run of a fresh engine, and in every Top event of the run, the size shown of a side is the true one exactly when what rests at its best price is less than `2 ^ 32`. -/
theorem Engine.run_shows_iff (cfg : Engine.Config) (cmds : List (Nat × Command)) :
    (∀ k s, ShowsSize (((Engine.init cfg).run cmds).books k).top ((Engine.init cfg).run cmds).pool k s ↔
      ((Engine.init cfg).run cmds).pool.frontQty k s < 2 ^ 32) ∧
    ∀ t ∈ (Engine.init cfg).log cmds, t.event.kind = .top →
      ∀ s, ShowsSize t.event.top t.pool t.event.symbol s ↔ t.pool.frontQty t.event.symbol s < 2 ^ 32 := by
  obtain ⟨w, hw, hloose⟩ := Engine.run_ledger cfg cmds
  refine ⟨fun k s => ?_, Ledger.log_shows_iff cmds (Ledger.init cfg) rfl⟩
  have hshows := w.shows_iff hloose k s
  rw [hw] at hshows
  exact hshows

/-- Two orders at one price: both sizes are shown, in the book and in the second report. -/
theorem Engine.run_shows_iff_two_orders :
    let cfg : Engine.Config := { symbols := 1, maxPrice := 1, maxOrders := 2 }
    let cmds : List (Nat × Command) := [(0, { price := 1, qty := 3 }), (0, { price := 1, qty := 4 })]
    let e := (Engine.init cfg).run cmds
    (e.books 0).top = { bid := 1, bidQty := 7 } ∧ ShowsSize (e.books 0).top e.pool 0 .buy ∧
      ∃ t ∈ (Engine.init cfg).log cmds, t.event.kind = .top ∧ t.event.top.bidQty = 7 ∧
        ShowsSize t.event.top t.pool t.event.symbol .buy := by
  intro cfg cmds e
  obtain ⟨hbook, hlog⟩ := Engine.run_shows_iff cfg cmds
  have hreport : ∃ t ∈ (Engine.init cfg).log cmds, t.event.kind = .top ∧ t.event.top.bidQty = 7 ∧
      t.pool.frontQty t.event.symbol .buy < 2 ^ 32 := by decide +kernel
  obtain ⟨t, ht, hkind, hqty, hlt⟩ := hreport
  exact ⟨by decide +kernel, (hbook 0 .buy).mpr (by decide +kernel), t, ht, hkind, hqty, (hlog t ht hkind .buy).mpr hlt⟩

/-- Two orders of `2 ^ 31` at one price: the book shows that nobody is there, and so does the Top event. -/
theorem Engine.shows_zero_for_two :
    let cfg : Engine.Config := { symbols := 1, maxPrice := 1, maxOrders := 2 }
    let cmds : List (Nat × Command) := [(0, { price := 1, qty := 2 ^ 31 }), (0, { price := 1, qty := 2 ^ 31 })]
    let e := (Engine.init cfg).run cmds
    (e.books 0).top = { bid := 1, bidQty := 0 } ∧ e.pool.onSide 0 .buy = [0, 1] ∧ e.pool.frontQty 0 .buy = 2 ^ 32 ∧
      (((Engine.init cfg).log cmds).filter fun t => t.event.kind = .top).map (fun t => t.event.top) =
        [{ bid := 1, bidQty := 2 ^ 31 }, { bid := 1, bidQty := 0 }] ∧
      ¬ ShowsSize (e.books 0).top e.pool 0 .buy := by
  intro cfg cmds e
  refine ⟨by decide +kernel, by decide +kernel, by decide +kernel, by decide +kernel, fun h => ?_⟩
  have hqty : (e.books 0).top.qty .buy ≠ e.pool.frontQty 0 .buy := by decide +kernel
  exact hqty h.qty

/-! ### Followers -/

/-- What a follower of symbol `k` makes of one event. -/
def follow (k : Nat) (top : TopOfBook) (t : Emission) : TopOfBook :=
  if t.event.kind = .top ∧ t.event.symbol = k then t.event.top else top

/-- The last top that was reported for a symbol, the empty one if none was. -/
def latestTop (k : Nat) (log : List Emission) : TopOfBook := log.foldl (follow k) {}

theorem foldl_follow_of_not_top (k : Nat) (top : TopOfBook) {log : List Emission} (h : ∀ t ∈ log, t.event.kind ≠ .top) :
    log.foldl (follow k) top = top := by
  induction log with
  | nil => rfl
  | cons t log ih =>
    have hskip : follow k top t = top := if_neg fun htop => h t (by simp) htop.1
    rw [List.foldl_cons, hskip]
    exact ih fun u hu => h u (List.mem_cons_of_mem t hu)

/-- A follower of any symbol is up to date after the reports of a command. -/
theorem Reported.follow {now : Nat} {c : Command} {e e' : Engine} {tops : List Emission} (h : Reported now c e e' tops)
    (k : Nat) : tops.foldl (follow k) (e.books k).top = (e'.books k).top := by
  cases hsubject : e.subject c with
  | none =>
    have htops : tops = [] := by rw [h.tops, hsubject]; rfl
    rw [htops, h.other k (by simp [hsubject])]
    rfl
  | some k' =>
    have htops : tops = e.report e' now k' := by rw [h.tops, hsubject]; rfl
    rw [htops, Engine.report]
    by_cases hk : k' = k
    · subst hk
      split
      · simp [Matchbox.follow]
      · rename_i hmoved
        exact (not_not.mp hmoved).symm
    · rw [h.other k (by simp [hsubject, hk])]
      split
      · simp [Matchbox.follow, hk]
      · rfl

theorem Reported.length_le {now : Nat} {c : Command} {e e' : Engine} {tops : List Emission} (h : Reported now c e e' tops) :
    tops.length ≤ 1 := by
  rw [h.tops]
  cases e.subject c with
  | none => exact Nat.zero_le 1
  | some k =>
    change (e.report e' now k).length ≤ 1
    rw [Engine.report]
    split
    · exact le_rfl
    · exact Nat.zero_le 1

theorem Ledger.log_follow (k : Nat) (cmds : List (Nat × Command)) (w : Ledger) (hloose : w.loose = []) :
    (w.e.log cmds).foldl (follow k) (w.e.books k).top = ((w.e.run cmds).books k).top := by
  induction cmds generalizing w with
  | nil => rfl
  | cons cmd cmds ih =>
    obtain ⟨now, c⟩ := cmd
    obtain ⟨w₁, log, tops, hprocessed, hw₁, hlog, hreported⟩ := w.process_reported hloose now c
    have hrest := ih w₁ (hprocessed.loose hloose)
    rw [Engine.log, Engine.run, hlog, ← hw₁, List.foldl_append, List.foldl_append,
      foldl_follow_of_not_top k _ hprocessed.not_top, hreported.follow k]
    exact hrest

/-- The order in which a command reports: the Top event, if there is one, comes last and is of the symbol that the command works on; the tops of all other symbols stay. -/
structure ReportsLast (e : Engine) (now : Nat) (c : Command) : Prop where
  last : ∃ events tops, (e.process now c).2 = events ++ tops ∧ (∀ t ∈ events, t.event.kind ≠ .top) ∧ tops.length ≤ 1 ∧
    ∀ t ∈ tops, t.event.kind = .top ∧ e.subject c = some t.event.symbol
  other : ∀ k, e.subject c ≠ some k → ((e.process now c).1.books k).top = (e.books k).top

theorem Ledger.reportsLast (w : Ledger) (hloose : w.loose = []) (now : Nat) (c : Command) : ReportsLast w.e now c := by
  obtain ⟨w', log, tops, hprocessed, hw', hlog, hreported⟩ := w.process_reported hloose now c
  refine ⟨⟨log, tops, hlog, hprocessed.not_top, hreported.length_le, fun t ht => ?_⟩, fun k hk => ?_⟩
  · obtain ⟨k, hsubject, rfl⟩ := hreported.eq_of_mem ht
    exact ⟨rfl, hsubject⟩
  · rw [← hw', hreported.other k hk]

/-- After every run of a fresh engine, the last reported top of each symbol is the top of its book, and every next command keeps to the order of reports. -/
theorem Engine.run_latestTop (cfg : Engine.Config) (cmds : List (Nat × Command)) :
    (∀ k, latestTop k ((Engine.init cfg).log cmds) = (((Engine.init cfg).run cmds).books k).top) ∧
      ∀ now c, ReportsLast ((Engine.init cfg).run cmds) now c := by
  obtain ⟨w, hw, hloose⟩ := Engine.run_ledger cfg cmds
  refine ⟨fun k => Ledger.log_follow k cmds (Ledger.init cfg) rfl, fun now c => ?_⟩
  have hreports := w.reportsLast hloose now c
  rw [hw] at hreports
  exact hreports

end Matchbox
