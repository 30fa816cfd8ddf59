import Matchbox.Rep.Command

/-!
# The representation is consistent between commands

`Consistent e` spells out the data structure invariant of the engine on the fields of the code alone: the queues and the free list are what the links spell, and every counter, bit and cached price agrees with them. It holds after every run of a fresh engine.
-/

namespace Matchbox

open LinkedList

/-- The level of a valid price is the doubly linked list of `xs`, with its two counters. -/
structure LevelOf (slots : Nat → Order) (lvl : Level) (xs : List Nat) : Prop where
  linked : Seg (fun i => (slots i).next) (fun i => (slots i).prev) kNull lvl.head xs lvl.tail kNull
  nodup : xs.Nodup
  null : kNull ∉ xs
  count : lvl.count = xs.length
  qty : lvl.qty = (xs.map fun i => (slots i).qty).sum % 2 ^ 32

/-- The queues `q` and the free list `free` are what the engine `e` holds. -/
structure ConsistentWith (e : Engine) (q : Nat → Queues) (free : List Nat) : Prop where
  level : ∀ k < e.cfg.symbols, ∀ s p, 1 ≤ p → p ≤ e.cfg.maxPrice →
    LevelOf e.pool.slots ((e.books k).levels s p) (q k s p)
  bit : ∀ k < e.cfg.symbols, ∀ s n, Bitmap.test ((e.books k).bits s) n = true ↔
    (1 ≤ n ∧ (n : Int) ≤ e.cfg.maxPrice) ∧ q k s n ≠ []
  bid : ∀ k < e.cfg.symbols, IsGreatest {p | q k .buy p ≠ []} ((e.books k).best .buy) ∨
    (∀ p, q k .buy p = []) ∧ (e.books k).best .buy = kNoPrice
  ask : ∀ k < e.cfg.symbols, IsLeast {p | q k .sell p ≠ []} ((e.books k).best .sell) ∨
    (∀ p, q k .sell p = []) ∧ (e.books k).best .sell = kNoPrice
  occupied : ∀ k s p, q k s p ≠ [] → k < e.cfg.symbols ∧ 1 ≤ p ∧ p ≤ e.cfg.maxPrice
  place : ∀ i k s p, i ∈ q k s p ↔ i < e.pool.capacity ∧ (e.pool.slots i).live = true ∧
    (e.pool.slots i).symbol = k ∧ (e.pool.slots i).side = s ∧ (e.pool.slots i).price = p
  order : ∀ i < e.pool.capacity, (e.pool.slots i).live = true →
    (e.pool.slots i).type = .limit ∧ (e.pool.slots i).tif = .gtc ∧ 1 ≤ (e.pool.slots i).qty ∧
      1 ≤ (e.pool.slots i).price ∧ (e.pool.slots i).price ≤ e.cfg.maxPrice
  free_linked : Path (fun i => (e.pool.slots i).next) e.pool.freeHead free kNull
  free_nodup : free.Nodup
  free_mem : ∀ i, i ∈ free ↔ i < e.pool.capacity ∧ (e.pool.slots i).live = false
  live_resting : e.pool.live = ∑ k ∈ Finset.range e.cfg.symbols, (e.books k).resting
  live_free : e.pool.live = e.pool.capacity - free.length
  free_length : free.length ≤ e.pool.capacity
  capacity : e.pool.capacity = e.cfg.maxOrders

def Consistent (e : Engine) : Prop := ∃ q free, ConsistentWith e q free

/-- The slots at a level, read along the links from its head. -/
def Engine.queue (e : Engine) (k : Nat) (s : Side) (p : Int) : List Nat :=
  walk (fun i => (e.pool.slots i).next) ((e.books k).levels s p).count ((e.books k).levels s p).head

namespace Ledger

variable {w : Ledger}

theorem mem_iff (w : Ledger) (hloose : w.loose = []) (i k : Nat) (s : Side) (p : Int) :
    i ∈ w.q k s p ↔ i < w.e.pool.capacity ∧ (w.e.pool.slots i).live = true ∧
      (w.e.pool.slots i).symbol = k ∧ (w.e.pool.slots i).side = s ∧ (w.e.pool.slots i).price = p := by
  constructor
  · intro hi
    have hqueued := w.rep.queued k s p i hi
    exact ⟨hqueued.lt, hqueued.live, hqueued.symbol, hqueued.side, hqueued.price⟩
  · rintro ⟨hlt, hlive, rfl, rfl, rfl⟩
    rcases w.rep.cover i hlt with hfree | hmem | hmem
    · rw [(w.rep.free_mem i hfree).2] at hlive
      exact absurd hlive (by decide)
    · rw [hloose] at hmem
      exact absurd hmem List.not_mem_nil
    · exact hmem

theorem queue_eq (w : Ledger) (k : Nat) (s : Side) (p : Int) : w.e.queue k s p = w.q k s p := by
  have hbook := w.rep.book k
  rw [Engine.queue, hbook.count s p]
  exact (hbook.linked s p).path.walk_eq

theorem occupied (w : Ledger) {k : Nat} {s : Side} {p : Int} (hne : w.q k s p ≠ []) :
    k < w.e.cfg.symbols ∧ 1 ≤ p ∧ p ≤ w.e.cfg.maxPrice := by
  obtain ⟨i, hi⟩ := List.exists_mem_of_ne_nil _ hne
  obtain ⟨hpos, hmax⟩ := (w.rep.book k).price s p hne
  exact ⟨(w.rep.queued k s p i hi).symbol_lt, hpos, w.rep.maxPrice k ▸ hmax⟩

theorem bid (w : Ledger) (k : Nat) : IsGreatest {p | w.q k .buy p ≠ []} ((w.e.books k).best .buy) ∨
    (∀ p, w.q k .buy p = []) ∧ (w.e.books k).best .buy = kNoPrice := by
  rcases (w.rep.book k).best .buy with ⟨hnone, hempty⟩ | ⟨hmem, hbest⟩
  · exact Or.inr ⟨fun p => not_not.mp (hempty p), hnone⟩
  · exact Or.inl ⟨hmem, fun p hp => Book.better_buy.mp (hbest p hp)⟩

theorem ask (w : Ledger) (k : Nat) : IsLeast {p | w.q k .sell p ≠ []} ((w.e.books k).best .sell) ∨
    (∀ p, w.q k .sell p = []) ∧ (w.e.books k).best .sell = kNoPrice := by
  rcases (w.rep.book k).best .sell with ⟨hnone, hempty⟩ | ⟨hmem, hbest⟩
  · exact Or.inr ⟨fun p => not_not.mp (hempty p), hnone⟩
  · exact Or.inl ⟨hmem, fun p hp => Book.better_sell.mp (hbest p hp)⟩

/-- With no command in progress, a ledger is a consistent engine. -/
theorem consistentWith (w : Ledger) (hloose : w.loose = []) : ConsistentWith w.e w.q w.free where
  level := fun k _ s p _ _ =>
    ⟨(w.rep.book k).linked s p, (w.rep.book k).nodup s p, (w.rep.book k).null s p, (w.rep.book k).count s p,
      (w.rep.book k).qty s p⟩
  bit := fun k _ s n => by
    rw [(w.rep.book k).bit s n]
    refine ⟨fun hne => ⟨?_, hne⟩, And.right⟩
    obtain ⟨_, hpos, hmax⟩ := w.occupied hne
    exact ⟨by omega, hmax⟩
  bid := fun k _ => w.bid k
  ask := fun k _ => w.ask k
  occupied := fun _ _ _ hne => w.occupied hne
  place := w.mem_iff hloose
  order := fun i hlt hlive => by
    have hmem := (w.mem_iff hloose i _ _ _).mpr ⟨hlt, hlive, rfl, rfl, rfl⟩
    have hqueued := w.rep.queued _ _ _ i hmem
    exact ⟨hqueued.type, hqueued.tif, w.pos _ _ _ i hmem, (w.occupied (List.ne_nil_of_mem hmem)).2⟩
  free_linked := w.rep.free_path
  free_nodup := w.rep.free_nodup
  free_mem := fun i => by
    refine ⟨w.rep.free_mem i, fun ⟨hlt, hdead⟩ => ?_⟩
    rcases w.rep.cover i hlt with hfree | hmem | hmem
    · exact hfree
    · rw [hloose] at hmem
      exact absurd hmem List.not_mem_nil
    · rw [(w.rep.queued _ _ _ i hmem).live] at hdead
      exact absurd hdead (by decide)
  live_resting := by
    have hresting := w.rep.live_resting
    rwa [hloose] at hresting
  live_free := by
    have hfree := w.rep.live_free
    omega
  free_length := by
    have hfree := w.rep.live_free
    omega
  capacity := w.rep.capacity

end Ledger

/-- After every run of a fresh engine the pool and all books are consistent. -/
theorem Engine.run_consistent (cfg : Engine.Config) (cmds : List (Nat × Command)) :
    Consistent ((Engine.init cfg).run cmds) := by
  obtain ⟨w, hw, hloose⟩ := Engine.run_ledger cfg cmds
  have hconsistent := w.consistentWith hloose
  rw [hw] at hconsistent
  exact ⟨w.q, w.free, hconsistent⟩

end Matchbox
