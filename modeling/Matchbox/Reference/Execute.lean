import Mathlib.Data.List.Range
import Matchbox.Reference.Engine
import Matchbox.Rep.Command

/-!
# The reference one trade at a time

The reference sweeps a side in one recursion. Here its `execute` is taken apart into single trades, the way the matching loop works: the first trade is with the front of the best occupied price, and what follows is `execute` again on what remains.
-/

namespace Matchbox

open Sweep

namespace Reference

/-! ### Prices -/

theorem mem_prices {cfg : Engine.Config} {s : Side} {p : Int} : p ∈ prices cfg s ↔ 1 ≤ p ∧ p ≤ cfg.maxPrice := by
  have hrange : p ∈ (List.range cfg.maxPrice.toNat).map (fun n : Nat => (n : Int) + 1) ↔ 1 ≤ p ∧ p ≤ cfg.maxPrice := by
    simp only [List.mem_map, List.mem_range]
    constructor
    · rintro ⟨n, hn, rfl⟩
      omega
    · rintro ⟨hpos, hmax⟩
      exact ⟨(p - 1).toNat, by omega, by omega⟩
  cases s with
  | sell => exact hrange
  | buy => rw [prices, List.mem_reverse]; exact hrange

theorem prices_sorted (cfg : Engine.Config) (s : Side) :
    (prices cfg s).Pairwise fun a b => Book.better s a b = true := by
  have hrange : ((List.range cfg.maxPrice.toNat).map fun n : Nat => (n : Int) + 1).Pairwise (· < ·) := by
    rw [List.pairwise_map]
    apply List.pairwise_lt_range.imp
    intro a b hab
    omega
  cases s with
  | sell => exact hrange.imp fun hlt => by simpa [Book.better] using hlt
  | buy =>
    rw [prices, List.pairwise_reverse]
    exact hrange.imp fun hlt => by simpa [Book.better] using hlt

theorem prices_split {cfg : Engine.Config} {s : Side} {p : Int} (hpos : 1 ≤ p) (hmax : p ≤ cfg.maxPrice) :
    ∃ front back, prices cfg s = front ++ p :: back ∧ ∀ a ∈ front, Book.better s a p = true := by
  obtain ⟨front, back, hsplit⟩ := List.append_of_mem (mem_prices.mpr ⟨hpos, hmax⟩)
  have hsorted := prices_sorted cfg s
  rw [hsplit] at hsorted
  exact ⟨front, back, hsplit, fun a ha => (List.pairwise_append.mp hsorted).2.2 a ha p (by simp)⟩

theorem best_eq {r : Reference} {k : Nat} {s : Side} {p : Int}
    (hvalid : ∀ p, r.books k s p ≠ [] → 1 ≤ p ∧ p ≤ r.cfg.maxPrice)
    (hbest : IsBest s (fun p => r.books k s p ≠ []) p) : r.best k s = p := by
  rw [best]
  rcases hbest with ⟨hp, hnone⟩ | ⟨hp, hbest⟩
  · rw [List.find?_eq_none.mpr fun q _ => by simp [not_not.mp (hnone q)], hp]
    rfl
  · obtain ⟨hpos, hmax⟩ := hvalid p hp
    obtain ⟨front, back, hsplit, hfront⟩ := prices_split (s := s) hpos hmax
    have hskip : front.find? (fun q => decide (r.books k s q ≠ [])) = none := by
      apply List.find?_eq_none.mpr
      intro q hq hne
      have hbetter := hbest q (of_decide_eq_true hne)
      rw [hfront q hq] at hbetter
      exact absurd hbetter (by decide)
    rw [hsplit, List.find?_append, hskip]
    simp [hp]

/-! ### Books and directory -/

variable {r : Reference} {id k : Nat} {s : Side} {t : Ticket}

@[simp] theorem setSide_setSide (r : Reference) (k : Nat) (s : Side) (f g : Int → List (Entry Nat)) :
    (r.setSide k s f).setSide k s g = r.setSide k s g := by
  simp [setSide]

theorem setSide_self (r : Reference) (k : Nat) (s : Side) : r.setSide k s (r.books k s) = r := by
  simp [setSide]

@[simp] theorem setSide_books_self (r : Reference) (k : Nat) (s : Side) (f : Int → List (Entry Nat)) :
    (r.setSide k s f).books k s = f := by
  simp [setSide]

theorem setQueue_books (r : Reference) (k : Nat) (s : Side) (p : Int) (xs : List (Entry Nat)) (k' : Nat) (s' : Side)
    (p' : Int) : (r.setQueue k s p xs).books k' s' p' = if k' = k ∧ s' = s ∧ p' = p then xs else r.books k' s' p' := by
  rw [setQueue, setSide]
  by_cases hk : k' = k
  · subst hk
    by_cases hs : s' = s
    · subst hs
      by_cases hp : p' = p
      · subst hp
        simp
      · simp [hp]
    · simp [hs]
  · simp [hk]

theorem close_setSide (r : Reference) (id k : Nat) (s : Side) (f : Int → List (Entry Nat)) :
    (r.setSide k s f).close id = (r.close id).setSide k s f := rfl

theorem settle_setSide (trades : List (Trade Int Nat)) (r : Reference) (f : Int → List (Entry Nat)) :
    settle id t trades (r.setSide k s f) =
      ((settle id t trades r).1.setSide k s f, (settle id t trades r).2) := by
  induction trades generalizing r with
  | nil => rfl
  | cons trade trades ih =>
    simp only [settle]
    split
    · rw [close_setSide, ih]
      rfl
    · rw [ih]
      rfl

/-! ### One trade -/

theorem reaches_of_better {type : OrderType} {p a : Int} (hreach : reaches type t p = true)
    (hbetter : Book.better (opposite t.side) a p = true) : reaches type t a = true := by
  cases type with
  | market => rfl
  | limit =>
    cases hside : t.side <;>
      simp only [reaches, Book.better, hside, opposite, decide_eq_true_eq] at hreach hbetter ⊢ <;> omega

/-- The reference after the front of the queue at `p` gave `x`. -/
def afterTrade (r : Reference) (k : Nat) (s : Side) (p : Int) (e : Entry Nat) (xs : List (Entry Nat)) (x : Nat) :
    Reference :=
  (if e.qty - x = 0 then r.close e.id else r).setQueue k s p (shrink e xs x)

theorem execute_trade {type : OrderType} {tif : Tif} {qty x : Nat} {p : Int} {e : Entry Nat} {xs : List (Entry Nat)}
    {m : Ticket} (hpos : 1 ≤ p) (hmax : p ≤ r.cfg.maxPrice) (hreach : reaches type t p = true)
    (hbest : ∀ a, Book.better (opposite t.side) a p = true → r.books t.symbol (opposite t.side) a = [])
    (hqueue : r.books t.symbol (opposite t.side) p = e :: xs) (hm : r.tickets e.id = some m) (hqty : qty ≠ 0)
    (hx : x = min qty e.qty) :
    r.execute id t type tif qty =
      (((r.afterTrade t.symbol (opposite t.side) p e xs x).execute id t type tif (qty - x)).1,
        tradeEvents id t m ⟨p, e.id, x, e.qty - x, qty - x⟩ ++
          ((r.afterTrade t.symbol (opposite t.side) p e xs x).execute id t type tif (qty - x)).2) := by
  obtain ⟨front, back, hsplit, hfront⟩ := prices_split (s := opposite t.side) hpos hmax
  have hnot : p ∉ front := by
    intro hp
    have hself := hfront p hp
    rw [Book.better_irrefl] at hself
    exact absurd hself (by decide)
  have hsweep := sweep_trade front back (r.books t.symbol (opposite t.side))
    (fun a ha => reaches_of_better hreach (hfront a ha)) (fun a ha => hbest a (hfront a ha)) hreach hnot hqueue hqty hx
  rw [← hsplit] at hsweep
  have hcfg : (if e.qty - x = 0 then r.close e.id else r).cfg = r.cfg := by split <;> rfl
  have hbooks : (if e.qty - x = 0 then r.close e.id else r).books = r.books := by split <;> rfl
  obtain ⟨swept, hswept⟩ : ∃ swept, swept = sweep (reaches type t) (prices r.cfg (opposite t.side))
    (Function.update (r.books t.symbol (opposite t.side)) p (shrink e xs x)) (qty - x) := ⟨_, rfl⟩
  have hafter : sweep (reaches type t) (prices (r.afterTrade t.symbol (opposite t.side) p e xs x).cfg (opposite t.side))
      ((r.afterTrade t.symbol (opposite t.side) p e xs x).books t.symbol (opposite t.side)) (qty - x) = swept := by
    rw [hswept, afterTrade, setQueue, setSide_books_self, hbooks]
    congr 2
  rw [← hswept] at hsweep
  simp only [execute, hsweep, hafter, Swept.after, settle, hm, Option.elim_some]
  rw [afterTrade, setQueue, settle_setSide]
  simp only [setSide_setSide]
  by_cases hleft : swept.left = 0
  · simp only [hleft, if_true]
  · by_cases hrest : type = .limit ∧ tif = .gtc
    · simp only [hleft, hrest, if_false, if_true, and_self]
    · simp only [hleft, hrest, if_false, List.append_assoc]

/-- An order that trades no more rests or is cancelled. -/
theorem execute_stop {type : OrderType} {tif : Tif} {qty : Nat}
    (hstop : qty = 0 ∨ ∀ p, reaches type t p = true → r.books t.symbol (opposite t.side) p = []) :
    r.execute id t type tif qty =
      if qty = 0 then (r, [])
      else if type = .limit ∧ tif = .gtc then (r.rest id t qty, [])
      else (r, [event .cancelled id t qty]) := by
  have hsweep : sweep (reaches type t) (prices r.cfg (opposite t.side)) (r.books t.symbol (opposite t.side)) qty
      = ⟨r.books t.symbol (opposite t.side), [], qty⟩ := by
    rcases hstop with rfl | hnone
    · exact sweep_zero _ _
    · exact sweep_stop _ _ _ fun p _ hreach => hnone p hreach
  simp only [execute, hsweep, settle, setSide_self, List.nil_append]

end Reference

end Matchbox
