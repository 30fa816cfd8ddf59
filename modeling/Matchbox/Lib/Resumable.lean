import Mathlib.Data.List.Basic

/-!
# Resumable parsers

A parser looks at the bytes it has and either needs more of them, consumes some as one item, or stops for good. When what it decides does not change as more bytes arrive (`Stable`), a stream can be cut anywhere: parsing the pieces one after the other, with the unconsumed rest carried over, gives what parsing the whole gives.
-/

namespace Resumable

/-- What a parser in a given state makes of the bytes in front of it. -/
inductive Next (σ ο : Type) where
  | more
  | item (state : σ) (out : ο) (consumed : Nat)
  | stop (out : Option ο)

variable {β σ ο : Type} {next : σ → List β → Next σ ο}

/-- More bytes never change a decision, and an item consumes bytes that are there. -/
structure Stable (next : σ → List β → Next σ ο) : Prop where
  item : ∀ {s bytes s' out n}, next s bytes = .item s' out n →
    0 < n ∧ n ≤ bytes.length ∧ ∀ back, next s (bytes ++ back) = .item s' out n
  stop : ∀ {s bytes out}, next s bytes = .stop out → ∀ back, next s (bytes ++ back) = .stop out

/-- Parsing as far as the bytes reach: the outputs, the state, the unconsumed rest and whether the parser is still open. -/
inductive Parse (next : σ → List β → Next σ ο) : σ → List β → List ο → σ → List β → Bool → Prop
  | more {s : σ} {bytes : List β} (h : next s bytes = .more) : Parse next s bytes [] s bytes true
  | item {s s' s'' : σ} {bytes rest : List β} {out : ο} {n : Nat} {outs : List ο} {alive : Bool}
      (h : next s bytes = .item s' out n) (hrest : Parse next s' (bytes.drop n) outs s'' rest alive) :
      Parse next s bytes (out :: outs) s'' rest alive
  | stop {s : σ} {bytes : List β} {out : Option ο} (h : next s bytes = .stop out) :
      Parse next s bytes out.toList s bytes false

variable {s s' s'' : σ} {bytes rest rest' back : List β} {outs outs' : List ο} {alive : Bool}

/-- Every string has a parse: an item leaves fewer bytes. -/
theorem Stable.exists_parse (hnext : Stable next) (s : σ) (bytes : List β) :
    ∃ outs s' rest alive, Parse next s bytes outs s' rest alive := by
  induction hlen : bytes.length using Nat.strongRecOn generalizing s bytes with
  | ind len ih =>
      cases h : next s bytes with
      | more => exact ⟨_, _, _, _, .more h⟩
      | stop out => exact ⟨_, _, _, _, .stop h⟩
      | item s' out n =>
          obtain ⟨hpos, hle, -⟩ := hnext.item h
          have hlt : (bytes.drop n).length < len := by
            rw [List.length_drop]
            omega
          obtain ⟨outs, s'', rest, alive, hparse⟩ := ih _ hlt s' (bytes.drop n) rfl
          exact ⟨_, _, _, _, .item h hparse⟩

theorem Parse.of_more (h : Parse next s bytes outs s' rest alive) (hmore : next s bytes = .more) :
    outs = [] ∧ s' = s ∧ rest = bytes ∧ alive = true := by
  cases h with
  | more _ => exact ⟨rfl, rfl, rfl, rfl⟩
  | item hitem _ => cases hmore.symm.trans hitem
  | stop hstop => cases hmore.symm.trans hstop

theorem Parse.of_item {out : ο} {n : Nat} (h : Parse next s bytes outs s' rest alive)
    (hitem : next s bytes = .item s'' out n) :
    ∃ outs', outs = out :: outs' ∧ Parse next s'' (bytes.drop n) outs' s' rest alive := by
  cases h with
  | more hmore => cases hitem.symm.trans hmore
  | stop hstop => cases hitem.symm.trans hstop
  | item hitem' hrest =>
      cases hitem.symm.trans hitem'
      exact ⟨_, rfl, hrest⟩

theorem Parse.next_rest (h : Parse next s bytes outs s' rest true) : next s' rest = .more := by
  generalize htrue : true = b at h
  induction h with
  | more h => exact h
  | stop h => cases htrue
  | item h hrest ih => exact ih htrue

/-- A parse that stays open is taken up again when more bytes arrive. -/
theorem Parse.resume (hnext : Stable next) (h : Parse next s bytes outs s' rest true)
    (hback : Parse next s' (rest ++ back) outs' s'' rest' alive) :
    Parse next s (bytes ++ back) (outs ++ outs') s'' rest' alive := by
  generalize htrue : true = b at h
  induction h with
  | more h => exact hback
  | stop h => cases htrue
  | item h hrest ih =>
      obtain ⟨-, hle, happend⟩ := hnext.item h
      refine .item (happend back) ?_
      rw [List.drop_append_of_le_length hle]
      exact ih hback htrue

theorem Parse.ignore (hnext : Stable next) (h : Parse next s bytes outs s' rest false) (back : List β) :
    ∃ rest', Parse next s (bytes ++ back) outs s' rest' false := by
  generalize hfalse : false = b at h
  induction h with
  | more h => cases hfalse
  | stop h => exact ⟨_, .stop (hnext.stop h back)⟩
  | item h hrest ih =>
      obtain ⟨-, hle, happend⟩ := hnext.item h
      obtain ⟨rest', hparse⟩ := ih hfalse
      refine ⟨rest', .item (happend back) ?_⟩
      rw [List.drop_append_of_le_length hle]
      exact hparse

/-- A string has only one parse. -/
theorem Parse.unique {s'' : σ} {alive' : Bool} (h : Parse next s bytes outs s' rest alive)
    (h' : Parse next s bytes outs' s'' rest' alive') : outs = outs' ∧ alive = alive' := by
  induction h generalizing outs' with
  | more h =>
      obtain ⟨rfl, -, -, rfl⟩ := h'.of_more h
      exact ⟨rfl, rfl⟩
  | stop h =>
      cases h' with
      | more h' => cases h.symm.trans h'
      | item h' _ => cases h.symm.trans h'
      | stop h' =>
          cases h.symm.trans h'
          exact ⟨rfl, rfl⟩
  | item h _ ih =>
      obtain ⟨outs, rfl, hrest⟩ := h'.of_item h
      obtain ⟨rfl, halive⟩ := ih hrest
      exact ⟨rfl, halive⟩

end Resumable
