import Matchbox.Rep.Command

/-!
# Whose events the engine reports

An order keeps the session of the command that brought it in, through every fill, replacement and reuse of other slots. So as long as all commands come from sessions up to `n`, every event is addressed to one of them, or to nobody.
-/

namespace Matchbox

/-- Every slot of the pool was last used by a session up to `n`. -/
def OwnedUpTo (n : Nat) (pool : OrderPool) : Prop := ∀ i, (pool.slots i).session ≤ n

/-- No call of the sink is addressed to a session after `n`. -/
def AddressedUpTo (n : Nat) (log : List Emission) : Prop := ∀ t ∈ log, t.event.session ≤ n

section Moves

variable {n : Nat} {pool pool' : OrderPool}

theorem OwnedUpTo.mono {m : Nat} (h : OwnedUpTo n pool) (hle : n ≤ m) : OwnedUpTo m pool := fun i => (h i).trans hle

theorem OwnedUpTo.relinked (h : OwnedUpTo n pool) (hslots : ∀ j, Relinked (pool.slots j) (pool'.slots j)) :
    OwnedUpTo n pool' := by
  intro i
  rw [(hslots i).read Order.session fun _ _ => rfl]
  exact h i

theorem OwnedUpTo.modify (h : OwnedUpTo n pool) (i : Nat) {f : Order → Order} (hf : ∀ o, (f o).session = o.session) :
    OwnedUpTo n (pool.modify i f) := by
  intro j
  rw [OrderPool.modify_slots]
  split
  · rw [hf]
    exact h j
  · exact h j

theorem OwnedUpTo.free (h : OwnedUpTo n pool) (i : Nat) : OwnedUpTo n (pool.free i) :=
  h.modify i (f := fun o => { o with live := false, gen := OrderPool.nextGen o.gen, next := pool.freeHead }) fun _ => rfl

theorem OwnedUpTo.traded {m i x : Nat} (h : OwnedUpTo n pool) (ht : Traded pool pool' m i x) : OwnedUpTo n pool' := by
  intro j
  rw [(ht.slots j).read Order.session fun _ _ => rfl]
  split <;> exact h j

theorem AddressedUpTo.append {log log' : List Emission} (h : AddressedUpTo n log) (h' : AddressedUpTo n log') :
    AddressedUpTo n (log ++ log') := fun t ht =>
  (List.mem_append.1 ht).elim (h t) (h' t)

theorem AddressedUpTo.cons {t : Emission} {log : List Emission} (ht : t.event.session ≤ n) (h : AddressedUpTo n log) :
    AddressedUpTo n (t :: log) := List.forall_mem_cons.2 ⟨ht, h⟩

theorem AddressedUpTo.nil : AddressedUpTo n [] := fun _ ht => absurd ht List.not_mem_nil

end Moves

section Commands

variable {now i n : Nat} {c : Command} {w w' : Ledger} {log : List Emission}

theorem Fill.owned {m : Nat} {rest : List Nat} {px : Int} {x : Nat} {pool : OrderPool}
    (h : Fill now i w w' m rest px x pool) (hw : OwnedUpTo n w.e.pool) :
    OwnedUpTo n w'.e.pool ∧ AddressedUpTo n (fillEmissions now m i px x pool) := by
  have hpool := hw.traded h.traded
  refine ⟨?_, .cons (hpool m) (.cons (hpool i) (.cons (Nat.zero_le n) .nil))⟩
  rw [h.pool']
  split
  · exact hpool.free m
  · exact hpool

theorem Fills.owned (h : Fills now i w w' log) (hw : OwnedUpTo n w.e.pool) :
    OwnedUpTo n w'.e.pool ∧ AddressedUpTo n log := by
  induction h with
  | refl => exact ⟨hw, .nil⟩
  | head hfill _ ih =>
      obtain ⟨hw₁, hlog⟩ := hfill.owned hw
      obtain ⟨hw', hrest⟩ := ih hw₁
      exact ⟨hw', hlog.append hrest⟩

theorem Ended.owned (h : Ended now i w w' log) (hw : OwnedUpTo n w.e.pool) :
    OwnedUpTo n w'.e.pool ∧ AddressedUpTo n log := by
  cases h with
  | done _ hfreed => exact ⟨hfreed.pool' ▸ hw.free i, .nil⟩
  | killed _ _ hfreed => exact ⟨hfreed.pool' ▸ hw.free i, .cons (hw i) .nil⟩
  | rested _ _ _ hrested => exact ⟨hw.relinked hrested.slots, .nil⟩

theorem Matched.owned (h : Matched now i w w' log) (hw : OwnedUpTo n w.e.pool) :
    OwnedUpTo n w'.e.pool ∧ AddressedUpTo n log := by
  obtain ⟨hfills, -, hended⟩ := h
  obtain ⟨hw₁, hlog⟩ := hfills.owned hw
  obtain ⟨hw', hend⟩ := hended.owned hw₁
  exact ⟨hw', hlog.append hend⟩

theorem Processed.owned (h : Processed now c w w' log) (hw : OwnedUpTo n w.e.pool) (hc : c.session ≤ n) :
    OwnedUpTo n w'.e.pool ∧ AddressedUpTo n log := by
  cases h with
  | refused _ hidle => exact ⟨hidle.pool' ▸ hw, .cons hc .nil⟩
  | @accepted i w₁ log _ hadmitted hmatched =>
      have hw₁ : OwnedUpTo n w₁.e.pool := by
        intro j
        rw [hadmitted.slots']
        by_cases hji : j = i
        · rw [hji, Function.update_self]
          exact hc
        · rw [Function.update_of_ne hji]
          exact hw j
      obtain ⟨hw', hlog⟩ := hmatched.owned hw₁
      exact ⟨hw', hlog.cons (hw₁ i)⟩
  | @cancelled i w₁ _ _ htaken hfreed =>
      have hw₁ := hw.relinked htaken.slots
      exact ⟨hfreed.pool' ▸ hw₁.free i, .cons (hw₁ i) .nil⟩
  | @reduced i _ _ _ hreduced =>
      have hw' : OwnedUpTo n w'.e.pool := hreduced.pool' ▸ hw.modify i fun _ => rfl
      exact ⟨hw', .cons (hw' i) .nil⟩
  | @replaced i w₁ w₂ log _ _ htaken hrepriced hmatched =>
      have hw₂ : OwnedUpTo n w₂.e.pool := hrepriced.pool' ▸ (hw.relinked htaken.slots).modify i fun _ => rfl
      obtain ⟨hw', hlog⟩ := hmatched.owned hw₂
      exact ⟨hw', hlog.cons (hw₂ i)⟩

end Commands

/-- An engine that has only served sessions up to `n`. -/
def Engine.Serves (n : Nat) (e : Engine) : Prop := ∃ w : Ledger, w.e = e ∧ w.loose = [] ∧ OwnedUpTo n w.e.pool

namespace Engine.Serves

theorem init (n : Nat) (cfg : Engine.Config) : (Engine.init cfg).Serves n :=
  ⟨Ledger.init cfg, rfl, rfl, fun _ => Nat.zero_le n⟩

theorem mono {m n : Nat} {e : Engine} (h : e.Serves n) (hle : n ≤ m) : e.Serves m := by
  obtain ⟨w, hw, hloose, howned⟩ := h
  exact ⟨w, hw, hloose, howned.mono hle⟩

theorem process {n : Nat} {e : Engine} (h : e.Serves n) (now : Nat) {c : Command} (hc : c.session ≤ n) :
    (e.process now c).1.Serves n ∧ AddressedUpTo n (e.process now c).2 := by
  obtain ⟨w, rfl, hloose, howned⟩ := h
  obtain ⟨w', log, tops, hprocessed, hw', hlog, htops⟩ := w.process hloose now c
  obtain ⟨howned', haddressed⟩ := hprocessed.owned howned hc
  refine ⟨⟨w', hw', hprocessed.loose hloose, howned'⟩, ?_⟩
  rw [hlog]
  refine haddressed.append fun t ht => ?_
  rw [(htops t ht).2]
  exact Nat.zero_le n

end Engine.Serves

end Matchbox
