import Matchbox.Engine.Process

/-!
# The clock

The engine reads the clock for one thing only, to stamp events. Two engines that differ in nothing else stay so, whatever times they read, and they call the sink equally often. The match loops do not look at what the callback accumulates, so it can be replaced by its length, which no time goes into.
-/

namespace Matchbox

variable {α β : Type}

/-- The loop state with only a part of what is accumulated. -/
def MatchState.map (h : α → β) (st : MatchState α) : MatchState β where
  pool := st.pool
  book := st.book
  filled := st.filled
  acc := h st.acc

/-- Both callbacks do the same to the pool, and the second accumulates only a part of what the first does. -/
def OnFill.Maps (f : OnFill α) (g : OnFill β) (h : α → β) : Prop :=
  ∀ pool acc maker px q, g pool (h acc) maker px q = ((f pool acc maker px q).1, h (f pool acc maker px q).2)

namespace Book

variable {f : OnFill α} {g : OnFill β} {h : α → β} {taker : Nat} {s : Side} {px : Int}

theorem fillHead_map (hmaps : OnFill.Maps f g h) (st : MatchState α) :
    fillHead g taker s px (st.map h) = (fillHead f taker s px st).map h := by
  rw [fillHead, fillHead]
  dsimp only [MatchState.map]
  rw [hmaps]
  rfl

theorem matchLevel_map (hmaps : OnFill.Maps f g h) (fuel : Nat) (st : MatchState α) :
    matchLevel g taker s px fuel (st.map h) = (matchLevel f taker s px fuel st).map h := by
  induction fuel generalizing st with
  | zero => rfl
  | succ fuel ih =>
      rw [matchLevel, matchLevel, fillHead_map hmaps, ih, apply_ite (MatchState.map h)]
      rfl

theorem matchLoop_map (hmaps : OnFill.Maps f g h) (fuel : Nat) (st : MatchState α) :
    matchLoop g taker s fuel (st.map h) = (matchLoop f taker s fuel st).map h := by
  induction fuel generalizing st with
  | zero => rfl
  | succ fuel ih =>
      rw [matchLoop, matchLoop, matchLevel_map hmaps, ih]
      simp only [apply_ite (MatchState.map h)]
      rfl

end Book

/-- Two handlers leave the same behind, up to what the sink was told. -/
structure Outcome.Alike (o o' : Outcome) : Prop where
  pool : o.pool = o'.pool
  book : o.book = o'.book
  length : o.log.length = o'.log.length

namespace Engine

/-- Two engines, up to the time they read last. -/
structure Alike (e e' : Engine) : Prop where
  cfg : e.cfg = e'.cfg
  pool : e.pool = e'.pool
  books : e.books = e'.books

/-- The callback of `match_and_rest`, counting the calls of the sink. -/
def countFill : OnFill Nat := fun pool n maker _ _ =>
  (if (pool.slots maker).qty = 0 then pool.free maker else pool, n + 3)

theorem onFill_maps (now slot : Nat) : OnFill.Maps (onFill now slot) countFill List.length := by
  intro pool log maker px q
  simp [onFill, countFill, fillEvents]

variable (now now' : Nat)

theorem matchAndRest_alike (pool : OrderPool) (book : Book) (slot : Nat) {log log' : List Emission}
    (hlog : log.length = log'.length) :
    (matchAndRest now pool book slot log).Alike (matchAndRest now' pool book slot log') := by
  have hsame : (book.matchTaker (onFill now slot) pool slot log).map List.length =
      (book.matchTaker (onFill now' slot) pool slot log').map List.length := by
    rw [Book.matchTaker, Book.matchTaker, ← Book.matchLoop_map (onFill_maps now slot),
      ← Book.matchLoop_map (onFill_maps now' slot), MatchState.map, MatchState.map, hlog]
  obtain ⟨hpool, hbook, -, hacc⟩ := MatchState.mk.inj hsame
  rw [matchAndRest, matchAndRest, hpool, hbook]
  dsimp only
  split
  · exact ⟨rfl, rfl, hacc⟩
  · split
    · refine ⟨rfl, rfl, ?_⟩
      rw [List.length_append, List.length_append, hacc]
      rfl
    · exact ⟨rfl, rfl, hacc⟩

theorem onNew_alike (pool : OrderPool) (book : Book) (c : Command) :
    (onNew now pool book c).Alike (onNew now' pool book c) := by
  rw [onNew, onNew]
  split
  · exact ⟨rfl, rfl, rfl⟩
  · split
    · exact ⟨rfl, rfl, rfl⟩
    · cases pool.alloc with
      | none => exact ⟨rfl, rfl, rfl⟩
      | some r => exact matchAndRest_alike now now' _ _ _ rfl

theorem onCancel_alike (pool : OrderPool) (book : Book) (slot : Nat) :
    (onCancel now pool book slot).Alike (onCancel now' pool book slot) :=
  ⟨rfl, rfl, rfl⟩

theorem onReplace_alike (pool : OrderPool) (book : Book) (c : Command) (slot : Nat) :
    (onReplace now pool book c slot).Alike (onReplace now' pool book c slot) := by
  rw [onReplace, onReplace]
  dsimp only
  split
  · exact ⟨rfl, rfl, rfl⟩
  · split
    · exact ⟨rfl, rfl, rfl⟩
    · split
      · exact ⟨rfl, rfl, rfl⟩
      · exact matchAndRest_alike now now' _ _ _ rfl

variable {e e' : Engine}

theorem Alike.finish (h : e.Alike e') (symbol : Nat) {o o' : Outcome} (ho : o.Alike o') :
    (e.finish now symbol o).1.Alike (e'.finish now' symbol o').1 ∧
      (e.finish now symbol o).2.length = (e'.finish now' symbol o').2.length := by
  rw [Engine.finish, Engine.finish, h.books, ho.book]
  refine ⟨⟨h.cfg, ho.pool, ?_⟩, ?_⟩
  · rw [store, store, h.books]
  · dsimp only
    split
    · rw [List.length_append, List.length_append, ho.length]
      rfl
    · exact ho.length

theorem Alike.process (h : e.Alike e') (c : Command) :
    (e.process now c).1.Alike (e'.process now' c).1 ∧ (e.process now c).2.length = (e'.process now' c).2.length := by
  obtain ⟨cfg, pool, books, t⟩ := e
  obtain ⟨cfg', pool', books', t'⟩ := e'
  obtain ⟨rfl, rfl, rfl⟩ : cfg = cfg' ∧ pool = pool' ∧ books = books' := ⟨h.cfg, h.pool, h.books⟩
  rw [Engine.process, Engine.process]
  dsimp only
  cases c.kind with
  | new =>
      dsimp only
      split
      · exact ⟨⟨rfl, rfl, rfl⟩, rfl⟩
      · exact h.finish now now' _ (onNew_alike now now' _ _ c)
  | cancel =>
      cases pool.find c.orderId with
      | none => exact ⟨⟨rfl, rfl, rfl⟩, rfl⟩
      | some slot =>
          dsimp only
          split
          · exact ⟨⟨rfl, rfl, rfl⟩, rfl⟩
          · exact h.finish now now' _ (onCancel_alike now now' _ _ slot)
  | replace =>
      cases pool.find c.orderId with
      | none => exact ⟨⟨rfl, rfl, rfl⟩, rfl⟩
      | some slot =>
          dsimp only
          split
          · exact ⟨⟨rfl, rfl, rfl⟩, rfl⟩
          · exact h.finish now now' _ (onReplace_alike now now' _ _ c slot)

/-- How many events some commands lead to does not depend on when they are processed. -/
def count (e : Engine) (cmds : List Command) : Nat := (e.log (cmds.map fun c => (0, c))).length

theorem Alike.count (h : e.Alike e') (cmds : List Command) : e.count cmds = e'.count cmds := by
  induction cmds generalizing e e' with
  | nil => rfl
  | cons c cmds ih =>
      obtain ⟨halike, hlength⟩ := h.process 0 0 c
      have hrest := ih halike
      simp only [Engine.count] at hrest
      simp only [Engine.count, List.map_cons, log, List.length_append, hlength, hrest]

theorem count_cons (e : Engine) (c : Command) (cmds : List Command) :
    e.count (c :: cmds) = (e.process now c).2.length + (e.process now c).1.count cmds := by
  obtain ⟨halike, hlength⟩ := Alike.process 0 now (⟨rfl, rfl, rfl⟩ : e.Alike e) c
  rw [← halike.count, ← hlength]
  simp only [count, List.map_cons, log, List.length_append]

end Engine

end Matchbox
