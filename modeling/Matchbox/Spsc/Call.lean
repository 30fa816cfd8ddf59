import Matchbox.Spsc.Refines

/-!
# A call, access by access

What a thread that goes through `try_push` or `try_pop` sees of the ring, while the other thread may be anywhere. `Holds` says what is inside; an access of a call either brings it closer to its end and changes nothing inside, or is its last one and does to the contents what the sequential queue does.
-/

namespace Matchbox.SpscQueue

open BoundedFifo

variable {α : Type} {k : Nat} {items : List α} {s : Threads α} {v : α}

/-- The ring of `2 ^ k` places holds these values, oldest first. -/
def Holds (k : Nat) (items : List α) (s : Threads α) : Prop :=
  ∃ c : Counters (2 ^ k), Inv c s ∧ c.contents s.queue.buf = items

theorem holds_init (k : Nat) (blank : α) : Holds k [] (init k blank) := ⟨_, init_inv k blank, rfl⟩

/-- The argument of the push in progress. -/
def Producer.value? : Producer α → Option α
  | .idle => none
  | .loadTail v => some v
  | .loadHead v _ => some v
  | .write v _ => some v
  | .storeTail v _ => some v

/-- The accesses that are left of a push, at most. -/
def Producer.left : Producer α → Nat
  | .idle => 0
  | .loadTail _ => 4
  | .loadHead _ _ => 3
  | .write _ _ => 2
  | .storeTail _ _ => 1

/-- The accesses that are left of a pop, at most. -/
def Consumer.left : Consumer α → Nat
  | .idle => 0
  | .loadHead => 4
  | .loadTail _ => 3
  | .read _ => 2
  | .storeHead _ _ => 1

theorem Producer.eq_idle {p : Producer α} (h : p.value? = none) : p = .idle := by
  cases p with
  | idle => rfl
  | _ => cases h

theorem Producer.eq_idle_of_left {p : Producer α} (h : ¬ 0 < p.left) : p = .idle := by
  cases p with
  | idle => rfl
  | _ => exact absurd (Nat.succ_pos _) h

theorem Producer.left_pos {p : Producer α} (h : p.value? = some v) : 0 < p.left := by
  cases p with
  | idle => cases h
  | _ => exact Nat.succ_pos _

theorem Consumer.eq_idle {p : Consumer α} (h : ¬ 0 < p.left) : p = .idle := by
  cases p with
  | idle => rfl
  | _ => exact absurd (Nat.succ_pos _) h

/-- What an access of a push can do to a ring that holds `items`. -/
inductive Pushes (k : Nat) (items : List α) (v : α) (s : Threads α) : Threads α × List (Op α) → Prop
  | goesOn {s' : Threads α} (hholds : Holds k items s') (hvalue : s'.producer.value? = some v)
      (hleft : s'.producer.left < s.producer.left) (hconsumer : s'.consumer = s.consumer) : Pushes k items v s (s', [])
  | pushed {s' : Threads α} (hroom : items.length < 2 ^ k) (hholds : Holds k (items ++ [v]) s')
      (hidle : s'.producer = .idle) (hconsumer : s'.consumer = s.consumer) : Pushes k items v s (s', [.pushed v])
  | full {s' : Threads α} (hfull : items.length = 2 ^ k) (hholds : Holds k items s')
      (hidle : s'.producer = .idle) (hconsumer : s'.consumer = s.consumer) : Pushes k items v s (s', [.full v])

/-- What an access of a pop can do to a ring that holds `items`. -/
inductive Pops (k : Nat) (items : List α) (s : Threads α) : Threads α × List (Op α) → Prop
  | goesOn {s' : Threads α} (hholds : Holds k items s') (hbusy : 0 < s'.consumer.left)
      (hleft : s'.consumer.left < s.consumer.left) (hproducer : s'.producer = s.producer) : Pops k items s (s', [])
  | popped {s' : Threads α} {v : α} {rest : List α} (hitems : items = v :: rest) (hholds : Holds k rest s')
      (hidle : s'.consumer = .idle) (hproducer : s'.producer = s.producer) : Pops k items s (s', [.popped v])
  | empty {s' : Threads α} (hitems : items = []) (hholds : Holds k [] s')
      (hidle : s'.consumer = .idle) (hproducer : s'.producer = s.producer) : Pops k items s (s', [.empty])

theorem Threads.tryPush_cases (hv : s.producer.value? = some v) :
    s.tryPush.1.consumer = s.consumer ∧
      (s.tryPush.2 = [] ∧ s.tryPush.1.producer.value? = some v ∧ s.tryPush.1.producer.left < s.producer.left ∨
        (s.tryPush.2 = [.pushed v] ∨ s.tryPush.2 = [.full v]) ∧ s.tryPush.1.producer = .idle) := by
  cases hp : s.producer <;> rw [hp] at hv <;> cases hv <;> rw [Threads.tryPush, hp] <;> dsimp only
  case loadTail =>
    split
    · exact ⟨rfl, .inl ⟨rfl, rfl, Nat.lt_succ_self 3⟩⟩
    · refine ⟨rfl, .inl ⟨rfl, rfl, ?_⟩⟩
      show 2 < 4
      decide
  case loadHead =>
    split
    · exact ⟨rfl, .inr ⟨.inr rfl, rfl⟩⟩
    · exact ⟨rfl, .inl ⟨rfl, rfl, Nat.lt_succ_self 2⟩⟩
  case write => exact ⟨rfl, .inl ⟨rfl, rfl, Nat.lt_succ_self 1⟩⟩
  case storeTail => exact ⟨rfl, .inr ⟨.inl rfl, rfl⟩⟩

theorem Threads.tryPop_cases (hbusy : 0 < s.consumer.left) :
    s.tryPop.1.producer = s.producer ∧
      (s.tryPop.2 = [] ∧ 0 < s.tryPop.1.consumer.left ∧ s.tryPop.1.consumer.left < s.consumer.left ∨
        ((∃ out, s.tryPop.2 = [.popped out]) ∨ s.tryPop.2 = [.empty]) ∧ s.tryPop.1.consumer = .idle) := by
  cases hp : s.consumer <;> rw [Threads.tryPop, hp] <;> dsimp only
  case idle =>
    rw [hp] at hbusy
    exact absurd hbusy (Nat.lt_irrefl 0)
  case loadHead =>
    split
    · exact ⟨rfl, .inl ⟨rfl, Nat.succ_pos _, Nat.lt_succ_self 3⟩⟩
    · refine ⟨rfl, .inl ⟨rfl, Nat.succ_pos _, ?_⟩⟩
      show 2 < 4
      decide
  case loadTail =>
    split
    · exact ⟨rfl, .inr ⟨.inr rfl, rfl⟩⟩
    · exact ⟨rfl, .inl ⟨rfl, Nat.succ_pos _, Nat.lt_succ_self 2⟩⟩
  case read => exact ⟨rfl, .inl ⟨rfl, Nat.succ_pos _, Nat.lt_succ_self 1⟩⟩
  case storeHead => exact ⟨rfl, .inr ⟨.inl ⟨_, rfl⟩, rfl⟩⟩

/-- A step does to the contents what its answer says. -/
theorem Holds.step (h : Holds k items s) (hk : k < 64) (a : Action α) :
    ∃ items', Holds k items' (s.step a).1 ∧ Run (2 ^ k) items (s.step a).2 items' := by
  obtain ⟨c, hinv, rfl⟩ := h
  obtain ⟨c', hsim⟩ := hinv.step hk a
  exact ⟨_, ⟨c', hsim.inv, rfl⟩, hsim.run⟩

theorem Holds.tryPush (h : Holds k items s) (hk : k < 64) (hv : s.producer.value? = some v) :
    Pushes k items v s s.tryPush := by
  obtain ⟨items', hholds, hrun⟩ := h.step hk .producer
  obtain ⟨hconsumer, ⟨hop, hvalue, hleft⟩ | ⟨hop | hop, hidle⟩⟩ := s.tryPush_cases hv
  all_goals
    change Holds k items' s.tryPush.1 at hholds
    change Run (2 ^ k) items s.tryPush.2 items' at hrun
    rw [hop] at hrun
    rw [← Prod.eta s.tryPush, hop]
  · cases hrun
    exact .goesOn hholds hvalue hleft hconsumer
  · cases hrun.step with
    | pushed v hroom => exact .pushed hroom hholds hidle hconsumer
  · cases hrun.step with
    | full v hfull => exact .full hfull hholds hidle hconsumer

theorem Holds.tryPop (h : Holds k items s) (hk : k < 64) (hbusy : 0 < s.consumer.left) : Pops k items s s.tryPop := by
  obtain ⟨items', hholds, hrun⟩ := h.step hk .consumer
  obtain ⟨hproducer, ⟨hop, hbusy', hleft⟩ | ⟨⟨out, hop⟩ | hop, hidle⟩⟩ := s.tryPop_cases hbusy
  all_goals
    change Holds k items' s.tryPop.1 at hholds
    change Run (2 ^ k) items s.tryPop.2 items' at hrun
    rw [hop] at hrun
    rw [← Prod.eta s.tryPop, hop]
  · cases hrun
    exact .goesOn hholds hbusy' hleft hproducer
  · cases hrun.step with
    | popped v rest => exact .popped rfl hholds hidle hproducer
  · cases hrun.step with
    | empty => exact .empty rfl hholds hidle hproducer

theorem Holds.push (h : Holds k items s) (hk : k < 64) (hidle : s.producer = .idle) (v : α) :
    s.step (.push v) = ({ s with producer := .loadTail v }, []) ∧ Holds k items { s with producer := .loadTail v } := by
  have hstep : s.step (.push v) = ({ s with producer := .loadTail v }, []) := by rw [Threads.step, hidle]
  obtain ⟨items', hholds, hrun⟩ := h.step hk (.push v)
  rw [hstep] at hholds hrun
  cases hrun
  exact ⟨hstep, hholds⟩

theorem Holds.pop (h : Holds k items s) (hk : k < 64) (hidle : s.consumer = .idle) :
    s.step .pop = ({ s with consumer := .loadHead }, []) ∧ Holds k items { s with consumer := .loadHead } := by
  have hstep : s.step .pop = ({ s with consumer := .loadHead }, []) := by rw [Threads.step, hidle]
  obtain ⟨items', hholds, hrun⟩ := h.step hk .pop
  rw [hstep] at hholds hrun
  cases hrun
  exact ⟨hstep, hholds⟩

end Matchbox.SpscQueue
