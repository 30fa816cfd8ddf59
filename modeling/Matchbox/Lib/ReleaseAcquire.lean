import Mathlib.Data.Fintype.Basic
import Mathlib.Logic.Function.Basic
import Mathlib.Order.Lattice

/-!
# Memory under release and acquire

Threads share atomic words and plain locations. An atomic keeps every value that was stored to it, in modification order, and a load may return any of them that is not older than what the thread has already seen; which one is up to the schedule. Happens-before is kept in vector clocks: a releasing store leaves the clock of its thread with the value, an acquiring load that returns the value takes it over. A plain location remembers the epochs of its last accesses, and an access that is not ordered after a conflicting one sets `raced`, once and for all.

Stores go to the end of the modification order, which is no restriction for an atomic that only one thread writes. `Counting` is the protocol for such atomics: each thread counts in a word of its own, releases every increment and acquires the words of the others. A thread that has seen the count `n` of another one is then ordered after everything the other did before its `n`-th increment.
-/

namespace ReleaseAcquire

variable {T A L W V : Type}

/-- What happens before the next access of a thread: the accesses of every thread up to an epoch, and the stores to every atomic up to a place in its modification order. -/
structure View (T A : Type) where
  clock : T → Nat
  seen : A → Nat

namespace View

def bottom : View T A := ⟨fun _ => 0, fun _ => 0⟩

def join (v w : View T A) : View T A := ⟨v.clock ⊔ w.clock, v.seen ⊔ w.seen⟩

theorem join_bottom (v : View T A) : v.join bottom = v := by
  simp only [join, bottom]
  congr 1
  · funext t
    exact Nat.max_zero _
  · funext a
    exact Nat.max_zero _

/-- A view in which the store at place `i` of the atomic is the newest one known. -/
def see [DecidableEq A] (v : View T A) (a : A) (i : Nat) : View T A :=
  { v with seen := Function.update v.seen a (max (v.seen a) i) }

/-- The next epoch of the thread. -/
def tick [DecidableEq T] (v : View T A) (t : T) : View T A :=
  { v with clock := Function.update v.clock t (v.clock t + 1) }

theorem see_eq_self [DecidableEq A] {v : View T A} {a : A} {i : Nat} (hi : i ≤ v.seen a) : v.see a i = v := by
  rw [see, Nat.max_eq_left hi, Function.update_eq_self]

end View

/-- One store to an atomic, with what a load that synchronises with it learns. -/
structure Message (T A W : Type) where
  value : W
  view : View T A

structure Memory (T A L W V : Type) where
  view : T → View T A
  /-- The stores to each atomic, in modification order. -/
  messages : A → List (Message T A W)
  plain : L → V
  /-- The epoch of the last write of each thread. -/
  written : L → T → Nat
  /-- The epoch of the last read of each thread. -/
  read : L → T → Nat
  raced : Bool := false

namespace Memory

/-- Before any thread runs. What initialised the memory happens before everything. -/
def init [DecidableEq T] (w : A → W) (v : L → V) : Memory T A L W V where
  view t := View.bottom.tick t
  messages a := [⟨w a, View.bottom⟩]
  plain := v
  written _ _ := 0
  read _ _ := 0

/-- Some access of these epochs is not ordered before the next access of the thread. -/
def unordered [Fintype T] (m : Memory T A L W V) (t : T) (epochs : T → Nat) : Bool :=
  decide (∃ u, (m.view t).clock u < epochs u)

variable [DecidableEq T] [DecidableEq A] [DecidableEq L]

/-- A load that returns the store at place `i`, if coherence allows it. -/
def load (m : Memory T A L W V) (t : T) (a : A) (acquire : Bool) (i : Nat) : Option (W × Memory T A L W V) :=
  if (m.view t).seen a ≤ i then
    (m.messages a)[i]?.map fun msg =>
      let learnt := if acquire then msg.view else View.bottom
      (msg.value, { m with view := Function.update m.view t (((m.view t).see a i).join learnt) })
  else none

/-- A store at the end of the modification order. -/
def store (m : Memory T A L W V) (t : T) (a : A) (release : Bool) (w : W) : Memory T A L W V :=
  let v := (m.view t).see a (m.messages a).length
  { m with
    messages := Function.update m.messages a (m.messages a ++ [⟨w, if release then v else View.bottom⟩])
    view := Function.update m.view t (if release then v.tick t else v) }

omit [DecidableEq L] in
theorem load_frame {m : Memory T A L W V} {t : T} {a : A} {acquire : Bool} {i : Nat} {r : W × Memory T A L W V}
    (hload : m.load t a acquire i = some r) :
    r.2.messages = m.messages ∧ r.2.plain = m.plain ∧ r.2.written = m.written ∧ r.2.read = m.read ∧
      r.2.raced = m.raced ∧ ∀ u, u ≠ t → r.2.view u = m.view u := by
  simp only [load, Option.ite_none_right_eq_some, Option.map_eq_some_iff] at hload
  obtain ⟨_, msg, _, rfl⟩ := hload
  exact ⟨rfl, rfl, rfl, rfl, rfl, fun u hu => Function.update_of_ne hu _ _⟩

variable [Fintype T]

/-- A read of a plain location. -/
def fetch (m : Memory T A L W V) (t : T) (l : L) : V × Memory T A L W V :=
  (m.plain l,
    { m with
      read := Function.update m.read l (Function.update (m.read l) t ((m.view t).clock t))
      raced := m.raced || m.unordered t (m.written l) })

/-- A write of a plain location. -/
def assign (m : Memory T A L W V) (t : T) (l : L) (v : V) : Memory T A L W V :=
  { m with
    plain := Function.update m.plain l v
    written := Function.update m.written l (Function.update (m.written l) t ((m.view t).clock t))
    raced := m.raced || m.unordered t (m.written l) || m.unordered t (m.read l) }

omit [DecidableEq T] [DecidableEq A] [DecidableEq L] in
theorem unordered_eq_false {m : Memory T A L W V} {t : T} {epochs : T → Nat}
    (h : ∀ u, epochs u ≤ (m.view t).clock u) : m.unordered t epochs = false := by
  rw [unordered, decide_eq_false_iff_not]
  rintro ⟨u, hu⟩
  exact Nat.not_lt.2 (h u) hu

end Memory

/-! ### One counter per thread -/

section Counting

variable {own : T → A} {word : Nat → W} {count count' : T → Nat} {m : Memory T A L W V} {t u : T} {i : Nat}

/-- The store that brought the counter of the thread to `i`. -/
structure Message.Counted (own : T → A) (word : Nat → W) (count : T → Nat) (t : T) (i : Nat) (msg : Message T A W) :
    Prop where
  value : msg.value = word i
  seen : msg.view.seen (own t) = i
  clock : ∀ u, msg.view.clock u = msg.view.seen (own u)
  le : ∀ u, msg.view.seen (own u) ≤ count u

/-- What a thread knows of the counters. Having seen a count of another thread is being ordered after the accesses of that thread up to then. -/
structure View.Counted (own : T → A) (count : T → Nat) (t : T) (v : View T A) : Prop where
  seen : v.seen (own t) = count t
  epoch : v.clock t = count t + 1
  clock : ∀ u, t ≠ u → v.clock u = v.seen (own u)
  le : ∀ u, v.seen (own u) ≤ count u

/-- Every thread `t` has counted to `count t`, in the atomic `own t`, where `word` says how a count is written. -/
structure Counting (own : T → A) (word : Nat → W) (count : T → Nat) (m : Memory T A L W V) : Prop where
  length : ∀ t, (m.messages (own t)).length = count t + 1
  message : ∀ t i (msg : Message T A W), (m.messages (own t))[i]? = some msg → msg.Counted own word count t i
  view : ∀ t, (m.view t).Counted own count t

theorem Message.Counted.mono {msg : Message T A W} (h : msg.Counted own word count t i)
    (hle : ∀ u, count u ≤ count' u) : msg.Counted own word count' t i :=
  ⟨h.value, h.seen, h.clock, fun u => (h.le u).trans (hle u)⟩

theorem View.Counted.mono {v : View T A} (h : v.Counted own count t) (hown : count' t = count t)
    (hle : ∀ u, count u ≤ count' u) : v.Counted own count' t :=
  ⟨h.seen.trans hown.symm, by rw [h.epoch, hown], h.clock, fun u => (h.le u).trans (hle u)⟩

theorem Counting.init [DecidableEq T] (own : T → A) (word : Nat → W) (v : L → V) :
    Counting own word (fun _ => 0) (Memory.init (fun _ => word 0) v : Memory T A L W V) where
  length _ := rfl
  message t i msg hmsg := by
    cases i with
    | zero =>
        obtain rfl : _ = msg := Option.some.inj hmsg
        exact ⟨rfl, rfl, fun _ => rfl, fun _ => le_rfl⟩
    | succ i => cases hmsg
  view t := by
    refine ⟨rfl, ?_, fun u hne => ?_, fun _ => le_rfl⟩
    · simp [Memory.init, View.tick, View.bottom]
    · simp [Memory.init, View.tick, View.bottom, Function.update_of_ne hne.symm]

theorem Counting.congr (h : Counting own word count m) {m' : Memory T A L W V} (hview : m'.view = m.view)
    (hmessages : m'.messages = m.messages) : Counting own word count m' := by
  constructor
  · rw [hmessages]; exact h.length
  · rw [hmessages]; exact h.message
  · rw [hview]; exact h.view

variable [DecidableEq T] [DecidableEq A]

theorem Counting.load_own (h : Counting own word count m) {r : W × Memory T A L W V}
    (hload : m.load t (own t) false i = some r) : r = (word (count t), m) := by
  simp only [Memory.load, Option.ite_none_right_eq_some, Option.map_eq_some_iff] at hload
  obtain ⟨hseen, msg, hmsg, rfl⟩ := hload
  obtain ⟨hlt, _⟩ := List.getElem?_eq_some_iff.1 hmsg
  have hi : i = count t := by
    rw [(h.view t).seen] at hseen
    rw [h.length] at hlt
    omega
  subst hi
  have hsee : (m.view t).see (own t) (count t) = m.view t := View.see_eq_self (h.view t).seen.ge
  simp only [Bool.false_eq_true, ↓reduceIte, hsee, View.join_bottom, Function.update_eq_self,
    (h.message t _ msg hmsg).value]

theorem Counting.exists_load (h : Counting own word count m) (t u : T) (acquire : Bool) :
    ∃ r, m.load t (own u) acquire (count u) = some r := by
  have hlt : count u < (m.messages (own u)).length := by
    rw [h.length]
    exact Nat.lt_succ_self _
  simp [Memory.load, (h.view t).le u, List.getElem?_eq_getElem hlt]

theorem View.Counted.join {v : View T A} (h : v.Counted own count t) (hown : Function.Injective own) (hne : t ≠ u)
    {msg : Message T A W} (hmsg : msg.Counted own word count u i) (hi : v.seen (own u) ≤ i) (hle : i ≤ count u) :
    ((v.see (own u) i).join msg.view).seen (own u) = i ∧ ((v.see (own u) i).join msg.view).Counted own count t := by
  have hseen (x : T) : ((v.see (own u) i).join msg.view).seen (own x) =
      if x = u then i else max (v.seen (own x)) (msg.view.seen (own x)) := by
    change max (Function.update v.seen (own u) _ (own x)) (msg.view.seen (own x)) = _
    split
    · rename_i hx
      rw [hx, Function.update_self, hmsg.seen]
      omega
    · rename_i hx
      rw [Function.update_of_ne (hown.ne hx)]
  have hclock (x : T) : ((v.see (own u) i).join msg.view).clock x = max (v.clock x) (msg.view.clock x) := rfl
  refine ⟨(hseen u).trans (if_pos rfl), ?_, ?_, fun x hx => ?_, fun x => ?_⟩
  · rw [hseen, if_neg hne, h.seen]
    exact Nat.max_eq_left (hmsg.le t)
  · have hmine := hmsg.le t
    rw [hclock, h.epoch, hmsg.clock]
    omega
  · rw [hclock, hseen, h.clock x hx, hmsg.clock]
    split
    · rename_i hxu
      rw [hxu, hmsg.seen]
      exact Nat.max_eq_right hi
    · rfl
  · have hmine := h.le x
    have htheirs := hmsg.le x
    rw [hseen]
    split
    · rename_i hxu
      rw [hxu]
      exact hle
    · omega

/-- A thread reads the count of another one: some count between the one it knew and the present one. -/
theorem Counting.load (h : Counting own word count m) (hown : Function.Injective own) (hne : t ≠ u)
    {r : W × Memory T A L W V} (hload : m.load t (own u) true i = some r) :
    r.1 = word i ∧ (m.view t).seen (own u) ≤ i ∧ i ≤ count u ∧ (r.2.view t).seen (own u) = i ∧
      Counting own word count r.2 := by
  simp only [Memory.load, Option.ite_none_right_eq_some, Option.map_eq_some_iff] at hload
  obtain ⟨hseen, msg, hmsg, rfl⟩ := hload
  obtain ⟨hlt, _⟩ := List.getElem?_eq_some_iff.1 hmsg
  have hcounted := h.message u i msg hmsg
  have hle : i ≤ count u := by
    rw [h.length] at hlt
    omega
  obtain ⟨hnow, hview⟩ := (h.view t).join hown hne hcounted hseen hle
  refine ⟨hcounted.value, hseen, hle, ?_, h.length, h.message, fun x => ?_⟩
  · simpa using hnow
  · by_cases hx : x = t
    · subst hx
      simpa using hview
    · simpa [Function.update_of_ne hx] using h.view x

theorem View.Counted.seen_see {v : View T A} (h : v.Counted own count t) (hown : Function.Injective own) (x : T) :
    (v.see (own t) (count t + 1)).seen (own x) = if x = t then count t + 1 else v.seen (own x) := by
  change Function.update v.seen (own t) _ (own x) = _
  split
  · rename_i hx
    rw [hx, Function.update_self, h.seen]
    omega
  · rename_i hx
    rw [Function.update_of_ne (hown.ne hx)]

theorem Counting.store (h : Counting own word count m) (hown : Function.Injective own) (t : T) :
    Counting own word (Function.update count t (count t + 1)) (m.store t (own t) true (word (count t + 1))) := by
  have hmono (u : T) : count u ≤ Function.update count t (count t + 1) u := by
    by_cases hu : u = t
    · subst hu
      rw [Function.update_self]
      exact Nat.le_succ _
    · rw [Function.update_of_ne hu]
  have hseen := (h.view t).seen_see hown
  have hle (x : T) : ((m.view t).see (own t) (count t + 1)).seen (own x) ≤
      Function.update count t (count t + 1) x := by
    rw [hseen]
    split
    · rename_i hx
      rw [hx, Function.update_self]
    · exact ((h.view t).le x).trans (hmono x)
  simp only [Memory.store, ↓reduceIte, h.length]
  refine ⟨fun u => ?_, fun u i msg hmsg => ?_, fun u => ?_⟩
  · by_cases hu : u = t
    · subst hu
      simp [h.length]
    · simp [Function.update_of_ne hu, Function.update_of_ne (hown.ne hu), h.length]
  · dsimp only at hmsg
    by_cases hu : u = t
    · subst hu
      rw [Function.update_self, List.getElem?_append] at hmsg
      split at hmsg
      · exact (h.message u i msg hmsg).mono hmono
      · -- the new store
        rename_i hge
        rw [List.getElem?_singleton, Option.ite_none_right_eq_some] at hmsg
        obtain ⟨hi, hmsg⟩ := hmsg
        obtain rfl : i = count u + 1 := by
          rw [h.length] at hge hi
          omega
        obtain rfl := Option.some.inj hmsg
        refine ⟨rfl, (hseen u).trans (if_pos rfl), fun x => ?_, hle⟩
        change (m.view u).clock x = _
        rw [hseen]
        split
        · rename_i hx
          rw [hx, (h.view u).epoch]
        · rename_i hx
          exact (h.view u).clock x (Ne.symm hx)
    · rw [Function.update_of_ne (hown.ne hu)] at hmsg
      exact (h.message u i msg hmsg).mono hmono
  · dsimp only
    by_cases hu : u = t
    · subst hu
      rw [Function.update_self]
      refine ⟨?_, ?_, fun x hx => ?_, hle⟩
      · rw [Function.update_self]
        exact (hseen u).trans (if_pos rfl)
      · simp [View.tick, View.see, (h.view u).epoch]
      · change Function.update (m.view u).clock u _ x = _
        rw [Function.update_of_ne hx.symm, (h.view u).clock x hx]
        exact ((hseen x).trans (if_neg hx.symm)).symm
    · rw [Function.update_of_ne hu]
      exact (h.view u).mono (Function.update_of_ne hu _ _) hmono

end Counting

end ReleaseAcquire
