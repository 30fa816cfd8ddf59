import Mathlib.Data.List.Basic

/-!
# Intrusive lists

A node is an address, and the links of all nodes are two functions on addresses. `Path` follows the forward links of a singly linked list, `Seg` both links of a doubly linked one; each carries the two ends explicitly, so lists can be cut and joined, and says which abstract list of nodes the links spell out.
-/

namespace LinkedList

variable {α : Type*} {next prev next' prev' : α → α} {b f l e x : α} {xs ys : List α}

/-- Following `next` from `f` visits `xs` and arrives at `e`. -/
def Path (next : α → α) : α → List α → α → Prop
  | f, [], e => f = e
  | f, x :: xs, e => f = x ∧ Path next (next x) xs e

/-- The doubly linked nodes `xs`: `f` enters them, `l` is the last, `b` stands before and `e` behind. -/
def Seg (next prev : α → α) : α → α → List α → α → α → Prop
  | b, f, [], l, e => f = e ∧ l = b
  | b, f, x :: xs, l, e => f = x ∧ prev x = b ∧ Seg next prev x (next x) xs l e

theorem Path.congr (h : Path next f xs e) (hnext : ∀ y ∈ xs, next' y = next y) : Path next' f xs e := by
  induction xs generalizing f with
  | nil => exact h
  | cons y ys ih =>
      obtain ⟨rfl, hrest⟩ := h
      refine ⟨rfl, ?_⟩
      rw [hnext f (by simp)]
      exact ih hrest fun z hz => hnext z (by simp [hz])

/-- The first `n` nodes from `f` on. -/
def walk (next : α → α) : Nat → α → List α
  | 0, _ => []
  | n + 1, f => f :: walk next n (next f)

theorem Path.walk_eq (h : Path next f xs e) : walk next xs.length f = xs := by
  induction xs generalizing f with
  | nil => rfl
  | cons x xs ih =>
      obtain ⟨rfl, hrest⟩ := h
      rw [List.length_cons, walk, ih hrest]

theorem Seg.path (h : Seg next prev b f xs l e) : Path next f xs e := by
  induction xs generalizing b f with
  | nil => exact h.1
  | cons x xs ih => exact ⟨h.1, ih h.2.2⟩

theorem Seg.congr (h : Seg next prev b f xs l e) (hnext : ∀ y ∈ xs, next' y = next y)
    (hprev : ∀ y ∈ xs, prev' y = prev y) : Seg next' prev' b f xs l e := by
  induction xs generalizing b f with
  | nil => exact h
  | cons y ys ih =>
      obtain ⟨rfl, hb, hrest⟩ := h
      refine ⟨rfl, by rw [hprev f (by simp), hb], ?_⟩
      rw [hnext f (by simp)]
      exact ih hrest (fun z hz => hnext z (by simp [hz])) (fun z hz => hprev z (by simp [hz]))

theorem seg_append : Seg next prev b f (xs ++ ys) l e ↔
    ∃ m g, Seg next prev b f xs m g ∧ Seg next prev m g ys l e := by
  induction xs generalizing b f with
  | nil =>
      constructor
      · intro h
        exact ⟨b, f, ⟨rfl, rfl⟩, h⟩
      · rintro ⟨m, g, ⟨rfl, rfl⟩, h⟩
        exact h
  | cons x xs ih =>
      simp only [List.cons_append, Seg, ih]
      constructor
      · rintro ⟨hf, hb, m, g, hxs, hys⟩
        exact ⟨m, g, ⟨hf, hb, hxs⟩, hys⟩
      · rintro ⟨m, g, ⟨hf, hb, hxs⟩, hys⟩
        exact ⟨hf, hb, m, g, hxs, hys⟩

theorem Seg.first_eq (h : Seg next prev b f (x :: xs) l e) : f = x := h.1

theorem Seg.last_eq (h : Seg next prev b f xs l e) : l = xs.getLastD b := by
  induction xs generalizing b f with
  | nil => exact h.2
  | cons x xs ih =>
      rw [ih h.2.2, List.getLastD_cons]

theorem Seg.last_mem (h : Seg next prev b f xs l e) (hne : xs ≠ []) : l ∈ xs := by
  rw [h.last_eq, List.getLastD_eq_getLast?, List.getLast?_eq_some_getLast hne]
  exact List.getLast_mem hne

theorem Seg.first_mem (h : Seg next prev b f xs l e) (hne : xs ≠ []) : f ∈ xs := by
  cases xs with
  | nil => exact absurd rfl hne
  | cons x xs => simp [h.1]

theorem Seg.first_eq_end_iff (h : Seg next prev b f xs l e) (he : e ∉ xs) : f = e ↔ xs = [] := by
  constructor
  · intro hf
    by_contra hne
    exact he (hf ▸ h.first_mem hne)
  · rintro rfl
    exact h.1

theorem Seg.last_eq_begin_iff (h : Seg next prev b f xs l e) (hb : b ∉ xs) : l = b ↔ xs = [] := by
  constructor
  · intro hl
    by_contra hne
    exact hb (hl ▸ h.last_mem hne)
  · rintro rfl
    exact h.2

theorem Seg.redirect_end (h : Seg next prev b f xs l e) (hnodup : xs.Nodup)
    (hlast : xs ≠ [] → next' l = x) (hnext : ∀ y ∈ xs, y ≠ l → next' y = next y)
    (hprev : ∀ y ∈ xs, prev' y = prev y) : Seg next' prev' b (if xs = [] then x else f) xs l x := by
  induction xs generalizing b f with
  | nil => exact ⟨by simp, h.2⟩
  | cons y ys ih =>
      obtain ⟨rfl, hb, hrest⟩ := h
      have hnotin : f ∉ ys := (List.nodup_cons.mp hnodup).1
      refine ⟨by simp, by rw [hprev f (by simp), hb], ?_⟩
      have hih := ih hrest (List.nodup_cons.mp hnodup).2 (fun _ => hlast (by simp))
        (fun z hz hzl => hnext z (by simp [hz]) hzl) (fun z hz => hprev z (by simp [hz]))
      by_cases hys : ys = []
      · subst hys
        have hl : l = f := hrest.2
        subst hl
        rw [hlast (by simp)]
        simpa using hih
      · have hne : f ≠ l := fun hfl => hnotin (hfl ▸ hrest.last_mem hys)
        rw [hnext f (by simp) hne]
        simpa [hys] using hih

theorem Seg.redirect_begin (h : Seg next prev b f xs l e) (hnodup : xs.Nodup)
    (hfirst : xs ≠ [] → prev' f = x) (hprev : ∀ y ∈ xs, y ≠ f → prev' y = prev y)
    (hnext : ∀ y ∈ xs, next' y = next y) : Seg next' prev' x f xs (if xs = [] then x else l) e := by
  cases xs with
  | nil => exact ⟨h.1, by simp⟩
  | cons y ys =>
      obtain ⟨rfl, hb, hrest⟩ := h
      have hnotin : f ∉ ys := (List.nodup_cons.mp hnodup).1
      refine ⟨rfl, hfirst (by simp), ?_⟩
      rw [hnext f (by simp), if_neg (by simp)]
      exact hrest.congr (fun z hz => hnext z (by simp [hz]))
        (fun z hz => hprev z (by simp [hz]) fun hzf => hnotin (hzf ▸ hz))

/-- Linking a fresh node behind the last one. -/
theorem Seg.push (h : Seg next prev b f xs l e) (hnodup : xs.Nodup)
    (hlast : xs ≠ [] → next' l = x) (hnext : ∀ y ∈ xs, y ≠ l → next' y = next y)
    (hprev : ∀ y ∈ xs, prev' y = prev y) (hprevx : prev' x = l) (hnextx : next' x = e) :
    Seg next' prev' b (if xs = [] then x else f) (xs ++ [x]) x e :=
  seg_append.mpr ⟨l, x, h.redirect_end hnodup hlast hnext hprev, rfl, hprevx, hnextx, rfl⟩

/-- Taking one node out: its neighbours, or the ends, are linked to each other. -/
theorem Seg.unlink [DecidableEq α] (h : Seg next prev b f (xs ++ x :: ys) l e) (hnodup : (xs ++ x :: ys).Nodup)
    (hnext : ∀ y ∈ xs, next' y = if y = prev x then next x else next y)
    (hprev : ∀ y ∈ ys, prev' y = if y = next x then prev x else prev y)
    (hnext' : ∀ y ∈ ys, next' y = next y) (hprev' : ∀ y ∈ xs, prev' y = prev y) :
    Seg next' prev' b (if xs = [] then next x else f) (xs ++ ys) (if ys = [] then prev x else l) e := by
  obtain ⟨m, g, hxs, hx⟩ := seg_append.mp h
  obtain ⟨rfl, rfl, hys⟩ := hx
  have hnodups := List.nodup_append.mp hnodup
  have hxnodup : xs.Nodup := hnodups.1
  have hynodup : ys.Nodup := (List.nodup_cons.mp hnodups.2.1).2
  refine seg_append.mpr ⟨prev g, next g, ?_, ?_⟩
  · refine hxs.redirect_end hxnodup (fun hne => ?_) (fun y hy hyl => ?_) hprev'
    · rw [hnext _ (hxs.last_mem hne), if_pos rfl]
    · rw [hnext y hy, if_neg hyl]
  · refine hys.redirect_begin hynodup (fun hne => ?_) (fun y hy hyf => ?_) hnext'
    · rw [hprev _ (hys.first_mem hne), if_pos rfl]
    · rw [hprev y hy, if_neg hyf]

theorem Seg.prev_eq (h : Seg next prev b f (xs ++ x :: ys) l e) : prev x = xs.getLastD b := by
  obtain ⟨m, g, hxs, hx⟩ := seg_append.mp h
  rw [hx.2.1, hxs.last_eq]

theorem Seg.next_eq (h : Seg next prev b f (xs ++ x :: ys) l e) : next x = ys.headD e := by
  obtain ⟨m, g, hxs, hx⟩ := seg_append.mp h
  cases ys with
  | nil => exact hx.2.2.1
  | cons y ys => exact hx.2.2.1

/-- The nodes and the two ends determine all links. -/
theorem Seg.unique {f' l' : α} (h : Seg next prev b f xs l e) (h' : Seg next' prev' b f' xs l' e) :
    f' = f ∧ l' = l ∧ ∀ y ∈ xs, next' y = next y ∧ prev' y = prev y := by
  induction xs generalizing b f f' with
  | nil => exact ⟨h'.1.trans h.1.symm, h'.2.trans h.2.symm, fun y hy => absurd hy List.not_mem_nil⟩
  | cons x xs ih =>
      obtain ⟨hfirst, hprev, hrest⟩ := h
      obtain ⟨hfirst', hprev', hrest'⟩ := h'
      obtain ⟨hnext, hlast, hlinks⟩ := ih hrest hrest'
      exact ⟨hfirst'.trans hfirst.symm, hlast, List.forall_mem_cons.2 ⟨⟨hnext, hprev'.trans hprev.symm⟩, hlinks⟩⟩

end LinkedList
