import Matchbox.Stream.Stall

/-!
# Write interest

A connection remembers in `want_write` what it has last told the Poller. `Conn.Registered` says that the Poller has it so, and `Conn.Armed` that it is what the connection needs: write interest exactly while bytes are pending. `flush_and_arm` keeps the first, establishes the second and touches no other descriptor. Whatever else queues bytes for a subscriber leaves the publisher marked, and then the next walk of `flush_all` flushes everybody.
-/

namespace Matchbox

/-! ### Registrations -/

namespace Poller

@[simp] theorem setWritable_self (p : Poller) (fd : Nat) (on : Bool) : p.setWritable fd on fd = (p fd).map fun _ => on :=
  Function.update_self ..

theorem setWritable_of_ne (p : Poller) {fd fd' : Nat} (h : fd' ≠ fd) (on : Bool) : p.setWritable fd on fd' = p fd' :=
  Function.update_of_ne h ..

theorem remove_of_ne (p : Poller) {fd fd' : Nat} (h : fd' ≠ fd) : p.remove fd fd' = p fd' := Function.update_of_ne h ..

theorem add_of_ne (p : Poller) {fd fd' : Nat} (h : fd' ≠ fd) : p.add fd fd' = p fd' := by
  by_cases hsome : (p fd).isSome
  · have hadd : p.add fd = p := if_pos hsome
    rw [hadd]
  · have hadd : p.add fd = Function.update p fd (some false) := if_neg hsome
    rw [hadd]
    exact Function.update_of_ne h ..

theorem add_of_some {p : Poller} {fd : Nat} {on : Bool} (h : p fd = some on) : p.add fd = p := by
  rw [add, h]
  rfl

theorem add_self {p : Poller} {fd : Nat} (h : p fd = none) : p.add fd fd = some false := by
  rw [add, h]
  exact Function.update_self ..

end Poller

namespace Conn

variable {c : Conn} {p : Poller}

/-- The descriptor is registered, with the write interest that the connection remembers. -/
def Registered (c : Conn) (p : Poller) : Prop := p c.fd = some c.wantWrite

/-- The connection asks for a writable event exactly while bytes are pending. -/
def Armed (c : Conn) : Prop := c.wantWrite = c.pending

theorem writeLoop_wantWrite (c : Conn) (results : List WriteResult) : (c.writeLoop results).1.wantWrite = c.wantWrite :=
  writeLoop_inv (P := fun c' => c'.wantWrite = c.wantWrite) (fun _ _ _ h => h) rfl results

theorem flush_wantWrite (c : Conn) (results : List WriteResult) : (c.flush results).1.wantWrite = c.wantWrite := by
  have hloop := c.writeLoop_wantWrite results
  rw [flush]
  split
  · dsimp only
    rw [compact]
    split
    · exact hloop
    · split <;> exact hloop
  · exact hloop

theorem flush_fd (c : Conn) (results : List WriteResult) : (c.flush results).1.fd = c.fd := by
  obtain ⟨_, _, _, _, h⟩ := c.flush_written results
  rw [h]

/-- What `flush_and_arm` tells the Poller is what the connection remembers. -/
theorem flushAndArm_registered (h : c.Registered p) (writes : List WriteResult) :
    (c.flushAndArm p writes).1.Registered (c.flushAndArm p writes).2.1 := by
  have hflushed : (c.flush writes).1.Registered p := by
    rw [Registered, flush_fd, flush_wantWrite]
    exact h
  rw [flushAndArm]
  dsimp only
  split
  · exact hflushed
  · split
    · change p.setWritable _ _ _ = _
      rw [Poller.setWritable_self, hflushed]
      rfl
    · exact hflushed

theorem flushAndArm_other (c : Conn) (p : Poller) (writes : List WriteResult) {fd : Nat} (hfd : fd ≠ c.fd) :
    (c.flushAndArm p writes).2.1 fd = p fd := by
  rw [flushAndArm]
  dsimp only
  split
  · rfl
  · split
    · rw [flush_fd]
      exact p.setWritable_of_ne hfd _
    · rfl

theorem flushAndArm_armed (c : Conn) (p : Poller) (writes : List WriteResult)
    (hok : (c.flushAndArm p writes).2.2 = true) : (c.flushAndArm p writes).1.Armed := by
  rw [flushAndArm] at hok ⊢
  dsimp only at hok ⊢
  split at hok
  · cases hok
  · rename_i hflush
    rw [if_neg hflush]
    split
    · rfl
    · rename_i hsame
      exact (not_not.1 hsame).symm

end Conn

/-! ### One subscriber -/

namespace Subscriber

variable {s : Subscriber} {p : Poller}

theorem Grown.registered {s s' : Subscriber} (h : s.Grown s') : s'.toConn.Registered p ↔ s.toConn.Registered p := by
  obtain ⟨⟨frames, hconn⟩, -⟩ := h
  rw [hconn]
  clear hconn
  induction frames using List.reverseRecOn with
  | nil => exact Iff.rfl
  | append_singleton frames f ih =>
      rw [List.foldl_append]
      exact ih

theorem pump_registered (h : s.toConn.Registered p) (cfg : Publisher.Config) (ring : ReplayRing) (now : Nat)
    (writes : List WriteResult) :
    (s.pump cfg ring p now writes).1.toConn.Registered (s.pump cfg ring p now writes).2.1 := by
  obtain ⟨_, _, hpump, -⟩ := s.pump_flushed cfg ring now p writes
  rw [hpump]
  exact Conn.flushAndArm_registered ((s.pumpTx_grown cfg ring now).registered.2 h) writes

theorem pump_other (s : Subscriber) (cfg : Publisher.Config) (ring : ReplayRing) (p : Poller) (now : Nat)
    (writes : List WriteResult) {fd : Nat} (hfd : fd ≠ s.fd) : (s.pump cfg ring p now writes).2.1 fd = p fd := by
  obtain ⟨_, _, hpump, -⟩ := s.pump_flushed cfg ring now p writes
  rw [hpump]
  apply Conn.flushAndArm_other
  rw [(s.pumpTx_grown cfg ring now).fd]
  exact hfd

theorem afterPump_armed {cfg : Publisher.Config} {ring : ReplayRing} {now : Nat} {writes : List WriteResult}
    (hkept : (s.afterPump cfg ring now writes).2 = true) : (s.afterPump cfg ring now writes).1.toConn.Armed := by
  rw [afterPump] at hkept ⊢
  obtain ⟨_, kept, hpump, hok⟩ := s.pump_flushed cfg ring now Poller.init writes
  rw [hpump] at hkept ⊢
  exact Conn.flushAndArm_armed _ _ _ (hok hkept)

theorem afterReadable_registered (h : s.toConn.Registered p) (ring : ReplayRing) (reads : List ReadResult) :
    (s.afterReadable ring reads).1.toConn.Registered p := by
  have hread : (s.readLoop reads).1.toConn.Registered p := by
    rw [readLoop_received]
    exact h
  rcases s.afterReadable_cases ring reads with ⟨-, hnone⟩ | ⟨-, -, haccepted⟩
  · rw [hnone]
    exact hread
  · rw [haccepted, start]
    dsimp only
    split
    · split <;> exact hread
    · exact hread

/-- Whatever happens to a subscriber, its bytes are sent or pending. -/
theorem after_conserved (h : s.toConn.Conserved) (q : Publisher) (a : Publisher.Action) :
    (s.after q a).1.toConn.Conserved := by
  cases a with
  | publish m => exact h
  | subscribe fd => exact h
  | onReadable fd reads =>
      rw [after, only]
      split
      · exact (afterReadable_stalled h q.ring reads).1
      · exact h
  | onWritable fd writes =>
      rw [after, only]
      split
      · exact h.flushAndArm _ writes
      · exact h
  | flushAll now writes =>
      rw [after]
      split
      · exact h
      · exact (afterPump_stalled h q.cfg q.ring now (writes s.fd)).1

end Subscriber

/-! ### The publisher -/

namespace Publisher

/-- Every subscriber is registered, and armed unless the publisher is marked. -/
structure Watched (r : Publisher × Poller) : Prop where
  distinct : r.1.Distinct
  conserved : ∀ s ∈ r.1.subs, s.toConn.Conserved
  registered : ∀ s ∈ r.1.subs, s.toConn.Registered r.2
  armed : r.1.dirty = false → ∀ s ∈ r.1.subs, s.toConn.Armed

section Steps

variable {r : Publisher × Poller} {fd : Nat}

theorem Watched.init (cfg : Config) (poller : Poller) : Watched (init cfg, poller) where
  distinct := List.nodup_nil
  conserved := fun _ hs => absurd hs List.not_mem_nil
  registered := fun _ hs => absurd hs List.not_mem_nil
  armed := fun _ _ hs => absurd hs List.not_mem_nil

theorem pumpAll_registered (cfg : Config) (ring : ReplayRing) (now : Nat) (writes : Nat → List WriteResult)
    (poller : Poller) {subs : List Subscriber} (hdistinct : (subs.map fun s => s.fd).Nodup) :
    (∀ s ∈ subs, s.toConn.Registered poller →
        (s.afterPump cfg ring now (writes s.fd)).1.toConn.Registered (pumpAll cfg ring now writes poller subs).2) ∧
      ∀ fd, (∀ s ∈ subs, s.fd ≠ fd) → (pumpAll cfg ring now writes poller subs).2 fd = poller fd := by
  induction subs generalizing poller with
  | nil => exact ⟨fun _ hs => absurd hs List.not_mem_nil, fun _ _ => rfl⟩
  | cons s subs ih =>
      rw [List.map_cons, List.nodup_cons] at hdistinct
      have hne : ∀ t ∈ subs, t.fd ≠ s.fd := fun t ht heq => hdistinct.1 (heq ▸ List.mem_map_of_mem ht)
      obtain ⟨hsubs, hother⟩ := ih (s.pump cfg ring poller now (writes s.fd)).2.1 hdistinct.2
      constructor
      · intro t ht hregistered
        rcases List.mem_cons.1 ht with rfl | ht
        · have hself := Subscriber.pump_registered hregistered cfg ring now (writes t.fd)
          rw [(t.pump_poller cfg ring now poller Poller.init (writes t.fd)).1] at hself
          rw [Conn.Registered, Subscriber.afterPump, Subscriber.pump_fd]
          rw [Conn.Registered, Subscriber.pump_fd] at hself
          exact (hother t.fd hne).trans hself
        · apply hsubs t ht
          rw [Conn.Registered, s.pump_other cfg ring poller now _ (hne t ht)]
          exact hregistered
      · intro fd hfd
        refine (hother fd fun t ht => hfd t (List.mem_cons_of_mem s ht)).trans ?_
        exact s.pump_other cfg ring poller now _ (Ne.symm (hfd s List.mem_cons_self))

theorem dropAll_other (p : Publisher) (poller : Poller) {dead : List Nat} (hfd : fd ∉ dead) :
    (p.dropAll poller dead).2 fd = poller fd := by
  induction dead generalizing p poller with
  | nil => rfl
  | cons fd' dead ih =>
      obtain ⟨hne, hnot⟩ := List.ne_and_not_mem_of_not_mem_cons hfd
      exact (ih _ _ hnot).trans (poller.remove_of_ne hne)

theorem dropAll_dirty (p : Publisher) (poller : Poller) (dead : List Nat) : (p.dropAll poller dead).1.dirty = p.dirty := by
  induction dead generalizing p poller with
  | nil => rfl
  | cons fd dead ih => exact ih _ _

/-! What a call tells the Poller about descriptors that it is not about. -/

theorem onReadable_other (p : Publisher) (poller : Poller) {fd fd' : Nat} (hne : fd' ≠ fd) (reads : List ReadResult) :
    (p.onReadable poller fd reads).2 fd' = poller fd' := by
  cases hs : p.find fd with
  | none => rw [onReadable, hs]
  | some s =>
      rcases onReadable_cases hs poller reads with ⟨-, -, heq⟩ | ⟨-, -, heq⟩ | ⟨-, heq⟩
      · rw [heq]
        exact poller.remove_of_ne hne
      · rw [heq]
      · rw [heq]

theorem onWritable_other (p : Publisher) (poller : Poller) {fd fd' : Nat} (hne : fd' ≠ fd) (writes : List WriteResult) :
    (p.onWritable poller fd writes).2 fd' = poller fd' := by
  rw [onWritable]
  cases hs : p.find fd with
  | none => rfl
  | some s =>
      have hsfd : fd' ≠ s.fd := by
        have hfound : s.fd = fd := by simpa using List.find?_some hs
        rw [hfound]
        exact hne
      have hflush := s.toConn.flushAndArm_other poller writes hsfd
      dsimp only
      split
      · exact hflush
      · exact (Poller.remove_of_ne _ hne).trans hflush

/-- Descriptors that are nobody's stay as they are. -/
theorem step_other (hdistinct : r.1.Distinct) (a : Action) (hfd : ∀ s ∈ r.1.subs, s.fd ≠ fd) (hnew : a ≠ .subscribe fd) :
    (step r a).2 fd = r.2 fd := by
  cases a with
  | publish m => rfl
  | subscribe fd' =>
      apply r.2.add_of_ne
      rintro rfl
      exact hnew rfl
  | onReadable fd' reads =>
      by_cases heq : fd = fd'
      · subst heq
        have hnone : r.1.find fd = none := List.find?_eq_none.2 fun s hs => by simpa using hfd s hs
        rw [step, onReadable, hnone]
      · exact r.1.onReadable_other r.2 heq reads
  | onWritable fd' writes =>
      by_cases heq : fd = fd'
      · subst heq
        have hnone : r.1.find fd = none := List.find?_eq_none.2 fun s hs => by simpa using hfd s hs
        rw [step, onWritable, hnone]
      · exact r.1.onWritable_other r.2 heq writes
  | flushAll now writes =>
      rw [step, flushAll]
      split
      · rfl
      · rw [dropAll_other]
        · exact (pumpAll_registered r.1.cfg r.1.ring now writes r.2 hdistinct).2 fd hfd
        · rw [pumpAll_eq]
          intro hmem
          obtain ⟨x, hx, hxfd⟩ := List.mem_map.1 hmem
          obtain ⟨s, hs, rfl⟩ := List.mem_map.1 (List.mem_of_mem_filter hx)
          rw [Subscriber.afterPump, Subscriber.pump_fd] at hxfd
          exact hfd s hs hxfd

section Registered

variable {s : Subscriber} (hdistinct : r.1.Distinct) (hs : s ∈ r.1.subs) (hregistered : s.toConn.Registered r.2)
include hregistered

theorem subscribe_registered (fd : Nat) : s.toConn.Registered (r.2.add fd) := by
  rw [Conn.Registered]
  by_cases heq : s.fd = fd
  · subst heq
    rw [Poller.add_of_some hregistered]
    exact hregistered
  · rw [r.2.add_of_ne heq]
    exact hregistered

include hdistinct hs

theorem onReadable_registered {reads : List ReadResult} (hkept : (s.only fd (Subscriber.afterReadable r.1.ring reads)).2 = true) :
    (s.only fd (Subscriber.afterReadable r.1.ring reads)).1.toConn.Registered (r.1.onReadable r.2 fd reads).2 := by
  rw [Subscriber.only] at hkept ⊢
  by_cases heq : s.fd = fd
  · subst heq
    rw [if_pos rfl] at hkept ⊢
    have hpoller : (r.1.onReadable r.2 s.fd reads).2 = r.2 := by
      rcases onReadable_cases (find_of_mem hdistinct hs) r.2 reads with ⟨-, hafter, -⟩ | ⟨-, -, heq⟩ | ⟨-, heq⟩
      · rw [hafter] at hkept
        cases hkept
      · rw [heq]
      · rw [heq]
    rw [hpoller]
    exact Subscriber.afterReadable_registered hregistered r.1.ring reads
  · rw [if_neg heq, Conn.Registered, r.1.onReadable_other r.2 heq reads]
    exact hregistered

theorem onWritable_registered {writes : List WriteResult} (hkept : (s.only fd (Subscriber.afterWritable writes)).2 = true) :
    (s.only fd (Subscriber.afterWritable writes)).1.toConn.Registered (r.1.onWritable r.2 fd writes).2 := by
  rw [Subscriber.only] at hkept ⊢
  by_cases heq : s.fd = fd
  · subst heq
    rw [if_pos rfl] at hkept ⊢
    -- `afterWritable` flushes with another Poller, which changes neither the connection nor the outcome
    obtain ⟨hconn, hok⟩ := s.toConn.flushAndArm_poller Poller.init r.2 writes
    have hflush := Conn.flushAndArm_registered hregistered writes
    rw [Subscriber.afterWritable] at hkept ⊢
    rw [onWritable, find_of_mem hdistinct hs]
    dsimp only at hkept ⊢
    rw [hok] at hkept
    rw [if_pos hkept, hconn]
    exact hflush
  · rw [if_neg heq, Conn.Registered, r.1.onWritable_other r.2 heq writes]
    exact hregistered

theorem flushAll_registered {now : Nat} {writes : Nat → List WriteResult}
    (hkept : (s.after r.1 (.flushAll now writes)).2 = true) :
    (s.after r.1 (.flushAll now writes)).1.toConn.Registered (r.1.flushAll r.2 now writes).2 := by
  rw [Subscriber.after] at hkept ⊢
  rw [flushAll]
  by_cases hskip : r.1.dirty = false ∧ now < r.1.nextTickNs
  · rw [if_pos hskip, if_pos hskip]
    exact hregistered
  · rw [if_neg hskip] at hkept ⊢
    rw [if_neg hskip]
    have hpumped := (pumpAll_registered r.1.cfg r.1.ring now writes r.2 hdistinct).1 s hs hregistered
    have hfd : ∀ t : Subscriber, (t.afterPump r.1.cfg r.1.ring now (writes t.fd)).1.fd = t.fd := fun t =>
      t.pump_fd Poller.init (writes t.fd)
    dsimp only
    rw [Conn.Registered] at hpumped ⊢
    rw [dropAll_other]
    · exact hpumped
    · rw [pumpAll_eq, mem_dead hfd hdistinct hs, hkept]
      exact Bool.noConfusion

/-- A subscriber that is kept stays registered as it remembers. -/
theorem step_registered (a : Action) (hkept : (s.after r.1 a).2 = true) :
    (s.after r.1 a).1.toConn.Registered (step r a).2 := by
  cases a with
  | publish m => exact hregistered
  | subscribe fd => exact subscribe_registered hregistered fd
  | onReadable fd reads => exact onReadable_registered hdistinct hs hregistered hkept
  | onWritable fd writes => exact onWritable_registered hdistinct hs hregistered hkept
  | flushAll now writes => exact flushAll_registered hdistinct hs hregistered hkept

end Registered

/-- `on_readable` marks the publisher when it accepts a Subscribe, and never clears the mark. -/
theorem onReadable_dirty {p : Publisher} {poller : Poller} {reads : List ReadResult}
    (hdirty : (p.onReadable poller fd reads).1.dirty = false) :
    p.dirty = false ∧ ∀ s, p.find fd = some s → s.request? reads = none := by
  cases hs : p.find fd with
  | none =>
      rw [onReadable, hs] at hdirty
      exact ⟨hdirty, fun s hcon => by cases hcon⟩
  | some s =>
      rcases onReadable_cases hs poller reads with ⟨hnone, -, heq⟩ | ⟨hnone, -, heq⟩ | ⟨-, heq⟩
      · rw [heq] at hdirty
        exact ⟨hdirty, fun t ht => Option.some.inj ht ▸ hnone⟩
      · rw [heq] at hdirty
        exact ⟨hdirty, fun t ht => Option.some.inj ht ▸ hnone⟩
      · rw [heq] at hdirty
        cases hdirty

/-- Bytes are queued only with the mark, and the mark is cleared only by a walk that arms everybody. -/
theorem Watched.step_armed (h : Watched r) (a : Action) (hdirty : (step r a).1.dirty = false) {s : Subscriber}
    (hs : s ∈ r.1.subs) (hkept : (s.after r.1 a).2 = true) : (s.after r.1 a).1.toConn.Armed := by
  cases a with
  | publish m => cases hdirty
  | subscribe fd =>
      apply h.armed _ s hs
      rw [step, subscribe] at hdirty
      split at hdirty <;> exact hdirty
  | onReadable fd reads =>
      obtain ⟨hclean, hrequest⟩ := onReadable_dirty hdirty
      have harmed := h.armed hclean s hs
      rw [Subscriber.after, Subscriber.only]
      split
      · rename_i heq
        subst heq
        have hnone := hrequest s (find_of_mem h.distinct hs)
        rcases s.afterReadable_cases r.1.ring reads with ⟨-, hread⟩ | ⟨hsome, -, -⟩
        · rw [hread, Subscriber.readLoop_received]
          exact harmed
        · rw [hnone] at hsome
          cases hsome
      · exact harmed
  | onWritable fd writes =>
      rw [step, onWritable] at hdirty
      cases hfind : r.1.find fd with
      | none =>
          rw [hfind] at hdirty
          rw [Subscriber.after, Subscriber.only, if_neg (fd_ne_of_find hfind hs)]
          exact h.armed hdirty s hs
      | some t =>
          rw [hfind] at hdirty
          dsimp only at hdirty
          split at hdirty <;> cases hdirty
  | flushAll now writes =>
      rw [Subscriber.after] at hkept ⊢
      by_cases hskip : r.1.dirty = false ∧ now < r.1.nextTickNs
      · rw [if_pos hskip]
        exact h.armed hskip.1 s hs
      · rw [if_neg hskip] at hkept ⊢
        exact Subscriber.afterPump_armed hkept

/-- Who is a subscriber after a call: one that was kept, or the connection just accepted. -/
theorem mem_subs_step (hdistinct : r.1.Distinct) (a : Action) {s' : Subscriber} (hs' : s' ∈ (step r a).1.subs) :
    (∃ s ∈ r.1.subs, s.after r.1 a = (s', true)) ∨ ∃ fd, a = .subscribe fd ∧ s' = { fd := fd } := by
  rw [(step_lists hdistinct a).subs, List.mem_append] at hs'
  rcases hs' with hkept | hfresh
  · exact Or.inl (mem_kept.1 hkept)
  · cases a with
    | subscribe fd =>
        rw [fresh] at hfresh
        split at hfresh
        · cases hfresh
        · exact Or.inr ⟨fd, rfl, List.mem_singleton.1 hfresh⟩
    | publish m => cases hfresh
    | onReadable fd reads => cases hfresh
    | onWritable fd writes => cases hfresh
    | flushAll now writes => cases hfresh

/-- The invariant is kept when accepted descriptors are new. -/
theorem Watched.step (h : Watched r) (a : Action) (hfree : ∀ fd, a = .subscribe fd → r.2 fd = none) :
    Watched (step r a) where
  distinct := h.distinct.step a
  conserved := by
    intro s' hs'
    rcases mem_subs_step h.distinct a hs' with ⟨s, hs, heq⟩ | ⟨fd, -, rfl⟩
    · have hconserved := Subscriber.after_conserved (h.conserved s hs) r.1 a
      rw [heq] at hconserved
      exact hconserved
    · exact ⟨rfl, le_rfl⟩
  registered := by
    intro s' hs'
    rcases mem_subs_step h.distinct a hs' with ⟨s, hs, heq⟩ | ⟨fd, rfl, rfl⟩
    · have hregistered := step_registered h.distinct hs (h.registered s hs) a (by rw [heq])
      rw [heq] at hregistered
      exact hregistered
    · exact Poller.add_self (hfree fd rfl)
  armed := by
    intro hdirty s' hs'
    rcases mem_subs_step h.distinct a hs' with ⟨s, hs, heq⟩ | ⟨fd, -, rfl⟩
    · have harmed := h.step_armed a hdirty hs (by rw [heq])
      rw [heq] at harmed
      exact harmed
    · rfl

theorem flushAll_dirty (p : Publisher) (poller : Poller) (now : Nat) (writes : Nat → List WriteResult) :
    (p.flushAll poller now writes).1.dirty = false := by
  rw [flushAll]
  split
  · rename_i hskip
    exact hskip.1
  · exact dropAll_dirty _ _ _

end Steps

end Publisher

end Matchbox
